import SingBox.Core.Srs
import SingBox.Library.Traced
import Mathlib.Data.List.Nodup

namespace SingBox.Core.Srs

open Library

-- A call of `collect_domain_keys`.
structure WalkCall where
  node : Nat
  current : Bytes
deriving DecidableEq

-- How many calls are open in it, itself included.
def WalkCall.nested (this : WalkCall) : Nat := this.current.length + 1

-- `collect_domain_keys` with its calls. An index outside of the array ends it.
def walk (children : List (List (UInt8 × Nat))) (leaves : List UInt64) :
    Nat → Nat → Bytes → Traced WalkCall (List Bytes)
  | 0, node, current => ⟨[⟨node, current⟩], Result.bail "domain matcher key is too long"⟩
  | room + 1, node, current => do
      Traced.mk [⟨node, current⟩] (.ok ())
      let key := if (getBit leaves node).getD false then [current] else []
      let entries ← Traced.ofResult (Result.ofOption "index out of bounds" children[node]?)
      let below ← Traced.mapM (fun (label, child) => do
        Traced.ofResult (Result.ensure (child < children.length) "invalid domain matcher child")
        walk children leaves room child (current ++ [label])) entries
      return key ++ below.flatten

section

variable {bitmap : List UInt64} {labels : List UInt8}

-- The children of a node are numbered on from the labels before it.
theorem readNode_indices {node : List (UInt8 × Nat)} {bitIndex labelIndex nextBit nextLabel : Nat}
    (h : readNode bitmap labels bitIndex labelIndex = .ok (node, nextBit, nextLabel)) :
    node.map Prod.snd = List.range' (labelIndex + 1) node.length ∧
      nextLabel = labelIndex + node.length := by
  induction labels generalizing node bitIndex labelIndex with
  | nil =>
      rw [readNode] at h
      split at h
      · cases h
      · obtain ⟨rfl, -, rfl⟩ : [] = node ∧ bitIndex + 1 = nextBit ∧ labelIndex = nextLabel := by
          simpa using h
        exact ⟨rfl, rfl⟩
      · cases h
  | cons label rest ih =>
      rw [readNode] at h
      split at h
      · cases h
      · obtain ⟨rfl, -, rfl⟩ : [] = node ∧ bitIndex + 1 = nextBit ∧ labelIndex = nextLabel := by
          simpa using h
        exact ⟨rfl, rfl⟩
      · obtain ⟨⟨others, bit, last⟩, hread, hnode⟩ := Result.bind_eq_ok.mp h
        obtain ⟨rfl, rfl, rfl⟩ : (label, labelIndex + 1) :: others = node ∧ bit = nextBit ∧
            last = nextLabel := by simpa [pure, Except.pure] using hnode
        obtain ⟨hothers, rfl⟩ := ih hread
        refine ⟨?_, by rw [List.length_cons]; omega⟩
        rw [List.map_cons, hothers, List.length_cons, List.range'_succ]

theorem readNodes_indices {count bitIndex labelIndex last : Nat}
    {children : List (List (UInt8 × Nat))}
    (h : readNodes bitmap labels count bitIndex labelIndex = .ok (children, last)) :
    children.length = count ∧
      children.flatten.map Prod.snd = List.range' (labelIndex + 1) children.flatten.length ∧
      last = labelIndex + children.flatten.length := by
  induction count generalizing children bitIndex labelIndex with
  | zero =>
      obtain ⟨rfl, rfl⟩ : [] = children ∧ labelIndex = last := by simpa [readNodes] using h
      exact ⟨rfl, rfl, rfl⟩
  | succ count ih =>
      rw [readNodes] at h
      obtain ⟨⟨node, nextBit, nextLabel⟩, hnode, h⟩ := Result.bind_eq_ok.mp h
      obtain ⟨⟨others, end_⟩, hothers, h⟩ := Result.bind_eq_ok.mp h
      obtain ⟨rfl, rfl⟩ : node :: others = children ∧ end_ = last := by simpa [pure, Except.pure] using h
      obtain ⟨hindices, rfl⟩ := readNode_indices hnode
      obtain ⟨hcount, hrest, rfl⟩ := ih hothers
      refine ⟨by rw [List.length_cons, hcount], ?_, ?_⟩
      · rw [List.flatten_cons, List.map_append, hindices, hrest, List.length_append,
          ← List.range'_append_1]
        congr 2
        omega
      · rw [List.flatten_cons, List.length_append]
        omega

end

-- The children of all nodes, one node after another, are numbered from one on.
structure Numbered (children : List (List (UInt8 × Nat))) : Prop where
  length : children.length = children.flatten.length + 1
  indices : children.flatten.map Prod.snd = List.range' 1 children.flatten.length

theorem numbered_of_readNodes {bitmap : List UInt64} {labels : List UInt8}
    {children : List (List (UInt8 × Nat))}
    (h : readNodes bitmap labels (labels.length + 1) 0 0 = .ok (children, labels.length)) :
    Numbered children := by
  obtain ⟨hlength, hindices, hlast⟩ := readNodes_indices h
  exact ⟨by omega, by simpa using hindices⟩

-- The key that leads from a node to another.
inductive Spelled (children : List (List (UInt8 × Nat))) (start : Nat) : Bytes → Nat → Prop where
  | here : Spelled children start [] start
  | down {key : Bytes} {node child : Nat} {label : UInt8} {entries : List (UInt8 × Nat)}
      (hkey : Spelled children start key node) (hentries : children[node]? = some entries)
      (hchild : (label, child) ∈ entries) : Spelled children start (key ++ [label]) child

def Reachable (children : List (List (UInt8 × Nat))) (node : Nat) : Prop :=
  ∃ key, Spelled children 0 key node

namespace Numbered

variable {children : List (List (UInt8 × Nat))} {node other child : Nat} {label otherLabel : UInt8}
  {entries otherEntries : List (UInt8 × Nat)}

-- How many children come before those of a node.
def before (children : List (List (UInt8 × Nat))) (node : Nat) : Nat :=
  (children.take node).flatten.length

theorem before_mono (h : node ≤ other) : before children node ≤ before children other := by
  obtain ⟨rest, hrest⟩ : children.take node <+: children.take other := List.take_prefix_take_left h
  rw [before, before, ← hrest, List.flatten_append, List.length_append]
  exact Nat.le_add_right _ _

theorem before_succ (h : children[node]? = some entries) :
    before children (node + 1) = before children node + entries.length := by
  rw [before, List.take_add_one, h, Option.toList_some, List.flatten_append, List.length_append,
    List.flatten_singleton, before]

theorem children_indices (h : Numbered children) (hentries : children[node]? = some entries) :
    entries.map Prod.snd = List.range' (before children node + 1) entries.length := by
  obtain ⟨hlt, hget⟩ := List.getElem?_eq_some_iff.mp hentries
  have hsplit : children = children.take node ++ entries :: children.drop (node + 1) := by
    rw [← hget, List.getElem_cons_drop, List.take_append_drop]
  have hindices := h.indices
  rw [hsplit, List.flatten_append, List.flatten_cons, List.map_append, List.map_append,
    List.length_append, List.length_append, ← List.range'_append_1, ← List.range'_append_1] at hindices
  have hlength : ((children.take node).flatten.map Prod.snd).length = (children.take node).flatten.length :=
    List.length_map _
  have hrest := (List.append_inj hindices (by rw [hlength, List.length_range'])).2
  have hfirst := (List.append_inj hrest (by simp)).1
  rw [hfirst, before, Nat.add_comm]

theorem mem_range (h : Numbered children) (hentries : children[node]? = some entries)
    (hchild : (label, child) ∈ entries) :
    before children node < child ∧ child ≤ before children (node + 1) := by
  have hmem : child ∈ entries.map Prod.snd := List.mem_map.mpr ⟨_, hchild, rfl⟩
  rw [h.children_indices hentries, List.mem_range'_1] at hmem
  rw [before_succ hentries]
  omega

-- No node is the child of two.
theorem parent_unique (h : Numbered children) (hentries : children[node]? = some entries)
    (hother : children[other]? = some otherEntries) (hchild : (label, child) ∈ entries)
    (hchildOther : (otherLabel, child) ∈ otherEntries) : node = other := by
  have hrange := h.mem_range hentries hchild
  have hrangeOther := h.mem_range hother hchildOther
  obtain hlt | heq | hgt := Nat.lt_trichotomy node other
  · have hmono : before children (node + 1) ≤ before children other := before_mono hlt
    omega
  · exact heq
  · have hmono : before children (other + 1) ≤ before children node := before_mono hgt
    omega

theorem child_lt_length (h : Numbered children) (hentries : children[node]? = some entries)
    (hchild : (label, child) ∈ entries) : child < children.length := by
  have hrange := h.mem_range hentries hchild
  have hmono : before children (node + 1) ≤ children.flatten.length := by
    obtain ⟨rest, hrest⟩ := List.take_prefix (node + 1) children
    have hflatten := congrArg (fun list => list.flatten.length) hrest
    simp only [List.flatten_append, List.length_append] at hflatten
    rw [before]
    omega
  have hlength := h.length
  omega

-- From the root on, as many children come before those of a node as its own number says.
theorem reachable_le (h : Numbered children) {key : Bytes} (hkey : Spelled children 0 key node) :
    node ≤ before children node := by
  induction hkey with
  | here => exact Nat.zero_le _
  | @down key node child label entries _ hentries hchild ih =>
      have hrange := h.mem_range hentries hchild
      have hmono : before children (node + 1) ≤ before children child := before_mono (by omega)
      omega

theorem child_gt (h : Numbered children) (hnode : Reachable children node)
    (hentries : children[node]? = some entries) (hchild : (label, child) ∈ entries) : node < child := by
  obtain ⟨key, hkey⟩ := hnode
  have hle := h.reachable_le hkey
  have hrange := h.mem_range hentries hchild
  omega

theorem reachable_lt (h : Numbered children) (hnode : Reachable children node) :
    node < children.length := by
  obtain ⟨key, hkey⟩ := hnode
  cases hkey with
  | here => have hlength := h.length; omega
  | down _ hentries hchild => exact h.child_lt_length hentries hchild

theorem reachable_child (hnode : Reachable children node) (hentries : children[node]? = some entries)
    (hchild : (label, child) ∈ entries) : Reachable children child := by
  obtain ⟨key, hkey⟩ := hnode
  exact ⟨key ++ [label], hkey.down hentries hchild⟩

theorem spelled_le (h : Numbered children) {start : Nat} {key : Bytes}
    (hstart : Reachable children start) (hkey : Spelled children start key node) :
    Reachable children node ∧ start ≤ node := by
  induction hkey with
  | here => exact ⟨hstart, Nat.le_refl start⟩
  | down _ hentries hchild ih =>
      have hgt := h.child_gt ih.1 hentries hchild
      exact ⟨reachable_child ih.1 hentries hchild, by omega⟩

-- What is below one child of a node is not below another.
theorem apart (h : Numbered children) (hnode : Reachable children node)
    (hentries : children[node]? = some entries) (hchild : (label, child) ∈ entries)
    (hother : (otherLabel, other) ∈ entries) (hne : child ≠ other) {key otherKey : Bytes} {last : Nat}
    (hkey : Spelled children child key last) (hotherKey : Spelled children other otherKey last) :
    False := by
  have hchildReach := reachable_child hnode hentries hchild
  have hotherReach := reachable_child hnode hentries hother
  have hgt := h.child_gt hnode hentries hchild
  have hgtOther := h.child_gt hnode hentries hother
  induction hkey generalizing otherKey with
  | here =>
      cases hotherKey with
      | here => exact hne rfl
      | down hbelow hmid hlast =>
          obtain rfl := h.parent_unique hentries hmid hchild hlast
          have hle := (h.spelled_le hotherReach hbelow).2
          omega
  | down hbelow hmid hlast ih =>
      cases hotherKey with
      | here =>
          obtain rfl := h.parent_unique hentries hmid hother hlast
          have hle := (h.spelled_le hchildReach hbelow).2
          omega
      | down hbelowOther hmidOther hlastOther =>
          obtain rfl := h.parent_unique hmid hmidOther hlast hlastOther
          exact ih hbelowOther

theorem nodup_children (h : Numbered children) (hentries : children[node]? = some entries) :
    (entries.map Prod.snd).Nodup := by
  rw [h.children_indices hentries]
  exact List.nodup_range'

end Numbered

theorem Spelled.cons {children : List (List (UInt8 × Nat))} {node child last : Nat} {label : UInt8}
    {entries : List (UInt8 × Nat)} {key : Bytes} (hentries : children[node]? = some entries)
    (hchild : (label, child) ∈ entries) (hkey : Spelled children child key last) :
    Spelled children node (label :: key) last := by
  induction hkey with
  | here => exact Spelled.here.down hentries hchild
  | down _ hmid hlast ih => exact ih.down hmid hlast

section

variable {children : List (List (UInt8 × Nat))} {leaves : List UInt64} {room node : Nat}
  {current : Bytes} {entries : List (UInt8 × Nat)} {keys : List Bytes}

-- The walk below one entry of a node.
def descend (children : List (List (UInt8 × Nat))) (leaves : List UInt64) (room : Nat)
    (current : Bytes) (entry : UInt8 × Nat) : Traced WalkCall (List Bytes) :=
  walk children leaves room entry.2 (current ++ [entry.1])

def keyAt (leaves : List UInt64) (call : WalkCall) : List Bytes :=
  if (getBit leaves call.node).getD false then [call.current] else []

-- Neither check of a call fails.
theorem walk_succ (h : Numbered children) (hentries : children[node]? = some entries)
    (leaves : List UInt64) (room : Nat) (current : Bytes) :
    walk children leaves (room + 1) node current =
      ⟨⟨node, current⟩ :: (Traced.mapM (descend children leaves room current) entries).events,
        (Traced.mapM (descend children leaves room current) entries).result >>= fun below =>
          .ok (keyAt leaves ⟨node, current⟩ ++ below.flatten)⟩ := by
  have hmap : Traced.mapM (fun entry : UInt8 × Nat => do
        Traced.ofResult (Result.ensure (entry.2 < children.length) "invalid domain matcher child")
        walk children leaves room entry.2 (current ++ [entry.1])) entries =
      Traced.mapM (descend children leaves room current) entries := by
    refine Traced.mapM_congr fun entry hentry => ?_
    have hlt := h.child_lt_length hentries hentry
    simp only [decide_eq_true hlt]
    rfl
  rw [walk, hentries, Traced.bind_ok rfl, Traced.bind_ok rfl]
  show Traced.mk (_ :: (Traced.mapM _ entries >>= _).events) (Traced.mapM _ entries >>= _).result = _
  rw [hmap]
  generalize Traced.mapM (descend children leaves room current) entries = below
  obtain ⟨events, chain | found⟩ := below
  · rfl
  · rw [Traced.bind_ok rfl]
    show Traced.mk (_ :: (events ++ [])) _ = _
    rw [List.append_nil]
    rfl

theorem walk_result (h : Numbered children) (hnode : node < children.length) :
    (walk children leaves room node current).result =
      collectDomainKeys children leaves room node current := by
  induction room generalizing node current with
  | zero => rfl
  | succ room ih =>
      obtain ⟨entries, hentries⟩ : ∃ entries, children[node]? = some entries :=
        ⟨_, List.getElem?_eq_getElem hnode⟩
      have hbelow : entries.mapM (fun entry => (descend children leaves room current entry).result) =
          entries.mapM (fun entry => do
            Result.ensure (entry.2 < children.length) "invalid domain matcher child"
            collectDomainKeys children leaves room entry.2 (current ++ [entry.1])) := by
        refine Result.mapM_congr fun entry hentry => ?_
        have hlt := h.child_lt_length hentries hentry
        rw [descend, ih hlt, Result.ensure, if_pos (decide_eq_true hlt)]
        rfl
      rw [walk_succ h hentries, collectDomainKeys, List.getD_eq_getElem?_getD, hentries,
        Option.getD_some, Traced.mapM_result, hbelow]
      rfl

-- Each call is at a node below, with the labels on the way to it.
theorem walk_calls (h : Numbered children) (hnode : Reachable children node) {call : WalkCall}
    (hcall : call ∈ (walk children leaves room node current).events) :
    ∃ key, Spelled children node key call.node ∧ call.current = current ++ key ∧ key.length ≤ room := by
  induction room generalizing node current with
  | zero =>
      obtain rfl : call = ⟨node, current⟩ := List.mem_singleton.mp hcall
      exact ⟨[], .here, (List.append_nil current).symm, Nat.le_refl 0⟩
  | succ room ih =>
      obtain ⟨entries, hentries⟩ : ∃ entries, children[node]? = some entries :=
        ⟨_, List.getElem?_eq_getElem (h.reachable_lt hnode)⟩
      rw [walk_succ h hentries] at hcall
      obtain rfl | hbelow := List.mem_cons.mp hcall
      · exact ⟨[], .here, (List.append_nil current).symm, Nat.zero_le _⟩
      · obtain ⟨⟨label, child⟩, hentry, hcall⟩ :=
          List.mem_flatMap.mp ((Traced.mapM_events_prefix _ entries).subset hbelow)
        obtain ⟨key, hkey, hcurrent, hlength⟩ :=
          ih (Numbered.reachable_child hnode hentries hentry) hcall
        refine ⟨label :: key, hkey.cons hentries hentry, ?_, ?_⟩
        · rw [hcurrent, List.append_assoc, List.singleton_append]
        · rw [List.length_cons]
          omega

-- No node is reached twice, as the nodes below two children of one are others.
theorem walk_nodup (h : Numbered children) (hnode : Reachable children node) :
    ((walk children leaves room node current).events.map WalkCall.node).Nodup := by
  induction room generalizing node current with
  | zero => exact List.nodup_singleton node
  | succ room ih =>
      obtain ⟨entries, hentries⟩ : ∃ entries, children[node]? = some entries :=
        ⟨_, List.getElem?_eq_getElem (h.reachable_lt hnode)⟩
      have hfronts := (Traced.mapM_events_prefix (descend children leaves room current) entries).map
        WalkCall.node
      rw [walk_succ h hentries, List.map_cons, List.nodup_cons]
      constructor
      · intro hmem
        obtain ⟨call, hcall, heq⟩ := List.mem_map.mp (hfronts.subset hmem)
        obtain ⟨⟨label, child⟩, hentry, hcall⟩ := List.mem_flatMap.mp hcall
        have hchild := Numbered.reachable_child hnode hentries hentry
        obtain ⟨key, hkey, -⟩ := walk_calls h hchild hcall
        have hle : child ≤ call.node := (h.spelled_le hchild hkey).2
        have hgt : node < child := h.child_gt hnode hentries hentry
        have hsame : call.node = node := heq
        omega
      · refine hfronts.sublist.nodup ?_
        rw [List.map_flatMap, List.nodup_flatMap]
        refine ⟨fun entry hentry => ih (Numbered.reachable_child hnode hentries hentry), ?_⟩
        have hchildren := List.pairwise_map.mp (h.nodup_children hentries)
        refine hchildren.imp_of_mem fun {first other} hfirst hother hne last hlast hlastOther => ?_
        obtain ⟨call, hcall, rfl⟩ := List.mem_map.mp hlast
        obtain ⟨callOther, hcallOther, hsame⟩ := List.mem_map.mp hlastOther
        obtain ⟨key, hkey, -⟩ := walk_calls h (Numbered.reachable_child hnode hentries hfirst) hcall
        obtain ⟨keyOther, hkeyOther, -⟩ :=
          walk_calls h (Numbered.reachable_child hnode hentries hother) hcallOther
        exact h.apart hnode hentries hfirst hother hne hkey (hsame ▸ hkeyOther)

theorem Spelled.cases_first {last : Nat} {key : Bytes} (h : Spelled children node key last) :
    (key = [] ∧ last = node) ∨ ∃ label rest child entries, key = label :: rest ∧
      children[node]? = some entries ∧ (label, child) ∈ entries ∧ Spelled children child rest last := by
  induction h with
  | here => exact .inl ⟨rfl, rfl⟩
  | @down key mid last label entries _ hentries hlast ih =>
      obtain ⟨rfl, rfl⟩ | ⟨first, rest, child, others, rfl, hothers, hfirst, hrest⟩ := ih
      · exact .inr ⟨label, [], last, entries, rfl, hentries, hlast, .here⟩
      · exact .inr ⟨first, rest ++ [label], child, others, rfl, hothers, hfirst,
          hrest.down hentries hlast⟩

-- A walk that ends well has been to every node below, and has taken the key of each leaf.
theorem walk_complete (h : Numbered children) (hnode : Reachable children node)
    (hok : (walk children leaves room node current).result = .ok keys) :
    keys = (walk children leaves room node current).events.flatMap (keyAt leaves) ∧
      ∀ key last, Spelled children node key last →
        ⟨last, current ++ key⟩ ∈ (walk children leaves room node current).events := by
  induction room generalizing node current keys with
  | zero => cases hok
  | succ room ih =>
      obtain ⟨entries, hentries⟩ : ∃ entries, children[node]? = some entries :=
        ⟨_, List.getElem?_eq_getElem (h.reachable_lt hnode)⟩
      rw [walk_succ h hentries] at hok ⊢
      obtain ⟨below, hbelow, hkeys⟩ := Result.bind_eq_ok.mp hok
      cases hkeys
      have hevents := Traced.mapM_events_ok hbelow
      rw [Traced.mapM_result] at hbelow
      rw [hevents]
      constructor
      · have hflatten := Result.mapM_eq_map hbelow fun entry hentry found hfound =>
          (ih (Numbered.reachable_child hnode hentries hentry) hfound).1
        rw [List.flatMap_cons, List.flatMap_assoc, hflatten, List.flatMap_def]
        rfl
      · intro key last hkey
        obtain ⟨rfl, rfl⟩ | ⟨label, rest, child, others, rfl, hothers, hentry, hrest⟩ := hkey.cases_first
        · rw [List.append_nil]
          exact List.mem_cons_self
        · obtain rfl : entries = others := Option.some.inj (hentries.symm.trans hothers)
          obtain ⟨found, hfound⟩ := Result.mapM_each hbelow hentry
          have hmem := (ih (Numbered.reachable_child hnode hentries hentry) hfound).2 rest last hrest
          rw [List.append_assoc, List.singleton_append] at hmem
          exact List.mem_cons_of_mem _ (List.mem_flatMap.mpr ⟨(label, child), hentry, hmem⟩)

theorem walk_error (h : Numbered children) (hnode : Reachable children node) {chain : List String}
    (herror : (walk children leaves room node current).result = .error chain) :
    chain = ["domain matcher key is too long"] := by
  induction room generalizing node current with
  | zero =>
      cases herror
      rfl
  | succ room ih =>
      obtain ⟨entries, hentries⟩ : ∃ entries, children[node]? = some entries :=
        ⟨_, List.getElem?_eq_getElem (h.reachable_lt hnode)⟩
      rw [walk_succ h hentries, Traced.mapM_result] at herror
      cases hbelow : entries.mapM fun entry => (descend children leaves room current entry).result with
      | error first =>
          obtain rfl : first = chain := by simpa [hbelow, Bind.bind, Except.bind] using herror
          obtain ⟨entry, hentry, hfailed⟩ := Result.mapM_error hbelow
          exact ih (Numbered.reachable_child hnode hentries hentry) hfailed
      | ok below => simp [hbelow, Bind.bind, Except.bind] at herror

end

-- The keys are those of the leaves that the root reaches, each leaf's once.
def OneKeyPerLeaf (children : List (List (UInt8 × Nat))) (leaves : List UInt64) (keys : List Bytes) :
    Prop :=
  ∃ calls : List WalkCall, (calls.map WalkCall.node).Nodup ∧
    (∀ node, node ∈ calls.map WalkCall.node ↔
      Reachable children node ∧ getBit leaves node = some true) ∧
    (∀ call ∈ calls, Spelled children 0 call.current call.node) ∧ keys = calls.map WalkCall.current

theorem flatMap_keyAt (leaves : List UInt64) (calls : List WalkCall) :
    calls.flatMap (keyAt leaves) =
      (calls.filter fun call => getBit leaves call.node = some true).map WalkCall.current := by
  induction calls with
  | nil => rfl
  | cons call rest ih =>
      rw [List.flatMap_cons, ih, List.filter_cons, keyAt]
      cases hbit : getBit leaves call.node with
      | none => simp
      | some bit => cases bit <;> simp

section

variable {children : List (List (UInt8 × Nat))} {leaves : List UInt64} {keys : List Bytes}

theorem root_walk (h : Numbered children) (leaves : List UInt64) (room : Nat) :
    (walk children leaves room 0 []).result = collectDomainKeys children leaves room 0 [] ∧
      ((walk children leaves room 0 []).events.map WalkCall.node).Nodup ∧
      ∀ call ∈ (walk children leaves room 0 []).events,
        call.node < children.length ∧ call.nested ≤ room + 1 := by
  have hroot : Reachable children 0 := ⟨[], .here⟩
  refine ⟨walk_result h (h.reachable_lt hroot), walk_nodup h hroot, fun call hcall => ?_⟩
  obtain ⟨key, hkey, hcurrent, hlength⟩ := walk_calls h hroot hcall
  refine ⟨h.reachable_lt ⟨key, hkey⟩, ?_⟩
  rw [WalkCall.nested, hcurrent, List.nil_append]
  omega

theorem collectDomainKeys_leaves (h : Numbered children) {room : Nat}
    (hok : collectDomainKeys children leaves room 0 [] = .ok keys) :
    OneKeyPerLeaf children leaves keys := by
  have hroot : Reachable children 0 := ⟨[], .here⟩
  rw [← walk_result h (h.reachable_lt hroot)] at hok
  obtain ⟨hkeys, hall⟩ := walk_complete h hroot hok
  rw [flatMap_keyAt] at hkeys
  refine ⟨_, ?_, fun node => ?_, fun call hcall => ?_, hkeys⟩
  · exact (List.filter_sublist.map WalkCall.node).nodup (walk_nodup h hroot)
  · constructor
    · intro hnode
      obtain ⟨call, hcall, rfl⟩ := List.mem_map.mp hnode
      obtain ⟨hcall, hleaf⟩ := List.mem_filter.mp hcall
      obtain ⟨key, hkey, -⟩ := walk_calls h hroot hcall
      exact ⟨⟨key, hkey⟩, of_decide_eq_true hleaf⟩
    · rintro ⟨⟨key, hkey⟩, hleaf⟩
      exact List.mem_map.mpr ⟨⟨node, [] ++ key⟩,
        List.mem_filter.mpr ⟨hall key node hkey, decide_eq_true hleaf⟩, rfl⟩
  · obtain ⟨key, hkey, hcurrent, -⟩ := walk_calls h hroot (List.mem_filter.mp hcall).1
    rw [List.nil_append] at hcurrent
    exact hcurrent ▸ hkey

theorem collectDomainKeys_error (h : Numbered children) {room : Nat} {chain : List String}
    (herror : collectDomainKeys children leaves room 0 [] = .error chain) :
    chain = ["domain matcher key is too long"] := by
  have hroot : Reachable children 0 := ⟨[], .here⟩
  rw [← walk_result h (h.reachable_lt hroot)] at herror
  exact walk_error h hroot herror

end

-- Nodes that the root does not reach may be children of themselves.
theorem malformed_trie_harmless (iter : List String → List String) (this : DomainTrie) :
    (∀ children, readNodes this.labelBitmap this.labels (this.labels.length + 1) 0 0 =
        .ok (children, this.labels.length) →
      (∀ node entries label child, Reachable children node → children[node]? = some entries →
        (label, child) ∈ entries → node < child ∧ child < children.length) ∧
      (walk children this.leaves (MAX_KEY + 1) 0 []).result =
        collectDomainKeys children this.leaves (MAX_KEY + 1) 0 [] ∧
      ((walk children this.leaves (MAX_KEY + 1) 0 []).events.map WalkCall.node).Nodup ∧
      (∀ call ∈ (walk children this.leaves (MAX_KEY + 1) 0 []).events,
        call.node < children.length ∧ call.nested ≤ 4098) ∧
      (collectDomainKeys children this.leaves (MAX_KEY + 1) 0 [] =
          .error ["domain matcher key is too long"] ∨
        ∃ keys, collectDomainKeys children this.leaves (MAX_KEY + 1) 0 [] = .ok keys ∧
          OneKeyPerLeaf children this.leaves keys)) ∧
    ((∃ chain, this.domains iter = .error chain) ∨
      ∃ children keys, readNodes this.labelBitmap this.labels (this.labels.length + 1) 0 0 =
          .ok (children, this.labels.length) ∧
        OneKeyPerLeaf children this.leaves keys ∧ this.domains iter = dumpDomainKeys iter keys) := by
  constructor
  · intro children hchildren
    have h := numbered_of_readNodes hchildren
    refine ⟨fun node entries label child hnode hentries hchild =>
      ⟨h.child_gt hnode hentries hchild, h.child_lt_length hentries hchild⟩, ?_⟩
    obtain ⟨hresult, hnodup, hcalls⟩ := root_walk h this.leaves (MAX_KEY + 1)
    refine ⟨hresult, hnodup, hcalls, ?_⟩
    cases hkeys : collectDomainKeys children this.leaves (MAX_KEY + 1) 0 [] with
    | error chain => exact .inl (congrArg _ (collectDomainKeys_error h hkeys))
    | ok keys => exact .inr ⟨keys, rfl, collectDomainKeys_leaves h hkeys⟩
  · cases hdomains : this.domains iter with
    | error chain => exact .inl ⟨chain, rfl⟩
    | ok found =>
        refine .inr ?_
        have hsteps := hdomains
        simp only [DomainTrie.domains] at hsteps
        obtain ⟨⟨⟩, -, hsteps⟩ := Result.bind_eq_ok.mp hsteps
        obtain ⟨⟨children, last⟩, hchildren, hsteps⟩ := Result.bind_eq_ok.mp hsteps
        obtain ⟨⟨⟩, hlast, hsteps⟩ := Result.bind_eq_ok.mp hsteps
        obtain ⟨keys, hkeys, hdump⟩ := Result.bind_eq_ok.mp hsteps
        obtain rfl : last = this.labels.length := of_decide_eq_true (Result.ensure_eq_ok.mp hlast)
        exact ⟨children, keys, hchildren,
          collectDomainKeys_leaves (numbered_of_readNodes hchildren) hkeys, hdump.symm⟩

-- The second node is its own child here, and the root has none.
def ORPHAN : DomainTrie := { leaves := [3], labelBitmap := [5], labels := [0x61] }

theorem malformed_trie_harmless_orphan :
    readNodes ORPHAN.labelBitmap ORPHAN.labels 2 0 0 = .ok ([[], [(0x61, 1)]], 1) ∧
      ∀ call ∈ (walk [[], [(0x61, 1)]] ORPHAN.leaves (MAX_KEY + 1) 0 []).events, call.node < 2 := by
  have hread : readNodes ORPHAN.labelBitmap ORPHAN.labels 2 0 0 = .ok ([[], [(0x61, 1)]], 1) := by
    decide
  obtain ⟨-, -, -, hcalls, -⟩ := (malformed_trie_harmless id ORPHAN).1 [[], [(0x61, 1)]] hread
  exact ⟨hread, fun call hcall => (hcalls call hcall).1⟩

end SingBox.Core.Srs
