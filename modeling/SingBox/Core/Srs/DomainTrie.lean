import Mathlib.Data.List.Nodup
import SingBox.Core.Srs.RoundTrip
import SingBox.Library.BreadthFirst

namespace SingBox.Core.Srs

open Library

-- The words of a bitmap, the first bit lowest.
def packBits (bits : List Bool) : List UInt64 :=
  (List.range ((bits.length + 63) / 64)).map fun word =>
    UInt64.ofNat (Nat.ofBits fun bit : Fin 64 => bits.getD (64 * word + bit) false)

theorem packBits_length (bits : List Bool) : (packBits bits).length = (bits.length + 63) / 64 := by
  rw [packBits, List.length_map, List.length_range]

private theorem word_testBit (word : UInt64) (bit : Nat) (h : bit < 64) :
    (word &&& (1 <<< UInt64.ofNat bit) != 0) = word.toNat.testBit bit := by
  have hbit : (UInt64.ofNat bit).toNat % 64 = bit := by
    rw [UInt64.toNat_ofNat']
    omega
  have hpow : 2 ^ bit < 2 ^ 64 := Nat.pow_lt_pow_right (by decide) h
  have hshift : ((1 : UInt64) <<< UInt64.ofNat bit).toNat = 2 ^ bit := by
    rw [UInt64.toNat_shiftLeft, hbit, UInt64.toNat_one, Nat.one_shiftLeft, Nat.mod_eq_of_lt hpow]
  have hand (index : Nat) : (word &&& (1 <<< UInt64.ofNat bit)).toNat.testBit index =
      (word.toNat.testBit index && decide (bit = index)) := by
    rw [UInt64.toNat_and, hshift, Nat.testBit_and, Nat.testBit_two_pow]
  cases htest : word.toNat.testBit bit with
  | false =>
      have hzero : (word &&& (1 <<< UInt64.ofNat bit)).toNat = 0 := by
        refine Nat.eq_of_testBit_eq fun index => ?_
        rw [hand, Nat.zero_testBit, Bool.and_eq_false_iff, decide_eq_false_iff_not]
        by_cases he : bit = index
        · exact .inl (he ▸ htest)
        · exact .inr he
      rw [bne_eq_false_iff_eq]
      exact UInt64.toNat_inj.mp hzero
  | true =>
      rw [bne_iff_ne]
      intro hzero
      have hset := hand bit
      rw [hzero, htest, decide_eq_true rfl] at hset
      simp at hset

theorem getBit_packBits {bits : List Bool} {index : Nat} {bit : Bool}
    (h : bits[index]? = some bit) : getBit (packBits bits) index = some bit := by
  obtain ⟨hlt, hget⟩ := List.getElem?_eq_some_iff.mp h
  have hword : index / 64 < (bits.length + 63) / 64 := by omega
  have hbit : index % 64 < 64 := Nat.mod_lt index (by decide)
  have hlow : index &&& 63 = index % 64 := Nat.and_two_pow_sub_one_eq_mod index 6
  have hhigh : index >>> 6 = index / 64 := Nat.shiftRight_eq_div_pow index 6
  have hat : 64 * (index / 64) + index % 64 = index := Nat.div_add_mod index 64
  have hsize (word : Nat) : (Nat.ofBits fun bit : Fin 64 => bits.getD (64 * word + bit) false) %
      2 ^ 64 = Nat.ofBits fun bit : Fin 64 => bits.getD (64 * word + bit) false :=
    Nat.mod_eq_of_lt (Nat.ofBits_lt_two_pow _)
  rw [getBit, hhigh, hlow, packBits, List.getElem?_map, List.getElem?_range hword]
  simp only [Option.map_some, Option.some.injEq]
  rw [word_testBit _ _ hbit, UInt64.toNat_ofNat', hsize, Nat.testBit_ofBits_lt _ _ hbit]
  simp only [hat, List.getD_eq_getElem?_getD, h, Option.getD_some]

-- The trie of a set of keys. A node is what its keys begin with.
namespace DomainTrie

section

variable (keys : List Bytes)

-- The bytes that a key goes on with, in their order.
def labelsAt (node : Bytes) : List UInt8 :=
  ((List.range 256).map UInt8.ofNat).filter fun label =>
    keys.any fun key => (node ++ [label]).isPrefixOf key

def edges (node : Bytes) : List (UInt8 × Bytes) :=
  (labelsAt keys node).map fun label => (label, node ++ [label])

def depth : Nat := keys.foldr (fun key depth => max key.length depth) 0

def nodes : List Bytes := BreadthFirst.order (edges keys) [] (depth keys)

-- A zero for each child of a node, and a one behind them.
def degreeBits (node : Bytes) : List Bool := (labelsAt keys node).map (fun _ => false) ++ [true]

def ofKeys : DomainTrie where
  leaves := packBits ((nodes keys).map fun node => keys.contains node)
  labelBitmap := packBits ((nodes keys).flatMap (degreeBits keys))
  labels := (nodes keys).flatMap (labelsAt keys)

variable {keys}

theorem mem_labelsAt {node : Bytes} {label : UInt8} :
    label ∈ labelsAt keys node ↔ ∃ key ∈ keys, node ++ [label] <+: key := by
  have hall : label ∈ (List.range 256).map UInt8.ofNat :=
    List.mem_map.mpr ⟨label.toNat, List.mem_range.mpr label.toNat_lt, UInt8.ofNat_toNat⟩
  simp only [labelsAt, List.mem_filter, hall, true_and, List.any_eq_true, List.isPrefixOf_iff_prefix]

theorem length_le_depth {key : Bytes} (h : key ∈ keys) : key.length ≤ depth keys := by
  unfold depth
  induction keys with
  | nil => cases h
  | cons first rest ih =>
      rw [List.foldr_cons]
      obtain rfl | hrest := List.mem_cons.mp h
      · exact Nat.le_max_left _ _
      · exact (ih hrest).trans (Nat.le_max_right _ _)

@[simp] theorem children_edges (node : Bytes) :
    BreadthFirst.children (edges keys) node = (labelsAt keys node).map fun label => node ++ [label] := by
  simp [BreadthFirst.children, edges]

-- The nodes of a level are as long as the level is deep.
theorem level_spec {level : Nat} {node : Bytes}
    (h : node ∈ BreadthFirst.level (edges keys) [] (level + 1)) :
    node.length = level + 1 ∧ ∃ key ∈ keys, node <+: key := by
  induction level generalizing node with
  | zero =>
      obtain ⟨parent, hparent, hchild⟩ := List.mem_flatMap.mp h
      obtain rfl := List.mem_singleton.mp hparent
      rw [children_edges] at hchild
      obtain ⟨label, hlabel, rfl⟩ := List.mem_map.mp hchild
      exact ⟨rfl, mem_labelsAt.mp hlabel⟩
  | succ level ih =>
      obtain ⟨parent, hparent, hchild⟩ := List.mem_flatMap.mp h
      rw [children_edges] at hchild
      obtain ⟨label, hlabel, rfl⟩ := List.mem_map.mp hchild
      refine ⟨?_, mem_labelsAt.mp hlabel⟩
      rw [List.length_append, (ih hparent).1, List.length_singleton]

variable (keys)

theorem nodes_eq : nodes keys = [] :: (nodes keys).flatMap (BreadthFirst.children (edges keys)) := by
  refine BreadthFirst.order_eq (edges keys) (List.eq_nil_iff_forall_not_mem.mpr fun node h => ?_)
  obtain ⟨hlen, key, hkey, hnode⟩ := level_spec h
  have hle := hnode.length_le
  have hdepth := length_le_depth hkey
  omega

-- Every node but the root is reached by one label.
theorem labels_length : (ofKeys keys).labels.length + 1 = (nodes keys).length := by
  have hlength := congrArg List.length (nodes_eq keys)
  have hmap : (ofKeys keys).labels.length =
      ((nodes keys).flatMap (BreadthFirst.children (edges keys))).length := by
    simp [ofKeys, List.length_flatMap]
  rw [List.length_cons] at hlength
  omega

theorem degreeBits_length (nodes : List Bytes) :
    (nodes.flatMap (degreeBits keys)).length =
      (nodes.flatMap (labelsAt keys)).length + nodes.length := by
  induction nodes with
  | nil => rfl
  | cons node rest ih =>
      simp only [List.flatMap_cons, List.length_append, ih, degreeBits, List.length_map,
        List.length_cons, List.length_nil]
      omega

end

-- The bitmap goes on with these bits.
def Spells (words : List UInt64) (index : Nat) (bits : List Bool) : Prop :=
  ∀ j bit, bits[j]? = some bit → getBit words (index + j) = some bit

theorem spells_cons {words : List UInt64} {index : Nat} {bit : Bool} {bits : List Bool}
    (h : Spells words index (bit :: bits)) :
    getBit words index = some bit ∧ Spells words (index + 1) bits := by
  refine ⟨h 0 bit rfl, fun j other hj => ?_⟩
  have hnext := h (j + 1) other (by simpa using hj)
  rwa [Nat.add_comm j, ← Nat.add_assoc] at hnext

theorem readNode_spells {words : List UInt64} (group rest : List UInt8) {bits : List Bool}
    (bitIndex labelIndex : Nat)
    (h : Spells words bitIndex (group.map (fun _ => false) ++ true :: bits)) :
    readNode words (group ++ rest) bitIndex labelIndex =
        .ok (group.zipIdx (labelIndex + 1), bitIndex + group.length + 1,
          labelIndex + group.length) ∧
      Spells words (bitIndex + group.length + 1) bits := by
  induction group generalizing bitIndex labelIndex with
  | nil =>
      obtain ⟨hbit, hbits⟩ := spells_cons h
      refine ⟨?_, hbits⟩
      unfold readNode
      rw [hbit]
      rfl
  | cons label group ih =>
      obtain ⟨hbit, hbits⟩ := spells_cons h
      obtain ⟨hread, hrest⟩ := ih (bitIndex + 1) (labelIndex + 1) hbits
      have hnext : bitIndex + 1 + group.length + 1 = bitIndex + (group.length + 1) + 1 := by omega
      have hlabel : labelIndex + 1 + group.length = labelIndex + (group.length + 1) := by omega
      rw [hnext] at hread hrest
      rw [hlabel] at hread
      refine ⟨?_, hrest⟩
      rw [List.cons_append, readNode, hbit]
      simp only [hread]
      rfl

theorem readNodes_spells (keys : List Bytes) {words : List UInt64} {labels : List UInt8}
    (nodes : List Bytes) (bitIndex labelIndex : Nat)
    (hbits : Spells words bitIndex (nodes.flatMap (degreeBits keys)))
    (hlabels : labels.drop labelIndex = nodes.flatMap (labelsAt keys)) :
    readNodes words labels nodes.length bitIndex labelIndex =
      .ok (BreadthFirst.numbered (edges keys) (labelIndex + 1) nodes,
        labelIndex + (nodes.flatMap (labelsAt keys)).length) := by
  induction nodes generalizing bitIndex labelIndex with
  | nil => rfl
  | cons node rest ih =>
      rw [List.flatMap_cons, degreeBits, List.append_assoc, List.singleton_append] at hbits
      obtain ⟨hread, hrest⟩ := readNode_spells (labelsAt keys node)
        (rest.flatMap (labelsAt keys)) bitIndex labelIndex hbits
      have hdrop : labels.drop (labelIndex + (labelsAt keys node).length) =
          rest.flatMap (labelsAt keys) := by
        rw [← List.drop_drop, hlabels, List.flatMap_cons, List.drop_left]
      have hnodes := ih _ _ hrest hdrop
      have hnumber : labelIndex + (labelsAt keys node).length + 1 =
          labelIndex + 1 + (edges keys node).length := by
        rw [edges, List.length_map]
        omega
      have hfirst : (edges keys node).map Prod.fst = labelsAt keys node := by
        rw [edges, List.map_map]
        exact List.map_id _
      rw [hnumber] at hnodes
      rw [List.length_cons, readNodes, hlabels, List.flatMap_cons, hread]
      simp only [bind, Except.bind, hnodes]
      rw [BreadthFirst.numbered, hfirst, List.length_append, ← Nat.add_assoc]
      rfl

section

variable (keys : List Bytes)

-- The keys from a node on, in the order of a walk that is at most `room` deep.
def below : Nat → Bytes → List Bytes
  | 0, _ => []
  | room + 1, node =>
      (if keys.contains node then [node] else []) ++
        (edges keys node).flatMap fun edge => below room edge.2

variable {keys}

theorem mem_edges {node : Bytes} {edge : UInt8 × Bytes} :
    edge ∈ edges keys node ↔
      edge.2 = node ++ [edge.1] ∧ ∃ key ∈ keys, node ++ [edge.1] <+: key := by
  simp only [edges, List.mem_map]
  constructor
  · rintro ⟨label, hlabel, rfl⟩
    exact ⟨rfl, mem_labelsAt.mp hlabel⟩
  · rintro ⟨hchild, hkey⟩
    exact ⟨edge.1, mem_labelsAt.mpr hkey, Prod.ext rfl hchild.symm⟩

-- A key that goes on behind a node goes through one of its edges.
theorem exists_edge {node key : Bytes} (hkey : key ∈ keys) (hnode : node <+: key)
    (hne : node ≠ key) : ∃ edge ∈ edges keys node, edge.2.length = node.length + 1 ∧ edge.2 <+: key := by
  obtain ⟨rest, rfl⟩ := hnode
  cases rest with
  | nil => exact absurd (List.append_nil node).symm hne
  | cons label rest =>
      have hnext : node ++ [label] <+: node ++ label :: rest := ⟨rest, by simp⟩
      exact ⟨(label, node ++ [label]), mem_edges.mpr ⟨rfl, _, hkey, hnext⟩, by simp, hnext⟩

-- No key goes further than the walk.
def Reaches (keys : List Bytes) (room : Nat) (node : Bytes) : Prop :=
  ∀ key ∈ keys, node <+: key → key.length < node.length + room

theorem Reaches.child {room : Nat} {node : Bytes} (h : Reaches keys (room + 1) node)
    {edge : UInt8 × Bytes} (hedge : edge ∈ edges keys node) :
    0 < room ∧ Reaches keys room edge.2 := by
  obtain ⟨hchild, first, hfirst, hbegins⟩ := mem_edges.mp hedge
  have hlen : edge.2.length = node.length + 1 := by rw [hchild, List.length_append, List.length_singleton]
  have hnode : node <+: edge.2 := hchild ▸ List.prefix_append node [edge.1]
  rw [← hchild] at hbegins
  refine ⟨?_, fun key hkey hafter => ?_⟩
  · have hroom := h first hfirst (hnode.trans hbegins)
    have hle := hbegins.length_le
    omega
  · have hroom := h key hkey (hnode.trans hafter)
    omega

theorem mem_below {room : Nat} {node key : Bytes} (h : Reaches keys room node) :
    key ∈ below keys room node ↔ key ∈ keys ∧ node <+: key := by
  induction room generalizing node with
  | zero =>
      refine ⟨fun hm => absurd hm List.not_mem_nil, fun ⟨hkey, hnode⟩ => ?_⟩
      have hroom := h key hkey hnode
      have hle := hnode.length_le
      omega
  | succ room ih =>
      simp only [below, List.mem_append, List.mem_flatMap]
      constructor
      · rintro (hself | ⟨edge, hedge, hbelow⟩)
        · split at hself
          · rename_i hnode
            obtain rfl := List.mem_singleton.mp hself
            exact ⟨by simpa using hnode, List.prefix_refl key⟩
          · cases hself
        · obtain ⟨hkey, hafter⟩ := (ih (h.child hedge).2).mp hbelow
          have hchild := (mem_edges.mp hedge).1
          exact ⟨hkey, (hchild ▸ List.prefix_append node [edge.1]).trans hafter⟩
      · rintro ⟨hkey, hnode⟩
        by_cases he : node = key
        · left
          rw [he, if_pos (by simpa using hkey)]
          exact List.mem_singleton_self key
        · obtain ⟨edge, hedge, _, hafter⟩ := exists_edge hkey hnode he
          exact .inr ⟨edge, hedge, (ih (h.child hedge).2).mpr ⟨hkey, hafter⟩⟩

private theorem leaf_bit {index : Nat} {node : Bytes} (h : (nodes keys)[index]? = some node) :
    (getBit (ofKeys keys).leaves index).getD false = keys.contains node := by
  have hbit : ((nodes keys).map fun node => keys.contains node)[index]? =
      some (keys.contains node) := by rw [List.getElem?_map, h, Option.map_some]
  rw [ofKeys, getBit_packBits hbit, Option.getD_some]

-- The walk of the trie's own children lists.
abbrev collect (keys : List Bytes) : Nat → Nat → Bytes → Result (List Bytes) :=
  collectDomainKeys (BreadthFirst.numbered (edges keys) 1 (nodes keys)) (ofKeys keys).leaves

-- At a node the walk collects the node, if it is a key, and goes down every edge.
theorem collect_succ {index : Nat} {node : Bytes} (hnode : (nodes keys)[index]? = some node) :
    ∃ entries, List.Forall₂ (BreadthFirst.Links (nodes keys)) (edges keys node) entries ∧
      ∀ room collected, collect keys (room + 1) index node = .ok collected ↔
        ∃ results, List.Forall₂ (fun entry result =>
            collect keys room entry.2 (node ++ [entry.1]) = .ok result) entries results ∧
          collected = (if keys.contains node then [node] else []) ++ results.flatten := by
  obtain ⟨entries, hentries, hlinks⟩ := BreadthFirst.numbered_links (edges keys) (nodes_eq keys) hnode
  refine ⟨entries, hlinks, fun room collected => ?_⟩
  have hchild : ∀ entry ∈ entries,
      entry.2 < (BreadthFirst.numbered (edges keys) 1 (nodes keys)).length := by
    intro entry hentry
    obtain ⟨j, hj, rfl⟩ := List.mem_iff_getElem.mp hentry
    have hlink := hlinks.get (hlinks.length_eq ▸ hj) hj
    rw [BreadthFirst.numbered_length]
    exact (List.getElem?_eq_some_iff.mp hlink.2).1
  have hbelow : entries.mapM (fun entry => do
      Result.ensure (entry.2 < (BreadthFirst.numbered (edges keys) 1 (nodes keys)).length)
        "invalid domain matcher child"
      collect keys room entry.2 (node ++ [entry.1])) =
      entries.mapM fun entry => collect keys room entry.2 (node ++ [entry.1]) := by
    refine Result.mapM_congr fun entry hentry => ?_
    have hensure : Result.ensure
        (entry.2 < (BreadthFirst.numbered (edges keys) 1 (nodes keys)).length)
        "invalid domain matcher child" = .ok () :=
      Result.ensure_eq_ok.mpr (decide_eq_true (hchild _ hentry))
    simp only [hensure]
    rfl
  have hwalk : collect keys (room + 1) index node =
      (entries.mapM fun entry => collect keys room entry.2 (node ++ [entry.1])) >>= fun results =>
        pure ((if keys.contains node then [node] else []) ++ results.flatten) := by
    rw [← hbelow, collect, collectDomainKeys, leaf_bit hnode, List.getD_eq_getElem?_getD, hentries]
    rfl
  rw [hwalk, Result.bind_eq_ok]
  simp only [Result.mapM_eq_ok]
  refine exists_congr fun results => and_congr_right fun _ => ?_
  exact ⟨fun h => (Except.ok.inj h).symm, fun h => congrArg _ h.symm⟩

-- Every key is collected, if none goes further than the walk.
theorem collect_eq_below {room index : Nat} {node : Bytes} (hnode : (nodes keys)[index]? = some node)
    (hpos : 0 < room) (h : Reaches keys room node) :
    collect keys room index node = .ok (below keys room node) := by
  induction room generalizing index node with
  | zero => omega
  | succ room ih =>
      obtain ⟨entries, hlinks, hcollect⟩ := collect_succ hnode
      refine (hcollect room _).mpr ⟨(edges keys node).map fun edge => below keys room edge.2, ?_, ?_⟩
      · rw [List.forall₂_map_right_iff]
        refine List.Forall₂.flip ?_
        have hmem : List.Forall₂ (fun edge entry => edge ∈ edges keys node ∧
            BreadthFirst.Links (nodes keys) edge entry) (edges keys node) entries :=
          (List.forall₂_and_left _ _).mpr ⟨fun _ hedge => hedge, hlinks⟩
        refine hmem.imp fun edge entry ⟨hedge, hlabel, hchild⟩ => ?_
        obtain ⟨hroom, hreaches⟩ := h.child hedge
        have hnext : node ++ [entry.1] = edge.2 := by rw [hlabel, (mem_edges.mp hedge).1]
        change collect keys room entry.2 (node ++ [entry.1]) = .ok (below keys room edge.2)
        rw [hnext]
        exact ih hchild hroom hreaches
      · rw [below, List.flatMap_def]

-- A key that goes further ends the walk.
theorem collect_fails {room index : Nat} {node key : Bytes}
    (hnode : (nodes keys)[index]? = some node) (hkey : key ∈ keys) (hbegins : node <+: key)
    (hlong : node.length + room ≤ key.length) (collected : List Bytes) :
    collect keys room index node ≠ .ok collected := by
  induction room generalizing index node collected with
  | zero =>
      intro h
      cases h
  | succ room ih =>
      intro h
      have hne : node ≠ key := by
        rintro rfl
        omega
      obtain ⟨edge, hedge, hlen, hafter⟩ := exists_edge hkey hbegins hne
      obtain ⟨entries, hlinks, hcollect⟩ := collect_succ hnode
      obtain ⟨results, hresults, _⟩ := (hcollect room collected).mp h
      obtain ⟨j, hj, rfl⟩ := List.mem_iff_getElem.mp hedge
      have hentry : j < entries.length := hlinks.length_eq ▸ hj
      have hresult : j < results.length := hresults.length_eq ▸ hentry
      obtain ⟨hlabel, hchild⟩ := hlinks.get hj hentry
      have hbelow := hresults.get hentry hresult
      simp only [List.get_eq_getElem] at hlabel hchild hbelow
      rw [hlabel, ← (mem_edges.mp hedge).1] at hbelow
      exact ih hchild hafter (by omega) _ hbelow

-- The decoder walks the trie that was laid out.
theorem domains_ofKeys (iter : List String → List String) (keys : List Bytes) :
    (ofKeys keys).domains iter =
      collect keys (MAX_KEY + 1) 0 [] >>= fun collected => dumpDomainKeys iter collected := by
  have hcount := labels_length keys
  have hleaves : (ofKeys keys).labels.length + 1 ≤ (ofKeys keys).leaves.length * 64 := by
    rw [hcount, ofKeys, packBits_length, List.length_map]
    omega
  have hspells : Spells (ofKeys keys).labelBitmap 0 ((nodes keys).flatMap (degreeBits keys)) := by
    intro j bit hj
    rw [Nat.zero_add]
    exact getBit_packBits hj
  have hdrop : (ofKeys keys).labels.drop 0 = (nodes keys).flatMap (labelsAt keys) := rfl
  have hnodes := readNodes_spells keys (nodes keys) 0 0 hspells hdrop
  have hlabels : ((nodes keys).flatMap (labelsAt keys)).length = (ofKeys keys).labels.length := rfl
  rw [Nat.zero_add, Nat.zero_add, hlabels, ← hcount] at hnodes
  have hfirst : Result.ensure ((ofKeys keys).labels.length + 1 ≤ (ofKeys keys).leaves.length * 64)
      "invalid domain matcher leaves" = .ok () := Result.ensure_eq_ok.mpr (decide_eq_true hleaves)
  simp only [domains, hfirst, hnodes, bind, Except.bind]
  rw [Result.ensure, if_pos (decide_eq_true trivial)]

-- The trie of one key is the path of its bytes.
theorem labelsAt_singleton (key : Bytes) (length : Nat) (h : length < key.length) :
    labelsAt [key] (key.take length) = [key[length]] := by
  have hkey : key = key.take length ++ key[length] :: key.drop (length + 1) := by
    rw [← List.drop_eq_getElem_cons h, List.take_append_drop]
  have hnext (label : UInt8) :
      (key.take length ++ [label]).isPrefixOf key = (label == key[length]) := by
    have hbegins : key.take length ++ [label] <+: key ↔ label = key[length] := by
      conv_lhs => rw [hkey]
      rw [List.take_left' (List.length_take_of_le h.le), List.prefix_append_right_inj,
        List.cons_prefix_cons, and_iff_left (List.nil_prefix)]
    rw [Bool.eq_iff_iff, List.isPrefixOf_iff_prefix, beq_iff_eq, hbegins]
  have hnodup : ((List.range 256).map UInt8.ofNat).Nodup := by
    refine List.Nodup.map_on (fun first hfirst second hsecond he => ?_) List.nodup_range
    rw [List.mem_range] at hfirst hsecond
    have hnat := congrArg UInt8.toNat he
    rw [UInt8.toNat_ofNat', UInt8.toNat_ofNat'] at hnat
    omega
  have hmem : key[length] ∈ (List.range 256).map UInt8.ofNat :=
    List.mem_map.mpr ⟨key[length].toNat, List.mem_range.mpr key[length].toNat_lt, UInt8.ofNat_toNat⟩
  simp only [labelsAt, List.any_cons, List.any_nil, Bool.or_false, hnext]
  rw [List.filter_beq, List.count_eq_one_of_mem hnodup hmem]
  rfl

theorem level_singleton (key : Bytes) (level : Nat) (h : level ≤ key.length) :
    BreadthFirst.level (edges [key]) [] level = [key.take level] := by
  induction level with
  | zero => rfl
  | succ level ih =>
      rw [BreadthFirst.level, ih (by omega), List.flatMap_singleton, children_edges,
        labelsAt_singleton key level (by omega), List.map_singleton, List.take_append_getElem]

theorem labels_ofKeys_singleton (key : Bytes) : (ofKeys [key]).labels.length = key.length := by
  have horder (depth : Nat) (h : depth ≤ key.length) :
      (BreadthFirst.order (edges [key]) [] depth).length = depth + 1 := by
    induction depth with
    | zero => rfl
    | succ depth ih =>
        rw [BreadthFirst.order, List.length_append, ih (by omega), level_singleton key _ h,
          List.length_singleton]
  have hdepth : depth [key] = key.length := Nat.max_zero key.length
  have hnodes := horder (depth [key]) hdepth.le
  have hlabels := labels_length [key]
  rw [nodes, hnodes, hdepth] at hlabels
  omega

theorem fits_ofKeys {keys : List Bytes} (h : (ofKeys keys).labels.length ≤ MAX_COLLECTION_SIZE) :
    (ofKeys keys).Fits := by
  have hcount := labels_length keys
  have hbits := degreeBits_length keys (nodes keys)
  have hlabels : ((nodes keys).flatMap (labelsAt keys)).length = (ofKeys keys).labels.length := rfl
  refine ⟨?_, ?_, h⟩
  · rw [ofKeys, packBits_length, List.length_map]
    simp only [MAX_COLLECTION_SIZE] at h ⊢
    omega
  · rw [ofKeys, packBits_length]
    simp only [MAX_COLLECTION_SIZE] at h ⊢
    omega

end

end DomainTrie

end SingBox.Core.Srs
