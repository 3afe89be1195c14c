import SingBox.Library.Reader

namespace SingBox.Library

-- A file system that stands still, and where a path leads in it.
namespace FileSystem

inductive Step where
  | current
  | parent
  | name (name : Bytes)
deriving DecidableEq

-- A path from the root. A slash at its end is a step to where it has come.
abbrev Path := List Step

inductive Node where
  | file (content : Bytes)
  | directory (entries : List (Bytes × Node))
  | symlink (absolute : Bool) (target : List Step)

-- The names on the way from the root.
abbrev Location := List Bytes

def Location.path (this : Location) : Path := this.map .name

namespace Node

def isDirectory : Node → Bool
  | directory _ => true
  | _ => false

def isFile : Node → Bool
  | file _ => true
  | _ => false

def isSymlink : Node → Bool
  | symlink _ _ => true
  | _ => false

def entry : Node → Bytes → Option Node
  | directory entries, name => entries.lookup name
  | _, _ => none

-- What is there by names alone.
def get (this : Node) (location : Location) : Option Node := location.foldlM entry this

end Node

end FileSystem

open FileSystem in
structure FileSystem where
  entries : List (Bytes × Node)
  -- how many links a path is followed through
  maxLinks : Nat

namespace FileSystem

-- The steps are taken from `here`. `follow` goes on where a link leads.
def walk (root : Node) (follow : Location → List Step → Option Location) :
    Location → List Step → Option Location
  | here, [] => some here
  | here, step :: rest =>
      (root.get here).bind fun node =>
        if node.isDirectory then
          match step with
          | .current => walk root follow here rest
          | .parent => walk root follow here.dropLast rest
          | .name name =>
              match node.entry name with
              | none => none
              | some (.symlink absolute target) =>
                  follow (if absolute then [] else here) (target ++ rest)
              | some _ => walk root follow (here ++ [name]) rest
        else none

def resolve (root : Node) : Nat → Location → List Step → Option Location
  | 0 => walk root fun _ _ => none
  | links + 1 => walk root (resolve root links)

variable (this : FileSystem)

def root : Node := .directory this.entries

-- `realpath`
def canonicalize (path : Path) : Option Location := resolve this.root this.maxLinks [] path

-- What a path leads to.
def node (path : Path) : Option Node := (this.canonicalize path).bind this.root.get

-- Nothing on the way to it is a link.
def Real (root : Node) (location : Location) : Prop :=
  ∀ front, front <+: location → ∃ node, root.get front = some node ∧ ¬node.isSymlink

variable {root : Node} {here : Location}

theorem Node.get_append (location : Location) (name : Bytes) :
    root.get (location ++ [name]) = (root.get location).bind fun node => node.entry name := by
  simp only [Node.get, List.foldlM_append, List.foldlM_cons, List.foldlM_nil]
  cases List.foldlM Node.entry root location with
  | none => rfl
  | some node => cases h : node.entry name <;> simp [h]

theorem Real.concat (h : Real root here) {name : Bytes} {node : Node}
    (hnode : root.get (here ++ [name]) = some node) (hlink : ¬node.isSymlink) :
    Real root (here ++ [name]) := by
  intro front hfront
  obtain rfl | hfront := List.prefix_concat_iff.mp hfront
  · exact ⟨node, hnode, hlink⟩
  · exact h front hfront

theorem Real.of_prefix (h : Real root here) {front : Location} (hfront : front <+: here) :
    Real root front := fun other hother => h other (hother.trans hfront)

theorem real_nil (this : FileSystem) : Real this.root [] := by
  intro front hfront
  obtain rfl := List.prefix_nil.mp hfront
  exact ⟨this.root, rfl, Bool.false_ne_true⟩

-- A walk comes to a real place, if every place is one that a link leads to.
theorem walk_real {follow : Location → List Step → Option Location}
    (hfollow : ∀ here steps last, Real root here → follow here steps = some last → Real root last)
    (hroot : Real root []) {steps : List Step} {last : Location} (h : Real root here)
    (hw : walk root follow here steps = some last) : Real root last := by
  induction steps generalizing here with
  | nil => exact Option.some.inj hw ▸ h
  | cons step rest ih =>
      rw [walk] at hw
      obtain ⟨node, hnode, hw⟩ := Option.bind_eq_some_iff.mp hw
      split at hw
      · cases step with
        | current => exact ih h hw
        | parent => exact ih (h.of_prefix (List.dropLast_prefix here)) hw
        | name name =>
            have hget : root.get (here ++ [name]) = node.entry name := by
              rw [Node.get_append, hnode, Option.bind_some]
            cases hentry : node.entry name with
            | none => simp [hentry] at hw
            | some child =>
                rw [hentry] at hget
                cases child with
                | symlink absolute target =>
                    simp only [hentry] at hw
                    refine hfollow _ _ _ ?_ hw
                    split
                    · exact hroot
                    · exact h
                | file content =>
                    simp only [hentry] at hw
                    exact ih (h.concat hget Bool.false_ne_true) hw
                | directory entries =>
                    simp only [hentry] at hw
                    exact ih (h.concat hget Bool.false_ne_true) hw
      · cases hw

theorem resolve_real (hroot : Real root []) (links : Nat) {steps : List Step} {last : Location}
    (h : Real root here) (hw : resolve root links here steps = some last) : Real root last := by
  induction links generalizing here steps last with
  | zero => exact walk_real (fun _ _ _ _ hnone => by cases hnone) hroot h hw
  | succ links ih => exact walk_real (fun _ _ _ hhere => ih hhere) hroot h hw

theorem canonicalize_real {this : FileSystem} {path : Path} {location : Location}
    (h : this.canonicalize path = some location) : Real this.root location :=
  resolve_real this.real_nil _ this.real_nil h

-- Along real names there is nothing to follow.
theorem walk_names {follow : Location → List Step → Option Location} {names : Location}
    (h : Real root (here ++ names)) (rest : List Step) :
    walk root follow here (names.map .name ++ rest) = walk root follow (here ++ names) rest := by
  induction names generalizing here with
  | nil => rw [List.append_nil]; rfl
  | cons name names ih =>
      rw [List.append_cons] at h
      have hfront : here ++ [name] <+: here ++ [name] ++ names := List.prefix_append _ names
      obtain ⟨node, hnode, -⟩ := h here ((List.prefix_append here [name]).trans hfront)
      obtain ⟨child, hchild, hlink⟩ := h _ hfront
      rw [Node.get_append, hnode, Option.bind_some] at hchild
      rw [List.map_cons, List.cons_append, walk, hnode, Option.bind_some, List.append_cons, ← ih h]
      cases node with
      | directory entries =>
          cases child with
          | symlink absolute target => exact absurd rfl hlink
          | file content => simp only [Node.isDirectory, if_true, hchild]
          | directory others => simp only [Node.isDirectory, if_true, hchild]
      | file content => cases hchild
      | symlink absolute target => cases hchild

theorem resolve_names {names : Location} (h : Real root (here ++ names)) (links : Nat)
    (rest : List Step) :
    resolve root links here (names.map .name ++ rest) = resolve root links (here ++ names) rest := by
  cases links with
  | zero => exact walk_names h rest
  | succ links => exact walk_names h rest

-- The path of a real place leads there.
theorem canonicalize_path {this : FileSystem} {location : Location} (h : Real this.root location) :
    this.canonicalize location.path = some location := by
  have hnames : resolve this.root this.maxLinks [] (location.map .name ++ []) =
      resolve this.root this.maxLinks ([] ++ location) [] := resolve_names h this.maxLinks []
  rw [List.append_nil, List.nil_append] at hnames
  rw [canonicalize, Location.path, hnames]
  cases this.maxLinks <;> rfl

-- What a path leads to below the place that another leads to, if no link is followed there.
theorem walk_append {follow : Location → List Step → Option Location} {more : List Step}
    {last final : Location} (hmore : walk root follow last more = some final)
    (hfollow : ∀ here steps, follow here steps = some last → follow here (steps ++ more) = some final)
    {steps : List Step} (h : walk root follow here steps = some last) :
    walk root follow here (steps ++ more) = some final := by
  induction steps generalizing here with
  | nil =>
      obtain rfl := Option.some.inj h
      exact hmore
  | cons step rest ih =>
      rw [walk] at h
      obtain ⟨node, hnode, h⟩ := Option.bind_eq_some_iff.mp h
      rw [List.cons_append, walk, hnode, Option.bind_some]
      by_cases hdirectory : node.isDirectory
      · rw [if_pos hdirectory] at h ⊢
        cases step with
        | current => exact ih h
        | parent => exact ih h
        | name name =>
            cases hentry : node.entry name with
            | none => simp [hentry] at h
            | some child =>
                simp only [hentry] at h ⊢
                cases child with
                | symlink absolute target =>
                    simp only [← List.append_assoc]
                    exact hfollow _ _ h
                | file content => exact ih h
                | directory entries => exact ih h
      · rw [if_neg hdirectory] at h
        cases h

theorem resolve_append {more : List Step} {last final : Location}
    (hmore : ∀ links, resolve root links last more = some final) (links : Nat) {steps : List Step}
    (h : resolve root links here steps = some last) :
    resolve root links here (steps ++ more) = some final := by
  induction links generalizing here steps with
  | zero => exact walk_append (hmore 0) (fun _ _ hnone => by cases hnone) h
  | succ links ih => exact walk_append (hmore (links + 1)) (fun _ _ => ih) h

-- A slash at the end of a path changes nothing about where it leads.
theorem walk_current {follow : Location → List Step → Option Location} {last : Location}
    (hfollow : ∀ here steps, follow here (steps ++ [.current]) = some last →
      follow here steps = some last)
    {steps : List Step} (h : walk root follow here (steps ++ [.current]) = some last) :
    walk root follow here steps = some last := by
  induction steps generalizing here with
  | nil =>
      obtain ⟨node, -, h⟩ := Option.bind_eq_some_iff.mp h
      by_cases hdirectory : node.isDirectory
      · rwa [if_pos hdirectory] at h
      · rw [if_neg hdirectory] at h
        cases h
  | cons step rest ih =>
      rw [List.cons_append, walk] at h
      obtain ⟨node, hnode, h⟩ := Option.bind_eq_some_iff.mp h
      rw [walk, hnode, Option.bind_some]
      by_cases hdirectory : node.isDirectory
      · rw [if_pos hdirectory] at h ⊢
        cases step with
        | current => exact ih h
        | parent => exact ih h
        | name name =>
            cases hentry : node.entry name with
            | none => simp [hentry] at h
            | some child =>
                simp only [hentry] at h ⊢
                cases child with
                | symlink absolute target =>
                    simp only [← List.append_assoc] at h
                    exact hfollow _ _ h
                | file content => exact ih h
                | directory entries => exact ih h
      · rw [if_neg hdirectory] at h
        cases h

theorem resolve_current (links : Nat) {steps : List Step} {last : Location}
    (h : resolve root links here (steps ++ [.current]) = some last) :
    resolve root links here steps = some last := by
  induction links generalizing here steps with
  | zero => exact walk_current (fun _ _ hnone => by cases hnone) h
  | succ links ih => exact walk_current (fun _ _ => ih) h

-- One name further, to something that is no link.
theorem canonicalize_entry {this : FileSystem} {path : Path} {location : Location} {name : Bytes}
    {node : Node} (h : this.canonicalize path = some location)
    (hnode : this.root.get (location ++ [name]) = some node) (hlink : ¬node.isSymlink) :
    this.canonicalize (path ++ [.name name]) = some (location ++ [name]) := by
  have hreal := (canonicalize_real h).concat hnode hlink
  refine resolve_append (fun links => ?_) this.maxLinks h
  have hnames := resolve_names hreal links []
  rw [List.append_nil] at hnames
  cases links with
  | zero => exact hnames
  | succ links => exact hnames

end FileSystem

end SingBox.Library
