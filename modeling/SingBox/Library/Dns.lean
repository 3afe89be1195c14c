import SingBox.Library.Utf8

namespace SingBox.Library

-- Names in a message of DNS, which may go on in a place that has been written before.
namespace Dns

open Utf8 (encode)

def labelBytes (label : String) : Bytes := UInt8.ofNat (encode label).length :: encode label

def pointerBytes (target : Nat) : Bytes := [UInt8.ofNat (0xc0 + target / 256), UInt8.ofNat target]

def Label (label : String) : Prop := 0 < (encode label).length ∧ (encode label).length < 64

theorem labelBytes_length (label : String) : (labelBytes label).length = 1 + (encode label).length := by
  rw [labelBytes, List.length_cons, Nat.add_comm]

-- A name that begins at `position`: its labels, how many labels and pointers are gone through
-- for it, and where it ends as it stands in its place.
inductive NameAt (packet : Bytes) : Nat → List String → Nat → Nat → Prop where
  | root {position : Nat} {rest : Bytes} (hbytes : packet.drop position = 0 :: rest) :
      NameAt packet position [] 0 (position + 1)
  | label {position parts last : Nat} {label : String} {labels : List String} {rest : Bytes}
      (hlabel : Label label) (hbytes : packet.drop position = labelBytes label ++ rest)
      (hrest : NameAt packet (position + (labelBytes label).length) labels parts last) :
      NameAt packet position (label :: labels) (parts + 1) last
  | pointer {position target parts last : Nat} {labels : List String} {rest : Bytes}
      (htarget : target < 2 ^ 14) (hbytes : packet.drop position = pointerBytes target ++ rest)
      (hrest : NameAt packet target labels parts last) :
      NameAt packet position labels (parts + 1) (position + 2)

theorem NameAt.position_lt {packet : Bytes} {position parts last : Nat} {labels : List String}
    (h : NameAt packet position labels parts last) : position < packet.length := by
  have hcons : ∃ byte rest, packet.drop position = byte :: rest := by
    cases h with
    | root hbytes => exact ⟨_, _, hbytes⟩
    | label _ hbytes => exact ⟨_, _, hbytes⟩
    | pointer _ hbytes => exact ⟨_, _, hbytes⟩
  obtain ⟨byte, rest, hdrop⟩ := hcons
  have hlength := congrArg List.length hdrop
  rw [List.length_drop, List.length_cons] at hlength
  omega

-- A name as it is written: labels, and the root or a pointer behind them.
structure Name where
  labels : List String
  pointer : Option Nat := none

-- What is known of the places that have been written: the labels of the name that begins
-- there, and how many labels and pointers it has.
abbrev Known := List (Nat × List String × Nat)

-- The names that begin within a name, its end being known.
def placesFrom (tail : List String × Nat) : Nat → List String → Known
  | position, [] => [(position, tail)]
  | position, label :: labels =>
      (position, label :: labels ++ tail.1, labels.length + 1 + tail.2) ::
        placesFrom tail (position + (labelBytes label).length) labels

namespace Name

variable (this : Name)

def ending : Bytes :=
  match this.pointer with
  | none => [0]
  | some target => pointerBytes target

def bytes : Bytes := this.labels.flatMap labelBytes ++ this.ending

-- What comes behind its labels.
def tail (known : Known) : Option (List String × Nat) :=
  match this.pointer with
  | none => some ([], 0)
  | some target => (known.lookup target).map fun (labels, parts) => (labels, parts + 1)

-- The labels of the whole name.
def full (known : Known) : List String := this.labels ++ ((this.tail known).getD ([], 0)).1

def places (known : Known) (position : Nat) : Known :=
  placesFrom ((this.tail known).getD ([], 0)) position this.labels ++ known

-- It has at most so many parts, and points to a place that is known if it points anywhere.
structure Fits (known : Known) (parts : Nat) : Prop where
  labels : ∀ label ∈ this.labels, Label label
  target : ∀ target ∈ this.pointer, target < 2 ^ 14
  tail : ∃ tail, this.tail known = some tail ∧ this.labels.length + tail.2 ≤ parts

end Name

-- What a message is made of.
inductive Part where
  | raw (bytes : Bytes)
  | name (name : Name)

def Part.bytes : Part → Bytes
  | .raw bytes => bytes
  | .name written => written.bytes

-- How far a message has been written, and what is known of its places.
structure Written where
  position : Nat
  known : Known := []

namespace Written

def part (this : Written) (part : Part) : Written where
  position := this.position + part.bytes.length
  known := match part with
    | .raw _ => this.known
    | .name name => name.places this.known this.position

def parts (this : Written) (parts : List Part) : Written := parts.foldl part this

theorem parts_append (this : Written) (front back : List Part) :
    this.parts (front ++ back) = (this.parts front).parts back := List.foldl_append

theorem parts_position (this : Written) (parts : List Part) :
    (this.parts parts).position = this.position + (parts.flatMap Part.bytes).length := by
  induction parts generalizing this with
  | nil => rfl
  | cons part parts ih =>
      rw [List.flatMap_cons, List.length_append, ← Nat.add_assoc]
      exact ih _

-- Every name among the parts has at most `most` parts of its own.
def Fits (most : Nat) : Written → List Part → Prop
  | _, [] => True
  | this, .raw bytes :: parts => (this.part (.raw bytes)).Fits most parts
  | this, .name name :: parts => name.Fits this.known most ∧ (this.part (.name name)).Fits most parts

theorem fits_append (most : Nat) (this : Written) (front back : List Part) :
    this.Fits most (front ++ back) ↔ this.Fits most front ∧ (this.parts front).Fits most back := by
  induction front generalizing this with
  | nil => exact ⟨fun h => ⟨trivial, h⟩, And.right⟩
  | cons part front ih =>
      cases part with
      | raw bytes => exact ih _
      | name name =>
          show _ ∧ Fits most _ (front ++ back) ↔ (_ ∧ _) ∧ _
          rw [ih, and_assoc]
          rfl

end Written

-- What is said of the places is true of this message.
def Sound (packet : Bytes) (known : Known) : Prop :=
  ∀ position labels parts, (position, labels, parts) ∈ known →
    ∃ last, NameAt packet position labels parts last

section

variable {packet back : Bytes} {known : Known} {name : Name} {parts : Nat}

-- The end of a name, in place.
theorem ending_at (hsound : Sound packet known) (htarget : ∀ target ∈ name.pointer, target < 2 ^ 14)
    {tail : List String × Nat} (htail : name.tail known = some tail) {position : Nat}
    (hbytes : packet.drop position = name.ending ++ back) :
    NameAt packet position tail.1 tail.2 (position + name.ending.length) := by
  obtain ⟨labels, pointer⟩ := name
  cases pointer with
  | none =>
      obtain rfl : ([], 0) = tail := Option.some.inj htail
      exact .root hbytes
  | some target =>
      obtain ⟨⟨others, parts⟩, hlookup, rfl⟩ := Option.map_eq_some_iff.mp htail
      obtain ⟨front, rest, rfl, -⟩ := List.lookup_eq_some_iff.mp hlookup
      obtain ⟨last, hat⟩ := hsound target others parts (by simp)
      exact .pointer (htarget target rfl) hbytes hat

-- A name in its place, with every name that begins within it.
theorem name_at (hsound : Sound packet known) (hfits : name.Fits known parts) {position : Nat}
    (hbytes : packet.drop position = name.bytes ++ back) :
    (∃ count, count ≤ parts ∧
      NameAt packet position (name.full known) count (position + name.bytes.length)) ∧
    Sound packet (name.places known position) := by
  obtain ⟨tail, htail, hparts⟩ := hfits.tail
  have hgiven : (name.tail known).getD ([], 0) = tail := by rw [htail]; rfl
  have hlabels := hfits.labels
  -- the labels from any one on, whatever the message is up to it
  have hall : ∀ (labels : List String) (position : Nat), (∀ label ∈ labels, Label label) →
      packet.drop position = labels.flatMap labelBytes ++ name.ending ++ back →
      NameAt packet position (labels ++ tail.1) (labels.length + tail.2)
        (position + (labels.flatMap labelBytes ++ name.ending).length) ∧
      Sound packet (placesFrom tail position labels) := by
    intro labels
    induction labels with
    | nil =>
        intro position _ hbytes
        have hend := ending_at hsound hfits.target htail hbytes
        rw [List.length_nil, Nat.zero_add]
        refine ⟨hend, fun place labels count hplace => ?_⟩
        obtain ⟨rfl, rfl, rfl⟩ : place = position ∧ labels = tail.1 ∧ count = tail.2 := by
          simpa [placesFrom, Prod.ext_iff] using hplace
        exact ⟨_, hend⟩
    | cons label labels ih =>
        intro position hlabels hbytes
        obtain ⟨hlabel, hlabels⟩ := List.forall_mem_cons.mp hlabels
        rw [List.flatMap_cons, List.append_assoc, List.append_assoc] at hbytes
        have hnext : packet.drop (position + (labelBytes label).length) =
            labels.flatMap labelBytes ++ name.ending ++ back := by
          rw [← List.drop_drop, hbytes, List.drop_left, List.append_assoc]
        obtain ⟨hat, hplaces⟩ := ih _ hlabels hnext
        have hhere := NameAt.label hlabel hbytes hat
        rw [List.length_cons, List.flatMap_cons, List.append_assoc, List.length_append,
          ← Nat.add_assoc, Nat.add_right_comm]
        refine ⟨hhere, fun place others count hplace => ?_⟩
        obtain hplace | hplace := List.mem_cons.mp hplace
        · obtain ⟨rfl, rfl, rfl⟩ : place = position ∧ others = label :: labels ++ tail.1 ∧
              count = labels.length + 1 + tail.2 := by
            simpa [Prod.ext_iff] using hplace
          rw [Nat.add_right_comm]
          exact ⟨_, hhere⟩
        · exact hplaces place others count hplace
  obtain ⟨hat, hplaces⟩ := hall name.labels position hlabels hbytes
  constructor
  · refine ⟨name.labels.length + tail.2, hparts, ?_⟩
    rw [Name.full, hgiven]
    exact hat
  · intro place labels count hplace
    rw [Name.places, hgiven] at hplace
    obtain hplace | hplace := List.mem_append.mp hplace
    · exact hplaces place labels count hplace
    · exact hsound place labels count hplace

-- A message has been written up to here, and `back` comes next.
structure Reaches (packet : Bytes) (written : Written) (back : Bytes) : Prop where
  sound : Sound packet written.known
  bytes : packet.drop written.position = back

theorem Reaches.step_raw {written : Written} {bytes : Bytes} (h : Reaches packet written (bytes ++ back)) :
    Reaches packet (written.part (.raw bytes)) back where
  sound := h.sound
  bytes := by
    show packet.drop (written.position + bytes.length) = back
    rw [← List.drop_drop, h.bytes, List.drop_left]

theorem Reaches.step_name {written : Written} (h : Reaches packet written (name.bytes ++ back))
    (hfits : name.Fits written.known parts) :
    (∃ count, count ≤ parts ∧ NameAt packet written.position (name.full written.known) count
      (written.part (.name name)).position) ∧ Reaches packet (written.part (.name name)) back := by
  obtain ⟨hat, hsound⟩ := name_at h.sound hfits h.bytes
  refine ⟨hat, hsound, ?_⟩
  show packet.drop (written.position + name.bytes.length) = back
  rw [← List.drop_drop, h.bytes, List.drop_left]

theorem Reaches.steps {written : Written} {others : List Part}
    (h : Reaches packet written (others.flatMap Part.bytes ++ back)) (hfits : written.Fits parts others) :
    Reaches packet (written.parts others) back := by
  induction others generalizing written with
  | nil => exact h
  | cons part others ih =>
      rw [List.flatMap_cons, List.append_assoc] at h
      cases part with
      | raw bytes => exact ih h.step_raw hfits
      | name name => exact ih (h.step_name hfits.1).2 hfits.2

end

end Dns

end SingBox.Library
