import SingBox.Cli.ConfigLoader

namespace SingBox.Cli

open Library

variable {Number : Type}

namespace Value

def isNull : Value Number → Bool
  | null => true
  | _ => false

def isObject : Value Number → Bool
  | object _ => true
  | _ => false

def isScalar : Value Number → Bool
  | bool _ | number _ | string _ => true
  | _ => false

def field (key : String) : Value Number → Option (Value Number)
  | object fields => SortedMap.get key fields
  | _ => none

-- What a value adds to an array.
def elements : Value Number → List (Value Number)
  | array elements => elements
  | value => [value]

end Value

-- The values that count.
def present (values : List (Value Number)) : List (Value Number) :=
  values.filter fun value => !value.isNull

def valuesAt (key : String) (values : List (Value Number)) : List (Value Number) :=
  values.filterMap (·.field key)

-- What values in the order of their paths are together.
inductive Merges : List (Value Number) → Value Number → Prop
  | null {values : List (Value Number)} : values ≠ [] → present values = [] → Merges values .null
  | scalar {first : Value Number} {values rest : List (Value Number)} :
      present values = first :: rest → first.isScalar = true → Merges values first
  | array {elements values rest : List (Value Number)} : present values = .array elements :: rest →
      Merges values (.array (elements ++ rest.flatMap Value.elements))
  | object {fields merged : List (String × Value Number)} {values rest : List (Value Number)} :
      present values = .object fields :: rest → (∀ value ∈ rest, value.isObject = true) →
      SortedMap.Sorted merged →
      (∀ key, SortedMap.get key merged = none ↔ valuesAt key values = []) →
      (∀ key value, SortedMap.get key merged = some value → Merges (valuesAt key values) value) →
      Merges values (.object merged)

-- Values meet an object at the end of a path that leads through objects.
def ClashesAt : List String → List (Value Number) → Prop
  | [], values => ∃ fields rest, present values = .object fields :: rest ∧
      ∃ value ∈ rest, value.isObject = false
  | key :: path, values => (∃ fields rest, present values = .object fields :: rest) ∧
      ClashesAt path (valuesAt key values)

def Clashes (values : List (Value Number)) : Prop := ∃ path, ClashesAt path values

theorem present_append (values others : List (Value Number)) :
    present (values ++ others) = present values ++ present others := List.filter_append ..

theorem valuesAt_append (key : String) (values others : List (Value Number)) :
    valuesAt key (values ++ others) = valuesAt key values ++ valuesAt key others :=
  List.filterMap_append ..

theorem valuesAt_present (key : String) (values : List (Value Number)) :
    valuesAt key (present values) = valuesAt key values := by
  rw [valuesAt, valuesAt, present, List.filterMap_filter]
  congr 1
  funext value
  cases value <;> rfl

theorem valuesAt_object (key : String) (fields : List (String × Value Number)) :
    valuesAt key [.object fields] = (SortedMap.get key fields).toList := by
  cases hget : SortedMap.get key fields with
  | none => exact List.filterMap_cons_none hget
  | some value => exact List.filterMap_cons_some hget

theorem ClashesAt.append {path : List String} {values : List (Value Number)}
    (h : ClashesAt path values) (others : List (Value Number)) :
    ClashesAt path (values ++ others) := by
  induction path generalizing values others with
  | nil =>
      obtain ⟨fields, rest, hpresent, value, hmem, hvalue⟩ := h
      exact ⟨fields, rest ++ present others, by rw [present_append, hpresent]; rfl, value,
        List.mem_append_left _ hmem, hvalue⟩
  | cons key path ih =>
      obtain ⟨⟨fields, rest, hpresent⟩, hpath⟩ := h
      refine ⟨⟨fields, rest ++ present others, by rw [present_append, hpresent]; rfl⟩, ?_⟩
      rw [valuesAt_append]
      exact ih hpath _

namespace Merges

variable {values : List (Value Number)} {value : Value Number}

theorem unique {other : Value Number} (h : Merges values value) (hother : Merges values other) :
    value = other := by
  induction h generalizing other with
  | null _ hnull =>
      cases hother with
      | null => rfl
      | scalar hpresent | array hpresent | object hpresent =>
          rw [hnull] at hpresent
          cases hpresent
  | scalar hfirst hscalar =>
      cases hother with
      | null _ hpresent => cases hfirst.symm.trans hpresent
      | scalar hpresent => exact (List.cons.inj (hfirst.symm.trans hpresent)).1
      | array hpresent | object hpresent =>
          obtain ⟨rfl, -⟩ := List.cons.inj (hfirst.symm.trans hpresent)
          cases hscalar
  | array hfirst =>
      cases hother with
      | null _ hpresent => cases hfirst.symm.trans hpresent
      | scalar hpresent hscalar =>
          obtain ⟨rfl, -⟩ := List.cons.inj (hfirst.symm.trans hpresent)
          cases hscalar
      | array hpresent => cases hfirst.symm.trans hpresent; rfl
      | object hpresent => cases hfirst.symm.trans hpresent
  | @object fields merged values rest hfirst _ hsorted hnone _ ih =>
      cases hother with
      | null _ hpresent => cases hfirst.symm.trans hpresent
      | scalar hpresent hscalar =>
          obtain ⟨rfl, -⟩ := List.cons.inj (hfirst.symm.trans hpresent)
          cases hscalar
      | array hpresent => cases hfirst.symm.trans hpresent
      | @object _ others _ _ hpresent _ hothers hnoneOther hfieldOther =>
          congr 1
          refine SortedMap.ext hsorted hothers fun key => ?_
          cases hvalue : SortedMap.get key merged with
          | none => exact ((hnoneOther key).mpr ((hnone key).mp hvalue)).symm
          | some value =>
              cases hsame : SortedMap.get key others with
              | none =>
                  have hnil := (hnone key).mpr ((hnoneOther key).mp hsame)
                  rw [hvalue] at hnil
                  cases hnil
              | some same => rw [ih key value hvalue (hfieldOther key same hsame)]

theorem not_clashesAt {path : List String} (h : Merges values value) :
    ¬ClashesAt path values := by
  -- every path begins with an object
  have hobject {path : List String} {values : List (Value Number)}
      (hclash : ClashesAt path values) : ∃ fields rest, present values = .object fields :: rest := by
    cases path with
    | nil =>
        obtain ⟨fields, rest, hpresent, -⟩ := hclash
        exact ⟨fields, rest, hpresent⟩
    | cons key path => exact hclash.1
  induction h generalizing path with
  | null _ hnull =>
      intro hclash
      obtain ⟨_, _, hpresent⟩ := hobject hclash
      cases hnull.symm.trans hpresent
  | scalar hfirst hscalar =>
      intro hclash
      obtain ⟨_, _, hpresent⟩ := hobject hclash
      obtain ⟨rfl, -⟩ := List.cons.inj (hfirst.symm.trans hpresent)
      cases hscalar
  | array hfirst =>
      intro hclash
      obtain ⟨_, _, hpresent⟩ := hobject hclash
      cases hfirst.symm.trans hpresent
  | @object _ merged _ _ hfirst hrest _ hnone _ ih =>
      cases path with
      | nil =>
          rintro ⟨_, _, hpresent, value, hmem, hvalue⟩
          obtain ⟨-, rfl⟩ := List.cons.inj (hfirst.symm.trans hpresent)
          rw [hrest value hmem] at hvalue
          cases hvalue
      | cons key path =>
          rintro ⟨-, hpath⟩
          cases hvalue : SortedMap.get key merged with
          | none =>
              obtain ⟨_, _, hpresent⟩ := hobject hpath
              rw [(hnone key).mp hvalue] at hpresent
              cases hpresent
          | some value => exact ih key value hvalue hpath

-- Only what counts is merged.
theorem of_present {others : List (Value Number)} (h : Merges values value) (hsome : others ≠ [])
    (hpresent : present others = present values) : Merges others value := by
  have hat (key : String) : valuesAt key others = valuesAt key values := by
    rw [← valuesAt_present, hpresent, valuesAt_present]
  cases h with
  | null _ hnull => exact .null hsome (hpresent.trans hnull)
  | scalar hfirst hscalar => exact .scalar (hpresent.trans hfirst) hscalar
  | array hfirst => exact .array (hpresent.trans hfirst)
  | object hfirst hrest hsorted hnone hfield =>
      refine .object (hpresent.trans hfirst) hrest hsorted (fun key => ?_) fun key value hget => ?_
      · rw [hat]
        exact hnone key
      · rw [hat]
        exact hfield key value hget

-- A value alone is what it is.
theorem single (h : value.Valid) : Merges [value] value := by
  induction h with
  | null => exact .null (List.cons_ne_nil _ _) rfl
  | bool | number | string => exact .scalar rfl rfl
  | @array elements _ _ =>
      have harray : Merges [.array elements] (.array (elements ++ List.flatMap Value.elements [])) :=
        .array rfl
      rwa [List.flatMap_nil, List.append_nil] at harray
  | @object fields hsorted _ ih =>
      refine .object rfl nofun hsorted (fun key => ?_) fun key value hvalue => ?_
      · rw [valuesAt_object, Option.toList_eq_nil_iff]
      · rw [valuesAt_object, hvalue]
        exact ih _ (SortedMap.mem_of_get hvalue)

end Merges

end SingBox.Cli
