import Mathlib.Data.List.Sort
import Mathlib.Order.Defs.LinearOrder

namespace SingBox.Library

-- A map as its entries in the order of their keys.
namespace SortedMap

variable {κ α : Type} [LinearOrder κ]

def Sorted (entries : List (κ × α)) : Prop := entries.Pairwise fun left right => left.1 < right.1

def get (key : κ) : List (κ × α) → Option α
  | [] => none
  | (other, value) :: entries => if other = key then some value else get key entries

def remove (key : κ) (entries : List (κ × α)) : List (κ × α) := entries.filter (·.1 ≠ key)

def insert (key : κ) (value : α) : List (κ × α) → List (κ × α)
  | [] => [(key, value)]
  | (other, old) :: entries =>
      if key < other then (key, value) :: (other, old) :: entries
      else if other = key then (key, value) :: entries
      else (other, old) :: insert key value entries

variable {key other : κ} {value : α} {entries : List (κ × α)}

theorem get_eq_none (h : ∀ entry ∈ entries, entry.1 ≠ key) : get key entries = none := by
  induction entries with
  | nil => rfl
  | cons entry entries ih =>
      obtain ⟨hentry, hentries⟩ := List.forall_mem_cons.mp h
      rw [get, if_neg hentry, ih hentries]

theorem mem_of_get (h : get key entries = some value) : (key, value) ∈ entries := by
  induction entries with
  | nil => cases h
  | cons entry entries ih =>
      rw [get] at h
      split at h
      · rename_i hkey
        obtain rfl := Option.some.inj h
        exact hkey ▸ List.mem_cons_self
      · exact List.mem_cons_of_mem _ (ih h)

theorem get_of_mem (hsorted : Sorted entries) (h : (key, value) ∈ entries) :
    get key entries = some value := by
  induction entries with
  | nil => cases h
  | cons entry entries ih =>
      obtain ⟨hhead, htail⟩ := List.pairwise_cons.mp hsorted
      obtain rfl | hmem := List.mem_cons.mp h
      · exact if_pos rfl
      · rw [get, if_neg (hhead _ hmem).ne, ih htail hmem]

theorem get_insert (key other : κ) (value : α) (entries : List (κ × α)) :
    get other (insert key value entries) = if key = other then some value else get other entries := by
  induction entries with
  | nil => rfl
  | cons entry entries ih =>
      obtain ⟨first, old⟩ := entry
      rw [insert]
      split
      · rfl
      · split
        · rename_i hfirst
          obtain rfl := hfirst
          by_cases hother : first = other <;> simp [get, hother]
        · rename_i hfirst
          rw [get, get, ih]
          by_cases hother : first = other
          · rw [if_pos hother, if_pos hother, if_neg fun h => hfirst (hother.trans h.symm)]
          · rw [if_neg hother, if_neg hother]

theorem get_remove_of_ne (h : key ≠ other) : get other (remove key entries) = get other entries := by
  induction entries with
  | nil => rfl
  | cons entry entries ih =>
      rw [remove, List.filter_cons]
      by_cases hentry : entry.1 = key
      · rw [if_neg (by simpa using hentry), get, if_neg fun hsame => h (hentry.symm.trans hsame)]
        exact ih
      · rw [if_pos (by simpa using hentry), get, get]
        exact congrArg _ ih

theorem sorted_remove (h : Sorted entries) : Sorted (remove key entries) :=
  h.sublist List.filter_sublist

theorem forall_insert {holds : κ × α → Prop} (hnew : holds (key, value))
    (h : ∀ entry ∈ entries, holds entry) : ∀ entry ∈ insert key value entries, holds entry := by
  induction entries with
  | nil => exact List.forall_mem_singleton.mpr hnew
  | cons entry entries ih =>
      obtain ⟨hentry, hentries⟩ := List.forall_mem_cons.mp h
      rw [insert]
      split
      · exact List.forall_mem_cons.mpr ⟨hnew, h⟩
      · split
        · exact List.forall_mem_cons.mpr ⟨hnew, hentries⟩
        · exact List.forall_mem_cons.mpr ⟨hentry, ih hentries⟩

theorem sorted_insert (h : Sorted entries) : Sorted (insert key value entries) := by
  induction entries with
  | nil => exact List.pairwise_singleton _ _
  | cons entry entries ih =>
      obtain ⟨hhead, htail⟩ := List.pairwise_cons.mp h
      rw [insert]
      split
      · rename_i hlt
        refine List.pairwise_cons.mpr ⟨List.forall_mem_cons.mpr ⟨hlt, fun other hmem => ?_⟩, h⟩
        exact hlt.trans (hhead other hmem)
      · split
        · rename_i hsame
          exact List.pairwise_cons.mpr ⟨fun other hmem => hsame ▸ hhead other hmem, htail⟩
        · rename_i hlt hne
          refine List.pairwise_cons.mpr ⟨forall_insert ?_ hhead, ih htail⟩
          exact lt_of_le_of_ne (le_of_not_gt hlt) hne

-- A map is what it has at each key.
theorem ext {others : List (κ × α)} (hentries : Sorted entries) (hothers : Sorted others)
    (h : ∀ key, get key entries = get key others) : entries = others := by
  have : Std.Antisymm fun left right : κ × α => left.1 < right.1 :=
    ⟨fun _ _ hlt hgt => absurd hgt hlt.asymm⟩
  have : Std.Irrefl fun left right : κ × α => left.1 < right.1 := ⟨fun _ => lt_irrefl _⟩
  refine List.Pairwise.eq_of_mem_iff hentries hothers fun entry => ⟨fun hmem => ?_, fun hmem => ?_⟩
  · exact mem_of_get ((h entry.1).symm.trans (get_of_mem hentries hmem))
  · exact mem_of_get ((h entry.1).trans (get_of_mem hothers hmem))

end SortedMap

end SingBox.Library
