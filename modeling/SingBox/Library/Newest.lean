import Mathlib.Data.List.Perm.Basic
import Mathlib.Data.List.Nodup
import Mathlib.Order.Lattice

namespace SingBox.Library

-- A register that takes a value only if it is newer than the one it holds.
namespace Newest

variable {κ β : Type} [LinearOrder κ] (key : β → κ)

def keep (current value : β) : β := if key current < key value then value else current

def settle (initial : β) (values : List β) : β := values.foldl (keep key) initial

theorem key_le_keep (current value : β) :
    key current ≤ key (keep key current value) ∧ key value ≤ key (keep key current value) := by
  unfold keep
  split
  · rename_i h
    exact ⟨le_of_lt h, le_refl _⟩
  · rename_i h
    exact ⟨le_refl _, le_of_not_gt h⟩

-- Values only get newer, and none of those offered is newer than what is held in the end.
theorem key_le_settle (initial : β) (values : List β) :
    key initial ≤ key (settle key initial values) ∧
      ∀ value ∈ values, key value ≤ key (settle key initial values) := by
  induction values generalizing initial with
  | nil => exact ⟨le_refl _, fun _ h => absurd h List.not_mem_nil⟩
  | cons value rest ih =>
      obtain ⟨hkeep, hrest⟩ := ih (keep key initial value)
      obtain ⟨hinitial, hvalue⟩ := key_le_keep key initial value
      refine ⟨hinitial.trans hkeep, fun other hmem => ?_⟩
      obtain rfl | hmem := List.mem_cons.mp hmem
      · exact hvalue.trans hkeep
      · exact hrest other hmem

-- What is held is what was held before, or one of the values that were newer.
theorem settle_cases (initial : β) (values : List β) :
    settle key initial values = initial ∨
      settle key initial values ∈ values ∧ key initial < key (settle key initial values) := by
  induction values generalizing initial with
  | nil => exact .inl rfl
  | cons value rest ih =>
      have hsettle : settle key initial (value :: rest) = settle key (keep key initial value) rest :=
        rfl
      rw [hsettle]
      by_cases hlt : key initial < key value
      · have hkeep : keep key initial value = value := if_pos hlt
        rw [hkeep]
        obtain heq | ⟨hmem, hkey⟩ := ih value
        · rw [heq]
          exact .inr ⟨List.mem_cons_self, hlt⟩
        · exact .inr ⟨List.mem_cons_of_mem _ hmem, hlt.trans hkey⟩
      · have hkeep : keep key initial value = initial := if_neg hlt
        rw [hkeep]
        obtain heq | ⟨hmem, hkey⟩ := ih initial
        · exact .inl heq
        · exact .inr ⟨List.mem_cons_of_mem _ hmem, hkey⟩

variable {key} in
-- Values with keys of their own settle to the same whatever the order they come in.
theorem settle_perm {initial : β} {values others : List β} (hperm : values.Perm others)
    (hkeys : (values.map key).Nodup) :
    settle key initial values = settle key initial others := by
  have hinj {left right : β} (hl : left ∈ values) (hr : right ∈ values)
      (heq : key left = key right) : left = right := List.inj_on_of_nodup_map hkeys hl hr heq
  obtain ⟨hinitial, hvalues⟩ := key_le_settle key initial values
  obtain ⟨hinitial', hothers⟩ := key_le_settle key initial others
  obtain heq | ⟨hmem, hkey⟩ := settle_cases key initial values
  · obtain heq' | ⟨hmem', hkey'⟩ := settle_cases key initial others
    · rw [heq, heq']
    · have hle := hvalues _ (hperm.mem_iff.mpr hmem')
      rw [heq] at hle
      exact absurd hkey' (not_lt_of_ge hle)
  · obtain heq' | ⟨hmem', hkey'⟩ := settle_cases key initial others
    · have hle := hothers _ (hperm.mem_iff.mp hmem)
      rw [heq'] at hle
      exact absurd hkey (not_lt_of_ge hle)
    · exact hinj hmem (hperm.mem_iff.mpr hmem')
        (le_antisymm (hothers _ (hperm.mem_iff.mp hmem)) (hvalues _ (hperm.mem_iff.mpr hmem')))

end Newest

end SingBox.Library
