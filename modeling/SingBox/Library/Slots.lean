import Mathlib.Data.List.Basic

namespace SingBox.Library.Slots

-- Places that are taken or free, in the order they were first taken.
variable {α β : Type}

section

variable (weight : α → Nat)

def total (slots : List (Option α)) : Nat :=
  slots.foldr (fun slot rest => slot.elim 0 weight + rest) 0

@[simp]
theorem total_nil : total weight [] = 0 := rfl

theorem total_cons (slot : Option α) (slots : List (Option α)) :
    total weight (slot :: slots) = slot.elim 0 weight + total weight slots := rfl

theorem total_append (slots : List (Option α)) (slot : Option α) :
    total weight (slots ++ [slot]) = total weight slots + slot.elim 0 weight := by
  induction slots with
  | nil => exact Nat.add_comm _ _
  | cons first slots ih => rw [List.cons_append, total_cons, total_cons, ih, Nat.add_assoc]

-- What a place weighed is taken off, and what it weighs now is put on.
theorem total_set {slots : List (Option α)} {index : Nat} {old : Option α}
    (h : slots[index]? = some old) (slot : Option α) :
    total weight (slots.set index slot) + old.elim 0 weight =
      total weight slots + slot.elim 0 weight := by
  induction slots generalizing index with
  | nil => cases h
  | cons first slots ih =>
      cases index with
      | zero =>
          obtain rfl := Option.some.inj h
          rw [List.set_cons_zero, total_cons, total_cons]
          omega
      | succ index =>
          have hrest := ih (show slots[index]? = some old from h)
          rw [List.set_cons_succ, total_cons, total_cons]
          omega

end

-- The places that are taken all satisfy what is asked of them.
def All (holds : α → Prop) (slots : List (Option α)) : Prop := ∀ value, some value ∈ slots → holds value

theorem All.append {holds : α → Prop} {slots : List (Option α)} (h : All holds slots)
    {slot : Option α} (hslot : ∀ value, slot = some value → holds value) :
    All holds (slots ++ [slot]) := by
  intro value hvalue
  rcases List.mem_append.mp hvalue with hold | hnew
  · exact h value hold
  · exact hslot value (List.mem_singleton.mp hnew).symm

theorem All.set {holds : α → Prop} {slots : List (Option α)} (h : All holds slots) (index : Nat)
    {slot : Option α} (hslot : ∀ value, slot = some value → holds value) :
    All holds (slots.set index slot) := by
  intro value hvalue
  rcases List.mem_or_eq_of_mem_set hvalue with hold | hnew
  · exact h value hold
  · exact hslot value hnew.symm

theorem All.of_getElem? {holds : α → Prop} {slots : List (Option α)} (h : All holds slots)
    {index : Nat} {value : α} (hvalue : slots[index]? = some (some value)) : holds value :=
  h value (List.mem_of_getElem? hvalue)

end SingBox.Library.Slots
