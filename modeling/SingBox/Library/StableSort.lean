import Mathlib.Data.List.Sort

namespace SingBox.Library

-- The same values in order, those that may stand either way as they stood.
structure StablySorted {α : Type} (before : α → α → Prop) (values sorted : List α) : Prop where
  perm : sorted.Perm values
  ordered : sorted.Pairwise before
  stable : ∀ left right, before left right → [left, right].Sublist values →
    [left, right].Sublist sorted

theorem stablySorted_mergeSort {α : Type} {before : α → α → Bool}
    (htrans : ∀ a b c, before a b → before b c → before a c) (htotal : ∀ a b, before a b || before b a)
    (values : List α) :
    StablySorted (fun left right => before left right) values (values.mergeSort before) where
  perm := List.mergeSort_perm values before
  ordered := List.pairwise_mergeSort htrans htotal values
  stable _ _ hbefore hsublist := List.pair_sublist_mergeSort htrans htotal hbefore hsublist

-- `Vec::dedup_by_key`: of those that follow one another with one key, the first stays.
def dedupFrom {α κ : Type} [DecidableEq κ] (key : α → κ) (last : α) : List α → List α
  | [] => [last]
  | value :: rest =>
      if key value = key last then dedupFrom key last rest else last :: dedupFrom key value rest

def dedupByKey {α κ : Type} [DecidableEq κ] (key : α → κ) : List α → List α
  | [] => []
  | value :: rest => dedupFrom key value rest

section

variable {α κ : Type} [DecidableEq κ] {key : α → κ}

theorem dedupFrom_sublist (last : α) (rest : List α) :
    (dedupFrom key last rest).Sublist (last :: rest) := by
  induction rest generalizing last with
  | nil => exact .refl _
  | cons value rest ih =>
      rw [dedupFrom]
      split
      · exact (ih last).trans ((List.sublist_cons_self value rest).cons_cons last)
      · exact (ih value).cons_cons last

theorem mem_map_dedupFrom (last : α) (rest : List α) (found : κ) :
    found ∈ (dedupFrom key last rest).map key ↔ found ∈ (last :: rest).map key := by
  induction rest generalizing last with
  | nil => exact Iff.rfl
  | cons value rest ih =>
      rw [dedupFrom]
      split
      case isTrue hsame =>
        rw [ih, List.map_cons, List.map_cons, List.map_cons, hsame, List.mem_cons, List.mem_cons,
          List.mem_cons, or_self_left]
      case isFalse hother =>
        rw [List.map_cons, List.mem_cons, ih, List.map_cons, List.map_cons, List.map_cons, List.mem_cons,
          List.mem_cons, List.mem_cons]

theorem mem_map_dedupByKey (values : List α) (found : κ) :
    found ∈ (dedupByKey key values).map key ↔ found ∈ values.map key := by
  cases values with
  | nil => exact Iff.rfl
  | cons value rest => exact mem_map_dedupFrom value rest found

-- Of values in order, each key is left once.
theorem dedupFrom_strict {le : κ → κ → Prop} (hantisymm : ∀ a b, le a b → le b a → a = b) {last : α}
    {rest : List α} (h : (last :: rest).Pairwise fun left right => le (key left) (key right)) :
    (dedupFrom key last rest).Pairwise fun left right =>
      le (key left) (key right) ∧ key left ≠ key right := by
  induction rest generalizing last with
  | nil => exact List.pairwise_singleton _ _
  | cons value rest ih =>
      obtain ⟨hlast, hrest⟩ := List.pairwise_cons.mp h
      rw [dedupFrom]
      split
      case isTrue hsame =>
        refine ih (List.pairwise_cons.mpr ⟨fun other hother => ?_, (List.pairwise_cons.mp hrest).2⟩)
        exact hlast other (List.mem_cons_of_mem value hother)
      case isFalse hother =>
        refine List.pairwise_cons.mpr ⟨fun other hmem => ?_, ih hrest⟩
        have hin : other ∈ value :: rest := (dedupFrom_sublist value rest).subset hmem
        refine ⟨hlast other hin, fun heq => hother ?_⟩
        -- a key that comes back would have its like all the way
        have hback : le (key value) (key last) := by
          rw [heq]
          obtain rfl | htail := List.mem_cons.mp hin
          · exact absurd heq.symm hother
          · exact (List.pairwise_cons.mp hrest).1 other htail
        exact hantisymm _ _ hback (hlast value List.mem_cons_self)

theorem dedupByKey_strict {le : κ → κ → Prop} (hantisymm : ∀ a b, le a b → le b a → a = b)
    {values : List α} (h : values.Pairwise fun left right => le (key left) (key right)) :
    (dedupByKey key values).Pairwise fun left right =>
      le (key left) (key right) ∧ key left ≠ key right := by
  cases values with
  | nil => exact .nil
  | cons value rest => exact dedupFrom_strict hantisymm h

end

-- In a list in strict order, what comes before is what is less.
theorem pair_sublist_iff {α : Type} {less : α → α → Prop} (hasymm : ∀ a b, less a b → ¬less b a)
    {values : List α} (h : values.Pairwise less) (left right : α) :
    [left, right].Sublist values ↔ left ∈ values ∧ right ∈ values ∧ less left right := by
  constructor
  · intro hsublist
    refine ⟨hsublist.subset (by simp), hsublist.subset (by simp), ?_⟩
    exact List.rel_of_pairwise_cons (h.sublist hsublist) (by simp)
  · rintro ⟨hleft, hright, hless⟩
    induction values with
    | nil => cases hleft
    | cons value rest ih =>
        obtain ⟨hvalue, hrest⟩ := List.pairwise_cons.mp h
        obtain rfl | htail := List.mem_cons.mp hleft
        · obtain rfl | hback := List.mem_cons.mp hright
          · exact absurd hless (hasymm _ _ hless)
          · exact (List.singleton_sublist.mpr hback).cons_cons left
        · obtain rfl | hback := List.mem_cons.mp hright
          · exact absurd hless (hasymm _ _ (hvalue left htail))
          · exact (ih hrest htail hback).cons value

end SingBox.Library
