import Mathlib.Data.Fintype.Card
import Mathlib.Data.Set.Finite.Basic
import Mathlib.Logic.Relation
import Mathlib.Order.WellFounded

namespace SingBox.Library

-- Items that depend on each other: `depends item dependency`.
namespace Dependencies

variable {α : Type} (depends : α → α → Prop)

-- Nothing depends on itself, not by way of others either.
def Acyclic : Prop := ∀ item, ¬Relation.TransGen depends item item

-- Every item comes after all it depends on.
def First (items : List α) : Prop :=
  ∀ front item back, items = front ++ item :: back →
    ∀ dependency, depends item dependency → dependency ∈ front

variable {depends}

-- Among finitely many items there is one that depends on none of them.
theorem Acyclic.exists_ready (h : Acyclic depends) {items : List α} (hne : items ≠ []) :
    ∃ item ∈ items, ∀ other ∈ items, ¬depends item other := by
  let later (first second : {item // item ∈ items}) : Prop :=
    Relation.TransGen depends second first
  have : Finite {item // item ∈ items} := List.finite_toSet items
  have : IsTrans _ later := ⟨fun _ _ _ hfirst hsecond => hsecond.trans hfirst⟩
  have : Std.Irrefl later := ⟨fun item => h item⟩
  have hwf : WellFounded later := Finite.wellFounded_of_trans_of_irrefl later
  obtain ⟨first, hfirst⟩ := List.exists_mem_of_ne_nil items hne
  obtain ⟨item, -, hmin⟩ := hwf.has_min Set.univ ⟨⟨first, hfirst⟩, trivial⟩
  refine ⟨item, item.2, fun other hother hdepends => ?_⟩
  exact hmin ⟨other, hother⟩ trivial (.single hdepends)

theorem First.nil : First depends [] := by
  intro front item back h
  simp at h

theorem First.snoc {items : List α} {item : α} (h : First depends items)
    (hitem : ∀ dependency, depends item dependency → dependency ∈ items) :
    First depends (items ++ [item]) := by
  intro front other back heq
  obtain rfl | ⟨back, last, rfl⟩ := List.eq_nil_or_concat back
  · obtain ⟨rfl, hlast⟩ := List.append_inj' heq rfl
    obtain rfl : item = other := List.singleton_inj.mp hlast
    exact hitem
  · rw [List.concat_eq_append, ← List.cons_append, ← List.append_assoc] at heq
    exact h front other back (List.append_inj' heq rfl).1

-- A dependency has its first place before that of what depends on it.
theorem First.idxOf_lt [DecidableEq α] {items : List α} (h : First depends items)
    {item dependency : α} (hitem : item ∈ items) (hdepends : depends item dependency) :
    items.idxOf dependency < items.idxOf item := by
  obtain ⟨front, back, rfl, hfront⟩ := List.eq_append_cons_of_mem hitem
  have hmem := h front item back rfl dependency hdepends
  calc
    (front ++ item :: back).idxOf dependency = front.idxOf dependency :=
      List.idxOf_append_of_mem hmem
    _ < front.length := List.idxOf_lt_length_iff.mpr hmem
    _ = (front ++ item :: back).idxOf item := by
      rw [List.idxOf_append_of_notMem hfront, List.idxOf_cons_self, Nat.add_zero]

-- Items that can be put in order do not depend on each other in a circle.
theorem First.acyclic {items : List α} (h : First depends items)
    (hdomain : ∀ item dependency, depends item dependency → item ∈ items) : Acyclic depends := by
  classical
  have hlt : ∀ item dependency, Relation.TransGen depends item dependency →
      items.idxOf dependency < items.idxOf item := by
    intro item dependency hdepends
    induction hdepends with
    | single hone => exact h.idxOf_lt (hdomain _ _ hone) hone
    | tail _ hone ih => exact Nat.lt_trans (h.idxOf_lt (hdomain _ _ hone) hone) ih
  exact fun item hcircle => Nat.lt_irrefl _ (hlt item item hcircle)

-- What comes first in a part of a list without repetitions comes first in the list.
theorem idxOf_lt_of_sublist [DecidableEq α] {front back items : List α} (hnodup : items.Nodup)
    (h : (front ++ back).Sublist items) {first second : α} (hfirst : first ∈ front)
    (hsecond : second ∈ back) : items.idxOf first < items.idxOf second := by
  have hpairs : items.Pairwise fun one other => items.idxOf one < items.idxOf other := by
    refine List.pairwise_iff_getElem.mpr fun i j hi hj hlt => ?_
    rw [hnodup.idxOf_getElem, hnodup.idxOf_getElem]
    exact hlt
  exact (List.pairwise_append.mp (hpairs.sublist h)).2.2 first hfirst second hsecond

end Dependencies

end SingBox.Library
