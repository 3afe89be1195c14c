import Mathlib.Data.List.Basic

namespace SingBox.Library

-- An ordered list of rules. A rule decides, or it passes on the state, possibly
-- a rewritten one, to the rules after it.
namespace FirstDecision

variable {ρ σ δ : Type} (apply : ρ → σ → Option δ × σ)

def run : List ρ → σ → Option δ × σ
  | [], state => (none, state)
  | rule :: rest, state =>
      match apply rule state with
      | (some decision, state) => (some decision, state)
      | (none, state) => run rest state

variable {apply}

theorem run_cons_of_decision {rule : ρ} {rest : List ρ} {state next : σ} {decision : δ}
    (h : apply rule state = (some decision, next)) :
    run apply (rule :: rest) state = (some decision, next) := by
  simp [run, h]

theorem run_cons_of_pass {rule : ρ} {rest : List ρ} {state next : σ}
    (h : apply rule state = (none, next)) :
    run apply (rule :: rest) state = run apply rest next := by
  simp [run, h]

-- What is decided by the front of a list is decided by the list.
theorem run_append_of_decision {front back : List ρ} {state next : σ} {decision : δ}
    (h : run apply front state = (some decision, next)) :
    run apply (front ++ back) state = (some decision, next) := by
  induction front generalizing state with
  | nil => simp [run] at h
  | cons rule front ih =>
      rcases hr : apply rule state with ⟨_ | decided, mid⟩
      · rw [run_cons_of_pass hr] at h
        rw [List.cons_append, run_cons_of_pass hr, ih h]
      · rw [run_cons_of_decision hr] at h
        rw [List.cons_append, run_cons_of_decision hr, h]

-- After a front that has decided nothing the rest goes on.
theorem run_append_of_pass {front back : List ρ} {state next : σ}
    (h : run apply front state = (none, next)) :
    run apply (front ++ back) state = run apply back next := by
  induction front generalizing state with
  | nil =>
      obtain rfl : state = next := by simpa [run] using h
      rfl
  | cons rule front ih =>
      rcases hr : apply rule state with ⟨_ | decided, mid⟩
      · rw [run_cons_of_pass hr] at h
        rw [List.cons_append, run_cons_of_pass hr, ih h]
      · simp [run_cons_of_decision hr] at h

-- Rules that pass on every state they can be given as it is can be left out.
theorem run_skip {front middle back : List ρ} {state : σ} (keep : σ → Prop)
    (hfront : ∀ rule ∈ front, ∀ state, keep state → keep (apply rule state).2)
    (hmiddle : ∀ state, keep state → run apply middle state = (none, state))
    (hs : keep state) :
    run apply (front ++ middle ++ back) state = run apply (front ++ back) state := by
  induction front generalizing state with
  | nil => rw [List.nil_append, List.nil_append, run_append_of_pass (hmiddle state hs)]
  | cons rule front ih =>
      have hk := hfront rule (by simp) state hs
      rcases hr : apply rule state with ⟨_ | decided, mid⟩
      · rw [hr] at hk
        simp only [List.cons_append, run_cons_of_pass hr]
        exact ih (fun r h => hfront r (by simp [h])) hk
      · simp only [List.cons_append, run_cons_of_decision hr]

end FirstDecision

end SingBox.Library
