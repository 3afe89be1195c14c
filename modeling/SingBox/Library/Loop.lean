import Mathlib.Logic.Relation

namespace SingBox.Library

-- What one pass through the body of a loop decides: another pass from a new
-- state, or the value the loop ends with.
inductive Pass (σ ρ : Type) where
  | again (state : σ)
  | done (result : ρ)

namespace Loop

variable {σ ρ : Type} (body : σ → Pass σ ρ)

-- A loop whose passes lower `measure` is total, so its value needs no fuel.
def Decreases (measure : σ → Nat) : Prop :=
  ∀ state next, body state = .again next → measure next < measure state

def runFor : Nat → σ → Option ρ
  | 0, _ => none
  | fuel + 1, state =>
      match body state with
      | .again next => runFor fuel next
      | .done result => some result

variable {body} {measure : σ → Nat}

theorem runFor_isSome (hd : Decreases body measure) (fuel : Nat) (state : σ)
    (hf : measure state < fuel) : (runFor body fuel state).isSome := by
  induction fuel generalizing state with
  | zero => omega
  | succ fuel ih =>
      simp only [runFor]
      cases hb : body state with
      | again next =>
          have := hd state next hb
          exact ih next (by omega)
      | done result => rfl

-- More fuel than the measure asks for changes nothing.
theorem runFor_eq_of_le (fuel more : Nat) (state : σ) (result : ρ)
    (hr : runFor body fuel state = some result) (hle : fuel ≤ more) :
    runFor body more state = some result := by
  induction fuel generalizing more state with
  | zero => simp [runFor] at hr
  | succ fuel ih =>
      obtain ⟨more, rfl⟩ : ∃ n, more = n + 1 := ⟨more - 1, by omega⟩
      simp only [runFor] at hr ⊢
      cases hb : body state with
      | again next =>
          rw [hb] at hr
          exact ih more next hr (by omega)
      | done value => simpa [hb] using hr

def run (body : σ → Pass σ ρ) (measure : σ → Nat) (hd : Decreases body measure) (state : σ) : ρ :=
  (runFor body (measure state + 1) state).get (runFor_isSome hd _ _ (Nat.lt_succ_self _))

theorem runFor_eq_run (hd : Decreases body measure) (fuel : Nat) (state : σ)
    (hf : measure state < fuel) : runFor body fuel state = some (run body measure hd state) :=
  runFor_eq_of_le _ _ _ _ (Option.some_get _).symm hf

theorem run_again (hd : Decreases body measure) (state next : σ)
    (hb : body state = .again next) :
    run body measure hd state = run body measure hd next := by
  apply Option.some.inj
  rw [← runFor_eq_run hd (measure state + 1) state (by omega)]
  simpa only [runFor, hb] using runFor_eq_run hd (measure state) next (hd state next hb)

theorem run_done (hd : Decreases body measure) (state : σ) (result : ρ)
    (hb : body state = .done result) : run body measure hd state = result := by
  apply Option.some.inj
  rw [← runFor_eq_run hd (measure state + 1) state (by omega)]
  simp only [runFor, hb]

-- The loop rule: an invariant of the passes gives the postcondition at the exit.
theorem run_rule (inv : σ → Prop) (post : ρ → Prop) (hd : Decreases body measure)
    (hagain : ∀ state next, inv state → body state = .again next → inv next)
    (hdone : ∀ state result, inv state → body state = .done result → post result)
    (state : σ) (hi : inv state) : post (run body measure hd state) := by
  induction hm : measure state using Nat.strongRecOn generalizing state with
  | _ m ih =>
      cases hb : body state with
      | again next =>
          rw [run_again hd state next hb]
          exact ih _ (hm ▸ hd state next hb) next (hagain state next hi hb) rfl
      | done result =>
          rw [run_done hd state result hb]
          exact hdone state result hi hb

-- The states at which the loop begins a pass when it is started in `state`.
def Visits (body : σ → Pass σ ρ) : σ → σ → Prop :=
  Relation.ReflTransGen fun state next => body state = .again next

end Loop

end SingBox.Library
