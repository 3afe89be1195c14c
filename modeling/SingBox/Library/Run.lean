import Mathlib.Data.Option.Basic

namespace SingBox.Library

-- A machine takes an action or refuses it. A run is a list of actions, each of
-- them taken in the state the ones before it have led to.
namespace Run

variable {σ α : Type} (step : σ → α → Option σ)

def exec : σ → List α → Option σ
  | state, [] => some state
  | state, action :: rest => (step state action).bind fun next => exec next rest

-- Every step of the run is taken in a state in which `cond` allows it.
def Meets (cond : σ → α → Prop) : σ → List α → Prop
  | _, [] => True
  | state, action :: rest =>
      cond state action ∧ ∀ next, step state action = some next → Meets cond next rest

-- Every state of the run satisfies `inv`, the first and the last included.
def Always (inv : σ → Prop) : σ → List α → Prop
  | state, [] => inv state
  | state, action :: rest =>
      inv state ∧ ∀ next, step state action = some next → Always inv next rest

-- The state before the `n`-th action of a run that may go on for ever. The actions end
-- with the first `none`.
def reached (state : σ) (actions : Nat → Option α) : Nat → Option σ
  | 0 => some state
  | n + 1 => (reached state actions n).bind fun mid => (actions n).bind (step mid)

variable {step}

theorem exec_append (state : σ) (front back : List α) :
    exec step state (front ++ back) =
      (exec step state front).bind fun mid => exec step mid back := by
  induction front generalizing state with
  | nil => rfl
  | cons action rest ih =>
      simp only [List.cons_append, exec, Option.bind_assoc]
      exact congrArg _ (funext ih)

theorem exec_trans {state mid final : σ} {front back : List α}
    (hf : exec step state front = some mid) (hb : exec step mid back = some final) :
    exec step state (front ++ back) = some final := by
  rw [exec_append, hf]
  exact hb

-- The run rule: what every allowed step keeps, every run of allowed steps keeps.
theorem rule (cond : σ → α → Prop) (inv : σ → Prop)
    (hstep : ∀ state action next, inv state → cond state action →
      step state action = some next → inv next)
    (state : σ) (actions : List α) (final : σ) (hi : inv state)
    (hm : Meets step cond state actions) (he : exec step state actions = some final) :
    inv final := by
  induction actions generalizing state with
  | nil =>
      obtain rfl : state = final := by simpa [exec] using he
      exact hi
  | cons action rest ih =>
      obtain ⟨next, hs, hr⟩ := Option.bind_eq_some_iff.mp he
      exact ih next (hstep state action next hi hm.1 hs) (hm.2 next hs) hr

-- Actions that are allowed in any state.
theorem meets_of_forall {cond : σ → α → Prop} (state : σ) (actions : List α)
    (h : ∀ action ∈ actions, ∀ state, cond state action) : Meets step cond state actions := by
  induction actions generalizing state with
  | nil => trivial
  | cons action rest ih =>
      obtain ⟨ha, hr⟩ := List.forall_mem_cons.mp h
      exact ⟨ha state, fun next _ => ih next hr⟩

theorem Meets.cons {cond : σ → α → Prop} {state next : σ} {action : α} {rest : List α}
    (hc : cond state action) (hs : step state action = some next)
    (hm : Meets step cond next rest) : Meets step cond state (action :: rest) := by
  refine ⟨hc, fun other ho => ?_⟩
  obtain rfl : next = other := Option.some.inj (hs.symm.trans ho)
  exact hm

theorem invariant {inv : σ → Prop}
    (hstep : ∀ state action next, inv state → step state action = some next → inv next)
    (state : σ) (actions : List α) (final : σ) (hi : inv state)
    (he : exec step state actions = some final) : inv final :=
  rule (fun _ _ => True) inv (fun s a n h _ => hstep s a n h) state actions final hi
    (meets_of_forall state actions fun _ _ _ => trivial) he

-- What a run has come to, one of its steps has brought about.
theorem brought_about (came : σ → Prop) {state final : σ} {actions : List α} (hi : ¬came state)
    (he : exec step state actions = some final) (hf : came final) :
    ∃ front action back mid next, actions = front ++ action :: back ∧
      exec step state front = some mid ∧ ¬came mid ∧ step mid action = some next ∧ came next := by
  induction actions generalizing state with
  | nil =>
      obtain rfl : state = final := by simpa [exec] using he
      exact absurd hf hi
  | cons action rest ih =>
      obtain ⟨next, hs, hr⟩ := Option.bind_eq_some_iff.mp he
      by_cases hnext : came next
      · exact ⟨[], action, rest, state, next, rfl, rfl, hi, hs, hnext⟩
      · obtain ⟨front, other, back, mid, last, rfl, hfront, hmid, hlast⟩ := ih hnext hr
        refine ⟨action :: front, other, back, mid, last, rfl, ?_, hmid, hlast⟩
        rw [exec, hs]
        exact hfront

theorem reached_succ {state next : σ} {actions : Nat → Option α} {n : Nat}
    (h : reached step state actions (n + 1) = some next) :
    ∃ mid action, reached step state actions n = some mid ∧ actions n = some action ∧
      step mid action = some next := by
  obtain ⟨mid, hmid, hbind⟩ := Option.bind_eq_some_iff.mp h
  obtain ⟨action, haction, hs⟩ := Option.bind_eq_some_iff.mp hbind
  exact ⟨mid, action, hmid, haction, hs⟩

-- The invariant of a run without end may speak of how far the run is.
theorem reached_rule {state : σ} {actions : Nat → Option α} (inv : Nat → σ → Prop)
    (hstep : ∀ n mid action next, inv n mid → actions n = some action →
      step mid action = some next → inv (n + 1) next)
    (hi : inv 0 state) (n : Nat) (final : σ) (hr : reached step state actions n = some final) :
    inv n final := by
  induction n generalizing final with
  | zero => exact Option.some.inj hr ▸ hi
  | succ n ih =>
      obtain ⟨mid, action, hmid, haction, hs⟩ := reached_succ hr
      exact hstep n mid action final (ih mid hmid) haction hs

theorem Always.first {inv : σ → Prop} {state : σ} {actions : List α}
    (h : Always step inv state actions) : inv state := by
  cases actions with
  | nil => exact h
  | cons action rest => exact h.1

theorem Always.final {inv : σ → Prop} {state final : σ} {actions : List α}
    (h : Always step inv state actions) (he : exec step state actions = some final) : inv final := by
  induction actions generalizing state with
  | nil =>
      obtain rfl : state = final := by simpa [exec] using he
      exact h
  | cons action rest ih =>
      obtain ⟨next, hs, hr⟩ := Option.bind_eq_some_iff.mp he
      exact ih (h.2 next hs) hr

-- The run rule for every state of the run.
theorem always_of_meets {cond : σ → α → Prop} {inv prop : σ → Prop}
    (hstep : ∀ state action next, inv state → cond state action →
      step state action = some next → inv next)
    (hprop : ∀ state, inv state → prop state) (state : σ) (actions : List α) (hi : inv state)
    (hm : Meets step cond state actions) : Always step prop state actions := by
  induction actions generalizing state with
  | nil => exact hprop state hi
  | cons action rest ih =>
      exact ⟨hprop state hi, fun next hs => ih next (hstep state action next hi hm.1 hs) (hm.2 next hs)⟩

-- Where a step keeps the invariant exactly when it is allowed, the runs of
-- allowed steps are the runs along which the invariant holds. `aux` holds along
-- every run.
theorem always_iff_meets_under {cond : σ → α → Prop} {aux inv : σ → Prop}
    (haux : ∀ state action next, aux state → step state action = some next → aux next)
    (hstep : ∀ state action next, aux state → inv state → step state action = some next →
      (cond state action ↔ inv next))
    (hrefused : ∀ state action, step state action = none → cond state action)
    (state : σ) (actions : List α) (ha : aux state) (hi : inv state) :
    Always step inv state actions ↔ Meets step cond state actions := by
  induction actions generalizing state with
  | nil => exact ⟨fun _ => trivial, fun _ => hi⟩
  | cons action rest ih =>
      constructor
      · rintro ⟨_, hrest⟩
        refine ⟨?_, fun next hs => ?_⟩
        · cases hs : step state action with
          | none => exact hrefused state action hs
          | some next => exact (hstep state action next ha hi hs).mpr (hrest next hs).first
        · have hn := (hrest next hs).first
          exact (ih next (haux state action next ha hs) hn).mp (hrest next hs)
      · rintro ⟨hc, hrest⟩
        refine ⟨hi, fun next hs => ?_⟩
        have hn := (hstep state action next ha hi hs).mp hc
        exact (ih next (haux state action next ha hs) hn).mpr (hrest next hs)

theorem always_iff_meets {cond : σ → α → Prop} {inv : σ → Prop}
    (hstep : ∀ state action next, inv state → step state action = some next →
      (cond state action ↔ inv next))
    (hrefused : ∀ state action, step state action = none → cond state action)
    (state : σ) (actions : List α) (hi : inv state) :
    Always step inv state actions ↔ Meets step cond state actions := by
  have haux : ∀ (state : σ) (action : α) (next : σ), (fun _ : σ => True) state →
      step state action = some next → (fun _ : σ => True) next := fun _ _ _ _ _ => trivial
  exact always_iff_meets_under haux (fun state action next _ => hstep state action next) hrefused
    state actions trivial hi

-- Two conditions that say the same under an invariant allow the same runs.
theorem meets_congr {cond other : σ → α → Prop} {inv : σ → Prop}
    (hstep : ∀ state action next, inv state → step state action = some next → inv next)
    (hcond : ∀ state action, inv state → (cond state action ↔ other state action))
    (state : σ) (actions : List α) (hi : inv state) :
    Meets step cond state actions ↔ Meets step other state actions := by
  induction actions generalizing state with
  | nil => exact .rfl
  | cons action rest ih =>
      refine and_congr (hcond state action hi) (forall_congr' fun next => ?_)
      exact imp_congr_right fun hs => ih next (hstep state action next hi hs)

end Run

end SingBox.Library
