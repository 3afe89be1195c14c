import SingBox.Library.Run
import Mathlib.Algebra.Order.Ring.Int

namespace SingBox.Cli

open Library

-- Times are in nanoseconds, those of the system clock since 1970.
def fromSecs (secs : Nat) : Nat := secs * 10 ^ 9

def RENEW_BEFORE : Nat := fromSecs (30 * 24 * 60 * 60)
def RENEW_RETRY : Nat := fromSecs (60 * 60)

-- `SystemTime::checked_sub`: the seconds are those of an `i64`.
def checkedSub (time : Int) (duration : Nat) : Option Int :=
  if -(2 ^ 63 * 10 ^ 9) ≤ time - duration then some (time - duration) else none

-- `parse_managed_certificate` refuses a certificate that has expired by 1970.
structure ManagedCertificate (κ : Type) where
  material : κ
  notAfter : Int
  notAfter_pos : 0 < notAfter

-- `now` is what the system clock says.
def renewalDelay (notAfter now : Int) : Nat :=
  ((checkedSub notAfter RENEW_BEFORE).bind fun renewAt =>
    if now ≤ renewAt then some (renewAt - now).toNat else none).getD 0

-- A call of `issue_certificate` that has ended.
structure Issued where
  ended : Nat
  succeeded : Bool

inductive AcmePhase where
  -- before `start`
  | new
  -- in the call that `start` makes
  | starting
  -- in the `select!` of `renewal_loop`, until the timer has come so far
  | sleeping (wakes : Nat)
  -- in the call that `renewal_loop` makes
  | renewing
  | ended

-- `timer` is what `sleep` goes by, and `clock` is the system's.
structure AcmeState (κ : Type) where
  phase : AcmePhase := .new
  timer : Nat
  clock : Int
  sent : Option κ := none
  -- the last call that has ended
  last : Option Issued := none

inductive AcmeAction (κ : Type) where
  -- both clocks go on, each by what it goes
  | tick (timer clock : Nat)
  -- the certificate that `load_cached_certificate` has found
  | start (cached : Option (ManagedCertificate κ))
  | wake
  -- the end of `issue_certificate`
  | issue (result : Option (ManagedCertificate κ))
  | cancel

namespace AcmeState

variable {κ : Type} (this : AcmeState κ)

-- `sender.send_replace`, and then the timer is set.
def publish (certificate : ManagedCertificate κ) : AcmeState κ :=
  { this with
    sent := some certificate.material
    phase := .sleeping (this.timer + renewalDelay certificate.notAfter this.clock) }

def step : AcmeState κ → AcmeAction κ → Option (AcmeState κ)
  | this, .tick timer clock =>
      some { this with timer := this.timer + timer, clock := this.clock + clock }
  | this, .start cached =>
      match this.phase with
      | .new =>
          match cached.filter fun cached => this.clock < cached.notAfter with
          | some cached => some (this.publish cached)
          | none => some { this with phase := .starting }
      | _ => none
  | this, .wake =>
      match this.phase with
      | .sleeping wakes => if wakes ≤ this.timer then some { this with phase := .renewing } else none
      | _ => none
  | this, .issue result =>
      let last : Option Issued := some { ended := this.timer, succeeded := result.isSome }
      match this.phase, result with
      | .starting, some issued | .renewing, some issued =>
          some ({ this with last }.publish issued)
      -- `start` reports the error
      | .starting, none => some { this with last, phase := .ended }
      | .renewing, none =>
          some { this with last, phase := .sleeping (this.timer + RENEW_RETRY) }
      | _, _ => none
  | this, .cancel =>
      match this.phase with
      | .sleeping _ => some { this with phase := .ended }
      | _ => none

-- How long it is to be between the end of a call and the next one.
def pause (bound : Nat) (last : Issued) : Nat := if last.succeeded then bound else RENEW_RETRY

-- A call is made, or will be made, no sooner after the end of the last one.
def Paced (bound : Nat) (this : AcmeState κ) : Prop :=
  ∀ last, this.last = some last →
    match this.phase with
    | .sleeping wakes => last.ended + pause bound last ≤ wakes
    | .starting | .renewing => last.ended + pause bound last ≤ this.timer
    | .new | .ended => True

-- What is issued is good for longer than the window in which it is renewed.
def Lasting (bound : Nat) (this : AcmeState κ) : AcmeAction κ → Prop
  | .issue (some issued) =>
      (this.phase matches .starting | .renewing) → this.clock + RENEW_BEFORE + bound ≤ issued.notAfter
  | _ => True

theorem le_renewalDelay {bound : Nat} (hb : 0 < bound) (certificate : ManagedCertificate κ)
    (now : Int) :
    bound ≤ renewalDelay certificate.notAfter now ↔
      now + RENEW_BEFORE + bound ≤ certificate.notAfter := by
  have hwindow : (RENEW_BEFORE : Int) ≤ 2 ^ 63 * 10 ^ 9 := by decide
  have hpos := certificate.notAfter_pos
  have hsub : checkedSub certificate.notAfter RENEW_BEFORE =
      some (certificate.notAfter - RENEW_BEFORE) := if_pos (by omega)
  rw [renewalDelay, hsub, Option.bind_some]
  split
  · rw [Option.getD_some]
    omega
  · rw [Option.getD_none]
    omega

-- Until the first call has ended there is nothing to keep away from.
def Begun (this : AcmeState κ) : Prop :=
  (this.phase matches .new | .starting) → this.last = none

theorem Begun.step {this next : AcmeState κ} {action : AcmeAction κ} (h : this.Begun)
    (hs : this.step action = some next) : next.Begun := by
  cases action with
  | tick timer clock =>
      obtain rfl := Option.some.inj hs
      exact h
  | start cached =>
      simp only [AcmeState.step] at hs
      split at hs
      · next hphase =>
          split at hs
          · obtain rfl := Option.some.inj hs
            exact fun hmatch => nomatch hmatch
          · obtain rfl := Option.some.inj hs
            exact fun _ => h (by rw [hphase])
      · cases hs
  | wake =>
      simp only [AcmeState.step] at hs
      split at hs
      · split at hs
        · obtain rfl := Option.some.inj hs
          exact fun hmatch => nomatch hmatch
        · cases hs
      · cases hs
  | issue result =>
      simp only [AcmeState.step] at hs
      split at hs
      · obtain rfl := Option.some.inj hs
        exact fun hmatch => nomatch hmatch
      · obtain rfl := Option.some.inj hs
        exact fun hmatch => nomatch hmatch
      · obtain rfl := Option.some.inj hs
        exact fun hmatch => nomatch hmatch
      · obtain rfl := Option.some.inj hs
        exact fun hmatch => nomatch hmatch
      · cases hs
  | cancel =>
      simp only [AcmeState.step] at hs
      split at hs
      · obtain rfl := Option.some.inj hs
        exact fun hmatch => nomatch hmatch
      · cases hs

-- What is issued sets the timer, and the wait is as long as it should be if the certificate lasts.
theorem paced_publish {bound : Nat} (hb : 0 < bound) (this : AcmeState κ)
    (issued : ManagedCertificate κ) :
    Paced bound ({ this with last := some ⟨this.timer, true⟩ }.publish issued) ↔
      this.clock + RENEW_BEFORE + bound ≤ issued.notAfter := by
  rw [← le_renewalDelay hb issued this.clock]
  constructor
  · intro h
    have hwakes : this.timer + bound ≤ this.timer + renewalDelay issued.notAfter this.clock := h _ rfl
    omega
  · rintro h last hlast
    obtain rfl := Option.some.inj hlast
    exact Nat.add_le_add_left h this.timer

theorem paced_step {bound : Nat} (hb : 0 < bound) {this next : AcmeState κ} {action : AcmeAction κ}
    (hbegun : this.Begun) (hp : this.Paced bound) (hs : this.step action = some next) :
    this.Lasting bound action ↔ next.Paced bound := by
  cases action with
  | tick timer clock =>
      obtain rfl := Option.some.inj hs
      refine iff_of_true trivial fun last hlast => ?_
      have hbefore := hp last hlast
      cases hphase : this.phase <;> simp only [hphase] at hbefore ⊢ <;> omega
  | start cached =>
      refine iff_of_true trivial fun last hlast => ?_
      simp only [AcmeState.step] at hs
      split at hs
      · next hphase =>
          have hnone : this.last = none := hbegun (by rw [hphase])
          split at hs <;> obtain rfl := Option.some.inj hs <;>
            exact absurd (hnone.symm.trans hlast) (by simp)
      · cases hs
  | wake =>
      refine iff_of_true trivial fun last hlast => ?_
      simp only [AcmeState.step] at hs
      split at hs
      · next wakes hphase =>
          split at hs
          · next hwakes =>
              obtain rfl := Option.some.inj hs
              have hbefore := hp last hlast
              rw [hphase] at hbefore
              exact Nat.le_trans hbefore hwakes
          · cases hs
      · cases hs
  | issue result =>
      simp only [AcmeState.step] at hs
      split at hs
      · next issued hphase =>
          obtain rfl := Option.some.inj hs
          exact Iff.trans (by simp [Lasting, hphase]) (paced_publish hb this issued).symm
      · next issued hphase =>
          obtain rfl := Option.some.inj hs
          exact Iff.trans (by simp [Lasting, hphase]) (paced_publish hb this issued).symm
      · obtain rfl := Option.some.inj hs
        exact iff_of_true trivial fun last _ => trivial
      · obtain rfl := Option.some.inj hs
        refine iff_of_true trivial fun last hlast => ?_
        obtain rfl := Option.some.inj hlast
        have hpause : pause bound ⟨this.timer, false⟩ = RENEW_RETRY := if_neg Bool.false_ne_true
        exact Nat.add_le_add_left (Nat.le_of_eq hpause) this.timer
      · cases hs
  | cancel =>
      simp only [AcmeState.step] at hs
      split at hs
      · obtain rfl := Option.some.inj hs
        exact iff_of_true trivial fun last _ => trivial
      · cases hs

-- A provider before its start, whatever the clocks say.
def initial (timer : Nat) (clock : Int) : AcmeState κ := { timer, clock }

-- The renewal keeps its pace in the runs in which everything issued lasts long enough.
theorem always_paced_iff (bound : Nat) (hb : 0 < bound) (timer : Nat) (clock : Int)
    (actions : List (AcmeAction κ)) :
    Run.Always step (Paced bound) (initial timer clock) actions ↔
      Run.Meets step (Lasting bound) (initial timer clock) actions := by
  have hbegun : ∀ (state : AcmeState κ) action next, Begun state → step state action = some next →
      Begun next := fun _ _ _ h => h.step
  refine Run.always_iff_meets_under hbegun
    (fun _ _ _ haux hinv => paced_step hb haux hinv) (fun this action hs => ?_) _ actions
    (fun _ => rfl) (fun last hlast => by cases hlast)
  cases action with
  | issue result =>
      cases result with
      | none => trivial
      | some issued =>
          simp only [AcmeState.step] at hs
          intro hmatch
          split at hs <;> simp_all
  | _ => trivial

-- Of a profile with certificates for six days.
def shortLived : ManagedCertificate Unit where
  material := ()
  notAfter := fromSecs (6 * 24 * 60 * 60)
  notAfter_pos := by decide

def spin : List (AcmeAction Unit) := [.start none, .issue (some shortLived)]

-- Whatever the pause that is asked for, the next call is due at once.
theorem not_paced :
    ¬∃ bound, 0 < bound ∧ ∀ (timer : Nat) (clock : Int) (actions : List (AcmeAction Unit)),
      Run.Always step (Paced bound) (initial timer clock) actions := by
  rintro ⟨bound, hb, h⟩
  have hrun : Run.exec step (initial 0 0) spin = some
      { phase := .sleeping 0, timer := 0, clock := 0, sent := some (), last := some ⟨0, true⟩ } := rfl
  have hpaced := (h 0 0 spin).final hrun ⟨0, true⟩ rfl
  exact absurd hpaced (by simp [pause]; omega)

-- A certificate for ninety days, renewed thirty days before its end.
def ninetyDays : ManagedCertificate Unit where
  material := ()
  notAfter := fromSecs (90 * 24 * 60 * 60)
  notAfter_pos := by decide

def sixtyDays : Nat := fromSecs (60 * 24 * 60 * 60)

theorem always_paced_iff_ninetyDays :
    Run.Always step (Paced sixtyDays) (initial 0 0)
      [.start none, .issue (some ninetyDays), .tick sixtyDays sixtyDays, .wake, .issue none] := by
  refine (always_paced_iff sixtyDays (by decide) 0 0 _).mpr ?_
  refine .cons trivial rfl (.cons (fun _ => by decide) rfl ?_)
  exact .cons trivial rfl (.cons trivial rfl (.cons trivial rfl trivial))

end AcmeState

end SingBox.Cli
