import SingBox.Library.Run
import SingBox.Library.Watch
import Mathlib.Logic.Function.Basic

namespace SingBox.Core

open Library

-- What differs between the inbounds that take their certificate from a provider. `κ` is a
-- certificate, and `τ` is what is configured from it.
structure CertificateConsumer (κ τ : Type) where
  -- the task reads with `borrow_and_update`, not with `borrow`
  marks : Bool
  -- what `start` may find to configure
  binds : List τ → Bool
  -- how an attempt to configure may end
  mayEnd : τ → κ → Bool → Bool

inductive ConsumerPhase (κ τ : Type) where
  | new
  -- the inbound is built and has its receiver
  | subscribed
  -- `start` has read the certificate
  | starting (certificate : κ)
  -- the task in `changed`
  | waiting
  -- `changed` has returned
  | changed
  -- the task has read the certificate, and what is left to configure
  | applying (certificate : κ) (left : List τ)
  | ended

structure CertificateState (κ τ : Type) where
  channel : Watch (Option κ) := { value := none }
  receiver : WatchReceiver := ⟨0⟩
  phase : ConsumerPhase κ τ := .new
  targets : List τ := []
  inForce : τ → Option κ := fun _ => none
  -- what has been published, and what has been tried with each target and how it has ended
  published : List κ := []
  attempts : τ → List (κ × Bool) := fun _ => []

inductive CertificateAction (κ τ : Type) where
  | publish (certificate : κ)
  | subscribe
  -- `start` reads
  | start
  -- `start` configures what it binds, or fails
  | bind (targets : Option (List τ))
  | wake
  | read
  | apply (applied : Bool)
  | cancel

namespace CertificateState

variable {κ τ : Type}

-- One attempt. A certificate that is not applied leaves what there is.
def configure [DecidableEq τ] (this : CertificateState κ τ) (certificate : κ) (applied : Bool) (target : τ) :
    CertificateState κ τ :=
  { this with
    inForce := if applied then Function.update this.inForce target (some certificate) else this.inForce
    attempts := Function.update this.attempts target (this.attempts target ++ [(certificate, applied)]) }

def applyingPhase (certificate : κ) : List τ → ConsumerPhase κ τ
  | [] => .waiting
  | target :: rest => .applying certificate (target :: rest)

def step [DecidableEq τ] (consumer : CertificateConsumer κ τ) (this : CertificateState κ τ) :
    CertificateAction κ τ → Option (CertificateState κ τ)
  | .publish certificate =>
      some { this with
        channel := this.channel.sendReplace (some certificate)
        published := this.published ++ [certificate] }
  | .subscribe =>
      match this.phase with
      | .new => some { this with receiver := this.channel.subscribe, phase := .subscribed }
      | _ => none
  | .start =>
      match this.phase, this.channel.value with
      | .subscribed, some certificate => some { this with phase := .starting certificate }
      -- the provider is not ready
      | .subscribed, none => some { this with phase := .ended }
      | _, _ => none
  | .bind none =>
      match this.phase with
      | .starting _ => some { this with phase := .ended }
      | _ => none
  | .bind (some targets) =>
      match this.phase with
      | .starting certificate =>
          if consumer.binds targets ∧ ∀ target ∈ targets, consumer.mayEnd target certificate true then
            some (targets.foldl (configure · certificate true) { this with targets, phase := .waiting })
          else none
      | _ => none
  | .wake =>
      match this.phase with
      | .waiting =>
          if this.channel.Unseen this.receiver then
            some { this with receiver := this.channel.markSeen, phase := .changed }
          else none
      | _ => none
  | .read =>
      match this.phase, this.channel.value with
      | .changed, some certificate =>
          some { this with
            receiver := if consumer.marks then this.channel.markSeen else this.receiver
            phase := applyingPhase certificate this.targets }
      | .changed, none => some { this with phase := .waiting }
      | _, _ => none
  | .apply applied =>
      match this.phase with
      | .applying certificate (target :: rest) =>
          if consumer.mayEnd target certificate applied then
            some { this.configure certificate applied target with phase := applyingPhase certificate rest }
          else none
      | _ => none
  | .cancel => some { this with phase := .ended }

-- The last certificate that was applied.
def lastApplied (attempts : List (κ × Bool)) : Option κ :=
  (attempts.filter Prod.snd).getLast?.map Prod.fst

def lastTried (attempts : List (κ × Bool)) : Option κ := attempts.getLast?.map Prod.fst

-- While the task waits with nothing unseen, the last certificate that was published has been
-- tried with every target, and the last one that could be applied is in force.
def Current (consumer : CertificateConsumer κ τ) (this : CertificateState κ τ) : Prop :=
  this.phase = .waiting → ¬this.channel.Unseen this.receiver → ∀ target ∈ this.targets,
    lastTried (this.attempts target) = this.published.getLast? ∧
    this.inForce target = lastApplied (this.attempts target) ∧
    ∀ attempt ∈ this.attempts target,
      attempt.1 ∈ this.published ∧ consumer.mayEnd target attempt.1 attempt.2

variable {consumer : CertificateConsumer κ τ} {this next : CertificateState κ τ} {certificate : κ}
  {applied : Bool} {target other : τ}

theorem lastTried_concat (attempts : List (κ × Bool)) :
    lastTried (attempts ++ [(certificate, applied)]) = some certificate := by
  simp [lastTried]

theorem lastApplied_concat (attempts : List (κ × Bool)) :
    lastApplied (attempts ++ [(certificate, applied)]) =
      if applied then some certificate else lastApplied attempts := by
  cases applied <;> simp [lastApplied]

-- What has been tried, how it may have ended, and what has come of it.
structure Logged (consumer : CertificateConsumer κ τ) (this : CertificateState κ τ) : Prop where
  published : this.channel.value = this.published.getLast?
  inForce : ∀ target, this.inForce target = lastApplied (this.attempts target)
  attempts : ∀ target, ∀ attempt ∈ this.attempts target,
    attempt.1 ∈ this.published ∧ consumer.mayEnd target attempt.1 attempt.2

-- What the phase says about the certificate that was read last.
def LastRead (this : CertificateState κ τ) : Prop :=
  match this.phase with
  | .starting certificate =>
      certificate ∈ this.published ∧ this.channel.Fresh this.receiver (some certificate)
  | .waiting => ∃ certificate ∈ this.published, this.channel.Fresh this.receiver (some certificate) ∧
      ∀ target ∈ this.targets, lastTried (this.attempts target) = some certificate
  | .changed => this.published ≠ []
  | .applying certificate left =>
      certificate ∈ this.published ∧ this.channel.Fresh this.receiver (some certificate) ∧
      ∀ target ∈ this.targets, target ∉ left → lastTried (this.attempts target) = some certificate
  | .new | .subscribed | .ended => True

structure Inv (consumer : CertificateConsumer κ τ) (this : CertificateState κ τ) : Prop where
  logged : this.Logged consumer
  behind : this.channel.Behind this.receiver
  lastRead : this.LastRead

theorem Inv.publish (h : this.Inv consumer) (certificate : κ) :
    Inv consumer { this with
      channel := this.channel.sendReplace (some certificate)
      published := this.published ++ [certificate] } := by
  have hmem {other : κ} (ho : other ∈ this.published) : other ∈ this.published ++ [certificate] :=
    List.mem_append_left _ ho
  refine ⟨⟨?_, h.logged.inForce, fun target attempt hattempt => ?_⟩, h.behind.sendReplace, ?_⟩
  · simp [Watch.sendReplace]
  · obtain ⟨hc, hm⟩ := h.logged.attempts target attempt hattempt
    exact ⟨hmem hc, hm⟩
  · have hread := h.lastRead
    unfold LastRead at hread ⊢
    cases hphase : this.phase with
    | starting other =>
        simp only [hphase] at hread ⊢
        exact ⟨hmem hread.1, hread.2.sendReplace⟩
    | waiting =>
        simp only [hphase] at hread ⊢
        obtain ⟨other, ho, hfresh, htried⟩ := hread
        exact ⟨other, hmem ho, hfresh.sendReplace, htried⟩
    | changed => simp
    | applying other left =>
        simp only [hphase] at hread ⊢
        exact ⟨hmem hread.1, hread.2.1.sendReplace, hread.2.2⟩
    | new => trivial
    | subscribed => trivial
    | ended => trivial

theorem value_isSome (h : this.Logged consumer) (hp : this.published ≠ []) :
    this.channel.value ≠ none := by
  rw [h.published]
  simpa using hp

theorem mem_published (h : this.Logged consumer) (hv : this.channel.value = some certificate) :
    certificate ∈ this.published := List.mem_of_getLast? (h.published.symm.trans hv)

-- The phase after the certificate has been tried with everything but what is left.
theorem lastRead_applying (this : CertificateState κ τ) {left : List τ} (hc : certificate ∈ this.published)
    (hf : this.channel.Fresh this.receiver (some certificate))
    (ht : ∀ target ∈ this.targets, target ∉ left →
      lastTried (this.attempts target) = some certificate) :
    LastRead { this with phase := applyingPhase certificate left } := by
  cases left with
  | nil => exact ⟨certificate, hc, hf, fun target hmem => ht target hmem List.not_mem_nil⟩
  | cons first rest => exact ⟨hc, hf, ht⟩

theorem Inv.current (h : this.Inv consumer) : this.Current consumer := by
  intro hphase hseen target ht
  have hread := h.lastRead
  simp only [LastRead, hphase] at hread
  obtain ⟨certificate, -, hfresh, htried⟩ := hread
  refine ⟨?_, h.logged.inForce target, h.logged.attempts target⟩
  rw [htried target ht, ← h.logged.published, hfresh.2 hseen]

-- Before anything has been published.
def initial : CertificateState κ τ where

theorem inv_initial : Inv consumer (initial : CertificateState κ τ) where
  logged := ⟨rfl, fun _ => rfl, fun _ _ h => absurd h List.not_mem_nil⟩
  behind := Nat.le_refl _
  lastRead := trivial

section

variable [DecidableEq τ]

theorem configure_self :
    (this.configure certificate applied target).attempts target =
      this.attempts target ++ [(certificate, applied)] := Function.update_self ..

theorem configure_of_ne (h : other ≠ target) :
    (this.configure certificate applied target).attempts other = this.attempts other :=
  Function.update_of_ne h ..

theorem Logged.configure (h : this.Logged consumer) (hc : certificate ∈ this.published)
    (hm : consumer.mayEnd target certificate applied) :
    (this.configure certificate applied target).Logged consumer := by
  refine ⟨h.published, fun other => ?_, fun other attempt hattempt => ?_⟩
  · by_cases ho : other = target
    · subst ho
      rw [configure_self, lastApplied_concat, ← h.inForce]
      cases applied <;> simp [CertificateState.configure]
    · rw [configure_of_ne ho, ← h.inForce]
      cases applied <;> simp [CertificateState.configure, ho]
  · by_cases ho : other = target
    · subst ho
      rw [configure_self] at hattempt
      obtain hbefore | hlast := List.mem_append.mp hattempt
      · exact h.attempts other attempt hbefore
      · obtain rfl := List.mem_singleton.mp hlast
        exact ⟨hc, hm⟩
    · rw [configure_of_ne ho] at hattempt
      exact h.attempts other attempt hattempt

-- `start` configures everything that it binds.
theorem bound_spec (this : CertificateState κ τ) {targets : List τ} (hc : certificate ∈ this.published) (h : this.Logged consumer)
    (hm : ∀ target ∈ targets, consumer.mayEnd target certificate true) :
    let bound := targets.foldl (configure · certificate true) this
    bound.Logged consumer ∧ bound.channel = this.channel ∧ bound.receiver = this.receiver ∧
      bound.phase = this.phase ∧ bound.targets = this.targets ∧ bound.published = this.published ∧
      ∀ target, (target ∈ targets ∨ lastTried (this.attempts target) = some certificate) →
        lastTried (bound.attempts target) = some certificate := by
  induction targets generalizing this with
  | nil => exact ⟨h, rfl, rfl, rfl, rfl, rfl, fun target ht => ht.resolve_left List.not_mem_nil⟩
  | cons first rest ih =>
      obtain ⟨hfirst, hrest⟩ := List.forall_mem_cons.mp hm
      obtain ⟨hlogged, hchannel, hreceiver, hphase, htargets, hpublished, htried⟩ :=
        ih (this.configure certificate true first) hc (h.configure hc hfirst) hrest
      refine ⟨hlogged, hchannel, hreceiver, hphase, htargets, hpublished, fun target ht => htried target ?_⟩
      by_cases hself : target = first
      · subst hself
        exact .inr (by rw [configure_self, lastTried_concat])
      · rw [configure_of_ne hself]
        exact ht.imp_left fun hmem => (List.mem_cons.mp hmem).resolve_left hself

theorem Inv.step {action : CertificateAction κ τ} (h : this.Inv consumer)
    (hs : this.step consumer action = some next) : next.Inv consumer := by
  have hread := h.lastRead
  unfold LastRead at hread
  cases action with
  | publish certificate =>
      obtain rfl := Option.some.inj hs
      exact h.publish certificate
  | subscribe =>
      simp only [CertificateState.step] at hs
      split at hs
      · obtain rfl := Option.some.inj hs
        exact ⟨⟨h.logged.published, h.logged.inForce, h.logged.attempts⟩, Watch.behind_subscribe, trivial⟩
      · cases hs
  | start =>
      simp only [CertificateState.step] at hs
      split at hs
      · next certificate hphase hvalue =>
          obtain rfl := Option.some.inj hs
          refine ⟨⟨h.logged.published, h.logged.inForce, h.logged.attempts⟩, h.behind, ?_⟩
          have hfresh := Watch.fresh_read h.behind
          rw [hvalue] at hfresh
          have hmem := mem_published h.logged hvalue
          exact ⟨hmem, hfresh⟩
      · obtain rfl := Option.some.inj hs
        exact ⟨⟨h.logged.published, h.logged.inForce, h.logged.attempts⟩, h.behind, trivial⟩
      · cases hs
  | bind targets =>
      cases targets with
      | none =>
          simp only [CertificateState.step] at hs
          split at hs
          · obtain rfl := Option.some.inj hs
            exact ⟨⟨h.logged.published, h.logged.inForce, h.logged.attempts⟩, h.behind, trivial⟩
          · cases hs
      | some targets =>
          simp only [CertificateState.step] at hs
          split at hs
          · next certificate hphase =>
              split at hs
              · next hbinds =>
                  obtain rfl := Option.some.inj hs
                  simp only [hphase] at hread
                  have hlogged : Logged consumer { this with targets, phase := .waiting } :=
                    ⟨h.logged.published, h.logged.inForce, h.logged.attempts⟩
                  obtain ⟨hbound, hchannel, hreceiver, hphase, htargets, hpublished, htried⟩ :=
                    bound_spec { this with targets, phase := .waiting } hread.1 hlogged hbinds.2
                  refine ⟨hbound, by rw [hchannel, hreceiver]; exact h.behind, ?_⟩
                  simp only [LastRead, hphase]
                  refine ⟨certificate, by rw [hpublished]; exact hread.1,
                    by rw [hchannel, hreceiver]; exact hread.2, fun target hmem => ?_⟩
                  exact htried target (.inl (by rwa [htargets] at hmem))
              · cases hs
          · cases hs
  | wake =>
      simp only [CertificateState.step] at hs
      split at hs
      · next hphase =>
          split at hs
          · obtain rfl := Option.some.inj hs
            simp only [hphase] at hread
            obtain ⟨certificate, hc, -⟩ := hread
            exact ⟨⟨h.logged.published, h.logged.inForce, h.logged.attempts⟩, Nat.le_refl _,
              List.ne_nil_of_mem hc⟩
          · cases hs
      · cases hs
  | read =>
      simp only [CertificateState.step] at hs
      split at hs
      · next certificate hphase hvalue =>
          obtain rfl := Option.some.inj hs
          have hbehind : this.channel.Behind
              (if consumer.marks then this.channel.markSeen else this.receiver) := by
            split
            · exact Nat.le_refl _
            · exact h.behind
          have hfresh := Watch.fresh_read hbehind
          rw [hvalue] at hfresh
          have hmem := mem_published h.logged hvalue
          refine ⟨⟨h.logged.published, h.logged.inForce, h.logged.attempts⟩, hbehind, ?_⟩
          exact lastRead_applying { this with
            receiver := if consumer.marks then this.channel.markSeen else this.receiver } hmem hfresh fun target ht hleft => absurd ht hleft
      · next hphase hvalue =>
          simp only [hphase] at hread
          exact absurd hvalue (value_isSome h.logged hread)
      · cases hs
  | apply applied =>
      simp only [CertificateState.step] at hs
      split at hs
      · next certificate target rest hphase =>
          split at hs
          · next hm =>
              obtain rfl := Option.some.inj hs
              simp only [hphase] at hread
              obtain ⟨hc, hf, ht⟩ := hread
              have hlogged := h.logged.configure hc hm
              refine ⟨⟨hlogged.published, hlogged.inForce, hlogged.attempts⟩, h.behind, ?_⟩
              refine lastRead_applying (this.configure certificate applied target) hc hf
                fun other hmem hleft => ?_
              by_cases hself : other = target
              · subst hself
                rw [configure_self, lastTried_concat]
              · rw [configure_of_ne hself]
                exact ht other hmem (List.not_mem_cons_of_ne_of_not_mem hself hleft)
          · cases hs
      · cases hs
  | cancel =>
      obtain rfl := Option.some.inj hs
      exact ⟨⟨h.logged.published, h.logged.inForce, h.logged.attempts⟩, h.behind, trivial⟩

theorem run_current {actions : List (CertificateAction κ τ)}
    (h : Run.exec (step consumer) initial actions = some next) : next.Current consumer :=
  (Run.invariant (fun _ _ _ => Inv.step) initial actions next inv_initial h).current

end

end CertificateState

end SingBox.Core
