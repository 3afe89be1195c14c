import SingBox.Library.Async
import SingBox.Vless.WebSocket.Write

namespace SingBox.Vless

open Library
open Async (Yields)

instance : AsyncRead Environment := ⟨Environment.pollRead⟩
instance : AsyncWrite Environment := ⟨Environment.pollWrite, Environment.pollDrained⟩

instance : AsyncRead WebSocketStream := ⟨WebSocketStream.pollRead⟩
instance : AsyncWrite WebSocketStream := ⟨WebSocketStream.pollWrite, WebSocketStream.pollFlush⟩

namespace Environment

-- A transport that does not let anyone wait for ever.
structure Fair (inner : Environment) : Prop where
  reads : Async.Fair (· ≠ .pending) inner.reads
  writes : Async.Fair (· ≠ .pending) inner.writes

-- How many answers there are before it is ready.
noncomputable def wait (inner : Environment) : Nat :=
  Async.wait (· ≠ .pending) inner.reads + Async.wait (· ≠ .pending) inner.writes

-- A read or a write that was not ready has used up its answer.
inductive Waited (inner next : Environment) : Prop
  | read : inner.reads 0 = .pending → (∀ n, next.reads n = inner.reads (n + 1)) →
      next.writes = inner.writes → Waited inner next
  | write : inner.writes 0 = .pending → (∀ n, next.writes n = inner.writes (n + 1)) →
      next.reads = inner.reads → Waited inner next

theorem Waited.wait_lt {inner next : Environment} (h : Waited inner next) (hf : inner.Fair) :
    next.wait < inner.wait := by
  cases h with
  | read hpending hreads hwrites =>
      have hlt := hf.reads.wait_lt (by simp [hpending])
      rw [wait, wait, hwrites, show next.reads = _ from funext hreads]
      omega
  | write hpending hwrites hreads =>
      have hlt := hf.writes.wait_lt (by simp [hpending])
      rw [wait, wait, hreads, show next.writes = _ from funext hwrites]
      omega

theorem Fair.of_rest {inner next : Environment} (h : inner.Fair)
    (hreads : WebSocketStream.Rest inner.reads next.reads)
    (hwrites : WebSocketStream.Rest inner.writes next.writes) : next.Fair := by
  obtain ⟨read, hread⟩ := hreads
  obtain ⟨written, hwritten⟩ := hwrites
  refine ⟨?_, ?_⟩
  · rw [show next.reads = _ from funext hread]
    exact h.reads.drop read
  · rw [show next.writes = _ from funext hwritten]
    exact h.writes.drop written

end Environment

namespace WebSocketStream

-- Less is left to be read, to be sent or to be waited for.
def Less (next this : WebSocketStream) : Prop :=
  Prod.Lex (· < ·) (Prod.Lex (· < ·) (· < ·))
    (next.readMeasure, next.unsent.length, next.inner.wait)
    (this.readMeasure, this.unsent.length, this.inner.wait)

theorem less_wf : WellFounded Less :=
  InvImage.wf (fun this : WebSocketStream =>
    (this.readMeasure, this.unsent.length, this.inner.wait))
    (WellFounded.prod_lex wellFounded_lt (WellFounded.prod_lex wellFounded_lt wellFounded_lt))

-- A flush that does not fail has sent something, or it has only waited, or there was nothing.
inductive Flushes (this : WebSocketStream) : Poll (IoResult Unit) × WebSocketStream → Prop
  | sent (result : Poll (IoResult Unit)) (next : WebSocketStream)
      (hless : next.unsent.length < this.unsent.length) : Flushes this (result, next)
  | waited (next : WebSocketStream) (hunsent : next.unsent = this.unsent)
      (hwait : this.inner.Waited next.inner) : Flushes this (.pending, next)
  | nothing (next : WebSocketStream) (hunsent : next.unsent = this.unsent)
      (hinner : next.inner = this.inner) : Flushes this (.ready (.ok ()), next)
  | failed (error : IoError) (next : WebSocketStream) : Flushes this (.ready (.error error), next)

theorem pollFlushOutput_flushes (this : WebSocketStream) : Flushes this this.pollFlushOutput := by
  apply Loop.run_rule (fun state => state = this ∨ state.unsent.length < this.unsent.length)
    (Flushes this) flushPass_decreases _ _ this (.inl rfl)
  · intro state after hi hp
    have hless := flushPass_decreases state after hp
    right
    obtain rfl | hlt := hi
    · exact hless
    · exact Nat.lt_trans hless hlt
  · intro state result hi hp
    rcases flushPass_cases state with ⟨hu, he⟩ | ⟨_, _, _, _, he⟩ | ⟨hw, he⟩ | ⟨_, _, error, he⟩
    · rw [he] at hp
      obtain rfl := Pass.done.inj hp
      obtain rfl | hlt := hi
      · exact .nothing _ (by rw [hu]; rfl) rfl
      · exact .sent _ _ (by rwa [hu] at hlt)
    · rw [he] at hp
      cases hp
    · rw [he] at hp
      obtain rfl := Pass.done.inj hp
      obtain rfl | hlt := hi
      · exact .waited _ (by simp) (.write hw (fun _ => rfl) rfl)
      · exact .sent _ _ (by simpa using hlt)
    · rw [he] at hp
      obtain rfl := Pass.done.inj hp
      exact .failed _ _

theorem flushControl_flushes (this : WebSocketStream) : Flushes this this.flushControl := by
  have hf := pollFlushOutput_flushes this
  unfold flushControl
  split
  · split
    all_goals
      rename_i he
      rw [he] at hf
    · cases hf with
      | sent _ _ hless => exact .sent _ _ hless
      | nothing _ hunsent hinner => exact .nothing _ hunsent hinner
    · exact .failed _ _
    · exact hf
  · exact .nothing _ rfl rfl

-- Reading has come nearer to its end, or the output has, or it has only waited.
inductive Nearer (this next : WebSocketStream) : Prop
  | read (hless : next.readMeasure < this.readMeasure)
  | sent (hmeasure : next.readMeasure = this.readMeasure)
      (hless : next.unsent.length < this.unsent.length)
  | waited (hmeasure : next.readMeasure = this.readMeasure) (hunsent : next.unsent = this.unsent)
      (hwait : this.inner.Waited next.inner)

theorem Nearer.less {this next : WebSocketStream} (h : Nearer this next) (hf : this.inner.Fair) :
    Less next this := by
  cases h with
  | read hless => exact .left _ _ hless
  | sent hmeasure hless =>
      rw [Less, hmeasure]
      exact .right _ (.left _ _ hless)
  | waited hmeasure hunsent hwait =>
      rw [Less, hmeasure, hunsent]
      exact .right _ (.right _ (hwait.wait_lt hf))

theorem Nearer.of_read {this mid next : WebSocketStream} (hlt : mid.readMeasure < this.readMeasure)
    (h : Nearer mid next) : Nearer this next := by
  cases h with
  | read hless => exact .read (Nat.lt_trans hless hlt)
  | sent hmeasure _ => exact .read (hmeasure ▸ hlt)
  | waited hmeasure _ _ => exact .read (hmeasure ▸ hlt)

theorem SameWriter.unsent {this next : WebSocketStream} (h : SameWriter this next) :
    next.unsent = this.unsent := by
  rw [WebSocketStream.unsent, WebSocketStream.unsent, h.writeBuffer, h.writeOffset]

theorem pollFillInput_nearer {this next : WebSocketStream}
    (h : this.pollFillInput = (.pending, next)) : Nearer this next := by
  obtain ⟨filled, count, hf, hc⟩ := pollFillInput_cases this
  rw [h] at hc
  rcases hc with ⟨_, _, he⟩ | ⟨_, _, _, he⟩ | ⟨rfl, hr, he⟩ | ⟨_, _, _, he⟩
  · cases he
  · cases he
  · obtain ⟨_, rfl⟩ := Prod.mk.inj he
    have hle := hf.readMeasure_add_le
    obtain heq | hlt := Nat.eq_or_lt_of_le hle
    · exact .waited heq hf.writer.unsent (.read hr hf.reads hf.writer.writes)
    · exact .read hlt
  · cases he

theorem fillHeader_nearer {this next : WebSocketStream}
    (h : this.fillHeader = .done (.pending, next)) : Nearer this next := by
  unfold fillHeader at h
  split at h
  · cases h
  · split at h <;> cases h
  · cases h
  · next he =>
      obtain ⟨_, rfl⟩ := Prod.mk.inj (Pass.done.inj h)
      exact pollFillInput_nearer he

theorem takePayload_ready (output : Nat) (frame : WebSocketReadFrame) (this next : WebSocketStream) :
    takePayload output frame this ≠ .done (.pending, next) := by
  simp only [takePayload]
  split <;> simp

theorem readPayload_nearer {output : Nat} {frame : WebSocketReadFrame} {this next : WebSocketStream}
    (h : readPayload output frame this = .done (.pending, next)) : Nearer this next := by
  unfold readPayload at h
  split at h
  · split at h <;> cases h
  · split at h
    · split at h
      · exact absurd h (takePayload_ready output frame _ next)
      · cases h
      · cases h
      · next he =>
          obtain ⟨_, rfl⟩ := Prod.mk.inj (Pass.done.inj h)
          exact pollFillInput_nearer he
    · exact absurd h (takePayload_ready output frame _ next)

-- What comes after the flush of a control frame.
theorem Nearer.of_flushed {this flushed next : WebSocketStream} (hr : SameReader this flushed)
    (hf : flushed.unsent.length < this.unsent.length ∨
      (flushed.unsent = this.unsent ∧ flushed.inner = this.inner))
    (h : Nearer flushed next) : Nearer this next := by
  have hm := hr.readMeasure
  cases h with
  | read hless => exact .read (hm ▸ hless)
  | sent hmeasure hless =>
      refine .sent (hmeasure.trans hm) ?_
      obtain hlt | ⟨heq, _⟩ := hf
      · exact Nat.lt_trans hless hlt
      · exact heq ▸ hless
  | waited hmeasure hunsent hwait =>
      obtain hlt | ⟨heq, hinner⟩ := hf
      · exact .sent (hmeasure.trans hm) (hunsent ▸ hlt)
      · exact .waited (hmeasure.trans hm) (hunsent.trans heq) (hinner ▸ hwait)

theorem readPass_nearer {output : Nat} {this next : WebSocketStream}
    (h : readPass output this = .done (.pending, next)) : Nearer this next := by
  have hr := flushControl_sameReader this
  have hf := flushControl_flushes this
  unfold readPass at h
  split at h
  · cases h
  · next flushed he =>
      obtain ⟨_, rfl⟩ := Prod.mk.inj (Pass.done.inj h)
      rw [he] at hr hf
      cases hf with
      | sent _ _ hless => exact .sent hr.readMeasure hless
      | waited _ hunsent hwait => exact .waited hr.readMeasure hunsent hwait
  · next flushed he =>
      rw [he] at hr hf
      have hsent : flushed.unsent.length < this.unsent.length ∨
          (flushed.unsent = this.unsent ∧ flushed.inner = this.inner) := by
        cases hf with
        | sent _ _ hless => exact .inl hless
        | nothing _ hunsent hinner => exact .inr ⟨hunsent, hinner⟩
      refine .of_flushed hr hsent ?_
      split at h
      · cases h
      · split at h
        · exact readPayload_nearer h
        · next hnone =>
            split at h
            · cases h
            · next frame started hst =>
                have hlt := (startFrame_readMeasure flushed started frame hnone hst).1
                exact (readPayload_nearer h).of_read hlt
            · exact fillHeader_nearer h

-- A read that is not ready leaves less to wait for.
theorem pollRead_nearer {output : Nat} {this next : WebSocketStream}
    (h : this.pollRead output = (.pending, next)) : Nearer this next := by
  unfold pollRead at h
  split at h
  · cases h
  · revert h
    apply Loop.run_rule (fun state => state = this ∨ state.readMeasure < this.readMeasure)
      (fun result => result = (.pending, next) → Nearer this next)
      (readPass_decreases output) _ _ this (.inl rfl)
    · intro state after hi hp
      have hless := readPass_decreases output state after hp
      right
      obtain rfl | hlt := hi
      · exact hless
      · exact Nat.lt_trans hless hlt
    · rintro state result hi hp rfl
      have hnearer := readPass_nearer hp
      obtain rfl | hlt := hi
      · exact hnearer
      · exact hnearer.of_read hlt

-- What reading keeps, of a stream over a transport that is slow at most. `sent` is what has
-- gone out so far, or is about to, and `outcome` how the reading will end.
structure Open (sent : Bytes) (outcome : IoResult Unit) (this : WebSocketStream) : Prop where
  sound : this.Sound
  reliable : this.inner.Reliable
  fair : this.inner.Fair
  sent : sent <+: this.inner.sent ++ this.unsent
  outcome : this.remaining.2 = outcome
  pendingPayloadLen : this.pendingPayloadLen = none

theorem pollRead_rest (output : Nat) (this : WebSocketStream) (hs : this.Sound)
    (hr : this.inner.Reliable) :
    Rest this.inner.reads (this.pollRead output).2.inner.reads ∧
      Rest this.inner.writes (this.pollRead output).2.inner.writes ∧
      (this.pollRead output).2.pendingPayloadLen = this.pendingPayloadLen := by
  unfold pollRead
  split
  · exact ⟨.refl _, .refl _, rfl⟩
  · next hearly =>
      obtain ⟨_, hk, _⟩ := readLoop_call output this hs hr (Nat.not_lt.mp hearly)
      exact ⟨hk.reads, hk.writes, hk.pendingPayloadLen⟩

-- Replies go out behind what there is.
theorem pollRead_sent (output : Nat) (this : WebSocketStream) (hs : this.Sound)
    (hr : this.inner.Reliable) : this.inner.sent ++ this.unsent <+:
      (this.pollRead output).2.inner.sent ++ (this.pollRead output).2.unsent := by
  obtain ⟨replies, h⟩ := pollRead_replied output this hs hr.masks
  obtain ⟨bytes, _, hc⟩ := h.wire
  exact ⟨bytes, hc.symm⟩

theorem Open.pollRead {sent : Bytes} {outcome : IoResult Unit} {this next : WebSocketStream}
    {output : Nat} {result : ReadResult} (h : this.Open sent outcome)
    (hp : this.pollRead output = (result, next)) (he : next.remaining.2 = this.remaining.2) :
    next.Open sent outcome := by
  obtain ⟨_, hreliable, hsound, _⟩ := pollRead_call output this h.sound h.reliable
  obtain ⟨hreads, hwrites, hpending⟩ := pollRead_rest output this h.sound h.reliable
  have hsent := pollRead_sent output this h.sound h.reliable
  rw [hp] at hreliable hsound hreads hwrites hpending hsent
  exact ⟨hsound, hreliable, h.fair.of_rest hreads hwrites, h.sent.trans hsent, he.trans h.outcome,
    hpending.trans h.pendingPayloadLen⟩

-- Everything that is left can be read.
def source (sent : Bytes) (outcome : IoResult Unit) : Source WebSocketStream where
  good := Open sent outcome
  rest this := this.remaining.1
  read := by
    intro this room hopen hroom hrest
    have hpending : ∀ state next : WebSocketStream,
        (state.Open sent outcome ∧ state.remaining = this.remaining) →
        state.pollRead room = (.pending, next) →
        (next.Open sent outcome ∧ next.remaining = this.remaining) ∧ Less next state := by
      rintro state next ⟨hstate, hsame⟩ hp
      obtain ⟨hc, _⟩ := pollRead_call room state hstate.sound hstate.reliable
      rw [hp] at hc
      cases hc with
      | pending _ hr _ =>
          exact ⟨⟨hstate.pollRead hp (congrArg Prod.snd hr), hr.trans hsame⟩,
            (pollRead_nearer hp).less hstate.fair⟩
    have hfine : ∀ (state : WebSocketStream) (error : IoError) (next : WebSocketStream),
        (state.Open sent outcome ∧ state.remaining = this.remaining) →
        state.pollRead room ≠ (.ready (.error error), next) := by
      rintro state error next ⟨hstate, hsame⟩ hp
      obtain ⟨hc, _⟩ := pollRead_call room state hstate.sound hstate.reliable
      rw [hp] at hc
      cases hc with
      | error _ _ _ he => exact hrest (by rw [← hsame, he])
    obtain ⟨last, bytes, next, ⟨hlast, hsame⟩, hp, hyields⟩ := Yields.await _ less_wf hpending hfine
      this ⟨hopen, rfl⟩
    obtain ⟨hc, _⟩ := pollRead_call room last hlast.sound hlast.reliable
    rw [hp] at hc
    cases hc with
    | bytes _ _ hle hr he =>
        refine ⟨bytes, next, hyields, hlast.pollRead hp (by rw [hr]), fun hempty => ?_, hle, ?_⟩
        · obtain hzero | hend := he hempty
          · omega
          · exact hrest (by rw [← hsame, hend])
        · rw [← hsame, hr]

end WebSocketStream

end SingBox.Vless
