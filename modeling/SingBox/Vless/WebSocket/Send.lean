import SingBox.Vless.Transport

namespace SingBox.Vless

open Library
open Async (Yields)

namespace WebSocketStream

theorem SameReader.remaining {this next : WebSocketStream} (h : SameReader this next) :
    next.remaining = this.remaining := by
  simp only [WebSocketStream.remaining, h.view, h.clientSide, h.earlyData, h.earlyOffset]

-- What writing leaves of an open stream.
theorem Open.of_output {sent : Bytes} {outcome : IoResult Unit} {this next : WebSocketStream}
    (h : this.Open sent outcome) (hreader : SameReader this next)
    (hwrites : Rest this.inner.writes next.inner.writes)
    (hmasks : Rest this.inner.masks next.inner.masks)
    (houtput : next.writeOffset ≤ next.writeBuffer.length)
    (hsent : this.inner.sent ++ this.unsent <+: next.inner.sent ++ next.unsent)
    (hpending : next.pendingPayloadLen = none) : next.Open sent outcome where
  sound := hreader.sound h.sound houtput
  reliable := by
    refine ⟨hwrites.accepting h.reliable.accepting, ?_, ?_⟩
    · rw [hreader.reads]
      exact h.reliable.reads
    · obtain ⟨used, hu⟩ := hmasks
      exact fun n => hu n ▸ h.reliable.masks (n + used)
  fair := h.fair.of_rest (.of_eq hreader.reads) hwrites
  sent := h.sent.trans hsent
  outcome := by rw [hreader.remaining, h.outcome]
  pendingPayloadLen := hpending

theorem Open.of_moves {sent : Bytes} {outcome : IoResult Unit} {this next : WebSocketStream}
    (h : this.Open sent outcome) (hm : Moves this next) (hp : next.pendingPayloadLen = none) :
    next.Open sent outcome :=
  h.of_output hm.reader hm.writes hm.masks (hm.output h.sound.output)
    (hm.conserved ▸ List.prefix_refl _) hp

theorem Open.of_sends {sent : Bytes} {outcome : IoResult Unit} {this next : WebSocketStream} {frame : WholeFrame}
    (h : this.Open sent outcome) (hs : Sends this next frame) (hp : next.pendingPayloadLen = none) :
    next.Open sent outcome := by
  obtain ⟨mask, hc⟩ := hs.conserved
  exact h.of_output hs.reader hs.writes hs.masks hs.output ⟨_, hc.symm⟩ hp

-- The output has come nearer to its end, or it has only waited.
inductive Drains (this next : WebSocketStream) : Prop
  | sent (hless : next.unsent.length < this.unsent.length)
  | waited (hunsent : next.unsent = this.unsent) (hwait : this.inner.Waited next.inner)

theorem Flushes.drains {this next : WebSocketStream} (h : Flushes this (.pending, next)) :
    Drains this next := by
  cases h with
  | sent _ _ hless => exact .sent hless
  | waited _ hunsent hwait => exact .waited hunsent hwait

-- Less is left to be queued, to be sent or to be waited for.
def LessOutput (next this : WebSocketStream) : Prop :=
  Prod.Lex (· < ·) (Prod.Lex (· < ·) (· < ·))
    (next.pendingPayloadLen.elim 1 fun _ => 0, next.unsent.length, next.inner.wait)
    (this.pendingPayloadLen.elim 1 fun _ => 0, this.unsent.length, this.inner.wait)

theorem lessOutput_wf : WellFounded LessOutput :=
  InvImage.wf (fun this : WebSocketStream =>
    ((this.pendingPayloadLen.elim 1 fun _ => 0 : Nat), this.unsent.length, this.inner.wait))
    (WellFounded.prod_lex wellFounded_lt (WellFounded.prod_lex wellFounded_lt wellFounded_lt))

theorem Drains.less {this next : WebSocketStream} (h : Drains this next) (hf : this.inner.Fair)
    (hp : next.pendingPayloadLen = this.pendingPayloadLen) : LessOutput next this := by
  rw [LessOutput, hp]
  cases h with
  | sent hless => exact .right _ (.left _ _ hless)
  | waited hunsent hwait =>
      rw [hunsent]
      exact .right _ (.right _ (hwait.wait_lt hf))

-- A write that is not ready has queued its frame, or it is where the flush has stopped.
theorem pollWrite_pending {data : Bytes} {this next : WebSocketStream}
    (h : this.pollWrite data = (.pending, next)) :
    (this.pendingPayloadLen = none ∧ next.pendingPayloadLen ≠ none) ∨
      (next.pendingPayloadLen = this.pendingPayloadLen ∧ Drains this next) := by
  have hf := pollFlushOutput_flushes this
  have hk := pollFlushOutput_flushed this
  unfold pollWrite at h
  split at h
  · cases h
  split at h
  · split at h
    · cases h
    · cases h
    · next flushed he =>
        obtain ⟨_, rfl⟩ := Prod.mk.inj h
        rw [he] at hf hk
        exact .inr ⟨hk.pendingPayloadLen, hf.drains⟩
  · next hnone =>
      split at h
      · cases h
      · next flushed he =>
          obtain ⟨_, rfl⟩ := Prod.mk.inj h
          rw [he] at hf hk
          exact .inr ⟨hk.pendingPayloadLen, hf.drains⟩
      · dsimp only at h
        split at h
        · cases h
        · next appended _ =>
            have hk := pollFlushOutput_flushed
              { appended with pendingPayloadLen := some (min data.length MAX_WS_FRAME_SIZE) }
            split at h
            · cases h
            · cases h
            · next last he =>
                obtain ⟨_, rfl⟩ := Prod.mk.inj h
                rw [he] at hk
                exact .inl ⟨hnone, by rw [hk.pendingPayloadLen]; exact Option.some_ne_none _⟩

-- What a writer of `data` finds between its polls: the frame is still to be queued, or it has
-- been and its length is remembered.
inductive Writing (data : Bytes) (this state : WebSocketStream) : Prop
  | before (hm : Moves this state) (hp : state.pendingPayloadLen = none)
  | after (hs : Sends this state ⟨0x2, data⟩) (hp : state.pendingPayloadLen = some data.length)

-- But for that length the stream is as open as it was.
theorem Writing.open {data : Bytes} {sent : Bytes} {outcome : IoResult Unit} {this state : WebSocketStream}
    (h : Writing data this state) (hopen : this.Open sent outcome) :
    Open sent outcome { state with pendingPayloadLen := none } := by
  have hforget := moves_pendingPayloadLen state none
  cases h with
  | before hm _ => exact hopen.of_moves (hm.trans hforget) rfl
  | after hs _ => exact hopen.of_sends (hs.moves hforget) rfl

theorem Writing.sound {data : Bytes} {sent : Bytes} {outcome : IoResult Unit} {this state : WebSocketStream}
    (h : Writing data this state) (hopen : this.Open sent outcome) : state.Sound :=
  have hs := (h.open hopen).sound
  ⟨hs.input, hs.output, hs.view⟩

theorem Writing.pending {data : Bytes} {sent : Bytes} {outcome : IoResult Unit} {this state next : WebSocketStream}
    (hlength : data.length ≤ MAX_WS_FRAME_SIZE) (h : Writing data this state)
    (hopen : this.Open sent outcome) (hp : state.pollWrite data = (.pending, next)) :
    Writing data this next ∧ LessOutput next state := by
  have htake : data.take MAX_WS_FRAME_SIZE = data := List.take_of_length_le hlength
  refine ⟨?_, ?_⟩
  · have hc := pollWrite_cases data state (h.sound hopen)
    rw [hp] at hc
    cases hc with
    | waiting _ _ hm hn =>
        cases h with
        | before hb hnone => exact .before (hb.trans hm) (hn.trans hnone)
        | after hs hsome => exact .after (hs.moves hm) (hn.trans hsome)
    | queued _ _ _ hnone _ hs _ ha =>
        rw [htake] at hs ha
        cases h with
        | before hb _ =>
            generalize hlen : next.pendingPayloadLen = length at ha
            cases ha with
            | pending => exact .after (hb.sends hs) hlen
        | after _ hsome => rw [hsome] at hnone; cases hnone
  · obtain ⟨hnone, hsome⟩ | ⟨hsame, hdrains⟩ := pollWrite_pending hp
    · obtain ⟨length, hlength⟩ := Option.ne_none_iff_exists'.mp hsome
      rw [LessOutput, hnone, hlength]
      exact .left _ _ Nat.zero_lt_one
    · exact hdrains.less (h.open hopen).fair hsame

theorem Writing.done {data : Bytes} {sent : Bytes} {outcome : IoResult Unit} {this state next : WebSocketStream}
    {count : Nat} (hdata : data ≠ []) (hlength : data.length ≤ MAX_WS_FRAME_SIZE)
    (h : Writing data this state) (hopen : this.Open sent outcome)
    (hp : state.pollWrite data = (.ready (.ok count), next)) :
    count = data.length ∧ Sends this next ⟨0x2, data⟩ ∧ next.pendingPayloadLen = none := by
  have hc := pollWrite_cases data state (h.sound hopen)
  rw [hp] at hc
  cases hc with
  | empty he => exact absurd he hdata
  | settled _ _ _ hsome hm hn =>
      cases h with
      | before _ hnone => rw [hnone] at hsome; cases hsome
      | after hs hlen =>
          rw [hlen] at hsome
          exact ⟨(Option.some.inj hsome).symm, hs.moves hm, hn⟩
  | queued _ _ _ hnone _ hs _ ha =>
      rw [List.take_of_length_le hlength] at hs ha
      cases h with
      | before hb _ =>
          generalize hlen : next.pendingPayloadLen = length at ha
          cases ha with
          | done => exact ⟨rfl, hb.sends hs, rfl⟩
      | after _ hsome => rw [hsome] at hnone; cases hnone

theorem Writing.fine {data : Bytes} {sent : Bytes} {outcome : IoResult Unit} {this state next : WebSocketStream}
    {error : IoError} (h : Writing data this state) (hopen : this.Open sent outcome) :
    state.pollWrite data ≠ (.ready (.error error), next) := by
  intro hp
  have hreliable := (h.open hopen).reliable
  have hc := pollWrite_cases data state (h.sound hopen)
  rw [hp] at hc
  cases hc with
  | broken _ _ _ _ hc => exact hc hreliable.accepting
  | maskless _ _ _ _ _ hc =>
      obtain ⟨n, hn⟩ := hc
      exact hreliable.masks n hn
  | queued _ _ _ _ _ _ _ ha =>
      generalize next.pendingPayloadLen = length at ha
      cases ha with
      | error _ hc => exact hc hreliable.accepting

-- A message that fits one frame goes out as that frame, and nothing that is to be read changes.
theorem Open.writeAll {sent : Bytes} {outcome : IoResult Unit} {this : WebSocketStream} (h : this.Open sent outcome)
    {data : Bytes} (hdata : data ≠ []) (hlength : data.length ≤ MAX_WS_FRAME_SIZE) :
    ∃ next, Yields (Async.writeAll data) this () next ∧ next.Open sent outcome ∧
      Sends this next ⟨0x2, data⟩ := by
  obtain ⟨last, count, next, hlast, hp, hyields⟩ := Yields.await (Writing data this) lessOutput_wf
    (fun state next hw => hw.pending hlength h) (fun state error next hw => hw.fine h)
    this (.before (.refl this) h.pendingPayloadLen)
  obtain ⟨rfl, hsends, hnone⟩ := hlast.done hdata hlength h hp
  have hpos := List.length_pos_iff.mpr hdata
  have hrest : Yields (fun polls => Async.writeRounds polls (data.length - 1)
      (data.drop data.length)) next () next := by
    rw [List.drop_length]
    cases data.length - 1 <;> exact .pure next ()
  have hall := Yields.writeRounds hdata hpos hyields hrest
  rw [Nat.sub_add_cancel hpos] at hall
  exact ⟨next, hall, h.of_sends hsends hnone, hsends⟩

-- A flush that is not ready has sent something, or the transport has kept it waiting.
theorem pollFlush_pending {this next : WebSocketStream} (h : this.pollFlush = (.pending, next)) :
    Drains this next := by
  have hf := pollFlushOutput_flushes this
  unfold pollFlush at h
  split at h
  · next flushed he =>
      rw [he] at hf
      obtain ⟨hp, rfl⟩ := Prod.mk.inj h
      have hwaited : flushed.inner.Waited flushed.inner.pollDrained.2 :=
        Environment.patient_pollDrained.waited _ _ (Prod.ext hp rfl)
      cases hf with
      | sent _ _ hless => exact .sent hless
      | nothing _ hunsent hinner => exact .waited hunsent (hinner ▸ hwaited)
  · rw [h] at hf
    exact hf.drains

theorem pollFlush_done {this next : WebSocketStream} (h : this.pollFlush = (.ready (.ok ()), next)) :
    next.unsent = [] := by
  have hd := pollFlushOutput_done this
  unfold pollFlush at h
  split at h
  · next flushed he =>
      rw [he] at hd
      obtain ⟨_, rfl⟩ := Prod.mk.inj h
      exact hd rfl
  · next hne => exact absurd h (hne next)

theorem pollFlush_fine {this next : WebSocketStream} {error : IoError}
    (ha : this.inner.Accepting) : this.pollFlush ≠ (.ready (.error error), next) := by
  intro h
  obtain ⟨flushed, hf, he | he | ⟨other, he, hn⟩⟩ := pollFlushOutput_cases this
  · simp only [pollFlush, he] at h
    obtain ⟨hp, _⟩ := Prod.mk.inj h
    unfold Environment.pollDrained at hp
    rcases hf.accepting ha 0 with hw | ⟨extra, hw⟩ <;> simp [hw] at hp
  · simp [pollFlush, he] at h
  · exact hn ha

-- After a flush everything is with the transport.
theorem Open.flush {sent : Bytes} {outcome : IoResult Unit} {this : WebSocketStream} (h : this.Open sent outcome) :
    ∃ next, Yields Async.flush this () next ∧ next.Open sent outcome ∧ Moves this next ∧
      next.unsent = [] := by
  have hstep : ∀ state result next, Moves this state ∧ state.pendingPayloadLen = none →
      state.pollFlush = (result, next) → Moves this next ∧ next.pendingPayloadLen = none := by
    rintro state result next ⟨hm, hnone⟩ hp
    obtain ⟨hmoves, hsame⟩ := pollFlush_moves state
    rw [hp] at hmoves hsame
    exact ⟨hm.trans hmoves, hsame.trans hnone⟩
  obtain ⟨last, value, next, hlast, hp, hyields⟩ := Yields.await
    (fun state => Moves this state ∧ state.pendingPayloadLen = none) lessOutput_wf
    (fun state next hi hp =>
      ⟨hstep state _ next hi hp, (pollFlush_pending hp).less (h.of_moves hi.1 hi.2).fair
        ((hstep state _ next hi hp).2.trans hi.2.symm)⟩)
    (fun state error next hi => pollFlush_fine (h.of_moves hi.1 hi.2).reliable.accepting)
    this ⟨.refl this, h.pendingPayloadLen⟩
  obtain ⟨hm, hnone⟩ := hstep last _ next hlast hp
  exact ⟨next, hyields, h.of_moves hm hnone, hm, pollFlush_done hp⟩

end WebSocketStream

end SingBox.Vless
