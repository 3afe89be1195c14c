import SingBox.Vless.WebSocket.Wire

namespace SingBox.Vless

open Library

namespace WebSocketStream

inductive Call where
  | read (output : Nat)
  | write (data : Bytes)
  | flush
  | shutdown
deriving DecidableEq, Repr

inductive Answer where
  | read (result : ReadResult)
  | wrote (result : Poll (IoResult Nat))
  | drained (result : Poll (IoResult Unit))

def call (this : WebSocketStream) : Call → Answer × WebSocketStream
  | .read output => let (result, next) := this.pollRead output; (.read result, next)
  | .write data => let (result, next) := this.pollWrite data; (.wrote result, next)
  | .flush => let (result, next) := this.pollFlush; (.drained result, next)
  | .shutdown => let (result, next) := this.pollShutdown; (.drained result, next)

-- Calls one after another, with what each of them was answered.
def calls : WebSocketStream → List Call → List (Call × Answer) × WebSocketStream
  | this, [] => ([], this)
  | this, request :: rest =>
      let (answer, next) := this.call request
      let (trace, last) := calls next rest
      ((request, answer) :: trace, last)

-- Bytes move from the buffer to the transport, and no frame is queued.
structure Moves (this next : WebSocketStream) : Prop where
  reader : SameReader this next
  conserved : next.inner.sent ++ next.unsent = this.inner.sent ++ this.unsent
  queued : next.queued = this.queued
  closeQueued : next.closeQueued = this.closeQueued
  writes : Rest this.inner.writes next.inner.writes
  masks : Rest this.inner.masks next.inner.masks
  output : this.writeOffset ≤ this.writeBuffer.length → next.writeOffset ≤ next.writeBuffer.length

-- One frame is queued, whatever of the buffer moves before and after.
structure Sends (this next : WebSocketStream) (frame : WholeFrame) : Prop where
  reader : SameReader this next
  conserved : ∃ mask, next.inner.sent ++ next.unsent = this.inner.sent ++ this.unsent ++
    frameBytes this.clientSide mask frame.opcode frame.payload
  queued : next.queued = this.queued ++ [frame]
  writes : Rest this.inner.writes next.inner.writes
  masks : Rest this.inner.masks next.inner.masks
  output : next.writeOffset ≤ next.writeBuffer.length

theorem Flushed.moves {this next : WebSocketStream} (h : Flushed this next) : Moves this next where
  reader := h.reader
  conserved := h.conserved
  queued := h.queued
  closeQueued := h.closeQueued
  writes := h.writes
  masks := .of_eq h.masks
  output := h.bounded

theorem Appended.sends {this next : WebSocketStream} {opcode : UInt8} {payload : Bytes}
    (h : Appended this next opcode payload) : Sends this next ⟨opcode, payload⟩ where
  reader := h.reader
  conserved := h.queues.conserved
  queued := h.queued
  writes := .of_eq h.writes
  masks := h.masks
  output := h.bounded

theorem Moves.sends {this mid next : WebSocketStream} {frame : WholeFrame} (hm : Moves this mid)
    (h : Sends mid next frame) : Sends this next frame where
  reader := hm.reader.trans h.reader
  conserved := by
    obtain ⟨mask, hc⟩ := h.conserved
    exact ⟨mask, by rw [hc, hm.conserved, hm.reader.clientSide]⟩
  queued := by rw [h.queued, hm.queued]
  writes := hm.writes.trans h.writes
  masks := hm.masks.trans h.masks
  output := h.output

theorem Sends.moves {this mid next : WebSocketStream} {frame : WholeFrame} (h : Sends this mid frame)
    (hm : Moves mid next) : Sends this next frame where
  reader := h.reader.trans hm.reader
  conserved := by
    obtain ⟨mask, hc⟩ := h.conserved
    exact ⟨mask, by rw [hm.conserved, hc]⟩
  queued := by rw [hm.queued, h.queued]
  writes := h.writes.trans hm.writes
  masks := h.masks.trans hm.masks
  output := hm.output h.output

theorem Moves.refl (this : WebSocketStream) : Moves this this :=
  ⟨.refl this, rfl, rfl, rfl, .refl _, .refl _, id⟩

theorem Moves.trans {this mid next : WebSocketStream} (hm : Moves this mid) (hn : Moves mid next) :
    Moves this next where
  reader := hm.reader.trans hn.reader
  conserved := hn.conserved.trans hm.conserved
  queued := hn.queued.trans hm.queued
  closeQueued := hn.closeQueued.trans hm.closeQueued
  writes := hm.writes.trans hn.writes
  masks := hm.masks.trans hn.masks
  output := hn.output ∘ hm.output

theorem SameReader.sound {this next : WebSocketStream} (h : SameReader this next)
    (hs : this.Sound) (ho : next.writeOffset ≤ next.writeBuffer.length) : next.Sound where
  input := by rw [h.inputOffset, h.input]; exact hs.input
  output := ho
  view := by rw [h.view]; exact hs.view

-- Remembering or forgetting the length of a queued chunk moves nothing.
theorem moves_pendingPayloadLen (this : WebSocketStream) (pendingPayloadLen : Option Nat) :
    Moves this { this with pendingPayloadLen } :=
  ⟨by constructor <;> rfl, rfl, rfl, rfl, .refl _, .refl _, id⟩

-- The transport's own flush or shutdown uses up one of its answers.
theorem moves_pollDrained (this : WebSocketStream) :
    Moves this { this with inner := this.inner.pollDrained.2 } := by
  have h : this.inner.pollDrained.2 =
      { this.inner with writes := fun n => this.inner.writes (n + 1) } := by
    unfold Environment.pollDrained
    split <;> rfl
  rw [h]
  exact ⟨by constructor <;> rfl, rfl, rfl, rfl, ⟨1, fun _ => rfl⟩, .refl _, id⟩

theorem pollFlush_moves (this : WebSocketStream) : Moves this this.pollFlush.2 ∧
    this.pollFlush.2.pendingPayloadLen = this.pendingPayloadLen := by
  have h := pollFlushOutput_flushed this
  unfold pollFlush
  split
  · rename_i next he
    rw [he] at h
    exact ⟨h.moves.trans (moves_pollDrained next), h.pendingPayloadLen⟩
  · exact ⟨h.moves, h.pendingPayloadLen⟩

-- What the caller of `poll_write` hears after its chunk has been queued.
inductive ChunkAnswer (accepted : Nat) (accepting : Prop) :
    Poll (IoResult Nat) → Option Nat → Prop
  | done : ChunkAnswer accepted accepting (.ready (.ok accepted)) none
  | pending : ChunkAnswer accepted accepting .pending (some accepted)
  | error (error : IoError) (hc : ¬accepting) :
      ChunkAnswer accepted accepting (.ready (.error error)) (some accepted)

-- All that `poll_write` can do.
inductive WriteOutcome (data : Bytes) (this : WebSocketStream) :
    Poll (IoResult Nat) × WebSocketStream → Prop
  | empty (hd : data = []) : WriteOutcome data this (.ready (.ok 0), this)
  -- an earlier chunk is behind us
  | settled (next : WebSocketStream) (accepted : Nat) (hd : data ≠ [])
      (hp : this.pendingPayloadLen = some accepted) (hm : Moves this next)
      (hn : next.pendingPayloadLen = none) : WriteOutcome data this (.ready (.ok accepted), next)
  | waiting (next : WebSocketStream) (hd : data ≠ []) (hm : Moves this next)
      (hn : next.pendingPayloadLen = this.pendingPayloadLen) :
      WriteOutcome data this (.pending, next)
  | broken (next : WebSocketStream) (error : IoError) (hm : Moves this next)
      (hn : next.pendingPayloadLen = this.pendingPayloadLen) (hc : ¬this.inner.Accepting) :
      WriteOutcome data this (.ready (.error error), next)
  | maskless (next : WebSocketStream) (error : IoError) (hs : this.Sound → next.Sound)
      (hq : next.queued = this.queued) (hl : next.closeQueued = this.closeQueued)
      (hc : ∃ n, this.inner.masks n = none) : WriteOutcome data this (.ready (.error error), next)
  | queued (next : WebSocketStream) (result : Poll (IoResult Nat)) (hd : data ≠ [])
      (hp : this.pendingPayloadLen = none) (hf : this.pollFlushOutput.1 = .ready (.ok ()))
      (hs : Sends this next ⟨0x2, data.take MAX_WS_FRAME_SIZE⟩)
      (hl : next.closeQueued = this.closeQueued)
      (ha : ChunkAnswer (data.take MAX_WS_FRAME_SIZE).length this.inner.Accepting result
        next.pendingPayloadLen) : WriteOutcome data this (result, next)

-- How `poll_flush_output` ends, with what it has moved.
theorem pollFlushOutput_cases (this : WebSocketStream) :
    ∃ next, Flushed this next ∧
      (this.pollFlushOutput = (.ready (.ok ()), next) ∨ this.pollFlushOutput = (.pending, next) ∨
        ∃ error, this.pollFlushOutput = (.ready (.error error), next) ∧ ¬this.inner.Accepting) := by
  refine ⟨this.pollFlushOutput.2, pollFlushOutput_flushed this, ?_⟩
  have ha := pollFlushOutput_accepting this
  match he : this.pollFlushOutput with
  | (.ready (.ok ()), next) => exact .inl rfl
  | (.pending, next) => exact .inr (.inl rfl)
  | (.ready (.error error), next) =>
      refine .inr (.inr ⟨error, rfl, fun h => ?_⟩)
      rcases ha h with h | h <;> simp [he] at h

theorem pollWrite_cases (data : Bytes) (this : WebSocketStream) (hs : this.Sound) :
    WriteOutcome data this (this.pollWrite data) := by
  unfold pollWrite
  by_cases hd : data = []
  · rw [if_pos hd]
    exact .empty hd
  rw [if_neg hd]
  obtain ⟨flushed, hf, hc⟩ := pollFlushOutput_cases this
  cases hp : this.pendingPayloadLen with
  | some accepted =>
      rcases hc with he | he | ⟨error, he, hn⟩
      · simp only [he]
        exact .settled _ accepted hd hp (hf.moves.trans (moves_pendingPayloadLen flushed none)) rfl
      · simp only [he]
        exact .waiting flushed hd hf.moves hf.pendingPayloadLen
      · simp only [he]
        exact .broken flushed error hf.moves hf.pendingPayloadLen hn
  | none =>
      rcases hc with he | he | ⟨error, he, hn⟩
      · simp only [he]
        have hmin : data.take (min data.length MAX_WS_FRAME_SIZE) = data.take MAX_WS_FRAME_SIZE := by
          rw [Nat.min_comm, ← List.take_eq_take_min]
        have hlen : min data.length MAX_WS_FRAME_SIZE = (data.take MAX_WS_FRAME_SIZE).length := by
          rw [List.length_take, Nat.min_comm]
        simp only [hmin]
        have hdone : this.pollFlushOutput.1 = .ready (.ok ()) := by rw [he]
        rcases appendFrame_cases flushed 0x2 (data.take MAX_WS_FRAME_SIZE) (hf.bounded hs.output)
          with ⟨appended, ha, happ⟩ | ⟨hm, error, appended, ha, happ, hq⟩
        · simp only [ha, hlen]
          have hstart := (hf.moves.sends happ.sends).moves
            (moves_pendingPayloadLen appended (some (data.take MAX_WS_FRAME_SIZE).length))
          have hclose := happ.closeQueued.trans hf.closeQueued
          have haccepting : this.inner.Accepting → appended.inner.Accepting :=
            fun h => hstart.writes.accepting h
          obtain ⟨last, hlast, hr⟩ := pollFlushOutput_cases
            { appended with pendingPayloadLen := some (data.take MAX_WS_FRAME_SIZE).length }
          have hsends := hstart.moves hlast.moves
          have hl := hlast.closeQueued.trans hclose
          have hpending := hlast.pendingPayloadLen
          rcases hr with he' | he' | ⟨error, he', hn⟩
          · simp only [he']
            exact .queued _ _ hd hp hdone (hsends.moves (moves_pendingPayloadLen last none)) hl .done
          · simp only [he']
            exact .queued _ _ hd hp hdone hsends hl (hpending ▸ .pending)
          · simp only [he']
            exact .queued _ _ hd hp hdone hsends hl (hpending ▸ .error error (fun h => hn (haccepting h)))
        · simp only [ha]
          refine .maskless appended error (fun hs => ?_) (hq.trans hf.queued)
            (happ.closeQueued.trans hf.closeQueued) ⟨0, by rw [← hf.masks]; exact hm⟩
          exact (hf.reader.trans happ.reader).sound hs happ.bounded
      · simp only [he]
        exact .waiting flushed hd hf.moves hf.pendingPayloadLen
      · simp only [he]
        exact .broken flushed error hf.moves hf.pendingPayloadLen hn

-- All that `poll_shutdown` can do: the Close is queued the first time only.
inductive ShutdownOutcome (this : WebSocketStream) :
    Poll (IoResult Unit) × WebSocketStream → Prop
  | again (next : WebSocketStream) (result : Poll (IoResult Unit)) (ho : this.closeQueued = true)
      (hm : Moves this next) : ShutdownOutcome this (result, next)
  | maskless (next : WebSocketStream) (error : IoError) (hs : this.Sound → next.Sound)
      (hq : next.queued = this.queued) (hl : next.closeQueued = this.closeQueued)
      (hc : ∃ n, this.inner.masks n = none) : ShutdownOutcome this (.ready (.error error), next)
  | queued (next : WebSocketStream) (result : Poll (IoResult Unit)) (ho : this.closeQueued = false)
      (hs : Sends this next ⟨0x8, []⟩) (hl : next.closeQueued = true) :
      ShutdownOutcome this (result, next)

-- The flush at the end of `poll_shutdown`.
private theorem shutdownFlush_moves (this : WebSocketStream) :
    Moves this (match this.pollFlushOutput with
      | (.ready (.ok ()), this) =>
          let (result, inner) := this.inner.pollDrained
          (result, { this with inner })
      | result => result).2 := (pollFlush_moves this).1

theorem pollShutdown_cases (this : WebSocketStream) (hs : this.Sound) :
    ShutdownOutcome this this.pollShutdown := by
  unfold pollShutdown queueClose
  by_cases hc : this.closeQueued = true
  · rw [if_pos hc]
    exact .again _ _ hc (shutdownFlush_moves this)
  · rw [if_neg hc]
    rcases appendFrame_cases this 0x8 [] hs.output
      with ⟨appended, ha, happ⟩ | ⟨hm, error, appended, ha, happ, hq⟩
    · simp only [ha]
      have hsends : Sends this { appended with closeQueued := true } ⟨0x8, []⟩ :=
        ⟨happ.reader.trans (by constructor <;> rfl), happ.queues.conserved, happ.queued,
          .of_eq happ.writes, happ.masks, happ.bounded⟩
      have hmoves := shutdownFlush_moves { appended with closeQueued := true }
      exact .queued _ _ (by simpa using hc) (hsends.moves hmoves) hmoves.closeQueued
    · simp only [ha]
      exact .maskless appended error (fun hs => happ.reader.sound hs happ.bounded) hq
        happ.closeQueued ⟨0, hm⟩

end WebSocketStream

end SingBox.Vless
