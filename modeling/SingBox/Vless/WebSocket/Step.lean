import SingBox.Vless.WebSocket.Frames
import SingBox.Vless.WebSocket.Poll

namespace SingBox.Vless

open Library

namespace WebSocketStream

-- The offsets stand inside their buffers and control frames keep their payload.
structure Sound (this : WebSocketStream) : Prop where
  input : this.inputOffset ≤ this.input.length
  output : this.writeOffset ≤ this.writeBuffer.length
  view : this.view.Sound

theorem sound_new (inner : Environment) (input earlyData : Bytes) (clientSide : Bool) :
    (new inner input earlyData clientSide).Sound where
  input := Nat.zero_le _
  output := Nat.zero_le _
  view := by intro frame hf; cases hf

-- `later` is what is left of a sequence of answers.
def Rest {α : Type} (answers later : Nat → α) : Prop :=
  ∃ used, ∀ n, later n = answers (n + used)

theorem Rest.refl {α : Type} (answers : Nat → α) : Rest answers answers := ⟨0, fun _ => rfl⟩

theorem Rest.trans {α : Type} {answers mid later : Nat → α} (hm : Rest answers mid)
    (hl : Rest mid later) : Rest answers later := by
  obtain ⟨first, hf⟩ := hm
  obtain ⟨second, hs⟩ := hl
  exact ⟨second + first, fun n => by rw [hs, hf, Nat.add_assoc]⟩

theorem Rest.of_eq {α : Type} {answers later : Nat → α} (h : later = answers) :
    Rest answers later := h ▸ .refl _

-- What every part of `poll_read` leaves alone.
structure Kept (this next : WebSocketStream) : Prop where
  clientSide : next.clientSide = this.clientSide
  earlyData : next.earlyData = this.earlyData
  earlyOffset : next.earlyOffset = this.earlyOffset
  pendingPayloadLen : next.pendingPayloadLen = this.pendingPayloadLen
  reads : Rest this.inner.reads next.inner.reads
  writes : Rest this.inner.writes next.inner.writes
  masks : Rest this.inner.masks next.inner.masks
  output : this.writeOffset ≤ this.writeBuffer.length → next.writeOffset ≤ next.writeBuffer.length

-- No frame is queued: bytes only move from the buffer to the transport.
structure Quiet (this next : WebSocketStream) : Prop extends Kept this next where
  conserved : next.inner.sent ++ next.unsent = this.inner.sent ++ this.unsent
  queued : next.queued = this.queued
  closeQueued : next.closeQueued = this.closeQueued

-- One frame is queued behind what the buffer holds.
structure Queues (this next : WebSocketStream) (opcode : UInt8) (payload : Bytes) : Prop
    extends Kept this next where
  conserved : ∃ mask, next.inner.sent ++ next.unsent =
    this.inner.sent ++ this.unsent ++ frameBytes this.clientSide mask opcode payload
  queued : next.queued = this.queued ++ [⟨opcode, payload⟩]

theorem Kept.trans {this mid next : WebSocketStream} (hm : Kept this mid) (hn : Kept mid next) :
    Kept this next where
  clientSide := hn.clientSide.trans hm.clientSide
  earlyData := hn.earlyData.trans hm.earlyData
  earlyOffset := hn.earlyOffset.trans hm.earlyOffset
  pendingPayloadLen := hn.pendingPayloadLen.trans hm.pendingPayloadLen
  reads := hm.reads.trans hn.reads
  writes := hm.writes.trans hn.writes
  masks := hm.masks.trans hn.masks
  output := hn.output ∘ hm.output

theorem Quiet.refl (this : WebSocketStream) : Quiet this this :=
  ⟨⟨rfl, rfl, rfl, rfl, .refl _, .refl _, .refl _, id⟩, rfl, rfl, rfl⟩

theorem Quiet.trans {this mid next : WebSocketStream} (hm : Quiet this mid)
    (hn : Quiet mid next) : Quiet this next where
  toKept := hm.toKept.trans hn.toKept
  conserved := hn.conserved.trans hm.conserved
  queued := hn.queued.trans hm.queued
  closeQueued := hn.closeQueued.trans hm.closeQueued

theorem Quiet.queues {this mid next : WebSocketStream} {opcode : UInt8} {payload : Bytes}
    (hm : Quiet this mid) (hn : Queues mid next opcode payload) : Queues this next opcode payload where
  toKept := hm.toKept.trans hn.toKept
  conserved := by
    obtain ⟨mask, h⟩ := hn.conserved
    exact ⟨mask, by rw [h, hm.conserved, hm.clientSide]⟩
  queued := by rw [hn.queued, hm.queued]

theorem SameWriter.quiet {this next : WebSocketStream} (h : SameWriter this next)
    (hd : next.earlyData = this.earlyData) (ho : next.earlyOffset = this.earlyOffset)
    (hr : Rest this.inner.reads next.inner.reads) : Quiet this next where
  clientSide := h.clientSide
  earlyData := hd
  earlyOffset := ho
  pendingPayloadLen := h.pendingPayloadLen
  reads := hr
  writes := .of_eq h.writes
  masks := .of_eq h.masks
  output := by rw [h.writeOffset, h.writeBuffer]; exact id
  conserved := by simp only [unsent, h.sent, h.writeBuffer, h.writeOffset]
  queued := h.queued
  closeQueued := h.closeQueued

theorem SameReader.view {this next : WebSocketStream} (h : SameReader this next) :
    next.view = this.view := by
  simp only [WebSocketStream.view, h.readFrame, h.fragmented, h.readClosed, unread,
    h.availableInput, h.incoming]

theorem Flushed.quiet {this next : WebSocketStream} (h : Flushed this next) : Quiet this next where
  clientSide := h.reader.clientSide
  earlyData := h.reader.earlyData
  earlyOffset := h.reader.earlyOffset
  pendingPayloadLen := h.pendingPayloadLen
  reads := .of_eq h.reader.reads
  writes := h.writes
  masks := .of_eq h.masks
  output := h.bounded
  conserved := h.conserved
  queued := h.queued
  closeQueued := h.closeQueued

theorem pollFlushOutput_pending (this : WebSocketStream)
    (h : this.pollFlushOutput.1 = .pending) : ∃ n, this.inner.writes n = .pending := by
  revert h
  apply Loop.run_rule (fun state => Rest this.inner.writes state.inner.writes)
    (fun result => result.1 = .pending → ∃ n, this.inner.writes n = .pending)
    flushPass_decreases _ _ this
    (.refl _)
  · intro state next hi hp
    rcases flushPass_cases state with ⟨_, he⟩ | ⟨count, _, hle, _, he⟩ | ⟨_, he⟩ | ⟨_, _, _, he⟩
    · simp [he] at hp
    · rw [he] at hp
      obtain rfl := Pass.again.inj hp
      exact hi.trans (flushed_moved state count hle).writes
    · simp [he] at hp
    · simp [he] at hp
  · intro state result hi hp hr
    rcases flushPass_cases state with ⟨_, he⟩ | ⟨_, _, _, _, he⟩ | ⟨hw, he⟩ | ⟨_, _, _, he⟩
    · rw [he] at hp
      cases hp
      cases hr
    · simp [he] at hp
    · obtain ⟨used, hu⟩ := hi
      exact ⟨0 + used, (hu 0).symm.trans hw⟩
    · rw [he] at hp
      cases hp
      cases hr

-- All that the flush of a control reply can do: it leaves the reader as it is,
-- and it stops short only where the transport does not take the bytes.
theorem flushControl_cases (this : WebSocketStream) :
    ∃ next, Quiet this next ∧ SameReader this next ∧
      (this.flushControl = (.ready (.ok ()), next) ∨
        (this.flushControl = (.pending, next) ∧ ∃ n, this.inner.writes n = .pending) ∨
        ∃ error, this.flushControl = (.ready (.error error), next) ∧ ¬this.inner.Accepting) := by
  have hf := pollFlushOutput_flushed this
  unfold flushControl
  split
  · split
    · rename_i flushed he
      rw [he] at hf
      refine ⟨_, ?_, ?_, .inl rfl⟩
      · have hq := hf.quiet
        exact ⟨⟨hq.clientSide, hq.earlyData, hq.earlyOffset, hq.pendingPayloadLen, hq.reads,
          hq.writes, hq.masks, hq.output⟩, hq.conserved, hq.queued, hq.closeQueued⟩
      · have hr := hf.reader
        exact ⟨hr.clientSide, hr.input, hr.inputOffset, hr.earlyData, hr.earlyOffset, hr.readFrame,
          hr.fragmented, hr.readClosed, hr.incoming, hr.reads⟩
    · rename_i error flushed he
      have hn : ¬this.inner.Accepting := by
        intro ha
        rcases pollFlushOutput_accepting this ha with h | h <;> simp [he] at h
      rw [he] at hf
      exact ⟨flushed, hf.quiet, hf.reader, .inr (.inr ⟨error, rfl, hn⟩)⟩
    · rename_i flushed he
      have hw := pollFlushOutput_pending this (by rw [he])
      rw [he] at hf
      exact ⟨flushed, hf.quiet, hf.reader, .inr (.inl ⟨rfl, hw⟩)⟩
  · exact ⟨this, (Flushed.refl this).quiet, .refl this, .inl rfl⟩

end WebSocketStream

end SingBox.Vless
