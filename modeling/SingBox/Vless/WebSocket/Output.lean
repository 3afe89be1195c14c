import SingBox.Vless.WebSocket

namespace SingBox.Vless

open Library

namespace WebSocketStream

-- One pass of the `while` loop of `poll_flush_output`.
def flushPass (this : WebSocketStream) :
    Pass WebSocketStream (Poll (IoResult Unit) × WebSocketStream) :=
  if this.writeOffset < this.writeBuffer.length then
    match this.inner.pollWrite (this.writeBuffer.drop this.writeOffset) with
    | (.ready (.ok 0), inner) =>
        .done (.ready (.error ⟨.writeZero, "failed to write WebSocket frame"⟩), { this with inner })
    | (.ready (.ok written), inner) =>
        .again { this with inner, writeOffset := this.writeOffset + written }
    | (.ready (.error error), inner) => .done (.ready (.error error), { this with inner })
    | (.pending, inner) => .done (.pending, { this with inner })
  else
    .done (.ready (.ok ()), { this with writeBuffer := [], writeOffset := 0 })

-- The bytes of the buffer the transport has not taken yet.
def unsent (this : WebSocketStream) : Bytes := this.writeBuffer.drop this.writeOffset

-- `this` after the transport has taken `count` more bytes of the buffer.
def moved (this : WebSocketStream) (count : Nat) : WebSocketStream :=
  { this with
    inner := { this.inner with
      writes := fun n => this.inner.writes (n + 1)
      sent := this.inner.sent ++ this.unsent.take count }
    writeOffset := this.writeOffset + count }

-- All that a pass of the flush loop can do.
theorem flushPass_cases (this : WebSocketStream) :
    (this.unsent = [] ∧
      flushPass this = .done (.ready (.ok ()), { this with writeBuffer := [], writeOffset := 0 })) ∨
    (∃ count, 0 < count ∧ count ≤ this.unsent.length ∧ (∃ extra, this.inner.writes 0 = .ready extra) ∧
      flushPass this = .again (this.moved count)) ∨
    (this.inner.writes 0 = .pending ∧ flushPass this = .done (.pending, this.moved 0)) ∨
    ((∀ extra, this.inner.writes 0 ≠ .ready extra) ∧ this.inner.writes 0 ≠ .pending ∧
      ∃ error, flushPass this = .done (.ready (.error error), this.moved 0)) := by
  unfold flushPass
  by_cases hroom : this.writeOffset < this.writeBuffer.length
  · have hlen : 0 < this.unsent.length := by simp only [unsent, List.length_drop]; omega
    right
    rw [if_pos hroom]
    cases hw : this.inner.writes 0 with
    | pending => right; left; simp [Environment.pollWrite, hw, moved]
    | ready extra =>
        left
        have hc : min (extra + 1) this.unsent.length =
            (min extra (this.unsent.length - 1)) + 1 := by omega
        refine ⟨min (extra + 1) this.unsent.length, by omega, by omega, ⟨extra, rfl⟩, ?_⟩
        change (match Environment.pollWrite this.inner this.unsent with
          | (.ready (.ok 0), inner) => _
          | (.ready (.ok written), inner) => _
          | (.ready (.error error), inner) => _
          | (.pending, inner) => _) = _
        simp only [Environment.pollWrite, hw, hc]
        rfl
    | zero =>
        right; right
        exact ⟨by simp, by simp, _, by simp [Environment.pollWrite, hw, moved]; rfl⟩
    | failed error =>
        right; right
        exact ⟨by simp, by simp, _, by simp [Environment.pollWrite, hw, moved]; rfl⟩
  · left
    rw [if_neg hroom]
    exact ⟨List.drop_of_length_le (Nat.not_lt.mp hroom), rfl⟩

@[simp] theorem unsent_moved (this : WebSocketStream) (count : Nat) :
    (this.moved count).unsent = this.unsent.drop count := by
  simp [unsent, moved, List.drop_drop]

theorem flushPass_decreases :
    Loop.Decreases flushPass (fun this => this.unsent.length) := by
  intro this next hp
  rcases flushPass_cases this with ⟨_, he⟩ | ⟨count, hpos, hle, _, he⟩ | ⟨_, he⟩ | ⟨_, _, _, he⟩
  · simp [he] at hp
  · rw [he] at hp
    obtain rfl := Pass.again.inj hp
    simp only [unsent_moved, List.length_drop]
    omega
  · simp [he] at hp
  · simp [he] at hp

def pollFlushOutput (this : WebSocketStream) : Poll (IoResult Unit) × WebSocketStream :=
  Loop.run flushPass _ flushPass_decreases this

-- Output leaves everything `poll_read` reads from as it is.
structure SameReader (this next : WebSocketStream) : Prop where
  clientSide : next.clientSide = this.clientSide
  input : next.input = this.input
  inputOffset : next.inputOffset = this.inputOffset
  earlyData : next.earlyData = this.earlyData
  earlyOffset : next.earlyOffset = this.earlyOffset
  readFrame : next.readFrame = this.readFrame
  fragmented : next.fragmented = this.fragmented
  readClosed : next.readClosed = this.readClosed
  incoming : next.inner.incoming = this.inner.incoming
  reads : next.inner.reads = this.inner.reads

theorem SameReader.refl (this : WebSocketStream) : SameReader this this := by constructor <;> rfl

theorem SameReader.trans {this mid next : WebSocketStream} (hm : SameReader this mid)
    (hn : SameReader mid next) : SameReader this next where
  clientSide := hn.clientSide.trans hm.clientSide
  input := hn.input.trans hm.input
  inputOffset := hn.inputOffset.trans hm.inputOffset
  earlyData := hn.earlyData.trans hm.earlyData
  earlyOffset := hn.earlyOffset.trans hm.earlyOffset
  readFrame := hn.readFrame.trans hm.readFrame
  fragmented := hn.fragmented.trans hm.fragmented
  readClosed := hn.readClosed.trans hm.readClosed
  incoming := hn.incoming.trans hm.incoming
  reads := hn.reads.trans hm.reads

theorem SameReader.availableInput {this next : WebSocketStream} (h : SameReader this next) :
    next.availableInput = this.availableInput := by
  simp [WebSocketStream.availableInput, h.input, h.inputOffset]

-- Flushing moves bytes from the buffer to the transport and nothing else; it
-- uses up some of the transport's answers.
structure Flushed (this next : WebSocketStream) : Prop where
  reader : SameReader this next
  conserved : next.inner.sent ++ next.unsent = this.inner.sent ++ this.unsent
  bounded : this.writeOffset ≤ this.writeBuffer.length → next.writeOffset ≤ next.writeBuffer.length
  queued : next.queued = this.queued
  pendingPayloadLen : next.pendingPayloadLen = this.pendingPayloadLen
  controlWritePending : next.controlWritePending = this.controlWritePending
  closeQueued : next.closeQueued = this.closeQueued
  masks : next.inner.masks = this.inner.masks
  writes : ∃ used, ∀ n, next.inner.writes n = this.inner.writes (n + used)

theorem Flushed.refl (this : WebSocketStream) : Flushed this this where
  reader := .refl this
  conserved := rfl
  bounded := id
  queued := rfl
  pendingPayloadLen := rfl
  controlWritePending := rfl
  closeQueued := rfl
  masks := rfl
  writes := ⟨0, fun _ => rfl⟩

theorem Flushed.trans {this mid next : WebSocketStream} (hm : Flushed this mid)
    (hn : Flushed mid next) : Flushed this next where
  reader := hm.reader.trans hn.reader
  conserved := hn.conserved.trans hm.conserved
  bounded := hn.bounded ∘ hm.bounded
  queued := hn.queued.trans hm.queued
  pendingPayloadLen := hn.pendingPayloadLen.trans hm.pendingPayloadLen
  controlWritePending := hn.controlWritePending.trans hm.controlWritePending
  closeQueued := hn.closeQueued.trans hm.closeQueued
  masks := hn.masks.trans hm.masks
  writes := by
    obtain ⟨first, hf⟩ := hm.writes
    obtain ⟨second, hs⟩ := hn.writes
    exact ⟨second + first, fun n => by rw [hs, hf, Nat.add_assoc]⟩

theorem flushed_moved (this : WebSocketStream) (count : Nat) (hle : count ≤ this.unsent.length) :
    Flushed this (this.moved count) where
  reader := by constructor <;> rfl
  conserved := by
    rw [unsent_moved, moved, List.append_assoc, List.take_append_drop]
  bounded := by
    simp only [unsent, List.length_drop] at hle
    simp only [moved]
    omega
  queued := rfl
  pendingPayloadLen := rfl
  controlWritePending := rfl
  closeQueued := rfl
  masks := rfl
  writes := ⟨1, fun _ => rfl⟩

theorem flushed_cleared (this : WebSocketStream) (hu : this.unsent = []) :
    Flushed this { this with writeBuffer := [], writeOffset := 0 } where
  reader := by constructor <;> rfl
  conserved := by simp [unsent] at hu ⊢; simp [hu]
  bounded := fun _ => Nat.le_refl _
  queued := rfl
  pendingPayloadLen := rfl
  controlWritePending := rfl
  closeQueued := rfl
  masks := rfl
  writes := ⟨0, fun _ => rfl⟩

theorem Flushed.accepting {this next : WebSocketStream} (h : Flushed this next)
    (ha : this.inner.Accepting) : next.inner.Accepting := by
  obtain ⟨used, hu⟩ := h.writes
  intro n
  rw [hu n]
  exact ha (n + used)

theorem pollFlushOutput_flushed (this : WebSocketStream) :
    Flushed this this.pollFlushOutput.2 := by
  apply Loop.run_rule (Flushed this) (fun result => Flushed this result.2) flushPass_decreases
    _ _ this (.refl this)
  · intro state next hi hp
    rcases flushPass_cases state with ⟨_, he⟩ | ⟨count, _, hle, _, he⟩ | ⟨_, he⟩ | ⟨_, _, _, he⟩
    · simp [he] at hp
    · rw [he] at hp
      obtain rfl := Pass.again.inj hp
      exact hi.trans (flushed_moved state count hle)
    · simp [he] at hp
    · simp [he] at hp
  · intro state result hi hp
    rcases flushPass_cases state with ⟨hu, he⟩ | ⟨_, _, _, _, he⟩ | ⟨_, he⟩ | ⟨_, _, _, he⟩
    · rw [he] at hp
      obtain rfl := Pass.done.inj hp
      exact hi.trans (flushed_cleared state hu)
    · simp [he] at hp
    all_goals
      rw [he] at hp
      obtain rfl := Pass.done.inj hp
      exact hi.trans (flushed_moved state 0 (Nat.zero_le _))

-- It is done only when nothing is left in the buffer.
theorem pollFlushOutput_done (this : WebSocketStream)
    (h : this.pollFlushOutput.1 = .ready (.ok ())) :
    this.pollFlushOutput.2.unsent = [] := by
  revert h
  apply Loop.run_rule (fun _ => True)
    (fun result => result.1 = .ready (.ok ()) → result.2.unsent = []) flushPass_decreases
    (fun _ _ _ _ => trivial) _ this trivial
  intro state result _ hp hr
  rcases flushPass_cases state with ⟨hu, he⟩ | ⟨_, _, _, _, he⟩ | ⟨_, he⟩ | ⟨_, _, _, he⟩
  · rw [he] at hp
    obtain rfl := Pass.done.inj hp
    rfl
  all_goals
    rw [he] at hp
    cases hp
    try cases hr

theorem pollFlushOutput_accepting (this : WebSocketStream)
    (ha : this.inner.Accepting) :
    this.pollFlushOutput.1 = .pending ∨ this.pollFlushOutput.1 = .ready (.ok ()) := by
  apply Loop.run_rule (fun state => state.inner.Accepting)
    (fun result => result.1 = .pending ∨ result.1 = .ready (.ok ())) flushPass_decreases _ _ this ha
  · intro state next hi hp
    rcases flushPass_cases state with ⟨_, he⟩ | ⟨count, _, hle, _, he⟩ | ⟨_, he⟩ | ⟨_, _, _, he⟩
    · simp [he] at hp
    · rw [he] at hp
      obtain rfl := Pass.again.inj hp
      exact (flushed_moved state count hle).accepting hi
    · simp [he] at hp
    · simp [he] at hp
  · intro state result hi hp
    rcases flushPass_cases state with ⟨_, he⟩ | ⟨_, _, _, _, he⟩ | ⟨_, he⟩ | ⟨hr, hn, _, he⟩
    · rw [he] at hp
      exact .inr (Pass.done.inj hp ▸ rfl)
    · simp [he] at hp
    · rw [he] at hp
      exact .inl (Pass.done.inj hp ▸ rfl)
    · rcases hi 0 with h | ⟨extra, h⟩
      · exact absurd h hn
      · exact absurd h (hr extra)

-- A whole frame as `append_frame` lays it out.
def frameBytes (clientSide : Bool) (mask : Mask) (opcode : UInt8) (payload : Bytes) : Bytes :=
  frameHeader clientSide opcode payload.length ++
    if clientSide then List.ofFn mask ++ xorMask mask 0 payload else payload

-- Appending puts bytes at the end of the buffer and draws at most one mask.
structure Appending (this next : WebSocketStream) : Prop where
  reader : SameReader this next
  sent : next.inner.sent = this.inner.sent
  bounded : next.writeOffset ≤ next.writeBuffer.length
  pendingPayloadLen : next.pendingPayloadLen = this.pendingPayloadLen
  controlWritePending : next.controlWritePending = this.controlWritePending
  closeQueued : next.closeQueued = this.closeQueued
  writes : next.inner.writes = this.inner.writes
  masks : ∃ used, ∀ n, next.inner.masks n = this.inner.masks (n + used)

structure Appended (this next : WebSocketStream) (opcode : UInt8) (payload : Bytes) : Prop
    extends Appending this next where
  unsent : ∃ mask, next.unsent = this.unsent ++ frameBytes this.clientSide mask opcode payload
  queued : next.queued = this.queued ++ [⟨opcode, payload⟩]

-- The buffer after `append_frame` has dropped what the transport has taken whole.
private theorem cleared_or_kept (this : WebSocketStream)
    (hb : this.writeOffset ≤ this.writeBuffer.length) :
    ∃ start, Flushed this start ∧ start.inner = this.inner ∧ start.unsent = this.unsent ∧
      start.writeOffset ≤ start.writeBuffer.length ∧
      (if this.writeOffset = this.writeBuffer.length then
        { this with writeBuffer := [], writeOffset := 0 } else this) = start := by
  split
  · rename_i he
    have hu : this.unsent = [] := List.drop_of_length_le (Nat.le_of_eq he.symm)
    exact ⟨_, flushed_cleared this hu, rfl, by simp [unsent, he], Nat.le_refl _, rfl⟩
  · exact ⟨_, .refl this, rfl, rfl, hb, rfl⟩

private theorem drop_append_buffer (this : WebSocketStream) (more : Bytes)
    (hb : this.writeOffset ≤ this.writeBuffer.length) :
    (this.writeBuffer ++ more).drop this.writeOffset = this.unsent ++ more :=
  List.drop_append_of_le_length hb

-- All that `append_frame` can do: a whole frame is queued, or the generator
-- fails on the client's side and no frame is.
theorem appendFrame_cases (this : WebSocketStream) (opcode : UInt8) (payload : Bytes)
    (hb : this.writeOffset ≤ this.writeBuffer.length) :
    (∃ next, this.appendFrame opcode payload = (.ok (), next) ∧
      Appended this next opcode payload) ∨
    (this.inner.masks 0 = none ∧ ∃ error next,
      this.appendFrame opcode payload = (.error error, next) ∧ Appending this next ∧
        next.queued = this.queued) := by
  obtain ⟨start, hf, hi, hu, hs, he⟩ := cleared_or_kept this hb
  have hc := hf.reader.clientSide
  unfold appendFrame
  simp only [he]
  cases hside : this.clientSide with
  | false =>
      left
      simp only [hc, hside, Bool.false_eq_true, if_false]
      refine ⟨_, rfl, ⟨⟨hf.reader.trans (by constructor <;> simp [hc, hside]), by simp [hi],
        by simp only [List.length_append]; omega, hf.pendingPayloadLen, hf.controlWritePending,
        hf.closeQueued, by simp [hi], ⟨0, by simp [hi]⟩⟩, ⟨fun _ => 0, ?_⟩, by simp [hf.queued]⟩⟩
      simp only [unsent, List.append_assoc]
      rw [drop_append_buffer start _ hs, hu]
      simp [frameBytes, hside, unsent]
  | true =>
      simp only [hc, hside, if_true, Environment.fillMask, hi]
      cases hm : this.inner.masks 0 with
      | none =>
          right
          refine ⟨rfl, _, _, rfl, ⟨hf.reader.trans ?_, rfl,
            by simp only [List.length_append]; omega, hf.pendingPayloadLen,
            hf.controlWritePending, hf.closeQueued, rfl, ⟨1, fun _ => rfl⟩⟩, hf.queued⟩
          constructor <;> simp [hi, hc, hside]
      | some mask =>
          left
          refine ⟨_, rfl, ⟨⟨hf.reader.trans ?_, rfl,
            by simp only [List.length_append]; omega, hf.pendingPayloadLen,
            hf.controlWritePending, hf.closeQueued, rfl, ⟨1, fun _ => rfl⟩⟩,
            ⟨mask, ?_⟩, by simp [hf.queued]⟩⟩
          · constructor <;> simp [hi, hc, hside]
          · simp only [unsent, List.append_assoc]
            rw [drop_append_buffer start _ hs, hu]
            simp [frameBytes, hside, unsent]

end WebSocketStream

end SingBox.Vless
