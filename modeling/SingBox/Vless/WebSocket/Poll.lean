import SingBox.Vless.WebSocket.Input
import SingBox.Vless.WebSocket.Output

namespace SingBox.Vless

open Library

namespace WebSocketStream

abbrev ReadResult := Poll (IoResult Bytes)

-- The part of `poll_read` that unmasks what the input holds of the frame: a
-- control frame keeps its bytes and the loop goes on, data goes to the caller.
def takePayload (output : Nat) (frame : WebSocketReadFrame) (this : WebSocketStream) :
    Pass WebSocketStream (ReadResult × WebSocketStream) :=
  let available := this.availableInput
  let control := frame.controlPayload.isSome
  let ready := min frame.remaining available.length
  let count := if control then ready else min ready output
  let decoded := xorMask frame.mask frame.maskOffset (available.take count)
  let frame := { frame with
    remaining := frame.remaining - count
    maskOffset := (frame.maskOffset + count) % 4
    controlPayload := frame.controlPayload.map (· ++ decoded) }
  let this := { this with
    inputOffset := this.inputOffset + count, readFrame := some frame }.compactInput
  if control then .again this else .done (.ready (.ok decoded), this)

-- From a started frame on: a complete one is finished, otherwise its payload is
-- taken from the input, which is filled first when it is empty.
def readPayload (output : Nat) (frame : WebSocketReadFrame) (this : WebSocketStream) :
    Pass WebSocketStream (ReadResult × WebSocketStream) :=
  if frame.remaining = 0 then
    match this.finishReadFrame frame with
    | (.error error, this) => .done (.ready (.error error), this)
    | (.ok (), this) => .again this
  else if this.availableInput = [] then
    match this.pollFillInput with
    | (.ready (.ok true), this) => takePayload output frame this
    | (.ready (.ok false), this) =>
        .done (.ready (.error ⟨.unexpectedEof, "truncated WebSocket frame payload"⟩), this)
    | (.ready (.error error), this) => .done (.ready (.error error), this)
    | (.pending, this) => .done (.pending, this)
  else takePayload output frame this

def fillHeader (this : WebSocketStream) : Pass WebSocketStream (ReadResult × WebSocketStream) :=
  match this.pollFillInput with
  | (.ready (.ok true), this) => .again this
  | (.ready (.ok false), this) =>
      if this.availableInput = [] then .done (.ready (.ok []), { this with readClosed := true })
      else .done (.ready (.error ⟨.unexpectedEof, "truncated WebSocket frame header"⟩), this)
  | (.ready (.error error), this) => .done (.ready (.error error), this)
  | (.pending, this) => .done (.pending, this)

def flushControl (this : WebSocketStream) : Poll (IoResult Unit) × WebSocketStream :=
  if this.controlWritePending then
    match this.pollFlushOutput with
    | (.ready (.ok ()), this) => (.ready (.ok ()), { this with controlWritePending := false })
    | (.ready (.error error), this) => (.ready (.error error), this)
    | (.pending, this) => (.pending, this)
  else (.ready (.ok ()), this)

-- One pass of the loop of `poll_read` into a buffer with `output` bytes left.
def readPass (output : Nat) (this : WebSocketStream) :
    Pass WebSocketStream (ReadResult × WebSocketStream) :=
  match this.flushControl with
  | (.ready (.error error), this) => .done (.ready (.error error), this)
  | (.pending, this) => .done (.pending, this)
  | (.ready (.ok ()), this) =>
      if this.readClosed ∨ output = 0 then .done (.ready (.ok []), this)
      else
        match this.readFrame with
        | some frame => readPayload output frame this
        | none =>
            match this.startFrame with
            | .error error => .done (.ready (.error error), this)
            | .ok (some (frame, this)) => readPayload output frame this
            | .ok none => fillHeader this

-- What is left to read, as a bound on the passes: moving a byte from the
-- transport to the input, starting a frame and finishing it all lower it.
def readMeasure (this : WebSocketStream) : Nat :=
  3 * this.inner.incoming.length + 2 * this.availableInput.length +
    if this.readFrame.isSome then 1 else 0

theorem pollFlushOutput_sameReader (this : WebSocketStream) :
    SameReader this this.pollFlushOutput.2 := (pollFlushOutput_flushed this).reader

theorem flushControl_sameReader (this : WebSocketStream) : SameReader this this.flushControl.2 := by
  have h := pollFlushOutput_sameReader this
  unfold flushControl
  split
  · split
    all_goals
      rename_i he
      rw [he] at h
      exact ⟨h.clientSide, h.input, h.inputOffset, h.earlyData, h.earlyOffset, h.readFrame,
        h.fragmented, h.readClosed, h.incoming, h.reads⟩
  · exact .refl this

theorem SameReader.readMeasure {this next : WebSocketStream} (h : SameReader this next) :
    next.readMeasure = this.readMeasure := by
  simp only [WebSocketStream.readMeasure, h.availableInput, h.incoming, h.readFrame]

-- Filling the input lowers the measure by at least one for each byte it moves.
theorem Filled.readMeasure_add_le {this next : WebSocketStream} {count : Nat}
    (h : Filled this next count) : next.readMeasure + count ≤ this.readMeasure := by
  have := h.available_le
  have := h.count_le
  simp only [readMeasure, h.readFrame, h.incoming, List.length_drop]
  omega

theorem fillHeader_decreases (this next : WebSocketStream) (hp : this.fillHeader = .again next) :
    next.readMeasure < this.readMeasure := by
  obtain ⟨filled, count, hf, hc⟩ := pollFillInput_cases this
  have hm := hf.readMeasure_add_le
  unfold fillHeader at hp
  rcases hc with ⟨hpos, _, he⟩ | ⟨_, _, _, he⟩ | ⟨_, _, he⟩ | ⟨_, _, _, he⟩
  · simp only [he] at hp
    obtain rfl := Pass.again.inj hp
    omega
  · simp only [he] at hp
    split at hp <;> cases hp
  · simp [he] at hp
  · simp [he] at hp

theorem takePayload_readMeasure (output : Nat) (frame : WebSocketReadFrame)
    (this next : WebSocketStream) (hs : this.readFrame.isSome)
    (hp : takePayload output frame this = .again next) :
    next.readMeasure + min frame.remaining this.availableInput.length ≤ this.readMeasure := by
  simp only [takePayload] at hp
  split at hp
  · rename_i hc
    obtain rfl := Pass.again.inj hp
    have hw : ∀ s : WebSocketStream, s.compactInput.readMeasure = s.readMeasure := by
      intro s
      simp only [readMeasure, availableInput_compactInput]
      unfold compactInput
      split
      · rfl
      · split <;> rfl
    rw [hw]
    simp only [readMeasure, availableInput, List.length_drop, hs, Option.isSome_some, if_true]
    omega
  · cases hp

theorem appendFrame_sameReader (this : WebSocketStream) (opcode : UInt8) (payload : Bytes) :
    SameReader this (this.appendFrame opcode payload).2 := by
  cases hs : this.clientSide with
  | false =>
      simp only [appendFrame]
      split <;> (simp only [hs, Bool.false_eq_true, if_false]; constructor <;> simp [hs])
  | true =>
      simp only [appendFrame, Environment.fillMask]
      split <;> (simp only [hs]; split <;> constructor <;> simp [hs])

-- Finishing a frame takes it out of `read_frame`; only a Close ends the reading.
structure Finished (this next : WebSocketStream) : Prop where
  clientSide : next.clientSide = this.clientSide
  input : next.input = this.input
  inputOffset : next.inputOffset = this.inputOffset
  readFrame : next.readFrame = none
  fragmented : next.fragmented = this.fragmented
  incoming : next.inner.incoming = this.inner.incoming

theorem finishReadFrame_finished (this : WebSocketStream) (frame : WebSocketReadFrame) :
    Finished this (this.finishReadFrame frame).2 := by
  have happend : ∀ opcode payload,
      Finished this ({ this with readFrame := none }.appendFrame opcode payload).2 := by
    intro opcode payload
    have h := appendFrame_sameReader { this with readFrame := none } opcode payload
    exact ⟨h.clientSide, h.input, h.inputOffset, h.readFrame, h.fragmented, h.incoming⟩
  simp only [finishReadFrame]
  split
  · have h := happend 0x8 (frame.controlPayload.getD [])
    split
    all_goals
      rename_i he
      rw [he] at h
      exact ⟨h.clientSide, h.input, h.inputOffset, h.readFrame, h.fragmented, h.incoming⟩
  · split
    · have h := happend 0xA (frame.controlPayload.getD [])
      split
      all_goals
        rename_i he
        rw [he] at h
        exact ⟨h.clientSide, h.input, h.inputOffset, h.readFrame, h.fragmented, h.incoming⟩
    · constructor <;> rfl

theorem Finished.readMeasure_lt {this next : WebSocketStream} (h : Finished this next)
    (hs : this.readFrame.isSome) : next.readMeasure < this.readMeasure := by
  simp only [readMeasure, availableInput, h.input, h.inputOffset, h.incoming, h.readFrame, hs,
    Option.isSome_none, Bool.false_eq_true, if_true, if_false]
  omega

theorem readPayload_decreases (output : Nat) (frame : WebSocketReadFrame)
    (this next : WebSocketStream) (hs : this.readFrame.isSome)
    (hp : readPayload output frame this = .again next) : next.readMeasure < this.readMeasure := by
  unfold readPayload at hp
  split at hp
  · have hf := finishReadFrame_finished this frame
    split at hp
    · cases hp
    · rename_i he
      rw [he] at hf
      obtain rfl := Pass.again.inj hp
      exact hf.readMeasure_lt hs
  · rename_i hr
    split at hp
    · rename_i hempty
      obtain ⟨filled, count, hf, hc⟩ := pollFillInput_cases this
      have hm := hf.readMeasure_add_le
      rcases hc with ⟨hpos, _, he⟩ | ⟨_, _, _, he⟩ | ⟨_, _, he⟩ | ⟨_, _, _, he⟩
      · simp only [he] at hp
        have := takePayload_readMeasure output frame filled next (hf.readFrame ▸ hs) hp
        omega
      all_goals simp [he] at hp
    · rename_i ha
      have := takePayload_readMeasure output frame this next hs hp
      have := List.length_pos_iff.mpr ha
      omega

theorem startFrame_readMeasure (this next : WebSocketStream) (frame : WebSocketReadFrame)
    (hn : this.readFrame = none) (h : this.startFrame = .ok (some (frame, next))) :
    next.readMeasure < this.readMeasure ∧ next.readFrame.isSome := by
  unfold startFrame at h
  split at h
  · cases h
  · cases h
  · rename_i fragmented length he
    obtain ⟨rfl, rfl⟩ : _ ∧ _ := by simpa using h
    have hh := (parseHeader_some _ _ _ _ _ _).mp he
    have := hh.two_le
    have := hh.length_le
    simp only [readMeasure, availableInput, List.length_drop, hn, Option.isSome_some,
      Option.isSome_none, Bool.false_eq_true, if_true, if_false, and_true] at *
    omega

theorem readPass_decreases (output : Nat) : Loop.Decreases (readPass output) readMeasure := by
  intro this next hp
  have hfl := flushControl_sameReader this
  have hm := hfl.readMeasure
  unfold readPass at hp
  split at hp
  · cases hp
  · cases hp
  · rename_i flushed hc
    rw [hc] at hm
    rw [← hm]
    split at hp
    · cases hp
    · split at hp
      · rename_i frame hs
        exact readPayload_decreases output frame flushed next (by simp [hs]) hp
      · rename_i hn
        split at hp
        · cases hp
        · rename_i frame started hst
          obtain ⟨hlt, hs⟩ := startFrame_readMeasure flushed started frame hn hst
          exact Nat.lt_trans (readPayload_decreases output frame started next hs hp) hlt
        · exact fillHeader_decreases flushed next hp

-- `output` is what the caller's buffer has left.
def pollRead (this : WebSocketStream) (output : Nat) : ReadResult × WebSocketStream :=
  if this.earlyOffset < this.earlyData.length then
    let count := min (this.earlyData.length - this.earlyOffset) output
    (.ready (.ok ((this.earlyData.drop this.earlyOffset).take count)),
      { this with earlyOffset := this.earlyOffset + count })
  else
    Loop.run (readPass output) readMeasure (readPass_decreases output) this

def pollWrite (this : WebSocketStream) (data : Bytes) : Poll (IoResult Nat) × WebSocketStream :=
  if data = [] then (.ready (.ok 0), this)
  else
    match this.pendingPayloadLen with
    | some accepted =>
        match this.pollFlushOutput with
        | (.ready (.ok ()), this) =>
            (.ready (.ok accepted), { this with pendingPayloadLen := none })
        | (.ready (.error error), this) => (.ready (.error error), this)
        | (.pending, this) => (.pending, this)
    | none =>
        match this.pollFlushOutput with
        | (.ready (.error error), this) => (.ready (.error error), this)
        | (.pending, this) => (.pending, this)
        | (.ready (.ok ()), this) =>
            let accepted := min data.length MAX_WS_FRAME_SIZE
            match this.appendFrame 0x2 (data.take accepted) with
            | (.error error, this) => (.ready (.error error), this)
            | (.ok (), this) =>
                match { this with pendingPayloadLen := some accepted }.pollFlushOutput with
                | (.ready (.ok ()), this) =>
                    (.ready (.ok accepted), { this with pendingPayloadLen := none })
                | (.ready (.error error), this) => (.ready (.error error), this)
                | (.pending, this) => (.pending, this)

def pollFlush (this : WebSocketStream) : Poll (IoResult Unit) × WebSocketStream :=
  match this.pollFlushOutput with
  | (.ready (.ok ()), this) =>
      let (result, inner) := this.inner.pollDrained
      (result, { this with inner })
  | result => result

-- The first half of `poll_shutdown`: the Close frame is queued once.
def queueClose (this : WebSocketStream) : IoResult Unit × WebSocketStream :=
  if this.closeQueued then (.ok (), this)
  else
    match this.appendFrame 0x8 [] with
    | (.error error, this) => (.error error, this)
    | (.ok (), this) => (.ok (), { this with closeQueued := true })

def pollShutdown (this : WebSocketStream) : Poll (IoResult Unit) × WebSocketStream :=
  match this.queueClose with
  | (.error error, this) => (.ready (.error error), this)
  | (.ok (), this) =>
      match this.pollFlushOutput with
      | (.ready (.ok ()), this) =>
          let (result, inner) := this.inner.pollDrained
          (result, { this with inner })
      | result => result

end WebSocketStream

end SingBox.Vless
