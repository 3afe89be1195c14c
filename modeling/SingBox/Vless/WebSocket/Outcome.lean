import SingBox.Vless.WebSocket.Step

namespace SingBox.Vless

open Library

namespace WebSocketStream

-- The pings among frames, as the payloads their pongs have to carry.
def pings (frames : List WholeFrame) : List Bytes :=
  (frames.filter fun frame => frame.opcode = 0x9).map WholeFrame.payload

-- The stream stands where it stood: no frame is queued and none is finished.
structure Steady (this next : WebSocketStream) : Prop extends Quiet this next where
  sound : this.Sound → next.Sound
  frames : next.view.frames this.clientSide = this.view.frames this.clientSide
  closed : next.readClosed = this.readClosed

theorem Steady.trans {this mid next : WebSocketStream} (hm : Steady this mid)
    (hn : Steady mid next) : Steady this next where
  toQuiet := hm.toQuiet.trans hn.toQuiet
  sound := hn.sound ∘ hm.sound
  frames := by
    have h := hn.frames
    rw [hm.clientSide] at h
    exact h.trans hm.frames
  closed := hn.closed.trans hm.closed

theorem Steady.expected {this next : WebSocketStream} (h : Steady this next) :
    next.view.expected this.clientSide = this.view.expected this.clientSide := by
  have hc : next.view.closed = this.view.closed := h.closed
  simp only [ReadView.expected, hc, h.frames]

-- What `finish_read_frame` does for a frame: a Close is echoed and ends the
-- reading, a Ping is answered by a Pong, and nothing else is answered.
inductive Replies (this next : WebSocketStream) (frame : WholeFrame) : Prop
  | close (ho : frame.opcode = 0x8) (hq : Queues this next 0x8 frame.payload)
      (hc : next.closeQueued = true)
  | ping (ho : frame.opcode = 0x9) (hq : Queues this next 0xA frame.payload)
      (hc : next.closeQueued = this.closeQueued)
  | silent (hclose : frame.opcode ≠ 0x8) (hping : frame.opcode ≠ 0x9) (hq : Quiet this next)

-- All that one pass of `poll_read` can do.
inductive ReadOutcome (output : Nat) (this : WebSocketStream) :
    Pass WebSocketStream (ReadResult × WebSocketStream) → Prop
  -- the transport is not ready
  | stalled (next : WebSocketStream) (hs : Steady this next)
      (hc : (∃ n, this.inner.writes n = .pending) ∨ ∃ n, this.inner.reads n = .pending) :
      ReadOutcome output this (.done (.pending, next))
  -- the transport fails
  | broken (next : WebSocketStream) (error : IoError) (hs : Steady this next)
      (hc : ¬this.inner.Accepting ∨ ∃ n error, this.inner.reads n = .failed error) :
      ReadOutcome output this (.done (.ready (.error error), next))
  -- there is no mask for a reply, which is left half written
  | maskless (next : WebSocketStream) (error : IoError) (hs : this.Sound → next.Sound)
      (hq : next.queued = this.queued) (hl : next.closeQueued = this.closeQueued)
      (hc : ∃ n, this.inner.masks n = none) :
      ReadOutcome output this (.done (.ready (.error error), next))
  -- nothing to do: the reading has ended or the caller has no room
  | idle (next : WebSocketStream) (hs : Steady this next)
      (hc : this.readClosed = true ∨ output = 0) :
      ReadOutcome output this (.done (.ready (.ok []), next))
  -- the bytes are not those of a frame, or stop short
  | refused (next : WebSocketStream) (error : IoError) (hs : Steady this next)
      (ho : this.readClosed = false)
      (he : this.view.expected this.clientSide = ([], .error error)) :
      ReadOutcome output this (.done (.ready (.error error), next))
  -- the input is filled, or bytes of a control frame are taken
  | progressed (next : WebSocketStream) (hs : Steady this next) :
      ReadOutcome output this (.again next)
  -- the peer has closed the transport between two frames
  | ended (next : WebSocketStream) (hq : Quiet this next) (hs : this.Sound → next.Sound)
      (ho : this.readClosed = false) (hc : next.readClosed = true)
      (hf : this.view.frames this.clientSide = ([], .clean))
      (hn : next.view.frames this.clientSide = ([], .clean)) :
      ReadOutcome output this (.done (.ready (.ok []), next))
  | finished (next : WebSocketStream) (frame : WholeFrame) (hs : this.Sound → next.Sound)
      (hr : Replies this next frame)
      (ho : this.readClosed = false) (hc : next.readClosed = (frame.opcode == 0x8))
      (hf : this.view.frames this.clientSide =
        (frame :: (next.view.frames this.clientSide).1, (next.view.frames this.clientSide).2))
      (he : next.view.expected this.clientSide = this.view.expected this.clientSide) :
      ReadOutcome output this (.again next)
  -- bytes of a data frame go to the caller
  | delivered (next : WebSocketStream) (bytes : Bytes) (hq : Quiet this next)
      (hs : this.Sound → next.Sound) (hpos : bytes ≠ []) (hle : bytes.length ≤ output)
      (ho : this.readClosed = false) (hc : next.readClosed = false)
      (he : this.view.expected this.clientSide =
        (bytes ++ (next.view.expected this.clientSide).1,
          (next.view.expected this.clientSide).2))
      (hp : pings (next.view.frames this.clientSide).1 =
        pings (this.view.frames this.clientSide).1) :
      ReadOutcome output this (.done (.ready (.ok bytes), next))

theorem Rest.exists {α : Type} {answers later : Nat → α} (h : Rest answers later) {p : α → Prop}
    (hp : ∃ n, p (later n)) : ∃ n, p (answers n) := by
  obtain ⟨used, hu⟩ := h
  obtain ⟨n, hn⟩ := hp
  exact ⟨n + used, hu n ▸ hn⟩

theorem Rest.accepting {this next : Environment} (h : Rest this.writes next.writes)
    (ha : this.Accepting) : next.Accepting := by
  obtain ⟨used, hu⟩ := h
  intro n
  rw [hu n]
  exact ha (n + used)

theorem Replies.of_quiet {this mid next : WebSocketStream} {frame : WholeFrame}
    (hm : Quiet this mid) (h : Replies mid next frame) : Replies this next frame := by
  cases h with
  | close ho hq hc => exact .close ho (hm.queues hq) hc
  | ping ho hq hc => exact .ping ho (hm.queues hq) (hc.trans hm.closeQueued)
  | silent hclose hping hq => exact .silent hclose hping (hm.trans hq)

-- What a pass does after steady steps, it does from where they began.
theorem ReadOutcome.of_steady {output : Nat} {this mid : WebSocketStream}
    {pass : Pass WebSocketStream (ReadResult × WebSocketStream)} (hm : Steady this mid)
    (h : ReadOutcome output mid pass) : ReadOutcome output this pass := by
  have hside := hm.clientSide
  have hclosed : ∀ value, mid.readClosed = value → this.readClosed = value :=
    fun _ ho => hm.closed.symm.trans ho
  cases h with
  | stalled next hs hc =>
      refine .stalled next (hm.trans hs) (hc.imp ?_ ?_)
      · exact hm.writes.exists (p := (· = .pending))
      · exact hm.reads.exists (p := (· = .pending))
  | broken next error hs hc =>
      refine .broken next error (hm.trans hs) (hc.imp (fun hn ha => hn (hm.writes.accepting ha)) ?_)
      exact hm.reads.exists (p := fun answer => ∃ error, answer = .failed error)
  | maskless next error hs hq hl hc =>
      refine .maskless next error (hs ∘ hm.sound) (hq.trans hm.queued) (hl.trans hm.closeQueued) ?_
      exact hm.masks.exists (p := (· = none)) hc
  | idle next hs hc => exact .idle next (hm.trans hs) (hc.imp (hclosed _) id)
  | refused next error hs ho he =>
      rw [hside] at he
      exact .refused next error (hm.trans hs) (hclosed _ ho) (hm.expected.symm.trans he)
  | progressed next hs => exact .progressed next (hm.trans hs)
  | ended next hq hs ho hc hf hn =>
      rw [hside] at hf hn
      exact .ended next (hm.toQuiet.trans hq) (hs ∘ hm.sound) (hclosed _ ho) hc
        (hm.frames.symm.trans hf) hn
  | finished next frame hs hr ho hc hf he =>
      rw [hside] at hf he
      exact .finished next frame (hs ∘ hm.sound) (hr.of_quiet hm.toQuiet) (hclosed _ ho) hc
        (hm.frames.symm.trans hf) (he.trans hm.expected)
  | delivered next bytes hq hs hpos hle ho hc he hp =>
      rw [hside] at he hp
      exact .delivered next bytes (hm.toQuiet.trans hq) (hs ∘ hm.sound) hpos hle (hclosed _ ho) hc
        (hm.expected.symm.trans he) (by rw [hp, hm.frames])

theorem Steady.of_view {this next : WebSocketStream} (hq : Quiet this next)
    (hi : this.Sound → next.inputOffset ≤ next.input.length) (hv : next.view = this.view) :
    Steady this next where
  toQuiet := hq
  sound h := ⟨hi h, hq.output h.output, hv ▸ h.view⟩
  frames := by rw [hv]
  closed := congrArg ReadView.closed hv

theorem Filled.view {this next : WebSocketStream} {count : Nat} (h : Filled this next count)
    (hs : this.Sound) : next.view = this.view := by
  simp only [WebSocketStream.view, h.readFrame, h.fragmented, h.readClosed, unread,
    h.available hs.input, h.incoming, List.append_assoc, List.take_append_drop]

theorem Filled.steady {this next : WebSocketStream} {count : Nat} (h : Filled this next count)
    (hs : this.Sound) : Steady this next :=
  .of_view (h.writer.quiet h.earlyData h.earlyOffset ⟨1, h.reads⟩)
    (fun hs => h.bounded hs.input) (h.view hs)

-- A started frame is the one at the front of what has not been read.
theorem startFrame_some (this next : WebSocketStream) (frame : WebSocketReadFrame)
    (hn : this.readFrame = none) (h : this.startFrame = .ok (some (frame, next))) :
    Steady this next ∧ next.readFrame = some frame := by
  unfold startFrame at h
  split at h
  · cases h
  · cases h
  · rename_i begun fragmented length hp
    obtain ⟨rfl, rfl⟩ : begun = frame ∧ _ = next := by simpa using h
    have hh := (parseHeader_some _ _ _ _ _ _).mp hp
    have hle := hh.length_le
    have hbegun : ReadView.Opens this.clientSide this.view begun
        { this.view with
          frame := some begun, fragmented, unread := this.view.unread.drop length } := by
      refine .begun begun fragmented length hn ((parseHeader_some _ _ _ _ _ _).mp ?_)
      change parseHeader this.clientSide this.fragmented (this.availableInput ++ _) = _
      rw [parseHeader_append _ _ _ _ (by simp [hp]), hp]
    have hv : { this with
        fragmented, inputOffset := this.inputOffset + length, readFrame := some begun }.view =
        { this.view with
          frame := some begun, fragmented, unread := this.view.unread.drop length } := by
      have hd : this.input.drop (this.inputOffset + length) = this.availableInput.drop length := by
        rw [availableInput, List.drop_drop]
      simp only [WebSocketStream.view, unread, availableInput, hd, ReadView.mk.injEq, true_and]
      exact (List.drop_append_of_le_length hle).symm
    refine ⟨⟨?_, ?_, ?_, rfl⟩, rfl⟩
    · exact SameWriter.quiet (by constructor <;> rfl) rfl rfl (.refl _)
    · intro hs
      refine ⟨?_, hs.output, hv ▸ (hbegun.sound hs.view).2.2.2⟩
      simp only [availableInput, List.length_drop] at hle ⊢
      have := hs.input
      omega
    · rw [hv, hbegun.frames]

theorem expected_failed (this : WebSocketStream) (ending : Ending) (error : IoError)
    (ho : this.readClosed = false) (hf : this.view.frames this.clientSide = ([], ending))
    (he : deliver [] ending = ([], .error error)) :
    this.view.expected this.clientSide = ([], .error error) := by
  have hc : this.view.closed = false := ho
  simp only [ReadView.expected, hc, hf, he, Bool.false_eq_true, if_false]

theorem startFrame_error (this : WebSocketStream) (error : IoError) (hn : this.readFrame = none)
    (ho : this.readClosed = false) (h : this.startFrame = .error error) :
    this.view.expected this.clientSide = ([], .error error) := by
  unfold startFrame at h
  split at h
  · rename_i refused hp
    obtain rfl : refused = error := by simpa using h
    refine expected_failed this (.refused refused) refused ho ?_ rfl
    have hu : parseHeader this.clientSide this.fragmented this.view.unread = .error refused := by
      change parseHeader this.clientSide this.fragmented (this.availableInput ++ _) = _
      rw [parseHeader_append _ _ _ _ (by simp [hp]), hp]
    have hframe : this.view.frame = none := hn
    simp only [ReadView.frames, hframe]
    exact parse_error _ _ _ _ hu
  · cases h
  · cases h

-- Filling the input for a header, when it does not hold a whole one.
theorem fillHeader_cases (output : Nat) (this : WebSocketStream) (hs : this.Sound)
    (hn : this.readFrame = none) (ho : this.readClosed = false)
    (h : this.startFrame = .ok none) : ReadOutcome output this this.fillHeader := by
  have hp : parseHeader this.clientSide this.fragmented this.availableInput = .ok none := by
    unfold startFrame at h
    split at h
    · cases h
    · assumption
    · cases h
  have hparse : this.inner.incoming = [] → this.view.frames this.clientSide =
      ([], if this.availableInput = [] then .clean else .truncatedHeader) := by
    intro he
    have hu : this.view.unread = this.availableInput := by
      simp only [WebSocketStream.view, unread, he, List.append_nil]
    have hframe : this.view.frame = none := hn
    simp only [ReadView.frames, hframe, hu]
    exact parse_none _ _ _ hp
  obtain ⟨next, count, hf, hc⟩ := pollFillInput_cases this
  have hsteady := hf.steady hs
  unfold fillHeader
  rcases hc with ⟨_, _, he⟩ | ⟨rfl, hi, _, he⟩ | ⟨_, hr, he⟩ | ⟨_, error, hr, he⟩
  · rw [he]
    exact .progressed next hsteady
  · have ha : next.availableInput = this.availableInput := by
      simpa [hi] using hf.available hs.input
    simp only [he, ha]
    split
    · rename_i hempty
      have hclean := hparse hi
      rw [if_pos hempty] at hclean
      have hq := hsteady.toQuiet
      refine .ended _ ⟨⟨hq.clientSide, hq.earlyData, hq.earlyOffset, hq.pendingPayloadLen,
        hq.reads, hq.writes, hq.masks, hq.output⟩, hq.conserved, hq.queued, hq.closeQueued⟩
        (fun hs => ?_) ho rfl hclean (hsteady.frames.trans hclean)
      exact ⟨(hsteady.sound hs).input, (hsteady.sound hs).output, (hsteady.sound hs).view⟩
    · rename_i hempty
      have htrunc := hparse hi
      rw [if_neg hempty] at htrunc
      exact .refused next _ hsteady ho (expected_failed this _ _ ho htrunc rfl)
  · rw [he]
    exact .stalled next hsteady (.inr ⟨0, hr⟩)
  · rw [he]
    exact .broken next error hsteady (.inr ⟨0, error, hr⟩)

theorem view_compactInput (this : WebSocketStream) : this.compactInput.view = this.view := by
  have ha := availableInput_compactInput this
  obtain ⟨_, _, he⟩ := compactInput_eq this
  simp only [WebSocketStream.view, unread, ha, ReadView.mk.injEq]
  simp only [he, and_self]

theorem quiet_compactInput (this : WebSocketStream) : Quiet this this.compactInput := by
  have hw := sameWriter_compactInput this
  obtain ⟨_, _, he⟩ := compactInput_eq this
  exact hw.quiet (by rw [he]) (by rw [he]) (.of_eq (by rw [he]))

-- The stream after `count` bytes of its frame's payload.
def taken (this : WebSocketStream) (frame : WebSocketReadFrame) (count : Nat) : WebSocketStream :=
  { this with
    inputOffset := this.inputOffset + count
    readFrame := some (frame.advance (this.availableInput.take count)) }.compactInput

theorem taken_view (this : WebSocketStream) (frame : WebSocketReadFrame) (count : Nat)
    (hc : count ≤ this.availableInput.length) :
    (this.taken frame count).view = this.view.take frame count := by
  have hd : this.input.drop (this.inputOffset + count) = this.availableInput.drop count := by
    rw [availableInput, List.drop_drop]
  have ht : this.unread.take count = this.availableInput.take count :=
    List.take_append_of_le_length hc
  rw [taken, view_compactInput]
  simp only [WebSocketStream.view, ReadView.take, ht, ReadView.mk.injEq, true_and]
  exact (congrArg (· ++ this.inner.incoming) hd).trans (List.drop_append_of_le_length hc).symm

theorem taken_quiet (this : WebSocketStream) (frame : WebSocketReadFrame) (count : Nat) :
    Quiet this (this.taken frame count) :=
  (SameWriter.quiet (by constructor <;> rfl) rfl rfl (.refl _) :
    Quiet this { this with
      inputOffset := this.inputOffset + count
      readFrame := some (frame.advance (this.availableInput.take count)) }).trans
    (quiet_compactInput _)

theorem taken_sound (this : WebSocketStream) (frame : WebSocketReadFrame) (count : Nat)
    (hc : count ≤ this.availableInput.length)
    (hk : frame.controlPayload.isSome = isControl frame.opcode) (hs : this.Sound) :
    (this.taken frame count).Sound where
  input := by
    apply compactInput_bounded
    simp only [availableInput, List.length_drop] at hc
    simp only
    have := hs.input
    omega
  output := (this.taken_quiet frame count).output hs.output
  view := by
    rw [taken_view this frame count hc]
    exact ReadView.sound_take _ _ _ hk

-- `take_payload` in those terms.
theorem takePayload_eq (output : Nat) (frame : WebSocketReadFrame) (this : WebSocketStream) :
    takePayload output frame this =
      let ready := min frame.remaining this.availableInput.length
      if frame.controlPayload.isSome then .again (this.taken frame ready)
      else .done (.ready (.ok (xorMask frame.mask frame.maskOffset
        (this.availableInput.take (min ready output)))), this.taken frame (min ready output)) := by
  have hadvance : ∀ count ≤ this.availableInput.length,
      frame.advance (this.availableInput.take count) =
        { frame with
          remaining := frame.remaining - count
          maskOffset := (frame.maskOffset + count) % 4
          controlPayload := frame.controlPayload.map
            (· ++ xorMask frame.mask frame.maskOffset (this.availableInput.take count)) } := by
    intro count hc
    simp only [WebSocketReadFrame.advance, List.length_take, Nat.min_eq_left hc]
  simp only [takePayload, taken]
  cases hk : frame.controlPayload.isSome with
  | true => simp only [if_true, hadvance _ (Nat.min_le_right _ _)]
  | false =>
      have hle : min (min frame.remaining this.availableInput.length) output ≤
          this.availableInput.length := by omega
      simp only [Bool.false_eq_true, if_false, hadvance _ hle]

theorem pings_continueFrom (clientSide fragmented : Bool) (frame : WebSocketReadFrame)
    (kept other bytes : Bytes) (hp : frame.opcode ≠ 0x9) :
    pings (continueFrom clientSide fragmented frame kept bytes).1 =
      pings (continueFrom clientSide fragmented frame other bytes).1 := by
  unfold continueFrom
  split
  · rfl
  · simp [pings, hp]

theorem takePayload_cases (output : Nat) (frame : WebSocketReadFrame) (this : WebSocketStream)
    (hs : this.Sound) (hf : this.readFrame = some frame) (ho : this.readClosed = false)
    (hr : frame.remaining ≠ 0) (ha : this.availableInput ≠ []) (hout : output ≠ 0) :
    ReadOutcome output this (takePayload output frame this) := by
  have hk := hs.view frame hf
  have hlen := List.length_pos_iff.mpr ha
  rw [takePayload_eq]
  cases hc : frame.controlPayload.isSome with
  | true =>
      obtain ⟨count, hcount⟩ : ∃ count, count = min frame.remaining this.availableInput.length :=
        ⟨_, rfl⟩
      simp only [if_true, ← hcount]
      have hle : count ≤ this.availableInput.length := by omega
      refine .progressed _ ⟨this.taken_quiet frame count, this.taken_sound frame count hle hk, ?_, ?_⟩
      · rw [taken_view this frame count hle]
        exact ReadView.frames_take_control _ _ _ _ hf (by omega) hc
      · exact congrArg ReadView.closed (taken_view this frame count hle)
  | false =>
      have hnone : frame.controlPayload = none := by simpa using hc
      obtain ⟨count, hcount⟩ :
          ∃ count, count = min (min frame.remaining this.availableInput.length) output := ⟨_, rfl⟩
      simp only [Bool.false_eq_true, if_false, ← hcount]
      have hle : count ≤ this.availableInput.length := by omega
      have hv := taken_view this frame count hle
      have ht : this.view.unread.take count = this.availableInput.take count :=
        List.take_append_of_le_length hle
      refine .delivered _ _ (this.taken_quiet frame count) (this.taken_sound frame count hle hk)
        ?_ ?_ ho ((congrArg ReadView.closed hv).trans ho) ?_ ?_
      · rw [← List.length_pos_iff, xorMask_length, List.length_take]
        omega
      · rw [xorMask_length, List.length_take]
        omega
      · rw [hv, ← ht]
        exact ReadView.expected_take _ _ _ _ hf (by omega) hs.view hnone ho
      · have hping : frame.opcode ≠ 0x9 := by
          intro he
          rw [hc, he] at hk
          cases hk
        have htake := ReadView.frames_take this.clientSide this.view frame count hf (by omega)
        rw [hv, ← htake]
        simp only [ReadView.frames, ReadView.take, continueFrame]
        exact pings_continueFrom _ _ _ _ _ _ (by simpa [WebSocketReadFrame.advance] using hping)

theorem Appending.kept {this next : WebSocketStream} (h : Appending this next) : Kept this next where
  clientSide := h.reader.clientSide
  earlyData := h.reader.earlyData
  earlyOffset := h.reader.earlyOffset
  pendingPayloadLen := h.pendingPayloadLen
  reads := .of_eq h.reader.reads
  writes := .of_eq h.writes
  masks := h.masks
  output _ := h.bounded

theorem Appended.queues {this next : WebSocketStream} {opcode : UInt8} {payload : Bytes}
    (h : Appended this next opcode payload) : Queues this next opcode payload where
  toKept := h.toAppending.kept
  conserved := by
    obtain ⟨mask, hu⟩ := h.unsent
    exact ⟨mask, by rw [h.sent, hu, List.append_assoc]⟩
  queued := h.queued

-- Marking a queued control frame for the next flush queues nothing.
private theorem Queues.marked {this next : WebSocketStream} {opcode : UInt8} {payload : Bytes}
    (h : Queues this next opcode payload) (closeQueued readClosed : Bool) :
    Queues this { next with controlWritePending := true, closeQueued, readClosed } opcode payload :=
  ⟨⟨h.clientSide, h.earlyData, h.earlyOffset, h.pendingPayloadLen, h.reads, h.writes, h.masks,
    h.output⟩, h.conserved, h.queued⟩

theorem quiet_dropFrame (this : WebSocketStream) : Quiet this { this with readFrame := none } :=
  SameWriter.quiet (by constructor <;> rfl) rfl rfl (.refl _)

-- A complete frame leaves the stream with the reply it asks for.
theorem finishReadFrame_cases (this : WebSocketStream) (frame : WebSocketReadFrame)
    (hs : this.Sound) :
    (∃ next, this.finishReadFrame frame = (.ok (), next) ∧ next.Sound ∧
      Replies this next ⟨frame.opcode, frame.controlPayload.getD []⟩ ∧
      next.view = this.view.finish frame) ∨
    (this.inner.masks 0 = none ∧ ∃ error next, this.finishReadFrame frame = (.error error, next) ∧
      next.Sound ∧ next.queued = this.queued ∧ next.closeQueued = this.closeQueued) := by
  have hquiet := quiet_dropFrame this
  obtain ⟨base, hbase⟩ : ∃ base, base = { this with readFrame := none } := ⟨_, rfl⟩
  have hview : base.view = { this.view with frame := none } := by rw [hbase]; rfl
  have hbounds : base.inputOffset ≤ base.input.length := by rw [hbase]; exact hs.input
  have hcases := fun opcode => appendFrame_cases base opcode (frame.controlPayload.getD [])
    (by rw [hbase]; exact hs.output)
  rw [← hbase] at hquiet
  simp only [finishReadFrame, ← hbase]
  -- a state with the reader of `base` is sound whatever it has to send
  have hsound : ∀ next : WebSocketStream, next.input = base.input →
      next.inputOffset = base.inputOffset → next.readFrame = none →
      next.writeOffset ≤ next.writeBuffer.length → next.Sound := by
    intro next hi hoff hn hw
    exact ⟨by rw [hi, hoff]; exact hbounds, hw, fun other ho => by
      cases hn.symm.trans ho⟩
  have hfail : ∀ opcode error next, base.appendFrame opcode (frame.controlPayload.getD []) =
      (.error error, next) → base.inner.masks 0 = none → Appending base next →
      next.queued = base.queued → next.Sound ∧ next.queued = this.queued ∧
        next.closeQueued = this.closeQueued := by
    intro opcode error next _ _ ha hq
    exact ⟨hsound next ha.reader.input ha.reader.inputOffset
      (ha.reader.readFrame.trans (by rw [hbase])) ha.bounded, hq.trans hquiet.queued,
      ha.closeQueued.trans hquiet.closeQueued⟩
  have hbmasks : base.inner.masks = this.inner.masks := by rw [hbase]
  have hframe : ∀ next, SameReader base next → next.readFrame = none :=
    fun next hr => hr.readFrame.trans (by rw [hbase])
  by_cases hclose : frame.opcode = 0x8
  · simp only [hclose, if_true]
    rcases hcases 0x8 with ⟨next, he, ha⟩ | ⟨hm, error, next, he, ha, hq⟩
    · simp only [he]
      refine .inl ⟨_, rfl, hsound _ ha.reader.input ha.reader.inputOffset (hframe next ha.reader)
        ha.bounded, .close rfl (hquiet.queues (ha.queues.marked _ _)) rfl, ?_⟩
      have hv := ha.reader.view.trans hview
      simp only [WebSocketStream.view, ReadView.mk.injEq] at hv
      simp only [WebSocketStream.view, ReadView.finish, hclose, ReadView.mk.injEq, beq_self_eq_true,
        Bool.or_true, true_and]
      exact ⟨hv.1, hv.2.1, hv.2.2.2⟩
    · simp only [he]
      exact .inr ⟨hbmasks ▸ hm, error, next, rfl, hfail _ _ _ he hm ha hq⟩
  by_cases hping : frame.opcode = 0x9
  · simp only [hping, if_true, show ¬((0x9 : UInt8) = 0x8) by decide, if_false]
    rcases hcases 0xA with ⟨next, he, ha⟩ | ⟨hm, error, next, he, ha, hq⟩
    · simp only [he]
      refine .inl ⟨_, rfl, hsound _ ha.reader.input ha.reader.inputOffset (hframe next ha.reader)
        ha.bounded, .ping rfl (hquiet.queues (ha.queues.marked next.closeQueued next.readClosed))
        (ha.closeQueued.trans hquiet.closeQueued), ?_⟩
      have hv := ha.reader.view.trans hview
      simp only [WebSocketStream.view, ReadView.mk.injEq] at hv
      simp only [WebSocketStream.view, ReadView.finish, hping, ReadView.mk.injEq,
        show ((0x9 : UInt8) == 0x8) = false by decide, Bool.or_false]
      exact hv
    · simp only [he]
      exact .inr ⟨hbmasks ▸ hm, error, next, rfl, hfail _ _ _ he hm ha hq⟩
  · simp only [hclose, hping, if_false]
    refine .inl ⟨base, rfl, hsound base rfl rfl (by rw [hbase]) (by rw [hbase]; exact hs.output),
      .silent hclose hping hquiet, ?_⟩
    rw [hview, ReadView.finish]
    simp [hclose]

theorem readPayload_cases (output : Nat) (frame : WebSocketReadFrame) (this : WebSocketStream)
    (hs : this.Sound) (hf : this.readFrame = some frame) (ho : this.readClosed = false)
    (hout : output ≠ 0) : ReadOutcome output this (readPayload output frame this) := by
  unfold readPayload
  by_cases hr : frame.remaining = 0
  · rw [if_pos hr]
    rcases finishReadFrame_cases this frame hs with
      ⟨next, he, hns, hreply, hv⟩ | ⟨hm, error, next, he, hns, hq, hc⟩
    · simp only [he]
      have hclosed : next.readClosed = (frame.opcode == 0x8) := by
        have h := congrArg ReadView.closed hv
        simpa [WebSocketStream.view, ReadView.finish, ho] using h
      refine .finished next _ (fun _ => hns) hreply ho hclosed ?_ ?_
      · rw [hv]
        exact ReadView.frames_finish _ _ _ hf hr
      · rw [hv]
        exact ReadView.expected_finish _ _ _ hs.view hf hr ho
    · simp only [he]
      exact .maskless next error (fun _ => hns) hq hc ⟨0, hm⟩
  · rw [if_neg hr]
    split
    · rename_i hempty
      obtain ⟨next, count, hfill, hc⟩ := pollFillInput_cases this
      have hsteady := hfill.steady hs
      rcases hc with ⟨hpos, _, he⟩ | ⟨rfl, hi, _, he⟩ | ⟨_, hread, he⟩ | ⟨_, error, hread, he⟩
      · rw [he]
        have ha : next.availableInput ≠ [] := by
          have hcount := hfill.count_le
          rw [hfill.available hs.input, hempty, List.nil_append, ← List.length_pos_iff,
            List.length_take]
          omega
        exact .of_steady hsteady (takePayload_cases output frame next (hsteady.sound hs)
          (hfill.readFrame.trans hf) (hfill.readClosed.trans ho) hr ha hout)
      · rw [he]
        refine .refused next _ hsteady ho (expected_failed this
          (.truncatedPayload frame.opcode (frame.controlPayload.getD [])) _ ho ?_ ?_)
        · have hframe : this.view.frame = some frame := hf
          have hu : this.view.unread = [] := by
            simp only [WebSocketStream.view, unread, hempty, hi, List.append_nil]
          simp only [ReadView.frames, hframe, hu, continueFrame, continueFrom, List.length_nil,
            Nat.pos_of_ne_zero hr, if_true, xorMask_nil, List.append_nil]
        · have hk := hs.view frame hf
          simp only [deliver, ← hk]
          cases frame.controlPayload <;> rfl
      · rw [he]
        exact .stalled next hsteady (.inr ⟨0, hread⟩)
      · rw [he]
        exact .broken next error hsteady (.inr ⟨0, error, hread⟩)
    · rename_i ha
      exact takePayload_cases output frame this hs hf ho hr ha hout

theorem readPass_cases (output : Nat) (this : WebSocketStream) (hs : this.Sound) :
    ReadOutcome output this (readPass output this) := by
  obtain ⟨next, hq, hr, hc⟩ := flushControl_cases this
  have hsteady : Steady this next :=
    .of_view hq (fun hs => by rw [hr.inputOffset, hr.input]; exact hs.input) hr.view
  have hns := hsteady.sound hs
  unfold readPass
  rcases hc with he | ⟨he, hw⟩ | ⟨error, he, hn⟩
  · rw [he]
    simp only
    split
    · rename_i hidle
      exact .idle next hsteady (hidle.imp (hsteady.closed.symm.trans) id)
    · rename_i hidle
      obtain ⟨hopen, hout⟩ := not_or.mp hidle
      have ho : next.readClosed = false := by simpa using hopen
      refine .of_steady hsteady ?_
      split
      · rename_i frame hf
        exact readPayload_cases output frame next hns hf ho hout
      · rename_i hf
        split
        · rename_i error he
          exact .refused next error ⟨.refl next, id, rfl, rfl⟩ ho (startFrame_error next error hf ho he)
        · rename_i frame started he
          obtain ⟨hst, hframe⟩ := startFrame_some next started frame hf he
          exact .of_steady hst (readPayload_cases output frame started (hst.sound hns) hframe
            (hst.closed.trans ho) hout)
        · rename_i he
          exact fillHeader_cases output next hns hf ho he
  · rw [he]
    exact .stalled next hsteady (.inl hw)
  · rw [he]
    exact .broken next error hsteady (.inl hn)

end WebSocketStream

end SingBox.Vless
