import SingBox.Vless.WebSocket

namespace SingBox.Vless

open Library

namespace WebSocketStream

-- What an accepted header has passed, and what the frame starts as.
structure Header (clientSide fragmented : Bool) (input : Bytes) (frame : WebSocketReadFrame)
    (next : Bool) (length : Nat) : Prop where
  bytes : ∃ first second rest, input = first :: second :: rest ∧ first &&& 0x70 = 0 ∧
    isMasked second = !clientSide ∧ length = headerLength second ∧
    (isControl (opcodeOf first) → isFin first = true ∧ payloadLength second rest ≤ 125) ∧
    nextFragmented fragmented (isFin first) (opcodeOf first) = .ok next ∧
    frame = beginFrame (opcodeOf first) (payloadLength second rest) (headerMask second rest)
  length_le : length ≤ input.length
  remaining_le : frame.remaining ≤ MAX_WS_FRAME_SIZE

theorem parseHeader_some (clientSide fragmented : Bool) (input : Bytes)
    (frame : WebSocketReadFrame) (next : Bool) (length : Nat) :
    parseHeader clientSide fragmented input = .ok (some (frame, next, length)) ↔
      Header clientSide fragmented input frame next length := by
  constructor
  · intro h
    match input with
    | [] | [_] => simp [parseHeader] at h
    | first :: second :: rest =>
        simp only [parseHeader] at h
        split at h; · cases h
        rename_i hreserved
        split at h; · cases h
        rename_i hmasked
        split at h; · cases h
        rename_i hlen
        split at h; · cases h
        rename_i hsize
        split at h; · cases h
        rename_i hcontrol
        split at h; · cases h
        rename_i hnext
        obtain ⟨rfl, rfl, rfl⟩ : _ ∧ _ ∧ _ := by simpa using h
        refine ⟨⟨first, second, rest, rfl, by simpa using hreserved, ?_, rfl, ?_, hnext, rfl⟩,
          Nat.not_lt.mp hlen, Nat.not_lt.mp hsize⟩
        · cases hm : isMasked second <;> cases clientSide <;> simp_all
        · intro hc
          simpa [hc] using hcontrol
  · rintro ⟨⟨first, second, rest, rfl, hreserved, hmasked, rfl, hcontrol, hnext, rfl⟩, hlen, hsize⟩
    have hm : isMasked second ≠ clientSide := by rw [hmasked]; cases clientSide <;> simp
    have hc : ¬(isControl (opcodeOf first) &&
        (!isFin first || decide (payloadLength second rest > 125))) = true := by
      cases he : isControl (opcodeOf first) with
      | false => simp
      | true => simpa using hcontrol he
    simp only [parseHeader, hreserved, bne_self_eq_false, Bool.false_eq_true, if_false, hm,
      Nat.not_lt.mpr hlen, hc, hnext]
    exact if_neg (Nat.not_lt.mpr hsize)

-- A header takes at least two bytes.
theorem Header.two_le {clientSide fragmented : Bool} {input : Bytes} {frame : WebSocketReadFrame}
    {next : Bool} {length : Nat} (h : Header clientSide fragmented input frame next length) :
    2 ≤ length := by
  obtain ⟨⟨_, second, _, _, _, _, rfl, _⟩, _, _⟩ := h
  unfold headerLength
  omega

-- Reading leaves everything the output functions use as it is.
structure SameWriter (this next : WebSocketStream) : Prop where
  clientSide : next.clientSide = this.clientSide
  writeBuffer : next.writeBuffer = this.writeBuffer
  writeOffset : next.writeOffset = this.writeOffset
  pendingPayloadLen : next.pendingPayloadLen = this.pendingPayloadLen
  controlWritePending : next.controlWritePending = this.controlWritePending
  closeQueued : next.closeQueued = this.closeQueued
  queued : next.queued = this.queued
  sent : next.inner.sent = this.inner.sent
  writes : next.inner.writes = this.inner.writes
  masks : next.inner.masks = this.inner.masks

-- Everything that has not been read yet, in the input buffer or still to come.
def unread (this : WebSocketStream) : Bytes := this.availableInput ++ this.inner.incoming

-- Compacting touches the buffer and its offset only.
theorem compactInput_eq (this : WebSocketStream) :
    ∃ input inputOffset, this.compactInput = { this with input, inputOffset } := by
  unfold compactInput
  split
  · exact ⟨_, _, rfl⟩
  · split
    · exact ⟨_, _, rfl⟩
    · exact ⟨this.input, this.inputOffset, rfl⟩

@[simp] theorem availableInput_compactInput (this : WebSocketStream) :
    this.compactInput.availableInput = this.availableInput := by
  unfold compactInput availableInput
  split
  · rename_i he
    simp [he]
  · split <;> simp

theorem compactInput_bounded (this : WebSocketStream)
    (hb : this.inputOffset ≤ this.input.length) :
    this.compactInput.inputOffset ≤ this.compactInput.input.length := by
  unfold compactInput
  split
  · simp
  · split
    · simp
    · exact hb

theorem sameWriter_compactInput (this : WebSocketStream) :
    SameWriter this this.compactInput := by
  obtain ⟨_, _, he⟩ := compactInput_eq this
  rw [he]
  constructor <;> rfl

theorem extendedLength_le (second : UInt8) (rest : Bytes)
    (hlen : headerLength second ≤ rest.length + 2) : extendedLength second ≤ rest.length := by
  unfold headerLength at hlen
  omega

theorem headerMask_append (second : UInt8) (rest more : Bytes)
    (hlen : headerLength second ≤ rest.length + 2) :
    headerMask second (rest ++ more) = headerMask second rest := by
  funext index
  unfold headerMask headerLength at *
  cases hm : isMasked second with
  | false => rfl
  | true =>
      simp only [hm, if_true] at hlen ⊢
      have hi : index.val < (rest.drop (extendedLength second)).length := by
        simp only [List.length_drop]
        omega
      rw [List.drop_append_of_le_length (by omega), List.getD_eq_getElem?_getD,
        List.getElem?_append_left hi, ← List.getD_eq_getElem?_getD]

-- Once `start_frame` has decided, more input does not change its mind.
theorem parseHeader_append (clientSide fragmented : Bool) (input more : Bytes)
    (hd : parseHeader clientSide fragmented input ≠ .ok none) :
    parseHeader clientSide fragmented (input ++ more) = parseHeader clientSide fragmented input := by
  match input with
  | [] | [_] => simp [parseHeader] at hd
  | first :: second :: rest =>
      simp only [List.cons_append, parseHeader] at hd ⊢
      by_cases hreserved : (first &&& 0x70 != 0) = true
      · simp only [hreserved, if_true]
      by_cases hmasked : isMasked second = clientSide
      · simp only [hreserved, hmasked, if_true]
      by_cases hlen : (first :: second :: rest).length < headerLength second
      · simp only [hreserved, hmasked, hlen, if_true, if_false] at hd
        exact absurd rfl hd
      · have hl : headerLength second ≤ rest.length + 2 := by simpa using hlen
        have hl' : ¬(first :: second :: (rest ++ more)).length < headerLength second := by
          simp only [List.length_cons, List.length_append]
          omega
        have hp : payloadLength second (rest ++ more) = payloadLength second rest := by
          unfold payloadLength
          rw [List.take_append_of_le_length (extendedLength_le second rest hl)]
        simp only [hreserved, hmasked, hlen, hl', hp, headerMask_append second rest more hl, if_false]

-- All that `poll_fill_input` can do: it moves `count` bytes into the input, and
-- `count` is zero unless it answers `Ready(Ok(true))`.
structure Filled (this next : WebSocketStream) (count : Nat) : Prop where
  writer : SameWriter this next
  readFrame : next.readFrame = this.readFrame
  fragmented : next.fragmented = this.fragmented
  readClosed : next.readClosed = this.readClosed
  earlyData : next.earlyData = this.earlyData
  earlyOffset : next.earlyOffset = this.earlyOffset
  count_le : count ≤ this.inner.incoming.length
  incoming : next.inner.incoming = this.inner.incoming.drop count
  reads : ∀ n, next.inner.reads n = this.inner.reads (n + 1)
  available : this.inputOffset ≤ this.input.length →
    next.availableInput = this.availableInput ++ this.inner.incoming.take count
  available_le : next.availableInput.length ≤ this.availableInput.length + count
  bounded : this.inputOffset ≤ this.input.length → next.inputOffset ≤ next.input.length

private theorem filled_compact (this : WebSocketStream) (count : Nat)
    (hc : count ≤ this.inner.incoming.length) :
    Filled this { this.compactInput with
      inner := { this.inner with
        reads := fun n => this.inner.reads (n + 1), incoming := this.inner.incoming.drop count }
      input := this.compactInput.input ++ this.inner.incoming.take count } count := by
  have hw := sameWriter_compactInput this
  have hsame : this.compactInput.readFrame = this.readFrame ∧
      this.compactInput.fragmented = this.fragmented ∧
      this.compactInput.readClosed = this.readClosed ∧
      this.compactInput.earlyData = this.earlyData ∧
      this.compactInput.earlyOffset = this.earlyOffset := by
    obtain ⟨_, _, he⟩ := compactInput_eq this
    simp only [he, and_self]
  have ha := availableInput_compactInput this
  unfold availableInput at ha
  refine ⟨⟨hw.clientSide, hw.writeBuffer, hw.writeOffset, hw.pendingPayloadLen,
    hw.controlWritePending, hw.closeQueued, hw.queued, rfl, rfl, rfl⟩, hsame.1, hsame.2.1,
    hsame.2.2.1, hsame.2.2.2.1, hsame.2.2.2.2, hc, rfl, fun _ => rfl, ?_, ?_, ?_⟩
  · intro hb
    have := compactInput_bounded this hb
    simp only [availableInput]
    rw [List.drop_append_of_le_length this, ha]
  · have hl := congrArg List.length ha
    simp only [availableInput, List.length_drop, List.length_append, List.length_take] at hl ⊢
    omega
  · intro hb
    have := compactInput_bounded this hb
    simp only [List.length_append]
    omega

theorem pollFillInput_cases (this : WebSocketStream) :
    ∃ next count, Filled this next count ∧
      ((0 < count ∧ (∃ extra, this.inner.reads 0 = .ready extra) ∧
          this.pollFillInput = (.ready (.ok true), next)) ∨
        (count = 0 ∧ this.inner.incoming = [] ∧ (∃ extra, this.inner.reads 0 = .ready extra) ∧
          this.pollFillInput = (.ready (.ok false), next)) ∨
        (count = 0 ∧ this.inner.reads 0 = .pending ∧ this.pollFillInput = (.pending, next)) ∨
        (count = 0 ∧ ∃ error, this.inner.reads 0 = .failed error ∧
          this.pollFillInput = (.ready (.error error), next))) := by
  have hi : this.compactInput.inner = this.inner := by
    obtain ⟨_, _, he⟩ := compactInput_eq this
    rw [he]
  have h0 := filled_compact this 0 (Nat.zero_le _)
  simp only [List.take_zero, List.append_nil, List.drop_zero] at h0
  unfold pollFillInput
  simp only [hi, Environment.pollRead]
  cases hr : this.inner.reads 0 with
  | pending => exact ⟨_, 0, h0, .inr (.inr (.inl ⟨rfl, rfl, rfl⟩))⟩
  | failed error => exact ⟨_, 0, h0, .inr (.inr (.inr ⟨rfl, error, rfl, rfl⟩))⟩
  | ready extra =>
      by_cases he : this.inner.incoming = []
      · simp only [he, List.take_nil, List.drop_nil, if_true] at h0 ⊢
        exact ⟨_, 0, h0, .inr (.inl ⟨rfl, trivial, ⟨extra, rfl⟩, rfl⟩)⟩
      · have hpos := List.length_pos_iff.mpr he
        obtain ⟨count, hcount⟩ : ∃ count, count =
            min (min (extra + 1) READ_CHUNK_SIZE) this.inner.incoming.length := ⟨_, rfl⟩
        have ht : this.inner.incoming.take (min (extra + 1) READ_CHUNK_SIZE) =
            this.inner.incoming.take count := by
          rw [hcount, ← List.take_eq_take_min]
        have hd : this.inner.incoming.drop (min (extra + 1) READ_CHUNK_SIZE) =
            this.inner.incoming.drop count := by
          rw [hcount, ← List.drop_eq_drop_min]
        have hc : 0 < count := by
          simp only [READ_CHUNK_SIZE] at hcount
          omega
        have hne : this.inner.incoming.take count ≠ [] := by
          rw [← List.length_pos_iff, List.length_take]
          omega
        simp only [ht, hd, hne, if_false]
        exact ⟨_, count, filled_compact this count (by omega),
          .inl ⟨hc, ⟨extra, rfl⟩, rfl⟩⟩

end WebSocketStream

end SingBox.Vless
