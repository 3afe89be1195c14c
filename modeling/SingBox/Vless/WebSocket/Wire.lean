import SingBox.Vless.WebSocket.Read

namespace SingBox.Vless

open Library

namespace WebSocketStream

-- The opcodes this side sends: data, Close and Pong.
def Sendable (opcode : UInt8) (length : Nat) : Prop :=
  (opcode = 0x2 ∧ length ≤ MAX_WS_FRAME_SIZE) ∨
    ((opcode = 0x8 ∨ opcode = 0xA) ∧ length ≤ 125)

-- The second byte of a header gives back the mask bit and the length tag.
private theorem second_byte (clientSide : Bool) (tag : Nat) (ht : tag < 128) :
    isMasked ((if clientSide then 0x80 else 0) ||| UInt8.ofNat tag) = clientSide ∧
      lengthTag ((if clientSide then 0x80 else 0) ||| UInt8.ofNat tag) = UInt8.ofNat tag := by
  have h : ∀ tag < 128, ∀ clientSide : Bool,
      isMasked ((if clientSide then 0x80 else 0) ||| UInt8.ofNat tag) = clientSide ∧
        lengthTag ((if clientSide then 0x80 else 0) ||| UInt8.ofNat tag) = UInt8.ofNat tag := by
    decide +kernel
  exact h tag ht clientSide

-- The second byte and the length behind it, by the size class of the length.
theorem frameHeader_second (clientSide : Bool) (opcode : UInt8) (length : Nat)
    (hl : length < 256 ^ 8) :
    ∃ second extended, frameHeader clientSide opcode length =
        (0x80 ||| opcode) :: second :: extended ∧
      isMasked second = clientSide ∧ extended.length = extendedLength second ∧
      ∀ rest, payloadLength second (extended ++ rest) = length := by
  by_cases hsmall : length ≤ 125
  · obtain ⟨hm, ht⟩ := second_byte clientSide length (by omega)
    have hne : ∀ tag : UInt8, 125 < tag.toNat → UInt8.ofNat length ≠ tag := by
      rintro tag h rfl
      rw [UInt8.toNat_ofNat'] at h
      omega
    have he : extendedLength ((if clientSide then 0x80 else 0) ||| UInt8.ofNat length) = 0 := by
      simp only [extendedLength, ht]
      rw [if_neg (hne 126 (by decide)), if_neg (hne 127 (by decide))]
    refine ⟨_, [], by simp only [frameHeader, hsmall, if_true], hm, by rw [he]; rfl, ?_⟩
    intro rest
    simp only [payloadLength, he, if_true, ht, UInt8.toNat_ofNat']
    omega
  by_cases hmedium : length ≤ 65535
  · obtain ⟨hm, ht⟩ := second_byte clientSide 126 (by decide)
    have he : extendedLength ((if clientSide then 0x80 else 0) ||| UInt8.ofNat 126) = 2 := by
      simp only [extendedLength, ht]
      rfl
    refine ⟨_, toBe 2 length, by simp only [frameHeader, hsmall, hmedium, if_true, if_false]; rfl,
      hm, by rw [he, toBe_length], ?_⟩
    intro rest
    simp only [payloadLength, he]
    rw [if_neg (by decide), List.take_append_of_le_length (by simp),
      List.take_of_length_le (by simp), ofBe_toBe 2 length (by omega)]
  · obtain ⟨hm, ht⟩ := second_byte clientSide 127 (by decide)
    have he : extendedLength ((if clientSide then 0x80 else 0) ||| UInt8.ofNat 127) = 8 := by
      simp only [extendedLength, ht]
      rfl
    refine ⟨_, toBe 8 length, by simp only [frameHeader, hsmall, hmedium, if_false]; rfl,
      hm, by rw [he, toBe_length], ?_⟩
    intro rest
    simp only [payloadLength, he]
    rw [if_neg (by decide), List.take_append_of_le_length (by simp),
      List.take_of_length_le (by simp), ofBe_toBe 8 length hl]

-- The first byte of a frame this side sends.
private theorem first_byte (opcode : UInt8) (ho : opcode = 0x2 ∨ opcode = 0x8 ∨ opcode = 0xA) :
    (0x80 ||| opcode) &&& 0x70 = 0 ∧ isFin (0x80 ||| opcode) = true ∧
      opcodeOf (0x80 ||| opcode) = opcode ∧ nextFragmented false true opcode = .ok false ∧
      (isControl opcode = true ↔ opcode ≠ 0x2) := by
  rcases ho with rfl | rfl | rfl <;> exact ⟨rfl, rfl, rfl, rfl, by decide⟩

-- The bytes between the length and the payload.
def maskBytes (clientSide : Bool) (mask : Mask) : Bytes :=
  if clientSide then List.ofFn mask else []

-- The payload as it goes over the wire.
def maskedPayload (clientSide : Bool) (mask : Mask) (payload : Bytes) : Bytes :=
  if clientSide then xorMask mask 0 payload else payload

theorem frameBytes_eq (clientSide : Bool) (mask : Mask) (opcode : UInt8) (payload : Bytes) :
    frameBytes clientSide mask opcode payload =
      frameHeader clientSide opcode payload.length ++ maskBytes clientSide mask ++
        maskedPayload clientSide mask payload := by
  cases clientSide <;> simp [frameBytes, maskBytes, maskedPayload]

-- The other side accepts a header as it is sent and unmasks what follows it.
theorem parseHeader_frameHeader (clientSide : Bool) (mask : Mask) (opcode : UInt8)
    (payload : Bytes) (ho : Sendable opcode payload.length) :
    ∃ frame, parseHeader (!clientSide) false
        (frameHeader clientSide opcode payload.length ++ maskBytes clientSide mask) =
          .ok (some (frame, false,
            (frameHeader clientSide opcode payload.length ++ maskBytes clientSide mask).length)) ∧
      frame.opcode = opcode ∧ frame.remaining = payload.length ∧
      xorMask frame.mask 0 (maskedPayload clientSide mask payload) = payload := by
  have hsize : payload.length ≤ MAX_WS_FRAME_SIZE := by
    rcases ho with ⟨_, h⟩ | ⟨_, h⟩
    · exact h
    · exact Nat.le_trans h (by decide)
  have hmax : MAX_WS_FRAME_SIZE < 256 ^ 8 := by decide
  obtain ⟨second, extended, he, hm, hlen, hp⟩ :=
    frameHeader_second clientSide opcode payload.length (by omega)
  obtain ⟨hreserved, hfin, hop, hnext, hcontrol⟩ := first_byte opcode
    (ho.imp And.left (fun h => h.1))
  have hheader : (frameHeader clientSide opcode payload.length ++
      maskBytes clientSide mask).length = headerLength second := by
    rw [he]
    cases clientSide <;> simp [headerLength, hm, hlen, maskBytes] <;> omega
  refine ⟨beginFrame opcode payload.length (headerMask second (extended ++ maskBytes clientSide mask)),
    (parseHeader_some _ _ _ _ _ _).mpr ⟨⟨0x80 ||| opcode, second,
      extended ++ maskBytes clientSide mask, by rw [he]; rfl, hreserved, by simp [hm], hheader,
      ?_, by rw [hfin, hop]; exact hnext, by rw [hop, hp]⟩, Nat.le_refl _, hsize⟩, rfl, rfl, ?_⟩
  · intro hc
    rw [hop] at hc
    refine ⟨hfin, ?_⟩
    rw [hp]
    rcases ho with ⟨h, _⟩ | ⟨_, h⟩
    · exact absurd h (hcontrol.mp hc)
    · exact h
  · have hmask : headerMask second (extended ++ maskBytes clientSide mask) =
        if clientSide then mask else fun _ => 0 := by
      funext index
      simp only [headerMask, hm]
      rw [← hlen, List.drop_left]
      cases clientSide with
      | false => rfl
      | true => simp [maskBytes, List.getD_eq_getElem?_getD, -List.ofFn_succ]
    change xorMask (headerMask second (extended ++ maskBytes clientSide mask)) 0 _ = payload
    rw [hmask]
    cases clientSide with
    | false => exact xorMask_zero 0 payload
    | true => exact xorMask_xorMask mask 0 payload

-- A frame that one side sends is the first the other side finds.
theorem parse_frameBytes (clientSide : Bool) (mask : Mask) {opcode : UInt8} {payload : Bytes}
    (ho : Sendable opcode payload.length) (rest : Bytes) :
    parse (!clientSide) false (frameBytes clientSide mask opcode payload ++ rest) =
      (⟨opcode, payload⟩ :: (parse (!clientSide) false rest).1,
        (parse (!clientSide) false rest).2) := by
  obtain ⟨begun, hp, hop, hlen, hx⟩ := parseHeader_frameHeader clientSide mask opcode payload ho
  have hmasked : (maskedPayload clientSide mask payload).length = begun.remaining := by
    rw [hlen]
    cases clientSide <;> simp [maskedPayload]
  rw [frameBytes_eq, parse_cons hp hmasked, hop, hx]

-- The bytes of frames one after another, each with a mask of its own.
inductive Wire (clientSide : Bool) : List WholeFrame → Bytes → Prop
  | nil : Wire clientSide [] []
  | cons (mask : Mask) (frame : WholeFrame) (frames : List WholeFrame) (bytes : Bytes)
      (hrest : Wire clientSide frames bytes) :
      Wire clientSide (frame :: frames)
        (frameBytes clientSide mask frame.opcode frame.payload ++ bytes)

theorem Wire.append {clientSide : Bool} {front back : List WholeFrame} {bytes more : Bytes}
    (hf : Wire clientSide front bytes) (hb : Wire clientSide back more) :
    Wire clientSide (front ++ back) (bytes ++ more) := by
  induction hf with
  | nil => exact hb
  | cons mask frame frames bytes hrest ih =>
      rw [List.append_assoc]
      exact .cons mask frame (frames ++ back) (bytes ++ more) ih

-- What one side puts on the wire is a stream of frames the other side accepts.
theorem Wire.accepts {clientSide : Bool} {frames : List WholeFrame} {bytes : Bytes}
    (h : Wire clientSide frames bytes)
    (hs : ∀ frame ∈ frames, Sendable frame.opcode frame.payload.length) :
    Accepts (!clientSide) false bytes frames := by
  induction h with
  | nil => exact .nil false
  | cons mask frame frames bytes hrest ih =>
      obtain ⟨hframe, htail⟩ := List.forall_mem_cons.mp hs
      obtain ⟨begun, hp, hop, hlen, hx⟩ :=
        parseHeader_frameHeader clientSide mask frame.opcode frame.payload hframe
      have hmasked : (maskedPayload clientSide mask frame.payload).length = begun.remaining := by
        rw [hlen]
        cases clientSide <;> simp [maskedPayload]
      have ha := Accepts.cons false false _ _ bytes begun frames hp hmasked (ih htail)
      rw [hop, hx] at ha
      rw [frameBytes_eq]
      exact ha

end WebSocketStream

end SingBox.Vless
