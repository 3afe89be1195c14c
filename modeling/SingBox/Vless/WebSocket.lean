import Mathlib.Data.Fintype.Pi
import SingBox.Library.Async
import SingBox.Library.Loop
import SingBox.Library.Reader

namespace SingBox.Vless

open Library

def MAX_WS_FRAME_SIZE : Nat := 16 * 1024 * 1024
def READ_CHUNK_SIZE : Nat := 32 * 1024

-- A `[u8; 4]`. The source reduces every index into it modulo 4.
abbrev Mask := Fin 4 → UInt8

def xorMask (mask : Mask) (maskOffset : Nat) (bytes : Bytes) : Bytes :=
  bytes.mapIdx fun index byte => byte ^^^ mask (Fin.ofNat 4 (maskOffset + index))

-- The transport under the stream, as a byte pipe in each direction and the
-- answers it will give: how much it moves at each call, or that it is not ready.
inductive ReadAnswer where
  | pending
  | ready (extra : Nat)
  | failed (error : IoError)

inductive WriteAnswer where
  | pending
  | ready (extra : Nat)
  | zero
  | failed (error : IoError)

-- `incoming` is what the peer sends before it closes, as far as it has not been
-- read, `sent` what the transport has taken. `masks` are the bytes the system's
-- generator yields, `none` when it fails.
structure Environment where
  incoming : Bytes
  sent : Bytes
  reads : Nat → ReadAnswer
  writes : Nat → WriteAnswer
  masks : Nat → Option Mask

namespace Environment

-- Ready with no bytes is the end of the input: `incoming` has been used up.
def pollRead (inner : Environment) (capacity : Nat) : Poll (IoResult Bytes) × Environment :=
  let next := { inner with reads := fun n => inner.reads (n + 1) }
  match inner.reads 0 with
  | .pending => (.pending, next)
  | .ready extra =>
      let count := min (extra + 1) capacity
      (.ready (.ok (inner.incoming.take count)),
        { next with incoming := inner.incoming.drop count })
  | .failed error => (.ready (.error error), next)

def pollWrite (inner : Environment) (bytes : Bytes) : Poll (IoResult Nat) × Environment :=
  let next := { inner with writes := fun n => inner.writes (n + 1) }
  match inner.writes 0 with
  | .pending => (.pending, next)
  | .ready extra =>
      let count := min (extra + 1) bytes.length
      (.ready (.ok count), { next with sent := inner.sent ++ bytes.take count })
  | .zero => (.ready (.ok 0), next)
  | .failed error => (.ready (.error error), next)

-- `poll_flush` and `poll_shutdown` of the transport move no bytes of ours.
def pollDrained (inner : Environment) : Poll (IoResult Unit) × Environment :=
  let next := { inner with writes := fun n => inner.writes (n + 1) }
  match inner.writes 0 with
  | .pending => (.pending, next)
  | .ready _ | .zero => (.ready (.ok ()), next)
  | .failed error => (.ready (.error error), next)

def fillMask (inner : Environment) : Option Mask × Environment :=
  (inner.masks 0, { inner with masks := fun n => inner.masks (n + 1) })

-- A transport that takes what it is given, at its own pace.
def Accepting (inner : Environment) : Prop :=
  ∀ n, inner.writes n = .pending ∨ ∃ extra, inner.writes n = .ready extra

end Environment

-- A whole frame, its payload unmasked.
structure WholeFrame where
  opcode : UInt8
  payload : Bytes
deriving DecidableEq, Repr

structure WebSocketReadFrame where
  opcode : UInt8
  remaining : Nat
  mask : Mask
  maskOffset : Nat
  controlPayload : Option Bytes

-- `queued` is not in the source: it records the frames `append_frame` has
-- completed, for the theorems. No function reads it.
structure WebSocketStream where
  inner : Environment
  clientSide : Bool
  input : Bytes
  inputOffset : Nat
  earlyData : Bytes
  earlyOffset : Nat
  readFrame : Option WebSocketReadFrame
  fragmented : Bool
  readClosed : Bool
  writeBuffer : Bytes
  writeOffset : Nat
  pendingPayloadLen : Option Nat
  controlWritePending : Bool
  closeQueued : Bool
  queued : List WholeFrame

namespace WebSocketStream

def new (inner : Environment) (input earlyData : Bytes) (clientSide : Bool) : WebSocketStream :=
  { inner, clientSide, input, inputOffset := 0, earlyData, earlyOffset := 0, readFrame := none,
    fragmented := false, readClosed := false, writeBuffer := [], writeOffset := 0,
    pendingPayloadLen := none, controlWritePending := false, closeQueued := false, queued := [] }

def availableInput (this : WebSocketStream) : Bytes := this.input.drop this.inputOffset

def compactInput (this : WebSocketStream) : WebSocketStream :=
  if this.inputOffset = this.input.length then
    { this with input := [], inputOffset := 0 }
  else if this.inputOffset ≥ 32 * 1024 then
    { this with input := this.input.drop this.inputOffset, inputOffset := 0 }
  else this

def invalidWebSocketData (message : String) : IoError := ⟨.invalidData, message⟩

-- The fields of a header, from its first two bytes and the bytes after them.
def isFin (first : UInt8) : Bool := first &&& 0x80 != 0
def opcodeOf (first : UInt8) : UInt8 := first &&& 0x0f
def lengthTag (second : UInt8) : UInt8 := second &&& 0x7f
def isMasked (second : UInt8) : Bool := second &&& 0x80 != 0
def isControl (opcode : UInt8) : Bool := opcode &&& 0x08 != 0

def extendedLength (second : UInt8) : Nat :=
  if lengthTag second = 126 then 2 else if lengthTag second = 127 then 8 else 0

def headerLength (second : UInt8) : Nat :=
  2 + extendedLength second + if isMasked second then 4 else 0

def payloadLength (second : UInt8) (rest : Bytes) : Nat :=
  if extendedLength second = 0 then (lengthTag second).toNat
  else ofBe (rest.take (extendedLength second))

def headerMask (second : UInt8) (rest : Bytes) : Mask := fun index =>
  if isMasked second then (rest.drop (extendedLength second)).getD index.val 0 else 0

-- The `match` on the opcode: the new value of `fragmented`.
def nextFragmented (fragmented fin : Bool) (opcode : UInt8) : IoResult Bool :=
  if opcode = 0x0 then
    if !fragmented then .error (invalidWebSocketData "unexpected WebSocket continuation frame")
    else .ok (!fin)
  else if opcode = 0x2 then
    if fragmented then .error (invalidWebSocketData "nested WebSocket fragmented frame")
    else .ok (!fin)
  else if 0x8 ≤ opcode ∧ opcode ≤ 0xA then .ok fragmented
  else .error (invalidWebSocketData s!"unsupported WebSocket opcode: {opcode}")

-- A frame as it is begun, before any of its payload has been read.
def beginFrame (opcode : UInt8) (remaining : Nat) (mask : Mask) : WebSocketReadFrame :=
  { opcode, remaining, mask, maskOffset := 0,
    controlPayload := if isControl opcode then some [] else none }

-- The checks of `start_frame` in their order. `none` is `Ok(false)`: more input
-- is needed. Otherwise the frame, the new `fragmented` and the header's length.
def parseHeader (clientSide fragmented : Bool) (input : Bytes) :
    IoResult (Option (WebSocketReadFrame × Bool × Nat)) :=
  match input with
  | first :: second :: rest =>
      if first &&& 0x70 != 0 then
        .error (invalidWebSocketData "WebSocket reserved bits are set")
      else if isMasked second = clientSide then
        .error (invalidWebSocketData "invalid WebSocket masking direction")
      else if input.length < headerLength second then .ok none
      else if payloadLength second rest > MAX_WS_FRAME_SIZE then
        .error (invalidWebSocketData "WebSocket frame is too large")
      else if isControl (opcodeOf first) && (!isFin first || payloadLength second rest > 125) then
        .error (invalidWebSocketData "invalid WebSocket control frame")
      else
        match nextFragmented fragmented (isFin first) (opcodeOf first) with
        | .error error => .error error
        | .ok next =>
            .ok (some (beginFrame (opcodeOf first) (payloadLength second rest)
              (headerMask second rest), next, headerLength second))
  | _ => .ok none

-- `Ok(true)` comes with the frame it has put in `read_frame`.
def startFrame (this : WebSocketStream) :
    IoResult (Option (WebSocketReadFrame × WebSocketStream)) :=
  match parseHeader this.clientSide this.fragmented this.availableInput with
  | .error error => .error error
  | .ok none => .ok none
  | .ok (some (frame, fragmented, headerLength)) =>
      .ok (some (frame, { this with
        fragmented, inputOffset := this.inputOffset + headerLength, readFrame := some frame }))

def frameHeader (clientSide : Bool) (opcode : UInt8) (length : Nat) : Bytes :=
  let maskBit : UInt8 := if clientSide then 0x80 else 0
  (0x80 ||| opcode) ::
    if length ≤ 125 then [maskBit ||| UInt8.ofNat length]
    else if length ≤ 65535 then (maskBit ||| 126) :: toBe 2 length
    else (maskBit ||| 127) :: toBe 8 length

def appendFrame (this : WebSocketStream) (opcode : UInt8) (payload : Bytes) :
    IoResult Unit × WebSocketStream :=
  let this :=
    if this.writeOffset = this.writeBuffer.length then
      { this with writeBuffer := [], writeOffset := 0 }
    else this
  let this := { this with
    writeBuffer := this.writeBuffer ++ frameHeader this.clientSide opcode payload.length }
  if this.clientSide then
    let (filled, inner) := this.inner.fillMask
    let this := { this with inner }
    match filled with
    | none => (.error ⟨.other, "generate WebSocket mask"⟩, this)
    | some mask =>
        (.ok (), { this with
          writeBuffer := this.writeBuffer ++ List.ofFn mask ++ xorMask mask 0 payload
          queued := this.queued ++ [⟨opcode, payload⟩] })
  else
    (.ok (), { this with
      writeBuffer := this.writeBuffer ++ payload
      queued := this.queued ++ [⟨opcode, payload⟩] })

-- `frame` is what `read_frame.take()` yields.
def finishReadFrame (this : WebSocketStream) (frame : WebSocketReadFrame) :
    IoResult Unit × WebSocketStream :=
  let this := { this with readFrame := none }
  if frame.opcode = 0x8 then
    match this.appendFrame 0x8 (frame.controlPayload.getD []) with
    | (.error error, this) => (.error error, this)
    | (.ok (), this) =>
        (.ok (), { this with controlWritePending := true, closeQueued := true, readClosed := true })
  else if frame.opcode = 0x9 then
    match this.appendFrame 0xA (frame.controlPayload.getD []) with
    | (.error error, this) => (.error error, this)
    | (.ok (), this) => (.ok (), { this with controlWritePending := true })
  else (.ok (), this)

def pollFillInput (this : WebSocketStream) : Poll (IoResult Bool) × WebSocketStream :=
  let this := this.compactInput
  match this.inner.pollRead READ_CHUNK_SIZE with
  | (.ready (.ok filled), inner) =>
      if filled = [] then (.ready (.ok false), { this with inner })
      else (.ready (.ok true), { this with inner, input := this.input ++ filled })
  | (.ready (.error error), inner) => (.ready (.error error), { this with inner })
  | (.pending, inner) => (.pending, { this with inner })

end WebSocketStream

end SingBox.Vless
