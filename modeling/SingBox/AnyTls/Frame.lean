import SingBox.Library.Async
import SingBox.Library.Reader

namespace SingBox.AnyTls

open Library

def CMD_WASTE : UInt8 := 0
def CMD_SYN : UInt8 := 1
def CMD_PSH : UInt8 := 2
def CMD_FIN : UInt8 := 3
def CMD_SETTINGS : UInt8 := 4
def CMD_ALERT : UInt8 := 5
def CMD_UPDATE_PADDING : UInt8 := 6
def CMD_SYNACK : UInt8 := 7
def CMD_HEARTBEAT_REQUEST : UInt8 := 8
def CMD_HEARTBEAT_RESPONSE : UInt8 := 9
def CMD_SERVER_SETTINGS : UInt8 := 10
def MAX_FRAME_SIZE : Nat := 65535

structure Frame where
  command : UInt8
  streamId : UInt32
  data : Bytes
deriving DecidableEq, Repr

def encodeFrame (packet : Bytes) (frame : Frame) : IoResult Bytes :=
  if frame.data.length > MAX_FRAME_SIZE then
    .error ⟨.invalidInput, "AnyTLS frame is too large"⟩
  else
    .ok (packet ++ [frame.command] ++ toBe 4 frame.streamId.toNat ++
      toBe 2 frame.data.length ++ frame.data)

def readFrame : Reader Frame := do
  let command ← Reader.u8
  let streamId ← Reader.u32
  let length ← Reader.u16
  let data ← Reader.exact length.toNat
  return { command, streamId, data }

-- The bytes of one frame on the wire.
def Frame.wire (frame : Frame) : Bytes :=
  [frame.command] ++ (toBe 4 frame.streamId.toNat ++ (toBe 2 frame.data.length ++ frame.data))

theorem encodeFrame_ok (packet : Bytes) (frame : Frame)
    (hlen : frame.data.length ≤ MAX_FRAME_SIZE) :
    encodeFrame packet frame = .ok (packet ++ frame.wire) := by
  simp [encodeFrame, Frame.wire, Nat.not_lt.mpr hlen]

theorem encodeFrame_error (packet : Bytes) (frame : Frame)
    (hlen : MAX_FRAME_SIZE < frame.data.length) :
    encodeFrame packet frame = .error ⟨.invalidInput, "AnyTLS frame is too large"⟩ := if_pos hlen

@[simp] theorem wire_length (frame : Frame) : frame.wire.length = frame.data.length + 7 := by
  simp only [Frame.wire, List.length_append, List.length_singleton, toBe_length]
  omega

-- A frame that fits its 16-bit length field is read back whole.
theorem readFrame_wire (frame : Frame) (hlen : frame.data.length ≤ MAX_FRAME_SIZE) :
    Reader.Reads readFrame frame frame.wire := by
  have hl : (UInt16.ofNat frame.data.length).toNat = frame.data.length := by
    rw [UInt16.toNat_ofNat']
    simp only [MAX_FRAME_SIZE] at hlen
    omega
  have hlength := Reader.Reads.u16 (UInt16.ofNat frame.data.length)
  have hdata := Reader.Reads.exact frame.data
  rw [hl] at hlength
  rw [← hl] at hdata
  unfold readFrame Frame.wire
  refine .bind (.u8 _) (.bind (.u32 _) (.bind hlength ?_))
  rw [← List.append_nil frame.data]
  exact .bind (by simpa using hdata) (by simpa using Reader.Reads.pure frame)

theorem readFrame_nil : readFrame [] = none := rfl

end SingBox.AnyTls
