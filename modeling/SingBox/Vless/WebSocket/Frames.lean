import SingBox.Vless.WebSocket.Input

namespace SingBox.Vless

open Library

-- The application bytes a frame carries: a control frame carries none.
def WholeFrame.data (frame : WholeFrame) : Bytes :=
  if WebSocketStream.isControl frame.opcode then [] else frame.payload

-- Where a byte stream stops being whole frames.
inductive Ending where
  | clean
  | truncatedHeader
  | truncatedPayload (opcode : UInt8) (received : Bytes)
  | refused (error : IoError)
deriving DecidableEq, Repr

theorem xorMask_append (mask : Mask) (offset : Nat) (front back : Bytes) :
    xorMask mask offset (front ++ back) =
      xorMask mask offset front ++ xorMask mask (offset + front.length) back := by
  simp only [xorMask, List.mapIdx_append]
  congr 1
  apply List.ext_getElem (by simp)
  intro i _ _
  simp only [List.getElem_mapIdx]
  congr 2
  rw [Nat.add_assoc, Nat.add_comm i]

@[simp] theorem xorMask_length (mask : Mask) (offset : Nat) (bytes : Bytes) :
    (xorMask mask offset bytes).length = bytes.length := by simp [xorMask]

@[simp] theorem xorMask_nil (mask : Mask) (offset : Nat) : xorMask mask offset [] = [] := rfl

-- The stream keeps the offset modulo 4.
theorem xorMask_mod (mask : Mask) (offset : Nat) (bytes : Bytes) :
    xorMask mask (offset % 4) bytes = xorMask mask offset bytes := by
  apply List.ext_getElem (by simp)
  intro i _ _
  simp only [xorMask, List.getElem_mapIdx]
  congr 2
  apply Fin.ext
  simp only [Fin.ofNat, Nat.mod_add_mod]

-- Masking twice gives the bytes back.
theorem xorMask_xorMask (mask : Mask) (offset : Nat) (bytes : Bytes) :
    xorMask mask offset (xorMask mask offset bytes) = bytes := by
  apply List.ext_getElem (by simp)
  intro i _ _
  simp [xorMask, UInt8.xor_assoc]

theorem xorMask_zero (offset : Nat) (bytes : Bytes) : xorMask (fun _ => 0) offset bytes = bytes := by
  apply List.ext_getElem (by simp)
  intro i _ _
  simp [xorMask]

-- A frame after `bytes` of its payload.
def WebSocketReadFrame.advance (frame : WebSocketReadFrame) (bytes : Bytes) : WebSocketReadFrame :=
  { frame with
    remaining := frame.remaining - bytes.length
    maskOffset := (frame.maskOffset + bytes.length) % 4
    controlPayload := frame.controlPayload.map (· ++ xorMask frame.mask frame.maskOffset bytes) }

namespace WebSocketStream

-- The frames of a byte stream as `start_frame` accepts them, and its ending.
def parse (clientSide fragmented : Bool) (bytes : Bytes) : List WholeFrame × Ending :=
  match _he : parseHeader clientSide fragmented bytes with
  | .error error => ([], .refused error)
  | .ok none => ([], if bytes = [] then .clean else .truncatedHeader)
  | .ok (some (frame, next, length)) =>
      let payload := bytes.drop length
      if payload.length < frame.remaining then
        ([], .truncatedPayload frame.opcode (xorMask frame.mask 0 payload))
      else
        let (frames, ending) := parse clientSide next (payload.drop frame.remaining)
        (⟨frame.opcode, xorMask frame.mask 0 (payload.take frame.remaining)⟩ :: frames, ending)
termination_by bytes.length
decreasing_by
  have hh := (parseHeader_some _ _ _ _ _ _).mp _he
  have := hh.two_le
  have := hh.length_le
  simp only [List.length_drop]
  omega

-- What a reader gets out of frames: the data up to the first Close, and then
-- the end of the stream or the error its ending causes.
def deliver : List WholeFrame → Ending → Bytes × IoResult Unit
  | [], .clean => ([], .ok ())
  | [], .truncatedHeader =>
      ([], .error ⟨.unexpectedEof, "truncated WebSocket frame header"⟩)
  | [], .truncatedPayload opcode received =>
      (if isControl opcode then [] else received,
        .error ⟨.unexpectedEof, "truncated WebSocket frame payload"⟩)
  | [], .refused error => ([], .error error)
  | frame :: frames, ending =>
      if frame.opcode = 0x8 then ([], .ok ())
      else (frame.data ++ (deliver frames ending).1, (deliver frames ending).2)

-- The same from the middle of a frame, of which `kept` has been unmasked.
def continueFrom (clientSide fragmented : Bool) (frame : WebSocketReadFrame) (kept bytes : Bytes) :
    List WholeFrame × Ending :=
  if bytes.length < frame.remaining then
    ([], .truncatedPayload frame.opcode (kept ++ xorMask frame.mask frame.maskOffset bytes))
  else
    let (frames, ending) := parse clientSide fragmented (bytes.drop frame.remaining)
    (⟨frame.opcode, kept ++ xorMask frame.mask frame.maskOffset (bytes.take frame.remaining)⟩ ::
      frames, ending)

-- The stream keeps what it has unmasked of control frames only.
def continueFrame (clientSide fragmented : Bool) (frame : WebSocketReadFrame) (bytes : Bytes) :
    List WholeFrame × Ending :=
  continueFrom clientSide fragmented frame (frame.controlPayload.getD []) bytes

-- Where a payload is cut does not matter: the mask goes on where it was.
theorem continueFrom_take (clientSide fragmented : Bool) (frame : WebSocketReadFrame)
    (kept front back : Bytes) (hle : front.length ≤ frame.remaining) :
    continueFrom clientSide fragmented (frame.advance front)
      (kept ++ xorMask frame.mask frame.maskOffset front) back =
        continueFrom clientSide fragmented frame kept (front ++ back) := by
  have hlen : back.length < frame.remaining - front.length ↔
      (front ++ back).length < frame.remaining := by
    rw [List.length_append]
    omega
  have hdrop : (front ++ back).drop frame.remaining = back.drop (frame.remaining - front.length) := by
    rw [List.drop_append, List.drop_of_length_le hle, List.nil_append]
  have htake : (front ++ back).take frame.remaining =
      front ++ back.take (frame.remaining - front.length) := by
    rw [List.take_append, List.take_of_length_le hle]
  simp only [continueFrom, WebSocketReadFrame.advance, hlen, hdrop, htake, xorMask_mod,
    xorMask_append, List.append_assoc]

-- Of a data frame the bytes already kept come out first.
theorem deliver_continueFrom (clientSide fragmented : Bool) (frame : WebSocketReadFrame)
    (kept bytes : Bytes) (hd : isControl frame.opcode = false) :
    deliver (continueFrom clientSide fragmented frame kept bytes).1
        (continueFrom clientSide fragmented frame kept bytes).2 =
      (kept ++ (deliver (continueFrom clientSide fragmented frame [] bytes).1
          (continueFrom clientSide fragmented frame [] bytes).2).1,
        (deliver (continueFrom clientSide fragmented frame [] bytes).1
          (continueFrom clientSide fragmented frame [] bytes).2).2) := by
  have hne : frame.opcode ≠ 0x8 := by
    intro he
    simp [he, isControl] at hd
  unfold continueFrom
  split
  · simp [deliver, hd]
  · simp [deliver, hne, WholeFrame.data, hd]

theorem beginFrame_kept (opcode : UInt8) (remaining : Nat) (mask : Mask) :
    (beginFrame opcode remaining mask).controlPayload.getD [] = [] := by
  unfold beginFrame
  split <;> rfl

theorem Header.kept {clientSide fragmented : Bool} {input : Bytes} {frame : WebSocketReadFrame}
    {next : Bool} {length : Nat} (h : Header clientSide fragmented input frame next length) :
    frame.controlPayload.getD [] = [] ∧ frame.maskOffset = 0 ∧
      frame.controlPayload.isSome = isControl frame.opcode := by
  obtain ⟨⟨_, _, _, _, _, _, _, _, _, rfl⟩, _, _⟩ := h
  refine ⟨beginFrame_kept _ _ _, rfl, ?_⟩
  unfold beginFrame
  split <;> simp_all

theorem parse_header (clientSide fragmented : Bool) (bytes : Bytes) (frame : WebSocketReadFrame)
    (next : Bool) (length : Nat) (h : Header clientSide fragmented bytes frame next length) :
    parse clientSide fragmented bytes =
      continueFrame clientSide next frame (bytes.drop length) := by
  obtain ⟨hk, hm, -⟩ := h.kept
  have he := (parseHeader_some _ _ _ _ _ _).mpr h
  rw [parse]
  split
  · rename_i heq; simp [he] at heq
  · rename_i heq; simp [he] at heq
  · rename_i heq
    obtain ⟨rfl, rfl, rfl⟩ : _ ∧ _ ∧ _ := by simpa [he] using heq
    simp only [continueFrame, continueFrom, hk, hm, List.nil_append]

theorem parse_none (clientSide fragmented : Bool) (bytes : Bytes)
    (he : parseHeader clientSide fragmented bytes = .ok none) :
    parse clientSide fragmented bytes =
      ([], if bytes = [] then .clean else .truncatedHeader) := by
  rw [parse]
  split
  · rename_i heq; simp [he] at heq
  · rfl
  · rename_i heq; simp [he] at heq

theorem parse_error (clientSide fragmented : Bool) (bytes : Bytes) (error : IoError)
    (he : parseHeader clientSide fragmented bytes = .error error) :
    parse clientSide fragmented bytes = ([], .refused error) := by
  rw [parse]
  split
  · rename_i heq
    obtain rfl : error = _ := by simpa [he] using heq
    rfl
  · rename_i heq; simp [he] at heq
  · rename_i heq; simp [he] at heq

theorem parse_nil (clientSide fragmented : Bool) :
    parse clientSide fragmented [] = ([], .clean) := parse_none _ _ _ rfl

-- What `poll_read` depends on: the frame it is in, whether a message is open
-- and whether it has ended, and every byte it has not read yet.
structure ReadView where
  frame : Option WebSocketReadFrame
  fragmented : Bool
  closed : Bool
  unread : Bytes

def view (this : WebSocketStream) : ReadView :=
  ⟨this.readFrame, this.fragmented, this.readClosed, this.unread⟩

namespace ReadView

-- The frames the stream still holds, the one in progress first.
def frames (clientSide : Bool) (view : ReadView) : List WholeFrame × Ending :=
  match view.frame with
  | some frame => continueFrame clientSide view.fragmented frame view.unread
  | none => parse clientSide view.fragmented view.unread

-- All that is still to be delivered, however it will be cut up.
def expected (clientSide : Bool) (view : ReadView) : Bytes × IoResult Unit :=
  if view.closed then ([], .ok ())
  else deliver (view.frames clientSide).1 (view.frames clientSide).2

-- `view` with a frame open: the one it is in, or the next one begun.
inductive Opens (clientSide : Bool) (view : ReadView) : WebSocketReadFrame → ReadView → Prop
  | already (frame : WebSocketReadFrame) (hf : view.frame = some frame) :
      Opens clientSide view frame view
  | begun (frame : WebSocketReadFrame) (next : Bool) (length : Nat) (hn : view.frame = none)
      (hh : Header clientSide view.fragmented view.unread frame next length) :
      Opens clientSide view frame
        { view with frame := some frame, fragmented := next, unread := view.unread.drop length }

-- A frame in progress keeps its payload exactly when it is a control frame.
def Sound (view : ReadView) : Prop :=
  ∀ frame, view.frame = some frame → frame.controlPayload.isSome = isControl frame.opcode

theorem Opens.sound {clientSide : Bool} {view opened : ReadView} {frame : WebSocketReadFrame}
    (h : Opens clientSide view frame opened) (hs : view.Sound) :
    frame.controlPayload.isSome = isControl frame.opcode ∧ opened.frame = some frame ∧
      opened.closed = view.closed ∧ opened.Sound := by
  cases h with
  | already hf => exact ⟨hs frame hf, hf, rfl, hs⟩
  | begun next length hn hh =>
      refine ⟨hh.kept.2.2, rfl, rfl, ?_⟩
      intro other ho
      obtain rfl := Option.some.inj ho
      exact hh.kept.2.2

theorem Opens.frames {clientSide : Bool} {view opened : ReadView} {frame : WebSocketReadFrame}
    (h : Opens clientSide view frame opened) :
    opened.frames clientSide = view.frames clientSide := by
  cases h with
  | already _ => rfl
  | begun next length hn hh =>
      simp only [ReadView.frames, hn, parse_header _ _ _ _ _ _ hh]

theorem Opens.expected {clientSide : Bool} {view opened : ReadView} {frame : WebSocketReadFrame}
    (h : Opens clientSide view frame opened) :
    opened.expected clientSide = view.expected clientSide := by
  have hc : opened.closed = view.closed := by cases h <;> rfl
  simp only [ReadView.expected, hc, h.frames]

-- After the last byte of a frame.
def finish (view : ReadView) (frame : WebSocketReadFrame) : ReadView :=
  { view with frame := none, closed := view.closed || frame.opcode == 0x8 }

-- A whole frame stands at the front of what is still to come.
theorem frames_finish (clientSide : Bool) (view : ReadView) (frame : WebSocketReadFrame)
    (hf : view.frame = some frame) (hr : frame.remaining = 0) :
    view.frames clientSide =
      (⟨frame.opcode, frame.controlPayload.getD []⟩ :: ((view.finish frame).frames clientSide).1,
        ((view.finish frame).frames clientSide).2) := by
  simp [ReadView.frames, hf, finish, continueFrame, continueFrom, hr]

theorem expected_finish (clientSide : Bool) (view : ReadView) (frame : WebSocketReadFrame)
    (hs : view.Sound) (hf : view.frame = some frame) (hr : frame.remaining = 0)
    (ho : view.closed = false) :
    (view.finish frame).expected clientSide = view.expected clientSide := by
  have hkept : (⟨frame.opcode, frame.controlPayload.getD []⟩ : WholeFrame).data = [] := by
    simp only [WholeFrame.data, ← hs frame hf]
    cases frame.controlPayload <;> simp
  simp only [expected, ho, frames_finish clientSide view frame hf hr, deliver, hkept]
  by_cases hc : frame.opcode = 0x8 <;> simp [finish, ho, hc]

-- After `count` bytes of the payload in progress.
def take (view : ReadView) (frame : WebSocketReadFrame) (count : Nat) : ReadView :=
  { view with
    frame := some (frame.advance (view.unread.take count)), unread := view.unread.drop count }

theorem sound_take (view : ReadView) (frame : WebSocketReadFrame) (count : Nat)
    (hs : frame.controlPayload.isSome = isControl frame.opcode) :
    (view.take frame count).Sound := by
  intro other ho
  obtain rfl := Option.some.inj ho
  simpa [WebSocketReadFrame.advance] using hs

theorem frames_take (clientSide : Bool) (view : ReadView) (frame : WebSocketReadFrame)
    (count : Nat) (hf : view.frame = some frame) (hc : count ≤ frame.remaining) :
    continueFrom clientSide view.fragmented (frame.advance (view.unread.take count))
      (frame.controlPayload.getD [] ++ xorMask frame.mask frame.maskOffset (view.unread.take count))
      (view.unread.drop count) = view.frames clientSide := by
  have hle : (view.unread.take count).length ≤ frame.remaining := by
    rw [List.length_take]
    omega
  rw [continueFrom_take clientSide view.fragmented frame _ _ _ hle, List.take_append_drop]
  simp only [ReadView.frames, hf, continueFrame]

theorem frames_take_control (clientSide : Bool) (view : ReadView) (frame : WebSocketReadFrame)
    (count : Nat) (hf : view.frame = some frame) (hc : count ≤ frame.remaining)
    (hs : frame.controlPayload.isSome) :
    (view.take frame count).frames clientSide = view.frames clientSide := by
  obtain ⟨kept, hk⟩ := Option.isSome_iff_exists.mp hs
  rw [← frames_take clientSide view frame count hf hc]
  simp [take, ReadView.frames, continueFrame, WebSocketReadFrame.advance, hk]

-- Of a data frame the bytes taken are the next ones to be delivered.
theorem expected_take (clientSide : Bool) (view : ReadView) (frame : WebSocketReadFrame)
    (count : Nat) (hf : view.frame = some frame) (hc : count ≤ frame.remaining)
    (hs : view.Sound) (hd : frame.controlPayload = none) (ho : view.closed = false) :
    view.expected clientSide =
      (xorMask frame.mask frame.maskOffset (view.unread.take count) ++
        ((view.take frame count).expected clientSide).1,
        ((view.take frame count).expected clientSide).2) := by
  have hdata : isControl frame.opcode = false := by
    rw [← hs frame hf, hd]
    rfl
  have hkept : (frame.advance (view.unread.take count)).controlPayload = none := by
    simp [WebSocketReadFrame.advance, hd]
  have h := frames_take clientSide view frame count hf hc
  rw [hd, Option.getD_none, List.nil_append] at h
  simp only [ReadView.expected, ho, take, Bool.false_eq_true, if_false]
  rw [← h, deliver_continueFrom _ _ _ _ _ (by simpa [WebSocketReadFrame.advance] using hdata)]
  simp only [ReadView.frames, continueFrame, hkept, Option.getD_none]

end ReadView

end WebSocketStream

end SingBox.Vless
