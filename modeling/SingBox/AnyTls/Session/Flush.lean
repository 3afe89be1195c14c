import SingBox.AnyTls.Session
import SingBox.Library.Run

namespace SingBox.AnyTls

open Library

-- `mpsc::channel::<Frame>(64)`.
def FRAMES_CAPACITY : Nat := 64

namespace Accepted

-- The task around `handle_server_stream`: it reads the address and connects, sends
-- a CMD_SYNACK, relays, and behind its `select!` takes the stream out of the map and
-- sends a CMD_FIN. `refusal` is the text of the error `connect` returned.
inductive StreamTask where
  | connecting
  | announcing (refusal : Option Bytes)
  | relaying
  | removing
  | finishing
  | ended
deriving DecidableEq, Repr

-- The task that reads what was relayed. `sending` waits for room in the channel.
inductive Pump where
  | reading
  | sending (data : Bytes)
  | removing
  | finishing
  | ended
deriving DecidableEq, Repr

-- A frame in the channel of the session writer. `own` tells the frames of the
-- stream's own tasks from those of the rest of the session.
structure Queued where
  own : Bool
  frame : Frame
deriving DecidableEq, Repr

def Queued.isFin (queued : Queued) : Bool := queued.own && queued.frame.command = CMD_FIN

def Queued.payload (queued : Queued) : Bytes :=
  if queued.own = true ∧ queued.frame.command = CMD_PSH then queued.frame.data else []

def HasFin (frames : List Queued) : Prop := ∃ queued ∈ frames, queued.isFin = true

-- What the CMD_PSH frames of the stream carry that stand before its first CMD_FIN.
def beforeFin (frames : List Queued) : Bytes :=
  (frames.takeWhile fun queued => !queued.isFin).flatMap Queued.payload

end Accepted

open Accepted in
-- A stream a server has accepted, with the direction from `Router::relay` to the
-- client. `closed` tells that its local end has been shut down or dropped. The last
-- three fields are not in the source: what `relay` has written, whether
-- `handle_server_stream` has returned, and whether a CMD_FIN came from the client.
structure Accepted where
  id : UInt32
  registered : Bool
  cancelled : Bool
  duplex : Bytes
  closed : Bool
  task : StreamTask
  pump : Pump
  channel : List Queued
  emitted : List Queued
  writerEnded : Bool
  written : Bytes
  returned : Bool
  finReceived : Bool
deriving DecidableEq, Repr

namespace Accepted

def new (id : UInt32) : Accepted :=
  { id, registered := true, cancelled := false, duplex := [], closed := false, task := .connecting,
    pump := .reading, channel := [], emitted := [], writerEnded := false, written := [],
    returned := false, finReceived := false }

inductive Action where
  | connected
  | refused (error : Bytes)
  | failed
  | announce
  | write (data : Bytes)
  | shutdown
  | relayed (succeeds : Bool)
  | cancelled
  | remove
  | finish
  | read
  | readEnd
  | leave
  | push
  | pumpRemove
  | pumpFinish
  -- another sender of the channel, and the session writer
  | other (frame : Frame)
  | emit
  | endWriter
  -- the session's token, a CMD_FIN of the client, and a task of an earlier stream
  -- with the same id
  | cancel
  | receiveFin
  | displace
deriving DecidableEq, Repr

def enqueued (state : Accepted) (queued : Queued) : Accepted :=
  { state with channel := state.channel ++ [queued] }

-- `tx.send`: it fails where the session writer has gone, and waits while there is
-- no room.
def send (state : Accepted) (own : Bool) (frame : Frame) : Option Accepted :=
  if state.writerEnded then some state
  else if state.channel.length < FRAMES_CAPACITY then
    some (state.enqueued ⟨own, frame⟩)
  else none

-- `streams.remove(&id)` and, where it was there, `cancel` on its token.
def removed (state : Accepted) : Accepted :=
  if state.registered then { state with registered := false, cancelled := true } else state

-- `handle_server_stream` returns, and its end of the duplex is dropped.
def afterReturn (state : Accepted) : Accepted :=
  { state with task := .removing, closed := true, returned := true }

def step (state : Accepted) : Action → Option Accepted
  | .connected =>
      if state.task = .connecting then some { state with task := .announcing none } else none
  | .refused error =>
      if state.task = .connecting then some { state with task := .announcing (some error) } else none
  | .failed => if state.task = .connecting then some state.afterReturn else none
  | .announce =>
      match state.task with
      | .announcing none =>
          (state.send true ⟨CMD_SYNACK, state.id, []⟩).map fun sent =>
            { sent with task := .relaying }
      | .announcing (some error) =>
          (state.send true ⟨CMD_SYNACK, state.id, error⟩).map afterReturn
      | _ => none
  -- whether anyone still holds the other end of the duplex is left open
  | .write data =>
      if state.task = .relaying ∧ state.closed = false ∧ data ≠ [] ∧
          state.duplex.length + data.length ≤ DUPLEX_CAPACITY then
        some { state with
          duplex := state.duplex ++ data
          written := state.written ++ data }
      else none
  | .shutdown => if state.task = .relaying then some { state with closed := true } else none
  -- `copy_bidirectional` fails at any time, and succeeds once it has shut this end
  -- down and read the end of what the client sends, whose sender the map holds
  | .relayed succeeds =>
      if state.task = .relaying ∧
          (succeeds = true → state.closed = true ∧ state.registered = false) then
        some state.afterReturn
      else none
  | .cancelled =>
      match state.task with
      | .connecting | .announcing _ | .relaying =>
          if state.cancelled then some { state with task := .removing, closed := true } else none
      | _ => none
  | .remove =>
      if state.task = .removing then some { state.removed with task := .finishing } else none
  | .finish =>
      if state.task = .finishing then
        (state.send true ⟨CMD_FIN, state.id, []⟩).map fun sent => { sent with task := .ended }
      else none
  | .read =>
      if state.pump = .reading ∧ state.duplex ≠ [] then
        some { state with
          duplex := state.duplex.drop MAX_FRAME_SIZE
          pump := .sending (state.duplex.take MAX_FRAME_SIZE) }
      else none
  | .readEnd =>
      if state.pump = .reading ∧ state.duplex = [] ∧ state.closed = true then
        some { state with pump := .removing }
      else none
  | .leave =>
      if state.pump = .reading ∧ state.cancelled = true then some { state with pump := .removing }
      else none
  | .push =>
      match state.pump with
      | .sending data =>
          (state.send true ⟨CMD_PSH, state.id, data⟩).map fun sent =>
            { sent with pump := if state.writerEnded then .removing else .reading }
      | _ => none
  | .pumpRemove =>
      if state.pump = .removing then some { state.removed with pump := .finishing } else none
  | .pumpFinish =>
      if state.pump = .finishing then
        (state.send true ⟨CMD_FIN, state.id, []⟩).map fun sent => { sent with pump := .ended }
      else none
  | .other frame => state.send false frame
  | .emit =>
      match state.channel with
      | queued :: rest => some { state with channel := rest, emitted := state.emitted ++ [queued] }
      | [] => none
  | .endWriter => some { state with writerEnded := true, channel := [] }
  | .cancel => some { state with cancelled := true }
  | .receiveFin => some { state.removed with finReceived := true }
  | .displace => some state.removed

-- What was relayed before `handle_server_stream` returned has gone out before a
-- CMD_FIN has, unless the client was first with a CMD_FIN.
def Flushed (state : Accepted) : Prop :=
  state.finReceived = false → state.returned = true →
    HasFin state.emitted → beforeFin state.emitted = state.written

-- The relay fails with a byte in the duplex, and its task sends the CMD_FIN before
-- the pump has read that byte.
def failing : List Action :=
  [.connected, .announce, .write [1], .relayed false, .remove, .finish, .emit, .emit]

theorem not_flushed :
    ¬∀ (id : UInt32) (actions : List Action) (final : Accepted),
      Run.exec step (new id) actions = some final → final.Flushed := by
  intro h
  have hf := h 1 failing _ rfl rfl rfl ⟨⟨true, ⟨CMD_FIN, 1, []⟩⟩, by decide, by decide⟩
  revert hf
  decide

-- The task is in its `select!`, and before its first byte.
def StreamTask.Runs : StreamTask → Prop
  | .connecting | .announcing _ | .relaying => True
  | _ => False

def StreamTask.Early : StreamTask → Prop
  | .connecting | .announcing _ => True
  | _ => False

-- What the pump has read and not sent, and that it has left its loop.
def Pump.held : Pump → Bytes
  | .sending data => data
  | _ => []

def Pump.Left : Pump → Prop
  | .removing | .finishing | .ended => True
  | _ => False

-- The client has sent no CMD_FIN, and one of this side has gone out or still can.
def Exposed (state : Accepted) : Prop :=
  state.finReceived = false ∧ (state.writerEnded = true → HasFin state.emitted)

-- Three steps can leave bytes behind: the relay returns when the pump has left its
-- loop, the pump leaves it on its token when the relay has returned, and the relay's
-- task sends its CMD_FIN before the pump has read to the end.
def Drains (state : Accepted) : Action → Prop
  | .relayed _ => state.Exposed → state.pump.Left → state.duplex = []
  | .leave => state.Exposed → state.returned = true → state.duplex = []
  | .finish => state.Exposed → state.returned = true → state.duplex = [] ∧ state.pump.held = []
  | _ => True

theorem hasFin_append {frames more : List Queued} :
    HasFin (frames ++ more) ↔ HasFin frames ∨ HasFin more := by
  simp [HasFin, or_and_right, exists_or]

theorem beforeFin_append {frames : List Queued} (more : List Queued) (h : HasFin frames) :
    beforeFin (frames ++ more) = beforeFin frames := by
  induction frames with
  | nil =>
      obtain ⟨queued, hq, _⟩ := h
      cases hq
  | cons first rest ih =>
      cases hfirst : first.isFin with
      | true => simp [beforeFin, hfirst]
      | false =>
          have hrest : HasFin rest := by simpa [HasFin, hfirst] using h
          have he := ih hrest
          simp only [beforeFin] at he
          simp [beforeFin, hfirst, he]

theorem takeWhile_of_not_hasFin {frames : List Queued} (more : List Queued) (h : ¬HasFin frames) :
    (frames ++ more).takeWhile (fun queued => !queued.isFin) =
      frames ++ more.takeWhile fun queued => !queued.isFin := by
  refine List.takeWhile_append_of_pos fun queued hq => ?_
  cases hfin : queued.isFin with
  | true => exact absurd ⟨queued, hq, hfin⟩ h
  | false => rfl

theorem beforeFin_concat_fin {frames : List Queued} {queued : Queued} (h : ¬HasFin frames)
    (hfin : queued.isFin = true) :
    beforeFin (frames ++ [queued]) = frames.flatMap Queued.payload := by
  rw [beforeFin, takeWhile_of_not_hasFin _ h]
  simp [hfin]

-- The frames that have been given to the session writer.
def sent (state : Accepted) : List Queued := state.emitted ++ state.channel

-- Nothing is lost while the writer is there, and once a CMD_FIN is among the frames
-- the bytes before it are all that the relay has written.
structure Kept (state : Accepted) : Prop where
  ended : state.writerEnded = true → state.channel = []
  early : state.task.Early → state.duplex = []
  running : state.returned = true → ¬state.task.Runs
  exact : state.writerEnded = false →
    state.sent.flatMap Queued.payload ++ (state.pump.held ++ state.duplex) = state.written
  left : state.pump.Left → state.returned = true → state.Exposed → state.duplex = []
  fin : HasFin state.sent → state.finReceived = false → state.task.Runs ∨ state.returned = true →
    beforeFin state.sent ++ state.duplex = state.written ∧ state.pump.held = [] ∧
      (state.returned = true → state.duplex = []) ∧ (state.task.Runs → state.pump.Left)

theorem kept_new (id : UInt32) : (new id).Kept where
  ended := by simp [new]
  early := by simp [new]
  running := by simp [new]
  exact := by simp [new, sent, Pump.held]
  left := by simp [new]
  fin := by simp [new, sent, HasFin]

-- The states differ in nothing that carries bytes, and the task runs on at most.
structure Alike (state next : Accepted) : Prop where
  channel : next.channel = state.channel
  emitted : next.emitted = state.emitted
  writerEnded : next.writerEnded = state.writerEnded
  duplex : next.duplex = state.duplex
  written : next.written = state.written
  returned : next.returned = state.returned
  finReceived : next.finReceived = state.finReceived
  held : next.pump.held = state.pump.held
  left : next.pump.Left ↔ state.pump.Left
  early : next.task.Early → state.task.Early
  runs : next.task.Runs → state.task.Runs

theorem Alike.sent {state next : Accepted} (h : state.Alike next) : next.sent = state.sent := by
  rw [Accepted.sent, Accepted.sent, h.emitted, h.channel]

theorem Alike.exposed {state next : Accepted} (h : state.Alike next) :
    next.Exposed ↔ state.Exposed := by
  rw [Exposed, Exposed, h.finReceived, h.writerEnded, h.emitted]

theorem Kept.alike {state next : Accepted} (h : state.Kept) (ha : state.Alike next) :
    next.Kept where
  ended he := ha.channel ▸ h.ended (ha.writerEnded ▸ he)
  early he := ha.duplex ▸ h.early (ha.early he)
  running hr := fun hruns => h.running (ha.returned ▸ hr) (ha.runs hruns)
  exact he := by
    rw [ha.sent, ha.held, ha.duplex, ha.written]
    exact h.exact (ha.writerEnded ▸ he)
  left hl hr he := ha.duplex ▸ h.left (ha.left.mp hl) (ha.returned ▸ hr) (ha.exposed.mp he)
  fin hf hn hr := by
    rw [ha.sent] at hf ⊢
    rw [ha.duplex, ha.written, ha.held, ha.returned, ha.left]
    rw [ha.returned] at hr
    obtain ⟨heq, hheld, hdone, hruns⟩ := h.fin hf (ha.finReceived ▸ hn) (hr.imp_left ha.runs)
    exact ⟨heq, hheld, hdone, fun hrun => hruns (ha.runs hrun)⟩

@[simp] theorem enqueued_sent (state : Accepted) (queued : Queued) :
    (state.enqueued queued).sent = state.sent ++ [queued] :=
  (List.append_assoc _ _ _).symm

-- What `send` leaves behind.
theorem send_cases {state next : Accepted} {own : Bool} {frame : Frame}
    (h : state.send own frame = some next) :
    (state.writerEnded = true ∧ next = state) ∨
      (state.writerEnded = false ∧ next = state.enqueued ⟨own, frame⟩) := by
  unfold send at h
  split at h
  · rename_i hended
    exact .inl ⟨hended, (Option.some.inj h).symm⟩
  · rename_i hended
    split at h
    · exact .inr ⟨by simpa using hended, (Option.some.inj h).symm⟩
    · cases h

-- A frame that is neither payload nor an end.
theorem Kept.sendQuiet {state next : Accepted} {own : Bool} {frame : Frame} (h : state.Kept)
    (hs : state.send own frame = some next) (hfin : Queued.isFin ⟨own, frame⟩ = false)
    (hpayload : Queued.payload ⟨own, frame⟩ = []) : next.Kept := by
  obtain ⟨_, rfl⟩ | ⟨hopen, rfl⟩ := send_cases hs
  · exact h
  · have hlast : ¬HasFin [⟨own, frame⟩] := by simp [HasFin, hfin]
    refine ⟨fun he => ?_, h.early, h.running, fun he => ?_, h.left, fun hf hn hr => ?_⟩
    · exact absurd (hopen.symm.trans he) (by simp)
    · rw [enqueued_sent, List.flatMap_append, List.flatMap_singleton, hpayload, List.append_nil]
      exact h.exact he
    · rw [enqueued_sent] at hf ⊢
      have hbefore := (hasFin_append.mp hf).resolve_right hlast
      rw [beforeFin_append _ hbefore]
      exact h.fin hbefore hn hr

-- `handle_server_stream` returns.
theorem Kept.afterReturn {state : Accepted} (h : state.Kept) (hruns : state.task.Runs)
    (hdrained : state.Exposed → state.pump.Left → state.duplex = []) : state.afterReturn.Kept where
  ended := h.ended
  early he := he.elim
  running _ hr := hr.elim
  exact := h.exact
  left hl _ he := hdrained he hl
  fin hf hn _ := by
    obtain ⟨heq, hheld, _, hleft⟩ := h.fin hf hn (.inl hruns)
    have hexposed : state.Exposed := by
      refine ⟨hn, fun he => ?_⟩
      have hf : HasFin (state.emitted ++ state.channel) := hf
      rwa [h.ended he, List.append_nil] at hf
    exact ⟨heq, hheld, fun _ => hdrained hexposed (hleft hruns), fun hr => hr.elim⟩

theorem Kept.write {state : Accepted} (data : Bytes) (h : state.Kept)
    (htask : state.task = .relaying) :
    Kept { state with duplex := state.duplex ++ data, written := state.written ++ data } := by
  have hruns : state.task.Runs := htask ▸ trivial
  have hreturned : state.returned ≠ true := fun hr => h.running hr hruns
  refine ⟨h.ended, fun he => ?_, h.running, fun he => ?_, fun _ hr => absurd hr hreturned,
    fun hf hn hr => ?_⟩
  · simp [htask, StreamTask.Early] at he
  · have hexact := h.exact he
    simp only [← hexact, List.append_assoc]
    rfl
  · obtain ⟨heq, hheld, _, hleft⟩ := h.fin hf hn hr
    refine ⟨?_, hheld, fun hr => absurd hr hreturned, hleft⟩
    simp only [← heq, List.append_assoc]
    rfl

-- The steps of the pump.
theorem Kept.read {state : Accepted} (h : state.Kept) (hpump : state.pump = .reading)
    (hfull : state.duplex ≠ []) :
    Kept { state with
      duplex := state.duplex.drop MAX_FRAME_SIZE
      pump := .sending (state.duplex.take MAX_FRAME_SIZE) } := by
  refine ⟨h.ended, fun he => ?_, h.running, fun he => ?_, fun hl => hl.elim, fun hf hn hr => ?_⟩
  · exact absurd (h.early he) hfull
  · have hexact := h.exact he
    rw [hpump] at hexact
    simpa [Pump.held, sent] using hexact
  · -- the end is not sent while the pump is in its loop and has bytes to read
    obtain ⟨_, _, hdone, hleft⟩ := h.fin hf hn hr
    obtain hruns | hreturned := hr
    · exact ((hpump ▸ hleft hruns : Pump.Left .reading)).elim
    · exact absurd (hdone hreturned) hfull

theorem Kept.leave {state : Accepted} (h : state.Kept) (hpump : state.pump = .reading)
    (hdrained : state.Exposed → state.returned = true → state.duplex = []) :
    Kept { state with pump := .removing } := by
  refine ⟨h.ended, h.early, h.running, fun he => ?_, fun _ hr he => hdrained he hr,
    fun hf hn hr => ?_⟩
  · have hexact := h.exact he
    rw [hpump] at hexact
    exact hexact
  · obtain ⟨heq, _, hdone, _⟩ := h.fin hf hn hr
    exact ⟨heq, rfl, hdone, fun _ => trivial⟩

theorem Kept.push {state next : Accepted} {data : Bytes} (h : state.Kept)
    (hpump : state.pump = .sending data)
    (hs : state.send true ⟨CMD_PSH, state.id, data⟩ = some next) :
    Kept { next with pump := if state.writerEnded then .removing else .reading } := by
  obtain ⟨hended, rfl⟩ | ⟨hopen, rfl⟩ := send_cases hs
  · rw [if_pos hended]
    refine ⟨h.ended, h.early, h.running, fun he => ?_, fun _ hr he => ?_, fun hf hn hr => ?_⟩
    · exact absurd (hended.symm.trans he) (by simp)
    · have hf : HasFin next.sent := hasFin_append.mpr (.inl (he.2 hended))
      exact (h.fin hf he.1 (.inr hr)).2.2.1 hr
    · obtain ⟨heq, _, hdone, _⟩ := h.fin hf hn hr
      exact ⟨heq, rfl, hdone, fun _ => trivial⟩
  · rw [if_neg (by simp [hopen])]
    have hlast : ¬HasFin [⟨true, ⟨CMD_PSH, state.id, data⟩⟩] := by
      simp [HasFin, Queued.isFin, CMD_PSH, CMD_FIN]
    refine ⟨fun he => ?_, h.early, h.running, fun he => ?_, fun hl => hl.elim, fun hf hn hr => ?_⟩
    · exact absurd (hopen.symm.trans he) (by simp)
    · have hexact := h.exact hopen
      rw [hpump] at hexact
      change (state.enqueued _).sent.flatMap _ ++ (Pump.held .reading ++ state.duplex) =
        state.written
      rw [enqueued_sent, ← hexact]
      simp [Pump.held, Queued.payload]
    · change HasFin (state.enqueued _).sent at hf
      rw [enqueued_sent] at hf
      have hbefore := (hasFin_append.mp hf).resolve_right hlast
      obtain ⟨heq, _, hdone, hleft⟩ := h.fin hbefore hn hr
      refine ⟨?_, rfl, hdone, fun hruns => ?_⟩
      · change beforeFin (state.enqueued _).sent ++ state.duplex = _
        rw [enqueued_sent, beforeFin_append _ hbefore, heq]
        rfl
      · exact ((hpump ▸ hleft hruns : Pump.Left (.sending data))).elim

-- A CMD_FIN of the stream. `hdone` is what its sender makes sure of.
theorem Kept.sendFin {state next : Accepted} (h : state.Kept)
    (hs : state.send true ⟨CMD_FIN, state.id, []⟩ = some next)
    (hdone : state.Exposed → state.task.Runs ∨ state.returned = true → state.pump.held = [] ∧
      (state.returned = true → state.duplex = []) ∧ (state.task.Runs → state.pump.Left)) :
    next.Kept := by
  obtain ⟨_, rfl⟩ | ⟨hopen, rfl⟩ := send_cases hs
  · exact h
  · have hpayload : Queued.payload ⟨true, ⟨CMD_FIN, state.id, []⟩⟩ = [] := by simp [Queued.payload]
    refine ⟨fun he => ?_, h.early, h.running, fun he => ?_, h.left, fun _ hn hr => ?_⟩
    · exact absurd (hopen.symm.trans he) (by simp)
    · rw [enqueued_sent, List.flatMap_append, List.flatMap_singleton, hpayload, List.append_nil]
      exact h.exact he
    · rw [enqueued_sent]
      by_cases hbefore : HasFin state.sent
      · rw [beforeFin_append _ hbefore]
        exact h.fin hbefore hn hr
      · rw [beforeFin_concat_fin hbefore (by simp [Queued.isFin])]
        have hexposed : state.Exposed := ⟨hn, fun he => absurd (hopen.symm.trans he) (by simp)⟩
        obtain ⟨hheld, hrest⟩ := hdone hexposed hr
        have hexact := h.exact hopen
        rw [hheld, List.nil_append] at hexact
        exact ⟨hexact, hheld, hrest⟩

-- The session writer.
theorem Kept.emit {state : Accepted} {queued : Queued} {rest : List Queued} (h : state.Kept)
    (hc : state.channel = queued :: rest) :
    Kept { state with channel := rest, emitted := state.emitted ++ [queued] } := by
  have hsent : (state.emitted ++ [queued]) ++ rest = state.sent := by simp [sent, hc]
  have hopen : state.writerEnded ≠ true := by
    intro he
    simp [h.ended he] at hc
  refine ⟨fun he => absurd he hopen, h.early, h.running, fun he => ?_, fun hl hr he => ?_,
    fun hf hn hr => ?_⟩
  · rw [sent, hsent]
    exact h.exact he
  · exact h.left hl hr ⟨he.1, fun he => absurd he hopen⟩
  · rw [sent, hsent] at hf ⊢
    exact h.fin hf hn hr

theorem Kept.endWriter {state : Accepted} (h : state.Kept) :
    Kept { state with writerEnded := true, channel := [] } := by
  refine ⟨fun _ => rfl, h.early, h.running, fun he => ?_, fun hl hr he => ?_,
    fun hf hn hr => ?_⟩
  · cases he
  · exact h.left hl hr ⟨he.1, fun _ => he.2 rfl⟩
  · have hemitted : HasFin state.emitted := by simpa [sent] using hf
    have hall : HasFin state.sent := hasFin_append.mpr (.inl hemitted)
    have hsent : sent { state with writerEnded := true, channel := [] } = state.emitted :=
      List.append_nil _
    rw [hsent, ← beforeFin_append state.channel hemitted]
    exact h.fin hall hn hr

theorem alike_removed (state : Accepted) : state.Alike state.removed := by
  unfold removed
  split
  all_goals exact ⟨rfl, rfl, rfl, rfl, rfl, rfl, rfl, rfl, .rfl, fun he => he, fun hr => hr⟩

@[simp] theorem removed_pump (state : Accepted) : state.removed.pump = state.pump := by
  unfold removed
  split <;> rfl

theorem send_tasks {state next : Accepted} {own : Bool} {frame : Frame}
    (h : state.send own frame = some next) : next.task = state.task ∧ next.pump = state.pump := by
  obtain ⟨_, rfl⟩ | ⟨_, rfl⟩ := send_cases h
  · exact ⟨rfl, rfl⟩
  · exact ⟨rfl, rfl⟩

-- The tasks go on to their next step.
theorem Kept.task {state : Accepted} {task : StreamTask} (h : state.Kept)
    (hearly : task.Early → state.task.Early) (hruns : task.Runs → state.task.Runs) :
    Kept { state with task } :=
  h.alike ⟨rfl, rfl, rfl, rfl, rfl, rfl, rfl, rfl, .rfl, hearly, hruns⟩

theorem Kept.pump {state : Accepted} {pump : Pump} (h : state.Kept)
    (hheld : pump.held = state.pump.held) (hleft : pump.Left ↔ state.pump.Left) :
    Kept { state with pump } :=
  h.alike ⟨rfl, rfl, rfl, rfl, rfl, rfl, rfl, hheld, hleft, fun he => he, fun hr => hr⟩

theorem Kept.receiveFin {state : Accepted} (h : state.Kept) :
    Kept { state with finReceived := true } where
  ended := h.ended
  early := h.early
  running := h.running
  exact := h.exact
  left _ _ he := by cases he.1
  fin _ hn := by cases hn

-- What a step keeps, where it drains.
theorem Kept.step {state next : Accepted} (action : Action) (h : state.Kept)
    (hd : state.Drains action) (hs : state.step action = some next) : next.Kept := by
  cases action with
  | connected | refused error =>
      simp only [Accepted.step] at hs
      split at hs
      · rename_i htask
        obtain rfl := Option.some.inj hs
        exact h.task (fun _ => htask ▸ trivial) fun _ => htask ▸ trivial
      · cases hs
  | failed =>
      simp only [Accepted.step] at hs
      split at hs
      · rename_i htask
        obtain rfl := Option.some.inj hs
        exact h.afterReturn (htask ▸ trivial) fun _ _ => h.early (htask ▸ trivial)
      · cases hs
  | announce =>
      simp only [Accepted.step] at hs
      split at hs
      · rename_i htask
        obtain ⟨sent, hsend, rfl⟩ := Option.map_eq_some_iff.mp hs
        have hsent := (send_tasks hsend).1.trans htask
        exact (h.sendQuiet hsend rfl rfl).task (fun he => he.elim) fun _ => hsent ▸ trivial
      · rename_i error htask
        obtain ⟨sent, hsend, rfl⟩ := Option.map_eq_some_iff.mp hs
        have hsent := (send_tasks hsend).1.trans htask
        have hkept := h.sendQuiet hsend rfl rfl
        exact hkept.afterReturn (hsent ▸ trivial) fun _ _ => hkept.early (hsent ▸ trivial)
      · cases hs
  | write data =>
      simp only [Accepted.step] at hs
      split at hs
      · rename_i hguard
        obtain rfl := Option.some.inj hs
        exact h.write data hguard.1
      · cases hs
  | shutdown =>
      simp only [Accepted.step] at hs
      split at hs
      · obtain rfl := Option.some.inj hs
        exact h.alike ⟨rfl, rfl, rfl, rfl, rfl, rfl, rfl, rfl, .rfl, fun he => he, fun hr => hr⟩
      · cases hs
  | relayed succeeds =>
      simp only [Accepted.step] at hs
      split at hs
      · rename_i hguard
        obtain rfl := Option.some.inj hs
        exact h.afterReturn (hguard.1 ▸ trivial) hd
      · cases hs
  | cancelled =>
      simp only [Accepted.step] at hs
      repeat' split at hs
      all_goals first
        | obtain rfl := Option.some.inj hs
          exact h.alike ⟨rfl, rfl, rfl, rfl, rfl, rfl, rfl, rfl, .rfl, fun he => he.elim,
            fun hr => hr.elim⟩
        | cases hs
  | remove =>
      simp only [Accepted.step] at hs
      split at hs
      · obtain rfl := Option.some.inj hs
        exact (h.alike (alike_removed state)).task (fun he => he.elim) fun hr => hr.elim
      · cases hs
  | finish =>
      simp only [Accepted.step] at hs
      split at hs
      · rename_i htask
        obtain ⟨sent, hsend, rfl⟩ := Option.map_eq_some_iff.mp hs
        have hkept : sent.Kept := by
          refine h.sendFin hsend fun he hr => ?_
          obtain hruns | hreturned := hr
          · exact ((htask ▸ hruns : StreamTask.Runs .finishing)).elim
          · obtain ⟨hduplex, hheld⟩ := hd he hreturned
            refine ⟨hheld, fun _ => hduplex, fun hruns => ?_⟩
            exact ((htask ▸ hruns : StreamTask.Runs .finishing)).elim
        exact hkept.task (fun he => he.elim) fun hr => hr.elim
      · cases hs
  | read =>
      simp only [Accepted.step] at hs
      split at hs
      · rename_i hguard
        obtain rfl := Option.some.inj hs
        exact h.read hguard.1 hguard.2
      · cases hs
  | readEnd =>
      simp only [Accepted.step] at hs
      split at hs
      · rename_i hguard
        obtain rfl := Option.some.inj hs
        exact h.leave hguard.1 fun _ _ => hguard.2.1
      · cases hs
  | leave =>
      simp only [Accepted.step] at hs
      split at hs
      · rename_i hguard
        obtain rfl := Option.some.inj hs
        exact h.leave hguard.1 hd
      · cases hs
  | push =>
      simp only [Accepted.step] at hs
      split at hs
      · rename_i data hpump
        obtain ⟨sent, hsend, rfl⟩ := Option.map_eq_some_iff.mp hs
        exact h.push hpump hsend
      · cases hs
  | pumpRemove =>
      simp only [Accepted.step] at hs
      split at hs
      · rename_i hpump
        obtain rfl := Option.some.inj hs
        refine (h.alike (alike_removed state)).pump ?_ ?_
        · rw [removed_pump, hpump]
          rfl
        · rw [removed_pump, hpump]
          exact .rfl
      · cases hs
  | pumpFinish =>
      simp only [Accepted.step] at hs
      split at hs
      · rename_i hpump
        obtain ⟨sent, hsend, rfl⟩ := Option.map_eq_some_iff.mp hs
        have hleft : state.pump.Left := hpump ▸ trivial
        have hkept : sent.Kept := by
          refine h.sendFin hsend fun he _ => ⟨?_, fun hr => h.left hleft hr he, fun _ => hleft⟩
          rw [hpump]
          rfl
        have hsent := (send_tasks hsend).2.trans hpump
        refine hkept.pump ?_ ?_
        · rw [hsent]
          rfl
        · rw [hsent]
          exact .rfl
      · cases hs
  | other frame => exact h.sendQuiet hs rfl rfl
  | emit =>
      simp only [Accepted.step] at hs
      split at hs
      · rename_i queued rest hc
        obtain rfl := Option.some.inj hs
        exact h.emit hc
      · cases hs
  | endWriter =>
      obtain rfl := Option.some.inj hs
      exact h.endWriter
  | cancel =>
      obtain rfl := Option.some.inj hs
      exact h.alike ⟨rfl, rfl, rfl, rfl, rfl, rfl, rfl, rfl, .rfl, fun he => he, fun hr => hr⟩
  | receiveFin =>
      obtain rfl := Option.some.inj hs
      exact (h.alike (alike_removed state)).receiveFin
  | displace =>
      obtain rfl := Option.some.inj hs
      exact h.alike (alike_removed state)

-- Runs in which the three steps leave nothing behind are flushed wherever they end.
theorem flushed_of_drains (id : UInt32) (actions : List Action) (final : Accepted)
    (hd : Run.Meets step Drains (new id) actions)
    (he : Run.exec step (new id) actions = some final) : final.Flushed := by
  have hkept : final.Kept :=
    Run.rule Drains Kept (fun _ action _ h hd hs => h.step action hd hs) (new id) actions final
      (kept_new id) hd he
  intro hn hr hfin
  have hsent : HasFin final.sent := hasFin_append.mpr (.inl hfin)
  obtain ⟨heq, _, hdone, _⟩ := hkept.fin hsent hn (.inr hr)
  rw [hdone hr, List.append_nil, sent, beforeFin_append final.channel hfin] at heq
  exact heq

-- The pump has sent what was relayed when the relay fails.
def drained : List Action :=
  [.connected, .announce, .write [1, 2], .read, .push, .relayed false, .remove, .finish, .emit,
    .emit, .emit]

theorem flushed_of_drains_drained :
    ∃ final, Run.exec step (new 1) drained = some final ∧ final.returned = true ∧
      final.finReceived = false ∧ HasFin final.emitted ∧ final.written = [1, 2] ∧ final.Flushed := by
  have hd : Run.Meets step Drains (new 1) drained := by
    refine .cons trivial rfl (.cons trivial rfl (.cons trivial rfl (.cons trivial rfl
      (.cons trivial rfl (.cons ?_ rfl (.cons trivial rfl (.cons ?_ rfl (.cons trivial rfl
        (.cons trivial rfl (.cons trivial rfl trivial))))))))))
    · intro _ hleft
      exact hleft.elim
    · intro _ _
      exact ⟨rfl, rfl⟩
  refine ⟨_, rfl, rfl, rfl, ⟨⟨true, ⟨CMD_FIN, 1, []⟩⟩, ?_, rfl⟩, rfl, ?_⟩
  · decide
  · exact flushed_of_drains 1 drained _ hd rfl

end Accepted

end SingBox.AnyTls
