import SingBox.AnyTls.Connection.Agreement
import SingBox.AnyTls.Session.Isolation

namespace SingBox.AnyTls

open Library

-- What the CMD_PSH frames carry for an id.
def payload (id : UInt32) (frames : List Frame) : Bytes :=
  frames.flatMap fun frame =>
    if frame.command = CMD_PSH ∧ frame.streamId = id then frame.data else []

namespace Session

-- The events that do not come from the connection.
def Event.isOwn : Event → Bool
  | .action (.receive _) | .action .openStream | .insert _ => false
  | _ => true

end Session

namespace Connection

-- The CMD_SYN that a call of `open_stream` sends. Only then it writes into its end of the
-- duplex, and returns it to who writes the rest.
def begins (connection : Connection) : Action → List UInt32
  | .client (.sendSyn call) =>
      ((connection.client.stage call).bind OpenStage.pending).toList
  | _ => []

-- What the pumps of the two sides have read.
def uploads (connection : Connection) : Action → List Frame
  | .client (.pumpSend index data) =>
      (connection.client.pumps[index]?.map fun pump => ⟨CMD_PSH, pump.id, data⟩).toList
  | _ => []

def downloads (connection : Connection) : Action → List Frame
  | .server (.push index data) =>
      (connection.server.tasks[index]?.map fun task => ⟨CMD_PSH, task.id, data⟩).toList
  | _ => []

-- The frames that `read_frame` returns.
def arrivesUp (connection : Connection) : Action → List Frame
  | .serverReceives => (connection.uplink.read.map Prod.fst).toList
  | _ => []

def arrivesDown (connection : Connection) : Action → List Frame
  | .clientReceives => (connection.downlink.read.map Prod.fst).toList
  | _ => []

-- What the streams of the two sides take part in.
def clientEvents (connection : Connection) : Action → List Session.Event
  | .client (.insert call) =>
      match connection.client.stage call with
      | some (.numbered id) => [.insert id]
      | _ => []
  | action => (connection.arrivesDown action).map fun frame => .action (.receive frame)

def serverEvents (connection : Connection) (action : Action) : List Session.Event :=
  (connection.arrivesUp action).map fun frame => .action (.receive frame)

end Connection

-- A connection with the streams of its two sides. Not in the source: the ids of the calls that
-- have sent their CMD_SYN, the frames that have come to each side, and as CMD_PSH frames what
-- the pumps have read.
structure Tunnel where
  connection : Connection
  clientStreams : Session
  serverStreams : Session
  begun : List UInt32
  clientReceived : List Frame
  serverReceived : List Frame
  uploaded : List Frame
  downloaded : List Frame

namespace Tunnel

def new (clientPadding serverPadding : PaddingScheme) : Tunnel :=
  { connection := .new clientPadding serverPadding
    clientStreams := .new .client
    serverStreams := .new .server
    begun := [], clientReceived := [], serverReceived := [], uploaded := [], downloaded := [] }

inductive Action where
  | connection (action : Connection.Action)
  | clientStreams (event : Session.Event)
  | serverStreams (event : Session.Event)

def acceptsPadding (data : Bytes) : Bool := (ClientSession.parseUpdate data).toBool

-- The streams of a side and its other tasks take the frames and the registrations together.
-- Whatever else they do they do in any order.
def step (tunnel : Tunnel) : Action → Option Tunnel
  | .connection action =>
      let connection := tunnel.connection
      if ∀ frame ∈ connection.uploads action, frame.streamId ∈ tunnel.begun then do
        let next ← connection.step action
        let clientStreams ←
          Run.exec (Session.event acceptsPadding) tunnel.clientStreams (connection.clientEvents action)
        let serverStreams ←
          Run.exec (Session.event acceptsPadding) tunnel.serverStreams (connection.serverEvents action)
        some
          { connection := next
            clientStreams
            serverStreams
            begun := tunnel.begun ++ connection.begins action
            clientReceived := tunnel.clientReceived ++ connection.arrivesDown action
            serverReceived := tunnel.serverReceived ++ connection.arrivesUp action
            uploaded := tunnel.uploaded ++ connection.uploads action
            downloaded := tunnel.downloaded ++ connection.downloads action }
      else none
  | .clientStreams event =>
      if event.isOwn then
        (tunnel.clientStreams.event acceptsPadding event).map fun clientStreams =>
          { tunnel with clientStreams }
      else none
  | .serverStreams event =>
      if event.isOwn then
        (tunnel.serverStreams.event acceptsPadding event).map fun serverStreams =>
          { tunnel with serverStreams }
      else none

def Unwrapped (tunnel : Tunnel) (action : Action) : Prop :=
  ∀ own, action = .connection own → tunnel.connection.Unwrapped own

end Tunnel

section

variable {frames front back before after wastes : List Frame} {frame : Frame} {id : UInt32}

@[simp] theorem payload_nil (id : UInt32) : payload id [] = [] := rfl

@[simp] theorem payload_append (id : UInt32) (front back : List Frame) :
    payload id (front ++ back) = payload id front ++ payload id back := by
  simp [payload]

theorem payload_eq_nil (h : ∀ frame ∈ frames, frame.command = CMD_PSH → frame.streamId ≠ id) :
    payload id frames = [] := by
  apply List.flatMap_eq_nil_iff.mpr
  intro frame hframe
  apply if_neg
  rintro ⟨hcommand, hid⟩
  exact h frame hframe hcommand hid

theorem payload_other (h : frame.command ≠ CMD_PSH) (id : UInt32) : payload id [frame] = [] := by
  apply payload_eq_nil
  intro other hother hcommand
  obtain rfl := List.mem_singleton.mp hother
  exact absurd hcommand h

theorem payload_waste (h : Waste wastes) (id : UInt32) : payload id wastes = [] := by
  apply payload_eq_nil
  intro frame hframe hcommand
  rw [h.command frame hframe] at hcommand
  cases hcommand

theorem payload_padded (h : Padded before after) (id : UInt32) :
    payload id after = payload id before := by
  obtain ⟨front, wastes, back, hw, rfl, rfl⟩ := h
  simp [payload_waste hw]

theorem mem_synIds : id ∈ synIds frames ↔
    ∃ frame ∈ frames, frame.command = CMD_SYN ∧ frame.streamId = id := by
  simp [synIds, and_assoc]

-- A CMD_PSH comes behind the CMD_SYN of its stream.
def Led (begun : List UInt32) : List Frame → Prop
  | [] => True
  | frame :: rest =>
      (frame.command = CMD_PSH → frame.streamId ∈ begun) ∧ Led (begun ++ synIds [frame]) rest

theorem led_append {begun : List UInt32} : Led begun (front ++ back) ↔
    Led begun front ∧ Led (begun ++ synIds front) back := by
  induction front generalizing begun with
  | nil =>
      rw [show synIds [] = [] from rfl, List.append_nil]
      simp [Led]
  | cons frame rest ih =>
      have hids : synIds (frame :: rest) = synIds [frame] ++ synIds rest := synIds_append [frame] rest
      rw [List.cons_append, Led, Led, ih, and_assoc, hids, List.append_assoc]

theorem led_of_forall {begun : List UInt32}
    (h : ∀ frame ∈ frames, frame.command = CMD_PSH → frame.streamId ∈ begun) : Led begun frames := by
  induction frames generalizing begun with
  | nil => trivial
  | cons frame rest ih =>
      obtain ⟨hframe, hrest⟩ := List.forall_mem_cons.mp h
      refine ⟨hframe, ih fun other hother hcommand => ?_⟩
      exact List.mem_append_left _ (hrest other hother hcommand)

theorem led_padded {begun : List UInt32} (h : Padded before after) (hb : Led begun before) :
    Led begun after := by
  obtain ⟨front, wastes, back, hw, rfl, rfl⟩ := h
  obtain ⟨hfront, hback⟩ := led_append.mp hb
  rw [List.append_assoc, led_append, led_append, synIds_waste hw, List.append_nil]
  refine ⟨hfront, led_of_forall fun frame hframe hcommand => ?_, hback⟩
  rw [hw.command frame hframe] at hcommand
  cases hcommand

-- Nothing is carried for an id before its CMD_SYN.
theorem Led.payload_eq_nil {begun : List UInt32} (h : Led begun frames) (hbegun : id ∉ begun)
    (hid : id ∉ synIds frames) : payload id frames = [] := by
  induction frames generalizing begun with
  | nil => rfl
  | cons frame rest ih =>
      have hids : synIds (frame :: rest) = synIds [frame] ++ synIds rest := synIds_append [frame] rest
      rw [hids] at hid
      obtain ⟨hframe, hrest⟩ := not_or.mp (List.mem_append.not.mp hid)
      have hfirst : payload id [frame] = [] := by
        apply AnyTls.payload_eq_nil
        rintro other hother hcommand rfl
        obtain rfl := List.mem_singleton.mp hother
        exact hbegun (h.1 hcommand)
      have hlater := ih h.2 (fun hin => (List.mem_append.mp hin).elim hbegun hframe) hrest
      exact (payload_append id [frame] rest).trans (by rw [hfirst, hlater]; rfl)

end

namespace ClientSession

-- What a step hands to the writer's task, if it hands over no data.
structure Quiet (session next : ClientSession) : Prop where
  tx : next.tx = session.tx ∨
    ∃ frame, next.tx = session.tx ++ [frame] ∧ frame.command ≠ CMD_PSH
  closed : session.txClosed = true → next.txClosed = true

section

variable {session next : ClientSession}

theorem quiet_of_eq (htx : next.tx = session.tx) (hclosed : next.txClosed = session.txClosed) :
    session.Quiet next := ⟨.inl htx, fun h => hclosed.trans h⟩

theorem quiet_send {frame : Frame} (h : frame.command ≠ CMD_PSH) :
    session.Quiet (session.send frame) := by
  by_cases hclosed : session.txClosed = true
  · rw [send, if_pos hclosed]
    exact quiet_of_eq rfl rfl
  · rw [session.send_open hclosed]
    exact ⟨.inr ⟨frame, rfl, h⟩, fun h => h⟩

theorem quiet_of_step {action : Action} (h : session.step action = some next)
    (hreceive : ∀ frame, action ≠ .receive frame) (hwritten : action ≠ .written)
    (hpump : ∀ index data, action ≠ .pumpSend index data) : session.Quiet next := by
  cases action with
  | receive frame => exact absurd rfl (hreceive frame)
  | written => exact absurd rfl hwritten
  | pumpSend index data => exact absurd rfl (hpump index data)
  | announce =>
      simp only [step, Option.ite_none_left_eq_some, Option.some.injEq] at h
      obtain ⟨_, rfl⟩ := h
      have hquiet : session.Quiet (session.send (settingsFrame session.padding)) :=
        quiet_send (show CMD_SETTINGS ≠ CMD_PSH by decide)
      exact ⟨hquiet.tx, hquiet.closed⟩
  | acquire | push | forget | cancelReader | breakReader | retire | close =>
      simp only [step, Option.ite_none_right_eq_some, Option.some.injEq] at h
      obtain ⟨_, rfl⟩ := h
      exact quiet_of_eq rfl rfl
  | closeTx =>
      obtain rfl := Option.some.inj h
      exact ⟨.inl rfl, fun _ => rfl⟩
  | repadded padding =>
      obtain rfl := Option.some.inj h
      exact quiet_of_eq rfl rfl
  | reserve call =>
      simp only [step] at h
      split at h
      · obtain rfl := Option.some.inj h
        unfold reserve
        split <;> exact quiet_of_eq rfl rfl
      · cases h
  | check call =>
      simp only [step] at h
      split at h
      · simp only [Option.ite_none_left_eq_some, Option.some.injEq] at h
        obtain ⟨_, rfl⟩ := h
        exact quiet_of_eq rfl rfl
      · cases h
  | number call | insert call =>
      simp only [step] at h
      split at h
      · obtain rfl := Option.some.inj h
        exact quiet_of_eq rfl rfl
      · cases h
  | lookup call =>
      simp only [step] at h
      split at h
      · obtain rfl := Option.some.inj h
        unfold lookup
        split <;> exact quiet_of_eq rfl rfl
      · cases h
  | sendSyn call =>
      simp only [step] at h
      split at h
      · rename_i id _
        simp only [Option.ite_none_left_eq_some, Option.some.injEq] at h
        obtain ⟨_, rfl⟩ := h
        have hquiet : session.Quiet (session.send ⟨CMD_SYN, id, []⟩) :=
          quiet_send (show CMD_SYN ≠ CMD_PSH by decide)
        exact ⟨hquiet.tx, hquiet.closed⟩
      · cases h
  | succeed call =>
      simp only [step] at h
      split at h
      · simp only [Option.ite_none_right_eq_some, Option.some.injEq] at h
        obtain ⟨_, rfl⟩ := h
        exact quiet_of_eq rfl rfl
      · cases h
  | fail call =>
      have hfail : ∀ id, session.Quiet (session.fail call id) := by
        intro id
        obtain ⟨streams, active, heq⟩ := session.removeStream_frame id
        rw [fail, heq]
        exact quiet_of_eq rfl rfl
      simp only [step] at h
      split at h
      · simp only [Option.ite_none_right_eq_some, Option.some.injEq] at h
        obtain ⟨_, rfl⟩ := h
        exact hfail _
      · obtain rfl := Option.some.inj h
        exact hfail _
      · cases h
  | teardown index =>
      obtain ⟨teardown, _, hrun⟩ := Option.bind_eq_some_iff.mp h
      cases teardown <;> simp only [runTeardown, Option.some.injEq, reduceCtorEq] at hrun
      all_goals
        subst hrun
        exact quiet_of_eq rfl rfl
  | pumpFinish index =>
      simp only [step] at h
      split at h
      · rename_i id _
        obtain rfl := Option.some.inj h
        have hquiet : session.Quiet (session.send ⟨CMD_FIN, id, []⟩) :=
          quiet_send (show CMD_FIN ≠ CMD_PSH by decide)
        exact ⟨hquiet.tx, hquiet.closed⟩
      · cases h
  | pumpRemove index =>
      simp only [step] at h
      split at h
      · rename_i id _
        obtain rfl := Option.some.inj h
        obtain ⟨streams, active, heq⟩ := session.removeStream_frame id
        rw [heq]
        exact quiet_of_eq rfl rfl
      · cases h

-- The data of a pump.
theorem pumpSend_eq_some {index : Nat} {data : Bytes} :
    session.step (.pumpSend index data) = some next ↔
      ∃ pump, session.pumps[index]? = some pump ∧ pump.stage = .reading ∧ data ≠ [] ∧
        data.length ≤ MAX_FRAME_SIZE ∧ next = session.send ⟨CMD_PSH, pump.id, data⟩ := by
  simp only [step]
  split
  · rename_i id hpump
    simp [hpump, and_assoc, eq_comm]
  · rename_i hnone
    constructor
    · intro h
      cases h
    · rintro ⟨⟨id, stage⟩, hpump, rfl, -⟩
      exact absurd hpump (hnone id)

theorem sendSyn_eq_some {call : Nat} (h : session.step (.sendSyn call) = some next) :
    ∃ id, (session.stage call).bind OpenStage.pending = some id ∧
      next.tx = session.tx ++ [⟨CMD_SYN, id, []⟩] := by
  simp only [step] at h
  split at h
  · rename_i id hstage
    simp only [Option.ite_none_left_eq_some, Option.some.injEq] at h
    obtain ⟨hopen, rfl⟩ := h
    rw [session.send_open hopen]
    exact ⟨id, by rw [hstage]; rfl, rfl⟩
  · cases h

theorem receive_txClosed (session : ClientSession) (frame : Frame) :
    (session.receive frame).txClosed = session.txClosed := by
  unfold receive
  split_ifs
  · rfl
  · obtain ⟨streams, calls, heq⟩ := session.acknowledge_frame frame
    rw [heq]
  · obtain ⟨streams, active, heq⟩ := session.removeStream_frame frame.streamId
    rw [heq]
  · unfold send
    split <;> rfl
  · rfl
  · split <;> rfl
  · rfl
  · rfl
  · rfl

end

end ClientSession

namespace ServerConnection

-- What the steps of a server do, if they hand over no data. The tasks of a stream keep its id.
structure Quiet (connection next : ServerConnection) (ids : List UInt32) : Prop where
  tx : ∃ frames, next.tx = connection.tx ++ frames ∧ ∀ frame ∈ frames, frame.command ≠ CMD_PSH
  closed : connection.txClosed = true → next.txClosed = true
  tasks : ∀ task ∈ next.tasks, task.id ∈ connection.tasks.map ServerTask.id ++ ids

section

variable {connection next : ServerConnection} {ids : List UInt32}

theorem quiet_of_eq (htx : next.tx = connection.tx) (hclosed : next.txClosed = connection.txClosed)
    (htasks : next.tasks = connection.tasks) : connection.Quiet next ids := by
  refine ⟨⟨[], by rw [htx, List.append_nil], by simp⟩, fun h => hclosed.trans h, ?_⟩
  intro task htask
  rw [htasks] at htask
  exact List.mem_append_left _ (List.mem_map_of_mem htask)

theorem quiet_send {frame : Frame} (h : frame.command ≠ CMD_PSH) :
    connection.Quiet (connection.send frame) ids := by
  obtain heq | heq := connection.send_cases frame
  · rw [heq]
    exact quiet_of_eq rfl rfl rfl
  · rw [heq]
    refine ⟨⟨[frame], rfl, by simpa using h⟩, fun h => h, fun task htask => ?_⟩
    exact List.mem_append_left _ (List.mem_map_of_mem htask)

theorem quiet_removeStream (id : UInt32) : connection.Quiet (connection.removeStream id) ids :=
  quiet_of_eq rfl rfl rfl

theorem Quiet.trans (h : connection.Quiet next ids) {last : ServerConnection}
    (hl : next.Quiet last ids) : connection.Quiet last ids := by
  obtain ⟨front, hfront, hquiet⟩ := h.tx
  obtain ⟨back, hback, hlater⟩ := hl.tx
  refine ⟨⟨front ++ back, ?_, ?_⟩, fun hclosed => hl.closed (h.closed hclosed), ?_⟩
  · rw [hback, hfront, List.append_assoc]
  · exact List.forall_mem_append.mpr ⟨hquiet, hlater⟩
  · intro task htask
    obtain hold | hnew := List.mem_append.mp (hl.tasks task htask)
    · obtain ⟨other, hother, hid⟩ := List.mem_map.mp hold
      rw [← hid]
      exact h.tasks other hother
    · exact List.mem_append_right _ hnew

theorem Quiet.setTask (h : connection.Quiet next ids) {index : Nat} {old task : ServerTask}
    (hold : connection.tasks[index]? = some old) (hid : task.id = old.id) :
    connection.Quiet (next.setTask index task) ids := by
  refine ⟨h.tx, h.closed, fun other hother => ?_⟩
  obtain hother | rfl := List.mem_or_eq_of_mem_set hother
  · exact h.tasks other hother
  · rw [hid]
    exact List.mem_append_left _ (List.mem_map_of_mem (List.mem_of_getElem? hold))

theorem quiet_of_step {action : Action} (h : connection.step action = some next)
    (hreceive : ∀ frame, action ≠ .receive frame) (hwritten : action ≠ .written)
    (hpush : ∀ index data, action ≠ .push index data) : connection.Quiet next [] := by
  cases action with
  | receive frame => exact absurd rfl (hreceive frame)
  | written => exact absurd rfl hwritten
  | push index data => exact absurd rfl (hpush index data)
  | cancelLoop | breakLoop =>
      simp only [step, Option.ite_none_right_eq_some, Option.some.injEq] at h
      obtain ⟨_, rfl⟩ := h
      exact quiet_of_eq rfl rfl rfl
  | answer index data =>
      simp only [step] at h
      split at h
      · rename_i id hold
        obtain rfl := Option.some.inj h
        exact (quiet_send (show CMD_SYNACK ≠ CMD_PSH by decide)).setTask hold rfl
      · cases h
  | leave index =>
      simp only [step] at h
      split at h
      · rename_i id isPump hold
        obtain rfl := Option.some.inj h
        exact (quiet_removeStream id).setTask hold rfl
      · rename_i id isPump hold
        obtain rfl := Option.some.inj h
        exact (quiet_removeStream id).setTask hold rfl
      · cases h
  | finish index =>
      simp only [step] at h
      split at h
      · rename_i id isPump hold
        obtain rfl := Option.some.inj h
        exact (quiet_send (show CMD_FIN ≠ CMD_PSH by decide)).setTask hold rfl
      · cases h
  | closeTx =>
      obtain rfl := Option.some.inj h
      refine ⟨⟨[], (List.append_nil _).symm, by simp⟩, fun _ => rfl, fun task htask => ?_⟩
      exact List.mem_append_left _ (List.mem_map_of_mem htask)

theorem push_eq_some {index : Nat} {data : Bytes}
    (h : connection.step (.push index data) = some next) :
    ∃ task, connection.tasks[index]? = some task ∧ data.length ≤ MAX_FRAME_SIZE ∧
      next = connection.send ⟨CMD_PSH, task.id, data⟩ := by
  simp only [step] at h
  split at h
  · rename_i id hold
    simp only [Option.ite_none_right_eq_some, Option.some.injEq] at h
    obtain ⟨⟨_, hlen⟩, rfl⟩ := h
    exact ⟨_, hold, hlen, rfl⟩
  · cases h

-- The tasks of a stream are spawned for its CMD_SYN.
theorem receive_quiet (connection : ServerConnection) (frame : Frame) :
    connection.Quiet (connection.receive frame) (synIds [frame]) := by
  unfold receive
  split_ifs with hsettings hsyn
  · have hfirst : connection.Quiet
        { connection.send ⟨CMD_SERVER_SETTINGS, 0, Utf8.encode "v=2\n"⟩ with
          settingsReceived := true } (synIds [frame]) :=
      Quiet.trans (quiet_send (show CMD_SERVER_SETTINGS ≠ CMD_PSH by decide))
        (quiet_of_eq rfl rfl rfl)
    unfold receiveSettings
    simp only
    split
    · exact hfirst
    · refine hfirst.trans (Quiet.trans (quiet_send ?_) (quiet_of_eq rfl rfl rfl))
      exact show CMD_UPDATE_PADDING ≠ CMD_PSH by decide
  · unfold receiveSyn
    split_ifs
    · exact quiet_of_eq rfl rfl rfl
    · exact quiet_of_eq rfl rfl rfl
    · exact quiet_of_eq rfl rfl rfl
    · refine ⟨⟨[], (List.append_nil _).symm, by simp⟩, fun h => h, fun task htask => ?_⟩
      rw [synIds_syn hsyn]
      obtain hold | hnew := List.mem_append.mp htask
      · exact List.mem_append_left _ (List.mem_map_of_mem hold)
      · apply List.mem_append_right
        simp only [List.mem_cons, List.not_mem_nil, or_false] at hnew
        obtain rfl | rfl := hnew
        · exact List.mem_singleton_self _
        · exact List.mem_singleton_self _
  · exact quiet_of_eq rfl rfl rfl
  · exact quiet_of_eq rfl rfl rfl
  · exact quiet_send (show CMD_HEARTBEAT_RESPONSE ≠ CMD_PSH by decide)
  · exact quiet_of_eq rfl rfl rfl
  · exact quiet_of_eq rfl rfl rfl
  · exact quiet_of_eq rfl rfl rfl

end

end ServerConnection

-- What has been written, and what of it the channel has taken. It takes nothing any more once it
-- is closed.
structure Kept (closed : Bool) (sent written : Bytes) : Prop where
  front : sent <+: written
  whole : closed = false → sent = written

section

variable {closed : Bool} {sent written : Bytes}

theorem Kept.send (h : Kept closed sent written) (hopen : closed = false) (data : Bytes) :
    Kept closed (sent ++ data) (written ++ data) := by
  rw [h.whole hopen]
  exact ⟨List.prefix_refl _, fun _ => rfl⟩

theorem Kept.lose (h : Kept closed sent written) (hclosed : closed = true) (data : Bytes) :
    Kept closed sent (written ++ data) := by
  refine ⟨h.front.trans (List.prefix_append _ _), fun hopen => ?_⟩
  rw [hclosed] at hopen
  cases hopen

theorem Kept.close (h : Kept closed sent written) {later : Bool}
    (hlater : closed = true → later = true) : Kept later sent written := by
  refine ⟨h.front, fun hopen => h.whole ?_⟩
  cases hclosed : closed with
  | false => rfl
  | true =>
      rw [hlater hclosed] at hopen
      cases hopen

end

namespace Connection

-- What the frames of the client that have come to the server or are on their way carry.
structure Carries (connection : Connection) (begun : List UInt32)
    (received uploaded : List Frame) : Prop where
  numbered : connection.client.Numbered (synIds (received ++ connection.upward)) []
  led : Led [] (received ++ connection.upward)
  begun : ∀ id ∈ begun, id ∈ synIds (received ++ connection.upward)
  kept : ∀ id, Kept connection.client.txClosed (payload id (received ++ connection.upward))
    (payload id uploaded)

section

variable {connection next : Connection} {begun : List UInt32} {received uploaded : List Frame}

theorem new_carries (clientPadding serverPadding : PaddingScheme) :
    (new clientPadding serverPadding).Carries [] [] [] := by
  have hup : (new clientPadding serverPadding).upward = [] := by
    have hframes : Link.new.frames ++ [] = [] := by rw [Link.new_whole.2, List.append_nil]
    exact hframes
  have hnumbered := (new_agrees clientPadding serverPadding).numbered
  refine ⟨?_, ?_, fun _ hid => absurd hid List.not_mem_nil, fun id => ?_⟩
  · rw [List.nil_append]
    exact hnumbered
  · rw [hup]
    trivial
  · rw [hup]
    exact ⟨List.prefix_refl _, fun _ => rfl⟩

-- The same frames, some of which have come to the server.
theorem Carries.same (h : connection.Carries begun received uploaded) {later : List Frame}
    (hup : later ++ next.upward = received ++ connection.upward)
    (hcounter : next.client.nextStreamId = connection.client.nextStreamId)
    (hstage : next.client.stage = connection.client.stage)
    (hclosed : connection.client.txClosed = true → next.client.txClosed = true) :
    next.Carries begun later uploaded := by
  refine ⟨?_, ?_, ?_, fun id => ?_⟩
  · rw [hup]
    exact h.numbered.mono hcounter
      (fun call id => (ClientSession.pending_of_eq hstage call id).mp) fun _ hin => hin
  · rw [hup]
    exact h.led
  · rw [hup]
    exact h.begun
  · rw [hup]
    exact (h.kept id).close hclosed

-- Frames without data are handed over.
theorem Carries.emit (h : connection.Carries begun received uploaded) {frames : List Frame}
    (hup : next.upward = connection.upward ++ frames)
    (hquiet : ∀ frame ∈ frames, frame.command ≠ CMD_PSH)
    (hnumbered : next.client.Numbered
      (synIds (received ++ connection.upward) ++ synIds frames) [])
    (hclosed : connection.client.txClosed = true → next.client.txClosed = true) :
    next.Carries begun received uploaded := by
  refine ⟨?_, ?_, fun id hid => ?_, fun id => ?_⟩
  · rw [hup, ← List.append_assoc, synIds_append]
    exact hnumbered
  · rw [hup, ← List.append_assoc, led_append]
    exact ⟨h.led, led_of_forall fun frame hframe hcommand => absurd hcommand (hquiet frame hframe)⟩
  · rw [hup, ← List.append_assoc, synIds_append]
    exact List.mem_append_left _ (h.begun id hid)
  · have hnone : payload id frames = [] :=
      payload_eq_nil fun frame hframe hcommand => absurd hcommand (hquiet frame hframe)
    rw [hup, ← List.append_assoc, payload_append, hnone, List.append_nil]
    exact (h.kept id).close hclosed

-- What a pump has read is handed over, unless the channel is closed.
theorem Carries.push (h : connection.Carries begun received uploaded) {frame : Frame}
    (hcommand : frame.command = CMD_PSH) (hbegun : frame.streamId ∈ begun)
    (hclient : next.client = connection.client.send frame)
    (huplink : next.uplink = connection.uplink) :
    next.Carries begun received (uploaded ++ [frame]) := by
  have hother : frame.command ≠ CMD_SYN := by
    rw [hcommand]
    decide
  by_cases hclosed : connection.client.txClosed = true
  · rw [ClientSession.send, if_pos hclosed] at hclient
    have hup : next.upward = connection.upward := by rw [upward, upward, hclient, huplink]
    refine ⟨?_, ?_, ?_, fun id => ?_⟩
    · rw [hup, hclient]
      exact h.numbered
    · rw [hup]
      exact h.led
    · rw [hup]
      exact h.begun
    · rw [hup, hclient, payload_append id uploaded]
      exact (h.kept id).lose hclosed _
  · rw [ClientSession.send_open hclosed] at hclient
    have hup : next.upward = connection.upward ++ [frame] := by
      rw [upward, upward, hclient, huplink, List.append_assoc]
    have hids : synIds (received ++ next.upward) = synIds (received ++ connection.upward) := by
      rw [hup, ← List.append_assoc, synIds_append, synIds_other hother, List.append_nil]
    refine ⟨?_, ?_, ?_, fun id => ?_⟩
    · rw [hids, hclient]
      refine h.numbered.mono ?_ ?_ fun _ hin => hin
      · rfl
      · exact fun _ _ hp => hp
    · rw [hup, ← List.append_assoc, led_append]
      exact ⟨h.led, fun _ => h.begun _ hbegun, trivial⟩
    · rw [hids]
      exact h.begun
    · rw [hup, hclient, ← List.append_assoc, payload_append, payload_append id uploaded]
      exact (h.kept id).send (Bool.eq_false_of_not_eq_true hclosed) _

theorem Carries.client (h : connection.Carries begun received uploaded)
    {action : ClientSession.Action} (hown : connection.client.Own action next.client)
    (hquiet : connection.client.Quiet next.client) (huplink : next.uplink = connection.uplink)
    (hcounter : ∀ call, action = .number call → connection.client.nextStreamId ≠ 0) :
    next.Carries begun received uploaded := by
  have hup : ∀ frames, next.client.tx = connection.client.tx ++ frames →
      next.upward = connection.upward ++ frames := by
    intro frames htx
    rw [upward, upward, huplink, htx, List.append_assoc]
  have hsame : next.client.tx = connection.client.tx → next.client.tx = connection.client.tx ++ [] :=
    fun htx => htx.trans (List.append_nil _).symm
  have hmono : next.client.nextStreamId = connection.client.nextStreamId →
      next.client.stage = connection.client.stage → ∀ frame : Frame, frame.command ≠ CMD_SYN →
      next.client.Numbered (synIds (received ++ connection.upward) ++ synIds [frame]) [] := by
    intro hid hstage frame hother
    rw [synIds_other hother, List.append_nil]
    exact h.numbered.mono hid (fun call id => (ClientSession.pending_of_eq hstage call id).mp)
      fun _ hin => hin
  cases hown.emits with
  | quiet hannounced htx hid hpending =>
      apply h.emit (hup [] (hsame htx)) (by simp) ?_ hquiet.closed
      rw [show synIds [] = [] from rfl, List.append_nil]
      exact h.numbered.mono hid hpending fun _ hin => hin
  | announce hannounced htx hid hstage =>
      apply h.emit (hup _ htx) ?_ (hmono hid hstage _ (show CMD_SETTINGS ≠ CMD_SYN by decide))
        hquiet.closed
      intro frame hframe
      rw [List.mem_singleton.mp hframe]
      exact show CMD_SETTINGS ≠ CMD_PSH by decide
  | number call hannounced htx hid hpending =>
      apply h.emit (hup [] (hsame htx)) (by simp) ?_ hquiet.closed
      rw [show synIds [] = [] from rfl, List.append_nil]
      exact h.numbered.number (hcounter call rfl) hid hpending
  | syn call id hcall hannounced htx hid hpending =>
      apply h.emit (hup _ htx) ?_ ?_ hquiet.closed
      · intro frame hframe
        rw [List.mem_singleton.mp hframe]
        exact show CMD_SYN ≠ CMD_PSH by decide
      · rw [synIds_syn rfl]
        exact h.numbered.syn hcall hid hpending
  | data frame hcommand hlen hannounced htx hid hstage =>
      have hother : frame.command ≠ CMD_SYN := by
        obtain heq | heq := hcommand <;> rw [heq] <;> decide
      apply h.emit (hup _ htx) ?_ (hmono hid hstage frame hother) hquiet.closed
      intro other hmem
      obtain rfl := List.mem_singleton.mp hmem
      obtain hnone | ⟨found, hfound, hne⟩ := hquiet.tx
      · rw [hnone] at htx
        simp at htx
      · rw [hfound] at htx
        obtain rfl := List.singleton_inj.mp (List.append_cancel_left htx)
        exact hne

theorem arrivesUp_eq (hw : connection.Whole) (hs : connection.step .serverReceives = some next) :
    ∃ frame, connection.arrivesUp .serverReceives = [frame] ∧
      connection.upward = frame :: next.upward ∧ next.client = connection.client ∧
      next.downlink = connection.downlink ∧ next.server = connection.server.receive frame := by
  obtain ⟨⟨frame, uplink⟩, hread, hs⟩ := Option.bind_eq_some_iff.mp hs
  obtain ⟨server, hserver, rfl⟩ := Option.map_eq_some_iff.mp hs
  simp only [ServerConnection.step, Option.ite_none_right_eq_some, Option.some.injEq] at hserver
  obtain ⟨_, rfl⟩ := hserver
  refine ⟨frame, by simp [arrivesUp, hread], ?_, rfl, rfl, rfl⟩
  rw [upward, (hw.1.read hread).2]
  rfl

theorem arrivesDown_eq (hw : connection.Whole) (hs : connection.step .clientReceives = some next) :
    ∃ frame, connection.arrivesDown .clientReceives = [frame] ∧
      connection.downward = frame :: next.downward ∧ next.server = connection.server ∧
      next.uplink = connection.uplink ∧ next.client = connection.client.receive frame := by
  obtain ⟨⟨frame, downlink⟩, hread, hs⟩ := Option.bind_eq_some_iff.mp hs
  obtain ⟨client, hclient, rfl⟩ := Option.map_eq_some_iff.mp hs
  simp only [ClientSession.step, Option.ite_none_right_eq_some, Option.some.injEq] at hclient
  obtain ⟨_, rfl⟩ := hclient
  refine ⟨frame, by simp [arrivesDown, hread], ?_, rfl, rfl, rfl⟩
  rw [downward, (hw.2.read hread).2]
  rfl

-- The writer's task does not take a frame once the channel is closed.
theorem clientWrites_open {random : Nat → Option UInt64}
    (hs : connection.step (.clientWrites random) = some next) :
    connection.client.txClosed = false := by
  obtain ⟨frame, _, hs⟩ := Option.bind_eq_some_iff.mp hs
  obtain ⟨client, hclient, _⟩ := Option.map_eq_some_iff.mp hs
  simp only [ClientSession.step] at hclient
  split at hclient
  · assumption
  · cases hclient

theorem serverWrites_open {random : Nat → Option UInt64}
    (hs : connection.step (.serverWrites random) = some next) :
    connection.server.txClosed = false := by
  obtain ⟨frame, _, hs⟩ := Option.bind_eq_some_iff.mp hs
  obtain ⟨server, hserver, _⟩ := Option.map_eq_some_iff.mp hs
  simp only [ServerConnection.step] at hserver
  split at hserver
  · assumption
  · cases hserver

theorem Carries.write (h : connection.Carries begun received uploaded)
    (hup : Padded connection.upward next.upward)
    (hcounter : next.client.nextStreamId = connection.client.nextStreamId)
    (hstage : next.client.stage = connection.client.stage)
    (hopen : connection.client.txClosed = false) : next.Carries begun received uploaded := by
  have hids : synIds (received ++ next.upward) = synIds (received ++ connection.upward) := by
    rw [synIds_append, synIds_append, synIds_padded hup]
  refine ⟨?_, ?_, ?_, fun id => ?_⟩
  · rw [hids]
    exact h.numbered.mono hcounter
      (fun call id => (ClientSession.pending_of_eq hstage call id).mp) fun _ hin => hin
  · obtain ⟨hfront, hback⟩ := led_append.mp h.led
    exact led_append.mpr ⟨hfront, led_padded hup hback⟩
  · rw [hids]
    exact h.begun
  · rw [payload_append, payload_padded hup, ← payload_append]
    apply (h.kept id).close
    intro hclosed
    rw [hopen] at hclosed
    cases hclosed

theorem Carries.step (h : connection.Carries begun received uploaded) (ha : connection.Agrees)
    {action : Action} (hcond : connection.Unwrapped action)
    (hready : ∀ frame ∈ connection.uploads action, frame.streamId ∈ begun)
    (hs : connection.step action = some next) :
    next.Carries (begun ++ connection.begins action) (received ++ connection.arrivesUp action)
      (uploaded ++ connection.uploads action) := by
  cases action with
  | server action =>
      obtain ⟨_, _, server, _, rfl⟩ := server_of_step hs
      simp only [begins, arrivesUp, uploads, List.append_nil]
      refine h.same ?_ ?_ ?_ ?_
      · rfl
      · rfl
      · rfl
      · exact id
  | serverReceives =>
      obtain ⟨frame, harrives, hup, hclient, hdownlink, _⟩ := arrivesUp_eq ha.whole hs
      rw [harrives]
      simp only [begins, uploads, List.append_nil]
      apply h.same ?_ (by rw [hclient]) (by rw [hclient]) (by rw [hclient]; exact id)
      rw [hup, List.append_assoc]
      rfl
  | clientReceives =>
      obtain ⟨frame, _, hdown, hserver, huplink, hclient⟩ := arrivesDown_eq ha.whole hs
      have hknown := ha.known.downward frame (by rw [hdown]; exact List.mem_cons_self)
      have hreceived := connection.client.receive_received hknown
      simp only [begins, arrivesUp, uploads, List.append_nil]
      apply h.same ?_ (by rw [hclient]; exact hreceived.nextStreamId)
        (by rw [hclient]; exact hreceived.stage) ?_
      · rw [upward, upward, huplink, hclient, hreceived.tx]
      · rw [hclient, ClientSession.receive_txClosed]
        exact id
  | serverWrites random =>
      obtain ⟨_, hmoves⟩ := moves_of_step ha.whole hs
      cases hmoves with
      | serverWrites random frame rest closed htx hserver hclient huplink hdown =>
          have hup : next.upward = connection.upward := by rw [upward, upward, huplink, hclient]
          simp only [begins, arrivesUp, uploads, List.append_nil]
          apply h.same (by rw [hup]) (by rw [hclient]) (by rw [hclient]) (by rw [hclient]; exact id)
  | clientWrites random =>
      have hopen := clientWrites_open hs
      obtain ⟨_, hmoves⟩ := moves_of_step ha.whole hs
      cases hmoves with
      | clientWrites random frame rest closed htx hclient hserver hdownlink hwrites =>
          simp only [begins, arrivesUp, uploads, List.append_nil]
          obtain hup | ⟨hlarge, _⟩ := hwrites
          · apply h.write hup (by rw [hclient]) (by rw [hclient]; rfl) hopen
          · have hfits := ha.known.fits frame (htx ▸ List.mem_cons_self)
            exact absurd hfits (Nat.not_le_of_lt hlarge)
  | client action =>
      obtain ⟨hreceive, hwritten, client, hclient, rfl⟩ := client_of_step hs
      by_cases hpump : ∃ index data, action = .pumpSend index data
      · obtain ⟨index, data, rfl⟩ := hpump
        obtain ⟨pump, hpump, _, _, _, rfl⟩ := ClientSession.pumpSend_eq_some.mp hclient
        have huploads : connection.uploads (.client (.pumpSend index data)) =
            [⟨CMD_PSH, pump.id, data⟩] := by simp [uploads, hpump]
        rw [huploads] at hready ⊢
        simp only [begins, arrivesUp, List.append_nil]
        exact h.push rfl (hready _ (List.mem_singleton_self _)) rfl rfl
      · simp only [not_exists] at hpump
        have hquiet := ClientSession.quiet_of_step hclient hreceive hwritten hpump
        have hown := ClientSession.own_of_step hclient hreceive hwritten
        have hcarries : Carries { connection with client } begun received uploaded :=
          h.client hown hquiet rfl fun call heq => hcond call (congrArg _ heq)
        have huploads : connection.uploads (.client action) = [] := by
          cases action with
          | pumpSend index data => exact absurd rfl (hpump index data)
          | _ => rfl
        simp only [huploads, arrivesUp, List.append_nil]
        refine ⟨hcarries.numbered, hcarries.led, fun id hid => ?_, hcarries.kept⟩
        obtain hbegun | hbegins := List.mem_append.mp hid
        · exact hcarries.begun id hbegun
        · cases action with
          | sendSyn call =>
              obtain ⟨sent, hpending, htx⟩ := ClientSession.sendSyn_eq_some hclient
              obtain rfl : id = sent := by simpa [begins, hpending] using hbegins
              apply mem_synIds.mpr
              refine ⟨⟨CMD_SYN, id, []⟩, ?_, rfl, rfl⟩
              simp [upward, htx]
          | _ => cases hbegins

-- What the frames of the server that have come to the client or are on their way carry. The
-- server has tasks for the streams of the client only.
structure Returns (connection : Connection)
    (serverReceived clientReceived downloaded : List Frame) : Prop where
  tasks : ∀ task ∈ connection.server.tasks, task.id ∈ synIds serverReceived
  fits : ∀ frame ∈ connection.server.tx, frame.command = CMD_PSH →
    frame.data.length ≤ MAX_FRAME_SIZE
  served : ∀ frame ∈ clientReceived ++ connection.downward, frame.command = CMD_PSH →
    frame.streamId ∈ synIds serverReceived
  kept : ∀ id, Kept connection.server.txClosed
    (payload id (clientReceived ++ connection.downward)) (payload id downloaded)

variable {serverReceived clientReceived downloaded : List Frame}

theorem new_returns (clientPadding serverPadding : PaddingScheme) :
    (new clientPadding serverPadding).Returns [] [] [] := by
  have hdown : (new clientPadding serverPadding).downward = [] := by
    have hframes : Link.new.frames ++ [] = [] := by rw [Link.new_whole.2, List.append_nil]
    exact hframes
  refine ⟨by simp [new, ServerConnection.new], by simp [new, ServerConnection.new], ?_, fun id => ?_⟩
  · rw [hdown]
    simp
  · rw [hdown]
    exact ⟨List.prefix_refl _, fun _ => rfl⟩

theorem Returns.same (h : connection.Returns serverReceived clientReceived downloaded)
    {later : List Frame} (hdown : later ++ next.downward = clientReceived ++ connection.downward)
    (hserver : next.server = connection.server) : next.Returns serverReceived later downloaded := by
  refine ⟨?_, ?_, ?_, fun id => ?_⟩
  · rw [hserver]
    exact h.tasks
  · rw [hserver]
    exact h.fits
  · rw [hdown]
    exact h.served
  · rw [hdown, hserver]
    exact h.kept id

-- The server hands over frames without data, and takes frames of the client.
theorem Returns.emit (h : connection.Returns serverReceived clientReceived downloaded)
    {taken : List Frame} (hquiet : connection.server.Quiet next.server (synIds taken))
    (hdownlink : next.downlink = connection.downlink) :
    next.Returns (serverReceived ++ taken) clientReceived downloaded := by
  obtain ⟨frames, htx, hother⟩ := hquiet.tx
  have hdown : next.downward = connection.downward ++ frames := by
    rw [downward, downward, hdownlink, htx, List.append_assoc]
  have hmore : ∀ id ∈ synIds serverReceived, id ∈ synIds (serverReceived ++ taken) := by
    intro id hid
    rw [synIds_append]
    exact List.mem_append_left _ hid
  refine ⟨fun task htask => ?_, fun frame hframe hcommand => ?_, fun frame hframe hcommand => ?_,
    fun id => ?_⟩
  · obtain hold | hnew := List.mem_append.mp (hquiet.tasks task htask)
    · obtain ⟨other, hmem, hid⟩ := List.mem_map.mp hold
      rw [← hid]
      exact hmore _ (h.tasks other hmem)
    · rw [synIds_append]
      exact List.mem_append_right _ hnew
  · rw [htx] at hframe
    obtain hold | hnew := List.mem_append.mp hframe
    · exact h.fits frame hold hcommand
    · exact absurd hcommand (hother frame hnew)
  · rw [hdown, ← List.append_assoc] at hframe
    obtain hold | hnew := List.mem_append.mp hframe
    · exact hmore _ (h.served frame hold hcommand)
    · exact absurd hcommand (hother frame hnew)
  · have hnone : payload id frames = [] :=
      payload_eq_nil fun frame hframe hcommand => absurd hcommand (hother frame hframe)
    rw [hdown, ← List.append_assoc, payload_append, hnone, List.append_nil]
    exact (h.kept id).close hquiet.closed

theorem Returns.push (h : connection.Returns serverReceived clientReceived downloaded)
    {frame : Frame} (hlen : frame.data.length ≤ MAX_FRAME_SIZE)
    (hid : frame.streamId ∈ synIds serverReceived)
    (hserver : next.server = connection.server.send frame)
    (hdownlink : next.downlink = connection.downlink) :
    next.Returns serverReceived clientReceived (downloaded ++ [frame]) := by
  by_cases hclosed : connection.server.txClosed = true
  · rw [ServerConnection.send, if_pos hclosed] at hserver
    have hdown : next.downward = connection.downward := by
      rw [downward, downward, hserver, hdownlink]
    have hsame := h.same (by rw [hdown]) hserver
    refine ⟨hsame.tasks, hsame.fits, hsame.served, fun id => ?_⟩
    rw [hdown, hserver, payload_append id downloaded]
    exact (h.kept id).lose hclosed _
  · rw [ServerConnection.send, if_neg hclosed] at hserver
    have hdown : next.downward = connection.downward ++ [frame] := by
      rw [downward, downward, hserver, hdownlink, List.append_assoc]
    refine ⟨?_, ?_, ?_, fun id => ?_⟩
    · rw [hserver]
      exact h.tasks
    · rw [hserver]
      intro other hother hcommand
      obtain hold | hnew := List.mem_append.mp hother
      · exact h.fits other hold hcommand
      · rw [List.mem_singleton.mp hnew]
        exact hlen
    · rw [hdown, ← List.append_assoc]
      intro other hother hcommand
      obtain hold | hnew := List.mem_append.mp hother
      · exact h.served other hold hcommand
      · rw [List.mem_singleton.mp hnew]
        exact hid
    · rw [hdown, hserver, ← List.append_assoc, payload_append, payload_append id downloaded]
      exact (h.kept id).send (Bool.eq_false_of_not_eq_true hclosed) _

-- The writer's task takes a frame. It fails on none that carries data.
theorem Returns.write (h : connection.Returns serverReceived clientReceived downloaded)
    {frame : Frame} {rest : List Frame} {closed : Bool} (htx : connection.server.tx = frame :: rest)
    (hserver : next.server = { connection.server with tx := rest, txClosed := closed })
    (hopen : connection.server.txClosed = false)
    (hdown : Padded connection.downward next.downward ∨
      (MAX_FRAME_SIZE < frame.data.length ∧
        next.downward = connection.downlink.frames ++ rest)) :
    next.Returns serverReceived clientReceived downloaded := by
  have hpayload : ∀ id, payload id next.downward = payload id connection.downward := by
    intro id
    obtain hpadded | ⟨hlarge, hrest⟩ := hdown
    · exact payload_padded hpadded id
    · have hother : frame.command ≠ CMD_PSH := by
        intro hcommand
        have hfits := h.fits frame (htx ▸ List.mem_cons_self) hcommand
        omega
      have hnone := payload_other hother id
      rw [hrest, downward, htx, ← List.singleton_append, payload_append, payload_append,
        payload_append, hnone, List.nil_append]
  have hmem : ∀ other ∈ next.downward, other.command = CMD_PSH → other ∈ connection.downward := by
    intro other hother hcommand
    obtain hpadded | ⟨_, hrest⟩ := hdown
    · obtain hold | hwaste := mem_padded hpadded hother
      · exact hold
      · rw [hcommand] at hwaste
        cases hwaste
    · rw [hrest] at hother
      rw [downward, htx]
      obtain hlink | hlater := List.mem_append.mp hother
      · exact List.mem_append_left _ hlink
      · exact List.mem_append_right _ (List.mem_cons_of_mem _ hlater)
  refine ⟨?_, ?_, fun other hother hcommand => ?_, fun id => ?_⟩
  · rw [hserver]
    exact h.tasks
  · rw [hserver]
    intro other hother
    exact h.fits other (htx ▸ List.mem_cons_of_mem _ hother)
  · obtain hold | hnew := List.mem_append.mp hother
    · exact h.served other (List.mem_append_left _ hold) hcommand
    · exact h.served other (List.mem_append_right _ (hmem other hnew hcommand)) hcommand
  · rw [payload_append, hpayload, ← payload_append]
    apply (h.kept id).close
    intro hclosed
    rw [hopen] at hclosed
    cases hclosed

theorem Returns.step (h : connection.Returns serverReceived clientReceived downloaded)
    (hw : connection.Whole) {action : Action} (hs : connection.step action = some next) :
    next.Returns (serverReceived ++ connection.arrivesUp action)
      (clientReceived ++ connection.arrivesDown action)
      (downloaded ++ connection.downloads action) := by
  cases action with
  | client action =>
      obtain ⟨_, _, client, _, rfl⟩ := client_of_step hs
      simp only [arrivesUp, arrivesDown, downloads, List.append_nil]
      refine h.same ?_ ?_
      · rfl
      · rfl
  | clientWrites random =>
      obtain ⟨_, hmoves⟩ := moves_of_step hw hs
      cases hmoves with
      | clientWrites random frame rest closed htx hclient hserver hdownlink hwrites =>
          simp only [arrivesUp, arrivesDown, downloads, List.append_nil]
          apply h.same ?_ hserver
          rw [downward, downward, hserver, hdownlink]
  | clientReceives =>
      obtain ⟨frame, harrives, hdown, hserver, _, _⟩ := arrivesDown_eq hw hs
      rw [harrives]
      simp only [arrivesUp, downloads, List.append_nil]
      apply h.same ?_ hserver
      rw [hdown, List.append_assoc]
      rfl
  | serverReceives =>
      obtain ⟨frame, harrives, _, _, hdownlink, hserver⟩ := arrivesUp_eq hw hs
      rw [harrives]
      simp only [arrivesDown, downloads, List.append_nil]
      apply h.emit ?_ hdownlink
      rw [hserver]
      exact connection.server.receive_quiet frame
  | serverWrites random =>
      have hopen := serverWrites_open hs
      obtain ⟨_, hmoves⟩ := moves_of_step hw hs
      cases hmoves with
      | serverWrites random frame rest closed htx hserver hclient huplink hdown =>
          simp only [arrivesUp, arrivesDown, downloads, List.append_nil]
          exact h.write htx hserver hopen hdown
  | server action =>
      obtain ⟨hreceive, hwritten, server, hserver, rfl⟩ := server_of_step hs
      by_cases hpush : ∃ index data, action = .push index data
      · obtain ⟨index, data, rfl⟩ := hpush
        obtain ⟨task, htask, hlen, rfl⟩ := ServerConnection.push_eq_some hserver
        have hdownloads : connection.downloads (.server (.push index data)) =
            [⟨CMD_PSH, task.id, data⟩] := by simp [downloads, htask]
        rw [hdownloads]
        simp only [arrivesUp, arrivesDown, List.append_nil]
        exact h.push hlen (h.tasks task (List.mem_of_getElem? htask)) rfl rfl
      · simp only [not_exists] at hpush
        have hquiet := ServerConnection.quiet_of_step hserver hreceive hwritten hpush
        have hdownloads : connection.downloads (.server action) = [] := by
          cases action with
          | push index data => exact absurd rfl (hpush index data)
          | _ => rfl
        rw [hdownloads]
        simp only [arrivesUp, arrivesDown]
        rw [List.append_nil clientReceived, List.append_nil downloaded]
        exact h.emit hquiet rfl

end

end Connection

end SingBox.AnyTls
