import SingBox.AnyTls.Connection.Agreement

namespace SingBox.AnyTls

open Library

-- Without rules and with nothing before it, a frame is written as it is.
theorem Link.pass {link : Link} {frame : Frame} {scheme : PaddingScheme}
    (hrules : ∀ index, scheme.rules index = none) (hlen : frame.data.length ≤ MAX_FRAME_SIZE)
    (hbytes : link.bytes = []) :
    ∃ sent, link.write ⟨frame, scheme, fun _ => none⟩ = some sent ∧
      sent.read = some (frame, { sent with bytes := [] }) := by
  have hencode := encodeFrame_ok [] frame hlen
  rw [List.nil_append] at hencode
  have hnone : (if link.packetIndex < scheme.stop then scheme.rules link.packetIndex else none) =
      none := by rw [hrules, ite_self]
  have hread := readFrame_wire frame hlen []
  rw [List.append_nil] at hread
  refine ⟨⟨(link.packetIndex + 1) % 2 ^ 64, frame.wire⟩, ?_, by rw [Link.read, hread]; rfl⟩
  simp only [Link.write, writePaddedFrame, hencode, hnone, hbytes]
  simp [Bind.bind, Except.bind, pure, Except.pure]

-- How the counter of the ids comes round.
namespace Connection

-- Nothing is before the client's next frame, there is no padding, and the server has no
-- stream.
structure Passing (connection : Connection) : Prop where
  txClosed : connection.client.txClosed = false
  rules : ∀ index, connection.client.padding.rules index = none
  received : connection.server.settingsReceived = true
  served : connection.server.streams = []
  loop : connection.server.loop = none
  bytes : connection.uplink.bytes = []

-- A call finds the session free.
structure Idle (connection : Connection) : Prop extends connection.Passing where
  fresh : connection.client.fresh = false
  listed : connection.client.listed = true
  announced : connection.client.announced = true
  streams : connection.client.streams = []
  active : connection.client.active = 0
  closed : connection.client.closed = false
  trying : connection.client.isTrying = false
  tx : connection.client.tx = []

-- A call whose stream the server does not open, and the end of its pump.
def openActions (call pump : Nat) : List ClientSession.Action :=
  [.acquire, .reserve call, .check call, .number call, .insert call, .lookup call, .sendSyn call,
    .fail call, .pumpFinish pump]

def afterOpen (session : ClientSession) : ClientSession :=
  { session with
    nextStreamId := session.nextStreamId + 1
    calls := session.calls ++ [⟨.failed session.nextStreamId false, .waiting⟩]
    pumps := session.pumps ++ [⟨session.nextStreamId, .leaving⟩]
    tx := [⟨CMD_SYN, session.nextStreamId, []⟩, ⟨CMD_FIN, session.nextStreamId, []⟩] }

theorem modify_concat {α : Type} (front : List α) (last : α) (change : α → α) :
    (front ++ [last]).modify front.length change = front ++ [change last] := by
  induction front with
  | nil => rfl
  | cons first rest ih => simp [ih]

theorem Idle.exec_open {connection : Connection} (h : connection.Idle) :
    Run.exec ClientSession.step connection.client
      (openActions connection.client.calls.length connection.client.pumps.length) =
      some (afterOpen connection.client) := by
  obtain ⟨⟨txClosed, -, -, -, -, -⟩, fresh, listed, announced, streams, active, closed, trying, tx⟩ := h
  generalize connection.client = session at *
  obtain ⟨fresh, listed, announced, streams, nextStreamId, active, closed, supportsV2, padding,
    calls, pumps, teardowns, reader, tx, txClosed⟩ := session
  subst_vars
  simp [Run.exec, openActions, afterOpen, trying, modify_concat, ClientSession.step, ClientSession.stage,
    ClientSession.setStage, ClientSession.reserve, ClientSession.insertStream,
    ClientSession.lookup, ClientSession.isRegistered, ClientSession.fail,
    ClientSession.removeStream, ClientSession.send, ClientSession.setPump]

-- The client's own steps are steps of the connection.
theorem exec_client (connection : Connection) {actions : List ClientSession.Action}
    {client : ClientSession} (hown : ∀ action ∈ actions,
      (∀ frame, action ≠ .receive frame) ∧ action ≠ .written)
    (h : Run.exec ClientSession.step connection.client actions = some client) :
    Run.exec step connection (actions.map .client) = some { connection with client } := by
  induction actions generalizing connection with
  | nil =>
      obtain rfl : connection.client = client := by simpa [Run.exec] using h
      rfl
  | cons action rest ih =>
      obtain ⟨mid, hstep, hrest⟩ := Option.bind_eq_some_iff.mp h
      obtain ⟨haction, hothers⟩ := List.forall_mem_cons.mp hown
      have hmid : connection.step (.client action) = some { connection with client := mid } := by
        cases action with
        | receive frame => exact absurd rfl (haction.1 frame)
        | written => exact absurd rfl haction.2
        | _ => simp [step, hstep]
      rw [List.map_cons, Run.exec, hmid]
      exact ih { connection with client := mid } hothers hrest

-- A frame goes all the way up when nothing is before it.
theorem exec_pass (connection : Connection) {frame : Frame} {rest : List Frame}
    (htx : connection.client.tx = frame :: rest) (hopen : connection.client.txClosed = false)
    (hrules : ∀ index, connection.client.padding.rules index = none)
    (hlen : frame.data.length ≤ MAX_FRAME_SIZE) (hbytes : connection.uplink.bytes = [])
    (hloop : connection.server.loop = none) :
    ∃ next, Run.exec step connection [.clientWrites fun _ => none, .serverReceives] = some next ∧
      next.client = { connection.client with tx := rest } ∧
      next.server = connection.server.receive frame ∧ next.downlink = connection.downlink ∧
      next.uplink.bytes = [] := by
  obtain ⟨uplink, hwrite, hread⟩ := Link.pass hrules hlen hbytes
  refine ⟨{ connection with
    client := { connection.client with tx := rest }
    server := connection.server.receive frame
    uplink := { uplink with bytes := [] } }, ?_, rfl, rfl, rfl, rfl⟩
  simp [Run.exec, step, ClientSession.step, htx, hopen, hwrite, hread, ServerConnection.step, hloop]

theorem receive_settings (server : ServerConnection) (padding : PaddingScheme) :
    server.receive (settingsFrame padding) = server.receiveSettings (settingsFrame padding) :=
  if_pos rfl

theorem receive_syn (server : ServerConnection) (id : UInt32) :
    server.receive ⟨CMD_SYN, id, []⟩ = server.receiveSyn ⟨CMD_SYN, id, []⟩ := rfl

theorem receive_fin (server : ServerConnection) (id : UInt32) :
    server.receive ⟨CMD_FIN, id, []⟩ = server.removeStream id := rfl

-- The server opens the stream of a call that has failed, and ends it.
theorem Passing.serve {connection : Connection} (h : connection.Passing) {id : UInt32}
    (hid : id ≠ 0) (htx : connection.client.tx = [⟨CMD_SYN, id, []⟩, ⟨CMD_FIN, id, []⟩]) :
    ∃ actions next, Run.exec step connection actions = some next ∧ next.Passing ∧
      next.client = { connection.client with tx := [] } := by
  obtain ⟨mid, hsyn, hclient, hserver, _, hbytes⟩ :=
    exec_pass connection htx h.txClosed h.rules (Nat.zero_le _) h.bytes h.loop
  have haccept : mid.server.settingsReceived = true ∧ mid.server.loop = none ∧
      mid.server.streams = [id] := by
    rw [hserver, receive_syn, ServerConnection.receiveSyn, if_neg (by simp [h.received]),
      if_neg hid, if_neg (by simp [h.served])]
    exact ⟨h.received, h.loop, by simp [h.served]⟩
  obtain ⟨hreceived, hloop, hstreams⟩ := haccept
  have hopen : mid.client.txClosed = false := by rw [hclient]; exact h.txClosed
  have hrules : ∀ index, mid.client.padding.rules index = none := by rw [hclient]; exact h.rules
  obtain ⟨next, hfin, hnext, hserved, _, hbytes⟩ :=
    exec_pass mid (by rw [hclient]) hopen hrules (Nat.zero_le _) hbytes hloop
  rw [receive_fin] at hserved
  refine ⟨_, next, Run.exec_trans hsyn hfin, ⟨?_, ?_, ?_, ?_, ?_, hbytes⟩, ?_⟩
  · rw [hnext]
    exact hopen
  · rw [hnext]
    exact hrules
  · rw [hserved]
    exact hreceived
  · rw [hserved, ServerConnection.removeStream, hstreams]
    simp
  · rw [hserved]
    exact hloop
  · rw [hnext, hclient]

theorem Idle.exec_call {connection : Connection} (h : connection.Idle) :
    ∃ actions, Run.exec step connection actions =
      some { connection with client := afterOpen connection.client } := by
  refine ⟨_, exec_client connection ?_ h.exec_open⟩
  simp [openActions]

theorem Idle.next {connection : Connection} (h : connection.Idle)
    (hid : connection.client.nextStreamId ≠ 0) :
    ∃ actions next, Run.exec step connection actions = some next ∧ next.Idle ∧
      next.client.nextStreamId = connection.client.nextStreamId + 1 := by
  obtain ⟨front, hopen⟩ := h.exec_call
  have hmid : { connection with client := afterOpen connection.client }.Passing :=
    ⟨h.txClosed, h.rules, h.received, h.served, h.loop, h.bytes⟩
  obtain ⟨back, next, hserve, hpassing, hclient⟩ := hmid.serve hid rfl
  refine ⟨_, next, Run.exec_trans hopen hserve, ⟨hpassing, ?_, ?_, ?_, ?_, ?_, ?_, ?_, ?_⟩, ?_⟩
  · rw [hclient]
    exact h.fresh
  · rw [hclient]
    exact h.listed
  · rw [hclient]
    exact h.announced
  · rw [hclient]
    exact h.streams
  · rw [hclient]
    exact h.active
  · rw [hclient]
    exact h.closed
  · rw [hclient]
    simpa [ClientSession.isTrying, afterOpen] using h.trying
  · rw [hclient]
  · rw [hclient]
    rfl

-- The id zero.
theorem Idle.wrapped {connection : Connection} (h : connection.Idle)
    (hid : connection.client.nextStreamId = 0) :
    ∃ actions next, Run.exec step connection actions = some next ∧ ¬next.Agreed := by
  obtain ⟨front, hopen⟩ := h.exec_call
  obtain ⟨next, hsyn, _, hserver, _⟩ := exec_pass
    { connection with client := afterOpen connection.client } rfl h.txClosed h.rules
    (Nat.zero_le _) h.bytes h.loop
  refine ⟨_, next, Run.exec_trans hopen hsyn, fun hagreed => ?_⟩
  refine (hagreed "AnyTLS stream id cannot be zero").1 ?_
  rw [hserver, receive_syn, ServerConnection.receiveSyn, if_neg (by simp [h.received]), if_pos hid]
  rfl

def firstActions : List ClientSession.Action :=
  [.acquire, .reserve 0, .push, .check 0, .number 0, .insert 0, .lookup 0, .sendSyn 0, .fail 0,
    .pumpFinish 0]

def afterFirst : ClientSession :=
  { ClientSession.new PLAIN with
    fresh := false, listed := true, announced := true, nextStreamId := 2
    calls := [⟨.failed 1 false, .waiting⟩]
    pumps := [⟨1, .leaving⟩]
    tx := [⟨CMD_SYN, 1, []⟩, ⟨CMD_FIN, 1, []⟩] }

-- The settings and the first stream of a session.
theorem exec_first : ∃ actions next, Run.exec step (new PLAIN PLAIN) actions = some next ∧
    next.Idle ∧ next.client.nextStreamId = 2 := by
  have hannounce : Run.exec step (new PLAIN PLAIN) [.client .announce] = some { new PLAIN PLAIN with
      client := { ClientSession.new PLAIN with
        announced := true, tx := [settingsFrame PLAIN] } } := rfl
  obtain ⟨mid, hsettings, hclient, hserver, _, hbytes⟩ := exec_pass { new PLAIN PLAIN with
      client := { ClientSession.new PLAIN with announced := true, tx := [settingsFrame PLAIN] } }
    rfl rfl (fun _ => rfl) (settingsData_length PLAIN) rfl rfl
  have hreceived : (ServerConnection.new PLAIN).Received (settingsFrame PLAIN) mid.server := by
    rw [hserver, receive_settings]
    exact ServerConnection.received_settings rfl
  have hserved : mid.server.streams = [] :=
    List.eq_nil_iff_forall_not_mem.mpr fun id hid => by
      cases hreceived.other (show CMD_SETTINGS ≠ CMD_SYN by decide) id hid
  have hready : mid.server.settingsReceived = true := by
    rw [hreceived.settingsReceived, Bool.or_eq_true]
    have hcommand : (settingsFrame PLAIN).command = CMD_SETTINGS := rfl
    exact .inr (decide_eq_true hcommand)
  have hfirst : Run.exec ClientSession.step mid.client firstActions = some afterFirst := by
    rw [hclient]
    rfl
  have hopen := exec_client mid (by simp [firstActions]) hfirst
  have hpassing : { mid with client := afterFirst }.Passing :=
    ⟨rfl, fun _ => rfl, hready, hserved, hreceived.loop, hbytes⟩
  obtain ⟨back, next, hserve, hnext, hdone⟩ := hpassing.serve (show (1 : UInt32) ≠ 0 by decide) rfl
  refine ⟨_, next, Run.exec_trans hannounce (Run.exec_trans hsettings (Run.exec_trans hopen hserve)),
    ?_, congrArg ClientSession.nextStreamId hdone⟩
  exact ⟨hnext, congrArg ClientSession.fresh hdone, congrArg ClientSession.listed hdone,
    congrArg ClientSession.announced hdone, congrArg ClientSession.streams hdone,
    congrArg ClientSession.active hdone, congrArg ClientSession.closed hdone,
    congrArg ClientSession.isTrying hdone, congrArg ClientSession.tx hdone⟩

-- Every stream takes the next id, and the counter has 32 bits.
theorem exec_counted (n : Nat) (h : n + 2 ≤ 2 ^ 32) :
    ∃ actions next, Run.exec step (new PLAIN PLAIN) actions = some next ∧ next.Idle ∧
      next.client.nextStreamId = UInt32.ofNat (n + 2) := by
  induction n with
  | zero => exact exec_first
  | succ n ih =>
      obtain ⟨front, mid, hfront, hidle, hid⟩ := ih (by omega)
      have hne : mid.client.nextStreamId ≠ 0 := by
        rw [hid]
        intro hzero
        have hnat := congrArg UInt32.toNat hzero
        rw [UInt32.toNat_ofNat'] at hnat
        simp only [UInt32.toNat_zero] at hnat
        omega
      obtain ⟨back, next, hback, hnext, hcount⟩ := hidle.next hne
      refine ⟨_, next, Run.exec_trans hfront hback, hnext, ?_⟩
      rw [hcount, hid, ← UInt32.toNat_inj, UInt32.toNat_add, UInt32.toNat_ofNat', UInt32.toNat_ofNat']
      simp only [UInt32.toNat_one]
      omega

-- The 2^32nd stream of a session has the id zero.
theorem not_agreed : ¬∀ clientPadding serverPadding actions,
    Run.Always step Agreed (new clientPadding serverPadding) actions := by
  intro h
  obtain ⟨front, mid, hfront, hidle, hid⟩ := exec_counted (2 ^ 32 - 2) (by omega)
  obtain ⟨back, next, hback, hnot⟩ := hidle.wrapped hid
  exact hnot ((h PLAIN PLAIN _).final (Run.exec_trans hfront hback))

end Connection

end SingBox.AnyTls
