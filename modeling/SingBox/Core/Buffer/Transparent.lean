import SingBox.Core.Buffer
import SingBox.Core.Socks.Codec

namespace SingBox.Core

open Library

-- A buffer that a datagram of any size can be received in.
structure Buffer.Ready (this : Buffer) : Prop where
  whole : this.bytes.length = UDP_BUFFER_SIZE
  roomy : UDP_BUFFER_SIZE ≤ this.capacity

namespace Buffer

variable {this : Buffer}

theorem Ready.recvFrom (h : this.Ready) (datagram : Socks.Datagram) :
    this.recvFrom datagram.bytes = (datagram.bytes.length, this.overwrite datagram.bytes) := by
  have hmin : min datagram.bytes.length this.bytes.length = datagram.bytes.length :=
    Nat.min_eq_left (h.whole ▸ datagram.bytes_le)
  rw [Buffer.recvFrom, hmin, List.take_length]

theorem Ready.overwrite (h : this.Ready) (datagram : Socks.Datagram) :
    (this.overwrite datagram.bytes).Ready where
  whole := by
    have hle := datagram.bytes_le
    have hwhole := h.whole
    rw [Buffer.overwrite, List.length_append, List.length_drop]
    omega
  roomy := h.roomy

end Buffer

-- A packet as it is, and as its buffer is when it has gone back.
structure PooledPacket.Shows (this : PooledPacket) (capacity : Nat) (packet : Packet) : Prop where
  plain : this.plain = packet
  pooled : this.recyclePool = true
  capacity : this.data.capacity = capacity

-- A pass in a buffer comes to what it should have come to without one.
inductive RecvPass.Shows (buffer : Buffer) : RecvPass → Option (Result Packet) → Prop where
  | again {left : Buffer} (ready : left.Ready) : Shows buffer (.again left) none
  | failed {left : Buffer} (chain : List String) (capacity : left.capacity = buffer.capacity) :
      Shows buffer (.failed left chain) (some (.error chain))
  | received {pooled : PooledPacket} {packet : Packet} (shows : pooled.Shows buffer.capacity packet) :
      Shows buffer (.received pooled) (some (.ok packet))

-- `DirectPacketConnection::recv`, without its buffers.
def directReceive (datagram : Socks.Datagram) : Result Packet := do
  let destination ← Address.new (directHost datagram.source.ip) datagram.source.port
  return { data := datagram.bytes, destination }

theorem shows_directPass {buffer : Buffer} (h : buffer.Ready) (datagram : Socks.Datagram) :
    (directPass buffer datagram).Shows buffer (some (directReceive datagram)) := by
  rw [directPass, h.recvFrom datagram, directReceive]
  cases Address.new (directHost datagram.source.ip) datagram.source.port with
  | error chain => exact .failed chain rfl
  | ok destination =>
      refine .received ⟨?_, rfl, rfl⟩
      have hbytes : (datagram.bytes ++ buffer.bytes.drop datagram.bytes.length).take
          datagram.bytes.length = datagram.bytes := List.take_left
      rw [PooledPacket.plain, PooledPacket.fromPool, Buffer.truncate, Buffer.overwrite, hbytes]

namespace SocksPacketConnection

-- What the buffer held before does not matter.
theorem parse_append (bytes stale : Bytes) :
    Socks.decodePacket bytes = parse (bytes ++ stale) bytes.length >>= fun found =>
      .ok { data := bytes.drop found.2, destination := found.1 } := by
  by_cases hlength : 4 ≤ bytes.length
  · have hreserved : (bytes ++ stale).take 2 = bytes.take 2 :=
      List.take_append_of_le_length (by omega)
    have hfragment : (bytes ++ stale).getD 2 0 = bytes.getD 2 0 := by
      rw [List.getD_eq_getElem?_getD, List.getElem?_append_left (by omega),
        ← List.getD_eq_getElem?_getD]
    have hinput : (bytes ++ stale).take bytes.length = bytes := List.take_left
    rw [parse, Socks.decodePacket, hreserved, hfragment, hinput]
    simp only [bind_assoc]
    rfl
  · have hshort : Result.ensure (4 ≤ bytes.length) "truncated SOCKS UDP datagram" =
        .error ["truncated SOCKS UDP datagram"] :=
      Result.ensure_eq_error.mpr ⟨decide_eq_false hlength, rfl⟩
    rw [parse, Socks.decodePacket, hshort]
    rfl

theorem plain_copyWithin (buffer : Buffer) (bytes : Bytes) (start : Nat) (destination : Address) :
    (PooledPacket.fromPool ((buffer.overwrite bytes).copyWithin start bytes.length)
      (bytes.length - start) destination).plain = { data := bytes.drop start, destination } := by
  have hmoved : ((bytes ++ buffer.bytes.drop bytes.length).drop start).take (bytes.length - start) =
      bytes.drop start := by
    by_cases hstart : start ≤ bytes.length
    · rw [List.drop_append_of_le_length hstart]
      exact List.take_left' List.length_drop
    · rw [Nat.sub_eq_zero_of_le (by omega), List.take_zero, List.drop_eq_nil_of_le (by omega)]
  have hkept (rest : Bytes) : (bytes.drop start ++ rest).take (bytes.length - start) =
      bytes.drop start := List.take_left' List.length_drop
  simp only [PooledPacket.plain, PooledPacket.fromPool, Buffer.truncate, Buffer.copyWithin,
    Buffer.overwrite, hmoved, hkept]

theorem shows_pass (this : SocksPacketConnection) {buffer : Buffer} (h : buffer.Ready)
    (datagram : Socks.Datagram) :
    (this.pass buffer datagram).1.Shows buffer (this.receive datagram).1 ∧
      (this.pass buffer datagram).2 = (this.receive datagram).2 := by
  rw [pass, receive, h.recvFrom datagram]
  by_cases hsource : datagram.source.ip ≠ this.controlSourceIp
  · simp only [if_pos hsource, and_true]
    exact .again (h.overwrite datagram)
  by_cases hpeer : this.peer.any (· ≠ datagram.source) = true
  · simp only [if_neg hsource, if_pos hpeer, and_true]
    exact .again (h.overwrite datagram)
  simp only [if_neg hsource, if_neg hpeer, Buffer.overwrite,
    parse_append datagram.bytes (buffer.bytes.drop datagram.bytes.length)]
  cases hparse : parse (datagram.bytes ++ buffer.bytes.drop datagram.bytes.length)
      datagram.bytes.length with
  | error chain => exact ⟨.failed chain rfl, rfl⟩
  | ok found => exact ⟨.received ⟨plain_copyWithin buffer datagram.bytes found.2 found.1, rfl, rfl⟩, rfl⟩

end SocksPacketConnection

-- The packets of a process, had every one of them a vector of its own from the start.
structure PlainPackets where
  connections : List SocksPacketConnection := []
  calls : List (Option Receiver) := []
  packets : List (Option Packet) := []
  returned : List (Nat × Result Nat) := []

namespace PlainPackets

def settle (this : PlainPackets) (index : Nat) : Option (Result Packet) → PlainPackets
  | none => this
  | some (.error chain) =>
      { this with
        calls := this.calls.set index none
        returned := this.returned ++ [(index, .error chain)] }
  | some (.ok packet) =>
      { this with
        calls := this.calls.set index none
        packets := this.packets ++ [some packet]
        returned := this.returned ++ [(index, .ok this.packets.length)] }

def receive (this : PlainPackets) (index socket : Nat) (datagram : Socks.Datagram)
    (receiver : Receiver) : Option PlainPackets :=
  if socket < receiver.sockets then
    match receiver with
    | .direct _ => some (this.settle index (some (directReceive datagram)))
    | .socks number => do
        let (received, connection) := (← this.connections[number]?).receive datagram
        let this := { this with connections := this.connections.set number connection }
        return this.settle index received
  else none

def step (this : PlainPackets) : PacketAction → Option PlainPackets
  | .associate controlSourceIp =>
      some { this with connections := this.connections ++ [{ controlSourceIp }] }
  | .recv receiver => some { this with calls := this.calls ++ [some receiver] }
  | .receive index socket datagram =>
      match this.calls[index]? with
      | some (some receiver) => this.receive index socket datagram receiver
      | _ => none
  | .abort index =>
      match this.calls[index]? with
      | some (some _) => some { this with calls := this.calls.set index none }
      | _ => none
  | .take index =>
      match this.packets[index]? with
      | some (some packet) =>
          some { this with packets := this.packets.set index (some { packet with data := [] }) }
      | _ => none
  | .clone index =>
      match this.packets[index]? with
      | some (some packet) => some { this with packets := this.packets ++ [some packet] }
      | _ => none
  | .assign index data =>
      match this.packets[index]? with
      | some (some packet) =>
          some { this with packets := this.packets.set index (some { packet with data := data.bytes }) }
      | _ => none
  | .drop index =>
      match this.packets[index]? with
      | some (some _) => some { this with packets := this.packets.set index none }
      | _ => none

end PlainPackets

namespace PacketBufferPool

-- The buffers that wait are few, empty and large enough.
structure Kept (this : PacketBufferPool) : Prop where
  few : this.buffers.length ≤ MAX_RETAINED_BUFFERS
  fit : ∀ buffer ∈ this.buffers, buffer.bytes = [] ∧ UDP_BUFFER_SIZE ≤ buffer.capacity

variable {this : PacketBufferPool}

theorem ready_resize (capacity : Nat) : (Buffer.resize ⟨capacity, []⟩ UDP_BUFFER_SIZE 0).Ready where
  whole := by
    rw [Buffer.resize, List.take_nil, List.nil_append, List.length_replicate]
    rfl
  roomy := Nat.le_max_right _ _

theorem Kept.acquire (h : this.Kept) : this.acquire.1.Ready ∧ this.acquire.2.Kept := by
  rw [PacketBufferPool.acquire]
  cases hbuffers : this.buffers with
  | nil =>
      refine ⟨⟨?_, Nat.le_max_right _ _⟩, h⟩
      simp [Buffer.resize]
  | cons buffer buffers =>
      obtain ⟨few, fit⟩ := h
      rw [hbuffers] at few fit
      obtain ⟨⟨hempty, -⟩, hrest⟩ := List.forall_mem_cons.mp fit
      obtain ⟨capacity, bytes⟩ := buffer
      obtain rfl : bytes = [] := hempty
      exact ⟨ready_resize capacity, ⟨Nat.le_of_succ_le few, hrest⟩⟩

theorem Kept.recycle (h : this.Kept) (buffer : Buffer) : (this.recycle buffer).Kept := by
  rw [PacketBufferPool.recycle]
  by_cases hcapacity : buffer.capacity < UDP_BUFFER_SIZE
  · rw [if_pos hcapacity]
    exact h
  by_cases hfew : this.buffers.length < MAX_RETAINED_BUFFERS
  · rw [if_neg hcapacity, if_pos hfew]
    exact ⟨hfew, List.forall_mem_cons.mpr ⟨⟨rfl, Nat.le_of_not_lt hcapacity⟩, h.fit⟩⟩
  · rw [if_neg hcapacity, if_neg hfew]
    exact h

theorem Kept.release (h : this.Kept) (leases : List Buffer) : (this.release leases).Kept := by
  induction leases with
  | nil => exact h
  | cons buffer leases ih => exact ih.recycle buffer

theorem Kept.drop (h : this.Kept) (packet : PooledPacket) : (packet.drop this).Kept := by
  rw [PooledPacket.drop]
  split
  · exact h.recycle _
  · exact h

end PacketBufferPool

-- A call has one lease for each of its sockets, of a whole buffer.
structure Receiving.Sound (call : Receiving) : Prop where
  leases : call.leases.length = call.receiver.sockets
  ready : ∀ lease ∈ call.leases, lease.Ready

namespace PacketBuffers

structure Sound (this : PacketBuffers) : Prop where
  pool : this.pool.Kept
  calls : Slots.All Receiving.Sound this.calls

-- What is left when one does not look at the buffers.
def plain (this : PacketBuffers) : PlainPackets where
  connections := this.connections
  calls := this.calls.map (Option.map Receiving.receiver)
  packets := this.packets.map (Option.map PooledPacket.plain)
  returned := this.returned

variable {this next : PacketBuffers}

theorem acquire_sound {pool : PacketBufferPool} (h : pool.Kept) (count : Nat) :
    (acquire count pool).1.length = count ∧ (∀ lease ∈ (acquire count pool).1, lease.Ready) ∧
      (acquire count pool).2.Kept := by
  induction count generalizing pool with
  | zero => exact ⟨rfl, nofun, h⟩
  | succ count ih =>
      obtain ⟨hready, hpool⟩ := h.acquire
      obtain ⟨hlength, hleases, hkept⟩ := ih hpool
      exact ⟨congrArg (· + 1) hlength, List.forall_mem_cons.mpr ⟨hready, hleases⟩, hkept⟩

theorem Sound.begin (h : this.Sound) (receiver : Receiver) : (this.begin receiver).Sound := by
  obtain ⟨hlength, hleases, hpool⟩ := acquire_sound h.pool receiver.sockets
  refine ⟨hpool, h.calls.append ?_⟩
  rintro call ⟨⟩
  exact ⟨hlength, hleases⟩

theorem plain_begin (receiver : Receiver) :
    (this.begin receiver).plain =
      { this.plain with calls := this.plain.calls ++ [some receiver] } := by
  simp only [begin, plain, List.map_append]
  rfl

-- A pass of a call, with what it shows.
theorem Sound.settle (h : this.Sound) {index : Nat} {call : Receiving} {buffer : Buffer}
    {pass : RecvPass} {received : Option (Result Packet)} (hcall : this.calls[index]? = some (some call))
    (hshows : pass.Shows buffer received) (socket : Nat) :
    (this.settle index socket call pass).Sound ∧
      (this.settle index socket call pass).plain = this.plain.settle index received := by
  have hsound := h.calls.of_getElem? hcall
  cases hshows with
  | again ready =>
      refine ⟨⟨h.pool, h.calls.set index ?_⟩, ?_⟩
      · rintro other ⟨⟩
        refine ⟨List.length_set.trans hsound.leases, fun lease hlease => ?_⟩
        rcases List.mem_or_eq_of_mem_set hlease with hold | rfl
        · exact hsound.ready lease hold
        · exact ready
      · have hsame : this.calls.map (Option.map Receiving.receiver) =
            (this.calls.map (Option.map Receiving.receiver)).set index (some call.receiver) := by
          obtain ⟨hindex, hself⟩ := List.getElem?_eq_some_iff.mp hcall
          have hbound : index < (this.calls.map (Option.map Receiving.receiver)).length := by
            rw [List.length_map]
            exact hindex
          have hreceiver : (this.calls.map (Option.map Receiving.receiver))[index] =
              some call.receiver := by
            rw [List.getElem_map, hself]
            rfl
          rw [← hreceiver, List.set_getElem_self]
        simp only [PacketBuffers.settle, plain, List.map_set, Option.map_some, PlainPackets.settle,
          ← hsame]
  | failed chain _ =>
      refine ⟨⟨(h.pool.release _).recycle _, h.calls.set index nofun⟩, ?_⟩
      simp only [PacketBuffers.settle, plain, List.map_set, Option.map_none, PlainPackets.settle]
  | received shows =>
      refine ⟨⟨h.pool.release _, h.calls.set index nofun⟩, ?_⟩
      simp only [PacketBuffers.settle, plain, List.map_set, Option.map_none, PlainPackets.settle,
        List.map_append, List.map_cons, List.map_nil, Option.map_some, shows.plain, List.length_map]

-- A receiving socket: the call finds its lease where the plain one has a socket.
theorem Sound.receive (h : this.Sound) {index : Nat} {call : Receiving}
    (hcall : this.calls[index]? = some (some call)) (socket : Nat) (datagram : Socks.Datagram) :
    (∀ next, this.receive index socket datagram call = some next → next.Sound) ∧
      (this.receive index socket datagram call).map plain =
        this.plain.receive index socket datagram call.receiver := by
  have hsound := h.calls.of_getElem? hcall
  unfold PacketBuffers.receive PlainPackets.receive
  by_cases hsocket : socket < call.receiver.sockets
  · have hlease : socket < call.leases.length := hsound.leases ▸ hsocket
    have hready : call.leases[socket].Ready := hsound.ready _ (List.getElem_mem hlease)
    rw [if_pos hsocket, List.getElem?_eq_getElem hlease]
    cases call.receiver with
    | direct hasIpv6 =>
        obtain ⟨hnext, hplain⟩ := h.settle hcall (shows_directPass hready datagram) socket
        exact ⟨fun next hsome => Option.some.inj hsome ▸ hnext, congrArg some hplain⟩
    | socks number =>
        cases hconnection : this.connections[number]? with
        | none =>
            have hplain : this.plain.connections[number]? = none := hconnection
            simp only [hconnection, hplain]
            exact ⟨nofun, rfl⟩
        | some connection =>
            have hplain : this.plain.connections[number]? = some connection := hconnection
            obtain ⟨hshows, hconnections⟩ := connection.shows_pass hready datagram
            have hthis : Sound { this with
                connections := this.connections.set number
                  (connection.pass call.leases[socket] datagram).2 } := ⟨h.pool, h.calls⟩
            obtain ⟨hnext, hsettled⟩ := hthis.settle hcall hshows socket
            simp only [hconnection, hplain]
            refine ⟨fun next hsome => Option.some.inj hsome ▸ hnext,
              congrArg some (hsettled.trans ?_)⟩
            rw [hconnections]
            rfl
  · have hlease : call.leases.length ≤ socket := hsound.leases ▸ Nat.le_of_not_lt hsocket
    rw [if_neg hsocket, List.getElem?_eq_none hlease]
    exact ⟨nofun, rfl⟩

-- What one action does, with and without the pool.
theorem Sound.step (h : this.Sound) (action : PacketAction) :
    (∀ next, this.step action = some next → next.Sound) ∧
      (this.step action).map plain = this.plain.step action := by
  have hcalls (index : Nat) : this.plain.calls[index]? =
      this.calls[index]?.map (Option.map Receiving.receiver) := List.getElem?_map ..
  have hpackets (index : Nat) : this.plain.packets[index]? =
      this.packets[index]?.map (Option.map PooledPacket.plain) := List.getElem?_map ..
  have hnone : ∀ next, (none : Option PacketBuffers) = some next → next.Sound := by
    intro next hsome
    cases hsome
  cases action with
  | associate controlSourceIp =>
      exact ⟨fun next hsome => Option.some.inj hsome ▸ ⟨h.pool, h.calls⟩, rfl⟩
  | recv receiver =>
      exact ⟨fun next hsome => Option.some.inj hsome ▸ h.begin receiver,
        congrArg some (plain_begin receiver)⟩
  | receive index socket datagram =>
      simp only [PacketBuffers.step, PlainPackets.step, hcalls]
      rcases hcall : this.calls[index]? with _ | _ | call
      · exact ⟨hnone, rfl⟩
      · exact ⟨hnone, rfl⟩
      · exact h.receive hcall socket datagram
  | abort index =>
      simp only [PacketBuffers.step, PlainPackets.step, hcalls]
      rcases this.calls[index]? with _ | _ | call
      · exact ⟨hnone, rfl⟩
      · exact ⟨hnone, rfl⟩
      · refine ⟨fun next hsome => Option.some.inj hsome ▸
          ⟨h.pool.release call.leases, h.calls.set index fun _ hcall => by cases hcall⟩, ?_⟩
        simp only [Option.map_some, plain, List.map_set, Option.map_none]
  | take index =>
      simp only [PacketBuffers.step, PlainPackets.step, hpackets]
      rcases this.packets[index]? with _ | _ | packet
      · exact ⟨hnone, rfl⟩
      · exact ⟨hnone, rfl⟩
      · refine ⟨fun next hsome => Option.some.inj hsome ▸ ⟨h.pool, h.calls⟩, ?_⟩
        simp only [Option.map_some, plain, List.map_set]
        rfl
  | clone index =>
      simp only [PacketBuffers.step, PlainPackets.step, hpackets]
      rcases this.packets[index]? with _ | _ | packet
      · exact ⟨hnone, rfl⟩
      · exact ⟨hnone, rfl⟩
      · refine ⟨fun next hsome => Option.some.inj hsome ▸ ⟨h.pool, h.calls⟩, ?_⟩
        simp only [Option.map_some, plain, List.map_append]
        rfl
  | assign index data =>
      simp only [PacketBuffers.step, PlainPackets.step, hpackets]
      rcases this.packets[index]? with _ | _ | packet
      · exact ⟨hnone, rfl⟩
      · exact ⟨hnone, rfl⟩
      · refine ⟨fun next hsome => Option.some.inj hsome ▸ ⟨h.pool, h.calls⟩, ?_⟩
        simp only [Option.map_some, plain, List.map_set]
        rfl
  | drop index =>
      simp only [PacketBuffers.step, PlainPackets.step, hpackets]
      rcases this.packets[index]? with _ | _ | packet
      · exact ⟨hnone, rfl⟩
      · exact ⟨hnone, rfl⟩
      · refine ⟨fun next hsome => Option.some.inj hsome ▸ ⟨h.pool.drop packet, h.calls⟩, ?_⟩
        simp only [Option.map_some, plain, List.map_set, Option.map_none]

theorem sound_new : Sound {} where
  pool := ⟨Nat.zero_le _, nofun⟩
  calls := nofun

theorem Sound.exec (h : this.Sound) (actions : List PacketAction) :
    (Run.exec PacketBuffers.step this actions).map plain =
      Run.exec PlainPackets.step this.plain actions := by
  induction actions generalizing this with
  | nil => rfl
  | cons action actions ih =>
      obtain ⟨hsound, hplain⟩ := h.step action
      rw [Run.exec, Run.exec, ← hplain]
      cases hstep : this.step action with
      | none => rfl
      | some next => exact ih (hsound next hstep)

-- Whatever the connections, calls and packets of a process do and in whatever order, nobody
-- can tell that they share their buffers.
theorem pooling_transparent (actions : List PacketAction) :
    (Run.exec PacketBuffers.step {} actions).map plain = Run.exec PlainPackets.step {} actions :=
  sound_new.exec actions

end PacketBuffers

end SingBox.Core
