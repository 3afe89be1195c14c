import SingBox.Core.Socks

namespace SingBox.Core.SocksRelay

open Library Socks

-- The client is who sends from the control connection's address, and from the peer once
-- there is one.
def FromClient (controlSourceIp : IpAddr) (peer : Option SocketAddr) (source : SocketAddr) : Prop :=
  source.ip = controlSourceIp ∧ ∀ pinned ∈ peer, source = pinned

instance (controlSourceIp : IpAddr) (peer : Option SocketAddr) (source : SocketAddr) :
    Decidable (FromClient controlSourceIp peer source) :=
  inferInstanceAs (Decidable (_ ∧ _))

-- The packets in the datagrams of the client, in the order they arrive.
def expected (controlSourceIp : IpAddr) : Option SocketAddr → List Datagram → List Packet
  | _, [] => []
  | peer, datagram :: rest =>
      if FromClient controlSourceIp peer datagram.source then
        match decodePacket datagram.bytes with
        | .ok packet => packet :: expected controlSourceIp (some datagram.source) rest
        | .error _ => expected controlSourceIp peer rest
      else expected controlSourceIp peer rest

-- Every datagram of the client is well formed, and its packet is delivered.
def Sound (controlSourceIp : IpAddr) : Option SocketAddr → List (Datagram × Result Unit) → Prop
  | _, [] => True
  | peer, (datagram, delivered) :: rest =>
      if FromClient controlSourceIp peer datagram.source then
        (∃ packet, decodePacket datagram.bytes = .ok packet) ∧ delivered = .ok () ∧
          Sound controlSourceIp (some datagram.source) rest
      else Sound controlSourceIp peer rest

def Event.arrival : Event → Option (Datagram × Result Unit)
  | .datagram arrived delivered => some (arrived, delivered)
  | .reply _ => none

-- What the datagrams that arrive do to an association: each packet of the client is handed
-- over, nothing else is, the client stays the same, and the relay goes on.
structure Tolerates (controlSourceIp : IpAddr) (events : List Event) : Prop where
  running : (run events ⟨{ controlSourceIp }, {}⟩).relay.ended = none
  handed : (run events ⟨{ controlSourceIp }, {}⟩).relay.handed =
    expected controlSourceIp none ((events.filterMap Event.arrival).map Prod.fst)
  pinned : ∀ front back peer, events = front ++ back →
    (run front ⟨{ controlSourceIp }, {}⟩).connection.peer = some peer →
      (run events ⟨{ controlSourceIp }, {}⟩).connection.peer = some peer

theorem run_cons (event : Event) (events : List Event) (this : SocksRelay) :
    run (event :: events) this = run events (this.step event) := rfl

theorem run_append (front back : List Event) (this : SocksRelay) :
    run (front ++ back) this = run back (run front this) := List.foldl_append

-- A datagram of somebody else is as good as none.
theorem receive_foreign {this : SocksPacketConnection} {datagram : Datagram}
    (h : ¬FromClient this.controlSourceIp this.peer datagram.source) :
    this.receive datagram = (none, this) := by
  unfold SocksPacketConnection.receive
  by_cases hip : datagram.source.ip = this.controlSourceIp
  · have hother : this.peer.any (· ≠ datagram.source) = true := by
      cases hpeer : this.peer with
      | none => simp [FromClient, hip, hpeer] at h
      | some peer =>
          simp only [FromClient, hip, hpeer, true_and, Option.mem_some_iff, forall_eq'] at h
          simpa using Ne.symm h
    rw [if_neg (not_not.mpr hip), if_pos hother]
  · rw [if_pos hip]

-- A datagram of the client is decoded.
theorem receive_client {this : SocksPacketConnection} {datagram : Datagram}
    (h : FromClient this.controlSourceIp this.peer datagram.source) :
    this.receive datagram =
      match decodePacket datagram.bytes with
      | .error chain => (some (.error chain), this)
      | .ok packet => (some (.ok packet), { this with peer := some datagram.source }) := by
  obtain ⟨hip, hpinned⟩ := h
  have hsame : ¬this.peer.any (· ≠ datagram.source) = true := by
    cases hpeer : this.peer with
    | none => simp
    | some peer => simpa using (hpinned peer hpeer).symm
  exact (if_neg (not_not.mpr hip)).trans (if_neg hsame)

section

variable {this : SocksRelay} {datagram : Datagram} {delivered : Result Unit}

theorem step_ended (h : this.relay.ended ≠ none) (event : Event) : this.step event = this := by
  have hended : this.relay.ended.isSome := Option.isSome_iff_ne_none.mpr h
  cases event with
  | datagram arrived delivered => exact if_pos hended
  | reply packet =>
      show { this with relay := this.relay.step _ } = this
      rw [PacketRelay.step, if_pos hended]

theorem step_foreign
    (h : ¬FromClient this.connection.controlSourceIp this.connection.peer datagram.source) :
    this.step (.datagram datagram delivered) = this := by
  simp only [step, receive_foreign h]
  exact ite_self this

theorem step_malformed (hrunning : this.relay.ended = none)
    (h : FromClient this.connection.controlSourceIp this.connection.peer datagram.source)
    {chain : List String} (hdecode : decodePacket datagram.bytes = .error chain) :
    this.step (.datagram datagram delivered) =
      { this with relay := { this.relay with ended := some chain } } := by
  simp [step, receive_client h, hdecode, hrunning, PacketRelay.step]

theorem step_packet (hrunning : this.relay.ended = none)
    (h : FromClient this.connection.controlSourceIp this.connection.peer datagram.source)
    {packet : Packet} (hdecode : decodePacket datagram.bytes = .ok packet) :
    this.step (.datagram datagram delivered) =
      { connection := { this.connection with peer := some datagram.source }
        relay := { this.relay with
          handed := this.relay.handed ++ [packet], ended := PacketRelay.errorOf delivered } } := by
  simp [step, receive_client h, hdecode, hrunning, PacketRelay.step]

theorem step_reply (hrunning : this.relay.ended = none) (packet : Packet) :
    this.step (.reply packet) =
      { this with relay := { this.relay with returned := this.relay.returned ++ [packet] } } := by
  simp [step, hrunning, PacketRelay.step, PacketRelay.errorOf]

theorem step_peer {peer : SocketAddr} (h : this.connection.peer = some peer) (event : Event) :
    (this.step event).connection.peer = some peer := by
  by_cases hended : this.relay.ended = none
  · cases event with
    | reply packet => rw [step_reply hended]; exact h
    | datagram datagram delivered =>
        by_cases hclient : FromClient this.connection.controlSourceIp this.connection.peer datagram.source
        · cases hdecode : decodePacket datagram.bytes with
          | error chain => rw [step_malformed hended hclient hdecode]; exact h
          | ok packet =>
              rw [step_packet hended hclient hdecode]
              exact congrArg some (hclient.2 peer h)
        · rw [step_foreign hclient]
          exact h
  · rw [step_ended hended]
    exact h

theorem run_peer {peer : SocketAddr} (h : this.connection.peer = some peer) (events : List Event) :
    (run events this).connection.peer = some peer := by
  induction events generalizing this with
  | nil => exact h
  | cons event events ih => exact ih (step_peer h event)

theorem run_ended (h : this.relay.ended ≠ none) (events : List Event) : run events this = this := by
  induction events with
  | nil => rfl
  | cons event events ih => rw [run_cons, step_ended h, ih]

-- The relay goes on to the end if and only if nothing in the client's datagrams ends it, and
-- if it does, it has handed over what it should have.
theorem run_iff_sound (events : List Event) (hrunning : this.relay.ended = none) :
    ((run events this).relay.ended = none ↔
        Sound this.connection.controlSourceIp this.connection.peer (events.filterMap Event.arrival)) ∧
      ((run events this).relay.ended = none → (run events this).relay.handed = this.relay.handed ++
        expected this.connection.controlSourceIp this.connection.peer
          ((events.filterMap Event.arrival).map Prod.fst)) := by
  induction events generalizing this with
  | nil => exact ⟨iff_of_true hrunning trivial, fun _ => (List.append_nil _).symm⟩
  | cons event events ih =>
      rw [run_cons]
      cases event with
      | reply packet =>
          rw [step_reply hrunning]
          exact ih hrunning
      | datagram datagram delivered =>
          have harrivals : (Event.datagram datagram delivered :: events).filterMap Event.arrival =
              (datagram, delivered) :: events.filterMap Event.arrival := rfl
          rw [harrivals, List.map_cons, Sound, expected]
          by_cases hclient :
              FromClient this.connection.controlSourceIp this.connection.peer datagram.source
          · rw [if_pos hclient, if_pos hclient]
            cases hdecode : decodePacket datagram.bytes with
            | error chain =>
                rw [step_malformed hrunning hclient hdecode, run_ended (by simp)]
                exact ⟨iff_of_false (by simp) (by rintro ⟨⟨_, h⟩, _⟩; cases h), by simp⟩
            | ok packet =>
                rw [step_packet hrunning hclient hdecode]
                cases delivered with
                | error chain =>
                    rw [run_ended (by simp [PacketRelay.errorOf])]
                    exact ⟨iff_of_false (by simp [PacketRelay.errorOf]) (by rintro ⟨_, h, _⟩; cases h),
                      by simp [PacketRelay.errorOf]⟩
                | ok _ =>
                    obtain ⟨hsound, hhanded⟩ := @ih
                      { connection := { this.connection with peer := some datagram.source }
                        relay := { this.relay with handed := this.relay.handed ++ [packet], ended := none } }
                      rfl
                    refine ⟨hsound.trans ⟨fun h => ⟨⟨packet, rfl⟩, rfl, h⟩, fun h => h.2.2⟩, fun h => ?_⟩
                    rw [List.append_assoc, List.singleton_append] at hhanded
                    exact hhanded h
          · rw [if_neg hclient, if_neg hclient, step_foreign hclient]
            exact ih hrunning

end

theorem attempt_eq_ok {destination : Address} {hasIpv6 : Bool} {sendTo : SocketAddr → Result Unit}
    {addresses : List SocketAddr} {lastError : Option (List String)} :
    directSend.attempt hasIpv6 sendTo destination lastError addresses = .ok () ↔
      ∃ address ∈ addresses, (address.ip.bits = 128 → hasIpv6 = true) ∧ sendTo address = .ok () := by
  induction addresses generalizing lastError with
  | nil => cases lastError <;> simp [directSend.attempt, Result.bail]
  | cons address rest ih =>
      rw [List.exists_mem_cons_iff, directSend.attempt]
      by_cases hskip : address.ip.bits = 128 ∧ hasIpv6 = false
      · have hnone : ¬(address.ip.bits = 128 → hasIpv6 = true) := fun h => by
          rw [h hskip.1] at hskip
          cases hskip.2
        rw [if_pos hskip, ih, or_iff_right (mt And.left hnone)]
      · have hsocket : address.ip.bits = 128 → hasIpv6 = true := by simpa using hskip
        rw [if_neg hskip]
        cases hsend : sendTo address with
        | ok _ => exact iff_of_true rfl (.inl ⟨hsocket, rfl⟩)
        | error chain =>
            simp only [ih, reduceCtorEq, and_false, false_or]

-- The direct outbound delivers a packet if its name resolves, and one of the addresses that
-- there is a socket for can be sent to.
theorem directSend_eq_ok {resolved : Result (List SocketAddr)} {hasIpv6 : Bool}
    {sendTo : SocketAddr → Result Unit} {destination : Address} :
    directSend resolved hasIpv6 sendTo destination = .ok () ↔
      ∃ addresses, resolved = .ok addresses ∧
        ∃ address ∈ addresses, (address.ip.bits = 128 → hasIpv6 = true) ∧ sendTo address = .ok () := by
  rw [directSend, Result.bind_eq_ok]
  exact exists_congr fun addresses => and_congr_right fun _ => attempt_eq_ok

-- An association tolerates what arrives if and only if it has nothing to tolerate: every
-- datagram of the client is well formed, and every packet of the client is delivered.
theorem tolerates_iff_sound (controlSourceIp : IpAddr) (events : List Event) :
    Tolerates controlSourceIp events ↔
      Sound controlSourceIp none (events.filterMap Event.arrival) := by
  obtain ⟨hsound, hhanded⟩ := @run_iff_sound ⟨{ controlSourceIp }, {}⟩ events rfl
  constructor
  · exact fun htolerates => hsound.mp htolerates.running
  · intro h
    have hrunning := hsound.mpr h
    refine ⟨hrunning, hhanded hrunning, ?_⟩
    rintro front back peer rfl hpeer
    rw [run_append]
    exact run_peer hpeer back

-- One datagram of the client with a fragment number, before one without.
theorem not_tolerates : ¬∀ (controlSourceIp : IpAddr) (events : List Event),
    Tolerates controlSourceIp events := by
  intro h
  let source : SocketAddr := ⟨.v4 0x0a000001#32, 4000⟩
  let fragment : Datagram := { source, bytes := [0, 0, 1, 1, 1, 1, 1, 1, 0, 53], bytes_le := by decide }
  let whole : Datagram := { source, bytes := [0, 0, 0, 1, 1, 1, 1, 1, 0, 53], bytes_le := by decide }
  have hrunning := (h source.ip [.datagram fragment (.ok ()), .datagram whole (.ok ())]).running
  revert hrunning
  decide

end SingBox.Core.SocksRelay
