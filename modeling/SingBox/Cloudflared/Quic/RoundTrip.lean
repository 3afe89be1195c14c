import SingBox.Cloudflared.Quic.Datagrams

namespace SingBox.Cloudflared

open Library SingBox.Core

-- The fixed part of a UDP registration, in the order of its bytes; a bundled payload
-- follows it.
structure UdpRegistration where
  flags : UInt8
  port : UInt16
  idleSeconds : UInt16
  requestId : RequestId
  address : IpAddr
  flag_address : flags &&& DATAGRAM_V3_FLAG_IPV6 ≠ 0 ↔ address.bits = 128

namespace UdpRegistration

def octets : IpAddr → Bytes
  | .v4 address => toBe 4 address.toNat
  | .v6 address => toBe 16 address.toNat

def hostText : IpAddr → List Char
  | .v4 address => IpAddr.ipv4Text address
  | .v6 address => IpAddr.ipv6Text address

def header (this : UdpRegistration) : Bytes :=
  this.flags :: (toBe 2 this.port.toNat ++ (toBe 2 this.idleSeconds.toNat ++ this.requestId.bytes))

def fixed (this : UdpRegistration) : Bytes := this.header ++ octets this.address

def idleTimeout (this : UdpRegistration) : Nat :=
  if this.idleSeconds = 0 then DEFAULT_DATAGRAM_IDLE else ofSeconds this.idleSeconds.toNat

def registration (this : UdpRegistration) (payload : Bytes) : Registration where
  requestId := this.requestId
  destination := { host := String.ofList (hostText this.address), port := this.port }
  payload := if this.flags &&& DATAGRAM_V3_FLAG_BUNDLE ≠ 0 then payload else []
  idleTimeout := this.idleTimeout

end UdpRegistration

@[simp] theorem RequestId.fromSlice_bytes (id : RequestId) : RequestId.fromSlice id.bytes = id := by
  obtain ⟨bytes, hlength⟩ := id
  simp only [RequestId.fromSlice, RequestId.mk.injEq]
  rw [List.take_append_of_le_length (by omega), List.take_of_length_le (by omega)]

theorem hostText_ne_nil (address : IpAddr) : UdpRegistration.hostText address ≠ [] := by
  cases address with
  | v4 address => exact ipv4Text_ne_nil address
  | v6 address => exact ipv6Text_ne_nil address

namespace UdpRegistration

variable (this : UdpRegistration)

theorem octets_length (address : IpAddr) : 8 * (octets address).length = address.bits := by
  cases address with
  | v4 address => rw [octets, toBe_length, IpAddr.bits]
  | v6 address => rw [octets, toBe_length, IpAddr.bits]

theorem header_length : this.header.length = 5 + DATAGRAM_V3_REQUEST_ID_LENGTH := by
  have hid := this.requestId.length_bytes
  simp only [header, List.length_cons, List.length_append, toBe_length, hid]
  rfl

theorem addressLength_flags : addressLength this.flags = (octets this.address).length := by
  have hoctets := octets_length this.address
  have hflag := this.flag_address
  unfold addressLength
  split
  · rename_i hset
    have hbits := hflag.mp hset
    omega
  · rename_i hset
    have hbits : this.address.bits = 32 := by
      cases haddress : this.address with
      | v4 address => rfl
      | v6 address =>
          rw [haddress] at hflag
          exact absurd (hflag.mpr rfl) hset
    omega

theorem readHost_octets (rest : Bytes) :
    parseRegistration.readHost this.flags (octets this.address ++ rest) =
      .ok (String.ofList (hostText this.address), (octets this.address).length) := by
  have hflag := this.flag_address
  have htake (bytes : Bytes) : (bytes ++ rest).take bytes.length = bytes := List.take_left' rfl
  unfold parseRegistration.readHost
  cases haddress : this.address with
  | v4 address =>
      have hunset : ¬this.flags &&& DATAGRAM_V3_FLAG_IPV6 ≠ 0 := fun hset => by
        have hbits := hflag.mp hset
        rw [haddress, IpAddr.bits] at hbits
        omega
      have hbytes := htake (toBe 4 address.toNat)
      have hback : ofBe (toBe 4 address.toNat) = address.toNat := ofBe_toBe 4 _ address.isLt
      rw [toBe_length] at hbytes
      rw [if_neg hunset]
      simp [octets, hostText, Result.ensure, hbytes, hback]
  | v6 address =>
      have hset : this.flags &&& DATAGRAM_V3_FLAG_IPV6 ≠ 0 := by
        rw [hflag, haddress, IpAddr.bits]
      have hbytes := htake (toBe 16 address.toNat)
      have hback : ofBe (toBe 16 address.toNat) = address.toNat := ofBe_toBe 16 _ address.isLt
      rw [toBe_length] at hbytes
      rw [if_pos hset]
      simp [octets, hostText, Result.ensure, hbytes, hback]

theorem idleTimeout_eq : (if ofBe (toBe 2 this.idleSeconds.toNat) = 0 then DEFAULT_DATAGRAM_IDLE
    else ofSeconds (ofBe (toBe 2 this.idleSeconds.toNat))) = this.idleTimeout := by
  have hzero : this.idleSeconds.toNat = 0 ↔ this.idleSeconds = 0 :=
    @UInt16.toNat_inj this.idleSeconds 0
  rw [ofBe_toBe 2 _ this.idleSeconds.toNat_lt]
  simp only [hzero, idleTimeout]

theorem parseRegistration_fixed (payload : Bytes) :
    parseRegistration (this.fixed ++ payload) = .ok (this.registration payload) := by
  have hheader := this.header_length
  have hid := this.requestId.length_bytes
  have hdata : this.fixed ++ payload = this.header ++ (octets this.address ++ payload) :=
    List.append_assoc ..
  have henough : 5 + DATAGRAM_V3_REQUEST_ID_LENGTH ≤ (this.fixed ++ payload).length := by
    rw [hdata, List.length_append]
    omega
  have hone : (this.fixed ++ payload).drop 1 = toBe 2 this.port.toNat ++
      (toBe 2 this.idleSeconds.toNat ++ (this.requestId.bytes ++ (octets this.address ++ payload))) := by
    rw [hdata, header, List.cons_append, List.drop_succ_cons, List.drop_zero, List.append_assoc,
      List.append_assoc]
  have hthree : (this.fixed ++ payload).drop 3 = toBe 2 this.idleSeconds.toNat ++
      (this.requestId.bytes ++ (octets this.address ++ payload)) := by
    rw [← List.drop_drop (i := 2) (j := 1), hone, List.drop_left' (toBe_length ..)]
  have hfive : (this.fixed ++ payload).drop 5 =
      this.requestId.bytes ++ (octets this.address ++ payload) := by
    rw [← List.drop_drop (i := 2) (j := 3), hthree, List.drop_left' (toBe_length ..)]
  have hport : ((this.fixed ++ payload).drop 1).take 2 = toBe 2 this.port.toNat := by
    rw [hone, List.take_left' (toBe_length ..)]
  have hidle : ((this.fixed ++ payload).drop 3).take 2 = toBe 2 this.idleSeconds.toNat := by
    rw [hthree, List.take_left' (toBe_length ..)]
  have hname : ((this.fixed ++ payload).drop 5).take DATAGRAM_V3_REQUEST_ID_LENGTH =
      this.requestId.bytes := by
    rw [hfive, List.take_left' hid]
  have hrest : (this.fixed ++ payload).drop (5 + DATAGRAM_V3_REQUEST_ID_LENGTH) =
      octets this.address ++ payload := by
    rw [hdata, List.drop_left' hheader]
  have hpayload : (this.fixed ++ payload).drop
      (5 + DATAGRAM_V3_REQUEST_ID_LENGTH + (octets this.address).length) = payload := by
    rw [← List.drop_drop, hrest, List.drop_left' rfl]
  have hflags : (this.fixed ++ payload).getD 0 0 = this.flags := rfl
  simp only [parseRegistration, Result.ensure, henough, decide_true, if_true, hport, hidle, hname,
    hrest, hflags, readHost_octets, Bind.bind, Except.bind, Address.new_ofList _ (hostText_ne_nil _),
    hpayload, idleTimeout_eq, ofBe_toBe 2 _ this.port.toNat_lt, RequestId.fromSlice_bytes,
    UInt16.ofNat_toNat]
  rfl

theorem parseRegistration_truncated {length : Nat} (h : length < this.fixed.length) :
    ∃ chain, parseRegistration (this.fixed.take length) = .error chain := by
  have hfixed : this.fixed.length =
      5 + DATAGRAM_V3_REQUEST_ID_LENGTH + (octets this.address).length := by
    rw [fixed, List.length_append, this.header_length]
  cases hparse : parseRegistration (this.fixed.take length) with
  | error chain => exact ⟨chain, rfl⟩
  | ok registration =>
      have hlength := (parseRegistration_ok_iff _).mp ⟨registration, hparse⟩
      rw [registrationLength, List.length_take_of_le (by omega)] at hlength
      -- what is left of the header still begins with the flags
      have hflags : (this.fixed.take length).getD 0 0 = this.flags := by
        cases length with
        | zero => omega
        | succ length => rfl
      rw [hflags, addressLength_flags] at hlength
      omega

end UdpRegistration

namespace QuicConnection

-- The loop takes the next payload off its queue and hands the datagram to the QUIC
-- connection.
structure Sends (this : QuicConnection) (datagram : Datagram) : Prop where
  accepted : ∀ env, env.sendDatagram (datagram.encode this.version) = .ok () →
    ∃ next, this.step env .outbound = some next ∧ next.isReady = true ∧
      next.outbound = this.outbound.tail ∧ next.sent = this.sent ++ [datagram]
  refused : ∀ env chain, env.sendDatagram (datagram.encode this.version) = .error chain →
    ∃ next context, this.step env .outbound = some next ∧
      next.loop = .returned (.error (context :: chain)) ∧ next.sent = this.sent

-- The loop takes the next payload off its queue and sends nothing.
def Drops (this : QuicConnection) : Prop :=
  ∀ env, ∃ next, this.step env .outbound = some next ∧ next.isReady = true ∧
    next.outbound = this.outbound.tail ∧ next.sent = this.sent

-- A connection that reads the datagram sends the payload to the session of the id, and
-- it arrives at the end of that session's queue.
structure Carries (version : DatagramVersion) (data : Bytes) (id : RequestId)
    (payload : Bytes) : Prop where
  unknown : ∀ (env : Environment) (this : QuicConnection), this.version = version →
    this.isReady = true → this.sessions id = none → this.step env (.datagram data) = some this
  known : ∀ (env : Environment) (this : QuicConnection) (session : DatagramSession),
    this.version = version → this.isReady = true → this.sessions id = some session →
      ∃ next, this.step env (.datagram data) = some next ∧ next.sessions = this.sessions ∧
        next.loop = .sending id session.flow payload
  arrives : ∀ (env : Environment) (this : QuicConnection) (session : DatagramSession) (flow : Flow),
    this.version = version → this.isReady = true → this.sessions id = some session →
      this.flows[session.flow]? = some flow → flow.running = true →
        flow.incoming.length < QUEUE_CAPACITY →
          ∃ last, Run.exec (step env) this [.datagram data, .deliver] = some last ∧
            last.isReady = true ∧ last.queue session = some (flow.incoming ++ [payload])

-- A connection that reads the datagram stays as it is.
def Ignores (version : DatagramVersion) (data : Bytes) : Prop :=
  ∀ (env : Environment) (this : QuicConnection), this.version = version →
    this.isReady = true → this.step env (.datagram data) = some this

theorem handle_small (env : Environment) (this : QuicConnection) (id : RequestId) {payload : Bytes}
    (h : payload.length ≤ DATAGRAM_V3_MAX_PAYLOAD) :
    this.handle env ((Datagram.payload id payload).encode this.version) =
      .ok (this.forward id payload) := by
  have hid := id.length_bytes
  cases hversion : this.version with
  | v2 =>
      have hdata : (Datagram.payload id payload).encode .v2 = payload ++ (id.bytes ++ [0]) :=
        List.append_assoc ..
      have hlength : (payload ++ (id.bytes ++ [0])).length = payload.length + 17 := by
        simp [hid, DATAGRAM_V3_REQUEST_ID_LENGTH]
      have hne : (payload ++ (id.bytes ++ [0]) != []) = true := by simp
      have hlast : (payload ++ (id.bytes ++ [0])).getLast? = some 0 := by
        rw [← List.append_assoc, List.getLast?_concat]
      have hname : ((payload ++ (id.bytes ++ [0])).drop payload.length).take 16 = id.bytes := by
        rw [List.drop_left' rfl]
        exact List.take_left' hid
      have hmax : ¬DATAGRAM_V3_MAX_PAYLOAD + DATAGRAM_V3_REQUEST_ID_LENGTH + 1 < payload.length + 17 := by
        rw [DATAGRAM_V3_REQUEST_ID_LENGTH]
        omega
      simp only [handle, hversion, handleV2Datagram, hdata, Result.ensure, hne, hlength, hlast, hmax,
        Nat.add_sub_cancel, hname, List.take_left' rfl, RequestId.fromSlice_bytes, if_true, if_false,
        ne_eq, not_true, false_or, Nat.not_lt.mpr (Nat.le_add_left 17 _)]
      rfl
  | v3 =>
      have hdata : (Datagram.payload id payload).encode .v3 =
          DATAGRAM_V3_PAYLOAD :: (id.bytes ++ payload) := by
        simp [Datagram.encode]
      have hlength : (DATAGRAM_V3_PAYLOAD :: (id.bytes ++ payload)).length = 17 + payload.length := by
        simp [hid, DATAGRAM_V3_REQUEST_ID_LENGTH, Nat.add_comm, Nat.add_left_comm]
      have hkind : DATAGRAM_V3_PAYLOAD ≠ DATAGRAM_V3_REGISTRATION := by decide
      have hrange : ¬(17 + payload.length < 1 + DATAGRAM_V3_REQUEST_ID_LENGTH ∨
          1 + DATAGRAM_V3_REQUEST_ID_LENGTH + DATAGRAM_V3_MAX_PAYLOAD < 17 + payload.length) := by
        rw [DATAGRAM_V3_REQUEST_ID_LENGTH]
        omega
      simp only [handle, hversion, hdata, handleDatagram, if_neg hkind, if_true, hlength,
        if_neg hrange, List.take_left' hid, List.drop_left' hid, RequestId.fromSlice_bytes]

theorem handle_large (env : Environment) (this : QuicConnection) (id : RequestId) {payload : Bytes}
    (h : DATAGRAM_V3_MAX_PAYLOAD < payload.length) :
    this.handle env ((Datagram.payload id payload).encode this.version) = .ok this := by
  have hid := id.length_bytes
  cases hversion : this.version with
  | v2 =>
      have hlength : (payload ++ id.bytes ++ [0]).length =
          payload.length + DATAGRAM_V3_REQUEST_ID_LENGTH + 1 := by
        rw [List.length_append, List.length_append, hid, List.length_singleton]
      have hne : (payload ++ id.bytes ++ [0] != []) = true := by simp
      have hmax : DATAGRAM_V3_MAX_PAYLOAD + DATAGRAM_V3_REQUEST_ID_LENGTH + 1 <
          payload.length + DATAGRAM_V3_REQUEST_ID_LENGTH + 1 := by omega
      simp only [handle, hversion, handleV2Datagram, Datagram.encode, Result.ensure, hne, hlength, hmax,
        if_true]
      rfl
  | v3 =>
      have hdata : (Datagram.payload id payload).encode .v3 =
          DATAGRAM_V3_PAYLOAD :: (id.bytes ++ payload) := by
        simp [Datagram.encode]
      have hlength : (DATAGRAM_V3_PAYLOAD :: (id.bytes ++ payload)).length =
          1 + DATAGRAM_V3_REQUEST_ID_LENGTH + payload.length := by
        rw [List.length_cons, List.length_append, hid]
        omega
      have hkind : DATAGRAM_V3_PAYLOAD ≠ DATAGRAM_V3_REGISTRATION := by decide
      have hrange : 1 + DATAGRAM_V3_REQUEST_ID_LENGTH + DATAGRAM_V3_MAX_PAYLOAD <
          1 + DATAGRAM_V3_REQUEST_ID_LENGTH + payload.length := by omega
      simp only [handle, hversion, hdata, handleDatagram, if_neg hkind, if_true, hlength, hrange,
        or_true]

theorem step_of_handle {env : Environment} {this next : QuicConnection} {data : Bytes}
    (hready : this.isReady = true) (h : this.handle env data = .ok next) :
    this.step env (.datagram data) = some next := by
  have hended : this.ended = false := ended_of_ready (isReady_iff.mp hready)
  rw [step, hended, if_neg Bool.false_ne_true, h]
  simp only [hready, if_true, proceed]

theorem forward_known {this : QuicConnection} {id : RequestId} {session : DatagramSession}
    (h : this.sessions id = some session) (payload : Bytes) :
    this.forward id payload =
      { this.markActivity session.flow with loop := .sending id session.flow payload } := by
  rw [forward, h]

theorem queue_forward {this : QuicConnection} {id : RequestId} {session : DatagramSession} {flow : Flow}
    (h : this.sessions id = some session) (hflow : this.flows[session.flow]? = some flow)
    (payload : Bytes) :
    (this.forward id payload).flows[session.flow]? = some { flow with lastActivity := this.now } := by
  rw [forward_known h]
  simp only [markActivity, modifyFlow, List.getElem?_modify_eq, hflow, Option.map_eq_map,
    Option.map_some]

theorem step_deliver (env : Environment) {this : QuicConnection} {id : RequestId} {index : Nat}
    {payload : Bytes} {flow : Flow} (hloop : this.loop = .sending id index payload)
    (hflow : this.flows[index]? = some flow) (hrunning : flow.running = true)
    (hroom : flow.incoming.length < QUEUE_CAPACITY) :
    ∃ last, this.step env .deliver = some last ∧ last.isReady = true ∧
      last.flows[index]? = some { flow with incoming := flow.incoming ++ [payload] } := by
  have hended : this.ended = false := by rw [ended, hloop]
  refine ⟨{ this.modifyFlow index fun flow =>
      { flow with incoming := flow.incoming ++ [payload] } with loop := .ready }, ?_, rfl, ?_⟩
  · simp only [step, hended, Bool.false_eq_true, Bool.true_eq_false, if_false, hloop, deliver, hflow,
      hrunning, hroom, if_true]
  · simp only [modifyFlow, List.getElem?_modify_eq, hflow, Option.map_eq_map, Option.map_some]

theorem carries_small (version : DatagramVersion) (id : RequestId) {payload : Bytes}
    (h : payload.length ≤ DATAGRAM_V3_MAX_PAYLOAD) :
    Carries version ((Datagram.payload id payload).encode version) id payload := by
  have hstep (env : Environment) (this : QuicConnection) (hversion : this.version = version)
      (hready : this.isReady = true) :
      this.step env (.datagram ((Datagram.payload id payload).encode version)) =
        some (this.forward id payload) :=
    step_of_handle hready (hversion ▸ handle_small env this id h)
  constructor
  · intro env this hversion hready hnone
    rw [hstep env this hversion hready, forward, hnone]
  · intro env this session hversion hready hsession
    rw [hstep env this hversion hready, forward_known hsession]
    exact ⟨_, rfl, rfl, rfl⟩
  · intro env this session flow hversion hready hsession hflow hrunning hroom
    have hloop : (this.forward id payload).loop = .sending id session.flow payload := by
      rw [forward_known hsession]
    obtain ⟨last, hlast, hend, hqueue⟩ :=
      step_deliver env hloop (queue_forward hsession hflow payload) hrunning hroom
    refine ⟨last, ?_, hend, ?_⟩
    · rw [Run.exec, hstep env this hversion hready, Option.bind_some, Run.exec, hlast]
      rfl
    · rw [queue, hqueue]
      rfl

theorem ignores_large (version : DatagramVersion) (id : RequestId) {payload : Bytes}
    (h : DATAGRAM_V3_MAX_PAYLOAD < payload.length) :
    Ignores version ((Datagram.payload id payload).encode version) :=
  fun env this hversion hready => step_of_handle hready (hversion ▸ handle_large env this id h)

theorem step_outbound (env : Environment) {this : QuicConnection} (hready : this.isReady = true) :
    this.step env .outbound = this.sendOutbound env := by
  have hended : this.ended = false := ended_of_ready (isReady_iff.mp hready)
  simp only [step, hended, Bool.false_eq_true, if_false, hready, if_true]

theorem sends_small {this : QuicConnection} (hready : this.isReady = true) {id : RequestId}
    {payload : Bytes} {rest : List (RequestId × Bytes)} (hnext : this.outbound = (id, payload) :: rest)
    (h : payload.length ≤ DATAGRAM_V3_MAX_PAYLOAD) : this.Sends (.payload id payload) := by
  have hsmall : ¬DATAGRAM_V3_MAX_PAYLOAD < payload.length := Nat.not_lt.mpr h
  constructor
  · intro env haccepted
    rw [step_outbound env hready]
    simp only [sendOutbound, hnext, hsmall, if_false, send, haccepted, Result.withContext]
    exact ⟨_, rfl, hready, rfl, rfl⟩
  · intro env chain hrefused
    rw [step_outbound env hready]
    simp only [sendOutbound, hnext, hsmall, if_false, send, hrefused, Result.withContext]
    exact ⟨_, _, rfl, rfl, rfl⟩

theorem drops_large {this : QuicConnection} (hready : this.isReady = true) {id : RequestId}
    {payload : Bytes} {rest : List (RequestId × Bytes)} (hnext : this.outbound = (id, payload) :: rest)
    (h : DATAGRAM_V3_MAX_PAYLOAD < payload.length) : this.Drops := by
  intro env
  rw [step_outbound env hready]
  simp only [sendOutbound, hnext, h, if_true]
  exact ⟨_, rfl, hready, rfl, rfl⟩

end QuicConnection

-- Both versions carry what they send, and a registration is read back field by field.
theorem datagrams_round_trip (version : DatagramVersion) :
    (∀ (id : RequestId) (payload : Bytes),
      (payload.length ≤ DATAGRAM_V3_MAX_PAYLOAD →
        (∀ (sender : QuicConnection) (rest : List (RequestId × Bytes)), sender.version = version →
          sender.isReady = true → sender.outbound = (id, payload) :: rest →
            sender.Sends (.payload id payload)) ∧
        QuicConnection.Carries version ((Datagram.payload id payload).encode version) id payload) ∧
      (DATAGRAM_V3_MAX_PAYLOAD < payload.length →
        (∀ (sender : QuicConnection) (rest : List (RequestId × Bytes)), sender.version = version →
          sender.isReady = true → sender.outbound = (id, payload) :: rest → sender.Drops) ∧
        QuicConnection.Ignores version ((Datagram.payload id payload).encode version))) ∧
    ∀ (layout : UdpRegistration) (payload : Bytes),
      parseRegistration (layout.fixed ++ payload) = .ok (layout.registration payload) ∧
      ∀ length < layout.fixed.length,
        ∃ chain, parseRegistration (layout.fixed.take length) = .error chain := by
  constructor
  · intro id payload
    constructor
    · intro hsmall
      refine ⟨?_, QuicConnection.carries_small version id hsmall⟩
      intro sender rest _ hready hnext
      exact QuicConnection.sends_small hready hnext hsmall
    · intro hlarge
      refine ⟨?_, QuicConnection.ignores_large version id hlarge⟩
      intro sender rest _ hready hnext
      exact QuicConnection.drops_large hready hnext hlarge
  · intro layout payload
    exact ⟨layout.parseRegistration_fixed payload, fun _ => layout.parseRegistration_truncated⟩

end SingBox.Cloudflared
