import SingBox.Cloudflared.Quic

namespace SingBox.Cloudflared

open Library SingBox.Core

-- The id a datagram carries, where it is long enough to carry one.
def requestIdOf (version : DatagramVersion) (data : Bytes) : Option RequestId :=
  match version, data with
  | .v3, kind :: body =>
      if kind = DATAGRAM_V3_REGISTRATION ∧ 5 + DATAGRAM_V3_REQUEST_ID_LENGTH ≤ body.length then
        some (RequestId.fromSlice ((body.drop 5).take DATAGRAM_V3_REQUEST_ID_LENGTH))
      else if kind = DATAGRAM_V3_PAYLOAD ∧ DATAGRAM_V3_REQUEST_ID_LENGTH ≤ body.length then
        some (RequestId.fromSlice (body.take DATAGRAM_V3_REQUEST_ID_LENGTH))
      else none
  | .v3, [] => none
  | .v2, data =>
      if 17 ≤ data.length then
        some (RequestId.fromSlice ((data.drop (data.length - 17)).take 16))
      else none

theorem parseRegistration_requestId {data : Bytes} {registration : Registration}
    (h : parseRegistration data = .ok registration) :
    5 + DATAGRAM_V3_REQUEST_ID_LENGTH ≤ data.length ∧ registration.requestId =
      RequestId.fromSlice ((data.drop 5).take DATAGRAM_V3_REQUEST_ID_LENGTH) := by
  obtain ⟨_, hensure, h⟩ := Result.bind_eq_ok.mp h
  obtain ⟨_, _, h⟩ := Result.bind_eq_ok.mp h
  obtain ⟨_, _, h⟩ := Result.bind_eq_ok.mp h
  refine ⟨of_decide_eq_true (Result.ensure_eq_ok.mp hensure), ?_⟩
  rw [← Except.ok.inj h]

namespace QuicConnection

-- The registration a datagram carries.
def registrationOf (this : QuicConnection) (data : Bytes) : Option Registration :=
  match this.version, data with
  | .v3, kind :: body =>
      if kind = DATAGRAM_V3_REGISTRATION then (parseRegistration body).toOption else none
  | _, _ => none

theorem send_eq_ok {env : Environment} {this next : QuicConnection} {context : String}
    {datagram : Datagram} (h : this.send env context datagram = .ok next) :
    next = { this with sent := this.sent ++ [datagram] } := by
  obtain ⟨_, _, hnext⟩ := Result.bind_eq_ok.mp h
  exact (Except.ok.inj hnext).symm

-- What a registration leads to.
theorem handleRegistration_cases {env : Environment} {this next : QuicConnection}
    {registration : Registration} (h : this.handleRegistration env registration = .ok next) :
    (this.handler = false ∧ next = { this with
        sent := this.sent ++ [.registrationResponse registration.requestId 2] }) ∨
      (this.handler = true ∧ ∃ answered : QuicConnection,
        answered = { this.entry registration with
          sent := (this.entry registration).sent ++
            [.registrationResponse registration.requestId 0] } ∧
        (next = answered ∨ next = answered.forward registration.requestId registration.payload)) := by
  unfold handleRegistration at h
  split at h
  · rename_i hhandler
    exact .inl ⟨hhandler, send_eq_ok h⟩
  · rename_i hhandler
    obtain ⟨answered, hanswered, hnext⟩ := Result.bind_eq_ok.mp h
    refine .inr ⟨by simpa using hhandler, answered, send_eq_ok hanswered, ?_⟩
    split at hnext
    · exact .inl (Except.ok.inj hnext).symm
    · exact .inr (Except.ok.inj hnext).symm

-- What the handling of a datagram can be: it is ignored, it is a registration, or its
-- payload goes to the session of its id.
inductive Handled (env : Environment) (this : QuicConnection) (data : Bytes) :
    QuicConnection → Prop where
  | ignored : Handled env this data this
  | registered {next : QuicConnection} (registration : Registration)
      (hregistration : this.registrationOf data = some registration)
      (hid : requestIdOf this.version data = some registration.requestId)
      (hn : this.handleRegistration env registration = .ok next) : Handled env this data next
  | forwarded (id : RequestId) (payload : Bytes) (hid : requestIdOf this.version data = some id) :
      Handled env this data (this.forward id payload)

theorem handled_of_handleDatagram {env : Environment} {this next : QuicConnection} {data : Bytes}
    (hversion : this.version = .v3) (hn : this.handleDatagram env data = .ok next) :
    this.Handled env data next := by
  unfold handleDatagram at hn
  split at hn
  · exact Except.ok.inj hn ▸ .ignored
  · rename_i kind body
    split at hn
    · rename_i hkind
      obtain ⟨registration, hr, hn⟩ := Result.bind_eq_ok.mp hn
      obtain ⟨hlen, hid⟩ := parseRegistration_requestId hr
      refine .registered registration ?_ ?_ hn
      · simp [registrationOf, hversion, hkind, hr, Except.toOption]
      · rw [hversion, requestIdOf, if_pos ⟨hkind, hlen⟩, hid]
    · rename_i hregistration
      split at hn
      · rename_i hkind
        split at hn
        · exact Except.ok.inj hn ▸ .ignored
        · rename_i hlen
          have hbody : DATAGRAM_V3_REQUEST_ID_LENGTH ≤ body.length := by
            simp only [List.length_cons] at hlen
            omega
          refine Except.ok.inj hn ▸ .forwarded _ _ ?_
          rw [hversion, requestIdOf, if_neg fun h => hregistration h.1, if_pos ⟨hkind, hbody⟩]
      · exact Except.ok.inj hn ▸ .ignored

theorem handled_of_handleV2Datagram {env : Environment} {this next : QuicConnection} {data : Bytes}
    (hversion : this.version = .v2) (hn : this.handleV2Datagram data = .ok next) :
    this.Handled env data next := by
  obtain ⟨_, _, hn⟩ := Result.bind_eq_ok.mp hn
  split at hn
  · exact Except.ok.inj hn ▸ .ignored
  · split at hn
    · exact Except.ok.inj hn ▸ .ignored
    · rename_i hlast
      have hlen : 17 ≤ data.length := Nat.not_lt.mp fun hlt => hlast (.inr hlt)
      refine Except.ok.inj hn ▸ .forwarded _ _ ?_
      rw [hversion, requestIdOf, if_pos hlen]

theorem handled_of_ok {env : Environment} {this next : QuicConnection} {data : Bytes}
    (hn : this.handle env data = .ok next) : this.Handled env data next := by
  unfold handle at hn
  split at hn
  · rename_i hversion
    exact handled_of_handleDatagram hversion hn
  · rename_i hversion
    exact handled_of_handleV2Datagram hversion hn

-- What never changes about the flows.
def keys (this : QuicConnection) : List (RequestId × Address) :=
  this.flows.map fun flow => (flow.requestId, flow.destination)

def Named (this : QuicConnection) (requestId : RequestId) (flow : Nat) : Prop :=
  ∃ destination, this.keys[flow]? = some (requestId, destination)

-- A session belongs to the last flow that was opened for its id, and a payload is on
-- its way to a flow of its id.
structure Linked (this : QuicConnection) : Prop where
  session : ∀ (requestId : RequestId) (session : DatagramSession),
    this.sessions requestId = some session → this.Named requestId session.flow ∧
      ∀ later, session.flow < later → ¬this.Named requestId later
  sending : ∀ (requestId : RequestId) (flow : Nat) (payload : Bytes),
    this.loop = .sending requestId flow payload → this.Named requestId flow

theorem linked_new (version : DatagramVersion) (handler : Bool) : (new version handler).Linked where
  session _ _ h := by cases h
  sending _ _ _ h := by cases h

-- No flow and no session is new, and a payload is on its way to a session's flow.
structure Keeps (this next : QuicConnection) : Prop where
  keys : next.keys = this.keys
  sessions : ∀ (requestId : RequestId) (session : DatagramSession),
    next.sessions requestId = some session → this.sessions requestId = some session
  loop : ∀ (requestId : RequestId) (flow : Nat) (payload : Bytes),
    next.loop = .sending requestId flow payload → this.loop = .sending requestId flow payload ∨
      ∃ session, this.sessions requestId = some session ∧ session.flow = flow

theorem Keeps.refl (this : QuicConnection) : this.Keeps this :=
  ⟨rfl, fun _ _ h => h, fun _ _ _ h => .inl h⟩

theorem Keeps.trans {this mid next : QuicConnection} (h : this.Keeps mid) (h' : mid.Keeps next) :
    this.Keeps next := by
  refine ⟨h'.keys.trans h.keys, fun id session hs => h.sessions id session (h'.sessions id session hs),
    fun id flow payload hl => ?_⟩
  obtain hl | ⟨session, hs, hf⟩ := h'.loop id flow payload hl
  · exact h.loop id flow payload hl
  · exact .inr ⟨session, h.sessions id session hs, hf⟩

theorem Linked.keeps {this next : QuicConnection} (h : this.Linked) (hk : this.Keeps next) :
    next.Linked := by
  have hnamed : ∀ (id : RequestId) (flow : Nat), next.Named id flow ↔ this.Named id flow := by
    intro id flow
    rw [Named, Named, hk.keys]
  refine ⟨fun id session hs => ?_, fun id flow payload hl => ?_⟩
  · simp only [hnamed]
    exact h.session id session (hk.sessions id session hs)
  · rw [hnamed]
    obtain hl | ⟨session, hs, rfl⟩ := hk.loop id flow payload hl
    · exact h.sending id flow payload hl
    · exact (h.session id session hs).1

@[simp] theorem openFlow_keys (this : QuicConnection) (id : RequestId) (destination : Address)
    (idleTimeout : Nat) :
    (this.openFlow id destination idleTimeout).keys = this.keys ++ [(id, destination)] := by
  simp [keys, openFlow]

theorem keys_length (this : QuicConnection) : this.keys.length = this.flows.length :=
  List.length_map _

theorem Named.lt {this : QuicConnection} {id : RequestId} {flow : Nat} (h : this.Named id flow) :
    flow < this.flows.length := by
  obtain ⟨destination, hd⟩ := h
  exact this.keys_length ▸ (List.getElem?_eq_some_iff.mp hd).1

theorem Linked.openFlow {this : QuicConnection} (h : this.Linked) (id : RequestId)
    (destination : Address) (idleTimeout : Nat) :
    (this.openFlow id destination idleTimeout).Linked := by
  have hold : ∀ (other : RequestId) (flow : Nat), flow < this.flows.length →
      ((this.openFlow id destination idleTimeout).Named other flow ↔ this.Named other flow) := by
    intro other flow hlt
    rw [Named, Named, openFlow_keys, List.getElem?_append_left (this.keys_length ▸ hlt)]
  have hnew : ∀ other : RequestId,
      (this.openFlow id destination idleTimeout).Named other this.flows.length → other = id := by
    rintro other ⟨target, ht⟩
    simp [← this.keys_length] at ht
    exact ht.1.symm
  refine ⟨fun other session hs => ?_, fun other flow payload hl => ?_⟩
  · by_cases hid : other = id
    · subst hid
      obtain rfl : { flow := this.flows.length, idleTimeout } = session := by
        simpa [QuicConnection.openFlow] using hs
      refine ⟨⟨destination, by simp [← this.keys_length]⟩, fun later hlater hn => ?_⟩
      have hlt := hn.lt
      simp only [QuicConnection.openFlow, List.length_append, List.length_singleton] at hlt hlater
      omega
    · have hs : this.sessions other = some session := by
        simpa [QuicConnection.openFlow, hid] using hs
      obtain ⟨hn, hlast⟩ := h.session other session hs
      refine ⟨(hold other session.flow hn.lt).mpr hn, fun later hlater hl => ?_⟩
      have hlt := hl.lt
      simp only [QuicConnection.openFlow, List.length_append, List.length_singleton] at hlt
      by_cases heq : later = this.flows.length
      · subst heq
        exact hid (hnew other hl)
      · exact hlast later hlater ((hold other later (by omega)).mp hl)
  · have hn := h.sending other flow payload hl
    exact (hold other flow hn.lt).mpr hn

-- The operations that make no flow.
theorem keys_modifyFlow (this : QuicConnection) (flow : Nat) {change : Flow → Flow}
    (hc : ∀ flow : Flow, (change flow).requestId = flow.requestId ∧
      (change flow).destination = flow.destination) :
    (this.modifyFlow flow change).keys = this.keys := by
  apply List.ext_getElem?
  intro index
  simp only [keys, modifyFlow, List.getElem?_map, List.getElem?_modify]
  cases this.flows[index]? with
  | none => rfl
  | some found =>
      by_cases hi : flow = index
      · simp [hi, hc found]
      · simp [hi]

theorem keys_markActivity (this : QuicConnection) (flow : Nat) :
    (this.markActivity flow).keys = this.keys :=
  this.keys_modifyFlow flow fun _ => ⟨rfl, rfl⟩

theorem keeps_forward (this : QuicConnection) (id : RequestId) (payload : Bytes) :
    this.Keeps (this.forward id payload) := by
  unfold forward
  split
  · rename_i session hs
    refine ⟨this.keys_markActivity session.flow, fun _ _ h => h, fun other flow data hl => ?_⟩
    obtain ⟨rfl, rfl, _⟩ : id = other ∧ session.flow = flow ∧ payload = data := by
      simpa using hl
    exact .inr ⟨session, hs, rfl⟩
  · exact .refl this

theorem keeps_cleanupSessions (this : QuicConnection) : this.Keeps this.cleanupSessions := by
  refine ⟨rfl, fun id session hs => ?_, fun _ _ _ h => .inl h⟩
  exact (Option.filter_eq_some_iff.mp hs).1

theorem keeps_of_proceed {this next : QuicConnection} {result : Result QuicConnection}
    (h : ∀ next, result = .ok next → this.Keeps next) (hn : this.proceed result = next) :
    this.Keeps next := by
  subst hn
  cases result with
  | ok next => exact h next rfl
  | error chain => exact ⟨rfl, fun _ _ h => h, fun _ _ _ h => by cases h⟩

theorem keeps_sent (this : QuicConnection) (sent : List Datagram) :
    this.Keeps { this with sent } :=
  ⟨rfl, fun _ _ h => h, fun _ _ _ h => .inl h⟩

theorem Linked.entry {this : QuicConnection} (h : this.Linked) (registration : Registration) :
    (this.entry registration).Linked := by
  unfold QuicConnection.entry
  split
  · exact h.openFlow _ _ _
  · exact h

theorem Linked.handleRegistration {env : Environment} {this next : QuicConnection}
    {registration : Registration} (h : this.Linked)
    (hn : this.handleRegistration env registration = .ok next) : next.Linked := by
  obtain ⟨_, rfl⟩ | ⟨_, answered, hanswered, hnext⟩ := handleRegistration_cases hn
  · exact h.keeps (this.keeps_sent _)
  · have hlinked : answered.Linked := hanswered ▸ (h.entry registration).keeps (keeps_sent _ _)
    obtain rfl | rfl := hnext
    · exact hlinked
    · exact hlinked.keeps (keeps_forward _ _ _)

theorem Linked.handle {env : Environment} {this next : QuicConnection} {data : Bytes}
    (h : this.Linked) (hn : this.handle env data = .ok next) : next.Linked := by
  cases handled_of_ok hn with
  | ignored => exact h
  | registered registration _ _ hn => exact h.handleRegistration hn
  | forwarded id payload _ => exact h.keeps (this.keeps_forward id payload)

theorem Linked.proceed {this : QuicConnection} {result : Result QuicConnection} (h : this.Linked)
    (hr : ∀ next, result = .ok next → next.Linked) : (this.proceed result).Linked := by
  cases result with
  | ok next => exact hr next rfl
  | error chain => exact ⟨h.session, fun _ _ _ h => by cases h⟩

-- What a call of the session manager can leave behind.
inductive RpcEffect (this : QuicConnection) : QuicConnection → Prop where
  | nothing : RpcEffect this this
  | opened (id : RequestId) (destination : Address) (idleTimeout : Nat) :
      RpcEffect this (this.openFlow id destination idleTimeout)
  | removed (id : RequestId) :
      RpcEffect this { this with sessions := Function.update this.sessions id none }

theorem register_effect (env : Environment) (thread : Thread) (this : QuicConnection)
    (id : RequestId) (destination : Address) (idleTimeout : Nat) :
    this.RpcEffect (this.register env thread id destination idleTimeout).2 := by
  unfold register
  split
  · exact .nothing
  · split
    · exact .nothing
    · split
      · exact .nothing
      · split
        · exact .nothing
        · exact .opened id destination idleTimeout

theorem registerAt_effect (env : Environment) (thread : Thread) (this : QuicConnection)
    (params : RegisterUdpSession) (id : RequestId) (ip : List Char) :
    this.RpcEffect (registerUdpSession.registerAt env thread this params id ip).2 := by
  unfold registerUdpSession.registerAt
  split
  · exact .nothing
  · rename_i destination _
    have heffect := register_effect env thread this id destination
      (if 0 < params.closeAfterIdleHint then params.closeAfterIdleHint.toNat
        else DEFAULT_DATAGRAM_IDLE)
    simp only
    split
    all_goals
      rename_i heq
      rw [heq] at heffect
      exact heffect

theorem unregisterSync_effect (env : Environment) (thread : Thread) (this : QuicConnection)
    (id : RequestId) : this.RpcEffect (this.unregisterSync env thread id).2 := by
  unfold unregisterSync
  split
  · exact .nothing
  · exact .removed id

theorem rpc_effect (env : Environment) (thread : Thread) (this : QuicConnection) (call : RpcCall) :
    this.RpcEffect (this.rpc env thread call).2 := by
  cases call with
  | register params =>
      simp only [QuicConnection.rpc, registerUdpSession]
      repeat' split
      all_goals first
        | exact .nothing
        | exact registerAt_effect env thread this _ _ _
  | unregister sessionId =>
      simp only [QuicConnection.rpc, unregisterUdpSession]
      split
      · rename_i id _
        have heffect := unregisterSync_effect env thread this (RequestId.fromSlice id)
        split
        · split
          all_goals
            rename_i heq
            rw [heq] at heffect
            exact heffect
        · exact .nothing
      · exact .nothing

theorem Linked.rpcEffect {this next : QuicConnection} (h : this.Linked)
    (he : this.RpcEffect next) : next.Linked := by
  cases he with
  | nothing => exact h
  | opened id destination idleTimeout => exact h.openFlow id destination idleTimeout
  | removed id =>
      refine h.keeps ⟨rfl, fun other session hs => ?_, fun _ _ _ h => .inl h⟩
      by_cases hid : other = id
      · simp [hid] at hs
      · simpa [hid] using hs

theorem keeps_deliver {this next : QuicConnection} {flow : Nat} {payload : Bytes}
    (h : this.deliver flow payload = some next) : this.Keeps next := by
  unfold deliver at h
  split at h
  · split at h
    · obtain rfl := Option.some.inj h
      exact ⟨rfl, fun _ _ h => h, fun _ _ _ h => by cases h⟩
    · split at h
      · obtain rfl := Option.some.inj h
        exact ⟨this.keys_modifyFlow flow fun _ => ⟨rfl, rfl⟩, fun _ _ h => h, fun _ _ _ h => by cases h⟩
      · cases h
  · cases h

theorem keeps_sendOutbound {env : Environment} {this next : QuicConnection}
    (h : this.sendOutbound env = some next) : this.Keeps next := by
  unfold sendOutbound at h
  split at h
  · cases h
  · rename_i id payload rest _
    have htaken : this.Keeps { this with outbound := rest } :=
      ⟨rfl, fun _ _ h => h, fun _ _ _ h => .inl h⟩
    simp only at h
    split at h
    · exact Option.some.inj h ▸ htaken
    · refine htaken.trans (keeps_of_proceed (fun sent hs => ?_) (Option.some.inj h))
      exact send_eq_ok hs ▸ keeps_sent _ _

-- What a step can be. `flows` is a step of a flow's task, which leaves all that
-- `keys` tells.
inductive Stepped (env : Environment) (this : QuicConnection) : Action → QuicConnection → Prop where
  | datagram (data : Bytes) (hready : this.loop = .ready) :
      Stepped env this (.datagram data) (this.proceed (this.handle env data))
  | delivered {next : QuicConnection} (id : RequestId) (flow : Nat) (payload : Bytes)
      (hl : this.loop = .sending id flow payload) (hd : this.deliver flow payload = some next) :
      Stepped env this .deliver next
  | cleaned (hready : this.loop = .ready) : Stepped env this .cleanup this.cleanupSessions
  | outbound {next : QuicConnection} (hready : this.loop = .ready)
      (hn : this.sendOutbound env = some next) : Stepped env this .outbound next
  | returned {action : Action} (result : Result Unit) (hready : this.loop = .ready) :
      Stepped env this action { this with loop := .returned result }
  | elapsed (time : Nat) : Stepped env this (.elapse time) { this with now := this.now + time }
  | flows {action : Action} (flows : List Flow) (hkeys : keys { this with flows } = this.keys) :
      Stepped env this action { this with flows }
  | queued {index : Nat} {data : Bytes} (outbound : List (RequestId × Bytes)) :
      Stepped env this (.send index data) { this with outbound }
  | called {next : QuicConnection} (call : RpcCall) (he : this.RpcEffect next) :
      Stepped env this (.rpc call) next

theorem isReady_iff {this : QuicConnection} : this.isReady = true ↔ this.loop = .ready := by
  unfold isReady
  split
  · rename_i hl
    simp [hl]
  · rename_i hl
    simpa using hl

theorem stepped_of_step {env : Environment} {this next : QuicConnection} (action : Action)
    (hs : this.step env action = some next) : this.Stepped env action next := by
  unfold step at hs
  split at hs
  · cases hs
  · cases action with
    | datagram data =>
        simp only at hs
        split at hs
        · rename_i hready
          exact Option.some.inj hs ▸ .datagram data (isReady_iff.mp hready)
        · cases hs
    | deliver =>
        simp only at hs
        split at hs
        · rename_i id flow payload hl
          exact .delivered id flow payload hl hs
        · cases hs
    | cleanup =>
        simp only at hs
        split at hs
        · rename_i hready
          exact Option.some.inj hs ▸ .cleaned (isReady_iff.mp hready)
        · cases hs
    | outbound =>
        simp only at hs
        split at hs
        · rename_i hready
          exact .outbound (isReady_iff.mp hready) hs
        · cases hs
    | lost error =>
        simp only at hs
        split at hs
        · rename_i hready
          exact Option.some.inj hs ▸ .returned (.error error) (isReady_iff.mp hready)
        · cases hs
    | shutdown =>
        simp only at hs
        split at hs
        · rename_i hready
          exact Option.some.inj hs ▸ .returned (.ok ()) (isReady_iff.mp hready)
        · cases hs
    | elapse time => exact Option.some.inj hs ▸ .elapsed time
    | recv index =>
        obtain ⟨found, _, hf⟩ := Option.bind_eq_some_iff.mp hs
        split at hf
        · rename_i data rest _ _
          have hread : (this.modifyFlow index fun flow => { flow with incoming := rest }).keys =
              this.keys := this.keys_modifyFlow index fun _ => ⟨rfl, rfl⟩
          exact Option.some.inj hf ▸ .flows _ ((keys_markActivity _ index).trans hread)
        · cases hf
    | markSend index =>
        obtain ⟨found, _, hf⟩ := Option.bind_eq_some_iff.mp hs
        split at hf
        · exact Option.some.inj hf ▸ .flows _ (this.keys_markActivity index)
        · cases hf
    | send index data =>
        obtain ⟨found, _, hf⟩ := Option.bind_eq_some_iff.mp hs
        split at hf
        · exact Option.some.inj hf ▸ .queued _
        · cases hf
    | finish index =>
        obtain ⟨found, _, hf⟩ := Option.bind_eq_some_iff.mp hs
        split at hf
        · exact Option.some.inj hf ▸ .flows _ (this.keys_modifyFlow index fun _ => ⟨rfl, rfl⟩)
        · cases hf
    | rpc call => exact Option.some.inj hs ▸ .called call (rpc_effect env .drivesTasks this call)

theorem Linked.step {env : Environment} {this next : QuicConnection} (action : Action)
    (h : this.Linked) (hs : this.step env action = some next) : next.Linked := by
  cases stepped_of_step action hs with
  | datagram data _ => exact h.proceed fun _ hn => h.handle hn
  | delivered id flow payload _ hd => exact h.keeps (keeps_deliver hd)
  | cleaned _ => exact h.keeps this.keeps_cleanupSessions
  | outbound _ hn => exact h.keeps (keeps_sendOutbound hn)
  | returned result _ => exact ⟨h.session, fun _ _ _ hl => by cases hl⟩
  | elapsed time => exact ⟨h.session, h.sending⟩
  | flows flows hkeys => exact h.keeps ⟨hkeys, fun _ _ hs => hs, fun _ _ _ hl => .inl hl⟩
  | queued outbound => exact ⟨h.session, h.sending⟩
  | called call he => exact h.rpcEffect he

theorem linked_of_exec {env : Environment} {version : DatagramVersion} {handler : Bool}
    {actions : List Action} {this : QuicConnection}
    (he : Run.exec (step env) (new version handler) actions = some this) : this.Linked :=
  Run.invariant (fun _ action _ h hs => h.step action hs) _ actions this
    (linked_new version handler) he

end QuicConnection

end SingBox.Cloudflared
