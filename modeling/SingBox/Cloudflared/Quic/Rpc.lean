import SingBox.Cloudflared.Quic.Datagrams

namespace SingBox.Cloudflared

open Library SingBox.Core

namespace RpcCall

-- A call with a session id of 16 bytes and, to register it, a destination of 4 or 16.
inductive Valid : RpcCall → RequestId → Prop where
  | register (params : RegisterUdpSession) (id ip : Bytes) (hid : params.sessionId = .ok id)
      (hidLength : id.length = 16) (hip : params.dstIp = .ok ip)
      (hipLength : ip.length = 4 ∨ ip.length = 16) :
      Valid (.register (.ok params)) (RequestId.fromSlice id)
  | unregister (id : Bytes) (hidLength : id.length = 16) :
      Valid (.unregister (.ok id)) (RequestId.fromSlice id)

end RpcCall

namespace QuicConnection

-- What a call leaves of the session of its id.
def Settled (this next : QuicConnection) (requestId : RequestId) : RpcCall → Prop
  | .register _ => (next.sessions requestId).isSome = true ∧
      ∀ session, this.sessions requestId = some session → next.sessions requestId = some session
  | .unregister _ => next.sessions requestId = none

structure Completes (this : QuicConnection) (call : RpcCall) (requestId : RequestId)
    (result : Outcome (Result String) × QuicConnection) : Prop where
  returns : ∃ answer, result.1 = .returns answer
  settled : this.Settled result.2 requestId call
  others : ∀ other, other ≠ requestId → result.2.sessions other = this.sessions other

-- The first call to register a session.
theorem not_completes :
    ¬∀ (env : Environment), env.blockingLock .drivesTasks = .panics →
      ∀ (handler : Bool) (actions : List Action) (this : QuicConnection),
        Run.exec (step env) (new .v2 handler) actions = some this →
          ∀ (call : RpcCall) (requestId : RequestId), call.Valid requestId →
            this.Completes call requestId (this.rpc env .drivesTasks call) := by
  intro h
  have hcall := h accepting rfl true [] _ rfl _ _
    (.register ⟨.ok (List.replicate 16 9), .ok [1, 1, 1, 1], 53, 0⟩ (List.replicate 16 9)
      [1, 1, 1, 1] rfl rfl rfl (.inl rfl))
  obtain ⟨answer, hanswer⟩ := hcall.returns
  cases hanswer

-- Nothing in front of the lock stops a valid call.
theorem rpc_register {this : QuicConnection} (hversion : this.version = .v2) (env : Environment)
    (thread : Thread) {params : RegisterUdpSession} {id ip : Bytes} (hid : params.sessionId = .ok id)
    (hidLength : id.length = 16) (hip : params.dstIp = .ok ip)
    (hipLength : ip.length = 4 ∨ ip.length = 16) :
    ∃ destination idleTimeout, this.rpc env thread (.register (.ok params)) =
      match this.register env thread (RequestId.fromSlice id) destination idleTimeout with
      | (.panics, next) => (.panics, next)
      | (.returns (.ok ()), next) => (.returns (.ok ""), next)
      | (.returns (.error chain), next) => (.returns (.ok (chain.headD "")), next) := by
  have hat : ∀ text : List Char, text ≠ [] → ∃ destination idleTimeout,
      registerUdpSession.registerAt env thread this params (RequestId.fromSlice id) text =
        match this.register env thread (RequestId.fromSlice id) destination idleTimeout with
        | (.panics, next) => (.panics, next)
        | (.returns (.ok ()), next) => (.returns (.ok ""), next)
        | (.returns (.error chain), next) => (.returns (.ok (chain.headD "")), next) := by
    intro text htext
    unfold registerUdpSession.registerAt
    rw [Address.new_ofList _ htext]
    exact ⟨_, _, rfl⟩
  obtain h4 | h16 := hipLength
  · simp only [rpc, registerUdpSession, hversion, hid, hidLength, hip, h4, ne_eq, not_true_eq_false,
      if_false, if_true]
    exact hat _ (ipv4Text_ne_nil _)
  · simp only [rpc, registerUdpSession, hversion, hid, hidLength, hip, h16, ne_eq, not_true_eq_false,
      if_false, if_true, show ¬(16 = 4) by decide]
    exact hat _ (ipv6Text_ne_nil _)

-- A call panics where the lock does.
theorem rpc_panics {this : QuicConnection} (hversion : this.version = .v2) {env : Environment}
    {thread : Thread} (hlock : env.blockingLock thread = .panics) {call : RpcCall}
    {requestId : RequestId} (hvalid : call.Valid requestId) :
    this.rpc env thread call = (.panics, this) := by
  cases hvalid with
  | register params id ip hid hidLength hip hipLength =>
      obtain ⟨destination, idleTimeout, hcall⟩ :=
        rpc_register hversion env thread hid hidLength hip hipLength
      simp [hcall, register, hlock]
  | unregister id hidLength =>
      simp [rpc, unregisterUdpSession, hversion, hidLength, unregisterSync, hlock]

-- Where the lock and `spawn_local` come back, and a handler is installed, a call does
-- what it is for.
theorem rpc_completes {this : QuicConnection} (hversion : this.version = .v2)
    (hhandler : this.handler = true) {env : Environment} {thread : Thread}
    (hlock : env.blockingLock thread = .returns ()) (hspawn : env.spawnLocal thread = .returns ())
    {call : RpcCall} {requestId : RequestId} (hvalid : call.Valid requestId) :
    this.Completes call requestId (this.rpc env thread call) := by
  cases hvalid with
  | register params id ip hid hidLength hip hipLength =>
      obtain ⟨destination, idleTimeout, hcall⟩ :=
        rpc_register hversion env thread hid hidLength hip hipLength
      rw [hcall]
      cases hold : this.sessions (RequestId.fromSlice id) with
      | some session =>
          simp only [register, hlock, hold, Option.isSome_some, if_true]
          refine ⟨⟨_, rfl⟩, ⟨by simp [hold], fun _ hs => hs⟩, fun _ _ => rfl⟩
      | none =>
          simp only [register, hlock, hold, Option.isSome_none, Bool.false_eq_true, if_false,
            hhandler, Bool.true_eq_false, hspawn]
          refine ⟨⟨_, rfl⟩, ⟨by simp [openFlow], fun session hs => ?_⟩, fun other hne => ?_⟩
          · rw [hold] at hs
            cases hs
          · simp [openFlow, hne]
  | unregister id hidLength =>
      simp only [rpc, unregisterUdpSession, hversion, hidLength, if_true, unregisterSync, hlock]
      exact ⟨⟨_, rfl⟩, by simp [Settled], fun other hne => by simp [hne]⟩

-- A connection stays with its version.
theorem version_forward (this : QuicConnection) (id : RequestId) (payload : Bytes) :
    (this.forward id payload).version = this.version := by
  unfold forward
  split
  · rfl
  · rfl

theorem version_handleRegistration {env : Environment} {this next : QuicConnection}
    {registration : Registration} (hn : this.handleRegistration env registration = .ok next) :
    next.version = this.version := by
  obtain ⟨_, rfl⟩ | ⟨_, answered, hanswered, hnext⟩ := handleRegistration_cases hn
  · rfl
  · have hversion : answered.version = this.version := by
      rw [hanswered]
      change (this.entry registration).version = this.version
      unfold entry
      split
      · rfl
      · rfl
    obtain rfl | rfl := hnext
    · exact hversion
    · exact (version_forward _ _ _).trans hversion

theorem version_handle {env : Environment} {this next : QuicConnection} {data : Bytes}
    (hn : this.handle env data = .ok next) : next.version = this.version := by
  cases handled_of_ok hn with
  | ignored => rfl
  | registered registration _ _ hn => exact version_handleRegistration hn
  | forwarded id payload _ => exact this.version_forward id payload

theorem version_proceed {this : QuicConnection} {result : Result QuicConnection}
    (h : ∀ next, result = .ok next → next.version = this.version) :
    (this.proceed result).version = this.version := by
  cases result with
  | ok next => exact h next rfl
  | error chain => rfl

theorem version_deliver {this next : QuicConnection} {flow : Nat} {payload : Bytes}
    (h : this.deliver flow payload = some next) : next.version = this.version := by
  unfold deliver at h
  repeat' split at h
  all_goals first
    | exact Option.some.inj h ▸ rfl
    | cases h

theorem version_sendOutbound {env : Environment} {this next : QuicConnection}
    (h : this.sendOutbound env = some next) : next.version = this.version := by
  unfold sendOutbound at h
  split at h
  · cases h
  · simp only at h
    split at h
    · exact Option.some.inj h ▸ rfl
    · refine Option.some.inj h ▸ version_proceed fun _ hn => ?_
      rw [send_eq_ok hn]

theorem version_of_step {env : Environment} {this next : QuicConnection} (action : Action)
    (hs : this.step env action = some next) : next.version = this.version := by
  cases stepped_of_step action hs with
  | datagram data _ => exact version_proceed fun _ hn => version_handle hn
  | delivered id flow payload _ hd => exact version_deliver hd
  | outbound _ hn => exact version_sendOutbound hn
  | cleaned | returned | elapsed | flows | queued => rfl
  | called call he =>
      cases he with
      | nothing | opened | removed => rfl

-- The calls are served by a task, so on a thread that drives tasks.
theorem never_completes {env : Environment} (hlock : env.blockingLock .drivesTasks = .panics)
    (handler : Bool) (actions : List Action) {this : QuicConnection}
    (he : Run.exec (step env) (new .v2 handler) actions = some this) {call : RpcCall}
    {requestId : RequestId} (hvalid : call.Valid requestId) :
    ¬this.Completes call requestId (this.rpc env .drivesTasks call) := by
  have hstep : ∀ (state : QuicConnection) (action : Action) (next : QuicConnection),
      state.version = .v2 → state.step env action = some next → next.version = .v2 :=
    fun _ action _ h hs => (version_of_step action hs).trans h
  have hversion : this.version = .v2 := Run.invariant hstep (new .v2 handler) actions this rfl he
  intro h
  obtain ⟨answer, hanswer⟩ := h.returns
  rw [rpc_panics hversion hlock hvalid] at hanswer
  cases hanswer

-- A call to take a session out that was never there.
theorem never_completes_unregister :
    ¬(new .v2 true).Completes (.unregister (.ok (List.replicate 16 9)))
      (RequestId.fromSlice (List.replicate 16 9))
      ((new .v2 true).rpc accepting .drivesTasks (.unregister (.ok (List.replicate 16 9)))) :=
  never_completes rfl true [] rfl (.unregister (List.replicate 16 9) rfl)

end QuicConnection

end SingBox.Cloudflared
