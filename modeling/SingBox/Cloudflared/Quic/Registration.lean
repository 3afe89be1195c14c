import SingBox.Cloudflared.Quic.Datagrams

namespace SingBox.Cloudflared

open Library SingBox.Core

namespace QuicConnection

-- The destination of the last flow that was opened for the id.
def lastOpened (this : QuicConnection) (requestId : RequestId) : Option Address :=
  (this.flows.filter fun flow => flow.requestId = requestId).getLast?.map Flow.destination

-- The session of the id holds the queue of a flow that is served, with the
-- destination of the last registration that opened one.
def Live (this : QuicConnection) (requestId : RequestId) : Prop :=
  ∃ session flow, this.sessions requestId = some session ∧
    this.flows[session.flow]? = some flow ∧ flow.running = true ∧ flow.requestId = requestId ∧
      this.lastOpened requestId = some flow.destination

-- A step that answers a registration with success leaves it live.
def AnswersLive (env : Environment) (this : QuicConnection) (action : Action) : Prop :=
  ∀ (next : QuicConnection) (requestId : RequestId), this.step env action = some next →
    .registrationResponse requestId 0 ∈ next.sent.drop this.sent.length → next.Live requestId

-- A registration that can be answered, for an id in the map, comes while the flow of
-- that id is still served.
def FindsServed (env : Environment) (this : QuicConnection) : Action → Prop
  | .datagram data => ∀ registration session, this.isReady = true → this.handler = true →
      this.registrationOf data = some registration →
      env.sendDatagram ((Datagram.registrationResponse registration.requestId 0).encode .v3) =
        .ok () →
      this.sessions registration.requestId = some session →
        ∃ flow, this.flows[session.flow]? = some flow ∧ flow.running = true
  | _ => True

-- The handler of a flow returns, and the same registration comes again.
theorem not_answersLive :
    ¬∀ (env : Environment) (version : DatagramVersion) (handler : Bool) (actions : List Action),
      Run.Meets (step env) (AnswersLive env) (new version handler) actions := by
  intro h
  have hm := h accepting .v3 true
    [.datagram sampleRegistration, .finish 0, .datagram sampleRegistration]
  have hlive := ((hm.2 _ rfl).2 _ rfl).1 _ (RequestId.fromSlice (List.replicate 16 9)) rfl
    (.head _)
  obtain ⟨session, flow, hsession, hflow, hrunning, _⟩ := hlive
  obtain rfl := Option.some.inj hsession
  obtain rfl := Option.some.inj hflow
  cases hrunning

private theorem getLast?_filter {α : Type} {values : List α} {pass : α → Bool} {index : Nat} {value : α}
    (hv : values[index]? = some value) (hp : pass value = true)
    (hlast : ∀ later other, index < later → values[later]? = some other → pass other = false) :
    (values.filter pass).getLast? = some value := by
  obtain ⟨hlt, hget⟩ := List.getElem?_eq_some_iff.mp hv
  have hsplit : values = values.take index ++ value :: values.drop (index + 1) := by
    rw [← hget, List.getElem_cons_drop, List.take_append_drop]
  have hrest : (values.drop (index + 1)).filter pass = [] := by
    refine List.filter_eq_nil_iff.mpr fun other ho => ?_
    obtain ⟨offset, ho⟩ := List.mem_iff_getElem?.mp ho
    rw [List.getElem?_drop] at ho
    simp [hlast (index + 1 + offset) other (by omega) ho]
  rw [hsplit, List.filter_append, List.filter_cons_of_pos hp, hrest]
  simp

theorem live_iff {this : QuicConnection} (h : this.Linked) {id : RequestId}
    {session : DatagramSession} (hs : this.sessions id = some session) :
    this.Live id ↔ ∃ flow, this.flows[session.flow]? = some flow ∧ flow.running = true := by
  constructor
  · rintro ⟨other, flow, ho, hf, hr, _⟩
    obtain rfl : session = other := Option.some.inj (hs.symm.trans ho)
    exact ⟨flow, hf, hr⟩
  · rintro ⟨flow, hf, hr⟩
    obtain ⟨⟨destination, hd⟩, hlast⟩ := h.session id session hs
    have hid : flow.requestId = id := by
      simp only [keys, List.getElem?_map, hf, Option.map_some, Option.some.injEq, Prod.mk.injEq] at hd
      exact hd.1
    refine ⟨session, flow, hs, hf, hr, hid, ?_⟩
    have hopened : (this.flows.filter fun flow => flow.requestId = id).getLast? = some flow := by
      refine getLast?_filter hf (by simp [hid]) fun later other hlater ho => ?_
      refine decide_eq_false fun he => hlast later hlater ⟨other.destination, ?_⟩
      simp [keys, ho, he]
    rw [lastOpened, hopened, Option.map_some]

theorem forward_sent (this : QuicConnection) (id : RequestId) (payload : Bytes) :
    (this.forward id payload).sent = this.sent := by
  unfold forward
  split
  · rfl
  · rfl

-- A registration is handled as such, and nothing else is answered.
theorem handle_registration (env : Environment) {this : QuicConnection} {data : Bytes}
    {registration : Registration} (h : this.registrationOf data = some registration) :
    this.version = .v3 ∧ this.handle env data = this.handleRegistration env registration := by
  unfold registrationOf at h
  split at h
  · rename_i kind body hversion
    split at h
    · rename_i hkind
      refine ⟨hversion, ?_⟩
      cases hparse : parseRegistration body with
      | error chain =>
          rw [hparse] at h
          cases h
      | ok parsed =>
          rw [hparse] at h
          obtain rfl : parsed = registration := Option.some.inj h
          simp only [handle, hversion, handleDatagram, hkind, if_true, hparse]
          rfl
    · cases h
  · cases h

theorem sent_handle {env : Environment} {this next : QuicConnection} {data : Bytes}
    (hn : this.handle env data = .ok next) :
    next.sent = this.sent ∨ ∃ registration, this.registrationOf data = some registration ∧
      this.handleRegistration env registration = .ok next := by
  cases handled_of_ok hn with
  | ignored => exact .inl rfl
  | registered registration hregistration _ hn => exact .inr ⟨registration, hregistration, hn⟩
  | forwarded id payload _ => exact .inl (this.forward_sent id payload)

theorem sent_deliver {this next : QuicConnection} {flow : Nat} {payload : Bytes}
    (h : this.deliver flow payload = some next) : next.sent = this.sent := by
  unfold deliver at h
  repeat' split at h
  all_goals first
    | exact Option.some.inj h ▸ rfl
    | cases h

theorem sent_sendOutbound {env : Environment} {this next : QuicConnection}
    (h : this.sendOutbound env = some next) :
    next.sent = this.sent ∨ ∃ id data, next.sent = this.sent ++ [.payload id data] := by
  unfold sendOutbound at h
  split at h
  · cases h
  · rename_i id payload rest _
    simp only at h
    split at h
    · exact .inl (Option.some.inj h ▸ rfl)
    · obtain rfl := Option.some.inj h
      unfold proceed
      split
      · rename_i sent hsent
        exact .inr ⟨id, payload, congrArg QuicConnection.sent (send_eq_ok hsent)⟩
      · exact .inl rfl

-- The other steps send payloads at most.
theorem sent_of_step {env : Environment} {this next : QuicConnection} {action : Action}
    (ha : ∀ data, action ≠ .datagram data) (hs : this.step env action = some next) :
    next.sent = this.sent ∨ ∃ id data, next.sent = this.sent ++ [.payload id data] := by
  cases stepped_of_step action hs with
  | datagram data _ => exact absurd rfl (ha data)
  | delivered id flow payload _ hd => exact .inl (sent_deliver hd)
  | outbound _ hn => exact sent_sendOutbound hn
  | cleaned | returned | elapsed | flows | queued => exact .inl rfl
  | called call he =>
      cases he with
      | nothing | opened | removed => exact .inl rfl

-- What a payload that goes on to the session leaves of the flows and the sessions.
theorem running_forward (this : QuicConnection) (id : RequestId) (payload : Bytes)
    (session : DatagramSession) :
    (∃ flow, (this.forward id payload).flows[session.flow]? = some flow ∧ flow.running = true) ↔
      ∃ flow, this.flows[session.flow]? = some flow ∧ flow.running = true := by
  unfold forward
  split
  · rename_i found _
    simp only [markActivity, modifyFlow, List.getElem?_modify]
    cases this.flows[session.flow]? with
    | none => simp
    | some flow =>
        by_cases hf : found.flow = session.flow
        · simp [hf]
        · simp [hf]
  · exact .rfl

theorem forward_sessions (this : QuicConnection) (id : RequestId) (payload : Bytes) :
    (this.forward id payload).sessions = this.sessions := by
  unfold forward
  split
  · rfl
  · rfl

-- After a registration has been answered with success, its session is served unless
-- it was there before and is not.
theorem live_handleRegistration {env : Environment} {this next : QuicConnection}
    {registration : Registration} (h : this.Linked) (hhandler : this.handler = true)
    (hn : this.handleRegistration env registration = .ok next) :
    next.Live registration.requestId ↔ ∀ session, this.sessions registration.requestId = some session →
      ∃ flow, this.flows[session.flow]? = some flow ∧ flow.running = true := by
  have hlinked := h.handleRegistration hn
  obtain ⟨hno, _⟩ | ⟨_, answered, hanswered, hnext⟩ := handleRegistration_cases hn
  · rw [hhandler] at hno
    cases hno
  · have hsessions : next.sessions = (this.entry registration).sessions := by
      obtain rfl | rfl := hnext
      · rw [hanswered]
      · rw [forward_sessions, hanswered]
    have hrunning : ∀ session : DatagramSession,
        (∃ flow, next.flows[session.flow]? = some flow ∧ flow.running = true) ↔
          ∃ flow, (this.entry registration).flows[session.flow]? = some flow ∧
            flow.running = true := by
      intro session
      obtain rfl | rfl := hnext
      · rw [hanswered]
      · rw [running_forward, hanswered]
    cases hold : this.sessions registration.requestId with
    | none =>
        have hentry : this.entry registration = this.openFlow registration.requestId
            registration.destination registration.idleTimeout := by simp [entry, hold]
        rw [hentry] at hsessions hrunning
        have hs : next.sessions registration.requestId =
            some { flow := this.flows.length, idleTimeout := registration.idleTimeout } := by
          simp [hsessions, openFlow]
        rw [live_iff hlinked hs, hrunning]
        simp [openFlow]
    | some session =>
        have hentry : this.entry registration = this := by simp [entry, hold]
        rw [hentry] at hsessions hrunning
        rw [live_iff hlinked (hsessions ▸ hold), hrunning]
        simp

-- With a handler installed a registration fails only where its answer cannot be sent.
theorem handleRegistration_ok_iff {env : Environment} {this : QuicConnection}
    {registration : Registration} (hhandler : this.handler = true) :
    (∃ next, this.handleRegistration env registration = .ok next) ↔
      env.sendDatagram
        ((Datagram.registrationResponse registration.requestId 0).encode this.version) = .ok () := by
  have hversion : (this.entry registration).version = this.version := by
    unfold entry
    split
    · rfl
    · rfl
  simp only [handleRegistration, hhandler, Bool.true_eq_false, if_false, sendRegistrationResponse,
    send, hversion]
  cases env.sendDatagram
      ((Datagram.registrationResponse registration.requestId 0).encode this.version) with
  | error chain =>
      refine iff_of_false ?_ (by simp)
      rintro ⟨next, hn⟩
      cases hn
  | ok _ =>
      refine iff_of_true ?_ rfl
      simp only [Result.withContext, Bind.bind, Except.bind, pure, Except.pure]
      split
      · exact ⟨_, rfl⟩
      · exact ⟨_, rfl⟩

-- What the answer to a registration says.
theorem sent_handleRegistration {env : Environment} {this next : QuicConnection}
    {registration : Registration} (hn : this.handleRegistration env registration = .ok next) :
    next.sent = this.sent ++
      [.registrationResponse registration.requestId (if this.handler then 0 else 2)] := by
  have hentry : (this.entry registration).sent = this.sent := by
    unfold entry
    split
    · rfl
    · rfl
  obtain ⟨hhandler, rfl⟩ | ⟨hhandler, answered, hanswered, hnext⟩ := handleRegistration_cases hn
  · simp [hhandler]
  · have hsent : next.sent = answered.sent := by
      obtain rfl | rfl := hnext
      · rfl
      · exact forward_sent _ _ _
    rw [hsent, hanswered, hhandler, hentry]
    rfl

theorem answersLive_iff {env : Environment} {this : QuicConnection} (action : Action)
    (h : this.Linked) : AnswersLive env this action ↔ FindsServed env this action := by
  cases action with
  | datagram data =>
      constructor
      · intro hanswers registration session hready hhandler hregistration hsend hsession
        obtain ⟨hversion, hhandle⟩ := handle_registration env hregistration
        obtain ⟨next, hn⟩ := (handleRegistration_ok_iff hhandler).mpr (hversion ▸ hsend)
        have hstep : this.step env (.datagram data) = some next := by
          simp [step, ended_of_ready (isReady_iff.mp hready), hready, hhandle, hn, proceed]
        have hlive := hanswers next registration.requestId hstep (by
          simp [sent_handleRegistration hn, hhandler])
        exact (live_handleRegistration h hhandler hn).mp hlive session hsession
      · intro hfinds next id hs hsent
        obtain ⟨hloop, rfl⟩ := step_datagram hs
        cases hhandle : this.handle env data with
        | error chain => simp [hhandle, proceed] at hsent
        | ok next =>
            simp only [hhandle, proceed] at hsent ⊢
            obtain he | ⟨registration, hregistration, hn⟩ := sent_handle hhandle
            · simp [he] at hsent
            · have hversion := (handle_registration env hregistration).1
              simp only [sent_handleRegistration hn, List.drop_left, List.mem_singleton,
                Datagram.registrationResponse.injEq] at hsent
              obtain ⟨rfl, hresponse⟩ := hsent
              have hhandler : this.handler = true := by
                by_contra hno
                simp [hno] at hresponse
              have hsend := (handleRegistration_ok_iff hhandler).mp ⟨next, hn⟩
              refine (live_handleRegistration h hhandler hn).mpr fun session hsession => ?_
              exact hfinds registration session (isReady_iff.mpr hloop) hhandler hregistration
                (hversion ▸ hsend) hsession
  | _ =>
      refine iff_of_true (fun next id hs hsent => ?_) trivial
      obtain he | ⟨other, data, he⟩ := sent_of_step (by simp) hs
      · simp [he] at hsent
      · simp [he] at hsent

-- Registrations are answered truthfully along exactly the runs in which a registered
-- id comes again only while its flow is served.
theorem answersLive_iff_findsServed (env : Environment) (version : DatagramVersion)
    (handler : Bool) (actions : List Action) :
    Run.Meets (step env) (AnswersLive env) (new version handler) actions ↔
      Run.Meets (step env) (FindsServed env) (new version handler) actions := by
  have hstep : ∀ (state : QuicConnection) (action : Action) (next : QuicConnection),
      state.Linked → state.step env action = some next → next.Linked :=
    fun _ action _ h hs => h.step action hs
  exact Run.meets_congr hstep (fun _ action h => answersLive_iff action h) _ actions
    (linked_new version handler)

end QuicConnection

end SingBox.Cloudflared
