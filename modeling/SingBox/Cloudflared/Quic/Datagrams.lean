import SingBox.Cloudflared.Quic.Sessions

namespace SingBox.Cloudflared

open Library SingBox.Core

-- A datagram that does not end the loop: one of version 2 that is not empty, and one
-- of version 3 that is no registration cut off before the end of its address.
def WellFormed (version : DatagramVersion) (data : Bytes) : Prop :=
  match version with
  | .v2 => data ≠ []
  | .v3 => data.head? = some DATAGRAM_V3_REGISTRATION →
      registrationLength data.tail ≤ data.tail.length

namespace QuicConnection

def queue (this : QuicConnection) (session : DatagramSession) : Option (List Bytes) :=
  this.flows[session.flow]?.map Flow.incoming

-- The sessions of other ids stay as they are, their queues too.
def Spares (this next : QuicConnection) (named : Option RequestId) : Prop :=
  ∀ (requestId : RequestId) (session : DatagramSession), named ≠ some requestId →
    this.sessions requestId = some session →
      next.sessions requestId = some session ∧ next.queue session = this.queue session

-- The datagram can be handled, and where it has to wait for the queue of its flow,
-- whatever other tasks do meanwhile.
structure Harmless (env : Environment) (this : QuicConnection) (data : Bytes) : Prop where
  goesOn : ∀ next, this.step env (.datagram data) = some next → next.ended = false
  spares : ∀ next, this.step env (.datagram data) = some next →
    this.Spares next (requestIdOf this.version data)
  delivery : ∀ (next : QuicConnection) (between : List Action) (mid last : QuicConnection),
    this.step env (.datagram data) = some next → next.isReady = false → .deliver ∉ between →
      Run.exec (step env) next between = some mid → mid.step env .deliver = some last →
        last.ended = false ∧ mid.Spares last (requestIdOf this.version data)

-- A connection that takes every datagram, with the calls as they are inside a runtime.
def accepting : Environment where
  sendDatagram _ := .ok ()
  blockingLock
    | .drivesTasks => .panics
    | .blocking => .returns ()
  spawnLocal
    | .drivesTasks => .returns ()
    | .blocking => .panics

-- A registration without an address ends the connection, and so does an empty
-- datagram of version 2.
theorem not_harmless :
    ¬∀ (env : Environment), (∀ data, env.sendDatagram data = .ok ()) →
      ∀ (version : DatagramVersion) (handler : Bool) (actions : List Action)
        (this : QuicConnection), Run.exec (step env) (new version handler) actions = some this →
          ∀ data, Harmless env this data := by
  intro h
  have hv3 := h accepting (fun _ => rfl) .v3 true [] _ rfl [0]
  exact absurd (hv3.goesOn _ rfl) (by decide)

theorem Spares.refl (this : QuicConnection) (named : Option RequestId) : this.Spares this named :=
  fun _ _ _ hs => ⟨hs, rfl⟩

theorem Spares.trans {this mid next : QuicConnection} {named : Option RequestId}
    (h : this.Spares mid named) (h' : mid.Spares next named) : this.Spares next named := by
  intro id session hid hs
  obtain ⟨hmid, hqueue⟩ := h id session hid hs
  obtain ⟨hnext, hlast⟩ := h' id session hid hmid
  exact ⟨hnext, hlast.trans hqueue⟩

theorem spares_openFlow {this : QuicConnection} (h : this.Linked) (id : RequestId)
    (destination : Address) (idleTimeout : Nat) :
    this.Spares (this.openFlow id destination idleTimeout) (some id) := by
  intro other session hid hs
  have hne : other ≠ id := fun he => hid (he ▸ rfl)
  have hlt := (h.session other session hs).1.lt
  refine ⟨by simpa [openFlow, hne] using hs, ?_⟩
  simp [queue, openFlow, List.getElem?_append_left hlt]

theorem spares_entry {this : QuicConnection} (h : this.Linked) (registration : Registration) :
    this.Spares (this.entry registration) (some registration.requestId) := by
  unfold entry
  split
  · exact spares_openFlow h _ _ _
  · exact .refl this _

theorem queue_markActivity (this : QuicConnection) (flow : Nat) (session : DatagramSession) :
    (this.markActivity flow).queue session = this.queue session := by
  simp only [queue, markActivity, modifyFlow, List.getElem?_modify]
  cases this.flows[session.flow]? with
  | none => rfl
  | some found =>
      by_cases hf : flow = session.flow
      · simp [hf]
      · simp [hf]

theorem spares_forward (this : QuicConnection) (id : RequestId) (payload : Bytes)
    (named : Option RequestId) : this.Spares (this.forward id payload) named := by
  unfold forward
  split
  · rename_i found _
    exact fun other session _ hs => ⟨hs, this.queue_markActivity found.flow session⟩
  · exact .refl this named

theorem spares_handleRegistration {env : Environment} {this next : QuicConnection}
    {registration : Registration} (h : this.Linked)
    (hn : this.handleRegistration env registration = .ok next) :
    this.Spares next (some registration.requestId) := by
  obtain ⟨_, rfl⟩ | ⟨_, answered, hanswered, hnext⟩ := handleRegistration_cases hn
  · exact fun _ _ _ hs => ⟨hs, rfl⟩
  · have hspares : this.Spares answered (some registration.requestId) := hanswered ▸
      (spares_entry h registration).trans fun _ _ _ hs => ⟨hs, rfl⟩
    obtain rfl | rfl := hnext
    · exact hspares
    · exact hspares.trans (spares_forward _ _ _ _)

theorem ended_of_ready {this : QuicConnection} (h : this.loop = .ready) : this.ended = false := by
  rw [ended, h]

theorem step_datagram {env : Environment} {this next : QuicConnection} {data : Bytes}
    (hs : this.step env (.datagram data) = some next) :
    this.loop = .ready ∧ next = this.proceed (this.handle env data) := by
  unfold step at hs
  split at hs
  · cases hs
  · simp only at hs
    split at hs
    · rename_i hready
      exact ⟨isReady_iff.mp hready, (Option.some.inj hs).symm⟩
    · cases hs

theorem spares_handle {env : Environment} {this next : QuicConnection} {data : Bytes}
    (h : this.Linked) (hn : this.handle env data = .ok next) :
    this.Spares next (requestIdOf this.version data) := by
  cases handled_of_ok hn with
  | ignored => exact .refl this _
  | registered registration _ hid hn => exact hid ▸ spares_handleRegistration h hn
  | forwarded id payload _ => exact spares_forward this id payload _

-- What the loop does behind a datagram: it is ready, or it waits for the queue of a
-- session with the datagram's id.
def Waits (next : QuicConnection) (named : Option RequestId) : Prop :=
  ∃ id flow payload, named = some id ∧ next.loop = .sending id flow payload

theorem loop_forward {this : QuicConnection} (hready : this.loop = .ready) (id : RequestId)
    (payload : Bytes) :
    (this.forward id payload).loop = .ready ∨ (this.forward id payload).Waits (some id) := by
  unfold forward
  split
  · exact .inr ⟨id, _, payload, rfl, rfl⟩
  · exact .inl hready

theorem loop_handleRegistration {env : Environment} {this next : QuicConnection}
    {registration : Registration} (hready : this.loop = .ready)
    (hn : this.handleRegistration env registration = .ok next) :
    next.loop = .ready ∨ next.Waits (some registration.requestId) := by
  obtain ⟨_, rfl⟩ | ⟨_, answered, hanswered, hnext⟩ := handleRegistration_cases hn
  · exact .inl hready
  · have hloop : answered.loop = .ready := by
      rw [hanswered]
      change (this.entry registration).loop = .ready
      unfold entry
      split
      · exact hready
      · exact hready
    obtain rfl | rfl := hnext
    · exact .inl hloop
    · exact loop_forward hloop _ _

theorem loop_handle {env : Environment} {this next : QuicConnection} {data : Bytes}
    (hready : this.loop = .ready) (hn : this.handle env data = .ok next) :
    next.loop = .ready ∨ next.Waits (requestIdOf this.version data) := by
  cases handled_of_ok hn with
  | ignored => exact .inl hready
  | registered registration _ hid hn => exact hid ▸ loop_handleRegistration hready hn
  | forwarded id payload hid => exact hid ▸ loop_forward hready id payload

-- Where the connection takes what is sent, only a datagram that is not well formed
-- fails to be handled.
theorem handleRegistration_ok {env : Environment} (ha : ∀ data, env.sendDatagram data = .ok ())
    (this : QuicConnection) (registration : Registration) :
    ∃ next, this.handleRegistration env registration = .ok next := by
  have hsend : ∀ (this : QuicConnection) (id : RequestId) (response : UInt8),
      ∃ next, this.sendRegistrationResponse env id response = .ok next := by
    intro this id response
    simp only [sendRegistrationResponse, send, ha, Result.withContext]
    exact ⟨_, rfl⟩
  unfold handleRegistration
  split
  · exact hsend this _ _
  · obtain ⟨answered, hanswered⟩ := hsend (this.entry registration) registration.requestId 0
    simp only [hanswered, Bind.bind, Except.bind]
    split
    · exact ⟨_, rfl⟩
    · exact ⟨_, rfl⟩

theorem handleDatagram_ok_iff {env : Environment} (ha : ∀ data, env.sendDatagram data = .ok ())
    (this : QuicConnection) (data : Bytes) :
    (∃ next, this.handleDatagram env data = .ok next) ↔ WellFormed .v3 data := by
  unfold handleDatagram WellFormed
  cases data with
  | nil => simp
  | cons kind body =>
      simp only [List.head?_cons, List.tail_cons, Option.some.injEq]
      by_cases hkind : kind = DATAGRAM_V3_REGISTRATION
      · simp only [hkind, if_true, forall_const]
        rw [← parseRegistration_ok_iff]
        constructor
        · rintro ⟨next, hn⟩
          obtain ⟨registration, hr, _⟩ := Result.bind_eq_ok.mp hn
          exact ⟨registration, hr⟩
        · rintro ⟨registration, hr⟩
          obtain ⟨next, hn⟩ := handleRegistration_ok ha this registration
          exact ⟨next, Result.bind_eq_ok.mpr ⟨registration, hr, hn⟩⟩
      · simp only [hkind, if_false, false_implies, iff_true]
        split
        · split
          · exact ⟨_, rfl⟩
          · exact ⟨_, rfl⟩
        · exact ⟨_, rfl⟩

theorem handleV2Datagram_ok_iff (this : QuicConnection) (data : Bytes) :
    (∃ next, this.handleV2Datagram data = .ok next) ↔ WellFormed .v2 data := by
  unfold handleV2Datagram WellFormed
  constructor
  · rintro ⟨next, hn⟩
    obtain ⟨_, hensure, _⟩ := Result.bind_eq_ok.mp hn
    simpa using Result.ensure_eq_ok.mp hensure
  · intro hne
    have hensure : (data != []) = true := by simpa using hne
    simp only [hensure, Result.ensure, if_true, Bind.bind, Except.bind]
    split
    · exact ⟨_, rfl⟩
    · split
      · exact ⟨_, rfl⟩
      · exact ⟨_, rfl⟩

theorem handle_ok_iff {env : Environment} (ha : ∀ data, env.sendDatagram data = .ok ())
    (this : QuicConnection) (data : Bytes) :
    (∃ next, this.handle env data = .ok next) ↔ WellFormed this.version data := by
  unfold handle
  split
  · rename_i hversion
    exact hversion ▸ handleDatagram_ok_iff ha this data
  · rename_i hversion
    exact hversion ▸ handleV2Datagram_ok_iff this data

-- While the loop waits for a queue only the tasks go on, and they leave it waiting.
theorem loop_of_waiting {env : Environment} {this next : QuicConnection} {id : RequestId}
    {flow : Nat} {payload : Bytes} (action : Action) (hl : this.loop = .sending id flow payload)
    (hne : action ≠ .deliver) (hs : this.step env action = some next) :
    next.loop = .sending id flow payload := by
  have hbusy : this.loop ≠ .ready := by simp [hl]
  cases stepped_of_step action hs with
  | datagram data hready => exact absurd hready hbusy
  | delivered => exact absurd rfl hne
  | cleaned hready => exact absurd hready hbusy
  | outbound hready _ => exact absurd hready hbusy
  | returned result hready => exact absurd hready hbusy
  | elapsed | flows | queued => exact hl
  | called call he =>
      cases he with
      | nothing | opened | removed => exact hl

theorem loop_of_exec {env : Environment} {this mid : QuicConnection} {id : RequestId} {flow : Nat}
    {payload : Bytes} {between : List Action} (hl : this.loop = .sending id flow payload)
    (hne : .deliver ∉ between) (he : Run.exec (step env) this between = some mid) :
    mid.loop = .sending id flow payload := by
  refine Run.rule (fun _ action => action ≠ .deliver)
    (fun state => state.loop = .sending id flow payload) ?_ this between mid hl ?_ he
  · exact fun state action next hl hne hs => loop_of_waiting action hl hne hs
  · exact Run.meets_of_forall this between fun action ha _ he => hne (he ▸ ha)

theorem spares_deliver {env : Environment} {this next : QuicConnection} {id : RequestId}
    {flow : Nat} {payload : Bytes} (h : this.Linked) (hl : this.loop = .sending id flow payload)
    (hs : this.step env .deliver = some next) :
    next.ended = false ∧ this.Spares next (some id) := by
  have hended : this.ended = false := by rw [ended, hl]
  have hs : this.deliver flow payload = some next := by simpa [step, hended, hl] using hs
  -- the queue that takes the payload is the queue of no other id's session
  have hother : ∀ (other : RequestId) (session : DatagramSession), some id ≠ some other →
      this.sessions other = some session → flow ≠ session.flow := by
    rintro other session hid hsession rfl
    obtain ⟨destination, hd⟩ := h.sending id session.flow payload hl
    obtain ⟨target, ht⟩ := (h.session other session hsession).1
    rw [hd] at ht
    exact hid (congrArg (some ·.1) (Option.some.inj ht))
  unfold deliver at hs
  split at hs
  · split at hs
    · obtain rfl := Option.some.inj hs
      exact ⟨rfl, fun _ _ _ hs => ⟨hs, rfl⟩⟩
    · split at hs
      · obtain rfl := Option.some.inj hs
        refine ⟨rfl, fun other session hid hs => ⟨hs, ?_⟩⟩
        have hne := hother other session hid hs
        simp [queue, modifyFlow, hne]
      · cases hs
  · cases hs

-- The datagrams that do no harm are the well-formed ones.
theorem harmless_iff {env : Environment} (ha : ∀ data, env.sendDatagram data = .ok ())
    (version : DatagramVersion) (handler : Bool) (actions : List Action) {this : QuicConnection}
    (he : Run.exec (step env) (new version handler) actions = some this)
    (hready : this.isReady = true) (data : Bytes) :
    Harmless env this data ↔ WellFormed this.version data := by
  have hlinked := linked_of_exec he
  have hloop := isReady_iff.mp hready
  have hstep : this.step env (.datagram data) = some (this.proceed (this.handle env data)) := by
    simp [step, ended_of_ready hloop, hready]
  rw [← handle_ok_iff ha]
  constructor
  · intro h
    have hgoes := h.goesOn _ hstep
    cases hhandle : this.handle env data with
    | ok next => exact ⟨next, rfl⟩
    | error chain =>
        rw [hhandle] at hgoes
        cases hgoes
  · rintro ⟨next, hnext⟩
    have hs : ∀ other, this.step env (.datagram data) = some other → other = next := by
      intro other ho
      rw [hstep, hnext] at ho
      exact (Option.some.inj ho).symm
    have hafter := loop_handle hloop hnext
    refine ⟨fun other ho => ?_, fun other ho => ?_, fun other between mid last ho hwaits hb hm hd => ?_⟩
    · obtain rfl := hs other ho
      obtain hr | ⟨id, flow, payload, _, hw⟩ := hafter
      · exact ended_of_ready hr
      · rw [ended, hw]
    · obtain rfl := hs other ho
      exact spares_handle hlinked hnext
    · obtain rfl := hs other ho
      obtain hr | ⟨id, flow, payload, hid, hw⟩ := hafter
      · rw [isReady_iff.mpr hr] at hwaits
        cases hwaits
      · have hmid : mid.Linked :=
          Run.invariant (fun _ action _ h hs => h.step action hs) other between mid
            (hlinked.handle hnext) hm
        exact hid ▸ spares_deliver hmid (loop_of_exec hw hb hm) hd

-- 1.1.1.1:53, for thirty seconds.
def sampleRegistration : Bytes :=
  [0, 0, 0, 53, 0, 30] ++ List.replicate 16 9 ++ [1, 1, 1, 1]

-- With a session in the map, a payload for another id and an unknown kind.
theorem harmless_iff_registered :
    ∃ this, Run.exec (step accepting) (new .v3 true) [.datagram sampleRegistration] = some this ∧
      (this.sessions (RequestId.fromSlice (List.replicate 16 9))).isSome = true ∧
      Harmless accepting this (1 :: List.replicate 20 7) ∧ Harmless accepting this [9] := by
  have hrun : ∃ this : QuicConnection,
      Run.exec (step accepting) (new .v3 true) [.datagram sampleRegistration] = some this ∧
        (this.sessions (RequestId.fromSlice (List.replicate 16 9))).isSome = true ∧
        this.isReady = true ∧ this.version = .v3 := ⟨_, rfl, rfl, rfl, rfl⟩
  obtain ⟨this, he, hsession, hready, hversion⟩ := hrun
  refine ⟨this, he, hsession, ?_, ?_⟩
  · refine (harmless_iff (fun _ => rfl) .v3 true _ he hready (1 :: List.replicate 20 7)).mpr ?_
    rw [hversion]
    intro hhead
    cases Option.some.inj hhead
  · refine (harmless_iff (fun _ => rfl) .v3 true _ he hready [9]).mpr ?_
    rw [hversion]
    intro hhead
    cases Option.some.inj hhead

end QuicConnection

end SingBox.Cloudflared
