import SingBox.AnyTls.Tunnel

namespace SingBox.AnyTls

open Library

namespace Session

-- The frame that an event takes from the connection.
def Event.frames : Event → List Frame
  | .action (.receive frame) => [frame]
  | _ => []

-- The event registers a stream under this id, if it registers one.
def Event.Opens (event : Event) (id : UInt32) : Prop :=
  event = .insert id ∨
    ∃ frame, event = .action (.receive frame) ∧ frame.command = CMD_SYN ∧ frame.streamId = id

theorem pushed_eq (id : UInt32) (event : Event) : pushed id [event] = payload id event.frames := by
  cases event with
  | action action =>
      cases action with
      | receive frame => simp [pushed, Event.frames, payload]
      | _ => rfl
  | insert other => rfl
  | cancel => rfl

section

variable {acceptsPadding : Bytes → Bool} {session next : Session}

theorem opens_of_receive (acceptsPadding : Bytes → Bool) (session : Session) (frame : Frame) :
    (session.receive acceptsPadding frame).streams.length = session.streams.length ∨
      (frame.command = CMD_SYN ∧
        session.receive acceptsPadding frame = session.register frame.streamId) := by
  have hpush : (session.receivePush frame).streams.length = session.streams.length := by
    unfold Session.receivePush
    split
    · exact List.length_modify _ _ _
    · rfl
  unfold Session.receive
  split
  · unfold receiveClient
    repeat' split
    all_goals first
      | exact .inl rfl
      | exact .inl hpush
      | exact .inl (remove_length session _ _)
      | exact .inl (finish_length session)
  · unfold receiveServer
    repeat' split
    all_goals first
      | exact .inl rfl
      | exact .inl hpush
      | exact .inr ⟨‹_›, rfl⟩
      | exact .inl (remove_length session _ _)
      | exact .inl (finish_length session)

theorem opens_of_event {event : Event} (he : session.event acceptsPadding event = some next)
    (hopen : event ≠ .action .openStream) :
    next.streams.length = session.streams.length ∨
      ∃ id, event.Opens id ∧ next = session.register id := by
  cases event with
  | insert id =>
      simp only [Session.event] at he
      split at he
      · obtain rfl := Option.some.inj he
        exact .inr ⟨id, .inl rfl, rfl⟩
      · cases he
  | cancel =>
      simp only [Session.event] at he
      split at he
      · obtain rfl := Option.some.inj he
        exact .inl (List.length_map _)
      · cases he
  | action action =>
      cases moves_of_step he with
      | receive frame hidle =>
          obtain hlen | ⟨hsyn, heq⟩ := opens_of_receive acceptsPadding session frame
          · exact .inl hlen
          · exact .inr ⟨frame.streamId, .inr ⟨frame, rfl, hsyn, rfl⟩, heq⟩
      | enqueue _ _ hsent =>
          unfold Session.enqueue at hsent
          repeat' split at hsent
          all_goals first
            | obtain rfl := Option.some.inj hsent
              simp
            | cases hsent
      | close _ => exact .inl (finish_length session)
      | clear _ _ => exact .inl (List.length_map _)
      | closeOutgoing => exact .inl rfl
      | openStream _ _ => exact absurd rfl hopen
      | task _ _ => exact .inl List.length_set
      | pumpRemove _ _ _ => exact .inl ((remove_length _ _ _).trans List.length_set)
      | abandon _ _ _ => exact .inl (remove_length session _ _)

-- The streams of a session have been given what these frames carry for their ids, and no two
-- of them have one id.
structure Takes (session : Session) (received : List Frame) : Prop where
  isolated : session.Isolated
  counted : ∀ (index : Nat) (stream : Stream), session.streams[index]? = some stream →
    Counted stream (payload stream.id received)
  distinct : (session.streams.map Stream.id).Nodup

theorem takes_new (side : Side) : (new side).Takes [] :=
  ⟨isolated_new side, by simp [new], List.nodup_nil⟩

-- The ids of the streams stay, and that of a new stream comes behind them.
theorem ids_of_event {event : Event} (h : session.Isolated)
    (he : session.event acceptsPadding event = some next) (hopen : event ≠ .action .openStream) :
    next.streams.map Stream.id = session.streams.map Stream.id ∨
      ∃ id, event.Opens id ∧ next.streams[session.streams.length]? = some (Stream.new id) ∧
        next.streams.map Stream.id = session.streams.map Stream.id ++ [id] := by
  have hold : ∀ index, index < session.streams.length →
      (next.streams.map Stream.id)[index]? = (session.streams.map Stream.id)[index]? := by
    intro index hlt
    obtain ⟨changed, hchanged, hc⟩ := change_of_event event he (List.getElem?_eq_getElem hlt)
    rw [List.getElem?_map, List.getElem?_map, hchanged, List.getElem?_eq_getElem hlt]
    exact congrArg some (removed_of_change hc).1
  obtain hlen | ⟨id, hid, hn⟩ := opens_of_event he hopen
  · refine .inl (List.ext_getElem? fun index => ?_)
    by_cases hlt : index < session.streams.length
    · exact hold index hlt
    · rw [List.getElem?_eq_none (by simp; omega), List.getElem?_eq_none (by simp; omega)]
  · obtain ⟨hlen, hnew, _⟩ := register_streams h.unique id
    rw [← hn] at hlen hnew
    refine .inr ⟨id, hid, hnew, List.ext_getElem? fun index => ?_⟩
    obtain hlt | rfl | hgt := Nat.lt_trichotomy index session.streams.length
    · rw [hold index hlt, List.getElem?_append_left (by simpa using hlt)]
    · rw [List.getElem?_map, hnew, List.getElem?_append_right (by simp)]
      simp [Stream.new]
    · rw [List.getElem?_eq_none (by simp; omega), List.getElem?_eq_none (by simp; omega)]

theorem Takes.event {received : List Frame} (h : session.Takes received) {event : Event}
    (he : session.event acceptsPadding event = some next) (hopen : event ≠ .action .openStream)
    (hfresh : ∀ id, event.Opens id →
      id ∉ session.streams.map Stream.id ∧ payload id (received ++ event.frames) = []) :
    next.Takes (received ++ event.frames) := by
  have hisolated := h.isolated.event event he
  have hkeeps : ∀ (index : Nat) (stream : Stream), next.streams[index]? = some stream →
      index < session.streams.length → Counted stream (payload stream.id (received ++ event.frames)) := by
    intro index stream hs hlt
    have hold := List.getElem?_eq_getElem hlt
    obtain ⟨changed, hchanged, hid, hcounted⟩ :=
      counted_of_event h.isolated he hold (h.counted index _ hold)
    obtain rfl := Option.some.inj (hchanged.symm.trans hs)
    rw [hid, payload_append, ← pushed_eq]
    exact hcounted
  obtain hids | ⟨id, hid, hnew, hids⟩ := ids_of_event h.isolated he hopen
  · refine ⟨hisolated, fun index stream hs => hkeeps index stream hs ?_, hids ▸ h.distinct⟩
    have hlen := congrArg List.length hids
    rw [List.length_map, List.length_map] at hlen
    exact hlen ▸ (List.getElem?_eq_some_iff.mp hs).1
  · obtain ⟨hunused, hnone⟩ := hfresh id hid
    refine ⟨hisolated, fun index stream hs => ?_, ?_⟩
    · by_cases hlt : index < session.streams.length
      · exact hkeeps index stream hs hlt
      · have hlen := congrArg List.length hids
        have hbound := (List.getElem?_eq_some_iff.mp hs).1
        simp at hlen
        obtain rfl : index = session.streams.length := by omega
        obtain rfl := Option.some.inj (hnew.symm.trans hs)
        rw [show (Stream.new id).id = id from rfl, hnone]
        exact ⟨List.prefix_refl _, fun _ => rfl⟩
    · rw [hids]
      exact List.nodup_append.mpr ⟨h.distinct, List.pairwise_singleton _ id, fun other hother one hone heq =>
        hunused (List.mem_singleton.mp hone ▸ heq ▸ hother)⟩

end

end Session

namespace ClientSession

-- The id has been drawn, and its stream has been in the map.
structure Entered (session : ClientSession) (id : UInt32) : Prop where
  drawn : id ≠ 0 ∧ id.toNat < session.drawnBelow
  past : ∀ call, session.stage call ≠ some (.numbered id)

section

variable {session next : ClientSession} {id : UInt32}

theorem numbered_of_moves {kind : Kind} (h : Moves session next kind) {call : Nat}
    (hcall : next.stage call = some (.numbered id)) :
    session.stage call = some (.numbered id) ∨ id = session.nextStreamId := by
  have hupdate : ∀ (other : Nat) (stage : OpenStage),
      next.stage = Function.update session.stage other (some stage) →
      stage ≠ .numbered id → session.stage call = some (.numbered id) := by
    intro other stage hstage hne
    rw [hstage] at hcall
    by_cases heq : call = other
    · subst heq
      rw [Function.update_self] at hcall
      exact absurd (Option.some.inj hcall) hne
    · rwa [Function.update_of_ne heq] at hcall
  cases h with
  | quiet _ _ hstage => exact .inl (hstage ▸ hcall)
  | advance other stage ha _ _ hstage =>
      by_cases hid : id = session.nextStreamId
      · exact .inr hid
      · refine .inl (hupdate other stage hstage ?_)
        rintro rfl
        generalize session.stage other = old at ha
        cases ha
        exact hid rfl
  | reserve other _ _ _ _ hstage => exact .inl (hupdate other _ hstage (by simp))
  | insert other old _ _ _ hstage => exact .inl (hupdate other _ hstage (by simp))
  | remove _ _ _ hstage => exact .inl (hstage ▸ hcall)
  | fail other old _ _ _ hstage => exact .inl (hupdate other _ hstage (by simp))
  | drain _ _ hstage => exact .inl (hstage ▸ hcall)
  | store _ _ hstage => exact .inl (hstage ▸ hcall)
  | refuse other _ _ _ hstage => exact .inl (hupdate other _ hstage (by simp))

theorem drawnBelow_lt (hcounter : next.nextStreamId = session.nextStreamId + 1)
    (hzero : session.nextStreamId ≠ 0) : session.drawnBelow < next.drawnBelow := by
  have hbelow : session.drawnBelow = session.nextStreamId.toNat := if_neg hzero
  rw [hbelow, drawnBelow, hcounter]
  have hlt := session.nextStreamId.toNat_lt
  split
  · exact hlt
  · rename_i hne
    have hsum : (session.nextStreamId + 1).toNat = session.nextStreamId.toNat + 1 := by
      rw [UInt32.toNat_add]
      apply Nat.mod_eq_of_lt
      by_contra hge
      apply hne
      apply UInt32.toNat_inj.mp
      rw [UInt32.toNat_add]
      have hone : (1 : UInt32).toNat = 1 := rfl
      have hzero : (0 : UInt32).toNat = 0 := rfl
      omega
    omega

theorem Entered.ne (h : session.Entered id) : id ≠ session.nextStreamId := by
  rintro rfl
  have hlt := h.drawn.2
  rw [drawnBelow, if_neg h.drawn.1] at hlt
  omega

theorem Entered.same (h : session.Entered id) (hcounter : next.nextStreamId = session.nextStreamId)
    (hstage : next.stage = session.stage) : next.Entered id := by
  refine ⟨?_, ?_⟩
  · rw [drawnBelow, hcounter]
    exact h.drawn
  · rw [hstage]
    exact h.past

theorem Entered.step (h : session.Entered id) {action : Action}
    (hs : session.step action = some next) (hown : session.Own action next)
    (hzero : ∀ call, action = .number call → session.nextStreamId ≠ 0) : next.Entered id := by
  refine ⟨⟨h.drawn.1, ?_⟩, fun call hcall => ?_⟩
  · cases hown.emits with
    | quiet _ _ hcounter _ | announce _ _ hcounter _ | syn _ _ _ _ _ hcounter _
    | data _ _ _ _ _ hcounter _ =>
        rw [drawnBelow, hcounter]
        exact h.drawn.2
    | number call _ _ hcounter _ =>
        exact h.drawn.2.trans (drawnBelow_lt hcounter (hzero call rfl))
  · obtain hold | hid := numbered_of_moves (moves_of_step hs) hcall
    · exact h.past call hold
    · exact h.ne hid

-- A call puts its stream into the map.
theorem entered_of_insert {sent streams : List UInt32} (h : session.Numbered sent streams)
    {call : Nat} (hcall : session.stage call = some (.numbered id))
    (hs : session.step (.insert call) = some next) : next.Entered id := by
  have hpending : session.Pending call id := (pending_of_stage hcall).mpr rfl
  obtain ⟨hne, hlt⟩ := h.drawn id (.inr (.inr ⟨call, hpending⟩))
  simp only [step, hcall, Option.some.injEq] at hs
  subst hs
  refine ⟨⟨hne, hlt⟩, fun other hother => ?_⟩
  have hstage := (session.insertStream id call).setStage_stage call (.inserted id) hcall
  rw [hstage] at hother
  by_cases heq : other = call
  · subst heq
    rw [Function.update_self] at hother
    cases hother
  · rw [Function.update_of_ne heq] at hother
    exact heq (h.single other call id ((pending_of_stage hother).mpr rfl) hpending)

end

end ClientSession

namespace Tunnel

-- What holds all along a tunnel.
structure Sound (tunnel : Tunnel) : Prop where
  agrees : tunnel.connection.Agrees
  carries : tunnel.connection.Carries tunnel.begun tunnel.serverReceived tunnel.uploaded
  returns : tunnel.connection.Returns tunnel.serverReceived tunnel.clientReceived tunnel.downloaded
  client : tunnel.clientStreams.Takes tunnel.clientReceived
  server : tunnel.serverStreams.Takes tunnel.serverReceived
  entered : ∀ id ∈ tunnel.clientStreams.streams.map Stream.id, tunnel.connection.client.Entered id
  accepted : ∀ id ∈ tunnel.serverStreams.streams.map Stream.id, id ∈ synIds tunnel.serverReceived

theorem sound_new (clientPadding serverPadding : PaddingScheme) :
    (new clientPadding serverPadding).Sound where
  agrees := Connection.new_agrees clientPadding serverPadding
  carries := Connection.new_carries clientPadding serverPadding
  returns := Connection.new_returns clientPadding serverPadding
  client := Session.takes_new .client
  server := Session.takes_new .server
  entered := by simp [new, Session.new]
  accepted := by simp [new, Session.new]

-- An event of the streams' own takes no frame and registers no stream.
theorem isOwn_spec {event : Session.Event} (h : event.isOwn = true) :
    event.frames = [] ∧ event ≠ .action .openStream ∧ ∀ id, ¬event.Opens id := by
  refine ⟨?_, ?_, ?_⟩
  · unfold Session.Event.frames
    split
    · cases h
    · rfl
  · rintro rfl
    cases h
  · rintro id (rfl | ⟨frame, rfl, _⟩) <;> cases h

section

variable {session next : Session} {received : List Frame}

theorem own_takes {event : Session.Event} (h : session.Takes received) (hown : event.isOwn = true)
    (he : session.event acceptsPadding event = some next) :
    next.Takes received ∧ next.streams.map Stream.id = session.streams.map Stream.id := by
  obtain ⟨hframes, hopen, hnone⟩ := isOwn_spec hown
  have htakes := h.event he hopen fun id hid => absurd hid (hnone id)
  rw [hframes, List.append_nil] at htakes
  obtain hids | ⟨id, hid, _⟩ := Session.ids_of_event h.isolated he hopen
  · exact ⟨htakes, hids⟩
  · exact absurd hid (hnone id)

-- What comes of an action for the streams of a side is one event at most.
theorem takes_of_exec {events : List Session.Event} (h : session.Takes received)
    (he : Run.exec (Session.event acceptsPadding) session events = some next)
    (hone : events.length ≤ 1) (hopen : .action .openStream ∉ events)
    (hfresh : ∀ event ∈ events, ∀ id, event.Opens id →
      id ∉ session.streams.map Stream.id ∧ payload id (received ++ event.frames) = []) :
    next.Takes (received ++ events.flatMap Session.Event.frames) ∧
      ∀ id ∈ next.streams.map Stream.id,
        id ∈ session.streams.map Stream.id ∨ ∃ event ∈ events, event.Opens id := by
  obtain rfl | ⟨event, rfl⟩ := Nat.le_one_iff_eq_zero_or_eq_one.mp hone |>.imp
    List.length_eq_zero_iff.mp List.length_eq_one_iff.mp
  · obtain rfl := Option.some.inj he
    rw [List.flatMap_nil, List.append_nil]
    exact ⟨h, fun id hid => .inl hid⟩
  · obtain ⟨current, hcurrent, hrest⟩ := Option.bind_eq_some_iff.mp he
    obtain rfl := Option.some.inj hrest
    have hother : event ≠ .action .openStream := fun heq => hopen (heq ▸ List.mem_singleton_self _)
    have htakes := h.event hcurrent hother (hfresh event (List.mem_singleton_self _))
    rw [List.flatMap_singleton]
    refine ⟨htakes, fun id hid => ?_⟩
    obtain hids | ⟨new, hnew, _, hids⟩ := Session.ids_of_event h.isolated hcurrent hother
    · exact .inl (hids ▸ hid)
    · rw [hids] at hid
      obtain hold | hlast := List.mem_append.mp hid
      · exact .inl hold
      · obtain rfl := List.mem_singleton.mp hlast
        exact .inr ⟨event, List.mem_singleton_self _, hnew⟩

end

section

variable {connection next : Connection} {action : Connection.Action}

theorem frames_receive (frames : List Frame) :
    (frames.map fun frame => Session.Event.action (.receive frame)).flatMap Session.Event.frames =
      frames := by
  induction frames with
  | nil => rfl
  | cons frame rest ih => exact congrArg (frame :: ·) ih

theorem frames_clientEvents (connection : Connection) (action : Connection.Action) :
    (connection.clientEvents action).flatMap Session.Event.frames = connection.arrivesDown action := by
  unfold Connection.clientEvents
  split
  · split <;> rfl
  · exact frames_receive _

theorem length_toList_le {α : Type} (value : Option α) : value.toList.length ≤ 1 := by
  cases value <;> simp

theorem serverEvents_spec (connection : Connection) (action : Connection.Action) :
    (connection.serverEvents action).length ≤ 1 ∧
      .action .openStream ∉ connection.serverEvents action := by
  refine ⟨?_, by simp [Connection.serverEvents]⟩
  rw [Connection.serverEvents, List.length_map]
  cases action with
  | serverReceives => exact length_toList_le _
  | _ => exact Nat.zero_le _

theorem clientEvents_spec (connection : Connection) (action : Connection.Action) :
    (connection.clientEvents action).length ≤ 1 ∧
      .action .openStream ∉ connection.clientEvents action := by
  unfold Connection.clientEvents
  split
  · split <;> simp
  · refine ⟨?_, by simp⟩
    rw [List.length_map]
    cases action with
    | clientReceives => exact length_toList_le _
    | _ => exact Nat.zero_le _

-- A stream of the client is registered by a call. No frame of the server does it.
theorem clientEvents_opens (ha : connection.Agrees) (hs : connection.step action = some next)
    {event : Session.Event} (hevent : event ∈ connection.clientEvents action) {id : UInt32}
    (hopens : event.Opens id) : event = .insert id ∧
      ∃ call, action = .client (.insert call) ∧
        connection.client.stage call = some (.numbered id) := by
  unfold Connection.clientEvents at hevent
  split at hevent
  · rename_i call
    split at hevent
    · rename_i old hstage
      obtain rfl := List.mem_singleton.mp hevent
      obtain heq | ⟨frame, heq, _⟩ := hopens
      · cases heq
        exact ⟨rfl, call, rfl, hstage⟩
      · cases heq
    · cases hevent
  · obtain ⟨frame, hframe, rfl⟩ := List.mem_map.mp hevent
    obtain heq | ⟨other, heq, hsyn, _⟩ := hopens
    · cases heq
    · cases heq
      cases action with
      | clientReceives =>
          obtain ⟨found, harrives, hdown, _⟩ := Connection.arrivesDown_eq ha.whole hs
          rw [harrives, List.mem_singleton] at hframe
          have hknown := ha.known.downward found (by rw [hdown]; exact List.mem_cons_self)
          rw [← hframe, hsyn] at hknown
          exact absurd hknown (by decide)
      | _ => cases hframe

-- A stream of the server is registered by the CMD_SYN that comes first.
theorem serverEvents_opens (hw : connection.Whole) (hs : connection.step action = some next)
    {event : Session.Event} (hevent : event ∈ connection.serverEvents action) {id : UInt32}
    (hopens : event.Opens id) : ∃ frame rest, event = .action (.receive frame) ∧
      frame ∈ connection.arrivesUp action ∧ connection.upward = frame :: rest ∧
      frame.command = CMD_SYN ∧ frame.streamId = id := by
  obtain ⟨frame, hframe, rfl⟩ := List.mem_map.mp hevent
  obtain heq | ⟨other, heq, hsyn, hid⟩ := hopens
  · cases heq
  · cases heq
    refine ⟨frame, next.upward, rfl, hframe, ?_, hsyn, hid⟩
    cases action with
    | serverReceives =>
        obtain ⟨found, harrives, hup, _⟩ := Connection.arrivesUp_eq hw hs
        rw [harrives, List.mem_singleton] at hframe
        rw [hframe]
        exact hup
    | _ => cases hframe

theorem entered_of_step {id : UInt32} (h : connection.client.Entered id) (ha : connection.Agrees)
    (hcond : connection.Unwrapped action) (hs : connection.step action = some next) :
    next.client.Entered id := by
  obtain ⟨_, hmoves⟩ := Connection.moves_of_step ha.whole hs
  cases hmoves with
  | client action hown _ _ _ _ =>
      obtain ⟨_, _, client, hclient, rfl⟩ := Connection.client_of_step hs
      exact h.step hclient hown fun call heq => hcond call (congrArg _ heq)
  | server action _ hclient _ _ =>
      rw [hclient]
      exact h
  | clientWrites random frame rest closed htx hclient _ _ _ =>
      rw [hclient]
      exact h.same rfl rfl
  | serverWrites random frame rest closed _ _ hclient _ _ =>
      rw [hclient]
      exact h
  | clientReceives frame hclient hdown _ _ =>
      have hknown := ha.known.downward frame (by rw [hdown]; exact List.mem_cons_self)
      have hreceived := connection.client.receive_received hknown
      rw [hclient]
      exact h.same hreceived.nextStreamId hreceived.stage
  | serverReceives frame _ _ hclient _ =>
      rw [hclient]
      exact h

end

section

variable {tunnel : Tunnel}

-- The id of a call that has not put its stream into the map is new to the tunnel.
theorem Sound.fresh_insert (h : tunnel.Sound) {call : Nat} {id : UInt32}
    (hcall : tunnel.connection.client.stage call = some (.numbered id)) :
    id ∉ tunnel.clientStreams.streams.map Stream.id ∧ payload id tunnel.clientReceived = [] := by
  refine ⟨fun hid => (h.entered id hid).past call hcall, ?_⟩
  have hpending : tunnel.connection.client.Pending call id :=
    (ClientSession.pending_of_stage hcall).mpr rfl
  obtain ⟨hunsent, _⟩ := h.carries.numbered.pending call id hpending
  apply payload_eq_nil
  rintro frame hframe hcommand rfl
  apply hunsent
  rw [synIds_append]
  exact List.mem_append_left _ (h.returns.served frame (List.mem_append_left _ hframe) hcommand)

-- So is that of a CMD_SYN that comes to the server.
theorem Sound.fresh_syn (h : tunnel.Sound) {frame : Frame} {rest : List Frame}
    (hup : tunnel.connection.upward = frame :: rest) (hsyn : frame.command = CMD_SYN) :
    frame.streamId ∉ tunnel.serverStreams.streams.map Stream.id ∧
      payload frame.streamId (tunnel.serverReceived ++ [frame]) = [] := by
  have honce := h.carries.numbered.once
  rw [hup, synIds_append, show frame :: rest = [frame] ++ rest from rfl, synIds_append,
    synIds_syn hsyn] at honce
  have hunsent : frame.streamId ∉ synIds tunnel.serverReceived := fun hin =>
    (List.nodup_append.mp honce).2.2 _ hin _ List.mem_cons_self rfl
  refine ⟨fun hid => hunsent (h.accepted _ hid), ?_⟩
  have hled := (led_append.mp h.carries.led).1
  rw [payload_append, hled.payload_eq_nil List.not_mem_nil hunsent, List.nil_append]
  apply payload_other
  rw [hsyn]
  decide

theorem Sound.step (h : tunnel.Sound) {next : Tunnel} {action : Action}
    (hcond : tunnel.Unwrapped action) (hs : tunnel.step action = some next) : next.Sound := by
  cases action with
  | clientStreams event =>
      simp only [Tunnel.step, Option.ite_none_right_eq_some] at hs
      obtain ⟨hown, hs⟩ := hs
      obtain ⟨streams, hstreams, rfl⟩ := Option.map_eq_some_iff.mp hs
      obtain ⟨htakes, hids⟩ := own_takes h.client hown hstreams
      exact { h with client := htakes, entered := fun id hid => h.entered id (hids ▸ hid) }
  | serverStreams event =>
      simp only [Tunnel.step, Option.ite_none_right_eq_some] at hs
      obtain ⟨hown, hs⟩ := hs
      obtain ⟨streams, hstreams, rfl⟩ := Option.map_eq_some_iff.mp hs
      obtain ⟨htakes, hids⟩ := own_takes h.server hown hstreams
      exact { h with server := htakes, accepted := fun id hid => h.accepted id (hids ▸ hid) }
  | connection action =>
      simp only [Tunnel.step, Option.ite_none_right_eq_some] at hs
      obtain ⟨hready, hs⟩ := hs
      obtain ⟨connection, hconnection, hs⟩ := Option.bind_eq_some_iff.mp hs
      obtain ⟨clientStreams, hclient, hs⟩ := Option.bind_eq_some_iff.mp hs
      obtain ⟨serverStreams, hserver, hs⟩ := Option.bind_eq_some_iff.mp hs
      obtain rfl := Option.some.inj hs
      have hunwrapped := hcond action rfl
      obtain ⟨hclientOne, hclientOpen⟩ := clientEvents_spec tunnel.connection action
      obtain ⟨hserverOne, hserverOpen⟩ := serverEvents_spec tunnel.connection action
      obtain ⟨hclientTakes, hclientIds⟩ := takes_of_exec h.client hclient hclientOne hclientOpen <| by
        intro event hevent id hopens
        obtain ⟨rfl, call, _, hcall⟩ :=
          clientEvents_opens h.agrees hconnection hevent hopens
        rw [show (Session.Event.insert id).frames = [] from rfl, List.append_nil]
        exact h.fresh_insert hcall
      obtain ⟨hserverTakes, hserverIds⟩ := takes_of_exec h.server hserver hserverOne hserverOpen <| by
        intro event hevent id hopens
        obtain ⟨frame, rest, rfl, _, hup, hsyn, rfl⟩ :=
          serverEvents_opens h.agrees.whole hconnection hevent hopens
        exact h.fresh_syn hup hsyn
      rw [frames_clientEvents] at hclientTakes
      rw [show (tunnel.connection.serverEvents action).flatMap Session.Event.frames =
        tunnel.connection.arrivesUp action from frames_receive _] at hserverTakes
      refine ⟨Connection.agrees_step h.agrees hunwrapped hconnection,
        h.carries.step h.agrees hunwrapped hready hconnection,
        h.returns.step h.agrees.whole hconnection, hclientTakes, hserverTakes, ?_, ?_⟩
      · intro id hid
        obtain hold | ⟨event, hevent, hopens⟩ := hclientIds id hid
        · exact entered_of_step (h.entered id hold) h.agrees hunwrapped hconnection
        · obtain ⟨-, call, rfl, hcall⟩ := clientEvents_opens h.agrees hconnection hevent hopens
          obtain ⟨_, _, client, hclient, rfl⟩ := Connection.client_of_step hconnection
          exact ClientSession.entered_of_insert h.carries.numbered hcall hclient
      · intro id hid
        rw [synIds_append]
        obtain hold | ⟨event, hevent, hopens⟩ := hserverIds id hid
        · exact List.mem_append_left _ (h.accepted id hold)
        · obtain ⟨frame, rest, _, hframe, _, hsyn, hid⟩ :=
            serverEvents_opens h.agrees.whole hconnection hevent hopens
          exact List.mem_append_right _ (mem_synIds.mpr ⟨frame, hframe, hsyn, hid⟩)

-- The consumers of a side's streams are given what the other side's pumps have read, each
-- stream what has been read for its id. While the other side's channel is open, nothing is missing
-- from what a stream of the map has received and what is on its way to it.
structure Conveys (streams : Session) (closed : Bool) (onTheWay read : List Frame) : Prop where
  distinct : (streams.streams.map Stream.id).Nodup
  delivered : ∀ stream ∈ streams.streams, stream.delivered <+: payload stream.id read
  whole : ∀ stream ∈ streams.streams, stream.removed = none → closed = false →
    stream.received ++ payload stream.id onTheWay = payload stream.id read

theorem conveys_of_takes {streams : Session} {received onTheWay read : List Frame} {closed : Bool}
    (h : streams.Takes received)
    (hkept : ∀ id, Kept closed (payload id (received ++ onTheWay)) (payload id read)) :
    Conveys streams closed onTheWay read := by
  refine ⟨h.distinct, fun stream hstream => ?_, fun stream hstream hregistered hopen => ?_⟩
  · obtain ⟨index, hindex⟩ := List.getElem?_of_mem hstream
    have hwritten := (h.isolated.ordered index stream hindex).written
    have hcounted := (h.counted index stream hindex).received
    have hsent : payload stream.id received <+: payload stream.id (received ++ onTheWay) := by
      rw [payload_append]
      exact List.prefix_append _ _
    have hreceived : stream.delivered <+: stream.received := (List.prefix_append _ _).trans hwritten
    exact (hreceived.trans hcounted).trans (hsent.trans (hkept stream.id).front)
  · obtain ⟨index, hindex⟩ := List.getElem?_of_mem hstream
    rw [(h.counted index stream hindex).registered hregistered, ← payload_append]
    exact (hkept stream.id).whole hopen

-- From end to end, in both directions and whatever the tasks of both sides and the padding do:
-- streams never mix, and nothing that comes out of one is not what went in, in its order.
theorem conveys_of_run (clientPadding serverPadding : PaddingScheme) {actions : List Action}
    (hcond : Run.Meets step Unwrapped (new clientPadding serverPadding) actions)
    (hrun : Run.exec step (new clientPadding serverPadding) actions = some tunnel) :
    Conveys tunnel.serverStreams tunnel.connection.client.txClosed tunnel.connection.upward
        tunnel.uploaded ∧
      Conveys tunnel.clientStreams tunnel.connection.server.txClosed tunnel.connection.downward
        tunnel.downloaded := by
  have hsound := Run.rule Unwrapped Sound (fun _ _ _ h hcond hs => h.step hcond hs) _ actions tunnel
    (sound_new clientPadding serverPadding) hcond hrun
  exact ⟨conveys_of_takes hsound.server hsound.carries.kept,
    conveys_of_takes hsound.client hsound.returns.kept⟩

end

-- A call opens its stream, and its pump reads the first bytes.
def opening : List Action :=
  [.connection (.client .announce), .connection (.client .acquire),
    .connection (.client (.reserve 0)), .connection (.client .push),
    .connection (.client (.check 0)), .connection (.client (.number 0)),
    .connection (.client (.insert 0)), .connection (.client (.lookup 0)),
    .connection (.client (.sendSyn 0)), .connection (.client (.pumpSend 0 [7, 8]))]

theorem conveys_of_run_opening : ∃ tunnel,
    Run.exec step (new Connection.PLAIN Connection.PLAIN) opening = some tunnel ∧
      tunnel.uploaded = [⟨CMD_PSH, 1, [7, 8]⟩] ∧
      Conveys tunnel.clientStreams tunnel.connection.server.txClosed tunnel.connection.downward
        tunnel.downloaded := by
  have hrun : ∃ tunnel, Run.exec step (new Connection.PLAIN Connection.PLAIN) opening =
      some tunnel ∧ tunnel.uploaded = [⟨CMD_PSH, 1, [7, 8]⟩] := ⟨_, rfl, rfl⟩
  obtain ⟨tunnel, hrun, huploaded⟩ := hrun
  refine ⟨tunnel, hrun, huploaded, (conveys_of_run Connection.PLAIN Connection.PLAIN ?_ hrun).2⟩
  refine .cons ?_ rfl (.cons ?_ rfl (.cons ?_ rfl (.cons ?_ rfl (.cons ?_ rfl (.cons ?_ rfl
    (.cons ?_ rfl (.cons ?_ rfl (.cons ?_ rfl (.cons ?_ rfl trivial)))))))))
  all_goals
    intro own heq call hcall
    cases heq
    cases hcall
  show (1 : UInt32) ≠ 0
  decide

end Tunnel

end SingBox.AnyTls
