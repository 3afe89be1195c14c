import SingBox.AnyTls.Client.Step

namespace SingBox.AnyTls

open Library

-- The id of a call whose CMD_SYN has not been sent.
def OpenStage.pending : OpenStage → Option UInt32
  | .numbered id | .inserted id | .sending id => some id
  | _ => none

-- The commands of the frames that a server sends.
def SERVER_COMMANDS : List UInt8 :=
  [CMD_WASTE, CMD_PSH, CMD_FIN, CMD_SYNACK, CMD_UPDATE_PADDING, CMD_SERVER_SETTINGS]

namespace ClientSession

def Pending (session : ClientSession) (call : Nat) (id : UInt32) : Prop :=
  (session.stage call).bind OpenStage.pending = some id

-- There are no calls before `connect_stream` is done.
def Started (session : ClientSession) : Prop :=
  ∀ call stage, session.stage call = some stage → session.announced = true

-- What a step that is not about received frames may do to the frames to be sent, the
-- counter of the ids, and the ids that wait for their CMD_SYN.
inductive Emits (session next : ClientSession) : Action → Prop
  | quiet {action : Action} : next.announced = session.announced → next.tx = session.tx →
      next.nextStreamId = session.nextStreamId →
      (∀ call id, next.Pending call id → session.Pending call id) → Emits session next action
  | announce : next.announced = true → next.tx = session.tx ++ [settingsFrame session.padding] →
      next.nextStreamId = session.nextStreamId → next.stage = session.stage →
      Emits session next .announce
  | number (call : Nat) : next.announced = session.announced → next.tx = session.tx →
      next.nextStreamId = session.nextStreamId + 1 →
      (∀ other id, next.Pending other id →
        (other = call ∧ id = session.nextStreamId) ∨ session.Pending other id) →
      Emits session next (.number call)
  | syn (call : Nat) (id : UInt32) : session.Pending call id →
      next.announced = session.announced → next.tx = session.tx ++ [⟨CMD_SYN, id, []⟩] →
      next.nextStreamId = session.nextStreamId →
      (∀ other otherId, next.Pending other otherId → other ≠ call ∧ session.Pending other otherId) →
      Emits session next (.sendSyn call)
  | data {action : Action} (frame : Frame) : (frame.command = CMD_PSH ∨ frame.command = CMD_FIN) →
      frame.data.length ≤ MAX_FRAME_SIZE → next.announced = session.announced →
      next.tx = session.tx ++ [frame] → next.nextStreamId = session.nextStreamId →
      next.stage = session.stage → Emits session next action

-- A step that is not about received frames.
structure Own (session : ClientSession) (action : Action) (next : ClientSession) : Prop where
  reader : next.reader = session.reader ∨ next.reader = some .cancelled ∨
    next.reader = some .transport
  padding : (∀ padding, action ≠ .repadded padding) → next.padding = session.padding
  supportsV2 : next.supportsV2 = session.supportsV2
  emits : session.Emits next action

section

variable {session next : ClientSession} {call : Nat} {stage old : OpenStage}

theorem pending_of_eq (h : next.stage = session.stage) (call : Nat) (id : UInt32) :
    next.Pending call id ↔ session.Pending call id := by
  rw [Pending, Pending, h]

theorem pending_of_stage (h : session.stage call = some stage) {id : UInt32} :
    session.Pending call id ↔ stage.pending = some id := by
  rw [Pending, h]
  rfl

theorem pending_update (h : next.stage = Function.update session.stage call (some stage))
    (other : Nat) (id : UInt32) :
    next.Pending other id ↔
      (other = call ∧ stage.pending = some id) ∨ (other ≠ call ∧ session.Pending other id) := by
  rw [Pending, h]
  by_cases heq : other = call
  · subst heq
    simp
  · rw [Function.update_of_ne heq]
    simp [heq, Pending]

-- A call that does not come to an id of its own.
theorem pending_of_update (h : next.stage = Function.update session.stage call (some stage))
    (hp : ∀ id, stage.pending = some id → session.Pending call id) (other : Nat) (id : UInt32)
    (hn : next.Pending other id) : session.Pending other id := by
  obtain ⟨rfl, hid⟩ | ⟨_, hold⟩ := (pending_update h other id).mp hn
  · exact hp id hid
  · exact hold

theorem own_setStage (hold : session.stage call = some old)
    (hp : ∀ id, stage.pending = some id → session.Pending call id) {action : Action} :
    Own session action (session.setStage call stage) :=
  ⟨.inl rfl, fun _ => rfl, rfl,
    .quiet rfl rfl rfl (pending_of_update (session.setStage_stage call stage hold) hp)⟩

theorem send_open (hopen : ¬session.txClosed = true) (frame : Frame) :
    session.send frame = { session with tx := session.tx ++ [frame] } := if_neg hopen

theorem own_send {frame : Frame} (h : frame.command = CMD_PSH ∨ frame.command = CMD_FIN)
    (hlen : frame.data.length ≤ MAX_FRAME_SIZE) {action : Action} :
    Own session action (session.send frame) := by
  by_cases hclosed : session.txClosed = true
  · rw [send, if_pos hclosed]
    exact ⟨.inl rfl, fun _ => rfl, rfl, .quiet rfl rfl rfl fun _ _ h => h⟩
  · rw [session.send_open hclosed]
    exact ⟨.inl rfl, fun _ => rfl, rfl, .data frame h hlen rfl rfl rfl rfl⟩

theorem Own.setPump {action : Action} (h : Own session action next) (index : Nat)
    (pump : ClientPump) : Own session action (next.setPump index pump) := by
  refine ⟨h.reader, h.padding, h.supportsV2, ?_⟩
  cases h.emits with
  | quiet hannounced htx hid hpending => exact .quiet hannounced htx hid hpending
  | announce hannounced htx hid hstage => exact .announce hannounced htx hid hstage
  | number call hannounced htx hid hpending => exact .number call hannounced htx hid hpending
  | syn call id hold hannounced htx hid hpending =>
      exact .syn call id hold hannounced htx hid hpending
  | data frame hcommand hlen hannounced htx hid hstage =>
      exact .data frame hcommand hlen hannounced htx hid hstage

theorem Emits.announced {action : Action} (h : session.Emits next action)
    (hs : session.announced = true) : next.announced = true := by
  cases h with
  | quiet hannounced | number _ hannounced | syn _ _ _ hannounced | data _ _ _ hannounced =>
      exact hannounced.trans hs
  | announce hannounced => exact hannounced

-- Only the map and the counter, or the map and the answers.
theorem removeStream_frame (session : ClientSession) (id : UInt32) :
    ∃ streams active, session.removeStream id = { session with streams, active } := by
  unfold removeStream
  split
  · exact ⟨_, _, rfl⟩
  · exact ⟨_, _, rfl⟩

theorem acknowledge_frame (session : ClientSession) (frame : Frame) :
    ∃ streams calls, session.acknowledge frame = { session with streams, calls } := by
  unfold acknowledge
  split
  · split
    · exact ⟨_, _, rfl⟩
    · exact ⟨_, _, rfl⟩
  · exact ⟨_, _, rfl⟩

theorem own_of_step {action : Action} (h : session.step action = some next)
    (hreceive : ∀ frame, action ≠ .receive frame) (hwritten : action ≠ .written) :
    Own session action next := by
  cases action with
  | announce =>
      simp only [step, Option.ite_none_left_eq_some, Option.some.injEq, not_or] at h
      obtain ⟨⟨_, hopen⟩, rfl⟩ := h
      rw [session.send_open hopen]
      exact ⟨.inl rfl, fun _ => rfl, rfl, .announce rfl rfl rfl rfl⟩
  | acquire =>
      simp only [step, Option.ite_none_right_eq_some, Option.some.injEq] at h
      obtain ⟨_, rfl⟩ := h
      exact ⟨.inl rfl, fun _ => rfl, rfl, .quiet rfl rfl rfl
        (pending_of_update (session.push_stage _) (by simp [OpenStage.pending]))⟩
  | push | forget | retire | close =>
      simp only [step, Option.ite_none_right_eq_some, Option.some.injEq] at h
      obtain ⟨_, rfl⟩ := h
      exact ⟨.inl rfl, fun _ => rfl, rfl, .quiet rfl rfl rfl fun _ _ h => h⟩
  | cancelReader =>
      simp only [step, Option.ite_none_right_eq_some, Option.some.injEq] at h
      obtain ⟨_, rfl⟩ := h
      exact ⟨.inr (.inl rfl), fun _ => rfl, rfl, .quiet rfl rfl rfl fun _ _ h => h⟩
  | breakReader =>
      simp only [step, Option.ite_none_right_eq_some, Option.some.injEq] at h
      obtain ⟨_, rfl⟩ := h
      exact ⟨.inr (.inr rfl), fun _ => rfl, rfl, .quiet rfl rfl rfl fun _ _ h => h⟩
  | reserve call =>
      simp only [step] at h
      split at h
      · rename_i hstage
        obtain rfl := Option.some.inj h
        unfold reserve
        split
        · exact ⟨.inl rfl, fun _ => rfl, rfl, .quiet rfl rfl rfl (pending_of_update
            (session.setStage_stage call _ hstage) (by simp [OpenStage.pending]))⟩
        · exact own_setStage hstage (by simp [OpenStage.pending])
      · cases h
  | check call =>
      simp only [step] at h
      split at h
      · rename_i hstage
        simp only [Option.ite_none_left_eq_some, Option.some.injEq] at h
        obtain ⟨_, rfl⟩ := h
        refine own_setStage hstage fun id hid => ?_
        split at hid <;> cases hid
      · cases h
  | number call =>
      simp only [step] at h
      split at h
      · rename_i hstage
        obtain rfl := Option.some.inj h
        refine ⟨.inl rfl, fun _ => rfl, rfl, .number call rfl rfl rfl fun other id hn => ?_⟩
        obtain ⟨heq, hid⟩ | ⟨_, hold⟩ :=
          (pending_update (session.setStage_stage call _ hstage) other id).mp hn
        · exact .inl ⟨heq, (Option.some.inj hid).symm⟩
        · exact .inr hold
      · cases h
  | insert call =>
      simp only [step] at h
      split at h
      · rename_i id hstage
        obtain rfl := Option.some.inj h
        exact ⟨.inl rfl, fun _ => rfl, rfl, .quiet rfl rfl rfl (pending_of_update
          ((session.insertStream id call).setStage_stage call _ hstage)
          fun _ hid => (pending_of_stage hstage).mpr hid)⟩
      · cases h
  | lookup call =>
      simp only [step] at h
      split at h
      · rename_i id hstage
        obtain rfl := Option.some.inj h
        unfold lookup
        split
        · exact ⟨.inl rfl, fun _ => rfl, rfl, .quiet rfl rfl rfl (pending_of_update
            (session.setStage_stage call _ hstage) fun _ hid => (pending_of_stage hstage).mpr hid)⟩
        · exact own_setStage hstage (by simp [OpenStage.pending])
      · cases h
  | sendSyn call =>
      simp only [step] at h
      split at h
      · rename_i id hstage
        simp only [Option.ite_none_left_eq_some, Option.some.injEq] at h
        obtain ⟨hopen, rfl⟩ := h
        rw [session.send_open hopen]
        refine ⟨.inl rfl, fun _ => rfl, rfl,
          .syn call id ((pending_of_stage hstage).mpr rfl) rfl rfl rfl fun other otherId hn => ?_⟩
        obtain ⟨_, hid⟩ | hold :=
          (pending_update (session.setStage_stage call _ hstage) other otherId).mp hn
        · cases hid
        · exact hold
      · cases h
  | succeed call =>
      simp only [step] at h
      split at h
      · rename_i id synack hcall
        have hstage : session.stage call = some (.connecting id) := by simp [stage, hcall]
        simp only [Option.ite_none_right_eq_some, Option.some.injEq] at h
        obtain ⟨_, rfl⟩ := h
        exact own_setStage hstage (by simp [OpenStage.pending])
      · cases h
  | fail call =>
      have hfail : ∀ id old, session.stage call = some old →
          Own session (.fail call) (session.fail call id) := by
        intro id old hold
        obtain ⟨streams, active, heq⟩ := session.removeStream_frame id
        rw [fail, heq]
        exact ⟨.inl rfl, fun _ => rfl, rfl, .quiet rfl rfl rfl
          (pending_of_update (session.setStage_stage call _ hold) (by simp [OpenStage.pending]))⟩
      simp only [step] at h
      split at h
      · rename_i id hstage
        simp only [Option.ite_none_right_eq_some, Option.some.injEq] at h
        obtain ⟨_, rfl⟩ := h
        exact hfail id _ hstage
      · rename_i id hstage
        obtain rfl := Option.some.inj h
        exact hfail id _ hstage
      · cases h
  | receive frame => exact absurd rfl (hreceive frame)
  | teardown index =>
      obtain ⟨teardown, _, hrun⟩ := Option.bind_eq_some_iff.mp h
      cases teardown <;> simp only [runTeardown, Option.some.injEq, reduceCtorEq] at hrun
      all_goals
        subst hrun
        exact ⟨.inl rfl, fun _ => rfl, rfl, .quiet rfl rfl rfl fun _ _ h => h⟩
  | pumpSend index data =>
      simp only [step] at h
      split at h
      · simp only [Option.ite_none_right_eq_some, Option.some.injEq] at h
        obtain ⟨⟨_, hlen⟩, rfl⟩ := h
        exact own_send (.inl rfl) hlen
      · cases h
  | pumpFinish index =>
      simp only [step] at h
      split at h
      · rename_i id _
        obtain rfl := Option.some.inj h
        exact (own_send (.inr rfl) (Nat.zero_le _)).setPump index ⟨id, .leaving⟩
      · cases h
  | pumpRemove index =>
      simp only [step] at h
      split at h
      · rename_i id _
        obtain rfl := Option.some.inj h
        obtain ⟨streams, active, heq⟩ := session.removeStream_frame id
        rw [heq]
        exact ⟨.inl rfl, fun _ => rfl, rfl, .quiet rfl rfl rfl fun _ _ h => h⟩
      · cases h
  | written => exact absurd rfl hwritten
  | closeTx =>
      obtain rfl := Option.some.inj h
      exact ⟨.inl rfl, fun _ => rfl, rfl, .quiet rfl rfl rfl fun _ _ h => h⟩
  | repadded padding =>
      obtain rfl := Option.some.inj h
      exact ⟨.inl rfl, fun h => absurd rfl (h padding), rfl,
        .quiet rfl rfl rfl fun _ _ h => h⟩

theorem Started.update (hs : session.Started)
    (hannounced : session.announced = true → next.announced = true)
    (hcall : session.stage call ≠ none ∨ session.announced = true)
    (hstage : next.stage = Function.update session.stage call (some stage)) : next.Started := by
  intro other old hother
  rw [hstage] at hother
  by_cases heq : other = call
  · subst heq
    obtain hne | hdone := hcall
    · obtain ⟨current, hcurrent⟩ := Option.ne_none_iff_exists'.mp hne
      exact hannounced (hs other current hcurrent)
    · exact hannounced hdone
  · rw [Function.update_of_ne heq] at hother
    exact hannounced (hs other old hother)

theorem started_of_step {action : Action} (h : session.step action = some next)
    (hannounced : session.announced = true → next.announced = true) (hs : session.Started) :
    next.Started := by
  have hsame : next.stage = session.stage → next.Started := fun hstage call stage hcall =>
    hannounced (hs call stage (hstage ▸ hcall))
  have hmoves := moves_of_step h
  generalize session.kind action = kind at hmoves
  cases hmoves with
  | quiet _ _ hstage => exact hsame hstage
  | advance call stage ha _ _ hstage =>
      refine hs.update hannounced ?_ hstage
      generalize session.stage call = old at ha
      cases ha with
      | trying hdone => exact .inr hdone
      | _ => exact .inl (by simp)
  | reserve call hold _ _ _ hstage => exact hs.update hannounced (.inl (by simp [hold])) hstage
  | insert call id hold _ _ hstage => exact hs.update hannounced (.inl (by simp [hold])) hstage
  | remove _ _ _ hstage => exact hsame hstage
  | fail call id hold _ _ hstage =>
      refine hs.update hannounced (.inl fun hnone => ?_) hstage
      simp [hnone] at hold
  | drain _ _ hstage => exact hsame hstage
  | store _ _ hstage => exact hsame hstage
  | refuse call hold _ _ hstage => exact hs.update hannounced (.inl (by simp [hold])) hstage

theorem receive_update (session : ClientSession) {frame : Frame} {padding : PaddingScheme}
    (h : frame.command = CMD_UPDATE_PADDING) (hparse : parseUpdate frame.data = .ok padding) :
    session.receive frame = { session with padding } := by
  simp only [receive, h, hparse]
  rfl

-- What the frames of a server may do to the same things.
structure Received (session : ClientSession) (frame : Frame) (next : ClientSession) : Prop where
  tx : next.tx = session.tx
  nextStreamId : next.nextStreamId = session.nextStreamId
  announced : next.announced = session.announced
  stage : next.stage = session.stage
  reader : next.reader = session.reader ∨ ∃ chain, next.reader = some (.scheme chain)
  padding : frame.command ≠ CMD_UPDATE_PADDING → next.padding = session.padding

theorem receive_received (session : ClientSession) {frame : Frame}
    (h : frame.command ∈ SERVER_COMMANDS) : Received session frame (session.receive frame) := by
  simp only [SERVER_COMMANDS, List.mem_cons, List.not_mem_nil, or_false] at h
  obtain h | h | h | h | h | h := h
  · have hreceive : session.receive frame = session := by simp only [receive, h]; rfl
    rw [hreceive]
    exact ⟨rfl, rfl, rfl, rfl, .inl rfl, fun _ => rfl⟩
  · have hreceive : session.receive frame = session := by simp only [receive, h]; rfl
    rw [hreceive]
    exact ⟨rfl, rfl, rfl, rfl, .inl rfl, fun _ => rfl⟩
  · have hreceive : session.receive frame = session.removeStream frame.streamId := by
      simp only [receive, h]
      rfl
    have hstage := session.removeStream_stage frame.streamId
    obtain ⟨streams, active, heq⟩ := session.removeStream_frame frame.streamId
    rw [hreceive, heq]
    exact ⟨rfl, rfl, rfl, heq ▸ hstage, .inl rfl, fun _ => rfl⟩
  · have hreceive : session.receive frame = session.acknowledge frame := by
      simp only [receive, h]
      rfl
    have hstage := session.acknowledge_stage frame
    obtain ⟨streams, calls, heq⟩ := session.acknowledge_frame frame
    rw [hreceive, heq]
    exact ⟨rfl, rfl, rfl, heq ▸ hstage, .inl rfl, fun _ => rfl⟩
  · cases hparse : parseUpdate frame.data with
    | ok padding =>
        rw [receive_update session h hparse]
        exact ⟨rfl, rfl, rfl, rfl, .inl rfl, fun hne => absurd h hne⟩
    | error chain =>
        have hreceive : session.receive frame = session.endReader (.scheme chain) := by
          simp only [receive, h, hparse]
          rfl
        rw [hreceive]
        exact ⟨rfl, rfl, rfl, rfl, .inr ⟨chain, rfl⟩, fun _ => rfl⟩
  · have hreceive : session.receive frame = { session with supportsV2 := true } := by
      simp only [receive, h]
      rfl
    rw [hreceive]
    exact ⟨rfl, rfl, rfl, rfl, .inl rfl, fun _ => rfl⟩

-- What any frame may do to what the settings are about.
structure Heard (session : ClientSession) (frame : Frame) (next : ClientSession) : Prop where
  padding : frame.command ≠ CMD_UPDATE_PADDING → next.padding = session.padding
  supportsV2 : next.supportsV2 = true →
    session.supportsV2 = true ∨ frame.command = CMD_SERVER_SETTINGS
  tx : ∀ other ∈ next.tx, other ∈ session.tx ∨ other.command = CMD_HEARTBEAT_RESPONSE

theorem receive_heard (session : ClientSession) (frame : Frame) :
    Heard session frame (session.receive frame) := by
  unfold receive
  split_ifs with hpush hsynack hfin hrequest hquiet hupdate hserver halert
  · exact ⟨fun _ => rfl, .inl, fun _ => .inl⟩
  · obtain ⟨streams, calls, heq⟩ := session.acknowledge_frame frame
    rw [heq]
    exact ⟨fun _ => rfl, .inl, fun _ => .inl⟩
  · obtain ⟨streams, active, heq⟩ := session.removeStream_frame frame.streamId
    rw [heq]
    exact ⟨fun _ => rfl, .inl, fun _ => .inl⟩
  · unfold send
    split
    · exact ⟨fun _ => rfl, .inl, fun _ => .inl⟩
    · refine ⟨fun _ => rfl, .inl, fun other hother => ?_⟩
      exact (List.mem_append.mp hother).imp_right fun hnew => by rw [List.mem_singleton.mp hnew]
  · exact ⟨fun _ => rfl, .inl, fun _ => .inl⟩
  · split
    · exact ⟨fun hne => absurd hupdate hne, .inl, fun _ => .inl⟩
    · exact ⟨fun _ => rfl, .inl, fun _ => .inl⟩
  · exact ⟨fun _ => rfl, fun _ => .inr hserver, fun _ => .inl⟩
  · exact ⟨fun _ => rfl, .inl, fun _ => .inl⟩
  · exact ⟨fun _ => rfl, .inl, fun _ => .inl⟩

end

end ClientSession

end SingBox.AnyTls
