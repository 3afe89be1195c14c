import SingBox.AnyTls.Client

namespace SingBox.AnyTls.ClientSession

open Library

-- The ids in the map.
def keys (session : ClientSession) : List UInt32 := session.streams.map ClientStream.id

theorem isRegistered_iff {session : ClientSession} {id : UInt32} :
    session.isRegistered id = true ↔ id ∈ session.keys := by
  simp [isRegistered, keys]

theorem isRegistered_eq_false {session : ClientSession} {id : UInt32} :
    session.isRegistered id = false ↔ id ∉ session.keys := by
  rw [← isRegistered_iff, Bool.not_eq_true]

-- What each operation does to the map, the counter and the calls.
section

variable (session : ClientSession) (id : UInt32) (call index caller : Nat) (next : OpenStage)
  (reason : LoopEnd) (pump : ClientPump) (frame : Frame)

@[simp] theorem setStage_keys : (session.setStage call next).keys = session.keys := rfl
@[simp] theorem setStage_active : (session.setStage call next).active = session.active := rfl
@[simp] theorem endReader_keys : (session.endReader reason).keys = session.keys := rfl
@[simp] theorem endReader_active : (session.endReader reason).active = session.active := rfl
@[simp] theorem endReader_stage : (session.endReader reason).stage = session.stage := rfl
@[simp] theorem setPump_keys : (session.setPump index pump).keys = session.keys := rfl
@[simp] theorem setPump_active : (session.setPump index pump).active = session.active := rfl
@[simp] theorem setPump_stage : (session.setPump index pump).stage = session.stage := rfl
-- A frame that is sent changes the channel at most.
theorem send_frame : ∃ tx, session.send frame = { session with tx } := by
  unfold send
  split
  · exact ⟨_, rfl⟩
  · exact ⟨_, rfl⟩

@[simp] theorem insertStream_active : (session.insertStream id caller).active = session.active := rfl
@[simp] theorem insertStream_stage : (session.insertStream id caller).stage = session.stage := rfl

theorem setStage_stage {old : OpenStage} (h : session.stage call = some old) :
    (session.setStage call next).stage = Function.update session.stage call (some next) := by
  funext other
  by_cases hother : other = call
  · subst hother
    obtain ⟨current, hcurrent, _⟩ := Option.map_eq_some_iff.mp h
    rw [Function.update_self, stage, setStage, List.getElem?_modify, hcurrent]
    simp
  · rw [Function.update_of_ne hother]
    simp [stage, setStage, Ne.symm hother]

-- A call that begins.
theorem push_stage (call : OpenCall) :
    { session with calls := session.calls ++ [call] }.stage =
      Function.update session.stage session.calls.length (some call.stage) := by
  funext other
  by_cases hother : other = session.calls.length
  · subst hother
    simp [stage]
  · rw [Function.update_of_ne hother]
    simp only [stage]
    rcases Nat.lt_or_gt_of_ne hother with hlt | hgt
    · rw [List.getElem?_append_left hlt]
    · rw [List.getElem?_eq_none (by simpa using Nat.succ_le_of_lt hgt),
        List.getElem?_eq_none (by omega)]

theorem removeStream_keys :
    (session.removeStream id).keys = session.keys.filter (· ≠ id) := by
  unfold removeStream
  split
  · rw [keys, keys, List.filter_map]
    rfl
  · rename_i hid
    rw [isRegistered_iff] at hid
    rw [List.filter_eq_self.mpr]
    intro other hother
    exact decide_eq_true fun heq => hid (heq ▸ hother)

theorem removeStream_active :
    (session.removeStream id).active =
      if id ∈ session.keys then session.active - 1 else session.active := by
  unfold removeStream
  by_cases hid : id ∈ session.keys
  · rw [if_pos (isRegistered_iff.mpr hid), if_pos hid]
  · rw [if_neg (isRegistered_iff.not.mpr hid), if_neg hid]

@[simp] theorem removeStream_stage : (session.removeStream id).stage = session.stage := by
  unfold removeStream
  split <;> rfl

theorem insertStream_keys :
    (session.insertStream id caller).keys = session.keys.filter (· ≠ id) ++ [id] := by
  rw [keys, insertStream, List.map_append, keys, List.filter_map]
  rfl

@[simp] theorem acknowledge_keys : (session.acknowledge frame).keys = session.keys := by
  unfold acknowledge
  split
  · split
    · simp only [keys, List.map_map]
      refine List.map_congr_left fun other _ => ?_
      simp only [Function.comp_apply]
      split <;> rfl
    · rfl
  · rfl

@[simp] theorem acknowledge_active : (session.acknowledge frame).active = session.active := by
  unfold acknowledge
  split
  · split <;> rfl
  · rfl

@[simp] theorem acknowledge_stage : (session.acknowledge frame).stage = session.stage := by
  unfold acknowledge
  split
  · split
    · funext call
      simp only [stage, List.getElem?_modify, Option.map_eq_map, Option.map_map]
      congr 1
      funext other
      simp only [Function.comp_apply]
      split <;> rfl
    · rfl
  · rfl

end

-- The steps of a call that leave the map and the counter alone and do not end in a refusal.
-- A call begins at the check inside `try_reserve`.
inductive Advances (session : ClientSession) : Option OpenStage → OpenStage → Prop
  | trying : session.announced = true → Advances session none .trying
  | busy : session.active ≠ 0 → Advances session (some .trying) .busy
  | checked : session.closed = false → Advances session (some .reserved) .checked
  | numbered : Advances session (some .checked) (.numbered session.nextStreamId)
  | sending {id} : id ∈ session.keys → Advances session (some (.inserted id)) (.sending id)
  | panicked {id} : id ∉ session.keys → Advances session (some (.inserted id)) (.panicked id)
  | connecting {id} : Advances session (some (.sending id)) (.connecting id)
  | opened {id} : Advances session (some (.connecting id)) (.opened id)

-- An action that takes an id out of the map, drains the map, overwrites the counter, or
-- refuses a call its session.
inductive Kind where
  | other
  | removes (id : UInt32)
  | drains
  | stores
  | refuses
deriving DecidableEq, Repr

def kind (session : ClientSession) : Action → Kind
  | .receive frame =>
      if session.reader = none ∧ frame.command = CMD_FIN then .removes frame.streamId else .other
  | .fail call =>
      match session.stage call with
      | some (.sending id) => if session.txClosed then .removes id else .other
      | some (.connecting id) => .removes id
      | _ => .other
  | .pumpRemove pump =>
      match session.pumps[pump]? with
      | some ⟨id, .leaving⟩ => .removes id
      | _ => .other
  | .teardown index =>
      match session.teardowns[index]? with
      | some .draining => .drains
      | some .storing => .stores
      | _ => .other
  | .check call =>
      if session.stage call = some .reserved ∧ session.fresh = false ∧ session.closed = true then
        .refuses
      else .other
  | _ => .other

-- What a step may do to the map, the counter and the calls.
inductive Moves (session next : ClientSession) : Kind → Prop
  | quiet : next.keys = session.keys → next.active = session.active →
      next.stage = session.stage → Moves session next .other
  | advance (call : Nat) (stage : OpenStage) : session.Advances (session.stage call) stage →
      next.keys = session.keys → next.active = session.active →
      next.stage = Function.update session.stage call (some stage) → Moves session next .other
  | reserve (call : Nat) : session.stage call = some .trying → session.active = 0 →
      next.keys = session.keys → next.active = 1 →
      next.stage = Function.update session.stage call (some .reserved) → Moves session next .other
  | insert (call : Nat) (id : UInt32) : session.stage call = some (.numbered id) →
      next.keys = session.keys.filter (· ≠ id) ++ [id] → next.active = session.active →
      next.stage = Function.update session.stage call (some (.inserted id)) →
      Moves session next .other
  | remove (id : UInt32) : next.keys = session.keys.filter (· ≠ id) →
      next.active = (if id ∈ session.keys then session.active - 1 else session.active) →
      next.stage = session.stage → Moves session next (.removes id)
  | fail (call : Nat) (id : UInt32) :
      (session.stage call = some (.sending id) ∨ session.stage call = some (.connecting id)) →
      next.keys = session.keys.filter (· ≠ id) →
      next.active = (if id ∈ session.keys then session.active - 1 else session.active) →
      next.stage = Function.update session.stage call (some (.failed id false)) →
      Moves session next (.removes id)
  | drain : next.keys = [] → next.active = session.active → next.stage = session.stage →
      Moves session next .drains
  | store : next.keys = session.keys → next.active = 0 → next.stage = session.stage →
      Moves session next .stores
  | refuse (call : Nat) : session.stage call = some .reserved → next.keys = session.keys →
      next.active = session.active →
      next.stage = Function.update session.stage call (some .refused) → Moves session next .refuses

theorem receive_moves (session : ClientSession) (frame : Frame) :
    Moves session (session.receive frame)
      (if frame.command = CMD_FIN then .removes frame.streamId else .other) := by
  by_cases hfin : frame.command = CMD_FIN
  · have hreceive : session.receive frame = session.removeStream frame.streamId := by
      simp only [receive, hfin]
      rfl
    rw [if_pos hfin, hreceive]
    exact .remove _ (session.removeStream_keys _) (session.removeStream_active _)
      (session.removeStream_stage _)
  · rw [if_neg hfin]
    unfold receive
    split_ifs
    · exact .quiet rfl rfl rfl
    · exact .quiet (by simp) (by simp) (by simp)
    · obtain ⟨tx, heq⟩ := session.send_frame ⟨CMD_HEARTBEAT_RESPONSE, 0, frame.data⟩
      rw [heq]
      exact .quiet rfl rfl rfl
    · exact .quiet rfl rfl rfl
    · split <;> exact .quiet rfl rfl rfl
    · exact .quiet rfl rfl rfl
    · exact .quiet rfl rfl rfl
    · exact .quiet rfl rfl rfl

theorem moves_of_step {session next : ClientSession} {action : Action}
    (h : session.step action = some next) : Moves session next (session.kind action) := by
  cases action with
  | announce =>
      simp only [step, Option.ite_none_left_eq_some, Option.some.injEq] at h
      obtain ⟨_, rfl⟩ := h
      obtain ⟨tx, heq⟩ := session.send_frame (settingsFrame session.padding)
      rw [heq]
      exact .quiet rfl rfl rfl
  | acquire =>
      simp only [step, Option.ite_none_right_eq_some, Option.some.injEq] at h
      obtain ⟨⟨hannounced, _⟩, rfl⟩ := h
      have hnone : session.stage session.calls.length = none := by simp [stage]
      exact .advance session.calls.length .trying (hnone ▸ .trying hannounced) rfl rfl
        (session.push_stage _)
  | reserve call =>
      simp only [step] at h
      split at h
      · rename_i hstage
        obtain rfl := Option.some.inj h
        unfold reserve
        split
        · rename_i hactive
          exact .reserve call hstage hactive rfl rfl (session.setStage_stage call _ hstage)
        · rename_i hactive
          exact .advance call .busy (hstage ▸ .busy hactive) rfl rfl
            (session.setStage_stage call _ hstage)
      · cases h
  | check call =>
      simp only [step] at h
      split at h
      · rename_i hstage
        simp only [Option.ite_none_left_eq_some, Option.some.injEq] at h
        obtain ⟨hfresh, rfl⟩ := h
        rw [kind]
        by_cases hclosed : session.closed = true
        · rw [if_pos hclosed, if_pos ⟨hstage, by simpa using hfresh, hclosed⟩]
          exact .refuse call hstage rfl rfl (session.setStage_stage call _ hstage)
        · rw [if_neg hclosed, if_neg fun h => hclosed h.2.2]
          exact .advance call .checked (hstage ▸ .checked (by simpa using hclosed)) rfl rfl
            (session.setStage_stage call _ hstage)
      · cases h
  | number call =>
      simp only [step] at h
      split at h
      · rename_i hstage
        obtain rfl := Option.some.inj h
        exact .advance call _ (hstage ▸ .numbered) rfl rfl (session.setStage_stage call _ hstage)
      · cases h
  | insert call =>
      simp only [step] at h
      split at h
      · rename_i id hstage
        obtain rfl := Option.some.inj h
        exact .insert call id hstage (session.insertStream_keys id call) rfl
          ((session.insertStream id call).setStage_stage call _ hstage)
      · cases h
  | lookup call =>
      simp only [step] at h
      split at h
      · rename_i id hstage
        obtain rfl := Option.some.inj h
        unfold lookup
        split
        · rename_i hid
          exact .advance call (.sending id) (hstage ▸ .sending (isRegistered_iff.mp hid)) rfl rfl
            (session.setStage_stage call _ hstage)
        · rename_i hid
          exact .advance call (.panicked id)
            (hstage ▸ .panicked (isRegistered_iff.not.mp hid)) rfl rfl
            (session.setStage_stage call _ hstage)
      · cases h
  | sendSyn call =>
      simp only [step] at h
      split at h
      · rename_i id hstage
        simp only [Option.ite_none_left_eq_some, Option.some.injEq] at h
        obtain ⟨_, rfl⟩ := h
        obtain ⟨tx, heq⟩ := session.send_frame ⟨CMD_SYN, id, []⟩
        rw [heq]
        exact .advance call (.connecting id) (hstage ▸ .connecting) rfl rfl
          (session.setStage_stage call _ hstage)
      · cases h
  | succeed call =>
      simp only [step] at h
      split at h
      · rename_i id synack hcall
        have hstage : session.stage call = some (.connecting id) := by simp [stage, hcall]
        simp only [Option.ite_none_right_eq_some, Option.some.injEq] at h
        obtain ⟨_, rfl⟩ := h
        exact .advance call (.opened id) (hstage ▸ .opened) rfl rfl
          (session.setStage_stage call _ hstage)
      · cases h
  | fail call =>
      simp only [step] at h
      have hfail : ∀ id, (session.stage call = some (.sending id) ∨
          session.stage call = some (.connecting id)) →
          Moves session (session.fail call id) (.removes id) := by
        intro id hstage
        obtain ⟨old, hold⟩ : ∃ old, session.stage call = some old := hstage.elim (⟨_, ·⟩) (⟨_, ·⟩)
        have hgone : (session.removeStream id).isRegistered id = false := by
          rw [isRegistered_eq_false, removeStream_keys]
          simp
        refine .fail call id hstage (session.removeStream_keys id)
          (session.removeStream_active id) ?_
        rw [fail, hgone, setStage_stage _ call _ (by rw [removeStream_stage, hold]),
          removeStream_stage]
      cases hstage : session.stage call with
      | none => simp only [hstage, reduceCtorEq] at h
      | some stage =>
          cases stage with
          | sending id =>
              simp only [hstage, Option.ite_none_right_eq_some, Option.some.injEq] at h
              obtain ⟨hclosed, rfl⟩ := h
              simp only [kind, hstage, hclosed]
              exact hfail id (.inl hstage)
          | connecting id =>
              simp only [hstage, Option.some.injEq] at h
              obtain rfl := h
              simp only [kind, hstage]
              exact hfail id (.inr hstage)
          | _ => simp only [hstage, reduceCtorEq] at h
  | receive frame =>
      simp only [step, Option.ite_none_right_eq_some, Option.some.injEq, Option.isNone_iff_eq_none]
        at h
      obtain ⟨hreader, rfl⟩ := h
      simpa only [kind, hreader, true_and] using session.receive_moves frame
  | push | forget | cancelReader | breakReader | retire | close =>
      simp only [step, Option.ite_none_right_eq_some, Option.some.injEq] at h
      obtain ⟨_, rfl⟩ := h
      exact .quiet rfl rfl rfl
  | teardown index =>
      obtain ⟨teardown, hindex, hrun⟩ := Option.bind_eq_some_iff.mp h
      simp only [kind, hindex]
      cases teardown <;> simp only [runTeardown, Option.some.injEq, reduceCtorEq] at hrun
      · subst hrun
        exact .quiet rfl rfl rfl
      · subst hrun
        exact .drain rfl rfl rfl
      · subst hrun
        exact .store rfl rfl rfl
  | pumpSend index data =>
      simp only [step] at h
      split at h
      · rename_i id _
        simp only [Option.ite_none_right_eq_some, Option.some.injEq] at h
        obtain ⟨_, rfl⟩ := h
        obtain ⟨tx, heq⟩ := session.send_frame ⟨CMD_PSH, id, data⟩
        rw [heq]
        exact .quiet rfl rfl rfl
      · cases h
  | pumpFinish index =>
      simp only [step] at h
      split at h
      · rename_i id _
        obtain rfl := Option.some.inj h
        obtain ⟨tx, heq⟩ := session.send_frame ⟨CMD_FIN, id, []⟩
        rw [heq]
        exact .quiet rfl rfl rfl
      · cases h
  | pumpRemove index =>
      simp only [step] at h
      split at h
      · rename_i id hpump
        obtain rfl := Option.some.inj h
        simp only [kind, hpump]
        exact .remove id (session.removeStream_keys id) (session.removeStream_active id)
          (session.removeStream_stage id)
      · cases h
  | written =>
      simp only [step] at h
      split at h
      · obtain rfl := Option.some.inj h
        exact .quiet rfl rfl rfl
      · cases h
  | closeTx | repadded padding =>
      obtain rfl := Option.some.inj h
      exact .quiet rfl rfl rfl

end SingBox.AnyTls.ClientSession
