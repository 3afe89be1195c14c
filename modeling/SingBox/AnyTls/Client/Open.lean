import SingBox.AnyTls.Client.Step

namespace SingBox.AnyTls.ClientSession

open Library

-- `open_stream` finds the stream it has inserted, if it looks now, and none of its errors
-- has left a stream behind.
structure Safe (session : ClientSession) : Prop where
  found : ∀ call id, session.stage call = some (.inserted id) → session.isRegistered id
  noPanic : ∀ call id, session.stage call ≠ some (.panicked id)
  noLeft : ∀ call id, session.stage call ≠ some (.failed id true)

-- What is taken out of the map is not a stream that was inserted and not yet looked up.
def SparesInserted (session : ClientSession) (action : Action) : Prop :=
  match session.kind action with
  | .removes id => ∀ call, session.stage call ≠ some (.inserted id)
  | .drains => ∀ call id, session.stage call ≠ some (.inserted id)
  | _ => True

@[simp] theorem new_stage (padding : PaddingScheme) (call : Nat) :
    (new padding).stage call = none := rfl

theorem new_safe (padding : PaddingScheme) : (new padding).Safe :=
  ⟨by simp, by simp, by simp⟩

-- Only steps that do something are of a kind of their own.
theorem kind_of_refused {session : ClientSession} {action : Action}
    (h : session.step action = none) : session.kind action = .other := by
  cases action with
  | receive frame =>
      have hreader : session.reader ≠ none := by simpa [step] using h
      exact if_neg fun hboth => hreader hboth.1
  | fail call =>
      simp only [step] at h
      cases hstage : session.stage call with
      | none => simp only [kind, hstage]
      | some stage =>
          cases stage with
          | sending id =>
              simp only [hstage, ite_eq_right_iff, reduceCtorEq, imp_false] at h
              simp only [kind, hstage]
              exact if_neg h
          | connecting id => simp only [hstage, reduceCtorEq] at h
          | _ => simp only [kind, hstage]
  | pumpRemove pump =>
      simp only [step] at h
      cases hpump : session.pumps[pump]? with
      | none => simp only [kind, hpump]
      | some found =>
          obtain ⟨id, stage⟩ := found
          cases stage with
          | leaving => simp only [hpump, reduceCtorEq] at h
          | _ => simp only [kind, hpump]
  | teardown index =>
      have hnone := Option.bind_eq_none_iff.mp h
      simp only [kind]
      split
      · rename_i hindex
        cases hnone _ hindex
      · rename_i hindex
        cases hnone _ hindex
      · rfl
  | check call =>
      simp only [step] at h
      refine if_neg ?_
      rintro ⟨hstage, hfresh, -⟩
      rw [hstage, hfresh] at h
      cases h
  | _ => rfl

section

variable {session next : ClientSession}

theorem Safe.of_eq (h : session.Safe) (hkeys : next.keys = session.keys)
    (hstage : next.stage = session.stage) : next.Safe := by
  refine ⟨fun call id hcall => ?_, ?_, ?_⟩
  · rw [hstage] at hcall
    rw [isRegistered_iff, hkeys]
    exact isRegistered_iff.mp (h.found call id hcall)
  · rw [hstage]
    exact h.noPanic
  · rw [hstage]
    exact h.noLeft

-- A call goes on while the others' streams stay in the map.
theorem Safe.update (h : session.Safe) {call : Nat} {stage : OpenStage}
    (hkeys : ∀ other id, other ≠ call → session.stage other = some (.inserted id) →
      id ∈ session.keys → id ∈ next.keys)
    (hstage : next.stage = Function.update session.stage call (some stage))
    (hfound : ∀ id, stage = .inserted id → id ∈ next.keys) (hpanic : ∀ id, stage ≠ .panicked id)
    (hleft : ∀ id, stage ≠ .failed id true) : next.Safe := by
  have hcases : ∀ other old, next.stage other = some old →
      (other = call ∧ old = stage) ∨ (other ≠ call ∧ session.stage other = some old) := by
    intro other old hother
    rw [hstage] at hother
    by_cases heq : other = call
    · subst heq
      rw [Function.update_self] at hother
      exact .inl ⟨rfl, (Option.some.inj hother).symm⟩
    · rw [Function.update_of_ne heq] at hother
      exact .inr ⟨heq, hother⟩
  refine ⟨fun other id hother => ?_, fun other id hother => ?_, fun other id hother => ?_⟩
  · rw [isRegistered_iff]
    obtain ⟨_, heq⟩ | ⟨hne, hold⟩ := hcases other _ hother
    · exact hfound id heq.symm
    · exact hkeys other id hne hold (isRegistered_iff.mp (h.found other id hold))
  · obtain ⟨_, heq⟩ | ⟨_, hold⟩ := hcases other _ hother
    · exact hpanic id heq.symm
    · exact h.noPanic other id hold
  · obtain ⟨_, heq⟩ | ⟨_, hold⟩ := hcases other _ hother
    · exact hleft id heq.symm
    · exact h.noLeft other id hold

-- The only step of a call that could go wrong is the one that looks for its stream.
theorem Safe.advance (h : session.Safe) {call : Nat} {stage : OpenStage}
    (ha : session.Advances (session.stage call) stage) (hkeys : next.keys = session.keys)
    (hstage : next.stage = Function.update session.stage call (some stage)) : next.Safe := by
  have hsame : ∀ other id, other ≠ call → session.stage other = some (.inserted id) →
      id ∈ session.keys → id ∈ next.keys := fun _ _ _ _ hid => hkeys ▸ hid
  generalize hold : session.stage call = old at ha
  cases ha with
  | @panicked id hid => exact absurd (isRegistered_iff.mp (h.found call id hold)) hid
  | _ => exact h.update hsame hstage (by simp) (by simp) (by simp)

-- An id that is not in the map afterwards was not one to be looked up.
theorem spared_of_found (h : next.Safe) {id : UInt32} (hgone : id ∉ next.keys) (call : Nat) :
    next.stage call ≠ some (.inserted id) := by
  intro hcall
  exact hgone (isRegistered_iff.mp (h.found call id hcall))

theorem safe_step {action : Action} (hs : session.Safe) (h : session.step action = some next) :
    session.SparesInserted action ↔ next.Safe := by
  have hmoves := moves_of_step h
  rw [SparesInserted]
  generalize session.kind action = kind at hmoves
  cases hmoves with
  | quiet hkeys _ hstage => exact iff_of_true trivial (hs.of_eq hkeys hstage)
  | advance call stage ha hkeys _ hstage => exact iff_of_true trivial (hs.advance ha hkeys hstage)
  | reserve call _ _ hkeys _ hstage =>
      exact iff_of_true trivial (hs.update (fun _ _ _ _ hid => hkeys ▸ hid) hstage (by simp)
        (by simp) (by simp))
  | insert call id _ hkeys _ hstage =>
      refine iff_of_true trivial (hs.update ?_ hstage ?_ (by simp) (by simp))
      · intro _ other _ _ hother
        rw [hkeys]
        by_cases heq : other = id
        · simp [heq]
        · exact List.mem_append_left _ (List.mem_filter.mpr ⟨hother, decide_eq_true heq⟩)
      · rintro other heq
        obtain rfl := OpenStage.inserted.inj heq
        simp [hkeys]
  | remove id hkeys _ hstage =>
      have hgone : id ∉ next.keys := by simp [hkeys]
      constructor
      · intro hspared
        refine ⟨fun call other hcall => ?_, hstage ▸ hs.noPanic, hstage ▸ hs.noLeft⟩
        rw [hstage] at hcall
        have hne : other ≠ id := fun heq => hspared call (heq ▸ hcall)
        rw [isRegistered_iff, hkeys]
        exact List.mem_filter.mpr
          ⟨isRegistered_iff.mp (hs.found call other hcall), decide_eq_true hne⟩
      · intro hn
        rw [← hstage]
        exact spared_of_found hn hgone
  | fail call id hold hkeys _ hstage =>
      have hgone : id ∉ next.keys := by simp [hkeys]
      constructor
      · intro hspared
        refine hs.update ?_ hstage (by simp) (by simp) (by simp)
        intro other otherId _ hother hid
        have hne : otherId ≠ id := fun heq => hspared other (heq ▸ hother)
        rw [hkeys]
        exact List.mem_filter.mpr ⟨hid, decide_eq_true hne⟩
      · intro hn other hother
        by_cases heq : other = call
        · subst heq
          rw [hother] at hold
          simp at hold
        · refine spared_of_found hn hgone other ?_
          rw [hstage, Function.update_of_ne heq]
          exact hother
  | drain hkeys _ hstage =>
      constructor
      · intro hspared
        exact ⟨fun call id hcall => absurd (hstage ▸ hcall) (hspared call id),
          hstage ▸ hs.noPanic, hstage ▸ hs.noLeft⟩
      · intro hn call id
        rw [← hstage]
        exact spared_of_found hn (by simp [hkeys]) call
  | store hkeys _ hstage => exact iff_of_true trivial (hs.of_eq hkeys hstage)
  | refuse call _ hkeys _ hstage =>
      exact iff_of_true trivial (hs.update (fun _ _ _ _ hid => hkeys ▸ hid) hstage (by simp)
        (by simp) (by simp))

end

-- The lock of the map is released between inserting a stream and looking it up. The calls
-- are safe exactly in the runs in which nothing is taken out of the map in between.
theorem open_safe_iff (padding : PaddingScheme) (actions : List Action) :
    Run.Always step Safe (new padding) actions ↔
      Run.Meets step SparesInserted (new padding) actions := by
  refine Run.always_iff_meets (fun session action next hs h => safe_step hs h) ?_ _ _
    (new_safe padding)
  intro session action h
  rw [SparesInserted, kind_of_refused h]
  trivial

-- The connection breaks when a stream has just been inserted.
theorem not_open_safe : ¬∀ padding actions, Run.Always step Safe (new padding) actions := by
  intro h
  have hrun := h { stop := 8, rules := fun _ => none, source := "" }
    [.announce, .acquire, .reserve 0, .push, .check 0, .number 0, .insert 0, .breakReader,
      .teardown 0, .teardown 0, .lookup 0]
  have hfinal := hrun.final rfl
  exact hfinal.noPanic 0 1 rfl

end SingBox.AnyTls.ClientSession
