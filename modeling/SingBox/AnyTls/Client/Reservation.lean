import SingBox.AnyTls.Client.Open

namespace SingBox.AnyTls

open Library

-- The caller has the session and has not registered its stream.
def OpenStage.Reserved (stage : OpenStage) : Prop :=
  stage = .reserved ∨ stage = .checked ∨ ∃ id, stage = .numbered id

namespace ClientSession

def Holds (session : ClientSession) (call : Nat) : Prop :=
  ∃ stage, session.stage call = some stage ∧ stage.Reserved

-- What the counter of a session says.
structure Counted (session : ClientSession) : Prop where
  one : session.active = 1 ↔ (∃ call, session.Holds call) ∨ session.streams ≠ []
  zero : session.active ≠ 1 → session.active = 0
  single : session.streams.length ≤ 1

-- Nobody has the session, or one caller that has not registered its stream, or one stream.
inductive Held (session : ClientSession) : Prop
  | free : session.active = 0 → session.keys = [] → (∀ call, ¬session.Holds call) → Held session
  | reserved (call : Nat) : session.active = 1 → session.keys = [] →
      (∀ other, session.Holds other ↔ other = call) → Held session
  | registered (id : UInt32) : session.active = 1 → session.keys = [id] →
      (∀ call, ¬session.Holds call) → Held session

-- `clear_streams` finds nothing in the map and nobody that holds the session when it
-- overwrites the counter, and nobody that holds the session finds it closed.
def Undisturbed (session : ClientSession) (action : Action) : Prop :=
  match session.kind action with
  | .drains => session.streams = []
  | .stores => session.streams = [] ∧ ∀ call, ¬session.Holds call
  | .refuses => False
  | _ => True

section

variable {session next : ClientSession}

theorem streams_eq_nil : session.streams = [] ↔ session.keys = [] := by
  rw [keys, List.map_eq_nil_iff]

theorem holds_iff {call : Nat} {stage : OpenStage} (h : session.stage call = some stage) :
    session.Holds call ↔ stage.Reserved := by
  constructor
  · rintro ⟨other, hother, hr⟩
    obtain rfl := Option.some.inj (h.symm.trans hother)
    exact hr
  · exact fun hr => ⟨stage, h, hr⟩

-- A call that goes on holds the session as before.
theorem Advances.holds {call : Nat} {stage : OpenStage}
    (h : session.Advances (session.stage call) stage) :
    stage.Reserved ↔ session.Holds call := by
  generalize hold : session.stage call = old at h
  cases h with
  | trying => simp [Holds, hold, OpenStage.Reserved]
  | _ => simp [holds_iff hold, OpenStage.Reserved]

theorem Held.counted (h : session.Held) : session.Counted := by
  cases h with
  | free hactive hkeys hholds =>
      refine ⟨?_, fun _ => hactive, ?_⟩
      · simp [hactive, streams_eq_nil.mpr hkeys, hholds]
      · simp [streams_eq_nil.mpr hkeys]
  | reserved call hactive hkeys hholds =>
      refine ⟨iff_of_true hactive (.inl ⟨call, (hholds call).mpr rfl⟩), fun h => absurd hactive h, ?_⟩
      simp [streams_eq_nil.mpr hkeys]
  | registered id hactive hkeys _ =>
      have hlength : session.streams.length = 1 := by
        rw [← List.length_map (f := ClientStream.id)]
        exact congrArg List.length hkeys
      refine ⟨iff_of_true hactive (.inr ?_), fun h => absurd hactive h, hlength.le⟩
      rw [ne_eq, streams_eq_nil, hkeys]
      simp

theorem Held.of_eq (h : session.Held) (hkeys : next.keys = session.keys)
    (hactive : next.active = session.active) (hholds : ∀ call, next.Holds call ↔ session.Holds call) :
    next.Held := by
  cases h with
  | free ha hk hh => exact .free (hactive ▸ ha) (hkeys ▸ hk) fun call => (hholds call).not.mpr (hh call)
  | reserved call ha hk hh =>
      exact .reserved call (hactive ▸ ha) (hkeys ▸ hk) fun other => (hholds other).trans (hh other)
  | registered id ha hk hh =>
      exact .registered id (hactive ▸ ha) (hkeys ▸ hk) fun call => (hholds call).not.mpr (hh call)

-- An id is taken out of the map, and the counter follows.
theorem Held.remove (h : session.Held) {id : UInt32}
    (hkeys : next.keys = session.keys.filter (· ≠ id))
    (hactive : next.active = if id ∈ session.keys then session.active - 1 else session.active)
    (hholds : ∀ call, next.Holds call ↔ session.Holds call) : next.Held := by
  by_cases hid : id ∈ session.keys
  · rw [if_pos hid] at hactive
    cases h with
    | free _ hk _ => simp [hk] at hid
    | reserved _ _ hk _ => simp [hk] at hid
    | registered other ha hk hh =>
        rw [hk, List.mem_singleton] at hid
        subst hid
        refine .free (by rw [hactive, ha]; rfl) (by simp [hkeys, hk]) fun call => ?_
        exact (hholds call).not.mpr (hh call)
  · rw [if_neg hid] at hactive
    have hsame : session.keys.filter (· ≠ id) = session.keys := by
      refine List.filter_eq_self.mpr fun other hother => decide_eq_true fun heq => ?_
      exact hid (heq ▸ hother)
    exact h.of_eq (hkeys.trans hsame) hactive hholds

end

end ClientSession

end SingBox.AnyTls
