import SingBox.Library.Run
import Mathlib.Data.List.Basic

namespace SingBox.Core

open Library

-- A task that `spawn` has been called for. `counted` is not yet with the runtime, `notifying`
-- has ended, and its guard has taken it off the counter but has still to notify.
inductive TaskStage where
  | counted
  | running
  | notifying
  | done
deriving DecidableEq, Repr

-- A call of `join`. `armed` has made its `Notified`, and has still to look at the counter.
-- `notified` tells whether `notify_waiters` has been called since it was made.
inductive JoinStage where
  | calling
  | armed (notified : Bool)
  | waiting (notified : Bool)
  | returned
deriving DecidableEq, Repr

def TaskStage.unfinished : TaskStage → Bool
  | .counted | .running => true
  | .notifying | .done => false

-- `notify_waiters` for one of those that have made a `Notified`.
def JoinStage.notify : JoinStage → JoinStage
  | .armed _ => .armed true
  | .waiting _ => .waiting true
  | stage => stage

-- There are never 2^64 tasks, so the counter is a number.
structure ConnectionTasks where
  active : Nat
  tasks : List TaskStage
  joins : List JoinStage
deriving DecidableEq, Repr

namespace ConnectionTasks

def new : ConnectionTasks := { active := 0, tasks := [], joins := [] }

inductive Action where
  | spawn
  | handOver (task : Nat)
  -- it returns or panics, and its guard is dropped
  | finish (task : Nat)
  | notify (task : Nat)
  | join
  | listen (call : Nat)
  | check (call : Nat)
  | wake (call : Nat)
deriving DecidableEq, Repr

def step (this : ConnectionTasks) : Action → Option ConnectionTasks
  | .spawn => some { this with active := this.active + 1, tasks := this.tasks ++ [.counted] }
  | .handOver task =>
      if this.tasks[task]? = some .counted then
        some { this with tasks := this.tasks.set task .running }
      else none
  | .finish task =>
      if this.tasks[task]? = some .running then
        some { this with active := this.active - 1, tasks := this.tasks.set task .notifying }
      else none
  | .notify task =>
      if this.tasks[task]? = some .notifying then
        some { this with
          tasks := this.tasks.set task .done
          joins := this.joins.map JoinStage.notify }
      else none
  | .join => some { this with joins := this.joins ++ [.calling] }
  | .listen call =>
      if this.joins[call]? = some .calling then
        some { this with joins := this.joins.set call (.armed false) }
      else none
  | .check call =>
      match this.joins[call]? with
      | some (.armed notified) =>
          some { this with
            joins := this.joins.set call (if this.active = 0 then .returned else .waiting notified) }
      | _ => none
  | .wake call =>
      if this.joins[call]? = some (.waiting true) then
        some { this with joins := this.joins.set call .calling }
      else none

def unfinished (this : ConnectionTasks) : Nat := this.tasks.countP TaskStage.unfinished

-- The counter is right, and who waits has something to wait for.
structure Sound (this : ConnectionTasks) : Prop where
  counts : this.active = this.unfinished
  awaits : .waiting false ∈ this.joins → 0 < this.active ∨ .notifying ∈ this.tasks

theorem sound_new : new.Sound := ⟨rfl, fun h => absurd h List.not_mem_nil⟩

theorem countP_set {tasks : List TaskStage} {task : Nat} {before : TaskStage}
    (h : tasks[task]? = some before) (after : TaskStage) :
    (tasks.set task after).countP TaskStage.unfinished + before.unfinished.toNat =
      tasks.countP TaskStage.unfinished + after.unfinished.toNat := by
  induction tasks generalizing task with
  | nil => simp at h
  | cons first rest ih =>
      cases task with
      | zero =>
          obtain rfl : first = before := by simpa using h
          rw [List.set_cons_zero, List.countP_cons, List.countP_cons]
          cases first.unfinished <;> cases after.unfinished <;> simp
      | succ task =>
          rw [List.getElem?_cons_succ] at h
          have hrest := ih h
          rw [List.set_cons_succ, List.countP_cons, List.countP_cons]
          omega

-- A task that is about to notify stays so unless it is the one that is changed.
theorem notifying_set {tasks : List TaskStage} {task : Nat} {before after : TaskStage}
    (h : tasks[task]? = some before) (hne : before ≠ .notifying) (hn : .notifying ∈ tasks) :
    .notifying ∈ tasks.set task after := by
  obtain ⟨other, hlt, hother⟩ := List.mem_iff_getElem.mp hn
  have hdiff : task ≠ other := by
    rintro rfl
    rw [List.getElem?_eq_getElem hlt, hother] at h
    exact hne (Option.some.inj h).symm
  refine List.mem_iff_getElem?.mpr ⟨other, ?_⟩
  rw [List.getElem?_set_ne hdiff, List.getElem?_eq_getElem hlt, hother]

theorem Sound.step {this next : ConnectionTasks} (action : Action) (h : this.Sound)
    (hs : this.step action = some next) : next.Sound := by
  have hcounts := h.counts
  unfold unfinished at hcounts
  cases action with
  | spawn =>
      obtain rfl := Option.some.inj hs
      refine ⟨?_, fun _ => .inl (Nat.succ_pos _)⟩
      show this.active + 1 = (this.tasks ++ [TaskStage.counted]).countP TaskStage.unfinished
      rw [List.countP_append, hcounts]
      rfl
  | handOver task =>
      obtain ⟨htask, hs⟩ := Option.ite_none_right_eq_some.mp hs
      obtain rfl := Option.some.inj hs
      have hset := countP_set htask .running
      refine ⟨hcounts.trans (Nat.add_right_cancel hset).symm, fun hw => ?_⟩
      exact (h.awaits hw).imp_right fun hn => notifying_set htask (by simp) hn
  | finish task =>
      obtain ⟨htask, hs⟩ := Option.ite_none_right_eq_some.mp hs
      obtain rfl := Option.some.inj hs
      have hset := countP_set htask .notifying
      have hlt := (List.getElem?_eq_some_iff.mp htask).1
      refine ⟨?_, fun _ => .inr (List.mem_set hlt _)⟩
      show this.active - 1 = (this.tasks.set task .notifying).countP TaskStage.unfinished
      simp only [TaskStage.unfinished, Bool.toNat_true, Bool.toNat_false] at hset
      omega
  | notify task =>
      obtain ⟨htask, hs⟩ := Option.ite_none_right_eq_some.mp hs
      obtain rfl := Option.some.inj hs
      have hset := countP_set htask .done
      refine ⟨hcounts.trans (Nat.add_right_cancel hset).symm, fun hw => ?_⟩
      -- nobody who has listened is left without the notification
      obtain ⟨stage, -, hstage⟩ := List.mem_map.mp hw
      cases stage <;> simp [JoinStage.notify] at hstage
  | join =>
      obtain rfl := Option.some.inj hs
      exact ⟨h.counts, fun hw => h.awaits (by simpa using hw)⟩
  | listen call =>
      obtain ⟨_, hs⟩ := Option.ite_none_right_eq_some.mp hs
      obtain rfl := Option.some.inj hs
      refine ⟨h.counts, fun hw => h.awaits ?_⟩
      exact (List.mem_or_eq_of_mem_set hw).resolve_right (by simp)
  | check call =>
      simp only [ConnectionTasks.step] at hs
      split at hs
      · obtain rfl := Option.some.inj hs
        refine ⟨h.counts, fun hw => ?_⟩
        by_cases hzero : this.active = 0
        · simp only [hzero, if_true] at hw
          exact h.awaits ((List.mem_or_eq_of_mem_set hw).resolve_right (by simp))
        · exact .inl (Nat.pos_of_ne_zero hzero)
      · cases hs
  | wake call =>
      obtain ⟨_, hs⟩ := Option.ite_none_right_eq_some.mp hs
      obtain rfl := Option.some.inj hs
      refine ⟨h.counts, fun hw => h.awaits ?_⟩
      exact (List.mem_or_eq_of_mem_set hw).resolve_right (by simp)

-- A call of `join` returns in a state in which no task is active.
theorem returned_of_step {this next : ConnectionTasks} {action : Action} {call : Nat}
    (hs : this.step action = some next) (hbefore : this.joins[call]? ≠ some JoinStage.returned)
    (hafter : next.joins[call]? = some JoinStage.returned) :
    this.active = 0 ∧ ∃ notified, this.joins[call]? = some (.armed notified) := by
  -- a stage that is put in for one call makes no other call return
  have hset : ∀ {other : Nat} {stage : JoinStage}, stage ≠ JoinStage.returned →
      (this.joins.set other stage)[call]? ≠ some JoinStage.returned := by
    intro other stage hstage hreturned
    by_cases hcall : other = call
    · subst hcall
      rw [List.getElem?_set, if_pos rfl] at hreturned
      split_ifs at hreturned
      exact hstage (Option.some.inj hreturned)
    · exact hbefore ((List.getElem?_set_ne hcall).symm.trans hreturned)
  cases action with
  | spawn =>
      obtain rfl := Option.some.inj hs
      exact absurd hafter hbefore
  | handOver task | finish task =>
      obtain ⟨_, hs⟩ := Option.ite_none_right_eq_some.mp hs
      obtain rfl := Option.some.inj hs
      exact absurd hafter hbefore
  | notify task =>
      obtain ⟨_, hs⟩ := Option.ite_none_right_eq_some.mp hs
      obtain rfl := Option.some.inj hs
      obtain ⟨stage, hstage, hreturned⟩ := Option.map_eq_some_iff.mp
        ((List.getElem?_map (f := JoinStage.notify)).symm.trans hafter)
      cases stage with
      | returned => exact absurd hstage hbefore
      | _ => simp [JoinStage.notify] at hreturned
  | join =>
      obtain rfl := Option.some.inj hs
      rw [List.getElem?_append] at hafter
      split_ifs at hafter with hlt
      · exact absurd hafter hbefore
      · rw [List.getElem?_singleton] at hafter
        split_ifs at hafter
        cases hafter
  | listen other | wake other =>
      obtain ⟨_, hs⟩ := Option.ite_none_right_eq_some.mp hs
      obtain rfl := Option.some.inj hs
      exact absurd hafter (hset (by simp))
  | check other =>
      simp only [ConnectionTasks.step] at hs
      split at hs
      · rename_i notified harmed
        obtain rfl := Option.some.inj hs
        by_cases hzero : this.active = 0
        · refine ⟨hzero, notified, ?_⟩
          by_cases hcall : other = call
          · exact hcall ▸ harmed
          · exact absurd ((List.getElem?_set_ne hcall).symm.trans hafter) hbefore
        · simp only [hzero, if_false] at hafter
          exact absurd hafter (hset (by simp))
      · cases hs

-- In every state a run comes to the counter is right, each call of `join` that has returned
-- was under way in a state without active tasks, and nobody waits in vain.
theorem join_waits_exactly (actions : List Action) (final : ConnectionTasks)
    (he : Run.exec step new actions = some final) :
    final.active = final.unfinished ∧
    (∀ call : Nat, final.joins[call]? = some JoinStage.returned →
      ∃ front back mid stage, actions = front ++ back ∧ Run.exec step new front = some mid ∧
        mid.joins[call]? = some stage ∧ stage ≠ JoinStage.returned ∧ mid.active = 0) ∧
    (.waiting false ∈ final.joins → final.active = 0 → .notifying ∈ final.tasks) := by
  have hsound : final.Sound :=
    Run.invariant (fun _ action _ h hs => Sound.step action h hs) new actions final sound_new he
  refine ⟨hsound.counts, fun call hreturned => ?_, fun hwaiting hzero => ?_⟩
  · obtain ⟨front, action, back, mid, next, rfl, hmid, hbefore, hs, hafter⟩ :=
      Run.brought_about (fun state => state.joins[call]? = some JoinStage.returned) (by simp [new]) he
        hreturned
    obtain ⟨hzero, notified, harmed⟩ := returned_of_step hs hbefore hafter
    exact ⟨front, action :: back, mid, .armed notified, rfl, hmid, harmed, by simp, hzero⟩
  · exact (hsound.awaits hwaiting).resolve_left (by omega)

-- A task ends between the look at the counter and the wait.
theorem join_waits_exactly_raced :
    let actions : List Action := [.spawn, .handOver 0, .join, .listen 0, .check 0, .finish 0,
      .notify 0, .wake 0, .listen 0, .check 0]
    ∃ front back mid stage, actions = front ++ back ∧ Run.exec step new front = some mid ∧
      mid.joins[0]? = some stage ∧ stage ≠ JoinStage.returned ∧ mid.active = 0 :=
  (join_waits_exactly _ { active := 0, tasks := [.done], joins := [.returned] } rfl).2.1 0 rfl

end ConnectionTasks

end SingBox.Core
