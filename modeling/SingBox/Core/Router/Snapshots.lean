import SingBox.Core.Router
import SingBox.Library.Run

namespace SingBox.Core.Router

open Library

-- Where a call of `select` stands: before a rule, before one of the reads of a
-- rule's rule-sets, or at its end. `base` is what `matches_base` has said.
inductive SelectTask where
  | scanning (rules : List CompiledRule) (session : Session)
  | reading (rule : CompiledRule) (rest : List CompiledRule) (session : Session) (base : Bool)
      (tags : List String)
  | done (decision : Result String) (session : Session)

structure Selecting where
  ruleSets : RuleSets
  task : SelectTask

namespace Selecting

-- `replace` is someone else's, a watcher's or an updater's. `matches` holds the lock
-- of a rule-set as long as it reads it, so a replacement falls between two reads.
inductive Action where
  | advance
  | replace (tag : String) (rules : CompiledRuleSet)

def settle (rule : CompiledRule) (rest : List CompiledRule) (session : Session)
    (matched : Bool) : SelectTask :=
  if matched then
    match rule.action.decision with
    | some decision => .done decision session
    | none => .scanning rest (rule.action.rewrite session)
  else .scanning rest session

section

variable (finalOutbound : String)

def advance (ruleSets : RuleSets) : SelectTask → Option SelectTask
  | .scanning [] session => some (.done (.ok finalOutbound) session)
  | .scanning (rule :: rest) session =>
      let base := rule.matcher.matchesBase session
      if rule.matcher.ruleSets.isEmpty then
        some (settle rule rest session (base != rule.matcher.invert))
      else some (.reading rule rest session base rule.matcher.ruleSets)
  | .reading rule rest session base [] =>
      some (settle rule rest session ((base && false) != rule.matcher.invert))
  | .reading rule rest session base (tag :: tags) =>
      if ruleSets.tagMatches session tag then
        some (settle rule rest session ((base && true) != rule.matcher.invert))
      else some (.reading rule rest session base tags)
  | .done _ _ => none

-- The run of one call: nothing is done once it has returned.
def step (this : Selecting) : Action → Option Selecting
  | .advance => (advance finalOutbound this.ruleSets this.task).map fun task => { this with task }
  | .replace tag rules =>
      match this.task, this.ruleSets tag with
      | .done _ _, _ => none
      | _, none => none
      | _, some _ =>
          some { this with
            ruleSets := fun other => if other = tag then some rules else this.ruleSets other }

def start (ruleSets : RuleSets) (rules : List CompiledRule) (session : Session) : Selecting :=
  { ruleSets, task := .scanning rules (normalize session) }

-- The rule-set that the next step of the call reads.
def reads (this : Selecting) : Option String :=
  match this.task with
  | .reading _ _ _ _ (tag :: _) => some tag
  | _ => none

-- The tag's snapshot is `set` at some moment of the run.
def Active (this : Selecting) (actions : List Action) (tag : String)
    (set : Option CompiledRuleSet) : Prop :=
  ∃ before after mid, actions = before ++ after ∧
    Run.exec (step finalOutbound) this before = some mid ∧ mid.ruleSets tag = set

-- After `before` the call reads the tag.
def ReadsAfter (this : Selecting) (before : List Action) (tag : String) : Prop :=
  ∃ mid, Run.exec (step finalOutbound) this before = some mid ∧ mid.reads = some tag

-- No rule-set is replaced between two reads of it.
def Undisturbed (this : Selecting) (actions : List Action) : Prop :=
  ∀ tag before between after, actions = before ++ .advance :: (between ++ .advance :: after) →
    ReadsAfter finalOutbound this before tag →
    ReadsAfter finalOutbound this (before ++ .advance :: between) tag →
    ∀ rules, .replace tag rules ∉ between

-- The rules in their order, the one that has `count` rules after it with the
-- snapshots `choose count`.
def selectEach (choose : Nat → RuleSets) : List CompiledRule → Session → Result String × Session
  | [], session => (.ok finalOutbound, session)
  | rule :: rest, session =>
      match rule.apply (choose rest.length) session with
      | (some decision, session) => (decision, session)
      | (none, session) => selectEach choose rest session

-- What comes of a rule with this answer.
def conclude (choose : Nat → RuleSets) (rule : CompiledRule) (rest : List CompiledRule)
    (session : Session) (matched : Bool) : Result String × Session :=
  if matched then
    match rule.action.decision with
    | some decision => (decision, session)
    | none => selectEach finalOutbound choose rest (rule.action.rewrite session)
  else selectEach finalOutbound choose rest session

-- What a call that stands here comes to if the rest of its reads see the snapshots.
def evaluate (choose : Nat → RuleSets) : SelectTask → Result String × Session
  | .scanning rules session => selectEach finalOutbound choose rules session
  | .reading rule rest session base tags =>
      let hit := tags.any ((choose rest.length).tagMatches session)
      conclude finalOutbound choose rule rest session ((base && hit) != rule.matcher.invert)
  | .done decision session => (decision, session)

theorem selectEach_cons (choose : Nat → RuleSets) (rule : CompiledRule) (rest : List CompiledRule)
    (session : Session) :
    selectEach finalOutbound choose (rule :: rest) session =
      conclude finalOutbound choose rule rest session
        (rule.matcher.matches session (choose rest.length)) := by
  cases hm : rule.matcher.matches session (choose rest.length) with
  | false => simp [selectEach, CompiledRule.apply, conclude, hm]
  | true =>
      cases ha : rule.action <;>
        simp [selectEach, CompiledRule.apply, conclude, hm, ha, RuleAction.decision,
          RuleAction.rewrite]

theorem selectEach_const (ruleSets : RuleSets) (rules : List CompiledRule) (session : Session) :
    selectEach finalOutbound (fun _ => ruleSets) rules (normalize session) =
      select { finalOutbound, rules, ruleSets } session := by
  unfold select
  generalize normalize session = state
  induction rules generalizing state with
  | nil => rfl
  | cons rule rest ih =>
      rcases hr : rule.apply ruleSets state with ⟨_ | decision, next⟩
      · simp only [selectEach, hr, walk, FirstDecision.run_cons_of_pass hr]
        exact ih next
      · simp only [selectEach, hr, walk, FirstDecision.run_cons_of_decision hr, Option.getD_some]

-- Only the choices for the rules that are left count.
theorem selectEach_congr {choose other : Nat → RuleSets} (rules : List CompiledRule)
    (session : Session) (h : ∀ count < rules.length, choose count = other count) :
    selectEach finalOutbound choose rules session =
      selectEach finalOutbound other rules session := by
  induction rules generalizing session with
  | nil => rfl
  | cons rule rest ih =>
      have hrest (session : Session) :=
        ih session fun count hc => h count (Nat.lt_succ_of_lt hc)
      simp only [selectEach, h rest.length (Nat.lt_succ_self _), hrest]

theorem evaluate_scanning (choose : Nat → RuleSets) (rules : List CompiledRule)
    (session : Session) :
    evaluate finalOutbound choose (.scanning rules session) =
      selectEach finalOutbound choose rules session := rfl

theorem evaluate_reading (choose : Nat → RuleSets) (rule : CompiledRule) (rest : List CompiledRule)
    (session : Session) (base : Bool) (tags : List String) :
    evaluate finalOutbound choose (.reading rule rest session base tags) =
      conclude finalOutbound choose rule rest session
        ((base && tags.any ((choose rest.length).tagMatches session)) != rule.matcher.invert) := rfl

theorem evaluate_settle (choose : Nat → RuleSets) (rule : CompiledRule) (rest : List CompiledRule)
    (session : Session) (matched : Bool) :
    evaluate finalOutbound choose (settle rule rest session matched) =
      conclude finalOutbound choose rule rest session matched := by
  cases matched with
  | false => rfl
  | true => cases hd : rule.action.decision <;> simp [settle, conclude, evaluate, hd]

-- The choices see what the next read of the call sees, or it misses a tag that is
-- read once more.
def Sees (choose : Nat → RuleSets) (this : Selecting) : Prop :=
  match this.task with
  | .reading _ rest session _ (tag :: tags) =>
      (choose rest.length).tagMatches session tag = this.ruleSets.tagMatches session tag ∨
        this.ruleSets.tagMatches session tag = false ∧ tag ∈ tags
  | _ => True

-- A step of the call does not change what it comes to.
theorem advance_evaluate (choose : Nat → RuleSets) {this : Selecting} {task : SelectTask}
    (hs : Sees choose this) (ha : advance finalOutbound this.ruleSets this.task = some task) :
    evaluate finalOutbound choose task = evaluate finalOutbound choose this.task := by
  obtain ⟨ruleSets, current⟩ := this
  cases current with
  | done decision session => cases ha
  | scanning rules session =>
      cases rules with
      | nil =>
          obtain rfl := Option.some.inj ha
          rfl
      | cons rule rest =>
          rw [evaluate_scanning, selectEach_cons, RuleMatcher.matches]
          simp only [advance] at ha
          cases he : rule.matcher.ruleSets.isEmpty with
          | true =>
              rw [he, if_pos rfl] at ha
              obtain rfl := Option.some.inj ha
              rw [evaluate_settle]
              rfl
          | false =>
              rw [he, if_neg (by simp)] at ha
              obtain rfl := Option.some.inj ha
              rw [evaluate_reading, if_neg (by simp)]
  | reading rule rest session base tags =>
      cases tags with
      | nil =>
          obtain rfl := Option.some.inj ha
          rw [evaluate_settle]
          rfl
      | cons tag tags =>
          simp only [advance] at ha
          rw [evaluate_reading, List.any_cons]
          cases hit : ruleSets.tagMatches session tag with
          | true =>
              have hsame : (choose rest.length).tagMatches session tag = true :=
                hs.elim (·.trans hit) fun h => absurd (h.1.symm.trans hit) (by decide)
              rw [hit, if_pos rfl] at ha
              obtain rfl := Option.some.inj ha
              rw [evaluate_settle, hsame, Bool.true_or]
          | false =>
              rw [hit, if_neg (by simp)] at ha
              obtain rfl := Option.some.inj ha
              cases hs with
              | inl hsame => rw [evaluate_reading, hsame.trans hit, Bool.false_or]
              | inr hagain =>
                  -- a hit of the tag is found by the later read
                  have hany : ((choose rest.length).tagMatches session tag ||
                      tags.any ((choose rest.length).tagMatches session)) =
                      tags.any ((choose rest.length).tagMatches session) := by
                    cases hc : (choose rest.length).tagMatches session tag with
                    | false => rfl
                    | true => exact (List.any_eq_true.mpr ⟨tag, hagain.2, hc⟩).symm
                  rw [evaluate_reading, hany]

theorem step_advance {this next : Selecting} (h : step finalOutbound this .advance = some next) :
    ∃ task, advance finalOutbound this.ruleSets this.task = some task ∧
      next = { this with task } := by
  obtain ⟨task, ha, he⟩ := Option.map_eq_some_iff.mp h
  exact ⟨task, ha, he.symm⟩

theorem step_replace {this next : Selecting} {tag : String} {rules : CompiledRuleSet}
    (h : step finalOutbound this (.replace tag rules) = some next) :
    next.task = this.task ∧
      next.ruleSets = fun other => if other = tag then some rules else this.ruleSets other := by
  obtain ⟨ruleSets, task⟩ := this
  cases hset : ruleSets tag with
  | none => cases task <;> simp [step, hset] at h
  | some set =>
      cases task with
      | done decision session => simp [step] at h
      | scanning rules session =>
          simp only [step, hset, Option.some.injEq] at h
          simp [← h]
      | reading rule rest session base tags =>
          simp only [step, hset, Option.some.injEq] at h
          simp [← h]

theorem conclude_congr {choose other : Nat → RuleSets} (rule : CompiledRule)
    (rest : List CompiledRule) (session : Session) (matched : Bool)
    (h : ∀ count < rest.length, choose count = other count) :
    conclude finalOutbound choose rule rest session matched =
      conclude finalOutbound other rule rest session matched := by
  simp only [conclude, selectEach_congr finalOutbound rest _ h]

-- The choices, but for the snapshot of one tag that one rule sees.
def seeing (choose : Nat → RuleSets) (ruleSets : RuleSets) (count : Nat) (tag : String) :
    Nat → RuleSets := fun other name =>
  if other = count ∧ name = tag then ruleSets name else choose other name

theorem seeing_tagMatches (choose : Nat → RuleSets) (ruleSets : RuleSets) (count : Nat)
    (tag name : String) (session : Session) :
    (seeing choose ruleSets count tag count).tagMatches session name =
      if name = tag then ruleSets.tagMatches session name
      else (choose count).tagMatches session name := by
  by_cases h : name = tag <;> simp [RuleSets.tagMatches, seeing, h]

-- Choices for the rest of a call can be changed into ones that see what the next
-- read sees, by taking over the snapshot of that moment.
theorem exists_sees (choose : Nat → RuleSets) {this : Selecting} {task : SelectTask}
    (ha : advance finalOutbound this.ruleSets this.task = some task) :
    ∃ other : Nat → RuleSets,
      (∀ count tag, other count tag = choose count tag ∨ other count tag = this.ruleSets tag) ∧
      Sees other this ∧
      evaluate finalOutbound other task = evaluate finalOutbound choose task := by
  obtain ⟨ruleSets, current⟩ := this
  cases current with
  | done decision session => cases ha
  | scanning rules session => exact ⟨choose, fun _ _ => .inl rfl, trivial, rfl⟩
  | reading rule rest session base tags =>
      cases tags with
      | nil => exact ⟨choose, fun _ _ => .inl rfl, trivial, rfl⟩
      | cons tag tags =>
          by_cases hagain : ruleSets.tagMatches session tag = false ∧ tag ∈ tags
          · exact ⟨choose, fun _ _ => .inl rfl, .inr hagain, rfl⟩
          refine ⟨seeing choose ruleSets rest.length tag, fun count name => ?_, .inl ?_, ?_⟩
          · unfold seeing
            split
            · exact .inr rfl
            · exact .inl rfl
          · rw [seeing_tagMatches, if_pos rfl]
          have hrest (matched : Bool) :
              conclude finalOutbound (seeing choose ruleSets rest.length tag) rule rest session
                  matched = conclude finalOutbound choose rule rest session matched :=
            conclude_congr finalOutbound rule rest session matched fun count hc => funext fun name => if_neg fun h => absurd h.1 (Nat.ne_of_lt hc)
          simp only [advance] at ha
          cases hit : ruleSets.tagMatches session tag with
          | true =>
              rw [hit, if_pos rfl] at ha
              obtain rfl := Option.some.inj ha
              rw [evaluate_settle, evaluate_settle, hrest]
          | false =>
              rw [hit, if_neg (by simp)] at ha
              obtain rfl := Option.some.inj ha
              -- the tags that are left are other ones
              have hother (name : String) (hmem : name ∈ tags) :
                  (seeing choose ruleSets rest.length tag rest.length).tagMatches session name =
                    (choose rest.length).tagMatches session name := by
                rw [seeing_tagMatches, if_neg]
                rintro rfl
                exact hagain ⟨hit, hmem⟩
              have hany : tags.any
                  ((seeing choose ruleSets rest.length tag rest.length).tagMatches session) =
                  tags.any ((choose rest.length).tagMatches session) := by
                refine Bool.eq_iff_iff.mpr ?_
                simp only [List.any_eq_true]
                exact exists_congr fun name => and_congr_right fun hmem => by rw [hother name hmem]
              rw [evaluate_reading, evaluate_reading, hrest, hany]

theorem active_cons {this next : Selecting} {action : Action} {rest : List Action} {tag : String}
    {set : Option CompiledRuleSet} (hs : step finalOutbound this action = some next)
    (h : Active finalOutbound next rest tag set) :
    Active finalOutbound this (action :: rest) tag set := by
  obtain ⟨before, after, mid, rfl, he, hset⟩ := h
  exact ⟨action :: before, after, mid, rfl, by simp [Run.exec, hs, he], hset⟩

theorem active_now (this : Selecting) (actions : List Action) (tag : String) :
    Active finalOutbound this actions tag (this.ruleSets tag) :=
  ⟨[], actions, this, rfl, rfl, rfl⟩

-- Whatever is replaced in a run, the call comes to what its rules come to with
-- snapshots of that run, chosen for each rule.
theorem run_evaluate_each (this final : Selecting) (actions : List Action)
    (decision : Result String) (session : Session)
    (he : Run.exec (step finalOutbound) this actions = some final)
    (hd : final.task = .done decision session) :
    ∃ choose : Nat → RuleSets,
      (∀ count tag, Active finalOutbound this actions tag (choose count tag)) ∧
      evaluate finalOutbound choose this.task = (decision, session) := by
  induction actions generalizing this with
  | nil =>
      obtain rfl : this = final := Option.some.inj he
      exact ⟨fun _ => this.ruleSets, fun _ => active_now finalOutbound this [], by rw [hd]; rfl⟩
  | cons action rest ih =>
      obtain ⟨next, hs, hr⟩ := Option.bind_eq_some_iff.mp he
      obtain ⟨choose, hactive, heval⟩ := ih next hr
      cases action with
      | replace tag rules =>
          refine ⟨choose, fun count tag => active_cons finalOutbound hs (hactive count tag), ?_⟩
          rw [← (step_replace finalOutbound hs).1, heval]
      | advance =>
          obtain ⟨task, ha, rfl⟩ := step_advance finalOutbound hs
          obtain ⟨other, hfrom, hsees, hsame⟩ := exists_sees finalOutbound choose ha
          refine ⟨other, fun count tag => ?_, ?_⟩
          · cases hfrom count tag with
            | inl h => exact h ▸ active_cons finalOutbound hs (hactive count tag)
            | inr h => exact h ▸ active_now finalOutbound this _ tag
          · rw [← advance_evaluate finalOutbound other hsees ha, hsame, heval]

-- Every read of the run sees these snapshots.
def SeesAll (this : Selecting) (actions : List Action) (sets : RuleSets) : Prop :=
  ∀ before after tag mid, actions = before ++ .advance :: after →
    Run.exec (step finalOutbound) this before = some mid → mid.reads = some tag →
    mid.ruleSets tag = sets tag

theorem run_evaluate_const (sets : RuleSets) (this final : Selecting) (actions : List Action)
    (he : Run.exec (step finalOutbound) this actions = some final)
    (hall : SeesAll finalOutbound this actions sets) :
    evaluate finalOutbound (fun _ => sets) final.task =
      evaluate finalOutbound (fun _ => sets) this.task := by
  induction actions generalizing this with
  | nil =>
      obtain rfl : this = final := Option.some.inj he
      rfl
  | cons action rest ih =>
      obtain ⟨next, hs, hr⟩ := Option.bind_eq_some_iff.mp he
      have hnext := ih next hr fun before after tag mid hrest hm =>
        hall (action :: before) after tag mid (by rw [hrest]; rfl) (by simp [Run.exec, hs, hm])
      cases action with
      | replace tag rules => rw [hnext, (step_replace finalOutbound hs).1]
      | advance =>
          obtain ⟨task, ha, rfl⟩ := step_advance finalOutbound hs
          have hsees : Sees (fun _ => sets) this := by
            obtain ⟨ruleSets, current⟩ := this
            cases current with
            | done decision session => trivial
            | scanning rules session => trivial
            | reading rule rest session base tags =>
                cases tags with
                | nil => trivial
                | cons tag tags =>
                    have h : ruleSets tag = sets tag := hall [] _ tag _ rfl rfl rfl
                    exact .inl (by simp only [RuleSets.tagMatches, h])
          rw [hnext, ← advance_evaluate finalOutbound _ hsees ha]

-- A rule-set that is not replaced stays as it is.
theorem run_ruleSets {this final : Selecting} (actions : List Action) {tag : String}
    (he : Run.exec (step finalOutbound) this actions = some final)
    (hn : ∀ rules, Action.replace tag rules ∉ actions) :
    final.ruleSets tag = this.ruleSets tag := by
  refine Run.rule (fun _ action => ∀ rules, action ≠ Action.replace tag rules)
    (fun state => state.ruleSets tag = this.ruleSets tag) ?_ this actions final rfl ?_ he
  · intro state action next hi hc hs
    cases action with
    | advance =>
        obtain ⟨task, _, rfl⟩ := step_advance finalOutbound hs
        exact hi
    | replace other rules =>
        have hne : tag ≠ other := fun h => hc rules (h ▸ rfl)
        have hr := congrFun (step_replace finalOutbound hs).2 tag
        rw [if_neg hne] at hr
        exact hr.trans hi
  · exact Run.meets_of_forall this actions fun action hmem _ rules h => hn rules (h ▸ hmem)

-- Two reads of a tag, the second after the first, see the same snapshot.
theorem undisturbed_reads {this : Selecting} {actions : List Action}
    (hu : Undisturbed finalOutbound this actions) {before between after : List Action}
    {tag : String} {first second : Selecting}
    (hsplit : actions = before ++ .advance :: (between ++ .advance :: after))
    (hf : Run.exec (step finalOutbound) this before = some first) (hfr : first.reads = some tag)
    (hs : Run.exec (step finalOutbound) this (before ++ .advance :: between) = some second)
    (hsr : second.reads = some tag) : second.ruleSets tag = first.ruleSets tag := by
  have hkeep := hu tag before between after hsplit ⟨first, hf, hfr⟩ ⟨second, hs, hsr⟩
  rw [Run.exec_append, hf] at hs
  refine run_ruleSets finalOutbound (.advance :: between) hs fun rules hmem => ?_
  cases List.mem_cons.mp hmem with
  | inl h => cases h
  | inr h => exact hkeep rules h

private theorem two_places {α : Type} {place : α} {front front' back back' : List α}
    (h : front ++ place :: back = front' ++ place :: back') :
    front' = front ∨ (∃ between, front' = front ++ place :: between ∧
        back = between ++ place :: back') ∨
      ∃ between, front = front' ++ place :: between ∧ back' = between ++ place :: back := by
  rcases List.append_eq_append_iff.mp h with
    ⟨_ | ⟨head, between⟩, hf, hb⟩ | ⟨_ | ⟨head, between⟩, hf, hb⟩
  · exact .inl (by simpa using hf)
  · obtain ⟨rfl, hrest⟩ := List.cons.inj hb
    exact .inr (.inl ⟨between, hf, hrest⟩)
  · exact .inl (by simpa using hf.symm)
  · obtain ⟨rfl, hrest⟩ := List.cons.inj hb
    exact .inr (.inr ⟨between, hf, hrest⟩)

theorem exists_seesAll {this : Selecting} {actions : List Action}
    (hu : Undisturbed finalOutbound this actions) :
    ∃ sets : RuleSets, (∀ tag, Active finalOutbound this actions tag (sets tag)) ∧
      SeesAll finalOutbound this actions sets := by
  have hone (tag : String) : ∃ set, Active finalOutbound this actions tag set ∧
      ∀ before after mid, actions = before ++ .advance :: after →
        Run.exec (step finalOutbound) this before = some mid → mid.reads = some tag →
        mid.ruleSets tag = set := by
    by_cases hread : ∃ before after mid, actions = before ++ .advance :: after ∧
        Run.exec (step finalOutbound) this before = some mid ∧ mid.reads = some tag
    · obtain ⟨before, after, mid, hsplit, hm, hr⟩ := hread
      refine ⟨mid.ruleSets tag, ⟨before, _, mid, hsplit, hm, rfl⟩, ?_⟩
      intro before' after' mid' hsplit' hm' hr'
      rcases two_places (hsplit.symm.trans hsplit') with rfl | ⟨between, rfl, rfl⟩ |
        ⟨between, rfl, rfl⟩
      · rw [Option.some.inj (hm'.symm.trans hm)]
      · exact undisturbed_reads finalOutbound hu hsplit hm hr hm' hr'
      · exact (undisturbed_reads finalOutbound hu hsplit' hm' hr' hm hr).symm
    · refine ⟨this.ruleSets tag, active_now finalOutbound this actions tag, ?_⟩
      intro before after mid hsplit hm hr
      exact absurd ⟨before, after, mid, hsplit, hm, hr⟩ hread
  choose sets hactive hsees using hone
  exact ⟨sets, hactive, fun before after tag mid => hsees tag before after mid⟩

end

-- A call whose steps and replacements are `actions` has this outcome.
def Outcome (router : Router) (session : Session) (actions : List Action)
    (outcome : Result String × Session) : Prop :=
  ∃ final, Run.exec (step router.finalOutbound) (start router.ruleSets router.rules session)
      actions = some final ∧ final.task = .done outcome.1 outcome.2

-- The snapshots `sets` were active during the call.
def ActiveSets (router : Router) (session : Session) (actions : List Action)
    (sets : RuleSets) : Prop :=
  ∀ tag, Active router.finalOutbound (start router.ruleSets router.rules session) actions tag
    (sets tag)

-- The outcome is that of all rules with one choice of snapshots.
def OneSnapshot (router : Router) (session : Session) (actions : List Action)
    (outcome : Result String × Session) : Prop :=
  ∃ sets, ActiveSets router session actions sets ∧
    select { router with ruleSets := sets } session = outcome

-- Each rule is evaluated with one choice of snapshots, and all of them with the same
-- one where no rule-set is replaced between two reads of it.
theorem select_uses_snapshots (router : Router) (session : Session) (actions : List Action)
    (outcome : Result String × Session) (h : Outcome router session actions outcome) :
    (∃ choose : Nat → RuleSets, (∀ count, ActiveSets router session actions (choose count)) ∧
      selectEach router.finalOutbound choose router.rules (normalize session) = outcome) ∧
    (Undisturbed router.finalOutbound (start router.ruleSets router.rules session) actions →
      OneSnapshot router session actions outcome) := by
  obtain ⟨final, he, hd⟩ := h
  constructor
  · exact run_evaluate_each router.finalOutbound _ final actions outcome.1 outcome.2 he hd
  · intro hu
    obtain ⟨sets, hactive, hsees⟩ := exists_seesAll router.finalOutbound hu
    have heval := run_evaluate_const router.finalOutbound sets _ final actions he hsees
    refine ⟨sets, hactive, ?_⟩
    rw [← selectEach_const, ← evaluate_scanning]
    exact heval.symm.trans (by rw [hd]; rfl)

private def splitRouter : Router :=
  { finalOutbound := "direct"
    rules := [
      { matcher := { ruleSets := ["clients"] }, action := .route "proxy" },
      { matcher := { ruleSets := ["clients"], invert := true }, action := .reject "default" }]
    ruleSets := fun tag => if tag = "clients" then some [] else none }

private def visitor : Session :=
  { network := .tcp, source := none, destination := ⟨"example.com", 80⟩, inbound := "in" }

private def everyone : CompiledRuleSet := [.default { networks := [.tcp] }]

private def replacedBeforeRead : List Action :=
  [.advance, .replace "clients" everyone, .advance]

private theorem undisturbed_replacedBeforeRead :
    Undisturbed splitRouter.finalOutbound
      (start splitRouter.ruleSets splitRouter.rules visitor) replacedBeforeRead := by
  -- the one read is that of the last step
  intro tag before between after hsplit hfirst _ _ _
  rcases before with _ | ⟨_, _ | ⟨_, before⟩⟩
  · obtain ⟨mid, hm, hr⟩ := hfirst
    cases hm
    cases hr
  · simp [replacedBeforeRead] at hsplit
  · have hlength := congrArg List.length hsplit
    simp only [replacedBeforeRead, List.length_append, List.length_cons, List.length_nil] at hlength
    omega

theorem select_uses_snapshots_replaced :
    OneSnapshot splitRouter visitor replacedBeforeRead (.ok "proxy", visitor) :=
  (select_uses_snapshots splitRouter visitor replacedBeforeRead (.ok "proxy", visitor)
    ⟨_, rfl, rfl⟩).2 undisturbed_replacedBeforeRead

-- The first rule reads the rule-set before it is replaced and the second one reads it
-- afterwards: neither of them matches.
private def replacedBetweenReads : List Action :=
  [.advance, .advance, .advance, .replace "clients" everyone, .advance, .advance, .advance]

private theorem splitRouter_matches (sets : RuleSets) (invert : Bool) :
    RuleMatcher.matches { ruleSets := ["clients"], invert } visitor sets =
      (sets.tagMatches visitor "clients" != invert) := by
  have hbase : RuleMatcher.matchesBase { ruleSets := ["clients"], invert } visitor = true := rfl
  simp [RuleMatcher.matches, hbase]

private theorem splitRouter_select (sets : RuleSets) :
    (select { splitRouter with ruleSets := sets } visitor).1 =
      if sets.tagMatches visitor "clients" then .ok "proxy"
      else .error ["connection rejected by route rule using default"] := by
  have hsession : normalize visitor = visitor := rfl
  cases hc : sets.tagMatches visitor "clients" <;>
    simp [select, walk, splitRouter, FirstDecision.run, CompiledRule.apply, splitRouter_matches,
      hsession, hc, RuleAction.decision, Result.bail]
  rfl

theorem select_mixes_snapshots :
    Outcome splitRouter visitor replacedBetweenReads (.ok "direct", visitor) ∧
      ¬ OneSnapshot splitRouter visitor replacedBetweenReads (.ok "direct", visitor) := by
  refine ⟨⟨_, rfl, rfl⟩, ?_⟩
  rintro ⟨sets, _, hselect⟩
  have hone := splitRouter_select sets
  rw [hselect] at hone
  split at hone
  · exact absurd (Except.ok.inj hone) (by decide)
  · cases hone

end Selecting

end SingBox.Core.Router
