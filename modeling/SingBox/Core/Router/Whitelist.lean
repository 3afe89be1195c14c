import SingBox.Core.Router

namespace SingBox.Core.Router

open Library

-- The rules of the documented whitelist: what comes in at one of the inbounds and
-- matches one of the rule-sets is let out, the rest of what comes in there is not.
def allow (inbounds ruleSets : List String) (outbound : String) : CompiledRule :=
  { matcher := { inbounds, ruleSets }, action := .route outbound }

def deny (inbounds : List String) (method : String) : CompiledRule :=
  { matcher := { inbounds }, action := .reject method }

theorem compile_allow (inbounds ruleSets : List String) (outbound : String)
    (hi : inbounds ≠ []) (ho : outbound ≠ "") :
    CompiledRule.compile
        { inbound := inbounds, ruleSet := ruleSets, action := "route", outbound } =
      .ok (allow inbounds ruleSets outbound) := by
  have he : inbounds.isEmpty = false := by simpa using hi
  simp [CompiledRule.compile, RuleMatcher.fromRoute, compileNetworks, compileCidrs,
    PortMatcher.compile, normalizeDomains, RuleMatcher.isEmpty, he, ho, Result.ensure, allow,
    Bind.bind, Except.bind, pure, Except.pure]

theorem compile_deny (inbounds : List String) (method : String) (hi : inbounds ≠ [])
    (hm : method ∈ ["default", "drop", "reply"]) :
    CompiledRule.compile { inbound := inbounds, action := "reject", method } =
      .ok (deny inbounds method) := by
  have he : inbounds.isEmpty = false := by simpa using hi
  have hne : method ≠ "" := by rintro rfl; simp at hm
  have hc : method = "default" ∨ method = "drop" ∨ method = "reply" := by simpa using hm
  simp [CompiledRule.compile, RuleMatcher.fromRoute, compileNetworks, compileCidrs,
    PortMatcher.compile, normalizeDomains, RuleMatcher.isEmpty, he, hc, hne, Result.ensure, deny,
    Bind.bind, Except.bind, pure, Except.pure]

-- The inbound is the only condition of such a matcher besides its rule-sets.
theorem matchesBase_inbounds (inbounds ruleSets : List String) (session : Session)
    (hi : inbounds ≠ []) :
    RuleMatcher.matchesBase { inbounds, ruleSets } session = inbounds.contains session.inbound := by
  have he : inbounds.isEmpty = false := by simpa using hi
  simp [RuleMatcher.matchesBase, RuleMatcher.domainMatches, PortMatcher.isEmpty, he]

theorem allow_matches (inbounds sets : List String) (outbound : String) (session : Session)
    (ruleSets : RuleSets) (hi : inbounds ≠ []) (hw : sets ≠ []) :
    (allow inbounds sets outbound).matcher.matches session ruleSets =
      (inbounds.contains session.inbound && sets.any (ruleSets.tagMatches session)) := by
  have he : sets.isEmpty = false := by simpa using hw
  simp only [RuleMatcher.matches, allow, matchesBase_inbounds _ _ _ hi, he, Bool.bne_false,
    Bool.false_eq_true, if_false]

theorem deny_matches (inbounds : List String) (method : String) (session : Session)
    (ruleSets : RuleSets) (hi : inbounds ≠ []) :
    (deny inbounds method).matcher.matches session ruleSets =
      inbounds.contains session.inbound := by
  simp only [RuleMatcher.matches, deny, matchesBase_inbounds _ _ _ hi, List.isEmpty_nil,
    Bool.bne_false, if_true]

theorem rewrite_inbound (action : RuleAction) (session : Session) :
    (action.rewrite session).inbound = session.inbound := by
  cases action <;> rfl

theorem apply_inbound (ruleSets : RuleSets) (rule : CompiledRule) (session : Session) :
    (rule.apply ruleSets session).2.inbound = session.inbound := by
  unfold CompiledRule.apply
  split
  · exact rewrite_inbound _ _
  · rfl

theorem walk_inbound (ruleSets : RuleSets) (rules : List CompiledRule) (session : Session) :
    (walk ruleSets rules session).2.inbound = session.inbound := by
  induction rules generalizing session with
  | nil => rfl
  | cons rule rules ih =>
      have ha := apply_inbound ruleSets rule session
      rcases hr : rule.apply ruleSets session with ⟨_ | decision, next⟩
      · rw [hr] at ha
        rw [walk, FirstDecision.run_cons_of_pass hr]
        exact (ih next).trans ha
      · rw [hr] at ha
        rw [walk, FirstDecision.run_cons_of_decision hr]
        exact ha

section

variable (ruleSets : RuleSets) (inbounds sets : List String) (outbound method : String)
  (session : Session) (hi : inbounds ≠ []) (hw : sets ≠ [])
include hi hw

-- The pair decides about everything that comes in at its inbounds.
theorem walk_pair_of_mem (hm : session.inbound ∈ inbounds) :
    walk ruleSets [allow inbounds sets outbound, deny inbounds method] session =
      (some (if sets.any (ruleSets.tagMatches session) then .ok outbound
        else Result.bail s!"connection rejected by route rule using {method}"), session) := by
  have hc : inbounds.contains session.inbound = true := by simpa using hm
  have hallow := allow_matches inbounds sets outbound session ruleSets hi hw
  have hdeny := deny_matches inbounds method session ruleSets hi
  rw [hc, Bool.true_and] at hallow
  rw [hc] at hdeny
  cases hs : sets.any (ruleSets.tagMatches session) with
  | true =>
      apply FirstDecision.run_cons_of_decision
      rw [CompiledRule.apply, if_pos (hallow.trans hs)]
      rfl
  | false =>
      have hpass : (allow inbounds sets outbound).apply ruleSets session = (none, session) := by
        rw [CompiledRule.apply, if_neg (by simp [hallow, hs])]
      rw [walk, FirstDecision.run_cons_of_pass hpass]
      apply FirstDecision.run_cons_of_decision
      rw [CompiledRule.apply, if_pos hdeny]
      rfl

-- It leaves everything else as it is.
theorem walk_pair_of_not_mem (hm : session.inbound ∉ inbounds) :
    walk ruleSets [allow inbounds sets outbound, deny inbounds method] session =
      (none, session) := by
  have hc : inbounds.contains session.inbound = false := by simpa using hm
  have hallow := allow_matches inbounds sets outbound session ruleSets hi hw
  have hdeny := deny_matches inbounds method session ruleSets hi
  rw [hc, Bool.false_and] at hallow
  rw [hc] at hdeny
  have hfirst : (allow inbounds sets outbound).apply ruleSets session = (none, session) := by
    rw [CompiledRule.apply, if_neg (by simp [hallow])]
  have hsecond : (deny inbounds method).apply ruleSets session = (none, session) := by
    rw [CompiledRule.apply, if_neg (by simp [hdeny])]
  rw [walk, FirstDecision.run_cons_of_pass hfirst, FirstDecision.run_cons_of_pass hsecond]
  rfl

end

theorem whitelist_fails_closed (router : Router) (front back : List CompiledRule)
    (inbounds sets : List String) (outbound method : String) (session : Session)
    (hi : inbounds ≠ []) (hw : sets ≠ [])
    (hrules : router.rules =
      front ++ [allow inbounds sets outbound, deny inbounds method] ++ back) :
    (session.inbound ∈ inbounds →
      (walk router.ruleSets front (normalize session)).1 = none →
      let rewritten := (walk router.ruleSets front (normalize session)).2
      router.select session =
        (if sets.any (router.ruleSets.tagMatches rewritten) then .ok outbound
          else Result.bail s!"connection rejected by route rule using {method}", rewritten)) ∧
    (session.inbound ∉ inbounds →
      router.select session = { router with rules := front ++ back }.select session) := by
  constructor
  · intro hm hnone
    have hin := walk_inbound router.ruleSets front (normalize session)
    generalize hrw : (walk router.ruleSets front (normalize session)).2 = rewritten at hin
    have hfront : walk router.ruleSets front (normalize session) = (none, rewritten) :=
      Prod.ext hnone hrw
    have hmem : rewritten.inbound ∈ inbounds := hin ▸ hm
    have hpair := walk_pair_of_mem router.ruleSets inbounds sets outbound method rewritten hi hw
      hmem
    have hwalk : walk router.ruleSets router.rules (normalize session) =
        (some (if sets.any (router.ruleSets.tagMatches rewritten) then .ok outbound
          else Result.bail s!"connection rejected by route rule using {method}"), rewritten) := by
      rw [hrules, List.append_assoc]
      exact (FirstDecision.run_append_of_pass hfront).trans
        (FirstDecision.run_append_of_decision hpair)
    simp only [select, hwalk, Option.getD_some]
  · intro hm
    have hskip : walk router.ruleSets router.rules (normalize session) =
        walk router.ruleSets (front ++ back) (normalize session) := by
      rw [hrules]
      -- no rule changes the inbound, so the pair is given only what it leaves alone
      apply FirstDecision.run_skip fun state => state.inbound ∉ inbounds
      · intro rule _ state hs
        rwa [apply_inbound]
      · intro state hs
        exact walk_pair_of_not_mem router.ruleSets inbounds sets outbound method state hi hw hs
      · exact hm
    simp only [select, hskip]

private def whitelist : RuleSets
  | "client-whitelist" =>
      some [.default { sourceCidrs := [⟨.v4 0xc6336400#32, 24, by decide⟩] }]
  | _ => none

private def webOptions : CompiledRule :=
  { matcher := { destinationPorts := { exact := [80] } }
    action := .routeOptions (some "proxy.example") none }

private def protectedRouter : Router :=
  { finalOutbound := "direct"
    rules := [webOptions, allow ["protected-in"] ["client-whitelist"] "direct",
      deny ["protected-in"] "drop"]
    ruleSets := whitelist }

private def client (source : BitVec 32) (inbound : String) : Session :=
  { network := .tcp, source := some ⟨.v6 (IpAddr.toIpv6Mapped source), 4000⟩
    destination := ⟨"example.com", 80⟩, inbound }

-- A listed client, a client that is not listed, and one of another inbound.
theorem whitelist_fails_closed_documented :
    (protectedRouter.select (client 0xc6336407#32 "protected-in")).1 = .ok "direct" ∧
    (protectedRouter.select (client 0xcb007107#32 "protected-in")).1 =
      .error ["connection rejected by route rule using drop"] ∧
    (protectedRouter.select (client 0xcb007107#32 "other-in")).1 = .ok "direct" := by
  have h (source : BitVec 32) (inbound : String) :=
    whitelist_fails_closed protectedRouter [webOptions] [] ["protected-in"] ["client-whitelist"]
      "direct" "drop" (client source inbound) (by decide) (by decide) rfl
  refine ⟨?_, ?_, ?_⟩
  · rw [(h _ _).1 (by decide) rfl]
    rfl
  · rw [(h _ _).1 (by decide) rfl]
    rfl
  · rw [(h _ _).2 (by decide)]
    rfl

end SingBox.Core.Router
