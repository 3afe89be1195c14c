import SingBox.Core.Router

namespace SingBox.Core.Router

open Library

def withHost (session : Session) (host : String) : Session :=
  { session with destination := { session.destination with host } }

def decision (this : Router) (session : Session) : Result String :=
  (this.select session).1

section

variable (router : Router)

-- The first route or reject rule that the session matches, with the rewrites on its
-- way, decides so; or it matches none, and the final outbound is the decision.
inductive ComesTo : List CompiledRule → Session → Result String → Prop where
  | final (session : Session) : ComesTo [] session (.ok router.finalOutbound)
  | stop (rule : CompiledRule) (rest : List CompiledRule) (session : Session)
      (decision : Result String) (hm : rule.matcher.matches session router.ruleSets = true)
      (hd : rule.action.decision = some decision) : ComesTo (rule :: rest) session decision
  | rewrite (rule : CompiledRule) (rest : List CompiledRule) (session : Session)
      (decision : Result String) (hm : rule.matcher.matches session router.ruleSets = true)
      (hd : rule.action.decision = none)
      (hr : ComesTo rest (rule.action.rewrite session) decision) :
      ComesTo (rule :: rest) session decision
  | skip (rule : CompiledRule) (rest : List CompiledRule) (session : Session)
      (decision : Result String) (hm : rule.matcher.matches session router.ruleSets = false)
      (hr : ComesTo rest session decision) : ComesTo (rule :: rest) session decision

-- Both sessions are taken through the rules, each with the rewrites it has matched.
-- A route or reject rule gives them the same answer, or the one it does not match
-- comes to a decision of the same kind further down.
def AnswersAlike : List CompiledRule → Session → Session → Prop
  | [], _, _ => True
  | rule :: rest, left, right =>
      match rule.action.decision with
      | none =>
          AnswersAlike rest (rule.apply router.ruleSets left).2 (rule.apply router.ruleSets right).2
      | some decision =>
          match rule.matcher.matches left router.ruleSets,
              rule.matcher.matches right router.ruleSets with
          | true, true => True
          | true, false => ComesTo router rest right decision
          | false, true => ComesTo router rest left decision
          | false, false => AnswersAlike rest left right

end

-- No condition looks at the host of the destination.
def hostFree (matcher : RuleMatcher) : Bool :=
  matcher.domains.isEmpty && matcher.domainSuffixes.isEmpty && matcher.domainKeywords.isEmpty
    && matcher.destinationCidrs.isEmpty && matcher.destinationPrivate.isNone

theorem matchesBase_withHost {matcher : RuleMatcher} (h : hostFree matcher = true)
    (session : Session) (host : String) :
    matcher.matchesBase (withHost session host) = matcher.matchesBase session := by
  simp only [hostFree, Bool.and_eq_true, List.isEmpty_iff, Option.isNone_iff_eq_none] at h
  obtain ⟨⟨⟨⟨hd, hs⟩, hk⟩, hc⟩, hp⟩ := h
  simp [RuleMatcher.matchesBase, RuleMatcher.domainMatches, withHost, Session.sourceIp, hd, hs, hk,
    hc, hp]

mutual

def hostFreeRule : HeadlessRule → Bool
  | .default matcher => hostFree matcher
  | .logical _ rules _ => hostFreeRules rules

def hostFreeRules : List HeadlessRule → Bool
  | [] => true
  | rule :: rest => hostFreeRule rule && hostFreeRules rest

end

mutual

theorem rule_matches_withHost (session : Session) (host : String) (rule : HeadlessRule)
    (h : hostFreeRule rule = true) :
    rule.matches (withHost session host) = rule.matches session := by
  cases rule with
  | default matcher =>
      simp only [HeadlessRule.matches, RuleMatcher.matchesWithoutSets]
      rw [matchesBase_withHost h]
  | logical mode rules invert =>
      obtain ⟨hall, hany⟩ := rules_match_withHost session host rules h
      simp only [HeadlessRule.matches, hall, hany]

theorem rules_match_withHost (session : Session) (host : String) (rules : List HeadlessRule)
    (h : hostFreeRules rules = true) :
    HeadlessRule.allMatch (withHost session host) rules = HeadlessRule.allMatch session rules ∧
      HeadlessRule.anyMatches (withHost session host) rules =
        HeadlessRule.anyMatches session rules := by
  cases rules with
  | nil => exact ⟨rfl, rfl⟩
  | cons rule rest =>
      obtain ⟨hrule, hrest⟩ := Bool.and_eq_true _ _ ▸ h
      have hhead := rule_matches_withHost session host rule hrule
      obtain ⟨hall, hany⟩ := rules_match_withHost session host rest hrest
      simp only [HeadlessRule.allMatch, HeadlessRule.anyMatches, hhead, hall, hany, and_self]

end

theorem set_matches_withHost (session : Session) (host : String) (set : CompiledRuleSet)
    (h : hostFreeRules set = true) : set.matches (withHost session host) = set.matches session := by
  have hany (session : Session) (rules : List HeadlessRule) :
      CompiledRuleSet.matches rules session = HeadlessRule.anyMatches session rules := by
    induction rules with
    | nil => rfl
    | cons rule rest ih =>
        rw [HeadlessRule.anyMatches, ← ih]
        rfl
  rw [hany, hany, (rules_match_withHost session host set h).2]

-- Neither the rule nor a rule-set that it refers to looks at the host.
structure HostFree (ruleSets : RuleSets) (rule : CompiledRule) : Prop where
  matcher : hostFree rule.matcher = true
  sets : ∀ tag ∈ rule.matcher.ruleSets, ∀ set, ruleSets tag = some set → hostFreeRules set = true

theorem HostFree.matches_withHost {ruleSets : RuleSets} {rule : CompiledRule}
    (h : HostFree ruleSets rule) (session : Session) (host : String) :
    rule.matcher.matches (withHost session host) ruleSets =
      rule.matcher.matches session ruleSets := by
  have hsets : rule.matcher.ruleSets.any (ruleSets.tagMatches (withHost session host)) =
      rule.matcher.ruleSets.any (ruleSets.tagMatches session) := by
    refine Bool.eq_iff_iff.mpr ?_
    simp only [List.any_eq_true]
    refine exists_congr fun tag => and_congr_right fun hmem => ?_
    cases hset : ruleSets tag with
    | none => simp [RuleSets.tagMatches, hset]
    | some set =>
        simp only [RuleSets.tagMatches, hset, Option.any_some]
        rw [set_matches_withHost session host set (h.sets tag hmem set hset)]
  simp only [RuleMatcher.matches, matchesBase_withHost h.matcher, hsets]

-- The rewrite may set the host, to the same one for every form.
theorem HostFree.apply_withHost {ruleSets : RuleSets} {rule : CompiledRule}
    (h : HostFree ruleSets rule) (session : Session) :
    ∃ next : Session, ∀ host, ∃ host',
      (rule.apply ruleSets (withHost session host)).2 = withHost next host' := by
  refine ⟨(rule.apply ruleSets session).2, fun host => ?_⟩
  unfold CompiledRule.apply
  rw [h.matches_withHost]
  split
  · cases rule.action with
    | routeOptions overrideAddress overridePort => exact ⟨overrideAddress.getD host, rfl⟩
    | route outbound => exact ⟨host, rfl⟩
    | reject method => exact ⟨host, rfl⟩
  · exact ⟨host, rfl⟩

-- So only a condition on the host can tell the forms of a destination apart.
theorem answersAlike_of_hostFree (router : Router) (rules : List CompiledRule)
    (h : ∀ rule ∈ rules, HostFree router.ruleSets rule) (session : Session) (left right : String) :
    AnswersAlike router rules (withHost session left) (withHost session right) := by
  induction rules generalizing session left right with
  | nil => trivial
  | cons rule rest ih =>
      obtain ⟨hrule, hrest⟩ := List.forall_mem_cons.mp h
      cases hd : rule.action.decision with
      | none =>
          obtain ⟨next, hnext⟩ := hrule.apply_withHost session
          obtain ⟨left', hl⟩ := hnext left
          obtain ⟨right', hr⟩ := hnext right
          simp only [AnswersAlike, hd, hl, hr]
          exact ih hrest next left' right'
      | some decision =>
          cases hm : rule.matcher.matches session router.ruleSets with
          | false =>
              simp only [AnswersAlike, hd, hrule.matches_withHost, hm]
              exact ih hrest session left right
          | true => simp only [AnswersAlike, hd, hrule.matches_withHost, hm]

private def caller : Session :=
  { network := .tcp, source := none, destination := ⟨"10.0.0.1", 22⟩, inbound := "in" }

-- A rule tree sees a session only through its matchers.
mutual

theorem rule_matches_congr {left right : Session}
    (h : ∀ matcher : RuleMatcher, matcher.matchesBase left = matcher.matchesBase right)
    (rule : HeadlessRule) : rule.matches left = rule.matches right := by
  cases rule with
  | default matcher => simp only [HeadlessRule.matches, RuleMatcher.matchesWithoutSets, h matcher]
  | logical mode rules invert =>
      obtain ⟨hall, hany⟩ := rules_match_congr h rules
      simp only [HeadlessRule.matches, hall, hany]

theorem rules_match_congr {left right : Session}
    (h : ∀ matcher : RuleMatcher, matcher.matchesBase left = matcher.matchesBase right)
    (rules : List HeadlessRule) :
    HeadlessRule.allMatch left rules = HeadlessRule.allMatch right rules ∧
      HeadlessRule.anyMatches left rules = HeadlessRule.anyMatches right rules := by
  cases rules with
  | nil => exact ⟨rfl, rfl⟩
  | cons rule rest =>
      have hrule := rule_matches_congr h rule
      obtain ⟨hall, hany⟩ := rules_match_congr h rest
      simp only [HeadlessRule.allMatch, HeadlessRule.anyMatches, hrule, hall, hany, and_self]

end

-- Each of the source's tests normalizes it first.
theorem matchesBase_normalize (matcher : RuleMatcher) (session : Session) :
    matcher.matchesBase (normalize session) = matcher.matchesBase session := by
  have hsource : (session.source.map normalizeSocketAddr).map normalizeSocketAddr =
      session.source.map normalizeSocketAddr := by
    cases session.source with
    | none => rfl
    | some source => exact congrArg some (normalizeSocketAddr_idem source)
  simp only [RuleMatcher.matchesBase, Session.sourceIp, normalize, hsource]

-- A rule-set asked outside of `select` answers as it does within.
theorem set_matches_normalize (set : CompiledRuleSet) (session : Session) :
    set.matches (normalize session) = set.matches session := by
  have hrule (rule : HeadlessRule) : rule.matches (normalize session) = rule.matches session :=
    rule_matches_congr (fun matcher => matchesBase_normalize matcher session) rule
  simp only [CompiledRuleSet.matches, hrule]

def withSource (session : Session) (ip : IpAddr) (port : UInt16) : Session :=
  { session with source := some { ip, port } }

theorem normalize_mapped (session : Session) (address : BitVec 32) (port : UInt16) :
    normalize (withSource session (.v6 (IpAddr.toIpv6Mapped address)) port) =
      normalize (withSource session (.v4 address) port) := by
  simp [normalize, withSource, normalizeSocketAddr, IpAddr.toIpv4Mapped_toIpv6Mapped]

-- The answer and the session that `select` leaves do not depend on the form in which
-- the transport has reported an IPv4 peer; a rule-set's own answer does not either.
theorem select_source_form (router : Router) (session : Session) (address : BitVec 32)
    (port : UInt16) :
    router.select (withSource session (.v6 (IpAddr.toIpv6Mapped address)) port) =
        router.select (withSource session (.v4 address) port) ∧
      ∀ set : CompiledRuleSet,
        set.matches (withSource session (.v6 (IpAddr.toIpv6Mapped address)) port) =
          set.matches (withSource session (.v4 address) port) := by
  have hnormal := normalize_mapped session address port
  constructor
  · simp only [select, hnormal]
  · intro set
    rw [← set_matches_normalize set, hnormal, set_matches_normalize]

end SingBox.Core.Router
