import SingBox.Core.Rule

namespace SingBox.Core.CompiledRuleSet

open Library

def withSources (matcher : RuleMatcher) (cidrs : List IpCidr) : RuleMatcher :=
  { matcher with sourceCidrs := cidrs }

-- A default rule without conditions is left out, any other is kept.
def kept (matcher : RuleMatcher) : CompiledRuleSet :=
  if matcher.isEmpty then [] else [.default matcher]

theorem kept_matches (matcher : RuleMatcher) (session : Session) :
    (kept matcher).matches session =
      (!matcher.isEmpty && matcher.matchesWithoutSets session) := by
  unfold kept
  cases he : matcher.isEmpty with
  | true => rfl
  | false => simp [CompiledRuleSet.matches, HeadlessRule.matches]

theorem isEmpty_withSources {matcher : RuleMatcher} {cidrs : List IpCidr}
    (hs : cidrs.Sublist matcher.sourceCidrs) (he : matcher.isEmpty = true) :
    (withSources matcher cidrs).isEmpty = true := by
  simp only [RuleMatcher.isEmpty, Bool.and_eq_true, List.isEmpty_iff] at he ⊢
  obtain ⟨⟨⟨⟨⟨⟨⟨hfront, hsources⟩, hprivate⟩, hcidrs⟩, hdprivate⟩, hsports⟩, hports⟩, hsets⟩ := he
  have hnone : cidrs = [] := by simpa [hsources] using hs
  exact ⟨⟨⟨⟨⟨⟨⟨hfront, hnone⟩, hprivate⟩, hcidrs⟩, hdprivate⟩, hsports⟩, hports⟩, hsets⟩

-- What a shorter list of source addresses makes of a matcher: some of the blocks
-- are left out, and some are left if there are addresses left.
theorem fromHeadless_sublist {config : HeadlessRuleConfig} {part : List String}
    {matcher : RuleMatcher} (hp : part.Sublist config.sourceIpCidr)
    (hc : RuleMatcher.fromHeadless config = .ok matcher) :
    ∃ cidrs : List IpCidr, cidrs.Sublist matcher.sourceCidrs ∧ cidrs.length = part.length ∧
      matcher.sourceCidrs.length = config.sourceIpCidr.length ∧
      RuleMatcher.fromHeadless { config with sourceIpCidr := part } =
        .ok (withSources matcher cidrs) := by
  simp only [RuleMatcher.fromHeadless, Result.bind_eq_ok] at hc
  obtain ⟨networks, hn, sources, hs, destinations, hd, sourcePorts, hsp, ports, hdp, he⟩ := hc
  obtain rfl := Except.ok.inj he
  obtain ⟨cidrs, hsub, hpart⟩ := Result.mapM_sublist hp hs
  refine ⟨cidrs, hsub, (Result.mapM_eq_ok.mp hpart).length_eq.symm,
    (Result.mapM_eq_ok.mp hs).length_eq.symm, ?_⟩
  simp only [RuleMatcher.fromHeadless, Result.bind_eq_ok]
  exact ⟨networks, hn, cidrs, hpart, destinations, hd, sourcePorts, hsp, ports, hdp, rfl⟩

theorem fromHeadless_invert {config : HeadlessRuleConfig} {matcher : RuleMatcher}
    (hc : RuleMatcher.fromHeadless config = .ok matcher) : matcher.invert = config.invert := by
  simp only [RuleMatcher.fromHeadless, Result.bind_eq_ok] at hc
  obtain ⟨_, _, _, _, _, _, _, _, _, _, he⟩ := hc
  obtain rfl := Except.ok.inj he
  rfl

-- Fewer blocks match fewer sources, unless there are none left.
theorem matchesBase_sublist {matcher : RuleMatcher} {cidrs : List IpCidr} {session : Session}
    (hs : cidrs.Sublist matcher.sourceCidrs) (hne : cidrs = [] → matcher.sourceCidrs = [])
    (hm : (withSources matcher cidrs).matchesBase session = true) :
    matcher.matchesBase session = true := by
  have hsource (ip : Option IpAddr)
      (h : (cidrs.isEmpty || ip.any fun ip => cidrs.any (·.contains ip)) = true) :
      (matcher.sourceCidrs.isEmpty ||
        ip.any fun ip => matcher.sourceCidrs.any (·.contains ip)) = true := by
    rcases Bool.or_eq_true _ _ ▸ h with he | hany
    · simp [hne (by simpa using he)]
    · obtain ⟨ip, rfl, hip⟩ := (Option.any_eq_true _ ip).mp hany
      obtain ⟨cidr, hmem, hin⟩ := List.any_eq_true.mp hip
      have hmatch : matcher.sourceCidrs.any (·.contains ip) = true :=
        List.any_eq_true.mpr ⟨cidr, hs.subset hmem, hin⟩
      simp [hmatch]
  simp only [RuleMatcher.matchesBase, Bool.and_eq_true] at hm ⊢
  obtain ⟨⟨⟨⟨⟨⟨hfront, hcidr⟩, hprivate⟩, hdestination⟩, hdprivate⟩, hport⟩, hdport⟩ := hm
  exact ⟨⟨⟨⟨⟨⟨hfront, hsource _ hcidr⟩, hprivate⟩, hdestination⟩, hdprivate⟩, hport⟩, hdport⟩

theorem compileRules_append (tag : String) (index : Nat) (front back : List HeadlessRuleConfig)
    (compiled : CompiledRuleSet) :
    compileRules tag index (front ++ back) = .ok compiled ↔
      ∃ first last : CompiledRuleSet, compiled = first ++ last ∧
        compileRules tag index front = .ok first ∧
        compileRules tag (index + front.length) back = .ok last := by
  simp only [compileRules, List.zipIdx_append, List.filterMap_append, List.mapM_append]
  constructor
  · intro h
    obtain ⟨first, hf, h⟩ := Result.bind_eq_ok.mp h
    obtain ⟨last, hl, h⟩ := Result.bind_eq_ok.mp h
    exact ⟨first, last, (Except.ok.inj h).symm, hf, hl⟩
  · rintro ⟨first, last, rfl, hf, hl⟩
    exact Result.bind_eq_ok.mpr ⟨first, hf, Result.bind_eq_ok.mpr ⟨last, hl, rfl⟩⟩

theorem compile_default {rule : HeadlessRuleConfig} {matcher : RuleMatcher}
    (hk : rule.kind = "" ∨ rule.kind = "default")
    (hm : RuleMatcher.fromHeadless rule = .ok matcher) (he : matcher.isEmpty = false) :
    HeadlessRule.compile rule = .ok (.default matcher) := by
  cases rule
  rw [HeadlessRule.compile, if_pos hk, hm]
  simp [Bind.bind, Except.bind, he, Result.ensure, pure, Except.pure]

theorem compileRules_default (tag : String) (index : Nat) (rule : HeadlessRuleConfig)
    (hk : rule.kind = "" ∨ rule.kind = "default") (compiled : CompiledRuleSet) :
    compileRules tag index [rule] = .ok compiled ↔
      ∃ matcher, RuleMatcher.fromHeadless rule = .ok matcher ∧
        compiled = kept matcher := by
  cases hm : RuleMatcher.fromHeadless rule with
  | error chain =>
      have hrun : compileRules tag index [rule] =
          .error (s!"compile rule-set {tag} rule {index}" :: chain) := by
        simp only [compileRules, List.zipIdx_singleton, List.filterMap_cons, compileRule,
          if_pos hk, hm]
        rfl
      simp [hrun]
  | ok matcher =>
      have hrun : compileRules tag index [rule] =
          .ok (kept matcher) := by
        simp only [compileRules, List.zipIdx_singleton, List.filterMap_cons, compileRule,
          if_pos hk, hm, kept]
        cases he : matcher.isEmpty with
        | true => rfl
        | false =>
            rw [compile_default hk hm he]
            rfl
      rw [hrun]
      constructor
      · intro h
        exact ⟨matcher, rfl, (Except.ok.inj h).symm⟩
      · rintro ⟨other, ho, rfl⟩
        rw [Except.ok.inj ho]

-- `source_ip_cidr` is the only condition the rule can have.
structure OnlySourceIpCidr (rule : HeadlessRuleConfig) : Prop where
  network : rule.network = []
  domain : rule.domain = []
  domainSuffix : rule.domainSuffix = []
  domainKeyword : rule.domainKeyword = []
  ipCidr : rule.ipCidr = []
  sourcePort : rule.sourcePort = []
  sourcePortRange : rule.sourcePortRange = []
  port : rule.port = []
  portRange : rule.portRange = []

theorem OnlySourceIpCidr.isEmpty {rule : HeadlessRuleConfig} {matcher : RuleMatcher}
    (h : OnlySourceIpCidr rule) (hm : RuleMatcher.fromHeadless rule = .ok matcher) :
    (withSources matcher []).isEmpty = true := by
  simp only [RuleMatcher.fromHeadless, compileNetworks, compileCidrs, PortMatcher.compile,
    normalizeDomains, h.network, h.domain, h.domainSuffix, h.domainKeyword, h.ipCidr,
    h.sourcePort, h.sourcePortRange, h.port, h.portRange, List.mapM_nil, Result.bind_eq_ok] at hm
  obtain ⟨_, ⟨⟩, cidrs, hc, _, ⟨⟩, _, ⟨_, ⟨⟩, ⟨⟩⟩, _, ⟨_, ⟨⟩, ⟨⟩⟩, he⟩ := hm
  obtain rfl := Except.ok.inj he
  rfl

-- With `part` in place of the rule's list the rule-set compiles too, and matches no
-- session that it did not match before.
def AdmitsNoMore (tag : String) (before : List HeadlessRuleConfig) (rule : HeadlessRuleConfig)
    (after : List HeadlessRuleConfig) (part : List String) : Prop :=
  ∀ compiled, compileRules tag 0 (before ++ [rule] ++ after) = .ok compiled →
    ∃ shrunk, compileRules tag 0 (before ++ [{ rule with sourceIpCidr := part }] ++ after) =
        .ok shrunk ∧
      ∀ session, CompiledRuleSet.matches shrunk session = true →
        CompiledRuleSet.matches compiled session = true

theorem kept_sublist {matcher : RuleMatcher} {cidrs : List IpCidr} {session : Session}
    (hs : cidrs.Sublist matcher.sourceCidrs) (hinvert : matcher.invert = false)
    (hne : (withSources matcher cidrs).isEmpty = false → cidrs = [] → matcher.sourceCidrs = [])
    (hm : (kept (withSources matcher cidrs)).matches session = true) :
    (kept matcher).matches session = true := by
  have hinvert' : (withSources matcher cidrs).invert = false := hinvert
  simp only [kept_matches, Bool.and_eq_true, Bool.not_eq_true', RuleMatcher.matchesWithoutSets,
    hinvert, hinvert', Bool.bne_false] at hm ⊢
  obtain ⟨hkept, hbase⟩ := hm
  refine ⟨?_, matchesBase_sublist hs (hne hkept) hbase⟩
  by_contra he
  have hempty := isEmpty_withSources hs (by simpa using he)
  rw [hkept] at hempty
  cases hempty

theorem shrinking_admits_no_more (tag : String) (before : List HeadlessRuleConfig)
    (rule : HeadlessRuleConfig) (after : List HeadlessRuleConfig) (part : List String)
    (hk : rule.kind = "" ∨ rule.kind = "default") (hinvert : rule.invert = false)
    (hp : part.Sublist rule.sourceIpCidr)
    (hempty : part = [] → rule.sourceIpCidr = [] ∨ OnlySourceIpCidr rule) :
    AdmitsNoMore tag before rule after part := by
  intro compiled hc
  obtain ⟨front, last, rfl, hfront, hlast⟩ := (compileRules_append _ _ _ _ _).mp hc
  obtain ⟨first, mid, rfl, hfirst, hmid⟩ := (compileRules_append _ _ _ _ _).mp hfront
  obtain ⟨matcher, hm, rfl⟩ := (compileRules_default _ _ rule hk _).mp hmid
  obtain ⟨cidrs, hsub, hpart, hall, hshrunk⟩ := fromHeadless_sublist hp hm
  refine ⟨first ++ kept (withSources matcher cidrs) ++ last, ?_, ?_⟩
  · have hrule : compileRules tag (0 + before.length) [{ rule with sourceIpCidr := part }] =
        .ok (kept (withSources matcher cidrs)) :=
      (compileRules_default tag _ { rule with sourceIpCidr := part } hk _).mpr ⟨_, hshrunk, rfl⟩
    refine (compileRules_append _ _ _ _ _).mpr ⟨_, last, rfl, ?_, by simpa using hlast⟩
    exact (compileRules_append _ _ _ _ _).mpr ⟨first, _, rfl, hfirst, hrule⟩
  · intro session hmatch
    have hne : (withSources matcher cidrs).isEmpty = false →
        cidrs = [] → matcher.sourceCidrs = [] := by
      intro hkept hcidrs
      have hnil : part = [] := List.length_eq_zero_iff.mp (by rw [← hpart, hcidrs]; rfl)
      cases hempty hnil with
      | inl hnone => exact List.length_eq_zero_iff.mp (by rw [hall, hnone]; rfl)
      | inr honly =>
          subst hcidrs
          rw [honly.isEmpty hm] at hkept
          cases hkept
    have hself : (kept (withSources matcher cidrs)).matches session = true →
        (kept matcher).matches session = true :=
      kept_sublist hsub ((fromHeadless_invert hm).trans hinvert) hne
    simp only [CompiledRuleSet.matches, List.any_append, Bool.or_eq_true] at hmatch hself ⊢
    exact hmatch.imp_left (Or.imp_right hself)

private def clients : HeadlessRuleConfig :=
  { network := ["tcp"], sourceIpCidr := ["192.0.2.0/24", "2001:db8::/32"] }

private def stranger : Session :=
  { network := .tcp, source := some ⟨.v4 0xcb007107#32, 4000⟩, destination := ⟨"example.com", 80⟩
    inbound := "in" }

-- The first block alone.
theorem shrinking_admits_no_more_first :
    AdmitsNoMore "whitelist" [] clients [] ["192.0.2.0/24"] :=
  shrinking_admits_no_more "whitelist" [] clients [] ["192.0.2.0/24"] (by decide) rfl
    (by decide) (fun h => by cases h)

-- Without any source address the rule is left with its network, and lets in
-- whoever uses that.
theorem empty_sources_admit_more : ¬ AdmitsNoMore "whitelist" [] clients [] [] := by
  intro h
  obtain ⟨shrunk, hs, hmatch⟩ := h
    [.default { networks := [.tcp], sourceCidrs := [⟨.v4 0xc0000200#32, 24, by decide⟩,
      ⟨.v6 0x20010db8000000000000000000000000#128, 32, by decide⟩] }] rfl
  obtain rfl : [HeadlessRule.default { networks := [.tcp] }] = shrunk :=
    Except.ok.inj (Eq.trans rfl hs)
  exact absurd (hmatch stranger rfl) (by decide)

end SingBox.Core.CompiledRuleSet
