import SingBox.Core.LocalRuleSet
import SingBox.Core.Manager.Order
import SingBox.Core.RemoteRuleSet
import SingBox.Core.Router.Snapshots

namespace SingBox.Core

open Library

structure RuleSetConfig where
  kind : String := ""
  tag : String
  format : String := ""
  path : String := ""
  url : String := ""
  updateInterval : String := ""
  downloadDetour : String := ""
  httpClient : Option String := none
  rules : List HeadlessRuleConfig := []

def RuleSetConfig.remote (this : RuleSetConfig) : RemoteRuleSetConfig where
  tag := this.tag
  url := this.url
  format := this.format
  downloadDetour := this.downloadDetour
  httpClient := this.httpClient
  updateInterval := this.updateInterval

structure RouteConfig where
  defaultDomainResolver : Option String := none
  ruleSet : List RuleSetConfig := []
  rules : List RouteRuleConfig := []
  finalOutbound : String := ""

structure LocalService where
  tag : String
  path : String
  format : RuleSetFormat
  state : CompiledRuleSet
  fingerprint : FileFingerprint

inductive RuleSetService where
  | «local» (service : LocalService)
  | remote (service : RemoteService)

-- What `prepare_rule_set` finds outside: the file and the fetcher's answer, by the tag of the
-- rule-set that is being prepared.
structure Outside where
  read : String → Result Bytes
  metadata : String → Result FileFingerprint
  fetch : Option (String → Result RuleSetFetchResult)

section

variable (parseExtendedJson : String → Result RuleSetSource)
  (iter : List String → List String) (zlib : Bytes → Bytes × Option String)
  (parseDuration : String → Result Nat) (outside : Outside)

def prepareLocal (config : RuleSetConfig) : Result LocalService := do
  Result.ensure (config.path != "") "local rule-set path is empty"
  let format ← RuleSetFormat.resolve config.format config.path
  let content ← Result.withContext s!"read rule-set {config.path}" (outside.read config.tag)
  let state ← Result.withContext s!"load rule-set {config.path}"
    (decodeAndCompileRuleSet parseExtendedJson iter zlib config.tag format content)
  let fingerprint ← Result.withContext s!"read rule-set metadata {config.path}"
    (outside.metadata config.tag)
  return { tag := config.tag, path := config.path, format, state, fingerprint }

-- The router and the service have the rules in common.
def prepareRuleSet (config : RuleSetConfig) : Result (CompiledRuleSet × Option RuleSetService) :=
  if config.kind = "" ∨ config.kind = "inline" then do
    Result.ensure (config.format == "") "inline rule-set cannot specify format"
    let rules ← CompiledRuleSet.compileRules config.tag 0 config.rules
    return (rules, none)
  else if config.kind = "local" then do
    let service ← prepareLocal parseExtendedJson iter zlib outside config
    return (service.state, some (.local service))
  else if config.kind = "remote" then do
    let service ← prepareRemote parseExtendedJson iter zlib parseDuration config.remote
      (outside.fetch.map fun fetch => fetch config.tag)
    return (service.state, some (.remote service))
  else Result.bail s!"unsupported rule-set type: {config.kind}"

-- The loop over `config.rule_set`: the rule-sets and the services so far.
structure Prepared where
  ruleSets : RuleSets
  services : List RuleSetService

def Prepared.new : Prepared where
  ruleSets _ := none
  services := []

def Prepared.put (this : Prepared) (tag : String)
    (prepared : CompiledRuleSet × Option RuleSetService) : Prepared where
  ruleSets := Function.update this.ruleSets tag (some prepared.1)
  services := this.services ++ prepared.2.toList

def Prepared.insert (this : Prepared) (config : RuleSetConfig) : Result Prepared := do
  Result.ensure (config.tag != "") "rule-set tag cannot be empty"
  Result.ensure (this.ruleSets config.tag).isNone s!"duplicate rule-set tag: {config.tag}"
  let prepared ← prepareRuleSet parseExtendedJson iter zlib parseDuration outside config
  return this.put config.tag prepared

variable {ω : Type} [OutboundComponent ω]

-- The body of the loop over `config.rules`.
def Router.compileRule (outbounds : OutboundManager ω) (ruleSets : RuleSets)
    (rule : RouteRuleConfig × Nat) : Result CompiledRule := do
  let compiled ← Result.withContext s!"compile route rule {rule.2}" (CompiledRule.compile rule.1)
  compiled.matcher.ruleSets.forM fun tag =>
    Result.ensure (ruleSets tag).isSome s!"rule-set not found: {tag}"
  match compiled.action with
  | .route outbound =>
      Result.ensure (outbounds.entries outbound).isSome s!"route outbound not found: {outbound}"
  | _ => pure ()
  return compiled

def Router.buildWithFetcher (outbounds : OutboundManager ω) (config : RouteConfig)
    (defaultOutbound : String) : Result (Router × List RuleSetService) := do
  let finalOutbound := if config.finalOutbound = "" then defaultOutbound else config.finalOutbound
  Result.ensure (finalOutbound != "") "route final outbound is empty"
  Result.ensure (outbounds.entries finalOutbound).isSome
    s!"final outbound not found: {finalOutbound}"
  let prepared ← config.ruleSet.foldlM
    (Prepared.insert parseExtendedJson iter zlib parseDuration outside)
    Prepared.new
  let rules ← config.rules.zipIdx.mapM (Router.compileRule outbounds prepared.ruleSets)
  return ({ finalOutbound, rules, ruleSets := prepared.ruleSets }, prepared.services)

end

section

variable {parseExtendedJson : String → Result RuleSetSource}
  {iter : List String → List String} {zlib : Bytes → Bytes × Option String}
  {parseDuration : String → Result Nat} {outside : Outside}

namespace Prepared

-- The rule-sets that have been prepared one after another.
def putAll (this : Prepared)
    (sets : List (RuleSetConfig × CompiledRuleSet × Option RuleSetService)) : Prepared :=
  sets.foldl (fun state set => state.put set.1.tag set.2) this

@[simp] theorem put_ruleSets (this : Prepared) (tag : String)
    (prepared : CompiledRuleSet × Option RuleSetService) :
    (this.put tag prepared).ruleSets = Function.update this.ruleSets tag (some prepared.1) := rfl

theorem insert_eq_ok {this next : Prepared} {config : RuleSetConfig} :
    this.insert parseExtendedJson iter zlib parseDuration outside config = .ok next ↔
      (config.tag ≠ "" ∧ this.ruleSets config.tag = none) ∧
      ∃ prepared,
        prepareRuleSet parseExtendedJson iter zlib parseDuration outside config = .ok prepared ∧
          next = this.put config.tag prepared := by
  unfold insert
  rw [Result.ensure_bind_eq_ok, Result.ensure_bind_eq_ok, Result.bind_eq_ok, bne_iff_ne,
    Option.isNone_iff_eq_none, ← and_assoc]
  simp only [pure, Except.pure, Except.ok.injEq, eq_comm]

-- The loop succeeds on rule-sets that can be prepared and have tags of their own.
theorem insertAll_eq_ok {sets : List RuleSetConfig} {this final : Prepared} :
    sets.foldlM (insert parseExtendedJson iter zlib parseDuration outside) this = .ok final ↔
      (∀ set ∈ sets, set.tag ≠ "" ∧ this.ruleSets set.tag = none) ∧
      (sets.map RuleSetConfig.tag).Nodup ∧
      ∃ prepared,
        sets.mapM (prepareRuleSet parseExtendedJson iter zlib parseDuration outside) =
            .ok prepared ∧
          final = this.putAll (sets.zip prepared) := by
  induction sets generalizing this with
  | nil =>
      have heq : this = final ↔ final = this := eq_comm
      simpa [putAll, pure, Except.pure] using heq
  | cons set sets ih =>
      rw [List.foldlM_cons, Result.bind_eq_ok]
      simp only [insert_eq_ok, ih, Result.mapM_eq_ok, List.map_cons, List.nodup_cons,
        List.forall_mem_cons]
      constructor
      · rintro ⟨_, ⟨hset, first, hfirst, rfl⟩, hsets, hnodup, rest, hrest, rfl⟩
        have hfresh : ∀ other ∈ sets, other.tag ≠ set.tag := fun other hother heq => by
          have hnone := (hsets other hother).2
          simp [heq] at hnone
        refine ⟨⟨hset, fun other hother => ⟨(hsets other hother).1, ?_⟩⟩, ⟨?_, hnodup⟩,
          first :: rest, .cons hfirst hrest, rfl⟩
        · have hnone := (hsets other hother).2
          rwa [put_ruleSets, Function.update_of_ne (hfresh other hother)] at hnone
        · rintro hmem
          obtain ⟨other, hother, heq⟩ := List.mem_map.mp hmem
          exact hfresh other hother heq
      · rintro ⟨⟨hset, hsets⟩, ⟨hfresh, hnodup⟩, _, _ | ⟨hfirst, hrest⟩, rfl⟩
        refine ⟨_, ⟨hset, _, hfirst, rfl⟩, fun other hother => ⟨(hsets other hother).1, ?_⟩, hnodup,
          _, hrest, rfl⟩
        have hne : other.tag ≠ set.tag := fun heq =>
          hfresh (heq ▸ List.mem_map_of_mem hother)
        rw [put_ruleSets, Function.update_of_ne hne]
        exact (hsets other hother).2

-- A tag that is not prepared stays what it was.
theorem putAll_other {sets : List (RuleSetConfig × CompiledRuleSet × Option RuleSetService)}
    {this : Prepared} {tag : String} (h : ∀ set ∈ sets, set.1.tag ≠ tag) :
    (this.putAll sets).ruleSets tag = this.ruleSets tag := by
  induction sets generalizing this with
  | nil => rfl
  | cons set sets ih =>
      obtain ⟨hset, hsets⟩ := List.forall_mem_cons.mp h
      rw [putAll, List.foldl_cons]
      exact (ih hsets).trans (Function.update_of_ne (Ne.symm hset) _ _)

theorem putAll_mem {sets : List (RuleSetConfig × CompiledRuleSet × Option RuleSetService)}
    {this : Prepared} (hnodup : (sets.map fun set => set.1.tag).Nodup)
    {set : RuleSetConfig × CompiledRuleSet × Option RuleSetService} (h : set ∈ sets) :
    (this.putAll sets).ruleSets set.1.tag = some set.2.1 := by
  induction sets generalizing this with
  | nil => cases h
  | cons first sets ih =>
      rw [List.map_cons, List.nodup_cons] at hnodup
      rw [putAll, List.foldl_cons]
      obtain rfl | hrest := List.mem_cons.mp h
      · refine (putAll_other fun other hother heq => ?_).trans (Function.update_self ..)
        exact hnodup.1 (List.mem_map.mpr ⟨other, hother, heq⟩)
      · exact ih hnodup.2 hrest

theorem putAll_isSome {sets : List (RuleSetConfig × CompiledRuleSet × Option RuleSetService)}
    (hnodup : (sets.map fun set => set.1.tag).Nodup) (tag : String) :
    ((Prepared.new.putAll sets).ruleSets tag).isSome ↔ tag ∈ sets.map fun set => set.1.tag := by
  constructor
  · intro hsome
    by_contra hnot
    rw [putAll_other fun set hset heq => hnot (List.mem_map.mpr ⟨set, hset, heq⟩)] at hsome
    cases hsome
  · intro hmem
    obtain ⟨set, hset, rfl⟩ := List.mem_map.mp hmem
    exact Option.isSome_of_eq_some (putAll_mem hnodup hset)

theorem putAll_services (this : Prepared)
    (sets : List (RuleSetConfig × CompiledRuleSet × Option RuleSetService)) :
    (this.putAll sets).services = this.services ++ sets.filterMap fun set => set.2.2 := by
  induction sets generalizing this with
  | nil => exact (List.append_nil _).symm
  | cons set sets ih =>
      rw [putAll, List.foldl_cons]
      refine (ih _).trans ?_
      obtain ⟨config, compiled, _ | service⟩ := set <;> simp [put]

end Prepared

namespace Router

variable {ω : Type} [OutboundComponent ω]

theorem compileRule_eq_ok {outbounds : OutboundManager ω} {ruleSets : RuleSets}
    {rule : RouteRuleConfig × Nat} {compiled : CompiledRule} :
    compileRule outbounds ruleSets rule = .ok compiled ↔
      CompiledRule.compile rule.1 = .ok compiled ∧
      (∀ tag ∈ compiled.matcher.ruleSets, (ruleSets tag).isSome) ∧
      ∀ outbound, compiled.action = .route outbound → (outbounds.entries outbound).isSome := by
  unfold compileRule
  rw [Result.bind_eq_ok]
  simp only [Result.withContext_eq_ok]
  constructor
  · rintro ⟨found, hfound, h⟩
    obtain ⟨⟨⟩, hsets, h⟩ := Result.bind_eq_ok.mp h
    have hsets := fun tag htag => Result.ensure_eq_ok.mp (Result.forM_eq_ok.mp hsets tag htag)
    split at h
    · rename_i outbound haction
      rw [Result.ensure_bind_eq_ok] at h
      obtain ⟨hsome, h⟩ := h
      obtain rfl := Except.ok.inj h
      refine ⟨hfound, hsets, fun other hother => ?_⟩
      obtain rfl := RuleAction.route.inj (haction.symm.trans hother)
      exact hsome
    · rename_i haction
      obtain rfl := Except.ok.inj h
      exact ⟨hfound, hsets, fun other hother => absurd hother (haction other)⟩
  · rintro ⟨hcompiled, hsets, hroute⟩
    refine ⟨compiled, hcompiled, Result.bind_eq_ok.mpr ⟨(), ?_, ?_⟩⟩
    · exact Result.forM_eq_ok.mpr fun tag htag => Result.ensure_eq_ok.mpr (hsets tag htag)
    · split
      · rename_i outbound haction
        exact Result.ensure_bind_eq_ok.mpr ⟨hroute outbound haction, rfl⟩
      · rfl

theorem buildWithFetcher_eq_ok {outbounds : OutboundManager ω} {config : RouteConfig}
    {defaultOutbound : String} {router : Router} {services : List RuleSetService} :
    buildWithFetcher parseExtendedJson iter zlib parseDuration outside outbounds config
        defaultOutbound = .ok (router, services) ↔
      (router.finalOutbound =
          (if config.finalOutbound = "" then defaultOutbound else config.finalOutbound) ∧
        router.finalOutbound ≠ "" ∧ (outbounds.entries router.finalOutbound).isSome) ∧
      (∀ set ∈ config.ruleSet, set.tag ≠ "") ∧ (config.ruleSet.map RuleSetConfig.tag).Nodup ∧
      ∃ prepared,
        config.ruleSet.mapM (prepareRuleSet parseExtendedJson iter zlib parseDuration outside) =
            .ok prepared ∧
          router.ruleSets = (Prepared.new.putAll (config.ruleSet.zip prepared)).ruleSets ∧
          services = (Prepared.new.putAll (config.ruleSet.zip prepared)).services ∧
          config.rules.zipIdx.mapM (compileRule outbounds router.ruleSets) = .ok router.rules := by
  have hnew : ∀ set : RuleSetConfig, Prepared.new.ruleSets set.tag = none := fun _ => rfl
  unfold buildWithFetcher
  rw [Result.ensure_bind_eq_ok, Result.ensure_bind_eq_ok, Result.bind_eq_ok]
  simp only [Prepared.insertAll_eq_ok, bne_iff_ne, hnew, and_true]
  constructor
  · rintro ⟨hne, hfinal, state, ⟨htags, hnodup, prepared, hprepared, rfl⟩, h⟩
    obtain ⟨rules, hrules, h⟩ := Result.bind_eq_ok.mp h
    obtain ⟨rfl, rfl⟩ := Prod.mk.inj (Except.ok.inj h)
    exact ⟨⟨rfl, hne, hfinal⟩, htags, hnodup, prepared, hprepared, rfl, rfl, hrules⟩
  · obtain ⟨finalOutbound, rules, ruleSets⟩ := router
    rintro ⟨⟨rfl, hne, hfinal⟩, htags, hnodup, prepared, hprepared, rfl, rfl, hrules⟩
    refine ⟨hne, hfinal, _, ⟨htags, hnodup, prepared, hprepared, rfl⟩, ?_⟩
    exact Result.bind_eq_ok.mpr ⟨rules, hrules, rfl⟩

-- What the configuration of a router has to be, given the tags of the outbounds.
structure Accepted (parseExtendedJson : String → Result RuleSetSource)
    (iter : List String → List String) (zlib : Bytes → Bytes × Option String)
    (parseDuration : String → Result Nat) (outside : Outside) (tags : List String)
    (config : RouteConfig) (defaultOutbound : String) : Prop where
  final : (if config.finalOutbound = "" then defaultOutbound else config.finalOutbound) ∈ tags
  named : ∀ set ∈ config.ruleSet, set.tag ≠ ""
  nodup : (config.ruleSet.map RuleSetConfig.tag).Nodup
  prepared : ∀ set ∈ config.ruleSet, ∃ prepared,
    prepareRuleSet parseExtendedJson iter zlib parseDuration outside set = .ok prepared
  rules : ∀ rule ∈ config.rules, ∃ compiled, CompiledRule.compile rule = .ok compiled ∧
    (∀ tag ∈ compiled.matcher.ruleSets, tag ∈ config.ruleSet.map RuleSetConfig.tag) ∧
    ∀ outbound, compiled.action = .route outbound → outbound ∈ tags

theorem prepareLocal_spec {config : RuleSetConfig} {service : LocalService}
    (h : prepareLocal parseExtendedJson iter zlib outside config = .ok service) :
    service.tag = config.tag ∧ service.path = config.path ∧
      RuleSetFormat.resolve config.format config.path = .ok service.format ∧
      ∃ content, outside.read config.tag = .ok content ∧
        decodeAndCompileRuleSet parseExtendedJson iter zlib service.tag service.format content =
          .ok service.state := by
  simp only [prepareLocal, Result.bind_eq_ok, Result.withContext_eq_ok] at h
  obtain ⟨⟨⟩, -, format, hformat, content, hcontent, state, hstate, fingerprint, -, hservice⟩ := h
  obtain rfl := Except.ok.inj hservice
  exact ⟨rfl, rfl, hformat, content, hcontent, hstate⟩

theorem prepareRemote_spec {config : RemoteRuleSetConfig}
    {fetched : Option (Result RuleSetFetchResult)} {service : RemoteService}
    (h : prepareRemote parseExtendedJson iter zlib parseDuration config fetched = .ok service) :
    service.tag = config.tag ∧ ∃ response, fetched = some response := by
  simp only [prepareRemote, Result.bind_eq_ok, Result.ofOption_eq_ok] at h
  obtain ⟨⟨⟩, -, ⟨⟩, -, ⟨⟩, -, format, -, interval, -, ⟨⟩, -, response, rfl, result, -, h⟩ := h
  cases result with
  | notModified => cases h
  | modified content etag =>
      obtain ⟨rules, -, hservice⟩ := Result.bind_eq_ok.mp h
      obtain rfl := Except.ok.inj hservice
      exact ⟨rfl, response, rfl⟩

-- A rule-set is prepared by the branch of its type.
theorem prepareRuleSet_cases {config : RuleSetConfig}
    {prepared : CompiledRuleSet × Option RuleSetService}
    (h : prepareRuleSet parseExtendedJson iter zlib parseDuration outside config = .ok prepared) :
    ((config.kind = "" ∨ config.kind = "inline") ∧
        CompiledRuleSet.compileRules config.tag 0 config.rules = .ok prepared.1 ∧
        prepared.2 = none) ∨
      (∃ service, prepareLocal parseExtendedJson iter zlib outside config = .ok service ∧
        config.kind = "local" ∧ prepared = (service.state, some (.local service))) ∨
      ∃ service, prepareRemote parseExtendedJson iter zlib parseDuration config.remote
          (outside.fetch.map fun fetch => fetch config.tag) = .ok service ∧
        config.kind = "remote" ∧ prepared = (service.state, some (.remote service)) := by
  unfold prepareRuleSet at h
  split at h
  · rename_i hkind
    rw [Result.ensure_bind_eq_ok, Result.bind_eq_ok] at h
    obtain ⟨-, rules, hrules, h⟩ := h
    obtain rfl := Except.ok.inj h
    exact .inl ⟨hkind, hrules, rfl⟩
  split at h
  · rename_i hkind
    obtain ⟨service, hservice, h⟩ := Result.bind_eq_ok.mp h
    exact .inr (.inl ⟨service, hservice, hkind, (Except.ok.inj h).symm⟩)
  split at h
  · rename_i hkind
    obtain ⟨service, hservice, h⟩ := Result.bind_eq_ok.mp h
    exact .inr (.inr ⟨service, hservice, hkind, (Except.ok.inj h).symm⟩)
  · cases h

-- The rule-sets of a router that has been built, each with what it was prepared to.
theorem prepared_of_build {outbounds : OutboundManager ω} {config : RouteConfig}
    {defaultOutbound : String} {router : Router} {services : List RuleSetService}
    (h : buildWithFetcher parseExtendedJson iter zlib parseDuration outside outbounds config
      defaultOutbound = .ok (router, services)) :
    ∃ sets : List (RuleSetConfig × CompiledRuleSet × Option RuleSetService),
      sets.map Prod.fst = config.ruleSet ∧
      (∀ set ∈ sets,
        prepareRuleSet parseExtendedJson iter zlib parseDuration outside set.1 = .ok set.2) ∧
      (sets.map fun set => set.1.tag).Nodup ∧
      router.ruleSets = (Prepared.new.putAll sets).ruleSets ∧
      services = sets.filterMap fun set => set.2.2 := by
  obtain ⟨-, -, hnodup, prepared, hprepared, hsets, hservices, -⟩ := buildWithFetcher_eq_ok.mp h
  have hforall := Result.mapM_eq_ok.mp hprepared
  have hfst : (config.ruleSet.zip prepared).map Prod.fst = config.ruleSet :=
    List.map_fst_zip (Nat.le_of_eq hforall.length_eq)
  refine ⟨config.ruleSet.zip prepared, hfst, fun set hset => ?_, ?_, hsets, ?_⟩
  · exact (List.forall₂_iff_zip.mp hforall).2 hset
  · rw [← hfst, List.map_map] at hnodup
    exact hnodup
  · rw [hservices, Prepared.putAll_services]
    rfl

end Router

end

namespace Router

variable {ω δ : Type} [OutboundComponent ω]

-- `connect` and `connect_packet` from where the outbound is selected. `dial` is the
-- outbound's own.
def connectSelected (outbounds : OutboundManager ω) (dial : ω → Session → Result δ)
    (selected : Result String × Session) : Result δ × Session :=
  match selected with
  | (.error chain, session) => (.error chain, session)
  | (.ok tag, session) =>
      match outbounds.entries tag with
      | none => (Result.bail s!"route outbound not found: {tag}", session)
      | some outbound =>
          let session := { session with outbound := some tag }
          (dial outbound session, session)

def connect (this : Router) (outbounds : OutboundManager ω) (dial : ω → Session → Result δ)
    (session : Session) : Result δ × Session :=
  match session.outbound with
  | some tag => connectSelected outbounds dial (.ok tag, session)
  | none => connectSelected outbounds dial (this.select session)

-- The connection is rejected by a rule, or it is what an outbound makes of it that is there.
def Lands (outbounds : OutboundManager ω) (dial : ω → Session → Result δ)
    (connected : Result δ × Session) : Prop :=
  (∃ method ∈ ["default", "drop", "reply"],
    connected.1 = Result.bail s!"connection rejected by route rule using {method}") ∨
  ∃ tag outbound, outbounds.entries tag = some outbound ∧ connected.2.outbound = some tag ∧
    connected.1 = dial outbound connected.2

theorem lands_of_entry {outbounds : OutboundManager ω} {tag : String} {outbound : ω}
    (h : outbounds.entries tag = some outbound) (dial : ω → Session → Result δ)
    (session : Session) :
    Lands outbounds dial (connectSelected outbounds dial (.ok tag, session)) := by
  refine .inr ⟨tag, outbound, h, ?_⟩
  simp [connectSelected, h]

-- What `select` may decide.
def Decides (finalOutbound : String) (rules : List CompiledRule) (decision : Result String) : Prop :=
  decision = .ok finalOutbound ∨ ∃ rule ∈ rules, rule.action.decision = some decision

theorem select_decides (this : Router) (session : Session) :
    Decides this.finalOutbound this.rules (this.select session).1 := by
  suffices h : ∀ (rules : List CompiledRule) (session : Session) (decision : Result String),
      (walk this.ruleSets rules session).1 = some decision →
        ∃ rule ∈ rules, rule.action.decision = some decision by
    rw [select]
    cases hwalk : (walk this.ruleSets this.rules (normalize session)).1 with
    | none => exact .inl rfl
    | some decision => exact .inr (h _ _ decision hwalk)
  intro rules
  induction rules with
  | nil =>
      intro session decision h
      cases h
  | cons rule rules ih =>
      intro session decision h
      rcases hr : rule.apply this.ruleSets session with ⟨_ | decided, next⟩
      · rw [walk, FirstDecision.run_cons_of_pass hr] at h
        obtain ⟨other, hother, hdecision⟩ := ih next decision h
        exact ⟨other, List.mem_cons_of_mem _ hother, hdecision⟩
      · rw [walk, FirstDecision.run_cons_of_decision hr] at h
        obtain rfl := Option.some.inj h
        refine ⟨rule, List.mem_cons_self, ?_⟩
        simp only [CompiledRule.apply] at hr
        split at hr
        · exact (Prod.mk.inj hr).1
        · cases (Prod.mk.inj hr).1

-- A call of `select` that stands at rules of the router, or has decided.
def Within (finalOutbound : String) (rules : List CompiledRule) : SelectTask → Prop
  | .scanning rest _ => ∀ rule ∈ rest, rule ∈ rules
  | .reading rule rest _ _ _ => rule ∈ rules ∧ ∀ rule ∈ rest, rule ∈ rules
  | .done decision _ => Decides finalOutbound rules decision

theorem settle_within {finalOutbound : String} {rules : List CompiledRule} {rule : CompiledRule}
    {rest : List CompiledRule} (hrule : rule ∈ rules) (hrest : ∀ rule ∈ rest, rule ∈ rules)
    (session : Session) (matched : Bool) :
    Within finalOutbound rules (Selecting.settle rule rest session matched) := by
  unfold Selecting.settle
  split
  · split
    · rename_i decision hdecision
      exact .inr ⟨rule, hrule, hdecision⟩
    · exact hrest
  · exact hrest

theorem advance_within {finalOutbound : String} {rules : List CompiledRule} {ruleSets : RuleSets}
    {task next : SelectTask} (h : Within finalOutbound rules task)
    (ha : Selecting.advance finalOutbound ruleSets task = some next) :
    Within finalOutbound rules next := by
  cases task with
  | done decision session => cases ha
  | scanning rest session =>
      cases rest with
      | nil =>
          obtain rfl := Option.some.inj ha
          exact .inl rfl
      | cons rule rest =>
          obtain ⟨hrule, hrest⟩ := List.forall_mem_cons.mp h
          simp only [Selecting.advance] at ha
          split at ha
          · exact Option.some.inj ha ▸ settle_within hrule hrest session _
          · exact Option.some.inj ha ▸ ⟨hrule, hrest⟩
  | reading rule rest session base tags =>
      obtain ⟨hrule, hrest⟩ := h
      cases tags with
      | nil => exact Option.some.inj ha ▸ settle_within hrule hrest session _
      | cons tag tags =>
          simp only [Selecting.advance] at ha
          split at ha
          · exact Option.some.inj ha ▸ settle_within hrule hrest session _
          · exact Option.some.inj ha ▸ ⟨hrule, hrest⟩

theorem within_of_exec {finalOutbound : String} {rules : List CompiledRule}
    {this final : Selecting} {reads : List Selecting.Action}
    (h : Within finalOutbound rules this.task)
    (he : Run.exec (Selecting.step finalOutbound) this reads = some final) :
    Within finalOutbound rules final.task := by
  refine @Run.invariant _ _ _ (fun state => Within finalOutbound rules state.task) ?_ this reads
    final h he
  intro state action next hi hs
  cases action with
  | advance =>
      obtain ⟨task, ha, rfl⟩ := Selecting.step_advance finalOutbound hs
      exact advance_within hi ha
  | replace tag rules =>
      rw [(Selecting.step_replace finalOutbound hs).1]
      exact hi

theorem compile_method {config : RouteRuleConfig} {compiled : CompiledRule} {method : String}
    (h : CompiledRule.compile config = .ok compiled) (haction : compiled.action = .reject method) :
    method ∈ ["default", "drop", "reply"] := by
  unfold CompiledRule.compile at h
  obtain ⟨matcher, -, h⟩ := Result.bind_eq_ok.mp h
  obtain ⟨-, h⟩ := Result.ensure_bind_eq_ok.mp h
  dsimp only at h
  split at h
  · obtain ⟨-, h⟩ := Result.ensure_bind_eq_ok.mp h
    obtain rfl := Except.ok.inj h
    cases haction
  split at h
  · obtain ⟨-, h⟩ := Result.ensure_bind_eq_ok.mp h
    obtain rfl := Except.ok.inj h
    cases haction
  split at h
  · obtain ⟨hmethod, h⟩ := Result.ensure_bind_eq_ok.mp h
    obtain ⟨-, h⟩ := Result.ensure_bind_eq_ok.mp h
    obtain rfl := Except.ok.inj h
    obtain rfl := RuleAction.reject.inj haction
    exact List.contains_iff_mem.mp hmethod
  · cases h

end Router

end SingBox.Core
