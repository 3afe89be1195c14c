import SingBox.Core.Ip

namespace SingBox.Core

open Library

inductive Network where
  | tcp
  | udp
deriving DecidableEq

structure Address where
  host : String
  port : UInt16
deriving DecidableEq

def Address.new (host : String) (port : UInt16) : Result Address := do
  Result.ensure (host != "") "address host cannot be empty"
  return { host, port }

theorem Address.new_ok {host : String} (port : UInt16) (h : host ≠ "") :
    Address.new host port = .ok { host, port } := by
  have hne : (host != "") = true := bne_iff_ne.mpr h
  rw [Address.new, hne]
  rfl

theorem Address.new_ofList {text : List Char} (port : UInt16) (h : text ≠ []) :
    Address.new (String.ofList text) port = .ok { host := String.ofList text, port } := by
  refine Address.new_ok port fun hempty => h ?_
  simpa using congrArg String.toList hempty

-- The routing context of a connection. The name of the inbound's type, which no
-- rule looks at, is left out.
structure Session where
  network : Network
  source : Option SocketAddr
  destination : Address
  inbound : String
  outbound : Option String := none
  user : Option String := none
deriving DecidableEq

-- `Session::inbound`
def Session.ofInbound (network : Network) (source : SocketAddr) (destination : Address)
    (inbound : String) (user : Option String) : Session :=
  { network, source := some source, destination, inbound, outbound := none, user }

def Session.sourceIp (this : Session) : Option IpAddr :=
  (this.source.map normalizeSocketAddr).map SocketAddr.ip

structure RouteRuleConfig where
  inbound : List String := []
  network : List String := []
  authUser : List String := []
  domain : List String := []
  domainSuffix : List String := []
  domainKeyword : List String := []
  sourceIpCidr : List String := []
  sourceIpIsPrivate : Option Bool := none
  ipCidr : List String := []
  ipIsPrivate : Option Bool := none
  sourcePort : List UInt16 := []
  sourcePortRange : List String := []
  port : List UInt16 := []
  portRange : List String := []
  ruleSet : List String := []
  invert : Bool := false
  action : String := ""
  outbound : String := ""
  overrideAddress : String := ""
  overridePort : UInt16 := 0
  method : String := ""
  noDrop : Bool := false

structure HeadlessRuleConfig where
  kind : String := ""
  mode : String := ""
  rules : List HeadlessRuleConfig := []
  network : List String := []
  domain : List String := []
  domainSuffix : List String := []
  domainKeyword : List String := []
  sourceIpCidr : List String := []
  ipCidr : List String := []
  sourcePort : List UInt16 := []
  sourcePortRange : List String := []
  port : List UInt16 := []
  portRange : List String := []
  invert : Bool := false

structure RuleSetSource where
  version : UInt8
  rules : List HeadlessRuleConfig

-- `str::to_ascii_lowercase`
def toAsciiLowercase (value : String) : String :=
  String.ofList (value.toList.map Char.toLower)

def normalizeDomains (values : List String) : List String :=
  values.map toAsciiLowercase

def compileNetworks (values : List String) : Result (List Network) :=
  values.mapM fun value =>
    if value = "tcp" then .ok .tcp
    else if value = "udp" then .ok .udp
    else Result.bail s!"unsupported network: {value}"

def compileCidrs (values : List String) : Result (List IpCidr) :=
  values.mapM IpCidr.fromStr

structure PortMatcher where
  exact : List UInt16 := []
  ranges : List (UInt16 × UInt16) := []
deriving DecidableEq

namespace PortMatcher

def compileRange (range : String) : Result (UInt16 × UInt16) := do
  let (start, last) ←
    Result.ofOption s!"invalid port range: {range}" (splitOnce ':' range.toList)
  let start ← if start.isEmpty then .ok 0 else parseUnsigned 65536 start
  let last ← if last.isEmpty then .ok 65535 else parseUnsigned 65536 last
  Result.ensure (start ≤ last) s!"invalid port range: {range}"
  return (UInt16.ofNat start, UInt16.ofNat last)

def compile (exact : List UInt16) (ranges : List String) : Result PortMatcher := do
  let ranges ← ranges.mapM compileRange
  return { exact, ranges }

def isEmpty (this : PortMatcher) : Bool :=
  this.exact.isEmpty && this.ranges.isEmpty

def contains (this : PortMatcher) (port : UInt16) : Bool :=
  this.exact.contains port ||
    this.ranges.any fun (start, last) => start ≤ port && port ≤ last

end PortMatcher

-- A rule matches when each of its conditions holds. A condition without a value
-- is no condition.
structure RuleMatcher where
  inbounds : List String := []
  networks : List Network := []
  users : List String := []
  domains : List String := []
  domainSuffixes : List String := []
  domainKeywords : List String := []
  sourceCidrs : List IpCidr := []
  sourcePrivate : Option Bool := none
  destinationCidrs : List IpCidr := []
  destinationPrivate : Option Bool := none
  sourcePorts : PortMatcher := {}
  destinationPorts : PortMatcher := {}
  ruleSets : List String := []
  invert : Bool := false
deriving DecidableEq

namespace RuleMatcher

def fromRoute (config : RouteRuleConfig) : Result RuleMatcher := do
  let networks ← compileNetworks config.network
  let sourceCidrs ← compileCidrs config.sourceIpCidr
  let destinationCidrs ← compileCidrs config.ipCidr
  let sourcePorts ← PortMatcher.compile config.sourcePort config.sourcePortRange
  let destinationPorts ← PortMatcher.compile config.port config.portRange
  return {
    inbounds := config.inbound
    networks
    users := config.authUser
    domains := normalizeDomains config.domain
    domainSuffixes := normalizeDomains config.domainSuffix
    domainKeywords := normalizeDomains config.domainKeyword
    sourceCidrs
    sourcePrivate := config.sourceIpIsPrivate
    destinationCidrs
    destinationPrivate := config.ipIsPrivate
    sourcePorts
    destinationPorts
    ruleSets := config.ruleSet
    invert := config.invert
  }

def fromHeadless (config : HeadlessRuleConfig) : Result RuleMatcher := do
  let networks ← compileNetworks config.network
  let sourceCidrs ← compileCidrs config.sourceIpCidr
  let destinationCidrs ← compileCidrs config.ipCidr
  let sourcePorts ← PortMatcher.compile config.sourcePort config.sourcePortRange
  let destinationPorts ← PortMatcher.compile config.port config.portRange
  return {
    networks
    domains := normalizeDomains config.domain
    domainSuffixes := normalizeDomains config.domainSuffix
    domainKeywords := normalizeDomains config.domainKeyword
    sourceCidrs
    destinationCidrs
    sourcePorts
    destinationPorts
    invert := config.invert
  }

def isEmpty (this : RuleMatcher) : Bool :=
  this.inbounds.isEmpty
    && this.networks.isEmpty
    && this.users.isEmpty
    && this.domains.isEmpty
    && this.domainSuffixes.isEmpty
    && this.domainKeywords.isEmpty
    && this.sourceCidrs.isEmpty
    && this.sourcePrivate.isNone
    && this.destinationCidrs.isEmpty
    && this.destinationPrivate.isNone
    && this.sourcePorts.isEmpty
    && this.destinationPorts.isEmpty
    && this.ruleSets.isEmpty

-- `str::contains`
def containsText (text part : List Char) : Bool :=
  text.tails.any part.isPrefixOf

def domainMatches (this : RuleMatcher) (host : String) : Bool :=
  this.domains.isEmpty && this.domainSuffixes.isEmpty && this.domainKeywords.isEmpty
    || this.domains.any (fun value => value == host)
    || this.domainSuffixes.any (fun value =>
        if value.toList.head? = some '.' then value.toList.isSuffixOf host.toList
        else host == value || ('.' :: value.toList).isSuffixOf host.toList)
    || this.domainKeywords.any (fun value => containsText host.toList value.toList)

def matchesBase (this : RuleMatcher) (session : Session) : Bool :=
  let source := session.source.map normalizeSocketAddr
  let destinationIp := IpAddr.fromStr session.destination.host.toList
  let host := toAsciiLowercase session.destination.host
  (this.inbounds.isEmpty || this.inbounds.contains session.inbound)
    && (this.networks.isEmpty || this.networks.contains session.network)
    && (this.users.isEmpty || session.user.any this.users.contains)
    && this.domainMatches host
    && (this.sourceCidrs.isEmpty
        || session.sourceIp.any fun ip => this.sourceCidrs.any (·.contains ip))
    && this.sourcePrivate.all (fun expected =>
        source.any fun source => source.ip.isPrivate == expected)
    && (this.destinationCidrs.isEmpty
        || destinationIp.any fun ip => this.destinationCidrs.any (·.contains ip))
    && this.destinationPrivate.all (fun expected =>
        destinationIp.any fun ip => ip.isPrivate == expected)
    && (this.sourcePorts.isEmpty
        || source.any fun source => this.sourcePorts.contains source.port)
    && (this.destinationPorts.isEmpty
        || this.destinationPorts.contains session.destination.port)

def matchesWithoutSets (this : RuleMatcher) (session : Session) : Bool :=
  this.matchesBase session != this.invert

end RuleMatcher

inductive LogicalMode where
  | and
  | or
deriving DecidableEq

inductive HeadlessRule where
  | default (matcher : RuleMatcher)
  | logical (mode : LogicalMode) (rules : List HeadlessRule) (invert : Bool)

namespace HeadlessRule

mutual

def compile : HeadlessRuleConfig → Result HeadlessRule
  | config@{ kind, mode, rules, invert, .. } =>
      if kind = "" ∨ kind = "default" then do
        let matcher ← RuleMatcher.fromHeadless config
        Result.ensure (!matcher.isEmpty) "headless rule has no match conditions"
        return .default matcher
      else if kind = "logical" then do
        Result.ensure (!rules.isEmpty) "logical rule is empty"
        let mode ←
          if mode = "and" then .ok LogicalMode.and
          else if mode = "or" then .ok LogicalMode.or
          else Result.bail s!"unknown logical rule mode: {mode}"
        let rules ← compileEach rules
        return .logical mode rules invert
      else Result.bail s!"unsupported headless rule type: {kind}"

def compileEach : List HeadlessRuleConfig → Result (List HeadlessRule)
  | [] => .ok []
  | config :: rest => do
      let rule ← compile config
      let rules ← compileEach rest
      return rule :: rules

end

mutual

def «matches» (session : Session) : HeadlessRule → Bool
  | .default rule => rule.matchesWithoutSets session
  | .logical mode rules invert =>
      let matched := match mode with
        | .and => allMatch session rules
        | .or => anyMatches session rules
      matched != invert

def allMatch (session : Session) : List HeadlessRule → Bool
  | [] => true
  | rule :: rest => rule.matches session && allMatch session rest

def anyMatches (session : Session) : List HeadlessRule → Bool
  | [] => false
  | rule :: rest => rule.matches session || anyMatches session rest

end

end HeadlessRule

-- What a `CompiledRuleSet` holds behind its lock.
abbrev CompiledRuleSet := List HeadlessRule

namespace CompiledRuleSet

def compileRule (tag : String) (rule : HeadlessRuleConfig) (index : Nat) :
    Option (Result HeadlessRule) :=
  let context := s!"compile rule-set {tag} rule {index}"
  if rule.kind = "" ∨ rule.kind = "default" then
    match RuleMatcher.fromHeadless rule with
    | .ok matcher =>
        if matcher.isEmpty then none
        else some (Result.withContext context (HeadlessRule.compile rule))
    | .error chain => some (Result.withContext context (.error chain))
  else some (Result.withContext context (HeadlessRule.compile rule))

-- `compile_rule_set_rules`, for the rules from `index` on.
def compileRules (tag : String) (index : Nat) (rules : List HeadlessRuleConfig) :
    Result CompiledRuleSet :=
  ((rules.zipIdx index).filterMap fun (rule, index) => compileRule tag rule index).mapM id

def «matches» (this : CompiledRuleSet) (session : Session) : Bool :=
  this.any fun rule => rule.matches session

end CompiledRuleSet

-- The rule-sets by their tags.
abbrev RuleSets := String → Option CompiledRuleSet

-- `rule_sets.get(tag).is_some_and(|set| set.matches(session))`
def RuleSets.tagMatches (this : RuleSets) (session : Session) (tag : String) : Bool :=
  (this tag).any fun set => set.matches session

end SingBox.Core
