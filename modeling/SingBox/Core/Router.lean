import SingBox.Core.Rule
import SingBox.Library.FirstDecision

namespace SingBox.Core

open Library

def RuleMatcher.matches (this : RuleMatcher) (session : Session) (ruleSets : RuleSets) : Bool :=
  let matched := this.matchesBase session
  let matched :=
    if this.ruleSets.isEmpty then matched
    else matched && this.ruleSets.any (ruleSets.tagMatches session)
  matched != this.invert

inductive RuleAction where
  | routeOptions (overrideAddress : Option String) (overridePort : Option UInt16)
  | route (outbound : String)
  | reject (method : String)
deriving DecidableEq

structure CompiledRule where
  matcher : RuleMatcher
  action : RuleAction
deriving DecidableEq

def CompiledRule.compile (config : RouteRuleConfig) : Result CompiledRule := do
  let matcher ← RuleMatcher.fromRoute config
  Result.ensure (!matcher.isEmpty) "route rule has no match conditions"
  let action ←
    if config.action = "" ∨ config.action = "route" then do
      Result.ensure (config.outbound != "") "route action requires outbound"
      pure (RuleAction.route config.outbound)
    else if config.action = "route-options" then do
      Result.ensure (config.overrideAddress != "" || config.overridePort != 0)
        "route-options action is empty"
      pure (RuleAction.routeOptions
        (if config.overrideAddress = "" then none else some config.overrideAddress)
        (if config.overridePort = 0 then none else some config.overridePort))
    else if config.action = "reject" then do
      let method := if config.method = "" then "default" else config.method
      Result.ensure (["default", "drop", "reply"].contains method)
        s!"unknown reject method: {method}"
      Result.ensure (!(method == "drop" && config.noDrop)) "no_drop cannot be used with drop"
      pure (RuleAction.reject method)
    else Result.bail s!"unsupported route action: {config.action}"
  return { matcher, action }

namespace RuleAction

-- What the action decides. The options of a connection decide nothing.
def decision : RuleAction → Option (Result String)
  | .routeOptions _ _ => none
  | .route outbound => some (.ok outbound)
  | .reject method => some (Result.bail s!"connection rejected by route rule using {method}")

def rewrite (this : RuleAction) (session : Session) : Session :=
  match this with
  | .routeOptions overrideAddress overridePort =>
      { session with
        destination :=
          { host := overrideAddress.getD session.destination.host
            port := overridePort.getD session.destination.port } }
  | _ => session

end RuleAction

def CompiledRule.apply (ruleSets : RuleSets) (this : CompiledRule) (session : Session) :
    Option (Result String) × Session :=
  if this.matcher.matches session ruleSets then
    (this.action.decision, this.action.rewrite session)
  else (none, session)

-- The loop of `select`: the decision of the first route or reject rule that
-- matches, and the session as the rules before it have rewritten it.
def walk (ruleSets : RuleSets) : List CompiledRule → Session → Option (Result String) × Session :=
  FirstDecision.run (CompiledRule.apply ruleSets)

structure Router where
  finalOutbound : String
  rules : List CompiledRule
  ruleSets : RuleSets

namespace Router

-- `session.source.map(normalize_socket_addr)`
def normalize (session : Session) : Session :=
  { session with source := session.source.map normalizeSocketAddr }

def select (this : Router) (session : Session) : Result String × Session :=
  let walked := walk this.ruleSets this.rules (normalize session)
  (walked.1.getD (.ok this.finalOutbound), walked.2)

end Router

end SingBox.Core
