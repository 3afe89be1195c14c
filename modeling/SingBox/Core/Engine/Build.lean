import SingBox.Core.Engine
import SingBox.Core.Ntp
import SingBox.Core.Router.Running

namespace SingBox.Core

open Library
open OutboundManager (DependenciesFirst)

-- `κ` are the options of a component, as they stand in the configuration.
structure RawComponent (κ : Type) where
  kind : String
  tag : String := ""
  options : κ

structure Config (κ : Type) where
  -- the strategy of the DNS configuration, if there is one
  dns : Option DomainStrategy := none
  ntp : Option NtpConfig := none
  certificateProviders : List (RawComponent κ) := []
  inbounds : List (RawComponent κ) := []
  outbounds : List (RawComponent κ) := []
  route : RouteConfig

namespace Registry

variable {κ γ : Type}

end Registry

def componentTag (tag kind : String) (index : Nat) : String :=
  if tag = "" then s!"{kind}-{index}" else tag

-- What `Engine::new_with_services` returns, before it is started. Its outbounds can be put in
-- order.
structure Built (π ω ι : Type) [Component π] [OutboundComponent ω] [Component ι] where
  certificateProviders : CertificateProviderManager π
  outbounds : OutboundManager ω
  resolvable : outbounds.Resolvable
  inbounds : InboundManager ι
  router : Router
  services : List RuleSetService
  ntpOffsetNanos : Option Int

section

variable (parseExtendedJson : String → Result RuleSetSource)
  (iter : List String → List String) (zlib : Bytes → Bytes × Option String)
  (parseDuration : String → Result Nat) (outside : Outside)
  (synchronize : NtpConfig → SystemDialer → Result Int)
variable {κ π ω ι : Type} [Component π] [OutboundComponent ω] [Component ι]

def defaultOutbound (config : Config κ) : String :=
  match config.outbounds.head? with
  | some raw => componentTag raw.tag raw.kind 0
  | none => ""

-- The resolver comes with `contains_server`.
def systemDialer (config : Config κ) (resolver : Option (DomainResolver × (String → Bool))) :
    SystemDialer where
  resolver := resolver.map Prod.fst
  resolverServer := config.route.defaultDomainResolver
  strategy := config.dns.getD .asIs

end

-- A manager takes a component if its tag is neither empty nor taken, and puts it last.
def Registers {γ μ : Type} [Component γ] (add : μ → γ → Result Unit × μ) (items : μ → List γ) :
    Prop :=
  ∀ manager component,
    ((Component.tag component = "" ∨
        ∃ other ∈ items manager, Component.tag other = Component.tag component) ∧
      ∃ message, (add manager component).1 = Result.bail message) ∨
    (Component.tag component ≠ "" ∧
      (∀ other ∈ items manager, Component.tag other ≠ Component.tag component) ∧
      (add manager component).1 = .ok () ∧
      items (add manager component).2 = items manager ++ [component])

section

variable {κ γ μ : Type} [Component γ] {add : μ → γ → Result Unit × μ} {items : μ → List γ}
  {create : String → String → κ → Result γ}

end

section

variable {parseExtendedJson : String → Result RuleSetSource}
  {iter : List String → List String} {zlib : Bytes → Bytes × Option String}
  {parseDuration : String → Result Nat} {outside : Outside}
  {synchronize : NtpConfig → SystemDialer → Result Int}
variable {κ π ω ι : Type} [Component π] [OutboundComponent ω] [Component ι]

namespace Engine

end Engine

end

end SingBox.Core
