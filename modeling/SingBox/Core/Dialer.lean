import SingBox.Core.Rule

namespace SingBox.Core

open Library

inductive DomainStrategy where
  | asIs
  | preferIpv4
  | preferIpv6
  | ipv4Only
  | ipv6Only
deriving DecidableEq, Repr

-- `DomainResolver::lookup`: the server, the host and the strategy.
abbrev DomainResolver := Option String → String → DomainStrategy → Result (List IpAddr)

structure SystemDialer where
  resolver : Option DomainResolver := none
  resolverServer : Option String := none
  strategy : DomainStrategy := .asIs

namespace SystemDialer

-- `lookupHost` is the system's own resolver.
def resolve (lookupHost : String → UInt16 → Result (List SocketAddr)) (this : SystemDialer)
    (host : String) (port : UInt16) : Result (List SocketAddr) :=
  match IpAddr.fromStr host.toList with
  | some ip => .ok [{ ip, port }]
  | none =>
      match this.resolver with
      | some lookup => do
          let ips ← lookup this.resolverServer host this.strategy
          return ips.map fun ip => { ip, port }
      | none => lookupHost host port

end SystemDialer

-- A rule with a block of destination addresses and no other condition.
def RuleMatcher.ofCidr (cidr : IpCidr) : RuleMatcher := { destinationCidrs := [cidr] }

theorem RuleMatcher.ofCidr_matches (cidr : IpCidr) (session : Session) :
    (RuleMatcher.ofCidr cidr).matchesBase session =
      (IpAddr.fromStr session.destination.host.toList).any cidr.contains := by
  simp [matchesBase, ofCidr, domainMatches, PortMatcher.isEmpty]

end SingBox.Core
