import SingBox.Core.PacketRelay

namespace SingBox.Core

open Library

namespace PacketRelay

-- The packets that come in at the inbound.
def Event.received : Event → Option Packet
  | .upload (.ok packet) _ => some packet
  | _ => none

theorem run_cons (event : Event) (events : List Event) (this : PacketRelay) :
    run (event :: events) this = run events (this.step event) := rfl

theorem step_ended {this : PacketRelay} (h : this.ended.isSome) (event : Event) :
    this.step event = this := if_pos h

theorem run_ended {this : PacketRelay} (h : this.ended.isSome) (events : List Event) :
    run events this = this := by
  induction events with
  | nil => rfl
  | cons event events ih => rw [run_cons, step_ended h, ih]

theorem step_handed {this : PacketRelay} (h : ¬this.ended.isSome) (event : Event) :
    (this.step event).handed = this.handed ++ event.received.toList := by
  unfold step
  rw [if_neg h]
  cases event with
  | upload received sent => cases received <;> simp [Event.received]
  | download received sent => cases received <;> simp [Event.received]

-- What is handed over is what has come in, as far as the relay gets.
theorem run_handed (events : List Event) (this : PacketRelay) :
    ∃ front, front <+: events.filterMap Event.received ∧
      (run events this).handed = this.handed ++ front := by
  induction events generalizing this with
  | nil => exact ⟨[], List.nil_prefix, (List.append_nil _).symm⟩
  | cons event events ih =>
      by_cases hended : this.ended.isSome
      · exact ⟨[], List.nil_prefix, by rw [run_ended hended, List.append_nil]⟩
      · obtain ⟨front, hfront, hhanded⟩ := ih (this.step event)
        rw [step_handed hended] at hhanded
        refine ⟨event.received.toList ++ front, ?_, by rw [run_cons, hhanded, List.append_assoc]⟩
        cases hreceived : event.received with
        | none =>
            rw [List.filterMap_cons_none hreceived]
            exact hfront
        | some packet =>
            rw [List.filterMap_cons_some hreceived]
            exact List.cons_prefix_cons.mpr ⟨rfl, hfront⟩

end PacketRelay

-- A rule that does not look at the destination.
def CompiledRule.Blind (ruleSets : RuleSets) (this : CompiledRule) : Prop :=
  ∀ (session : Session) (destination : Address),
    this.matcher.matches { session with destination } ruleSets = this.matcher.matches session ruleSets

theorem RuleAction.rewrite_destination (action : RuleAction) (session : Session)
    (destination : Address) :
    ∃ other, action.rewrite { session with destination } =
      { action.rewrite session with destination := other } := by
  cases action with
  | routeOptions overrideAddress overridePort => exact ⟨_, rfl⟩
  | route outbound => exact ⟨destination, rfl⟩
  | reject method => exact ⟨destination, rfl⟩

-- Rules that do not look at the destination decide alike for all of them.
theorem walk_destination {ruleSets : RuleSets} {rules : List CompiledRule}
    (h : ∀ rule ∈ rules, rule.Blind ruleSets) (session : Session) (destination : Address) :
    (walk ruleSets rules { session with destination }).1 = (walk ruleSets rules session).1 := by
  induction rules generalizing session destination with
  | nil => rfl
  | cons rule rules ih =>
      obtain ⟨hblind, hrules⟩ := List.forall_mem_cons.mp h
      have hmatches := hblind session destination
      by_cases hmatch : rule.matcher.matches session ruleSets
      · have hright : rule.apply ruleSets session =
            (rule.action.decision, rule.action.rewrite session) := if_pos hmatch
        have hleft : rule.apply ruleSets { session with destination } =
            (rule.action.decision, rule.action.rewrite { session with destination }) :=
          if_pos (hmatches.trans hmatch)
        obtain ⟨other, hother⟩ := rule.action.rewrite_destination session destination
        cases hdecision : rule.action.decision with
        | none =>
            rw [hdecision] at hleft hright
            rw [walk, FirstDecision.run_cons_of_pass hleft, FirstDecision.run_cons_of_pass hright,
              hother]
            exact ih hrules _ other
        | some decision =>
            rw [hdecision] at hleft hright
            rw [walk, FirstDecision.run_cons_of_decision hleft,
              FirstDecision.run_cons_of_decision hright]
      · have hright : rule.apply ruleSets session = (none, session) := if_neg hmatch
        have hleft : rule.apply ruleSets { session with destination } =
            (none, { session with destination }) := if_neg (by rwa [hmatches])
        rw [walk, FirstDecision.run_cons_of_pass hleft, FirstDecision.run_cons_of_pass hright]
        exact ih hrules session destination

theorem Router.select_destination {router : Router}
    (h : ∀ rule ∈ router.rules, rule.Blind router.ruleSets) (session : Session)
    (destination : Address) :
    (router.select { session with destination }).1 = (router.select session).1 := by
  have hwalk := walk_destination h (Router.normalize session) destination
  exact congrArg (Option.getD · (.ok router.finalOutbound)) hwalk

-- Conditions that are none do not look at the destination.
theorem CompiledRule.blind_of_isEmpty {ruleSets : RuleSets} {rule : CompiledRule}
    (hdomains : rule.matcher.domains = [] ∧ rule.matcher.domainSuffixes = [] ∧
      rule.matcher.domainKeywords = [])
    (hcidrs : rule.matcher.destinationCidrs = [] ∧ rule.matcher.destinationPrivate = none)
    (hports : rule.matcher.destinationPorts.isEmpty) (hsets : rule.matcher.ruleSets = []) :
    rule.Blind ruleSets := by
  intro session destination
  simp [RuleMatcher.matches, RuleMatcher.matchesBase, RuleMatcher.domainMatches, hdomains, hcidrs,
    hports, hsets, Session.sourceIp]

section

variable {Connection : Type}

-- A connection is that of the outbound which the session names, and `select` has named it.
theorem Router.connectPacket_eq_ok {router : Router} {outbounds : String → Option (Outbound Connection)}
    {opened session : Session} {connection : Connection} (hnew : opened.outbound = none)
    (h : router.connectPacket outbounds opened = (.ok connection, session)) :
    ∃ tag outbound, (router.select opened).1 = .ok tag ∧ session.outbound = some tag ∧
      outbounds tag = some outbound ∧ outbound.connectPacket session = .ok connection := by
  simp only [Router.connectPacket, hnew] at h
  cases hselect : (router.select opened).1 with
  | error chain =>
      rw [hselect] at h
      cases h
  | ok tag =>
      rw [hselect] at h
      cases houtbound : outbounds tag with
      | none =>
          simp only [houtbound] at h
          cases h
      | some outbound =>
          simp only [houtbound] at h
          obtain ⟨hconnect, rfl⟩ := Prod.mk.inj h
          exact ⟨tag, outbound, rfl, rfl, houtbound, hconnect⟩

namespace Association

theorem session_outbound {this : Association} {session : Session} (h : this.session = .ok session) :
    session.outbound = none := by
  cases this with
  | socks source tag destination =>
      obtain rfl := Except.ok.inj h
      rfl
  | anyTls source tag user =>
      obtain ⟨_, _, h⟩ := Result.bind_eq_ok.mp h
      obtain rfl := Except.ok.inj h
      rfl
  | hysteria2 source tag user host port =>
      obtain ⟨_, _, h⟩ := Result.bind_eq_ok.mp h
      obtain rfl := Except.ok.inj h
      rfl

-- A packet to a port that the rules reject, in an association that was opened without one.
theorem not_packets_bound : ¬∀ (router : Router) (outbounds : String → Option (Outbound Unit))
    (this : Association) (opened session : Session) (connection : Unit)
    (events : List PacketRelay.Event),
    this.session = .ok opened → this.opens router outbounds = .ok (connection, session) →
      ∀ packet ∈ (PacketRelay.run events {}).handed, ∃ tag, session.outbound = some tag ∧
        (router.select { opened with destination := packet.destination }).1 = .ok tag := by
  intro h
  let router : Router :=
    { finalOutbound := "direct", ruleSets := fun _ => none,
      rules := [{ matcher := { destinationPorts := { exact := [53] } }, action := .reject "default" }] }
  let packet : Packet := { data := [1], destination := ⟨"1.1.1.1", 53⟩ }
  let opened : Session := Session.ofInbound .udp ⟨.v4 1, 4000⟩ ⟨"0.0.0.0", 0⟩ "in" none
  obtain ⟨tag, htag, hselect⟩ := h router (fun _ => some ⟨fun _ => .ok ()⟩)
    (.socks ⟨.v4 1, 4000⟩ "in" ⟨"0.0.0.0", 0⟩) opened { opened with outbound := some "direct" } ()
    [.upload (.ok packet) (.ok ())] rfl (by decide) packet (by decide)
  obtain rfl : "direct" = tag := Option.some.inj htag
  revert hselect
  decide

-- What an association hands over goes to the outbound that `select` has chosen for the
-- destination it was opened with. Only rules that look at no destination are sure to have
-- decided about the packets as well.
theorem packets_bound_by_opening {router : Router}
    {outbounds : String → Option (Outbound Connection)} {this : Association} {opened session : Session}
    {connection : Connection} (hsession : this.session = .ok opened)
    (hopens : this.opens router outbounds = .ok (connection, session))
    (events : List PacketRelay.Event) :
    ∃ tag outbound, (router.select opened).1 = .ok tag ∧ session.outbound = some tag ∧
      outbounds tag = some outbound ∧ outbound.connectPacket session = .ok connection ∧
      (PacketRelay.run events {}).handed <+: events.filterMap PacketRelay.Event.received ∧
      ((∀ rule ∈ router.rules, rule.Blind router.ruleSets) →
        ∀ packet ∈ (PacketRelay.run events {}).handed,
          (router.select { opened with destination := packet.destination }).1 = .ok tag) := by
  obtain ⟨_, hopened, hopens⟩ := Result.bind_eq_ok.mp hopens
  obtain rfl := Except.ok.inj (hopened.symm.trans hsession)
  obtain ⟨_, hconnect, hopens⟩ := Result.bind_eq_ok.mp hopens
  obtain ⟨rfl, rfl⟩ := Prod.mk.inj (Except.ok.inj hopens)
  obtain ⟨tag, outbound, hselect, htag, houtbound, hmade⟩ := Router.connectPacket_eq_ok
    (session_outbound hopened) (Prod.ext hconnect rfl)
  obtain ⟨front, hfront, hhanded⟩ := PacketRelay.run_handed events {}
  refine ⟨tag, outbound, hselect, htag, houtbound, hmade, ?_, fun hblind packet _ => ?_⟩
  · rw [hhanded]
    exact hfront
  · rw [Router.select_destination hblind, hselect]

-- An association that a rule for its inbound sends on, with packets to two destinations.
theorem packets_bound_by_opening_anyTls :
    let router : Router :=
      { finalOutbound := "block", ruleSets := fun _ => none,
        rules := [{ matcher := { inbounds := ["in"] }, action := .route "direct" }] }
    let opened : Session := Session.ofInbound .udp ⟨.v4 1, 4000⟩ ⟨UOT_MAGIC, 0⟩ "in" (some "user")
    let packets : List Packet := [⟨[1], ⟨"1.1.1.1", 53⟩⟩, ⟨[2], ⟨"a.com", 443⟩⟩]
    let relay := PacketRelay.run (packets.map fun packet => .upload (.ok packet) (.ok ())) {}
    relay.handed = packets ∧ ∀ packet ∈ relay.handed,
      (router.select { opened with destination := packet.destination }).1 = .ok "direct" := by
  intro router opened packets relay
  have hsession : (Association.anyTls ⟨.v4 1, 4000⟩ "in" "user").session = .ok opened := by decide
  have hopens : (Association.anyTls ⟨.v4 1, 4000⟩ "in" "user").opens router
      (fun _ => some (⟨fun _ => .ok ()⟩ : Outbound Unit)) =
      .ok ((), { opened with outbound := some "direct" }) := by decide
  have hblind : ∀ rule ∈ router.rules, rule.Blind router.ruleSets := by
    refine List.forall_mem_singleton.mpr ?_
    exact CompiledRule.blind_of_isEmpty ⟨rfl, rfl, rfl⟩ ⟨rfl, rfl⟩ rfl rfl
  obtain ⟨tag, _, _, htag, _, _, _, hpackets⟩ := packets_bound_by_opening hsession hopens
    (packets.map fun packet => .upload (.ok packet) (.ok ()))
  obtain rfl : "direct" = tag := Option.some.inj htag
  exact ⟨by decide, hpackets hblind⟩

end Association

end

end SingBox.Core
