import Mathlib.Order.Defs.LinearOrder
import SingBox.Cloudflared.RemoteConfig
import SingBox.Library.Newest
import SingBox.Library.Run

namespace SingBox.Cloudflared.RemoteConfigState

open Library

-- What the connections of an inbound do with its store: an update over either transport,
-- and the reading of it for a request.
inductive Event where
  | http2 (body : Bytes)
  | quic (params : Result (Int × Bytes))
  | resolve (request : ConnectRequest)

-- What is answered: the version an update's response tells, the request as it goes on, or
-- nothing.
inductive Reply where
  | applied (version : Int)
  | resolved (result : Result (ConnectRequest × Option UInt16))
  | failed (chain : List String)

section

variable {Value : Type} (json : Json Value) (parseUri : String → Result Uri)

def handle (state : RemoteConfigState) : Event → Reply × RemoteConfigState
  | .http2 body =>
      match handleConfigurationUpdate json true state body with
      | (.ok response, next) => (.applied response.lastAppliedVersion, next)
      | (.error chain, next) => (.failed chain, next)
  | .quic params =>
      match updateConfiguration json true state params with
      | (.ok result, next) => (.applied result.latestAppliedVersion, next)
      | (.error chain, next) => (.failed chain, next)
  | .resolve request => (.resolved (resolveRemoteRequest parseUri state request), state)

def run (events : List Event) : RemoteConfigState :=
  events.foldl (fun state event => (handle json parseUri state event).2) initial

-- The version and the text that reach the handler.
def update : Event → Option (Int × Bytes)
  | .http2 body =>
      match json.updateBody body with
      | .ok (version, config) => (json.toVec config).toOption.map fun config => (version, config)
      | .error _ => none
  | .quic params => params.toOption
  | .resolve _ => none

-- The state an update leaves when it is taken.
def ofUpdate (update : Int × Bytes) : Option RemoteConfigState :=
  (json.configBody update.2).toOption.map fun body =>
    { version := update.1, raw := update.2, ingress := body.ingress }

-- What the handler does to the store, whatever is answered.
theorem handler_state (state : RemoteConfigState) (update : Int × Bytes) :
    (configurationHandler json.configBody state update.1 update.2).2 =
      ((ofUpdate json update).map (Newest.keep version state)).getD state := by
  cases hparse : json.configBody update.2 with
  | error chain => simp [configurationHandler, ofUpdate, hparse, Result.withContext, Except.toOption]
  | ok body =>
      simp [configurationHandler, ofUpdate, hparse, Result.withContext, Except.toOption,
        Newest.keep]

theorem handle_state (state : RemoteConfigState) (event : Event) :
    (handle json parseUri state event).2 =
      (((update json event).bind (ofUpdate json)).map (Newest.keep version state)).getD state := by
  cases event with
  | resolve request => rfl
  | quic params =>
      cases params with
      | error chain => rfl
      | ok params =>
          have hstate := handler_state json state params
          obtain ⟨version, config⟩ := params
          simp only [handle, updateConfiguration, update, Except.toOption, Option.bind_some]
          rw [← hstate]
          cases configurationHandler json.configBody state version config with
          | mk answer next => cases answer <;> rfl
  | http2 body =>
      cases hbody : json.updateBody body with
      | error chain =>
          simp [handle, handleConfigurationUpdate, update, hbody, Result.withContext]
      | ok found =>
          obtain ⟨version, value⟩ := found
          cases hvec : json.toVec value with
          | error chain =>
              simp [handle, handleConfigurationUpdate, update, hbody, hvec, Result.withContext,
                Except.toOption]
          | ok config =>
              have hstate := handler_state json state (version, config)
              simp only [handle, handleConfigurationUpdate, update, hbody, hvec,
                Result.withContext, Except.toOption, Option.map_some, Option.bind_some]
              rw [← hstate]
              cases configurationHandler json.configBody state version config with
              | mk answer next => cases answer <;> rfl

-- The updates a run brings to the handler, and the states of those that can be parsed.
def updates (events : List Event) : List (Int × Bytes) := events.filterMap (update json)

def offers (events : List Event) : List RemoteConfigState :=
  (updates json events).filterMap (ofUpdate json)

-- The store is a register that keeps the newest of what it is offered.
theorem run_eq_settle (events : List Event) :
    run json parseUri events = Newest.settle version initial (offers json events) := by
  have hfrom (state : RemoteConfigState) :
      events.foldl (fun state event => (handle json parseUri state event).2) state =
        Newest.settle version state (offers json events) := by
    induction events generalizing state with
    | nil => rfl
    | cons event rest ih =>
        rw [List.foldl_cons, ih, handle_state]
        cases hupdate : update json event with
        | none => simp [offers, updates, hupdate]
        | some found =>
            cases hoffer : ofUpdate json found with
            | none => simp [offers, updates, hupdate, hoffer]
            | some offer => simp [offers, updates, hupdate, hoffer, Newest.settle]
  exact hfrom initial

theorem ofUpdate_version {found : Int × Bytes} {state : RemoteConfigState}
    (h : ofUpdate json found = some state) : state.version = found.1 := by
  obtain ⟨body, _, rfl⟩ := Option.map_eq_some_iff.mp h
  rfl

theorem mem_offers {events : List Event} {state : RemoteConfigState} :
    state ∈ offers json events ↔
      ∃ found ∈ updates json events, ofUpdate json found = some state := List.mem_filterMap

-- Updates with versions of their own offer states with versions of their own.
theorem offers_nodup {events : List Event} (h : ((updates json events).map Prod.fst).Nodup) :
    ((offers json events).map version).Nodup := by
  have hsub (found : List (Int × Bytes)) :
      ((found.filterMap (ofUpdate json)).map version).Sublist (found.map Prod.fst) := by
    induction found with
    | nil => exact List.Sublist.slnil
    | cons first rest ih =>
        cases hoffer : ofUpdate json first with
        | none =>
            rw [List.filterMap_cons_none hoffer]
            exact ih.cons _
        | some state =>
            rw [List.filterMap_cons_some hoffer, List.map_cons, ofUpdate_version json hoffer]
            exact ih.cons_cons _
  exact h.sublist (hsub _)

-- What the store holds at the end of a run.
theorem run_cases (events : List Event) :
    (run json parseUri events = initial ∧
        ∀ found ∈ updates json events, -1 < found.1 → ofUpdate json found = none) ∨
      ∃ found ∈ updates json events, -1 < found.1 ∧
        ofUpdate json found = some (run json parseUri events) ∧
        ∀ other ∈ updates json events, (ofUpdate json other).isSome → other.1 ≤ found.1 := by
  rw [run_eq_settle]
  obtain ⟨_, hnewest⟩ := Newest.key_le_settle version initial (offers json events)
  obtain heq | ⟨hmem, hkey⟩ := Newest.settle_cases version initial (offers json events)
  · refine .inl ⟨heq, fun found hfound hlt => ?_⟩
    by_contra hsome
    obtain ⟨state, hstate⟩ := Option.ne_none_iff_exists'.mp hsome
    have hle := hnewest state ((mem_offers json).mpr ⟨found, hfound, hstate⟩)
    rw [heq, ofUpdate_version json hstate] at hle
    simp only [initial] at hle
    omega
  · obtain ⟨found, hfound, hstate⟩ := (mem_offers json).mp hmem
    rw [ofUpdate_version json hstate] at hkey
    refine .inr ⟨found, hfound, hkey, hstate, fun other hother hsome => ?_⟩
    obtain ⟨offer, hoffer⟩ := Option.isSome_iff_exists.mp hsome
    have hle := hnewest offer ((mem_offers json).mpr ⟨other, hother, hoffer⟩)
    rwa [ofUpdate_version json hoffer, ofUpdate_version json hstate] at hle

theorem run_append (front back : List Event) :
    run json parseUri (front ++ back) =
      back.foldl (fun state event => (handle json parseUri state event).2)
        (run json parseUri front) := List.foldl_append

-- An update that cannot be parsed, or is not newer, and any other event.
theorem handle_unchanged {state : RemoteConfigState} {event : Event}
    (h : ∀ found, update json event = some found →
      ofUpdate json found = none ∨ found.1 ≤ state.version) :
    (handle json parseUri state event).2 = state := by
  rw [handle_state]
  cases hupdate : update json event with
  | none => rfl
  | some found =>
      cases hoffer : ofUpdate json found with
      | none => simp [hoffer]
      | some offer =>
          have hle : found.1 ≤ state.version := by
            obtain hnone | hle := h found hupdate
            · rw [hoffer] at hnone
              cases hnone
            · exact hle
          have hkeep : ¬state.version < offer.version := by
            rw [ofUpdate_version json hoffer]
            omega
          simp [hoffer, Newest.keep, hkeep]

theorem version_le_handle (state : RemoteConfigState) (event : Event) :
    state.version ≤ (handle json parseUri state event).2.version := by
  rw [handle_state]
  cases (update json event).bind (ofUpdate json) with
  | none => exact le_refl _
  | some offer => exact (Newest.key_le_keep version state offer).1

-- The configuration an inbound ends with is that of the newest update that can be parsed,
-- whatever the order and the connections the updates come in, and on the way there the
-- store goes from one whole update to a newer one.
theorem order_independent {events : List Event}
    (hversions : ((updates json events).map Prod.fst).Nodup) :
    ((run json parseUri events = initial ∧
          ∀ found ∈ updates json events, -1 < found.1 → ofUpdate json found = none) ∨
        ∃ found ∈ updates json events, -1 < found.1 ∧
          ofUpdate json found = some (run json parseUri events) ∧
          ∀ other ∈ updates json events, (ofUpdate json other).isSome → other.1 ≤ found.1) ∧
      (∀ others, (updates json events).Perm (updates json others) →
        run json parseUri others = run json parseUri events) ∧
      ∀ front event back, events = front ++ event :: back →
        let held := run json parseUri front
        let next := run json parseUri (front ++ [event])
        held.version ≤ next.version ∧
          (held = initial ∨ ∃ found ∈ updates json front, ofUpdate json found = some held) ∧
          ((∀ found, update json event = some found →
              ofUpdate json found = none ∨ found.1 ≤ held.version) → next = held) := by
  refine ⟨run_cases json parseUri events, fun others hperm => ?_, ?_⟩
  · rw [run_eq_settle, run_eq_settle]
    exact (Newest.settle_perm (hperm.filterMap _) (offers_nodup json hversions)).symm
  · intro front event back _ held next
    have hnext : next = (handle json parseUri held event).2 := run_append json parseUri front [event]
    rw [hnext]
    refine ⟨version_le_handle json parseUri held event, ?_, handle_unchanged json parseUri⟩
    obtain ⟨heq, _⟩ | ⟨found, hfound, _, hstate, _⟩ := run_cases json parseUri front
    · exact .inl heq
    · exact .inr ⟨found, hfound, hstate⟩

end

-- An update over QUIC that is no text, one over HTTP/2 and an older one.
def sampleBody : Bytes := "\x7b\"version\":2,\"config\":\x7b\x7d\x7d".toUTF8.data.toList

def sampleJson : Json Unit where
  configBody config :=
    if config = [0x7b, 0x7d] then .ok {} else Result.bail "expected value at line 1 column 1"
  updateBody body :=
    if body = sampleBody then .ok (2, ()) else Result.bail "expected value at line 1 column 1"
  toVec _ := .ok [0x7b, 0x7d]

def sampleEvents : List Event :=
  [.quic (.ok (5, [0x78])), .http2 sampleBody, .quic (.ok (1, [0x7b, 0x7d]))]

def noUri : String → Result Uri := fun _ => Result.bail "invalid uri character"

theorem order_independent_sample :
    run sampleJson noUri sampleEvents.reverse = run sampleJson noUri sampleEvents := by
  have hversions : ((updates sampleJson sampleEvents).map Prod.fst).Nodup := by decide
  have hperm : (updates sampleJson sampleEvents).Perm (updates sampleJson sampleEvents.reverse) := by
    decide
  exact (order_independent sampleJson noUri hversions).2.1 _ hperm

-- The store, and what the last event was answered with.
structure Answered where
  state : RemoteConfigState
  reply : Option Int
deriving DecidableEq

def Reply.version : Reply → Option Int
  | .applied version => some version
  | _ => none

namespace Answered

variable {Value : Type} (json : Json Value) (parseUri : String → Result Uri)

def step (this : Answered) (event : Event) : Option Answered :=
  let handled := handle json parseUri this.state event
  some { state := handled.2, reply := handled.1.version }

-- The version that was told is the one the store holds.
def Truthful (this : Answered) : Prop := ∀ version, this.reply = some version →
  version = this.state.version

-- An update whose text cannot be parsed has the version the store holds.
def RejectsOwn (this : Answered) (event : Event) : Prop :=
  ∀ found, update json event = some found → ofUpdate json found = none →
    found.1 = this.state.version

-- An update that is rejected is answered as if it had been applied.
theorem not_truthful : ¬∀ (Value : Type) (json : Json Value) (parseUri : String → Result Uri)
    (events : List Event),
    Run.Always (step json parseUri) Truthful { state := initial, reply := none } events := by
  intro h
  have hrun := h Unit sampleJson noUri [.quic (.ok (5, [0x78]))]
  have htold := hrun.2 _ rfl 5 (by decide)
  revert htold
  decide

theorem handler_version (state : RemoteConfigState) (found : Int × Bytes) :
    match configurationHandler json.configBody state found.1 found.2 with
    | (.ok applied, next) => (ofUpdate json found).isSome ∧ applied = next.version
    | (.error _, _) => ofUpdate json found = none := by
  cases hparse : json.configBody found.2 with
  | error chain => simp [configurationHandler, ofUpdate, hparse, Result.withContext, Except.toOption]
  | ok body => simp [configurationHandler, ofUpdate, hparse, Result.withContext, Except.toOption]

-- A taken or a stale update is answered with the version of the store, a rejected one with
-- its own.
theorem handle_reply (state : RemoteConfigState) (event : Event) :
    (handle json parseUri state event).1.version = (update json event).map fun found =>
      if (ofUpdate json found).isSome then (handle json parseUri state event).2.version
      else found.1 := by
  cases event with
  | resolve request => rfl
  | quic params =>
      cases params with
      | error chain => rfl
      | ok params =>
          have hversion := handler_version json state params
          obtain ⟨version, config⟩ := params
          simp only [handle, updateConfiguration, update, Except.toOption, Option.map_some]
          generalize configurationHandler json.configBody state version config = answered
            at hversion ⊢
          obtain ⟨answer | answer, next⟩ := answered
          · simp [hversion, Reply.version]
          · simp [hversion.1, hversion.2, Reply.version]
  | http2 body =>
      cases hbody : json.updateBody body with
      | error chain =>
          simp [handle, handleConfigurationUpdate, update, hbody, Result.withContext, Reply.version]
      | ok found =>
          obtain ⟨version, value⟩ := found
          cases hvec : json.toVec value with
          | error chain =>
              simp [handle, handleConfigurationUpdate, update, hbody, hvec, Result.withContext,
                Except.toOption, Reply.version]
          | ok config =>
              have hversion := handler_version json state (version, config)
              simp only [handle, handleConfigurationUpdate, update, hbody, hvec,
                Result.withContext, Except.toOption, Option.map_some]
              generalize configurationHandler json.configBody state version config = answered
                at hversion ⊢
              obtain ⟨answer | answer, next⟩ := answered
              · simp [hversion, Reply.version]
              · simp [hversion.1, hversion.2, Reply.version]

theorem rejectsOwn_iff (this : Answered) (event : Event) :
    this.RejectsOwn json event ↔ Truthful
      { state := (handle json parseUri this.state event).2,
        reply := (handle json parseUri this.state event).1.version } := by
  simp only [Truthful, RejectsOwn, handle_reply]
  cases hupdate : update json event with
  | none => simp
  | some found =>
      cases hoffer : ofUpdate json found with
      | none =>
          have hsame : (handle json parseUri this.state event).2 = this.state :=
            handle_unchanged json parseUri fun other hother => by
              obtain rfl : found = other := Option.some.inj (hupdate.symm.trans hother)
              exact .inl hoffer
          simp [hoffer, hsame]
      | some offer => simp [hoffer]

-- Along a run every response tells the version the store holds, if and only if no update
-- is rejected but those with that version.
theorem truthful_iff_rejectsOwn (events : List Event) :
    Run.Always (step json parseUri) Truthful { state := initial, reply := none } events ↔
      Run.Meets (step json parseUri) (RejectsOwn json) { state := initial, reply := none } events := by
  refine Run.always_iff_meets (fun this event next _ hs => ?_) (fun _ _ hs => ?_) _ _ ?_
  · obtain rfl := Option.some.inj hs
    exact rejectsOwn_iff json parseUri this event
  · cases hs
  · intro version hreply
    cases hreply

end Answered

end SingBox.Cloudflared.RemoteConfigState
