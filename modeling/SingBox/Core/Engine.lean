import SingBox.Core.Manager.Order

namespace SingBox.Core

open Library
open OutboundManager (DependenciesFirst DependentsFirst)

-- What the engine calls.
inductive EngineCall (π ω ι : Type) where
  | routerStart
  | routerClose
  | provider (call : LifecycleCall π)
  | outbound (call : LifecycleCall ω)
  | inbound (call : LifecycleCall ι)
deriving DecidableEq

-- `routerClosed` is how `Router::close` ends. `Engine::new_with_services` has ordered the
-- outbounds.
structure Engine (π ω ι : Type) [Component π] [OutboundComponent ω] [Component ι] where
  certificateProviders : CertificateProviderManager π
  outbounds : OutboundManager ω
  inbounds : InboundManager ι
  routerClosed : Result Unit
  resolvable : outbounds.Resolvable

namespace Engine

variable {π ω ι : Type} [Component π] [OutboundComponent ω] [Component ι]

def shutdown (this : Engine π ω ι) : Traced (EngineCall π ω ι) Unit :=
  let inbounds := this.inbounds.close.map EngineCall.inbound
  let outbounds := this.outbounds.close.map EngineCall.outbound
  let providers := this.certificateProviders.close.map EngineCall.provider
  { events := inbounds.events ++ [.routerClose] ++ outbounds.events ++ providers.events
    result := do
      inbounds.result
      this.routerClosed
      outbounds.result
      providers.result }

-- `if let Err(error)`: what follows a failed start.
def orShutdown (this : Engine π ω ι) (attempt : Traced (EngineCall π ω ι) Unit) :
    Traced (EngineCall π ω ι) Unit :=
  match attempt.result with
  | .ok () => attempt
  | .error chain => ⟨attempt.events ++ this.shutdown.events, .error chain⟩

def startStages (this : Engine π ω ι) : List StartStage → Traced (EngineCall π ω ι) Unit
  | [] => pure ()
  | stage :: rest => do
      this.orShutdown ((this.certificateProviders.start stage).map .provider)
      this.orShutdown ((this.outbounds.start stage).map .outbound)
      this.orShutdown ((this.inbounds.start stage).map .inbound)
      this.startStages rest

def start (this : Engine π ω ι) : Traced (EngineCall π ω ι) Unit := do
  Traced.mk [.routerStart] (.ok ())
  this.startStages START_STAGES

end Engine

section

variable {γ : Type} [Component γ]

theorem map_startAll {δ : Type} (outer : LifecycleCall γ → δ) (context : γ → String)
    (stage : StartStage) (components : List γ) :
    (startAll context stage components).map outer =
      Traced.calls (components.map fun component =>
        (outer (.start stage component),
          Result.withContext (context component) (Component.start component stage))) := by
  rw [startAll, Traced.map_calls, List.map_map]
  rfl

theorem closeAll_events (context : γ → Result Unit → Result Unit) (firstError : Option (List String))
    (components : List γ) :
    (closeAll context firstError components).events = components.map .close := by
  induction components generalizing firstError with
  | nil => cases firstError <;> rfl
  | cons component rest ih => simp only [closeAll, List.map_cons, ih]

end

theorem OutboundManager.start_eq {ω : Type} [OutboundComponent ω] {this : OutboundManager ω}
    {order : List ω} (h : this.ordered = .ok order) (stage : StartStage) :
    this.start stage = startAll (startContext "outbound") stage order := by
  rw [OutboundManager.start, Traced.ofResult, h, Traced.bind_ok rfl]
  rfl

theorem OutboundManager.close_eq {ω : Type} [OutboundComponent ω] {this : OutboundManager ω}
    {order : List ω} (h : this.ordered = .ok order) :
    this.close = closeAll (fun _ result => result) none order.reverse := by
  rw [OutboundManager.close, Traced.ofResult, h, Traced.bind_ok rfl]
  rfl

namespace Engine

variable {π ω ι : Type} [Component π] [OutboundComponent ω] [Component ι]

-- The calls of `start` that a stage is made of, and how they end.
def stageCalls (this : Engine π ω ι) (order : List ω) (stage : StartStage) :
    List (EngineCall π ω ι × Result Unit) :=
  (this.certificateProviders.ordered.map fun provider =>
    (.provider (.start stage provider),
      Result.withContext (CertificateProviderManager.context stage.debug provider)
        (Component.start provider stage))) ++
  ((order.map fun outbound =>
    (.outbound (.start stage outbound),
      Result.withContext (startContext "outbound" outbound) (Component.start outbound stage))) ++
  this.inbounds.added.map fun inbound =>
    (.inbound (.start stage inbound),
      Result.withContext (startContext "inbound" inbound) (Component.start inbound stage)))

-- The calls of `close`: what was started last is closed first.
def closeCalls (this : Engine π ω ι) (order : List ω) : List (EngineCall π ω ι) :=
  this.inbounds.added.reverse.map (fun inbound => .inbound (.close inbound)) ++ [.routerClose] ++
    order.reverse.map (fun outbound => .outbound (.close outbound)) ++
    this.certificateProviders.ordered.reverse.map fun provider => .provider (.close provider)

theorem shutdown_events {this : Engine π ω ι} {order : List ω}
    (h : this.outbounds.ordered = .ok order) : this.shutdown.events = this.closeCalls order := by
  simp only [shutdown, Traced.map, InboundManager.close, OutboundManager.close_eq h,
    CertificateProviderManager.close, closeAll_events, List.map_map]
  rfl

theorem orShutdown_bind (this : Engine π ω ι) (first next : Traced (EngineCall π ω ι) Unit) :
    (this.orShutdown first >>= fun _ => this.orShutdown next) =
      this.orShutdown (first >>= fun _ => next) := by
  obtain ⟨events, chain | ⟨⟨⟩⟩⟩ := first
  · rfl
  · obtain ⟨others, chain | ⟨⟨⟩⟩⟩ := next
    · simp only [orShutdown, Bind.bind, List.append_assoc]
    · rfl

-- The stages are one row of calls, and what follows the first of them that fails.
theorem startStages_eq {this : Engine π ω ι} {order : List ω}
    (h : this.outbounds.ordered = .ok order) (stages : List StartStage) :
    this.startStages stages =
      this.orShutdown (Traced.calls (stages.flatMap (this.stageCalls order))) := by
  induction stages with
  | nil => rfl
  | cons stage rest ih =>
      simp only [startStages, CertificateProviderManager.start, OutboundManager.start_eq h,
        InboundManager.start, map_startAll, ih, orShutdown_bind, ← Traced.calls_append]
      rw [List.flatMap_cons, stageCalls, List.append_assoc, List.append_assoc]
      rfl

-- All calls of `start`, and how they would end.
def startCalls (this : Engine π ω ι) (order : List ω) : List (EngineCall π ω ι × Result Unit) :=
  START_STAGES.flatMap (this.stageCalls order)

theorem start_eq {this : Engine π ω ι} {order : List ω} (h : this.outbounds.ordered = .ok order) :
    this.start =
      let started := this.orShutdown (Traced.calls (this.startCalls order))
      ⟨.routerStart :: started.events, started.result⟩ := by
  rw [start, Traced.bind_ok rfl, startStages_eq h]
  rfl

theorem nodup_closeCalls (this : Engine π ω ι) {order : List ω} (h : order.Nodup) :
    (this.closeCalls order).Nodup := by
  have hinbounds : (this.inbounds.added.reverse.map fun inbound =>
      (EngineCall.inbound (.close inbound) : EngineCall π ω ι)).Nodup :=
    (List.nodup_reverse.mpr this.inbounds.nodup_added).map fun _ _ heq => by simpa using heq
  have houtbounds : (order.reverse.map fun outbound =>
      (EngineCall.outbound (.close outbound) : EngineCall π ω ι)).Nodup :=
    (List.nodup_reverse.mpr h).map fun _ _ heq => by simpa using heq
  have hproviders : (this.certificateProviders.ordered.reverse.map fun provider =>
      (EngineCall.provider (.close provider) : EngineCall π ω ι)).Nodup :=
    (List.nodup_reverse.mpr (.of_map _ this.certificateProviders.nodup)).map
      fun _ _ heq => by simpa using heq
  rw [closeCalls]
  refine List.nodup_append.mpr ⟨List.nodup_append.mpr ⟨List.nodup_append.mpr
    ⟨hinbounds, List.nodup_singleton _, ?_⟩, houtbounds, ?_⟩, hproviders, ?_⟩
  all_goals
    intro call hcall other hother heq
    simp only [List.mem_append, List.mem_map, List.mem_singleton] at hcall hother
    grind

-- Stage by stage the engine starts everything in order, up to the first call that fails. Then
-- it closes everything, each once and whatever comes of it, and reports the error of the start.
theorem start_closes_once (this : Engine π ω ι) :
    ∃ order : List ω, order.Perm this.outbounds.added ∧ DependenciesFirst order ∧
      DependentsFirst order.reverse ∧
      ((∀ call ∈ this.startCalls order, call.2 = .ok ()) →
        this.start = ⟨.routerStart :: (this.startCalls order).map Prod.fst, .ok ()⟩) ∧
      (∀ front call chain back, this.startCalls order = front ++ (call, .error chain) :: back →
        (∀ call ∈ front, call.2 = .ok ()) →
        this.start =
          ⟨.routerStart :: front.map Prod.fst ++ call :: this.closeCalls order, .error chain⟩) ∧
      (this.closeCalls order).Nodup := by
  obtain ⟨order, horder⟩ := OutboundManager.ordered_ok this.resolvable
  have hperm := (OutboundManager.ordered_spec horder).2.1
  have hfirst := OutboundManager.dependenciesFirst_of_ordered horder
  refine ⟨order, hperm, hfirst, hfirst.reverse, ?_, ?_,
    this.nodup_closeCalls (hperm.nodup_iff.mpr this.outbounds.nodup_added)⟩
  · intro hok
    rw [start_eq horder, Traced.calls_ok hok]
    rfl
  · intro front call chain back heq hfront
    rw [start_eq horder, heq, Traced.calls_failed hfront]
    simp [orShutdown, shutdown_events horder]

end Engine

end SingBox.Core
