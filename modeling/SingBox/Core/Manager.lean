import Mathlib.Logic.Function.Basic
import SingBox.Library.Dependencies
import SingBox.Library.Loop
import SingBox.Library.Traced

namespace SingBox.Core

open Library

inductive StartStage where
  | initializing
  | start
  | postStart
  | started
deriving DecidableEq, Repr

def START_STAGES : List StartStage := [.initializing, .start, .postStart, .started]

-- The `Debug` of a stage.
def StartStage.debug : StartStage → String
  | .initializing => "Initialize"
  | .start => "Start"
  | .postStart => "PostStart"
  | .started => "Started"

-- What the engine asks of a provider, an outbound or an inbound: `kind`, `tag`, and how the
-- calls of `Lifecycle` end.
class Component (γ : Type) where
  kind : γ → String
  tag : γ → String
  start : γ → StartStage → Result Unit
  close : γ → Result Unit

class OutboundComponent (γ : Type) extends Component γ where
  dependencies : γ → List String

-- A call of `Lifecycle`.
inductive LifecycleCall (γ : Type) where
  | start (stage : StartStage) (component : γ)
  | close (component : γ)
deriving DecidableEq, Repr

section

variable {γ : Type} [Component γ]

-- `Lifecycle::start` on components in order, up to the first that fails, and the context
-- that its error is given.
def startAll (context : γ → String) (stage : StartStage) (components : List γ) :
    Traced (LifecycleCall γ) Unit :=
  Traced.calls (components.map fun component =>
    (.start stage component, Result.withContext (context component) (Component.start component stage)))

-- `Lifecycle::close` on all components in order, whatever they return. The error is the
-- first one, in the context that it is given.
def closeAll (context : γ → Result Unit → Result Unit) (firstError : Option (List String)) :
    List γ → Traced (LifecycleCall γ) Unit
  | [] =>
      match firstError with
      | none => ⟨[], .ok ()⟩
      | some chain => ⟨[], .error chain⟩
  | component :: rest =>
      let firstError :=
        match context component (Component.close component) with
        | .ok () => firstError
        | .error chain => some (firstError.getD chain)
      let closed := closeAll context firstError rest
      ⟨.close component :: closed.events, closed.result⟩

-- `OutboundManager` and `InboundManager`: the components under their tags, and the tags in
-- the order they were added.
structure Manager (γ : Type) [Component γ] where
  entries : String → Option γ
  insertionOrder : List String
  nodup : insertionOrder.Nodup
  consistent : ∀ tag, tag ∈ insertionOrder ↔ (entries tag).isSome
  tagged : ∀ tag component, entries tag = some component → Component.tag component = tag

namespace Manager

def new : Manager γ where
  entries _ := none
  insertionOrder := []
  nodup := List.nodup_nil
  consistent _ := by simp
  tagged _ _ h := nomatch h

-- `name` is the one of the manager in its messages.
def add (name : String) (this : Manager γ) (component : γ) : Result Unit × Manager γ :=
  let tag := Component.tag component
  if tag = "" then (Result.bail s!"{name} tag cannot be empty", this)
  else if h : (this.entries tag).isSome then (Result.bail s!"duplicate {name} tag: {tag}", this)
  else
    (.ok (), {
      entries := Function.update this.entries tag (some component)
      insertionOrder := this.insertionOrder ++ [tag]
      nodup := by
        refine List.nodup_append.mpr ⟨this.nodup, List.nodup_singleton tag, fun other hother => ?_⟩
        rintro _ hmem rfl
        obtain rfl := List.mem_singleton.mp hmem
        exact h ((this.consistent _).mp hother)
      consistent := fun other => by
        rw [List.mem_append, List.mem_singleton, this.consistent]
        by_cases hother : other = tag
        · subst hother
          simp
        · simp [hother]
      tagged := fun other found hfound => by
        by_cases hother : other = tag
        · subst hother
          rw [Function.update_self] at hfound
          exact Option.some.inj hfound ▸ rfl
        · rw [Function.update_of_ne hother] at hfound
          exact this.tagged other found hfound })

-- The components that have been added, in order.
def added (this : Manager γ) : List γ := this.insertionOrder.filterMap this.entries

end Manager

end

-- The context of an error in `start`.
def startContext {γ : Type} [Component γ] (name : String) (component : γ) : String :=
  s!"start {name}/{Component.kind component}[{Component.tag component}]"

abbrev OutboundManager (ω : Type) [OutboundComponent ω] := Manager ω

namespace OutboundManager

variable {ω : Type} [OutboundComponent ω]

def add (this : OutboundManager ω) (outbound : ω) : Result Unit × OutboundManager ω :=
  Manager.add "outbound" this outbound

-- The variables of the `while` loop in `ordered`.
structure Resolving (ω : Type) where
  remaining : List String
  resolved : List String
  result : List ω

-- The body of its `for` loop, with `progressed`.
def visit (this : OutboundManager ω) (state : Resolving ω × Bool) (tag : String) :
    Result (Resolving ω × Bool) := do
  let (resolving, progressed) := state
  if tag ∉ resolving.remaining then return (resolving, progressed)
  -- the `expect` panics
  let outbound ← Result.ofOption "manager maps stay consistent" (this.entries tag)
  let dependencies := OutboundComponent.dependencies outbound
  dependencies.forM fun dependency =>
    Result.ensure (this.entries dependency).isSome
      s!"dependency [{dependency}] not found for outbound [{tag}]"
  if dependencies.all (· ∈ resolving.resolved) then
    return ({ remaining := resolving.remaining.erase tag
              resolved := resolving.resolved ++ [tag]
              result := resolving.result ++ [outbound] }, true)
  else return (resolving, progressed)

-- The `Debug` of a set of tags. The set has an order of its own, which is not specified.
def debugTags (tags : List String) : String :=
  "\x7b" ++ ", ".intercalate (tags.map String.quote) ++ "\x7d"

def resolvePass (this : OutboundManager ω) (resolving : Resolving ω) :
    Pass (Resolving ω) (Result (List ω)) :=
  if resolving.remaining = [] then .done (.ok resolving.result)
  else
    match this.insertionOrder.foldlM this.visit (resolving, false) with
    | .error chain => .done (.error chain)
    | .ok (next, true) => .again next
    | .ok (next, false) =>
        .done (Result.bail s!"circular outbound dependency involving {debugTags next.remaining}")

def DependsOn (this : OutboundManager ω) (tag dependency : String) : Prop :=
  ∃ outbound, this.entries tag = some outbound ∧
    dependency ∈ OutboundComponent.dependencies outbound

-- What `visit` does where it does not fail.
inductive Visited (this : OutboundManager ω) (resolving : Resolving ω) (progressed : Bool)
    (tag : String) : Resolving ω × Bool → Prop where
  | passed (hremaining : tag ∉ resolving.remaining) :
      Visited this resolving progressed tag (resolving, progressed)
  | waiting (dependency : String) (hdepends : this.DependsOn tag dependency)
      (hresolved : dependency ∉ resolving.resolved) :
      Visited this resolving progressed tag (resolving, progressed)
  | taken (outbound : ω) (hremaining : tag ∈ resolving.remaining)
      (hentry : this.entries tag = some outbound)
      (hready : ∀ dependency, this.DependsOn tag dependency → dependency ∈ resolving.resolved) :
      Visited this resolving progressed tag
        ({ remaining := resolving.remaining.erase tag
           resolved := resolving.resolved ++ [tag]
           result := resolving.result ++ [outbound] }, true)

theorem visited_of_visit {this : OutboundManager ω} {resolving : Resolving ω} {progressed : Bool}
    {tag : String} {next : Resolving ω × Bool}
    (h : this.visit (resolving, progressed) tag = .ok next) :
    this.Visited resolving progressed tag next := by
  simp only [visit] at h
  by_cases hremaining : tag ∈ resolving.remaining
  · rw [if_neg (not_not_intro hremaining)] at h
    obtain ⟨outbound, hentry, h⟩ := Result.bind_eq_ok.mp h
    obtain ⟨⟨⟩, _, h⟩ := Result.bind_eq_ok.mp h
    have hentry : this.entries tag = some outbound := by
      cases he : this.entries tag with
      | none => simp [he, Result.ofOption, Result.bail] at hentry
      | some found =>
          rw [he] at hentry
          exact congrArg some (Except.ok.inj hentry)
    split at h
    · rename_i hready
      obtain rfl := Except.ok.inj h
      refine .taken outbound hremaining hentry ?_
      rintro dependency ⟨found, hfound, hdependency⟩
      obtain rfl := Option.some.inj (hfound.symm.trans hentry)
      simpa using List.all_eq_true.mp hready dependency hdependency
    · rename_i hready
      obtain rfl := Except.ok.inj h
      rw [List.all_eq_true] at hready
      push Not at hready
      obtain ⟨dependency, hdependency, hresolved⟩ := hready
      exact .waiting dependency ⟨outbound, hentry, hdependency⟩ (by simpa using hresolved)
  · rw [if_pos hremaining] at h
    obtain rfl := Except.ok.inj h
    exact .passed hremaining

-- A pass that goes on has taken a tag.
theorem resolvePass_decreases (this : OutboundManager ω) :
    Loop.Decreases this.resolvePass fun resolving => resolving.remaining.length := by
  intro resolving next h
  unfold resolvePass at h
  split at h
  · cases h
  split at h
  · cases h
  · rename_i hpass
    obtain rfl := Pass.again.inj h
    have hrule := Result.foldlM_rule (fun state : Resolving ω × Bool =>
      state.1.remaining.length ≤ resolving.remaining.length ∧
        (state.2 = true → state.1.remaining.length < resolving.remaining.length))
      (by
        intro state tag next _ hi hnext
        cases visited_of_visit hnext with
        | passed _ => exact hi
        | waiting _ _ _ => exact hi
        | taken outbound hremaining _ _ =>
            have hlength := List.length_erase_of_mem hremaining
            have hpos := List.length_pos_of_mem hremaining
            have hnext : (state.1.remaining.erase tag).length < resolving.remaining.length :=
              Nat.lt_of_lt_of_le (by omega) hi.1
            exact ⟨Nat.le_of_lt hnext, fun _ => hnext⟩)
      ⟨Nat.le_refl _, fun h => absurd h Bool.false_ne_true⟩ hpass
    exact hrule.2 rfl
  · cases h

def ordered (this : OutboundManager ω) : Result (List ω) :=
  Loop.run this.resolvePass _ this.resolvePass_decreases
    { remaining := this.insertionOrder, resolved := [], result := [] }

def start (this : OutboundManager ω) (stage : StartStage) : Traced (LifecycleCall ω) Unit := do
  let outbounds ← Traced.ofResult this.ordered
  startAll (startContext "outbound") stage outbounds

def close (this : OutboundManager ω) : Traced (LifecycleCall ω) Unit := do
  let entries ← Traced.ofResult this.ordered
  closeAll (fun _ result => result) none entries.reverse

end OutboundManager

abbrev InboundManager (ι : Type) [Component ι] := Manager ι

namespace InboundManager

variable {ι : Type} [Component ι]

def add (this : InboundManager ι) (inbound : ι) : Result Unit × InboundManager ι :=
  Manager.add "inbound" this inbound

def ordered (this : InboundManager ι) : List ι := this.insertionOrder.filterMap this.entries

def start (this : InboundManager ι) (stage : StartStage) : Traced (LifecycleCall ι) Unit :=
  startAll (startContext "inbound") stage this.ordered

def close (this : InboundManager ι) : Traced (LifecycleCall ι) Unit :=
  closeAll (fun _ result => result) none this.ordered.reverse

end InboundManager

-- `CertificateProviderManager` with its `ProviderState`.
structure CertificateProviderManager (π : Type) [Component π] where
  ordered : List π
  byTag : String → Option π
  nodup : (ordered.map Component.tag).Nodup
  consistent : ∀ tag provider, byTag tag = some provider ↔
    provider ∈ ordered ∧ Component.tag provider = tag

namespace CertificateProviderManager

variable {π : Type} [Component π]

def new : CertificateProviderManager π where
  ordered := []
  byTag _ := none
  nodup := List.nodup_nil
  consistent _ _ := by simp

def add (this : CertificateProviderManager π) (provider : π) :
    Result Unit × CertificateProviderManager π :=
  let tag := Component.tag provider
  if tag = "" then (Result.bail "certificate provider tag cannot be empty", this)
  else if h : (this.byTag tag).isSome then
    (Result.bail s!"duplicate certificate provider tag: {tag}", this)
  else
    have hfresh : ∀ other ∈ this.ordered, Component.tag other ≠ tag := fun other hother heq =>
      h (Option.isSome_of_eq_some ((this.consistent tag other).mpr ⟨hother, heq⟩))
    (.ok (), {
      ordered := this.ordered ++ [provider]
      byTag := Function.update this.byTag tag (some provider)
      nodup := by
        rw [List.map_append, List.nodup_append]
        refine ⟨this.nodup, List.nodup_singleton _, fun other hother last hlast => ?_⟩
        obtain ⟨found, hfound, rfl⟩ := List.mem_map.mp hother
        obtain rfl := List.mem_singleton.mp hlast
        exact hfresh found hfound
      consistent := fun other found => by
        by_cases hother : other = tag
        · subst hother
          rw [Function.update_self, List.mem_append, List.mem_singleton]
          constructor
          · intro heq
            obtain rfl := Option.some.inj heq
            exact ⟨.inr rfl, rfl⟩
          · rintro ⟨hfound | rfl, heq⟩
            · exact absurd heq (hfresh found hfound)
            · rfl
        · rw [Function.update_of_ne hother, this.consistent, List.mem_append, List.mem_singleton]
          constructor
          · rintro ⟨hfound, heq⟩
            exact ⟨.inl hfound, heq⟩
          · rintro ⟨hfound | rfl, heq⟩
            · exact ⟨hfound, heq⟩
            · exact absurd heq.symm hother })

def context (action : String) (provider : π) : String :=
  s!"{action} certificate-provider/{Component.kind provider}[{Component.tag provider}]"

def start (this : CertificateProviderManager π) (stage : StartStage) :
    Traced (LifecycleCall π) Unit :=
  startAll (context stage.debug) stage this.ordered

def close (this : CertificateProviderManager π) : Traced (LifecycleCall π) Unit :=
  closeAll (fun provider => Result.withContext (context "close" provider)) none this.ordered.reverse

end CertificateProviderManager

end SingBox.Core
