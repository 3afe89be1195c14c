import SingBox.Core.Manager

namespace SingBox.Core

open Library
open Dependencies (Acyclic First)

namespace Manager

variable {γ : Type} [Component γ]

theorem mem_added {this : Manager γ} {component : γ} :
    component ∈ this.added ↔ this.entries (Component.tag component) = some component := by
  rw [added, List.mem_filterMap]
  constructor
  · rintro ⟨tag, -, hentry⟩
    rwa [this.tagged tag component hentry]
  · intro hentry
    exact ⟨_, (this.consistent _).mpr (Option.isSome_of_eq_some hentry), hentry⟩

theorem filterMap_tag {entries : String → Option γ} {tags : List String}
    (h : ∀ tag ∈ tags, (entries tag).isSome)
    (htagged : ∀ tag component, entries tag = some component → Component.tag component = tag) :
    (tags.filterMap entries).map Component.tag = tags := by
  induction tags with
  | nil => rfl
  | cons tag tags ih =>
      obtain ⟨htag, htags⟩ := List.forall_mem_cons.mp h
      obtain ⟨component, hcomponent⟩ := Option.isSome_iff_exists.mp htag
      rw [List.filterMap_cons_some hcomponent, List.map_cons, ih htags, htagged _ _ hcomponent]

theorem map_tag_added (this : Manager γ) : this.added.map Component.tag = this.insertionOrder :=
  filterMap_tag (fun tag htag => (this.consistent tag).mp htag) this.tagged

theorem nodup_added (this : Manager γ) : this.added.Nodup :=
  .of_map _ (this.map_tag_added ▸ this.nodup)

theorem entries_isSome {this : Manager γ} {tag : String} :
    (this.entries tag).isSome ↔ ∃ component ∈ this.added, Component.tag component = tag := by
  rw [Option.isSome_iff_exists]
  constructor
  · rintro ⟨component, hentry⟩
    obtain rfl := this.tagged tag component hentry
    exact ⟨component, mem_added.mpr hentry, rfl⟩
  · rintro ⟨component, hadded, rfl⟩
    exact ⟨component, mem_added.mp hadded⟩

-- What is refused changes nothing, and what is not refused is the last that was added.
theorem add_cases (name : String) (this : Manager γ) (component : γ) :
    ((Component.tag component = "" ∨ ∃ other ∈ this.added, Component.tag other = Component.tag component) ∧
        (∃ message, (this.add name component).1 = Result.bail message) ∧
        (this.add name component).2 = this) ∨
      (Component.tag component ≠ "" ∧
        (∀ other ∈ this.added, Component.tag other ≠ Component.tag component) ∧
        (this.add name component).1 = .ok () ∧
        (this.add name component).2.added = this.added ++ [component]) := by
  unfold add
  by_cases hempty : Component.tag component = ""
  · rw [if_pos hempty]
    exact .inl ⟨.inl hempty, ⟨_, rfl⟩, rfl⟩
  rw [if_neg hempty]
  by_cases htaken : (this.entries (Component.tag component)).isSome
  · rw [dif_pos htaken]
    exact .inl ⟨.inr (entries_isSome.mp htaken), ⟨_, rfl⟩, rfl⟩
  · rw [dif_neg htaken]
    have hfresh : ∀ other ∈ this.added, Component.tag other ≠ Component.tag component :=
      fun other hother heq => htaken (entries_isSome.mpr ⟨other, hother, heq⟩)
    refine .inr ⟨hempty, hfresh, rfl, ?_⟩
    have hkept : ∀ tag ∈ this.insertionOrder,
        Function.update this.entries (Component.tag component) (some component) tag =
          this.entries tag := by
      intro tag htag
      refine Function.update_of_ne ?_ _ _
      rintro rfl
      exact htaken ((this.consistent _).mp htag)
    rw [added, List.filterMap_append, List.filterMap_congr hkept]
    simp [added]

-- What has been added stays.
theorem entries_add {this : Manager γ} {tag : String} {component : γ}
    (h : this.entries tag = some component) (name : String) (other : γ) :
    (this.add name other).2.entries tag = some component := by
  obtain rfl := this.tagged tag component h
  obtain ⟨-, -, hsame⟩ | ⟨-, -, -, hadded⟩ := add_cases name this other
  · rw [hsame]
    exact h
  · exact mem_added.mp (hadded ▸ List.mem_append_left _ (mem_added.mpr h))

end Manager

namespace OutboundManager

variable {ω : Type} [OutboundComponent ω]

theorem mem_of_dependsOn {this : OutboundManager ω} {tag dependency : String}
    (h : this.DependsOn tag dependency) : tag ∈ this.insertionOrder := by
  obtain ⟨outbound, hentry, _⟩ := h
  exact (this.consistent tag).mpr (Option.isSome_of_eq_some hentry)

-- Every dependency is there, and none leads back to where it comes from.
structure Resolvable (this : OutboundManager ω) : Prop where
  known : ∀ tag dependency, this.DependsOn tag dependency → (this.entries dependency).isSome
  acyclic : Acyclic this.DependsOn

-- What `ordered` has done so far.
structure Resolved (this : OutboundManager ω) (resolving : Resolving ω) : Prop where
  parted : (resolving.resolved ++ resolving.remaining).Perm this.insertionOrder
  result : resolving.result = resolving.resolved.filterMap this.entries
  first : First this.DependsOn resolving.resolved

theorem Resolved.visit {this : OutboundManager ω} {resolving : Resolving ω} {progressed : Bool}
    {tag : String} {next : Resolving ω × Bool} (h : this.Resolved resolving)
    (hv : this.visit (resolving, progressed) tag = .ok next) : this.Resolved next.1 := by
  cases visited_of_visit hv with
  | passed _ => exact h
  | waiting _ _ _ => exact h
  | taken outbound hremaining hentry hready =>
      refine ⟨?_, ?_, h.first.snoc hready⟩
      · rw [List.append_assoc, List.singleton_append]
        exact ((List.perm_cons_erase hremaining).symm.append_left _).trans h.parted
      · simp [h.result, hentry]

theorem Resolved.pass {this : OutboundManager ω} {resolving next : Resolving ω} {progressed : Bool}
    (h : this.Resolved resolving)
    (hp : this.insertionOrder.foldlM this.visit (resolving, false) = .ok (next, progressed)) :
    this.Resolved next := by
  have hrule := Result.foldlM_rule (fun state : Resolving ω × Bool => this.Resolved state.1)
    (fun state tag next _ hi hv => Resolved.visit hi hv) h hp
  exact hrule

-- A pass without progress has found every tag waiting.
theorem waiting_of_pass {this : OutboundManager ω} {resolving next : Resolving ω}
    {progressed : Bool} {tags : List String}
    (h : tags.foldlM this.visit (resolving, progressed) = .ok (next, false)) :
    next = resolving ∧ progressed = false ∧ ∀ tag ∈ tags, tag ∈ resolving.remaining →
      ∃ dependency, this.DependsOn tag dependency ∧ dependency ∉ resolving.resolved := by
  induction tags generalizing resolving progressed with
  | nil =>
      obtain ⟨rfl, rfl⟩ := Prod.mk.inj (Except.ok.inj h)
      exact ⟨rfl, rfl, fun tag htag => absurd htag List.not_mem_nil⟩
  | cons tag tags ih =>
      rw [List.foldlM_cons] at h
      obtain ⟨mid, hmid, h⟩ := Result.bind_eq_ok.mp h
      cases visited_of_visit hmid with
      | passed hremaining =>
          obtain ⟨hnext, hprogressed, htags⟩ := ih h
          exact ⟨hnext, hprogressed, List.forall_mem_cons.mpr
            ⟨fun htag => absurd htag hremaining, htags⟩⟩
      | waiting dependency hdepends hresolved =>
          obtain ⟨hnext, hprogressed, htags⟩ := ih h
          exact ⟨hnext, hprogressed, List.forall_mem_cons.mpr
            ⟨fun _ => ⟨dependency, hdepends, hresolved⟩, htags⟩⟩
      | taken _ _ _ _ => exact nomatch (ih h).2.1

-- A visit fails for want of a dependency only.
theorem visit_ok {this : OutboundManager ω} (h : this.Resolvable) (state : Resolving ω × Bool)
    {tag : String} (htag : tag ∈ this.insertionOrder) : ∃ next, this.visit state tag = .ok next := by
  obtain ⟨outbound, hentry⟩ := Option.isSome_iff_exists.mp ((this.consistent tag).mp htag)
  simp only [visit, hentry]
  split
  · exact ⟨_, rfl⟩
  · have hknown : ((OutboundComponent.dependencies outbound).forM fun dependency =>
        Result.ensure (this.entries dependency).isSome
          s!"dependency [{dependency}] not found for outbound [{tag}]") = .ok () :=
      Result.forM_eq_ok.mpr fun dependency hdependency =>
        Result.ensure_eq_ok.mpr (h.known tag dependency ⟨outbound, hentry, hdependency⟩)
    by_cases hready : (OutboundComponent.dependencies outbound).all fun dependency =>
        dependency ∈ state.1.resolved
    · exact ⟨_, Result.bind_eq_ok.mpr ⟨outbound, rfl, Result.bind_eq_ok.mpr
        ⟨(), hknown, if_pos hready⟩⟩⟩
    · exact ⟨_, Result.bind_eq_ok.mpr ⟨outbound, rfl, Result.bind_eq_ok.mpr
        ⟨(), hknown, if_neg hready⟩⟩⟩

theorem pass_ok {this : OutboundManager ω} (h : this.Resolvable) (state : Resolving ω × Bool)
    {tags : List String} (htags : ∀ tag ∈ tags, tag ∈ this.insertionOrder) :
    ∃ next, tags.foldlM this.visit state = .ok next := by
  induction tags generalizing state with
  | nil => exact ⟨state, rfl⟩
  | cons tag tags ih =>
      obtain ⟨htag, htags⟩ := List.forall_mem_cons.mp htags
      obtain ⟨mid, hmid⟩ := visit_ok h state htag
      obtain ⟨next, hnext⟩ := ih mid htags
      exact ⟨next, by rw [List.foldlM_cons, hmid]; exact hnext⟩

-- A pass gets on as long as there is something to take.
theorem pass_progresses {this : OutboundManager ω} (h : this.Resolvable) {resolving next : Resolving ω}
    (hr : this.Resolved resolving) (hne : resolving.remaining ≠ []) :
    this.insertionOrder.foldlM this.visit (resolving, false) ≠ .ok (next, false) := by
  intro hpass
  obtain ⟨-, -, hwaiting⟩ := waiting_of_pass hpass
  obtain ⟨tag, htag, hready⟩ := h.acyclic.exists_ready hne
  have hmem : tag ∈ this.insertionOrder := hr.parted.subset (List.mem_append_right _ htag)
  obtain ⟨dependency, hdepends, hresolved⟩ := hwaiting tag hmem htag
  have hknown := (this.consistent dependency).mpr (h.known tag dependency hdepends)
  obtain hdone | hleft := List.mem_append.mp (hr.parted.symm.subset hknown)
  · exact hresolved hdone
  · exact hready dependency hleft hdepends

theorem Resolved.again {this : OutboundManager ω} {resolving next : Resolving ω}
    (h : this.Resolved resolving) (hp : this.resolvePass resolving = .again next) :
    this.Resolved next := by
  unfold resolvePass at hp
  split at hp
  · cases hp
  split at hp
  · cases hp
  · rename_i hpass
    exact Pass.again.inj hp ▸ h.pass hpass
  · cases hp

theorem resolved_start (this : OutboundManager ω) :
    this.Resolved { remaining := this.insertionOrder, resolved := [], result := [] } :=
  ⟨.refl _, rfl, .nil⟩

-- What `ordered` returns comes in an order that can be started in.
theorem ordered_spec {this : OutboundManager ω} {order : List ω} (h : this.ordered = .ok order) :
    this.Resolvable ∧ order.Perm this.added ∧ First this.DependsOn (order.map Component.tag) := by
  have hrule := Loop.run_rule this.Resolved
    (fun result => ∀ order, result = .ok order → ∃ tags : List String, tags.Perm this.insertionOrder ∧
      order = tags.filterMap this.entries ∧ First this.DependsOn tags)
    this.resolvePass_decreases
    (fun _ _ hi hpass => hi.again hpass)
    (by
      intro resolving result hi hpass order horder
      unfold resolvePass at hpass
      split at hpass
      · rename_i hremaining
        obtain rfl := Pass.done.inj hpass
        obtain rfl := Except.ok.inj horder
        have hparted := hi.parted
        rw [hremaining, List.append_nil] at hparted
        exact ⟨resolving.resolved, hparted, hi.result, hi.first⟩
      split at hpass
      · exact nomatch (Pass.done.inj hpass).trans horder
      · cases hpass
      · exact nomatch (Pass.done.inj hpass).trans horder)
    _ this.resolved_start
  obtain ⟨tags, hperm, rfl, hfirst⟩ := hrule order h
  have htags : (tags.filterMap this.entries).map Component.tag = tags :=
    Manager.filterMap_tag (fun tag htag => (this.consistent tag).mp (hperm.subset htag)) this.tagged
  rw [htags]
  refine ⟨⟨fun tag dependency hdepends => ?_, ?_⟩, hperm.filterMap _, hfirst⟩
  · obtain ⟨front, back, heq, -⟩ :=
      List.eq_append_cons_of_mem (hperm.symm.subset (mem_of_dependsOn hdepends))
    have hmem : dependency ∈ tags := by
      rw [heq]
      exact List.mem_append_left _ (hfirst front tag back heq dependency hdepends)
    exact (this.consistent dependency).mp (hperm.subset hmem)
  · exact hfirst.acyclic fun tag _ hdepends => hperm.symm.subset (mem_of_dependsOn hdepends)

theorem ordered_ok {this : OutboundManager ω} (h : this.Resolvable) :
    ∃ order, this.ordered = .ok order := by
  exact Loop.run_rule this.Resolved (fun result => ∃ order, result = .ok order)
    this.resolvePass_decreases
    (fun _ _ hi hpass => hi.again hpass)
    (by
      intro resolving result hi hpass
      unfold resolvePass at hpass
      split at hpass
      · exact ⟨_, (Pass.done.inj hpass).symm⟩
      · rename_i hremaining
        obtain ⟨next, hnext⟩ := pass_ok h (resolving, false) (fun tag htag => htag)
        rw [hnext] at hpass
        split at hpass
        · rename_i heq
          cases heq
        · cases hpass
        · rename_i heq
          exact absurd (hnext.trans heq) (pass_progresses h hi hremaining))
    _ this.resolved_start

-- The manager after `add` has been called on outbounds one after another.
def addAll (this : OutboundManager ω) (outbounds : List ω) : OutboundManager ω :=
  outbounds.foldl (fun manager outbound => (manager.add outbound).2) this

-- Whether `add` refuses an outbound, given those that it has taken.
def Refuses (taken : List ω) (outbound : ω) : Prop :=
  Component.tag outbound = "" ∨ ∃ other ∈ taken, Component.tag other = Component.tag outbound

instance (taken : List ω) (outbound : ω) : Decidable (Refuses taken outbound) :=
  inferInstanceAs (Decidable (_ ∨ _))

def take (taken : List ω) (outbound : ω) : List ω :=
  if Refuses taken outbound then taken else taken ++ [outbound]

theorem added_add (this : OutboundManager ω) (outbound : ω) :
    (this.add outbound).2.added = take this.added outbound := by
  obtain ⟨hrefused, -, hsame⟩ | ⟨hempty, hfresh, -, hadded⟩ :=
    Manager.add_cases "outbound" this outbound
  · have hrefuses : Refuses this.added outbound := hrefused
    rw [take, if_pos hrefuses, add, hsame]
  · have htaken : ¬Refuses this.added outbound := by
      rintro (h | ⟨other, hother, heq⟩)
      · exact hempty h
      · exact hfresh other hother heq
    rw [take, if_neg htaken, add, hadded]

theorem added_addAll (this : OutboundManager ω) (outbounds : List ω) :
    (this.addAll outbounds).added = outbounds.foldl take this.added := by
  induction outbounds generalizing this with
  | nil => rfl
  | cons outbound outbounds ih =>
      rw [addAll, List.foldl_cons, List.foldl_cons, ← added_add]
      exact ih _

theorem dependsOn_iff {this : OutboundManager ω} {outbound : ω} (h : outbound ∈ this.added)
    {dependency : String} : this.DependsOn (Component.tag outbound) dependency ↔
      dependency ∈ OutboundComponent.dependencies outbound := by
  have hentry := Manager.mem_added.mp h
  constructor
  · rintro ⟨found, hfound, hdependency⟩
    exact Option.some.inj (hentry.symm.trans hfound) ▸ hdependency
  · exact fun hdependency => ⟨outbound, hentry, hdependency⟩

-- Each outbound comes after all its dependencies.
def DependenciesFirst (order : List ω) : Prop :=
  ∀ front outbound back, order = front ++ outbound :: back →
    ∀ dependency ∈ OutboundComponent.dependencies outbound,
      ∃ other ∈ front, Component.tag other = dependency

-- Each outbound comes before all its dependencies.
def DependentsFirst (order : List ω) : Prop :=
  ∀ front outbound back, order = front ++ outbound :: back →
    ∀ dependency ∈ OutboundComponent.dependencies outbound,
      ∃ other ∈ back, Component.tag other = dependency

theorem dependenciesFirst_of_ordered {this : OutboundManager ω} {order : List ω}
    (h : this.ordered = .ok order) : DependenciesFirst order := by
  obtain ⟨-, hperm, hfirst⟩ := ordered_spec h
  intro front outbound back heq dependency hdependency
  have hadded : outbound ∈ this.added :=
    hperm.subset (heq ▸ List.mem_append_right front List.mem_cons_self)
  have hmem := hfirst (front.map Component.tag) (Component.tag outbound)
    (back.map Component.tag) (by rw [heq, List.map_append, List.map_cons]) dependency
    ((dependsOn_iff hadded).mpr hdependency)
  obtain ⟨other, hother, htag⟩ := List.mem_map.mp hmem
  exact ⟨other, hother, htag⟩

theorem DependenciesFirst.reverse {order : List ω} (h : DependenciesFirst order) :
    DependentsFirst order.reverse := by
  intro front outbound back heq dependency hdependency
  have horder : order = back.reverse ++ outbound :: front.reverse := by
    rw [← List.reverse_reverse order, heq]
    simp
  obtain ⟨other, hother, htag⟩ := h _ _ _ horder dependency hdependency
  exact ⟨other, List.mem_reverse.mp hother, htag⟩

def withOutbounds (outbounds : List ω) : OutboundManager ω := addAll Manager.new outbounds

-- Whatever has been added, an empty tag and a tag that is taken change nothing, and the rest
-- is put in order, dependencies first, if and only if that can be done.
theorem ordered_of_adds (outbounds : List ω) :
    (withOutbounds outbounds).added = outbounds.foldl take [] ∧
    (∀ outbound, Refuses (withOutbounds outbounds).added outbound →
      (∃ message, ((withOutbounds outbounds).add outbound).1 = Result.bail message) ∧
        ((withOutbounds outbounds).add outbound).2 = withOutbounds outbounds) ∧
    ((∃ order, (withOutbounds outbounds).ordered = .ok order) ↔
      (∀ outbound ∈ (withOutbounds outbounds).added,
        ∀ dependency ∈ OutboundComponent.dependencies outbound,
          ∃ other ∈ (withOutbounds outbounds).added, Component.tag other = dependency) ∧
      Acyclic (withOutbounds outbounds).DependsOn) ∧
    ∀ order, (withOutbounds outbounds).ordered = .ok order →
      order.Perm (withOutbounds outbounds).added ∧ DependenciesFirst order := by
  generalize hmanager : withOutbounds outbounds = manager
  rw [withOutbounds] at hmanager
  refine ⟨hmanager ▸ added_addAll _ outbounds, ?_, ⟨?_, ?_⟩, ?_⟩
  · intro outbound hrefused
    obtain ⟨-, hmessage, hsame⟩ | ⟨hempty, hfresh, -, -⟩ :=
      Manager.add_cases "outbound" manager outbound
    · exact ⟨hmessage, hsame⟩
    · obtain h | ⟨other, hother, heq⟩ := hrefused
      · exact absurd h hempty
      · exact absurd heq (hfresh other hother)
  · rintro ⟨order, horder⟩
    obtain ⟨hresolvable, -, -⟩ := ordered_spec horder
    refine ⟨fun outbound hadded dependency hdependency => ?_, hresolvable.acyclic⟩
    exact Manager.entries_isSome.mp
      (hresolvable.known _ dependency ((dependsOn_iff hadded).mpr hdependency))
  · rintro ⟨hknown, hacyclic⟩
    refine ordered_ok ⟨?_, hacyclic⟩
    rintro tag dependency ⟨outbound, hentry, hdependency⟩
    obtain rfl := manager.tagged tag outbound hentry
    exact Manager.entries_isSome.mpr
      (hknown outbound (Manager.mem_added.mpr hentry) dependency hdependency)
  · intro order horder
    exact ⟨(ordered_spec horder).2.1, dependenciesFirst_of_ordered horder⟩

end OutboundManager

end SingBox.Core
