import SingBox.Core.Engine.Build

namespace SingBox.Core

open Library

-- An outbound that connects to its server by itself or by way of another outbound, its detour.
-- With `reuse` it connects under a lock of its own.
class DetourOutbound (ω : Type) extends OutboundComponent ω where
  server : ω → Address
  detour : ω → Option String
  reuse : ω → Bool
  dependencies_eq : ∀ outbound, dependencies outbound = (detour outbound).toList

namespace OutboundManager

variable {ω : Type} [DetourOutbound ω]

-- The outbounds that a connection asks one after another, each with what it is asked to connect
-- to. `OutboundManagerDialer` looks each detour up when it is there.
def hops (this : OutboundManager ω) : Nat → ω → Address → Option (Result (List (ω × Address)))
  | 0, _, _ => none
  | fuel + 1, outbound, destination =>
      match DetourOutbound.detour outbound with
      | none => some (.ok [(outbound, destination)])
      | some tag =>
          match this.entries tag with
          | none => some (Result.bail s!"detour outbound not found: {tag}")
          | some next =>
              (this.hops fuel next (DetourOutbound.server outbound)).map fun rest =>
                rest.map ((outbound, destination) :: ·)

-- The second is the detour of the first, and is asked for the first one's server.
def Detours (first second : ω × Address) : Prop :=
  DetourOutbound.detour first.1 = some (Component.tag second.1) ∧
    second.2 = DetourOutbound.server first.1

-- A chain of detours that starts with `outbound` and ends with one that has none.
structure Arrives (outbound : ω) (destination : Address) (hops : List (ω × Address)) : Prop where
  first : hops.head? = some (outbound, destination)
  chain : hops.IsChain Detours
  last : ∀ hop, hops.getLast? = some hop → DetourOutbound.detour hop.1 = none

-- The chain goes backwards through the order that the outbounds are started in.
theorem hops_ok {this : OutboundManager ω} {order : List ω} (horder : this.ordered = .ok order)
    (fuel : Nat) {front back : List ω} {outbound : ω} (destination : Address)
    (heq : order = front ++ outbound :: back) (hfuel : front.length < fuel) :
    ∃ hops, this.hops fuel outbound destination = some (.ok hops) ∧
      Arrives outbound destination hops ∧
      (hops.map Prod.fst).reverse.Sublist (front ++ [outbound]) := by
  obtain ⟨-, hperm, -⟩ := ordered_spec horder
  induction fuel generalizing front outbound back destination with
  | zero => cases hfuel
  | succ fuel ih =>
      rw [hops]
      cases hdetour : DetourOutbound.detour outbound with
      | none =>
          refine ⟨[(outbound, destination)], rfl, ⟨rfl, .singleton _, ?_⟩, by simp⟩
          intro hop hhop
          obtain rfl := Option.some.inj hhop
          exact hdetour
      | some tag =>
          obtain ⟨next, hnext, rfl⟩ := dependenciesFirst_of_ordered horder front outbound back heq tag
            (by rw [DetourOutbound.dependencies_eq, hdetour]; simp)
          obtain ⟨before, between, rfl, -⟩ := List.eq_append_cons_of_mem hnext
          have hadded : next ∈ this.added := hperm.subset (by rw [heq]; simp)
          have hplace : order = before ++ next :: (between ++ outbound :: back) := by
            rw [heq]
            simp
          obtain ⟨rest, hrest, harrives, hplaces⟩ := ih (DetourOutbound.server outbound) hplace
            (by simp at hfuel; omega)
          refine ⟨(outbound, destination) :: rest, ?_, ⟨rfl, ?_, ?_⟩, ?_⟩
          · simp only [Manager.mem_added.mp hadded, hrest]
            rfl
          · cases rest with
            | nil => cases harrives.first
            | cons hop rest =>
                obtain rfl := Option.some.inj harrives.first
                exact .cons_cons ⟨hdetour, rfl⟩ harrives.chain
          · intro hop hhop
            refine harrives.last hop ?_
            cases rest with
            | nil => cases harrives.first
            | cons hop rest => exact hhop
          · rw [List.map_cons, List.reverse_cons]
            refine hplaces.append_right [outbound] |>.trans ?_
            simp

theorem hops_of_added {this : OutboundManager ω} {order : List ω}
    (horder : this.ordered = .ok order) {outbound : ω} (hadded : outbound ∈ this.added)
    (destination : Address) :
    ∃ hops, this.hops this.added.length outbound destination = some (.ok hops) ∧
      Arrives outbound destination hops ∧ (hops.map Prod.fst).reverse.Sublist order := by
  obtain ⟨-, hperm, -⟩ := ordered_spec horder
  obtain ⟨front, back, heq⟩ := List.append_of_mem (hperm.symm.subset hadded)
  have hlength := hperm.length_eq
  rw [heq, List.length_append, List.length_cons] at hlength
  obtain ⟨hops, hhops, harrives, hsub⟩ := hops_ok horder this.added.length destination heq (by omega)
  exact ⟨hops, hhops, harrives, hsub.trans (by simp [heq])⟩

theorem nodup_order {this : OutboundManager ω} {order : List ω}
    (horder : this.ordered = .ok order) : (order.map Component.tag).Nodup := by
  obtain ⟨-, hperm, -⟩ := ordered_spec horder
  rw [(hperm.map Component.tag).nodup_iff, Manager.map_tag_added]
  exact this.nodup

-- In an engine every chain of detours is found whole, takes no outbound twice and ends with one
-- that connects by itself.
theorem detours_arrive {π ι : Type} [Component π] [Component ι] (built : Built π ω ι) {outbound : ω}
    (hadded : outbound ∈ built.outbounds.added) (destination : Address) :
    ∃ hops,
      built.outbounds.hops built.outbounds.added.length outbound destination = some (.ok hops) ∧
        Arrives outbound destination hops ∧
        (hops.map fun hop => Component.tag hop.1).Nodup ∧
        ∀ hop ∈ hops, hop.1 ∈ built.outbounds.added := by
  obtain ⟨order, horder⟩ := ordered_ok built.resolvable
  obtain ⟨hops, hhops, harrives, hsub⟩ := hops_of_added horder hadded destination
  refine ⟨hops, hhops, harrives, ?_, fun hop hhop => ?_⟩
  · have hnodup := (nodup_order horder).sublist (hsub.map Component.tag)
    rw [List.map_reverse, List.nodup_reverse, List.map_map] at hnodup
    exact hnodup
  · have hmem := hsub.subset (List.mem_reverse.mpr (List.mem_map_of_mem hhop))
    exact (ordered_spec horder).2.1.subset hmem

end OutboundManager

end SingBox.Core

namespace SingBox.Snell

open Library SingBox.Core

structure SnellOutbound where
  tag : String
  server : Address
  detour : String := ""
  reuse : Bool := false
deriving DecidableEq

-- What `register` makes of the detour.
def SnellOutbound.dependencies (this : SnellOutbound) : List String :=
  if this.detour = "" then [] else [this.detour]

instance : DetourOutbound SnellOutbound where
  kind _ := "snell"
  tag := SnellOutbound.tag
  start _ _ := .ok ()
  close _ := .ok ()
  dependencies := SnellOutbound.dependencies
  server := SnellOutbound.server
  reuse := SnellOutbound.reuse
  detour this := if this.detour = "" then none else some this.detour
  dependencies_eq this := by
    rw [SnellOutbound.dependencies]
    split <;> rfl

-- A call of `connect` and the calls that it makes by way of the detours. `entered` are the
-- outbounds of the calls that are open, the innermost first, each with whether it holds its
-- lock, and `ahead` those of the calls that may follow.
structure Call (ω : Type) where
  entered : List (ω × Bool)
  ahead : List (ω × Bool)
  returning : Bool

section

variable {ω : Type} [DetourOutbound ω]

namespace Call

-- `connect_packet` of the first outbound takes no lock. The others are asked to `connect`.
def start (packet : Bool) : List ω → Call ω
  | [] => { entered := [], ahead := [], returning := false }
  | first :: rest =>
      { entered := []
        ahead := (first, !packet && DetourOutbound.reuse first) ::
          rest.map fun outbound => (outbound, DetourOutbound.reuse outbound)
        returning := false }

def Holds (this : Call ω) (tag : String) : Prop :=
  ∃ open_ ∈ this.entered, open_.2 = true ∧ Component.tag open_.1 = tag

instance (this : Call ω) (tag : String) : Decidable (this.Holds tag) :=
  inferInstanceAs (Decidable (∃ open_ ∈ this.entered, _))

-- `connect` has returned.
def Finished (this : Call ω) : Prop := this.entered = [] ∧ this.returning = true

-- The steps that a call has ahead of it at most.
def rest (this : Call ω) : Nat :=
  2 * this.ahead.length + this.entered.length + if this.returning then 0 else 1

end Call

-- What a call does next. With `idle` the outbound has a session that is used again; without,
-- the call goes on to the detour. `dialed` is the end of the chain: the system dialer has
-- connected, or has failed. `leave` is the return of the innermost call.
inductive Move where
  | enter (idle : Bool)
  | dialed
  | leave

-- `free` says of a lock that no call holds it.
def Call.advance (free : String → Bool) (this : Call ω) : Move → Option (Call ω)
  | .enter idle =>
      match this.returning, this.ahead with
      | false, next :: ahead =>
          if next.2 && !free (Component.tag next.1) then none
          else some { entered := next :: this.entered, ahead, returning := next.2 && idle }
      | _, _ => none
  | .dialed =>
      match this.returning, this.ahead with
      | false, [] => some { this with returning := true }
      | _, _ => none
  | .leave =>
      match this.returning, this.entered with
      | true, _ :: entered => some { this with entered }
      | _, _ => none

-- The calls that are under way.
abbrev Calls (ω : Type) := List (Call ω)

namespace Calls

inductive Action (ω : Type) where
  | begin (packet : Bool) (hops : List ω)
  | go (index : Nat) (move : Move)

def free (this : Calls ω) (tag : String) : Bool := this.all fun call => !decide (call.Holds tag)

def step (this : Calls ω) : Action ω → Option (Calls ω)
  | .begin packet hops => some (this ++ [.start packet hops])
  | .go index move => do
      let call ← this[index]?
      let next ← call.advance this.free move
      some (this.set index next)

-- A new connection goes by a chain of detours of the manager, or closes an outbound.
def Begins (outbounds : OutboundManager ω) : Action ω → Prop
  | .begin _ hops =>
      (∃ outbound ∈ outbounds.added, ∃ destination chain,
        outbounds.hops outbounds.added.length outbound destination = some (.ok chain) ∧
          hops = chain.map Prod.fst) ∨
      ∃ outbound ∈ outbounds.added, hops = [outbound]
  | .go _ _ => True

end Calls

-- The outbounds of a call, in the order that they are started in: those ahead of it come before
-- those that it has entered.
def Call.Ordered (order : List ω) (this : Call ω) : Prop :=
  ((this.ahead.map fun ahead => Component.tag ahead.1).reverse ++
    this.entered.map fun entered => Component.tag entered.1).Sublist (order.map Component.tag)

theorem Call.ordered_start {order hops : List ω} (h : hops.reverse.Sublist order) (packet : Bool) :
    (Call.start packet hops).Ordered order := by
  have htags := h.map Component.tag
  cases hops with
  | nil => exact List.nil_sublist _
  | cons first rest =>
      rw [List.map_reverse, List.map_cons] at htags
      simpa [Call.Ordered, Call.start, List.map_map, Function.comp_def] using htags

-- What a move does to a call.
theorem Call.advance_cases {free : String → Bool} {this next : Call ω} {move : Move}
    (h : this.advance free move = some next) :
    (∃ opened ahead, this.returning = false ∧ this.ahead = opened :: ahead ∧
        (opened.2 = true → free (Component.tag opened.1) = true) ∧
        ∃ returning, next = { entered := opened :: this.entered, ahead, returning }) ∨
      (this.returning = false ∧ this.ahead = [] ∧ next = { this with returning := true }) ∨
      ∃ closed entered, this.returning = true ∧ this.entered = closed :: entered ∧
        next = { this with entered } := by
  obtain ⟨entered, ahead, returning⟩ := this
  cases move with
  | enter idle =>
      match returning, ahead, h with
      | false, opened :: ahead, h =>
          simp only [advance] at h
          split at h
          · cases h
          · rename_i hfree
            refine .inl ⟨opened, ahead, rfl, rfl, fun hlock => ?_, _, (Option.some.inj h).symm⟩
            simpa [hlock] using hfree
  | dialed =>
      match returning, ahead, h with
      | false, [], h => exact .inr (.inl ⟨rfl, rfl, (Option.some.inj h).symm⟩)
  | leave =>
      match returning, entered, h with
      | true, closed :: entered, h =>
          exact .inr (.inr ⟨closed, entered, rfl, rfl, (Option.some.inj h).symm⟩)

theorem Call.Ordered.advance {order : List ω} {free : String → Bool} {this next : Call ω}
    {move : Move} (h : this.Ordered order) (ha : this.advance free move = some next) :
    next.Ordered order := by
  obtain ⟨opened, ahead, -, heq, -, returning, rfl⟩ | ⟨-, -, rfl⟩ | ⟨closed, entered, -, heq, rfl⟩ :=
    advance_cases ha
  · rw [Ordered, heq] at h
    simpa [Ordered] using h
  · exact h
  · rw [Ordered, heq] at h
    refine List.Sublist.trans ?_ h
    exact (List.Sublist.refl _).append (List.sublist_cons_self _ _)

-- A lock that is taken was free.
theorem Call.holds_advance {free : String → Bool} {this next : Call ω} {move : Move}
    (ha : this.advance free move = some next) {tag : String} (h : next.Holds tag) :
    this.Holds tag ∨ free tag = true := by
  obtain ⟨other, hother, hlock, rfl⟩ := h
  obtain ⟨opened, ahead, -, -, hfree, returning, rfl⟩ | ⟨-, -, rfl⟩ | ⟨closed, entered, -, heq, rfl⟩ :=
    advance_cases ha
  · obtain rfl | hmem := List.mem_cons.mp hother
    · exact .inr (hfree hlock)
    · exact .inl ⟨other, hmem, hlock, rfl⟩
  · exact .inl ⟨other, hother, hlock, rfl⟩
  · exact .inl ⟨other, heq ▸ List.mem_cons_of_mem _ hother, hlock, rfl⟩

theorem Call.rest_advance {free : String → Bool} {this next : Call ω} {move : Move}
    (ha : this.advance free move = some next) : next.rest < this.rest := by
  obtain ⟨opened, ahead, hr, heq, -, returning, rfl⟩ | ⟨hr, -, rfl⟩ | ⟨closed, entered, hr, heq, rfl⟩ :=
    advance_cases ha
  · simp only [rest, heq, hr, List.length_cons]
    cases returning <;> simp <;> omega
  · simp [rest, hr]
  · simp [rest, heq, hr]

namespace Calls

theorem step_go {this next : Calls ω} {index : Nat} {move : Move}
    (h : this.step (.go index move) = some next) :
    ∃ call later, this[index]? = some call ∧ call.advance this.free move = some later ∧
      next = this.set index later := by
  obtain ⟨call, hcall, h⟩ := Option.bind_eq_some_iff.mp h
  obtain ⟨later, hlater, h⟩ := Option.bind_eq_some_iff.mp h
  exact ⟨call, later, hcall, hlater, (Option.some.inj h).symm⟩

theorem free_eq_true {this : Calls ω} {tag : String} :
    this.free tag = true ↔ ∀ call ∈ this, ¬call.Holds tag := by
  simp [free]

-- Every call is in order, and a lock is held by one call at most.
structure Sound (order : List ω) (this : Calls ω) : Prop where
  ordered : ∀ call ∈ this, call.Ordered order
  exclusive : ∀ (first second : Nat) (call other : Call ω) (tag : String),
    this[first]? = some call → this[second]? = some other → call.Holds tag → other.Holds tag →
      first = second

theorem Sound.step {outbounds : OutboundManager ω} {order : List ω}
    (horder : outbounds.ordered = .ok order) {this next : Calls ω} {action : Action ω}
    (h : Sound order this) (hbegins : Begins outbounds action) (hs : this.step action = some next) :
    Sound order next := by
  cases action with
  | begin packet hops =>
      obtain rfl := Option.some.inj hs
      have hsub : hops.reverse.Sublist order := by
        obtain ⟨outbound, hadded, destination, chain, hchain, rfl⟩ | ⟨outbound, hadded, rfl⟩ := hbegins
        · obtain ⟨found, hfound, -, hsub⟩ :=
            OutboundManager.hops_of_added horder hadded destination
          obtain rfl := Except.ok.inj (Option.some.inj (hfound.symm.trans hchain))
          exact hsub
        · have hmem := (OutboundManager.ordered_spec horder).2.1.symm.subset hadded
          exact List.singleton_sublist.mpr hmem
      have hnone : ∀ tag, ¬(Call.start packet hops).Holds tag := by
        rintro tag ⟨opened, hopened, -⟩
        cases hops <;> cases hopened
      refine ⟨?_, ?_⟩
      · exact List.forall_mem_append.mpr
          ⟨h.ordered, List.forall_mem_singleton.mpr (Call.ordered_start hsub packet)⟩
      · intro first second call other tag hfirst hsecond hcall hother
        have hold : ∀ (index : Nat) (call : Call ω),
            (this ++ [Call.start packet hops])[index]? = some call → call.Holds tag →
              this[index]? = some call := by
          intro index call hindex hholds
          obtain hlt | hge := Nat.lt_or_ge index this.length
          · rwa [List.getElem?_append_left hlt] at hindex
          · rw [List.getElem?_append_right hge] at hindex
            obtain rfl := List.mem_singleton.mp (List.mem_of_getElem? hindex)
            exact absurd hholds (hnone tag)
        exact h.exclusive first second call other tag (hold first call hfirst hcall)
          (hold second other hsecond hother) hcall hother
  | go index move =>
      obtain ⟨call, later, hcall, hlater, rfl⟩ := step_go hs
      refine ⟨fun other hother => ?_, ?_⟩
      · obtain hother | rfl := List.mem_or_eq_of_mem_set hother
        · exact h.ordered other hother
        · exact (h.ordered call (List.mem_of_getElem? hcall)).advance hlater
      -- the call that has gone on holds what it held and what was free
      have hgone : ∀ (second : Nat) (other : Call ω) (tag : String), second ≠ index →
          this[second]? = some other → later.Holds tag → ¬other.Holds tag := by
        intro second other tag hne hsecond hlock hother
        obtain hheld | hfree := Call.holds_advance hlater hlock
        · exact hne (h.exclusive second index other call tag hsecond hcall hother hheld)
        · exact free_eq_true.mp hfree other (List.mem_of_getElem? hsecond) hother
      intro first second one other tag hfirst hsecond hone hother
      by_cases hi : first = index
      · by_cases hj : second = index
        · exact hi.trans hj.symm
        · subst hi
          rw [List.getElem?_set_self (List.getElem?_eq_some_iff.mp hcall).1] at hfirst
          rw [List.getElem?_set_ne (Ne.symm hj)] at hsecond
          obtain rfl := Option.some.inj hfirst
          exact absurd hother (hgone second other tag hj hsecond hone)
      · rw [List.getElem?_set_ne (Ne.symm hi)] at hfirst
        by_cases hj : second = index
        · subst hj
          rw [List.getElem?_set_self (List.getElem?_eq_some_iff.mp hcall).1] at hsecond
          obtain rfl := Option.some.inj hsecond
          exact absurd hone (hgone first one tag hi hfirst hother)
        · rw [List.getElem?_set_ne (Ne.symm hj)] at hsecond
          exact h.exclusive first second one other tag hfirst hsecond hone hother

theorem step_of_advance {this : Calls ω} {call next : Call ω} (move : Move) (hcall : call ∈ this)
    (ha : call.advance this.free move = some next) :
    ∃ index move later, this.step (.go index move) = some later := by
  obtain ⟨index, hindex⟩ := List.getElem?_of_mem hcall
  refine ⟨index, move, this.set index next, ?_⟩
  rw [step, hindex]
  simp [ha]

-- A call that has not finished goes on, or waits for a lock that is held.
theorem goes_or_waits {this : Calls ω} {call : Call ω} (hcall : call ∈ this)
    (hunfinished : ¬call.Finished) :
    (∃ index move later, this.step (.go index move) = some later) ∨
      ∃ next ∈ call.ahead, ∃ other ∈ this, other.Holds (Component.tag next.1) ∧ ¬other.Finished := by
  obtain ⟨entered, ahead, returning⟩ := call
  match returning, entered, ahead with
  | true, [], _ => exact absurd ⟨rfl, rfl⟩ hunfinished
  | true, _ :: _, _ => exact .inl (step_of_advance .leave hcall rfl)
  | false, _, [] => exact .inl (step_of_advance .dialed hcall rfl)
  | false, entered, next :: ahead =>
      by_cases hfree : next.2 = true ∧ this.free (Component.tag next.1) = false
      · have hheld : ¬∀ other ∈ this, ¬other.Holds (Component.tag next.1) := by
          rw [← free_eq_true, hfree.2]
          exact Bool.false_ne_true
        push Not at hheld
        obtain ⟨other, hother, hholds⟩ := hheld
        refine .inr ⟨next, List.mem_cons_self, other, hother, hholds, fun hfinished => ?_⟩
        obtain ⟨opened, hopened, -⟩ := hholds
        rw [hfinished.1] at hopened
        cases hopened
      · have hlocked : ¬(next.2 && !this.free (Component.tag next.1)) = true := by simpa using hfree
        exact .inl (step_of_advance (.enter false) hcall (if_neg hlocked))

-- The call that holds the lock, if it waits in its turn, waits for one whose outbound comes
-- earlier in the order.
theorem exists_go {order : List ω} (hnodup : (order.map Component.tag).Nodup) {this : Calls ω}
    (h : Sound order this) {call : Call ω} (hcall : call ∈ this) (hunfinished : ¬call.Finished) :
    ∃ index move later, this.step (.go index move) = some later := by
  suffices hwaits : ∀ (place : Nat) (tag : String) (other : Call ω),
      (order.map Component.tag).idxOf tag < place → other ∈ this → other.Holds tag →
      ¬other.Finished → ∃ index move later, this.step (.go index move) = some later by
    obtain hgoes | ⟨next, -, other, hother, hholds, hopen⟩ := goes_or_waits hcall hunfinished
    · exact hgoes
    · exact hwaits _ _ other (Nat.lt_succ_self _) hother hholds hopen
  intro place
  induction place with
  | zero =>
      intro tag other hlt
      cases hlt
  | succ place ih =>
      rintro tag other hlt hother ⟨opened, hopened, -, htag⟩ hopen
      obtain hgoes | ⟨next, hnext, third, hthird, hholds, hunfinished⟩ := goes_or_waits hother hopen
      · exact hgoes
      have hearlier := Dependencies.idxOf_lt_of_sublist hnodup (h.ordered other hother)
        (List.mem_reverse.mpr (List.mem_map_of_mem hnext)) (List.mem_map_of_mem hopened)
      rw [htag] at hearlier
      exact ih _ third (by omega) hthird hholds hunfinished

-- The steps that the calls have ahead of them at most.
def rest (this : Calls ω) : Nat := this.foldr (fun call rest => call.rest + rest) 0

omit [DetourOutbound ω] in
theorem rest_set {this : Calls ω} {index : Nat} {call later : Call ω}
    (hcall : this[index]? = some call) (hless : later.rest < call.rest) :
    rest (this.set index later) < this.rest := by
  induction this generalizing index with
  | nil => cases hcall
  | cons first others ih =>
      cases index with
      | zero =>
          obtain rfl := Option.some.inj hcall
          simpa [rest] using hless
      | succ index =>
          have hrest := ih hcall
          simpa [rest] using hrest

theorem moves_le {this last : Calls ω} {moves : List (Nat × Move)}
    (hrun : Run.exec step this (moves.map fun move => .go move.1 move.2) = some last) :
    moves.length ≤ this.rest := by
  induction moves generalizing this with
  | nil => exact Nat.zero_le _
  | cons move moves ih =>
      obtain ⟨next, hs, hrest⟩ := Option.bind_eq_some_iff.mp hrun
      obtain ⟨call, later, hcall, hlater, rfl⟩ := step_go hs
      have hless := rest_set hcall (Call.rest_advance hlater)
      have hmore := ih hrest
      rw [List.length_cons]
      omega

-- Whatever connections are begun and however their calls take turns: a lock is held by one of
-- them at most, as long as one has not finished some call can go on, and the calls that are
-- under way go on for a bounded number of steps.
theorem no_deadlock {π ι : Type} [Component π] [Component ι] (built : Built π ω ι)
    {actions : List (Action ω)} {this : Calls ω}
    (hbegins : Run.Meets step (fun _ => Begins built.outbounds) [] actions)
    (hrun : Run.exec step [] actions = some this) :
    (∀ (first second : Nat) (call other : Call ω) (tag : String), this[first]? = some call →
      this[second]? = some other → call.Holds tag → other.Holds tag → first = second) ∧
    ((∃ call ∈ this, ¬call.Finished) →
      ∃ index move next, this.step (.go index move) = some next) ∧
    ∀ (moves : List (Nat × Move)) (last : Calls ω),
      Run.exec step this (moves.map fun move => .go move.1 move.2) = some last →
        moves.length ≤ this.rest := by
  obtain ⟨order, horder⟩ := OutboundManager.ordered_ok built.resolvable
  have hsound := Run.rule (fun _ => Begins built.outbounds) (Sound order)
    (fun _ _ _ hi hc hs => hi.step horder hc hs) [] actions this
    ⟨fun _ h => (by cases h), fun _ _ _ _ _ h => (by cases h)⟩ hbegins hrun
  refine ⟨hsound.exclusive, ?_, fun moves last => moves_le⟩
  rintro ⟨call, hcall, hunfinished⟩
  exact exists_go (OutboundManager.nodup_order horder) hsound hcall hunfinished

end Calls

end

-- An outbound that goes by way of another one, both of which reuse their sessions.
def sampleExit : SnellOutbound :=
  { tag := "exit", server := { host := "192.0.2.1", port := 443 }, reuse := true }

def sampleEntry : SnellOutbound :=
  { tag := "entry", server := { host := "192.0.2.2", port := 443 }, detour := "exit", reuse := true }

instance : Component Empty where
  kind := nofun
  tag := nofun
  start := nofun
  close := nofun

def sampleOutbounds : OutboundManager SnellOutbound :=
  OutboundManager.withOutbounds [sampleEntry, sampleExit]

theorem sample_ordered : sampleOutbounds.ordered = .ok [sampleExit, sampleEntry] := rfl

def sampleBuilt : Built Empty SnellOutbound Empty where
  certificateProviders := CertificateProviderManager.new
  outbounds := sampleOutbounds
  resolvable := (OutboundManager.ordered_spec sample_ordered).1
  inbounds := Manager.new
  router := { finalOutbound := "entry", rules := [], ruleSets := fun _ => none }
  services := []
  ntpOffsetNanos := none

def sampleDestination : Address := { host := "example.com", port := 80 }

theorem detours_arrive_sample : ∃ hops,
    sampleOutbounds.hops 2 sampleEntry sampleDestination = some (.ok hops) ∧
      OutboundManager.Arrives sampleEntry sampleDestination hops ∧
      (hops.map fun hop => Component.tag hop.1).Nodup ∧
      ∀ hop ∈ hops, hop.1 ∈ sampleOutbounds.added :=
  OutboundManager.detours_arrive sampleBuilt (List.mem_cons_self ..) sampleDestination

-- The second connection waits for the lock that the first one holds.
def sampleActions : List (Calls.Action SnellOutbound) :=
  [.begin false [sampleEntry, sampleExit], .go 0 (.enter false),
    .begin false [sampleEntry, sampleExit]]

theorem no_deadlock_sample : ∃ this,
    Run.exec Calls.step [] sampleActions = some this ∧
      ∃ index move next, Calls.step this (.go index move) = some next := by
  have hbegins : Calls.Begins sampleOutbounds (.begin false [sampleEntry, sampleExit]) :=
    .inl ⟨sampleEntry, List.mem_cons_self .., sampleDestination, _, rfl, rfl⟩
  have hmeets : Run.Meets Calls.step (fun _ => Calls.Begins sampleOutbounds) [] sampleActions := by
    refine Run.meets_of_forall _ _ fun action haction _ => ?_
    obtain rfl | rfl | rfl : action = _ ∨ action = _ ∨ action = _ := by
      simpa [sampleActions] using haction
    · exact hbegins
    · trivial
    · exact hbegins
  obtain ⟨this, hrun⟩ : ∃ this, Run.exec Calls.step [] sampleActions = some this := ⟨_, rfl⟩
  refine ⟨this, hrun, (Calls.no_deadlock sampleBuilt hmeets hrun).2.1 ?_⟩
  obtain rfl := Option.some.inj hrun
  exact ⟨_, List.mem_cons_self .., fun hfinished => nomatch hfinished.1⟩

end SingBox.Snell
