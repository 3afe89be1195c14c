import SingBox.Library.Segments

namespace SingBox.Library

open Async (Fails Focus Yields)

-- What can be closed for writing.
class AsyncShutdown (σ : Type) where
  pollShutdown : σ → Poll (IoResult Unit) × σ

namespace Async

variable {σ τ ρ α β : Type}

def shutdown [AsyncShutdown σ] (polls : Nat) : Async σ Unit := await AsyncShutdown.pollShutdown polls

-- A function of a part of the state.
def Focus.lift (focus : Focus σ ρ) (run : Async ρ α) : Async σ α := fun state =>
  (run (focus.part state)).map fun (result, next) => (result, focus.put state next)

theorem Focus.lift_eq (focus : Focus σ ρ) {run : Async ρ α} {state : σ} {result : Except (List String) α}
    {next : ρ} (h : run (focus.part state) = some (result, next)) :
    focus.lift run state = some (result, focus.put state next) := by
  rw [Focus.lift, h]
  rfl

theorem Yields.lift (focus : Focus σ ρ) {run : Nat → Async ρ α} {state : σ} {value : α} {next : ρ}
    (h : Yields run (focus.part state) value next) :
    Yields (fun polls => focus.lift (run polls)) state value (focus.put state next) := by
  obtain ⟨enough, hrun⟩ := h
  exact ⟨enough, fun polls hpolls => focus.lift_eq (hrun polls hpolls)⟩

theorem Fails.lift (focus : Focus σ ρ) {run : Nat → Async ρ α} {state : σ} {chain : List String}
    {next : ρ} (h : Fails run (focus.part state) chain next) :
    Fails (fun polls => focus.lift (run polls)) state chain (focus.put state next) := by
  obtain ⟨enough, hrun⟩ := h
  exact ⟨enough, fun polls hpolls => focus.lift_eq (hrun polls hpolls)⟩

-- `try_join!` of functions that share nothing. An error of one ends the other.
def tryJoin (left : Async σ α) (right : Async τ β) : Async (σ × τ) (α × β) := fun (first, second) =>
  match left first, right second with
  | some (.ok one, first), some (.ok other, second) => some (.ok (one, other), (first, second))
  | some (.error chain, first), _ => some (.error chain, (first, second))
  | _, some (.error chain, second) => some (.error chain, (first, second))
  | _, _ => none

theorem tryJoin_ok {left : Async σ α} {right : Async τ β} {first next : σ} {second last : τ} {one : α}
    {other : β} (hl : left first = some (.ok one, next)) (hr : right second = some (.ok other, last)) :
    tryJoin left right (first, second) = some (.ok (one, other), (next, last)) := by
  rw [tryJoin, hl, hr]

theorem of_tryJoin {left : Async σ α} {right : Async τ β} {first next : σ} {second last : τ} {one : α}
    {other : β} (h : tryJoin left right (first, second) = some (.ok (one, other), (next, last))) :
    left first = some (.ok one, next) ∧ right second = some (.ok other, last) := by
  cases hl : left first with
  | none =>
      cases hr : right second with
      | none => simp [tryJoin, hl, hr] at h
      | some result =>
          obtain ⟨result | result, other⟩ := result
          · simp [tryJoin, hl, hr] at h
          · simp [tryJoin, hl, hr] at h
  | some result =>
      obtain ⟨result | result, mid⟩ := result
      · simp [tryJoin, hl] at h
      · cases hr : right second with
        | none => simp [tryJoin, hl, hr] at h
        | some found =>
            obtain ⟨found | found, final⟩ := found
            · simp [tryJoin, hl, hr] at h
            · obtain ⟨⟨rfl, rfl⟩, rfl, rfl⟩ :
                  (result = one ∧ found = other) ∧ mid = next ∧ final = last := by
                simpa [tryJoin, hl, hr] using h
              exact ⟨rfl, rfl⟩

end Async

-- A function of a writer alone, and what it adds to what has been taken.
def Sink.Sends {ω : Type} [AsyncWrite ω] (sink : Sink ω) (send : Nat → Async ω Unit) (bytes : Bytes)
    (writer : ω) : Prop :=
  ∃ next, Yields send writer () next ∧ sink.good next ∧ sink.taken next = sink.taken writer ++ bytes

def Sink.Closes {ω : Type} [AsyncWrite ω] [AsyncShutdown ω] (sink : Sink ω) : Prop :=
  ∀ writer, sink.good writer → sink.Sends Async.shutdown [] writer

-- What is read, where everything that is written is taken.
structure Duplex {σ : Type} [AsyncRead σ] [AsyncWrite σ] (source : Source σ) : Prop where
  writeAll : ∀ state data, source.good state → ∃ next, Yields (Async.writeAll data) state () next ∧
    source.good next ∧ source.rest next = source.rest state
  flush : ∀ state, source.good state → ∃ next, Yields Async.flush state () next ∧
    source.good next ∧ source.rest next = source.rest state

instance : AsyncShutdown Collected where
  pollShutdown stream := (.ready (.ok ()), stream)

theorem Collected.closes : Collected.sink.Closes := fun stream _ =>
  ⟨stream, .ready rfl, trivial, (List.append_nil stream.bytes).symm⟩

namespace Async

variable {σ α : Type}

-- The result of a function, whichever it is.
def attempt (run : Async σ α) : Async σ (Result α) := fun state =>
  (run state).map fun (result, next) => (.ok result, next)

def times (run : Nat → Async σ α) : Nat → Nat → Async σ (List α)
  | 0, _ => pure []
  | count + 1, polls => do
      let value ← run polls
      let values ← times run count polls
      return value :: values

theorem Yields.attempt {run : Nat → Async σ α} {state next : σ} {value : α}
    (h : Yields run state value next) :
    Yields (fun polls => Async.attempt (run polls)) state (.ok value) next :=
  Settles.map h Except.ok

theorem Fails.attempt {run : Nat → Async σ α} {state next : σ} {chain : List String}
    (h : Fails run state chain next) :
    Yields (fun polls => Async.attempt (run polls)) state (.error chain) next :=
  Settles.map h Except.ok

end Async

-- Each item is laid out by `encode` and read as its `value`.
theorem Source.Reads.times {σ α γ : Type} [AsyncRead σ] {source : Source σ}
    {run : Nat → Async σ α} {value : γ → α} {encode : γ → Bytes} (items : List γ)
    (h : ∀ item ∈ items, source.Reads run (value item) (encode item)) :
    source.Reads (Async.times run items.length) (items.map value) (items.flatMap encode) := by
  induction items with
  | nil => exact .pure []
  | cons item items ih =>
      obtain ⟨hitem, hitems⟩ := List.forall_mem_cons.mp h
      exact hitem.bind ((ih hitems).bind_last (.pure _))

namespace Sink

variable {ω α β : Type} [AsyncWrite ω] (sink : Sink ω)

-- The function comes to its value and has written `bytes`.
def Writes (run : Nat → Async ω α) (value : α) (bytes : Bytes) : Prop :=
  ∀ writer, sink.good writer → ∃ next, Yields run writer value next ∧ sink.good next ∧
    sink.taken next = sink.taken writer ++ bytes

variable {sink}

theorem Writes.pure (value : α) : sink.Writes (fun _ => Pure.pure value) value [] :=
  fun writer h => ⟨writer, .pure writer value, h, (List.append_nil _).symm⟩

theorem Writes.ofResult {result : Result α} {value : α} (h : result = .ok value) :
    sink.Writes (fun _ => Async.ofResult result) value [] :=
  fun writer hgood => ⟨writer, .ofResult writer h, hgood, (List.append_nil _).symm⟩

theorem Writes.writeAll (data : Bytes) : sink.Writes (Async.writeAll data) () data :=
  fun _ h => sink.writeAll h data

theorem Writes.flush : sink.Writes Async.flush () [] := by
  intro writer h
  obtain ⟨next, hflush, hnext, htaken⟩ := sink.flush writer h
  exact ⟨next, hflush, hnext, by rw [htaken, List.append_nil]⟩

theorem Writes.bind {run : Nat → Async ω α} {after : α → Nat → Async ω β} {first : α} {second : β}
    {front back : Bytes} (hf : sink.Writes run first front)
    (hs : sink.Writes (after first) second back) :
    sink.Writes (fun polls => run polls >>= fun value => after value polls) second
      (front ++ back) := by
  intro writer h
  obtain ⟨mid, hfirst, hmid, hfront⟩ := hf writer h
  obtain ⟨next, hsecond, hnext, hback⟩ := hs mid hmid
  exact ⟨next, hfirst.bind hsecond, hnext, by rw [hback, hfront, List.append_assoc]⟩

-- A step that writes nothing.
theorem Writes.bind_nil {run : Nat → Async ω α} {after : α → Nat → Async ω β} {first : α}
    {second : β} {bytes : Bytes} (hf : sink.Writes run first [])
    (hs : sink.Writes (after first) second bytes) :
    sink.Writes (fun polls => run polls >>= fun value => after value polls) second bytes :=
  hf.bind hs

theorem Writes.bind_last {run : Nat → Async ω α} {after : α → Nat → Async ω β} {first : α}
    {second : β} {bytes : Bytes} (hf : sink.Writes run first bytes)
    (hs : sink.Writes (after first) second []) :
    sink.Writes (fun polls => run polls >>= fun value => after value polls) second bytes := by
  have h := hf.bind hs
  rwa [List.append_nil] at h

theorem Writes.attempt {run : Nat → Async ω α} {value : α} {bytes : Bytes}
    (h : sink.Writes run value bytes) :
    sink.Writes (fun polls => Async.attempt (run polls)) (.ok value) bytes := by
  intro writer hgood
  obtain ⟨next, hrun, hnext⟩ := h writer hgood
  exact ⟨next, hrun.attempt, hnext⟩

end Sink

end SingBox.Library
