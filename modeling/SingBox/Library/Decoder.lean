import SingBox.Library.Loop
import SingBox.Library.Reader
import SingBox.Library.Result

namespace SingBox.Library

-- A decoder takes a value from the front of the input and leaves the rest, or says
-- what is wrong with the input.
abbrev Decoder := StateT Bytes Result

namespace Decoder

variable {α β σ ρ : Type}

theorem bind_apply (read : Decoder α) (next : α → Decoder β) (bytes : Bytes) :
    (read >>= next) bytes = read bytes >>= fun (value, rest) => next value rest := rfl

theorem pure_apply (value : α) (bytes : Bytes) :
    (pure value : Decoder α) bytes = .ok (value, bytes) := rfl

def ofResult (result : Result α) : Decoder α := fun bytes => result.map (·, bytes)

def fail (message : String) : Decoder α := ofResult (Result.bail message)

def ensure (condition : Bool) (message : String) : Decoder Unit :=
  ofResult (Result.ensure condition message)

def withContext (context : String) (read : Decoder α) : Decoder α := fun bytes =>
  Result.withContext context (read bytes)

-- `chain` is the error at the end of the input.
def exact (chain : List String) (count : Nat) : Decoder Bytes := fun bytes =>
  if count ≤ bytes.length then .ok (bytes.take count, bytes.drop count) else .error chain

-- The values with the numbers from `index` on.
def times (read : Nat → Decoder α) : Nat → Nat → Decoder (List α)
  | _, 0 => pure []
  | index, count + 1 => do
      let value ← read index
      let values ← times read (index + 1) count
      return value :: values

-- `read` finds `value` in `encoded` and leaves whatever follows unread.
def Reads (read : Decoder α) (value : α) (encoded : Bytes) : Prop :=
  ∀ rest, read (encoded ++ rest) = .ok (value, rest)

-- A decoder that looks at no more than what it takes.
def Local (read : Decoder α) : Prop :=
  ∀ input value rest, read input = .ok (value, rest) →
    ∃ taken, input = taken ++ rest ∧ Reads read value taken

theorem Reads.pure (value : α) : Reads (Pure.pure value) value [] := fun _ => rfl

theorem Reads.bind {read : Decoder α} {next : α → Decoder β} {first : α} {second : β}
    {front back : Bytes} (hf : Reads read first front) (hb : Reads (next first) second back) :
    Reads (read >>= next) second (front ++ back) := by
  intro rest
  rw [bind_apply, List.append_assoc, hf]
  exact hb rest

-- What follows a value is read by the next decoder, whatever that makes of it.
theorem Reads.bind_apply {read : Decoder α} {next : α → Decoder β} {value : α} {encoded : Bytes}
    (h : Reads read value encoded) (rest : Bytes) :
    (read >>= next) (encoded ++ rest) = next value rest := by
  rw [Decoder.bind_apply, h]
  rfl

-- A step that takes nothing.
theorem Reads.bind_nil {read : Decoder α} {next : α → Decoder β} {first : α} {second : β}
    {encoded : Bytes} (hf : Reads read first []) (hb : Reads (next first) second encoded) :
    Reads (read >>= next) second encoded := hf.bind hb

theorem Reads.ofResult {result : Result α} {value : α} (h : result = .ok value) :
    Reads (Decoder.ofResult result) value [] := by
  intro rest
  rw [h]
  rfl

theorem Reads.ensure {condition : Bool} {message : String} (h : condition = true) :
    Reads (Decoder.ensure condition message) () [] :=
  Reads.ofResult (Result.ensure_eq_ok.mpr h)

theorem Reads.withContext {read : Decoder α} {value : α} {encoded : Bytes} (context : String)
    (h : Reads read value encoded) : Reads (Decoder.withContext context read) value encoded := by
  intro rest
  exact Result.withContext_eq_ok.mpr (h rest)

theorem Reads.exact (chain : List String) (bytes : Bytes) :
    Reads (Decoder.exact chain bytes.length) bytes bytes := by
  intro rest
  simp [Decoder.exact]

-- Each item is laid out by `encode` and read as its `value`.
theorem Reads.times_map {γ : Type} {read : Nat → Decoder α} {value : γ → α} {encode : γ → Bytes}
    (items : List γ) (h : ∀ item ∈ items, ∀ index, Reads (read index) (value item) (encode item))
    (index : Nat) :
    Reads (Decoder.times read index items.length) (items.map value) (items.flatMap encode) := by
  induction items generalizing index with
  | nil => exact Reads.pure []
  | cons item items ih =>
      obtain ⟨hitem, hitems⟩ := List.forall_mem_cons.mp h
      have hrest : Reads (Decoder.times read (index + 1) items.length >>= fun values =>
          Pure.pure (value item :: values)) (value item :: items.map value)
          (items.flatMap encode ++ []) :=
        (ih hitems (index + 1)).bind (Reads.pure (value item :: items.map value))
      rw [List.append_nil] at hrest
      exact (hitem index).bind hrest

theorem Reads.times {read : Nat → Decoder α} {encode : α → Bytes} (values : List α)
    (h : ∀ value ∈ values, ∀ index, Reads (read index) value (encode value)) (index : Nat) :
    Reads (Decoder.times read index values.length) values (values.flatMap encode) := by
  have hread : Reads (Decoder.times read index values.length) (values.map id)
      (values.flatMap encode) := Reads.times_map values h index
  rwa [List.map_id] at hread

theorem Local.pure (value : α) : Local (Pure.pure value : Decoder α) := by
  intro input other rest h
  obtain ⟨rfl, rfl⟩ := Prod.mk.inj (Except.ok.inj h)
  exact ⟨[], rfl, Reads.pure value⟩

theorem Local.bind {read : Decoder α} {next : α → Decoder β} (hf : Local read)
    (hn : ∀ value, Local (next value)) : Local (read >>= next) := by
  intro input second rest h
  obtain ⟨⟨first, mid⟩, hr, hs⟩ := Result.bind_eq_ok.mp h
  obtain ⟨front, rfl, hfront⟩ := hf input first mid hr
  obtain ⟨back, rfl, hback⟩ := hn first mid second rest hs
  exact ⟨front ++ back, by rw [List.append_assoc], hfront.bind hback⟩

theorem Local.ofResult (result : Result α) : Local (Decoder.ofResult result) := by
  intro input value rest h
  cases result with
  | error chain => cases h
  | ok other =>
      obtain ⟨rfl, rfl⟩ := Prod.mk.inj (Except.ok.inj h)
      exact ⟨[], rfl, Reads.ofResult rfl⟩

theorem Local.fail (message : String) : Local (Decoder.fail message : Decoder α) :=
  Local.ofResult _

theorem Local.ensure (condition : Bool) (message : String) :
    Local (Decoder.ensure condition message) := Local.ofResult _

theorem Local.ite {condition : Prop} [Decidable condition] {read other : Decoder α}
    (hr : Local read) (ho : Local other) : Local (if condition then read else other) := by
  split
  · exact hr
  · exact ho

theorem Local.withContext {read : Decoder α} (context : String) (h : Local read) :
    Local (Decoder.withContext context read) := by
  intro input value rest hr
  obtain ⟨taken, ht, hread⟩ := h input value rest (Result.withContext_eq_ok.mp hr)
  exact ⟨taken, ht, hread.withContext context⟩

theorem Local.exact (chain : List String) (count : Nat) : Local (Decoder.exact chain count) := by
  intro input value rest h
  unfold Decoder.exact at h
  split at h
  · rename_i hle
    obtain ⟨rfl, rfl⟩ := Prod.mk.inj (Except.ok.inj h)
    have hlen : (input.take count).length = count := List.length_take_of_le hle
    have hread := Reads.exact chain (input.take count)
    rw [hlen] at hread
    exact ⟨input.take count, (List.take_append_drop count input).symm, hread⟩
  · cases h

theorem Local.times {read : Nat → Decoder α} (h : ∀ index, Local (read index))
    (index count : Nat) : Local (Decoder.times read index count) := by
  induction count generalizing index with
  | zero => exact Local.pure []
  | succ count ih =>
      exact (h index).bind fun value => (ih (index + 1)).bind fun values => Local.pure _

-- A decoder leaves no more than it was given.
theorem Local.length_le {read : Decoder α} (h : Local read) {input rest : Bytes} {value : α}
    (hr : read input = .ok (value, rest)) : rest.length ≤ input.length := by
  obtain ⟨taken, rfl, _⟩ := h input value rest hr
  simp

-- What is read whole is not read whole from a part of it.
theorem Local.unique {read : Decoder α} (h : Local read) {value other : α} {front back : Bytes}
    (hr : Reads read value (front ++ back)) (hf : read front = .ok (other, [])) : back = [] := by
  obtain ⟨taken, ht, hread⟩ := h front other [] hf
  rw [List.append_nil] at ht
  subst ht
  have hwhole := hr []
  rw [List.append_assoc, hread] at hwhole
  simpa using (Prod.mk.inj (Except.ok.inj hwhole)).2

-- Every pass of the loop takes something, so the input bounds their number.
def Takes (read : Decoder α) : Prop :=
  ∀ input value rest, read input = .ok (value, rest) → rest.length < input.length

theorem Takes.bind {read : Decoder α} {next : α → Decoder β} (hf : Takes read)
    (hn : ∀ value, Local (next value)) : Takes (read >>= next) := by
  intro input second rest h
  obtain ⟨⟨first, mid⟩, hr, hs⟩ := Result.bind_eq_ok.mp h
  exact Nat.lt_of_le_of_lt ((hn first).length_le hs) (hf input first mid hr)

def loopPass (body : σ → Decoder (Pass σ ρ)) (state : σ × Bytes) :
    Pass (σ × Bytes) (Result (ρ × Bytes)) :=
  match body state.1 state.2 with
  | .error chain => .done (.error chain)
  | .ok (.again next, rest) => .again (next, rest)
  | .ok (.done result, rest) => .done (.ok (result, rest))

theorem loopPass_decreases {body : σ → Decoder (Pass σ ρ)} (ht : ∀ state, Takes (body state)) :
    Loop.Decreases (loopPass body) fun state => state.2.length := by
  intro state next h
  unfold loopPass at h
  split at h
  · cases h
  · rename_i mid rest hr
    obtain rfl := Pass.again.inj h
    exact ht state.1 state.2 (.again mid) rest hr
  · cases h

def loop (body : σ → Decoder (Pass σ ρ)) (ht : ∀ state, Takes (body state)) (state : σ) :
    Decoder ρ := fun input =>
  Loop.run (loopPass body) (fun state => state.2.length) (loopPass_decreases ht) (state, input)

theorem loop_eq {body : σ → Decoder (Pass σ ρ)} (ht : ∀ state, Takes (body state)) (state : σ) :
    loop body ht state = body state >>= fun pass =>
      match pass with
      | .again next => loop body ht next
      | .done result => Pure.pure result := by
  funext input
  rw [bind_apply]
  cases hb : body state input with
  | error chain =>
      have hp : loopPass body (state, input) = .done (.error chain) := by simp [loopPass, hb]
      exact Loop.run_done _ _ _ hp
  | ok read =>
      obtain ⟨pass, rest⟩ := read
      cases pass with
      | again next =>
          have hp : loopPass body (state, input) = .again (next, rest) := by simp [loopPass, hb]
          exact Loop.run_again _ _ _ hp
      | done result =>
          have hp : loopPass body (state, input) = .done (.ok (result, rest)) := by
            simp [loopPass, hb]
          exact Loop.run_done _ _ _ hp

theorem Local.loop {body : σ → Decoder (Pass σ ρ)} (ht : ∀ state, Takes (body state))
    (hl : ∀ state, Local (body state)) (state : σ) : Local (Decoder.loop body ht state) := by
  intro input
  -- the pass leaves less than the input for the passes after it
  induction hn : input.length using Nat.strongRecOn generalizing input state with
  | _ n ih =>
      intro result rest h
      rw [loop_eq] at h
      obtain ⟨⟨pass, mid⟩, hb, hnext⟩ := Result.bind_eq_ok.mp h
      obtain ⟨front, rfl, hfront⟩ := hl state _ pass mid hb
      cases pass with
      | done value =>
          obtain ⟨rfl, rfl⟩ := Prod.mk.inj (Except.ok.inj hnext)
          refine ⟨front, rfl, ?_⟩
          rw [loop_eq, ← List.append_nil front]
          exact hfront.bind (Reads.pure value)
      | again next =>
          have hless := ht state _ _ mid hb
          obtain ⟨back, rfl, hback⟩ := ih mid.length (hn ▸ hless) next mid rfl result rest hnext
          refine ⟨front ++ back, by rw [List.append_assoc], ?_⟩
          rw [loop_eq]
          exact hfront.bind hback

-- A pass for each element, and a last one.
theorem Reads.loop {body : σ → Decoder (Pass σ ρ)} (ht : ∀ state, Takes (body state))
    (step : σ → α → σ) {encode : α → Bytes} (result : σ → ρ) {last : Bytes} (values : List α)
    (hs : ∀ value ∈ values, ∀ state, Reads (body state) (.again (step state value)) (encode value))
    (hd : ∀ state, Reads (body state) (.done (result state)) last) (state : σ) :
    Reads (Decoder.loop body ht state) (result (values.foldl step state))
      (values.flatMap encode ++ last) := by
  induction values generalizing state with
  | nil =>
      rw [loop_eq, List.flatMap_nil, List.nil_append, ← List.append_nil last]
      exact (hd state).bind (Reads.pure (result state))
  | cons value values ih =>
      obtain ⟨hvalue, hvalues⟩ := List.forall_mem_cons.mp hs
      rw [loop_eq, List.flatMap_cons, List.append_assoc]
      exact (hvalue state).bind (ih hvalues (step state value))

end Decoder

end SingBox.Library
