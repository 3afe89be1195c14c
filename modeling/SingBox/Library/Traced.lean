import SingBox.Library.Result

namespace SingBox.Library

-- What has been done, in order, and how it has ended.
structure Traced (ε α : Type) where
  events : List ε
  result : Result α
deriving DecidableEq

namespace Traced

variable {ε δ α β : Type}

instance : Pure (Traced ε) where
  pure value := ⟨[], .ok value⟩

instance : Bind (Traced ε) where
  bind first next :=
    match first.result with
    | .ok value => ⟨first.events ++ (next value).events, (next value).result⟩
    | .error chain => ⟨first.events, .error chain⟩

instance : Monad (Traced ε) where

def ofResult (result : Result α) : Traced ε α := ⟨[], result⟩

-- Calls in order, up to the first that fails.
def calls : List (ε × Result Unit) → Traced ε Unit
  | [] => pure ()
  | (event, result) :: rest => do
      Traced.mk [event] result
      calls rest

-- The same calls, seen from further out.
def map (outer : ε → δ) (this : Traced ε α) : Traced δ α := ⟨this.events.map outer, this.result⟩

theorem bind_ok {first : Traced ε α} {value : α} (h : first.result = .ok value)
    (next : α → Traced ε β) :
    (first >>= next) = ⟨first.events ++ (next value).events, (next value).result⟩ := by
  simp only [Bind.bind, h]

theorem bind_error {first : Traced ε α} {chain : List String} (h : first.result = .error chain)
    (next : α → Traced ε β) : (first >>= next) = ⟨first.events, .error chain⟩ := by
  simp only [Bind.bind, h]

theorem bind_assoc {κ : Type} (first : Traced ε α) (next : α → Traced ε β) (last : β → Traced ε κ) :
    (first >>= next) >>= last = first >>= fun value => next value >>= last := by
  obtain ⟨events, chain | value⟩ := first
  · rfl
  · cases hnext : (next value).result with
    | error chain => simp [Bind.bind, hnext]
    | ok mid => simp [Bind.bind, hnext]

-- Calls that follow on others are made if those have not failed.
theorem calls_append (front back : List (ε × Result Unit)) :
    calls (front ++ back) = calls front >>= fun _ => calls back := by
  induction front with
  | nil => rfl
  | cons call rest ih => rw [List.cons_append, calls, calls, ih, bind_assoc]

theorem map_calls (outer : ε → δ) (list : List (ε × Result Unit)) :
    (calls list).map outer = calls (list.map fun call => (outer call.1, call.2)) := by
  induction list with
  | nil => rfl
  | cons call rest ih =>
      obtain ⟨event, chain | ⟨⟨⟩⟩⟩ := call
      · rfl
      · rw [List.map_cons, calls, calls, bind_ok rfl, bind_ok rfl, ← ih]
        rfl

theorem calls_ok {list : List (ε × Result Unit)} (h : ∀ call ∈ list, call.2 = .ok ()) :
    calls list = ⟨list.map Prod.fst, .ok ()⟩ := by
  induction list with
  | nil => rfl
  | cons call rest ih =>
      obtain ⟨hcall, hrest⟩ := List.forall_mem_cons.mp h
      rw [calls, bind_ok hcall, ih hrest]
      rfl

theorem calls_failed {front back : List (ε × Result Unit)} {event : ε} {chain : List String}
    (h : ∀ call ∈ front, call.2 = .ok ()) :
    calls (front ++ (event, .error chain) :: back) =
      ⟨front.map Prod.fst ++ [event], .error chain⟩ := by
  induction front with
  | nil => rfl
  | cons call rest ih =>
      obtain ⟨hcall, hrest⟩ := List.forall_mem_cons.mp h
      rw [List.cons_append, calls, bind_ok hcall, ih hrest]
      rfl

-- One call after another, up to the first that fails.
def mapM (call : α → Traced ε β) : List α → Traced ε (List β)
  | [] => pure []
  | value :: rest => do
      let result ← call value
      let results ← mapM call rest
      return result :: results

theorem mapM_congr {call other : α → Traced ε β} {values : List α}
    (h : ∀ value ∈ values, call value = other value) : mapM call values = mapM other values := by
  induction values with
  | nil => rfl
  | cons value rest ih =>
      obtain ⟨hvalue, hrest⟩ := List.forall_mem_cons.mp h
      rw [mapM, mapM, hvalue, ih hrest]

theorem bind_result (first : Traced ε α) (next : α → Traced ε β) :
    (first >>= next).result = first.result >>= fun value => (next value).result := by
  obtain ⟨events, chain | value⟩ := first <;> rfl

theorem mapM_result (call : α → Traced ε β) (values : List α) :
    (mapM call values).result = values.mapM fun value => (call value).result := by
  induction values with
  | nil => rfl
  | cons value rest ih =>
      rw [mapM, bind_result, List.mapM_cons]
      refine congrArg _ (funext fun result => ?_)
      rw [bind_result, ih]
      rfl

-- A call that does not take place leaves no events.
theorem mapM_events_prefix (call : α → Traced ε β) (values : List α) :
    (mapM call values).events <+: values.flatMap fun value => (call value).events := by
  induction values with
  | nil => exact List.prefix_refl _
  | cons value rest ih =>
      rw [mapM, List.flatMap_cons]
      cases hcall : (call value).result with
      | error chain =>
          rw [bind_error hcall]
          exact List.prefix_append _ _
      | ok result =>
          rw [bind_ok hcall]
          refine (List.prefix_append_right_inj _).mpr ?_
          cases hrest : (mapM call rest).result with
          | error chain =>
              rw [bind_error hrest]
              exact ih
          | ok results =>
              rw [bind_ok hrest]
              show (mapM call rest).events ++ [] <+: _
              rwa [List.append_nil]

theorem mapM_events_ok {call : α → Traced ε β} {values : List α} {results : List β}
    (h : (mapM call values).result = .ok results) :
    (mapM call values).events = values.flatMap fun value => (call value).events := by
  induction values generalizing results with
  | nil => rfl
  | cons value rest ih =>
      rw [mapM] at h ⊢
      rw [bind_result] at h
      obtain ⟨result, hcall, h⟩ := Result.bind_eq_ok.mp h
      rw [bind_result] at h
      obtain ⟨others, hrest, -⟩ := Result.bind_eq_ok.mp h
      rw [bind_ok hcall, bind_ok hrest, List.flatMap_cons, ← ih hrest]
      show _ ++ ((mapM call rest).events ++ []) = _
      rw [List.append_nil]

end Traced

end SingBox.Library
