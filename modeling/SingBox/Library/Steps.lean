import SingBox.Library.Reader
import SingBox.Library.Result

namespace SingBox.Library

-- A function that changes a state step by step, and may stop with an error in the middle.
abbrev Steps (σ : Type) := ExceptT (List String) (StateM σ)

namespace Steps

variable {σ α β : Type}

def ofResult (result : Result α) : Steps σ α := ExceptT.mk fun state => (result, state)

def ensure (condition : Bool) (message : String) : Steps σ Unit :=
  ofResult (Result.ensure condition message)

def modify (change : σ → σ) : Steps σ Unit := ExceptT.mk fun state => (.ok (), change state)

-- The result of a function, whichever it is.
def attempt (run : Steps σ α) : Steps σ (Result α) := ExceptT.mk fun state =>
  (.ok (run.run state).1, (run.run state).2)

def forEach (body : α → Steps σ Unit) : List α → Steps σ Unit
  | [] => pure ()
  | value :: values => do
      body value
      forEach body values

theorem bind_apply (run : Steps σ α) (next : α → Steps σ β) (state : σ) :
    (run >>= next).run state =
      ExceptT.bindCont (fun value => next value) (run.run state).1 (run.run state).2 := rfl

theorem bind_ok {run : Steps σ α} {next : α → Steps σ β} {state mid : σ} {value : α}
    (h : run.run state = (.ok value, mid)) : (run >>= next).run state = (next value).run mid := by
  rw [bind_apply, h]
  rfl

theorem bind_error {run : Steps σ α} {next : α → Steps σ β} {state mid : σ} {chain : List String}
    (h : run.run state = (.error chain, mid)) : (run >>= next).run state = (.error chain, mid) := by
  rw [bind_apply, h]
  rfl

theorem attempt_run {run : Steps σ α} {result : Result α} {state mid : σ}
    (h : run.run state = (result, mid)) : (attempt run).run state = (.ok result, mid) := by
  show (Except.ok _, _) = _
  rw [h]

-- A function that comes to a value has come to one at each step.
theorem of_bind {run : Steps σ α} {next : α → Steps σ β} {state last : σ} {value : β}
    (h : (run >>= next).run state = (.ok value, last)) :
    ∃ first mid, run.run state = (.ok first, mid) ∧ (next first).run mid = (.ok value, last) := by
  cases hrun : run.run state with
  | mk result mid =>
      cases result with
      | error chain => cases (bind_error hrun).symm.trans h
      | ok first => exact ⟨first, mid, rfl, (bind_ok hrun).symm.trans h⟩

-- However the function ends, its last state is related to the first one.
def Relates (rel : σ → σ → Prop) (run : Steps σ α) : Prop := ∀ state, rel state (run.run state).2

section

variable {rel : σ → σ → Prop} {run : Steps σ α} {next : α → Steps σ β}

theorem Relates.pure (hrefl : ∀ state, rel state state) (value : α) :
    Relates rel (Pure.pure value : Steps σ α) := hrefl

theorem Relates.ofResult (hrefl : ∀ state, rel state state) (result : Result α) :
    Relates rel (Steps.ofResult result : Steps σ α) := hrefl

theorem Relates.bind (htrans : ∀ {first second third}, rel first second → rel second third →
    rel first third) (h : Relates rel run) (hnext : ∀ value, Relates rel (next value)) :
    Relates rel (run >>= next) := by
  intro state
  have hfirst := h state
  cases hrun : run.run state with
  | mk result mid =>
      rw [hrun] at hfirst
      cases result with
      | error chain =>
          rw [bind_error hrun]
          exact hfirst
      | ok value =>
          rw [bind_ok hrun]
          exact htrans hfirst (hnext value mid)

theorem Relates.forEach {body : α → Steps σ Unit} (hrefl : ∀ state, rel state state)
    (htrans : ∀ {first second third}, rel first second → rel second third → rel first third)
    (h : ∀ value, Relates rel (body value)) (values : List α) :
    Relates rel (Steps.forEach body values) := by
  induction values with
  | nil => exact .pure hrefl ()
  | cons value values ih => exact .bind htrans (h value) fun _ => ih

end

end Steps

-- A function that appends to a vector, and may stop with an error in the middle of that.
abbrev Appends := Steps Bytes

namespace Appends

variable {α β : Type}

-- `extend_from_slice`
def extend (bytes : Bytes) : Appends Unit := Steps.modify (· ++ bytes)

-- `push`
def push (byte : UInt8) : Appends Unit := extend [byte]

-- The function appends `bytes`, whatever there is before.
def Adds (run : Appends α) (value : α) (bytes : Bytes) : Prop :=
  ∀ output, run.run output = (.ok value, output ++ bytes)

-- The function stops before it has appended anything.
def Refuses (run : Appends α) (chain : List String) : Prop :=
  ∀ output, run.run output = (.error chain, output)

theorem Adds.extend (bytes : Bytes) : Adds (Appends.extend bytes) () bytes := fun _ => rfl

theorem Adds.push (byte : UInt8) : Adds (Appends.push byte) () [byte] := fun _ => rfl

theorem Adds.ofResult {result : Result α} {value : α} (h : result = .ok value) :
    Adds (Steps.ofResult result) value [] := by
  intro output
  rw [h, List.append_nil]
  rfl

theorem Refuses.ofResult {result : Result α} {chain : List String} (h : result = .error chain) :
    Refuses (Steps.ofResult result) chain := by
  intro output
  rw [h]
  rfl

theorem Adds.bind {run : Appends α} {next : α → Appends β} {first : α} {second : β}
    {front back : Bytes} (hf : Adds run first front) (hb : Adds (next first) second back) :
    Adds (run >>= next) second (front ++ back) := by
  intro output
  rw [Steps.bind_ok (hf output), ← List.append_assoc]
  exact hb (output ++ front)

-- A step that appends nothing.
theorem Adds.bind_nil {run : Appends α} {next : α → Appends β} {first : α} {second : β}
    {bytes : Bytes} (hf : Adds run first []) (hb : Adds (next first) second bytes) :
    Adds (run >>= next) second bytes := hf.bind hb

theorem Refuses.bind {run : Appends α} {next : α → Appends β} {chain : List String}
    (h : Refuses run chain) : Refuses (run >>= next) chain := by
  intro output
  exact Steps.bind_error (h output)

end Appends

end SingBox.Library
