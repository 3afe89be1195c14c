import SingBox.Library.Loop
import SingBox.Library.Reader
import SingBox.Library.Result

namespace SingBox.Library

-- What ends a program in the middle of a function.
inductive Fault where
  | overflow
  | outOfBounds
deriving DecidableEq, Repr

-- A function that returns a result, unless it runs into a fault.
abbrev Checked := ExceptT (List String) (Except Fault)

namespace Checked

variable {σ α β : Type}

def ofResult (result : Result α) : Checked α := ExceptT.mk (.ok result)

def fault (kind : Fault) : Checked α := ExceptT.mk (.error kind)

def ofOption (message : String) (value : Option α) : Checked α :=
  ofResult (Result.ofOption message value)

def ensure (condition : Bool) (message : String) : Checked Unit :=
  ofResult (Result.ensure condition message)

-- The sum of two words of 64 bits.
def add (left right : Nat) : Checked Nat :=
  if left + right < 2 ^ 64 then pure (left + right) else fault .overflow

def mul (left right : Nat) : Checked Nat :=
  if left * right < 2 ^ 64 then pure (left * right) else fault .overflow

-- `usize::next_multiple_of`
def nextMultipleOf (value factor : Nat) : Checked Nat :=
  if value % factor = 0 then pure value else add value (factor - value % factor)

-- The bytes from `start` on, up to `last`.
def slice (bytes : Bytes) (start last : Nat) : Checked Bytes :=
  if start ≤ last ∧ last ≤ bytes.length then pure ((bytes.take last).drop start)
  else fault .outOfBounds

-- The byte at `index`.
def byte (bytes : Bytes) (index : Nat) : Checked UInt8 :=
  match bytes[index]? with
  | some byte => pure byte
  | none => fault .outOfBounds

-- The bytes from `start` on, up to `last`, where there are such bytes.
def range? (bytes : Bytes) (start last : Nat) : Option Bytes :=
  if start ≤ last ∧ last ≤ bytes.length then some ((bytes.take last).drop start) else none

def Faultless (run : Checked α) : Prop := ∃ result, run = ofResult result

@[simp] theorem ofResult_ok (value : α) : (ofResult (.ok value) : Checked α) = pure value := rfl

@[simp] theorem ofOption_some (message : String) (value : α) :
    ofOption message (some value) = pure value := rfl

@[simp] theorem error_bind (chain : List String) (next : α → Checked β) :
    (ofResult (.error chain) : Checked α) >>= next = ofResult (.error chain) := rfl

theorem pure_inj {left right : α} (h : (pure left : Checked α) = pure right) : left = right :=
  Except.ok.inj (Except.ok.inj h)

theorem bind_eq_pure {run : Checked α} {next : α → Checked β} {value : β} :
    run >>= next = pure value ↔ ∃ first, run = pure first ∧ next first = pure value := by
  constructor
  · intro h
    cases run with
    | error kind => cases h
    | ok result =>
        cases result with
        | error chain => cases h
        | ok first => exact ⟨first, rfl, h⟩
  · rintro ⟨first, rfl, h⟩
    exact h

theorem Faultless.pure (value : α) : Faultless (Pure.pure value) := ⟨.ok value, rfl⟩

theorem Faultless.ofResult (result : Result α) : Faultless (ofResult result) := ⟨result, rfl⟩

theorem Faultless.bind {run : Checked α} {next : α → Checked β} (h : run.Faultless)
    (hnext : ∀ value, run = Pure.pure value → (next value).Faultless) : (run >>= next).Faultless := by
  obtain ⟨result, rfl⟩ := h
  cases result with
  | error chain => exact ⟨.error chain, rfl⟩
  | ok value => exact hnext value rfl

-- What runs into no fault, step by step.
theorem bind_ofResult {run : Checked α} {next : α → Checked β} {result : Result α}
    {after : α → Result β} (h : run = Checked.ofResult result)
    (hnext : ∀ value, result = .ok value → next value = Checked.ofResult (after value)) :
    run >>= next = Checked.ofResult (result >>= after) := by
  subst h
  cases result with
  | error chain => rfl
  | ok value => exact hnext value rfl

theorem byte_of_lt {bytes : Bytes} {index : Nat} (h : index < bytes.length) :
    byte bytes index = Pure.pure bytes[index] := by
  rw [byte, List.getElem?_eq_getElem h]

theorem range?_mid (front mid back : Bytes) :
    range? (front ++ (mid ++ back)) front.length (front.length + mid.length) = some mid := by
  rw [range?, if_pos ⟨Nat.le_add_right _ _, by simp⟩, ← List.append_assoc, ← List.length_append,
    List.take_left, List.drop_left]

theorem range?_eq_some {bytes value : Bytes} {start last : Nat} (h : range? bytes start last = some value) :
    last ≤ bytes.length ∧ start + value.length = last ∧ ∃ rest, bytes.drop start = value ++ rest := by
  unfold range? at h
  split at h
  case isFalse => cases h
  case isTrue hrange =>
    obtain rfl := Option.some.inj h
    refine ⟨hrange.2, ?_, bytes.drop last, ?_⟩
    · rw [List.length_drop, List.length_take]
      omega
    · have hsplit := congrArg (List.drop start) (List.take_append_drop last bytes)
      rwa [List.drop_append_of_le_length (by rw [List.length_take]; omega), eq_comm] at hsplit

@[simp] theorem ensure_true (message : String) : ensure true message = pure () := rfl

@[simp] theorem ensure_false (message : String) :
    ensure false message = ofResult (.error [message]) := rfl

theorem add_of_lt {left right : Nat} (h : left + right < 2 ^ 64) :
    add left right = pure (left + right) := if_pos h

theorem mul_of_lt {left right : Nat} (h : left * right < 2 ^ 64) :
    mul left right = Pure.pure (left * right) := if_pos h

theorem add_of_le {left right : Nat} (h : 2 ^ 64 ≤ left + right) :
    add left right = fault .overflow := if_neg (Nat.not_lt.mpr h)

theorem slice_front (front back : Bytes) : slice (front ++ back) 0 front.length = pure front := by
  rw [slice, if_pos ⟨Nat.zero_le _, by simp⟩, List.take_left, List.drop_zero]

theorem slice_back (front back : Bytes) :
    slice (front ++ back) front.length (front ++ back).length = pure back := by
  rw [slice, if_pos ⟨by simp, Nat.le_refl _⟩, List.take_length, List.drop_left]

theorem slice_mid (front mid back : Bytes) :
    slice (front ++ (mid ++ back)) front.length (front.length + mid.length) = pure mid := by
  rw [slice, if_pos ⟨Nat.le_add_right _ _, by simp⟩, ← List.append_assoc, ← List.length_append,
    List.take_left, List.drop_left]

theorem slice_behind (front mid back : Bytes) :
    slice (front ++ (mid ++ back)) (front.length + mid.length) (front ++ (mid ++ back)).length =
      pure back := by
  rw [← List.append_assoc, ← List.length_append]
  exact slice_back (front ++ mid) back

-- One pass through the body of a loop.
def pass (body : σ → Checked (Pass σ α)) (state : σ) : Pass σ (Checked α) :=
  match (body state).run with
  | .ok (.ok (.again next)) => .again next
  | .ok (.ok (.done value)) => .done (pure value)
  | .ok (.error chain) => .done (ofResult (.error chain))
  | .error kind => .done (fault kind)

variable {body : σ → Checked (Pass σ α)} {state : σ}

theorem pass_again {next : σ} (h : body state = pure (.again next)) :
    pass body state = .again next := by
  rw [pass, h]
  rfl

theorem pass_done {value : α} (h : body state = pure (.done value)) :
    pass body state = .done (pure value) := by
  rw [pass, h]
  rfl

theorem pass_error {chain : List String} (h : body state = ofResult (.error chain)) :
    pass body state = .done (ofResult (.error chain)) := by
  rw [pass, h]
  rfl

theorem pass_fault {kind : Fault} (h : body state = fault kind) :
    pass body state = .done (fault kind) := by
  rw [pass, h]
  rfl

end Checked

end SingBox.Library
