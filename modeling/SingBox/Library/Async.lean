import Mathlib.Order.Lattice.Nat
import SingBox.Library.Reader
import SingBox.Library.Result

namespace SingBox

inductive ErrorKind where
  | invalidData
  | invalidInput
  | unexpectedEof
  | writeZero
  | brokenPipe
  | other
deriving DecidableEq, Repr

structure IoError where
  kind : ErrorKind
  message : String
deriving DecidableEq, Repr

inductive Poll (α : Type) where
  | pending
  | ready (value : α)
deriving DecidableEq, Repr

abbrev IoResult := Except IoError

end SingBox

namespace SingBox.Library

-- What a function that is generic in its stream asks of it.
class AsyncRead (σ : Type) where
  pollRead : σ → Nat → Poll (IoResult Bytes) × σ

class AsyncWrite (σ : Type) where
  pollWrite : σ → Bytes → Poll (IoResult Nat) × σ
  pollFlush : σ → Poll (IoResult Unit) × σ

-- A function that awaits. It gives no result while it is pending.
abbrev Async (σ : Type) := ExceptT (List String) (StateT σ Option)

namespace Async

variable {σ α β : Type}

def ofResult (result : Result α) : Async σ α := fun state => some (result, state)

def ensure (condition : Bool) (message : String) : Async σ Unit :=
  ofResult (Result.ensure condition message)

def pending : Async σ α := fun _ => none

-- A future is polled at most so many times.
def await (poll : σ → Poll (IoResult α) × σ) : Nat → Async σ α
  | 0 => pending
  | polls + 1 => fun state =>
      match poll state with
      | (.pending, next) => await poll polls next
      | (.ready (.ok value), next) => some (.ok value, next)
      | (.ready (.error error), next) => some (.error [error.message], next)

def read [AsyncRead σ] (room polls : Nat) : Async σ Bytes :=
  await (AsyncRead.pollRead · room) polls

-- `read_exact`. Every read takes a byte at least, so `count` bounds their number.
def readRounds [AsyncRead σ] (polls : Nat) : Nat → Nat → Async σ Bytes
  | _, 0 => pure []
  | 0, _ + 1 => pending
  | rounds + 1, count => do
      let bytes ← read count polls
      if bytes = [] then throw ["early eof"]
      else return bytes ++ (← readRounds polls rounds (count - bytes.length))

def readExact [AsyncRead σ] (count polls : Nat) : Async σ Bytes := readRounds polls count count

-- `write_all`
def writeRounds [AsyncWrite σ] (polls : Nat) : Nat → Bytes → Async σ Unit
  | _, [] => pure ()
  | 0, _ :: _ => pending
  | rounds + 1, data => do
      let written ← await (AsyncWrite.pollWrite · data) polls
      if written = 0 then throw ["write zero"]
      else writeRounds polls rounds (data.drop written)

def writeAll [AsyncWrite σ] (data : Bytes) (polls : Nat) : Async σ Unit :=
  writeRounds polls data.length data

def flush [AsyncWrite σ] (polls : Nat) : Async σ Unit := await AsyncWrite.pollFlush polls

theorem readRounds_succ [AsyncRead σ] (polls rounds count : Nat) :
    (readRounds polls (rounds + 1) (count + 1) : Async σ Bytes) =
      read (count + 1) polls >>= fun bytes =>
        if bytes = [] then throw ["early eof"]
        else readRounds polls rounds (count + 1 - bytes.length) >>= fun others =>
          Pure.pure (bytes ++ others) := rfl

theorem bind_ok {run : Async σ α} {next : α → Async σ β} {state mid : σ} {value : α}
    (h : run state = some (.ok value, mid)) : (run >>= next) state = next value mid := by
  show (run state).bind _ = _
  rw [h]
  rfl

theorem bind_error {run : Async σ α} {next : α → Async σ β} {state mid : σ} {chain : List String}
    (h : run state = some (.error chain, mid)) : (run >>= next) state = some (.error chain, mid) := by
  show (run state).bind _ = _
  rw [h]
  rfl

-- When it is polled often enough, the function comes to its value.
def Yields (run : Nat → Async σ α) (state : σ) (value : α) (next : σ) : Prop :=
  ∃ enough, ∀ polls, enough ≤ polls → run polls state = some (.ok value, next)

def Fails (run : Nat → Async σ α) (state : σ) (chain : List String) (next : σ) : Prop :=
  ∃ enough, ∀ polls, enough ≤ polls → run polls state = some (.error chain, next)

-- What holds of both: the function comes to this result.
def Settles (run : Nat → Async σ α) (state : σ) (result : Result α) (next : σ) : Prop :=
  ∃ enough, ∀ polls, enough ≤ polls → run polls state = some (result, next)

theorem Settles.map {run : Nat → Async σ α} {state next : σ} {result : Result α}
    (h : Settles run state result next) (change : Result α → Result β) :
    Settles (fun polls state => (run polls state).map fun (result, next) => (change result, next)) state
      (change result) next := by
  obtain ⟨enough, hrun⟩ := h
  refine ⟨enough, fun polls hpolls => ?_⟩
  show (run polls state).map _ = _
  rw [hrun polls hpolls]
  rfl

theorem Yields.of_eq {run : Nat → Async σ α} {state next : σ} {value : α}
    (h : ∀ polls, run polls state = some (.ok value, next)) : Yields run state value next :=
  ⟨0, fun polls _ => h polls⟩

theorem Yields.pure (state : σ) (value : α) :
    Yields (fun _ => Pure.pure value) state value state := .of_eq fun _ => rfl

theorem Yields.ofResult {result : Result α} {value : α} (state : σ) (h : result = .ok value) :
    Yields (fun _ => Async.ofResult result) state value state := by
  rw [h]
  exact .of_eq fun _ => rfl

theorem Yields.bind_settles {run : Nat → Async σ α} {after : α → Nat → Async σ β} {state mid next : σ}
    {first : α} {result : Result β} (hf : Yields run state first mid)
    (hs : Settles (after first) mid result next) :
    Settles (fun polls => run polls >>= fun value => after value polls) state result next := by
  obtain ⟨front, hfront⟩ := hf
  obtain ⟨back, hback⟩ := hs
  refine ⟨max front back, fun polls hpolls => ?_⟩
  show (run polls >>= fun value => after value polls) state = _
  rw [bind_ok (hfront polls (by omega))]
  exact hback polls (by omega)

theorem Yields.bind {run : Nat → Async σ α} {after : α → Nat → Async σ β} {state mid next : σ}
    {first : α} {second : β} (hf : Yields run state first mid)
    (hs : Yields (after first) mid second next) :
    Yields (fun polls => run polls >>= fun value => after value polls) state second next :=
  hf.bind_settles hs

-- The waiting ends, where a poll that is not ready leaves less to wait for.
theorem Yields.await {poll : σ → Poll (IoResult α) × σ} (inv : σ → Prop) {less : σ → σ → Prop}
    (hless : WellFounded less)
    (hpending : ∀ state next, inv state → poll state = (.pending, next) → inv next ∧ less next state)
    (hfine : ∀ state error next, inv state → poll state ≠ (.ready (.error error), next))
    (state : σ) (hi : inv state) :
    ∃ last value next, inv last ∧ poll last = (.ready (.ok value), next) ∧
      Yields (Async.await poll) state value next := by
  induction state using hless.induction with
  | _ state ih =>
      cases hp : poll state with
      | mk result next =>
          cases result with
          | ready result =>
              cases result with
              | error error => exact absurd hp (hfine state error next hi)
              | ok value =>
                  refine ⟨state, value, next, hi, hp, 1, fun polls hpolls => ?_⟩
                  obtain ⟨polls, rfl⟩ : ∃ n, polls = n + 1 := ⟨polls - 1, by omega⟩
                  simp only [Async.await, hp]
          | pending =>
              obtain ⟨hn, hlower⟩ := hpending state next hi hp
              obtain ⟨last, value, after, hlast, hready, enough, hyields⟩ := ih next hlower hn
              refine ⟨last, value, after, hlast, hready, enough + 1, fun polls hpolls => ?_⟩
              obtain ⟨polls, rfl⟩ : ∃ n, polls = n + 1 := ⟨polls - 1, by omega⟩
              simp only [Async.await, hp]
              exact hyields polls (by omega)

-- One write, and then the rest.
theorem Yields.writeRounds [AsyncWrite σ] {rounds count : Nat} {data : Bytes} {state mid next : σ}
    (hdata : data ≠ []) (hcount : 0 < count)
    (hfirst : Yields (Async.await (AsyncWrite.pollWrite · data)) state count mid)
    (hrest : Yields (fun polls => Async.writeRounds polls rounds (data.drop count)) mid () next) :
    Yields (fun polls => Async.writeRounds polls (rounds + 1) data) state () next := by
  obtain ⟨byte, data, rfl⟩ := List.exists_cons_of_ne_nil hdata
  have hafter : Yields (fun polls => if count = 0 then throw ["write zero"]
      else Async.writeRounds polls rounds ((byte :: data).drop count)) mid () next := by
    simpa only [if_neg hcount.ne'] using hrest
  exact hfirst.bind hafter

-- What is asked again and again is ready again and again.
def Fair (ready : α → Prop) (answers : Nat → α) : Prop := ∀ n, ∃ m, n ≤ m ∧ ready (answers m)

-- How long it is until it is ready.
noncomputable def wait (ready : α → Prop) (answers : Nat → α) : Nat := sInf {n | ready (answers n)}

theorem Fair.drop {ready : α → Prop} {answers : Nat → α} (h : Fair ready answers) (used : Nat) :
    Fair ready fun n => answers (n + used) := by
  intro n
  obtain ⟨m, hle, hready⟩ := h (n + used)
  refine ⟨m - used, by omega, ?_⟩
  show ready (answers (m - used + used))
  rwa [Nat.sub_add_cancel (by omega)]

theorem Fair.wait_lt {ready : α → Prop} {answers : Nat → α} (h : Fair ready answers)
    (hfirst : ¬ready (answers 0)) : wait ready (fun n => answers (n + 1)) < wait ready answers := by
  obtain ⟨m, _, hm⟩ := h 0
  have hsome : {n | ready (answers n)}.Nonempty := ⟨m, hm⟩
  have hmem : ready (answers (wait ready answers)) := Nat.sInf_mem hsome
  have hpos : wait ready answers ≠ 0 := fun hzero => hfirst (hzero ▸ hmem)
  have hle : wait ready (fun n => answers (n + 1)) ≤ wait ready answers - 1 := by
    refine Nat.sInf_le ?_
    show ready (answers (wait ready answers - 1 + 1))
    rwa [Nat.sub_add_cancel (Nat.pos_of_ne_zero hpos)]
  omega

end Async

-- A stream from which everything there is can be read, in pieces of any size. `good` is what
-- the reading keeps.
structure Source (σ : Type) [AsyncRead σ] where
  good : σ → Prop
  rest : σ → Bytes
  read : ∀ state room, good state → 0 < room → rest state ≠ [] →
    ∃ bytes next, Async.Yields (Async.read room) state bytes next ∧ good next ∧ bytes ≠ [] ∧
      bytes.length ≤ room ∧ rest state = bytes ++ rest next

namespace Source

open Async

variable {σ α β : Type} [AsyncRead σ] (source : Source σ)

-- The function finds `value` in `encoded` and leaves whatever follows unread.
def Reads (run : Nat → Async σ α) (value : α) (encoded : Bytes) : Prop :=
  ∀ state tail, source.good state → source.rest state = encoded ++ tail →
    ∃ next, Yields run state value next ∧ source.good next ∧ source.rest next = tail

variable {source}

theorem Reads.ofResult {result : Result α} {value : α} (h : result = .ok value) :
    source.Reads (fun _ => Async.ofResult result) value [] :=
  fun state _ hgood hrest => ⟨state, .ofResult state h, hgood, hrest⟩

theorem Reads.pure (value : α) : source.Reads (fun _ => Pure.pure value) value [] :=
  fun state _ hgood hrest => ⟨state, .pure state value, hgood, hrest⟩

theorem Reads.ensure {condition : Bool} {message : String} (h : condition = true) :
    source.Reads (fun _ => Async.ensure condition message) () [] :=
  Reads.ofResult (Result.ensure_eq_ok.mpr h)

theorem Reads.bind {run : Nat → Async σ α} {after : α → Nat → Async σ β} {first : α} {second : β}
    {front back : Bytes} (hf : source.Reads run first front)
    (hs : source.Reads (after first) second back) :
    source.Reads (fun polls => run polls >>= fun value => after value polls) second
      (front ++ back) := by
  intro state tail hgood hrest
  rw [List.append_assoc] at hrest
  obtain ⟨mid, hfirst, hmid, hleft⟩ := hf state (back ++ tail) hgood hrest
  obtain ⟨next, hsecond, hnext, htail⟩ := hs mid tail hmid hleft
  exact ⟨next, hfirst.bind hsecond, hnext, htail⟩

-- A step that takes nothing.
theorem Reads.bind_nil {run : Nat → Async σ α} {after : α → Nat → Async σ β} {first : α}
    {second : β} {encoded : Bytes} (hf : source.Reads run first [])
    (hs : source.Reads (after first) second encoded) :
    source.Reads (fun polls => run polls >>= fun value => after value polls) second encoded :=
  hf.bind hs

theorem Reads.bind_last {run : Nat → Async σ α} {after : α → Nat → Async σ β} {first : α}
    {second : β} {encoded : Bytes} (hf : source.Reads run first encoded)
    (hs : source.Reads (after first) second []) :
    source.Reads (fun polls => run polls >>= fun value => after value polls) second encoded := by
  have h := hf.bind hs
  rwa [List.append_nil] at h

theorem Reads.rounds (bytes : Bytes) (rounds : Nat) (h : bytes.length ≤ rounds) :
    source.Reads (fun polls => readRounds polls rounds bytes.length) bytes bytes := by
  induction rounds generalizing bytes with
  | zero =>
      obtain rfl := List.eq_nil_of_length_eq_zero (Nat.le_zero.mp h)
      exact Reads.pure []
  | succ rounds ih =>
      cases bytes with
      | nil => exact Reads.pure []
      | cons byte bytes =>
          intro state tail hgood hrest
          obtain ⟨piece, mid, hread, hmid, hpiece, hle, hleft⟩ := source.read state
            (byte :: bytes).length hgood (Nat.succ_pos _) (by rw [hrest]; exact List.cons_ne_nil _ _)
          -- the piece is the front of what is wanted
          obtain ⟨others, hothers⟩ : piece <+: byte :: bytes := by
            refine List.prefix_of_prefix_length_le ⟨source.rest mid, ?_⟩ ⟨tail, rfl⟩ hle
            rw [← hleft, hrest]
          have hpos := List.length_pos_iff.mpr hpiece
          have hlength := congrArg List.length hothers
          simp only [List.length_append, List.length_cons] at hlength h
          have htail : source.rest mid = others ++ tail := by
            rw [hrest, ← hothers, List.append_assoc] at hleft
            exact (List.append_cancel_left hleft).symm
          obtain ⟨next, hothersRead, hnext, hend⟩ := ih others (by omega) mid tail hmid htail
          refine ⟨next, ?_, hnext, hend⟩
          have hcount : (byte :: bytes).length - piece.length = others.length := by
            simp only [List.length_cons]
            omega
          obtain ⟨front, hfront⟩ := hread
          obtain ⟨back, hback⟩ := hothersRead
          refine ⟨max front back, fun polls hpolls => ?_⟩
          show readRounds polls (rounds + 1) (bytes.length + 1) state = _
          rw [readRounds_succ, ← List.length_cons,
            bind_ok (hfront polls (by omega)), if_neg hpiece, hcount]
          rw [bind_ok (hback polls (by omega)), hothers]
          rfl

theorem Reads.exact (bytes : Bytes) : source.Reads (readExact bytes.length) bytes bytes :=
  Reads.rounds bytes bytes.length (Nat.le_refl _)

theorem Reads.exact_of_length {bytes : Bytes} {count : Nat} (h : bytes.length = count) :
    source.Reads (readExact count) bytes bytes := h ▸ Reads.exact bytes

end Source

end SingBox.Library
