import SingBox.Library.Checked
import SingBox.Library.Decoder
import SingBox.Library.Exchange

namespace SingBox.Library

open Async (Fails Focus Yields)

namespace Async

variable {σ α β : Type}

-- A fault ends a function without a result.
def ofChecked (checked : Checked α) : Async σ α := fun state =>
  match checked.run with
  | .ok result => some (result, state)
  | .error _ => none

def withContext (context : String) (run : Async σ α) : Async σ α := fun state =>
  (run state).map fun (result, next) => (Result.withContext context result, next)

-- From one state on a function does what another one does from another state on.
def Leads (run : Nat → Async σ α) (state : σ) (after : Nat → Async σ α) (mid : σ) : Prop :=
  ∃ enough, ∀ polls, enough ≤ polls → run polls state = after polls mid

theorem Yields.leads {run : Nat → Async σ β} {state mid : σ} {value : β}
    (h : Yields run state value mid) (after : β → Nat → Async σ α) :
    Leads (fun polls => run polls >>= fun value => after value polls) state (after value) mid := by
  obtain ⟨enough, hrun⟩ := h
  exact ⟨enough, fun polls hpolls => bind_ok (hrun polls hpolls)⟩

theorem Leads.trans {run after later : Nat → Async σ α} {state mid last : σ}
    (h : Leads run state after mid) (hlater : Leads after mid later last) :
    Leads run state later last := by
  obtain ⟨front, hfront⟩ := h
  obtain ⟨back, hback⟩ := hlater
  exact ⟨max front back, fun polls hpolls =>
    (hfront polls (by omega)).trans (hback polls (by omega))⟩

theorem Leads.fails {run after : Nat → Async σ α} {state mid next : σ} {chain : List String}
    (h : Leads run state after mid) (hfails : Fails after mid chain next) :
    Fails run state chain next := by
  obtain ⟨front, hfront⟩ := h
  obtain ⟨back, hback⟩ := hfails
  exact ⟨max front back, fun polls hpolls =>
    (hfront polls (by omega)).trans (hback polls (by omega))⟩

theorem Yields.withContext {run : Nat → Async σ α} {state next : σ} {value : α}
    (h : Yields run state value next) (context : String) :
    Yields (fun polls => Async.withContext context (run polls)) state value next :=
  Settles.map h (Result.withContext context)

theorem Fails.withContext {run : Nat → Async σ α} {state next : σ} {chain : List String}
    (h : Fails run state chain next) (context : String) :
    Fails (fun polls => Async.withContext context (run polls)) state (context :: chain) next :=
  Settles.map h (Result.withContext context)

end Async

namespace Decoder

variable {α β : Type} {input left : Bytes}

theorem bind_eq_ok {read : Decoder α} {next : α → Decoder β} {value : β} :
    (read >>= next) input = .ok (value, left) ↔
      ∃ first mid, read input = .ok (first, mid) ∧ next first mid = .ok (value, left) := by
  rw [bind_apply, Result.bind_eq_ok]
  exact ⟨fun ⟨found, hread, hnext⟩ => ⟨found.1, found.2, hread, hnext⟩,
    fun ⟨first, mid, hread, hnext⟩ => ⟨(first, mid), hread, hnext⟩⟩

theorem ofResult_eq_ok {result : Result α} {value : α} :
    ofResult result input = .ok (value, left) ↔ result = .ok value ∧ left = input := by
  cases result with
  | error chain => exact ⟨nofun, nofun⟩
  | ok found =>
      constructor
      · intro h
        obtain ⟨rfl, rfl⟩ := Prod.mk.inj (Except.ok.inj h)
        exact ⟨rfl, rfl⟩
      · rintro ⟨hvalue, rfl⟩
        rw [hvalue]
        rfl

theorem ensure_eq_ok {condition : Bool} {message : String} {value : Unit} :
    ensure condition message input = .ok (value, left) ↔ condition = true ∧ left = input := by
  rw [ensure, ofResult_eq_ok, Result.ensure_eq_ok]

theorem exact_eq_ok {chain : List String} {count : Nat} {value : Bytes} :
    Decoder.exact chain count input = .ok (value, left) ↔
      value.length = count ∧ input = value ++ left := by
  constructor
  · intro h
    unfold Decoder.exact at h
    split at h
    · rename_i hcount
      obtain ⟨rfl, hleft⟩ := Prod.mk.inj (Except.ok.inj h)
      refine ⟨List.length_take_of_le hcount, ?_⟩
      rw [← hleft, List.take_append_drop]
    · cases h
  · rintro ⟨rfl, rfl⟩
    exact Reads.exact chain value left

end Decoder

section

variable {σ α β : Type} [AsyncRead σ]

-- On a stream with this input a function comes to what a decoder makes of the input.
structure Source.Follows (source : Source σ) (run : Nat → Async σ α) (decoder : Decoder α)
    (input : Bytes) : Prop where
  yields : ∀ state, source.good state → source.rest state = input →
    ∀ value left, decoder input = .ok (value, left) →
      ∃ next, Yields run state value next ∧ source.good next ∧ source.rest next = left
  fails : ∀ state, source.good state → source.rest state = input →
    ∀ chain, decoder input = .error chain → ∃ next, Fails run state chain next ∧ source.good next

namespace Source.Follows

variable {source : Source σ} {run : Nat → Async σ α} {decoder : Decoder α} {input : Bytes}

theorem ofResult (result : Result α) (input : Bytes) :
    source.Follows (fun _ => Async.ofResult result) (Decoder.ofResult result) input where
  yields state hgood hrest value left h := by
    cases result with
    | error chain => cases h
    | ok found =>
        obtain ⟨rfl, rfl⟩ := Prod.mk.inj (Except.ok.inj h)
        exact ⟨state, .ofResult state rfl, hgood, hrest⟩
  fails state hgood _ chain h := by
    cases result with
    | error found =>
        obtain rfl := Except.error.inj h
        exact ⟨state, .ofResult state rfl, hgood⟩
    | ok value => cases h

theorem ofChecked {checked : Checked α} {result : Result α} (h : checked = Checked.ofResult result)
    (input : Bytes) :
    source.Follows (fun _ => Async.ofChecked checked) (Decoder.ofResult result) input := by
  rw [h]
  exact ofResult result input

theorem pure (value : α) (input : Bytes) :
    source.Follows (fun _ => Pure.pure value) (Pure.pure value) input := ofResult (.ok value) input

theorem ensure (condition : Bool) (message : String) (input : Bytes) :
    source.Follows (fun _ => Async.ensure condition message) (Decoder.ensure condition message) input :=
  ofResult _ input

theorem bind {after : α → Nat → Async σ β} {next : α → Decoder β}
    (h : source.Follows run decoder input)
    (hnext : ∀ value left, decoder input = .ok (value, left) →
      source.Follows (after value) (next value) left) :
    source.Follows (fun polls => run polls >>= fun value => after value polls) (decoder >>= next) input where
  yields state hgood hrest second left hboth := by
    obtain ⟨⟨first, mid⟩, hfirst, hsecond⟩ := Result.bind_eq_ok.mp hboth
    obtain ⟨reached, hrun, hreached, hmid⟩ := h.yields state hgood hrest first mid hfirst
    obtain ⟨last, hafter, hlast, hleft⟩ := (hnext first mid hfirst).yields reached hreached hmid second left hsecond
    exact ⟨last, hrun.bind hafter, hlast, hleft⟩
  fails state hgood hrest chain hboth := by
    cases hfirst : decoder input with
    | error found =>
        rw [Decoder.bind_apply, hfirst] at hboth
        obtain rfl := Except.error.inj hboth
        obtain ⟨reached, hrun, hreached⟩ := h.fails state hgood hrest found hfirst
        exact ⟨reached, hrun.bind after, hreached⟩
    | ok result =>
        obtain ⟨first, mid⟩ := result
        rw [Decoder.bind_apply, hfirst] at hboth
        obtain ⟨reached, hrun, hreached, hmid⟩ := h.yields state hgood hrest first mid hfirst
        obtain ⟨last, hafter, hlast⟩ := (hnext first mid hfirst).fails reached hreached hmid chain hboth
        exact ⟨last, hrun.bind_fails hafter, hlast⟩

-- A step that the decoder does not take.
theorem bind_checked {checked : Checked β} {value : β} {after : β → Nat → Async σ α}
    (h : checked = Pure.pure value) (hafter : source.Follows (after value) decoder input) :
    source.Follows (fun polls => Async.ofChecked checked >>= fun found => after found polls)
      decoder input := by
  rw [h]
  exact hafter

theorem withContext (h : source.Follows run decoder input) (context : String) :
    source.Follows (fun polls => Async.withContext context (run polls))
      (Decoder.withContext context decoder) input where
  yields state hgood hrest value left hdecoder := by
    obtain ⟨next, hrun, hnext⟩ :=
      h.yields state hgood hrest value left (Result.withContext_eq_ok.mp hdecoder)
    exact ⟨next, hrun.withContext context, hnext⟩
  fails state hgood hrest chain hdecoder := by
    rw [Decoder.withContext] at hdecoder
    cases hfound : decoder input with
    | ok result => rw [hfound] at hdecoder; cases hdecoder
    | error found =>
        rw [hfound] at hdecoder
        obtain rfl := Except.error.inj hdecoder
        obtain ⟨next, hrun, hnext⟩ := h.fails state hgood hrest found hfound
        exact ⟨next, hrun.withContext context, hnext⟩

-- Bytes are asked for that do not come.
theorem readRounds_short (hends : source.Ends) (rounds count : Nat) {state : σ}
    (hgood : source.good state) (hshort : (source.rest state).length < count) (hrounds : count ≤ rounds) :
    ∃ next, Fails (fun polls => Async.readRounds polls rounds count) state ["early eof"] next ∧
      source.good next := by
  induction rounds generalizing count state with
  | zero => omega
  | succ rounds ih =>
      obtain ⟨count, rfl⟩ : ∃ n, count = n + 1 := ⟨count - 1, by omega⟩
      simp only [Async.readRounds_succ]
      by_cases hrest : source.rest state = []
      · obtain ⟨next, hread, hnext, -⟩ := hends state (count + 1) hgood (Nat.succ_pos _) hrest
        exact ⟨next, hread.bind_fails ⟨0, fun _ _ => rfl⟩, hnext⟩
      · obtain ⟨piece, mid, hread, hmid, hpiece, -, hleft⟩ :=
          source.read state (count + 1) hgood (Nat.succ_pos _) hrest
        have hpos := List.length_pos_iff.mpr hpiece
        have hlength := congrArg List.length hleft
        rw [List.length_append] at hlength
        obtain ⟨next, hothers, hnext⟩ := ih (count + 1 - piece.length) hmid (by omega) (by omega)
        refine ⟨next, hread.bind_fails ?_, hnext⟩
        simp only [if_neg hpiece]
        exact hothers.bind _

theorem exact (hends : source.Ends) (count : Nat) (input : Bytes) :
    source.Follows (Async.readExact count) (Decoder.exact ["early eof"] count) input where
  yields state hgood hrest value left h := by
    unfold Decoder.exact at h
    split at h
    case isFalse => cases h
    case isTrue hcount =>
      obtain ⟨rfl, rfl⟩ := Prod.mk.inj (Except.ok.inj h)
      have hreads : source.Reads (Async.readExact (input.take count).length) (input.take count)
          (input.take count) := .exact _
      rw [List.length_take, Nat.min_eq_left hcount] at hreads
      exact hreads state (input.drop count) hgood (by rw [hrest, List.take_append_drop])
  fails state hgood hrest chain h := by
    unfold Decoder.exact at h
    split at h
    case isTrue => cases h
    case isFalse hcount =>
      obtain rfl := Except.error.inj h
      exact readRounds_short hends count count hgood (by rw [hrest]; omega) (Nat.le_refl count)

end Source.Follows

end

-- A stream with the sizes of the memory that has been asked for while it was read.
structure Metered (σ : Type) where
  stream : σ
  allocated : List Nat := []

namespace Metered

variable {σ : Type}

def onStream : Focus (Metered σ) σ where
  part := stream
  put state stream := { state with stream }
  part_put _ _ := rfl
  put_put _ _ _ := rfl

instance [AsyncRead σ] : AsyncRead (Metered σ) where
  pollRead state room := onStream.poll (AsyncRead.pollRead · room) state

def allocate (size : Nat) : Async (Metered σ) Unit :=
  Async.modify fun state => { state with allocated := state.allocated ++ [size] }

variable [AsyncRead σ]

-- The stream within, where no more than `most` has been asked for at a time.
def source (inner : Source σ) (most : Nat) : Source (Metered σ) where
  good state := inner.good state.stream ∧ ∀ size ∈ state.allocated, size ≤ most
  rest state := inner.rest state.stream
  read := by
    rintro state room ⟨hgood, hsizes⟩ hroom hrest
    obtain ⟨bytes, next, hread, hnext, hbytes⟩ := inner.read state.stream room hgood hroom hrest
    exact ⟨bytes, { state with stream := next }, onStream.yields hread, ⟨hnext, hsizes⟩, hbytes⟩

theorem source_ends {inner : Source σ} (h : inner.Ends) (most : Nat) : (source inner most).Ends := by
  rintro state room ⟨hgood, hsizes⟩ hroom hrest
  obtain ⟨next, hread, hnext, hempty⟩ := h state.stream room hgood hroom hrest
  exact ⟨{ state with stream := next }, onStream.yields hread, ⟨hnext, hsizes⟩, hempty⟩

theorem follows_allocate {α : Type} {inner : Source σ} {most size : Nat} {input : Bytes}
    {run : Nat → Async (Metered σ) α} {decoder : Decoder α} (h : size ≤ most)
    (hrun : (source inner most).Follows run decoder input) :
    (source inner most).Follows (fun polls => allocate size >>= fun _ => run polls) decoder input := by
  have hgood : ∀ state : Metered σ, (source inner most).good state →
      (source inner most).good { state with allocated := state.allocated ++ [size] } := by
    rintro state ⟨hstream, hsizes⟩
    refine ⟨hstream, fun other hother => ?_⟩
    obtain hold | hnew := List.mem_append.mp hother
    · exact hsizes other hold
    · rwa [List.mem_singleton.mp hnew]
  constructor
  · intro state hstate hrest value left hvalue
    obtain ⟨next, hyields, hnext⟩ := hrun.yields _ (hgood state hstate) hrest value left hvalue
    exact ⟨next, (Yields.modify _ state).bind hyields, hnext⟩
  · intro state hstate hrest chain hchain
    obtain ⟨next, hfails, hnext⟩ := hrun.fails _ (hgood state hstate) hrest chain hchain
    exact ⟨next, (Yields.modify _ state).bind_fails hfails, hnext⟩

end Metered

end SingBox.Library
