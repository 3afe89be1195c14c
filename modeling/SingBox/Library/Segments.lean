import SingBox.Library.Relay

namespace SingBox.Library

namespace Async

variable {σ κ α β : Type}

section

variable {run : Nat → Async σ α} {state mid next : σ} {chain : List String}

theorem Fails.ofResult {result : Result α} (state : σ) (h : result = .error chain) :
    Fails (fun _ => Async.ofResult result) state chain state := by
  rw [h]
  exact ⟨0, fun _ _ => rfl⟩

theorem Fails.bind (h : Fails run state chain next) (after : α → Nat → Async σ β) :
    Fails (fun polls => run polls >>= fun value => after value polls) state chain next := by
  obtain ⟨enough, hrun⟩ := h
  exact ⟨enough, fun polls hpolls => bind_error (hrun polls hpolls)⟩

theorem Yields.bind_fails {after : α → Nat → Async σ β} {first : α} (hf : Yields run state first mid)
    (hs : Fails (after first) mid chain next) :
    Fails (fun polls => run polls >>= fun value => after value polls) state chain next :=
  hf.bind_settles hs

-- A function that comes to a value has come to one at each step.
theorem of_bind {run : Async σ α} {after : α → Async σ β} {value : β}
    (h : (run >>= after) state = some (.ok value, next)) :
    ∃ first mid, run state = some (.ok first, mid) ∧ after first mid = some (.ok value, next) := by
  cases hrun : run state with
  | none =>
      have hnone : (run >>= after) state = none := by
        show (run state).bind _ = _
        rw [hrun]
        rfl
      cases hnone.symm.trans h
  | some result =>
      obtain ⟨result | first, mid⟩ := result
      · rw [bind_error hrun] at h
        cases h
      · rw [bind_ok hrun] at h
        exact ⟨first, mid, rfl, h⟩

theorem Yields.bind_iff {after : α → Nat → Async σ β} {first : α} {second : β}
    (hf : Yields run state first mid) :
    Yields (fun polls => run polls >>= fun value => after value polls) state second next ↔
      Yields (after first) mid second next := by
  refine ⟨fun h => ?_, hf.bind⟩
  obtain ⟨front, hfront⟩ := hf
  obtain ⟨back, hback⟩ := h
  refine ⟨max front back, fun polls hpolls => ?_⟩
  have hall : (run polls >>= fun value => after value polls) state = _ := hback polls (by omega)
  rwa [bind_ok (hfront polls (by omega))] at hall

theorem Yields.tryCatch {value : α} (h : Yields run state value next)
    (handler : List String → Nat → Async σ α) :
    Yields (fun polls => tryCatch (run polls) fun chain => handler chain polls) state value next := by
  obtain ⟨enough, hrun⟩ := h
  refine ⟨enough, fun polls hpolls => ?_⟩
  show (run polls state).bind _ = _
  rw [hrun polls hpolls]
  rfl

-- What fails comes to no value.
theorem Fails.not_yields (hf : Fails run state chain next) (value : α) (other : σ) :
    ¬Yields run state value other := by
  rintro ⟨back, hback⟩
  obtain ⟨front, hfront⟩ := hf
  have hsame := (hfront (max front back) (by omega)).symm.trans (hback (max front back) (by omega))
  cases hsame

end

-- A loop of which a round fails, sooner or later.
def LoopFails (body : κ → Nat → Async σ (Pass κ α)) (position : κ) (state : σ) (chain : List String)
    (next : σ) : Prop :=
  ∃ enough, ∀ rounds polls, enough ≤ rounds → enough ≤ polls →
    loopRounds body polls rounds position state = some (.error chain, next)

section

variable {body : κ → Nat → Async σ (Pass κ α)} {position : κ} {state mid next : σ}
  {chain : List String}

theorem LoopFails.here (h : Fails (body position) state chain next) :
    LoopFails body position state chain next := by
  obtain ⟨enough, hbody⟩ := h
  refine ⟨enough + 1, fun rounds polls hrounds hpolls => ?_⟩
  obtain ⟨rounds, rfl⟩ : ∃ n, rounds = n + 1 := ⟨rounds - 1, by omega⟩
  rw [loopRounds, bind_error (hbody polls (by omega))]

theorem LoopFails.again {after : κ} (h : Yields (body position) state (.again after) mid)
    (hrest : LoopFails body after mid chain next) : LoopFails body position state chain next :=
  h.loopRounds hrest

theorem LoopFails.fails (h : LoopFails body position state chain next) :
    Fails (loop body position) state chain next := by
  obtain ⟨enough, hloop⟩ := h
  exact ⟨enough, fun polls hpolls => hloop polls polls hpolls hpolls⟩

end

end Async

-- The pieces that reads of `room` bytes give, one after another.
inductive Segments {σ : Type} [AsyncRead σ] (room : Nat) : σ → List Bytes → σ → Prop where
  | nil (state : σ) : Segments room state [] state
  | cons {state mid next : σ} {chunk : Bytes} {chunks : List Bytes}
      (hread : Async.Yields (Async.read room) state chunk mid) (hchunk : chunk ≠ [])
      (hrest : Segments room mid chunks next) : Segments room state (chunk :: chunks) next

namespace Segments

variable {σ : Type} [AsyncRead σ] {room : Nat}

-- Whatever is left of a stream comes in some pieces.
theorem exists_of_source {source : Source σ} (hroom : 0 < room) {state : σ}
    (hgood : source.good state) :
    ∃ reads next, Segments room state reads next ∧ reads.flatten = source.rest state ∧
      source.good next ∧ source.rest next = [] := by
  induction hlength : (source.rest state).length using Nat.strongRecOn generalizing state with
  | _ length ih =>
      by_cases hrest : source.rest state = []
      · exact ⟨[], state, .nil state, hrest.symm, hgood, hrest⟩
      · obtain ⟨chunk, mid, hread, hmid, hchunk, -, hleft⟩ := source.read state room hgood hroom hrest
        have hpos := List.length_pos_iff.mpr hchunk
        have htotal := congrArg List.length hleft
        rw [List.length_append] at htotal
        obtain ⟨reads, next, hreads, hflat, hnext⟩ := ih _ (by omega) hmid rfl
        refine ⟨chunk :: reads, next, .cons hread hchunk hreads, ?_, hnext⟩
        rw [List.flatten_cons, hflat, hleft]

theorem flatten_eq_nil {state next : σ} {reads : List Bytes} (h : Segments room state reads next)
    (hflat : reads.flatten = []) : reads = [] ∧ state = next := by
  cases h with
  | nil => exact ⟨rfl, rfl⟩
  | cons hread hchunk hrest =>
      rw [List.flatten_cons, List.append_eq_nil_iff] at hflat
      exact absurd hflat.1 hchunk

-- Pieces that are no larger than the room come as they are.
theorem of_pieces {pieces : List Bytes} (h : ∀ piece ∈ pieces, piece ≠ [] ∧ piece.length ≤ room) :
    Segments room (⟨pieces⟩ : Pieces) pieces ⟨[]⟩ := by
  induction pieces with
  | nil => exact .nil _
  | cons piece pieces ih =>
      obtain ⟨⟨hpiece, hfits⟩, hothers⟩ := List.forall_mem_cons.mp h
      exact .cons (.ready (if_pos hfits)) hpiece (ih hothers)

end Segments

end SingBox.Library
