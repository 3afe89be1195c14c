import SingBox.AnyTls.Md5
import SingBox.Library.Checked
import SingBox.Library.Digest
import SingBox.Library.Sine
import SingBox.Vless.Sha1

namespace SingBox

open Library Digest

section Words

variable {word count : UInt32}

-- Both crates turn the words of the code.
theorem toBitVec_rotate (hpos : 0 < count.toNat) (hlt : count.toNat < 32) :
    ((word <<< count) ||| (word >>> (32 - count))).toBitVec = word.toBitVec.rotateLeft count.toNat := by
  have hback : (32 - count.toBitVec).toNat % 32 = 32 - count.toNat := by
    have hle : count.toBitVec ≤ 32 := BitVec.le_def.mpr (Nat.le_of_lt hlt : count.toNat ≤ 32)
    have hsub : (32 - count.toBitVec).toNat = 32 - count.toNat := BitVec.toNat_sub_of_le hle
    rw [hsub, Nat.mod_eq_of_lt (by omega)]
  have hcount : count.toBitVec.toNat % 32 = count.toNat := Nat.mod_eq_of_lt hlt
  have hleft : word.toBitVec <<< (count.toBitVec % 32) = word.toBitVec <<< (count.toNat % 32) := by
    rw [BitVec.shiftLeft_eq', BitVec.toNat_umod]
    rfl
  have hright : word.toBitVec >>> ((32 - count.toBitVec) % 32) =
      word.toBitVec >>> (32 - count.toNat % 32) := by
    rw [BitVec.ushiftRight_eq', BitVec.toNat_umod, Nat.mod_eq_of_lt hlt]
    exact congrArg _ hback
  rw [BitVec.rotateLeft_def, ← hleft, ← hright]
  rfl

theorem toBitVec_ofBe (bytes : Bytes) :
    (UInt32.ofNat (ofBe bytes)).toBitVec = BitVec.ofNat 32 (value (ofBytes bytes)) := by
  rw [value_ofBytes]
  rfl

-- The bits that `x` chooses are never both there.
theorem or_eq_ch (x y z : Word) : (x &&& y) ||| (~~~x &&& z) = Digest.Sha1.ch x y z := by
  refine BitVec.eq_of_getLsbD_eq fun i hi => ?_
  simp only [Digest.Sha1.ch, BitVec.getLsbD_or, BitVec.getLsbD_and, BitVec.getLsbD_not, BitVec.getLsbD_xor, hi,
    decide_true, Bool.true_and]
  cases x.getLsbD i <;> cases y.getLsbD i <;> cases z.getLsbD i <;> rfl

theorem or_eq_maj (x y z : Word) : (x &&& y) ||| (x &&& z) ||| (y &&& z) = Digest.Sha1.maj x y z := by
  refine BitVec.eq_of_getLsbD_eq fun i _ => ?_
  simp only [Digest.Sha1.maj, BitVec.getLsbD_or, BitVec.getLsbD_and, BitVec.getLsbD_xor]
  cases x.getLsbD i <;> cases y.getLsbD i <;> cases z.getLsbD i <;> rfl

end Words

namespace Vless.Sha1

-- The state in the words of the standard.
def view (state : State) : Digest.Sha1.State :=
  ⟨state.a.toBitVec, state.b.toBitVec, state.c.toBitVec, state.d.toBitVec, state.e.toBitVec⟩

theorem toBitVec_rotateLeft (word : UInt32) {count : UInt32} (hpos : 0 < count.toNat)
    (hlt : count.toNat < 32) :
    (rotateLeft word count).toBitVec = word.toBitVec.rotateLeft count.toNat := toBitVec_rotate hpos hlt

theorem view_next {state : State} {W : Nat → Word} {t : Nat} {word function constant : UInt32}
    (hword : word.toBitVec = W t) (hconstant : constant.toBitVec = Digest.Sha1.K t)
    (hfunction : function.toBitVec =
      Digest.Sha1.f t state.b.toBitVec state.c.toBitVec state.d.toBitVec) :
    view ⟨rotateLeft state.a 5 + function + state.e + constant + word, state.a, rotateLeft state.b 30,
      state.c, state.d⟩ = Digest.Sha1.step W (view state) t := by
  have ha : (rotateLeft state.a 5 + function + state.e + constant + word).toBitVec =
      (Digest.Sha1.step W (view state) t).a := by
    rw [UInt32.toBitVec_add, UInt32.toBitVec_add, UInt32.toBitVec_add, UInt32.toBitVec_add,
      toBitVec_rotateLeft _ (by decide) (by decide), hword, hconstant, hfunction]
    rfl
  have hc : (rotateLeft state.b 30).toBitVec = (Digest.Sha1.step W (view state) t).c :=
    toBitVec_rotateLeft _ (by decide) (by decide)
  rw [view, ha, hc]
  rfl

theorem view_round {W : Nat → Word} {word : UInt32} (state : State) {t : Nat}
    (hword : word.toBitVec = W t) : view (round state (word, t)) = Digest.Sha1.step W (view state) t := by
  have hch := or_eq_ch state.b.toBitVec state.c.toBitVec state.d.toBitVec
  have hmaj := or_eq_maj state.b.toBitVec state.c.toBitVec state.d.toBitVec
  unfold round
  by_cases hfirst : t < 20
  · simp only [if_pos hfirst]
    refine view_next hword ?_ ?_
    · rw [Digest.Sha1.K, if_pos (by omega)]
      rfl
    · rw [Digest.Sha1.f, if_pos (by omega)]
      exact hch
  · by_cases hsecond : t < 40
    · simp only [if_neg hfirst, if_pos hsecond]
      refine view_next hword ?_ ?_
      · rw [Digest.Sha1.K, if_neg (by omega), if_pos (by omega)]
        rfl
      · rw [Digest.Sha1.f, if_neg (by omega), if_pos (by omega)]
        rfl
    · by_cases hthird : t < 60
      · simp only [if_neg hfirst, if_neg hsecond, if_pos hthird]
        refine view_next hword ?_ ?_
        · rw [Digest.Sha1.K, if_neg (by omega), if_neg (by omega), if_pos (by omega)]
          rfl
        · rw [Digest.Sha1.f, if_neg (by omega), if_neg (by omega), if_pos (by omega)]
          exact hmaj
      · simp only [if_neg hfirst, if_neg hsecond, if_neg hthird]
        refine view_next hword ?_ ?_
        · rw [Digest.Sha1.K, if_neg (by omega), if_neg (by omega), if_neg (by omega)]
          rfl
        · rw [Digest.Sha1.f, if_neg (by omega), if_neg (by omega), if_neg (by omega)]
          rfl

-- The words of a block.
def blockWord (block : Bits) (t : Nat) : Word := BitVec.ofNat 32 (value (part 32 block t))

def scheduled (chunk : Bytes) (t : Nat) : UInt32 :=
  UInt32.ofBitVec (Digest.Sha1.schedule (blockWord (ofBytes chunk)) t)

theorem scheduled_first (chunk : Bytes) {t : Nat} (h : t < 16) :
    scheduled chunk t = UInt32.ofNat (ofBe ((chunk.drop (t * 4)).take 4)) := by
  have hpart : part 32 (ofBytes chunk) t = ofBytes ((chunk.drop (4 * t)).take 4) := part_ofBytes 4 chunk t
  refine UInt32.toBitVec_inj.mp ?_
  rw [toBitVec_ofBe, scheduled, Digest.Sha1.schedule, if_pos h, blockWord, hpart, Nat.mul_comm t]

theorem scheduled_next (chunk : Bytes) {t : Nat} (h : 16 ≤ t) : scheduled chunk t =
    rotateLeft (scheduled chunk (t - 3) ^^^ scheduled chunk (t - 8) ^^^ scheduled chunk (t - 14) ^^^
      scheduled chunk (t - 16)) 1 := by
  refine UInt32.toBitVec_inj.mp ?_
  rw [toBitVec_rotateLeft _ (by decide) (by decide), scheduled, Digest.Sha1.schedule, if_neg (by omega)]
  rfl

theorem getD_scheduled (chunk : Bytes) {t count : Nat} (h : t < count) :
    ((List.range count).map (scheduled chunk)).getD t 0 = scheduled chunk t := by
  rw [List.getD_eq_getElem?_getD, List.getElem?_map, List.getElem?_range h]
  rfl

theorem words_eq (chunk : Bytes) : words chunk = (List.range 80).map (scheduled chunk) := by
  have hfirst : ((List.range 16).map fun index =>
      UInt32.ofNat (ofBe ((chunk.drop (index * 4)).take 4))) = (List.range 16).map (scheduled chunk) :=
    List.map_congr_left fun t ht => (scheduled_first chunk (List.mem_range.mp ht)).symm
  have hmore (count : Nat) : (List.range' 16 count).foldl nextWord ((List.range 16).map (scheduled chunk)) =
      (List.range (16 + count)).map (scheduled chunk) := by
    induction count with
    | zero => rfl
    | succ count ih =>
        rw [List.range'_1_concat, List.foldl_append, ih, ← Nat.add_assoc, List.range_succ, List.map_append]
        show nextWord _ (16 + count) = _
        rw [nextWord, getD_scheduled _ (by omega), getD_scheduled _ (by omega), getD_scheduled _ (by omega),
          getD_scheduled _ (by omega), ← scheduled_next chunk (by omega)]
        rfl
  rw [words, hfirst]
  exact hmore 64

theorem zipIdx_words (chunk : Bytes) :
    (words chunk).zipIdx = (List.range 80).map fun t => (scheduled chunk t, t) := by
  rw [words_eq, List.zipIdx_map]
  refine List.ext_getElem (by simp) fun t _ _ => ?_
  simp

theorem view_compress (state : State) (chunk : Bytes) :
    Digest.Sha1.process (view state) (ofBytes chunk) = view (compress state chunk) := by
  have hlast : (List.range 80).foldl (Digest.Sha1.step (Digest.Sha1.schedule (blockWord (ofBytes chunk))))
      (view state) = view ((words chunk).zipIdx.foldl round state) := by
    rw [zipIdx_words, List.foldl_map]
    exact List.foldl_hom view fun state t => (view_round state rfl).symm
  obtain ⟨last, hrounds⟩ : ∃ last, (words chunk).zipIdx.foldl round state = last := ⟨_, rfl⟩
  rw [hrounds] at hlast
  unfold compress
  rw [hrounds]
  show Digest.Sha1.State.mk _ _ _ _ _ = _
  unfold blockWord at hlast
  simp only [hlast]
  rfl

-- What is written of the words of the state.
theorem ofBytes_words (words : List UInt32) : ofBytes (words.flatMap fun word => toBe 4 word.toNat) =
    words.flatMap fun word => numeral 32 word.toNat := by
  rw [ofBytes_flatMap]
  exact List.flatMap_congr fun word _ => ofBytes_toBe 4 word.toNat

theorem digest_standard {message : Bytes} (h : message.length < 2 ^ 61) :
    ofBytes (digest message) = Digest.Sha1.hash (ofBytes message) := by
  have hlength : numeral 64 (8 * message.length) = ofBytes (toBe 8 (message.length * 8 % 2 ^ 64)) := by
    rw [ofBytes_toBe, Nat.mod_eq_of_lt (by omega), Nat.mul_comm]
  have hpad : Digest.pad (numeral 64) (ofBytes message) = ofBytes (pad message) := pad_ofBytes hlength
  have habsorb : absorb Digest.Sha1.process Digest.Sha1.initial (ofBytes (pad message)) =
      view (((List.range ((pad message).length / 64)).map fun index =>
        ((pad message).drop (index * 64)).take 64).foldl compress initial) :=
    absorb_ofBytes view_compress initial (pad message)
  rw [Digest.Sha1.hash, hpad, habsorb]
  exact ofBytes_words _

end Vless.Sha1

namespace AnyTls.Md5

open Digest.Md5 (Buffer F G H I Operation Order T)

def view (state : State) : Buffer := ⟨state.a.toBitVec, state.b.toBitVec, state.c.toBitVec, state.d.toBitVec⟩

-- The words as an operation names them.
def named (buffer : Buffer) : Order → Buffer
  | .abcd => buffer
  | .dabc => ⟨buffer.d, buffer.a, buffer.b, buffer.c⟩
  | .cdab => ⟨buffer.c, buffer.d, buffer.a, buffer.b⟩
  | .bcda => ⟨buffer.b, buffer.c, buffer.d, buffer.a⟩

def next : Order → Order
  | .abcd => .dabc
  | .dabc => .cdab
  | .cdab => .bcda
  | .bcda => .abcd

-- An operation on words that change their places, as the code has it.
noncomputable def turn (f : Word → Word → Word → Word) (X : Nat → Word) (buffer : Buffer)
    (operation : Operation) : Buffer where
  a := buffer.d
  b := buffer.b + (buffer.a + f buffer.b buffer.c buffer.d + X operation.k + T operation.i).rotateLeft
    operation.s
  c := buffer.b
  d := buffer.c

theorem run_named (f : Word → Word → Word → Word) (X : Nat → Word) (buffer : Buffer) (operation : Operation) :
    named (operation.run f X buffer) (next operation.order) =
      turn f X (named buffer operation.order) operation := by
  obtain ⟨order, k, s, i⟩ := operation
  cases order with
  | abcd => rfl
  | dabc => rfl
  | cdab => rfl
  | bcda => rfl

def orderAt (index : Nat) : Order :=
  if index % 4 = 0 then .abcd else if index % 4 = 1 then .dabc else if index % 4 = 2 then .cdab else .bcda

def wordIndex (index : Nat) : Nat :=
  if index < 16 then index
  else if index < 32 then (5 * index + 1) % 16
  else if index < 48 then (3 * index + 5) % 16
  else 7 * index % 16

-- The operation for a pass of the loop.
def operationAt (index : Nat) : Operation :=
  ⟨orderAt index, wordIndex index, (SHIFT.getD index 0).toNat, index + 1⟩

theorem orderAt_succ (index : Nat) : orderAt (index + 1) = next (orderAt index) := by
  have hlt := Nat.mod_lt index (by decide : 0 < 4)
  obtain h | h | h | h : index % 4 = 0 ∨ index % 4 = 1 ∨ index % 4 = 2 ∨ index % 4 = 3 := by omega
  all_goals
    have hnext : (index + 1) % 4 = (index % 4 + 1) % 4 := by omega
    rw [orderAt, orderAt, hnext, h]
    rfl

theorem rounds_operationAt :
    Digest.Md5.round1 = (List.range' 0 16).map operationAt ∧
    Digest.Md5.round2 = (List.range' 16 16).map operationAt ∧
    Digest.Md5.round3 = (List.range' 32 16).map operationAt ∧
    Digest.Md5.round4 = (List.range' 48 16).map operationAt := by decide

-- The table is that of the sines.
theorem constants_sines {index : Nat} (h : index < 64) :
    (CONSTANTS.getD index 0).toBitVec = T (index + 1) := by
  have hnear : ∀ index < 64, Sine.Near (index + 1) (CONSTANTS.getD index 0).toNat := by decide +kernel
  have hfloor := Sine.floor_sin (by omega : index + 1 ≤ 64) (hnear index h)
  rw [T, hfloor]
  exact ((BitVec.ofNat_toNat 32 _).trans (BitVec.setWidth_eq _)).symm

def blockWord (block : Bits) (k : Nat) : Word := BitVec.ofNat 32 (value (swapped (part 32 block k)))

theorem toBitVec_word (chunk : Bytes) (k : Nat) : (word chunk k).toBitVec = blockWord (ofBytes chunk) k := by
  have hpart : part 32 (ofBytes chunk) k = ofBytes ((chunk.drop (4 * k)).take 4) := part_ofBytes 4 chunk k
  rw [word, toBitVec_ofBe, blockWord, hpart, swapped_ofBytes, Nat.mul_comm k]

-- The function of the round that a pass belongs to.
def functionAt (index : Nat) : Word → Word → Word → Word :=
  if index < 16 then F else if index < 32 then G else if index < 48 then H else I

theorem view_next {chunk : Bytes} {state : State} {index : Nat} {function : UInt32} (h : index < 64)
    (hfunction : function.toBitVec =
      functionAt index state.b.toBitVec state.c.toBitVec state.d.toBitVec) :
    view ⟨state.d, state.b + rotateLeft (state.a + function + CONSTANTS.getD index 0 +
      word chunk (wordIndex index)) (SHIFT.getD index 0), state.b, state.c⟩ =
      turn (functionAt index) (blockWord (ofBytes chunk)) (view state) (operationAt index) := by
  have hshift : ∀ index < 64, 0 < (SHIFT.getD index 0).toNat ∧ (SHIFT.getD index 0).toNat < 32 := by decide
  obtain ⟨hpos, hlt⟩ := hshift index h
  have hsum : (state.a + function + CONSTANTS.getD index 0 + word chunk (wordIndex index)).toBitVec =
      state.a.toBitVec + functionAt index state.b.toBitVec state.c.toBitVec state.d.toBitVec +
        blockWord (ofBytes chunk) (wordIndex index) + T (index + 1) := by
    rw [UInt32.toBitVec_add, UInt32.toBitVec_add, UInt32.toBitVec_add, hfunction, constants_sines h,
      toBitVec_word, BitVec.add_assoc, BitVec.add_comm (T (index + 1)), ← BitVec.add_assoc]
  have hb : (state.b + rotateLeft (state.a + function + CONSTANTS.getD index 0 +
      word chunk (wordIndex index)) (SHIFT.getD index 0)).toBitVec =
      (turn (functionAt index) (blockWord (ofBytes chunk)) (view state) (operationAt index)).b := by
    rw [UInt32.toBitVec_add, rotateLeft, toBitVec_rotate hpos hlt, hsum]
    rfl
  rw [view, hb]
  rfl

theorem view_round (chunk : Bytes) (state : State) {index : Nat} (h : index < 64) :
    view (round chunk state index) =
      turn (functionAt index) (blockWord (ofBytes chunk)) (view state) (operationAt index) := by
  rw [round]
  by_cases hfirst : index < 16
  · have hword : wordIndex index = index := if_pos hfirst
    have hnext := @view_next chunk state index
      ((state.b &&& state.c) ||| (~~~state.b &&& state.d)) h (by rw [functionAt, if_pos hfirst]; rfl)
    rw [hword] at hnext
    simp only [if_pos hfirst]
    exact hnext
  · by_cases hsecond : index < 32
    · have hword : wordIndex index = (5 * index + 1) % 16 := by rw [wordIndex, if_neg hfirst, if_pos hsecond]
      have hnext := @view_next chunk state index ((state.d &&& state.b) ||| (~~~state.d &&& state.c)) h (by
        rw [functionAt, if_neg hfirst, if_pos hsecond, G, BitVec.and_comm state.b.toBitVec,
          BitVec.and_comm state.c.toBitVec]
        rfl)
      rw [hword] at hnext
      simp only [if_neg hfirst, if_pos hsecond]
      exact hnext
    · by_cases hthird : index < 48
      · have hword : wordIndex index = (3 * index + 5) % 16 := by
          rw [wordIndex, if_neg hfirst, if_neg hsecond, if_pos hthird]
        have hnext := @view_next chunk state index (state.b ^^^ state.c ^^^ state.d) h (by
          rw [functionAt, if_neg hfirst, if_neg hsecond, if_pos hthird]
          rfl)
        rw [hword] at hnext
        simp only [if_neg hfirst, if_neg hsecond, if_pos hthird]
        exact hnext
      · have hword : wordIndex index = 7 * index % 16 := by
          rw [wordIndex, if_neg hfirst, if_neg hsecond, if_neg hthird]
        have hnext := @view_next chunk state index (state.c ^^^ (state.b ||| ~~~state.d)) h (by
          rw [functionAt, if_neg hfirst, if_neg hsecond, if_neg hthird]
          rfl)
        rw [hword] at hnext
        simp only [if_neg hfirst, if_neg hsecond, if_neg hthird]
        exact hnext

-- A round of the standard is sixteen passes of the loop.
theorem named_rounds {chunk : Bytes} {f : Word → Word → Word → Word} {start : Nat} (count : Nat)
    (hend : start + count ≤ 64) (hf : ∀ index, start ≤ index → index < start + count → functionAt index = f)
    {buffer : Buffer} {state : State} (h : named buffer (orderAt start) = view state) :
    named (((List.range' start count).map operationAt).foldl
      (Operation.run f (blockWord (ofBytes chunk))) buffer) (orderAt (start + count)) =
        view ((List.range' start count).foldl (round chunk) state) := by
  induction count with
  | zero => exact h
  | succ count ih =>
      have hsofar := ih (by omega) fun index hle hlt => hf index hle (by omega)
      rw [List.range'_1_concat, List.map_append, List.foldl_append, List.foldl_append]
      show named (Operation.run f _ _ (operationAt (start + count))) _ = view (round chunk _ (start + count))
      rw [view_round chunk _ (by omega), ← hsofar, hf _ (by omega) (by omega), ← Nat.add_assoc, orderAt_succ]
      exact run_named f _ _ (operationAt (start + count))

theorem round_standard {chunk : Bytes} {f : Word → Word → Word → Word} {start : Nat} (hend : start ≤ 48)
    (hfour : start % 4 = 0) (hf : ∀ index, start ≤ index → index < start + 16 → functionAt index = f)
    (state : State) : ((List.range' start 16).map operationAt).foldl
      (Operation.run f (blockWord (ofBytes chunk))) (view state) =
        view ((List.range' start 16).foldl (round chunk) state) := by
  have hfirst : orderAt start = .abcd := if_pos hfour
  have hlast : orderAt (start + 16) = .abcd := if_pos (by omega)
  have hnamed : named (view state) (orderAt start) = view state := by
    rw [hfirst]
    rfl
  have hrun := @named_rounds chunk f start 16 (by omega) hf _ _ hnamed
  rw [hlast] at hrun
  exact hrun

theorem view_compress (state : State) (chunk : Bytes) :
    Digest.Md5.process (view state) (ofBytes chunk) = view (compress state chunk) := by
  obtain ⟨h1, h2, h3, h4⟩ := rounds_operationAt
  obtain ⟨first, hfirst⟩ : ∃ first, (List.range' 0 16).foldl (round chunk) state = first := ⟨_, rfl⟩
  obtain ⟨second, hsecond⟩ : ∃ second, (List.range' 16 16).foldl (round chunk) first = second := ⟨_, rfl⟩
  obtain ⟨third, hthird⟩ : ∃ third, (List.range' 32 16).foldl (round chunk) second = third := ⟨_, rfl⟩
  obtain ⟨last, hlast⟩ : ∃ last, (List.range' 48 16).foldl (round chunk) third = last := ⟨_, rfl⟩
  have hall : (List.range 64).foldl (round chunk) state = last := by
    have hsplit : List.range 64 =
        List.range' 0 16 ++ (List.range' 16 16 ++ (List.range' 32 16 ++ List.range' 48 16)) := by decide
    rw [hsplit, List.foldl_append, List.foldl_append, List.foldl_append, hfirst, hsecond, hthird, hlast]
  have hround1 : Digest.Md5.round1.foldl (Operation.run F (blockWord (ofBytes chunk))) (view state) =
      view first := by
    rw [h1, ← hfirst]
    refine round_standard (by decide) (by decide) (fun index hle hlt => ?_) _
    exact if_pos (by omega)
  have hround2 : Digest.Md5.round2.foldl (Operation.run G (blockWord (ofBytes chunk))) (view first) =
      view second := by
    rw [h2, ← hsecond]
    refine round_standard (by decide) (by decide) (fun index hle hlt => ?_) _
    rw [functionAt, if_neg (by omega), if_pos (by omega)]
  have hround3 : Digest.Md5.round3.foldl (Operation.run H (blockWord (ofBytes chunk))) (view second) =
      view third := by
    rw [h3, ← hthird]
    refine round_standard (by decide) (by decide) (fun index hle hlt => ?_) _
    rw [functionAt, if_neg (by omega), if_neg (by omega), if_pos (by omega)]
  have hround4 : Digest.Md5.round4.foldl (Operation.run I (blockWord (ofBytes chunk))) (view third) =
      view last := by
    rw [h4, ← hlast]
    refine round_standard (by decide) (by decide) (fun index hle hlt => ?_) _
    rw [functionAt, if_neg (by omega), if_neg (by omega), if_neg (by omega)]
  unfold compress
  rw [hall]
  unfold Digest.Md5.process
  unfold blockWord at hround1 hround2 hround3 hround4
  simp only [hround1, hround2, hround3, hround4]
  rfl

theorem ofBytes_toLe (width n : Nat) : ofBytes (toLe width n) = swapped (numeral (8 * width) n) := by
  rw [toLe, ← swapped_ofBytes, ofBytes_toBe]

theorem ofBytes_words (words : List UInt32) : ofBytes (words.flatMap fun word => toLe 4 word.toNat) =
    words.flatMap fun word => swapped (numeral 32 word.toNat) := by
  rw [ofBytes_flatMap]
  exact List.flatMap_congr fun word _ => ofBytes_toLe 4 word.toNat

theorem digest_standard {input : Bytes} (h : input.length < 2 ^ 61) :
    ofBytes (digest input) = Digest.Md5.hash (ofBytes input) := by
  have hlength : swapped (numeral 64 (8 * input.length)) = ofBytes (toLe 8 (input.length * 8 % 2 ^ 64)) := by
    rw [ofBytes_toLe, Nat.mod_eq_of_lt (by omega), Nat.mul_comm]
  have hpad : Digest.pad (fun length => swapped (numeral 64 length)) (ofBytes input) = ofBytes (pad input) :=
    pad_ofBytes hlength
  have habsorb : absorb Digest.Md5.process Digest.Md5.initial (ofBytes (pad input)) =
      view (((List.range ((pad input).length / 64)).map fun index =>
        ((pad input).drop (index * 64)).take 64).foldl compress initial) :=
    absorb_ofBytes view_compress initial (pad input)
  rw [Digest.Md5.hash, hpad, habsorb]
  exact ofBytes_words _

-- Two digits are a byte.
theorem hex_byte (byte : UInt8) (rest : Bits) :
    hex (numeral 8 byte.toNat ++ rest) = hexByte byte ++ hex rest := by
  have hdigit (n : Nat) (rest : Bits) :
      hex (numeral 4 n ++ rest) = Nat.digitChar (n % 16) :: hex rest := by
    have hvalue := value_numeral 4 n
    rw [← show 2 ^ 4 = 16 from rfl, ← hvalue]
    rfl
  have hbyte := byte.toNat_lt
  have hsplit : numeral 8 byte.toNat = numeral 4 (byte.toNat / 2 ^ 4) ++ numeral 4 byte.toNat :=
    numeral_append 4 4 byte.toNat
  rw [hsplit, List.append_assoc, hdigit, hdigit, Nat.mod_eq_of_lt (by omega)]
  rfl

theorem hex_ofBytes (bytes : Bytes) : hex (ofBytes bytes) = bytes.flatMap hexByte := by
  induction bytes with
  | nil => rfl
  | cons byte bytes ih => rw [ofBytes_cons, hex_byte, ih, List.flatMap_cons]

end AnyTls.Md5

-- Both digests are those of the standards, and the number of bits fits the word it is kept in.
theorem digests_standard (message : Bytes) (h : message.length < 2 ^ 61) :
    AnyTls.md5Hex message = String.ofList (hex (Digest.Md5.hash (ofBytes message))) ∧
    ofBytes (Vless.Sha1.digest message) = Digest.Sha1.hash (ofBytes message) ∧
    Checked.mul message.length 8 = pure (message.length * 8) ∧
    (AnyTls.Md5.pad message).length < 2 ^ 64 ∧ (Vless.Sha1.pad message).length < 2 ^ 64 := by
  refine ⟨?_, Vless.Sha1.digest_standard h, Checked.mul_of_lt (by omega), ?_, ?_⟩
  · rw [AnyTls.md5Hex, ← AnyTls.Md5.digest_standard h, AnyTls.Md5.hex_ofBytes]
  · simp only [AnyTls.Md5.pad, AnyTls.Md5.toLe, List.length_append, List.length_singleton,
      List.length_replicate, List.length_reverse, toBe_length]
    omega
  · simp only [Vless.Sha1.pad, List.length_append, List.length_singleton, List.length_replicate, toBe_length]
    omega

theorem digests_standard_abc :
    AnyTls.md5Hex [97, 98, 99] = String.ofList (hex (Digest.Md5.hash (ofBytes [97, 98, 99]))) ∧
    ofBytes (Vless.Sha1.digest [97, 98, 99]) = Digest.Sha1.hash (ofBytes [97, 98, 99]) ∧
    Checked.mul 3 8 = pure (3 * 8) ∧
    (AnyTls.Md5.pad [97, 98, 99]).length < 2 ^ 64 ∧ (Vless.Sha1.pad [97, 98, 99]).length < 2 ^ 64 :=
  digests_standard [97, 98, 99] (by decide)

end SingBox
