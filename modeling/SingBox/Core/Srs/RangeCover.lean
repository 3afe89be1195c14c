import SingBox.Core.Radix
import SingBox.Core.Srs.IpSet
import SingBox.Library.Dyadic

namespace SingBox.Core.Srs

open Library

-- The loop of a range with the checks that the machine's numbers make: a shift by the whole
-- width, a subtraction below zero and an addition past the last number come to nothing.
section

variable {width : Nat}

def checkedBlockEnd (start : BitVec width) (hostBits : Nat) : Option (BitVec width) :=
  if hostBits = width then some (BitVec.allOnes width)
  else if hostBits < width then some (start ||| ((1 : BitVec width) <<< hostBits - 1))
  else none

def checkedFit (start last : BitVec width) : Nat → Option Nat
  | 0 => do
      let blockEnd ← checkedBlockEnd start 0
      if last < blockEnd then none else some 0
  | hostBits + 1 => do
      let blockEnd ← checkedBlockEnd start (hostBits + 1)
      if last < blockEnd then checkedFit start last hostBits else some (hostBits + 1)

def checkedPass (write : BitVec width → List Char) (last : BitVec width)
    (state : List String × BitVec width) :
    Option (Pass (List String × BitVec width) (List String)) := do
  let (output, start) := state
  let hostBits ← checkedFit start last (trailingZeros start)
  let prefixLen ← if hostBits ≤ width then some (width - hostBits) else none
  let output := output ++ [String.ofList (write start ++ '/' :: Nat.toDigits 10 prefixLen)]
  let blockEnd ← checkedBlockEnd start hostBits
  if blockEnd = BitVec.allOnes width ∨ blockEnd = last then some (.done output)
  else if blockEnd.toNat + 1 < 2 ^ width then some (.again (output, blockEnd + 1))
  else none

variable {start last : BitVec width} {hostBits : Nat}

theorem two_pow_dvd_iff {n k : Nat} : 2 ^ k ∣ n ↔ ∀ i < k, n.testBit i = false := by
  rw [Nat.dvd_iff_mod_eq_zero]
  constructor
  · intro h i hi
    have hbit := Nat.testBit_mod_two_pow n k i
    rw [h, Nat.zero_testBit, decide_eq_true hi, Bool.true_and] at hbit
    exact hbit.symm
  · intro h
    refine Nat.eq_of_testBit_eq fun i => ?_
    rw [Nat.testBit_mod_two_pow, Nat.zero_testBit]
    by_cases hi : i < k
    · rw [h i hi, Bool.and_false]
    · rw [decide_eq_false hi, Bool.false_and]

theorem trailingZeros_le (start : BitVec width) : trailingZeros start ≤ width := by
  rw [trailingZeros]
  cases h : (List.range width).find? start.toNat.testBit with
  | none => exact Nat.le_refl width
  | some index => exact Nat.le_of_lt (List.mem_range.mp (List.mem_of_find?_eq_some h))

-- The blocks that can begin at `start`.
theorem le_trailingZeros (start : BitVec width) (hbits : hostBits ≤ width) :
    hostBits ≤ trailingZeros start ↔ 2 ^ hostBits ∣ start.toNat := by
  rw [two_pow_dvd_iff, trailingZeros]
  cases h : (List.range width).find? start.toNat.testBit with
  | none =>
      refine iff_of_true hbits fun i hi => ?_
      have hzero := List.find?_eq_none.mp h i (List.mem_range.mpr (by omega))
      simpa using hzero
  | some index =>
      obtain ⟨hset, hindex, hbefore⟩ := List.find?_range_eq_some.mp h
      rw [Option.getD_some]
      constructor
      · intro hle i hi
        simpa using hbefore i (by omega)
      · intro hclear
        by_contra hlt
        rw [hclear index (by omega)] at hset
        cases hset

theorem blockEnd_toNat (hbits : hostBits ≤ width) (hdvd : 2 ^ hostBits ∣ start.toNat) :
    (blockEnd start hostBits).toNat = start.toNat + 2 ^ hostBits - 1 := by
  have hpos : 0 < 2 ^ hostBits := Nat.two_pow_pos hostBits
  unfold blockEnd
  split
  · next heq =>
      have hzero : start.toNat = 0 := Nat.eq_zero_of_dvd_of_lt hdvd (heq ▸ start.isLt)
      rw [BitVec.toNat_allOnes, hzero, heq, Nat.zero_add]
  · next hne =>
      have hlt : 2 ^ hostBits < 2 ^ width := Nat.pow_lt_pow_right (by decide) (by omega)
      have hmask : ((1 : BitVec width) <<< hostBits - 1).toNat = 2 ^ hostBits - 1 := by
        have hone : (1 : BitVec width).toNat = 1 := BitVec.toNat_one (by omega)
        have hshift : ((1 : BitVec width) <<< hostBits).toNat = 2 ^ hostBits := by
          rw [BitVec.toNat_shiftLeft, hone, Nat.one_shiftLeft, Nat.mod_eq_of_lt hlt]
        rw [BitVec.toNat_sub_of_le (by rw [BitVec.le_def, hone, hshift]; omega), hshift, hone]
      obtain ⟨count, hcount⟩ := hdvd
      rw [BitVec.toNat_or, hmask, hcount, ← Nat.two_pow_add_eq_or_of_lt (by omega)]
      omega

-- What the inner loop stops at: the largest block that does not go past the last number.
theorem fitBlock_spec (hbits : hostBits ≤ trailingZeros start) (hle : start ≤ last) :
    fitBlock start last hostBits ≤ hostBits ∧
      blockEnd start (fitBlock start last hostBits) ≤ last ∧
      ∀ more, fitBlock start last hostBits < more → more ≤ hostBits → last < blockEnd start more := by
  induction hostBits with
  | zero =>
      refine ⟨Nat.le_refl 0, ?_, fun more hmore hzero => absurd hmore (Nat.not_lt_of_le hzero)⟩
      have hone : (blockEnd start 0).toNat = start.toNat :=
        blockEnd_toNat (Nat.zero_le width) (Nat.one_dvd _)
      rw [fitBlock, BitVec.le_def, hone]
      exact hle
  | succ hostBits ih =>
      rw [fitBlock]
      split
      · next hover =>
          obtain ⟨hless, hfits, hmore⟩ := ih (by omega)
          refine ⟨by omega, hfits, fun more hgt hmax => ?_⟩
          obtain hsmall | rfl := Nat.le_succ_iff.mp hmax
          · exact hmore more hgt hsmall
          · exact hover
      · next hfits =>
          exact ⟨Nat.le_refl _, BitVec.not_lt.mp hfits, fun more hgt hmax => by omega⟩

theorem checkedBlockEnd_eq (hbits : hostBits ≤ width) :
    checkedBlockEnd start hostBits = some (blockEnd start hostBits) := by
  unfold checkedBlockEnd blockEnd
  split
  · rfl
  · rw [if_pos (by omega)]

theorem checkedFit_eq (hbits : hostBits ≤ trailingZeros start) (hle : start ≤ last) :
    checkedFit start last hostBits = some (fitBlock start last hostBits) := by
  have hwidth := trailingZeros_le start
  induction hostBits with
  | zero =>
      have hfits : ¬last < blockEnd start 0 := BitVec.not_lt.mpr (fitBlock_spec hbits hle).2.1
      rw [checkedFit, checkedBlockEnd_eq (Nat.zero_le width)]
      exact if_neg hfits
  | succ hostBits ih =>
      rw [checkedFit, checkedBlockEnd_eq (by omega), fitBlock]
      show (if last < blockEnd start (hostBits + 1) then _ else _) = _
      split
      · exact ih (by omega)
      · rfl

-- The block of a pass.
def fittedBits (start last : BitVec width) : Nat := fitBlock start last (trailingZeros start)

theorem fittedBits_le (hle : start ≤ last) : fittedBits start last ≤ width :=
  (fitBlock_spec (Nat.le_refl _) hle).1.trans (trailingZeros_le start)

theorem fittedBits_dvd (hle : start ≤ last) : 2 ^ fittedBits start last ∣ start.toNat :=
  (le_trailingZeros start (fittedBits_le hle)).mp (fitBlock_spec (Nat.le_refl _) hle).1

theorem fitted_end (hle : start ≤ last) :
    (blockEnd start (fittedBits start last)).toNat = start.toNat + 2 ^ fittedBits start last - 1 :=
  blockEnd_toNat (fittedBits_le hle) (fittedBits_dvd hle)

def fittedBlock (hle : start ≤ last) : Block width where
  base := start.toNat
  bits := fittedBits start last
  aligned := fittedBits_dvd hle
  fits := by
    have hend := fitted_end hle
    have hlt := (blockEnd start (fittedBits start last)).isLt
    omega

theorem fittedBlock_last (hle : start ≤ last) :
    (fittedBlock hle).last = (blockEnd start (fittedBits start last)).toNat := (fitted_end hle).symm

theorem fittedBlock_max (hle : start ≤ last) (other : Block width) (hbase : other.base = start.toNat)
    (hlast : other.last ≤ last.toNat) : other.bits ≤ (fittedBlock hle).bits := by
  have hwidth : other.bits ≤ width := by
    have hfits := other.fits
    have hpow : 2 ^ other.bits ≤ 2 ^ width := by omega
    exact (Nat.pow_le_pow_iff_right (by decide)).mp hpow
  have hdvd : 2 ^ other.bits ∣ start.toNat := hbase ▸ other.aligned
  by_contra hmore
  have hover := (fitBlock_spec (Nat.le_refl _) hle).2.2 other.bits (by exact Nat.lt_of_not_le hmore)
    ((le_trailingZeros start hwidth).mpr hdvd)
  rw [BitVec.lt_def, blockEnd_toNat hwidth hdvd, ← hbase] at hover
  exact absurd hlast (Nat.not_le_of_lt hover)

-- No check of the machine's fails in a pass that begins in the range.
theorem checkedPass_eq (write : BitVec width → List Char) (output : List String) (hle : start ≤ last) :
    checkedPass write last (output, start) = some (rangePass write last (output, start)) := by
  have hbits : fitBlock start last (trailingZeros start) ≤ width := fittedBits_le hle
  unfold checkedPass rangePass
  simp only [checkedFit_eq (Nat.le_refl _) hle, checkedBlockEnd_eq hbits, if_pos hbits, Option.bind_eq_bind,
    Option.bind_some]
  split
  · rfl
  · next hgo =>
      have hmax := (blockEnd start (fitBlock start last (trailingZeros start))).isLt
      have hne : (blockEnd start (fitBlock start last (trailingZeros start))).toNat ≠ 2 ^ width - 1 :=
        fun heq => hgo (.inl (BitVec.eq_of_toNat_eq (by rw [heq, BitVec.toNat_allOnes])))
      rw [if_pos (by omega)]

-- How a block is written.
def blockText (write : BitVec width → List Char) (block : Block width) : String :=
  String.ofList (write (BitVec.ofNat width block.base) ++ '/' :: Nat.toDigits 10 (width - block.bits))

-- One pass writes one block, and either the range is at its end or what follows is left.
theorem rangePass_cases (write : BitVec width → List Char) (output : List String) (hle : start ≤ last) :
    (rangePass write last (output, start) = .done (output ++ [blockText write (fittedBlock hle)]) ∧
      (fittedBlock hle).last = last.toNat) ∨
    ∃ next : BitVec width, next ≤ last ∧ next.toNat = (fittedBlock hle).last + 1 ∧
      rangePass write last (output, start) = .again (output ++ [blockText write (fittedBlock hle)], next) := by
  have hlast := fittedBlock_last hle
  have hfits : blockEnd start (fittedBits start last) ≤ last := (fitBlock_spec (Nat.le_refl _) hle).2.1
  have htext : blockText write (fittedBlock hle) =
      String.ofList (write start ++ '/' :: Nat.toDigits 10 (width - fittedBits start last)) := by
    rw [blockText, fittedBlock, BitVec.ofNat_toNat, BitVec.setWidth_eq]
  have hpass : rangePass write last (output, start) =
      if blockEnd start (fittedBits start last) = BitVec.allOnes width ∨
          blockEnd start (fittedBits start last) = last then
        .done (output ++ [blockText write (fittedBlock hle)])
      else .again (output ++ [blockText write (fittedBlock hle)],
        blockEnd start (fittedBits start last) + 1) := by
    rw [htext]
    rfl
  rw [BitVec.le_def] at hfits
  have hmax := last.isLt
  by_cases hdone : blockEnd start (fittedBits start last) = BitVec.allOnes width ∨
      blockEnd start (fittedBits start last) = last
  · refine .inl ⟨hpass.trans (if_pos hdone), ?_⟩
    rw [hlast]
    obtain hall | hend := hdone
    · rw [hall, BitVec.toNat_allOnes] at hfits ⊢
      omega
    · rw [hend]
  · refine .inr ⟨_, ?_, ?_, hpass.trans (if_neg hdone)⟩
    all_goals
      have hne : (blockEnd start (fittedBits start last)).toNat ≠ last.toNat :=
        fun heq => hdone (.inr (BitVec.eq_of_toNat_eq heq))
      have hpow : 1 < 2 ^ width := by omega
      have hone : (1 : BitVec width).toNat = 1 := Nat.mod_eq_of_lt hpow
      have hnext : (blockEnd start (fittedBits start last) + 1).toNat =
          (blockEnd start (fittedBits start last)).toNat + 1 := by
        rw [BitVec.toNat_add, hone, Nat.mod_eq_of_lt (by omega)]
    · rw [BitVec.le_def, hnext]
      omega
    · rw [hnext, hlast]

-- Every pass begins in the range.
theorem visits_le (write : BitVec width → List Char) {output : List String} (hle : start ≤ last)
    {state : List String × BitVec width}
    (h : Loop.Visits (rangePass write last) (output, start) state) : state.2 ≤ last := by
  induction h with
  | refl => exact hle
  | @tail state next hbefore hstep ih =>
      obtain ⟨hdone, -⟩ | ⟨following, hnext, -, hagain⟩ := rangePass_cases write state.1 ih
      · rw [hdone] at hstep
        cases hstep
      · rw [hagain] at hstep
        obtain rfl := Pass.again.inj hstep
        exact hnext

theorem appendRange_greedy (write : BitVec width → List Char) (output : List String)
    (hle : start ≤ last) : ∃ blocks : List (Block width), Block.Greedy last.toNat start.toNat blocks ∧
      appendRange write output start last = output ++ blocks.map (blockText write) := by
  -- what has been written so far goes on with the blocks of what is left
  refine Loop.run_rule
    (fun state : List String × BitVec width => state.2 ≤ last ∧ ∃ front : List (Block width),
      state.1 = output ++ front.map (blockText write) ∧
      ∀ rest : List (Block width), Block.Greedy last.toNat state.2.toNat rest →
        Block.Greedy last.toNat start.toNat (front ++ rest))
    (fun result => ∃ blocks : List (Block width), Block.Greedy last.toNat start.toNat blocks ∧
      result = output ++ blocks.map (blockText write))
    (rangePass_decreases write last) ?_ ?_ (output, start)
    ⟨hle, [], (List.append_nil output).symm, fun rest hrest => hrest⟩
  · rintro ⟨written, mid⟩ state ⟨hmid, front, hwritten, hgreedy⟩ hstep
    obtain ⟨hdone, -⟩ | ⟨next, hnext, hafter, hagain⟩ := rangePass_cases write written hmid
    · rw [hdone] at hstep
      cases hstep
    · rw [hagain] at hstep
      obtain rfl := Pass.again.inj hstep
      refine ⟨hnext, front ++ [fittedBlock hmid], ?_, fun rest hrest => ?_⟩
      · show written ++ [blockText write (fittedBlock hmid)] = _
        rw [show written = _ from hwritten, List.map_append, List.append_assoc]
        rfl
      · rw [List.append_assoc]
        refine hgreedy _ (.next (fittedBlock hmid) rfl ?_ (fittedBlock_max hmid) (hafter ▸ hrest))
        rw [BitVec.le_def] at hnext
        omega
  · rintro ⟨written, mid⟩ result ⟨hmid, front, hwritten, hgreedy⟩ hstep
    obtain ⟨hdone, hend⟩ | ⟨next, hnext, hafter, hagain⟩ := rangePass_cases write written hmid
    · rw [hdone] at hstep
      obtain rfl := Pass.done.inj hstep
      refine ⟨front ++ [fittedBlock hmid], hgreedy _ (.final (fittedBlock hmid) rfl hend (fittedBlock_max hmid)), ?_⟩
      rw [show written = _ from hwritten, List.map_append, List.append_assoc]
      rfl
    · rw [hagain] at hstep
      cases hstep

end

-- The texts of addresses have no slash.
section

theorem slash_notMem_toDigits (radix : Nat) (hradix : 1 < radix) (hle : radix ≤ 16) (n : Nat) :
    '/' ∉ Nat.toDigits radix n := by
  have hdigits : ∀ digit < 16, '/' ≠ Nat.digitChar digit := by decide
  intro h
  obtain ⟨digit, hlt, heq⟩ := mem_toDigits hradix h
  exact hdigits digit (by omega) heq

theorem slash_notMem_ipv4Text (address : BitVec 32) : '/' ∉ IpAddr.ipv4Text address := by
  have hdigits := slash_notMem_toDigits 10 (by decide) (by decide)
  simp [IpAddr.ipv4Text, hdigits]

theorem slash_notMem_segmentsText (segments : List Nat) : '/' ∉ IpAddr.segmentsText segments := by
  have hdigits := slash_notMem_toDigits 16 (by decide) (by decide)
  fun_induction IpAddr.segmentsText segments with
  | case1 => exact List.not_mem_nil
  | case2 segment => exact hdigits segment
  | case3 segment rest hne ih => simp [hdigits, ih]

theorem slash_notMem_ipv6Text (address : BitVec 128) : '/' ∉ IpAddr.ipv6Text address := by
  unfold IpAddr.ipv6Text
  split
  · simp [slash_notMem_ipv4Text]
  · simp only
    split
    · simp [slash_notMem_segmentsText]
    · exact slash_notMem_segmentsText _

end

section

variable {width bits : Nat} {left right : BitVec width}

theorem mask_eq (h : bits ≤ width) :
    IpCidr.mask width (width - bits) = BitVec.allOnes width <<< bits := by
  unfold IpCidr.mask
  split
  · next hzero => rw [BitVec.shiftLeft_eq_zero (by omega)]; rfl
  · rw [Nat.sub_sub_self h]

theorem and_mask_getLsbD (h : bits ≤ width) (i : Nat) :
    (left &&& IpCidr.mask width (width - bits)).getLsbD i =
      (left.getLsbD i && decide (bits ≤ i)) := by
  rw [mask_eq h, BitVec.getLsbD_and, BitVec.getLsbD_shiftLeft, BitVec.getLsbD_allOnes]
  by_cases hi : i < width
  · have hshift : i - bits < width := by omega
    by_cases hle : bits ≤ i <;> simp [hi, hle, hshift]
    omega
  · rw [BitVec.getLsbD_of_ge left i (by omega), Bool.false_and, Bool.false_and]

-- Two addresses are alike under the mask if they lie in the same block.
theorem and_mask_iff (h : bits ≤ width) :
    left &&& IpCidr.mask width (width - bits) = right &&& IpCidr.mask width (width - bits) ↔
      left.toNat / 2 ^ bits = right.toNat / 2 ^ bits := by
  constructor
  · intro heq
    refine Nat.eq_of_testBit_eq fun i => ?_
    have hbit := congrArg (fun masked : BitVec width => masked.getLsbD (i + bits)) heq
    simpa [and_mask_getLsbD h, Nat.testBit_div_two_pow, BitVec.testBit_toNat] using hbit
  · intro heq
    refine BitVec.eq_of_getLsbD_eq fun i _ => ?_
    rw [and_mask_getLsbD h, and_mask_getLsbD h]
    by_cases hle : bits ≤ i
    · have hbit := congrArg (fun quotient : Nat => quotient.testBit (i - bits)) heq
      simp only [Nat.testBit_div_two_pow, Nat.sub_add_cancel hle, BitVec.testBit_toNat] at hbit
      rw [hbit]
    · rw [decide_eq_false hle, Bool.and_false, Bool.and_false]

theorem block_bits_le (block : Block width) : block.bits ≤ width := by
  have hfits := block.fits
  have hpow : 2 ^ block.bits ≤ 2 ^ width := by omega
  exact (Nat.pow_le_pow_iff_right (by decide)).mp hpow

theorem block_base_lt (block : Block width) : block.base < 2 ^ width := by
  have hfits := block.fits
  have hpos : 0 < 2 ^ block.bits := Nat.two_pow_pos block.bits
  omega

-- The addresses that a block covers are those that are like its first one under its mask.
theorem block_covers_iff (block : Block width) (address : BitVec width) :
    block.Covers address.toNat ↔
      BitVec.ofNat width block.base &&& IpCidr.mask width (width - block.bits) =
        address &&& IpCidr.mask width (width - block.bits) := by
  have hpos : 0 < 2 ^ block.bits := Nat.two_pow_pos block.bits
  have hsucc := block.succ_last
  obtain ⟨count, hcount⟩ := block.aligned
  rw [and_mask_iff (block_bits_le block), BitVec.toNat_ofNat, Nat.mod_eq_of_lt (block_base_lt block),
    hcount, Nat.mul_div_cancel_left count hpos, eq_comm, Nat.div_eq_iff hpos, Block.Covers, hcount,
    Nat.mul_comm count]
  rw [hcount] at hsucc
  constructor
  · rintro ⟨hle, hlast⟩
    omega
  · rintro ⟨hle, hlast⟩
    omega

end

-- An address, a slash and a length are read as they were written.
theorem fromStr_cidr {address : IpAddr} {text : List Char} (hslash : '/' ∉ text)
    (hread : IpAddr.fromStr text = some address) {prefixLen : Nat} (hle : prefixLen ≤ address.bits) :
    IpCidr.fromStr (String.ofList (text ++ '/' :: Nat.toDigits 10 prefixLen)) =
      .ok ⟨address, prefixLen, hle⟩ := by
  have hbits : address.bits ≤ 128 := by
    cases address
    · exact (by decide : 32 ≤ 128)
    · exact Nat.le_refl 128
  unfold IpCidr.fromStr
  rw [String.toList_ofList, splitOnce_append hslash]
  have hlength : parseUnsigned 256 (Nat.toDigits 10 prefixLen) = .ok prefixLen :=
    parseUnsigned_toDigits (by omega)
  simp only [hlength, hread, Bind.bind, Except.bind, Pure.pure, Except.pure,
    Result.ofOption, Option.getD_some, dif_pos hle]

-- What `append_ipv4_range` and `append_ipv6_range` do with a range: no number overflows in any
-- pass, what is appended are the blocks of an exact cover, and what is compiled from it accepts the
-- addresses of the range and no others. `toIp` is how such an address is an `IpAddr`.
structure RangeAppended {width : Nat}
    (append : List String → BitVec width → BitVec width → List String)
    (write : BitVec width → List Char) (toIp : BitVec width → IpAddr) (output : List String)
    (start last : BitVec width) : Prop where
  checked : ∀ state, Loop.Visits (rangePass write last) (output, start) state →
    checkedPass write last state = some (rangePass write last state)
  exact : ∃ (blocks : List (Block width)) (cidrs : List IpCidr),
    append output start last = output ++ blocks.map (blockText write) ∧
    Block.ExactCover start.toNat last.toNat blocks ∧
    compileCidrs (blocks.map (blockText write)) = .ok cidrs ∧
    ∀ ip : IpAddr, (∃ cidr ∈ cidrs, cidr.contains ip) ↔
      ∃ address, ip = toIp address ∧ start ≤ address ∧ address ≤ last

-- A block compiles to a network of its addresses.
structure Compiles {width : Nat} (write : BitVec width → List Char) (toIp : BitVec width → IpAddr)
    (block : Block width) (cidr : IpCidr) : Prop where
  parsed : IpCidr.fromStr (blockText write block) = .ok cidr
  contains : ∀ ip : IpAddr, cidr.contains ip ↔ ∃ address, ip = toIp address ∧ block.Covers address.toNat

theorem rangeAppended {width : Nat} {write : BitVec width → List Char} {toIp : BitVec width → IpAddr}
    (output : List String) {start last : BitVec width} (hle : start ≤ last)
    (hcompiles : ∀ block : Block width, start.toNat ≤ block.base → block.last ≤ last.toNat →
      ∃ cidr, Compiles write toIp block cidr) :
    RangeAppended (appendRange write) write toIp output start last where
  checked state hvisits := checkedPass_eq write state.1 (visits_le write hle hvisits)
  exact := by
    obtain ⟨blocks, hgreedy, happend⟩ := appendRange_greedy write output hle
    have hcover := hgreedy.exactCover
    have hin : ∀ block ∈ blocks, start.toNat ≤ block.base ∧ block.last ≤ last.toNat := fun block hmem =>
      ⟨((hcover.union block.base).mp ⟨block, hmem, block.covers_base⟩).1,
        ((hcover.union block.last).mp ⟨block, hmem, block.base_le_last, Nat.le_refl _⟩).2⟩
    obtain ⟨cidrs, hcidrs⟩ : ∃ cidrs, List.Forall₂ (Compiles write toIp) blocks cidrs := by
      clear hgreedy happend hcover
      induction blocks with
      | nil => exact ⟨[], .nil⟩
      | cons block rest ih =>
          obtain ⟨hfirst, hrest⟩ := List.forall_mem_cons.mp hin
          obtain ⟨cidr, hcidr⟩ := hcompiles block hfirst.1 hfirst.2
          obtain ⟨cidrs, hcidrs⟩ := ih hrest
          exact ⟨cidr :: cidrs, .cons hcidr hcidrs⟩
    refine ⟨blocks, cidrs, happend, hcover, ?_, fun ip => ?_⟩
    · refine Result.mapM_eq_ok.mpr ?_
      rw [List.forall₂_map_left_iff]
      exact hcidrs.imp fun block cidr hcompiled => hcompiled.parsed
    · have hany : (∃ cidr ∈ cidrs, cidr.contains ip) ↔
          ∃ block ∈ blocks, ∃ address, ip = toIp address ∧ block.Covers address.toNat := by
        clear hgreedy happend hcover hin
        induction hcidrs with
        | nil => simp
        | cons hcompiled _ ih => simp only [List.mem_cons, or_and_right, exists_or, exists_eq_left,
            hcompiled.contains ip, ih]
      rw [hany]
      constructor
      · rintro ⟨block, hmem, address, rfl, hcovers⟩
        exact ⟨address, rfl, (hcover.union address.toNat).mp ⟨block, hmem, hcovers⟩⟩
      · rintro ⟨address, rfl, hrange⟩
        obtain ⟨block, hmem, hcovers⟩ := (hcover.union address.toNat).mpr hrange
        exact ⟨block, hmem, address, rfl, hcovers⟩

theorem compiles_v4 {block : Block 32}
    (hread : IpAddr.fromStr (IpAddr.ipv4Text (BitVec.ofNat 32 block.base)) =
      some (.v4 (BitVec.ofNat 32 block.base))) : ∃ cidr, Compiles IpAddr.ipv4Text .v4 block cidr := by
  refine ⟨⟨.v4 (BitVec.ofNat 32 block.base), 32 - block.bits, Nat.sub_le _ _⟩,
    fromStr_cidr (slash_notMem_ipv4Text _) hread _, fun ip => ?_⟩
  cases ip with
  | v4 address => simp [IpCidr.contains, block_covers_iff]
  | v6 address => simp [IpCidr.contains]

theorem compiles_v6 {block : Block 128}
    (hread : IpAddr.fromStr (IpAddr.ipv6Text (BitVec.ofNat 128 block.base)) =
      some (.v6 (BitVec.ofNat 128 block.base))) : ∃ cidr, Compiles IpAddr.ipv6Text .v6 block cidr := by
  refine ⟨⟨.v6 (BitVec.ofNat 128 block.base), 128 - block.bits, Nat.sub_le _ _⟩,
    fromStr_cidr (slash_notMem_ipv6Text _) hread _, fun ip => ?_⟩
  cases ip with
  | v4 address => simp [IpCidr.contains]
  | v6 address => simp [IpCidr.contains, block_covers_iff]

-- An address in the range, from its number.
theorem ofNat_range {width : Nat} {start last : BitVec width} {block : Block width}
    (hstart : start.toNat ≤ block.base) (hlast : block.last ≤ last.toNat) :
    start ≤ BitVec.ofNat width block.base ∧ BitVec.ofNat width block.base ≤ last := by
  have hinside := block.base_le_last
  simp only [BitVec.le_def, BitVec.toNat_ofNat, Nat.mod_eq_of_lt (block_base_lt block)]
  omega

theorem append_range_exact :
    (∀ (output : List String) (start last : BitVec 32), start ≤ last →
      (∀ address, start ≤ address → address ≤ last →
        IpAddr.fromStr (IpAddr.ipv4Text address) = some (.v4 address)) →
      RangeAppended appendIpv4Range IpAddr.ipv4Text .v4 output start last) ∧
    (∀ (output : List String) (start last : BitVec 128), start ≤ last →
      (∀ address, start ≤ address → address ≤ last →
        IpAddr.fromStr (IpAddr.ipv6Text address) = some (.v6 address)) →
      RangeAppended appendIpv6Range IpAddr.ipv6Text .v6 output start last) := by
  constructor
  · intro output start last hle hround
    refine rangeAppended output hle fun block hstart hlast => compiles_v4 ?_
    obtain ⟨hfirst, hsecond⟩ := ofNat_range hstart hlast
    exact hround _ hfirst hsecond
  · intro output start last hle hround
    refine rangeAppended output hle fun block hstart hlast => compiles_v6 ?_
    obtain ⟨hfirst, hsecond⟩ := ofNat_range hstart hlast
    exact hround _ hfirst hsecond

theorem append_range_exact_pairs :
    RangeAppended appendIpv4Range IpAddr.ipv4Text .v4 [] 0xfffffffe#32 0xffffffff#32 ∧
      RangeAppended appendIpv6Range IpAddr.ipv6Text .v6 ["10.0.0.0/8"]
        0x20010db8000000000000000000000001#128 0x20010db8000000000000000000000002#128 := by
  refine ⟨append_range_exact.1 [] _ _ (by decide) fun address hstart hlast => ?_,
    append_range_exact.2 _ _ _ (by decide) fun address hstart hlast => ?_⟩
  · obtain rfl | rfl : address = 0xfffffffe#32 ∨ address = 0xffffffff#32 := by bv_omega
    · decide
    · decide
  · obtain rfl | rfl : address = 0x20010db8000000000000000000000001#128 ∨
        address = 0x20010db8000000000000000000000002#128 := by bv_omega
    · decide
    · decide

end SingBox.Core.Srs
