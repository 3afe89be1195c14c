import Mathlib.Algebra.Order.Group.Nat
import Mathlib.Data.List.Basic

namespace SingBox.Library

-- A block of numbers below `2 ^ width`: as many as a power of two, from a multiple of it on.
structure Block (width : Nat) where
  base : Nat
  bits : Nat
  aligned : 2 ^ bits ∣ base
  fits : base + 2 ^ bits ≤ 2 ^ width

namespace Block

variable {width : Nat} (this : Block width)

def last : Nat := this.base + 2 ^ this.bits - 1

def Covers (n : Nat) : Prop := this.base ≤ n ∧ n ≤ this.last

-- The numbers that some block of the list covers.
def Union (blocks : List (Block width)) (first last : Nat) : Prop :=
  ∀ n, (∃ block ∈ blocks, block.Covers n) ↔ first ≤ n ∧ n ≤ last

-- A list of blocks for a range, in order and apart, and as short as such a list can be.
structure ExactCover (first last : Nat) (blocks : List (Block width)) : Prop where
  ascending : blocks.Pairwise fun block later => block.last < later.base
  union : Union blocks first last
  shortest : ∀ others : List (Block width), Union others first last → blocks.length ≤ others.length

-- From a number on, the largest block that does not go past the last number, and so on.
inductive Greedy (last : Nat) : Nat → List (Block width) → Prop where
  | final {start : Nat} (block : Block width) (hbase : block.base = start) (hlast : block.last = last)
      (hmax : ∀ other : Block width, other.base = start → other.last ≤ last → other.bits ≤ block.bits) :
      Greedy last start [block]
  | next {start : Nat} {rest : List (Block width)} (block : Block width) (hbase : block.base = start)
      (hlast : block.last < last)
      (hmax : ∀ other : Block width, other.base = start → other.last ≤ last → other.bits ≤ block.bits)
      (hrest : Greedy last (block.last + 1) rest) : Greedy last start (block :: rest)

variable {this} {first last start n : Nat} {block other : Block width} {blocks others : List (Block width)}

theorem succ_last (this : Block width) : this.last + 1 = this.base + 2 ^ this.bits := by
  have hpos : 0 < 2 ^ this.bits := Nat.two_pow_pos this.bits
  rw [last]
  omega

theorem base_le_last (this : Block width) : this.base ≤ this.last := by
  have hpos : 0 < 2 ^ this.bits := Nat.two_pow_pos this.bits
  have hsucc := this.succ_last
  omega

theorem covers_base (this : Block width) : this.Covers this.base := ⟨Nat.le_refl _, this.base_le_last⟩

-- Of two blocks that meet the larger one holds the other.
theorem nested (hbits : block.bits ≤ other.bits) (hn : block.Covers n) (ho : other.Covers n) :
    other.base ≤ block.base ∧ block.last ≤ other.last := by
  have hdvd : 2 ^ block.bits ∣ 2 ^ other.bits := Nat.pow_dvd_pow 2 hbits
  obtain ⟨count, hblock⟩ := block.aligned
  obtain ⟨low, hlow⟩ := Nat.dvd_trans hdvd other.aligned
  obtain ⟨high, hhigh⟩ : 2 ^ block.bits ∣ other.base + 2 ^ other.bits :=
    Nat.dvd_add (Nat.dvd_trans hdvd other.aligned) hdvd
  have hsucc := block.succ_last
  have hsuccOther := other.succ_last
  obtain ⟨hle, hge⟩ := hn
  obtain ⟨hleOther, hgeOther⟩ := ho
  have hunit : 2 ^ block.bits * (count + 1) = 2 ^ block.bits * count + 2 ^ block.bits := Nat.mul_succ _ _
  have hfront : low < count + 1 := by
    refine Nat.lt_of_mul_lt_mul_left (a := 2 ^ block.bits) ?_
    omega
  have hback : count < high := by
    refine Nat.lt_of_mul_lt_mul_left (a := 2 ^ block.bits) ?_
    omega
  have hbase : 2 ^ block.bits * low ≤ 2 ^ block.bits * count :=
    Nat.mul_le_mul_left _ (Nat.le_of_lt_succ hfront)
  have hend : 2 ^ block.bits * (count + 1) ≤ 2 ^ block.bits * high := Nat.mul_le_mul_left _ hback
  omega

-- No block in the range reaches over `start` from before it.
def Split (width first last start : Nat) : Prop :=
  ∀ block : Block width, first ≤ block.base → block.last ≤ last → block.base < start → block.last < start

theorem split_first : Split width first last first :=
  fun _ hfirst _ hlt => absurd hfirst (Nat.not_le_of_lt hlt)

-- A block that lies over the largest one from `start` on is that one.
theorem Split.over (h : Split width first last start) (hbase : block.base = start)
    (hmax : ∀ other : Block width, other.base = start → other.last ≤ last → other.bits ≤ block.bits)
    (hfirst : first ≤ other.base) (hlast : other.last ≤ last) (hn : block.Covers n)
    (ho : other.Covers n) : start ≤ other.base ∧ other.last ≤ block.last := by
  obtain hlt | hle := Nat.lt_or_ge block.bits other.bits
  · obtain ⟨hbefore, hafter⟩ := nested (Nat.le_of_lt hlt) hn ho
    have hstart : other.base = start := by
      by_contra hne
      have hreach := h other hfirst hlast (by omega)
      have hinside := block.base_le_last
      omega
    exact absurd (hmax other hstart hlast) (Nat.not_le_of_lt hlt)
  · obtain ⟨hbefore, hafter⟩ := nested hle ho hn
    exact ⟨hbase ▸ hbefore, hafter⟩

theorem Split.next (h : Split width first last start) (hbase : block.base = start)
    (hmax : ∀ other : Block width, other.base = start → other.last ≤ last → other.bits ≤ block.bits) :
    Split width first last (block.last + 1) := by
  intro other hfirst hlast hlt
  by_cases hbefore : other.base < start
  · have hreach := h other hfirst hlast hbefore
    have hinside := block.base_le_last
    omega
  · have hmeets : block.Covers other.base := ⟨by omega, by omega⟩
    have hover := (h.over hbase hmax hfirst hlast hmeets other.covers_base).2
    omega

theorem Greedy.start_le (h : Greedy last start blocks) : start ≤ last := by
  cases h with
  | final block hbase hlast hmax =>
      have hinside := block.base_le_last
      omega
  | next block hbase hlast hmax hrest =>
      have hinside := block.base_le_last
      omega

theorem Greedy.start_le_base (h : Greedy last start blocks) : ∀ block ∈ blocks, start ≤ block.base := by
  induction h with
  | final block hbase hlast hmax =>
      intro other hmem
      obtain rfl := List.mem_singleton.mp hmem
      exact Nat.le_of_eq hbase.symm
  | next block hbase hlast hmax hrest ih =>
      intro other hmem
      obtain rfl | hmem := List.mem_cons.mp hmem
      · exact Nat.le_of_eq hbase.symm
      · have hlater := ih other hmem
        have hinside := block.base_le_last
        omega

theorem Greedy.ascending (h : Greedy last start blocks) :
    blocks.Pairwise fun block later => block.last < later.base := by
  induction h with
  | final block hbase hlast hmax => exact List.pairwise_singleton _ _
  | next block hbase hlast hmax hrest ih =>
      exact List.pairwise_cons.mpr ⟨fun later hmem => hrest.start_le_base later hmem, ih⟩

theorem Greedy.union (h : Greedy last start blocks) : Union blocks start last := by
  induction h with
  | final block hbase hlast hmax =>
      intro n
      simp only [List.mem_singleton, exists_eq_left, Covers]
      rw [hbase, hlast]
  | next block hbase hlast hmax hrest ih =>
      intro n
      have hinside := block.base_le_last
      simp only [List.mem_cons, or_and_right, exists_or, exists_eq_left]
      rw [ih n, Covers]
      omega

-- Another list begins a block where the greedy one does.
theorem Greedy.exists_start (h : Greedy last start blocks)
    (hsplit : Split width first last start)
    (hin : ∀ block ∈ others, first ≤ block.base ∧ block.last ≤ last)
    (hcovers : ∀ n, start ≤ n → n ≤ last → ∃ block ∈ others, block.Covers n) :
    ∃ block ∈ others, block.base = start := by
  obtain ⟨block, hmem, hn, hlast⟩ := hcovers start (Nat.le_refl start) h.start_le
  refine ⟨block, hmem, ?_⟩
  by_contra hne
  have hreach := hsplit block (hin block hmem).1 (hin block hmem).2 (by omega)
  omega

theorem Greedy.length_le (h : Greedy last start blocks) (hsplit : Split width first last start)
    (hin : ∀ block ∈ others, first ≤ block.base ∧ block.last ≤ last)
    (hcovers : ∀ n, start ≤ n → n ≤ last → ∃ block ∈ others, block.Covers n) :
    blocks.length ≤ (others.filter fun block => start ≤ block.base).length := by
  obtain ⟨witness, hwitness, hbaseWitness⟩ := h.exists_start hsplit hin hcovers
  have hkept : witness ∈ others.filter fun block => start ≤ block.base :=
    List.mem_filter.mpr ⟨hwitness, by simp [hbaseWitness]⟩
  induction h generalizing witness with
  | final block hbase hlast hmax => exact List.length_pos_of_mem hkept
  | @next start rest block hbase hlast hmax hrest ih =>
      have hinside := block.base_le_last
      have hsplitNext := hsplit.next hbase hmax
      have hcoversNext : ∀ n, block.last + 1 ≤ n → n ≤ last → ∃ block ∈ others, block.Covers n :=
        fun n hle hn => hcovers n (by omega) hn
      obtain ⟨later, hlater, hbaseLater⟩ := hrest.exists_start hsplitNext hin hcoversNext
      have hrestLength := ih hsplitNext hcoversNext later hlater hbaseLater
        (List.mem_filter.mpr ⟨hlater, by simp [hbaseLater]⟩)
      -- the block at `start` is not among those that come later
      have hfilter : (others.filter fun other => block.last + 1 ≤ other.base) =
          (others.filter fun other => start ≤ other.base).filter
            fun other => block.last + 1 ≤ other.base := by
        rw [List.filter_filter]
        refine List.filter_congr fun other _ => ?_
        simp only [← Bool.decide_and, decide_eq_decide]
        omega
      have hless : ((others.filter fun other => start ≤ other.base).filter
          fun other => block.last + 1 ≤ other.base).length <
            (others.filter fun other => start ≤ other.base).length :=
        List.length_filter_lt_length_iff_exists.mpr ⟨witness, hkept, by simp; omega⟩
      rw [List.length_cons]
      rw [hfilter] at hrestLength
      omega

-- The greedy list is an exact cover.
theorem Greedy.exactCover (h : Greedy last first blocks) : ExactCover first last blocks where
  ascending := h.ascending
  union := h.union
  shortest others hunion := by
    have hin : ∀ block ∈ others, first ≤ block.base ∧ block.last ≤ last := fun block hmem =>
      ⟨((hunion block.base).mp ⟨block, hmem, block.covers_base⟩).1,
        ((hunion block.last).mp ⟨block, hmem, block.base_le_last, Nat.le_refl _⟩).2⟩
    have hlength := h.length_le split_first hin fun n hle hn => (hunion n).mpr ⟨hle, hn⟩
    exact hlength.trans (List.length_filter_le _ _)

end Block

end SingBox.Library
