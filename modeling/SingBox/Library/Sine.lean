import Mathlib.Analysis.Complex.Trigonometric
import Mathlib.NumberTheory.Zsqrtd.GaussianInt

namespace SingBox.Library.Sine

-- How large the sine of a whole number is, in whole parts of `2 ^ 32`. The first terms of the
-- exponential series are a Gaussian integer over a factorial, and so are its powers.

-- The terms up to the `n`th at the imaginary unit, times `n!`.
def series : Nat → GaussianInt
  | 0 => 1
  | n + 1 => (n + 1 : ℕ) * series n + ⟨0, 1⟩ ^ (n + 1)

def denominator : Nat := Nat.factorial 19

-- Whether `t` is found, with room on both sides.
def Near (n t : Nat) : Prop :=
  (t * 2 ^ 16 + 1) * denominator ^ n ≤ (series 19 ^ n).im.natAbs * 2 ^ 48 ∧
    (series 19 ^ n).im.natAbs * 2 ^ 48 + denominator ^ n ≤ (t + 1) * 2 ^ 16 * denominator ^ n

instance (n t : Nat) : Decidable (Near n t) := by
  unfold Near
  infer_instance

section Powers

variable {z w : ℂ}

-- The powers of numbers in the unit disc differ by no more than the numbers do at each step.
theorem norm_pow_sub_pow_le (hz : ‖z‖ ≤ 1) (hw : ‖w‖ ≤ 1) (n : Nat) : ‖z ^ n - w ^ n‖ ≤ n * ‖z - w‖ := by
  induction n with
  | zero => simp
  | succ n ih =>
      have hsplit : z ^ (n + 1) - w ^ (n + 1) = z ^ n * (z - w) + (z ^ n - w ^ n) * w := by ring
      have hfirst : ‖z ^ n * (z - w)‖ ≤ ‖z - w‖ := by
        rw [Complex.norm_mul, Complex.norm_pow]
        exact mul_le_of_le_one_left (norm_nonneg _) (pow_le_one₀ (norm_nonneg z) hz)
      have hsecond : ‖(z ^ n - w ^ n) * w‖ ≤ n * ‖z - w‖ := by
        rw [Complex.norm_mul]
        exact (mul_le_of_le_one_right (norm_nonneg _) hw).trans ih
      calc ‖z ^ (n + 1) - w ^ (n + 1)‖ ≤ ‖z ^ n * (z - w)‖ + ‖(z ^ n - w ^ n) * w‖ := by
            rw [hsplit]
            exact norm_add_le _ _
        _ ≤ ‖z - w‖ + n * ‖z - w‖ := add_le_add hfirst hsecond
        _ = (n + 1 : ℕ) * ‖z - w‖ := by
            push_cast
            ring

end Powers

theorem series_toComplex (n : Nat) : (GaussianInt.toComplex (series n) : ℂ) =
    n.factorial * ∑ m ∈ Finset.range (n + 1), Complex.I ^ m / m.factorial := by
  induction n with
  | zero => simp [series]
  | succ n ih =>
      have hunit : GaussianInt.toComplex ⟨0, 1⟩ = Complex.I := by simp [GaussianInt.toComplex_def']
      have hne : ((n + 1).factorial : ℂ) ≠ 0 := Nat.cast_ne_zero.mpr (Nat.factorial_ne_zero _)
      rw [series, map_add, map_mul, map_natCast, map_pow, hunit, ih, Finset.sum_range_succ _ (n + 1),
        mul_add, mul_div_cancel₀ _ hne, Nat.factorial_succ]
      push_cast
      ring

-- The first twenty terms.
noncomputable def unit : ℂ := GaussianInt.toComplex (series 19) / denominator

theorem unit_near : ‖Complex.exp Complex.I - unit‖ ≤ 1 / 2 ^ 60 := by
  have hne : (denominator : ℂ) ≠ 0 := Nat.cast_ne_zero.mpr (Nat.factorial_ne_zero _)
  have hunit : unit = ∑ m ∈ Finset.range 20, Complex.I ^ m / m.factorial := by
    rw [unit, series_toComplex]
    exact mul_div_cancel_left₀ _ hne
  have hbound := Complex.exp_bound (x := Complex.I) (by simp) (by decide : 0 < 20)
  rw [hunit]
  refine hbound.trans ?_
  rw [Complex.norm_I, one_pow, one_mul]
  norm_num [Nat.factorial]

theorem unit_norm : ‖unit‖ ≤ 1 := by
  have hre : (series 19).re = 65725128248453315 := by decide +kernel
  have him : (series 19).im = 102360822438075317 := by decide +kernel
  have hsq : Complex.normSq unit ≤ 1 := by
    rw [unit, Complex.normSq_apply, Complex.div_natCast_re, Complex.div_natCast_im,
      ← GaussianInt.intCast_re, ← GaussianInt.intCast_im, hre, him]
    norm_num [denominator, Nat.factorial]
  rw [Complex.normSq_eq_norm_sq] at hsq
  exact (sq_le_one_iff₀ (norm_nonneg _)).mp hsq

theorem sin_near {n : Nat} (h : n ≤ 64) :
    |Real.sin n - (series 19 ^ n).im / denominator ^ n| < 1 / 2 ^ 48 := by
  have hsin : (Complex.exp Complex.I ^ n).im = Real.sin n := by
    rw [← Complex.exp_nat_mul]
    exact_mod_cast Complex.exp_ofReal_mul_I_im n
  have hunit : (unit ^ n).im = (series 19 ^ n).im / denominator ^ n := by
    rw [unit, div_pow, ← map_pow, ← Nat.cast_pow, Complex.div_natCast_im, ← GaussianInt.intCast_im]
    push_cast
    rfl
  have hnorm : ‖Complex.exp Complex.I‖ ≤ 1 := by
    have hone := Complex.norm_exp_ofReal_mul_I 1
    rw [Complex.ofReal_one, one_mul] at hone
    exact hone.le
  rw [← hsin, ← hunit, ← Complex.sub_im]
  calc |(Complex.exp Complex.I ^ n - unit ^ n).im| ≤ ‖Complex.exp Complex.I ^ n - unit ^ n‖ :=
        Complex.abs_im_le_norm _
    _ ≤ n * ‖Complex.exp Complex.I - unit‖ := norm_pow_sub_pow_le hnorm unit_norm n
    _ ≤ 64 * (1 / 2 ^ 60) := by
        have hn : (n : ℝ) ≤ 64 := by exact_mod_cast h
        exact mul_le_mul hn unit_near (norm_nonneg _) (by norm_num)
    _ < 1 / 2 ^ 48 := by norm_num

-- A number that is near a fraction, and the whole part of it.
theorem floor_of_near {x : ℝ} {size whole t : Nat} (hwhole : 0 < whole)
    (hclose : |x - size / whole| < 1 / 2 ^ 48) (hlow : (t * 2 ^ 16 + 1) * whole ≤ size * 2 ^ 48)
    (hhigh : size * 2 ^ 48 + whole ≤ (t + 1) * 2 ^ 16 * whole) : ⌊2 ^ 32 * x⌋₊ = t := by
  obtain ⟨hbelow, habove⟩ := abs_lt.mp hclose
  have hpos : (0 : ℝ) < whole := Nat.cast_pos.mpr hwhole
  have hleast : ((t : ℝ) * 2 ^ 16 + 1) / 2 ^ 48 ≤ size / whole := by
    rw [div_le_div_iff₀ (by positivity) hpos]
    exact_mod_cast hlow
  have hmost : (size : ℝ) / whole ≤ ((t + 1) * 2 ^ 16 - 1) / 2 ^ 48 := by
    have hcast : (size : ℝ) * 2 ^ 48 + whole ≤ (t + 1) * 2 ^ 16 * whole := by exact_mod_cast hhigh
    rw [div_le_div_iff₀ hpos (by positivity)]
    linarith
  have hx : 0 ≤ x := by
    have hzero : (0 : ℝ) ≤ t := Nat.cast_nonneg t
    linarith
  rw [Nat.floor_eq_iff (by positivity)]
  constructor
  · linarith
  · linarith

theorem floor_sin {n t : Nat} (h : n ≤ 64) (hnear : Near n t) : ⌊2 ^ 32 * |Real.sin n|⌋₊ = t := by
  have hwhole : 0 < denominator ^ n := Nat.pow_pos (Nat.factorial_pos 19)
  have hpos : (0 : ℝ) < (denominator : ℝ) ^ n := by
    rw [← Nat.cast_pow]
    exact Nat.cast_pos.mpr hwhole
  have hsize : |((series 19 ^ n).im : ℝ) / (denominator : ℝ) ^ n| =
      (series 19 ^ n).im.natAbs / (denominator ^ n : ℕ) := by
    rw [abs_div, abs_of_pos hpos, Nat.cast_natAbs, Int.cast_abs, Nat.cast_pow]
  refine floor_of_near hwhole ?_ hnear.1 hnear.2
  rw [← hsize]
  exact (abs_abs_sub_abs_le _ _).trans_lt (sin_near h)

end SingBox.Library.Sine
