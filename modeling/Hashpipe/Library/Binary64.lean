import Mathlib.Tactic
import Mathlib.Data.Int.Log

/-!
# Binary64 arithmetic on the rationals

A double is a rational, an infinity or a NaN.  `nearest` rounds to 53 significant
bits, ties to even, with the subnormal quantum `2 ^ (-1074)`; `ofRat` adds overflow
to infinity.  The sign of a zero is not kept.

The two facts proofs use are that integers below `2 ^ 53` are exact and that in the
normal range the relative error of rounding is at most `2 ^ (-53)`.
-/

namespace Binary64

inductive Double
  | finite (q : ℚ)
  | infinite (negative : Bool)
  | nan
deriving DecidableEq

/-- The nearest integer, ties to even. -/
def nearestEven (q : ℚ) : ℤ :=
  if q - ⌊q⌋ < 1 / 2 then ⌊q⌋
  else if 1 / 2 < q - ⌊q⌋ then ⌊q⌋ + 1
  else if ⌊q⌋ % 2 = 0 then ⌊q⌋
  else ⌊q⌋ + 1

theorem abs_nearestEven_sub_le (q : ℚ) : |(nearestEven q : ℚ) - q| ≤ 1 / 2 := by
  have hlow : (⌊q⌋ : ℚ) ≤ q := Int.floor_le q
  have hhigh : q < ⌊q⌋ + 1 := Int.lt_floor_add_one q
  rw [abs_le]
  unfold nearestEven
  split
  · constructor <;> linarith
  · split
    · push_cast
      constructor <;> linarith
    · split
      · constructor <;> linarith
      · push_cast
        constructor <;> linarith

theorem nearestEven_intCast (n : ℤ) : nearestEven (n : ℚ) = n := by
  unfold nearestEven
  rw [Int.floor_intCast, sub_self, if_pos (by norm_num)]

/-- Exponent of the last place of the doubles around `q`. -/
def quantum (q : ℚ) : ℤ := max (Int.log 2 |q| - 52) (-1074)

/-- The nearest multiple of the last place, ties to even. -/
def nearest (q : ℚ) : ℚ := nearestEven (q / 2 ^ quantum q) * 2 ^ quantum q

/-- Rounding moves a number by at most half a last place. -/
theorem abs_nearest_sub_le (q : ℚ) : |nearest q - q| ≤ 2 ^ quantum q / 2 := by
  have hpos : (0 : ℚ) < 2 ^ quantum q := zpow_pos (by norm_num) _
  have hsplit : nearest q - q =
      (nearestEven (q / 2 ^ quantum q) - q / 2 ^ quantum q) * 2 ^ quantum q := by
    rw [sub_mul, div_mul_cancel₀ _ hpos.ne', nearest]
  rw [hsplit, abs_mul, abs_of_pos hpos]
  have := mul_le_mul_of_nonneg_right (abs_nearestEven_sub_le (q / 2 ^ quantum q)) hpos.le
  linarith

/-- The absolute error below a power of two. -/
theorem abs_nearest_sub_le_of_lt {q : ℚ} {k : ℕ} (hq : |q| < 2 ^ (k + 1)) :
    |nearest q - q| ≤ 2 ^ ((k : ℤ) - 52) / 2 := by
  have hlog : Int.log 2 |q| ≤ k := by
    by_cases h0 : q = 0
    · subst h0
      simp
    · have hlt : Int.log 2 |q| < (k : ℤ) + 1 :=
        (Int.lt_zpow_iff_log_lt (by norm_num) (abs_pos.mpr h0)).mp (by exact_mod_cast hq)
      omega
  have hquantum : quantum q ≤ (k : ℤ) - 52 := max_le (by omega) (by omega)
  refine (abs_nearest_sub_le q).trans ?_
  have := zpow_le_zpow_right₀ (by norm_num : (1 : ℚ) ≤ 2) hquantum
  linarith

/-- The relative error in the normal range. -/
theorem abs_nearest_sub_le_relative {q : ℚ} (hq : (2 : ℚ) ^ (-1022 : ℤ) ≤ |q|) :
    |nearest q - q| ≤ |q| / 2 ^ 53 := by
  have hpos : 0 < |q| := lt_of_lt_of_le (by positivity) hq
  have hlog : (-1022 : ℤ) ≤ Int.log 2 |q| :=
    (Int.zpow_le_iff_le_log (by norm_num) hpos).mp (by simpa using hq)
  have hquantum : quantum q = Int.log 2 |q| - 52 := max_eq_left (by omega)
  have hself : (2 : ℚ) ^ Int.log 2 |q| ≤ |q| := by
    simpa using Int.zpow_log_le_self (b := 2) (by norm_num) hpos
  calc |nearest q - q| ≤ 2 ^ quantum q / 2 := abs_nearest_sub_le q
    _ = 2 ^ Int.log 2 |q| / 2 ^ 53 := by
      rw [hquantum, zpow_sub₀ (by norm_num)]
      norm_num
      ring
    _ ≤ |q| / 2 ^ 53 := by gcongr

/-- Integers of at most 53 bits are doubles. -/
theorem nearest_intCast {n : ℤ} (hn : |n| < 2 ^ 53) : nearest (n : ℚ) = n := by
  have hquantum : quantum n ≤ 0 := by
    have hlog : Int.log 2 |(n : ℚ)| < 53 := by
      by_cases h0 : n = 0
      · subst h0
        simp
      · have hpos : 0 < |(n : ℚ)| := by simpa using h0
        refine (Int.lt_zpow_iff_log_lt (by norm_num) hpos).mp ?_
        rw [← Int.cast_abs]
        exact_mod_cast hn
    exact max_le (by omega) (by norm_num)
  obtain ⟨k, hk⟩ := Int.exists_eq_neg_ofNat hquantum
  have hscale : (n : ℚ) / 2 ^ quantum n = ((n * 2 ^ k : ℤ) : ℚ) := by
    rw [hk, zpow_neg, div_inv_eq_mul]
    push_cast
    simp
  rw [nearest, hscale, nearestEven_intCast, ← hscale,
    div_mul_cancel₀ _ (zpow_pos (by norm_num) _).ne']

/-- The double a real result rounds to. -/
def Double.ofRat (q : ℚ) : Double :=
  if |nearest q| < 2 ^ 1024 then .finite (nearest q) else .infinite (decide (q < 0))

theorem Double.ofRat_intCast {n : ℤ} (hn : |n| < 2 ^ 53) :
    Double.ofRat n = .finite n := by
  rw [Double.ofRat, nearest_intCast hn, if_pos]
  have : |(n : ℚ)| < 2 ^ 53 := by exact_mod_cast hn
  exact lt_of_lt_of_le this (pow_le_pow_right₀ (by norm_num) (by norm_num))

/-- In the normal range the result is finite and close. -/
theorem Double.ofRat_near {q : ℚ} (hlow : (2 : ℚ) ^ (-1022 : ℤ) ≤ |q|) (hhigh : |q| ≤ 2 ^ 200) :
    ∃ r : ℚ, Double.ofRat q = .finite r ∧ |r - q| ≤ |q| / 2 ^ 53 := by
  have hnear := abs_nearest_sub_le_relative hlow
  refine ⟨nearest q, if_pos ?_, hnear⟩
  have htri : |nearest q| ≤ |nearest q - q| + |q| := by
    simpa using abs_add_le (nearest q - q) q
  have hhalf : |q| / 2 ^ 53 ≤ |q| := div_le_self (abs_nonneg q) (by norm_num)
  calc |nearest q| ≤ |q| + |q| := by linarith
    _ ≤ 2 ^ 200 + 2 ^ 200 := by gcongr
    _ = 2 ^ 201 := by ring
    _ < 2 ^ 1024 := pow_lt_pow_right₀ (by norm_num) (by norm_num)

/-- Anything from 1/2048 on is in the normal range. -/
theorem normal_of_le {q : ℚ} (hq : 1 / 2048 ≤ q) : (2 : ℚ) ^ (-1022 : ℤ) ≤ q := by
  calc (2 : ℚ) ^ (-1022 : ℤ) ≤ 2 ^ (-11 : ℤ) := zpow_le_zpow_right₀ (by norm_num) (by norm_num)
    _ = 1 / 2048 := by norm_num
    _ ≤ q := hq

def Double.neg : Double → Double
  | .finite q => .finite (-q)
  | .infinite negative => .infinite !negative
  | .nan => .nan

def Double.add : Double → Double → Double
  | .finite a, .finite b => .ofRat (a + b)
  | .nan, _ => .nan
  | _, .nan => .nan
  | .infinite a, .infinite b => if a = b then .infinite a else .nan
  | .infinite a, .finite _ => .infinite a
  | .finite _, .infinite b => .infinite b

/-- `a < b`; false when one of them is a NaN. -/
def Double.lt : Double → Double → Bool
  | .finite a, .finite b => a < b
  | .infinite a, .infinite b => a && !b
  | .infinite a, .finite _ => a
  | .finite _, .infinite b => !b
  | _, _ => false

/-- `a ≤ b`; false when one of them is a NaN. -/
def Double.le : Double → Double → Bool
  | .finite a, .finite b => a ≤ b
  | .infinite a, .infinite b => a || !b
  | .infinite a, .finite _ => a
  | .finite _, .infinite b => !b
  | _, _ => false

/-- What rounds to a large positive double, or to infinity. -/
theorem lt_ofRat {b d : ℚ} (hb : b ≤ 2 ^ 32) (hd : 2 ^ 33 ≤ d) :
    Double.lt (.finite b) (.ofRat d) = true ∧ Double.lt (.ofRat d) (.finite b) = false := by
  have hd0 : 0 < d := lt_of_lt_of_le (by norm_num) hd
  have hnear := abs_nearest_sub_le_relative
    (normal_of_le (q := |d|) (by rw [abs_of_pos hd0]; exact le_trans (by norm_num) hd))
  rw [abs_of_pos hd0, abs_le] at hnear
  have hhalf : d / 2 ^ 53 ≤ d / 4 := by
    gcongr
    norm_num
  unfold Double.ofRat
  split
  · simp only [Double.lt, decide_eq_true_eq, decide_eq_false_iff_not, not_lt]
    constructor <;> linarith [hnear.1]
  · simp [Double.lt, not_lt.mpr hd0.le]

/-- What rounds to a large negative double, or to minus infinity. -/
theorem ofRat_lt {b d : ℚ} (hb : -2 ^ 32 ≤ b) (hd : d ≤ -2 ^ 33) :
    Double.lt (.ofRat d) (.finite b) = true ∧ Double.lt (.finite b) (.ofRat d) = false := by
  have hd0 : d < 0 := lt_of_le_of_lt hd (by norm_num)
  have hnear := abs_nearest_sub_le_relative
    (normal_of_le (q := |d|) (by rw [abs_of_neg hd0]; exact le_trans (by norm_num) (neg_le_neg hd)))
  rw [abs_of_neg hd0, abs_le] at hnear
  have hhalf : -d / 2 ^ 53 ≤ -d / 4 := by
    gcongr
    · linarith
    · norm_num
  unfold Double.ofRat
  split
  · simp only [Double.lt, decide_eq_true_eq, decide_eq_false_iff_not, not_lt]
    constructor <;> linarith [hnear.2]
  · simp [Double.lt, hd0]

/-- Truncation towards zero. -/
def trunc (q : ℚ) : ℤ := if 0 ≤ q then ⌊q⌋ else ⌈q⌉

theorem trunc_eq_of_nonneg {q : ℚ} {n : ℤ} (hn : 0 ≤ n) (hlow : n ≤ q) (hhigh : q < n + 1) :
    trunc q = n := by
  have hq : 0 ≤ q := le_trans (by exact_mod_cast hn) hlow
  rw [trunc, if_pos hq]
  exact Int.floor_eq_iff.mpr ⟨hlow, hhigh⟩

theorem trunc_eq_of_neg {q : ℚ} {n : ℤ} (hn : n < 0) (hlow : n - 1 < q) (hhigh : q ≤ n) :
    trunc q = n := by
  have hneg : (n : ℚ) < 0 := by exact_mod_cast hn
  rw [trunc, if_neg (by linarith)]
  exact Int.ceil_eq_iff.mpr ⟨hlow, hhigh⟩

/-- Conversion to an integer type with the values `low` to `high`; a value that does
not fit, which C leaves undefined, gives `low` as the x86 instruction does. -/
def Double.toInt (low high : ℤ) : Double → ℤ
  | .finite q => if low ≤ trunc q ∧ trunc q ≤ high then trunc q else low
  | _ => low

theorem Double.toInt_finite {low high n : ℤ} {q : ℚ} (hn : trunc q = n) (hlow : low ≤ n)
    (hhigh : n ≤ high) : Double.toInt low high (.finite q) = n := by
  rw [Double.toInt, hn, if_pos ⟨hlow, hhigh⟩]

end Binary64
