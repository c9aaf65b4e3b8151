import Mathlib.Tactic
import Mathlib.Data.Int.Log
import Hashpipe.Library.CNumber

/-!
# Doubles as text, and back

`"%.17g"` and `atof`: seventeen significant digits determine a double.  The decimal text is within
`q / 2 ^ 54` of the double `q` (`abs_decimal_sub_lt`), and of all doubles `q` is the nearest to a
number as close as that (`nearest_eq_of_close`).  So `atof` reads back what was printed, signs of
zeros and NaNs included (`atofSigned_printGeneral`).

`printGeneral_length_le` bounds the text, for a caller that prints into a buffer.
-/

namespace Binary64

/-- The values of the format: 53 bits, the last place not below `2 ^ (-1074)`. -/
structure IsDouble (q : ℚ) : Prop where
  bits : ∃ m e : ℤ, |m| < 2 ^ 53 ∧ -1074 ≤ e ∧ q = m * 2 ^ e
  finite : |q| < 2 ^ 1024

theorem IsDouble.abs {q : ℚ} (h : IsDouble q) : IsDouble |q| where
  bits := by
    obtain ⟨m, e, hm, he, rfl⟩ := h.bits
    refine ⟨|m|, e, by rwa [abs_abs], he, ?_⟩
    rw [abs_mul, abs_of_pos (zpow_pos (by norm_num : (0 : ℚ) < 2) e), Int.cast_abs]
  finite := by rw [abs_abs]; exact h.finite

theorem isDouble_intCast {n : ℤ} (hn : |n| < 2 ^ 53) : IsDouble n where
  bits := ⟨n, 0, hn, by norm_num, by simp⟩
  finite := by
    have : |(n : ℚ)| < 2 ^ 53 := by exact_mod_cast hn
    exact lt_of_lt_of_le this (pow_le_pow_right₀ (by norm_num) (by norm_num))

theorem nearestEven_eq_of_abs_sub_lt {q : ℚ} {n : ℤ} (h : |q - n| < 1 / 2) : nearestEven q = n := by
  have hnear := abs_nearestEven_sub_le q
  rw [abs_lt] at h
  rw [abs_le] at hnear
  have hlow : ((nearestEven q : ℤ) : ℚ) < n + 1 := by linarith
  have hhigh : (n : ℚ) < nearestEven q + 1 := by linarith
  have hlow' : nearestEven q < n + 1 := by exact_mod_cast hlow
  have hhigh' : n < nearestEven q + 1 := by exact_mod_cast hhigh
  omega

theorem le_nearestEven {q : ℚ} {n : ℤ} (h : n ≤ q) : n ≤ nearestEven q := by
  have hnear := abs_le.mp (abs_nearestEven_sub_le q)
  have hlt : (n : ℚ) < nearestEven q + 1 := by linarith
  have hlt' : n < nearestEven q + 1 := by exact_mod_cast hlt
  omega

theorem nearestEven_le {q : ℚ} {n : ℤ} (h : q ≤ n) : nearestEven q ≤ n := by
  have hnear := abs_le.mp (abs_nearestEven_sub_le q)
  have hlt : (nearestEven q : ℚ) < n + 1 := by linarith
  have hlt' : nearestEven q < n + 1 := by exact_mod_cast hlt
  omega

/-- A multiple of the last place that is nearer than half of it. -/
theorem nearest_eq_of_multiple {q d : ℚ} {n : ℤ} (hq : q = n * 2 ^ quantum d)
    (hd : |d - q| < 2 ^ quantum d / 2) : nearest d = q := by
  have hpos : (0 : ℚ) < 2 ^ quantum d := zpow_pos (by norm_num) _
  have hscaled : |d / 2 ^ quantum d - n| < 1 / 2 := by
    have hsplit : d / 2 ^ quantum d - n = (d - q) / 2 ^ quantum d := by
      rw [sub_div, hq, mul_div_cancel_right₀ _ hpos.ne']
    rw [hsplit, abs_div, abs_of_pos hpos, div_lt_iff₀ hpos]
    linarith
  rw [nearest, nearestEven_eq_of_abs_sub_lt hscaled, hq]

theorem zpow_log_le {q : ℚ} (hq : 0 < q) : (2 : ℚ) ^ Int.log 2 q ≤ q := by
  simpa using Int.zpow_log_le_self (b := 2) (by norm_num) hq

theorem lt_zpow_log {q : ℚ} : q < (2 : ℚ) ^ (Int.log 2 q + 1) := by
  simpa using Int.lt_zpow_succ_log_self (b := 2) (by norm_num) q

/-- The last place of a value of the format divides it. -/
theorem IsDouble.multiple {q : ℚ} (h : IsDouble q) (hq : 0 < q) :
    ∃ n : ℤ, q = n * 2 ^ quantum q := by
  obtain ⟨m, e, hm, he, hme⟩ := h.bits
  have hpow : (0 : ℚ) < 2 ^ e := zpow_pos (by norm_num) _
  have hlt : q < 2 ^ (e + 53) := by
    have hm' : (m : ℚ) < 2 ^ 53 := by exact_mod_cast lt_of_abs_lt hm
    calc q = m * 2 ^ e := hme
      _ < 2 ^ 53 * 2 ^ e := by gcongr
      _ = 2 ^ (e + 53) := by
        rw [zpow_add₀ (by norm_num)]
        norm_num
        ring
  have hlog : Int.log 2 q < e + 53 :=
    (Int.lt_zpow_iff_log_lt (by norm_num) hq).mp (by simpa using hlt)
  have hle : quantum q ≤ e := by
    rw [quantum, abs_of_pos hq]
    exact max_le (by omega) he
  obtain ⟨k, hk⟩ := Int.eq_ofNat_of_zero_le (sub_nonneg.mpr hle)
  refine ⟨m * 2 ^ k, ?_⟩
  have hsplit : (2 : ℚ) ^ e = 2 ^ k * 2 ^ quantum q := by
    rw [← zpow_natCast, ← zpow_add₀ (by norm_num)]
    congr 1
    omega
  push_cast
  rw [mul_assoc, ← hsplit]
  exact hme

/-- Doubles of 53 bits or more before the point are integers. -/
theorem IsDouble.integer {q : ℚ} (h : IsDouble q) (hq : 2 ^ 52 ≤ q) : ∃ n : ℕ, q = n := by
  have hpos : 0 < q := lt_of_lt_of_le (by norm_num) hq
  obtain ⟨k, hk⟩ := h.multiple hpos
  have hlog : 52 ≤ Int.log 2 q :=
    (Int.zpow_le_iff_le_log (by norm_num) hpos).mp (by exact_mod_cast hq)
  have hquantum : 0 ≤ quantum q := by
    rw [quantum, abs_of_pos hpos]
    exact le_max_of_le_left (by omega)
  obtain ⟨e, he⟩ := Int.eq_ofNat_of_zero_le hquantum
  have hint : q = ((k * 2 ^ e : ℤ) : ℚ) := by
    rw [hk, he]
    push_cast
    rfl
  obtain ⟨n, hn⟩ := Int.eq_ofNat_of_zero_le (a := k * 2 ^ e) (by
    have : (0 : ℚ) < ((k * 2 ^ e : ℤ) : ℚ) := hint ▸ hpos
    exact_mod_cast this.le)
  exact ⟨n, by rw [hint, hn]; rfl⟩

/-- **Doubles are that far apart**: of all of them, `q` is the nearest to a number within
`q / 2 ^ 54` of it. -/
theorem nearest_eq_of_close {q d : ℚ} (h : IsDouble q) (hq : 0 < q) (hd : |d - q| < q / 2 ^ 54) :
    nearest d = q := by
  obtain ⟨n, hn⟩ := h.multiple hq
  rw [abs_lt] at hd
  have hd0 : 0 < d := by linarith
  set e := quantum q with he
  have heq : e = max (Int.log 2 q - 52) (-1074) := by rw [he, quantum, abs_of_pos hq]
  have hdq : quantum d = max (Int.log 2 d - 52) (-1074) := by rw [quantum, abs_of_pos hd0]
  have hpow : (0 : ℚ) < 2 ^ e := zpow_pos (by norm_num) _
  have hsucc : (2 : ℚ) ^ (e + 53) = 2 ^ 53 * 2 ^ e := by
    rw [zpow_add₀ (by norm_num), mul_comm]
    norm_num
  -- `q` has 53 bits above its last place
  have hqhigh : q < 2 ^ 53 * 2 ^ e := by
    rw [← hsucc]
    exact lt_of_lt_of_le lt_zpow_log (zpow_le_zpow_right₀ (by norm_num) (by omega))
  have hn53 : n + 1 ≤ 2 ^ 53 := by
    have : (n : ℚ) < 2 ^ 53 := by
      rw [hn] at hqhigh
      exact lt_of_mul_lt_mul_right hqhigh hpow.le
    have : n < 2 ^ 53 := by exact_mod_cast this
    omega
  have hhalf : q / 2 ^ 54 < 2 ^ e / 2 := by
    rw [div_lt_div_iff₀ (by norm_num) (by norm_num)]
    calc q * 2 < 2 ^ 53 * 2 ^ e * 2 := by gcongr
      _ = 2 ^ e * 2 ^ 54 := by ring
  -- the last place of `d` is that of `q` or the one below
  have hdhigh : d < 2 ^ (e + 53) := by
    have hn' : (n : ℚ) + 1 ≤ 2 ^ 53 := by exact_mod_cast hn53
    have hstep : ((n : ℚ) + 1) * 2 ^ e ≤ 2 ^ 53 * 2 ^ e := mul_le_mul_of_nonneg_right hn' hpow.le
    rw [hsucc]
    linarith
  have hlogd : Int.log 2 d < e + 53 :=
    (Int.lt_zpow_iff_log_lt (by norm_num) hd0).mp (by simpa using hdhigh)
  have hloglow : Int.log 2 q - 1 ≤ Int.log 2 d := by
    refine (Int.zpow_le_iff_le_log (by norm_num) hd0).mp ?_
    have hlow := zpow_log_le hq
    have hprev : (2 : ℚ) ^ (Int.log 2 q - 1) = 2 ^ Int.log 2 q / 2 := by
      rw [zpow_sub₀ (by norm_num), zpow_one]
    show (2 : ℚ) ^ (Int.log 2 q - 1) ≤ d
    rw [hprev]
    linarith
  by_cases hsame : quantum d = e
  · refine nearest_eq_of_multiple (n := n) (by rw [hsame]; exact hn) ?_
    rw [hsame, abs_lt]
    constructor <;> linarith
  · -- `d` is below a power of two, which `q` is then
    have hbelow : quantum d = e - 1 := by omega
    have hpow52 : (2 : ℚ) ^ (e + 52) = 2 ^ 52 * 2 ^ e := by
      rw [zpow_add₀ (by norm_num), mul_comm]
      norm_num
    have hdlow : d < 2 ^ 52 * 2 ^ e := by
      rw [← hpow52]
      exact lt_of_lt_of_le lt_zpow_log (zpow_le_zpow_right₀ (by norm_num) (by omega))
    have hqlow : 2 ^ 52 * 2 ^ e ≤ q := by
      rw [← hpow52]
      exact (zpow_le_zpow_right₀ (by norm_num) (by omega)).trans (zpow_log_le hq)
    have hn52 : n = 2 ^ 52 := by
      have hupper : (n : ℚ) * 2 ^ e < (2 ^ 52 + 1) * 2 ^ e := by
        rw [← hn]
        linarith
      have hlower : (2 : ℚ) ^ 52 * 2 ^ e ≤ n * 2 ^ e := by rw [← hn]; exact hqlow
      have hupper' : (n : ℚ) < 2 ^ 52 + 1 := lt_of_mul_lt_mul_right hupper hpow.le
      have hlower' : (2 : ℚ) ^ 52 ≤ n := le_of_mul_le_mul_right hlower hpow
      have h1 : n < 2 ^ 52 + 1 := by exact_mod_cast hupper'
      have h2 : 2 ^ 52 ≤ n := by exact_mod_cast hlower'
      omega
    have hprev : (2 : ℚ) ^ (e - 1) = 2 ^ e / 2 := by
      rw [zpow_sub₀ (by norm_num), zpow_one]
    have hquarter : q / 2 ^ 54 = 2 ^ e / 2 / 2 := by
      rw [hn, hn52]
      push_cast
      ring
    refine nearest_eq_of_multiple (n := 2 * n) ?_ ?_
    · rw [hbelow, hprev, hn]
      push_cast
      ring
    · rw [hbelow, hprev, abs_lt, ← hquarter]
      exact hd

/-- What rounds to a value of the format is that double. -/
theorem Double.ofRat_eq_of_close {q d : ℚ} (h : IsDouble q) (hq : 0 < q)
    (hd : |d - q| < q / 2 ^ 54) : Double.ofRat d = .finite q := by
  have hfinite := h.finite
  rw [Double.ofRat, nearest_eq_of_close h hq hd, if_pos hfinite]

end Binary64

namespace CNumber

open Binary64

/-! ## The digits of `%g` -/

theorem zpow_log_ten_le {q : ℚ} (hq : 0 < q) : (10 : ℚ) ^ Int.log 10 q ≤ q := by
  simpa using Int.zpow_log_le_self (b := 10) (by norm_num) hq

theorem lt_zpow_log_ten {q : ℚ} : q < (10 : ℚ) ^ (Int.log 10 q + 1) := by
  simpa using Int.lt_zpow_succ_log_self (b := 10) (by norm_num) q

/-- What `%.{p}g` prints: `p` digits, at most half of the last one off. -/
structure Significand (p : ℕ) (q : ℚ) (n : ℕ) (x : ℤ) : Prop where
  low : 10 ^ (p - 1) ≤ n
  high : n < 10 ^ p
  exponent : Int.log 10 q ≤ x ∧ x ≤ Int.log 10 q + 1
  close : |n * (10 : ℚ) ^ (x - ((p : ℤ) - 1)) - q| ≤ q / 10 ^ (p - 1) / 2

theorem significand_spec {p : ℕ} (hp : 1 ≤ p) {q : ℚ} (hq : 0 < q) :
    Significand p q (significand p q).1 (significand p q).2 := by
  set x := Int.log 10 q with hx
  set unit : ℚ := 10 ^ (x - ((p : ℤ) - 1)) with hunit
  have hpos : 0 < unit := zpow_pos (by norm_num) _
  have hscale : q * 10 ^ ((p : ℤ) - 1 - x) = q / unit := by
    rw [hunit, div_eq_mul_inv, ← zpow_neg]
    congr 2
    omega
  have hpow : (10 : ℚ) ^ (p - 1) * unit = 10 ^ x := by
    rw [hunit, ← zpow_natCast, ← zpow_add₀ (by norm_num)]
    congr 1
    omega
  have hpow' : (10 : ℚ) ^ p * unit = 10 ^ (x + 1) := by
    rw [hunit, ← zpow_natCast, ← zpow_add₀ (by norm_num)]
    congr 1
    omega
  have hlow : (10 : ℚ) ^ (p - 1) ≤ q / unit := by
    rw [le_div_iff₀ hpos, hpow]
    exact zpow_log_ten_le hq
  have hhigh : q / unit < (10 : ℚ) ^ p := by
    rw [div_lt_iff₀ hpos, hpow']
    exact lt_zpow_log_ten
  set z := nearestEven (q * 10 ^ ((p : ℤ) - 1 - x)) with hz
  have hnear : |(z : ℚ) - q / unit| ≤ 1 / 2 := by
    rw [hz, hscale]
    exact abs_nearestEven_sub_le _
  have hzlow : (10 : ℤ) ^ (p - 1) ≤ z := by
    rw [hz, hscale]
    exact le_nearestEven (by exact_mod_cast hlow)
  have hzhigh : z ≤ (10 : ℤ) ^ p := by
    rw [hz, hscale]
    exact nearestEven_le (by exact_mod_cast hhigh.le)
  have hz0 : 0 ≤ z := le_trans (by positivity) hzlow
  have hcast : ((z.toNat : ℕ) : ℤ) = z := Int.toNat_of_nonneg hz0
  -- half a unit, as a part of `q`
  have hclose : |(z : ℚ) * unit - q| ≤ q / 10 ^ (p - 1) / 2 := by
    have hsplit : (z : ℚ) * unit - q = (z - q / unit) * unit := by
      rw [sub_mul, div_mul_cancel₀ _ hpos.ne']
    have hqunit : unit ≤ q / 10 ^ (p - 1) := by
      rw [le_div_iff₀ (by positivity), mul_comm, hpow]
      exact zpow_log_ten_le hq
    calc |(z : ℚ) * unit - q| = |(z : ℚ) - q / unit| * unit := by
          rw [hsplit, abs_mul, abs_of_pos hpos]
      _ ≤ 1 / 2 * unit := mul_le_mul_of_nonneg_right hnear hpos.le
      _ ≤ q / 10 ^ (p - 1) / 2 := by linarith
  have hten : 10 ^ p = 10 * 10 ^ (p - 1) := by
    rw [← pow_succ']
    congr 1
    omega
  by_cases htop : z.toNat = 10 ^ p
  · have heq : significand p q = (10 ^ (p - 1), x + 1) := if_pos htop
    rw [heq]
    have hztop : z = 10 ^ p := by
      rw [← hcast, htop]
      push_cast
      rfl
    refine ⟨le_rfl, ?_, ⟨by omega, le_rfl⟩, ?_⟩
    · show 10 ^ (p - 1) < 10 ^ p
      have : 0 < 10 ^ (p - 1) := by positivity
      omega
    · have hsame : ((10 ^ (p - 1) : ℕ) : ℚ) * 10 ^ (x + 1 - ((p : ℤ) - 1)) = z * unit := by
        rw [hztop, hunit]
        push_cast
        rw [show x + 1 - ((p : ℤ) - 1) = x - ((p : ℤ) - 1) + 1 by ring,
          zpow_add_one₀ (by norm_num), show (10 : ℚ) ^ p = 10 * 10 ^ (p - 1) by exact_mod_cast hten]
        ring
      show |((10 ^ (p - 1) : ℕ) : ℚ) * 10 ^ (x + 1 - ((p : ℤ) - 1)) - q| ≤ _
      rw [hsame]
      exact hclose
  · have heq : significand p q = (z.toNat, x) := if_neg htop
    rw [heq]
    refine ⟨?_, ?_, ⟨le_rfl, by omega⟩, ?_⟩
    · show 10 ^ (p - 1) ≤ z.toNat
      zify
      rw [hcast]
      exact hzlow
    · show z.toNat < 10 ^ p
      refine lt_of_le_of_ne ?_ htop
      zify
      rw [hcast]
      exact hzhigh
    · show |((z.toNat : ℕ) : ℚ) * unit - q| ≤ _
      have : ((z.toNat : ℕ) : ℚ) = z := by exact_mod_cast hcast
      rw [this]
      exact hclose

/-- **Seventeen digits** are nearer to a double than half its last place. -/
theorem abs_decimal_sub_lt {q : ℚ} (hq : 0 < q) {n : ℕ} {x : ℤ} (h : Significand 17 q n x) :
    |n * (10 : ℚ) ^ (x - 16) - q| < q / 2 ^ 54 := by
  have hclose := h.close
  have hexp : x - (((17 : ℕ) : ℤ) - 1) = x - 16 := by norm_num
  rw [hexp] at hclose
  refine lt_of_le_of_lt hclose ?_
  rw [div_div]
  exact div_lt_div_of_pos_left hq (by norm_num) (by norm_num)

/-! ## Reading a decimal text -/

theorem digitsValue_append (base acc : ℕ) (ds ds' : List UInt8) :
    digitsValue base acc (ds ++ ds') = digitsValue base (digitsValue base acc ds) ds' :=
  List.foldl_append

theorem digitsValue_zeros (acc k : ℕ) :
    digitsValue 10 acc (List.replicate k 48) = acc * 10 ^ k := by
  induction k generalizing acc with
  | zero => simp [digitsValue]
  | succ k ih =>
    show digitsValue 10 (acc * 10 + 0) (List.replicate k 48) = _
    rw [ih, pow_succ]
    ring

/-- The digits are taken up to something that is none. -/
theorem readDigits_append {base acc : ℕ} {ds rest : List UInt8} (h : Digits base ds)
    (hrest : ∀ c ∈ rest.head?, digitIn base c = none) :
    readDigits base acc (ds ++ rest) = (digitsValue base acc ds, rest) := by
  induction ds generalizing acc with
  | nil =>
    cases rest with
    | nil => rfl
    | cons c cs =>
      show readDigits base acc (c :: cs) = _
      rw [readDigits, hrest c rfl]
      rfl
  | cons c cs ih =>
    obtain ⟨d, hd⟩ := Option.isSome_iff_exists.mp (h c List.mem_cons_self)
    show readDigits base acc (c :: (cs ++ rest)) = _
    rw [readDigits, hd]
    show readDigits base (acc * base + d) (cs ++ rest) = _
    rw [ih fun x hx => h x (List.mem_cons_of_mem c hx), digitsValue, digitsValue, List.foldl_cons,
      hd]
    rfl

theorem digits_of_range {ds : List UInt8} (h : ∀ c ∈ ds, 48 ≤ c ∧ c ≤ 57) : Digits 10 ds := by
  intro c hc
  obtain ⟨hlow, hhigh⟩ := h c hc
  have hlow' : 48 ≤ c.toNat := UInt8.le_iff_toNat_le.mp hlow
  have hhigh' : c.toNat ≤ 57 := UInt8.le_iff_toNat_le.mp hhigh
  rw [digitIn, digitValue, if_pos ⟨hlow, hhigh⟩, Option.isSome_iff_exists]
  exact ⟨c.toNat - 48, Option.filter_eq_some_iff.mpr ⟨rfl, by simp; omega⟩⟩

theorem Digits.range {ds : List UInt8} (h : Digits 10 ds) : ∀ c ∈ ds, 48 ≤ c ∧ c ≤ 57 :=
  fun c hc => digitIn_range le_rfl (h c hc)

theorem natText_digits (n : ℕ) : Digits 10 (natText n) := digits_of_range fun _ hc => natText_range hc

theorem digitsValue_natText (n : ℕ) : digitsValue 10 0 (natText n) = n := by
  have h := readDigits_natText n
  rw [readDigits_all (natText_digits n)] at h
  exact congrArg Prod.fst h

/-- Digits, digits behind a point, without zeros at their end, and an exponent. -/
def decimalText (whole fraction : List UInt8) (exponent : Option ℤ) : List UInt8 :=
  whole ++ (fractionText fraction ++ exponent.elim [] fun x => 101 :: exponentText x)

theorem rdropWhile_zeros (ds : List UInt8) :
    ∃ k, ds = ds.rdropWhile (· == 48) ++ List.replicate k 48 := by
  induction ds using List.reverseRecOn with
  | nil => exact ⟨0, rfl⟩
  | append_singleton ds c ih =>
    by_cases hc : c = 48
    · obtain ⟨k, hk⟩ := ih
      refine ⟨k + 1, ?_⟩
      rw [List.rdropWhile_concat_pos _ _ _ (by simpa using hc), hc, List.replicate_succ',
        ← List.append_assoc, ← hk]
    · refine ⟨0, ?_⟩
      rw [List.rdropWhile_concat_neg _ _ _ (by simpa using hc)]
      simp

theorem readExponent_exponentText (x : ℤ) :
    readExponent 101 (101 :: exponentText x) = x ∧
      exponentRest 101 (101 :: exponentText x) = [] := by
  set digits := natText x.natAbs with hdigits
  set padded := if digits.length < 2 then 48 :: digits else digits with hpadded
  have hread : readDigits 10 0 padded = (x.natAbs, []) := by
    rw [hpadded]
    split
    · show readDigits 10 (0 * 10 + 0) digits = _
      rw [hdigits]
      exact readDigits_natText _
    · exact readDigits_natText _
  have hlen : ¬ ([] : List UInt8).length = padded.length := by
    obtain ⟨d, cs, htext, -, -⟩ := natText_head x.natAbs
    rw [hpadded, hdigits, htext]
    split <;> simp
  have hsigned : ∀ (negative : Bool) (cs : List UInt8), readSign cs = (negative, padded) →
      readExponent 101 (101 :: cs) = (if negative then -(x.natAbs : ℤ) else x.natAbs) ∧
        exponentRest 101 (101 :: cs) = [] := by
    intro negative cs hsign
    simp only [readExponent, exponentRest, true_or, if_true, hsign, hread, if_neg hlen, and_self]
  by_cases hx : x < 0
  · have htext : exponentText x = 45 :: padded := by
      rw [exponentText, if_pos hx]
    have habs : -(x.natAbs : ℤ) = x := by omega
    have h := hsigned true (45 :: padded) rfl
    rw [if_pos rfl, habs] at h
    rw [htext]
    exact h
  · have htext : exponentText x = 43 :: padded := by
      rw [exponentText, if_neg hx]
    have habs : (x.natAbs : ℤ) = x := by omega
    have h := hsigned false (43 :: padded) rfl
    rw [if_neg Bool.false_ne_true, habs] at h
    rw [htext]
    exact h

/-- What may follow the digits: an exponent, or nothing. -/
structure ExponentTail (tail : List UInt8) (x : ℤ) : Prop where
  value : readExponent 101 tail = x
  rest : exponentRest 101 tail = []
  head : ∀ c ∈ tail.head?, digitIn 10 c = none ∧ c ≠ 46

theorem exponentTail (exponent : Option ℤ) :
    ExponentTail (exponent.elim [] fun x => 101 :: exponentText x) (exponent.getD 0) := by
  cases exponent with
  | none => exact ⟨rfl, rfl, fun c hc => by cases hc⟩
  | some x =>
    refine ⟨(readExponent_exponentText x).1, (readExponent_exponentText x).2, fun c hc => ?_⟩
    cases hc
    decide

section Scaled

variable {whole ds tail : List UInt8} {x : ℤ}

theorem ExponentTail.readScaled_whole (ht : ExponentTail tail x) (hw : Digits 10 whole)
    (hne : whole ≠ []) :
    readScaled 10 10 1 101 (whole ++ tail) = digitsValue 10 0 whole * (10 : ℚ) ^ x ∧
      scaledRest 10 101 (whole ++ tail) = some [] := by
  have hread := @readDigits_append 10 0 whole tail hw fun c hc => (ht.head c hc).1
  have hpos : 0 < whole.length := List.length_pos_iff.mpr hne
  have hlen : ¬ tail.length = (whole ++ tail).length := by
    rw [List.length_append]
    omega
  have hvalue := ht.value
  simp only [readScaled, scaledRest, hread]
  cases tail with
  | nil =>
    refine ⟨?_, if_neg hlen⟩
    rw [← hvalue]
    simp [readExponent]
  | cons c cs =>
    have hc : c ≠ 46 := (ht.head c rfl).2
    simp only [if_neg hc, hvalue, ht.rest, if_neg hlen, Nat.cast_ofNat, and_self]

theorem ExponentTail.readScaled_point (ht : ExponentTail tail x) (hw : Digits 10 whole)
    (hds : Digits 10 ds) (hne : ds ≠ []) :
    readScaled 10 10 1 101 (whole ++ 46 :: (ds ++ tail)) =
        digitsValue 10 0 (whole ++ ds) * (10 : ℚ) ^ (x - ds.length) ∧
      scaledRest 10 101 (whole ++ 46 :: (ds ++ tail)) = some [] := by
  have hpoint : ∀ c ∈ (46 :: (ds ++ tail)).head?, digitIn 10 c = none := by
    intro c hc
    cases hc
    rfl
  have hread := @readDigits_append 10 0 whole (46 :: (ds ++ tail)) hw hpoint
  have hpart : ∀ acc, readDigits 10 acc (ds ++ tail) = (digitsValue 10 acc ds, tail) :=
    fun acc => readDigits_append hds fun c hc => (ht.head c hc).1
  have hpos : 0 < ds.length := List.length_pos_iff.mpr hne
  have hdigits : (ds ++ tail).length - tail.length = ds.length := by
    rw [List.length_append]
    omega
  have hnone : ¬ tail.length = (ds ++ tail).length := by
    rw [List.length_append]
    omega
  simp only [readScaled, scaledRest, hread, if_true, hpart, hdigits, ht.value, ht.rest]
  refine ⟨?_, if_neg fun h => hnone h.2⟩
  rw [if_neg fun h => hpos.ne' h.2, digitsValue_append, Nat.one_mul, Nat.cast_ofNat]

/-- **A decimal text is read** as the number it stands for, to its end. -/
theorem readScaled_decimalText {whole fraction : List UInt8} (hne : whole ≠ [])
    (hw : Digits 10 whole) (hf : Digits 10 fraction) (exponent : Option ℤ) :
    readScaled 10 10 1 101 (decimalText whole fraction exponent) =
        digitsValue 10 0 (whole ++ fraction) * (10 : ℚ) ^ (exponent.getD 0 - fraction.length) ∧
      scaledRest 10 101 (decimalText whole fraction exponent) = some [] := by
  have ht := exponentTail exponent
  obtain ⟨k, hk⟩ := rdropWhile_zeros fraction
  set ds := fraction.rdropWhile (· == 48) with hdsdef
  have hds : Digits 10 ds := fun c hc => hf c (by rw [hk]; exact List.mem_append_left _ hc)
  -- the zeros that are not printed do not count
  have hvalue : (digitsValue 10 0 (whole ++ fraction) : ℚ) *
      (10 : ℚ) ^ (exponent.getD 0 - fraction.length) =
        digitsValue 10 0 (whole ++ ds) * (10 : ℚ) ^ (exponent.getD 0 - ds.length) := by
    rw [hk, ← List.append_assoc, digitsValue_append, digitsValue_zeros]
    push_cast [List.length_append, List.length_replicate]
    rw [mul_assoc, ← zpow_natCast, ← zpow_add₀ (by norm_num)]
    congr 2
    ring
  have htext : fractionText fraction = if ds = [] then [] else 46 :: ds := rfl
  rw [hvalue, decimalText, htext]
  by_cases hnil : ds = []
  · rw [if_pos hnil, hnil, List.nil_append, List.append_nil, List.length_nil, Nat.cast_zero, sub_zero]
    exact ht.readScaled_whole hw hne
  · rw [if_neg hnil]
    exact ht.readScaled_point hw hds hnil

end Scaled

/-! ## The text of `%g` -/

theorem natText_length {n p : ℕ} (hp : 1 ≤ p) (hlow : 10 ^ (p - 1) ≤ n) (hhigh : n < 10 ^ p) :
    (natText n).length = p := by
  refine le_antisymm (natText_length_le hp hhigh) ?_
  have hn : n ≠ 0 := by
    have : 0 < 10 ^ (p - 1) := by positivity
    omega
  have hlt : p - 1 < (Nat.digits 10 n).length := (Nat.lt_digits_length_iff (by norm_num) n).mpr hlow
  rw [natText, if_neg hn, List.length_map, List.length_reverse]
  omega

/-- The parts of a number's text: digits, the digits behind the point, an exponent. -/
structure GeneralParts (p : ℕ) (q : ℚ) (n : ℕ) (x : ℤ) (whole fraction : List UInt8)
    (exponent : Option ℤ) : Prop where
  text : generalText p q = decimalText whole fraction exponent
  nonempty : whole ≠ []
  wholeDigits : Digits 10 whole
  fractionDigits : Digits 10 fraction
  value : digitsValue 10 0 (whole ++ fraction) * (10 : ℚ) ^ (exponent.getD 0 - fraction.length) =
    n * (10 : ℚ) ^ (x - ((p : ℤ) - 1))
  length : whole.length + fraction.length + (if exponent = none then 0 else 4) ≤ p + 4
  exponent_eq : exponent = none ∨ exponent = some x

/-- **`%g` prints the significand**, in all three forms. -/
theorem generalText_parts {p : ℕ} (hp : 1 ≤ p) {q : ℚ} (hq : 0 < q) {n : ℕ} {x : ℤ}
    (hpair : significand p q = (n, x)) (hsig : Significand p q n x) :
    ∃ whole fraction exponent, GeneralParts p q n x whole fraction exponent := by
  have hlen := natText_length hp hsig.low hsig.high
  have hdigits := natText_digits n
  have htake : ∀ k, Digits 10 ((natText n).take k) :=
    fun k c hc => hdigits c (List.mem_of_mem_take hc)
  have hdrop : ∀ k, Digits 10 ((natText n).drop k) :=
    fun k c hc => hdigits c (List.mem_of_mem_drop hc)
  have hne : ∀ k, (natText n).take (k + 1) ≠ [] := by
    intro k h
    have := congrArg List.length h
    rw [List.length_take, List.length_nil] at this
    omega
  by_cases hform : x < -4 ∨ (p : ℤ) ≤ x
  · refine ⟨(natText n).take 1, (natText n).drop 1, some x, ?_, hne 0, htake 1, hdrop 1, ?_, ?_,
      .inr rfl⟩
    · simp only [generalText, if_neg hq.ne', hpair, if_pos hform, decimalText, Option.elim_some,
        List.append_assoc]
    · rw [List.take_append_drop, digitsValue_natText, List.length_drop, hlen, Option.getD_some]
      congr 2
      omega
    · rw [List.length_take, List.length_drop, hlen, if_neg (Option.some_ne_none x)]
      omega
  · by_cases hx : 0 ≤ x
    · refine ⟨(natText n).take (x.toNat + 1), (natText n).drop (x.toNat + 1), none, ?_, hne _,
        htake _, hdrop _, ?_, ?_, .inl rfl⟩
      · simp only [generalText, if_neg hq.ne', hpair, if_neg hform, if_pos hx, decimalText,
          Option.elim_none, List.append_nil]
      · rw [List.take_append_drop, digitsValue_natText, List.length_drop, hlen, Option.getD_none]
        congr 2
        omega
      · rw [List.length_take, List.length_drop, hlen, if_pos rfl]
        omega
    · refine ⟨[48], List.replicate (-x - 1).toNat 48 ++ natText n, none, ?_, List.cons_ne_nil _ _,
        digits_of_range (by simp), ?_, ?_, ?_, .inl rfl⟩
      · simp only [generalText, if_neg hq.ne', hpair, if_neg hform, if_neg hx, decimalText,
          Option.elim_none, List.append_nil]
        rfl
      · intro c hc
        rcases List.mem_append.mp hc with hc | hc
        · rw [List.eq_of_mem_replicate hc]
          rfl
        · exact hdigits c hc
      · have hzeros : digitsValue 10 0 ([48] ++ (List.replicate (-x - 1).toNat 48 ++ natText n)) =
            n := by
          rw [← List.append_assoc, digitsValue_append, digitsValue_append, digitsValue_zeros]
          show digitsValue 10 (0 * _) (natText n) = n
          rw [Nat.zero_mul, digitsValue_natText]
        rw [hzeros, List.length_append, List.length_replicate, hlen, Option.getD_none]
        congr 2
        push_cast
        omega
      · rw [List.length_append, List.length_replicate, hlen, if_pos rfl, List.length_singleton]
        omega

/-- A character that `%g` can print. -/
def GeneralChar (c : UInt8) : Prop :=
  (48 ≤ c ∧ c ≤ 57) ∨ c ∈ ([43, 45, 46, 97, 101, 102, 105, 110] : List UInt8)

instance (c : UInt8) : Decidable (GeneralChar c) := inferInstanceAs (Decidable (_ ∨ _))

theorem exponentText_char {x : ℤ} {c : UInt8} (hc : c ∈ exponentText x) : GeneralChar c := by
  rcases List.mem_cons.mp hc with rfl | hc
  · split <;> decide
  · by_cases hshort : (natText x.natAbs).length < 2
    · rw [if_pos hshort] at hc
      rcases List.mem_cons.mp hc with rfl | hc
      · decide
      · exact .inl (natText_range hc)
    · rw [if_neg hshort] at hc
      exact .inl (natText_range hc)

theorem exponentText_length {x : ℤ} (hx : x.natAbs < 1000) : (exponentText x).length ≤ 4 := by
  have h := @natText_length_le x.natAbs 3 (by norm_num) hx
  rw [exponentText, List.length_cons]
  split
  · rw [List.length_cons]
    omega
  · omega

theorem fractionText_char {ds : List UInt8} (h : Digits 10 ds) {c : UInt8}
    (hc : c ∈ fractionText ds) : GeneralChar c := by
  obtain ⟨k, hk⟩ := rdropWhile_zeros ds
  simp only [fractionText] at hc
  split at hc
  · cases hc
  · rcases List.mem_cons.mp hc with rfl | hc
    · decide
    · refine .inl (h.range c ?_)
      rw [hk]
      exact List.mem_append_left _ hc

theorem fractionText_length (ds : List UInt8) : (fractionText ds).length ≤ ds.length + 1 := by
  obtain ⟨k, hk⟩ := rdropWhile_zeros ds
  have hlen := congrArg List.length hk
  rw [List.length_append] at hlen
  simp only [fractionText]
  split
  · exact Nat.zero_le _
  · rw [List.length_cons]
    omega

section Parts

variable {p : ℕ} {q : ℚ} {n : ℕ} {x : ℤ} {whole fraction : List UInt8} {exponent : Option ℤ}

theorem GeneralParts.char (h : GeneralParts p q n x whole fraction exponent) {c : UInt8}
    (hc : c ∈ generalText p q) : GeneralChar c := by
  rw [h.text] at hc
  rcases List.mem_append.mp hc with hc | hc
  · exact .inl (h.wholeDigits.range c hc)
  · rcases List.mem_append.mp hc with hc | hc
    · exact fractionText_char h.fractionDigits hc
    · rcases h.exponent_eq with rfl | rfl
      · cases hc
      · rcases List.mem_cons.mp hc with rfl | hc
        · decide
        · exact exponentText_char hc

theorem GeneralParts.length_le (h : GeneralParts p q n x whole fraction exponent)
    (hx : x.natAbs < 1000) : (generalText p q).length ≤ p + 6 := by
  have hfraction := fractionText_length fraction
  have hlength := h.length
  rw [h.text, decimalText, List.length_append, List.length_append]
  rcases h.exponent_eq with rfl | rfl
  · rw [if_pos rfl] at hlength
    show _ + (_ + 0) ≤ _
    omega
  · rw [if_neg (Option.some_ne_none x)] at hlength
    have hexp := exponentText_length hx
    show _ + (_ + ((exponentText x).length + 1)) ≤ _
    omega

/-- Digits that make a number other than 0. -/
theorem exists_nonzero_digit {ds : List UInt8} (h : Digits 10 ds) (hvalue : digitsValue 10 0 ds ≠ 0) :
    ∃ pre c post, ds = pre ++ c :: post ∧ (49 ≤ c ∧ c ≤ 57) := by
  by_contra hnone
  refine hvalue ?_
  have hzeros : ds = List.replicate ds.length 48 := by
    refine List.eq_replicate_of_mem fun c hc => ?_
    by_contra hne
    obtain ⟨pre, post, hsplit⟩ := List.append_of_mem hc
    obtain ⟨hlow, hhigh⟩ := h.range c hc
    refine hnone ⟨pre, c, post, hsplit, ?_, hhigh⟩
    have hlow' : 48 ≤ c.toNat := UInt8.le_iff_toNat_le.mp hlow
    have hne' : c.toNat ≠ 48 := fun heq => hne (UInt8.toNat_inj.mp heq)
    exact UInt8.le_iff_toNat_le.mpr (show 49 ≤ c.toNat by omega)
  rw [hzeros, digitsValue_zeros, Nat.zero_mul]

/-- A digit that is not 0 is printed, and it stands before the exponent. -/
theorem GeneralParts.digit (h : GeneralParts p q n x whole fraction exponent) (hn : 0 < n) :
    ∃ pre c post, generalText p q = pre ++ c :: post ∧ (49 ≤ c ∧ c ≤ 57) ∧
      ∀ x ∈ pre, x = 46 ∨ (48 ≤ x ∧ x ≤ 57) := by
  obtain ⟨k, hk⟩ := rdropWhile_zeros fraction
  set ds := fraction.rdropWhile (· == 48) with hdsdef
  have hds : Digits 10 ds :=
    fun c hc => h.fractionDigits c (by rw [hk]; exact List.mem_append_left _ hc)
  have hprinted : Digits 10 (whole ++ ds) := fun c hc => by
    rcases List.mem_append.mp hc with hc | hc
    · exact h.wholeDigits c hc
    · exact hds c hc
  have hvalue : digitsValue 10 0 (whole ++ ds) ≠ 0 := by
    intro hzero
    have hnq : (0 : ℚ) < n * (10 : ℚ) ^ (x - ((p : ℤ) - 1)) :=
      mul_pos (by exact_mod_cast hn) (zpow_pos (by norm_num) _)
    rw [← h.value, hk, ← List.append_assoc, digitsValue_append, hzero, digitsValue_zeros] at hnq
    simp at hnq
  obtain ⟨pre, c, post, hsplit, hc⟩ := exists_nonzero_digit hprinted hvalue
  have htext : fractionText fraction = if ds = [] then [] else 46 :: ds := rfl
  have hpre : ∀ x ∈ pre, 48 ≤ x ∧ x ≤ 57 := fun x hx =>
    hprinted.range x (by rw [hsplit]; exact List.mem_append_left _ hx)
  rw [h.text, decimalText, htext]
  rcases List.append_eq_append_iff.mp hsplit with ⟨as, hpre', hds'⟩ | ⟨cs, hwhole, hpost⟩
  · -- behind the point
    have hne : ds ≠ [] := by
      rw [hds']
      simp
    rw [if_neg hne, hds']
    refine ⟨whole ++ 46 :: as, c, post ++ exponent.elim [] fun x => 101 :: exponentText x, by simp,
      hc, fun x hx => ?_⟩
    rcases List.mem_append.mp hx with hx | hx
    · exact .inr (h.wholeDigits.range x hx)
    · rcases List.mem_cons.mp hx with rfl | hx
      · exact .inl rfl
      · exact .inr (hpre x (by rw [hpre']; exact List.mem_append_right _ hx))
  · cases cs with
    | nil =>
      rw [List.append_nil] at hwhole
      rw [List.nil_append] at hpost
      have hne : ds ≠ [] := by
        rw [← hpost]
        simp
      rw [if_neg hne, hwhole, ← hpost]
      refine ⟨pre ++ [46], c, post ++ exponent.elim [] fun x => 101 :: exponentText x, by simp,
        hc, fun x hx => ?_⟩
      rcases List.mem_append.mp hx with hx | hx
      · exact .inr (hpre x hx)
      · exact .inl (List.mem_singleton.mp hx)
    | cons c' cs =>
      rw [List.cons_append] at hpost
      obtain ⟨rfl, hpost⟩ := List.cons.inj hpost
      rw [hwhole]
      refine ⟨pre, c, cs ++ ((if ds = [] then [] else 46 :: ds) ++
        exponent.elim [] fun x => 101 :: exponentText x), by simp, hc, fun x hx => .inr (hpre x hx)⟩

/-- The text of a number starts with a digit. -/
theorem GeneralParts.head (h : GeneralParts p q n x whole fraction exponent) :
    ∃ c cs, generalText p q = c :: cs ∧ 48 ≤ c ∧ c ≤ 57 := by
  cases hw : whole with
  | nil => exact absurd hw h.nonempty
  | cons c cs =>
    refine ⟨c, cs ++ (fractionText fraction ++ exponent.elim [] fun x => 101 :: exponentText x), ?_,
      h.wholeDigits.range c ?_⟩
    · rw [h.text, hw]
      rfl
    · rw [hw]
      exact List.mem_cons_self

end Parts

/-! ## Round trip -/

/-- A value of the format: a number's sign is its own, an infinity has one. -/
def SignedDouble.Valid (d : SignedDouble) : Prop :=
  match d.value with
  | .finite q => IsDouble q ∧ (q < 0 → d.negative = true) ∧ (0 < q → d.negative = false)
  | .infinite negative => negative = d.negative
  | .nan => True

theorem log_ten_bound {q : ℚ} (h : IsDouble q) (hq : 0 < q) :
    -324 ≤ Int.log 10 q ∧ Int.log 10 q ≤ 308 := by
  constructor
  · refine (Int.zpow_le_iff_le_log (by norm_num) hq).mp ?_
    obtain ⟨m, e, -, he, hme⟩ := h.bits
    have hpow : (0 : ℚ) < 2 ^ e := zpow_pos (by norm_num) _
    have hm : (1 : ℚ) ≤ m := by
      have hmpos : (0 : ℚ) < m := by
        rw [hme] at hq
        exact pos_of_mul_pos_left hq hpow.le
      have : 0 < m := by exact_mod_cast hmpos
      exact_mod_cast this
    have hten : (2 : ℕ) ^ 1074 ≤ 10 ^ 324 := by decide +kernel
    have hten' : (2 : ℚ) ^ 1074 ≤ 10 ^ 324 := by exact_mod_cast hten
    calc ((10 : ℕ) : ℚ) ^ (-324 : ℤ) = ((10 : ℚ) ^ 324)⁻¹ := by
          rw [Nat.cast_ofNat, show (-324 : ℤ) = -((324 : ℕ) : ℤ) by rfl, zpow_neg, zpow_natCast]
      _ ≤ ((2 : ℚ) ^ 1074)⁻¹ := inv_anti₀ (pow_pos (by norm_num) _) hten'
      _ = 2 ^ (-1074 : ℤ) := by
          rw [show (-1074 : ℤ) = -((1074 : ℕ) : ℤ) by rfl, zpow_neg, zpow_natCast]
      _ ≤ 2 ^ e := zpow_le_zpow_right₀ (by norm_num) he
      _ = 1 * 2 ^ e := (one_mul _).symm
      _ ≤ m * 2 ^ e := mul_le_mul_of_nonneg_right hm hpow.le
      _ = q := hme.symm
  · have hten : (2 : ℕ) ^ 1024 ≤ 10 ^ 309 := by decide +kernel
    have hlt : Int.log 10 q < 309 := by
      refine (Int.lt_zpow_iff_log_lt (by norm_num) hq).mp ?_
      calc q ≤ |q| := le_abs_self q
        _ < 2 ^ 1024 := h.finite
        _ ≤ ((10 : ℕ) : ℚ) ^ (309 : ℤ) := by exact_mod_cast hten
    omega

/-- A number's text: what it starts with, of what, how long it is, that it has a digit that is not
0 before the exponent, and that `atof` reads it. -/
structure NumberText (q : ℚ) (t : List UInt8) : Prop where
  head : ∃ c cs, t = c :: cs ∧ 48 ≤ c ∧ c ≤ 57
  char : ∀ c ∈ t, GeneralChar c
  length : t.length ≤ 23
  digit : q ≠ 0 → ∃ pre c post, t = pre ++ c :: post ∧ (49 ≤ c ∧ c ≤ 57) ∧
    ∀ x ∈ pre, x = 46 ∨ (48 ≤ x ∧ x ≤ 57)
  value : Double.ofRat (readScaled 10 10 1 101 t) = .finite q
  rest : scaledRest 10 101 t = some []

theorem numberText_zero : NumberText 0 (generalText 17 0) where
  head := ⟨48, [], rfl, by decide, by decide⟩
  char := by
    intro c hc
    rw [List.mem_singleton.mp hc]
    decide
  length := by decide
  digit := fun h => absurd rfl h
  value := by
    show Double.ofRat (readScaled 10 10 1 101 (natText 0)) = _
    rw [readScaled_natText, ← Int.cast_natCast, Double.ofRat_intCast (by norm_num)]
    rfl
  rest := by decide

/-- **Seventeen digits are read back** as the double they were printed from. -/
theorem numberText_general {q : ℚ} (h : IsDouble q) (hq : 0 ≤ q) :
    NumberText q (generalText 17 q) := by
  rcases hq.eq_or_lt with rfl | hpos
  · exact numberText_zero
  · have hsig := significand_spec (show 1 ≤ 17 by norm_num) hpos
    obtain ⟨whole, fraction, exponent, hparts⟩ :=
      generalText_parts (by norm_num) hpos (Prod.mk.eta (p := significand 17 q)).symm hsig
    obtain ⟨hread, hrest⟩ := readScaled_decimalText hparts.nonempty hparts.wholeDigits
      hparts.fractionDigits exponent
    have hlog := log_ten_bound h hpos
    have hexp := hsig.exponent
    have hn : 0 < (significand 17 q).1 := lt_of_lt_of_le (by norm_num) hsig.low
    refine ⟨hparts.head, fun c hc => hparts.char hc, hparts.length_le (by omega),
      fun _ => hparts.digit hn, ?_, ?_⟩
    · rw [hparts.text, hread, hparts.value]
      exact Double.ofRat_eq_of_close h hpos (abs_decimal_sub_lt hpos hsig)
    · rw [hparts.text, hrest]

/-- A digit is neither a blank nor a sign. -/
theorem readSign_range {c : UInt8} (hc : 48 ≤ c ∧ c ≤ 57) (cs : List UInt8) :
    readSign ((c :: cs).dropWhile isSpace) = (false, c :: cs) := by
  have hlow : 48 ≤ c.toNat := UInt8.le_iff_toNat_le.mp hc.1
  have hhigh : c.toNat ≤ 57 := UInt8.le_iff_toNat_le.mp hc.2
  have hchar : c = digitChar (c.toNat - 48) := by
    rw [digitChar, show 48 + (c.toNat - 48) = c.toNat by omega, UInt8.ofNat_toNat]
  rw [hchar]
  exact readSign_digit (by omega) cs

/-- The text of a number is neither a word nor a hexadecimal number. -/
theorem NumberText.no_word {q : ℚ} {t : List UInt8} (h : NumberText q t) :
    (t.take 3).map lower ≠ [105, 110, 102] ∧ (t.take 3).map lower ≠ [110, 97, 110] ∧
      (t.take 8).map lower ≠ [105, 110, 102, 105, 110, 105, 116, 121] ∧ isHexFloat t = false := by
  obtain ⟨c, cs, rfl, hc⟩ := h.head
  have hlower : lower c = c := by
    refine if_neg fun hletter => ?_
    exact absurd (UInt8.le_trans hletter.1 hc.2) (by decide)
  have hhead : ∀ k w ws, w ≠ c → ((c :: cs).take (k + 1)).map lower ≠ w :: ws := by
    intro k w ws hw heq
    refine hw ?_
    rw [← hlower]
    exact (List.cons.inj heq).1.symm
  have hword : ∀ w : UInt8, 57 < w → w ≠ c := by
    rintro w hw rfl
    exact absurd (UInt8.lt_of_lt_of_le hw hc.2) (UInt8.lt_irrefl 57)
  refine ⟨hhead 2 _ _ (hword _ (by decide)), hhead 2 _ _ (hword _ (by decide)),
    hhead 7 _ _ (hword _ (by decide)), ?_⟩
  rcases cs with - | ⟨x, - | ⟨y, rest⟩⟩
  · rfl
  · rfl
  · have hx : lower x ≠ 120 := by
      rcases h.char x (by simp) with hdigit | hmem
      · rw [lower, if_neg fun hletter => absurd (UInt8.le_trans hletter.1 hdigit.2) (by decide)]
        rintro rfl
        exact absurd hdigit.2 (by decide)
      · simp only [List.mem_cons, List.not_mem_nil, or_false] at hmem
        rcases hmem with rfl | rfl | rfl | rfl | rfl | rfl | rfl | rfl <;> decide
    rw [isHexFloat, beq_eq_false_iff_ne.mpr hx, Bool.and_false, Bool.false_and]

/-- The text of a number, behind a sign or not. -/
theorem NumberText.atof {q : ℚ} {s t : List UInt8} (h : NumberText q t) {negative : Bool}
    (hsign : readSign (s.dropWhile isSpace) = (negative, t)) :
    CNumber.atof s = .finite (if negative then -q else q) ∧ strtodRest s = [] := by
  obtain ⟨hinf, hnan, hinfinity, hhex⟩ := h.no_word
  constructor
  · simp only [CNumber.atof, hsign, if_neg hinf, if_neg hnan, hhex, Bool.false_eq_true, if_false,
      h.value]
    cases negative with
    | true => rfl
    | false => rfl
  · simp only [strtodRest, hsign, if_neg hinf, if_neg hnan, if_neg hinfinity, hhex,
      Bool.false_eq_true, if_false, h.rest, Option.getD_some]

/-- `atof` with its sign, of a text that it uses up. -/
theorem atofSigned_eq {s t : List UInt8} {negative : Bool} {value : Double}
    (hsign : readSign (s.dropWhile isSpace) = (negative, t)) (hvalue : atof s = value)
    (hrest : strtodRest s = []) (hne : s ≠ []) : atofSigned s = ⟨negative, value⟩ := by
  have hused : (strtodRest s != s) = true := by
    rw [hrest]
    simpa using hne.symm
  rw [atofSigned, hsign, hvalue, hused, Bool.and_true]

/-- The sign of a number's text is read off it. -/
theorem readSign_printGeneral (negative : Bool) {q : ℚ} (hq : IsDouble q) :
    readSign ((printGeneral 17 ⟨negative, .finite q⟩).dropWhile isSpace) =
      (negative, generalText 17 |q|) := by
  obtain ⟨c, cs, hhead, hc⟩ := (numberText_general hq.abs (abs_nonneg q)).head
  cases negative with
  | true => rfl
  | false =>
    show readSign ((generalText 17 |q|).dropWhile isSpace) = _
    rw [hhead]
    exact readSign_range hc cs

/-- **Round trip**: `atof` reads back the double that `"%.17g"` printed. -/
theorem atofSigned_printGeneral {d : SignedDouble} (hd : d.Valid) :
    atofSigned (printGeneral 17 d) = d := by
  obtain ⟨negative, value⟩ := d
  cases value with
  | finite q =>
    obtain ⟨hq, hneg, hpos⟩ := hd
    have htext := numberText_general hq.abs (abs_nonneg q)
    obtain ⟨c, cs, hhead, -⟩ := htext.head
    have hsign := readSign_printGeneral negative hq
    have hvalue : (if negative then -|q| else |q|) = q := by
      cases negative with
      | true =>
        have : q ≤ 0 := le_of_not_gt fun h => by cases hpos h
        rw [if_pos rfl, abs_of_nonpos this, neg_neg]
      | false =>
        have : 0 ≤ q := le_of_not_gt fun h => by cases hneg h
        rw [if_neg Bool.false_ne_true, abs_of_nonneg this]
    obtain ⟨hatof, hrest⟩ := htext.atof hsign
    rw [hvalue] at hatof
    refine atofSigned_eq hsign hatof hrest fun hnil => ?_
    have := (List.append_eq_nil_iff.mp hnil).2
    rw [show generalText 17 |q| = [] from this] at hhead
    cases hhead
  | infinite b =>
    obtain rfl : b = negative := hd
    cases b with
    | true => decide
    | false => decide
  | nan =>
    cases negative with
    | true => decide
    | false => decide

theorem printGeneral_char {d : SignedDouble} (hd : d.Valid) :
    ∀ c ∈ printGeneral 17 d, GeneralChar c := by
  intro c hc
  rcases List.mem_append.mp hc with hsign | hc
  · split at hsign
    · rw [List.mem_singleton.mp hsign]
      decide
    · cases hsign
  · obtain ⟨negative, value⟩ := d
    cases value with
    | finite q => exact (numberText_general hd.1.abs (abs_nonneg q)).char c hc
    | infinite b =>
      have hword : ∀ c ∈ ([105, 110, 102] : List UInt8), GeneralChar c := by simp [GeneralChar]
      exact hword c hc
    | nan =>
      have hword : ∀ c ∈ ([110, 97, 110] : List UInt8), GeneralChar c := by simp [GeneralChar]
      exact hword c hc

/-- **The text fits** in 24 characters. -/
theorem printGeneral_length_le {d : SignedDouble} (hd : d.Valid) :
    (printGeneral 17 d).length ≤ 24 := by
  have hsign : (if d.negative then ([45] : List UInt8) else []).length ≤ 1 := by
    split <;> decide
  obtain ⟨negative, value⟩ := d
  rw [printGeneral, List.length_append]
  cases value with
  | finite q =>
    have hlen := (numberText_general hd.1.abs (abs_nonneg q)).length
    show _ + (generalText 17 |q|).length ≤ 24
    omega
  | infinite b =>
    show _ + 3 ≤ 24
    omega
  | nan =>
    show _ + 3 ≤ 24
    omega

/-! ## Integers in the text of a double -/

theorem Digits.of_readDigits {base acc : ℕ} {ds : List UInt8}
    (h : (readDigits base acc ds).2 = []) : Digits base ds := by
  induction ds generalizing acc with
  | nil => exact fun c hc => (List.not_mem_nil hc).elim
  | cons c cs ih =>
    rw [readDigits] at h
    cases hd : digitIn base c with
    | none =>
      rw [hd] at h
      cases h
    | some d =>
      rw [hd] at h
      intro x hx
      rcases List.mem_cons.mp hx with rfl | hx
      · rw [hd]
        rfl
      · exact ih h x hx

/-- A decimal text that is no octal one. -/
structure DecimalHead (t : List UInt8) : Prop where
  digit : ∃ c cs, t = c :: cs ∧ 48 ≤ c ∧ c ≤ 57
  point : ∀ cs, t = 48 :: cs → cs = [] ∨ ∃ cs', cs = 46 :: cs'

/-- **With base 0**, a text that an integer reader uses up is of decimal digits alone. -/
theorem DecimalHead.readInteger {s t : List UInt8} (h : DecimalHead t) {negative : Bool}
    (hsign : readSign (s.dropWhile isSpace) = (negative, t)) (hused : (readInteger s).2.2 = []) :
    Digits 10 t ∧ CNumber.readInteger s = (negative, digitsValue 10 0 t, []) := by
  obtain ⟨c, cs, rfl, hc⟩ := h.digit
  have hs : s ≠ [] := by
    rintro rfl
    cases hsign
  by_cases hzero : c = 48
  · subst hzero
    rcases h.point cs rfl with rfl | ⟨cs', rfl⟩
    · refine ⟨natText_digits 0, ?_⟩
      simp only [CNumber.readInteger, hsign]
      rfl
    · have hbase : detectBase (48 :: 46 :: cs') = (8, 48 :: 46 :: cs') := by
        cases cs' with
        | nil => rfl
        | cons d rest => simp [detectBase]
      simp only [CNumber.readInteger, hsign, hbase] at hused
      have hread : readDigits 8 0 (48 :: 46 :: cs') = (0, 46 :: cs') := rfl
      rw [hread] at hused
      split at hused
      · exact absurd hused hs
      · cases hused
  · have hbase : detectBase (c :: cs) = (10, c :: cs) := by simp only [detectBase, if_neg hzero]
    simp only [CNumber.readInteger, hsign, hbase] at hused ⊢
    split at hused
    · exact absurd hused hs
    · rename_i hmoved
      have hdigits := Digits.of_readDigits hused
      rw [if_neg hmoved, readDigits_all hdigits]
      exact ⟨hdigits, rfl⟩

theorem natText_mul_pow {n : ℕ} (hn : 0 < n) (k : ℕ) :
    natText (n * 10 ^ k) = natText n ++ List.replicate k 48 := by
  have hprod : n * 10 ^ k ≠ 0 := Nat.mul_ne_zero hn.ne' (by positivity)
  rw [natText, if_neg hprod, natText, if_neg hn.ne', mul_comm,
    Nat.digits_base_pow_mul (by norm_num) hn, List.reverse_append, List.map_append,
    List.reverse_replicate, List.map_replicate]
  rfl

/-- **Integers of at most `p` digits are printed as such.** -/
theorem generalText_natCast {p n : ℕ} (hn : 0 < n) (hp : n < 10 ^ p) :
    generalText p n = natText n := by
  have hpos : (0 : ℚ) < n := by exact_mod_cast hn
  set L := Nat.log 10 n with hL
  have hlog : Int.log 10 (n : ℚ) = L := Int.log_natCast 10 n
  have hlow : 10 ^ L ≤ n := Nat.pow_log_le_self 10 hn.ne'
  have hhigh : n < 10 ^ (L + 1) := Nat.lt_pow_succ_log_self (by norm_num) n
  have hLp : L < p := (Nat.pow_lt_pow_iff_right (by norm_num)).mp (lt_of_le_of_lt hlow hp)
  obtain ⟨k, hk⟩ : ∃ k, p = L + 1 + k := ⟨p - (L + 1), by omega⟩
  have hscale : (n : ℚ) * 10 ^ ((p : ℤ) - 1 - L) = ((n * 10 ^ k : ℕ) : ℤ) := by
    rw [show (p : ℤ) - 1 - L = (k : ℤ) by omega, zpow_natCast]
    push_cast
    rfl
  have hlt : n * 10 ^ k < 10 ^ p := by
    rw [hk, pow_add]
    exact Nat.mul_lt_mul_of_pos_right hhigh (by positivity)
  have hpair : significand p n = (n * 10 ^ k, (L : ℤ)) := by
    simp only [significand, hlog, hscale, nearestEven_intCast, Int.toNat_natCast]
    exact if_neg hlt.ne
  have hlen : (natText n).length = L + 1 := by
    refine natText_length (by omega) ?_ hhigh
    simpa using hlow
  have hform : ¬ ((L : ℤ) < -4 ∨ (p : ℤ) ≤ L) := by omega
  have htake : (natText n ++ List.replicate k 48).take (L + 1) = natText n :=
    List.take_left' hlen
  have hdrop : (natText n ++ List.replicate k 48).drop (L + 1) = List.replicate k 48 :=
    List.drop_left' hlen
  have hzeros : fractionText (List.replicate k 48) = [] := by
    have : (List.replicate k (48 : UInt8)).rdropWhile (· == 48) = [] := by
      rw [List.rdropWhile_eq_nil_iff]
      intro c hc
      simpa using List.eq_of_mem_replicate hc
    simp only [fractionText, this, if_true]
  simp only [generalText, if_neg hpos.ne', hpair, if_neg hform, if_pos (Int.natCast_nonneg L),
    Int.toNat_natCast, natText_mul_pow hn, htake, hdrop, hzeros, List.append_nil]

/-- A first 0 stands alone or before the point. -/
theorem generalText_point {p : ℕ} {q : ℚ} {n : ℕ} {x : ℤ} (hq : 0 < q)
    (hpair : significand p q = (n, x)) (hn : 0 < n) {cs : List UInt8}
    (htext : generalText p q = 48 :: cs) : cs = [] ∨ ∃ cs', cs = 46 :: cs' := by
  obtain ⟨d, ds, hdigits, hd, hzero⟩ := natText_head n
  have hhead : ∀ k rest, (natText n).take (k + 1) ++ rest ≠ 48 :: cs := by
    intro k rest heq
    rw [hdigits, List.take_succ_cons, List.cons_append] at heq
    have hchar : digitChar d = 48 := (List.cons.inj heq).1
    have hd0 : d = 0 := by
      interval_cases d <;> first | rfl | exact absurd hchar (by decide)
    exact hn.ne' (hzero hd0).1
  simp only [generalText, if_neg hq.ne', hpair] at htext
  split at htext
  · rw [List.append_assoc] at htext
    exact absurd htext (hhead 0 _)
  · split at htext
    · exact absurd htext (hhead _ _)
    · have hcs := (List.cons.inj htext).2
      simp only [fractionText] at hcs
      split at hcs
      · exact .inl hcs.symm
      · exact .inr ⟨_, hcs.symm⟩

/-- From `10 ^ p` on there is an exponent. -/
theorem generalText_exponent {p : ℕ} {q : ℚ} {n : ℕ} {x : ℤ} (hq : 0 < q)
    (hpair : significand p q = (n, x)) (hx : (p : ℤ) ≤ x) : 101 ∈ generalText p q := by
  simp only [generalText, if_neg hq.ne', hpair, if_pos (Or.inr hx : x < -4 ∨ (p : ℤ) ≤ x)]
  exact List.mem_append_right _ List.mem_cons_self

theorem decimalHead_general {q : ℚ} (h : IsDouble q) (hq : 0 ≤ q) :
    DecimalHead (generalText 17 q) where
  digit := (numberText_general h hq).head
  point := by
    intro cs htext
    rcases hq.eq_or_lt with rfl | hpos
    · exact .inl (List.cons.inj htext).2.symm
    · have hsig := significand_spec (show 1 ≤ 17 by norm_num) hpos
      exact generalText_point hpos rfl (lt_of_lt_of_le (by norm_num) hsig.low) htext

/-- **A text of digits alone** is that of an integer. -/
theorem eq_digitsValue {q : ℚ} (h : IsDouble q) (hq : 0 ≤ q)
    (hdigits : Digits 10 (generalText 17 q)) : q = digitsValue 10 0 (generalText 17 q) := by
  rcases hq.eq_or_lt with rfl | hpos
  · rfl
  set n := digitsValue 10 0 (generalText 17 q) with hn
  have hread : readScaled 10 10 1 101 (generalText 17 q) = n := by
    simp only [readScaled, readDigits_all hdigits]
    rw [hn]
  have hvalue := (numberText_general h hq).value
  rw [hread] at hvalue
  have hround : nearest n = q := by
    unfold Double.ofRat at hvalue
    split at hvalue
    · exact Double.finite.inj hvalue
    · cases hvalue
  by_cases hsmall : (n : ℤ) < 2 ^ 53
  · have hexact := @nearest_intCast n (by rw [abs_of_nonneg (by positivity)]; exact hsmall)
    rw [← hround]
    exact_mod_cast hexact
  · have hbig : (2 : ℚ) ^ 53 ≤ n := by exact_mod_cast not_lt.mp hsmall
    have hnear := @abs_nearest_sub_le_relative n (by
      rw [abs_of_nonneg (by positivity)]
      exact normal_of_le (le_trans (by norm_num) hbig))
    rw [hround, abs_of_nonneg (by positivity : (0 : ℚ) ≤ n), abs_le] at hnear
    have hhalf : (n : ℚ) / 2 ^ 53 ≤ n / 2 := by
      gcongr
      norm_num
    obtain ⟨z, hz⟩ := h.integer (by linarith [hnear.1])
    have hz0 : 0 < z := by
      rw [hz] at hpos
      exact_mod_cast hpos
    have hz17 : z < 10 ^ 17 := by
      by_contra hlarge
      have hlog : (17 : ℤ) ≤ Int.log 10 q := by
        refine (Int.zpow_le_iff_le_log (by norm_num) hpos).mp ?_
        rw [hz]
        exact_mod_cast not_lt.mp hlarge
      have hsig := significand_spec (show 1 ≤ 17 by norm_num) hpos
      have hmark := generalText_exponent hpos (rfl : significand 17 q = (_, _))
        (le_trans hlog hsig.exponent.1)
      exact absurd (hdigits.range 101 hmark).2 (by decide)
    rw [hn, hz, generalText_natCast hz0 hz17, digitsValue_natText]

end CNumber
