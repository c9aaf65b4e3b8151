import Mathlib.Tactic
import Hashpipe.Status.ValueMap

/-!
# Numbers read as another type

The `-o` option stores what looks like an integer with `hputi8` and what looks like another number
with `hputr8`, and threads read it with the getter they like.  An integer is within the bounds of the
type or the nearest bound, but a negative one read with `hgetu8` wraps around (`ReadsInteger`).  A
double is truncated, by `hgeti4` and `hgetu4` only after a thousandth has been added to it
(`ReadsDouble`).

`numbers_read_as_any_type` says so for every run of puts and deletions.
-/

namespace Hashpipe.Status

open ByteMemory CNumber Binary64

/-- The bounds of an integer type. -/
def clamp (low high z : ℤ) : ℤ := max low (min z high)

/-- The integer that a double is read as: it is truncated, but up to two thousandths below the next
integer that one is taken. -/
structure NearTrunc (q : ℚ) (n : ℤ) : Prop where
  le : |(n : ℚ)| ≤ |q| + 1 / 500
  lt : |q| < |(n : ℚ)| + 1
  nonneg : 0 ≤ q → 0 ≤ n
  nonpos : q ≤ 0 → n ≤ 0

theorem NearTrunc.floor {q : ℚ} (hq : 0 ≤ q) : NearTrunc q ⌊q⌋ := by
  have hn : 0 ≤ ⌊q⌋ := Int.floor_nonneg.mpr hq
  have hcast : (0 : ℚ) ≤ ⌊q⌋ := by exact_mod_cast hn
  refine ⟨?_, ?_, fun _ => hn, fun hle => ?_⟩
  · rw [abs_of_nonneg hcast, abs_of_nonneg hq]
    linarith [Int.floor_le q]
  · rw [abs_of_nonneg hcast, abs_of_nonneg hq]
    exact Int.lt_floor_add_one q
  · rw [le_antisymm hle hq, Int.floor_zero]

theorem NearTrunc.ceil {q : ℚ} (hq : q ≤ 0) : NearTrunc q ⌈q⌉ := by
  have hn : ⌈q⌉ ≤ 0 := Int.ceil_le.mpr (by exact_mod_cast hq)
  have hcast : (⌈q⌉ : ℚ) ≤ 0 := by exact_mod_cast hn
  refine ⟨?_, ?_, fun hle => ?_, fun _ => hn⟩
  · rw [abs_of_nonpos hcast, abs_of_nonpos hq]
    linarith [Int.le_ceil q]
  · rw [abs_of_nonpos hcast, abs_of_nonpos hq]
    linarith [Int.ceil_lt_add_one q]
  · rw [le_antisymm hq hle, Int.ceil_zero]

/-- An integer is read as itself. -/
theorem NearTrunc.intCast {z n : ℤ} (h : NearTrunc z n) : n = z := by
  have hle := h.le
  have hlt := h.lt
  rw [← Int.cast_abs, ← Int.cast_abs] at hle hlt
  have hlt' : |z| < |n| + 1 := by exact_mod_cast hlt
  have hle' : |n| < |z| + 1 := by
    have : (|n| : ℚ) < ((|z| : ℤ) : ℚ) + 1 := by
      rw [← Int.cast_abs]
      linarith
    exact_mod_cast this
  rcases le_total 0 z with hz | hz
  · have hn := h.nonneg (by exact_mod_cast hz)
    rw [abs_of_nonneg hz, abs_of_nonneg hn] at hlt' hle'
    omega
  · have hn := h.nonpos (by exact_mod_cast hz)
    rw [abs_of_nonpos hz, abs_of_nonpos hn] at hlt' hle'
    omega

section Saturate

variable {low high : ℤ}

theorem clamp_high {n : ℤ} (hle : low ≤ high) (hn : high ≤ n) : clamp low high n = high := by
  rw [clamp, min_eq_right hn, max_eq_right hle]

theorem clamp_low {n : ℤ} (hle : low ≤ high) (hn : n ≤ low) : clamp low high n = low := by
  rw [clamp, min_eq_left (hn.trans hle), max_eq_left hn]

theorem clamp_mid {n : ℤ} (hlow : low ≤ n) (hhigh : n ≤ high) : clamp low high n = n := by
  rw [clamp, min_eq_left hhigh, max_eq_right hlow]

/-- Close to a sum with about a thousandth. -/
theorem nearest_add {q t : ℚ} (hq : |q| ≤ 2 ^ 34) (ht : |t| ≤ 1) :
    Double.add (.finite q) (.finite t) = .finite (nearest (q + t)) ∧
      |nearest (q + t) - (q + t)| ≤ 1 / 4000 := by
  have hsum : |q + t| ≤ 2 ^ 34 + 1 := (abs_add_le q t).trans (by linarith)
  have hnear := @abs_nearest_sub_le_of_lt (q + t) 34 (lt_of_le_of_lt hsum (by norm_num))
  have hclose : |nearest (q + t) - (q + t)| ≤ 1 / 4000 := hnear.trans (by norm_num)
  refine ⟨if_pos ?_, hclose⟩
  have htri := abs_add_le (nearest (q + t) - (q + t)) (q + t)
  rw [sub_add_cancel] at htri
  calc |nearest (q + t)| ≤ 1 / 4000 + (2 ^ 34 + 1) := by linarith
    _ < 2 ^ 1024 := by
      refine lt_of_lt_of_le (b := 2 ^ 35) (by norm_num) ?_
      exact pow_le_pow_right₀ (by norm_num) (by norm_num)

theorem thousandth_close : ∃ t : ℚ, thousandth = .finite t ∧ |t - 1 / 1000| ≤ 1 / 4000 := by
  have habs : |(1 / 1000 : ℚ)| = 1 / 1000 := abs_of_nonneg (by norm_num)
  obtain ⟨t, ht, hnear⟩ := @Double.ofRat_near (1 / 1000)
    (normal_of_le (by rw [habs]; norm_num)) (by rw [habs]; norm_num)
  exact ⟨t, ht, hnear.trans (by rw [habs]; norm_num)⟩

/-- **Saturation of any double.** -/
theorem saturate_near (hlow : -2 ^ 32 ≤ low) (hlow0 : low ≤ 0) (hhigh0 : 0 < high)
    (hhigh : high ≤ 2 ^ 32) (q : ℚ) :
    ∃ n, NearTrunc q n ∧ saturate low high (.finite q) = clamp low high n := by
  have hlow' : -2 ^ 32 ≤ (low : ℚ) := by exact_mod_cast hlow
  have hlow0' : (low : ℚ) ≤ 0 := by exact_mod_cast hlow0
  have hhigh' : (high : ℚ) ≤ 2 ^ 32 := by exact_mod_cast hhigh
  have hhigh1 : (1 : ℚ) ≤ high := by exact_mod_cast hhigh0
  have hle : low ≤ high := by omega
  obtain ⟨t, htd, ht⟩ := thousandth_close
  rw [abs_le] at ht
  have hneg : thousandth.neg = .finite (-t) := by
    rw [htd]
    rfl
  have htabs : |t| ≤ 1 := by
    rw [abs_of_nonneg (by linarith [ht.1])]
    linarith [ht.2]
  rw [saturate, hneg, htd]
  by_cases hlarge : 2 ^ 34 ≤ q
  · -- far above the bounds
    refine ⟨⌊q⌋, .floor (le_trans (by norm_num) hlarge), ?_⟩
    have hover : Double.lt (.finite high) (Double.add (.finite q) (.finite t)) = true :=
      (lt_ofRat hhigh' (by linarith [ht.1])).1
    rw [if_pos hover, clamp_high hle]
    exact Int.le_floor.mpr (by linarith)
  by_cases hsmall : q ≤ -2 ^ 34
  · -- far below them
    refine ⟨⌈q⌉, .ceil (le_trans hsmall (by norm_num)), ?_⟩
    have hover : Double.lt (.finite high) (Double.add (.finite q) (.finite t)) = false :=
      (ofRat_lt (by linarith) (by linarith [ht.2])).2
    have hsign : Double.le (.finite 0) (.finite q) = false := by
      simp only [Double.le, decide_eq_false_iff_not, not_le]
      linarith
    have hunder : Double.lt (Double.add (.finite q) (.finite (-t))) (.finite low) = true :=
      (ofRat_lt hlow' (by linarith [ht.1])).1
    rw [hover, if_neg Bool.false_ne_true, hsign, if_neg Bool.false_ne_true, if_pos hunder,
      clamp_low hle]
    exact Int.ceil_le.mpr (by linarith)
  have habs : |q| ≤ 2 ^ 34 := abs_le.mpr ⟨by linarith, by linarith⟩
  obtain ⟨hadd, hup⟩ := nearest_add habs htabs
  obtain ⟨hsub, hdown⟩ := @nearest_add q (-t) habs (by rwa [abs_neg])
  rw [hadd, hsub]
  rw [abs_le] at hup hdown
  by_cases hsign : 0 ≤ q
  · set r := nearest (q + t) with hr
    have hr0 : 0 ≤ r := by linarith [hup.1, ht.1]
    have hfloor0 : 0 ≤ ⌊r⌋ := Int.floor_nonneg.mpr hr0
    have hcast : (0 : ℚ) ≤ ⌊r⌋ := by exact_mod_cast hfloor0
    refine ⟨⌊r⌋, ⟨?_, ?_, fun _ => hfloor0, fun hq => ?_⟩, ?_⟩
    · rw [abs_of_nonneg hcast, abs_of_nonneg hsign]
      linarith [Int.floor_le r, hup.2, ht.2]
    · rw [abs_of_nonneg hcast, abs_of_nonneg hsign]
      linarith [Int.lt_floor_add_one r, hup.1, ht.1]
    · have hzero : ⌊r⌋ < 1 := Int.floor_lt.mpr (by push_cast; linarith [hup.2, ht.2])
      omega
    · by_cases htop : (high : ℚ) < r
      · rw [if_pos (by simpa [Double.lt] using htop), clamp_high hle (Int.le_floor.mpr htop.le)]
      · rw [if_neg (by simpa [Double.lt] using htop), if_pos (by simpa [Double.le] using hsign)]
        have hn : ⌊r⌋ ≤ high := by
          have := (Int.floor_le r).trans (not_lt.mp htop)
          exact_mod_cast this
        rw [clamp_mid (hlow0.trans hfloor0) hn]
        exact Double.toInt_finite (if_pos hr0) (hlow0.trans hfloor0) hn
  · set r := nearest (q + -t) with hr
    have hr0 : r < 0 := by linarith [hdown.2, ht.1]
    have hceil0 : ⌈r⌉ ≤ 0 := Int.ceil_le.mpr (by exact_mod_cast hr0.le)
    have hcast : (⌈r⌉ : ℚ) ≤ 0 := by exact_mod_cast hceil0
    have htop : ¬ (high : ℚ) < nearest (q + t) := by linarith [hup.2, ht.2]
    refine ⟨⌈r⌉, ⟨?_, ?_, fun hq => absurd hq hsign, fun _ => hceil0⟩, ?_⟩
    · rw [abs_of_nonpos hcast, abs_of_neg (not_le.mp hsign)]
      linarith [Int.le_ceil r, hdown.1, ht.2]
    · rw [abs_of_nonpos hcast, abs_of_neg (not_le.mp hsign)]
      linarith [Int.ceil_lt_add_one r, hdown.2, ht.1]
    · rw [if_neg (by simpa [Double.lt] using htop), if_neg (by simpa [Double.le] using hsign)]
      by_cases hbot : r < low
      · rw [if_pos (by simpa [Double.lt] using hbot),
          clamp_low hle (Int.ceil_le.mpr (by exact_mod_cast hbot.le))]
      · rw [if_neg (by simpa [Double.lt] using hbot)]
        have hn : low ≤ ⌈r⌉ := by
          have := (not_lt.mp hbot).trans (Int.le_ceil r)
          exact_mod_cast this
        rw [clamp_mid hn (by omega)]
        exact Double.toInt_finite (if_neg (not_le.mpr hr0)) hn (by omega)

end Saturate

/-! ## Texts of integers -/

/-- The nearest double of an integer. -/
def doubleOf (z : ℤ) : SignedDouble :=
  ⟨z < 0, if z < 0 then (Double.ofRat z.natAbs).neg else .ofRat z.natAbs⟩

/-- A text without an exponent mark but `e` is handed to `atof` as it is. -/
theorem doubleText_eq {s : List UInt8} (hshort : s.length ≤ 81)
    (hmarks : ∀ c ∈ s, c ≠ 68 ∧ c ≠ 100 ∧ c ≠ 69) : doubleText s = s := by
  have hmark : ∀ c : UInt8, c ∉ s → replaceFirst c 101 s = s := fun c hc => replaceFirst_of_notMem hc
  rw [doubleText, List.take_of_length_le hshort]
  rw [hmark 68 fun h => (hmarks 68 h).1 rfl, hmark 100 fun h => (hmarks 100 h).2.1 rfl,
    hmark 69 fun h => (hmarks 69 h).2.2 rfl, ite_self]

theorem doubleText_intText {z : ℤ} (hlow : -2 ^ 63 ≤ z) (hhigh : z < 2 ^ 64) :
    doubleText (intText z) = intText z := by
  have hlen := intText_length hlow hhigh
  refine doubleText_eq (by omega) fun c hc => ?_
  refine ⟨?_, ?_, ?_⟩ <;> rintro rfl <;> exact absurd (intText_range hc) (by decide)

theorem strtodRest_intText (z : ℤ) : strtodRest (intText z) = [] := by
  have hplain : ∀ {s : List UInt8} {negative : Bool},
      readSign (s.dropWhile isSpace) = (negative, natText z.natAbs) → strtodRest s = [] := by
    intro s negative hsign
    obtain ⟨hinf, hnan, hhex⟩ := atof_words z.natAbs
    have hne : natText z.natAbs ≠ [] := by
      obtain ⟨d, cs, htext, -⟩ := natText_head z.natAbs
      rw [htext]
      exact List.cons_ne_nil _ _
    have hlong : ((natText z.natAbs).take 8).map lower ≠ [105, 110, 102, 105, 110, 105, 116, 121] := by
      intro heq
      have h3 := congrArg (List.take 3) heq
      rw [← List.map_take, List.take_take] at h3
      exact hinf h3
    have hnil : Digits 10 ([] : List UInt8) := digits_of_range (by simp)
    obtain ⟨-, hrest⟩ := readScaled_decimalText hne (natText_digits z.natAbs) hnil none
    have hsame : decimalText (natText z.natAbs) [] none = natText z.natAbs := List.append_nil _
    rw [hsame] at hrest
    simp only [strtodRest, hsign, if_neg hinf, if_neg hnan, if_neg hlong, hhex, Bool.false_eq_true,
      if_false, hrest, Option.getD_some]
  unfold intText
  split
  · exact hplain (readSign_minus _)
  · exact hplain (readSign_natText _)

/-- `hgetr8` reads the nearest double of an integer. -/
theorem atofSigned_intText (z : ℤ) : atofSigned (intText z) = doubleOf z := by
  have hrest := strtodRest_intText z
  have hne : intText z ≠ [] := List.length_pos_iff.mp (intText_ne_nil z)
  obtain ⟨hinf, hnan, hhex⟩ := atof_words z.natAbs
  unfold intText at hrest hne ⊢
  unfold doubleOf
  split
  · rename_i hneg
    rw [if_pos hneg] at hrest hne
    have hvalue : atof (45 :: natText z.natAbs) = (Double.ofRat z.natAbs).neg := by
      simp only [atof, readSign_minus, if_neg hinf, if_neg hnan, hhex, Bool.false_eq_true, if_false,
        readScaled_natText, if_true]
    rw [atofSigned_eq (readSign_minus _) hvalue hrest hne, decide_eq_true hneg]
  · rename_i hneg
    rw [if_neg hneg] at hrest hne
    have hvalue : atof (natText z.natAbs) = .ofRat z.natAbs := by
      simp only [atof, readSign_natText, if_neg hinf, if_neg hnan, hhex, Bool.false_eq_true, if_false,
        readScaled_natText]
    rw [atofSigned_eq (readSign_natText _) hvalue hrest hne, decide_eq_false hneg]

/-- Small integers are doubles, and large ones stay large. -/
theorem doubleOf_value {z : ℤ} (hz : |z| ≤ 2 ^ 64) :
    ∃ r : ℚ, (doubleOf z).value = .finite r ∧ (|z| < 2 ^ 53 → r = z) ∧
      (2 ^ 53 ≤ z → 2 ^ 52 ≤ r) ∧ (z ≤ -2 ^ 53 → r ≤ -2 ^ 52) := by
  have habs : ((z.natAbs : ℕ) : ℤ) = |z| := Int.natCast_natAbs z
  have hmagnitude : ∃ r : ℚ, Double.ofRat z.natAbs = .finite r ∧ (|z| < 2 ^ 53 → r = (|z| : ℤ)) ∧
      (2 ^ 53 ≤ |z| → 2 ^ 52 ≤ r) := by
    by_cases hsmall : |z| < 2 ^ 53
    · refine ⟨((|z| : ℤ) : ℚ), ?_, fun _ => rfl, fun hlarge => absurd hsmall (not_lt.mpr hlarge)⟩
      have hexact := @Double.ofRat_intCast |z| (by rwa [abs_abs])
      rw [← hexact, ← habs]
      rfl
    · have hbig : (2 : ℚ) ^ 53 ≤ z.natAbs := by
        have : (2 : ℤ) ^ 53 ≤ z.natAbs := by omega
        exact_mod_cast this
      have htop : (z.natAbs : ℚ) ≤ 2 ^ 64 := by
        have : (z.natAbs : ℤ) ≤ 2 ^ 64 := by omega
        exact_mod_cast this
      obtain ⟨r, hr, hnear⟩ := @Double.ofRat_near z.natAbs
        (normal_of_le (by rw [Nat.abs_cast]; exact le_trans (by norm_num) hbig))
        (by rw [Nat.abs_cast]; exact htop.trans (by norm_num))
      rw [Nat.abs_cast, abs_le] at hnear
      have hhalf : (z.natAbs : ℚ) / 2 ^ 53 ≤ z.natAbs / 2 := by
        gcongr
        norm_num
      exact ⟨r, hr, fun h => absurd h hsmall, fun _ => by linarith [hnear.1]⟩
  obtain ⟨r, hr, hexact, hlarge⟩ := hmagnitude
  rw [doubleOf]
  by_cases hneg : z < 0
  · rw [abs_of_neg hneg] at hexact hlarge hz ⊢
    refine ⟨-r, ?_, fun h => ?_, fun h => by omega, fun h => ?_⟩
    · simp only [if_pos hneg, hr]
      rfl
    · rw [hexact h]
      push_cast
      ring
    · linarith [hlarge (by omega)]
  · rw [abs_of_nonneg (not_lt.mp hneg)] at hexact hlarge hz ⊢
    refine ⟨r, ?_, hexact, hlarge, fun h => by omega⟩
    simp only [if_neg hneg, hr]

/-- An integer read as one of 32 bits is the nearest of the type. -/
theorem saturate_intText {low high z : ℤ} (hlow : -2 ^ 32 ≤ low) (hlow0 : low ≤ 0)
    (hhigh0 : 0 < high) (hhigh : high ≤ 2 ^ 32) (hz : Prints z) :
    saturate low high (doubleValue (intText z)) = clamp low high z := by
  have hvalue : doubleValue (intText z) = (doubleOf z).value := by
    rw [← atofSigned_intText]
    show atof (doubleText (intText z)) = atof (intText z)
    rw [doubleText_intText hz.1 hz.2]
  have hbound : |z| ≤ 2 ^ 64 := abs_le.mpr ⟨by linarith [hz.1], hz.2.le⟩
  obtain ⟨r, hr, hexact, hup, hdown⟩ := doubleOf_value hbound
  obtain ⟨n, hn, hsat⟩ := saturate_near hlow hlow0 hhigh0 hhigh r
  rw [hvalue, hr, hsat]
  have hle : low ≤ high := by omega
  have hlt := hn.lt
  rw [← Int.cast_abs] at hlt
  rcases lt_or_ge |z| (2 ^ 53) with hsmall | hlarge
  · rw [hexact hsmall] at hn
    rw [hn.intCast]
  · rcases le_abs.mp hlarge with hpos | hneg
    · have hr52 := hup hpos
      have hn0 := hn.nonneg (le_trans (by norm_num) hr52)
      rw [abs_of_nonneg hn0, abs_of_nonneg (le_trans (by norm_num) hr52)] at hlt
      have hn52 : (2 : ℤ) ^ 52 < n + 1 := by exact_mod_cast lt_of_le_of_lt hr52 hlt
      rw [clamp_high hle (by omega), clamp_high hle (by omega)]
    · have hr52 := hdown (by omega)
      have hn0 := hn.nonpos (le_trans hr52 (by norm_num))
      rw [abs_of_nonpos hn0, abs_of_nonpos (le_trans hr52 (by norm_num))] at hlt
      have hn52 : (2 : ℤ) ^ 52 < -n + 1 := by
        have : (2 : ℚ) ^ 52 < ((-n : ℤ) : ℚ) + 1 := by linarith
        exact_mod_cast this
      rw [clamp_low hle (by omega), clamp_low hle (by omega)]

section Reads

variable {m : Mem} {k : PutKey}

/-- What the getters make of an integer. -/
structure ReadsInteger (m : Mem) (k : PutKey) (z : ℤ) : Prop where
  i4 : hgeti4 m k.text = some (Int32.ofInt (clamp (-2 ^ 31) (2 ^ 31 - 1) z))
  u4 : hgetu4 m k.text = some (UInt32.ofNat (clamp 0 (2 ^ 32 - 1) z).toNat)
  i8 : hgeti8 m k.text = some (Int64.ofInt (min z (2 ^ 63 - 1)))
  u8 : hgetu8 m k.text = some (UInt64.ofNat (z % 2 ^ 64).toNat)
  r8 : ∀ dval, hgetr8 m k.text dval = (1, doubleOf z)

theorem strtoll_intText_min {z : ℤ} (hlow : -2 ^ 63 ≤ z) :
    strtoll (intText z) = (min z (2 ^ 63 - 1), []) := by
  unfold intText
  split
  · simp only [strtoll, readInteger_of_sign (readSign_minus _), if_true]
    rw [max_eq_left (by omega), min_eq_left (by omega)]
    congr 1
    omega
  · simp only [strtoll, readInteger_of_sign (readSign_natText _), Bool.false_eq_true, if_false]
    congr 2
    omega

/-- A minus negates modulo `2 ^ 64`. -/
theorem strtoull_intText {z : ℤ} (hz : Prints z) :
    strtoull (intText z) = ((z % 2 ^ 64).toNat, []) := by
  have hlow := hz.1
  have hhigh := hz.2
  unfold intText
  split
  · simp only [strtoull, readInteger_of_sign (readSign_minus _), if_true]
    rw [if_neg (by omega)]
    congr 1
    omega
  · simp only [strtoull, readInteger_of_sign (readSign_natText _), Bool.false_eq_true, if_false]
    rw [if_neg (by omega)]
    congr 1
    omega

theorem readsInteger_of_hgetc {z : ℤ} (hz : Prints z) (h : hgetc m k.text = some (intText z)) :
    ReadsInteger m k z where
  i4 := by
    rw [hgeti4, h, Option.map_some, stripHash_intText,
      saturate_intText (by norm_num) (by norm_num) (by norm_num) (by norm_num) hz]
  u4 := by
    rw [hgetu4, h, Option.map_some, stripHash_intText,
      saturate_intText (by norm_num) (by norm_num) (by norm_num) (by norm_num) hz]
  i8 := by
    rw [hgeti8, h, Option.map_some]
    simp only [stripHash_intText, strtoll_intText_min hz.1, if_true]
  u8 := by
    rw [hgetu8, h, Option.map_some]
    simp only [stripHash_intText, strtoull_intText hz, if_true]
  r8 := by
    intro dval
    simp only [hgetr8, h, stripHash_intText, doubleText_intText hz.1 hz.2, atofSigned_intText]

/-- What the getters make of a finite double; what `hgeti8` and `hgetu8` convert has to be in the
bounds of the type, for C leaves the rest undefined. -/
structure ReadsDouble (m : Mem) (k : PutKey) (q : ℚ) : Prop where
  i4 : ∃ n, NearTrunc q n ∧
    hgeti4 m k.text = some (Int32.ofInt (clamp (-2 ^ 31) (2 ^ 31 - 1) n))
  u4 : ∃ n, NearTrunc q n ∧
    hgetu4 m k.text = some (UInt32.ofNat (clamp 0 (2 ^ 32 - 1) n).toNat)
  i8 : -2 ^ 63 ≤ trunc q → trunc q < 2 ^ 63 → hgeti8 m k.text = some (Int64.ofInt (trunc q))
  u8 : 0 ≤ q → trunc q < 2 ^ 64 → hgetu8 m k.text = some (UInt64.ofNat (trunc q).toNat)

/-- The text of a double that an integer reader uses up is that of an integer. -/
theorem readInteger_printGeneral (negative : Bool) {q : ℚ} (hq : IsDouble q)
    (hused : (readInteger (printGeneral 17 ⟨negative, .finite q⟩)).2.2 = []) :
    ∃ n : ℕ, |q| = n ∧
      readInteger (printGeneral 17 ⟨negative, .finite q⟩) = (negative, n, []) := by
  obtain ⟨hdigits, hread⟩ := (decimalHead_general hq.abs (abs_nonneg q)).readInteger
    (readSign_printGeneral negative hq) hused
  exact ⟨_, eq_digitsValue hq.abs (abs_nonneg q) hdigits, hread⟩

/-- The sign of a number that is stored is its own. -/
theorem stored_sign {d : SignedDouble} (hd : d.Valid) {q : ℚ} (hvalue : d.value = .finite q) :
    stored d = ⟨decide (q < 0), .finite q⟩ := by
  obtain ⟨negative, value⟩ := d
  obtain rfl : value = .finite q := hvalue
  obtain ⟨-, hneg, hpos⟩ := hd
  rcases lt_trichotomy q 0 with hlt | rfl | hgt
  · have hsign : negative = true := hneg hlt
    rw [hsign, decide_eq_true hlt]
    exact if_neg hlt.ne
  · simp [stored]
  · have hsign : negative = false := hpos hgt
    rw [hsign, decide_eq_false (not_lt.mpr hgt.le)]
    exact if_neg hgt.ne'

theorem trunc_neg {q : ℚ} {n : ℕ} (hq : q < 0) (hn : |q| = n) : trunc q = -n := by
  rw [trunc, if_neg (not_le.mpr hq)]
  rw [abs_of_neg hq] at hn
  have : q = ((-n : ℤ) : ℚ) := by
    push_cast
    linarith
  rw [this, Int.ceil_intCast]

theorem trunc_nonneg {q : ℚ} {n : ℕ} (hq : 0 ≤ q) (hn : |q| = n) : trunc q = n := by
  rw [trunc, if_pos hq]
  rw [abs_of_nonneg hq] at hn
  rw [hn, Int.floor_natCast]

theorem readsDouble_of_hgetc {d : SignedDouble} (hd : d.Valid) {q : ℚ}
    (hvalue : d.value = .finite q) (h : hgetc m k.text = some (printGeneral 17 (stored d))) :
    ReadsDouble m k q := by
  have hvalid := stored_valid hd
  have hdouble : IsDouble q := by
    rw [stored_sign hd hvalue] at hvalid
    exact hvalid.1
  have hatof : atof (printGeneral 17 (stored d)) = .finite q := by
    have hround := congrArg SignedDouble.value (atofSigned_printGeneral hvalid)
    rw [stored_sign hd hvalue] at hround ⊢
    exact hround
  have hhash : stripHash (printGeneral 17 (stored d)) = printGeneral 17 (stored d) := by
    refine if_neg fun h35 => ?_
    exact (generalChar_plain (printGeneral_char hvalid 35 (List.mem_of_head? h35))).2.2.2.2 rfl
  have hreal : doubleValue (stripHash (printGeneral 17 (stored d))) = .finite q := by
    show atof (doubleText (stripHash (printGeneral 17 (stored d)))) = _
    rw [doubleText_printGeneral hvalid, hatof]
  refine ⟨?_, ?_, fun hlow hhigh => ?_, fun hq hhigh => ?_⟩
  · obtain ⟨n, hn, hsat⟩ := @saturate_near (-2 ^ 31) (2 ^ 31 - 1) (by norm_num) (by norm_num)
      (by norm_num) (by norm_num) q
    refine ⟨n, hn, ?_⟩
    rw [hgeti4, h, Option.map_some, hreal, hsat]
  · obtain ⟨n, hn, hsat⟩ := @saturate_near 0 (2 ^ 32 - 1) (by norm_num) (by norm_num)
      (by norm_num) (by norm_num) q
    refine ⟨n, hn, ?_⟩
    rw [hgetu4, h, Option.map_some, hreal, hsat]
  · rw [hgeti8, h, Option.map_some]
    simp only [hhash]
    by_cases hused : (strtoll (printGeneral 17 (stored d))).2 = []
    · rw [if_pos hused]
      rw [stored_sign hd hvalue] at hused ⊢
      obtain ⟨n, hn, hread⟩ := readInteger_printGeneral _ hdouble hused
      by_cases hneg : q < 0
      · rw [decide_eq_true hneg] at hread ⊢
        rw [trunc_neg hneg hn] at hlow ⊢
        simp only [strtoll, hread, if_true]
        rw [max_eq_left hlow]
      · rw [decide_eq_false hneg] at hread ⊢
        rw [trunc_nonneg (not_lt.mp hneg) hn] at hhigh ⊢
        simp only [strtoll, hread, Bool.false_eq_true, if_false]
        rw [min_eq_left (by omega)]
    · rw [if_neg hused, hatof, Double.toInt_finite rfl hlow (by omega)]
  · have hneg : ¬ q < 0 := not_lt.mpr hq
    have htrunc : 0 ≤ trunc q := by
      rw [trunc, if_pos hq]
      exact Int.floor_nonneg.mpr hq
    rw [hgetu8, h, Option.map_some]
    simp only [hhash]
    by_cases hused : (strtoull (printGeneral 17 (stored d))).2 = []
    · rw [if_pos hused]
      rw [stored_sign hd hvalue] at hused ⊢
      obtain ⟨n, hn, hread⟩ := readInteger_printGeneral _ hdouble hused
      rw [decide_eq_false hneg] at hread ⊢
      rw [trunc_nonneg hq hn] at hhigh ⊢
      simp only [strtoull, hread, Bool.false_eq_true, if_false, Int.toNat_natCast]
      rw [if_neg (by omega)]
    · rw [if_neg hused, hatof, Double.toInt_finite rfl htrunc (by omega)]

/-- An infinity of either sign is stored as the positive one. -/
structure ReadsInfinity (m : Mem) (k : PutKey) : Prop where
  i4 : hgeti4 m k.text = some 2147483647
  u4 : hgetu4 m k.text = some 4294967295

theorem readsInfinity_of_hgetc {d : SignedDouble} {b : Bool} (hvalue : d.value = .infinite b)
    (h : hgetc m k.text = some (printGeneral 17 (stored d))) : ReadsInfinity m k := by
  have hstored : stored d = ⟨false, .infinite false⟩ := by
    rw [stored, hvalue]
  have htext : hgetc m k.text = some [105, 110, 102] := by
    rw [h, hstored]
    rfl
  have hreal : doubleValue (stripHash [105, 110, 102]) = .infinite false := by decide
  have hsat : ∀ low high, saturate low high (.infinite false) = high := by
    obtain ⟨t, ht, -⟩ := thousandth_close
    intro low high
    rw [saturate, ht]
    exact if_pos rfl
  constructor
  · rw [hgeti4, htext, Option.map_some, hreal, hsat]
    rfl
  · rw [hgetu4, htext, Option.map_some, hreal, hsat]
    rfl

/-- A logical is no number: it is read as 0. -/
theorem readsInteger_of_logical {lval : Int32} (h : hgetc m k.text = some (logicalText lval)) :
    ReadsInteger m k 0 := by
  have hletter : logicalText lval = [84] ∨ logicalText lval = [70] := by
    unfold logicalText
    split
    · exact .inl rfl
    · exact .inr rfl
  have hreads : ∀ t : List UInt8, t = [84] ∨ t = [70] → stripHash t = t ∧
      atofSigned (doubleText t) = ⟨false, .finite 0⟩ ∧ strtoll t = (0, t) ∧ strtoull t = (0, t) ∧
        atof t = .finite 0 := by
    rintro t (rfl | rfl) <;> decide +kernel
  obtain ⟨hhash, hreal, hll, hull, hatof⟩ := hreads _ hletter
  have hne : logicalText lval ≠ [] := by
    rcases hletter with h' | h' <;> rw [h'] <;> exact List.cons_ne_nil _ _
  have hvalue : doubleValue (stripHash (logicalText lval)) = .finite ((0 : ℤ) : ℚ) := by
    rw [hhash]
    exact congrArg SignedDouble.value hreal
  have hzero : doubleOf 0 = ⟨false, .finite 0⟩ := by decide +kernel
  refine ⟨?_, ?_, ?_, ?_, fun dval => ?_⟩
  · rw [hgeti4, h, Option.map_some, hvalue,
      saturate_intCast (by norm_num) (by norm_num) (by norm_num) (by norm_num)]
    rfl
  · rw [hgetu4, h, Option.map_some, hvalue,
      saturate_intCast (by norm_num) (by norm_num) (by norm_num) (by norm_num)]
    rfl
  · rw [hgeti8, h, Option.map_some]
    simp only [hhash, hll, if_neg hne, hatof]
    decide +kernel
  · rw [hgetu8, h, Option.map_some]
    simp only [hhash, hull, if_neg hne, hatof]
    decide +kernel
  · simp only [hgetr8, h, hhash, hreal, hzero]

/-- What the getters of numbers make of a value of any type but a string. -/
def ReadsNumber (m : Mem) (k : PutKey) : StatusVal → Prop
  | .integer v => ReadsInteger m k v.toInt
  | .double d _ => (∀ q, d.value = .finite q → ReadsDouble m k q) ∧
      ∀ b, d.value = .infinite b → ReadsInfinity m k
  | .logical _ => ReadsInteger m k 0
  | .string V => ∀ z, V.string.text.bytes = intText z → Prints z → ReadsInteger m k z

theorem readsNumber_of_hgetc {v : StatusVal} (h : hgetc m k.text = some v.text) :
    ReadsNumber m k v := by
  cases v with
  | integer v => exact readsInteger_of_hgetc (prints_val v) h
  | double d hd =>
    exact ⟨fun q hq => readsDouble_of_hgetc hd hq h, fun b hb => readsInfinity_of_hgetc hb h⟩
  | string V =>
    intro z htext hz
    refine readsInteger_of_hgetc hz ?_
    rw [← htext]
    exact h
  | logical lval => exact readsInteger_of_logical h

end Reads

/-- **Numbers read as any type.**  After `hashpipe_status_clear` and any puts and deletions that
fit, every getter of numbers makes of the value that a key has what `ReadsNumber` says. -/
theorem numbers_read_as_any_type (buf : Mem) (instanceId : Int32) (ops : List StatusOp)
    (hfits : ∀ ops', ops' <+: ops →
      80 * ((valuesAfter instanceId ops').keys.card + 3) ≤ totalSize) :
    ∃ start m, hashpipeStatusClear buf instanceId = .ok start ∧ runOps start ops = .ok m ∧
      ∀ (k : PutKey) (v : StatusVal), (valuesAfter instanceId ops).lookup k.pre = some v →
        ReadsNumber m k v := by
  obtain ⟨m, n, spare, hrun, hholds⟩ := (clear_holds buf instanceId).run ops hfits
  exact ⟨clearedBuffer buf instanceId, m, (clear_wellFormed buf instanceId).1, hrun, fun k v hv =>
    readsNumber_of_hgetc (hholds.hgetc_present hv)⟩

/-- GAIN is -1. -/
def minusOneOps : List StatusOp := [.put gainKey (.integer (.i8 (-1)))]

/-- It is the largest `unsigned long long`, and no `unsigned int`. -/
theorem numbers_read_as_any_type_minusOne :
    ∃ start m, hashpipeStatusClear noBytes 3 = .ok start ∧ runOps start minusOneOps = .ok m ∧
      hgetu8 m gainKey.text = some 18446744073709551615 ∧ hgetu4 m gainKey.text = some 0 ∧
        hgeti4 m gainKey.text = some (-1) := by
  have hfits : ∀ ops' ∈ minusOneOps.inits,
      80 * ((valuesAfter 3 ops').keys.card + 3) ≤ totalSize := by decide
  obtain ⟨start, m, hclear, hrun, hkeys⟩ := numbers_read_as_any_type noBytes 3 minusOneOps
    fun ops' hprefix => hfits ops' ((List.mem_inits ops' minusOneOps).mpr hprefix)
  have hreads : ReadsInteger m gainKey (-1) := hkeys gainKey (.integer (.i8 (-1))) (by rfl)
  exact ⟨start, m, hclear, hrun, hreads.u8, hreads.u4, hreads.i4⟩

end Hashpipe.Status
