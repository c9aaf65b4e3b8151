import Mathlib.Tactic
import Mathlib.Data.List.DropRight
import Hashpipe.Status.Layout

/-!
# Reading values

`hgetc` finds the line of a keyword and takes its value apart: the text between quotes
or else between `=` and `/`, without the blanks around it, or a token of that text
when the keyword asks for one.  `hgeti8` and `hgetu8` read an integer from the text;
`hgeti4` and `hgetu4` go through a double and saturate.
-/

namespace Hashpipe.Status

open ByteMemory CNumber Binary64

/-- Step back over blanks from `e`. -/
def trimBlanks (line : Mem) : ℕ → ℕ
  | 0 => 0
  | e + 1 => if line e = 32 then trimBlanks line e else e + 1

/-- Step over at most `n` blanks from `v1` on. -/
def skipBlanks (line : Mem) : ℕ → ℕ → ℕ
  | 0, v1 => v1
  | n + 1, v1 => if line v1 = 32 then skipBlanks line n (v1 + 1) else v1

/-- Step back from `v2` over blanks and carriage returns, to `v1` at most. -/
def dropTrailing (line : Mem) (v1 : ℕ) : ℕ → ℕ
  | 0 => 0
  | e + 1 => if v1 < e ∧ (line e = 32 ∨ line e = 13) then dropTrailing line v1 e else e + 1

/-- The quoted value that opens at `q1`, unless a comment starts before it.  Without a
closing quote it ends before the comment or the end of the line. -/
def quotedValue (line : Mem) (mark : UInt8) (q1 : ℕ) (c1 : Option ℕ) : Option (ℕ × ℕ) :=
  match c1 with
  | some c1 =>
    if q1 < c1 then some (q1, (strchr line (q1 + 1) mark).getD (trimBlanks line c1)) else none
  | none => some (q1, (strchr line (q1 + 1) mark).getD (trimBlanks line 80))

/-- Where the value of a line starts and ends. -/
def valueBounds (line : Mem) : ℕ × ℕ :=
  let c1 := strchr line 0 47
  let quoted :=
    match strchr line 0 39 with
    | some q1 => quotedValue line 39 q1 c1
    | none =>
      match strchr line 0 34 with
      | some q1 => quotedValue line 34 q1 c1
      | none => none
  match quoted with
  | some (q1, q2) => (q1 + 1, q2)
  | none => (((strchr line 0 61).map (· + 1)).getD 9, c1.getD 79)

/-- The value of a line, without the blanks around it and without the sign of `-0`. -/
def valueText (line : Mem) : List UInt8 :=
  let (v1, v2) := valueBounds line
  let v1 := skipBlanks line (v2 - v1) v1
  let e := dropTrailing line v1 v2
  let text := stringAt (fun j => if e ≤ j ∧ j ≤ v2 then 0 else line j) v1 (100 - v1)
  if text = [45, 48] then [48] else text

/-- The keyword ends within its copy.  `hgetc` copies 80 characters to `keyword[81]` and does not
set the last one: what it does with a longer keyword is undefined. -/
def KeywordCopied (keyword0 : CString) : Prop := keyword0.bytes.length ≤ 79

instance (keyword0 : CString) : Decidable (KeywordCopied keyword0) := Nat.decLe _ _

/-- Split a keyword at a bracket, or else at a comma; one that ends within its copy. -/
def cutKeyword (keyword0 : List UInt8) : List UInt8 × Option (List UInt8) :=
  let keyword := keyword0.take 80
  match keyword.findIdx? (· == 91) with
  | some i => (keyword.take i, some (keyword.drop (i + 1)))
  | none =>
    match keyword.findIdx? (· == 44) with
    | some i => (keyword.take i, some (keyword.drop (i + 1)))
    | none => (keyword, none)

/-- The loop of `isnum`: `nd` digits and `cl` colons so far. -/
def isnumLoop (prev : Option UInt8) (nd cl fpcode : ℕ) : List UInt8 → ℕ
  | [] => if 0 < nd then if 0 < cl then 3 else fpcode else 0
  | c :: cs =>
    if c = 10 then if 0 < nd then if 0 < cl then 3 else fpcode else 0
    else if c = 32 ∧ nd = 0 then isnumLoop (some c) nd cl fpcode cs
    else
      let fpcode' := if c = 46 ∨ c = 100 ∨ c = 101 then 2 else fpcode
      if 48 ≤ c ∧ c ≤ 57 then isnumLoop (some c) (nd + 1) cl fpcode' cs
      else if c = 43 ∨ c = 45 then
        if cs.head? = some 43 ∨ cs.head? = some 45 then 0
        else if prev.any (fun p => !([68, 100, 69, 101, 58, 32] : List UInt8).contains p) then 0
        else isnumLoop (some c) nd cl fpcode' cs
      else if c = 58 then isnumLoop (some c) nd (cl + 1) fpcode' cs
      else if c = 68 ∨ c = 100 ∨ c = 69 ∨ c = 101 ∨ c = 46 then isnumLoop (some c) nd cl fpcode' cs
      else 0

/-- 1 for an integer, 2 for floating point, 3 for a sexagesimal number, else 0. -/
def isnum (string : List UInt8) : ℕ :=
  if ([68, 100, 69, 101] : List UInt8).contains (string.headD 0) then 0
  else isnumLoop none 0 0 1 (string.rdropWhile (· == 32))

/-- What follows `n` blanks. -/
def afterBlanks : ℕ → List UInt8 → Option (List UInt8)
  | 0, s => some s
  | n + 1, s =>
    match s.dropWhile (· != 32) with
    | [] => none
    | _ :: rest => afterBlanks n rest

/-- The token of a value a bracket asks for: one token, or for a negative number the
rest of the value from there. -/
def selectToken (text brack : List UInt8) : Option (List UInt8) :=
  let number := brack.takeWhile (· != 93)
  if isnum number = 0 then none
  else
    let ipar := (atoi number).toInt
    if 0 < ipar then ((text.splitOn 32).filter (· ≠ []))[ipar.toNat - 1]?
    else if ipar < 0 then afterBlanks ((-ipar).toNat - 1) text
    else some text

/-- Extract the value of a keyword as text. -/
def hgetc (hstring : Mem) (keyword0 : CString) : Option (List UInt8) :=
  let (keyword, brack) := cutKeyword keyword0.bytes
  match ksearch hstring keyword with
  | none => none
  | some vpos =>
    let text := valueText (lineAt hstring vpos)
    match brack with
    | none => some text
    | some brack => selectToken text brack

/-- A value may start with a number sign. -/
def stripHash (value : List UInt8) : List UInt8 :=
  if value.head? = some 35 then value.tail else value

def replaceFirst (c d : UInt8) : List UInt8 → List UInt8
  | [] => []
  | x :: xs => if x = c then d :: xs else x :: replaceFirst c d xs

/-- A value as a double; the exponent marks `D`, `d` and `E` are read as `e`. -/
def doubleValue (value : List UInt8) : Double :=
  let val := value.take 81
  atof (if isnum val = 2 then replaceFirst 69 101 (replaceFirst 100 101 (replaceFirst 68 101 val))
    else val)

def thousandth : Double := .ofRat (1 / 1000)

/-- The nearby integer within the bounds of the type. -/
def saturate (low high : ℤ) (dval : Double) : ℤ :=
  if Double.lt (.finite high) (dval.add thousandth) then high
  else if Double.le (.finite 0) dval then (dval.add thousandth).toInt low high
  else if Double.lt (dval.add thousandth.neg) (.finite low) then low
  else (dval.add thousandth.neg).toInt low high

/-- Extract an `int`. -/
def hgeti4 (hstring : Mem) (keyword : CString) : Option Int32 :=
  (hgetc hstring keyword).map fun value =>
    Int32.ofInt (saturate (-2 ^ 31) (2 ^ 31 - 1) (doubleValue (stripHash value)))

/-- Extract an `unsigned int`. -/
def hgetu4 (hstring : Mem) (keyword : CString) : Option UInt32 :=
  (hgetc hstring keyword).map fun value =>
    UInt32.ofNat (saturate 0 (2 ^ 32 - 1) (doubleValue (stripHash value))).toNat

/-- Extract a `long long`; a text that goes on behind the integer is read as a double. -/
def hgeti8 (hstring : Mem) (keyword : CString) : Option Int64 :=
  (hgetc hstring keyword).map fun value =>
    let value := stripHash value
    let r := strtoll value
    Int64.ofInt (if r.2 = [] then r.1 else (atof value).toInt (-2 ^ 63) (2 ^ 63 - 1))

/-- Extract an `unsigned long long`; a double outside the type, for which C has no value, is
clamped. -/
def hgetu8 (hstring : Mem) (keyword : CString) : Option UInt64 :=
  (hgetc hstring keyword).map fun value =>
    let value := stripHash value
    let r := strtoull value
    UInt64.ofNat (if r.2 = [] then r.1 else ((atof value).toInt 0 (2 ^ 64 - 1)).toNat)

/-! ## Integers read back -/

/-- A decimal text does not start with a number sign. -/
theorem stripHash_intText (z : ℤ) : stripHash (intText z) = intText z := by
  refine if_neg fun h => ?_
  exact absurd (intText_range (List.mem_of_head? h)) (by decide)

theorem replaceFirst_of_notMem {c d : UInt8} {s : List UInt8} (h : c ∉ s) :
    replaceFirst c d s = s := by
  induction s with
  | nil => rfl
  | cons x xs ih =>
    have hx : x ≠ c := fun hx => h (by simp [hx])
    rw [replaceFirst, if_neg hx, ih fun hc => h (List.mem_cons_of_mem _ hc)]

/-- The text of an integer is read as that double. -/
theorem doubleValue_intText {z : ℤ} (hlow : -2 ^ 63 ≤ z) (hhigh : z < 2 ^ 64)
    (hexact : |z| < 2 ^ 53) : doubleValue (intText z) = .finite z := by
  have hnot : ∀ c : UInt8, 57 < c → c ∉ intText z := by
    intro c hc hmem
    rcases intText_range hmem with h | h
    · subst h
      exact absurd hc (by decide)
    · exact absurd h.2 (UInt8.not_le.mpr hc)
  have hlen := intText_length hlow hhigh
  rw [doubleValue, List.take_of_length_le (by omega)]
  rw [replaceFirst_of_notMem (hnot 68 (by decide)), replaceFirst_of_notMem (hnot 100 (by decide)),
    replaceFirst_of_notMem (hnot 69 (by decide)), ite_self]
  exact atof_intText hexact

/-- The double for 0.001 is close to it. -/
theorem thousandth_near : ∃ t : ℚ, thousandth = .finite t ∧ 1 / 2000 ≤ t ∧ t ≤ 1 / 500 := by
  have habs : |(1 / 1000 : ℚ)| = 1 / 1000 := abs_of_nonneg (by norm_num)
  obtain ⟨t, ht, hnear⟩ := @Double.ofRat_near (1 / 1000)
    (normal_of_le (by rw [habs]; norm_num)) (by rw [habs]; norm_num)
  rw [habs, abs_le] at hnear
  refine ⟨t, ht, ?_, ?_⟩
  · linarith [hnear.1]
  · linarith [hnear.2]

/-- The sum of a small integer and about a thousandth is off by far less than that. -/
theorem add_near {n : ℤ} (hlow : -2 ^ 33 ≤ n) (hhigh : n ≤ 2 ^ 33) {t : ℚ} (ht : 1 / 2000 ≤ |t|)
    (ht' : |t| ≤ 1 / 500) :
    ∃ r : ℚ, Double.add (.finite n) (.finite t) = .finite r ∧ |r - (n + t)| < 1 / 4000 := by
  have hn : |(n : ℚ)| ≤ 2 ^ 33 := by
    rw [abs_le]
    exact ⟨by exact_mod_cast hlow, by exact_mod_cast hhigh⟩
  have hsum : |(n : ℚ) + t| ≤ 2 ^ 33 + 1 := by
    have := abs_add_le (n : ℚ) t
    linarith
  have hsmall : 1 / 2048 ≤ |(n : ℚ) + t| := by
    by_cases h0 : n = 0
    · subst h0
      rw [Int.cast_zero, zero_add]
      linarith
    · have h1 : (1 : ℚ) ≤ |(n : ℚ)| := by exact_mod_cast Int.one_le_abs h0
      have := abs_sub_abs_le_abs_sub (n : ℚ) (-t)
      rw [abs_neg, sub_neg_eq_add] at this
      linarith
  obtain ⟨r, hr, hnear⟩ := Double.ofRat_near (normal_of_le hsmall)
    (hsum.trans (by norm_num))
  refine ⟨r, hr, lt_of_le_of_lt hnear ?_⟩
  calc |(n : ℚ) + t| / 2 ^ 53 ≤ (2 ^ 33 + 1) / 2 ^ 53 := by gcongr
    _ < 1 / 4000 := by norm_num

/-- **Saturation is exact** on the integers of the type. -/
theorem saturate_intCast {low high n : ℤ} (hlow : -2 ^ 32 ≤ low) (hhigh : high ≤ 2 ^ 32)
    (hn : low ≤ n) (hn' : n ≤ high) : saturate low high (.finite n) = n := by
  obtain ⟨t, htd, ht, ht'⟩ := thousandth_near
  have habs : |t| = t := abs_of_nonneg (by linarith)
  obtain ⟨r, hr, hnear⟩ := @add_near n (by omega) (by omega) t (by rw [habs]; exact ht)
    (by rw [habs]; exact ht')
  obtain ⟨r', hr', hnear'⟩ := @add_near n (by omega) (by omega) (-t)
    (by rw [abs_neg, habs]; exact ht) (by rw [abs_neg, habs]; exact ht')
  have hneg : thousandth.neg = .finite (-t) := by rw [htd]; rfl
  rw [abs_lt] at hnear hnear'
  have hrn : (n : ℚ) < r ∧ r < n + 1 := ⟨by linarith [hnear.1], by linarith [hnear.2]⟩
  have hrn' : (n : ℚ) - 1 < r' ∧ r' < n := ⟨by linarith [hnear'.1], by linarith [hnear'.2]⟩
  rw [saturate, htd, hr, ← htd, hneg, hr']
  by_cases htop : ((high : ℤ) : ℚ) < r
  · rw [if_pos (by simpa [Double.lt] using htop)]
    have : (high : ℚ) < n + 1 := lt_trans htop hrn.2
    have : high < n + 1 := by exact_mod_cast this
    omega
  · rw [if_neg (by simpa [Double.lt] using htop)]
    by_cases hpos : 0 ≤ n
    · rw [if_pos (by simpa [Double.le] using hpos)]
      exact Double.toInt_finite (trunc_eq_of_nonneg hpos hrn.1.le hrn.2) hn hn'
    · rw [if_neg (by simpa [Double.le] using hpos)]
      by_cases hbot : r' < low
      · rw [if_pos (by simpa [Double.lt] using hbot)]
        have : (n : ℚ) - 1 < low := lt_trans hrn'.1 hbot
        have : n - 1 < low := by exact_mod_cast this
        omega
      · rw [if_neg (by simpa [Double.lt] using hbot)]
        exact Double.toInt_finite (trunc_eq_of_neg (by omega) hrn'.1 hrn'.2.le) hn hn'

/-! ## The value of an integer's line -/

theorem cutKeyword_eq {keyword : List UInt8} (h : ∀ c ∈ keyword, c ≠ 91 ∧ c ≠ 44) :
    cutKeyword keyword = (keyword.take 80, none) := by
  have hbracket : (keyword.take 80).findIdx? (· == 91) = none :=
    List.findIdx?_eq_none_iff.mpr fun c hc => by simpa using (h c (List.mem_of_mem_take hc)).1
  have hcomma : (keyword.take 80).findIdx? (· == 44) = none :=
    List.findIdx?_eq_none_iff.mpr fun c hc => by simpa using (h c (List.mem_of_mem_take hc)).2
  rw [cutKeyword]
  simp only [hbracket, hcomma]

/-- A keyword without token: the whole value of the line that `ksearch` finds. -/
theorem hgetc_eq {m : Mem} {keyword : CString} (h : ∀ c ∈ keyword.bytes, c ≠ 91 ∧ c ≠ 44) :
    hgetc m keyword =
      (ksearch m (keyword8 keyword)).map fun vpos => valueText (lineAt m vpos) := by
  have htake : ksearch m (keyword.bytes.take 80) = ksearch m (keyword8 keyword) := by
    rw [ksearch, ksearch, keyword8, List.take_take, List.take_take]
    rfl
  rw [hgetc, cutKeyword_eq h]
  simp only [htake]
  cases ksearch m (keyword8 keyword) with
  | none => rfl
  | some vpos => rfl

theorem strchr_eq_none {line : Mem} {start : ℕ} {c : UInt8}
    (h : ∀ j, start ≤ j → j < 80 → line j ≠ c) : strchr line start c = none :=
  firstFrom_eq_none.mpr fun j hj hjn => by simpa using h j hj (by omega)

theorem skipBlanks_eq {line : Mem} {s : ℕ} (hs : line s ≠ 32) (n v1 : ℕ) (hle : v1 ≤ s)
    (hlt : s < v1 + n) (hblank : ∀ j, v1 ≤ j → j < s → line j = 32) :
    skipBlanks line n v1 = s := by
  induction n generalizing v1 with
  | zero => omega
  | succ n ih =>
    rw [skipBlanks]
    rcases Nat.eq_or_lt_of_le hle with rfl | hlt'
    · rw [if_neg hs]
    · rw [if_pos (hblank v1 le_rfl hlt')]
      exact ih (v1 + 1) hlt' (by omega) fun j hj => hblank j (by omega)

theorem dropTrailing_eq {line : Mem} {v1 e : ℕ} (hv1 : v1 ≤ e)
    (hlast : v1 < e → line e ≠ 32 ∧ line e ≠ 13) (v2 : ℕ) (hle : e + 1 ≤ v2)
    (hblank : ∀ j, e < j → j < v2 → line j = 32) : dropTrailing line v1 v2 = e + 1 := by
  induction v2 with
  | zero => omega
  | succ v2 ih =>
    rw [dropTrailing]
    rcases Nat.eq_or_lt_of_le hle with heq | hlt
    · obtain rfl : e = v2 := by omega
      rw [if_neg]
      rintro ⟨hlt, h | h⟩
      · exact (hlast hlt).1 h
      · exact (hlast hlt).2 h
    · rw [if_pos ⟨by omega, .inl (hblank v2 (by omega) (Nat.lt_succ_self _))⟩]
      exact ih (by omega) fun j hj hjv => hblank j hj (by omega)

theorem intText_ne_negZero (z : ℤ) : intText z ≠ [45, 48] := by
  intro h
  unfold intText at h
  split at h
  · rename_i hneg
    obtain ⟨d, cs, htext, hd, hzero⟩ := natText_head z.natAbs
    have h48 : digitChar d = 48 := by
      rw [htext] at h
      simpa using congrArg (·.getD 1 0) h
    have h0 : d = 0 := by interval_cases d <;> first | rfl | exact absurd h48 (by decide)
    have := (hzero h0).1
    omega
  · have h45 : (45 : UInt8) ∈ natText z.natAbs := by simp [h]
    exact absurd (natText_range h45) (by decide)

theorem intText_ne_nil (z : ℤ) : 1 ≤ (intText z).length := by
  unfold intText
  split
  · simp
  · obtain ⟨d, cs, htext, -, -⟩ := natText_head z.natAbs
    simp [htext]

/-- A mark of neither keyword nor value is not found on the line. -/
theorem strchr_cardByte {line : Mem} {key value : List UInt8} {c : UInt8}
    (hline : ∀ j < 80, line j = cardByte key value j) (hkey : c ∉ key) (hvalue : c ∉ value)
    (h61 : c ≠ 61) (h32 : c ≠ 32) : strchr line 0 c = none := by
  refine strchr_eq_none fun j _ hj => ?_
  rw [hline j hj]
  exact cardByte_ne hkey hvalue h61 h32 j

/-- Characters of keywords that have no meaning of their own in a line. -/
def PlainKey (key : List UInt8) : Prop :=
  ∀ c ∈ key, c ≠ 39 ∧ c ≠ 34 ∧ c ≠ 47 ∧ c ≠ 61

/-- A decimal text has no quote of either kind and no comment mark. -/
theorem intText_plain {z : ℤ} {c : UInt8} (hc : c ∈ intText z) : c ≠ 39 ∧ c ≠ 34 ∧ c ≠ 47 := by
  refine ⟨?_, ?_, ?_⟩ <;> rintro rfl <;> exact absurd (intText_range hc) (by decide)

/-- A text that a line holds without quotes, ending before column 33: no blank, quote or comment
mark in it. -/
structure BareText (text : List UInt8) : Prop where
  nonempty : 1 ≤ text.length
  short : text.length ≤ 24
  noNul : ∀ c ∈ text, c ≠ 0
  tight : ∀ c ∈ text, c ≠ 32 ∧ c ≠ 13
  plain : ∀ c ∈ text, c ≠ 39 ∧ c ≠ 34 ∧ c ≠ 47
  notNegZero : text ≠ [45, 48]

theorem intText_bareText {z : ℤ} (hlow : -2 ^ 63 ≤ z) (hhigh : z < 2 ^ 64) :
    BareText (intText z) where
  nonempty := intText_ne_nil z
  short := (intText_length hlow hhigh).trans (by norm_num)
  noNul := intText_noNul z
  tight := by
    intro c hc
    constructor <;> rintro rfl <;> exact absurd (intText_range hc) (by decide)
  plain := fun _ hc => intText_plain hc
  notNegZero := intText_ne_negZero z

section Bare

variable {line : Mem} {key text : List UInt8}

theorem BareText.head (h : BareText text) : text.head? ≠ some 39 := fun h39 =>
  (h.plain 39 (List.mem_of_head? h39)).1 rfl

theorem BareText.fits (h : BareText text) : ValueFits text where
  noNul := h.noNul
  fits := by
    rw [if_neg h.head]
    exact h.short

theorem BareText.valueEnd (h : BareText text) : valueEnd text = 33 := if_neg fun hq => h.head hq.1

/-- Blanks from column 9 on, the text up to column 33, and blanks up to the value's end:
the value is the text. -/
theorem BareText.valueText (h : BareText text) {v2 : ℕ} (hshort : key.length ≤ 8)
    (hbounds : valueBounds line = (9, v2)) (hv2 : 33 ≤ v2)
    (hline : ∀ j < v2, line j = cardByte key text j) : valueText line = text := by
  have hlen := h.short
  have hlen1 := h.nonempty
  have hstart : valueStart text = 33 - text.length := if_neg h.head
  have htext : ∀ j < text.length, line (33 - text.length + j) = chars text j := by
    intro j hj
    rw [hline _ (by omega), cardByte, if_neg (by omega), if_neg (by omega), hstart,
      if_pos (by omega), Nat.add_sub_cancel_left]
  have hblank : ∀ j, 9 ≤ j → j < v2 → (j < 33 - text.length ∨ 33 ≤ j) → line j = 32 := by
    intro j h9 hj hout
    rw [hline j hj, cardByte, if_neg (by omega), if_neg (by omega), hstart, if_neg (by omega)]
  have hskip : skipBlanks line (v2 - 9) 9 = 33 - text.length := by
    refine skipBlanks_eq ?_ _ _ (by omega) (by omega) fun j hj hjs =>
      hblank j hj (by omega) (.inl hjs)
    have := htext 0 (by omega)
    rw [Nat.add_zero] at this
    rw [this]
    exact (h.tight _ (chars_mem (by omega))).1
  have hdrop : dropTrailing line (33 - text.length) v2 = 33 := by
    have hlast : line 32 = chars text (text.length - 1) := by
      rw [← htext _ (by omega)]
      congr 1
      omega
    have hd := h.tight _ (@chars_mem text (text.length - 1) (by omega))
    refine dropTrailing_eq (by omega) (fun _ => ?_) v2 (by omega) fun j hj hjv =>
      hblank j (by omega) hjv (.inr (by omega))
    rw [hlast]
    exact hd
  have hstring : stringAt (fun j => if 33 ≤ j ∧ j ≤ v2 then 0 else line j)
      (33 - text.length) (100 - (33 - text.length)) = text := by
    refine stringAt_eq h.noNul (by omega) (fun j hj => ?_) ?_
    · rw [if_neg (by omega)]
      exact htext j hj
    · rw [if_pos (by omega)]
  rw [Status.valueText, hbounds]
  simp only [hskip, hdrop, hstring]
  exact if_neg h.notNegZero

/-- The first `=` of a line is the one behind the keyword. -/
theorem strchr_equals {line : Mem} {key value : List UInt8} (hshort : key.length ≤ 8)
    (hplain : PlainKey key) (hvalue : ValueFits value)
    (hline : ∀ j < 9, line j = cardByte key value j) : strchr line 0 61 = some 8 := by
  refine firstFrom_eq_some.mpr ⟨by omega, by omega, ?_, fun j _ hj => ?_⟩
  · rw [hline 8 (by omega), cardByte_sep hshort]
    rfl
  · rw [hline j (by omega)]
    by_cases hjk : j < key.length
    · rw [cardByte_name hjk]
      simpa using (hplain _ (chars_mem hjk)).2.2.2
    · rw [cardByte_pad hvalue (by omega) hj]
      rfl

/-- **A bare text's line** reads back as the text. -/
theorem BareText.valueText_line (h : BareText text) (hshort : key.length ≤ 8)
    (hplain : PlainKey key) (hline : ∀ j < 80, line j = cardByte key text j) :
    Status.valueText line = text := by
  have hequals : strchr line 0 61 = some 8 :=
    strchr_equals hshort hplain h.fits fun j hj => hline j (by omega)
  have hquote : strchr line 0 39 = none := strchr_cardByte hline
    (fun hk => (hplain 39 hk).1 rfl) (fun hv => (h.plain 39 hv).1 rfl) (by decide) (by decide)
  have hdouble : strchr line 0 34 = none := strchr_cardByte hline
    (fun hk => (hplain 34 hk).2.1 rfl) (fun hv => (h.plain 34 hv).2.1 rfl) (by decide) (by decide)
  have hslash : strchr line 0 47 = none := strchr_cardByte hline
    (fun hk => (hplain 47 hk).2.2.1 rfl) (fun hv => (h.plain 47 hv).2.2 rfl) (by decide)
    (by decide)
  have hbounds : valueBounds line = (9, 79) := by
    rw [valueBounds, hquote, hdouble, hslash, hequals]
    rfl
  exact h.valueText hshort hbounds (by omega) fun j hj => hline j (by omega)

/-- **A bare text's line with a comment**, whose mark stands in column 34, reads back as the
text: quotes in the comment do not count. -/
theorem BareText.valueText_commented (h : BareText text) (hshort : key.length ≤ 8)
    (hplain : PlainKey key) (hline : ∀ j < 34, line j = cardByte key text j)
    (hmark : line 34 = 47) : Status.valueText line = text := by
  have hbare : ∀ c : UInt8, c ∉ key → c ∉ text → c ≠ 61 → c ≠ 32 → ∀ j < 34, line j ≠ c := by
    intro c hkey hvalue h61 h32 j hj
    rw [hline j hj]
    exact cardByte_ne hkey hvalue h61 h32 j
  have hequals : strchr line 0 61 = some 8 :=
    strchr_equals hshort hplain h.fits fun j hj => hline j (by omega)
  have hslash : strchr line 0 47 = some 34 := by
    refine firstFrom_eq_some.mpr ⟨by omega, by omega, by simpa using hmark, fun j _ hj => ?_⟩
    simpa using hbare 47 (fun hk => (hplain 47 hk).2.2.1 rfl) (fun hv => (h.plain 47 hv).2.2 rfl)
      (by decide) (by decide) j hj
  -- a quote is found in the comment only
  have hquoted : ∀ c : UInt8, c ∉ key → c ∉ text → c ≠ 61 → c ≠ 32 →
      ∀ q1, strchr line 0 c = some q1 → quotedValue line c q1 (some 34) = none := by
    intro c hkey hvalue h61 h32 q1 hq1
    obtain ⟨-, -, hfound, -⟩ := firstFrom_eq_some.mp hq1
    refine if_neg fun hlt => ?_
    exact hbare c hkey hvalue h61 h32 q1 hlt (by simpa using hfound)
  have hquote := hquoted 39 (fun hk => (hplain 39 hk).1 rfl) (fun hv => (h.plain 39 hv).1 rfl)
    (by decide) (by decide)
  have hdouble := hquoted 34 (fun hk => (hplain 34 hk).2.1 rfl)
    (fun hv => (h.plain 34 hv).2.1 rfl) (by decide) (by decide)
  have hbounds : valueBounds line = (9, 34) := by
    simp only [valueBounds, hslash, hequals]
    cases hq : strchr line 0 39 with
    | some q1 => simp [hquote q1 hq]
    | none =>
      cases hd : strchr line 0 34 with
      | some q1 => simp [hdouble q1 hd]
      | none => rfl
  exact h.valueText hshort hbounds (by omega) hline

/-- The line that a put of the text leaves, with a comment or without. -/
theorem BareText.valueText_put (h : BareText text) {newcom : Mem} {lcom : ℕ}
    (hshort : key.length ≤ 8) (hplain : PlainKey key) (hline : ∀ j < 80, line j =
      commented (cardByte key text) (Status.valueEnd text) newcom lcom j) :
    Status.valueText line = text := by
  rw [h.valueEnd] at hline
  by_cases h0 : lcom = 0
  · refine h.valueText_line hshort hplain fun j hj => ?_
    rw [hline j hj, commented, if_pos (.inl h0)]
  · have hcard : ∀ j < 33, line j = cardByte key text j := fun j hj => by
      rw [hline j (by omega), commented_low hj]
    have hblank : line 33 = cardByte key text 33 := by
      have hstart : valueStart text = 33 - text.length := if_neg h.head
      have hlen := h.short
      rw [hline 33 (by omega), commented, if_neg (by omega), if_neg (by omega), if_neg (by omega),
        cardByte, if_neg (by omega), if_neg (by omega), hstart, if_neg (by omega)]
    refine h.valueText_commented hshort hplain (fun j hj => ?_) ?_
    · rcases Nat.lt_or_eq_of_le (Nat.le_of_lt_succ hj) with hlt | rfl
      · exact hcard j hlt
      · exact hblank
    · rw [hline 34 (by omega), commented, if_neg (by omega), if_pos rfl]

end Bare

/-- **An integer's line** reads back as the integer's text. -/
theorem valueText_intLine {line : Mem} {key : List UInt8} {z : ℤ} (hshort : key.length ≤ 8)
    (hplain : PlainKey key) (hlow : -2 ^ 63 ≤ z) (hhigh : z < 2 ^ 64)
    (hline : ∀ j < 80, line j = cardByte key (intText z) j) : valueText line = intText z :=
  (intText_bareText hlow hhigh).valueText_line hshort hplain hline

/-- **An integer's line with a comment**, whose mark stands in column 34, reads back as the
integer's text. -/
theorem valueText_commented {line : Mem} {key : List UInt8} {z : ℤ} (hshort : key.length ≤ 8)
    (hplain : PlainKey key) (hlow : -2 ^ 63 ≤ z) (hhigh : z < 2 ^ 64)
    (hline : ∀ j < 34, line j = cardByte key (intText z) j) (hmark : line 34 = 47) :
    valueText line = intText z :=
  (intText_bareText hlow hhigh).valueText_commented hshort hplain hline hmark

/-! ## The length of a value -/

theorem skipBlanks_ge (line : Mem) (n v1 : ℕ) : v1 ≤ skipBlanks line n v1 := by
  induction n generalizing v1 with
  | zero => exact le_rfl
  | succ n ih =>
    rw [skipBlanks]
    split
    · exact (Nat.le_succ v1).trans (ih (v1 + 1))
    · exact le_rfl

end Hashpipe.Status
