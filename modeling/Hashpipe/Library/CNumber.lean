import Mathlib.Tactic
import Mathlib.Data.List.DropRight
import Mathlib.Data.Nat.Digits.Lemmas
import Hashpipe.Library.Binary64

/-!
# Numbers as C text

The texts that `printf` makes of an integer and, for `%g`, of a double, and the readers of the
C library: `strtoll` and `strtoull` with base 0, which also return what they did not use, `atof`,
and of `strtod` what it does not use.  Texts are byte lists.

The round trips `strtoll_intText`, `strtoull_natText` and `atof_intText` say that a
decimal text reads back as the integer it was made from, and `strtoll_literal` that any
integer literal is read to its end, as its value clamped to 64 bits.
-/

namespace CNumber

open Binary64

/-- `isspace` in the C locale. -/
def isSpace (c : UInt8) : Bool := c == 32 || (9 ≤ c && c ≤ 13)

def digitValue (c : UInt8) : Option ℕ :=
  if 48 ≤ c ∧ c ≤ 57 then some (c.toNat - 48)
  else if 97 ≤ c ∧ c ≤ 122 then some (c.toNat - 87)
  else if 65 ≤ c ∧ c ≤ 90 then some (c.toNat - 55)
  else none

def digitIn (base : ℕ) (c : UInt8) : Option ℕ := (digitValue c).filter (· < base)

/-- The leading digits, taken onto `acc`, and what follows them. -/
def readDigits (base : ℕ) : ℕ → List UInt8 → ℕ × List UInt8
  | acc, [] => (acc, [])
  | acc, c :: cs =>
    match digitIn base c with
    | some d => readDigits base (acc * base + d) cs
    | none => (acc, c :: cs)

/-- An optional sign; `true` for a minus. -/
def readSign : List UInt8 → Bool × List UInt8
  | [] => (false, [])
  | c :: cs => if c = 45 then (true, cs) else if c = 43 then (false, cs) else (false, c :: cs)

/-- Base 0: hexadecimal after `0x`, octal after `0`, else decimal. -/
def detectBase : List UInt8 → ℕ × List UInt8
  | [] => (10, [])
  | c :: cs =>
    if c = 48 then
      match cs with
      | x :: d :: _ =>
        if (x = 120 ∨ x = 88) ∧ (digitIn 16 d).isSome then (16, cs.tail) else (8, c :: cs)
      | _ => (8, c :: cs)
    else (10, c :: cs)

/-- Sign, magnitude and rest; the whole text is the rest when there is no digit. -/
def readInteger (s : List UInt8) : Bool × ℕ × List UInt8 :=
  let signed := readSign (s.dropWhile isSpace)
  let based := detectBase signed.2
  let number := readDigits based.1 0 based.2
  if number.2.length = based.2.length then (false, 0, s) else (signed.1, number.1, number.2)

/-- `atoi(s)` as `(int) strtol(s, NULL, 10)`: clamped to 64 bits, of which the lower 32 are left. -/
def atoi (s : List UInt8) : Int32 :=
  let signed := readSign (s.dropWhile isSpace)
  let n := ((readDigits 10 0 signed.2).1 : ℤ)
  Int32.ofInt (if signed.1 then max (-n) (-2 ^ 63) else min n (2 ^ 63 - 1))

/-- `strtoll(s, &rest, 0)`, clamped to 64 bits. -/
def strtoll (s : List UInt8) : ℤ × List UInt8 :=
  let r := readInteger s
  (if r.1 then max (-(r.2.1 : ℤ)) (-2 ^ 63) else min (r.2.1 : ℤ) (2 ^ 63 - 1), r.2.2)

/-- `strtoull(s, &rest, 0)`: a minus negates modulo `2 ^ 64`. -/
def strtoull (s : List UInt8) : ℕ × List UInt8 :=
  let r := readInteger s
  (if 2 ^ 64 ≤ r.2.1 then 2 ^ 64 - 1 else if r.1 then (2 ^ 64 - r.2.1) % 2 ^ 64 else r.2.1, r.2.2)

/-- The exponent after its mark, 0 when it has no digit. -/
def readExponent (mark : UInt8) : List UInt8 → ℤ
  | [] => 0
  | c :: cs =>
    if c = mark ∨ c = mark - 32 then
      let signed := readSign cs
      let n := ((readDigits 10 0 signed.2).1 : ℤ)
      if signed.1 then -n else n
    else 0

/-- Digits with an optional point and exponent: `radix` is the base of the exponent and
`places` the powers of it that a digit stands for. -/
def readScaled (base radix places : ℕ) (mark : UInt8) (s : List UInt8) : ℚ :=
  let whole := readDigits base 0 s
  match whole.2 with
  | c :: cs =>
    if c = 46 then
      let part := readDigits base whole.1 cs
      let digits := cs.length - part.2.length
      if whole.2.length = s.length ∧ digits = 0 then 0
      else part.1 * (radix : ℚ) ^ (readExponent mark part.2 - (places * digits : ℕ))
    else whole.1 * (radix : ℚ) ^ readExponent mark (c :: cs)
  | [] => whole.1

def lower (c : UInt8) : UInt8 := if 65 ≤ c ∧ c ≤ 90 then c + 32 else c

/-- `0x` with a hexadecimal digit, possibly behind a point. -/
def isHexFloat : List UInt8 → Bool
  | z :: x :: d :: cs =>
    z == 48 && lower x == 120 &&
      ((digitIn 16 d).isSome || (d == 46 && (digitIn 16 (cs.headD 0)).isSome))
  | _ => false

/-- `atof(s)`, a text that is no number being 0. -/
def atof (s : List UInt8) : Double :=
  let signed := readSign (s.dropWhile isSpace)
  let t := signed.2
  let word := (t.take 3).map lower
  let magnitude : Double :=
    if word = [105, 110, 102] then .infinite false
    else if word = [110, 97, 110] then .nan
    else if isHexFloat t then .ofRat (readScaled 16 2 4 112 (t.drop 2))
    else .ofRat (readScaled 10 10 1 101 t)
  if signed.1 then magnitude.neg else magnitude

/-- What follows an exponent: a mark without digits behind it is none. -/
def exponentRest (mark : UInt8) : List UInt8 → List UInt8
  | [] => []
  | c :: cs =>
    if c = mark ∨ c = mark - 32 then
      let signed := readSign cs
      let n := readDigits 10 0 signed.2
      if n.2.length = signed.2.length then c :: cs else n.2
    else c :: cs

/-- What follows digits with an optional point and exponent, if there is a digit. -/
def scaledRest (base : ℕ) (mark : UInt8) (s : List UInt8) : Option (List UInt8) :=
  let whole := readDigits base 0 s
  let noWhole := whole.2.length = s.length
  match whole.2 with
  | c :: cs =>
    if c = 46 then
      let part := readDigits base 0 cs
      if noWhole ∧ part.2.length = cs.length then none else some (exponentRest mark part.2)
    else if noWhole then none else some (exponentRest mark (c :: cs))
  | [] => if noWhole then none else some []

/-- A character of the sequence that may follow `nan` in parentheses. -/
def isNanChar (c : UInt8) : Bool := (digitValue c).isSome || c == 95

def nanRest : List UInt8 → List UInt8
  | [] => []
  | c :: cs =>
    match cs.dropWhile isNanChar with
    | d :: rest => if c = 40 ∧ d = 41 then rest else c :: cs
    | [] => c :: cs

/-- What `strtod(s, &rest)` does not use. -/
def strtodRest (s : List UInt8) : List UInt8 :=
  let t := (readSign (s.dropWhile isSpace)).2
  if (t.take 8).map lower = [105, 110, 102, 105, 110, 105, 116, 121] then t.drop 8
  else if (t.take 3).map lower = [105, 110, 102] then t.drop 3
  else if (t.take 3).map lower = [110, 97, 110] then nanRest (t.drop 3)
  else if isHexFloat t then (scaledRest 16 112 (t.drop 2)).getD s
  else (scaledRest 10 101 t).getD s

/-- `"1.5e+"` is used up to its mark, `"0x.8p3"` and `"nan(1)"` are used up. -/
example : strtodRest [49, 46, 53, 101, 43] = [101, 43] ∧
    strtodRest [48, 120, 46, 56, 112, 51] = [] ∧ strtodRest [110, 97, 110, 40, 49, 41] = [] := by
  decide

def digitChar (d : ℕ) : UInt8 := UInt8.ofNat (48 + d)

/-- `%u` and the like. -/
def natText (n : ℕ) : List UInt8 :=
  if n = 0 then [48] else (Nat.digits 10 n).reverse.map digitChar

/-- `%d` and the like. -/
def intText (z : ℤ) : List UInt8 := if z < 0 then 45 :: natText z.natAbs else natText z.natAbs

/-- A double with the sign that a zero and a NaN have too. -/
structure SignedDouble where
  negative : Bool
  value : Double
deriving DecidableEq

/-- `atof(s)` with its sign; a text that is no number is the positive zero. -/
def atofSigned (s : List UInt8) : SignedDouble :=
  ⟨(readSign (s.dropWhile isSpace)).1 && strtodRest s != s, atof s⟩

/-- The number that the first `p` digits of a positive `q` make, rounded, and the power of ten
that the first of them counts. -/
def significand (p : ℕ) (q : ℚ) : ℕ × ℤ :=
  let x := Int.log 10 q
  let n := (nearestEven (q * 10 ^ ((p : ℤ) - 1 - x))).toNat
  if n = 10 ^ p then (10 ^ (p - 1), x + 1) else (n, x)

/-- The point and the digits behind it, without zeros at the end. -/
def fractionText (digits : List UInt8) : List UInt8 :=
  let digits := digits.rdropWhile (· == 48)
  if digits = [] then [] else 46 :: digits

/-- The sign of an exponent and at least two digits. -/
def exponentText (x : ℤ) : List UInt8 :=
  let digits := natText x.natAbs
  (if x < 0 then 45 else 43) :: (if digits.length < 2 then 48 :: digits else digits)

/-- `%.{p}g` of `q`, not negative: with an exponent if that is below -4 or from `p` on. -/
def generalText (p : ℕ) (q : ℚ) : List UInt8 :=
  if q = 0 then [48]
  else
    let (n, x) := significand p q
    let digits := natText n
    if x < -4 ∨ p ≤ x then digits.take 1 ++ fractionText (digits.drop 1) ++ 101 :: exponentText x
    else if 0 ≤ x then digits.take (x.toNat + 1) ++ fractionText (digits.drop (x.toNat + 1))
    else 48 :: fractionText (List.replicate (-x - 1).toNat 48 ++ digits)

/-- `%.{p}g`. -/
def printGeneral (p : ℕ) (d : SignedDouble) : List UInt8 :=
  (if d.negative then [45] else []) ++
    match d.value with
    | .finite q => generalText p |q|
    | .infinite _ => [105, 110, 102]
    | .nan => [110, 97, 110]

/-- `"-1.50"` and `"1e-7"` are printed as `-1.5` and `1e-07`. -/
example : printGeneral 6 (atofSigned [45, 49, 46, 53, 48]) = [45, 49, 46, 53] ∧
    printGeneral 6 (atofSigned [49, 101, 45, 55]) = [49, 101, 45, 48, 55] := by
  decide +kernel

section Digits

theorem digitIn_digitChar {d : ℕ} (hd : d < 10) : digitIn 10 (digitChar d) = some d := by
  interval_cases d <;> rfl

/-- Reading digits undoes writing them, most significant first. -/
theorem readDigits_map {l : List ℕ} (hl : ∀ d ∈ l, d < 10) (acc : ℕ) :
    readDigits 10 acc (l.map digitChar) = (l.foldl (fun a d => a * 10 + d) acc, []) := by
  induction l generalizing acc with
  | nil => rfl
  | cons d ds ih =>
    rw [List.map_cons, readDigits, digitIn_digitChar (hl d (by simp))]
    exact ih (fun x hx => hl x (by simp [hx])) _

theorem readDigits_natText (n : ℕ) : readDigits 10 0 (natText n) = (n, []) := by
  unfold natText
  split
  · subst n
    rfl
  · have hlt : ∀ d ∈ (Nat.digits 10 n).reverse, d < 10 := fun d hd =>
      Nat.digits_lt_base (by norm_num) (List.mem_reverse.mp hd)
    have hvalue : (Nat.digits 10 n).reverse.foldl (fun a d => a * 10 + d) 0 = n := by
      rw [List.foldl_reverse]
      have := Nat.ofDigits_digits 10 n
      rw [Nat.ofDigits_eq_foldr] at this
      simpa [mul_comm, add_comm] using this
    rw [readDigits_map hlt, hvalue]

/-- Every character of a decimal text is a digit. -/
theorem natText_digit {n : ℕ} {c : UInt8} (hc : c ∈ natText n) : ∃ d < 10, c = digitChar d := by
  unfold natText at hc
  split at hc
  · exact ⟨0, by norm_num, List.mem_singleton.mp hc⟩
  · obtain ⟨d, hd, rfl⟩ := List.mem_map.mp hc
    exact ⟨d, Nat.digits_lt_base (by norm_num) (List.mem_reverse.mp hd), rfl⟩

theorem natText_range {n : ℕ} {c : UInt8} (hc : c ∈ natText n) : 48 ≤ c ∧ c ≤ 57 := by
  obtain ⟨d, hd, rfl⟩ := natText_digit hc
  interval_cases d <;> decide

/-- A decimal text has digits and a minus. -/
theorem intText_range {z : ℤ} {c : UInt8} (hc : c ∈ intText z) : c = 45 ∨ (48 ≤ c ∧ c ≤ 57) := by
  unfold intText at hc
  split at hc
  · rcases List.mem_cons.mp hc with hminus | hc
    · exact .inl hminus
    · exact .inr (natText_range hc)
  · exact .inr (natText_range hc)

theorem natText_length_le {n k : ℕ} (hk : 1 ≤ k) (hn : n < 10 ^ k) : (natText n).length ≤ k := by
  unfold natText
  split
  · exact hk
  · rw [List.length_map, List.length_reverse]
    exact (Nat.digits_length_le_iff (by norm_num) n).mpr hn

/-- A decimal text starts with a digit, which is 0 for zero only. -/
theorem natText_head (n : ℕ) :
    ∃ d cs, natText n = digitChar d :: cs ∧ d < 10 ∧ (d = 0 → n = 0 ∧ cs = []) := by
  by_cases hn : n = 0
  · exact ⟨0, [], by rw [natText, if_pos hn]; rfl, by norm_num, fun _ => ⟨hn, rfl⟩⟩
  · have hne : Nat.digits 10 n ≠ [] := Nat.digits_ne_nil_iff_ne_zero.mpr hn
    have hlast : (Nat.digits 10 n).getLast hne ≠ 0 := Nat.getLast_digit_ne_zero 10 hn
    have hmem := List.getLast_mem hne
    have hsplit := List.dropLast_append_getLast hne
    refine ⟨(Nat.digits 10 n).getLast hne, (Nat.digits 10 n).dropLast.reverse.map digitChar,
      ?_, Nat.digits_lt_base (by norm_num) hmem, fun h => absurd h hlast⟩
    rw [natText, if_neg hn]
    conv_lhs => rw [← hsplit]
    simp

end Digits

section RoundTrip

/-- A digit is neither a blank nor a sign. -/
theorem readSign_digit {d : ℕ} (hd : d < 10) (cs : List UInt8) :
    readSign ((digitChar d :: cs).dropWhile isSpace) = (false, digitChar d :: cs) := by
  interval_cases d <;> rfl

theorem readSign_natText (n : ℕ) :
    readSign ((natText n).dropWhile isSpace) = (false, natText n) := by
  obtain ⟨d, cs, htext, hd, -⟩ := natText_head n
  rw [htext]
  exact readSign_digit hd cs

theorem readSign_minus (n : ℕ) :
    readSign ((45 :: natText n).dropWhile isSpace) = (true, natText n) := rfl

/-- Base detection leaves a decimal text readable: a leading 0 is all of it. -/
theorem readDigits_detectBase_natText (n : ℕ) :
    detectBase (natText n) = (if n = 0 then 8 else 10, natText n) := by
  obtain ⟨d, cs, htext, hd, hzero⟩ := natText_head n
  by_cases hn : n = 0
  · subst hn
    rfl
  · have hd0 : digitChar d ≠ 48 := by
      have : d ≠ 0 := fun h => hn (hzero h).1
      interval_cases d <;> first | contradiction | decide
    rw [htext, if_neg hn]
    simp only [detectBase, if_neg hd0]

theorem readInteger_of_sign {s : List UInt8} {negative : Bool} {n : ℕ}
    (hsign : readSign (s.dropWhile isSpace) = (negative, natText n)) :
    readInteger s = (negative, n, []) := by
  have hread : readDigits (if n = 0 then 8 else 10) 0 (natText n) = (n, []) := by
    by_cases hn : n = 0
    · subst hn
      rfl
    · rw [if_neg hn]
      exact readDigits_natText n
  obtain ⟨d, cs, htext, -, -⟩ := natText_head n
  have hlen : ¬ ([] : List UInt8).length = (natText n).length := by simp [htext]
  simp only [readInteger, hsign, readDigits_detectBase_natText, hread, if_neg hlen]

/-- `strtoll` reads back the text of a 64-bit integer, to its end. -/
theorem strtoll_intText {z : ℤ} (hlow : -2 ^ 63 ≤ z) (hhigh : z < 2 ^ 63) :
    strtoll (intText z) = (z, []) := by
  unfold intText
  split
  · have hz : -((z.natAbs : ℕ) : ℤ) = z := by omega
    simp only [strtoll, readInteger_of_sign (readSign_minus _), if_true, hz, max_eq_left hlow]
  · have hz : ((z.natAbs : ℕ) : ℤ) = z := by omega
    simp only [strtoll, readInteger_of_sign (readSign_natText _), Bool.false_eq_true, if_false, hz]
    rw [min_eq_left (by omega)]

theorem strtoull_natText {n : ℕ} (hn : n < 2 ^ 64) : strtoull (natText n) = (n, []) := by
  simp only [strtoull, readInteger_of_sign (readSign_natText _), Bool.false_eq_true, if_false]
  rw [if_neg (by omega)]

theorem readScaled_natText (n : ℕ) : readScaled 10 10 1 101 (natText n) = n := by
  simp only [readScaled, readDigits_natText]

/-- Decimal digits spell neither a word nor a hexadecimal number. -/
theorem atof_words (n : ℕ) :
    ((natText n).take 3).map lower ≠ [105, 110, 102] ∧
      ((natText n).take 3).map lower ≠ [110, 97, 110] ∧ isHexFloat (natText n) = false := by
  obtain ⟨d, cs, htext, hd, hzero⟩ := natText_head n
  rw [htext]
  by_cases h0 : d = 0
  · rw [(hzero h0).2, h0]
    decide
  · have hhead : lower (digitChar d) ≠ 105 ∧ lower (digitChar d) ≠ 110 ∧
        (digitChar d == 48) = false := by
      interval_cases d <;> first | contradiction | decide
    refine ⟨fun h => hhead.1 (by simpa using congrArg (·.headD 0) h),
      fun h => hhead.2.1 (by simpa using congrArg (·.headD 0) h), ?_⟩
    rcases cs with - | ⟨x, - | ⟨y, rest⟩⟩
    · rfl
    · rfl
    · rw [isHexFloat, hhead.2.2]
      rfl

theorem atof_of_sign {s : List UInt8} {negative : Bool} {n : ℕ} (hn : n < 2 ^ 53)
    (hsign : readSign (s.dropWhile isSpace) = (negative, natText n)) :
    atof s = .finite (if negative then -(n : ℚ) else n) := by
  obtain ⟨hinf, hnan, hhex⟩ := atof_words n
  have hround : Double.ofRat (n : ℚ) = .finite n := by
    have habs : |(n : ℤ)| < 2 ^ 53 := by
      rw [abs_of_nonneg (by positivity)]
      exact_mod_cast hn
    exact_mod_cast Double.ofRat_intCast habs
  simp only [atof, hsign, if_neg hinf, if_neg hnan, hhex, Bool.false_eq_true, if_false,
    readScaled_natText, hround]
  cases negative with
  | true => rfl
  | false => rfl

/-- `atof` reads an integer of less than 53 bits exactly. -/
theorem atof_intText {z : ℤ} (hz : |z| < 2 ^ 53) : atof (intText z) = .finite z := by
  have hlt : z.natAbs < 2 ^ 53 := by
    rw [← Int.natCast_natAbs] at hz
    exact_mod_cast hz
  unfold intText
  split
  · rw [atof_of_sign hlt (readSign_minus _), if_pos rfl]
    have hneg : -((z.natAbs : ℕ) : ℤ) = z := by omega
    rw [← Int.cast_natCast (R := ℚ), ← Int.cast_neg, hneg]
  · rw [atof_of_sign hlt (readSign_natText _), if_neg (by simp)]
    have hpos : ((z.natAbs : ℕ) : ℤ) = z := by omega
    rw [← Int.cast_natCast (R := ℚ), hpos]

end RoundTrip

section Literals

/-- The number that digits stand for, taken onto `acc`. -/
def digitsValue (base acc : ℕ) (ds : List UInt8) : ℕ :=
  ds.foldl (fun a c => a * base + (digitIn base c).getD 0) acc

/-- All characters are digits of the base. -/
def Digits (base : ℕ) (ds : List UInt8) : Prop := ∀ c ∈ ds, (digitIn base c).isSome = true

/-- An unsigned integer literal: decimal, octal or hexadecimal. -/
inductive Magnitude : List UInt8 → ℕ → Prop
  | decimal {d : UInt8} {ds : List UInt8} : d ≠ 48 → Digits 10 (d :: ds) →
      Magnitude (d :: ds) (digitsValue 10 0 (d :: ds))
  | octal {ds : List UInt8} : Digits 8 ds → Magnitude (48 :: ds) (digitsValue 8 0 ds)
  | hexadecimal {x d : UInt8} {ds : List UInt8} : x = 120 ∨ x = 88 → Digits 16 (d :: ds) →
      Magnitude (48 :: x :: d :: ds) (digitsValue 16 0 (d :: ds))

/-- An integer literal and the integer it denotes. -/
inductive Literal : List UInt8 → ℤ → Prop
  | bare {s : List UInt8} {n : ℕ} : Magnitude s n → Literal s n
  | plus {s : List UInt8} {n : ℕ} : Magnitude s n → Literal (43 :: s) n
  | minus {s : List UInt8} {n : ℕ} : Magnitude s n → Literal (45 :: s) (-n)

theorem readDigits_all {base acc : ℕ} {ds : List UInt8} (h : Digits base ds) :
    readDigits base acc ds = (digitsValue base acc ds, []) := by
  induction ds generalizing acc with
  | nil => rfl
  | cons c cs ih =>
    obtain ⟨d, hd⟩ := Option.isSome_iff_exists.mp (h c List.mem_cons_self)
    rw [readDigits, hd]
    show readDigits base (acc * base + d) cs = _
    rw [ih fun x hx => h x (List.mem_cons_of_mem c hx), digitsValue, digitsValue, List.foldl_cons,
      hd]
    rfl

/-- A digit of base 10 or less is one of the ten. -/
theorem digitIn_range {base : ℕ} {c : UInt8} (hbase : base ≤ 10) (h : (digitIn base c).isSome = true) :
    48 ≤ c ∧ c ≤ 57 := by
  obtain ⟨d, hd⟩ := Option.isSome_iff_exists.mp h
  obtain ⟨hvalue, hlt⟩ := Option.filter_eq_some_iff.mp hd
  have hlt : d < base := by simpa using hlt
  unfold digitValue at hvalue
  split at hvalue
  · exact ‹48 ≤ c ∧ c ≤ 57›
  · split at hvalue
    · rename_i hletter
      have hge : 97 ≤ c.toNat := UInt8.le_iff_toNat_le.mp hletter.1
      obtain rfl := Option.some.inj hvalue
      omega
    · split at hvalue
      · rename_i hletter
        have hge : 65 ≤ c.toNat := UInt8.le_iff_toNat_le.mp hletter.1
        obtain rfl := Option.some.inj hvalue
        omega
      · cases hvalue

/-- A literal starts with a digit: it has no blank and no sign to skip. -/
theorem Magnitude.readSign {s : List UInt8} {n : ℕ} (h : Magnitude s n) :
    CNumber.readSign (s.dropWhile isSpace) = (false, s) := by
  have hdigit : ∀ c : UInt8, ∀ cs, 48 ≤ c ∧ c ≤ 57 →
      CNumber.readSign ((c :: cs).dropWhile isSpace) = (false, c :: cs) := by
    intro c cs hc
    have hspace : isSpace c = false := by
      simp only [isSpace, Bool.or_eq_false_iff, beq_eq_false_iff_ne, Bool.and_eq_false_iff,
        decide_eq_false_iff_not]
      refine ⟨?_, .inr fun hle => ?_⟩
      · rintro rfl
        exact absurd hc.1 (by decide)
      · exact absurd (UInt8.le_trans hc.1 hle) (by decide)
    rw [List.dropWhile_cons_of_neg (by simp [hspace]), CNumber.readSign, if_neg, if_neg]
    · rintro rfl
      exact absurd hc.1 (by decide)
    · rintro rfl
      exact absurd hc.1 (by decide)
  cases h with
  | decimal _ hds => exact hdigit _ _ (digitIn_range le_rfl (hds _ List.mem_cons_self))
  | octal _ => exact hdigit _ _ (by decide)
  | hexadecimal _ _ => exact hdigit _ _ (by decide)

/-- The base is detected, and the digits behind it are all read. -/
theorem Magnitude.detectBase {s : List UInt8} {n : ℕ} (h : Magnitude s n) :
    ∃ base ds, CNumber.detectBase s = (base, ds) ∧ readDigits base 0 ds = (n, []) ∧ ds ≠ [] := by
  cases h with
  | @decimal d ds hd hds =>
    refine ⟨10, d :: ds, ?_, readDigits_all hds, List.cons_ne_nil d ds⟩
    simp only [CNumber.detectBase, if_neg hd]
  | @octal ds hds =>
    have hbase : CNumber.detectBase (48 :: ds) = (8, 48 :: ds) := by
      rcases ds with - | ⟨x, - | ⟨d, rest⟩⟩
      · rfl
      · rfl
      · have hx := digitIn_range (by norm_num) (hds x List.mem_cons_self)
        simp only [CNumber.detectBase, if_true]
        refine if_neg fun hmark => ?_
        rcases hmark.1 with rfl | rfl
        · exact absurd hx.2 (by decide)
        · exact absurd hx.2 (by decide)
    have hzero : Digits 8 (48 :: ds) := by
      intro c hc
      rcases List.mem_cons.mp hc with rfl | hc
      · rfl
      · exact hds c hc
    exact ⟨8, 48 :: ds, hbase, readDigits_all hzero, List.cons_ne_nil 48 ds⟩
  | @hexadecimal x d ds hx hds =>
    refine ⟨16, d :: ds, ?_, readDigits_all hds, List.cons_ne_nil d ds⟩
    simp only [CNumber.detectBase, if_true]
    exact if_pos ⟨hx, hds d List.mem_cons_self⟩

theorem Magnitude.readInteger {s t : List UInt8} {n : ℕ} {negative : Bool} (h : Magnitude s n)
    (hsign : CNumber.readSign (t.dropWhile isSpace) = (negative, s)) :
    CNumber.readInteger t = (negative, n, []) := by
  obtain ⟨base, ds, hbase, hread, hne⟩ := h.detectBase
  have hlen : ¬ ([] : List UInt8).length = ds.length := fun heq =>
    hne (List.length_eq_zero_iff.mp heq.symm)
  simp only [CNumber.readInteger, hsign, hbase, hread, if_neg hlen]

/-- **A literal is read to its end**, as its value clamped to 64 bits. -/
theorem strtoll_literal {s : List UInt8} {z : ℤ} (h : Literal s z) :
    strtoll s = (max (-2 ^ 63) (min z (2 ^ 63 - 1)), []) := by
  cases h with
  | bare h =>
    simp only [strtoll, h.readInteger h.readSign, Bool.false_eq_true, if_false]
    rw [max_eq_right (by omega)]
  | @plus s n h =>
    have hread : CNumber.readInteger (43 :: s) = (false, n, []) := h.readInteger rfl
    simp only [strtoll, hread, Bool.false_eq_true, if_false]
    rw [max_eq_right (by omega)]
  | @minus s n h =>
    have hread : CNumber.readInteger (45 :: s) = (true, n, []) := h.readInteger rfl
    simp only [strtoll, hread, if_true]
    rw [min_eq_left (by omega), max_comm]

end Literals

end CNumber
