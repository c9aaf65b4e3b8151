import Mathlib.Tactic
import Hashpipe.Library.DoubleText
import Hashpipe.Status.CheckStatus

/-!
# Doubles read back

`hputr8` prints 17 digits, "so that conversion back from text will produce the exact same double
precision value", and drops the sign in front of a text without a digit that is not 0.  That is
meant for `-0`, but `-inf` and `-nan` have no digit either.

`hputr8_hgetr8_iff` says which doubles `hgetr8` gives back: all but the negative zero, the
negative infinity and the negative NaN.
-/

namespace Hashpipe.Status

open ByteMemory CNumber Binary64

/-- What is left of a double when the sign of a zero, an infinity and a NaN is dropped. -/
def stored (d : SignedDouble) : SignedDouble :=
  match d.value with
  | .finite q => if q = 0 then ⟨false, .finite 0⟩ else d
  | .infinite _ => ⟨false, .infinite false⟩
  | .nan => ⟨false, .nan⟩

theorem stored_valid {d : SignedDouble} (hd : d.Valid) : (stored d).Valid := by
  obtain ⟨negative, value⟩ := d
  cases value with
  | finite q =>
    unfold stored
    dsimp only
    split
    · exact ⟨by exact_mod_cast isDouble_intCast (n := 0) (by norm_num), fun h => absurd h (lt_irrefl 0),
        fun _ => rfl⟩
    · exact hd
  | infinite b => rfl
  | nan => trivial

/-- A double that is not negative, or has a digit that is not 0. -/
def KeepsSign (d : SignedDouble) : Prop :=
  d.negative = true → ∃ q, d.value = .finite q ∧ q ≠ 0

/-- The dropped signs are the difference. -/
theorem stored_eq_iff {d : SignedDouble} (hd : d.Valid) : stored d = d ↔ KeepsSign d := by
  obtain ⟨negative, value⟩ := d
  cases value with
  | finite q =>
    unfold stored KeepsSign
    dsimp only
    by_cases h0 : q = 0
    · subst h0
      rw [if_pos rfl]
      cases negative with
      | true => simp
      | false => simp
    · rw [if_neg h0]
      exact iff_of_true rfl fun _ => ⟨q, rfl, h0⟩
  | infinite b =>
    obtain rfl : b = negative := hd
    cases b with
    | true => simp [stored, KeepsSign]
    | false => simp [stored, KeepsSign]
  | nan =>
    cases negative with
    | true => simp [stored, KeepsSign]
    | false => simp [stored, KeepsSign]

theorem keepsSign_stored {d : SignedDouble} (hd : d.Valid) : KeepsSign (stored d) := by
  refine (stored_eq_iff (stored_valid hd)).mp ?_
  obtain ⟨negative, value⟩ := d
  cases value with
  | finite q =>
    by_cases h0 : q = 0
    · have hzero : stored ⟨negative, .finite q⟩ = ⟨false, .finite 0⟩ := if_pos h0
      rw [hzero]
      rfl
    · have hsame : stored ⟨negative, .finite q⟩ = ⟨negative, .finite q⟩ := if_neg h0
      rw [hsame, hsame]
  | infinite b => rfl
  | nan => rfl

theorem allZeros_of_digit {pre post : List UInt8} {c : UInt8} (hc : 49 ≤ c ∧ c ≤ 57)
    (hpre : ∀ x ∈ pre, x = 46 ∨ (48 ≤ x ∧ x ≤ 57)) : allZeros (pre ++ c :: post) = false := by
  induction pre with
  | nil =>
    show allZeros (c :: post) = false
    rw [allZeros, if_pos ⟨UInt8.lt_of_lt_of_le (by decide) hc.1, hc.2⟩]
  | cons x xs ih =>
    show allZeros (x :: (xs ++ c :: post)) = false
    rw [allZeros]
    by_cases hx : 48 < x ∧ x ≤ 57
    · rw [if_pos hx]
    · have hmark : ¬ (x = 100 ∨ x = 101 ∨ x = 32) := by
        rintro (rfl | rfl | rfl) <;> exact absurd (hpre _ List.mem_cons_self) (by decide)
      rw [if_neg hx, if_neg hmark]
      exact ih fun y hy => hpre y (List.mem_cons_of_mem x hy)

/-- **What `fixnegzero` leaves** of a double's text: the text of what is left of the double. -/
theorem fixnegzero_printGeneral {d : SignedDouble} (hd : d.Valid) :
    fixnegzero (printGeneral 17 d) = printGeneral 17 (stored d) := by
  obtain ⟨negative, value⟩ := d
  cases value with
  | finite q =>
    have htext := numberText_general hd.1.abs (abs_nonneg q)
    obtain ⟨c, cs, hhead, hc⟩ := htext.head
    have hminus : c ≠ 45 := by
      rintro rfl
      exact absurd hc.1 (by decide)
    by_cases h0 : q = 0
    · subst h0
      have hzero : generalText 17 |0| = [48] := rfl
      cases negative with
      | true => rfl
      | false => rfl
    · have hstored : stored ⟨negative, .finite q⟩ = ⟨negative, .finite q⟩ := if_neg h0
      obtain ⟨pre, c', post, hsplit, hc', hpre⟩ := htext.digit (abs_ne_zero.mpr h0)
      rw [hstored]
      cases negative with
      | true =>
        show fixnegzero (45 :: generalText 17 |q|) = 45 :: generalText 17 |q|
        rw [fixnegzero, hsplit, allZeros_of_digit hc' hpre]
        rfl
      | false =>
        show fixnegzero (generalText 17 |q|) = generalText 17 |q|
        rw [hhead, fixnegzero, if_neg fun h => hminus h.1]
  | infinite b =>
    cases negative with
    | true => rfl
    | false => rfl
  | nan =>
    cases negative with
    | true => rfl
    | false => rfl

theorem generalChar_plain {c : UInt8} (h : GeneralChar c) :
    c ≠ 0 ∧ (c ≠ 32 ∧ c ≠ 13) ∧ (c ≠ 39 ∧ c ≠ 34 ∧ c ≠ 47) ∧ (c ≠ 68 ∧ c ≠ 100 ∧ c ≠ 69) ∧ c ≠ 35 := by
  refine ⟨?_, ⟨?_, ?_⟩, ⟨?_, ?_, ?_⟩, ⟨?_, ?_, ?_⟩, ?_⟩ <;> rintro rfl <;> revert h <;> decide

/-- The text that `hputr8` prints of a double. -/
def printDouble (d : SignedDouble) (hd : d.Valid) : DoubleText where
  text := ⟨printGeneral 17 d, fun c hc => (generalChar_plain (printGeneral_char hd c hc)).1⟩
  short := printGeneral_length_le hd
  unquoted := fun h => (generalChar_plain (printGeneral_char hd 39 h)).2.2.1.1 rfl

/-- What is left of it is a value that a line can hold. -/
theorem bareText_stored {d : SignedDouble} (hd : d.Valid) :
    BareText (printGeneral 17 (stored d)) where
  nonempty := by
    refine List.length_pos_iff.mpr fun hnil => ?_
    have hround := atofSigned_printGeneral (stored_valid hd)
    rw [hnil] at hround
    have hzero : stored d = ⟨false, .finite 0⟩ := by
      rw [← hround]
      decide +kernel
    rw [hzero] at hnil
    cases hnil
  short := printGeneral_length_le (stored_valid hd)
  noNul := fun c hc => (generalChar_plain (printGeneral_char (stored_valid hd) c hc)).1
  tight := fun c hc => (generalChar_plain (printGeneral_char (stored_valid hd) c hc)).2.1
  plain := fun c hc => (generalChar_plain (printGeneral_char (stored_valid hd) c hc)).2.2.1
  notNegZero := by
    intro htext
    have hround := atofSigned_printGeneral (stored_valid hd)
    rw [htext] at hround
    have hzero : stored d = ⟨true, .finite 0⟩ := by
      rw [← hround]
      decide +kernel
    have hkeeps := keepsSign_stored hd
    rw [hzero] at hkeeps
    obtain ⟨q, hq, hne⟩ := hkeeps rfl
    exact hne (Double.finite.inj hq).symm

/-- `hgetr8` hands the text to `atof` as it is. -/
theorem doubleText_printGeneral {d : SignedDouble} (hd : d.Valid) :
    doubleText (stripHash (printGeneral 17 d)) = printGeneral 17 d := by
  have hchar := printGeneral_char hd
  have hlen := printGeneral_length_le hd
  have hhash : stripHash (printGeneral 17 d) = printGeneral 17 d := by
    refine if_neg fun h35 => ?_
    exact (generalChar_plain (hchar 35 (List.mem_of_head? h35))).2.2.2.2 rfl
  have htake : (printGeneral 17 d).take 81 = printGeneral 17 d :=
    List.take_of_length_le (by omega)
  have hmarks : ∀ c : UInt8, ¬ GeneralChar c → replaceFirst c 101 (printGeneral 17 d) =
      printGeneral 17 d := fun c hc => replaceFirst_of_notMem fun hmem => hc (hchar c hmem)
  rw [hhash, doubleText]
  simp only [htake, hmarks 68 (by decide), hmarks 100 (by decide), hmarks 69 (by decide), ite_self]

section RoundTrip

variable {m : Mem} {n : ℕ} {k : ToolKey} {d : SignedDouble}

/-- A put of the double is read back with `hgetr8`, where the getter's copy of the key has an end,
and the records under other keys stay. -/
def DoubleRoundTrip (m : Mem) (n : ℕ) (k : ToolKey) (d : SignedDouble) (hd : d.Valid) : Prop :=
  KeywordCopied k.text ∧ ∃ m', hputr8 m k.text (printDouble d hd) = .ok (0, m') ∧
    (∀ dval, hgetr8 m' k.text dval = (1, d)) ∧
    ∀ r < n, ¬ SameKey k.key (recordKey m (80 * r)) →
      ∀ j < 80, m' (80 * r + j) = m (80 * r + j)

/-- **A put of a double**: it is read back without the sign that `fixnegzero` drops, or the
comment of the old record does not fit. -/
theorem WellFormed.hputr8_done (h : WellFormed m n) (hroom : 80 * (n + 2) ≤ totalSize)
    (k : ToolKey) (hd : d.Valid) :
    (CommentsFit m n k.key ∧ ∃ m', hputr8 m k.text (printDouble d hd) = .ok (0, m') ∧
      PutDone m n (.hputr8 k.text (printDouble d hd)) m' ∧
        ∀ dval, hgetr8 m' k.text dval = (1, stored d)) ∨
      (¬ CommentsFit m n k.key ∧
        ∃ fault, hputr8 m k.text (printDouble d hd) = .error fault) := by
  have hbare := bareText_stored hd
  have hvalue : (PutOp.hputr8 k.text (printDouble d hd)).value.bytes =
      printGeneral 17 (stored d) := fixnegzero_printGeneral hd
  have hend : valueEnd (PutOp.hputr8 k.text (printDouble d hd)).value.bytes = 33 := by
    rw [hvalue]
    exact hbare.valueEnd
  have hdone := @WellFormed.put_done m n (.hputr8 k.text (printDouble d hd)) h hroom k.plainWord
    k.not_commentary
  rw [@keepsComment_bare m n k (.hputr8 k.text (printDouble d hd)) rfl hend] at hdone
  rcases hdone with ⟨hkept, m', hrun, hput⟩ | hfault
  · left
    obtain ⟨line, newcom, lcom, hline, hget⟩ := hput.reads
    rw [hvalue] at hline
    have htext : valueText line = printGeneral 17 (stored d) :=
      hbare.valueText_put k.isKey.short k.plain hline
    have hget' : hgetc m' k.text = some (printGeneral 17 (stored d)) := by
      rw [← htext]
      exact hget
    refine ⟨hkept, m', hrun, hput, fun dval => ?_⟩
    have hvalid := stored_valid hd
    simp only [hgetr8, hget', doubleText_printGeneral hvalid, atofSigned_printGeneral hvalid]
  · exact .inr hfault

/-- **The exact same double**, the comment says; it is unless a zero, an infinity or a NaN has a
sign (or the key has 80 characters, or there is a comment that a put cannot keep). -/
theorem hputr8_hgetr8_iff (m : Mem) (n : ℕ) (k : ToolKey) (d : SignedDouble) (hd : d.Valid)
    (h : WellFormed m n) (hroom : 80 * (n + 2) ≤ totalSize) :
    DoubleRoundTrip m n k d hd ↔
      KeywordCopied k.text ∧ KeepsSign d ∧ CommentsFit m n k.key := by
  rcases h.hputr8_done hroom k hd with ⟨hkept, m', hrun, hput, hget⟩ | ⟨hbad, fault, hfault⟩
  · rw [← stored_eq_iff hd]
    constructor
    · rintro ⟨hcopied, m'', hrun', hget', -⟩
      obtain rfl : m' = m'' := congrArg Prod.snd (Except.ok.inj (hrun.symm.trans hrun'))
      have hsame := (hget ⟨false, .nan⟩).symm.trans (hget' ⟨false, .nan⟩)
      exact ⟨hcopied, congrArg Prod.snd hsame, hkept⟩
    · rintro ⟨hcopied, hstored, -⟩
      rw [hstored] at hget
      exact ⟨hcopied, m', hrun, hget, hput.frame⟩
  · constructor
    · rintro ⟨-, m'', hrun', -⟩
      rw [hfault] at hrun'
      cases hrun'
    · exact fun hmeets => absurd hmeets.2.2 hbad

/-- A tenth, as a double: `3602879701896397 / 2 ^ 55`. -/
def tenth : SignedDouble := ⟨false, .finite (3602879701896397 / 2 ^ 55)⟩

theorem tenth_valid : tenth.Valid := by
  refine ⟨⟨⟨3602879701896397, -55, by norm_num, by norm_num, by norm_num⟩, ?_⟩, ?_, fun _ => rfl⟩
  · refine lt_trans (b := 1) ?_ (one_lt_pow₀ (by norm_num) (by norm_num))
    norm_num [abs_lt]
  · intro hneg
    norm_num at hneg

theorem hputr8_hgetr8_tenth :
    DoubleRoundTrip (clearedBuffer noBytes 3) 1 gainToolKey tenth tenth_valid := by
  refine (hputr8_hgetr8_iff (clearedBuffer noBytes 3) 1 gainToolKey tenth tenth_valid
    (clear_wellFormed noBytes 3).2 (by decide)).mpr
      ⟨by decide, fun hneg => absurd hneg Bool.false_ne_true, fun r hr hsame => ?_⟩
  obtain rfl : r = 0 := by omega
  rw [clearedBuffer_key] at hsame
  exact absurd hsame (by decide)

/-- Its text is `0.10000000000000001`, 19 characters. -/
example : printGeneral 17 tenth = [48, 46, 49] ++ List.replicate 15 48 ++ [49] := by
  decide +kernel

end RoundTrip

end Hashpipe.Status
