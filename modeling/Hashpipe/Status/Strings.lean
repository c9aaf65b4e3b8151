import Mathlib.Tactic
import Hashpipe.Status.Lines

/-!
# Strings read back

`hputs` writes a string between quotes and `hgets` takes what stands between the first two
quotes of the line, without the blanks around it and without the sign of `-0`.

`QuotedLine` is a line with a string as `hputs` leaves it, whatever comment follows;
`QuotedLine.value` and `QuotedLine.value_cut` say what is read from it, and
`hputs_hgets_iff` when that is the string that was put.
-/

namespace Hashpipe.Status

open ByteMemory StepSystem

/-- Extract a string: the characters written to `str`, which has room for `lstr`. -/
def hgets (hstring : Mem) (keyword : CString) (lstr : ℕ) (str : Mem) : ℤ × Mem :=
  match hgetc hstring keyword with
  | none => (0, str)
  | some value =>
    let lval := value.length
    (1,
      if lval < lstr then strncpy str 0 (chars value) (lval + 1)
      else if 1 < lstr then strncpy str 0 (chars value) (lstr - 1)
      else fill str 0 1 (chars value 0))

/-- What `-Q` prints; `value` holds what an earlier `-Q` left. -/
def queryText (hstring : Mem) (keyword : CString) (value : Mem) : List UInt8 :=
  stringAt (fill (hgets hstring keyword 80 value).2 80 1 0) 0 81

/-- A value of less than 80 characters is printed whole. -/
theorem queryText_eq {m : Mem} {keyword : CString} {text : List UInt8} (value : Mem)
    (h : hgetc m keyword = some text) (hz : ∀ c ∈ text, c ≠ 0) (hlen : text.length < 80) :
    (hgets m keyword 80 value).1 = 1 ∧ queryText m keyword value = text := by
  have hget : hgets m keyword 80 value =
      (1, strncpy value 0 (chars text) (text.length + 1)) := by
    simp only [hgets, h, if_pos hlen]
  have hcopy : ∀ j ≤ text.length,
      fill (strncpy value 0 (chars text) (text.length + 1)) 80 1 0 j = chars text j := by
    intro j hj
    rw [fill_outside (by omega)]
    exact strncpy_inside (by omega) (by omega) fun k hk => hz _ (chars_mem (by omega))
  refine ⟨by rw [hget], ?_⟩
  rw [queryText, hget]
  refine stringAt_eq hz (by omega) (fun j hj => ?_) ?_
  · rw [Nat.zero_add]
    exact hcopy j hj.le
  · rw [Nat.zero_add, hcopy _ le_rfl]
    exact chars_ge le_rfl

/-- Nothing is printed of an empty value only. -/
theorem queryText_eq_nil {m value : Mem} {keyword : CString} {text : List UInt8}
    (h : hgetc m keyword = some text) (hz : ∀ c ∈ text, c ≠ 0)
    (hprint : queryText m keyword value = []) : text = [] := by
  by_contra hne
  have hpos : 0 < text.length := List.length_pos_iff.mpr hne
  have hfirst : (hgets m keyword 80 value).2 0 = chars text 0 := by
    simp only [hgets, h]
    split
    · exact strncpy_inside (Nat.zero_add 0).symm (by omega) fun k hk => absurd hk (Nat.not_lt_zero k)
    · rw [if_pos (by omega)]
      exact strncpy_inside (Nat.zero_add 0).symm (by omega) fun k hk => absurd hk (Nat.not_lt_zero k)
  have hlen : 1 ≤ textLength (ptr (fill (hgets m keyword 80 value).2 80 1 0) 0) 81 := by
    refine le_textLength.mpr ⟨by omega, fun i hi => ?_⟩
    obtain rfl : i = 0 := by omega
    rw [ptr_apply, fill_outside (by omega), hfirst]
    exact hz _ (chars_mem hpos)
  have hlength := congrArg List.length hprint
  rw [queryText, stringAt, List.length_map, List.length_range, List.length_nil] at hlength
  omega

/-! ## The quoted text -/

theorem quote_length {V : List UInt8} (hlen : V.length ≤ 67) :
    (quote V).length = max 8 V.length + 2 := by
  simp only [quote, List.length_cons, List.length_append, List.length_replicate, List.length_take,
    List.length_nil]
  omega

/-- Between the quotes stand the text and the blanks that fill it up. -/
theorem chars_quote {V : List UInt8} (hlen : V.length ≤ 67) (i : ℕ) :
    chars (quote V) (i + 1) =
      if i < V.length then chars V i else if i < 8 then 32
      else if i = max 8 V.length then 39 else 0 := by
  have htake : V.take 67 = V := List.take_of_length_le hlen
  have hcons : chars (quote V) (i + 1) = chars (V ++ (List.replicate (8 - V.length) 32 ++ [39])) i := by
    rw [quote, htake, List.append_assoc]
    rfl
  rw [hcons, chars_append]
  split
  · rfl
  · rename_i hge
    rw [chars_append, List.length_replicate]
    by_cases h8 : i < 8
    · have hin : i - V.length < (List.replicate (8 - V.length) (32 : UInt8)).length := by
        rw [List.length_replicate]
        omega
      rw [if_pos (by omega), if_pos h8, chars_lt hin, List.getElem_replicate]
    · rw [if_neg (by omega), if_neg h8]
      by_cases hi : i = max 8 V.length
      · rw [if_pos hi, show i - V.length - (8 - V.length) = 0 by omega]
        rfl
      · rw [if_neg hi]
        exact chars_ge (show 1 ≤ _ by omega)

/-- The line of a string: the quotes, the text, blanks up to eight characters; no quote and
no comment mark before them. -/
structure QuotedLine (line : Mem) (V : List UInt8) : Prop where
  short : V.length ≤ 67
  before : ∀ j < 10, line j ≠ 39 ∧ line j ≠ 47
  opening : line 10 = 39
  text : ∀ i < V.length, line (11 + i) = chars V i
  pad : ∀ i, V.length ≤ i → i < 8 → line (11 + i) = 32
  closing : line (11 + max 8 V.length) = 39

/-- `hputs` leaves such a line, with a comment or without. -/
theorem quotedLine_of_put {line newcom : Mem} {lcom : ℕ} {key V : List UInt8}
    (hshort : key.length ≤ 8) (hplain : ∀ c ∈ key, c ≠ 39 ∧ c ≠ 47) (hlen : V.length ≤ 67) (hline : ∀ j < 80,
      line j = commented (cardByte key (quote V)) (valueEnd (quote V)) newcom lcom j) :
    QuotedLine line V := by
  have hquote := quote_length hlen
  have hhead : (quote V).head? = some 39 := rfl
  have hstart : valueStart (quote V) = 10 := if_pos hhead
  have hend : 12 + max 8 V.length ≤ valueEnd (quote V) := by
    simp only [valueEnd, hhead, true_and]
    split <;> omega
  have hcard : ∀ j < 12 + max 8 V.length, line j = cardByte key (quote V) j := fun j hj => by
    rw [hline j (by omega), commented_low (by omega)]
  have hvalue : ∀ i < max 8 V.length + 1, line (11 + i) = chars (quote V) (i + 1) := by
    intro i hi
    rw [hcard _ (by omega), cardByte, if_neg (by omega), if_neg (by omega), hstart,
      if_pos (by omega)]
    congr 1
    omega
  refine ⟨hlen, fun j hj => ?_, ?_, fun i hi => ?_, fun i hi h8 => ?_, ?_⟩
  · rw [hcard j (by omega), cardByte]
    split
    · exact hplain _ (chars_mem ‹j < key.length›)
    · split
      · exact ⟨by decide, by decide⟩
      · rw [hstart, if_neg (by omega)]
        exact ⟨by decide, by decide⟩
  · rw [hcard 10 (by omega), cardByte, if_neg (by omega), if_neg (by omega), hstart,
      if_pos (by omega)]
    rfl
  · rw [hvalue i (by omega), chars_quote hlen, if_pos hi]
  · rw [hvalue i (by omega), chars_quote hlen, if_neg (by omega), if_pos h8]
  · rw [hvalue _ (by omega), chars_quote hlen, if_neg (by omega), if_neg (by omega), if_pos rfl]

/-! ## Reading it -/

section Read

variable {line : Mem} {V : List UInt8}

theorem skipBlanks_le (line : Mem) (n v1 : ℕ) : skipBlanks line n v1 ≤ v1 + n := by
  induction n generalizing v1 with
  | zero => exact le_rfl
  | succ n ih =>
    rw [skipBlanks]
    split
    · exact (ih (v1 + 1)).trans (by omega)
    · omega

theorem skipBlanks_all {n v1 : ℕ} (h : ∀ j, v1 ≤ j → j < v1 + n → line j = 32) :
    skipBlanks line n v1 = v1 + n := by
  induction n generalizing v1 with
  | zero => rfl
  | succ n ih =>
    rw [skipBlanks, if_pos (h v1 le_rfl (by omega)), ih fun j hj hjn => h j (by omega) (by omega)]
    omega

theorem dropTrailing_le_self (line : Mem) (v1 v2 : ℕ) : dropTrailing line v1 v2 ≤ v2 := by
  induction v2 with
  | zero => exact le_rfl
  | succ v2 ih =>
    rw [dropTrailing]
    split
    · exact ih.trans (Nat.le_succ v2)
    · exact le_rfl

theorem le_dropTrailing {v1 v2 : ℕ} (h : v1 ≤ v2) : v1 ≤ dropTrailing line v1 v2 := by
  induction v2 with
  | zero => exact h
  | succ v2 ih =>
    rw [dropTrailing]
    split
    · exact ih (by omega)
    · exact h

/-- Blanks and carriage returns from `e` on are dropped, but not the first character. -/
theorem dropTrailing_le {v1 v2 e : ℕ} (hv1 : v1 < e) (hev : e ≤ v2)
    (hblank : ∀ j, e ≤ j → j < v2 → line j = 32 ∨ line j = 13) :
    dropTrailing line v1 v2 ≤ e := by
  induction v2 with
  | zero => omega
  | succ v2 ih =>
    rcases Nat.eq_or_lt_of_le hev with rfl | hlt
    · exact dropTrailing_le_self line v1 _
    · rw [dropTrailing, if_pos ⟨by omega, hblank v2 (by omega) (Nat.lt_succ_self v2)⟩]
      exact ih (by omega) fun j hj hjv => hblank j hj (by omega)

theorem valueText_ne_zero (line : Mem) : ∀ c ∈ valueText line, c ≠ 0 := by
  unfold valueText
  dsimp only
  split
  · exact forall_mem_of_all (by decide)
  · exact stringAt_ne_zero

/-- The value lies between its bounds, as far as nothing is dropped. -/
theorem valueText_length_le {v1 v2 e : ℕ} (hbounds : valueBounds line = (v1, v2)) (hv : v1 ≤ v2)
    (he : dropTrailing line (skipBlanks line (v2 - v1) v1) v2 ≤ e) :
    (valueText line).length ≤ e - v1 := by
  have hskip := skipBlanks_ge line (v2 - v1) v1
  have hskip' := skipBlanks_le line (v2 - v1) v1
  have hdrop := @le_dropTrailing line (skipBlanks line (v2 - v1) v1) v2 (by omega)
  have hdrop' := dropTrailing_le_self line (skipBlanks line (v2 - v1) v1) v2
  have htext := @stringAt_length_le
    (fun j => if dropTrailing line (skipBlanks line (v2 - v1) v1) v2 ≤ j ∧ j ≤ v2 then 0 else line j)
    (skipBlanks line (v2 - v1) v1) (100 - skipBlanks line (v2 - v1) v1)
    (dropTrailing line (skipBlanks line (v2 - v1) v1) v2 - skipBlanks line (v2 - v1) v1)
    (if_pos (by omega))
  rw [valueText, hbounds]
  dsimp only
  split
  · rename_i hzero
    rw [hzero] at htext
    have hlen : ([45, 48] : List UInt8).length = 2 := rfl
    have hlen' : ([48] : List UInt8).length = 1 := rfl
    omega
  · omega

/-- The value ends at the first quote behind the opening one, wherever a comment is. -/
theorem QuotedLine.bounds (hq : QuotedLine line V) {k : ℕ} (hk : 11 + k < 80)
    (hquote : line (11 + k) = 39) (hfirst : ∀ i < k, line (11 + i) ≠ 39) :
    valueBounds line = (11, 11 + k) := by
  have hopen : strchr line 0 39 = some 10 := by
    refine firstFrom_eq_some.mpr ⟨by omega, by omega, by simpa using hq.opening, fun j _ hj => ?_⟩
    simpa using (hq.before j hj).1
  have hclose : strchr line 11 39 = some (11 + k) := by
    refine firstFrom_eq_some.mpr ⟨by omega, by omega, by simpa using hquote, fun j hj hjk => ?_⟩
    have hne := hfirst (j - 11) (by omega)
    rw [show 11 + (j - 11) = j by omega] at hne
    simpa using hne
  have hmark : ∀ c1, strchr line 0 47 = some c1 → 10 < c1 := by
    intro c1 hc1
    obtain ⟨-, -, hfound, -⟩ := firstFrom_eq_some.mp hc1
    have hslash : line c1 = 47 := by simpa using hfound
    by_contra hle
    rcases Nat.lt_or_eq_of_le (Nat.not_lt.mp hle) with hlt | heq
    · exact (hq.before c1 hlt).2 hslash
    · rw [heq, hq.opening] at hslash
      exact absurd hslash (by decide)
  have hquoted : quotedValue line 39 10 (strchr line 0 47) = some (10, 11 + k) := by
    unfold quotedValue
    cases hc : strchr line 0 47 with
    | none => simp only [hclose, Option.getD_some]
    | some c1 => simp only [if_pos (hmark c1 hc), hclose, Option.getD_some]
  simp only [valueBounds, hopen, hquoted]

/-- Without a quote of its own, the bounds are those of the text and its blanks. -/
theorem QuotedLine.bounds_unquoted (hq : QuotedLine line V) (h39 : 39 ∉ V) :
    valueBounds line = (11, 11 + max 8 V.length) := by
  have hshort := hq.short
  refine hq.bounds (by omega) hq.closing fun i hi => ?_
  by_cases hiV : i < V.length
  · rw [hq.text i hiV]
    exact fun h => h39 (h ▸ chars_mem hiV)
  · rw [hq.pad i (by omega) (by omega)]
    decide

/-- Blanks follow a short text. -/
theorem QuotedLine.blank (hq : QuotedLine line V) {j : ℕ} (hj : 11 + V.length ≤ j)
    (hj8 : j < 19) : line j = 32 := by
  have hpad := hq.pad (j - 11) (by omega) (by omega)
  rwa [show 11 + (j - 11) = j by omega] at hpad

/-- No blank is skipped before a text that does not begin with one. -/
theorem QuotedLine.noSkip (hq : QuotedLine line V) (hpos : 0 < V.length)
    (hhead : chars V 0 ≠ 32) : skipBlanks line (11 + max 8 V.length - 11) 11 = 11 := by
  refine skipBlanks_eq ?_ _ _ le_rfl (by omega) fun j hj hj' => by omega
  rw [show 11 = 11 + 0 from rfl, hq.text 0 hpos]
  exact hhead

/-- The text has no blanks around it, and ends with a carriage return only if that is all. -/
structure Bare (V : List UInt8) : Prop where
  noNul : ∀ c ∈ V, c ≠ 0
  head : 0 < V.length → chars V 0 ≠ 32
  last : 1 < V.length → chars V (V.length - 1) ≠ 32 ∧ chars V (V.length - 1) ≠ 13

/-- **A string without quotes is read as it is**, but for the sign of `-0`. -/
theorem QuotedLine.value (hq : QuotedLine line V) (h39 : 39 ∉ V) (hV : Bare V) :
    valueText line = if V = [45, 48] then [48] else V := by
  have hshort := hq.short
  have hbounds := hq.bounds_unquoted h39
  by_cases hnil : V.length = 0
  · obtain rfl : V = [] := List.length_eq_zero_iff.mp hnil
    have hskip : skipBlanks line 8 11 = 19 := skipBlanks_all fun j hj hj8 => hq.blank hj (by omega)
    have hdrop : dropTrailing line 19 19 = 19 :=
      le_antisymm (dropTrailing_le_self line 19 19) (le_dropTrailing le_rfl)
    have htext : stringAt (fun j => if 19 ≤ j ∧ j ≤ 19 then 0 else line j) 19 81 = [] :=
      stringAt_eq (by simp) (by decide) (fun j hj => absurd hj (Nat.not_lt_zero j)) rfl
    have hbounds' : valueBounds line = (11, 19) := hbounds
    rw [valueText, hbounds']
    simp only [Nat.reduceSub, hskip, hdrop, htext]
  · have hskip := hq.noSkip (by omega) (hV.head (by omega))
    have hdrop : dropTrailing line 11 (11 + max 8 V.length) = 11 + V.length := by
      have hlast : 11 < 11 + (V.length - 1) →
          line (11 + (V.length - 1)) ≠ 32 ∧ line (11 + (V.length - 1)) ≠ 13 := by
        intro hlt
        rw [hq.text _ (by omega)]
        exact hV.last (by omega)
      rw [dropTrailing_eq (by omega) hlast _ (by omega) fun j hj hjv => ?_]
      · omega
      · exact hq.blank (by omega) (by omega)
    have htext : stringAt (fun j => if 11 + V.length ≤ j ∧ j ≤ 11 + max 8 V.length then 0
        else line j) 11 89 = V := by
      refine stringAt_eq hV.noNul (by omega) (fun j hj => ?_) ?_
      · rw [if_neg (by omega)]
        exact hq.text j hj
      · rw [if_pos (by omega)]
    rw [valueText, hbounds]
    simp only [hskip, hdrop, htext]

/-- **A string with a quote is cut** there. -/
theorem QuotedLine.value_cut (hq : QuotedLine line V) (h39 : 39 ∈ V) :
    (valueText line).length < V.length := by
  have hshort := hq.short
  have hex : ∃ k, k < V.length ∧ chars V k = 39 := by
    obtain ⟨k, hk, hkV⟩ := List.getElem_of_mem h39
    exact ⟨k, hk, by rw [chars_lt hk, hkV]⟩
  obtain ⟨hk, hquote⟩ := Nat.find_spec hex
  have hbounds : valueBounds line = (11, 11 + Nat.find hex) := by
    refine hq.bounds (by omega) (by rw [hq.text _ hk, hquote]) fun i hi => ?_
    rw [hq.text i (by omega)]
    exact fun h => Nat.find_min hex hi ⟨by omega, h⟩
  have hlen := valueText_length_le hbounds (by omega) (dropTrailing_le_self _ _ _)
  omega

/-- **A carriage return at the end is dropped.** -/
theorem QuotedLine.value_return (hq : QuotedLine line V) (h39 : 39 ∉ V) (hlong : 1 < V.length)
    (hhead : chars V 0 ≠ 32) (hlast : chars V (V.length - 1) = 13) :
    (valueText line).length < V.length := by
  have hshort := hq.short
  have hskip := hq.noSkip (by omega) hhead
  have hdrop : dropTrailing line (skipBlanks line (11 + max 8 V.length - 11) 11)
      (11 + max 8 V.length) ≤ 11 + (V.length - 1) := by
    rw [hskip]
    refine dropTrailing_le (by omega) (by omega) fun j hj hjv => ?_
    by_cases hjV : j = 11 + (V.length - 1)
    · rw [hjV, hq.text _ (by omega)]
      exact .inr hlast
    · exact .inl (hq.blank (by omega) (by omega))
  have hlen := valueText_length_le (hq.bounds_unquoted h39) (by omega) hdrop
  omega

end Read

/-! ## Putting and getting -/

section RoundTrip

variable {m : Mem} {n : ℕ}

theorem ToolKey.plain (k : ToolKey) : PlainKey k.key := by
  intro c hc
  have h := (k.name c (List.mem_of_mem_take hc)).plain
  exact ⟨h.1, h.2.1, h.2.2.1, h.2.2.2.1⟩

theorem hputs_value (k : ToolKey) (V : CString) :
    (PutOp.hputs k.text V).value.bytes = quote V.bytes := by
  have hcom := k.not_commentary
  rw [isCommentary_keyword8] at hcom
  simp only [PutOp.value, PutOp.text, hcom, Bool.false_eq_true, if_false]

/-- A comment fits behind a string of less than 64 characters. -/
theorem valueEnd_quote {V : List UInt8} (hlen : V.length ≤ 67) :
    valueEnd (quote V) < 78 ↔ V.length < 64 := by
  have hhead : (quote V).head? = some 39 := rfl
  simp only [valueEnd, hhead, quote_length hlen, true_and]
  split <;> omega

/-- The record with the key, if any, has a comment that fits where it is kept, and behind the
string. -/
def RoomForComment (m : Mem) (n : ℕ) (k : ToolKey) (V : List UInt8) : Prop :=
  ∀ r < n, SameKey k.key (recordKey m (80 * r)) → CommentFits m (80 * r) ∧
    ∀ c1, commentAt (lineAt m (80 * r)) = some c1 → c1 < 78 → V.length < 64

theorem keepsComment_hputs (k : ToolKey) {V : CString} (hlen : V.bytes.length ≤ 67) :
    KeepsComment m n (.hputs k.text V) ↔ RoomForComment m n k V.bytes := by
  unfold KeepsComment CommentKept RoomForComment
  simp only [hputs_value, valueEnd_quote hlen]
  exact Iff.rfl

/-- **What `hputs` does**: the line of the string under its key, or a fault. -/
theorem WellFormed.hputs_done (h : WellFormed m n) (hroom : 80 * (n + 2) ≤ totalSize)
    (k : ToolKey) {V : CString} (hlen : V.bytes.length ≤ 67) :
    (RoomForComment m n k V.bytes ∧ ∃ m' line, hputs m k.text V = .ok (0, m') ∧
      PutDone m n (.hputs k.text V) m' ∧ QuotedLine line V.bytes ∧
        hgetc m' k.text = some (valueText line)) ∨
      (¬ RoomForComment m n k V.bytes ∧ ∃ fault, hputs m k.text V = .error fault) := by
  have hdone := @WellFormed.put_done m n (.hputs k.text V) h hroom k.plainWord k.not_commentary
  rw [keepsComment_hputs k hlen] at hdone
  rcases hdone with ⟨hkept, m', hrun, hput⟩ | hfault
  · left
    obtain ⟨line, newcom, lcom, hline, hread⟩ := hput.reads
    rw [hputs_value] at hline
    have hplain : ∀ c ∈ k.key, c ≠ 39 ∧ c ≠ 47 := fun c hc => ⟨(k.plain c hc).1, (k.plain c hc).2.2.1⟩
    exact ⟨hkept, m', line, hrun, hput, quotedLine_of_put k.isKey.short hplain hlen hline, hread⟩
  · exact .inr hfault

/-- A printable string of at most 67 characters without blanks at its ends. -/
structure StatusString where
  text : CString
  short : text.bytes.length ≤ 67
  printable : ∀ c ∈ text.bytes, 32 ≤ c ∧ c ≤ 126
  trimmed : text.bytes.head? ≠ some 32 ∧ text.bytes.getLast? ≠ some 32

theorem head?_eq_chars {V : List UInt8} (h : 0 < V.length) : V.head? = some (chars V 0) := by
  rw [chars_lt h, List.head?_eq_getElem?, List.getElem?_eq_getElem h]

theorem getLast?_eq_chars {V : List UInt8} (h : 0 < V.length) :
    V.getLast? = some (chars V (V.length - 1)) := by
  rw [chars_lt (by omega), List.getLast?_eq_getElem?, List.getElem?_eq_getElem]

theorem StatusString.bare (V : StatusString) : Bare V.text.bytes where
  noNul := V.text.noNul
  head := by
    intro hpos h32
    exact V.trimmed.1 (by rw [head?_eq_chars hpos, h32])
  last := by
    intro hlong
    refine ⟨fun h32 => V.trimmed.2 (by rw [getLast?_eq_chars (by omega), h32]), fun h13 => ?_⟩
    have hprint := V.printable _ (@chars_mem V.text.bytes (V.text.bytes.length - 1) (by omega))
    rw [h13] at hprint
    exact absurd hprint.1 (by decide)

/-- A put of the string is read back with `-Q`, where the getter's copy of the key has an end,
and the records under other keys stay. -/
def StringRoundTrip (m : Mem) (n : ℕ) (k : ToolKey) (V : StatusString) : Prop :=
  KeywordCopied k.text ∧ ∃ m', hputs m k.text V.text = .ok (0, m') ∧
    (∀ value, (hgets m' k.text 80 value).1 = 1 ∧ queryText m' k.text value = V.text.bytes) ∧
    ∀ r < n, ¬ SameKey k.key (recordKey m (80 * r)) →
      ∀ j < 80, m' (80 * r + j) = m (80 * r + j)

/-- The key fits in its copy, the string has no quote and is not `-0`, and there is room for a
comment that is kept. -/
def Storable (m : Mem) (n : ℕ) (k : ToolKey) (V : StatusString) : Prop :=
  KeywordCopied k.text ∧ 39 ∉ V.text.bytes ∧ V.text.bytes ≠ [45, 48] ∧ RoomForComment m n k V.text.bytes

theorem WellFormed.roundTrip (h : WellFormed m n) (hroom : 80 * (n + 2) ≤ totalSize) {k : ToolKey}
    {V : StatusString} (hstore : Storable m n k V) : StringRoundTrip m n k V := by
  obtain ⟨hcopied, h39, hzero, hkept⟩ := hstore
  have hshort := V.short
  rcases h.hputs_done hroom k V.short with ⟨-, m', line, hrun, hput, hline, hread⟩ | ⟨hbad, -⟩
  · have htext : valueText line = V.text.bytes := by
      rw [hline.value h39 V.bare, if_neg hzero]
    rw [htext] at hread
    exact ⟨hcopied, m', hrun, fun value => queryText_eq value hread V.text.noNul (by omega),
      hput.frame⟩
  · exact absurd hkept hbad

/-- What is read has at most as many characters as the string. -/
theorem QuotedLine.value_length {line : Mem} {V : StatusString} (hline : QuotedLine line V.text.bytes) :
    (valueText line).length ≤ V.text.bytes.length := by
  by_cases h39 : 39 ∈ V.text.bytes
  · exact (hline.value_cut h39).le
  · rw [hline.value h39 V.bare]
    split
    · rename_i hzero
      rw [hzero]
      decide
    · exact le_rfl

theorem StringRoundTrip.storable (h : WellFormed m n) (hroom : 80 * (n + 2) ≤ totalSize)
    {k : ToolKey} {V : StatusString} (hround : StringRoundTrip m n k V) : Storable m n k V := by
  obtain ⟨hcopied, m', hrun, hquery, -⟩ := hround
  have hshort := V.short
  rcases h.hputs_done hroom k V.short with
    ⟨hkept, m'', line, hrun', -, hline, hread⟩ | ⟨-, fault, hfault⟩
  · rw [hrun] at hrun'
    obtain rfl : m' = m'' := congrArg Prod.snd (Except.ok.inj hrun')
    -- what `-Q` prints is the value of the line
    have hlen := hline.value_length
    have htext := (queryText_eq noBytes hread (valueText_ne_zero line) (by omega)).2
    rw [(hquery noBytes).2] at htext
    refine ⟨hcopied, fun h39 => ?_, fun hzero => ?_, hkept⟩
    · have hcut := hline.value_cut h39
      rw [← htext] at hcut
      exact lt_irrefl _ hcut
    · have h39 : 39 ∉ V.text.bytes := by
        rw [hzero]
        decide
      rw [hline.value h39 V.bare, if_pos hzero, hzero] at htext
      exact absurd htext (by decide)
  · rw [hrun] at hfault
    cases hfault

/-- **A string is read back** exactly when its key has at most 79 characters, it has no quote, is
not `-0`, and leaves room for the comment of the record it replaces. -/
theorem hputs_hgets_iff (m : Mem) (n : ℕ) (k : ToolKey) (V : StatusString) (h : WellFormed m n)
    (hroom : 80 * (n + 2) ≤ totalSize) : StringRoundTrip m n k V ↔ Storable m n k V :=
  ⟨fun hround => hround.storable h hroom, fun hstore => h.roundTrip hroom hstore⟩

/-- `"on"`. -/
def onString : StatusString where
  text := ⟨[111, 110], forall_mem_of_all (by decide)⟩
  short := by decide
  printable := forall_mem_of_all (by decide)
  trimmed := by decide

def gainToolKey : ToolKey where
  text := gainKey.text
  nonempty := by decide
  name := gainKey.name
  unreserved := by decide

theorem hputs_hgets_on : StringRoundTrip (clearedBuffer noBytes 3) 1 gainToolKey onString := by
  refine (hputs_hgets_iff (clearedBuffer noBytes 3) 1 gainToolKey onString
    (clear_wellFormed noBytes 3).2 (by decide)).mpr
      ⟨by decide, by decide, by decide, fun r hr hsame => ?_⟩
  obtain rfl : r = 0 := by omega
  rw [clearedBuffer_key] at hsame
  exact absurd hsame (by decide)

/-- `"a'b"`. -/
def quoteString : StatusString where
  text := ⟨[97, 39, 98], forall_mem_of_all (by decide)⟩
  short := by decide
  printable := forall_mem_of_all (by decide)
  trimmed := by decide

/-- **A string with a quote is not read back**, in a cleared buffer. -/
theorem quote_not_read_back : ¬ ∀ (m : Mem) (n : ℕ) (k : ToolKey) (V : StatusString),
    Reachable (statusSystem noBytes) ⟨m, true⟩ → WellFormed m n → 80 * (n + 2) ≤ totalSize →
      StringRoundTrip m n k V := by
  intro hall
  have hwf := (clear_wellFormed noBytes 3).2
  have hreach : Reachable (statusSystem noBytes) ⟨clearedBuffer noBytes 3, true⟩ :=
    (cleared_reachable 3).reachable
  have hround := hall _ 1 instanceToolKey quoteString hreach hwf (by decide)
  exact (hround.storable hwf (by decide)).2.1 (by decide)

end RoundTrip

end Hashpipe.Status
