import Mathlib.Tactic
import Hashpipe.Status.Strings

/-!
# The option `-o`

`-o K=V` stores a value in the status buffer: as an integer if `strtol` takes all of it, as a
double if `strtod` does, else as a string.  `-o K` stores the empty string, and so does the
branch that `-o K=` takes, but under the argument as it stands, with its `=`.

`option_stored_iff` says when the key reads back as the value.  A key of less than eight
characters with `=` behind it is not found, so `-o K=` makes a new line, and the old record of
K, if there is one, is still the first that answers to K.
-/

namespace Hashpipe.Status

open ByteMemory CNumber

/-- `case 'o'`, between the attach and the detach; a `long` has 64 bits.  `printed` is what
`hputr8` prints of the double that `strtod` makes of a text. -/
def storeOption (printed : CString → DoubleText) (buf : Mem) (optarg : CString) :
    Except Fault (ℤ × Mem) :=
  match optarg.bytes.findIdx? (· == 61) with
  | some cp =>
    let value := optarg.drop (cp + 1)
    if value.bytes ≠ [] then
      let key := optarg.take cp
      -- the value is not empty here
      if value.bytes = [] then hputs buf key CString.empty
      else
        let lval := strtoll value.bytes
        if lval.2 = [] then hputi8 buf key (Int64.ofInt lval.1)
        else if strtodRest value.bytes = [] then hputr8 buf key (printed value)
        else hputs buf key value
    else hputs buf optarg CString.empty
  | none => hputs buf optarg CString.empty

/-- A key of 1 to 8 letters, digits or `_`. -/
structure OptionKey where
  tool : ToolKey
  short : tool.text.bytes.length ≤ 8
  noMinus : 45 ∉ tool.text.bytes

/-- At most 67 characters, without quotes and blanks at the ends. -/
structure OptionValue where
  text : CString
  short : text.bytes.length ≤ 67
  unquoted : 39 ∉ text.bytes
  trimmed : text.bytes.head? ≠ some 32 ∧ text.bytes.getLast? ≠ some 32

inductive OptionArg
  /-- `K` -/
  | bare (key : OptionKey)
  /-- `K=V`, or `K=` -/
  | assign (key : OptionKey) (value : OptionValue)

def OptionArg.key : OptionArg → OptionKey
  | bare key => key
  | assign key _ => key

def OptionArg.value : OptionArg → List UInt8
  | bare _ => []
  | assign _ value => value.text.bytes

/-- `s=t`. -/
def equation (s t : CString) : CString where
  bytes := s.bytes ++ 61 :: t.bytes
  noNul := by
    intro c hc
    rcases List.mem_append.mp hc with hc | hc
    · exact s.noNul c hc
    · rcases List.mem_cons.mp hc with rfl | hc
      · decide
      · exact t.noNul c hc

def OptionArg.text : OptionArg → CString
  | bare key => key.tool.text
  | assign key value => equation key.tool.text value.text

/-- Neither `strtol` nor `strtod` takes all of the text. -/
def NotNumber (V : List UInt8) : Prop := (strtoll V).2 ≠ [] ∧ strtodRest V ≠ []

instance (V : List UInt8) : Decidable (NotNumber V) := inferInstanceAs (Decidable (_ ∧ _))

/-- An integer literal is read as its integer, and the empty text and a text that is no number
as they are. -/
def ReadsBack (buf : Mem) (keyword : CString) (V : List UInt8) : Prop :=
  (∀ z, Literal V z → (hgeti8 buf keyword).map Int64.toInt = some z) ∧
    (V = [] ∨ NotNumber V → ∀ value, (hgets buf keyword 80 value).1 = 1 ∧
      queryText buf keyword value = V)

/-- The key reads back as the value, and every other key as before. -/
def Stores (buf : Mem) (k : ToolKey) (V : List UInt8) (run : Except Fault (ℤ × Mem)) : Prop :=
  ∃ rc buf', run = .ok (rc, buf') ∧ ReadsBack buf' k.text V ∧
    ∀ other : ToolKey, ¬ SameKey other.key k.key → hgetc buf' other.text = hgetc buf other.text

def OptionStored (printed : CString → DoubleText) (buf : Mem) (arg : OptionArg) : Prop :=
  Stores buf arg.key.tool arg.value (storeOption printed buf arg.text)

/-- The record with the key, if any, reads as empty. -/
def OldValueEmpty (m : Mem) (n : ℕ) (key : List UInt8) : Prop :=
  ∀ r < n, SameKey key (recordKey m (80 * r)) → valueText (lineAt m (80 * r)) = []

/-- When the option stores what it says. -/
def OptionMeets (m : Mem) (n : ℕ) : OptionArg → Prop
  | .bare key => CommentsFit m n key.tool.key
  | .assign key value =>
    if value.text.bytes = [] then
      if key.tool.text.bytes.length < 8 then OldValueEmpty m n key.tool.key
      else CommentsFit m n key.tool.key
    else if NotNumber value.text.bytes then
      RoomForComment m n key.tool value.text.bytes ∧
        (1 < value.text.bytes.length → value.text.bytes.getLast? ≠ some 13)
    else CommentsFit m n key.tool.key ∧
      ∀ z, Literal value.text.bytes z → -2 ^ 63 ≤ z ∧ z < 2 ^ 63

/-! ## The branches -/

section Branches

variable {printed : CString → DoubleText} {m : Mem} {n : ℕ}

theorem ToolKey.no_equals (k : ToolKey) : ∀ c ∈ k.text.bytes, c ≠ 61 :=
  fun c hc => (k.name c hc).plain.2.2.2.1

theorem storeOption_bare (k : ToolKey) :
    storeOption printed m k.text = hputs m k.text CString.empty := by
  have hfind : k.text.bytes.findIdx? (· == 61) = none :=
    List.findIdx?_eq_none_iff.mpr fun c hc => by simpa using k.no_equals c hc
  simp only [storeOption, hfind]

/-- The first `=` is the one behind the key. -/
theorem equation_find (k : ToolKey) (V : CString) :
    (equation k.text V).bytes.findIdx? (· == 61) = some k.text.bytes.length := by
  have hfind : k.text.bytes.findIdx? (· == 61) = none :=
    List.findIdx?_eq_none_iff.mpr fun c hc => by simpa using k.no_equals c hc
  rw [equation, List.findIdx?_append, hfind]
  simp [List.findIdx?_cons]

theorem equation_take (k V : CString) : (equation k V).take k.bytes.length = k :=
  CString.ext (List.take_left)

theorem equation_drop (k V : CString) : (equation k V).drop (k.bytes.length + 1) = V := by
  apply CString.ext
  show (k.bytes ++ 61 :: V.bytes).drop (k.bytes.length + 1) = V.bytes
  rw [List.drop_append]
  simp

theorem storeOption_empty (k : ToolKey) {V : CString} (hV : V.bytes = []) :
    storeOption printed m (equation k.text V) = hputs m (equation k.text V) CString.empty := by
  simp only [storeOption, equation_find, equation_drop, hV, ne_eq, not_true_eq_false, if_false]

theorem storeOption_value (k : ToolKey) {V : CString} (hV : V.bytes ≠ []) :
    storeOption printed m (equation k.text V) =
      if (strtoll V.bytes).2 = [] then hputi8 m k.text (Int64.ofInt (strtoll V.bytes).1)
      else if strtodRest V.bytes = [] then hputr8 m k.text (printed V)
      else hputs m k.text V := by
  simp only [storeOption, equation_find, equation_drop, equation_take, ne_eq, hV,
    not_false_eq_true, if_true, if_false]

end Branches

/-! ## What each put leaves -/

section Puts

variable {printed : CString → DoubleText} {m : Mem} {n : ℕ} {k : ToolKey}

/-- A put that is done stores the value if the key then reads back as it. -/
theorem PutDone.stores {p : PutOp} {m' : Mem} {V : List UInt8} (hnul : m (80 * (n + 2)) = 0)
    (hkey : p.keyword = k.text) (hrun : p.run m = .ok (0, m')) (hput : PutDone m n p m')
    (hread : ReadsBack m' k.text V) : Stores m k V (p.run m) := by
  refine ⟨0, m', hrun, hread, fun other hne => hput.others hnul _ other.plainWord ?_⟩
  rw [PutOp.key, hkey]
  exact hne

/-- A fault stores nothing. -/
theorem not_stores_fault {V : List UInt8} {run : Except Fault (ℤ × Mem)} {fault : Fault}
    (h : run = .error fault) : ¬ Stores m k V run := by
  rintro ⟨rc, m', hrun, -⟩
  rw [h] at hrun
  cases hrun

/-- Storing needs the condition, and it takes no more if a NUL follows a new END. -/
structure StoresWhen (m : Mem) (n : ℕ) (k : ToolKey) (V : List UInt8)
    (run : Except Fault (ℤ × Mem)) (meets : Prop) : Prop where
  needs : Stores m k V run → meets
  stores : m (80 * (n + 2)) = 0 → meets → Stores m k V run

theorem StoresWhen.congr {V : List UInt8} {run : Except Fault (ℤ × Mem)} {meets meets' : Prop}
    (h : StoresWhen m n k V run meets) (hmeets : meets ↔ meets') :
    StoresWhen m n k V run meets' := by
  rw [← hmeets]
  exact h

/-- A put that cannot keep the comment, where the condition asks for it. -/
theorem storesWhen_fault {V : List UInt8} {run : Except Fault (ℤ × Mem)} {fault : Fault}
    {kept rest : Prop} (h : run = .error fault) (hbad : ¬ kept) :
    StoresWhen m n k V run (kept ∧ rest) where
  needs := fun hstores => absurd hstores (not_stores_fault h)
  stores := fun _ hmeets => absurd hmeets.1 hbad

theorem roomForComment_nil : RoomForComment m n k [] ↔ CommentsFit m n k.key := by
  refine forall_congr' fun r => forall_congr' fun _ => forall_congr' fun _ => ?_
  exact and_iff_left fun c1 _ _ => show 0 < 64 by omega

/-- A bare value leaves room for any comment that fits. -/
theorem keepsComment_bare {p : PutOp} (hkey : p.key = k.key) (hend : valueEnd p.value.bytes = 33) :
    KeepsComment m n p ↔ CommentsFit m n k.key := by
  unfold KeepsComment CommentKept CommentsFit
  rw [hkey, hend]
  refine forall_congr' fun r => forall_congr' fun _ => forall_congr' fun _ => ?_
  exact and_iff_left fun c1 _ _ => show 33 < 78 by omega

/-- A literal is all of a text that `strtol` takes. -/
theorem not_literal {V : List UInt8} (h : (strtoll V).2 ≠ []) {z : ℤ} : ¬ Literal V z := by
  intro hlit
  exact h (by rw [strtoll_literal hlit])

theorem not_literal_nil {z : ℤ} : ¬ Literal [] z := by
  intro hlit
  cases hlit with
  | bare h => cases h

/-- **Strings**: the empty one, and texts that are no number. -/
theorem WellFormed.stores_hputs (h : WellFormed m n) (hroom : 80 * (n + 2) ≤ totalSize)
    (k : ToolKey) (V : OptionValue) (hV : V.text.bytes = [] ∨ NotNumber V.text.bytes) :
    StoresWhen m n k V.text.bytes (hputs m k.text V.text) (RoomForComment m n k V.text.bytes ∧
      (1 < V.text.bytes.length → V.text.bytes.getLast? ≠ some 13)) := by
  have hshort := V.short
  have hhead : 0 < V.text.bytes.length → chars V.text.bytes 0 ≠ 32 := fun hpos h32 =>
    V.trimmed.1 (by rw [head?_eq_chars hpos, h32])
  rcases h.hputs_done hroom k V.short with
    ⟨hkept, m', line, hrun, hput, hline, hread⟩ | ⟨hbad, fault, hfault⟩
  · constructor
    · rintro ⟨rc, m'', hrun', ⟨-, hstring⟩, -⟩
      refine ⟨hkept, fun hlong h13 => ?_⟩
      rw [hrun] at hrun'
      obtain rfl : m' = m'' := congrArg Prod.snd (Except.ok.inj hrun')
      rw [getLast?_eq_chars (by omega)] at h13
      have hcut := hline.value_return V.unquoted hlong (hhead (by omega)) (Option.some.inj h13)
      have htext := (queryText_eq noBytes hread (valueText_ne_zero line) (by omega)).2
      rw [(hstring hV noBytes).2] at htext
      rw [← htext] at hcut
      exact lt_irrefl _ hcut
    · rintro hnul ⟨-, hreturn⟩
      have hbare : Bare V.text.bytes := by
        refine ⟨V.text.noNul, hhead, fun hlong => ⟨fun h32 => ?_, fun h13 => ?_⟩⟩
        · exact V.trimmed.2 (by rw [getLast?_eq_chars (by omega), h32])
        · exact hreturn hlong (by rw [getLast?_eq_chars (by omega), h13])
      have hzero : V.text.bytes ≠ [45, 48] := by
        intro heq
        rw [heq] at hV
        revert hV
        decide
      have htext : valueText line = V.text.bytes := by
        rw [hline.value V.unquoted hbare, if_neg hzero]
      rw [htext] at hread
      have hrun' : (PutOp.hputs k.text V.text).run m = .ok (0, m') := hrun
      refine hput.stores hnul rfl hrun' ⟨fun z hlit => ?_, fun _ value =>
        queryText_eq value hread V.text.noNul (by omega)⟩
      rcases hV with hnil | hnot
      · rw [hnil] at hlit
        exact absurd hlit not_literal_nil
      · exact absurd hlit (not_literal hnot.1)
  · exact storesWhen_fault hfault hbad

/-- The line of an integer, with a comment or without, reads back as its text. -/
theorem valueText_putLine {line newcom : Mem} {lcom : ℕ} {key : List UInt8} {z : ℤ}
    (hshort : key.length ≤ 8) (hplain : PlainKey key) (hz : Prints z) (hline : ∀ j < 80, line j =
      commented (cardByte key (intText z)) (valueEnd (intText z)) newcom lcom j) :
    valueText line = intText z :=
  (intText_bareText hz.1 hz.2).valueText_put hshort hplain hline

/-- **Integers**: a literal within 64 bits. -/
theorem WellFormed.stores_hputi8 (h : WellFormed m n) (hroom : 80 * (n + 2) ≤ totalSize)
    (k : ToolKey) {V : List UInt8} (hne : V ≠ []) (hV : (strtoll V).2 = []) :
    StoresWhen m n k V (hputi8 m k.text (Int64.ofInt (strtoll V).1)) (CommentsFit m n k.key ∧
      ∀ z, Literal V z → -2 ^ 63 ≤ z ∧ z < 2 ^ 63) := by
  have hdone := @WellFormed.put_done m n (.hputi8 k.text (Int64.ofInt (strtoll V).1)) h hroom
    k.plainWord k.not_commentary
  rw [@keepsComment_bare m n k (.hputi8 k.text _) rfl (valueEnd_intText _)] at hdone
  rcases hdone with ⟨hkept, m', hrun, hput⟩ | ⟨hbad, fault, hfault⟩
  · obtain ⟨line, newcom, lcom, hline, hget⟩ := hput.reads
    rw [valueText_putLine k.isKey.short k.plain (prints_int64 _) hline] at hget
    have hread : hgeti8 m' k.text = some (Int64.ofInt (strtoll V).1) := hgeti8_of_hgetc hget
    have hvalue : ∀ z, Literal V z → (hgeti8 m' k.text).map Int64.toInt =
        some (max (-2 ^ 63) (min z (2 ^ 63 - 1))) := by
      intro z hlit
      rw [hread, strtoll_literal hlit, Option.map_some,
        Int64.toInt_ofInt_of_le (by omega) (by omega)]
    constructor
    · rintro ⟨rc, m'', hrun', ⟨hinteger, -⟩, -⟩
      refine ⟨hkept, fun z hlit => ?_⟩
      have heq : Except.ok (0, m') = Except.ok (rc, m'') := hrun.symm.trans hrun'
      obtain rfl : m' = m'' := congrArg Prod.snd (Except.ok.inj heq)
      have hsame := (hvalue z hlit).symm.trans (hinteger z hlit)
      have hclamp := Option.some.inj hsame
      omega
    · rintro hnul ⟨-, hrange⟩
      refine hput.stores hnul rfl hrun ⟨fun z hlit => ?_, fun hnot => ?_⟩
      · have := hrange z hlit
        rw [hvalue z hlit, min_eq_left (by omega), max_eq_right (by omega)]
      · rcases hnot with hnil | hnot
        · exact absurd hnil hne
        · exact absurd hV hnot.1
  · exact storesWhen_fault hfault hbad

/-- **Doubles**: nothing is said of what is read, only of the other keys. -/
theorem WellFormed.stores_hputr8 (h : WellFormed m n) (hroom : 80 * (n + 2) ≤ totalSize)
    (k : ToolKey) {V : List UInt8} (hne : V ≠ []) (hV : (strtoll V).2 ≠ [])
    (hV' : strtodRest V = []) (dval : DoubleText) :
    StoresWhen m n k V (hputr8 m k.text dval) (CommentsFit m n k.key ∧
      ∀ z, Literal V z → -2 ^ 63 ≤ z ∧ z < 2 ^ 63) := by
  have hend : valueEnd (PutOp.hputr8 k.text dval).value.bytes = 33 :=
    if_neg fun h39 => dval.unquoted
      ((fixnegzero_sublist dval.text.bytes).subset (List.mem_of_head? h39.1))
  have hdone := @WellFormed.put_done m n (.hputr8 k.text dval) h hroom k.plainWord k.not_commentary
  rw [@keepsComment_bare m n k (.hputr8 k.text dval) rfl hend] at hdone
  rcases hdone with ⟨hkept, m', hrun, hput⟩ | ⟨hbad, fault, hfault⟩
  · refine ⟨fun _ => ⟨hkept, fun z hlit => absurd hlit (not_literal hV)⟩, fun hnul _ => ?_⟩
    refine hput.stores hnul rfl hrun ⟨fun z hlit => absurd hlit (not_literal hV), fun hnot => ?_⟩
    rcases hnot with hnil | hnot
    · exact absurd hnil hne
    · exact absurd hV' hnot.2
  · exact storesWhen_fault hfault hbad

/-! ## `-o K=` -/

/-- A key of eight characters is all that counts of `K=`. -/
theorem hputs_equals_long (hlong : k.text.bytes.length = 8) :
    hputs m (equation k.text CString.empty) CString.empty = hputs m k.text CString.empty := by
  have hkey : keyword8 (equation k.text CString.empty) = keyword8 k.text := by
    show (k.text.bytes ++ [61]).take 8 = k.text.bytes.take 8
    rw [List.take_append_of_le_length hlong.ge]
  have hcom : isCommentary (equation k.text CString.empty).bytes = isCommentary k.text.bytes := by
    rw [← isCommentary_keyword8, hkey, isCommentary_keyword8]
  simp only [hputs, hputc, hcom, hkey]

/-- The line that `K=` becomes. -/
def equalsLine (k : ToolKey) : ℕ → UInt8 := cardByte (k.text.bytes ++ [61]) (quote [])

/-- It starts with the key and an `=`. -/
theorem equalsLine_tag (hshort : k.text.bytes.length < 8) : TagText (equalsLine k) k.key := by
  have hkey : k.key = k.text.bytes := List.take_of_length_le (by omega)
  have hlen : (k.text.bytes ++ [61]).length = k.text.bytes.length + 1 := by simp
  rw [hkey]
  refine ⟨hshort.le, fun j hj => ?_, ?_, fun j _ => cardByte_ne ?_ ?_ (by decide) (by decide) j⟩
  · rw [equalsLine, cardByte_name (by omega), chars_append, if_pos hj]
  · left
    rw [equalsLine, cardByte_name (by omega), chars_append, if_neg (lt_irrefl _), Nat.sub_self]
    rfl
  · intro h0
    rcases List.mem_append.mp h0 with h0 | h0
    · exact k.text.noNul 0 h0 rfl
    · exact absurd h0 (by decide)
  · exact fun h0 => quote_noNul (fun c hc => absurd hc List.not_mem_nil) 0 h0 rfl

/-- `K=` is no keyword of a well-formed buffer: it becomes a new line. -/
theorem WellFormed.hputs_equals (h : WellFormed m n) (hroom : 80 * (n + 2) ≤ totalSize)
    (hshort : k.text.bytes.length < 8) :
    hputs m (equation k.text CString.empty) CString.empty =
      .ok (0, appended m n (equalsLine k)) := by
  have hkey : keyword8 (equation k.text CString.empty) = k.text.bytes ++ [61] :=
    List.take_of_length_le (show (k.text.bytes ++ [61]).length ≤ 8 by simp; omega)
  have hmark : chars (k.text.bytes ++ [61]) k.text.bytes.length = 61 := by
    rw [chars_append, if_neg (lt_irrefl _), Nat.sub_self]
    rfl
  have hnone : ksearch m (keyword8 (equation k.text CString.empty)) = none := by
    rw [ksearch, hkey, List.take_of_length_le (by simp; omega)]
    exact h.table.searchText_equals (h.nul hroom) (i := k.text.bytes.length) (by simp) hshort hmark
  have hcom : isCommentary (keyword8 (equation k.text CString.empty)) = false := by
    have hmem : (61 : UInt8) ∈ keyword8 (equation k.text CString.empty) := by
      rw [hkey]
      simp
    rw [← Bool.not_eq_true]
    intro hword
    simp only [isCommentary, Bool.or_eq_true, beq_iff_eq] at hword
    rcases hword with hword | hword
    · rw [hword] at hmem
      exact absurd hmem (by decide)
    · rw [hword] at hmem
      exact absurd hmem (by decide)
  have hraw : isCommentary (equation k.text CString.empty).bytes = false := by
    rw [← isCommentary_keyword8]
    exact hcom
  simp only [hputs, hraw, Bool.false_eq_true, if_false]
  rw [hputc_new hcom (quote_fits CString.empty.noNul) hnone h.newPlace, hkey]
  rfl

/-- **`-o K=`** with a short key: the old record, if there is one, is read. -/
theorem WellFormed.stores_equals (h : WellFormed m n) (hroom : 80 * (n + 2) ≤ totalSize)
    (hshort : k.text.bytes.length < 8) :
    StoresWhen m n k [] (hputs m (equation k.text CString.empty) CString.empty)
      (OldValueEmpty m n k.key) := by
  have htag := equalsLine_tag hshort
  rw [h.hputs_equals hroom hshort]
  by_cases hfound : ∃ r < n, SameKey k.key (recordKey m (80 * r))
  · obtain ⟨r, hr, hsame⟩ := hfound
    have hget : hgetc (appended m n (equalsLine k)) k.text = some (valueText (lineAt m (80 * r))) :=
      h.hgetc_appended_old hroom k.plainWord hr hsame k.isKey htag
    constructor
    · rintro ⟨rc, m', hrun, ⟨-, hstring⟩, -⟩ s hs hsames
      obtain rfl : appended m n (equalsLine k) = m' := congrArg Prod.snd (Except.ok.inj hrun)
      rw [h.line_unique hs.le hr.le hsames hsame]
      exact queryText_eq_nil hget (valueText_ne_zero _) (hstring (.inl rfl) noBytes).2
    · intro hnul hempty
      rw [hempty r hr hsame] at hget
      refine ⟨0, _, rfl, ⟨fun z hlit => absurd hlit not_literal_nil, fun _ value =>
        queryText_eq value hget (by simp) (by decide)⟩, fun other hne =>
        h.others_new hroom hnul k.isKey htag other.plainWord hne⟩
  · have hnone : ∀ r < n, ¬ SameKey k.key (recordKey m (80 * r)) := fun r hr hsame =>
      hfound ⟨r, hr, hsame⟩
    refine ⟨fun _ r hr hsame => absurd hsame (hnone r hr), fun hnul _ => ?_⟩
    obtain ⟨line, hline, hget⟩ := h.hgetc_appended hroom k.plainWord hnone htag
    have hquoted : QuotedLine line [] := by
      refine @quotedLine_of_put line noBytes 0 (k.text.bytes ++ [61]) [] (by simp; omega)
        (fun c hc => ?_) (by decide) fun j hj => ?_
      · rcases List.mem_append.mp hc with hc | hc
        · exact ⟨(k.name c hc).plain.1, (k.name c hc).plain.2.2.1⟩
        · obtain rfl := List.mem_singleton.mp hc
          decide
      · rw [hline j hj, commented, if_pos (.inl rfl)]
        rfl
    have hbare : Bare ([] : List UInt8) :=
      ⟨by simp, fun hpos => absurd hpos (by decide), fun hlong => absurd hlong (by decide)⟩
    have htext : valueText line = [] := by
      rw [hquoted.value (by simp) hbare]
      rfl
    rw [htext] at hget
    exact ⟨0, _, rfl, ⟨fun z hlit => absurd hlit not_literal_nil, fun _ value =>
      queryText_eq value hget (by simp) (by decide)⟩, fun other hne =>
      h.others_new hroom hnul k.isKey htag other.plainWord hne⟩

end Puts

/-! ## The option -/

section Option

variable {m : Mem} {n : ℕ}

/-- Behind the new END stands a NUL: of the buffer, or just behind it. -/
theorem WellFormed.nul_behind (h : WellFormed m n) (hroom : 80 * (n + 2) ≤ totalSize)
    (hnul : 80 * (n + 2) = totalSize → m totalSize = 0) : m (80 * (n + 2)) = 0 := by
  rcases Nat.lt_or_eq_of_le hroom with hlt | heq
  · exact h.rest _ (by omega) hlt
  · rw [heq]
    exact hnul heq

/-- The empty string, as a value. -/
def emptyValue : OptionValue where
  text := CString.empty
  short := by decide
  unquoted := by decide
  trimmed := by decide

theorem WellFormed.stores_empty (h : WellFormed m n) (hroom : 80 * (n + 2) ≤ totalSize)
    (k : ToolKey) : StoresWhen m n k [] (hputs m k.text CString.empty) (CommentsFit m n k.key) := by
  have hstores := h.stores_hputs hroom k emptyValue (.inl rfl)
  have hreturn : 1 < emptyValue.text.bytes.length → emptyValue.text.bytes.getLast? ≠ some 13 :=
    fun hlong => absurd hlong (by decide)
  exact hstores.congr ((and_iff_left hreturn).trans roomForComment_nil)

theorem WellFormed.stores_option (h : WellFormed m n) (hroom : 80 * (n + 2) ≤ totalSize)
    (printed : CString → DoubleText) (arg : OptionArg) :
    StoresWhen m n arg.key.tool arg.value (storeOption printed m arg.text)
      (OptionMeets m n arg) := by
  cases arg with
  | bare k =>
    show StoresWhen m n k.tool [] (storeOption printed m k.tool.text) (CommentsFit m n k.tool.key)
    rw [storeOption_bare]
    exact h.stores_empty hroom k.tool
  | assign k V =>
    show StoresWhen m n k.tool V.text.bytes (storeOption printed m (equation k.tool.text V.text)) _
    rw [OptionMeets]
    by_cases hnil : V.text.bytes = []
    · have hempty : V.text = CString.empty := CString.ext hnil
      rw [storeOption_empty k.tool hnil, if_pos hnil, hempty]
      by_cases hshort : k.tool.text.bytes.length < 8
      · rw [if_pos hshort]
        exact h.stores_equals hroom hshort
      · have hlong : k.tool.text.bytes.length = 8 := le_antisymm k.short (Nat.not_lt.mp hshort)
        rw [if_neg hshort, hputs_equals_long hlong]
        exact h.stores_empty hroom k.tool
    · rw [storeOption_value k.tool hnil, if_neg hnil]
      by_cases hinteger : (strtoll V.text.bytes).2 = []
      · rw [if_pos hinteger, if_neg fun hnot => hnot.1 hinteger]
        exact h.stores_hputi8 hroom k.tool hnil hinteger
      · rw [if_neg hinteger]
        by_cases hdouble : strtodRest V.text.bytes = []
        · rw [if_pos hdouble, if_neg fun hnot => hnot.2 hdouble]
          exact h.stores_hputr8 hroom k.tool hnil hinteger hdouble _
        · rw [if_neg hdouble, if_pos ⟨hinteger, hdouble⟩]
          exact h.stores_hputs hroom k.tool V (.inr ⟨hinteger, hdouble⟩)

/-- **The option stores what it says** only if it meets the condition, in every well-formed
buffer with room for a record, and whenever it does, unless the record fills the buffer to
its last byte and no NUL follows. -/
theorem option_stored_iff (printed : CString → DoubleText) (m : Mem) (n : ℕ) (arg : OptionArg)
    (h : WellFormed m n) (hroom : 80 * (n + 2) ≤ totalSize) :
    (OptionStored printed m arg → OptionMeets m n arg) ∧
      ((80 * (n + 2) = totalSize → m totalSize = 0) →
        (OptionStored printed m arg ↔ OptionMeets m n arg)) := by
  have hstores := h.stores_option hroom printed arg
  refine ⟨hstores.needs, fun hnul => ⟨hstores.needs, ?_⟩⟩
  exact hstores.stores (h.nul_behind hroom hnul)

/-- `GAIN`, as the key of an option. -/
def gainOptionKey : OptionKey where
  tool := gainToolKey
  short := by decide
  noMinus := by decide

/-- `"0x1F"`. -/
def hexValue : OptionValue where
  text := ⟨[48, 120, 49, 70], forall_mem_of_all (by decide)⟩
  short := by decide
  unquoted := by decide
  trimmed := by decide

/-- The text of 31. -/
def printed31 : CString → DoubleText := fun _ =>
  ⟨⟨[51, 49], forall_mem_of_all (by decide)⟩, by decide, by decide⟩

theorem gain_absent {r : ℕ} (hr : r < 1) :
    ¬ SameKey gainToolKey.key (recordKey (clearedBuffer noBytes 3) (80 * r)) := by
  obtain rfl : r = 0 := by omega
  rw [clearedBuffer_key]
  decide

theorem option_stored_hex :
    OptionStored printed31 (clearedBuffer noBytes 3) (.assign gainOptionKey hexValue) := by
  refine ((option_stored_iff printed31 (clearedBuffer noBytes 3) 1
    (.assign gainOptionKey hexValue) (clear_wellFormed noBytes 3).2 (by decide)).2
    fun h => absurd h (by decide)).mpr ?_
  have hread : strtoll hexValue.text.bytes = (31, []) := by decide
  have hnumber : ¬ NotNumber hexValue.text.bytes := by decide
  rw [OptionMeets, if_neg (by decide), if_neg hnumber]
  refine ⟨fun r hr hsame => absurd hsame (gain_absent hr), fun z hlit => ?_⟩
  have hclamp := congrArg Prod.fst (hread.symm.trans (strtoll_literal hlit))
  dsimp only at hclamp
  omega

/-- A cleared buffer with GAIN put to 1. -/
def gainBuffer : Mem :=
  appended (clearedBuffer noBytes 3) 1 (cardByte (keyword8 gainToolKey.text) (intText 1))

theorem gainBuffer_card : CardLine (cardByte (keyword8 gainToolKey.text) (intText 1))
    (keyword8 gainToolKey.text) :=
  cardByte_cardLine (keyword8_fits _) (prints_int32 1).fits

theorem gainBuffer_wellFormed : WellFormed gainBuffer 2 :=
  (clear_wellFormed noBytes 3).2.append (by decide) gainToolKey.isKey gainBuffer_card (by decide)
    fun _ hr => gain_absent hr

/-- **`-o GAIN=` leaves the old value**, which is not empty. -/
theorem empty_value_not_stored :
    ¬ ∀ (printed : CString → DoubleText) (m : Mem) (n : ℕ) (arg : OptionArg), WellFormed m n →
      80 * (n + 2) ≤ totalSize → (80 * (n + 2) = totalSize → m totalSize = 0) →
        OptionStored printed m arg := by
  intro hall
  have hstored := hall printed31 gainBuffer 2 (.assign gainOptionKey emptyValue)
    gainBuffer_wellFormed (by decide) fun h => absurd h (by decide)
  have hrun : storeOption printed31 gainBuffer (equation gainToolKey.text CString.empty) =
      hputs gainBuffer (equation gainToolKey.text CString.empty) CString.empty :=
    storeOption_empty gainToolKey rfl
  have hstores : Stores gainBuffer gainToolKey []
      (storeOption printed31 gainBuffer (equation gainToolKey.text CString.empty)) := hstored
  rw [hrun] at hstores
  have hempty := (gainBuffer_wellFormed.stores_equals (by decide) (by decide)).needs hstores
  have hkey : recordKey gainBuffer (80 * 1) = keyword8 gainToolKey.text :=
    recordKey_overlay gainBuffer_card gainToolKey.isKey (by omega)
  have hvalue : valueText (lineAt gainBuffer (80 * 1)) = intText 1 := by
    refine valueText_intLine gainToolKey.isKey.short gainToolKey.plain (by norm_num) (by norm_num)
      fun j hj => ?_
    exact lineAt_written (gainBuffer_card.tag gainToolKey.isKey.short) hj
  have hnil := hempty 1 (by decide) (by rw [hkey]; exact SameKey.refl _)
  rw [hvalue] at hnil
  exact absurd hnil (by decide)

end Option

end Hashpipe.Status
