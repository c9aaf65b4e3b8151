import Mathlib.Tactic
import Hashpipe.Library.ByteMemory

/-!
# Searching the status text

The status buffer is text in lines of 80 columns.  `ksearch` looks for a keyword in
the raw text, ignoring case: a match counts when it starts in the first eight columns
of its line behind blanks only and the next character ends the keyword.  `blsearch`
finds the first of the blank lines before a keyword's line, and `gethlength` the end
of the END line.

`searchLoop_spec` says that the loop returns the line of the first `Hit` in reach of
the text.  `KeyLine.hit_iff` says what a hit is on a line that holds a keyword, and
`TagTable.searchText` and `TagTable.searchText_absent` what follows for a table of such
lines.
-/

namespace Hashpipe.Status

open ByteMemory

/-- `"END"`. -/
def endKey : List UInt8 := [69, 78, 68]

/-- The letter in the opposite case, as `strncsrch` prepares it. -/
def flipCase (c : UInt8) : UInt8 :=
  if 96 < c ∧ c < 123 then c - 32 else if 64 < c ∧ c < 91 then c + 32 else c

def sameLetter (c p : UInt8) : Bool := c == p || c == flipCase p

/-- The first character, the last one, then the others. -/
def matchesAt (s1 : Mem) (s2 : List UInt8) (s : ℕ) : Bool :=
  let ls2 := s2.length
  sameLetter (s1 s) (chars s2 0) &&
    (ls2 == 1 || (sameLetter (s1 (s + (ls2 - 1))) (chars s2 (ls2 - 1)) &&
      (ls2 == 2 || (List.range' 1 (ls2 - 1)).all fun i => sameLetter (s1 (s + i)) (chars s2 i))))

/-- Find `s2` in the `ls1` characters from `s1` on. -/
def strncsrch (m : Mem) (s1 : ℕ) (s2 : List UInt8) (ls1 : ℕ) : Option ℕ :=
  if s2 = [] then some s1
  else if ls1 = 0 then none
  else firstFrom (matchesAt m s2) s1 (ls1 + 1 - s2.length)

/-- The three tests on a match.  A `char` from 128 on is negative where it is signed
and above 127 where it is not: it ends a keyword either way. -/
def accepted (hstring : Mem) (key : List UInt8) (loc : ℕ) : Bool :=
  let icol := loc % 80
  let nextchar := hstring (loc + key.length)
  decide (icol ≤ 7) && !(decide (nextchar ≠ 61) && decide (32 < nextchar) && decide (nextchar < 127)) &&
    (List.range icol).all fun j => hstring (loc - icol + j) == 32

/-- The search loop, which `ksearch` and `blsearch` share. -/
def searchLoop (hstring : Mem) (key : List UInt8) (headlast : ℕ) : ℕ → ℕ → Option ℕ
  | 0, _ => none
  | fuel + 1, headnext =>
    if headnext < headlast then
      match strncsrch hstring headnext key (headlast - headnext) with
      | none => none
      | some loc =>
        if accepted hstring key loc then some (loc - loc % 80)
        else searchLoop hstring key headlast fuel (loc + 1)
    else none

/-- `lmax`. -/
def headLimit : ℕ := 256000

/-- Search from the start to the first NUL, wherever that is: `HasNul` says when the scan for
it ends in the buffer. -/
def searchText (hstring : Mem) (key : List UInt8) : Option ℕ :=
  let lhead := textLength hstring headLimit
  searchLoop hstring key lhead lhead 0

/-- Find the line of a keyword, of which eight characters count. -/
def ksearch (hstring : Mem) (keyword : List UInt8) : Option ℕ := searchText hstring (keyword.take 8)

/-- The first eight columns of the line are blank. -/
def blankLine (hstring : Mem) (line : ℕ) : Bool :=
  (List.range 8).all fun j => hstring (line + j) == 32

/-- The number of lines up to the last one that is not blank, of the first `lines`. -/
def lastNonblank (hstring : Mem) : ℕ → ℕ
  | 0 => 0
  | lines + 1 => if blankLine hstring (80 * lines) then lastNonblank hstring lines else lines + 1

/-- Find the first of the blank lines just before a keyword's line.  Where all lines before it
are blank the source goes on to the 80 bytes before the buffer (`blsearchUnderruns`); here it
stops at the first line. -/
def blsearch (hstring : Mem) (keyword : List UInt8) : Option ℕ :=
  match searchText hstring keyword with
  | none => none
  | some pval =>
    if pval = 0 then none
    else
      let bval := 80 * lastNonblank hstring (pval / 80)
      if bval < pval then some bval else none

/-- Every line before the keyword's line is blank, and there is one: `blsearch` compares the
bytes before the buffer too. -/
def blsearchUnderruns (hstring : Mem) (keyword : List UInt8) : Bool :=
  match searchText hstring keyword with
  | none => false
  | some pval => decide (pval ≠ 0) && decide (lastNonblank hstring (pval / 80) = 0)

/-- Where the END line ends: no header length is ever set, so it is always computed. -/
def gethlength (hstring : Mem) : Option ℕ := (ksearch hstring endKey).map (· + 80)

/-! ## Case -/

/-- Lower case letters become upper case. -/
def foldCase (c : UInt8) : UInt8 := if 96 < c ∧ c < 123 then c - 32 else c

/-- The two comparisons of the search ignore case. -/
theorem sameLetter_iff {c p : UInt8} : sameLetter c p = true ↔ foldCase c = foldCase p := by
  simp only [sameLetter, Bool.or_eq_true, beq_iff_eq, flipCase, foldCase, UInt8.lt_iff_toNat_lt,
    ← UInt8.toNat_inj]
  split_ifs <;> simp_all [UInt8.toNat_sub, UInt8.toNat_add] <;> omega

/-- A character that cannot continue a keyword. -/
def EndsKey (c : UInt8) : Prop := c = 61 ∨ c ≤ 32 ∨ 127 ≤ c

instance (c : UInt8) : Decidable (EndsKey c) := inferInstanceAs (Decidable (_ ∨ _ ∨ _))

/-- Ending a keyword does not depend on the case. -/
theorem EndsKey.of_foldCase {c p : UInt8} (hc : EndsKey c) (h : foldCase c = foldCase p) :
    EndsKey p := by
  simp only [EndsKey, foldCase, UInt8.lt_iff_toNat_lt, UInt8.le_iff_toNat_le, ← UInt8.toNat_inj]
    at *
  split_ifs at h <;> simp_all [UInt8.toNat_sub] <;> omega

theorem foldCase_eq_blank {c : UInt8} : foldCase c = 32 ↔ c = 32 := by
  simp only [foldCase, UInt8.lt_iff_toNat_lt, ← UInt8.toNat_inj]
  split_ifs
  · simp_all [UInt8.toNat_sub]
    omega
  · rfl

theorem foldCase_eq_equals {c : UInt8} : foldCase c = 61 ↔ c = 61 := by
  simp only [foldCase, UInt8.lt_iff_toNat_lt, ← UInt8.toNat_inj]
  split_ifs
  · simp_all [UInt8.toNat_sub]
    omega
  · rfl

/-! ## Hits -/

/-- The text at `loc` is the key, up to case. -/
def Same (m : Mem) (key : List UInt8) (loc : ℕ) : Prop :=
  ∀ i < key.length, foldCase (m (loc + i)) = foldCase (chars key i)

theorem matchesAt_iff {m : Mem} {key : List UInt8} {loc : ℕ} (hkey : key ≠ []) :
    matchesAt m key loc = true ↔ Same m key loc := by
  have hlen : 1 ≤ key.length := List.length_pos_iff.mpr hkey
  simp only [matchesAt, Bool.and_eq_true, Bool.or_eq_true, beq_iff_eq, List.all_eq_true,
    List.mem_range', sameLetter_iff, Same]
  constructor
  · intro ⟨hfirst, hrest⟩ i hi
    by_cases h0 : i = 0
    · subst h0
      exact hfirst
    · rcases hrest with h1 | ⟨hlast, h2 | hall⟩
      · omega
      · have : i = key.length - 1 := by omega
        rw [this]
        exact hlast
      · exact hall i ⟨i - 1, by omega, by omega⟩
  · intro hsame
    refine ⟨hsame 0 hlen, ?_⟩
    by_cases h1 : key.length = 1
    · exact .inl h1
    · refine .inr ⟨hsame _ (by omega), .inr ?_⟩
      rintro i ⟨j, hj, rfl⟩
      exact hsame _ (by omega)

/-- A match that passes the three tests. -/
structure Hit (m : Mem) (key : List UInt8) (loc : ℕ) : Prop where
  same : Same m key loc
  column : loc % 80 ≤ 7
  next : EndsKey (m (loc + key.length))
  before : ∀ j < loc % 80, m (loc - loc % 80 + j) = 32

theorem accepted_iff {m : Mem} {key : List UInt8} {loc : ℕ} (hsame : Same m key loc) :
    accepted m key loc = true ↔ Hit m key loc := by
  have hnext : (!(decide (m (loc + key.length) ≠ 61) && decide (32 < m (loc + key.length)) &&
      decide (m (loc + key.length) < 127))) = true ↔ EndsKey (m (loc + key.length)) := by
    simp only [EndsKey, Bool.not_eq_true', Bool.and_eq_false_iff, decide_eq_false_iff_not,
      not_not, UInt8.not_lt, or_assoc]
  simp only [accepted, Bool.and_eq_true, decide_eq_true_eq, hnext, List.all_eq_true,
    List.mem_range, beq_iff_eq]
  constructor
  · intro ⟨⟨hcol, hend⟩, hblank⟩
    exact ⟨hsame, hcol, hend, hblank⟩
  · intro h
    exact ⟨⟨h.column, h.next⟩, h.before⟩

/-- The first match at or behind `s1`. -/
theorem strncsrch_spec {m : Mem} {s1 ls1 : ℕ} {key : List UInt8} (hls : 0 < ls1) :
    (∃ loc, strncsrch m s1 key ls1 = some loc ∧ s1 ≤ loc ∧ loc < s1 + ls1 ∧
        loc + key.length ≤ s1 + ls1 ∧ Same m key loc ∧
        ∀ j, s1 ≤ j → j < loc → ¬ Same m key j) ∨
      (strncsrch m s1 key ls1 = none ∧
        ∀ loc, s1 ≤ loc → loc + key.length ≤ s1 + ls1 → ¬ Same m key loc) := by
  by_cases hkey : key = []
  · subst hkey
    refine .inl ⟨s1, by simp [strncsrch], le_rfl, by omega, by simp, ?_, fun j hj hlt => by omega⟩
    intro i hi
    cases hi
  · have hlen : 1 ≤ key.length := List.length_pos_iff.mpr hkey
    rw [strncsrch, if_neg hkey, if_neg (by omega)]
    cases hfirst : firstFrom (matchesAt m key) s1 (ls1 + 1 - key.length) with
    | some loc =>
      obtain ⟨hs, hn, hmatch, hbefore⟩ := firstFrom_eq_some.mp hfirst
      refine .inl ⟨loc, rfl, hs, by omega, by omega, (matchesAt_iff hkey).mp hmatch, ?_⟩
      intro j hj hlt hsame
      have := hbefore j hj hlt
      rw [(matchesAt_iff hkey).mpr hsame] at this
      cases this
    | none =>
      refine .inr ⟨rfl, fun loc hs hn hsame => ?_⟩
      have := firstFrom_eq_none.mp hfirst loc hs (by omega)
      rw [(matchesAt_iff hkey).mpr hsame] at this
      cases this

/-- The key starts and ends in the text. -/
def InText (headlast : ℕ) (key : List UInt8) (loc : ℕ) : Prop :=
  loc < headlast ∧ loc + key.length ≤ headlast

/-- **The search loop** returns the line of the first hit, and null if there is none:
its fuel never runs out. -/
theorem searchLoop_spec {m : Mem} {key : List UInt8} {headlast fuel headnext : ℕ}
    (hfuel : headlast ≤ headnext + fuel) :
    (∃ loc, headnext ≤ loc ∧ InText headlast key loc ∧ Hit m key loc ∧
        (∀ j, headnext ≤ j → j < loc → ¬ Hit m key j) ∧
        searchLoop m key headlast fuel headnext = some (loc - loc % 80)) ∨
      ((∀ loc, headnext ≤ loc → InText headlast key loc → ¬ Hit m key loc) ∧
        searchLoop m key headlast fuel headnext = none) := by
  induction fuel generalizing headnext with
  | zero => exact .inr ⟨fun loc hle hin _ => by have := hin.1; omega, rfl⟩
  | succ fuel ih =>
    rw [searchLoop]
    by_cases hlt : headnext < headlast
    · rw [if_pos hlt]
      rcases @strncsrch_spec m headnext _ key (Nat.sub_pos_of_lt hlt) with
        ⟨loc, hsrch, hge, hin, hend, hsame, hbefore⟩ | ⟨hsrch, hnone⟩
      · rw [hsrch]
        dsimp only
        have hskip : ∀ j, headnext ≤ j → j < loc → ¬ Hit m key j := fun j hj hjl hit =>
          hbefore j hj hjl hit.same
        by_cases hacc : accepted m key loc = true
        · rw [if_pos hacc]
          exact .inl ⟨loc, hge, ⟨by omega, by omega⟩, (accepted_iff hsame).mp hacc, hskip, rfl⟩
        · rw [if_neg hacc]
          have hmiss : ¬ Hit m key loc := fun hit => hacc ((accepted_iff hsame).mpr hit)
          have hextend : ∀ j, headnext ≤ j → j < loc + 1 → ¬ Hit m key j := fun j hj hjl => by
            rcases Nat.lt_succ_iff_lt_or_eq.mp hjl with h | rfl
            · exact hskip j hj h
            · exact hmiss
          rcases @ih (loc + 1) (by omega) with
            ⟨loc', hge', hin', hit', hskip', heq⟩ | ⟨hnone, heq⟩
          · refine .inl ⟨loc', by omega, hin', hit', fun j hj hjl => ?_, heq⟩
            by_cases hj' : j < loc + 1
            · exact hextend j hj hj'
            · exact hskip' j (by omega) hjl
          · refine .inr ⟨fun j hj hjin => ?_, heq⟩
            by_cases hj' : j < loc + 1
            · exact hextend j hj hj'
            · exact hnone j (by omega) hjin
      · rw [hsrch]
        exact .inr ⟨fun loc hge hin hit => hnone loc hge (by have := hin.2; omega) hit.same, rfl⟩
    · rw [if_neg hlt]
      exact .inr ⟨fun loc hge hin _ => by have := hin.1; omega, rfl⟩

theorem searchText_eq_some {m : Mem} {key : List UInt8} {t : ℕ} :
    searchText m key = some t ↔
      ∃ loc, t = loc - loc % 80 ∧ InText (textLength m headLimit) key loc ∧ Hit m key loc ∧
        ∀ j < loc, ¬ Hit m key j := by
  rcases @searchLoop_spec m key (textLength m headLimit) (textLength m headLimit) 0 (by omega) with
    ⟨loc, -, hin, hit, hbefore, heq⟩ | ⟨hnone, heq⟩
  · rw [searchText, heq, Option.some.injEq]
    constructor
    · intro h
      exact ⟨loc, h.symm, hin, hit, fun j hj => hbefore j (Nat.zero_le j) hj⟩
    · intro ⟨loc', ht, hin', hit', hbefore'⟩
      have hle : loc ≤ loc' := by
        by_contra hlt
        exact hbefore loc' (Nat.zero_le _) (by omega) hit'
      have hge : loc' ≤ loc := by
        by_contra hlt
        exact hbefore' loc (by omega) hit
      rw [ht, le_antisymm hle hge]
  · rw [searchText, heq]
    constructor
    · intro h
      cases h
    · intro ⟨loc, _, hin, hit, _⟩
      exact absurd hit (hnone loc (Nat.zero_le _) hin)

theorem searchText_eq_none {m : Mem} {key : List UInt8} :
    searchText m key = none ↔
      ∀ loc, InText (textLength m headLimit) key loc → ¬ Hit m key loc := by
  rcases @searchLoop_spec m key (textLength m headLimit) (textLength m headLimit) 0 (by omega) with
    ⟨loc, -, hin, hit, -, heq⟩ | ⟨hnone, heq⟩
  · rw [searchText, heq]
    constructor
    · intro h
      cases h
    · intro h
      exact absurd hit (h loc hin)
  · rw [searchText, heq]
    exact ⟨fun _ loc hin => hnone loc (Nat.zero_le _) hin, fun _ => rfl⟩

/-! ## Lines that hold a keyword -/

/-- A character a keyword is made of. -/
def KeyChar (c : UInt8) : Prop := 32 < c ∧ c < 127 ∧ c ≠ 61

instance (c : UInt8) : Decidable (KeyChar c) := inferInstanceAs (Decidable (_ ∧ _ ∧ _))

theorem KeyChar.not_endsKey {c : UInt8} (h : KeyChar c) : ¬ EndsKey c := by
  rintro (h61 | hle | hge)
  · exact h.2.2 h61
  · exact UInt8.not_le.mpr h.1 hle
  · exact UInt8.not_le.mpr h.2.1 hge

theorem KeyChar.ne_blank {c : UInt8} (h : KeyChar c) : c ≠ 32 := by
  rintro rfl
  exact absurd h.1 (by decide)

theorem KeyChar.ne_zero {c : UInt8} (h : KeyChar c) : c ≠ 0 := by
  rintro rfl
  exact absurd h.1 (by decide)

/-- One to eight characters of a keyword. -/
structure IsKey (key : List UInt8) : Prop where
  nonempty : 1 ≤ key.length
  short : key.length ≤ 8
  char : ∀ c ∈ key, KeyChar c

theorem IsKey.charAt {key : List UInt8} (h : IsKey key) {i : ℕ} (hi : i < key.length) :
    KeyChar (chars key i) := h.char _ (chars_mem hi)

theorem IsKey.take {key : List UInt8} (h : IsKey key) : key.take 8 = key :=
  List.take_of_length_le h.short

theorem endKey_isKey : IsKey endKey where
  nonempty := by decide
  short := by decide
  char := forall_mem_of_all (by decide)

/-- The line at `a` holds `key`, padded with blanks to eight columns, and `=` or a blank. -/
structure KeyLine (m : Mem) (a : ℕ) (key : List UInt8) : Prop where
  aligned : a % 80 = 0
  name : ∀ j < key.length, m (a + j) = chars key j
  pad : ∀ j, key.length ≤ j → j < 8 → m (a + j) = 32
  sep : m (a + 8) = 61 ∨ m (a + 8) = 32

/-- Two keys name the same entry. -/
def SameKey (key key' : List UInt8) : Prop := key.map foldCase = key'.map foldCase

instance (key key' : List UInt8) : Decidable (SameKey key key') :=
  inferInstanceAs (Decidable (_ = _))

theorem SameKey.refl (key : List UInt8) : SameKey key key := rfl

theorem SameKey.symm {key key' : List UInt8} (h : SameKey key key') : SameKey key' key := Eq.symm h

theorem SameKey.trans {a b c : List UInt8} (h : SameKey a b) (h' : SameKey b c) : SameKey a c :=
  Eq.trans h h'

theorem SameKey.length {key key' : List UInt8} (h : SameKey key key') :
    key.length = key'.length := by
  simpa using congrArg List.length h

theorem SameKey.charAt {key key' : List UInt8} (h : SameKey key key') {i : ℕ}
    (hi : i < key.length) : foldCase (chars key i) = foldCase (chars key' i) := by
  have hi' : i < key'.length := h.length ▸ hi
  have := congrArg (·[i]?) h
  simpa [chars_lt, hi, hi'] using this

theorem sameKey_of_charAt {key key' : List UInt8} (hlen : key.length = key'.length)
    (h : ∀ i < key.length, foldCase (chars key i) = foldCase (chars key' i)) :
    SameKey key key' := by
  refine List.ext_getElem (by simpa using hlen) fun i hi hi' => ?_
  rw [List.length_map] at hi hi'
  have := h i hi
  rw [chars_lt hi, chars_lt hi'] at this
  simpa using this

/-- The line at `a` starts with `key` and a character that ends it. -/
structure TagLine (m : Mem) (a : ℕ) (key : List UInt8) : Prop where
  aligned : a % 80 = 0
  name : ∀ j < key.length, m (a + j) = chars key j
  next : EndsKey (m (a + key.length))

theorem KeyLine.tag {m : Mem} {a : ℕ} {key : List UInt8} (hline : KeyLine m a key)
    (hshort : key.length ≤ 8) : TagLine m a key where
  aligned := hline.aligned
  name := hline.name
  next := by
    rcases Nat.lt_or_eq_of_le hshort with hlt | h8
    · rw [hline.pad _ le_rfl hlt]
      exact .inr (.inl (by decide))
    · rw [h8]
      rcases hline.sep with h | h
      · rw [h]
        exact .inl rfl
      · rw [h]
        exact .inr (.inl (by decide))

/-- On a line that starts with a keyword, the only hit is the keyword itself. -/
theorem TagLine.hit_iff {m : Mem} {a loc : ℕ} {key key' : List UInt8} (hline : TagLine m a key')
    (hkey' : IsKey key') (hkey : IsKey key) (hloc : loc - loc % 80 = a) :
    Hit m key loc ↔ loc = a ∧ SameKey key key' := by
  have hshort := hkey.short
  have hshort' := hkey'.short
  constructor
  · intro hit
    have hcol : loc % 80 = 0 := by
      by_contra hpos
      have hblank := hit.before 0 (by omega)
      rw [hloc, hline.name 0 hkey'.nonempty] at hblank
      exact (hkey'.charAt hkey'.nonempty).ne_blank hblank
    have hla : loc = a := by omega
    subst hla
    have hend := hit.next
    have hle : key.length ≤ key'.length := by
      by_contra hlt
      have hsame := hit.same key'.length (by omega)
      exact (hkey.charAt (by omega)).not_endsKey (hline.next.of_foldCase hsame)
    have hge : key'.length ≤ key.length := by
      by_contra hlt
      rw [hline.name _ (by omega)] at hend
      exact (hkey'.charAt (by omega)).not_endsKey hend
    refine ⟨rfl, sameKey_of_charAt (by omega) fun i hi => ?_⟩
    rw [← hline.name i (by omega)]
    exact (hit.same i hi).symm
  · rintro ⟨rfl, hsame⟩
    have hlen := hsame.length
    have haligned := hline.aligned
    refine ⟨fun i hi => ?_, by omega, ?_, fun j hj => by omega⟩
    · rw [hline.name i (by omega)]
      exact (hsame.charAt hi).symm
    · rw [hlen]
      exact hline.next

/-- The first `N` lines of the memory start with the keywords `keys`, and hold no NUL. -/
structure TagTable (m : Mem) (N : ℕ) (keys : ℕ → List UInt8) : Prop where
  bound : 80 * N ≤ headLimit
  isKey : ∀ r < N, IsKey (keys r)
  line : ∀ r < N, TagLine m (80 * r) (keys r)
  text : ∀ i < 80 * N, m i ≠ 0

/-- What counts as a hit in a table. -/
theorem TagTable.hit_iff {m : Mem} {N : ℕ} {keys : ℕ → List UInt8} (ht : TagTable m N keys)
    {key : List UInt8} (hkey : IsKey key) {loc : ℕ} (hloc : loc < 80 * N) :
    Hit m key loc ↔ loc = 80 * (loc / 80) ∧ SameKey key (keys (loc / 80)) :=
  (ht.line (loc / 80) (by omega)).hit_iff (ht.isKey _ (by omega)) hkey (by omega)

/-- The search finds the first line that starts with the key. -/
theorem TagTable.searchText {m : Mem} {N : ℕ} {keys : ℕ → List UInt8} (ht : TagTable m N keys)
    {key : List UInt8} (hkey : IsKey key) {r : ℕ} (hr : r < N) (hsame : SameKey key (keys r))
    (hfirst : ∀ s < r, ¬ SameKey key (keys s)) :
    Status.searchText m key = some (80 * r) := by
  refine searchText_eq_some.mpr ⟨80 * r, by omega, ?_, ?_, fun j hj hit => ?_⟩
  · have hlen := hkey.short
    have : 80 * N ≤ textLength m headLimit := le_textLength.mpr ⟨ht.bound, ht.text⟩
    exact ⟨by omega, by omega⟩
  · refine (ht.hit_iff hkey (by omega)).mpr ⟨by omega, ?_⟩
    rw [show 80 * r / 80 = r by omega]
    exact hsame
  · exact hfirst (j / 80) (by omega) ((ht.hit_iff hkey (by omega)).mp hit).2

/-- The text that a NUL behind a table ends. -/
theorem TagTable.reach {m : Mem} {N : ℕ} {keys : ℕ → List UInt8} (ht : TagTable m N keys)
    (hend : m (80 * N) = 0) : textLength m headLimit = 80 * N := by
  refine le_antisymm ?_ (le_textLength.mpr ⟨ht.bound, ht.text⟩)
  by_contra hlt
  exact (le_textLength.mp (Nat.le_of_lt_succ (Nat.lt_succ_of_le (Nat.not_le.mp hlt)))).2 _
    (Nat.lt_succ_self _) hend

/-- The search of a table with a NUL behind it finds no other key. -/
theorem TagTable.searchText_absent {m : Mem} {N : ℕ} {keys : ℕ → List UInt8}
    (ht : TagTable m N keys) {key : List UInt8} (hkey : IsKey key) (hend : m (80 * N) = 0)
    (hnone : ∀ s < N, ¬ SameKey key (keys s)) : Status.searchText m key = none := by
  refine searchText_eq_none.mpr fun loc hin hit => ?_
  rw [ht.reach hend] at hin
  exact hnone (loc / 80) (by have := hin.1; omega) ((ht.hit_iff hkey hin.1).mp hit).2

/-- On a line that holds a keyword, the only hit is the keyword itself. -/
theorem KeyLine.hit_iff {m : Mem} {a loc : ℕ} {key key' : List UInt8} (hline : KeyLine m a key')
    (hkey' : IsKey key') (hkey : IsKey key) (hloc : loc - loc % 80 = a) :
    Hit m key loc ↔ loc = a ∧ SameKey key key' :=
  (hline.tag hkey'.short).hit_iff hkey' hkey hloc

/-- The first `N` lines of the memory hold the keywords `keys`, and no NUL. -/
structure KeyTable (m : Mem) (N : ℕ) (keys : ℕ → List UInt8) : Prop where
  bound : 80 * N ≤ headLimit
  isKey : ∀ r < N, IsKey (keys r)
  line : ∀ r < N, KeyLine m (80 * r) (keys r)
  text : ∀ i < 80 * N, m i ≠ 0

theorem KeyTable.tags {m : Mem} {N : ℕ} {keys : ℕ → List UInt8} (ht : KeyTable m N keys) :
    TagTable m N keys where
  bound := ht.bound
  isKey := ht.isKey
  line := fun r hr => (ht.line r hr).tag (ht.isKey r hr).short
  text := ht.text

/-- No keyword has `=` in the first eight columns, so a key with `=` is not found. -/
theorem KeyTable.searchText_equals {m : Mem} {N : ℕ} {keys : ℕ → List UInt8}
    (ht : KeyTable m N keys) (hend : m (80 * N) = 0) {key : List UInt8} {i : ℕ}
    (hi : i < key.length) (h8 : i < 8) (h61 : chars key i = 61) :
    Status.searchText m key = none := by
  refine searchText_eq_none.mpr fun loc hin hit => ?_
  rw [ht.tags.reach hend] at hin
  have hline := ht.line (loc / 80) (by have := hin.1; omega)
  have hkey := ht.isKey (loc / 80) (by have := hin.1; omega)
  have hcol : loc % 80 = 0 := by
    by_contra hpos
    have hblank := hit.before 0 (by omega)
    rw [show loc - loc % 80 + 0 = 80 * (loc / 80) + 0 by omega, hline.name 0 hkey.nonempty] at hblank
    exact (hkey.charAt hkey.nonempty).ne_blank hblank
  have hsame := hit.same i hi
  rw [h61, show loc + i = 80 * (loc / 80) + i by omega] at hsame
  have hequals := foldCase_eq_equals.mp (hsame.trans (by decide))
  by_cases hname : i < (keys (loc / 80)).length
  · rw [hline.name i hname] at hequals
    exact (hkey.charAt hname).2.2 hequals
  · rw [hline.pad i (by omega) h8] at hequals
    exact absurd hequals (by decide)

/-- In a table no line is blank. -/
theorem KeyTable.blankLine {m : Mem} {N : ℕ} {keys : ℕ → List UInt8} (ht : KeyTable m N keys)
    {r : ℕ} (hr : r < N) : Status.blankLine m (80 * r) = false := by
  rw [← Bool.not_eq_true, Status.blankLine, List.all_eq_true]
  intro hall
  have hblank : m (80 * r + 0) = 32 := by simpa using hall 0 (by simp)
  rw [(ht.line r hr).name 0 (ht.isKey r hr).nonempty] at hblank
  exact ((ht.isKey r hr).charAt (ht.isKey r hr).nonempty).ne_blank hblank

/-- So there is no blank line to fill before a key. -/
theorem KeyTable.blsearch {m : Mem} {N : ℕ} {keys : ℕ → List UInt8} (ht : KeyTable m N keys)
    {key : List UInt8} {r : ℕ} (hr : r < N) (hfind : Status.searchText m key = some (80 * r)) :
    Status.blsearch m key = none := by
  rw [Status.blsearch, hfind]
  dsimp only
  split
  · rfl
  · have hlast : lastNonblank m (80 * r / 80) = r := by
      rw [show 80 * r / 80 = r by omega]
      obtain ⟨s, rfl⟩ : ∃ s, r = s + 1 := ⟨r - 1, by omega⟩
      rw [lastNonblank, ht.blankLine (by omega)]
      rfl
    rw [hlast, if_neg (lt_irrefl _)]

end Hashpipe.Status
