import Mathlib.Tactic
import Hashpipe.Library.StepSystem
import Hashpipe.Status.IntMap

/-!
# The capacity of the status buffer

The overflow test of `hputc` compares the end of the new line with a header length
that `gethlength` computes from the END line: the two are equal, so the test never
fires, and a put of a new key into a full buffer writes behind it
(`full_buffer_overflows`).

`safe_puts_stay_inside` gives the runs that stay inside: before each put there is a
blank line or room behind END for a new key, the line replaced otherwise lies in the
buffer and its comment fits, and a blank key does not wipe out the only END line.
-/

namespace Hashpipe.Status

open ByteMemory CNumber StepSystem

/-! ## END lines -/

/-- An END line starts at `e`. -/
def EndAt (m : Mem) (e : ℕ) : Prop :=
  ∃ loc, e = loc - loc % 80 ∧ InText (textLength m headLimit) endKey loc ∧ Hit m endKey loc

/-- The END line that searches find lies in the buffer. -/
def EndInside (m : Mem) : Prop := ∃ e, ksearch m endKey = some e ∧ e + 80 ≤ totalSize

theorem endAt_of_ksearch {m : Mem} {e : ℕ} (h : ksearch m endKey = some e) : EndAt m e := by
  obtain ⟨loc, heq, hin, hit, -⟩ := searchText_eq_some.mp h
  exact ⟨loc, heq, hin, hit⟩

/-- Any END line in the buffer is enough: searches find the first one. -/
theorem EndAt.inside {m : Mem} {e : ℕ} (h : EndAt m e) (he : e + 80 ≤ totalSize) :
    EndInside m := by
  obtain ⟨loc, heq, hin, hit⟩ := h
  cases hsearch : ksearch m endKey with
  | none => exact absurd hit (searchText_eq_none.mp hsearch loc hin)
  | some e' =>
    obtain ⟨loc', heq', -, -, hfirst⟩ := searchText_eq_some.mp hsearch
    have hle : loc' ≤ loc := by
      by_contra hlt
      exact hfirst loc (by omega) hit
    exact ⟨e', hsearch, by omega⟩

theorem inText_endKey {m : Mem} {loc : ℕ} :
    InText (textLength m headLimit) endKey loc ↔
      loc + 3 ≤ headLimit ∧ ∀ i < loc + 3, m i ≠ 0 := by
  rw [← le_textLength]
  constructor
  · intro h
    exact h.2
  · intro h
    exact ⟨by omega, h⟩

/-- A hit moves with its line. -/
theorem Hit.move {m m' : Mem} {key : List UInt8} {loc d : ℕ} (h : Hit m key loc)
    (hd : d % 80 = 0)
    (heq : ∀ i, loc - loc % 80 ≤ i → i ≤ loc + key.length → m' (i + d) = m i) :
    Hit m' key (loc + d) := by
  have hmod : (loc + d) % 80 = loc % 80 := by omega
  refine ⟨fun i hi => ?_, by rw [hmod]; exact h.column, ?_, fun j hj => ?_⟩
  · rw [show loc + d + i = loc + i + d by omega, heq _ (by omega) (by omega)]
    exact h.same i hi
  · rw [show loc + d + key.length = loc + key.length + d by omega, heq _ (by omega) (by omega)]
    exact h.next
  · rw [hmod] at hj ⊢
    rw [show loc + d - loc % 80 + j = loc - loc % 80 + j + d by omega, heq _ (by omega) (by omega)]
    exact h.before j hj

/-- Hits on the other lines stay. -/
theorem hit_overlay_other {m : Mem} {t loc : ℕ} {f : ℕ → UInt8} {key : List UInt8}
    (ht : t % 80 = 0) (hshort : key.length ≤ 8) (hne : loc - loc % 80 ≠ t) :
    Hit (overlay m t 80 f) key loc ↔ Hit m key loc := by
  constructor
  · intro hit
    have hcol := hit.column
    exact hit.move (d := 0) rfl fun i hi hi' => (overlay_outside (by omega)).symm
  · intro hit
    have hcol := hit.column
    exact hit.move (d := 0) rfl fun i hi hi' => overlay_outside (by omega)

/-- Writing another line, without NULs where it comes first, leaves an END line. -/
theorem EndAt.overlay_other {m : Mem} {e t : ℕ} {f : ℕ → UInt8} (h : EndAt m e)
    (ht : t % 80 = 0) (hne : t ≠ e) (hf : t < e → ∀ j < 80, f j ≠ 0) :
    EndAt (overlay m t 80 f) e := by
  obtain ⟨loc, heq, hin, hit⟩ := h
  have hcol := hit.column
  have hlen : endKey.length = 3 := rfl
  rw [inText_endKey] at hin
  refine ⟨loc, heq, inText_endKey.mpr ⟨hin.1, fun i hi => ?_⟩, ?_⟩
  · by_cases hline : t ≤ i ∧ i < t + 80
    · rw [overlay_inside (j := i - t) (by omega) (by omega)]
      exact hf (by omega) _ (by omega)
    · rw [overlay_outside (by omega)]
      exact hin.2 i hi
  · exact (hit_overlay_other ht (by decide) (by omega)).mpr hit

/-- Moving END down and writing a line without NULs in its place leaves END there. -/
theorem EndAt.moved {m : Mem} {e : ℕ} {f : ℕ → UInt8} (h : EndAt m e)
    (hlimit : e + 160 ≤ headLimit) (hf : ∀ j < 80, f j ≠ 0) :
    EndAt (overlay (strncpy m (e + 80) (ptr m e) 80) e 80 f) (e + 80) := by
  obtain ⟨loc, heq, hin, hit⟩ := h
  have hcol := hit.column
  have hlen : endKey.length = 3 := rfl
  rw [inText_endKey] at hin
  -- the copy of the END line, as far as it has no NUL
  have hcopy : ∀ i, e ≤ i → i ≤ loc + 3 →
      overlay (strncpy m (e + 80) (ptr m e) 80) e 80 f (i + 80) = m i := by
    intro i hi hi'
    have htext : ∀ k < i - e, ptr m e k ≠ 0 := fun k hk => hin.2 (e + k) (by omega)
    rw [overlay_outside (by omega), strncpy_inside (by omega) (by omega) htext, ptr_apply]
    congr 1
    omega
  refine ⟨loc + 80, by omega, inText_endKey.mpr ⟨by omega, fun i hi => ?_⟩,
    hit.move (d := 80) rfl fun i hi hi' => hcopy i (by omega) (by omega)⟩
  by_cases hold : i < e
  · rw [overlay_outside (by omega), strncpy_outside (by omega)]
    exact hin.2 i (by omega)
  · by_cases hline : i < e + 80
    · rw [overlay_inside (j := i - e) (by omega) (by omega)]
      exact hf _ (by omega)
    · obtain ⟨k, rfl⟩ : ∃ k, i = k + 80 := ⟨i - 80, by omega⟩
      rw [hcopy k (by omega) (by omega)]
      exact hin.2 k (by omega)

/-- The first character of a key that is no blank. -/
theorem first_nonblank {key : List UInt8} (hkey : ∃ c ∈ key, c ≠ 32) :
    ∃ p < key.length, chars key p ≠ 32 ∧ ∀ j < p, chars key j = 32 := by
  have hex : ∃ p, p < key.length ∧ chars key p ≠ 32 := by
    obtain ⟨c, hc, hne⟩ := hkey
    obtain ⟨p, hp, rfl⟩ := List.getElem_of_mem hc
    exact ⟨p, hp, by rw [chars_lt hp]; exact hne⟩
  obtain ⟨hp, hpblank⟩ := Nat.find_spec hex
  refine ⟨Nat.find hex, hp, hpblank, fun j hj => ?_⟩
  by_contra hne
  exact Nat.find_min hex hj ⟨by omega, hne⟩

/-- Two keys hit on the same line, END and one that starts with `p` blanks: both start
behind the line's blanks. -/
theorem Hit.meets_end {m : Mem} {key : List UInt8} {loc last p : ℕ} (hit : Hit m key loc)
    (hend : Hit m endKey last) (hline : loc - loc % 80 = last - last % 80) (hp : p < key.length)
    (hshort : key.length ≤ 8) (hpblank : chars key p ≠ 32) (hbefore : ∀ j < p, chars key j = 32) :
    loc + p = last := by
  have hcol := hit.column
  have hcol' := hend.column
  have hE : m last ≠ 32 := by
    intro h32
    have hsame := hend.same 0 (by decide)
    rw [Nat.add_zero, h32] at hsame
    exact absurd hsame (by decide)
  have hP : m (loc + p) ≠ 32 := by
    intro h32
    have hsame := hit.same p hp
    rw [h32] at hsame
    exact hpblank (foldCase_eq_blank.mp hsame.symm)
  rcases Nat.lt_trichotomy (loc + p) last with hlt | heq | hgt
  · have hblank := hend.before (loc + p - (last - last % 80)) (by omega)
    rw [show last - last % 80 + (loc + p - (last - last % 80)) = loc + p by omega] at hblank
    exact absurd hblank hP
  · exact heq
  · by_cases hfirst : last < loc
    · have hblank := hit.before (last - (loc - loc % 80)) (by omega)
      rw [show loc - loc % 80 + (last - (loc - loc % 80)) = last by omega] at hblank
      exact absurd hblank hE
    · have hsame := hit.same (last - loc) (by omega)
      rw [show loc + (last - loc) = last by omega, hbefore _ (by omega)] at hsame
      exact absurd (foldCase_eq_blank.mp hsame) hE

/-- Such a key goes on to the D at least, and spells END. -/
theorem Hit.spells_end {m : Mem} {key : List UInt8} {loc last p : ℕ} (hit : Hit m key loc)
    (hend : Hit m endKey last) (hp : p < key.length) (hmeet : loc + p = last) :
    p + 3 ≤ key.length ∧ ∀ i < 3, foldCase (chars key (p + i)) = foldCase (chars endKey i) := by
  have hlong : p + 3 ≤ key.length := by
    by_contra hlt
    obtain ⟨i, hi3, hi⟩ : ∃ i < 3, loc + key.length = last + i :=
      ⟨loc + key.length - last, by omega, by omega⟩
    have hnext := hit.next
    rw [hi] at hnext
    exact (endKey_isKey.charAt hi3).not_endsKey (hnext.of_foldCase (hend.same i hi3))
  refine ⟨hlong, fun i hi => ?_⟩
  have hsame := hit.same (p + i) (by omega)
  rw [show loc + (p + i) = last + i by omega] at hsame
  exact hsame.symm.trans (hend.same i hi)

/-- A key that is found on an END line, and is not blank, spells END itself: with the key
written over the line it is an END line still. -/
theorem EndAt.overlay_same {m : Mem} {e loc : ℕ} {f : ℕ → UInt8} {key : List UInt8}
    (h : EndAt m e) (hit : Hit m key loc) (hloc : loc - loc % 80 = e) (hshort : key.length ≤ 8)
    (hz : ∀ c ∈ key, c ≠ 0) (hkey : ∃ c ∈ key, c ≠ 32) (hname : ∀ j < key.length, f j = chars key j)
    (hpad : ∀ j, key.length ≤ j → j < 8 → f j = 32) (hsep : f 8 = 61) :
    EndAt (overlay m e 80 f) e := by
  obtain ⟨last, heq, hin, hend⟩ := h
  obtain ⟨p, hp, hpblank, hbefore⟩ := first_nonblank hkey
  have hmeet := hit.meets_end hend (hloc.trans heq) hp hshort hpblank hbefore
  obtain ⟨hlong, hspell⟩ := hit.spells_end hend hp hmeet
  rw [inText_endKey] at hin
  have hcol := hend.column
  have hlen : endKey.length = 3 := rfl
  have hline : ∀ j < 80, overlay m e 80 f (e + j) = f j := fun j hj => overlay_inside rfl hj
  have hchar : ∀ j < key.length, overlay m e 80 f (e + j) = chars key j := fun j hj =>
    (hline j (by omega)).trans (hname j hj)
  -- END stands where the key's first character was written
  refine ⟨e + p, by omega, inText_endKey.mpr ⟨by omega, fun i hi => ?_⟩, fun i hi => ?_, by omega,
    ?_, fun j hj => ?_⟩
  · by_cases hi' : i < e
    · rw [overlay_outside (by omega)]
      exact hin.2 i (by omega)
    · rw [show i = e + (i - e) by omega, hchar _ (by omega)]
      exact hz _ (chars_mem (by omega))
  · rw [Nat.add_assoc, hchar _ (by omega)]
    exact hspell i hi
  · rw [hlen, Nat.add_assoc]
    rcases Nat.lt_or_ge (p + 3) key.length with hlt | hge
    · rw [hchar _ hlt]
      have hsame := hit.same (p + 3) hlt
      rw [show loc + (p + 3) = last + 3 by omega] at hsame
      exact hend.next.of_foldCase hsame
    · rw [hline _ (by omega)]
      rcases Nat.lt_or_ge (p + 3) 8 with h8 | h8
      · rw [hpad _ hge h8]
        exact .inr (.inl (by decide))
      · rw [show p + 3 = 8 by omega, hsep]
        exact .inl rfl
  · have hmod : (e + p) % 80 = p := by omega
    rw [hmod] at hj
    rw [show e + p - (e + p) % 80 + j = e + j by omega, hchar _ (by omega)]
    exact hbefore j hj

/-! ## The puts -/

/-- The typed puts. -/
inductive PutOp
  | hputs (keyword cval : CString)
  | hputi4 (keyword : CString) (ival : Int32)
  | hputi8 (keyword : CString) (ival : Int64)
  | hputr8 (keyword : CString) (dval : DoubleText)

def PutOp.run (m : Mem) : PutOp → Except Fault (ℤ × Mem)
  | hputs keyword cval => Status.hputs m keyword cval
  | hputi4 keyword ival => Status.hputi4 m keyword ival
  | hputi8 keyword ival => Status.hputi8 m keyword ival
  | hputr8 keyword dval => Status.hputr8 m keyword dval

def PutOp.keyword : PutOp → CString
  | hputs keyword _ => keyword
  | hputi4 keyword _ => keyword
  | hputi8 keyword _ => keyword
  | hputr8 keyword _ => keyword

/-- The text a put hands to `hputc`. -/
def PutOp.text : PutOp → List UInt8
  | hputs keyword cval => if isCommentary keyword.bytes then cval.bytes else quote cval.bytes
  | hputi4 _ ival => intText ival.toInt
  | hputi8 _ ival => intText ival.toInt
  | hputr8 _ dval => fixnegzero dval.text.bytes

theorem PutOp.text_noNul (p : PutOp) : ∀ c ∈ p.text, c ≠ 0 := by
  cases p with
  | hputs keyword cval =>
    rw [PutOp.text]
    split
    · exact cval.noNul
    · exact quote_noNul cval.noNul
  | hputi4 keyword ival => exact intText_noNul _
  | hputi8 keyword ival => exact intText_noNul _
  | hputr8 keyword dval => exact (fixnegzero_fits dval).noNul

def PutOp.value (p : PutOp) : CString := ⟨p.text, p.text_noNul⟩

/-- The part of the keyword that counts. -/
def PutOp.key (p : PutOp) : List UInt8 := keyword8 p.keyword

theorem PutOp.run_eq (m : Mem) (p : PutOp) : p.run m = hputc m p.keyword p.value := by
  cases p with
  | hputs keyword cval =>
    show Status.hputs m keyword cval = hputc m keyword (PutOp.hputs keyword cval).value
    rw [Status.hputs]
    split
    · rename_i hcom
      have hvalue : (PutOp.hputs keyword cval).value = cval := by
        simp only [PutOp.value, PutOp.text, hcom, if_true]
      rw [hvalue]
    · rename_i hcom
      simp only [PutOp.value, PutOp.text, hcom, Bool.false_eq_true, if_false]
  | hputi4 keyword ival => rfl
  | hputi8 keyword ival => rfl
  | hputr8 keyword dval => rfl

/-- A cut keyword has eight characters: it is no word of seven. -/
theorem isCommentary_keyword8 (keyword : CString) :
    isCommentary (keyword8 keyword) = isCommentary keyword.bytes := by
  by_cases h : (keyword8 keyword).length < 8
  · rw [keyword8_eq h]
  · have hne : ∀ key : List UInt8, 8 ≤ key.length → isCommentary key = false := by
      intro key hkey
      rw [← Bool.not_eq_true]
      intro hcom
      rw [isCommentary_length hcom] at hkey
      exact absurd hkey (by decide)
    have hlen := h
    rw [keyword8, List.length_take] at hlen
    rw [hne _ (by omega), hne keyword.bytes (by omega)]

theorem PutOp.value_fits {p : PutOp} (h : isCommentary p.key = false) :
    ValueFits p.value.bytes := by
  cases p with
  | hputs keyword cval =>
    have hraw : isCommentary keyword.bytes = false := (isCommentary_keyword8 keyword).symm.trans h
    simp only [PutOp.value, PutOp.text, hraw, Bool.false_eq_true, if_false]
    exact quote_fits cval.noNul
  | hputi4 keyword ival => exact (prints_int32 ival).fits
  | hputi8 keyword ival => exact (prints_int64 ival).fits
  | hputr8 keyword dval => exact fixnegzero_fits dval

/-- The put adds a line: commentary, or a key that is not there. -/
def NewEntry (m : Mem) (p : PutOp) : Prop := isCommentary p.key = true ∨ ksearch m p.key = none

/-- The put writes over the line at `t`. -/
def Replaces (m : Mem) (p : PutOp) (t : ℕ) : Prop :=
  isCommentary p.key = false ∧ ksearch m p.key = some t

theorem Replaces.not_new {m : Mem} {p : PutOp} {t : ℕ} (h : Replaces m p t) : ¬ NewEntry m p := by
  intro hnew
  rcases hnew with hcom | hfind
  · rw [h.1] at hcom
    cases hcom
  · rw [h.2] at hfind
    cases hfind

/-- There is no blank line before END and no line behind it. -/
def NoRecordLeft (m : Mem) : Prop :=
  blsearch m endKey = none ∧ ∀ e, ksearch m endKey = some e → totalSize < e + 160

/-- The old comment of the line fits in the copy `hputc` makes, and behind the new value
unless it is empty. -/
def CommentKept (m : Mem) (p : PutOp) (t : ℕ) : Prop :=
  CommentFits m t ∧
    ∀ c1, commentAt (lineAt m t) = some c1 → c1 < 78 → valueEnd p.value.bytes < 78

/-- A line other than the one at `t` is an END line of the buffer. -/
def OtherEnd (m : Mem) (t : ℕ) : Prop := ∃ e, e ≠ t ∧ EndAt m e ∧ e + 80 ≤ totalSize

/-- When a put stays inside the buffer. -/
structure PutSafe (m : Mem) (p : PutOp) : Prop where
  /-- a new line has its place -/
  room : NewEntry m p → ¬ NoRecordLeft m
  /-- the line replaced is one of the buffer's -/
  inside : ∀ t, Replaces m p t → t + 80 ≤ totalSize
  /-- its comment can be kept -/
  comment : ∀ t, Replaces m p t → CommentKept m p t
  /-- a key of blanks does not wipe out the only END -/
  ending : ∀ t, Replaces m p t → (∀ c ∈ p.key, c = 32) → OtherEnd m t

/-- What a put does in the buffer's capacity: it writes no byte behind the buffer, END
stays inside, and without a record left for a new entry it fails and changes nothing. -/
def PutGood (m : Mem) (p : PutOp) : Prop :=
  ∃ rc m', p.run m = .ok (rc, m') ∧ (∀ i, totalSize ≤ i → m' i = m i) ∧ EndInside m' ∧
    (NewEntry m p → NoRecordLeft m → rc ≠ 0 ∧ m' = m)

/-! ## A new line -/

/-- Blank lines come before END. -/
theorem blsearch_lt {m : Mem} {b : ℕ} (h : blsearch m endKey = some b) :
    ∃ e, ksearch m endKey = some e ∧ b + 80 ≤ e ∧ b % 80 = 0 := by
  rw [blsearch] at h
  cases hend : searchText m endKey with
  | none =>
    rw [hend] at h
    cases h
  | some e =>
    have hfind : ksearch m endKey = some e := hend
    have haligned := ksearch_aligned hfind
    simp only [hend] at h
    split at h
    · cases h
    · split at h
      · cases h
        exact ⟨e, hfind, by omega, by omega⟩
      · cases h

/-- **A new line** with room for it leaves END inside and what is behind the buffer. -/
theorem EndInside.newLine {m : Mem} (hend : EndInside m) (hroom : ¬ NoRecordLeft m) :
    ∃ t room, NewPlace m t room ∧ ∀ f : ℕ → UInt8, (∀ j < 80, f j ≠ 0) →
      EndInside (overlay room t 80 f) ∧ ∀ i, totalSize ≤ i → overlay room t 80 f i = m i := by
  obtain ⟨e, he, hin⟩ := hend
  have haligned := ksearch_aligned he
  cases hblank : blsearch m endKey with
  | some b =>
    obtain ⟨e', he', hbe, hb⟩ := blsearch_lt hblank
    rw [he] at he'
    cases he'
    refine ⟨b, m, .inl ⟨hblank, rfl⟩, fun f hf => ⟨?_, fun i hi => overlay_outside (by omega)⟩⟩
    have hkept := (endAt_of_ksearch he).overlay_other hb (by omega) fun _ => hf
    exact hkept.inside hin
  | none =>
    have hbehind : e + 160 ≤ totalSize := by
      by_contra hlt
      refine hroom ⟨hblank, fun e' he' => ?_⟩
      rw [he] at he'
      cases he'
      omega
    refine ⟨e, _, .inr ⟨hblank, he, rfl⟩, fun f hf => ⟨?_, fun i hi => ?_⟩⟩
    · have hlimit : e + 160 ≤ headLimit := hbehind.trans (by decide)
      exact ((endAt_of_ksearch he).moved hlimit hf).inside (by omega)
    · rw [overlay_outside (by omega), strncpy_outside (by omega)]

/-- A new entry is one line without NULs in the place made for it. -/
theorem NewEntry.run {m room : Mem} {p : PutOp} {t : ℕ} (hnew : NewEntry m p)
    (hplace : NewPlace m t room) :
    ∃ f : ℕ → UInt8, (∀ j < 80, f j ≠ 0) ∧ p.run m = .ok (0, overlay room t 80 f) := by
  have hkey := keyword8_fits p.keyword
  rw [PutOp.run_eq]
  by_cases hcom : isCommentary p.key = true
  · have hlen : p.key.length = 7 := isCommentary_length hcom
    exact ⟨commentaryByte p.key p.value.bytes, fun j _ =>
      commentaryByte_ne_zero hlen hkey.noNul p.value.noNul j, hputc_commentary hcom hplace⟩
  · have hfind : ksearch m p.key = none := hnew.resolve_left hcom
    rw [Bool.not_eq_true] at hcom
    have hvalue := PutOp.value_fits hcom
    exact ⟨cardByte p.key p.value.bytes, fun j _ => cardByte_ne_zero hkey hvalue j,
      hputc_new hcom hvalue hfind hplace⟩

/-- With a record left, a new entry stays in the buffer. -/
theorem NewEntry.good {m : Mem} {p : PutOp} (hnew : NewEntry m p) (hend : EndInside m)
    (hroom : ¬ NoRecordLeft m) : PutGood m p := by
  obtain ⟨t, room, hplace, hwrite⟩ := hend.newLine hroom
  obtain ⟨f, hf, hrun⟩ := hnew.run hplace
  obtain ⟨hin, hframe⟩ := hwrite f hf
  exact ⟨0, _, hrun, hframe, hin, fun _ hfull => absurd hfull hroom⟩

/-- **Overflow.**  Without a record left, a new entry is written all the same: the put
returns 0 and copies the END line to the bytes behind the buffer. -/
theorem NewEntry.overflow {m : Mem} {p : PutOp} (hnew : NewEntry m p) (hend : EndInside m)
    (hfull : NoRecordLeft m) :
    ∃ e m', e + 80 = totalSize ∧ ksearch m endKey = some e ∧ p.run m = .ok (0, m') ∧
      ∀ j < 80, m' (totalSize + j) = copied (ptr m e) j := by
  obtain ⟨e, he, hin⟩ := hend
  have haligned := ksearch_aligned he
  have hlast : e + 80 = totalSize := by
    have := hfull.2 e he
    unfold totalSize at this hin ⊢
    omega
  obtain ⟨f, -, hrun⟩ := hnew.run (.inr ⟨hfull.1, he, rfl⟩)
  refine ⟨e, _, hlast, he, hrun, fun j hj => ?_⟩
  rw [overlay_outside (by omega), strncpy_eq_overlay, overlay_inside (by omega) hj]

/-- A new entry is put as it should be exactly when a record is left for it. -/
theorem NewEntry.good_iff {m : Mem} {p : PutOp} (hnew : NewEntry m p) (hend : EndInside m) :
    PutGood m p ↔ ¬ NoRecordLeft m := by
  constructor
  · intro ⟨rc, m', hrun, _, _, hfail⟩ hfull
    obtain ⟨e, m'', -, -, hrun', -⟩ := hnew.overflow hend hfull
    rw [hrun] at hrun'
    cases hrun'
    exact (hfail hnew hfull).1 rfl
  · exact hnew.good hend

/-! ## A line replaced -/

/-- A comment that is not empty keeps a character when it is trimmed. -/
theorem trimComment_pos (newcom : Mem) {lcom : ℕ} (h : 0 < lcom) : 0 < trimComment newcom lcom := by
  induction lcom with
  | zero => exact absurd h (lt_irrefl 0)
  | succ n ih =>
    cases n with
    | zero => exact Nat.one_pos
    | succ k =>
      rw [trimComment]
      split
      · exact ih (Nat.succ_pos k)
      · exact Nat.succ_pos _

/-- There is a comment to keep when its mark stands before the last two columns. -/
theorem oldComment_nonempty {m newcom : Mem} {t lcom : ℕ}
    (h : oldComment m t = .ok (newcom, lcom)) :
    lcom ≠ 0 ↔ ∃ c1, commentAt (lineAt m t) = some c1 ∧ c1 < 78 := by
  rw [oldComment] at h
  cases hc : commentAt (lineAt m t) with
  | none =>
    simp only [hc] at h
    cases h
    simp
  | some c1 =>
    simp only [hc] at h
    split at h
    · cases h
    · cases h
      constructor
      · intro hne
        refine ⟨c1, rfl, ?_⟩
        by_contra hlt
        obtain rfl : c1 = 78 := by omega
        exact hne rfl
      · intro hmark
        obtain ⟨c, hsome, hlt⟩ := hmark
        cases hsome
        exact (trimComment_pos _ (by omega)).ne'

/-- Without that the put runs out of its line or its local copy. -/
theorem Replaces.run_fault {m : Mem} {p : PutOp} {t : ℕ} (hput : Replaces m p t)
    (hbad : ¬ CommentKept m p t) : ∃ fault, p.run m = .error fault := by
  rw [PutOp.run_eq]
  by_cases hfit : CommentFits m t
  · obtain ⟨c1, hc1, hlt, hlc⟩ : ∃ c1, commentAt (lineAt m t) = some c1 ∧ c1 < 78 ∧
        78 ≤ valueEnd p.value.bytes := by
      by_contra hnone
      refine hbad ⟨hfit, fun c1 hc1 hlt => ?_⟩
      by_contra hge
      exact hnone ⟨c1, hc1, hlt, by omega⟩
    obtain ⟨newcom, lcom, hold⟩ := oldComment_ok hfit
    have hlcom : lcom ≠ 0 := (oldComment_nonempty hold).mpr ⟨c1, hc1, hlt⟩
    exact ⟨.newComment, hputc_found_overrun hput.1 (PutOp.value_fits hput.1) hput.2 hold hlcom hlc⟩
  · exact ⟨.oldComment, hputc_found_fault hput.1 hput.2 (oldComment_fault hfit)⟩

/-- With it the put writes the value over the line, and the old comment behind it. -/
theorem Replaces.run_ok {m : Mem} {p : PutOp} {t : ℕ} (hput : Replaces m p t)
    (hkept : CommentKept m p t) : ∃ newcom lcom, oldComment m t = .ok (newcom, lcom) ∧
      p.run m = .ok (0, overlay m t 80 (commented (cardByte p.key p.value.bytes)
        (valueEnd p.value.bytes) newcom lcom)) := by
  obtain ⟨newcom, lcom, hold⟩ := oldComment_ok hkept.1
  have hroom : lcom = 0 ∨ valueEnd p.value.bytes < 78 := by
    by_cases h0 : lcom = 0
    · exact .inl h0
    · obtain ⟨c1, hc1, hlt⟩ := (oldComment_nonempty hold).mp h0
      exact .inr (hkept.2 c1 hc1 hlt)
  refine ⟨newcom, lcom, hold, ?_⟩
  rw [PutOp.run_eq]
  exact hputc_found hput.1 (PutOp.value_fits hput.1) hput.2 hold hroom

/-- **A line replaced**, its comment kept, leaves END inside. -/
theorem Replaces.run_inside {m : Mem} {p : PutOp} {t : ℕ} (hput : Replaces m p t)
    (hend : EndInside m) (hkept : CommentKept m p t)
    (hending : (∀ c ∈ p.key, c = 32) → OtherEnd m t) :
    ∃ f : ℕ → UInt8, p.run m = .ok (0, overlay m t 80 f) ∧ EndInside (overlay m t 80 f) := by
  obtain ⟨e, he, hin⟩ := hend
  have haligned := ksearch_aligned hput.2
  have hshort := (keyword8_fits p.keyword).short
  have hvalue := PutOp.value_fits hput.1
  have hend := endAt_of_ksearch he
  obtain ⟨newcom, lcom, hold, hrun⟩ := hput.run_ok hkept
  have hline := valueEnd_ge p.value.bytes
  refine ⟨_, hrun, ?_⟩
  -- a line before another END line has no NUL, and neither has its comment
  have hother : ∀ e', e' ≠ t → EndAt m e' → e' + 80 ≤ totalSize →
      EndInside (overlay m t 80 (commented (cardByte p.key p.value.bytes)
        (valueEnd p.value.bytes) newcom lcom)) := by
    intro e' hne hat hin'
    refine (hat.overlay_other haligned hne.symm fun hlt j _ => ?_).inside hin'
    obtain ⟨loc, hloc, htext, hit⟩ := hat
    have hcol := hit.column
    have hnul := (inText_endKey.mp htext).2
    exact commented_ne_zero (cardByte_ne_zero (keyword8_fits _) hvalue j)
      (oldComment_ne_zero (fun k hk => hnul (t + k) (by omega)) hold)
  by_cases hte : e = t
  · by_cases hblank : ∀ c ∈ p.key, c = 32
    · obtain ⟨e', hne, hat, hin'⟩ := hending hblank
      exact hother e' hne hat hin'
    · -- END itself is replaced, by a key that spells END
      have hkey : ∃ c ∈ p.key, c ≠ 32 := by simpa using hblank
      obtain ⟨loc, hloc, -, hit, -⟩ := searchText_eq_some.mp hput.2
      have htake : p.key.take 8 = p.key := List.take_of_length_le hshort
      rw [htake] at hit
      rw [hte] at hend hin
      refine (hend.overlay_same hit hloc.symm hshort (keyword8_fits _).noNul hkey (fun j hj => ?_)
        (fun j hj h8 => ?_) ?_).inside hin
      · have hj8 : j < 8 := lt_of_lt_of_le hj hshort
        rw [commented_low (by omega)]
        exact cardByte_name hj
      · rw [commented_low (by omega)]
        exact cardByte_pad hvalue hj h8
      · rw [commented_low (by omega)]
        exact cardByte_sep hshort
  · exact hother e hte hend hin

/-- In the buffer, such a put is good. -/
theorem Replaces.good {m : Mem} {p : PutOp} {t : ℕ} (hput : Replaces m p t) (hend : EndInside m)
    (hinside : t + 80 ≤ totalSize) (hkept : CommentKept m p t)
    (hending : (∀ c ∈ p.key, c = 32) → OtherEnd m t) : PutGood m p := by
  obtain ⟨f, hrun, hin⟩ := hput.run_inside hend hkept hending
  exact ⟨0, _, hrun, fun i hi => overlay_outside (by omega), hin,
    fun h => absurd h hput.not_new⟩

/-- A line of the buffer, not its only END line, is replaced as it should be exactly when
its comment can be kept. -/
theorem Replaces.good_iff {m : Mem} {p : PutOp} {t : ℕ} (hput : Replaces m p t)
    (hend : EndInside m) (hinside : t + 80 ≤ totalSize)
    (hending : (∀ c ∈ p.key, c = 32) → OtherEnd m t) : PutGood m p ↔ CommentKept m p t := by
  constructor
  · intro ⟨rc, m', hrun, _⟩
    by_contra hbad
    obtain ⟨fault, hfault⟩ := hput.run_fault hbad
    rw [hrun] at hfault
    cases hfault
  · intro hkept
    exact hput.good hend hinside hkept hending

/-- **One put** that is safe stays in the buffer. -/
theorem PutSafe.good {m : Mem} {p : PutOp} (hsafe : PutSafe m p) (hend : EndInside m) :
    PutGood m p := by
  by_cases hcom : isCommentary p.key = true
  · have hnew : NewEntry m p := .inl hcom
    exact hnew.good hend (hsafe.room hnew)
  · cases hfind : ksearch m p.key with
    | none =>
      have hnew : NewEntry m p := .inr hfind
      exact hnew.good hend (hsafe.room hnew)
    | some t =>
      have hput : Replaces m p t := ⟨by simpa using hcom, hfind⟩
      exact hput.good hend (hsafe.inside t hput) (hsafe.comment t hput) (hsafe.ending t hput)

/-! ## Runs -/

theorem toOption_eq_some {m : Mem} {x : Except Fault Mem} (h : x.toOption = some m) : x = .ok m := by
  cases x with
  | error fault => cases h
  | ok m' =>
    cases h
    rfl

/-- The buffer, and whether it was initialised. -/
structure StatusState where
  buf : Mem
  ready : Bool

inductive StatusAct
  | clear (instanceId : Int32)
  | chkinit (instanceId : Int32)
  | put (p : PutOp)

def statusStep (s : StatusState) : StatusAct → Option StatusState
  | .clear instanceId => (hashpipeStatusClear s.buf instanceId).toOption.map (⟨·, true⟩)
  | .chkinit instanceId => (hashpipeStatusChkinit s.buf instanceId).toOption.map (⟨·, true⟩)
  | .put p => if s.ready then (p.run s.buf).toOption.map fun r => ⟨r.2, true⟩ else none

/-- From any memory: initialising, and puts on what was initialised. -/
def statusSystem (buf : Mem) : System StatusState StatusAct where
  init s := s = ⟨buf, false⟩
  next := statusStep

/-- `hashpipe_status_chkinit` clears the buffer, or searches find its END, and INSTANCE
has its value or is put safely. -/
def ChkinitSafe (m : Mem) (instanceId : Int32) : Prop :=
  findEnd m = none ∨ (EndInside m ∧
    (hgeti4 m instanceKey = some instanceId ∨ PutSafe m (.hputi4 instanceKey instanceId)))

def StepSafe (s : StatusState) : StatusAct → Prop
  | .clear _ => True
  | .chkinit instanceId => ChkinitSafe s.buf instanceId
  | .put p => PutSafe s.buf p

/-- A clearing stays in the buffer. -/
theorem clear_inside {m m' : Mem} {instanceId : Int32}
    (h : hashpipeStatusClear m instanceId = .ok m') :
    EndInside m' ∧ ∀ i, totalSize ≤ i → m' i = m i := by
  obtain ⟨start, hclear, hrep, hframe⟩ := clear_represents m instanceId
  rw [hclear] at h
  cases h
  exact ⟨⟨_, hrep.wf.ksearch_end, hrep.wf.fits⟩, hframe⟩

theorem chkinit_inside {m m' : Mem} {instanceId : Int32} (hsafe : ChkinitSafe m instanceId)
    (h : hashpipeStatusChkinit m instanceId = .ok m') :
    EndInside m' ∧ ∀ i, totalSize ≤ i → m' i = m i := by
  cases hfind : findEnd m with
  | none =>
    rw [chkinit_clears hfind] at h
    exact clear_inside h
  | some e =>
    obtain ⟨hend, hput⟩ := hsafe.resolve_left (by rw [hfind]; exact Option.some_ne_none e)
    by_cases hget : hgeti4 m instanceKey = some instanceId
    · rw [chkinit_keeps hfind hget] at h
      cases h
      exact ⟨hend, fun i _ => rfl⟩
    · rw [chkinit_puts hfind hget] at h
      obtain ⟨rc, m'', hput', hframe, hin, -⟩ := (hput.resolve_left hget).good hend
      have hput'' : hputi4 m instanceKey instanceId = .ok (rc, m'') := hput'
      rw [hput''] at h
      cases h
      exact ⟨hin, hframe⟩

/-- The bytes behind the buffer are untouched, and an initialised buffer holds END. -/
def Inside (buf : Mem) (s : StatusState) : Prop :=
  (∀ i, totalSize ≤ i → s.buf i = buf i) ∧ (s.ready = true → EndInside s.buf)

theorem Inside.step {buf : Mem} {s t : StatusState} {a : StatusAct} (h : Inside buf s)
    (hsafe : StepSafe s a) (hstep : statusStep s a = some t) : Inside buf t := by
  cases a with
  | clear instanceId =>
    obtain ⟨m', hrun, rfl⟩ := Option.map_eq_some_iff.mp hstep
    obtain ⟨hin, hframe⟩ := clear_inside (toOption_eq_some hrun)
    exact ⟨fun i hi => (hframe i hi).trans (h.1 i hi), fun _ => hin⟩
  | chkinit instanceId =>
    obtain ⟨m', hrun, rfl⟩ := Option.map_eq_some_iff.mp hstep
    obtain ⟨hin, hframe⟩ := chkinit_inside hsafe (toOption_eq_some hrun)
    exact ⟨fun i hi => (hframe i hi).trans (h.1 i hi), fun _ => hin⟩
  | put p =>
    rw [statusStep] at hstep
    split at hstep
    · rename_i hready
      obtain ⟨rc, m', hput, hframe, hin, -⟩ := hsafe.good (h.2 hready)
      rw [hput] at hstep
      cases hstep
      exact ⟨fun i hi => (hframe i hi).trans (h.1 i hi), fun _ => hin⟩
    · cases hstep

/-- **Runs of safe puts stay in the buffer.**  In every run whose puts are safe when they
are made, no byte behind the buffer is written, END stays inside, and every safe put does
what it should. -/
theorem safe_puts_stay_inside (buf : Mem) (s : StatusState)
    (h : ReachableUnder (statusSystem buf) StepSafe s) (hready : s.ready = true) :
    (∀ i, totalSize ≤ i → s.buf i = buf i) ∧ EndInside s.buf ∧
      ∀ p, PutSafe s.buf p → PutGood s.buf p := by
  have hinside : Inside buf s := by
    refine h.invariant (fun s hs => ?_) fun s a t hs hok hn => hs.step hok hn
    obtain rfl : s = ⟨buf, false⟩ := hs
    exact ⟨fun i _ => rfl, fun hready => Bool.noConfusion hready⟩
  exact ⟨hinside.1, hinside.2 hready, fun p hsafe => hsafe.good (hinside.2 hready)⟩

/-- A cleared buffer is reached. -/
theorem cleared_reachable (instanceId : Int32) :
    ReachableUnder (statusSystem noBytes) StepSafe ⟨clearedBuffer noBytes instanceId, true⟩ := by
  have hinit : ReachableUnder (statusSystem noBytes) StepSafe ⟨noBytes, false⟩ := .init rfl
  refine .step (.clear instanceId) hinit trivial ?_
  show statusStep ⟨noBytes, false⟩ (.clear instanceId) = _
  rw [statusStep, (clear_wellFormed noBytes instanceId).1]
  rfl

/-- GAIN is put safely into a cleared buffer. -/
theorem safe_puts_stay_inside_gain :
    PutGood (clearedBuffer noBytes 3) (.hputi4 gainKey.text Int32.minValue) := by
  have hwf := (clear_wellFormed noBytes 3).2
  have habsent : ksearch (clearedBuffer noBytes 3) (keyword8 gainKey.text) = none := by
    refine hwf.ksearch_absent gainKey.isKey (hwf.nul (by decide)) (by decide) fun r hr => ?_
    obtain rfl : r = 0 := by omega
    rw [clearedBuffer_key]
    decide
  have hreplace : ∀ t, ¬ Replaces (clearedBuffer noBytes 3)
      (.hputi4 gainKey.text Int32.minValue) t := by
    intro t hput
    exact hput.not_new (.inr habsent)
  have hroom : ¬ NoRecordLeft (clearedBuffer noBytes 3) := by
    intro hfull
    have := hfull.2 _ hwf.ksearch_end
    exact absurd this (by decide)
  refine (safe_puts_stay_inside noBytes ⟨clearedBuffer noBytes 3, true⟩ (cleared_reachable 3)
    rfl).2.2 _ ⟨fun _ => hroom, fun t h => ?_, fun t h => ?_, fun t h => ?_⟩ <;>
    exact absurd h (hreplace t)

/-! ## The run that fills the buffer -/

/-- Digits have no case. -/
theorem foldedKey_natText (k : ℕ) : foldedKey (natText k) = natText k := by
  have hdigit : ∀ c ∈ natText k, foldCase c = id c := by
    intro c hc
    have hlow : (96 : UInt8) < 57 → False := by decide
    exact if_neg fun h => hlow (UInt8.lt_of_lt_of_le h.1 (natText_range hc).2)
  rw [foldedKey, List.map_congr_left hdigit, List.map_id]

theorem natText_injective {k l : ℕ} (h : natText k = natText l) : k = l := by
  have hread := readDigits_natText k
  rw [h, readDigits_natText l] at hread
  exact (congrArg Prod.fst hread).symm

/-- A word with a letter is no number. -/
theorem natText_ne_word {k : ℕ} {word : List UInt8} (h : ∃ c ∈ foldedKey word, 57 < c) :
    natText k ≠ foldedKey word := by
  intro heq
  obtain ⟨c, hc, hlt⟩ := h
  rw [← heq] at hc
  exact absurd (natText_range hc).2 (UInt8.not_le.mpr hlt)

/-- The key of the put with number `k`. -/
def numberKey (k : ℕ) (hk : k < 10 ^ 7) : PutKey where
  text := ⟨natText k, fun c hc h0 => absurd (h0 ▸ (natText_range hc).1) (by decide)⟩
  nonempty := by
    obtain ⟨d, cs, htext, -⟩ := natText_head k
    show 1 ≤ (natText k).length
    rw [htext, List.length_cons]
    omega
  short := (natText_length_le (by norm_num) hk).trans (by norm_num)
  name := fun c hc => .inl (natText_range hc)
  unreserved := by
    have hword : ∀ word, (∃ c ∈ foldedKey word, 57 < c) →
        ¬ SameKey (List.take 8 (natText k)) word := by
      intro word hletter hsame
      rw [List.take_of_length_le ((natText_length_le (by norm_num) hk).trans (by norm_num))] at hsame
      exact natText_ne_word hletter ((foldedKey_natText k).symm.trans hsame)
    exact ⟨hword _ (by decide), hword _ (by decide), hword _ (by decide)⟩

theorem numberKey_pre {k : ℕ} (hk : k < 10 ^ 7) : (numberKey k hk).pre = natText k := by
  have htake : keyword8 (numberKey k hk).text = natText k :=
    List.take_of_length_le ((natText_length_le (by norm_num) hk).trans (by norm_num))
  rw [PutKey.pre, htake, foldedKey_natText]

/-- INSTANCE and `n` more records, none of them for a number from `n` on, and a NUL
behind the buffer. -/
def Filled (m : Mem) (n : ℕ) : Prop :=
  ∃ M, Represents m (n + 1) M ∧ (∀ k, n ≤ k → M.lookup (natText k) = none) ∧ m totalSize = 0

theorem Filled.put {m : Mem} {n : ℕ} (h : Filled m n) (hn : n < 10 ^ 7)
    (hroom : 80 * (n + 3) ≤ totalSize) :
    ∃ m', hputi4 m (numberKey n hn).text 0 = .ok (0, m') ∧ Filled m' (n + 1) := by
  obtain ⟨M, hrep, hfree, hnul⟩ := h
  have habsent := hrep.absent (hfree n le_rfl)
  obtain ⟨m', hrun, hrep', hframe⟩ := hrep.put_new (p := ⟨numberKey n hn, .i4 0⟩)
    (by rw [numberKey_pre]; exact habsent) hroom
  refine ⟨m', hrun, _, hrep', fun k hk => ?_, (hframe _ le_rfl).trans hnul⟩
  have hne : natText k ≠ (numberKey n hn).pre := by
    rw [numberKey_pre]
    intro heq
    have := natText_injective heq
    omega
  rw [IntMap.put, Finmap.lookup_insert_of_ne _ hne]
  exact hfree k (by omega)

/-- Numbers are put until no record is left. -/
theorem filled_reachable {n : ℕ} (hn : n ≤ 2302) :
    ∃ m, Reachable (statusSystem noBytes) ⟨m, true⟩ ∧ Filled m n := by
  induction n with
  | zero =>
    obtain ⟨m, hclear, hrep, hframe⟩ := clear_represents noBytes 0
    refine ⟨m, .step (.clear 0) (.init rfl) ?_, _, hrep, fun k _ => ?_, hframe _ le_rfl⟩
    · show statusStep ⟨noBytes, false⟩ (.clear 0) = _
      rw [statusStep, hclear]
      rfl
    · have hnot : natText k ∉ clearedMap 0 := fun hmem =>
        natText_ne_word (by decide) ((Finmap.mem_singleton _ _ _).mp hmem)
      exact Finmap.lookup_eq_none.mpr hnot
  | succ n ih =>
    obtain ⟨m, hreach, hfilled⟩ := ih (by omega)
    obtain ⟨m', hrun, hfilled'⟩ := hfilled.put (by omega) (by unfold totalSize; omega)
    refine ⟨m', .step (.put (.hputi4 (numberKey n (by omega)).text 0)) hreach ?_, hfilled'⟩
    show statusStep ⟨m, true⟩ (.put _) = _
    rw [statusStep, if_pos rfl, PutOp.run, hrun]
    rfl

/-- **A full buffer overflows.**  After clearing and 2302 puts of new keys the next one
is written behind the buffer, and reports no error. -/
theorem full_buffer_overflows :
    ¬ ∀ (buf : Mem) (s : StatusState), Reachable (statusSystem buf) s → s.ready = true →
      (∀ i, totalSize ≤ i → s.buf i = buf i) ∧ EndInside s.buf ∧ ∀ p, PutGood s.buf p := by
  intro hall
  obtain ⟨m, hreach, M, hrep, hfree, hnul⟩ := filled_reachable (le_refl 2302)
  obtain ⟨-, hend, hgood⟩ := hall noBytes ⟨m, true⟩ hreach rfl
  have hkey : 2302 < 10 ^ 7 := by norm_num
  have hnew : NewEntry m (.hputi4 (numberKey 2302 hkey).text 0) := by
    refine .inr (hrep.wf.ksearch_absent (numberKey 2302 hkey).isKey hnul
      (numberKey 2302 hkey).unreserved.1 fun r hr hsame => ?_)
    refine hrep.absent (hfree 2302 le_rfl) r hr ?_
    rw [← numberKey_pre hkey]
    exact hsame.symm
  have hfull : NoRecordLeft m := by
    refine ⟨hrep.wf.blsearch_end, fun e he => ?_⟩
    rw [hrep.wf.ksearch_end] at he
    cases he
    decide
  exact (hnew.good_iff hend).mp (hgood _) hfull

end Hashpipe.Status
