import Mathlib.Tactic
import Hashpipe.Status.Capacity

/-!
# Initialising whatever is there

`hashpipe_status_chkinit` takes a buffer as initialised when the first three letters of
some line are END.  The searches of every later get and put stop at the first NUL and
want the keyword to end there: a buffer whose only such line holds the keyword ENDIAN
is kept, and the put of INSTANCE computes from a null pointer
(`chkinit_keeps_endian`).

`chkinit_establishes_iff` says what must be in the buffer.  What `hputi4` writes is one
line; `search_written` and `hgeti4_written` say that INSTANCE is found on it and read
back, `rewritten_of_inside` that END is found as before, and `hasNul_overlay` when a NUL
is left for the next search.
-/

namespace Hashpipe.Status

open ByteMemory CNumber

/-- What `hashpipe_status_chkinit` is for: it returns, searches stop in the buffer and find
END there, and INSTANCE has its value. -/
def Establishes (instanceId : Int32) (run : Except Fault Mem) : Prop :=
  ∃ m', run = .ok m' ∧ HasNul m' ∧ EndInside m' ∧ hgeti4 m' instanceKey = some instanceId

/-- The columns of the comment that are copied behind an integer hold no NUL. -/
def CommentWhole (m : Mem) (t : ℕ) : Prop :=
  ∀ c1, commentAt (lineAt m t) = some c1 →
    ∀ j < min (trimComment (ptr (lineAt m t) (c1 + 2)) (78 - c1)) 44, lineAt m t (c1 + 2 + j) ≠ 0

/-- A NUL of the buffer is outside the bytes from `lo` to `hi`. -/
def NulApart (m : Mem) (lo hi : ℕ) : Prop := ∃ i < totalSize, (i < lo ∨ hi ≤ i) ∧ m i = 0

/-- When `hashpipe_status_chkinit` establishes END and INSTANCE. -/
inductive ChkinitReady (m : Mem) (instanceId : Int32) : Prop
  /-- no line starts with END, and the buffer is cleared -/
  | cleared (h : findEnd m = none)
  /-- INSTANCE has its value, and searches find END -/
  | kept (hnul : HasNul m) (hend : EndInside m) (hget : hgeti4 m instanceKey = some instanceId)
  /-- there is no INSTANCE, searches find END behind a line that is not blank or at the start,
  a new line has its place, and moving END to make one does not take the last NUL -/
  | added (e : ℕ) (hnul : HasNul m) (hend : ksearch m endKey = some e)
      (hfind : ksearch m (keyword8 instanceKey) = none)
      (hline : blsearchUnderruns m endKey = false) (hroom : ¬ NoRecordLeft m)
      (hleft : blsearch m endKey ≠ none ∨ NulApart m (e + 80) (e + 160))
  /-- the line of INSTANCE has another value and a comment that fits, searches find END, and
  writing the line does not take the last NUL -/
  | replaced (t : ℕ) (hnul : HasNul m) (hend : EndInside m)
      (hfind : ksearch m (keyword8 instanceKey) = some t)
      (hget : hgeti4 m instanceKey ≠ some instanceId) (hfit : CommentFits m t)
      (hleft : NulApart m t (t + 80) ∨ ¬ CommentWhole m t)

/-! ## The reads of the searches -/

/-- In a buffer with a NUL, END is found inside. -/
theorem HasNul.end_inside {m : Mem} (h : HasNul m) {e : ℕ} (he : ksearch m endKey = some e) :
    e + 80 ≤ totalSize := by
  obtain ⟨loc, rfl, hin, hit, -⟩ := searchText_eq_some.mp he
  have hlt := hasNul_iff.mp h
  have hloc := hin.1
  have hcol := hit.column
  have hlines : totalSize % 80 = 0 := rfl
  omega

/-- The put goes on where its searches stay in the buffer and find what they need. -/
theorem hputi4Checked_eq {m : Mem} {keyword : CString} (hnul : HasNul m) (hend : EndInside m)
    (hline : ksearch m (keyword8 keyword) = none → blsearchUnderruns m endKey = false)
    (ival : Int32) : hputi4Checked m keyword ival = hputi4 m keyword ival := by
  obtain ⟨e, he, -⟩ := hend
  have hscan := hasNul_iff.mp hnul
  rw [hputi4Checked, if_neg (by omega), if_neg (by rw [he]; nofun), if_neg]
  intro hblank
  rw [hline hblank.1] at hblank
  cases hblank.2

theorem map_eq_ok {α β : Type} {f : α → β} {x : Except Fault α} {b : β} (h : x.map f = .ok b) :
    ∃ a, x = .ok a ∧ f a = b := by
  cases x with
  | error _ => cases h
  | ok a => exact ⟨a, rfl, Except.ok.inj h⟩

/-- Where the put returns, they do. -/
theorem hputi4Checked_ok {m : Mem} {keyword : CString} {ival : Int32} {r : ℤ × Mem}
    (h : hputi4Checked m keyword ival = .ok r) :
    HasNul m ∧ EndInside m ∧
      (ksearch m (keyword8 keyword) = none → blsearchUnderruns m endKey = false) ∧
      hputi4 m keyword ival = .ok r := by
  rw [hputi4Checked] at h
  split at h
  · cases h
  · rename_i hscan
    split at h
    · cases h
    · rename_i hend
      split at h
      · cases h
      · rename_i hline
        have hnul : HasNul m := hasNul_iff.mpr (Nat.lt_of_not_le hscan)
        obtain ⟨e, he⟩ := Option.ne_none_iff_exists'.mp hend
        refine ⟨hnul, ⟨e, he, hnul.end_inside he⟩, fun hfind => ?_, h⟩
        exact Bool.eq_false_iff.mpr fun hblank => hline ⟨hfind, hblank⟩

/-- Writing a line without NULs, or with them. -/
theorem hasNul_overlay {m : Mem} {t : ℕ} {f : ℕ → UInt8} (ht : t + 80 ≤ totalSize) :
    HasNul (overlay m t 80 f) ↔ NulApart m t (t + 80) ∨ ∃ j < 80, f j = 0 := by
  constructor
  · intro ⟨i, hi, h0⟩
    by_cases hin : t ≤ i ∧ i < t + 80
    · rw [overlay_inside (j := i - t) (by omega) (by omega)] at h0
      exact .inr ⟨i - t, by omega, h0⟩
    · rw [overlay_outside (by omega)] at h0
      exact .inl ⟨i, hi, by omega, h0⟩
  · intro h
    rcases h with ⟨i, hi, hout, h0⟩ | ⟨j, hj, h0⟩
    · exact ⟨i, hi, by rw [overlay_outside hout]; exact h0⟩
    · exact ⟨t + j, by omega, by rw [overlay_inside rfl hj]; exact h0⟩

/-! ## One line written -/

/-- What is hit before a line is hit in any memory that is the same up to it. -/
theorem Hit.before_line {m m' : Mem} {t loc : ℕ} {key : List UInt8} (hit : Hit m' key loc)
    (ht : t % 80 = 0) (hshort : key.length ≤ 8) (hlt : loc < t) (hsame : ∀ i < t, m' i = m i) :
    Hit m key loc := by
  have hcol := hit.column
  exact hit.move (d := 0) rfl fun i hi hi' => (hsame i (by omega)).symm

/-- **A key is found on the line** it was written to, if no line before has it. -/
theorem search_written {m : Mem} {t : ℕ} {f : ℕ → UInt8} {key : List UInt8} (hkey : IsKey key)
    (hlimit : t + 8 ≤ headLimit) (htext : ∀ i < t, m i ≠ 0) (hbefore : ∀ j < t, ¬ Hit m key j)
    (hf : KeyLine (overlay m t 80 f) t key) : ksearch (overlay m t 80 f) key = some t := by
  have ht := hf.aligned
  have hshort := hkey.short
  rw [ksearch, hkey.take]
  refine searchText_eq_some.mpr ⟨t, by omega, ?_, ?_, fun j hj hit => ?_⟩
  · have hlen : t + key.length ≤ textLength (overlay m t 80 f) headLimit := by
      refine le_textLength.mpr ⟨by omega, fun i hi => ?_⟩
      by_cases hit : i < t
      · rw [overlay_outside (by omega)]
        exact htext i hit
      · rw [show i = t + (i - t) by omega, hf.name _ (by omega)]
        exact (hkey.charAt (by omega)).ne_zero
    have hpos := hkey.nonempty
    exact ⟨by omega, hlen⟩
  · exact (hf.hit_iff hkey hkey (by omega)).mpr ⟨rfl, SameKey.refl key⟩
  · exact hbefore j hj ((hit_overlay_other ht hshort (by omega)).mp hit)

/-- INSTANCE with its value: the line `hputi4` writes, a comment apart. -/
def instanceByte (instanceId : Int32) : ℕ → UInt8 :=
  cardByte (keyword8 instanceKey) (intText instanceId.toInt)

theorem instanceByte_keyLine {m : Mem} {t : ℕ} {f : ℕ → UInt8} {instanceId : Int32}
    (ht : t % 80 = 0) (hf : ∀ j < 34, f j = instanceByte instanceId j) :
    KeyLine (overlay m t 80 f) t (keyword8 instanceKey) := by
  have hline : ∀ j < 34, overlay m t 80 f (t + j) = instanceByte instanceId j := fun j hj =>
    (overlay_inside rfl (by omega)).trans (hf j hj)
  refine ⟨ht, fun j hj => ?_, fun j hj h8 => ?_, .inl ?_⟩
  · have hshort := instanceKey_isKey.short
    rw [hline j (by omega)]
    exact cardByte_name hj
  · rw [hline j (by omega)]
    exact cardByte_pad (prints_int32 instanceId).fits hj h8
  · rw [hline 8 (by omega)]
    exact cardByte_sep instanceKey_isKey.short

/-- END is not hit on a line of INSTANCE. -/
theorem end_not_on_line {m : Mem} {t loc : ℕ} (hline : KeyLine m t (keyword8 instanceKey))
    (hit : Hit m endKey loc) : loc - loc % 80 ≠ t := by
  intro heq
  have hsame := ((hline.hit_iff instanceKey_isKey endKey_isKey heq).mp hit).2
  exact absurd hsame (by decide)

theorem instanceKey_plain : PlainKey (keyword8 instanceKey) := forall_mem_of_all (by decide)

/-- A decimal text as the value of INSTANCE is read as its integer. -/
theorem hgeti4_of_text {m : Mem} {t : ℕ} {instanceId : Int32}
    (hfind : ksearch m (keyword8 instanceKey) = some t)
    (htext : valueText (lineAt m t) = intText instanceId.toInt) :
    hgeti4 m instanceKey = some instanceId := by
  have hget : hgetc m instancePutKey.text = some (intText (IntVal.i4 instanceId).toInt) := by
    show hgetc m instanceKey = _
    rw [hgetc_eq (forall_mem_of_all (by decide)), hfind, Option.map_some, htext]
    rfl
  exact reads_of_hgetc hget

/-- **INSTANCE reads back** from the line it was written to, with a comment or without. -/
theorem hgeti4_written {m : Mem} {t : ℕ} {f : ℕ → UInt8} {instanceId : Int32}
    (ht : t % 80 = 0) (hlimit : t + 8 ≤ headLimit) (htext : ∀ i < t, m i ≠ 0)
    (hbefore : ∀ j < t, ¬ Hit m (keyword8 instanceKey) j)
    (hf : ∀ j < 34, f j = instanceByte instanceId j)
    (hrest : f 34 = 47 ∨ ∀ j < 80, f j = instanceByte instanceId j) :
    hgeti4 (overlay m t 80 f) instanceKey = some instanceId := by
  have hz := prints_int32 instanceId
  have hnul : ∀ j, instanceByte instanceId j ≠ 0 :=
    cardByte_ne_zero (keyword8_fits instanceKey) hz.fits
  have hline : ∀ j < 80, (∀ k < j, f k ≠ 0) → lineAt (overlay m t 80 f) t j = f j := by
    intro j hj hbefore
    rw [lineAt_eq hj fun k hk => ?_]
    · exact overlay_inside rfl hj
    · rw [overlay_inside rfl (by omega)]
      exact hbefore k hk
  refine hgeti4_of_text
    (search_written instanceKey_isKey hlimit htext hbefore (instanceByte_keyLine ht hf)) ?_
  rcases hrest with hmark | hall
  · have hlow : ∀ k < 34, f k ≠ 0 := fun k hk => by
      rw [hf k hk]
      exact hnul k
    refine valueText_commented instanceKey_isKey.short instanceKey_plain hz.1 hz.2 (fun j hj => ?_)
      ((hline 34 (by omega) hlow).trans hmark)
    exact (hline j (by omega) fun k hk => hlow k (by omega)).trans (hf j hj)
  · refine valueText_intLine instanceKey_isKey.short instanceKey_plain hz.1 hz.2 fun j hj => ?_
    refine (hline j hj fun k hk => ?_).trans (hall j hj)
    rw [hall k (by omega)]
    exact hnul k

/-! ## INSTANCE in a new line -/

/-- With an END line there is a place. -/
theorem newPlace_of_end {m : Mem} {e : ℕ} (he : ksearch m endKey = some e) :
    ∃ t room, NewPlace m t room := by
  cases hblank : blsearch m endKey with
  | some b => exact ⟨b, m, .inl ⟨hblank, rfl⟩⟩
  | none => exact ⟨e, _, .inr ⟨hblank, he, rfl⟩⟩

/-- A new line comes before END or takes its place, and the lines before it stay. -/
theorem NewPlace.before {m room : Mem} {t e : ℕ} (hplace : NewPlace m t room)
    (he : ksearch m endKey = some e) : t ≤ e ∧ t % 80 = 0 ∧ ∀ i < t, room i = m i := by
  rcases hplace with ⟨hblank, rfl⟩ | ⟨-, hend, rfl⟩
  · obtain ⟨e', he', hbe, hb⟩ := blsearch_lt hblank
    rw [he] at he'
    cases he'
    exact ⟨by omega, hb, fun i _ => rfl⟩
  · rw [he] at hend
    cases hend
    exact ⟨le_rfl, ksearch_aligned he, fun i hi => strncpy_outside (by omega)⟩

/-- **Where END is found** with INSTANCE in its new line: no earlier than before, and a line
further down if the new line took its place. -/
theorem NewPlace.end_behind {m room : Mem} {t e e' : ℕ} {f : ℕ → UInt8}
    (hplace : NewPlace m t room) (he : ksearch m endKey = some e)
    (hf : KeyLine (overlay room t 80 f) t (keyword8 instanceKey))
    (he' : ksearch (overlay room t 80 f) endKey = some e') : e ≤ e' ∧ (t = e → e + 80 ≤ e') := by
  obtain ⟨hle, ht, hroom⟩ := hplace.before he
  obtain ⟨loc, heq, -, -, hfirst⟩ := searchText_eq_some.mp he
  obtain ⟨loc', heq', -, hit', -⟩ := searchText_eq_some.mp he'
  have hcol := hit'.column
  have hlen : endKey.length = 3 := rfl
  have hne := end_not_on_line hf hit'
  have hkept : Hit room endKey loc' := (hit_overlay_other ht (by decide) hne).mp hit'
  have hbehind : t + 80 ≤ e' := by
    by_contra hlt
    -- before the new line nothing has changed
    have hold : Hit m endKey loc' := hkept.before_line ht (by decide) (by omega) hroom
    exact hfirst loc' (by omega) hold
  refine ⟨?_, fun hte => by omega⟩
  rcases hplace with ⟨-, rfl⟩ | ⟨-, hend, -⟩
  · by_contra hlt
    exact hfirst loc' (by omega) hkept
  · rw [he] at hend
    cases hend
    omega

/-- A new INSTANCE is its line, written to its place. -/
theorem put_added {m room : Mem} {t : ℕ} (instanceId : Int32)
    (hfind : ksearch m (keyword8 instanceKey) = none) (hplace : NewPlace m t room) :
    hputi4 m instanceKey instanceId = .ok (0, overlay room t 80 (instanceByte instanceId)) :=
  hputc_new (by decide) (prints_int32 instanceId).fits hfind hplace

/-- Where END is found in the buffer afterwards, a line was left. -/
theorem room_of_added {m m' : Mem} {instanceId : Int32}
    (hfind : ksearch m (keyword8 instanceKey) = none) (hend : EndInside m)
    (hrun : (hputi4 m instanceKey instanceId).map (·.2) = .ok m') (hin : EndInside m') :
    ¬ NoRecordLeft m := by
  intro hfull
  obtain ⟨e, he, -⟩ := hend
  obtain ⟨e', he', hin'⟩ := hin
  have hplace : NewPlace m e _ := .inr ⟨hfull.1, he, rfl⟩
  rw [put_added instanceId hfind hplace] at hrun
  cases hrun
  have ht := (hplace.before he).2.1
  obtain ⟨-, hmoved⟩ := hplace.end_behind he (instanceByte_keyLine ht fun _ _ => rfl) he'
  have hlast := hfull.2 e he
  have hbehind := hmoved rfl
  omega

/-- With END in the buffer and a line left, INSTANCE is added and reads back. -/
theorem added_reads {m room : Mem} {t : ℕ} (instanceId : Int32)
    (hfind : ksearch m (keyword8 instanceKey) = none) (hend : EndInside m)
    (hplace : NewPlace m t room) :
    hgeti4 (overlay room t 80 (instanceByte instanceId)) instanceKey = some instanceId := by
  obtain ⟨e, he, hin⟩ := hend
  obtain ⟨hle, ht, hsame⟩ := hplace.before he
  obtain ⟨loc, heq, htext, -, -⟩ := searchText_eq_some.mp he
  have hlen := instanceKey_isKey.short
  have hpos := instanceKey_isKey.nonempty
  have htotal : totalSize ≤ headLimit := by decide
  have hnul : ∀ i < t, m i ≠ 0 := fun i hi => (inText_endKey.mp htext).2 i (by omega)
  -- INSTANCE was not found before the new line
  have hbefore : ∀ j < t, ¬ Hit room (keyword8 instanceKey) j := by
    intro j hj hit
    have hcol := hit.column
    have hold : Hit m (keyword8 instanceKey) j := hit.before_line ht hlen hj hsame
    have hreach : j + (keyword8 instanceKey).length ≤ textLength m headLimit :=
      le_textLength.mpr ⟨by omega, fun i hi => hnul i (by omega)⟩
    rw [ksearch, instanceKey_isKey.take] at hfind
    exact searchText_eq_none.mp hfind j ⟨by omega, hreach⟩ hold
  have htext' : ∀ i < t, room i ≠ 0 := fun i hi => by
    rw [hsame i hi]
    exact hnul i hi
  exact hgeti4_written ht (by omega) htext' hbefore (fun _ _ => rfl) (.inr fun _ _ => rfl)

theorem instanceByte_ne_zero (instanceId : Int32) (j : ℕ) : instanceByte instanceId j ≠ 0 :=
  cardByte_ne_zero (keyword8_fits instanceKey) (prints_int32 instanceId).fits j

/-- **The NUL that is left** behind a new line: a blank line before END has none; END moved
down takes its own along, and overwrites those of the line behind it. -/
theorem NewPlace.nul_left {m room : Mem} {t e : ℕ} (instanceId : Int32)
    (hplace : NewPlace m t room) (hnul : HasNul m) (he : ksearch m endKey = some e)
    (hroom : ¬ NoRecordLeft m) :
    HasNul (overlay room t 80 (instanceByte instanceId)) ↔
      blsearch m endKey ≠ none ∨ NulApart m (e + 80) (e + 160) := by
  have hin := hnul.end_inside he
  have htext : ∀ i ≤ e, m i ≠ 0 := by
    obtain ⟨loc, heq, htext, -, -⟩ := searchText_eq_some.mp he
    exact fun i hi => (inText_endKey.mp htext).2 i (by omega)
  have ht : t + 80 ≤ totalSize := by
    have hle := (hplace.before he).1
    omega
  have hbytes : ¬ ∃ j < 80, instanceByte instanceId j = 0 := fun ⟨j, _, h0⟩ =>
    instanceByte_ne_zero instanceId j h0
  rw [hasNul_overlay ht, or_iff_left hbytes]
  rcases hplace with ⟨hblank, rfl⟩ | ⟨hblank, hend, rfl⟩
  · obtain ⟨e', he', hbe, -⟩ := blsearch_lt hblank
    rw [he] at he'
    cases he'
    obtain ⟨z, hz, h0⟩ := hnul
    have hbehind : e < z := by
      by_contra hle
      exact htext z (by omega) h0
    constructor
    · intro _
      exact .inl (by rw [hblank]; nofun)
    · intro _
      exact ⟨z, hz, .inr (by omega), h0⟩
  · obtain rfl : e = t := Option.some.inj (he.symm.trans hend)
    have hspace : e + 160 ≤ totalSize := by
      by_contra hlt
      refine hroom ⟨hblank, fun e' he' => ?_⟩
      rw [he] at he'
      cases he'
      omega
    constructor
    · intro ⟨i, hi, hout, h0⟩
      by_cases hmoved : e + 80 ≤ i ∧ i < e + 160
      · rw [strncpy_eq_overlay, overlay_inside (j := i - (e + 80)) (by omega) (by omega),
          copied] at h0
        split at h0
        · rename_i hsource
          obtain ⟨k, hk, hk0⟩ := hsource
          exact .inr ⟨e + k, by omega, .inl (by omega), hk0⟩
        · exact .inr ⟨e + (i - (e + 80)), by omega, .inl (by omega), h0⟩
      · rw [strncpy_outside (by omega)] at h0
        exact .inr ⟨i, hi, by omega, h0⟩
    · intro h
      rcases h with hno | ⟨i, hi, hout, h0⟩
      · exact absurd hblank hno
      · by_cases hline : i < e + 80
        · -- a NUL of the END line moves with it
          have hlow : e < i := by
            by_contra hle
            exact htext i (by omega) h0
          refine ⟨i + 80, by omega, .inr (by omega), ?_⟩
          rw [strncpy_eq_overlay, overlay_inside (j := i - e) (by omega) (by omega), copied]
          split
          · rfl
          · rw [ptr_apply, Nat.add_sub_cancel' hlow.le]
            exact h0
        · refine ⟨i, hi, .inr (by omega), ?_⟩
          rw [strncpy_outside (by omega)]
          exact h0

/-- **INSTANCE added**: END must be found behind a line that is not blank, and a line and a
NUL be left. -/
theorem added_iff {m : Mem} {instanceId : Int32}
    (hfind : ksearch m (keyword8 instanceKey) = none) :
    Establishes instanceId ((hputi4Checked m instanceKey instanceId).map (·.2)) ↔
      ∃ e, HasNul m ∧ ksearch m endKey = some e ∧ blsearchUnderruns m endKey = false ∧
        ¬ NoRecordLeft m ∧ (blsearch m endKey ≠ none ∨ NulApart m (e + 80) (e + 160)) := by
  constructor
  · rintro ⟨m', hm', hnul', hend', -⟩
    obtain ⟨r, hr, rfl⟩ := map_eq_ok hm'
    obtain ⟨hnul, hend, hline, hput⟩ := hputi4Checked_ok hr
    have hroom : ¬ NoRecordLeft m :=
      room_of_added hfind hend (by rw [hput]; rfl) hend'
    obtain ⟨e, he, -⟩ := hend
    obtain ⟨t, room, hplace⟩ := newPlace_of_end he
    rw [put_added instanceId hfind hplace] at hput
    cases hput
    exact ⟨e, hnul, he, hline hfind, hroom,
      (hplace.nul_left instanceId hnul he hroom).mp hnul'⟩
  · intro ⟨e, hnul, he, hline, hroom, hleft⟩
    have hend : EndInside m := ⟨e, he, hnul.end_inside he⟩
    obtain ⟨t, room, hplace, hwrite⟩ := hend.newLine hroom
    rw [hputi4Checked_eq hnul hend (fun _ => hline), put_added instanceId hfind hplace]
    refine ⟨_, rfl, (hplace.nul_left instanceId hnul he hroom).mpr hleft,
      (hwrite _ fun j _ => instanceByte_ne_zero instanceId j).1, ?_⟩
    exact added_reads instanceId hfind hend hplace

/-! ## INSTANCE in the line it had -/

/-- A line is read up to its NUL. -/
theorem lineAt_padded {m : Mem} {t j k : ℕ} (hjk : j ≤ k) (hk : k < 80)
    (h : lineAt m t j = 0) : lineAt m t k = 0 := by
  have hcopied : ∀ i < 80, lineAt m t i = copied (ptr m t) i := fun i hi => if_pos (by omega)
  rw [hcopied j (by omega), copied] at h
  rw [hcopied k hk, copied]
  split at h
  · rename_i hnul
    obtain ⟨i, hi, h0⟩ := hnul
    exact if_pos ⟨i, by omega, h0⟩
  · rcases Nat.eq_or_lt_of_le hjk with rfl | hlt
    · rename_i hnone
      rw [if_neg hnone]
      exact h
    · exact if_pos ⟨j, hlt, h⟩

theorem trimComment_congr {newcom newcom' : Mem} {lcom : ℕ}
    (h : ∀ j < lcom, newcom j = newcom' j) : trimComment newcom lcom = trimComment newcom' lcom := by
  induction lcom with
  | zero => rfl
  | succ n ih =>
    cases n with
    | zero => rfl
    | succ k => rw [trimComment, trimComment, h k (by omega), ih fun j hj => h j (by omega)]

/-- The old comment is the line from two columns behind its mark on. -/
theorem oldComment_eq {m newcom : Mem} {t lcom c1 : ℕ}
    (hold : oldComment m t = .ok (newcom, lcom)) (hc1 : commentAt (lineAt m t) = some c1) :
    lcom = trimComment (ptr (lineAt m t) (c1 + 2)) (78 - c1) ∧
      ∀ j < lcom, newcom j = lineAt m t (c1 + 2 + j) := by
  have hcopy : ∀ j < 78 - c1, strncpy noBytes 0 (ptr (lineAt m t) (c1 + 2)) (78 - c1) j =
      lineAt m t (c1 + 2 + j) := by
    intro j hj
    show (if 0 ≤ j ∧ j < 0 + (78 - c1) then copied (ptr (lineAt m t) (c1 + 2)) (j - 0) else _) = _
    rw [if_pos (by omega), Nat.sub_zero, copied]
    split
    · rename_i hnul
      obtain ⟨i, hi, h0⟩ := hnul
      exact (lineAt_padded (by omega) (by omega) h0).symm
    · rfl
  simp only [oldComment, hc1] at hold
  split at hold
  · cases hold
  · cases hold
    refine ⟨trimComment_congr hcopy, fun j hj => hcopy j ?_⟩
    exact lt_of_lt_of_le hj (trimComment_le _ _)

/-- The line written has no NUL exactly when none is copied with the comment. -/
theorem commentWhole_iff {m newcom : Mem} {t lcom : ℕ} (instanceId : Int32)
    (hold : oldComment m t = .ok (newcom, lcom)) :
    CommentWhole m t ↔
      ∀ j < 80, commented (instanceByte instanceId) 33 newcom lcom j ≠ 0 := by
  have hbare := instanceByte_ne_zero instanceId
  have hcolumns : CommentWhole m t ↔ ∀ j < min lcom 44, newcom j ≠ 0 := by
    rw [CommentWhole]
    cases hc1 : commentAt (lineAt m t) with
    | none =>
      have hempty : lcom = 0 := by
        simp only [oldComment, hc1] at hold
        cases hold
        rfl
      simp [hempty]
    | some c1 =>
      obtain ⟨hlcom, hcopy⟩ := oldComment_eq hold hc1
      constructor
      · intro h j hj
        rw [hcopy j (by omega)]
        exact h c1 rfl j (by omega)
      · intro h c hc j hj
        cases hc
        rw [← hlcom] at hj
        rw [← hcopy j (by omega)]
        exact h j hj
  rw [hcolumns]
  constructor
  · intro h j _
    unfold commented
    split
    · exact hbare j
    · split
      · decide
      · split
        · rw [copied_eq fun k hk => h k (by omega)]
          exact h _ (by omega)
        · decide
  · intro h j hj h0
    refine h (36 + j) (by omega) ?_
    rw [commented, if_neg (by omega), if_neg (by omega), if_pos (by omega),
      show 36 + j - (33 + 3) = j by omega, copied]
    split
    · rfl
    · exact h0

/-- A line where INSTANCE is found: the text reaches it, and no line before has the key. -/
theorem before_of_found {m : Mem} {t : ℕ} (hfind : ksearch m (keyword8 instanceKey) = some t) :
    t % 80 = 0 ∧ t + 8 ≤ headLimit ∧ (∀ i < t, m i ≠ 0) ∧
      ∀ j < t, ¬ Hit m (keyword8 instanceKey) j := by
  have ht := ksearch_aligned hfind
  rw [ksearch, instanceKey_isKey.take] at hfind
  obtain ⟨loc, heq, hin, -, hfirst⟩ := searchText_eq_some.mp hfind
  obtain ⟨hlimit, htext⟩ := le_textLength.mp hin.2
  have hlen : (keyword8 instanceKey).length = 8 := rfl
  exact ⟨ht, by omega, fun i hi => htext i (by omega), fun j hj => hfirst j (by omega)⟩

/-- The memory with INSTANCE written anew: its line with the comment it had. -/
def rewritten (m : Mem) (t : ℕ) (instanceId : Int32) (newcom : Mem) (lcom : ℕ) : Mem :=
  overlay m t 80 (commented (instanceByte instanceId) 33 newcom lcom)

theorem put_found {m newcom : Mem} {t lcom : ℕ} (instanceId : Int32)
    (hfind : ksearch m (keyword8 instanceKey) = some t)
    (hold : oldComment m t = .ok (newcom, lcom)) :
    hputi4 m instanceKey instanceId = .ok (0, rewritten m t instanceId newcom lcom) := by
  have hput := @hputc_found m newcom instanceKey
    ⟨intText instanceId.toInt, intText_noNul instanceId.toInt⟩ t lcom (by decide)
    (prints_int32 instanceId).fits hfind hold (.inr (by rw [valueEnd_intText]; omega))
  rw [valueEnd_intText] at hput
  exact hput

/-- A comment does not change the columns of key and value. -/
theorem commented_instance {newcom : Mem} {lcom j : ℕ} (instanceId : Int32) (hj : j < 34) :
    commented (instanceByte instanceId) 33 newcom lcom j = instanceByte instanceId j := by
  by_cases hlow : j < 33
  · exact commented_low hlow
  · have hstart : valueStart (intText instanceId.toInt) = 33 - (intText instanceId.toInt).length :=
      if_neg (intText_bare _)
    have hblank : instanceByte instanceId j = 32 := by
      have hshort := instanceKey_isKey.short
      have hlen := intText_length (prints_int32 instanceId).1 (prints_int32 instanceId).2
      rw [instanceByte, cardByte, if_neg (by omega), if_neg (by omega), hstart, if_neg (by omega)]
    rw [commented, hblank]
    split_ifs <;> first | rfl | omega

section Rewritten

variable {m newcom : Mem} {t lcom : ℕ}

/-- END that was found already is still found: it is not on the line of INSTANCE. -/
theorem rewritten_of_inside (instanceId : Int32)
    (hfind : ksearch m (keyword8 instanceKey) = some t)
    (hold : oldComment m t = .ok (newcom, lcom)) (hfit : CommentFits m t) (hend : EndInside m) :
    EndInside (rewritten m t instanceId newcom lcom) := by
  have hcom : isCommentary (keyword8 instanceKey) = false := by decide
  have hletter : ∃ c ∈ keyword8 instanceKey, c ≠ 32 := ⟨73, by decide, by decide⟩
  have hreplaces : Replaces m (.hputi4 instanceKey instanceId) t := ⟨hcom, hfind⟩
  have hkept : CommentKept m (.hputi4 instanceKey instanceId) t := by
    refine ⟨hfit, fun c1 _ _ => ?_⟩
    show valueEnd (intText instanceId.toInt) < 78
    rw [valueEnd_intText]
    omega
  obtain ⟨f, hrun, hinside⟩ := hreplaces.run_inside hend hkept fun hblank => by
    obtain ⟨c, hc, hne⟩ := hletter
    exact absurd (hblank c hc) hne
  have hrun' : PutOp.run m (.hputi4 instanceKey instanceId) =
      .ok (0, rewritten m t instanceId newcom lcom) := put_found instanceId hfind hold
  rw [hrun'] at hrun
  obtain ⟨-, hsame⟩ := Prod.mk.inj (Except.ok.inj hrun)
  rw [hsame]
  exact hinside

end Rewritten

/-- **INSTANCE replaced**: END must be found, its comment fit, and a NUL be left. -/
theorem replaced_iff {m : Mem} {t : ℕ} {instanceId : Int32}
    (hfind : ksearch m (keyword8 instanceKey) = some t) :
    Establishes instanceId ((hputi4Checked m instanceKey instanceId).map (·.2)) ↔
      HasNul m ∧ EndInside m ∧ CommentFits m t ∧
        (NulApart m t (t + 80) ∨ ¬ CommentWhole m t) := by
  obtain ⟨ht, hlimit, htext, hbefore⟩ := before_of_found hfind
  have hcourse : ∀ {newcom lcom}, oldComment m t = .ok (newcom, lcom) → HasNul m →
      (HasNul (rewritten m t instanceId newcom lcom) ↔
        NulApart m t (t + 80) ∨ ¬ CommentWhole m t) := by
    intro newcom lcom hold hnul
    have hline : t + 80 ≤ totalSize := by
      obtain ⟨loc, heq, hin, hit, -⟩ := searchText_eq_some.mp hfind
      have hlt := hasNul_iff.mp hnul
      have hloc := hin.1
      have hlines : totalSize % 80 = 0 := rfl
      omega
    rw [rewritten, hasNul_overlay hline, commentWhole_iff instanceId hold]
    simp only [not_forall, not_not, exists_prop]
  constructor
  · rintro ⟨m', hm', hnul', -⟩
    obtain ⟨r, hr, rfl⟩ := map_eq_ok hm'
    obtain ⟨hnul, hend, -, hput⟩ := hputi4Checked_ok hr
    by_cases hfit : CommentFits m t
    · obtain ⟨newcom, lcom, hold⟩ := oldComment_ok hfit
      rw [put_found instanceId hfind hold] at hput
      cases hput
      exact ⟨hnul, hend, hfit, (hcourse hold hnul).mp hnul'⟩
    · have hfault : hputi4 m instanceKey instanceId = .error .oldComment :=
        hputc_found_fault (by decide) hfind (oldComment_fault hfit)
      rw [hfault] at hput
      cases hput
  · intro ⟨hnul, hend, hfit, hleft⟩
    obtain ⟨newcom, lcom, hold⟩ := oldComment_ok hfit
    have hsome : ksearch m (keyword8 instanceKey) = none → blsearchUnderruns m endKey = false :=
      fun hnone => by
        rw [hfind] at hnone
        cases hnone
    rw [hputi4Checked_eq hnul hend hsome, put_found instanceId hfind hold]
    refine ⟨_, rfl, (hcourse hold hnul).mpr hleft,
      rewritten_of_inside instanceId hfind hold hfit hend, ?_⟩
    refine hgeti4_written ht hlimit htext hbefore (fun j hj => commented_instance instanceId hj) ?_
    by_cases hempty : lcom = 0
    · exact .inr fun j _ => if_pos (.inl hempty)
    · refine .inl ?_
      rw [commented, if_neg (by omega), if_pos rfl]

/-! ## Initialising -/

theorem checked_clears {buf : Mem} (h : findEnd buf = none) (instanceId : Int32) :
    chkinitChecked buf instanceId =
      (hputi4Checked (emptyBuffer buf) instanceKey instanceId).map (·.2) := by
  rw [chkinitChecked, h]

theorem checked_keeps {buf : Mem} {e : ℕ} {instanceId : Int32} (h : findEnd buf = some e)
    (hnul : HasNul buf) (hget : hgeti4 buf instanceKey = some instanceId) :
    chkinitChecked buf instanceId = .ok buf := by
  have hscan := hasNul_iff.mp hnul
  simp only [chkinitChecked, h, hget, ne_eq, not_true_eq_false, if_false]
  exact if_neg (by omega)

theorem checked_puts {buf : Mem} {e : ℕ} {instanceId : Int32} (h : findEnd buf = some e)
    (hnul : HasNul buf) (hget : hgeti4 buf instanceKey ≠ some instanceId) :
    chkinitChecked buf instanceId = (hputi4Checked buf instanceKey instanceId).map (·.2) := by
  have hscan := hasNul_iff.mp hnul
  cases hold : hgeti4 buf instanceKey with
  | none =>
    simp only [chkinitChecked, h, hold]
    exact if_neg (by omega)
  | some existing =>
    have hne : existing ≠ instanceId := fun heq => hget (by rw [hold, heq])
    simp only [chkinitChecked, h, hold, if_pos hne]
    exact if_neg (by omega)

theorem checked_scan {buf : Mem} {e : ℕ} (h : findEnd buf = some e) (hnul : ¬ HasNul buf)
    (instanceId : Int32) : chkinitChecked buf instanceId = .error .scan := by
  simp only [chkinitChecked, h]
  exact if_pos (Nat.le_of_not_lt fun hlt => hnul (hasNul_iff.mpr hlt))

/-- **Without a fault** the two models of `hashpipe_status_chkinit` agree. -/
theorem chkinit_of_checked {m m' : Mem} {instanceId : Int32}
    (h : chkinitChecked m instanceId = .ok m') : hashpipeStatusChkinit m instanceId = .ok m' := by
  have hput : ∀ {buf : Mem}, (hputi4Checked buf instanceKey instanceId).map (·.2) = .ok m' →
      (hputi4 buf instanceKey instanceId).map (·.2) = .ok m' := by
    intro buf hok
    obtain ⟨r, hr, rfl⟩ := map_eq_ok hok
    rw [(hputi4Checked_ok hr).2.2.2]
    rfl
  cases hfirst : findEnd m with
  | none =>
    rw [checked_clears hfirst] at h
    rw [chkinit_clears hfirst]
    exact hput h
  | some e =>
    by_cases hnul : HasNul m
    · by_cases hget : hgeti4 m instanceKey = some instanceId
      · rw [checked_keeps hfirst hnul hget] at h
        rw [chkinit_keeps hfirst hget]
        exact h
      · rw [checked_puts hfirst hnul hget] at h
        rw [chkinit_puts hfirst hget]
        exact hput h
    · rw [checked_scan hfirst hnul] at h
      cases h

/-- A clearing establishes both. -/
theorem clear_establishes (m : Mem) (instanceId : Int32) :
    Establishes instanceId
      ((hputi4Checked (emptyBuffer m) instanceKey instanceId).map (·.2)) := by
  have hempty := emptyBuffer_wellFormed m
  have hfirst : ksearch (emptyBuffer m) endKey = some 0 := hempty.ksearch_end
  have hline : blsearchUnderruns (emptyBuffer m) endKey = false := by
    have hsearch : searchText (emptyBuffer m) endKey = some 0 := hfirst
    rw [blsearchUnderruns, hsearch]
    rfl
  obtain ⟨m', hclear, hrep, -⟩ := clear_represents m instanceId
  rw [hputi4Checked_eq ⟨_, by decide, hempty.nul (by decide)⟩ ⟨0, hfirst, by decide⟩
    fun _ => hline]
  refine ⟨m', hclear, ⟨_, by decide, hrep.wf.nul (by decide)⟩,
    ⟨_, hrep.wf.ksearch_end, hrep.wf.fits⟩, ?_⟩
  have hget : Reads m' instancePutKey (.i4 instanceId) :=
    reads_of_hgetc (hrep.hgetc_present (Finmap.lookup_singleton_eq))
  exact hget

/-- INSTANCE has no value where it is not found. -/
theorem hgeti4_absent {m : Mem} (hfind : ksearch m (keyword8 instanceKey) = none) :
    hgeti4 m instanceKey = none := by
  rw [hgeti4, hgetc_eq (forall_mem_of_all (by decide)), hfind]
  rfl

/-- **Initialising establishes END and INSTANCE** exactly when the buffer is cleared, or it
has a NUL, searches find END in it, there is room for a new INSTANCE, the comment of an old
one fits, and a NUL is left. -/
theorem chkinit_establishes_iff (m : Mem) (instanceId : Int32) :
    Establishes instanceId (chkinitChecked m instanceId) ↔ ChkinitReady m instanceId := by
  cases hfirst : findEnd m with
  | none =>
    rw [checked_clears hfirst]
    exact ⟨fun _ => .cleared hfirst, fun _ => clear_establishes m instanceId⟩
  | some e =>
    have hsome : findEnd m ≠ none := by
      rw [hfirst]
      nofun
    by_cases hnul : HasNul m
    · by_cases hget : hgeti4 m instanceKey = some instanceId
      · rw [checked_keeps hfirst hnul hget]
        constructor
        · intro ⟨m', hm', _, hend, _⟩
          cases hm'
          exact .kept hnul hend hget
        · intro hready
          cases hready with
          | cleared h => exact absurd h hsome
          | kept _ hend _ => exact ⟨m, rfl, hnul, hend, hget⟩
          | added _ _ _ hfind => exact absurd hget (by rw [hgeti4_absent hfind]; nofun)
          | replaced _ _ _ _ hne => exact absurd hget hne
      · rw [checked_puts hfirst hnul hget]
        cases hfind : ksearch m (keyword8 instanceKey) with
        | none =>
          rw [added_iff hfind]
          constructor
          · intro ⟨e, _, he, hline, hroom, hleft⟩
            exact .added e hnul he hfind hline hroom hleft
          · intro hready
            cases hready with
            | cleared h => exact absurd h hsome
            | kept _ _ h => exact absurd h hget
            | added e _ he _ hline hroom hleft => exact ⟨e, hnul, he, hline, hroom, hleft⟩
            | replaced t _ _ h => exact absurd (hfind.symm.trans h) nofun
        | some t =>
          rw [replaced_iff hfind]
          constructor
          · intro ⟨_, hend, hfit, hleft⟩
            exact .replaced t hnul hend hfind hget hfit hleft
          · intro hready
            cases hready with
            | cleared h => exact absurd h hsome
            | kept _ _ h => exact absurd h hget
            | added _ _ _ h => exact absurd (hfind.symm.trans h) nofun
            | replaced t' _ hend h _ hfit hleft =>
              cases hfind.symm.trans h
              exact ⟨hnul, hend, hfit, hleft⟩
    · rw [checked_scan hfirst hnul]
      constructor
      · intro ⟨m', hm', _⟩
        cases hm'
      · intro hready
        cases hready with
        | cleared h => exact absurd h hsome
        | kept h | added _ h | replaced _ h => exact absurd h hnul

/-- A buffer whose only record has the keyword ENDIAN, cut off behind it. -/
def endianBuffer : Mem := chars [69, 78, 68, 73, 65, 78]

/-- **ENDIAN is taken for END.**  The first three letters of the buffer are END, so it is
kept; no search finds END, and the put of INSTANCE goes through a null pointer. -/
theorem chkinit_keeps_endian :
    ¬ ∀ (m : Mem) (instanceId : Int32), 0 ≤ instanceId → instanceId ≤ 63 →
      Establishes instanceId (chkinitChecked m instanceId) := by
  intro hall
  have hfirst : findEnd endianBuffer = some 0 := by
    rw [findEnd, firstFrom_eq_some.mpr ⟨le_rfl, by decide, by decide, fun j _ hj => by omega⟩]
    rfl
  -- the text ends at the NUL in column 6
  have hshort : ∀ {key : List UInt8} {loc : ℕ},
      InText (textLength endianBuffer headLimit) key loc → loc + key.length ≤ 6 := by
    intro key loc hin
    by_contra hlt
    exact (le_textLength.mp hin.2).2 6 (by omega) (by decide)
  have hinstance : ksearch endianBuffer (keyword8 instanceKey) = none := by
    refine searchText_eq_none.mpr fun loc hin _ => ?_
    have := hshort hin
    have hlen : ((keyword8 instanceKey).take 8).length = 8 := by decide
    omega
  have hend : ksearch endianBuffer endKey = none := by
    refine searchText_eq_none.mpr fun loc hin hit => ?_
    have := hshort hin
    have hlen : (endKey.take 8).length = 3 := by decide
    have hloc : loc ≤ 3 := by omega
    have hfirst := hit.same 0 (by decide)
    have hnext := hit.next
    interval_cases loc
    · exact absurd hnext (by decide)
    · exact absurd hfirst (by decide)
    · exact absurd hfirst (by decide)
    · exact absurd hfirst (by decide)
  have hget : hgeti4 endianBuffer instanceKey ≠ some 3 := by
    rw [hgeti4_absent hinstance]
    exact (Option.some_ne_none 3).symm
  have hput := hall endianBuffer 3 (by decide) (by decide)
  rw [checked_puts hfirst ⟨6, by decide, by decide⟩ hget, added_iff hinstance] at hput
  obtain ⟨e, -, he, -⟩ := hput
  rw [hend] at he
  cases he

end Hashpipe.Status
