import Mathlib.Tactic
import Hashpipe.Status.Tools

/-!
# The lines of a buffer with deletions

`hdel` moves the lines behind a record up and ends the text behind the old END record, so that
END stands there twice; the next new record takes the place of the first END and the second one
is written over by the copy of the first.  Nothing behind the first NUL is cleaned up, but the
places where lines start stay NUL.

`Ledger` is what all of this keeps: records, END, `spare` more END records, and a NUL wherever
another line could start.  `Ledger.replace`, `Ledger.append` and `Ledger.remove` are the three
changes, and the searches find a record's line as in a well-formed buffer.
-/

namespace Hashpipe.Status

open ByteMemory

/-- Records with distinct keywords, END records, then lines that start with a NUL. -/
structure Ledger (m : Mem) (n spare : ℕ) : Prop where
  fits : 80 * (n + 1 + spare) ≤ totalSize
  isKey : ∀ r < n, IsKey (recordKey m (80 * r))
  card : ∀ r < n, CardLine (ptr m (80 * r)) (recordKey m (80 * r))
  distinct : ∀ r < n, ∀ s < n, SameKey (recordKey m (80 * r)) (recordKey m (80 * s)) → r = s
  notEnd : ∀ r < n, ¬ SameKey (recordKey m (80 * r)) endKey
  ending : ∀ k ≤ spare, ∀ j < 80, m (80 * (n + k) + j) = endByte j
  starts : ∀ k, n + 1 + spare ≤ k → 80 * k < totalSize → m (80 * k) = 0

/-- A well-formed buffer has one END record. -/
theorem WellFormed.ledger {m : Mem} {n : ℕ} (h : WellFormed m n) : Ledger m n 0 where
  fits := h.fits
  isKey := h.isKey
  card := h.card
  distinct := h.distinct
  notEnd := h.notEnd
  ending := by
    intro k hk j hj
    obtain rfl : k = 0 := by omega
    exact h.ending j hj
  starts := fun k hk hkt => h.rest _ (by omega) hkt

section Lookup

variable {m : Mem} {n spare : ℕ} {key : List UInt8}

theorem Ledger.endLine (h : Ledger m n spare) {k : ℕ} (hk : k ≤ spare) :
    KeyLine m (80 * (n + k)) endKey where
  aligned := by omega
  name := by
    intro j hj
    have h3 : j < 3 := hj
    rw [h.ending k hk j (by omega), endByte, if_pos h3]
  pad := by
    intro j hj h8
    have h3 : 3 ≤ j := hj
    rw [h.ending k hk j (by omega), endByte, if_neg (by omega)]
  sep := by
    rw [h.ending k hk 8 (by omega)]
    exact .inr rfl

theorem Ledger.endKey_eq (h : Ledger m n spare) {k : ℕ} (hk : k ≤ spare) :
    recordKey m (80 * (n + k)) = endKey := (h.endLine hk).recordKey endKey_isKey

/-- A line is a record or an END record. -/
theorem line_cases {n spare r : ℕ} (hr : r < n + 1 + spare) : r < n ∨ ∃ k ≤ spare, r = n + k := by
  by_cases hn : r < n
  · exact .inl hn
  · exact .inr ⟨r - n, by omega, by omega⟩

theorem Ledger.noNul (h : Ledger m n spare) {i : ℕ} (hi : i < 80 * (n + 1 + spare)) : m i ≠ 0 := by
  have hsplit : 80 * (i / 80) + i % 80 = i := by omega
  rw [← hsplit]
  rcases @line_cases n spare (i / 80) (by omega) with hlt | ⟨k, hk, heq⟩
  · exact (h.card _ hlt).text (i % 80) (by omega)
  · rw [heq, h.ending k hk _ (by omega)]
    exact endByte_ne_zero _

/-- The lines are the key table that searches see. -/
theorem Ledger.table (h : Ledger m n spare) :
    KeyTable m (n + 1 + spare) fun r => recordKey m (80 * r) where
  bound := by
    have hfits := h.fits
    unfold totalSize at hfits
    unfold headLimit
    omega
  isKey := by
    intro r hr
    rcases line_cases hr with hlt | ⟨k, hk, rfl⟩
    · exact h.isKey r hlt
    · rw [h.endKey_eq hk]
      exact endKey_isKey
  line := by
    intro r hr
    rcases line_cases hr with hlt | ⟨k, hk, rfl⟩
    · exact (h.card r hlt).keyLine (by omega)
    · rw [h.endKey_eq hk]
      exact h.endLine hk
  text := fun _ hi => h.noNul hi

theorem Ledger.ksearch_end (h : Ledger m n spare) : ksearch m endKey = some (80 * n) := by
  rw [ksearch, endKey_isKey.take]
  refine h.table.tags.searchText endKey_isKey (by omega) ?_ fun s hs hsame => ?_
  · rw [show n = n + 0 from rfl, h.endKey_eq (Nat.zero_le spare)]
    exact SameKey.refl _
  · exact h.notEnd s hs hsame.symm

theorem Ledger.ksearch_found (h : Ledger m n spare) (hkey : IsKey key) {r : ℕ} (hr : r < n)
    (hsame : SameKey key (recordKey m (80 * r))) : ksearch m key = some (80 * r) := by
  rw [ksearch, hkey.take]
  refine h.table.tags.searchText hkey (by omega) hsame fun s hs hsame' => ?_
  have := h.distinct s (by omega) r hr (hsame'.symm.trans hsame)
  omega

theorem Ledger.ksearch_absent (h : Ledger m n spare) (hkey : IsKey key)
    (hroom : 80 * (n + 1 + spare) < totalSize) (hend : ¬ SameKey key endKey)
    (hnone : ∀ r < n, ¬ SameKey key (recordKey m (80 * r))) : ksearch m key = none := by
  rw [ksearch, hkey.take]
  refine h.table.tags.searchText_absent hkey (h.starts _ le_rfl hroom) fun s hs => ?_
  rcases line_cases hs with hlt | ⟨k, hk, rfl⟩
  · exact hnone s hlt
  · rw [h.endKey_eq hk]
    exact hend

/-- A new line goes to the place of the first END record. -/
theorem Ledger.newPlace (h : Ledger m n spare) :
    NewPlace m (80 * n) (strncpy m (80 * n + 80) (ptr m (80 * n)) 80) :=
  .inr ⟨h.table.blsearch (by omega) h.ksearch_end, h.ksearch_end, rfl⟩

end Lookup

section Change

variable {m m' : Mem} {n n' spare spare' : ℕ} {key : List UInt8} {f : ℕ → UInt8}

/-- It is enough to know a keyword for each line. -/
theorem ledger_of_keys (keys : ℕ → List UInt8) (hfits : 80 * (n + 1 + spare) ≤ totalSize)
    (hkey : ∀ r < n, IsKey (keys r)) (hcard : ∀ r < n, CardLine (ptr m (80 * r)) (keys r))
    (hdistinct : ∀ r < n, ∀ s < n, SameKey (keys r) (keys s) → r = s)
    (hend : ∀ r < n, ¬ SameKey (keys r) endKey)
    (hending : ∀ k ≤ spare, ∀ j < 80, m (80 * (n + k) + j) = endByte j)
    (hstarts : ∀ k, n + 1 + spare ≤ k → 80 * k < totalSize → m (80 * k) = 0) :
    Ledger m n spare := by
  have hrecord : ∀ r < n, recordKey m (80 * r) = keys r := fun r hr =>
    ((hcard r hr).keyLine (by omega)).recordKey (hkey r hr)
  refine ⟨hfits, fun r hr => ?_, fun r hr => ?_, fun r hr s hs => ?_, fun r hr => ?_, hending,
    hstarts⟩
  · rw [hrecord r hr]
    exact hkey r hr
  · rw [hrecord r hr]
    exact hcard r hr
  · rw [hrecord r hr, hrecord s hs]
    exact hdistinct r hr s hs
  · rw [hrecord r hr]
    exact hend r hr

/-- **A record written over**, under the same key. -/
theorem Ledger.replace (h : Ledger m n spare) {r : ℕ} (hr : r < n) (hkey : IsKey key)
    (hf : CardLine f key) (hsame : SameKey key (recordKey m (80 * r))) :
    Ledger (overlay m (80 * r) 80 f) n spare := by
  -- the keys are the old ones up to case
  have hfold : ∀ s, SameKey (Function.update (fun s => recordKey m (80 * s)) r key s)
      (recordKey m (80 * s)) := by
    intro s
    by_cases hs : s = r
    · rw [hs, Function.update_self]
      exact hsame
    · rw [Function.update_of_ne hs]
      exact SameKey.refl _
  refine ledger_of_keys (Function.update (fun s => recordKey m (80 * s)) r key) h.fits
    (fun s hs => ?_) (fun s hs => ?_)
    (fun s hs t ht hst => h.distinct s hs t ht ((hfold s).symm.trans (hst.trans (hfold t))))
    (fun s hs hend => h.notEnd s hs ((hfold s).symm.trans hend)) (fun k hk j hj => ?_)
    (fun k hk hkt => ?_)
  · by_cases hsr : s = r
    · rw [hsr, Function.update_self]
      exact hkey
    · rw [Function.update_of_ne hsr]
      exact h.isKey s hs
  · by_cases hsr : s = r
    · rw [hsr, Function.update_self]
      exact overlay_card hf hkey.short _
    · rw [Function.update_of_ne hsr]
      exact card_of_outside (h.card s hs) (h.isKey s hs).short fun j hj =>
        overlay_outside (by omega)
  · rw [overlay_outside (by omega)]
    exact h.ending k hk j hj
  · rw [overlay_outside (by omega)]
    exact h.starts k hk hkt

/-- **A new record** in the place of the first END, which is copied over the next line: that is a
spare END record if there is one. -/
theorem Ledger.append (h : Ledger m n spare) (hroom : 80 * (n + 2) ≤ totalSize) (hkey : IsKey key)
    (hf : CardLine f key) (hend : ¬ SameKey key endKey)
    (hnew : ∀ r < n, ¬ SameKey key (recordKey m (80 * r))) :
    Ledger (appended m n f) (n + 1) (spare - 1) := by
  have hfits := h.fits
  have hcopy : ∀ j < 80, appended m n f (80 * (n + 1) + j) = endByte j := by
    intro j hj
    have hsource : ∀ k < 80, ptr m (80 * n) k ≠ 0 := fun k hk => h.noNul (by omega)
    rw [appended, overlay_outside (by omega),
      strncpy_inside (j := j) (by omega) hj fun k hk => hsource k (by omega), ptr_apply]
    exact h.ending 0 (Nat.zero_le spare) j hj
  have hbehind : ∀ i, 80 * (n + 2) ≤ i → appended m n f i = m i := fun i hi => by
    rw [appended, overlay_outside (by omega), strncpy_outside (by omega)]
  refine ledger_of_keys (Function.update (fun s => recordKey m (80 * s)) n key) (by omega)
    (fun s hs => ?_) (fun s hs => ?_) (fun s hs t ht hst => ?_) (fun s hs => ?_)
    (fun k hk j hj => ?_) (fun k hk hkt => ?_)
  · rcases Nat.lt_succ_iff_lt_or_eq.mp hs with hlt | rfl
    · rw [Function.update_of_ne hlt.ne]
      exact h.isKey s hlt
    · rw [Function.update_self]
      exact hkey
  · rcases Nat.lt_succ_iff_lt_or_eq.mp hs with hlt | rfl
    · rw [Function.update_of_ne hlt.ne]
      exact card_of_outside (h.card s hlt) (h.isKey s hlt).short fun _ => appended_old hlt
    · rw [Function.update_self]
      exact overlay_card hf hkey.short _
  · rcases Nat.lt_succ_iff_lt_or_eq.mp hs with hsn | rfl
    · rcases Nat.lt_succ_iff_lt_or_eq.mp ht with htn | rfl
      · rw [Function.update_of_ne hsn.ne, Function.update_of_ne htn.ne] at hst
        exact h.distinct s hsn t htn hst
      · rw [Function.update_of_ne hsn.ne, Function.update_self] at hst
        exact absurd hst.symm (hnew s hsn)
    · rcases Nat.lt_succ_iff_lt_or_eq.mp ht with htn | rfl
      · rw [Function.update_self, Function.update_of_ne htn.ne] at hst
        exact absurd hst (hnew t htn)
      · rfl
  · rcases Nat.lt_succ_iff_lt_or_eq.mp hs with hlt | rfl
    · rw [Function.update_of_ne hlt.ne]
      exact h.notEnd s hlt
    · rw [Function.update_self]
      exact hend
  · rcases Nat.eq_zero_or_pos k with rfl | hpos
    · exact hcopy j hj
    · rw [hbehind _ (by omega), ← h.ending (k + 1) (by omega) j hj]
      congr 1
      omega
  · rw [hbehind _ (by omega)]
    exact h.starts k (by omega) hkt

/-- What `hdel` leaves of a ledger. -/
def removed (m : Mem) (n r : ℕ) : Mem := fill (shiftUp m (80 * r) (n - r)) (80 * n + 80) 1 0

theorem Ledger.removed_low (h : Ledger m n spare) {r i : ℕ} (hr : r < n) (hi : i < 80 * r) :
    removed m n r i = m i := by
  rw [removed, fill_outside (by omega),
    shiftUp_apply (n - r) m (80 * r) fun i _ hi => h.noNul (by omega), if_neg (by omega)]

theorem Ledger.removed_moved (h : Ledger m n spare) {r i : ℕ} (hr : r < n) (hi : 80 * r ≤ i)
    (hin : i < 80 * n) : removed m n r i = m (i + 80) := by
  rw [removed, fill_outside (by omega),
    shiftUp_apply (n - r) m (80 * r) fun i _ hi => h.noNul (by omega), if_pos (by omega)]

theorem Ledger.removed_high (h : Ledger m n spare) {r i : ℕ} (hr : r < n) (hi : 80 * n ≤ i)
    (hne : i ≠ 80 * n + 80) : removed m n r i = m i := by
  rw [removed, fill_outside (by omega),
    shiftUp_apply (n - r) m (80 * r) fun i _ hi => h.noNul (by omega), if_neg (by omega)]

/-- The record that stands on a line after record `r` is gone. -/
def movedLine (r s : ℕ) : ℕ := if s < r then s else s + 1

theorem Ledger.removed_line (h : Ledger m n spare) {r s j : ℕ} (hr : r < n) (hs : s + 1 < n)
    (hj : j < 80) : removed m n r (80 * s + j) = m (80 * movedLine r s + j) := by
  unfold movedLine
  split
  · exact h.removed_low hr (by omega)
  · rw [h.removed_moved hr (by omega) (by omega)]
    congr 1
    omega

theorem movedLine_lt {r s : ℕ} (hs : s + 1 < n) : movedLine r s < n := by
  unfold movedLine
  split <;> omega

theorem movedLine_inj {r s t : ℕ} (h : movedLine r s = movedLine r t) : s = t := by
  unfold movedLine at h
  split_ifs at h <;> omega

theorem movedLine_ne (r s : ℕ) : movedLine r s ≠ r := by
  unfold movedLine
  split <;> omega

theorem exists_movedLine {r t : ℕ} (hne : t ≠ r) (ht : t < n) (hr : r < n) :
    ∃ s, s + 1 < n ∧ movedLine r s = t := by
  rcases Nat.lt_or_gt_of_ne hne with hlt | hgt
  · exact ⟨t, by omega, if_pos hlt⟩
  · refine ⟨t - 1, by omega, ?_⟩
    rw [movedLine, if_neg (by omega)]
    omega

/-- **A record removed**: two END records stand behind the others. -/
theorem Ledger.remove (h : Ledger m n spare) (hspare : spare ≤ 1) {r : ℕ} (hr : r < n) :
    Ledger (removed m n r) (n - 1) 1 := by
  have hfits := h.fits
  have hline : ∀ s < n - 1, ∀ j < 80, removed m n r (80 * s + j) = m (80 * movedLine r s + j) :=
    fun s hs j hj => h.removed_line hr (by omega) hj
  refine ledger_of_keys (fun s => recordKey m (80 * movedLine r s)) (by omega)
    (fun s hs => h.isKey _ (movedLine_lt (by omega))) (fun s hs => ?_)
    (fun s hs t ht hst => movedLine_inj
      (h.distinct _ (movedLine_lt (by omega)) _ (movedLine_lt (by omega)) hst))
    (fun s hs => h.notEnd _ (movedLine_lt (by omega))) (fun k hk j hj => ?_) (fun k hk hkt => ?_)
  · have hlt : movedLine r s < n := movedLine_lt (by omega)
    exact (h.card _ hlt).congr (h.isKey _ hlt).short fun j hj => hline s hs j hj
  · rcases Nat.le_one_iff_eq_zero_or_eq_one.mp hk with rfl | rfl
    · rw [h.removed_moved hr (by omega) (by omega), ← h.ending 0 (Nat.zero_le _) j hj]
      congr 1
      omega
    · rw [show n - 1 + 1 = n by omega, h.removed_high hr (by omega) (by omega)]
      exact h.ending 0 (Nat.zero_le _) j hj
  · by_cases hk' : k = n + 1
    · rw [hk']
      exact fill_inside (by omega) (by omega)
    · rw [h.removed_high hr (by omega) (by omega)]
      exact h.starts k (by omega) hkt

/-- `hdel` of a key that is there. -/
theorem Ledger.hdel_found (h : Ledger m n spare) {keyword : CString}
    (hkey : IsKey (keyword8 keyword)) {r : ℕ} (hr : r < n)
    (hsame : SameKey (keyword8 keyword) (recordKey m (80 * r))) :
    hdel m keyword = .ok (1, removed m n r) := by
  have hfound : ksearch m keyword.bytes = some (80 * r) := by
    have := h.ksearch_found hkey hr hsame
    rwa [ksearch, keyword8, List.take_take, Nat.min_self] at this
  have hcount : (80 * n - 80 * r + 79) / 80 = n - r := by omega
  rw [hdel]
  simp only [hfound, h.ksearch_end]
  rw [hcount]
  rfl

/-- `hdel` of a key that is not there. -/
theorem Ledger.hdel_absent (h : Ledger m n spare) {keyword : CString}
    (hkey : IsKey (keyword8 keyword)) (hroom : 80 * (n + 1 + spare) < totalSize)
    (hend : ¬ SameKey (keyword8 keyword) endKey)
    (hnone : ∀ r < n, ¬ SameKey (keyword8 keyword) (recordKey m (80 * r))) :
    hdel m keyword = .ok (0, m) := by
  have habsent : ksearch m keyword.bytes = none := by
    have := h.ksearch_absent hkey hroom hend hnone
    rwa [ksearch, keyword8, List.take_take, Nat.min_self] at this
  rw [hdel]
  simp only [habsent]

end Change

end Hashpipe.Status
