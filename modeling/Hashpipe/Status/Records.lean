import Mathlib.Tactic
import Hashpipe.Status.Buffer

/-!
# Well-formed status buffers

A buffer is well formed with `n` records when its first `n` lines are records with
distinct keywords, the next line is the END record and only NULs follow up to the
buffer's size.  The searches of such a buffer are looked up in its key table, and
every operation replaces, appends or moves lines: `WellFormed.replace`,
`WellFormed.append` and `WellFormed.shiftUp_apply`.
-/

namespace Hashpipe.Status

open ByteMemory

/-- The keyword of the line at `a`: its first eight columns up to a blank. -/
def recordKey (m : Mem) (a : ℕ) : List UInt8 :=
  ((List.range 8).map fun j => m (a + j)).takeWhile (· != 32)

theorem recordKey_congr {m m' : Mem} {a a' : ℕ} (h : ∀ j < 8, m' (a' + j) = m (a + j)) :
    recordKey m' a' = recordKey m a := by
  rw [recordKey, recordKey]
  congr 1
  exact List.map_congr_left fun j hj => h j (List.mem_range.mp hj)

/-- The keyword of a line is the one it holds. -/
theorem KeyLine.recordKey {m : Mem} {a : ℕ} {key : List UInt8} (hline : KeyLine m a key)
    (hkey : IsKey key) : Status.recordKey m a = key := by
  have hshort := hkey.short
  have hsplit : (List.range 8).map (fun j => m (a + j)) =
      key ++ List.replicate (8 - key.length) 32 := by
    refine List.ext_getElem (by simp; omega) fun j hj hj' => ?_
    have hj8 : j < 8 := by simpa using hj
    rw [List.getElem_map, List.getElem_range]
    by_cases hjk : j < key.length
    · rw [List.getElem_append_left hjk, hline.name j hjk, chars_lt hjk]
    · rw [List.getElem_append_right (by omega), hline.pad j (by omega) hj8,
        List.getElem_replicate]
  rw [Status.recordKey, hsplit, List.takeWhile_append_of_pos]
  · cases 8 - key.length with
    | zero => simp
    | succ k => simp [List.replicate_succ]
  · intro c hc
    simpa using (hkey.char c hc).ne_blank

/-- The END record: the keyword and blanks. -/
def endByte (j : ℕ) : UInt8 := if j < 3 then chars endKey j else 32

/-- A line with a keyword, `=` and text. -/
structure CardLine (f : ℕ → UInt8) (key : List UInt8) : Prop where
  name : ∀ j < key.length, f j = chars key j
  pad : ∀ j, key.length ≤ j → j < 8 → f j = 32
  sep : f 8 = 61
  text : ∀ j < 80, f j ≠ 0

theorem CardLine.keyLine {m : Mem} {a : ℕ} {key : List UInt8} (hf : CardLine (ptr m a) key)
    (ha : a % 80 = 0) : KeyLine m a key where
  aligned := ha
  name := hf.name
  pad := hf.pad
  sep := .inl hf.sep

theorem CardLine.congr {f g : ℕ → UInt8} {key : List UInt8} (hf : CardLine f key)
    (hshort : key.length ≤ 8) (h : ∀ j < 80, g j = f j) : CardLine g key where
  name := fun j hj => (h j (by omega)).trans (hf.name j hj)
  pad := fun j hj h8 => (h j (by omega)).trans (hf.pad j hj h8)
  sep := (h 8 (by omega)).trans hf.sep
  text := fun j hj => by
    rw [h j hj]
    exact hf.text j hj

/-- A run of records with distinct keywords, one END record, then NULs. -/
structure WellFormed (m : Mem) (n : ℕ) : Prop where
  fits : 80 * (n + 1) ≤ totalSize
  isKey : ∀ r < n, IsKey (recordKey m (80 * r))
  card : ∀ r < n, CardLine (ptr m (80 * r)) (recordKey m (80 * r))
  distinct : ∀ r < n, ∀ s < n,
    SameKey (recordKey m (80 * r)) (recordKey m (80 * s)) → r = s
  notEnd : ∀ r < n, ¬ SameKey (recordKey m (80 * r)) endKey
  ending : ∀ j < 80, m (80 * n + j) = endByte j
  rest : ∀ i, 80 * (n + 1) ≤ i → i < totalSize → m i = 0

/-- It is enough to know a keyword for each line. -/
theorem wellFormed_of_keys {m : Mem} {n : ℕ} (keys : ℕ → List UInt8)
    (hfits : 80 * (n + 1) ≤ totalSize) (hkey : ∀ r < n, IsKey (keys r))
    (hcard : ∀ r < n, CardLine (ptr m (80 * r)) (keys r))
    (hdistinct : ∀ r < n, ∀ s < n, SameKey (keys r) (keys s) → r = s)
    (hend : ∀ r < n, ¬ SameKey (keys r) endKey) (hending : ∀ j < 80, m (80 * n + j) = endByte j)
    (hrest : ∀ i, 80 * (n + 1) ≤ i → i < totalSize → m i = 0) : WellFormed m n := by
  have hrecord : ∀ r < n, recordKey m (80 * r) = keys r := fun r hr =>
    ((hcard r hr).keyLine (by omega)).recordKey (hkey r hr)
  refine ⟨hfits, fun r hr => ?_, fun r hr => ?_, fun r hr s hs => ?_, fun r hr => ?_, hending,
    hrest⟩
  · rw [hrecord r hr]
    exact hkey r hr
  · rw [hrecord r hr]
    exact hcard r hr
  · rw [hrecord r hr, hrecord s hs]
    exact hdistinct r hr s hs
  · rw [hrecord r hr]
    exact hend r hr

section Lookup

variable {m : Mem} {n : ℕ}

theorem endByte_ne_zero (j : ℕ) : endByte j ≠ 0 := by
  unfold endByte
  split
  · exact (endKey_isKey.charAt ‹j < 3›).ne_zero
  · decide

theorem WellFormed.text (h : WellFormed m n) {i : ℕ} (hi : i < 80 * n) : m i ≠ 0 := by
  have := (h.card (i / 80) (by omega)).text (i % 80) (by omega)
  rw [ptr_apply, show 80 * (i / 80) + i % 80 = i by omega] at this
  exact this

theorem WellFormed.line (h : WellFormed m n) {r : ℕ} (hr : r < n) :
    KeyLine m (80 * r) (recordKey m (80 * r)) := (h.card r hr).keyLine (by omega)

theorem WellFormed.endLine (h : WellFormed m n) : KeyLine m (80 * n) endKey where
  aligned := by omega
  name := by
    intro j hj
    have h3 : j < 3 := hj
    rw [h.ending j (by omega), endByte, if_pos h3]
  pad := by
    intro j hj h8
    have h3 : 3 ≤ j := hj
    rw [h.ending j (by omega), endByte, if_neg (by omega)]
  sep := by
    rw [h.ending 8 (by omega)]
    exact .inr rfl

theorem WellFormed.endKey_eq (h : WellFormed m n) : recordKey m (80 * n) = endKey :=
  h.endLine.recordKey endKey_isKey

/-- Records and END record hold no NUL. -/
theorem WellFormed.noNul (h : WellFormed m n) {i : ℕ} (hi : i < 80 * (n + 1)) : m i ≠ 0 := by
  by_cases hlt : i < 80 * n
  · exact h.text hlt
  · obtain ⟨j, rfl⟩ : ∃ j, i = 80 * n + j := ⟨i - 80 * n, by omega⟩
    rw [h.ending j (by omega)]
    exact endByte_ne_zero j

/-- Records and END record are the key table that searches see. -/
theorem WellFormed.table (h : WellFormed m n) :
    KeyTable m (n + 1) fun r => recordKey m (80 * r) where
  bound := by
    have hfits := h.fits
    unfold totalSize at hfits
    unfold headLimit
    omega
  isKey := by
    intro r hr
    rcases Nat.lt_succ_iff_lt_or_eq.mp hr with hlt | rfl
    · exact h.isKey r hlt
    · rw [h.endKey_eq]
      exact endKey_isKey
  line := by
    intro r hr
    rcases Nat.lt_succ_iff_lt_or_eq.mp hr with hlt | rfl
    · exact h.line hlt
    · rw [h.endKey_eq]
      exact h.endLine
  text := fun _ hi => h.noNul hi

/-- Only the END record answers to END. -/
theorem WellFormed.ksearch_endCase (h : WellFormed m n) {key : List UInt8} (hkey : IsKey key)
    (hend : SameKey key endKey) : ksearch m key = some (80 * n) := by
  rw [ksearch, hkey.take]
  refine h.table.tags.searchText hkey (Nat.lt_succ_self n) ?_ fun s hs hsame => ?_
  · rw [h.endKey_eq]
    exact hend
  · exact h.notEnd s hs (hsame.symm.trans hend)

theorem WellFormed.ksearch_end (h : WellFormed m n) : ksearch m endKey = some (80 * n) :=
  h.ksearch_endCase endKey_isKey (SameKey.refl _)

theorem WellFormed.blsearch_end (h : WellFormed m n) : blsearch m endKey = none :=
  h.table.blsearch (Nat.lt_succ_self n) h.ksearch_end

theorem WellFormed.ksearch_found (h : WellFormed m n) {key : List UInt8} (hkey : IsKey key)
    {r : ℕ} (hr : r < n) (hsame : SameKey key (recordKey m (80 * r))) :
    ksearch m key = some (80 * r) := by
  rw [ksearch, hkey.take]
  refine h.table.tags.searchText hkey (by omega) hsame fun s hs hsame' => ?_
  have := h.distinct s (by omega) r hr (hsame'.symm.trans hsame)
  omega

theorem WellFormed.ksearch_absent (h : WellFormed m n) {key : List UInt8} (hkey : IsKey key)
    (hnul : m (80 * (n + 1)) = 0) (hend : ¬ SameKey key endKey)
    (hnone : ∀ r < n, ¬ SameKey key (recordKey m (80 * r))) : ksearch m key = none := by
  rw [ksearch, hkey.take]
  refine h.table.tags.searchText_absent hkey hnul fun s hs => ?_
  rcases Nat.lt_succ_iff_lt_or_eq.mp hs with hlt | rfl
  · exact hnone s hlt
  · rw [h.endKey_eq]
    exact hend

/-- With room for a record there is a NUL behind END. -/
theorem WellFormed.nul (h : WellFormed m n) (hroom : 80 * (n + 2) ≤ totalSize) :
    m (80 * (n + 1)) = 0 := h.rest _ le_rfl (by omega)

/-- A new line goes to END's place. -/
theorem WellFormed.newPlace (h : WellFormed m n) :
    NewPlace m (80 * n) (strncpy m (80 * n + 80) (ptr m (80 * n)) 80) :=
  .inr ⟨h.blsearch_end, h.ksearch_end, rfl⟩

end Lookup

section Write

variable {m : Mem} {n : ℕ}

theorem cardByte_cardLine {key value : List UInt8} (hkey : KeyFits key) (hvalue : ValueFits value) :
    CardLine (cardByte key value) key where
  name := fun _ hj => cardByte_name hj
  pad := fun _ hj h8 => cardByte_pad hvalue hj h8
  sep := cardByte_sep hkey.short
  text := fun j _ => cardByte_ne_zero hkey hvalue j

theorem commented_cardLine {f : ℕ → UInt8} {key : List UInt8} (hf : CardLine f key)
    (hshort : key.length ≤ 8) {lc lcom : ℕ} {newcom : Mem} (hlc : 33 ≤ lc)
    (hnew : ∀ j < lcom, newcom j ≠ 0) : CardLine (commented f lc newcom lcom) key where
  name := by
    intro j hj
    rw [commented_low (by omega)]
    exact hf.name j hj
  pad := by
    intro j hj h8
    rw [commented_low (by omega)]
    exact hf.pad j hj h8
  sep := by
    rw [commented_low (by omega)]
    exact hf.sep
  text := fun j hj => commented_ne_zero (hf.text j hj) hnew

theorem overlay_card {f : ℕ → UInt8} {key : List UInt8} (hf : CardLine f key)
    (hshort : key.length ≤ 8) (a : ℕ) : CardLine (ptr (overlay m a 80 f) a) key :=
  hf.congr hshort fun _ hj => overlay_inside rfl hj

theorem card_of_outside {m' : Mem} {a : ℕ} {key : List UInt8} (hold : CardLine (ptr m a) key)
    (hshort : key.length ≤ 8) (hout : ∀ j < 80, m' (a + j) = m (a + j)) :
    CardLine (ptr m' a) key := hold.congr hshort hout

theorem recordKey_overlay {f : ℕ → UInt8} {key : List UInt8} (hf : CardLine f key)
    (hkey : IsKey key) {a : ℕ} (ha : a % 80 = 0) : recordKey (overlay m a 80 f) a = key :=
  ((overlay_card hf hkey.short a).keyLine ha).recordKey hkey

/-- **Writing over a record** with the same key keeps the buffer well formed. -/
theorem WellFormed.replace (h : WellFormed m n) {f : ℕ → UInt8} {key : List UInt8} {r : ℕ}
    (hr : r < n) (hkey : IsKey key) (hf : CardLine f key)
    (hsame : SameKey key (recordKey m (80 * r))) : WellFormed (overlay m (80 * r) 80 f) n := by
  -- the keys are the old ones up to case
  have hfold : ∀ s, SameKey (if s = r then key else recordKey m (80 * s))
      (recordKey m (80 * s)) := by
    intro s
    split
    · rename_i hs
      rw [hs]
      exact hsame
    · exact SameKey.refl _
  refine wellFormed_of_keys (fun s => if s = r then key else recordKey m (80 * s)) h.fits
    (fun s hs => ?_) (fun s hs => ?_)
    (fun s hs t ht hst => h.distinct s hs t ht ((hfold s).symm.trans (hst.trans (hfold t))))
    (fun s hs hend => h.notEnd s hs ((hfold s).symm.trans hend)) (fun j hj => ?_)
    (fun i hi hit => ?_)
  · split
    · exact hkey
    · exact h.isKey s hs
  · split
    · rename_i hsr
      rw [hsr]
      exact overlay_card hf hkey.short _
    · exact card_of_outside (h.card s hs) (h.isKey s hs).short fun j hj =>
        overlay_outside (by omega)
  · rw [overlay_outside (by omega)]
    exact h.ending j hj
  · rw [overlay_outside (by omega)]
    exact h.rest i hi hit

/-- The memory with a new line in place of the END record at line `n`, END moved down. -/
def appended (m : Mem) (n : ℕ) (f : ℕ → UInt8) : Mem :=
  overlay (strncpy m (80 * n + 80) (ptr m (80 * n)) 80) (80 * n) 80 f

theorem appended_old {f : ℕ → UInt8} {s j : ℕ} (hs : s < n) (hj : j < 80) :
    appended m n f (80 * s + j) = m (80 * s + j) := by
  rw [appended, overlay_outside (by omega), strncpy_outside (by omega)]

/-- **Writing a new record** in END's place, END moving down. -/
theorem WellFormed.append (h : WellFormed m n) (hroom : 80 * (n + 2) ≤ totalSize)
    {f : ℕ → UInt8} {key : List UInt8} (hkey : IsKey key) (hf : CardLine f key)
    (hend : ¬ SameKey key endKey) (hnew : ∀ r < n, ¬ SameKey key (recordKey m (80 * r))) :
    WellFormed (appended m n f) (n + 1) := by
  refine wellFormed_of_keys (fun s => if s < n then recordKey m (80 * s) else key) (by omega)
    (fun s hs => ?_) (fun s hs => ?_) (fun s hs t ht hst => ?_) (fun s hs => ?_) (fun j hj => ?_)
    (fun i hi hit => ?_)
  · split
    · exact h.isKey s ‹s < n›
    · exact hkey
  · split
    · rename_i hsn
      exact card_of_outside (h.card s hsn) (h.isKey s hsn).short fun _ => appended_old hsn
    · obtain rfl : s = n := by omega
      exact overlay_card hf hkey.short _
  · split at hst <;> split at hst
    · exact h.distinct s ‹s < n› t ‹t < n› hst
    · exact absurd hst.symm (hnew s ‹s < n›)
    · exact absurd hst (hnew t ‹t < n›)
    · omega
  · split
    · exact h.notEnd s ‹s < n›
    · exact hend
  · have hcopy : ∀ k < 80, ptr m (80 * n) k ≠ 0 := fun k hk => h.noNul (by omega)
    rw [appended, overlay_outside (by omega),
      strncpy_inside (j := j) (by omega) hj fun k hk => hcopy k (by omega), ptr_apply]
    exact h.ending j hj
  · rw [appended, overlay_outside (by omega), strncpy_outside (by omega)]
    exact h.rest i (by omega) hit

/-- Moving lines without NULs up copies each from the line behind it. -/
theorem shiftUp_apply (k : ℕ) (m : Mem) (v : ℕ)
    (htext : ∀ i, v + 80 ≤ i → i < v + 80 * (k + 1) → m i ≠ 0) (i : ℕ) :
    shiftUp m v k i = if v ≤ i ∧ i < v + 80 * k then m (i + 80) else m i := by
  induction k generalizing m v with
  | zero => rw [shiftUp, if_neg (by omega)]
  | succ k ih =>
    have hmoved : ∀ i, strncpy m v (ptr m (v + 80)) 80 i =
        if v ≤ i ∧ i < v + 80 then m (i + 80) else m i := by
      intro i
      split
      · rename_i hin
        have hsrc : ∀ l < i - v, ptr m (v + 80) l ≠ 0 := fun l hl =>
          htext (v + 80 + l) (by omega) (by omega)
        rw [strncpy_inside (j := i - v) (by omega) (by omega) hsrc, ptr_apply]
        congr 1
        omega
      · exact strncpy_outside (by omega)
    rw [shiftUp, ih]
    · simp only [hmoved]
      split_ifs <;> first | rfl | omega
    · intro l hl hlk
      rw [hmoved, if_neg (by omega)]
      exact htext l (by omega) (by omega)

end Write

end Hashpipe.Status
