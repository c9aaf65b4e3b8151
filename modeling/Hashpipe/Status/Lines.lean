import Mathlib.Tactic
import Hashpipe.Status.Capacity

/-!
# The lines of a buffer after a put

A put writes one line: over the line of its key, or in END's place with END moved down.
`TagTable.overlay` and `WellFormed.moved_table` say which keys the lines start with
afterwards, and `others_found` and `others_new` that every other key reads as before.
The END record counts as a line here: a key that answers to END in another case is found
there.

`WellFormed.put_done` is what any put does to a well-formed buffer with room for a record.
-/

namespace Hashpipe.Status

open ByteMemory

/-! ## Reading a line -/

theorem lineAt_congr {m m' : Mem} {a a' : ℕ} (h : ∀ j < 80, m' (a' + j) = m (a + j)) :
    lineAt m' a' = lineAt m a := by
  funext i
  unfold lineAt
  rw [strncpy_eq_overlay, strncpy_eq_overlay]
  by_cases hi : i < 80
  · have hsame : ∀ j < 80, ptr m' a' j = ptr m a j := h
    have hz : (∃ k < i, ptr m' a' k = 0) ↔ ∃ k < i, ptr m a k = 0 :=
      exists_congr fun k => and_congr_right fun hk => by rw [hsame k (by omega)]
    rw [overlay_inside (Nat.zero_add i).symm hi, overlay_inside (Nat.zero_add i).symm hi, copied,
      copied, hsame i hi]
    simp only [hz]
  · rw [overlay_outside (by omega), overlay_outside (by omega)]

/-- A keyword without a token, as the getters take it. -/
structure PlainWord (keyword : CString) : Prop where
  isKey : IsKey (keyword8 keyword)
  whole : ∀ c ∈ keyword.bytes, c ≠ 91 ∧ c ≠ 44

theorem ToolKey.plainWord (k : ToolKey) : PlainWord k.text where
  isKey := k.isKey
  whole := fun c hc => ⟨(k.name c hc).plain.2.2.2.2.1, (k.name c hc).plain.2.2.2.2.2⟩

/-- Reading the keyword reads the line that the search finds. -/
theorem PlainWord.hgetc_found {keyword : CString} (hword : PlainWord keyword) {m : Mem} {a : ℕ}
    (h : ksearch m (keyword8 keyword) = some a) :
    hgetc m keyword = some (valueText (lineAt m a)) := by
  rw [hgetc_eq hword.whole, h]
  rfl

theorem PlainWord.hgetc_absent {keyword : CString} (hword : PlainWord keyword) {m : Mem}
    (h : ksearch m (keyword8 keyword) = none) : hgetc m keyword = none := by
  rw [hgetc_eq hword.whole, h]
  rfl

section Table

variable {m : Mem} {N : ℕ} {keys : ℕ → List UInt8} {key : List UInt8}

theorem TagTable.ksearch_found (ht : TagTable m N keys) (hkey : IsKey key) {r : ℕ} (hr : r < N)
    (hsame : SameKey key (keys r)) (hfirst : ∀ s < r, ¬ SameKey key (keys s)) :
    ksearch m key = some (80 * r) := by
  rw [ksearch, hkey.take]
  exact ht.searchText hkey hr hsame hfirst

theorem TagTable.ksearch_absent (ht : TagTable m N keys) (hkey : IsKey key)
    (hend : m (80 * N) = 0) (hnone : ∀ s < N, ¬ SameKey key (keys s)) : ksearch m key = none := by
  rw [ksearch, hkey.take]
  exact ht.searchText_absent hkey hend hnone

/-- A key that is not the new one answers to an old line. -/
theorem sameKey_update {k : List UInt8} {r s : ℕ} (hne : ¬ SameKey k key)
    (h : SameKey k (Function.update keys r key s)) : s ≠ r ∧ SameKey k (keys s) := by
  by_cases hsr : s = r
  · rw [hsr, Function.update_self] at h
    exact absurd h hne
  · rw [Function.update_of_ne hsr] at h
    exact ⟨hsr, h⟩

/-- A line's text that starts with a keyword and a character that ends it. -/
structure TagText (f : ℕ → UInt8) (key : List UInt8) : Prop where
  short : key.length ≤ 8
  name : ∀ j < key.length, f j = chars key j
  next : EndsKey (f key.length)
  text : ∀ j < 80, f j ≠ 0

theorem CardLine.tag {f : ℕ → UInt8} {key : List UInt8} (hf : CardLine f key)
    (hshort : key.length ≤ 8) : TagText f key where
  short := hshort
  name := hf.name
  next := by
    rcases Nat.lt_or_eq_of_le hshort with hlt | h8
    · rw [hf.pad _ le_rfl hlt]
      exact .inr (.inl (by decide))
    · rw [h8, hf.sep]
      exact .inl rfl
  text := hf.text

theorem TagText.line {f : ℕ → UInt8} {key : List UInt8} (hf : TagText f key) {a : ℕ}
    (ha : a % 80 = 0) : TagLine (overlay m a 80 f) a key where
  aligned := ha
  name := by
    intro j hj
    have hshort := hf.short
    rw [overlay_inside rfl (by omega)]
    exact hf.name j hj
  next := by
    have hshort := hf.short
    rw [overlay_inside rfl (by omega)]
    exact hf.next

/-- The line written is the text. -/
theorem lineAt_written {f : ℕ → UInt8} {key : List UInt8} (hf : TagText f key) {a j : ℕ}
    (hj : j < 80) : lineAt (overlay m a 80 f) a j = f j := by
  rw [lineAt_eq hj fun k hk => ?_, overlay_inside rfl hj]
  rw [overlay_inside rfl (by omega)]
  exact hf.text k (by omega)

/-- Lines that are not written keep their keys. -/
theorem TagLine.congr {m' : Mem} {a : ℕ} {key : List UInt8} (hline : TagLine m a key)
    (hshort : key.length ≤ 8) (h : ∀ j < 80, m' (a + j) = m (a + j)) : TagLine m' a key where
  aligned := hline.aligned
  name := by
    intro j hj
    rw [h j (by omega)]
    exact hline.name j hj
  next := by
    rw [h _ (by omega)]
    exact hline.next

/-- **A line written** in a table. -/
theorem TagTable.overlay (ht : TagTable m N keys) {r : ℕ} {f : ℕ → UInt8} {key : List UInt8}
    (hkey : IsKey key) (hf : TagText f key) :
    TagTable (ByteMemory.overlay m (80 * r) 80 f) N (Function.update keys r key) where
  bound := ht.bound
  isKey := by
    intro s hs
    by_cases hsr : s = r
    · rw [hsr, Function.update_self]
      exact hkey
    · rw [Function.update_of_ne hsr]
      exact ht.isKey s hs
  line := by
    intro s hs
    by_cases hsr : s = r
    · rw [hsr, Function.update_self]
      exact hf.line (by omega)
    · rw [Function.update_of_ne hsr]
      exact (ht.line s hs).congr (ht.isKey s hs).short fun j hj => overlay_outside (by omega)
  text := by
    intro i hi
    by_cases hline : 80 * r ≤ i ∧ i < 80 * r + 80
    · rw [overlay_inside (j := i - 80 * r) (by omega) (by omega)]
      exact hf.text _ (by omega)
    · rw [overlay_outside (by omega)]
      exact ht.text i hi

end Table

section Lines

variable {m : Mem} {n : ℕ} {key : List UInt8} {f : ℕ → UInt8}

/-- Records and END record have different keys. -/
theorem WellFormed.lines_distinct (h : WellFormed m n) {r s : ℕ} (hr : r ≤ n) (hs : s ≤ n)
    (hsame : SameKey (recordKey m (80 * r)) (recordKey m (80 * s))) : r = s := by
  rcases Nat.lt_or_eq_of_le hr with hrn | rfl
  · rcases Nat.lt_or_eq_of_le hs with hsn | rfl
    · exact h.distinct r hrn s hsn hsame
    · rw [h.endKey_eq] at hsame
      exact absurd hsame (h.notEnd r hrn)
  · rcases Nat.lt_or_eq_of_le hs with hsn | hsn
    · rw [h.endKey_eq] at hsame
      exact absurd hsame.symm (h.notEnd s hsn)
    · exact hsn.symm

/-- A key answers to one line at most. -/
theorem WellFormed.line_unique (h : WellFormed m n) {r s : ℕ} (hr : r ≤ n) (hs : s ≤ n)
    (hkeyr : SameKey key (recordKey m (80 * r))) (hkeys : SameKey key (recordKey m (80 * s))) :
    r = s := h.lines_distinct hr hs (hkeyr.symm.trans hkeys)

theorem WellFormed.ksearch_line (h : WellFormed m n) (hkey : IsKey key) {r : ℕ} (hr : r ≤ n)
    (hsame : SameKey key (recordKey m (80 * r))) : ksearch m key = some (80 * r) := by
  refine h.table.tags.ksearch_found hkey (by omega) hsame fun s hs hsame' => ?_
  have := h.line_unique (by omega) hr hsame' hsame
  omega

theorem WellFormed.ksearch_noLine (h : WellFormed m n) (hroom : 80 * (n + 2) ≤ totalSize)
    (hkey : IsKey key) (hnone : ∀ r ≤ n, ¬ SameKey key (recordKey m (80 * r))) :
    ksearch m key = none :=
  h.table.tags.ksearch_absent hkey (h.nul hroom) fun s hs => hnone s (by omega)

/-- The lines with END copied behind itself. -/
theorem WellFormed.moved_table (h : WellFormed m n) (hroom : 80 * (n + 2) ≤ totalSize) :
    TagTable (strncpy m (80 * n + 80) (ptr m (80 * n)) 80) (n + 2)
      fun s => recordKey m (80 * min s n) := by
  have ht := h.table.tags
  have hcopy : ∀ j < 80, strncpy m (80 * n + 80) (ptr m (80 * n)) 80 (80 * (n + 1) + j) =
      m (80 * n + j) := by
    intro j hj
    exact strncpy_inside (by omega) hj fun k hk => h.noNul (by omega)
  have hold : ∀ i < 80 * (n + 1), strncpy m (80 * n + 80) (ptr m (80 * n)) 80 i = m i :=
    fun i hi => strncpy_outside (by omega)
  refine ⟨hroom.trans (by decide), fun r _ => ht.isKey _ (by omega), fun r hr => ?_, fun i hi => ?_⟩
  · by_cases hrn : r ≤ n
    · rw [Nat.min_eq_left hrn]
      exact (ht.line r (by omega)).congr (ht.isKey r (by omega)).short fun j hj =>
        hold _ (by omega)
    · obtain rfl : r = n + 1 := by omega
      have hline := ht.line n (by omega)
      have hshort := (ht.isKey n (by omega)).short
      rw [show min (n + 1) n = n by omega]
      refine ⟨by omega, fun j hj => ?_, ?_⟩
      · rw [hcopy j (by omega)]
        exact hline.name j hj
      · rw [hcopy _ (by omega)]
        exact hline.next
  · by_cases hin : i < 80 * (n + 1)
    · rw [hold i hin]
      exact h.noNul hin
    · obtain ⟨j, rfl⟩ : ∃ j, i = 80 * (n + 1) + j := ⟨i - 80 * (n + 1), by omega⟩
      rw [hcopy j (by omega)]
      exact h.noNul (by omega)

/-- The lines after a put over a line. -/
theorem WellFormed.written_table (h : WellFormed m n) (r : ℕ) (hkey : IsKey key)
    (hf : TagText f key) : TagTable (overlay m (80 * r) 80 f) (n + 1)
      (Function.update (fun s => recordKey m (80 * s)) r key) :=
  h.table.tags.overlay hkey hf

/-- The lines after a put of a new line. -/
theorem WellFormed.appended_table (h : WellFormed m n) (hroom : 80 * (n + 2) ≤ totalSize)
    (hkey : IsKey key) (hf : TagText f key) : TagTable (appended m n f) (n + 2)
      (Function.update (fun s => recordKey m (80 * min s n)) n key) :=
  (h.moved_table hroom).overlay hkey hf

/-- Behind END stands what stood there. -/
theorem appended_behind {i : ℕ} (hi : 80 * (n + 2) ≤ i) : appended m n f i = m i := by
  rw [appended, overlay_outside (by omega), strncpy_outside (by omega)]

/-- END stands one line further down. -/
theorem WellFormed.appended_end (h : WellFormed m n) {j : ℕ} (hj : j < 80) :
    appended m n f (80 * (n + 1) + j) = m (80 * n + j) := by
  rw [appended, overlay_outside (by omega)]
  exact strncpy_inside (by omega) hj fun k hk => h.noNul (by omega)

variable {keyword : CString}

theorem WellFormed.hgetc_line (h : WellFormed m n) (hword : PlainWord keyword) {r : ℕ}
    (hr : r ≤ n) (hsame : SameKey (keyword8 keyword) (recordKey m (80 * r))) :
    hgetc m keyword = some (valueText (lineAt m (80 * r))) :=
  hword.hgetc_found (h.ksearch_line hword.isKey hr hsame)

theorem WellFormed.hgetc_noLine (h : WellFormed m n) (hroom : 80 * (n + 2) ≤ totalSize)
    (hword : PlainWord keyword)
    (hnone : ∀ r ≤ n, ¬ SameKey (keyword8 keyword) (recordKey m (80 * r))) :
    hgetc m keyword = none :=
  hword.hgetc_absent (h.ksearch_noLine hroom hword.isKey hnone)

/-- **Every other key reads as before** a put over a line. -/
theorem WellFormed.others_found (h : WellFormed m n) (hroom : 80 * (n + 2) ≤ totalSize) {r : ℕ}
    (hr : r ≤ n) (hkey : IsKey key) (hsame : SameKey key (recordKey m (80 * r)))
    (hf : TagText f key) (hword : PlainWord keyword) (hne : ¬ SameKey (keyword8 keyword) key) :
    hgetc (overlay m (80 * r) 80 f) keyword = hgetc m keyword := by
  have ht := h.written_table r hkey hf
  by_cases hfound : ∃ s ≤ n, SameKey (keyword8 keyword) (recordKey m (80 * s))
  · obtain ⟨s, hs, hsames⟩ := hfound
    have hsr : s ≠ r := by
      rintro rfl
      exact hne (hsames.trans hsame.symm)
    rw [h.hgetc_line hword hs hsames,
      hword.hgetc_found (ht.ksearch_found hword.isKey (r := s) (by omega) ?_ ?_)]
    · rw [lineAt_congr fun j hj => overlay_outside (by omega)]
    · rw [Function.update_of_ne hsr]
      exact hsames
    · intro t ht hsamet
      have := h.line_unique (by omega) hs (sameKey_update hne hsamet).2 hsames
      omega
  · have hnone : ∀ s ≤ n, ¬ SameKey (keyword8 keyword) (recordKey m (80 * s)) :=
      fun s hs hsames => hfound ⟨s, hs, hsames⟩
    rw [h.hgetc_noLine hroom hword hnone,
      hword.hgetc_absent (ht.ksearch_absent hword.isKey ?_ ?_)]
    · rw [overlay_outside (by omega)]
      exact h.nul hroom
    · intro s hs hsames
      exact hnone s (by omega) (sameKey_update hne hsames).2

/-- A key of an old record still reads from it. -/
theorem WellFormed.hgetc_appended_old (h : WellFormed m n) (hroom : 80 * (n + 2) ≤ totalSize)
    (hword : PlainWord keyword) {r : ℕ} (hr : r < n)
    (hsame : SameKey (keyword8 keyword) (recordKey m (80 * r))) (hkey : IsKey key)
    (hf : TagText f key) :
    hgetc (appended m n f) keyword = some (valueText (lineAt m (80 * r))) := by
  rw [hword.hgetc_found ((h.appended_table hroom hkey hf).ksearch_found hword.isKey (r := r)
    (by omega) ?_ fun s hs hsames => ?_)]
  · rw [lineAt_congr fun j hj => appended_old hr hj]
  · rw [Function.update_of_ne (by omega), Nat.min_eq_left (by omega)]
    exact hsame
  · rw [Function.update_of_ne (by omega), Nat.min_eq_left (by omega)] at hsames
    have := h.line_unique (by omega) hr.le hsames hsame
    omega

/-- **Every other key reads as before** a put of a new line, if the text has an end behind it. -/
theorem WellFormed.others_new (h : WellFormed m n) (hroom : 80 * (n + 2) ≤ totalSize)
    (hnul : m (80 * (n + 2)) = 0) (hkey : IsKey key) (hf : TagText f key)
    (hword : PlainWord keyword) (hne : ¬ SameKey (keyword8 keyword) key) :
    hgetc (appended m n f) keyword = hgetc m keyword := by
  have ht := h.appended_table hroom hkey hf
  by_cases hfound : ∃ s ≤ n, SameKey (keyword8 keyword) (recordKey m (80 * s))
  · obtain ⟨s, hs, hsames⟩ := hfound
    rw [h.hgetc_line hword hs hsames]
    rcases Nat.lt_or_eq_of_le hs with hsn | rfl
    · exact h.hgetc_appended_old hroom hword hsn hsames hkey hf
    · -- END is line `n + 1` now
      rw [hword.hgetc_found (ht.ksearch_found hword.isKey (r := s + 1) (by omega) ?_ ?_)]
      · rw [lineAt_congr fun j hj => h.appended_end hj]
      · rw [Function.update_of_ne (by omega), show min (s + 1) s = s by omega]
        exact hsames
      · intro t htlt hsamet
        obtain ⟨htn, hsamet⟩ := sameKey_update hne hsamet
        have := h.line_unique (by omega) le_rfl hsamet hsames
        omega
  · rw [h.hgetc_noLine hroom hword fun s hs hsames => hfound ⟨s, hs, hsames⟩,
      hword.hgetc_absent (ht.ksearch_absent hword.isKey ?_ ?_)]
    · rw [appended_behind le_rfl]
      exact hnul
    · intro s hs hsames
      exact hfound ⟨min s n, by omega, (sameKey_update hne hsames).2⟩

/-- The key of the line written reads from that line. -/
theorem WellFormed.hgetc_written (h : WellFormed m n) (hword : PlainWord keyword) {r : ℕ}
    (hr : r ≤ n) (hsame : SameKey (keyword8 keyword) (recordKey m (80 * r)))
    (hf : TagText f (keyword8 keyword)) : ∃ line : Mem, (∀ j < 80, line j = f j) ∧
      hgetc (overlay m (80 * r) 80 f) keyword = some (valueText line) := by
  refine ⟨_, fun j hj => lineAt_written hf hj, hword.hgetc_found
    ((h.written_table r hword.isKey hf).ksearch_found hword.isKey (r := r) (by omega) ?_
      fun s hs hsames => ?_)⟩
  · rw [Function.update_self]
    exact SameKey.refl _
  · rw [Function.update_of_ne (by omega)] at hsames
    have := h.line_unique (by omega) hr hsames hsame
    omega

theorem WellFormed.hgetc_appended (h : WellFormed m n) (hroom : 80 * (n + 2) ≤ totalSize)
    (hword : PlainWord keyword) (hnone : ∀ r < n, ¬ SameKey (keyword8 keyword) (recordKey m (80 * r)))
    (hf : TagText f (keyword8 keyword)) : ∃ line : Mem, (∀ j < 80, line j = f j) ∧
      hgetc (appended m n f) keyword = some (valueText line) := by
  refine ⟨_, fun j hj => lineAt_written hf hj, hword.hgetc_found
    ((h.appended_table hroom hword.isKey hf).ksearch_found hword.isKey (r := n) (by omega) ?_
      fun s hs hsames => ?_)⟩
  · rw [Function.update_self]
    exact SameKey.refl _
  · rw [Function.update_of_ne (by omega), Nat.min_eq_left (by omega)] at hsames
    exact hnone s hs hsames

/-! ## Puts -/

variable {p : PutOp}

/-- What a put does: its key reads from its line, the records under other keys stay, and
every other key reads as before, if a NUL follows a new END. -/
structure PutDone (m : Mem) (n : ℕ) (p : PutOp) (m' : Mem) : Prop where
  reads : ∃ (line newcom : Mem) (lcom : ℕ), (∀ j < 80, line j =
      commented (cardByte p.key p.value.bytes) (valueEnd p.value.bytes) newcom lcom j) ∧
    hgetc m' p.keyword = some (valueText line)
  frame : ∀ r < n, ¬ SameKey p.key (recordKey m (80 * r)) →
    ∀ j < 80, m' (80 * r + j) = m (80 * r + j)
  others : m (80 * (n + 2)) = 0 → ∀ keyword, PlainWord keyword →
    ¬ SameKey (keyword8 keyword) p.key → hgetc m' keyword = hgetc m keyword

/-- The record that the put replaces, if any, has a comment that can be kept. -/
def KeepsComment (m : Mem) (n : ℕ) (p : PutOp) : Prop :=
  ∀ r < n, SameKey p.key (recordKey m (80 * r)) → CommentKept m p (80 * r)

theorem WellFormed.put_over (h : WellFormed m n) (hroom : 80 * (n + 2) ≤ totalSize)
    (hword : PlainWord p.keyword) (hcom : isCommentary p.key = false) {r : ℕ} (hr : r ≤ n)
    (hsame : SameKey p.key (recordKey m (80 * r))) (hkept : CommentKept m p (80 * r)) :
    ∃ m', p.run m = .ok (0, m') ∧ PutDone m n p m' := by
  have hput : Replaces m p (80 * r) := ⟨hcom, h.ksearch_line hword.isKey hr hsame⟩
  obtain ⟨newcom, lcom, hold, hrun⟩ := hput.run_ok hkept
  have hcard : CardLine (commented (cardByte p.key p.value.bytes) (valueEnd p.value.bytes) newcom
      lcom) p.key :=
    commented_cardLine (cardByte_cardLine (keyword8_fits _) (PutOp.value_fits hcom))
      hword.isKey.short (valueEnd_ge _)
      (oldComment_ne_zero (fun j hj => h.noNul (by omega)) hold)
  have htag := hcard.tag hword.isKey.short
  obtain ⟨line, hline, hread⟩ := h.hgetc_written hword hr hsame htag
  refine ⟨_, hrun, ⟨line, newcom, lcom, hline, hread⟩, fun s hs hne j hj => ?_,
    fun _ keyword hword' hne => h.others_found hroom hr hword.isKey hsame htag hword' hne⟩
  have hsr : s ≠ r := by
    rintro rfl
    exact hne hsame
  exact overlay_outside (by omega)

theorem WellFormed.put_new (h : WellFormed m n) (hroom : 80 * (n + 2) ≤ totalSize)
    (hword : PlainWord p.keyword) (hcom : isCommentary p.key = false)
    (hnone : ∀ r ≤ n, ¬ SameKey p.key (recordKey m (80 * r))) :
    ∃ m', p.run m = .ok (0, m') ∧ PutDone m n p m' := by
  have hvalue := PutOp.value_fits hcom
  have hrun : p.run m = .ok (0, appended m n (cardByte p.key p.value.bytes)) := by
    rw [PutOp.run_eq]
    exact hputc_new hcom hvalue (h.ksearch_noLine hroom hword.isKey hnone) h.newPlace
  have htag := (cardByte_cardLine (keyword8_fits p.keyword) hvalue).tag hword.isKey.short
  obtain ⟨line, hline, hread⟩ := h.hgetc_appended hroom hword (fun r hr => hnone r (by omega)) htag
  refine ⟨_, hrun, ⟨line, noBytes, 0, fun j hj => ?_, hread⟩, fun s hs _ j hj => appended_old hs hj,
    fun hnul keyword hword' hne => h.others_new hroom hnul hword.isKey htag hword' hne⟩
  rw [hline j hj, commented, if_pos (.inl rfl)]
  rfl

/-- **What a put does** on a well-formed buffer: all that it should, or a fault, and the
first exactly when it can keep the comment of the record it replaces. -/
theorem WellFormed.put_done (h : WellFormed m n) (hroom : 80 * (n + 2) ≤ totalSize)
    (hword : PlainWord p.keyword) (hcom : isCommentary p.key = false) :
    (KeepsComment m n p ∧ ∃ m', p.run m = .ok (0, m') ∧ PutDone m n p m') ∨
      (¬ KeepsComment m n p ∧ ∃ fault, p.run m = .error fault) := by
  by_cases hfound : ∃ r ≤ n, SameKey p.key (recordKey m (80 * r))
  · obtain ⟨r, hr, hsame⟩ := hfound
    by_cases hkept : CommentKept m p (80 * r)
    · left
      refine ⟨fun s hs hsames => ?_, h.put_over hroom hword hcom hr hsame hkept⟩
      rw [h.line_unique (by omega) hr hsames hsame]
      exact hkept
    · right
      have hput : Replaces m p (80 * r) := ⟨hcom, h.ksearch_line hword.isKey hr hsame⟩
      refine ⟨fun hall => hkept ?_, hput.run_fault hkept⟩
      rcases Nat.lt_or_eq_of_le hr with hlt | rfl
      · exact hall r hlt hsame
      · -- END has no comment
        have hnone := h.endComment
        constructor
        · intro c1 hc1
          rw [hnone] at hc1
          cases hc1
        · intro c1 hc1
          rw [hnone] at hc1
          cases hc1
  · left
    have hnone : ∀ r ≤ n, ¬ SameKey p.key (recordKey m (80 * r)) := fun r hr hsame =>
      hfound ⟨r, hr, hsame⟩
    exact ⟨fun r hr hsame => absurd hsame (hnone r (by omega)), h.put_new hroom hword hcom hnone⟩

end Lines

end Hashpipe.Status
