import Mathlib.Tactic
import Hashpipe.Status.Records

/-!
# The status tools keep the buffer well formed, except when they delete

The operations of the status tools on a well-formed buffer with room for a record.
Puts, `hashpipe_status_clear` and `hashpipe_status_chkinit` keep it well formed as
long as the old comment of the record they replace fits and the key does not answer
to END.  Deleting a present key never does: `hdel` moves END up with the records but
ends the text behind the old END record, which stays as a second one.

`tools_keep_wellFormed` is the exact condition, `hdel_keeps_two_ends` the failure.
-/

namespace Hashpipe.Status

open ByteMemory CNumber

/-- Letters, digits, `_` and `-`. -/
def NameChar (c : UInt8) : Prop :=
  (48 ≤ c ∧ c ≤ 57) ∨ (65 ≤ c ∧ c ≤ 90) ∨ (97 ≤ c ∧ c ≤ 122) ∨ c = 95 ∨ c = 45

instance (c : UInt8) : Decidable (NameChar c) := inferInstanceAs (Decidable (_ ∨ _ ∨ _ ∨ _ ∨ _))

theorem NameChar.keyChar {c : UInt8} (h : NameChar c) : KeyChar c := by
  simp only [NameChar, KeyChar, UInt8.lt_iff_toNat_lt, UInt8.le_iff_toNat_le, ← UInt8.toNat_inj,
    ne_eq] at *
  simp at *
  omega

/-- The characters with a meaning in keywords or lines are not among them. -/
theorem NameChar.plain {c : UInt8} (h : NameChar c) :
    c ≠ 39 ∧ c ≠ 34 ∧ c ≠ 47 ∧ c ≠ 61 ∧ c ≠ 91 ∧ c ≠ 44 := by
  refine ⟨?_, ?_, ?_, ?_, ?_, ?_⟩ <;> rintro rfl <;> exact absurd h (by decide)

theorem isKey_keyword8 {keyword : CString} (hne : 1 ≤ keyword.bytes.length)
    (hname : ∀ c ∈ keyword.bytes, NameChar c) : IsKey (keyword8 keyword) where
  nonempty := by
    rw [keyword8, List.length_take]
    omega
  short := (keyword8_fits keyword).short
  char := fun c hc => (hname c (List.mem_of_mem_take hc)).keyChar

/-- A keyword the tools are given: any length, and not one of the reserved words. -/
structure ToolKey where
  text : CString
  nonempty : text.bytes ≠ []
  name : ∀ c ∈ text.bytes, NameChar c
  unreserved : text.bytes ≠ endKey ∧ text.bytes ≠ commentKey ∧ text.bytes ≠ historyKey

/-- The part of it that counts. -/
def ToolKey.key (k : ToolKey) : List UInt8 := keyword8 k.text

theorem ToolKey.isKey (k : ToolKey) : IsKey k.key :=
  isKey_keyword8 (List.length_pos_iff.mpr k.nonempty) k.name

/-- A keyword of less than eight characters is not cut. -/
theorem keyword8_eq {keyword : CString} (h : (keyword8 keyword).length < 8) :
    keyword8 keyword = keyword.bytes := by
  rw [keyword8, List.length_take] at h
  exact List.take_of_length_le (by omega)

theorem ToolKey.not_commentary (k : ToolKey) : isCommentary (keyword8 k.text) = false := by
  rw [← Bool.not_eq_true]
  intro h
  simp only [isCommentary, Bool.or_eq_true, beq_iff_eq] at h
  rcases h with h | h
  · exact k.unreserved.2.1 ((keyword8_eq (by rw [h]; decide)).symm.trans h)
  · exact k.unreserved.2.2 ((keyword8_eq (by rw [h]; decide)).symm.trans h)

inductive ToolOp
  | hputi4 (key : ToolKey) (ival : Int32)
  | hputi8 (key : ToolKey) (ival : Int64)
  | hdel (key : ToolKey)
  | clear (instanceId : Int32)
  | chkinit (instanceId : Int32)

/-- The buffer after an operation. -/
def ToolOp.run (m : Mem) : ToolOp → Except Fault Mem
  | hputi4 key ival => (Status.hputi4 m key.text ival).map (·.2)
  | hputi8 key ival => (Status.hputi8 m key.text ival).map (·.2)
  | hdel key => (Status.hdel m key.text).map (·.2)
  | clear instanceId => hashpipeStatusClear m instanceId
  | chkinit instanceId => hashpipeStatusChkinit m instanceId

/-- `m'` has the records of `m` but record `r`, byte by byte and in order. -/
def RecordRemoved (m m' : Mem) (n r : ℕ) : Prop :=
  (∀ s < r, ∀ j < 80, m' (80 * s + j) = m (80 * s + j)) ∧
    ∀ s, r ≤ s → s + 1 < n → ∀ j < 80, m' (80 * s + j) = m (80 * (s + 1) + j)

/-- The buffer is well formed after the operation; a deletion of a present key removes
that record and no other. -/
def KeepsWellFormed (m : Mem) (n : ℕ) (op : ToolOp) : Prop :=
  ∃ m' n', op.run m = .ok m' ∧ WellFormed m' n' ∧
    ∀ key r, op = .hdel key → r < n → SameKey key.key (recordKey m (80 * r)) →
      n = n' + 1 ∧ RecordRemoved m m' n r

/-- The comment of the line at `a` fits where `hputc` keeps it. -/
def CommentFits (m : Mem) (a : ℕ) : Prop :=
  ∀ c1, commentAt (lineAt m a) = some c1 → 28 ≤ c1 ∧ c1 ≤ 78

/-- No record with the key has a comment that does not fit. -/
def CommentsFit (m : Mem) (n : ℕ) (key : List UInt8) : Prop :=
  ∀ r < n, SameKey key (recordKey m (80 * r)) → CommentFits m (80 * r)

/-- When an operation keeps the buffer well formed. -/
def ToolOp.Meets (m : Mem) (n : ℕ) : ToolOp → Prop
  | hputi4 key _ => ¬ SameKey key.key endKey ∧ CommentsFit m n key.key
  | hputi8 key _ => ¬ SameKey key.key endKey ∧ CommentsFit m n key.key
  | hdel key => ∀ r < n, ¬ SameKey key.key (recordKey m (80 * r))
  | clear _ => True
  | chkinit instanceId =>
    hgeti4 m instanceKey = some instanceId ∨ CommentsFit m n instanceKey.bytes

theorem oldComment_ok {m : Mem} {a : ℕ} (h : CommentFits m a) :
    ∃ newcom lcom, oldComment m a = .ok (newcom, lcom) := by
  rw [oldComment]
  cases hc : commentAt (lineAt m a) with
  | none => exact ⟨_, _, rfl⟩
  | some c1 =>
    have := h c1 hc
    exact ⟨_, _, if_neg (by omega)⟩

theorem oldComment_fault {m : Mem} {a : ℕ} (h : ¬ CommentFits m a) :
    oldComment m a = .error .oldComment := by
  simp only [CommentFits, not_forall] at h
  obtain ⟨c1, hc, hbad⟩ := h
  rw [oldComment]
  simp only [hc]
  exact if_pos (by omega)

section Put

variable {m : Mem} {n : ℕ}

/-- An integer that a put prints. -/
def Prints (z : ℤ) : Prop := -2 ^ 63 ≤ z ∧ z < 2 ^ 64

theorem Prints.fits {z : ℤ} (hz : Prints z) : ValueFits (intText z) := intText_fits hz.1 hz.2

theorem prints_int32 (v : Int32) : Prints v.toInt := by
  have hlow := Int32.le_toInt v
  have hhigh := Int32.toInt_lt v
  constructor <;> omega

theorem prints_int64 (v : Int64) : Prints v.toInt := by
  have hlow := Int64.le_toInt v
  have hhigh := Int64.toInt_lt v
  constructor <;> omega

/-- A bare value leaves all of column 33 on to the comment. -/
theorem valueEnd_intText (z : ℤ) : valueEnd (intText z) = 33 :=
  if_neg fun h => intText_bare z h.1

/-- A put over a record whose comment fits. -/
theorem WellFormed.hputInt_found (h : WellFormed m n) {keyword : CString} {z : ℤ}
    (hkey : IsKey (keyword8 keyword)) (hcom : isCommentary (keyword8 keyword) = false)
    (hz : Prints z) {r : ℕ} (hr : r < n)
    (hsame : SameKey (keyword8 keyword) (recordKey m (80 * r))) (hfit : CommentFits m (80 * r)) :
    ∃ m', hputInt m keyword z = .ok (0, m') ∧ WellFormed m' n := by
  obtain ⟨newcom, lcom, hold⟩ := oldComment_ok hfit
  have hput := @hputc_found m newcom keyword ⟨intText z, intText_noNul z⟩ _ lcom hcom hz.fits
    (h.ksearch_found hkey hr hsame) hold (.inr (by rw [valueEnd_intText]; omega))
  refine ⟨_, hput, h.replace hr hkey ?_ hsame⟩
  refine commented_cardLine (cardByte_cardLine (keyword8_fits keyword) hz.fits) hkey.short
    (valueEnd_ge _) (oldComment_ne_zero (fun j hj => ?_) hold)
  exact h.text (by omega)

/-- A put of a new key. -/
theorem WellFormed.hputInt_new (h : WellFormed m n) (hroom : 80 * (n + 2) ≤ totalSize)
    {keyword : CString} {z : ℤ} (hkey : IsKey (keyword8 keyword))
    (hcom : isCommentary (keyword8 keyword) = false) (hz : Prints z)
    (hend : ¬ SameKey (keyword8 keyword) endKey)
    (hnew : ∀ r < n, ¬ SameKey (keyword8 keyword) (recordKey m (80 * r))) :
    hputInt m keyword z = .ok (0, appended m n (cardByte (keyword8 keyword) (intText z))) ∧
      WellFormed (appended m n (cardByte (keyword8 keyword) (intText z))) (n + 1) :=
  ⟨@hputc_new m _ keyword ⟨intText z, intText_noNul z⟩ _ hcom hz.fits
      (h.ksearch_absent hkey (h.nul hroom) hend hnew) h.newPlace,
    h.append hroom hkey (cardByte_cardLine (keyword8_fits keyword) hz.fits) hend hnew⟩

/-- A put over a record whose comment does not fit overruns `newcom`. -/
theorem WellFormed.hputInt_fault (h : WellFormed m n) {keyword : CString} {z : ℤ}
    (hkey : IsKey (keyword8 keyword)) (hcom : isCommentary (keyword8 keyword) = false)
    {r : ℕ} (hr : r < n) (hsame : SameKey (keyword8 keyword) (recordKey m (80 * r)))
    (hbad : ¬ CommentFits m (80 * r)) : hputInt m keyword z = .error .oldComment :=
  hputc_found_fault hcom (h.ksearch_found hkey hr hsame) (oldComment_fault hbad)

/-- The END record has no comment. -/
theorem WellFormed.endComment (h : WellFormed m n) : commentAt (lineAt m (80 * n)) = none := by
  have hline : ∀ j < 80, lineAt m (80 * n) j = endByte j := by
    intro j hj
    rw [lineAt_eq hj fun k hk => h.noNul (by omega)]
    exact h.ending j hj
  have hmark : ∀ c : UInt8, c ∉ endKey → c ≠ 32 → strchr (lineAt m (80 * n)) 0 c = none := by
    intro c hc h32
    refine strchr_eq_none fun j _ hj => ?_
    rw [hline j hj, endByte]
    split
    · exact fun hjc => hc (hjc ▸ chars_mem ‹j < 3›)
    · exact h32.symm
  rw [commentAt, hmark 39 (by decide) (by decide), hmark 47 (by decide) (by decide)]

/-- A put under END in another case leaves no END record: it becomes a record itself. -/
theorem WellFormed.hputInt_end (h : WellFormed m n) (hroom : 80 * (n + 2) ≤ totalSize)
    {keyword : CString} {z : ℤ} (hkey : IsKey (keyword8 keyword))
    (hcom : isCommentary (keyword8 keyword) = false) (hz : Prints z)
    (hend : SameKey (keyword8 keyword) endKey) :
    ∃ m', hputInt m keyword z = .ok (0, m') ∧ ∀ n', ¬ WellFormed m' n' := by
  have hold : oldComment m (80 * n) = .ok (noBytes, 0) := by
    rw [oldComment, h.endComment]
  refine ⟨_, @hputc_found m _ keyword ⟨intText z, intText_noNul z⟩ _ _ hcom hz.fits
    (h.ksearch_endCase hkey hend) hold (.inl rfl), fun n' h' => ?_⟩
  -- every line up to the old END record has `=` in column 8, and NULs follow
  have hequals : ∀ r ≤ n, overlay m (80 * n) 80 (commented (cardByte (keyword8 keyword)
      (intText z)) (valueEnd (intText z)) noBytes 0) (80 * r + 8) = 61 := by
    intro r hr
    rcases Nat.lt_or_eq_of_le hr with hlt | rfl
    · rw [overlay_outside (by omega)]
      exact (h.card r hlt).sep
    · rw [overlay_inside rfl (by omega), commented_low (by rw [valueEnd_intText]; omega)]
      exact cardByte_sep hkey.short
  by_cases hle : n' ≤ n
  · have hsep := h'.ending 8 (by omega)
    rw [hequals n' hle] at hsep
    exact absurd hsep (by decide)
  · have hfits := h'.fits
    have hname := h'.ending 0 (by omega)
    rw [overlay_outside (by omega), h.rest _ (by omega) (by omega)] at hname
    exact absurd hname (by decide)

end Put

section Delete

variable {m : Mem} {n : ℕ}

/-- Deleting a present key: records and END move up, the old END record stays. -/
theorem WellFormed.hdel_present (h : WellFormed m n) {k : ToolKey} {r : ℕ} (hr : r < n)
    (hsame : SameKey k.key (recordKey m (80 * r))) :
    ∃ m', Status.hdel m k.text = .ok (1, m') ∧ RecordRemoved m m' n r ∧
      (∀ j < 80, m' (80 * (n - 1) + j) = endByte j) ∧
      (∀ j < 80, m' (80 * n + j) = endByte j) ∧
      ∀ i, 80 * (n + 1) ≤ i → i < totalSize → m' i = 0 := by
  have hfound : ksearch m k.text.bytes = some (80 * r) := by
    have := h.ksearch_found k.isKey hr hsame
    rwa [ksearch, ToolKey.key, keyword8, List.take_take, Nat.min_self] at this
  have hcount : (80 * n - 80 * r + 79) / 80 = n - r := by omega
  have hmoved := shiftUp_apply (n - r) m (80 * r) fun i _ hi => h.noNul (by omega)
  have hdel : Status.hdel m k.text =
      .ok (1, fill (shiftUp m (80 * r) (n - r)) (80 * n + 80) 1 0) := by
    rw [Status.hdel]
    simp only [hfound, h.ksearch_end]
    rw [hcount]
  refine ⟨_, hdel, ⟨fun s hs j hj => ?_, fun s hrs hsn j hj => ?_⟩, fun j hj => ?_, fun j hj => ?_,
    fun i hi hit => ?_⟩
  · rw [fill_outside (by omega), hmoved, if_neg (by omega)]
  · rw [fill_outside (by omega), hmoved, if_pos (by omega)]
    congr 1
    omega
  · rw [fill_outside (by omega), hmoved, if_pos (by omega), ← h.ending j hj]
    congr 1
    omega
  · rw [fill_outside (by omega), hmoved, if_neg (by omega)]
    exact h.ending j hj
  · by_cases h0 : i = 80 * n + 80
    · exact fill_inside (by omega) (by omega)
    · rw [fill_outside (by omega), hmoved, if_neg (by omega)]
      exact h.rest i hi hit

/-- **Two END records.**  After a deletion of a present key the buffer is well formed
with no number of records. -/
theorem WellFormed.hdel_keeps_two_ends (h : WellFormed m n) {k : ToolKey} {r : ℕ} (hr : r < n)
    (hsame : SameKey k.key (recordKey m (80 * r))) :
    ∃ m', Status.hdel m k.text = .ok (1, m') ∧ ∀ n', ¬ WellFormed m' n' := by
  obtain ⟨m', hdel, -, hend, hstale, hrest⟩ := h.hdel_present hr hsame
  refine ⟨m', hdel, fun n' h' => ?_⟩
  rcases Nat.lt_or_ge n' n with hlt | hge
  · -- an END record with text behind it
    have h0 := h'.rest (80 * n + 0) (by omega) (by have := h.fits; omega)
    rw [hstale 0 (by omega)] at h0
    exact absurd h0 (by decide)
  · rcases Nat.lt_or_eq_of_le hge with hgt | rfl
    · have hfits := h'.fits
      have hname := h'.ending 0 (by omega)
      rw [hrest _ (by omega) (by omega)] at hname
      exact absurd hname (by decide)
    · -- the new END record among the records
      have hsep := (h'.card (n - 1) (by omega)).sep
      rw [ptr_apply, hend 8 (by omega)] at hsep
      exact absurd hsep (by decide)

/-- Deleting an absent key changes nothing. -/
theorem WellFormed.hdel_absent (h : WellFormed m n) (hroom : 80 * (n + 2) ≤ totalSize)
    {k : ToolKey} (hnone : ∀ r < n, ¬ SameKey k.key (recordKey m (80 * r))) :
    ∃ rc, Status.hdel m k.text = .ok (rc, m) := by
  have htake : ksearch m k.text.bytes = ksearch m k.key := by
    rw [ksearch, ksearch, ToolKey.key, keyword8, List.take_take, Nat.min_self]
  by_cases hend : SameKey k.key endKey
  · refine ⟨1, ?_⟩
    have hcount : (80 * n - 80 * n + 79) / 80 = 0 := by omega
    rw [Status.hdel]
    simp only [htake, h.ksearch_endCase k.isKey hend, h.ksearch_end, hcount, shiftUp]
    refine congrArg (fun m' => Except.ok (1, m')) (funext fun i => ?_)
    by_cases hi : i = 80 * n + 80
    · rw [fill_inside (by omega) (by omega), hi]
      exact (h.nul hroom).symm
    · exact fill_outside (by omega)
  · refine ⟨0, ?_⟩
    rw [Status.hdel]
    simp only [htake, h.ksearch_absent k.isKey (h.nul hroom) hend hnone]

end Delete

section Init

theorem emptyBuffer_wellFormed (buf : Mem) : WellFormed (emptyBuffer buf) 0 where
  fits := by decide
  isKey := fun r hr => absurd hr (Nat.not_lt_zero r)
  card := fun r hr => absurd hr (Nat.not_lt_zero r)
  distinct := fun r hr => absurd hr (Nat.not_lt_zero r)
  notEnd := fun r hr => absurd hr (Nat.not_lt_zero r)
  ending := by
    intro j hj
    rw [emptyBuffer, strncpy_chars (fun c hc => (endKey_isKey.char c hc).ne_zero) (by decide),
      endByte]
    split
    · exact overlay_inside (by omega) ‹j < 3›
    · rw [overlay_outside (by omega), fill_inside (by omega) (by unfold recordSize; omega)]
  rest := by
    intro i hi hit
    rw [emptyBuffer, strncpy_outside (by omega), fill_outside (by unfold recordSize; omega),
      fill_inside (by omega) (by omega)]

theorem instanceKey_isKey : IsKey (keyword8 instanceKey) where
  nonempty := by decide
  short := by decide
  char := forall_mem_of_all (by decide)

/-- A cleared buffer: the INSTANCE record and END. -/
def clearedBuffer (buf : Mem) (instanceId : Int32) : Mem :=
  appended (emptyBuffer buf) 0 (cardByte (keyword8 instanceKey) (intText instanceId.toInt))

/-- Clearing the buffer leaves the INSTANCE record alone. -/
theorem clear_wellFormed (buf : Mem) (instanceId : Int32) :
    hashpipeStatusClear buf instanceId = .ok (clearedBuffer buf instanceId) ∧
      WellFormed (clearedBuffer buf instanceId) 1 := by
  obtain ⟨hput, hwf⟩ := (emptyBuffer_wellFormed buf).hputInt_new (by decide) instanceKey_isKey
    (by decide) (prints_int32 instanceId) (by decide) fun r hr => absurd hr (Nat.not_lt_zero r)
  refine ⟨?_, hwf⟩
  rw [hashpipeStatusClear, hputi4, hput]
  rfl

theorem clearedBuffer_key (buf : Mem) (instanceId : Int32) :
    recordKey (clearedBuffer buf instanceId) (80 * 0) = keyword8 instanceKey :=
  recordKey_overlay (cardByte_cardLine (keyword8_fits instanceKey) (prints_int32 instanceId).fits)
    instanceKey_isKey (by omega)

variable {m : Mem} {n : ℕ}

/-- A well-formed buffer is not initialised again. -/
theorem WellFormed.findEnd (h : WellFormed m n) : ∃ e, Status.findEnd m = some e := by
  rw [← Option.ne_none_iff_exists']
  intro hnone
  rw [Status.findEnd, Option.map_eq_none_iff, firstFrom_eq_none] at hnone
  have hfits := h.fits
  have hfalse := hnone n (Nat.zero_le n) (by
    unfold totalSize at hfits ⊢
    unfold recordSize
    omega)
  refine absurd hfalse ?_
  rw [Bool.not_eq_false, List.all_eq_true]
  intro j hj
  have h3 : j < 3 := by simpa using hj
  rw [beq_iff_eq, recordSize, h.ending j (by omega), endByte, if_pos h3]

end Init

section Operations

variable {m : Mem} {n : ℕ}

/-- What a put of an integer needs, whatever the key. -/
theorem WellFormed.hputInt_iff (h : WellFormed m n) (hroom : 80 * (n + 2) ≤ totalSize)
    {keyword : CString} {z : ℤ} (hkey : IsKey (keyword8 keyword))
    (hcom : isCommentary (keyword8 keyword) = false) (hz : Prints z) :
    (∃ m' n', (hputInt m keyword z).map (·.2) = .ok m' ∧ WellFormed m' n') ↔
      ¬ SameKey (keyword8 keyword) endKey ∧ CommentsFit m n (keyword8 keyword) := by
  by_cases hend : SameKey (keyword8 keyword) endKey
  · obtain ⟨m', hput, hbad⟩ := h.hputInt_end hroom hkey hcom hz hend
    constructor
    · intro ⟨m'', n', hrun, hwf⟩
      rw [hput] at hrun
      cases hrun
      exact absurd hwf (hbad n')
    · intro hmeets
      exact absurd hend hmeets.1
  · by_cases hfound : ∃ r < n, SameKey (keyword8 keyword) (recordKey m (80 * r))
    · obtain ⟨r, hr, hsame⟩ := hfound
      by_cases hfit : CommentFits m (80 * r)
      · obtain ⟨m', hput, hwf⟩ := h.hputInt_found hkey hcom hz hr hsame hfit
        have hfits : CommentsFit m n (keyword8 keyword) := fun s hs hsame' => by
          rw [h.distinct s hs r hr (hsame'.symm.trans hsame)]
          exact hfit
        exact ⟨fun _ => ⟨hend, hfits⟩, fun _ => ⟨m', n, by rw [hput]; rfl, hwf⟩⟩
      · have hput := h.hputInt_fault (z := z) hkey hcom hr hsame hfit
        constructor
        · intro ⟨m'', n', hrun, _⟩
          rw [hput] at hrun
          cases hrun
        · intro hmeets
          exact absurd (hmeets.2 r hr hsame) hfit
    · have hnew : ∀ r < n, ¬ SameKey (keyword8 keyword) (recordKey m (80 * r)) :=
        fun r hr hsame => hfound ⟨r, hr, hsame⟩
      obtain ⟨hput, hwf⟩ := h.hputInt_new hroom hkey hcom hz hend hnew
      exact ⟨fun _ => ⟨hend, fun r hr hsame => absurd hsame (hnew r hr)⟩,
        fun _ => ⟨_, n + 1, by rw [hput]; rfl, hwf⟩⟩

theorem WellFormed.runs_hdel (h : WellFormed m n) (hroom : 80 * (n + 2) ≤ totalSize) (k : ToolKey) :
    (∃ m' n', ToolOp.run m (.hdel k) = .ok m' ∧ WellFormed m' n') ↔
      ∀ r < n, ¬ SameKey k.key (recordKey m (80 * r)) := by
  constructor
  · intro ⟨m', n', hrun, hwf⟩ r hr hsame
    obtain ⟨m'', hdel, hbad⟩ := h.hdel_keeps_two_ends hr hsame
    rw [ToolOp.run, hdel] at hrun
    cases hrun
    exact hbad n' hwf
  · intro hnone
    obtain ⟨rc, hdel⟩ := h.hdel_absent hroom hnone
    exact ⟨m, n, by rw [ToolOp.run, hdel]; rfl, h⟩

theorem WellFormed.runs_chkinit (h : WellFormed m n) (hroom : 80 * (n + 2) ≤ totalSize)
    (instanceId : Int32) :
    (∃ m' n', ToolOp.run m (.chkinit instanceId) = .ok m' ∧ WellFormed m' n') ↔
      hgeti4 m instanceKey = some instanceId ∨ CommentsFit m n instanceKey.bytes := by
  obtain ⟨e, he⟩ := h.findEnd
  have hput := h.hputInt_iff hroom instanceKey_isKey (by decide) (prints_int32 instanceId)
  have hkey : keyword8 instanceKey = instanceKey.bytes := by decide
  have hend : ¬ SameKey instanceKey.bytes endKey := by decide
  rw [hkey] at hput
  by_cases hget : hgeti4 m instanceKey = some instanceId
  · have hrun : ToolOp.run m (.chkinit instanceId) = .ok m := chkinit_keeps he hget
    rw [hrun]
    exact ⟨fun _ => .inl hget, fun _ => ⟨m, n, rfl, h⟩⟩
  · have hrun : ToolOp.run m (.chkinit instanceId) =
        (hputInt m instanceKey instanceId.toInt).map (·.2) := chkinit_puts he hget
    rw [hrun, hput]
    simp [hend, hget]

/-- **One operation** leaves a well-formed buffer where it meets its condition, and only there. -/
theorem WellFormed.runs_iff (h : WellFormed m n) (hroom : 80 * (n + 2) ≤ totalSize) (op : ToolOp) :
    (∃ m' n', op.run m = .ok m' ∧ WellFormed m' n') ↔ op.Meets m n := by
  cases op with
  | hputi4 k ival => exact h.hputInt_iff hroom k.isKey k.not_commentary (prints_int32 ival)
  | hputi8 k ival => exact h.hputInt_iff hroom k.isKey k.not_commentary (prints_int64 ival)
  | hdel k => exact h.runs_hdel hroom k
  | clear instanceId =>
    obtain ⟨hclear, hwf⟩ := clear_wellFormed m instanceId
    exact ⟨fun _ => trivial, fun _ => ⟨_, 1, hclear, hwf⟩⟩
  | chkinit instanceId => exact h.runs_chkinit hroom instanceId

/-- **The tools keep a buffer well formed** exactly when the operation deletes no
present key, and the record it replaces, if any, has a comment that fits and is not
the END record. -/
theorem tools_keep_wellFormed (m : Mem) (n : ℕ) (op : ToolOp) (h : WellFormed m n)
    (hroom : 80 * (n + 2) ≤ totalSize) : KeepsWellFormed m n op ↔ op.Meets m n := by
  constructor
  · intro ⟨m', n', hrun, hwf, _⟩
    exact (h.runs_iff hroom op).mp ⟨m', n', hrun, hwf⟩
  · intro hmeets
    obtain ⟨m', n', hrun, hwf⟩ := (h.runs_iff hroom op).mpr hmeets
    refine ⟨m', n', hrun, hwf, ?_⟩
    -- a deletion that meets its condition finds no record to remove
    rintro key r rfl hr hsame
    exact absurd hsame (hmeets r hr)

theorem instanceKey_name : ∀ c ∈ instanceKey.bytes, NameChar c := forall_mem_of_all (by decide)

/-- The keyword INSTANCE, as given to the tools. -/
def instanceToolKey : ToolKey where
  text := instanceKey
  nonempty := by decide
  name := instanceKey_name
  unreserved := by decide

/-- `"LEVEL"`. -/
def levelToolKey : ToolKey where
  text := ⟨[76, 69, 86, 69, 76], forall_mem_of_all (by decide)⟩
  nonempty := by decide
  name := forall_mem_of_all (by decide)
  unreserved := by decide

/-- `"RATE"`. -/
def rateToolKey : ToolKey where
  text := ⟨[82, 65, 84, 69], forall_mem_of_all (by decide)⟩
  nonempty := by decide
  name := forall_mem_of_all (by decide)
  unreserved := by decide

/-- The cleared buffer with LEVEL put into it. -/
def levelBuffer : Mem :=
  appended (clearedBuffer noBytes 3) 1 (cardByte (keyword8 levelToolKey.text) (intText 1))

/-- The put that makes it. -/
theorem levelBuffer_put :
    hputInt (clearedBuffer noBytes 3) levelToolKey.text 1 = .ok (0, levelBuffer) ∧
      WellFormed levelBuffer 2 := by
  refine (clear_wellFormed noBytes 3).2.hputInt_new (by decide) levelToolKey.isKey (by decide)
    (by norm_num [Prints]) (by decide) fun r hr => ?_
  obtain rfl : r = 0 := by omega
  rw [clearedBuffer_key]
  decide

theorem levelBuffer_keys : recordKey levelBuffer (80 * 0) = keyword8 instanceKey ∧
    recordKey levelBuffer (80 * 1) = levelToolKey.key := by
  constructor
  · have hold : ∀ j < 8, levelBuffer (80 * 0 + j) = clearedBuffer noBytes 3 (80 * 0 + j) :=
      fun j hj => appended_old (by omega) (by omega)
    exact (recordKey_congr hold).trans (clearedBuffer_key noBytes 3)
  · exact recordKey_overlay (cardByte_cardLine (keyword8_fits levelToolKey.text)
      (by norm_num [Prints] : Prints 1).fits) levelToolKey.isKey (by omega)

theorem level_meets : (ToolOp.hputi4 levelToolKey 1).Meets (clearedBuffer noBytes 3) 1 := by
  refine ⟨by decide, fun r hr hsame => ?_⟩
  obtain rfl : r = 0 := by omega
  rw [clearedBuffer_key] at hsame
  exact absurd hsame (by decide)

theorem rate_meets : (ToolOp.hputi4 rateToolKey 8).Meets levelBuffer 2 := by
  refine ⟨by decide, fun r hr hsame => ?_⟩
  interval_cases r
  · rw [levelBuffer_keys.1] at hsame
    exact absurd hsame (by decide)
  · rw [levelBuffer_keys.2] at hsame
    exact absurd hsame (by decide)

/-- RATE can be put beside INSTANCE and LEVEL, and LEVEL not be deleted. -/
theorem tools_keep_wellFormed_level :
    KeepsWellFormed levelBuffer 2 (.hputi4 rateToolKey 8) ∧
      ¬ KeepsWellFormed levelBuffer 2 (.hdel levelToolKey) := by
  constructor
  · exact (tools_keep_wellFormed levelBuffer 2 _ levelBuffer_put.2 (by decide)).mpr rate_meets
  · rw [tools_keep_wellFormed levelBuffer 2 _ levelBuffer_put.2 (by decide)]
    intro hmeets
    have hother := hmeets 1 (by omega)
    rw [levelBuffer_keys.2] at hother
    exact hother (SameKey.refl _)

/-- **A deletion leaves a second END record**: INSTANCE deleted from a cleared buffer. -/
theorem deletion_breaks_wellFormed :
    ¬ ∀ (m : Mem) (n : ℕ) (op : ToolOp), WellFormed m n → 80 * (n + 2) ≤ totalSize →
      KeepsWellFormed m n op := by
  intro hall
  have hwf := (clear_wellFormed noBytes 3).2
  have hsame : SameKey instanceToolKey.key (recordKey (clearedBuffer noBytes 3) (80 * 0)) := by
    rw [clearedBuffer_key]
    rfl
  obtain ⟨m', n', hrun, hwf', -⟩ := hall _ 1 (.hdel instanceToolKey) hwf (by decide)
  obtain ⟨m'', hdel, hbad⟩ := hwf.hdel_keeps_two_ends (by omega) hsame
  rw [ToolOp.run, hdel] at hrun
  cases hrun
  exact hbad n' hwf'

end Operations

end Hashpipe.Status
