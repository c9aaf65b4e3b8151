import Mathlib.Tactic
import Hashpipe.Status.Put

/-!
# What a put leaves in the buffer

The writes of `hputc` are collected into one replaced line: `cardByte` is its content
with keyword and value, `commented` adds the comment of the old record, and
`commentaryByte` is a line of commentary.  The equations `hputc_commentary`,
`hputc_new` and `hputc_found` say for each branch which line is replaced.
-/

namespace Hashpipe.Status

open ByteMemory

/-- The column a value starts in. -/
def valueStart (value : List UInt8) : ℕ :=
  if value.head? = some 39 then 10 else 33 - value.length

/-- The column the comment of a value starts in. -/
def valueEnd (value : List UInt8) : ℕ :=
  if value.head? = some 39 ∧ 22 < value.length then value.length + 12 else 33

/-- A value the puts print: in quotes and at most 70 characters, or bare and at most 24. -/
structure ValueFits (value : List UInt8) : Prop where
  noNul : ∀ c ∈ value, c ≠ 0
  fits : if value.head? = some 39 then value.length ≤ 70 else value.length ≤ 24

theorem ValueFits.start {value : List UInt8} (h : ValueFits value) : 9 ≤ valueStart value := by
  have hfits := h.fits
  unfold valueStart
  split
  · omega
  · rename_i hbare
    rw [if_neg hbare] at hfits
    omega

theorem ValueFits.stop {value : List UInt8} (h : ValueFits value) :
    valueStart value + value.length ≤ 80 := by
  have hfits := h.fits
  unfold valueStart
  split
  · rename_i hquote
    rw [if_pos hquote] at hfits
    omega
  · rename_i hbare
    rw [if_neg hbare] at hfits
    omega

theorem valueEnd_ge (value : List UInt8) : 33 ≤ valueEnd value := by
  unfold valueEnd
  split <;> omega

/-- A line with a keyword and a value. -/
def cardByte (key value : List UInt8) (j : ℕ) : UInt8 :=
  if j < key.length then chars key j
  else if j = 8 then 61
  else if valueStart value ≤ j ∧ j < valueStart value + value.length then
    chars value (j - valueStart value)
  else 32

/-- The line `f` with a comment in column `lc`. -/
def commented (f : ℕ → UInt8) (lc : ℕ) (newcom : Mem) (lcom j : ℕ) : UInt8 :=
  if lcom = 0 ∨ j < lc then f j
  else if j = lc + 1 then 47
  else if lc + 3 ≤ j ∧ j < lc + 3 + min lcom (77 - lc) then copied newcom (j - (lc + 3))
  else 32

/-- A line of commentary. -/
def commentaryByte (key value : List UInt8) (j : ℕ) : UInt8 :=
  if j < 7 then chars key j
  else if 9 ≤ j ∧ j < 9 + min value.length 71 then chars value (j - 9)
  else 32

/-- A keyword of at most eight characters, none of them NUL. -/
structure KeyFits (key : List UInt8) : Prop where
  short : key.length ≤ 8
  noNul : ∀ c ∈ key, c ≠ 0

theorem keyword8_fits (keyword : CString) : KeyFits (keyword8 keyword) where
  short := by
    rw [keyword8, List.length_take]
    omega
  noNul := fun c hc => keyword.noNul c (List.mem_of_mem_take hc)

theorem writeValue_eq {m : Mem} {v1 : ℕ} {key value : List UInt8} (hkey : KeyFits key)
    (hvalue : ValueFits value) :
    writeValue m v1 key value = .ok (overlay m v1 80 (cardByte key value), valueEnd value) := by
  have hk := hkey.short
  have hstart := hvalue.start
  have hstop := hvalue.stop
  have hline : ∀ s, s = valueStart value →
      strncpy (fill (fill (strncpy (fill m v1 80 32) v1 (chars key) key.length) (v1 + 8) 1 61)
        (v1 + 9) 1 32) (v1 + s) (chars value) value.length =
      overlay m v1 80 (cardByte key value) := by
    intro s hs
    subst hs
    -- every write stays in the line that the blanks replaced
    rw [strncpy_chars hkey.noNul le_rfl, strncpy_chars hvalue.noNul le_rfl]
    simp only [fill_eq_overlay]
    have hname : overlay (overlay m v1 80 fun _ => 32) v1 key.length (chars key) =
        overlay m v1 80 (overlay (fun _ => 32) 0 key.length (chars key)) :=
      @overlay_overlay m v1 80 0 key.length _ _ (by omega)
    rw [hname, overlay_overlay (by omega), overlay_overlay (by omega), overlay_overlay (by omega)]
    refine overlay_congr fun j hj => ?_
    simp only [overlay, cardByte]
    split_ifs <;> first | rfl | omega
  rw [writeValue]
  split
  · rename_i hquote
    rw [hline 10 (by rw [valueStart, if_pos hquote])]
    have : valueEnd value = if 33 + 1 < value.length + 12 then value.length + 12 else 33 := by
      simp only [valueEnd, hquote, true_and]
      split_ifs <;> omega
    rw [this]
  · rename_i hbare
    have hfits := hvalue.fits
    rw [if_neg hbare] at hfits
    rw [if_neg (by omega), show v1 + 33 - value.length = v1 + (33 - value.length) by omega,
      hline _ (by rw [valueStart, if_neg hbare])]
    have : valueEnd value = 33 := by
      rw [valueEnd, if_neg (by simp [hbare])]
    rw [this]

theorem writeComment_eq {m : Mem} {v1 lc lcom : ℕ} {f : ℕ → UInt8} {newcom : Mem} (hlc : lc < 78) :
    writeComment (overlay m v1 80 f) v1 lc newcom lcom =
      .ok (overlay m v1 80 (commented f lc newcom lcom)) := by
  unfold writeComment
  split
  · rename_i h0
    refine congrArg Except.ok (overlay_congr fun j _ => ?_)
    rw [commented, if_pos (.inl h0)]
  · rename_i h0
    have hblank : ((v1 + 80 : ℕ) : ℤ) - ((v1 + lc + 3 : ℕ) : ℤ) = (77 - lc : ℕ) := by omega
    have hcount : (if ((77 - lc : ℕ) : ℤ) < (if 80 < lc + 2 + lcom then (77 : ℤ) - lc else lcom)
        then ((77 - lc : ℕ) : ℤ) else (if 80 < lc + 2 + lcom then (77 : ℤ) - lc else lcom)) =
        (min lcom (77 - lc) : ℕ) := by
      split_ifs <;> omega
    simp only [hblank, hcount, Int.toNat_natCast]
    rw [if_neg (by omega)]
    simp only [fill_eq_overlay, strncpy_eq_overlay, Nat.add_assoc]
    rw [overlay_overlay (by omega), overlay_overlay (by omega), overlay_overlay (by omega),
      overlay_overlay (by omega), overlay_overlay (by omega)]
    refine congrArg Except.ok (overlay_congr fun j hj => ?_)
    simp only [overlay, commented]
    split_ifs <;> first | rfl | omega

/-- Behind a value that ends the line a comment is not written but overruns it. -/
theorem writeComment_fault {m : Mem} {v1 lc lcom : ℕ} {newcom : Mem} (hlc : 78 ≤ lc)
    (hlcom : lcom ≠ 0) : writeComment m v1 lc newcom lcom = .error .newComment := by
  rw [writeComment, if_neg hlcom]
  dsimp only
  rw [if_pos]
  split_ifs <;> omega

theorem writeCommentary_eq {m : Mem} {v1 : ℕ} {key value : List UInt8} (hlen : key.length = 7)
    (hkey : ∀ c ∈ key, c ≠ 0) (hvalue : ∀ c ∈ value, c ≠ 0) :
    writeCommentary m v1 key value = overlay m v1 80 (commentaryByte key value) := by
  have hcount : (if 71 < value.length then 71 else value.length) = min value.length 71 := by
    split_ifs <;> omega
  rw [writeCommentary, hcount, strncpy_chars hkey (by omega), strncpy_chars hvalue (by omega)]
  simp only [fill_eq_overlay]
  have hname : overlay m v1 7 (chars key) =
      overlay m v1 80 (overlay (ptr m v1) 0 7 (chars key)) := by
    have hinside := @overlay_overlay m v1 80 0 7 (ptr m v1) (chars key) (by omega)
    rwa [overlay_ptr] at hinside
  rw [hname, overlay_overlay (by omega), overlay_overlay (by omega)]
  refine overlay_congr fun j hj => ?_
  simp only [overlay, commentaryByte]
  split_ifs <;> first | rfl | omega

/-! ## The columns of a line -/

theorem cardByte_name {key value : List UInt8} {j : ℕ} (hj : j < key.length) :
    cardByte key value j = chars key j := if_pos hj

theorem cardByte_pad {key value : List UInt8} (hvalue : ValueFits value) {j : ℕ}
    (hkey : key.length ≤ j) (hj : j < 8) : cardByte key value j = 32 := by
  have := hvalue.start
  rw [cardByte, if_neg (by omega), if_neg (by omega), if_neg (by omega)]

theorem cardByte_sep {key value : List UInt8} (hkey : key.length ≤ 8) : cardByte key value 8 = 61 := by
  rw [cardByte, if_neg (by omega), if_pos rfl]

/-- A character of neither keyword nor value, `=` and blank apart, is not on the line. -/
theorem cardByte_ne {key value : List UInt8} {c : UInt8} (hkey : c ∉ key) (hvalue : c ∉ value)
    (h61 : c ≠ 61) (h32 : c ≠ 32) (j : ℕ) : cardByte key value j ≠ c := by
  unfold cardByte
  split
  · exact fun h => hkey (h ▸ chars_mem (by omega))
  · split
    · exact h61.symm
    · split
      · exact fun h => hvalue (h ▸ chars_mem (by omega))
      · exact h32.symm

theorem cardByte_ne_zero {key value : List UInt8} (hkey : KeyFits key) (hvalue : ValueFits value)
    (j : ℕ) : cardByte key value j ≠ 0 :=
  cardByte_ne (fun h => hkey.noNul 0 h rfl) (fun h => hvalue.noNul 0 h rfl) (by decide)
    (by decide) j

/-- A comment leaves the columns before it alone. -/
theorem commented_low {f : ℕ → UInt8} {lc lcom j : ℕ} {newcom : Mem} (hj : j < lc) :
    commented f lc newcom lcom j = f j := if_pos (.inr hj)

theorem commented_ne_zero {f : ℕ → UInt8} {lc lcom j : ℕ} {newcom : Mem} (hf : f j ≠ 0)
    (hnew : ∀ j < lcom, newcom j ≠ 0) : commented f lc newcom lcom j ≠ 0 := by
  unfold commented
  split
  · exact hf
  · split
    · decide
    · split
      · rw [copied_eq fun k hk => hnew k (by omega)]
        exact hnew _ (by omega)
      · decide

theorem commentaryByte_ne_zero {key value : List UInt8} (hlen : key.length = 7)
    (hkey : ∀ c ∈ key, c ≠ 0) (hvalue : ∀ c ∈ value, c ≠ 0) (j : ℕ) :
    commentaryByte key value j ≠ 0 := by
  unfold commentaryByte
  split
  · exact hkey _ (chars_mem (by omega))
  · split
    · exact hvalue _ (chars_mem (by omega))
    · decide

theorem trimComment_le (newcom : Mem) (lcom : ℕ) : trimComment newcom lcom ≤ lcom := by
  induction lcom with
  | zero => exact le_rfl
  | succ n ih =>
    cases n with
    | zero => exact le_rfl
    | succ k =>
      rw [trimComment]
      split
      · omega
      · exact le_rfl

theorem lineAt_eq {m : Mem} {a j : ℕ} (hj : j < 80) (htext : ∀ k < j, m (a + k) ≠ 0) :
    lineAt m a j = m (a + j) := strncpy_inside (Nat.zero_add j).symm hj htext

/-- An old comment has no NUL if its line had none. -/
theorem oldComment_ne_zero {m newcom : Mem} {a lcom : ℕ} (htext : ∀ j < 80, m (a + j) ≠ 0)
    (h : oldComment m a = .ok (newcom, lcom)) : ∀ j < lcom, newcom j ≠ 0 := by
  intro j hj
  simp only [oldComment] at h
  split at h
  · cases h
    omega
  · rename_i c1 _
    split at h
    · cases h
    · cases h
      have hlcom := lt_of_lt_of_le hj (trimComment_le _ _)
      have hline : ∀ k ≤ j, lineAt m a (c1 + 2 + k) = m (a + (c1 + 2 + k)) := fun k hk =>
        lineAt_eq (by omega) fun i hi => htext i (by omega)
      rw [strncpy_inside (Nat.zero_add j).symm hlcom fun k hk => by
        rw [ptr_apply, hline k hk.le]
        exact htext _ (by omega)]
      rw [ptr_apply, hline j le_rfl]
      exact htext _ (by omega)

/-! ## The branches of `hputc` -/

theorem ksearch_aligned {m : Mem} {key : List UInt8} {t : ℕ} (h : ksearch m key = some t) :
    t % 80 = 0 := by
  obtain ⟨loc, ht, -⟩ := searchText_eq_some.mp h
  omega

/-- Where a new line goes, and the memory with room made for it. -/
def NewPlace (m : Mem) (t : ℕ) (room : Mem) : Prop :=
  (blsearch m endKey = some t ∧ room = m) ∨
    (blsearch m endKey = none ∧ ksearch m endKey = some t ∧
      room = strncpy m (t + 80) (ptr m t) 80)

/-- The header length is never exceeded: it is computed from the END line itself. -/
theorem newLine_eq {m room : Mem} {t : ℕ} (h : NewPlace m t room) :
    newLine m = .ok (some (t, room)) := by
  unfold newLine
  rcases h with ⟨hblank, rfl⟩ | ⟨hblank, hend, rfl⟩
  · rw [hblank]
  · have haligned := ksearch_aligned hend
    rw [hblank, gethlength, hend]
    simp only [Option.map_some]
    rw [show t / 80 * 80 = t by omega, if_neg (lt_irrefl _)]

theorem isCommentary_length {key : List UInt8} (h : isCommentary key = true) : key.length = 7 := by
  simp only [isCommentary, Bool.or_eq_true, beq_iff_eq] at h
  rcases h with rfl | rfl
  · rfl
  · rfl

theorem hputc_commentary {m room : Mem} {keyword value : CString} {t : ℕ}
    (hkey : isCommentary (keyword8 keyword) = true) (hplace : NewPlace m t room) :
    hputc m keyword value =
      .ok (0, overlay room t 80 (commentaryByte (keyword8 keyword) value.bytes)) := by
  have hlen := isCommentary_length hkey
  rw [hputc]
  simp only [hkey, if_true, newLine_eq hplace]
  rw [← writeCommentary_eq hlen (keyword8_fits keyword).noNul value.noNul]
  rfl

theorem hputc_new {m room : Mem} {keyword value : CString} {t : ℕ}
    (hkey : isCommentary (keyword8 keyword) = false) (hvalue : ValueFits value.bytes)
    (hfind : ksearch m (keyword8 keyword) = none) (hplace : NewPlace m t room) :
    hputc m keyword value =
      .ok (0, overlay room t 80 (cardByte (keyword8 keyword) value.bytes)) := by
  rw [hputc]
  simp only [hkey, Bool.false_eq_true, if_false, hfind, newLine_eq hplace]
  show writeEntry room t (keyword8 keyword) value.bytes noBytes 0 = _
  rw [writeEntry, writeValue_eq (keyword8_fits keyword) hvalue]
  rfl

/-- A key that is found: its comment is kept, its line written anew. -/
theorem hputc_found_eq {m : Mem} {keyword value : CString} {t : ℕ}
    (hkey : isCommentary (keyword8 keyword) = false)
    (hfind : ksearch m (keyword8 keyword) = some t) :
    hputc m keyword value = (oldComment m t).bind fun r =>
      writeEntry m t (keyword8 keyword) value.bytes r.1 r.2 := by
  have haligned := ksearch_aligned hfind
  rw [hputc]
  simp only [hkey, Bool.false_eq_true, if_false, hfind]
  rw [show t / 80 * 80 = t by omega]

theorem hputc_found {m newcom : Mem} {keyword value : CString} {t lcom : ℕ}
    (hkey : isCommentary (keyword8 keyword) = false) (hvalue : ValueFits value.bytes)
    (hfind : ksearch m (keyword8 keyword) = some t) (hold : oldComment m t = .ok (newcom, lcom))
    (hroom : lcom = 0 ∨ valueEnd value.bytes < 78) :
    hputc m keyword value =
      .ok (0, overlay m t 80 (commented (cardByte (keyword8 keyword) value.bytes)
        (valueEnd value.bytes) newcom lcom)) := by
  rw [hputc_found_eq hkey hfind, hold]
  show writeEntry m t (keyword8 keyword) value.bytes newcom lcom = _
  rw [writeEntry, writeValue_eq (keyword8_fits keyword) hvalue]
  show (writeComment _ t _ newcom lcom).map _ = _
  rcases hroom with h0 | hlc
  · rw [writeComment, if_pos h0]
    refine congrArg Except.ok (Prod.ext rfl (overlay_congr fun j _ => ?_))
    rw [commented, if_pos (.inl h0)]
  · rw [writeComment_eq hlc]
    rfl

theorem hputc_found_fault {m : Mem} {keyword value : CString} {t : ℕ} {fault : Fault}
    (hkey : isCommentary (keyword8 keyword) = false)
    (hfind : ksearch m (keyword8 keyword) = some t) (hold : oldComment m t = .error fault) :
    hputc m keyword value = .error fault := by
  rw [hputc_found_eq hkey hfind, hold]
  rfl

/-- A comment behind a value that ends the line overruns it. -/
theorem hputc_found_overrun {m newcom : Mem} {keyword value : CString} {t lcom : ℕ}
    (hkey : isCommentary (keyword8 keyword) = false) (hvalue : ValueFits value.bytes)
    (hfind : ksearch m (keyword8 keyword) = some t) (hold : oldComment m t = .ok (newcom, lcom))
    (hlcom : lcom ≠ 0) (hlc : 78 ≤ valueEnd value.bytes) :
    hputc m keyword value = .error .newComment := by
  rw [hputc_found_eq hkey hfind, hold]
  show writeEntry m t (keyword8 keyword) value.bytes newcom lcom = _
  rw [writeEntry, writeValue_eq (keyword8_fits keyword) hvalue]
  show (writeComment _ t _ newcom lcom).map _ = _
  rw [writeComment_fault hlc hlcom]
  rfl

/-! ## The values the puts print -/

theorem quote_fits {cval : List UInt8} (h : ∀ c ∈ cval, c ≠ 0) : ValueFits (quote cval) where
  noNul := quote_noNul h
  fits := by
    rw [if_pos (by rfl)]
    simp only [quote, List.length_cons, List.length_append, List.length_replicate, List.length_take,
      List.length_nil]
    omega

open CNumber in
theorem intText_bare (z : ℤ) : (intText z).head? ≠ some 39 := by
  unfold intText
  split
  · simp
  · obtain ⟨d, cs, htext, hd, -⟩ := natText_head z.natAbs
    rw [htext]
    intro h
    have h39 : digitChar d = 39 := by simpa using h
    interval_cases d <;> exact absurd h39 (by decide)

open CNumber in
/-- A 64-bit integer prints in at most 20 characters. -/
theorem intText_length {z : ℤ} (hlow : -2 ^ 63 ≤ z) (hhigh : z < 2 ^ 64) :
    (intText z).length ≤ 20 := by
  unfold intText
  split
  · have := @natText_length_le z.natAbs 19 (by norm_num) (by omega)
    rw [List.length_cons]
    omega
  · exact natText_length_le (by norm_num) (by omega)

open CNumber in
theorem intText_fits {z : ℤ} (hlow : -2 ^ 63 ≤ z) (hhigh : z < 2 ^ 64) :
    ValueFits (intText z) where
  noNul := intText_noNul z
  fits := by
    rw [if_neg (intText_bare z)]
    have := intText_length hlow hhigh
    omega

theorem fixnegzero_fits (d : DoubleText) : ValueFits (fixnegzero d.text.bytes) where
  noNul := fun c hc => d.text.noNul c ((fixnegzero_sublist d.text.bytes).subset hc)
  fits := by
    have hbare : (fixnegzero d.text.bytes).head? ≠ some 39 := fun h =>
      d.unquoted ((fixnegzero_sublist d.text.bytes).subset (List.mem_of_head? h))
    rw [if_neg hbare]
    exact (fixnegzero_sublist d.text.bytes).length_le.trans d.short

end Hashpipe.Status
