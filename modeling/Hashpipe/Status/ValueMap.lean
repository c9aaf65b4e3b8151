import Mathlib.Tactic
import Mathlib.Data.Finmap
import Hashpipe.Status.Doubles
import Hashpipe.Status.Ledger

/-!
# The status buffer as a map of values

Puts of integers, doubles, strings and logicals, and deletions, refine a finite map from key
prefixes to values: `Holds` relates the buffer to the map, `Holds.put` and `Holds.del` are the
steps and `status_refines_values` the run.  The END records that deletions leave behind never
show.
-/

namespace Hashpipe.Status

open ByteMemory CNumber

/-- `T`, or `F` for 0. -/
def logicalText (lval : Int32) : List UInt8 := if lval ≠ 0 then [84] else [70]

theorem logicalText_noNul (lval : Int32) : ∀ c ∈ logicalText lval, c ≠ 0 := by
  unfold logicalText
  split <;> simp

/-- Set a logical. -/
def hputl (hstring : Mem) (keyword : CString) (lval : Int32) : Except Fault (ℤ × Mem) :=
  hputc hstring keyword ⟨logicalText lval, logicalText_noNul lval⟩

/-- Extract a logical: 1 for a value that starts with a t; `ival` is written only if the keyword is
there. -/
def hgetl (hstring : Mem) (keyword : CString) (ival : Int32) : ℤ × Int32 :=
  match hgetc hstring keyword with
  | none => (0, ival)
  | some value => (1, if value.head? = some 116 ∨ value.head? = some 84 then 1 else 0)

/-- A string without quotes that is not `-0`. -/
structure PlainString where
  string : StatusString
  unquoted : 39 ∉ string.text.bytes
  notNegZero : string.text.bytes ≠ [45, 48]

/-- A value, with the type it is put as. -/
inductive StatusVal
  | integer (v : IntVal)
  | double (d : SignedDouble) (hd : d.Valid)
  | string (V : PlainString)
  | logical (lval : Int32)

/-- The text that is read. -/
def StatusVal.text : StatusVal → List UInt8
  | integer v => intText v.toInt
  | double d _ => printGeneral 17 (stored d)
  | string V => V.string.text.bytes
  | logical lval => logicalText lval

/-- The text that is written: a string is quoted. -/
def StatusVal.written : StatusVal → List UInt8
  | string V => quote V.string.text.bytes
  | v => v.text

inductive StatusOp
  | put (key : PutKey) (val : StatusVal)
  | del (key : PutKey)

/-- The put for the type of the value, or `hdel`. -/
def StatusOp.run (m : Mem) : StatusOp → Except Fault (ℤ × Mem)
  | put key (.integer v) => IntPut.run m ⟨key, v⟩
  | put key (.double d hd) => hputr8 m key.text (printDouble d hd)
  | put key (.string V) => hputs m key.text V.string.text
  | put key (.logical lval) => hputl m key.text lval
  | del key => hdel m key.text

def runOps : Mem → List StatusOp → Except Fault Mem
  | m, [] => .ok m
  | m, op :: ops => (op.run m).bind fun r => runOps r.2 ops

/-- The getter for a type reports the value. -/
def ReadsValue (m : Mem) (k : PutKey) : StatusVal → Prop
  | .integer v => Reads m k v
  | .double d _ => ∀ dval, hgetr8 m k.text dval = (1, stored d)
  | .string V => ∀ value, (hgets m k.text 80 value).1 = 1 ∧
      queryText m k.text value = V.string.text.bytes
  | .logical lval => ∀ ival, hgetl m k.text ival = (1, if lval ≠ 0 then 1 else 0)

/-- Every getter reports that the key is not there, and writes nothing. -/
def MissingValue (m : Mem) (k : PutKey) : Prop :=
  Missing m k ∧ (∀ dval, hgetr8 m k.text dval = (0, dval)) ∧
    (∀ lstr value, hgets m k.text lstr value = (0, value)) ∧ ∀ ival, hgetl m k.text ival = (0, ival)

/-! ## The abstract map -/

abbrev ValueMap := Finmap fun _ : List UInt8 => StatusVal

def ValueMap.apply (M : ValueMap) : StatusOp → ValueMap
  | .put key val => M.insert key.pre val
  | .del key => M.erase key.pre

/-- What a cleared buffer stands for. -/
def clearedValues (instanceId : Int32) : ValueMap :=
  Finmap.singleton (foldedKey (keyword8 instanceKey)) (.integer (.i4 instanceId))

/-- The map after a sequence of operations. -/
def valuesAfter (instanceId : Int32) (ops : List StatusOp) : ValueMap :=
  ops.foldl ValueMap.apply (clearedValues instanceId)

/-! ## Lines of values -/

section Line

variable {key : List UInt8}

theorem bareText_logical (lval : Int32) : BareText (logicalText lval) := by
  unfold logicalText
  split
  · exact ⟨by decide, by decide, by simp, by simp, by simp, by decide⟩
  · exact ⟨by decide, by decide, by simp, by simp, by simp, by decide⟩

/-- All but strings stand on the line as they are read. -/
theorem StatusVal.bare_or_quoted (v : StatusVal) :
    (BareText v.text ∧ v.written = v.text) ∨
      ∃ V : PlainString, v.text = V.string.text.bytes ∧ v.written = quote V.string.text.bytes := by
  cases v with
  | integer v =>
    have hz := prints_val v
    exact .inl ⟨intText_bareText hz.1 hz.2, rfl⟩
  | double d hd => exact .inl ⟨bareText_stored hd, rfl⟩
  | string V => exact .inr ⟨V, rfl, rfl⟩
  | logical lval => exact .inl ⟨bareText_logical lval, rfl⟩

theorem StatusVal.written_fits (v : StatusVal) : ValueFits v.written := by
  rcases v.bare_or_quoted with ⟨hbare, hwritten⟩ | ⟨V, -, hwritten⟩
  · rw [hwritten]
    exact hbare.fits
  · rw [hwritten]
    exact quote_fits V.string.text.noNul

/-- A value's line, without a comment. -/
def ValueLine (line : Mem) (key : List UInt8) (v : StatusVal) : Prop :=
  ∀ j < 80, line j = cardByte key v.written j

theorem PlainString.quotedLine (V : PlainString) {line : Mem} (hshort : key.length ≤ 8)
    (hplain : PlainKey key)
    (h : ∀ j < 80, line j = cardByte key (quote V.string.text.bytes) j) :
    QuotedLine line V.string.text.bytes := by
  refine @quotedLine_of_put line noBytes 0 key V.string.text.bytes hshort
    (fun c hc => ⟨(hplain c hc).1, (hplain c hc).2.2.1⟩) V.string.short fun j hj => ?_
  rw [h j hj, commented, if_pos (.inl rfl)]

/-- **What is read of a value's line.** -/
theorem ValueLine.valueText {line : Mem} {v : StatusVal} (h : ValueLine line key v)
    (hshort : key.length ≤ 8) (hplain : PlainKey key) : valueText line = v.text := by
  unfold ValueLine at h
  rcases v.bare_or_quoted with ⟨hbare, hwritten⟩ | ⟨V, htext, hwritten⟩
  · rw [hwritten] at h
    exact hbare.valueText_line hshort hplain h
  · rw [hwritten] at h
    have hquoted := V.quotedLine hshort hplain h
    rw [hquoted.value V.unquoted V.string.bare, if_neg V.notNegZero, htext]

/-- It has no comment: the only `/` of a line is in a quoted value. -/
theorem ValueLine.commentAt {line : Mem} {v : StatusVal} (h : ValueLine line key v)
    (hplain : PlainKey key) (hshort : key.length ≤ 8) : commentAt line = none := by
  unfold ValueLine at h
  rcases v.bare_or_quoted with ⟨hbare, hwritten⟩ | ⟨V, htext, hwritten⟩
  · rw [hwritten] at h
    have hquote : strchr line 0 39 = none := strchr_cardByte h (fun hk => (hplain 39 hk).1 rfl)
      (fun hv => (hbare.plain 39 hv).1 rfl) (by decide) (by decide)
    have hslash : strchr line 0 47 = none := strchr_cardByte h (fun hk => (hplain 47 hk).2.2.1 rfl)
      (fun hv => (hbare.plain 47 hv).2.2 rfl) (by decide) (by decide)
    rw [Status.commentAt, hquote, hslash]
  · rw [hwritten] at h
    have hlen := quote_length V.string.short
    have hshortV := V.string.short
    have hquoted := V.quotedLine hshort hplain h
    have hstart : valueStart (quote V.string.text.bytes) = 10 := if_pos rfl
    have hopen : strchr line 0 39 = some 10 := firstFrom_eq_some.mpr
      ⟨by omega, by omega, by simpa using hquoted.opening, fun j _ hj => by
        simpa using (hquoted.before j hj).1⟩
    have hclose : strchr line 11 39 = some (11 + max 8 V.string.text.bytes.length) := by
      refine firstFrom_eq_some.mpr ⟨by omega, by omega, by simpa using hquoted.closing,
        fun j hj hjlt => ?_⟩
      obtain ⟨i, rfl⟩ : ∃ i, j = 11 + i := ⟨j - 11, by omega⟩
      rw [beq_eq_false_iff_ne]
      by_cases hi : i < V.string.text.bytes.length
      · rw [hquoted.text i hi]
        exact fun h39 => V.unquoted (h39 ▸ chars_mem hi)
      · rw [hquoted.pad i (by omega) (by omega)]
        decide
    have hslash : strchr line (11 + max 8 V.string.text.bytes.length) 47 = none := by
      refine strchr_eq_none fun j hj hj80 => ?_
      rcases Nat.eq_or_lt_of_le hj with rfl | hlt
      · rw [hquoted.closing]
        decide
      · rw [h j hj80, cardByte, if_neg (by omega), if_neg (by omega), hstart, if_neg (by omega)]
        decide
    rw [Status.commentAt, hopen]
    simp only [Nat.reduceAdd, hclose, hslash]

end Line

/-! ## The buffer holds the map -/

/-- The records of the buffer are the entries of the map. -/
structure Holds (m : Mem) (n spare : ℕ) (M : ValueMap) : Prop where
  ledger : Ledger m n spare
  spare_le : spare ≤ 1
  plain : ∀ r < n, PlainKey (recordKey m (80 * r))
  entry : ∀ r < n, ∃ v, M.lookup (foldedKey (recordKey m (80 * r))) = some v ∧
    ValueLine (ptr m (80 * r)) (recordKey m (80 * r)) v
  complete : ∀ pre ∈ M.keys, ∃ r < n, foldedKey (recordKey m (80 * r)) = pre

section Holds

variable {m : Mem} {n spare : ℕ} {M : ValueMap}

/-- The map has as many keys as the buffer has records. -/
theorem Holds.card_keys (h : Holds m n spare M) : M.keys.card = n := by
  have himage : M.keys = (Finset.range n).image fun r => foldedKey (recordKey m (80 * r)) := by
    ext pre
    rw [Finset.mem_image]
    constructor
    · intro hpre
      obtain ⟨r, hr, hkey⟩ := h.complete pre hpre
      exact ⟨r, Finset.mem_range.mpr hr, hkey⟩
    · intro ⟨r, hr, hkey⟩
      obtain ⟨v, hv, -⟩ := h.entry r (Finset.mem_range.mp hr)
      rw [← hkey]
      exact Finmap.mem_keys.mpr (Finmap.mem_of_lookup_eq_some hv)
  rw [himage, Finset.card_image_of_injOn, Finset.card_range]
  intro r hr s hs hrs
  exact h.ledger.distinct r (Finset.mem_range.mp hr) s (Finset.mem_range.mp hs) hrs

/-- A key of the map has its record. -/
theorem Holds.found (h : Holds m n spare M) {pre : List UInt8} {v : StatusVal}
    (hv : M.lookup pre = some v) : ∃ r < n, foldedKey (recordKey m (80 * r)) = pre ∧
      ValueLine (ptr m (80 * r)) (recordKey m (80 * r)) v := by
  obtain ⟨r, hr, hkey⟩ := h.complete pre (Finmap.mem_keys.mpr (Finmap.mem_of_lookup_eq_some hv))
  obtain ⟨w, hw, hline⟩ := h.entry r hr
  rw [hkey, hv] at hw
  cases hw
  exact ⟨r, hr, hkey, hline⟩

theorem Holds.absent (h : Holds m n spare M) {pre : List UInt8} (hv : M.lookup pre = none) :
    ∀ r < n, foldedKey (recordKey m (80 * r)) ≠ pre := by
  intro r hr hkey
  obtain ⟨w, hw, -⟩ := h.entry r hr
  rw [hkey, hv] at hw
  cases hw

/-- A line is read whole: it holds no NUL. -/
theorem Ledger.lineAt_record (h : Ledger m n spare) {r j : ℕ} (hr : r < n) (hj : j < 80) :
    lineAt m (80 * r) j = m (80 * r + j) :=
  lineAt_eq hj fun k hk => (h.card r hr).text k (by omega)

theorem Holds.lineAt_value (h : Holds m n spare M) {r : ℕ} (hr : r < n) {v : StatusVal}
    (hline : ValueLine (ptr m (80 * r)) (recordKey m (80 * r)) v) :
    ValueLine (lineAt m (80 * r)) (recordKey m (80 * r)) v := by
  intro j hj
  rw [h.ledger.lineAt_record hr hj]
  exact hline j hj

/-- All puts are `hputc` of what is written. -/
theorem StatusOp.run_put (m : Mem) (key : PutKey) (val : StatusVal) :
    (StatusOp.put key val).run m =
      hputc m key.text ⟨val.written, val.written_fits.noNul⟩ := by
  cases val with
  | integer v =>
    show IntPut.run m ⟨key, v⟩ = _
    rw [IntPut.run_eq]
    rfl
  | double d hd =>
    have htext := fixnegzero_printGeneral hd
    show hputc m key.text ⟨fixnegzero (printGeneral 17 d), _⟩ = _
    simp only [htext]
    rfl
  | string V =>
    have hcom : isCommentary key.text.bytes = false := by
      rw [← isCommentary_keyword8]
      exact key.not_commentary
    show hputs m key.text V.string.text = _
    rw [hputs, if_neg (by simp [hcom])]
    rfl
  | logical lval => rfl

/-- A value's line written as line `r`, over the line of the same prefix or as a new one, and the
other lines kept: the buffer holds the updated map. -/
theorem Holds.write (h : Holds m n spare M) {m' : Mem} {n' spare' r : ℕ} {key : PutKey}
    {val : StatusVal} (hledger : Ledger m' n' spare') (hspare : spare' ≤ 1) (hr : r < n')
    (hlines : ∀ s < n', s ≠ r → s < n) (hle : n ≤ n')
    (hold : r < n → foldedKey (recordKey m (80 * r)) = key.pre)
    (hfree : ∀ s < n, s ≠ r → foldedKey (recordKey m (80 * s)) ≠ key.pre)
    (hline : ∀ j < 80, m' (80 * r + j) = cardByte (keyword8 key.text) val.written j)
    (hkept : ∀ s < n, s ≠ r → ∀ j < 80, m' (80 * s + j) = m (80 * s + j)) :
    Holds m' n' spare' (M.insert key.pre val) := by
  have hcard : CardLine (ptr m' (80 * r)) (keyword8 key.text) :=
    (cardByte_cardLine (keyword8_fits _) val.written_fits).congr (keyword8_fits _).short hline
  have hrecord : recordKey m' (80 * r) = keyword8 key.text :=
    (hcard.keyLine (by omega)).recordKey key.isKey
  have hother : ∀ s < n, s ≠ r → recordKey m' (80 * s) = recordKey m (80 * s) := fun s hs hsr =>
    recordKey_congr fun j hj => hkept s hs hsr j (by omega)
  refine ⟨hledger, hspare, fun s hs => ?_, fun s hs => ?_, fun pre hpre => ?_⟩
  · by_cases hsr : s = r
    · rw [hsr, hrecord]
      exact key.plain
    · rw [hother s (hlines s hs hsr) hsr]
      exact h.plain s (hlines s hs hsr)
  · by_cases hsr : s = r
    · refine ⟨val, ?_, ?_⟩
      · rw [hsr, hrecord]
        exact Finmap.lookup_insert M
      · rw [hsr, hrecord]
        exact hline
    · have hsn := hlines s hs hsr
      obtain ⟨w, hw, hwline⟩ := h.entry s hsn
      refine ⟨w, ?_, fun j hj => ?_⟩
      · rw [hother s hsn hsr, Finmap.lookup_insert_of_ne _ (hfree s hsn hsr)]
        exact hw
      · rw [hother s hsn hsr]
        exact (hkept s hsn hsr j hj).trans (hwline j hj)
  · have hnew : foldedKey (recordKey m' (80 * r)) = key.pre := by
      rw [hrecord]
      rfl
    rcases Finmap.mem_insert.mp (Finmap.mem_keys.mp hpre) with heq | hmem
    · exact ⟨r, hr, hnew.trans heq.symm⟩
    · obtain ⟨s, hs, hskey⟩ := h.complete pre (Finmap.mem_keys.mpr hmem)
      by_cases hsr : s = r
      · subst hsr
        exact ⟨s, hr, hnew.trans ((hold hs).symm.trans hskey)⟩
      · refine ⟨s, by omega, ?_⟩
        rw [hother s hs hsr]
        exact hskey

/-- A put under a present key writes over its line. -/
theorem Holds.put_found (h : Holds m n spare M) {key : PutKey} (val : StatusVal) {r : ℕ}
    (hr : r < n) (hkey : foldedKey (recordKey m (80 * r)) = key.pre) :
    ∃ m', (StatusOp.put key val).run m = .ok (0, m') ∧
      Holds m' n spare (M.insert key.pre val) := by
  have hsame : SameKey (keyword8 key.text) (recordKey m (80 * r)) := hkey.symm
  have hcard : CardLine (cardByte (keyword8 key.text) val.written) (keyword8 key.text) :=
    cardByte_cardLine (keyword8_fits _) val.written_fits
  obtain ⟨v, -, hline⟩ := h.entry r hr
  have hold : oldComment m (80 * r) = .ok (noBytes, 0) := by
    have hnone := (h.lineAt_value hr hline).commentAt (h.plain r hr) (h.ledger.isKey r hr).short
    rw [oldComment]
    simp only [hnone]
  have hput := @hputc_found m noBytes key.text ⟨val.written, val.written_fits.noNul⟩ _ 0
    key.not_commentary val.written_fits (h.ledger.ksearch_found key.isKey hr hsame) hold (.inl rfl)
  have hplain : overlay m (80 * r) 80 (commented (cardByte (keyword8 key.text) val.written)
      (valueEnd val.written) noBytes 0) =
      overlay m (80 * r) 80 (cardByte (keyword8 key.text) val.written) :=
    overlay_congr fun j _ => if_pos (.inl rfl)
  rw [hplain] at hput
  rw [StatusOp.run_put]
  refine ⟨_, hput, h.write (h.ledger.replace hr key.isKey hcard hsame) h.spare_le hr
    (fun s hs _ => hs) le_rfl (fun _ => hkey) (fun s hs hsr heq => ?_)
    (fun j hj => overlay_inside rfl hj) fun s _ hsr j hj => overlay_outside (by omega)⟩
  exact hsr (h.ledger.distinct s hs r hr (heq.trans hkey.symm))

/-- A put under a new key takes the place of END. -/
theorem Holds.put_new (h : Holds m n spare M) {key : PutKey} (val : StatusVal)
    (hroom : 80 * (n + 3) ≤ totalSize)
    (hnew : ∀ r < n, foldedKey (recordKey m (80 * r)) ≠ key.pre) :
    ∃ m', (StatusOp.put key val).run m = .ok (0, m') ∧
      Holds m' (n + 1) (spare - 1) (M.insert key.pre val) := by
  have hspare := h.spare_le
  have hnone : ∀ r < n, ¬ SameKey (keyword8 key.text) (recordKey m (80 * r)) :=
    fun r hr hsame => hnew r hr hsame.symm
  have hcard : CardLine (cardByte (keyword8 key.text) val.written) (keyword8 key.text) :=
    cardByte_cardLine (keyword8_fits _) val.written_fits
  have hput := @hputc_new m _ key.text ⟨val.written, val.written_fits.noNul⟩ _ key.not_commentary
    val.written_fits (h.ledger.ksearch_absent key.isKey (by omega) key.unreserved.1 hnone)
    h.ledger.newPlace
  rw [StatusOp.run_put]
  exact ⟨_, hput, h.write (h.ledger.append (by omega) key.isKey hcard key.unreserved.1 hnone)
    (by omega) (Nat.lt_succ_self n) (fun s hs hsn => by omega) (Nat.le_succ n)
    (fun hn => absurd hn (lt_irrefl n)) (fun s hs _ => hnew s hs)
    (fun j hj => overlay_inside rfl hj) fun s hs _ j hj => appended_old hs hj⟩

/-- A record removed: the buffer holds the map without its key. -/
theorem Holds.remove (h : Holds m n spare M) {r : ℕ} (hr : r < n) :
    Holds (removed m n r) (n - 1) 1 (M.erase (foldedKey (recordKey m (80 * r)))) := by
  have hline : ∀ s < n - 1, ∀ j < 80, removed m n r (80 * s + j) = m (80 * movedLine r s + j) :=
    fun s hs j hj => h.ledger.removed_line hr (by omega) hj
  have hrecord : ∀ s < n - 1, recordKey (removed m n r) (80 * s) =
      recordKey m (80 * movedLine r s) := fun s hs =>
    recordKey_congr fun j hj => hline s hs j (by omega)
  have hmoved : ∀ s < n - 1, movedLine r s < n := fun s hs => movedLine_lt (by omega)
  refine ⟨h.ledger.remove h.spare_le hr, le_rfl, fun s hs => ?_, fun s hs => ?_, fun pre hpre => ?_⟩
  · rw [hrecord s hs]
    exact h.plain _ (hmoved s hs)
  · obtain ⟨v, hv, hvline⟩ := h.entry _ (hmoved s hs)
    refine ⟨v, ?_, fun j hj => ?_⟩
    · have hne : foldedKey (recordKey m (80 * movedLine r s)) ≠ foldedKey (recordKey m (80 * r)) :=
        fun heq => movedLine_ne r s (h.ledger.distinct _ (hmoved s hs) r hr heq)
      rw [hrecord s hs, Finmap.lookup_erase_ne hne]
      exact hv
    · rw [hrecord s hs]
      exact (hline s hs j hj).trans (hvline j hj)
  · obtain ⟨hne, hmem⟩ := Finmap.mem_erase.mp (Finmap.mem_keys.mp hpre)
    obtain ⟨t, ht, htkey⟩ := h.complete pre (Finmap.mem_keys.mpr hmem)
    have htr : t ≠ r := by
      rintro rfl
      exact hne htkey.symm
    obtain ⟨s, hs, rfl⟩ := exists_movedLine htr ht hr
    refine ⟨s, by omega, ?_⟩
    rw [hrecord s (by omega)]
    exact htkey

/-- **A deletion** is an erasure. -/
theorem Holds.del (h : Holds m n spare M) (key : PutKey) (hroom : 80 * (n + 3) ≤ totalSize) :
    ∃ rc m' n' spare', (StatusOp.del key).run m = .ok (rc, m') ∧
      Holds m' n' spare' (M.erase key.pre) := by
  have hspare := h.spare_le
  by_cases hfound : ∃ r < n, foldedKey (recordKey m (80 * r)) = key.pre
  · obtain ⟨r, hr, hkey⟩ := hfound
    refine ⟨1, removed m n r, n - 1, 1, h.ledger.hdel_found key.isKey hr hkey.symm, ?_⟩
    rw [← hkey]
    exact h.remove hr
  · have hnone : ∀ r < n, ¬ SameKey (keyword8 key.text) (recordKey m (80 * r)) :=
      fun r hr hsame => hfound ⟨r, hr, hsame.symm⟩
    have hmissing : key.pre ∉ M := fun hmem => by
      obtain ⟨r, hr, hkey⟩ := h.complete _ (Finmap.mem_keys.mpr hmem)
      exact hfound ⟨r, hr, hkey⟩
    refine ⟨0, m, n, spare, h.ledger.hdel_absent key.isKey (by omega) key.unreserved.1 hnone, ?_⟩
    have herase : M.erase key.pre = M := by
      refine Finmap.ext_lookup fun pre => ?_
      by_cases hpre : pre = key.pre
      · rw [hpre, Finmap.lookup_erase, Finmap.lookup_eq_none.mpr hmissing]
      · exact Finmap.lookup_erase_ne hpre
    rw [herase]
    exact h

/-- **One operation** that fits is one update of the map. -/
theorem Holds.step (h : Holds m n spare M) (op : StatusOp)
    (hroom : 80 * (M.keys.card + 3) ≤ totalSize) :
    ∃ rc m' n' spare', op.run m = .ok (rc, m') ∧ Holds m' n' spare' (M.apply op) := by
  rw [h.card_keys] at hroom
  cases op with
  | put key val =>
    by_cases hfound : ∃ r < n, foldedKey (recordKey m (80 * r)) = key.pre
    · obtain ⟨r, hr, hkey⟩ := hfound
      obtain ⟨m', hrun, hholds⟩ := h.put_found val hr hkey
      exact ⟨0, m', n, spare, hrun, hholds⟩
    · obtain ⟨m', hrun, hholds⟩ := h.put_new val hroom fun r hr heq => hfound ⟨r, hr, heq⟩
      exact ⟨0, m', n + 1, spare - 1, hrun, hholds⟩
  | del key => exact h.del key hroom

/-! ## The getters -/

theorem PutKey.whole (k : PutKey) : ∀ c ∈ k.text.bytes, c ≠ 91 ∧ c ≠ 44 :=
  fun c hc => ⟨(k.name c hc).plain.2.2.2.2.1, (k.name c hc).plain.2.2.2.2.2⟩

theorem Holds.hgetc_present (h : Holds m n spare M) {k : PutKey} {v : StatusVal}
    (hv : M.lookup k.pre = some v) : hgetc m k.text = some v.text := by
  obtain ⟨r, hr, hkey, hline⟩ := h.found hv
  rw [hgetc_eq k.whole, h.ledger.ksearch_found k.isKey hr hkey.symm, Option.map_some,
    (h.lineAt_value hr hline).valueText (h.ledger.isKey r hr).short (h.plain r hr)]

theorem Holds.hgetc_missing (h : Holds m n spare M) {k : PutKey}
    (hroom : 80 * (M.keys.card + 3) ≤ totalSize) (hv : M.lookup k.pre = none) :
    hgetc m k.text = none := by
  have hspare := h.spare_le
  rw [h.card_keys] at hroom
  rw [hgetc_eq k.whole, h.ledger.ksearch_absent k.isKey (by omega) k.unreserved.1
    fun r hr hsame => h.absent hv r hr hsame.symm]
  rfl

end Holds

/-- The getter for a type reads the text of a value of the type as that value. -/
theorem readsValue_of_hgetc {m : Mem} {k : PutKey} {v : StatusVal}
    (h : hgetc m k.text = some v.text) : ReadsValue m k v := by
  cases v with
  | integer v => exact reads_of_hgetc h
  | double d hd =>
    intro dval
    have hvalid := stored_valid hd
    have htext : hgetc m k.text = some (printGeneral 17 (stored d)) := h
    simp only [hgetr8, htext, doubleText_printGeneral hvalid, atofSigned_printGeneral hvalid]
  | string V =>
    intro value
    have hshort := V.string.short
    exact queryText_eq value h V.string.text.noNul (by omega)
  | logical lval =>
    intro ival
    have htext : hgetc m k.text = some (logicalText lval) := h
    simp only [hgetl, htext, logicalText]
    by_cases h0 : lval ≠ 0
    · rw [if_pos h0, if_pos h0]
      rfl
    · rw [if_neg h0, if_neg h0]
      rfl

theorem missingValue_of_hgetc {m : Mem} {k : PutKey} (h : hgetc m k.text = none) :
    MissingValue m k := by
  refine ⟨missing_of_hgetc h, fun dval => ?_, fun lstr value => ?_, fun ival => ?_⟩
  · rw [hgetr8, h]
  · rw [hgets, h]
  · rw [hgetl, h]

/-! ## Runs -/

/-- A cleared buffer holds INSTANCE alone. -/
theorem clear_holds (buf : Mem) (instanceId : Int32) :
    Holds (clearedBuffer buf instanceId) 1 0 (clearedValues instanceId) := by
  have hwf := (clear_wellFormed buf instanceId).2
  have hkey : recordKey (clearedBuffer buf instanceId) (80 * 0) = keyword8 instanceKey :=
    clearedBuffer_key buf instanceId
  have hline : ∀ j < 80, clearedBuffer buf instanceId (80 * 0 + j) =
      cardByte (keyword8 instanceKey) (intText instanceId.toInt) j := by
    intro j hj
    rw [clearedBuffer, appended]
    exact overlay_inside rfl hj
  refine ⟨hwf.ledger, Nat.zero_le 1, fun r hr => ?_, fun r hr => ?_, fun pre hpre => ?_⟩
  · obtain rfl : r = 0 := by omega
    rw [hkey]
    exact instancePutKey.plain
  · obtain rfl : r = 0 := by omega
    refine ⟨.integer (.i4 instanceId), ?_, ?_⟩
    · rw [hkey, clearedValues, Finmap.lookup_singleton_eq]
    · rw [hkey]
      exact hline
  · refine ⟨0, Nat.zero_lt_one, ?_⟩
    rw [hkey]
    exact ((Finmap.mem_singleton _ _ _).mp (Finmap.mem_keys.mp hpre)).symm

/-- **A run** of operations that fit. -/
theorem Holds.run {m : Mem} {n spare : ℕ} {M : ValueMap} (h : Holds m n spare M)
    (ops : List StatusOp)
    (hfits : ∀ ops', ops' <+: ops →
      80 * ((ops'.foldl ValueMap.apply M).keys.card + 3) ≤ totalSize) :
    ∃ m' n' spare', runOps m ops = .ok m' ∧ Holds m' n' spare' (ops.foldl ValueMap.apply M) := by
  induction ops generalizing m n spare M with
  | nil => exact ⟨m, n, spare, rfl, h⟩
  | cons op ops ih =>
    obtain ⟨rc, m₁, n₁, spare₁, hrun₁, hholds₁⟩ := h.step op (hfits [] (List.nil_prefix))
    obtain ⟨m', n', spare', hrun, hholds⟩ := ih hholds₁ fun ops' hprefix =>
      hfits (op :: ops') ((List.prefix_cons_inj op).mpr hprefix)
    refine ⟨m', n', spare', ?_, hholds⟩
    rw [runOps, hrun₁]
    exact hrun

/-- **The status buffer is a map of values.**  After `hashpipe_status_clear` and any puts and
deletions, of which at no time more than 2301 keys are there, every key with a prefix that the map
has reads as the map's value, through the getter for its type, and every other key is missing. -/
theorem status_refines_values (buf : Mem) (instanceId : Int32) (ops : List StatusOp)
    (hfits : ∀ ops', ops' <+: ops →
      80 * ((valuesAfter instanceId ops').keys.card + 3) ≤ totalSize) :
    ∃ start m, hashpipeStatusClear buf instanceId = .ok start ∧ runOps start ops = .ok m ∧
      ∀ k : PutKey,
        (∀ v, (valuesAfter instanceId ops).lookup k.pre = some v → ReadsValue m k v) ∧
          ((valuesAfter instanceId ops).lookup k.pre = none → MissingValue m k) := by
  obtain ⟨m, n, spare, hrun, hholds⟩ := (clear_holds buf instanceId).run ops hfits
  refine ⟨clearedBuffer buf instanceId, m, (clear_wellFormed buf instanceId).1, hrun, fun k =>
    ⟨fun v hv => readsValue_of_hgetc (hholds.hgetc_present hv), fun hv => ?_⟩⟩
  exact missingValue_of_hgetc (hholds.hgetc_missing (hfits ops List.prefix_rfl) hv)

/-- GAIN is a tenth, then a flag, then gone, and INSTANCE is gone before it. -/
def gainOps : List StatusOp :=
  [.put gainKey (.double tenth tenth_valid), .del instancePutKey, .put gainKey (.logical 1)]

theorem status_refines_values_gain :
    ∃ start m, hashpipeStatusClear noBytes 3 = .ok start ∧ runOps start gainOps = .ok m ∧
      ReadsValue m gainKey (.logical 1) ∧ MissingValue m instancePutKey := by
  have hfits : ∀ ops' ∈ gainOps.inits,
      80 * ((valuesAfter 3 ops').keys.card + 3) ≤ totalSize := by decide
  obtain ⟨start, m, hclear, hrun, hkeys⟩ := status_refines_values noBytes 3 gainOps
    fun ops' hprefix => hfits ops' ((List.mem_inits ops' gainOps).mpr hprefix)
  exact ⟨start, m, hclear, hrun, (hkeys gainKey).1 (.logical 1) (by rfl),
    (hkeys instancePutKey).2 (by rfl)⟩

end Hashpipe.Status
