import Mathlib.Tactic
import Mathlib.Data.Finmap
import Hashpipe.Status.Tools

/-!
# The status buffer as a map of integers

Integer puts and gets refine a finite map from key prefixes to the last integer put:
`Represents` relates the buffer to the map, `Represents.put` is the step and
`status_refines_map` the run.  A prefix is the first eight characters of a key, case
folded.
-/

namespace Hashpipe.Status

open ByteMemory CNumber

/-- A key of 1 to 79 characters whose first eight are no reserved word in any case. -/
structure PutKey where
  text : CString
  nonempty : 1 ≤ text.bytes.length
  short : text.bytes.length ≤ 79
  name : ∀ c ∈ text.bytes, NameChar c
  unreserved : ¬ SameKey (keyword8 text) endKey ∧ ¬ SameKey (keyword8 text) commentKey ∧
    ¬ SameKey (keyword8 text) historyKey

/-- What a key is known by: its first eight characters, case folded. -/
def foldedKey (key : List UInt8) : List UInt8 := key.map foldCase

def PutKey.pre (k : PutKey) : List UInt8 := foldedKey (keyword8 k.text)

theorem PutKey.isKey (k : PutKey) : IsKey (keyword8 k.text) :=
  isKey_keyword8 k.nonempty k.name

theorem PutKey.plain (k : PutKey) : PlainKey (keyword8 k.text) := by
  intro c hc
  have h := (k.name c (List.mem_of_mem_take hc)).plain
  exact ⟨h.1, h.2.1, h.2.2.1, h.2.2.2.1⟩

theorem PutKey.not_commentary (k : PutKey) : isCommentary (keyword8 k.text) = false := by
  rw [← Bool.not_eq_true]
  intro h
  simp only [isCommentary, Bool.or_eq_true, beq_iff_eq] at h
  rcases h with h | h
  · exact k.unreserved.2.1 (by rw [h]; exact SameKey.refl _)
  · exact k.unreserved.2.2 (by rw [h]; exact SameKey.refl _)

/-- A value, with the type it was put as. -/
inductive IntVal
  | i4 (v : Int32)
  | u4 (v : UInt32)
  | i8 (v : Int64)
  | u8 (v : UInt64)

def IntVal.toInt : IntVal → ℤ
  | i4 v => v.toInt
  | u4 v => v.toNat
  | i8 v => v.toInt
  | u8 v => v.toNat

structure IntPut where
  key : PutKey
  val : IntVal

/-- The put for the type of the value. -/
def IntPut.run (m : Mem) (p : IntPut) : Except Fault (ℤ × Mem) :=
  match p.val with
  | .i4 v => hputi4 m p.key.text v
  | .u4 v => hputu4 m p.key.text v
  | .i8 v => hputi8 m p.key.text v
  | .u8 v => hputu8 m p.key.text v

/-- The buffer after a sequence of puts. -/
def runPuts : Mem → List IntPut → Except Fault Mem
  | m, [] => .ok m
  | m, p :: ps => (p.run m).bind fun r => runPuts r.2 ps

/-- The getter for a type reports the value. -/
def Reads (m : Mem) (k : PutKey) : IntVal → Prop
  | .i4 v => hgeti4 m k.text = some v
  | .u4 v => hgetu4 m k.text = some v
  | .i8 v => hgeti8 m k.text = some v
  | .u8 v => hgetu8 m k.text = some v

/-- Every getter reports that the key is not there. -/
def Missing (m : Mem) (k : PutKey) : Prop :=
  hgeti4 m k.text = none ∧ hgetu4 m k.text = none ∧ hgeti8 m k.text = none ∧
    hgetu8 m k.text = none

/-! ## The abstract map -/

abbrev IntMap := Finmap fun _ : List UInt8 => IntVal

def IntMap.put (M : IntMap) (p : IntPut) : IntMap := M.insert p.key.pre p.val

/-- What a cleared buffer stands for. -/
def clearedMap (instanceId : Int32) : IntMap :=
  Finmap.singleton (foldedKey (keyword8 instanceKey)) (.i4 instanceId)

/-- The map after a sequence of puts. -/
def mapAfter (instanceId : Int32) (puts : List IntPut) : IntMap :=
  puts.foldl IntMap.put (clearedMap instanceId)

/-- The value last put under a prefix; the INSTANCE put of the clearing comes first. -/
def lastPut (instanceId : Int32) (puts : List IntPut) (pre : List UInt8) : Option IntVal :=
  match puts.reverse.find? fun p => p.key.pre = pre with
  | some p => some p.val
  | none => if pre = foldedKey (keyword8 instanceKey) then some (.i4 instanceId) else none

theorem mapAfter_append (instanceId : Int32) (puts : List IntPut) (p : IntPut) :
    mapAfter instanceId (puts ++ [p]) = (mapAfter instanceId puts).put p := by
  rw [mapAfter, mapAfter, List.foldl_append]
  rfl

/-- The map holds what was put last. -/
theorem mapAfter_lookup (instanceId : Int32) (puts : List IntPut) (pre : List UInt8) :
    (mapAfter instanceId puts).lookup pre = lastPut instanceId puts pre := by
  induction puts using List.reverseRecOn with
  | nil =>
    show (clearedMap instanceId).lookup pre = _
    rw [lastPut, clearedMap]
    by_cases h : pre = foldedKey (keyword8 instanceKey)
    · subst h
      simp [Finmap.lookup_singleton_eq]
    · simp [h, Finmap.lookup_eq_none]
  | append_singleton ps p ih =>
    rw [mapAfter_append, IntMap.put, lastPut, List.reverse_append, List.reverse_singleton,
      List.singleton_append, List.find?_cons]
    by_cases h : p.key.pre = pre
    · rw [← h]
      simp [Finmap.lookup_insert]
    · rw [Finmap.lookup_insert_of_ne _ (fun hp => h hp.symm), ih, lastPut]
      simp [h]

/-! ## The buffer represents the map -/

/-- Line `r` is the integer's line under its own keyword. -/
def IntLine (m : Mem) (r : ℕ) (z : ℤ) : Prop :=
  ∀ j < 80, m (80 * r + j) = cardByte (recordKey m (80 * r)) (intText z) j

/-- The records of the buffer are the entries of the map. -/
structure Represents (m : Mem) (n : ℕ) (M : IntMap) : Prop where
  wf : WellFormed m n
  plain : ∀ r < n, PlainKey (recordKey m (80 * r))
  entry : ∀ r < n, ∃ v, M.lookup (foldedKey (recordKey m (80 * r))) = some v ∧
    IntLine m r v.toInt
  complete : ∀ pre ∈ M.keys, ∃ r < n, foldedKey (recordKey m (80 * r)) = pre

theorem prints_val (v : IntVal) : Prints v.toInt := by
  cases v with
  | i4 v => exact prints_int32 v
  | u4 v =>
    have := UInt32.toNat_lt v
    show Prints (v.toNat : ℤ)
    constructor <;> omega
  | i8 v => exact prints_int64 v
  | u8 v =>
    have := UInt64.toNat_lt v
    show Prints (v.toNat : ℤ)
    constructor <;> omega

theorem IntPut.run_eq (m : Mem) (p : IntPut) : p.run m = hputInt m p.key.text p.val.toInt := by
  rw [IntPut.run]
  cases p.val <;> rfl

section Represents

variable {m : Mem} {n : ℕ} {M : IntMap}

/-- The map has as many keys as the buffer has records. -/
theorem Represents.card_keys (h : Represents m n M) : M.keys.card = n := by
  have himage : M.keys = (Finset.range n).image fun r => foldedKey (recordKey m (80 * r)) := by
    ext pre
    rw [Finset.mem_image]
    constructor
    · intro hpre
      obtain ⟨r, hr, hkey⟩ := h.complete pre hpre
      exact ⟨r, Finset.mem_range.mpr hr, hkey⟩
    · intro ⟨r, hr, hkey⟩
      obtain ⟨v, hv, -⟩ := h.entry r (Finset.mem_range.mp hr)
      rw [← hkey]
      exact Finmap.mem_keys.mpr (Finmap.mem_of_lookup_eq_some hv)
  rw [himage, Finset.card_image_of_injOn, Finset.card_range]
  intro r hr s hs hrs
  exact h.wf.distinct r (Finset.mem_range.mp hr) s (Finset.mem_range.mp hs) hrs

/-- A key of the map has its record. -/
theorem Represents.found (h : Represents m n M) {pre : List UInt8} {v : IntVal}
    (hv : M.lookup pre = some v) :
    ∃ r < n, foldedKey (recordKey m (80 * r)) = pre ∧ IntLine m r v.toInt := by
  obtain ⟨r, hr, hkey⟩ := h.complete pre (Finmap.mem_keys.mpr (Finmap.mem_of_lookup_eq_some hv))
  obtain ⟨w, hw, hline⟩ := h.entry r hr
  rw [hkey, hv] at hw
  cases hw
  exact ⟨r, hr, hkey, hline⟩

theorem Represents.absent (h : Represents m n M) {pre : List UInt8} (hv : M.lookup pre = none) :
    ∀ r < n, foldedKey (recordKey m (80 * r)) ≠ pre := by
  intro r hr hkey
  obtain ⟨w, hw, -⟩ := h.entry r hr
  rw [hkey, hv] at hw
  cases hw

/-- A record of an integer has no comment. -/
theorem IntLine.commentAt {r : ℕ} {z : ℤ} (hline : IntLine m r z)
    (hplain : PlainKey (recordKey m (80 * r))) (htext : ∀ j < 80, m (80 * r + j) ≠ 0) :
    commentAt (lineAt m (80 * r)) = none := by
  have hcopy : ∀ j < 80, lineAt m (80 * r) j = cardByte (recordKey m (80 * r)) (intText z) j := by
    intro j hj
    rw [lineAt_eq hj fun k hk => htext k (by omega)]
    exact hline j hj
  have hquote : strchr (lineAt m (80 * r)) 0 39 = none := strchr_cardByte hcopy
    (fun h => (hplain 39 h).1 rfl) (fun h => absurd (intText_range h) (by decide)) (by decide)
    (by decide)
  have hslash : strchr (lineAt m (80 * r)) 0 47 = none := strchr_cardByte hcopy
    (fun h => (hplain 47 h).2.2.1 rfl) (fun h => absurd (intText_range h) (by decide)) (by decide)
    (by decide)
  rw [Status.commentAt, hquote, hslash]

/-- The integer's line written as line `r`, over the line of the same prefix or as a new
one, and the other lines kept: the buffer represents the updated map. -/
theorem Represents.write (h : Represents m n M) {m' : Mem} {n' r : ℕ} {p : IntPut}
    (hwf : WellFormed m' n') (hr : r < n') (hle : n ≤ n') (hlines : ∀ s < n', s ≠ r → s < n)
    (hold : r < n → foldedKey (recordKey m (80 * r)) = p.key.pre)
    (hfree : ∀ s < n, s ≠ r → foldedKey (recordKey m (80 * s)) ≠ p.key.pre)
    (hline : ∀ j < 80,
      m' (80 * r + j) = cardByte (keyword8 p.key.text) (intText p.val.toInt) j)
    (hkept : ∀ s < n, s ≠ r → ∀ j < 80, m' (80 * s + j) = m (80 * s + j)) :
    Represents m' n' (M.put p) := by
  have hcard : CardLine (ptr m' (80 * r)) (keyword8 p.key.text) :=
    (cardByte_cardLine (keyword8_fits _) (prints_val p.val).fits).congr
      (keyword8_fits _).short hline
  have hrecord : recordKey m' (80 * r) = keyword8 p.key.text :=
    (hcard.keyLine (by omega)).recordKey p.key.isKey
  have hother : ∀ s < n, s ≠ r → recordKey m' (80 * s) = recordKey m (80 * s) := fun s hs hsr =>
    recordKey_congr fun j hj => hkept s hs hsr j (by omega)
  refine ⟨hwf, fun s hs => ?_, fun s hs => ?_, fun pre hpre => ?_⟩
  · by_cases hsr : s = r
    · rw [hsr, hrecord]
      exact p.key.plain
    · rw [hother s (hlines s hs hsr) hsr]
      exact h.plain s (hlines s hs hsr)
  · by_cases hsr : s = r
    · refine ⟨p.val, ?_, fun j hj => ?_⟩
      · rw [hsr, hrecord]
        exact Finmap.lookup_insert M
      · rw [hsr, hrecord]
        exact hline j hj
    · have hsn := hlines s hs hsr
      obtain ⟨w, hw, hwline⟩ := h.entry s hsn
      refine ⟨w, ?_, fun j hj => ?_⟩
      · rw [hother s hsn hsr, IntMap.put, Finmap.lookup_insert_of_ne _ (hfree s hsn hsr)]
        exact hw
      · rw [hother s hsn hsr, hkept s hsn hsr j hj]
        exact hwline j hj
  · have hnew : foldedKey (recordKey m' (80 * r)) = p.key.pre := by
      rw [hrecord]
      rfl
    rcases Finmap.mem_insert.mp (Finmap.mem_keys.mp hpre) with heq | hmem
    · exact ⟨r, hr, hnew.trans heq.symm⟩
    · obtain ⟨s, hs, hskey⟩ := h.complete pre (Finmap.mem_keys.mpr hmem)
      by_cases hsr : s = r
      · subst hsr
        exact ⟨s, hr, hnew.trans ((hold hs).symm.trans hskey)⟩
      · refine ⟨s, by omega, ?_⟩
        rw [hother s hs hsr]
        exact hskey

/-- A put under a present key replaces the line by the new integer's. -/
theorem Represents.put_found (h : Represents m n M) {p : IntPut} {r : ℕ} (hr : r < n)
    (hkey : foldedKey (recordKey m (80 * r)) = p.key.pre) :
    ∃ m', p.run m = .ok (0, m') ∧ Represents m' n (M.put p) ∧
      ∀ i, totalSize ≤ i → m' i = m i := by
  have hz := prints_val p.val
  have hsame : SameKey (keyword8 p.key.text) (recordKey m (80 * r)) := hkey.symm
  have hcard : CardLine (cardByte (keyword8 p.key.text) (intText p.val.toInt))
      (keyword8 p.key.text) := cardByte_cardLine (keyword8_fits _) hz.fits
  have hfits := h.wf.fits
  obtain ⟨v, -, hline⟩ := h.entry r hr
  have hold : oldComment m (80 * r) = .ok (noBytes, 0) := by
    have hnone := hline.commentAt (h.plain r hr) fun j hj => (h.wf.card r hr).text j hj
    rw [oldComment]
    simp only [hnone]
  have hput := @hputc_found m noBytes p.key.text ⟨intText p.val.toInt, intText_noNul _⟩ _ 0
    p.key.not_commentary hz.fits (h.wf.ksearch_found p.key.isKey hr hsame) hold (.inl rfl)
  have hplain : overlay m (80 * r) 80 (commented (cardByte (keyword8 p.key.text)
      (intText p.val.toInt)) (valueEnd (intText p.val.toInt)) noBytes 0) =
      overlay m (80 * r) 80 (cardByte (keyword8 p.key.text) (intText p.val.toInt)) :=
    overlay_congr fun j _ => if_pos (.inl rfl)
  rw [hplain] at hput
  rw [IntPut.run_eq]
  refine ⟨_, hput, h.write (h.wf.replace hr p.key.isKey hcard hsame) hr le_rfl (fun s hs _ => hs)
    (fun _ => hkey) (fun s hs hsr heq => ?_) (fun j hj => overlay_inside rfl hj)
    (fun s _ hsr j hj => overlay_outside (by omega)), fun i hi => overlay_outside (by omega)⟩
  exact hsr (h.wf.distinct s hs r hr (heq.trans hkey.symm))

/-- A put under a new key appends the integer's line. -/
theorem Represents.put_new (h : Represents m n M) {p : IntPut}
    (hnew : ∀ r < n, foldedKey (recordKey m (80 * r)) ≠ p.key.pre)
    (hroom : 80 * (n + 2) ≤ totalSize) :
    ∃ m', p.run m = .ok (0, m') ∧ Represents m' (n + 1) (M.put p) ∧
      ∀ i, totalSize ≤ i → m' i = m i := by
  obtain ⟨hput, hwf⟩ := h.wf.hputInt_new hroom p.key.isKey p.key.not_commentary
    (prints_val p.val) p.key.unreserved.1 fun r hr hsame => hnew r hr hsame.symm
  rw [IntPut.run_eq]
  refine ⟨_, hput, h.write hwf (Nat.lt_succ_self n) (Nat.le_succ n) (fun s hs hsn => by omega)
    (fun hn => absurd hn (lt_irrefl n)) (fun s hs _ => hnew s hs)
    (fun j hj => overlay_inside rfl hj) (fun s hs _ j hj => appended_old hs hj), fun i hi => ?_⟩
  rw [appended, overlay_outside (by omega), strncpy_outside (by omega)]

/-- **One put** that fits is one update of the map. -/
theorem Represents.put (h : Represents m n M) (p : IntPut)
    (hfits : 80 * ((M.put p).keys.card + 1) ≤ totalSize) :
    ∃ m' n', p.run m = .ok (0, m') ∧ Represents m' n' (M.put p) ∧
      ∀ i, totalSize ≤ i → m' i = m i := by
  by_cases hfound : ∃ r < n, foldedKey (recordKey m (80 * r)) = p.key.pre
  · obtain ⟨r, hr, hkey⟩ := hfound
    obtain ⟨m', hrun, hrep, hframe⟩ := h.put_found hr hkey
    exact ⟨m', n, hrun, hrep, hframe⟩
  · have hnew : ∀ r < n, foldedKey (recordKey m (80 * r)) ≠ p.key.pre := fun r hr heq =>
      hfound ⟨r, hr, heq⟩
    -- the new key is one more key of the map
    have hkeys : (M.put p).keys = insert p.key.pre M.keys := by
      ext pre
      rw [Finset.mem_insert, Finmap.mem_keys, Finmap.mem_keys]
      exact Finmap.mem_insert
    have hnot : p.key.pre ∉ M.keys := fun hmem => by
      obtain ⟨r, hr, hkey⟩ := h.complete _ hmem
      exact hnew r hr hkey
    rw [hkeys, Finset.card_insert_of_notMem hnot, h.card_keys] at hfits
    obtain ⟨m', hrun, hrep, hframe⟩ := h.put_new hnew (by omega)
    exact ⟨m', n + 1, hrun, hrep, hframe⟩

/-- The value of a key of the map is the text of its integer. -/
theorem Represents.hgetc_present (h : Represents m n M) {k : PutKey} {v : IntVal}
    (hv : M.lookup k.pre = some v) : hgetc m k.text = some (intText v.toInt) := by
  obtain ⟨r, hr, hkey, hline⟩ := h.found hv
  have hz := prints_val v
  rw [hgetc_eq fun c hc => ⟨(k.name c hc).plain.2.2.2.2.1, (k.name c hc).plain.2.2.2.2.2⟩,
    h.wf.ksearch_found k.isKey hr hkey.symm, Option.map_some]
  refine congrArg some (valueText_intLine (h.wf.isKey r hr).short (h.plain r hr) hz.1 hz.2
    fun j hj => ?_)
  rw [lineAt_eq hj fun i hi => (h.wf.card r hr).text i (by omega)]
  exact hline j hj

/-- A key that is not in the map is not found, as long as the text has an end. -/
theorem Represents.hgetc_missing (h : Represents m n M) {k : PutKey}
    (hnul : m (80 * (n + 1)) = 0) (hv : M.lookup k.pre = none) : hgetc m k.text = none := by
  rw [hgetc_eq fun c hc => ⟨(k.name c hc).plain.2.2.2.2.1, (k.name c hc).plain.2.2.2.2.2⟩,
    h.wf.ksearch_absent k.isKey hnul k.unreserved.1 fun r hr hsame => h.absent hv r hr hsame.symm]
  rfl

end Represents

/-! ## The getters -/

theorem hgeti8_of_hgetc {m : Mem} {keyword : CString} {v : Int64}
    (h : hgetc m keyword = some (intText v.toInt)) : hgeti8 m keyword = some v := by
  rw [hgeti8, h, Option.map_some]
  simp only [stripHash_intText, strtoll_intText (Int64.le_toInt v) (Int64.toInt_lt v), if_true,
    Int64.ofInt_toInt]

/-- The getter for a type reads the text of a value of the type as that value. -/
theorem reads_of_hgetc {m : Mem} {k : PutKey} {v : IntVal}
    (h : hgetc m k.text = some (intText v.toInt)) : Reads m k v := by
  cases v with
  | i4 v =>
    have htext : hgetc m k.text = some (intText v.toInt) := h
    have hz : Prints v.toInt := prints_int32 v
    have hlow := Int32.le_toInt v
    have hhigh := Int32.toInt_lt v
    have hexact : |v.toInt| < 2 ^ 53 := by
      rw [abs_lt]
      omega
    show hgeti4 m k.text = some v
    rw [hgeti4, htext, Option.map_some, stripHash_intText, doubleValue_intText hz.1 hz.2 hexact,
      saturate_intCast (by norm_num) (by norm_num) (by omega) (by omega), Int32.ofInt_toInt]
  | u4 v =>
    have htext : hgetc m k.text = some (intText (v.toNat : ℤ)) := h
    have hz : Prints (v.toNat : ℤ) := prints_val (.u4 v)
    have hhigh := UInt32.toNat_lt v
    have hexact : |(v.toNat : ℤ)| < 2 ^ 53 := by
      rw [abs_lt]
      omega
    show hgetu4 m k.text = some v
    rw [hgetu4, htext, Option.map_some, stripHash_intText, doubleValue_intText hz.1 hz.2 hexact,
      saturate_intCast (by norm_num) (by norm_num) (by omega) (by omega), Int.toNat_natCast,
      UInt32.ofNat_toNat]
  | i8 v => exact hgeti8_of_hgetc h
  | u8 v =>
    have htext : hgetc m k.text = some (intText (v.toNat : ℤ)) := h
    have hread : strtoull (intText (v.toNat : ℤ)) = (v.toNat, []) := by
      rw [intText, if_neg (by omega), Int.natAbs_natCast]
      exact strtoull_natText (UInt64.toNat_lt v)
    show hgetu8 m k.text = some v
    rw [hgetu8, htext, Option.map_some]
    simp only [stripHash_intText, hread, if_true, UInt64.ofNat_toNat]

theorem missing_of_hgetc {m : Mem} {k : PutKey} (h : hgetc m k.text = none) : Missing m k := by
  refine ⟨?_, ?_, ?_, ?_⟩
  · rw [hgeti4, h]
    rfl
  · rw [hgetu4, h]
    rfl
  · rw [hgeti8, h]
    rfl
  · rw [hgetu8, h]
    rfl

/-! ## Runs -/

/-- The keyword INSTANCE as a key of puts. -/
def instancePutKey : PutKey where
  text := instanceKey
  nonempty := by decide
  short := by decide
  name := instanceKey_name
  unreserved := by decide

theorem emptyBuffer_represents (buf : Mem) : Represents (emptyBuffer buf) 0 ∅ where
  wf := emptyBuffer_wellFormed buf
  plain := fun r hr => absurd hr (Nat.not_lt_zero r)
  entry := fun r hr => absurd hr (Nat.not_lt_zero r)
  complete := fun pre hpre => by
    rw [Finmap.keys_empty] at hpre
    exact absurd hpre (Finset.notMem_empty pre)

/-- A cleared buffer represents the map of INSTANCE alone. -/
theorem clear_represents (buf : Mem) (instanceId : Int32) :
    ∃ m, hashpipeStatusClear buf instanceId = .ok m ∧ Represents m 1 (clearedMap instanceId) ∧
      ∀ i, totalSize ≤ i → m i = buf i := by
  have hmap : IntMap.put ∅ ⟨instancePutKey, .i4 instanceId⟩ = clearedMap instanceId := by
    refine Finmap.ext_lookup fun pre => ?_
    by_cases hpre : pre = foldedKey (keyword8 instanceKey)
    · rw [hpre, clearedMap, Finmap.lookup_singleton_eq]
      exact Finmap.lookup_insert _
    · have hne : pre ≠ PutKey.pre instancePutKey := hpre
      rw [IntMap.put, Finmap.lookup_insert_of_ne _ hne, Finmap.lookup_empty]
      have hnot : pre ∉ clearedMap instanceId := fun hmem =>
        hpre ((Finmap.mem_singleton _ _ _).mp hmem)
      exact (Finmap.lookup_eq_none.mpr hnot).symm
  obtain ⟨m, hrun, hrep, hframe⟩ := (emptyBuffer_represents buf).put_new
    (p := ⟨instancePutKey, .i4 instanceId⟩) (fun r hr => absurd hr (Nat.not_lt_zero r)) (by decide)
  rw [hmap] at hrep
  have hput : hputi4 (emptyBuffer buf) instanceKey instanceId = .ok (0, m) := hrun
  refine ⟨m, ?_, hrep, fun i hi => ?_⟩
  · rw [hashpipeStatusClear, hput]
    rfl
  · rw [hframe i hi, emptyBuffer, strncpy_outside (by unfold totalSize at hi; omega),
      fill_outside (by unfold totalSize at hi; unfold recordSize; omega), fill_outside (by omega)]

theorem keys_subset_foldl (puts : List IntPut) (M : IntMap) :
    M.keys ⊆ (puts.foldl IntMap.put M).keys := by
  induction puts generalizing M with
  | nil => exact Finset.Subset.refl _
  | cons p ps ih =>
    refine Finset.Subset.trans (fun pre hpre => ?_) (ih (M.put p))
    exact Finmap.mem_keys.mpr (Finmap.mem_insert.mpr (.inr (Finmap.mem_keys.mp hpre)))

/-- **A run** of puts that fit. -/
theorem Represents.run {m : Mem} {n : ℕ} {M : IntMap} (h : Represents m n M) (puts : List IntPut)
    (hfits : 80 * ((puts.foldl IntMap.put M).keys.card + 1) ≤ totalSize) :
    ∃ m' n', runPuts m puts = .ok m' ∧ Represents m' n' (puts.foldl IntMap.put M) ∧
      ∀ i, totalSize ≤ i → m' i = m i := by
  induction puts generalizing m n M with
  | nil => exact ⟨m, n, rfl, h, fun i _ => rfl⟩
  | cons p ps ih =>
    have hcard := Finset.card_le_card (keys_subset_foldl ps (M.put p))
    have hfirst : 80 * ((M.put p).keys.card + 1) ≤ totalSize := by
      rw [List.foldl_cons] at hfits
      omega
    obtain ⟨m₁, n₁, hrun₁, hrep₁, hframe₁⟩ := h.put p hfirst
    obtain ⟨m', n', hrun, hrep, hframe⟩ := ih hrep₁ hfits
    refine ⟨m', n', ?_, hrep, fun i hi => (hframe i hi).trans (hframe₁ i hi)⟩
    rw [runPuts, hrun₁]
    exact hrun

/-- **The status buffer is a map of integers.**  After `hashpipe_status_clear` and any
integer puts that fit, there is one record per prefix, a key with a prefix that was put
reads as the last integer put under it, through the getter for its type, whatever is put
under another prefix, and any other key is missing (in a buffer filled to its last byte,
if a NUL follows). -/
theorem status_refines_map (buf : Mem) (instanceId : Int32) (puts : List IntPut)
    (hfits : 80 * ((mapAfter instanceId puts).keys.card + 1) ≤ totalSize) :
    ∃ start m, hashpipeStatusClear buf instanceId = .ok start ∧ runPuts start puts = .ok m ∧
      WellFormed m (mapAfter instanceId puts).keys.card ∧
      ∀ k : PutKey, (mapAfter instanceId puts).lookup k.pre = lastPut instanceId puts k.pre ∧
        (∀ v, lastPut instanceId puts k.pre = some v → Reads m k v ∧
          ∀ p : IntPut, p.key.pre ≠ k.pre →
            80 * ((mapAfter instanceId (puts ++ [p])).keys.card + 1) ≤ totalSize →
            ∃ m', p.run m = .ok (0, m') ∧ Reads m' k v) ∧
        (lastPut instanceId puts k.pre = none →
          (80 * ((mapAfter instanceId puts).keys.card + 1) = totalSize → buf totalSize = 0) →
          Missing m k) := by
  obtain ⟨start, hclear, hstart, hframe₀⟩ := clear_represents buf instanceId
  obtain ⟨m, n, hrun, hrep, hframe⟩ := hstart.run puts hfits
  have hcard : (mapAfter instanceId puts).keys.card = n := hrep.card_keys
  refine ⟨start, m, hclear, hrun, by rw [hcard]; exact hrep.wf, fun k =>
    ⟨mapAfter_lookup instanceId puts k.pre, fun v hv => ?_, fun hv hend => ?_⟩⟩
  · rw [← mapAfter_lookup] at hv
    refine ⟨reads_of_hgetc (hrep.hgetc_present hv), fun p hp hfits' => ?_⟩
    rw [mapAfter_append] at hfits'
    obtain ⟨m', n', hput, hrep', -⟩ := hrep.put p hfits'
    refine ⟨m', hput, reads_of_hgetc (hrep'.hgetc_present ?_)⟩
    rw [IntMap.put, Finmap.lookup_insert_of_ne _ hp.symm]
    exact hv
  · rw [← mapAfter_lookup] at hv
    refine missing_of_hgetc (hrep.hgetc_missing ?_ hv)
    rw [hcard] at hfits hend
    rcases Nat.lt_or_eq_of_le hfits with hlt | heq
    · exact hrep.wf.rest _ le_rfl hlt
    · rw [heq, hframe _ le_rfl, hframe₀ _ le_rfl]
      exact hend heq

/-- `"GAIN"`. -/
def gainKey : PutKey where
  text := ⟨[71, 65, 73, 78], forall_mem_of_all (by decide)⟩
  nonempty := by decide
  short := by decide
  name := forall_mem_of_all (by decide)
  unreserved := by decide

theorem status_refines_map_gain :
    ∃ start m, hashpipeStatusClear noBytes 3 = .ok start ∧
      runPuts start [⟨gainKey, .i4 Int32.minValue⟩] = .ok m ∧
      hgeti4 m gainKey.text = some Int32.minValue := by
  obtain ⟨start, m, hclear, hrun, -, hkeys⟩ :=
    status_refines_map noBytes 3 [⟨gainKey, .i4 Int32.minValue⟩] (by decide)
  exact ⟨start, m, hclear, hrun, ((hkeys gainKey).2.1 (.i4 Int32.minValue) rfl).1⟩

end Hashpipe.Status
