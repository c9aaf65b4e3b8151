import Mathlib.Tactic

/-!
# Byte memory and C strings

A memory is a function from addresses to bytes; a pointer into it is the memory
seen from an address.  `fill` is `memset`, `strncpy` copies up to a NUL and pads
with NULs, `firstFrom` is a bounded scan, and `textLength` the distance to the
first NUL.  A `CString` is a byte string without NULs, so that its bytes are the
characters a C function sees.

Reads are settled by the `_inside` and `_outside` lemmas of each write.
-/

namespace ByteMemory

abbrev Mem := ℕ → UInt8

/-- The memory seen from address `a`. -/
def ptr (m : Mem) (a : ℕ) : Mem := fun j => m (a + j)

@[simp] theorem ptr_apply (m : Mem) (a j : ℕ) : ptr m a j = m (a + j) := rfl

/-- `memset(m + a, c, n)`. -/
def fill (m : Mem) (a n : ℕ) (c : UInt8) : Mem := fun i => if a ≤ i ∧ i < a + n then c else m i

theorem fill_inside {m : Mem} {a n i : ℕ} {c : UInt8} (ha : a ≤ i) (hn : i < a + n) :
    fill m a n c i = c := if_pos ⟨ha, hn⟩

theorem fill_outside {m : Mem} {a n i : ℕ} {c : UInt8} (h : i < a ∨ a + n ≤ i) :
    fill m a n c i = m i := if_neg (by omega)

/-- What `strncpy` reads at offset `j` of its source: nothing beyond the first NUL. -/
def copied (src : Mem) (j : ℕ) : UInt8 := if ∃ k < j, src k = 0 then 0 else src j

theorem copied_eq {src : Mem} {j : ℕ} (h : ∀ k < j, src k ≠ 0) : copied src j = src j :=
  if_neg fun ⟨k, hk, h0⟩ => h k hk h0

/-- `strncpy(m + a, src, n)`. -/
def strncpy (m : Mem) (a : ℕ) (src : Mem) (n : ℕ) : Mem :=
  fun i => if a ≤ i ∧ i < a + n then copied src (i - a) else m i

theorem strncpy_outside {m src : Mem} {a n i : ℕ} (h : i < a ∨ a + n ≤ i) :
    strncpy m a src n i = m i := if_neg (by omega)

/-- Up to the first NUL of the source, `strncpy` copies. -/
theorem strncpy_inside {m src : Mem} {a n i j : ℕ} (hi : i = a + j) (hn : j < n)
    (h : ∀ k < j, src k ≠ 0) : strncpy m a src n i = src j := by
  subst hi
  have hin : a ≤ a + j ∧ a + j < a + n := by omega
  rw [strncpy, if_pos hin, Nat.add_sub_cancel_left]
  exact copied_eq h

/-- The memory with the `n` bytes from `a` on replaced. -/
def overlay (m : Mem) (a n : ℕ) (f : ℕ → UInt8) : Mem :=
  fun i => if a ≤ i ∧ i < a + n then f (i - a) else m i

theorem overlay_inside {m : Mem} {a n i j : ℕ} {f : ℕ → UInt8} (hi : i = a + j) (hj : j < n) :
    overlay m a n f i = f j := by
  subst hi
  rw [overlay, if_pos (by omega), Nat.add_sub_cancel_left]

theorem overlay_outside {m : Mem} {a n i : ℕ} {f : ℕ → UInt8} (h : i < a ∨ a + n ≤ i) :
    overlay m a n f i = m i := if_neg (by omega)

theorem strncpy_eq_overlay (m : Mem) (a : ℕ) (src : Mem) (n : ℕ) :
    strncpy m a src n = overlay m a n (copied src) := rfl

theorem overlay_congr {m : Mem} {a n : ℕ} {f g : ℕ → UInt8} (h : ∀ j < n, f j = g j) :
    overlay m a n f = overlay m a n g := by
  funext i
  simp only [overlay]
  split
  · exact h _ (by omega)
  · rfl

theorem fill_eq_overlay (m : Mem) (a n : ℕ) (c : UInt8) :
    fill m a n c = overlay m a n fun _ => c := rfl

theorem overlay_ptr (m : Mem) (a n : ℕ) : overlay m a n (ptr m a) = m := by
  funext i
  by_cases hi : a ≤ i ∧ i < a + n
  · rw [overlay_inside (show i = a + (i - a) by omega) (by omega), ptr_apply,
      Nat.add_sub_cancel' hi.1]
  · rw [overlay_outside (by omega)]

/-- A write within the bytes replaced is a write to what replaces them. -/
theorem overlay_overlay {m : Mem} {a n b k : ℕ} {f g : ℕ → UInt8} (h : b + k ≤ n) :
    overlay (overlay m a n f) (a + b) k g = overlay m a n (overlay f b k g) := by
  funext i
  by_cases hi : a ≤ i ∧ i < a + n
  · obtain ⟨j, rfl⟩ : ∃ j, i = a + j := ⟨i - a, by omega⟩
    rw [overlay_inside (f := overlay f b k g) rfl (by omega)]
    by_cases hj : b ≤ j ∧ j < b + k
    · rw [overlay_inside (j := j - b) (by omega) (by omega),
        overlay_inside (j := j - b) (by omega) (by omega)]
    · rw [overlay_outside (a := a + b) (by omega), overlay_inside (f := f) rfl (by omega),
        overlay_outside (a := b) (by omega)]
  · rw [overlay_outside (a := a + b) (by omega), overlay_outside (a := a) (f := f) (by omega),
      overlay_outside (a := a) (by omega)]

/-- The first of the `n` places from `s` on where `p` holds. -/
def firstFrom (p : ℕ → Bool) : ℕ → ℕ → Option ℕ
  | _, 0 => none
  | s, n + 1 => if p s then some s else firstFrom p (s + 1) n

theorem firstFrom_eq_some {p : ℕ → Bool} {s n i : ℕ} :
    firstFrom p s n = some i ↔
      s ≤ i ∧ i < s + n ∧ p i = true ∧ ∀ j, s ≤ j → j < i → p j = false := by
  induction n generalizing s with
  | zero =>
    simp only [firstFrom]
    constructor
    · intro h
      cases h
    · intro h
      omega
  | succ n ih =>
    rw [firstFrom]
    cases hp : p s with
    | true =>
      simp only [if_true, Option.some.injEq]
      constructor
      · intro h
        subst h
        exact ⟨le_rfl, by omega, hp, fun j hj hji => by omega⟩
      · intro ⟨hsi, _, _, hbefore⟩
        by_contra hne
        have := hbefore s le_rfl (by omega)
        rw [hp] at this
        cases this
    | false =>
      simp only [Bool.false_eq_true, if_false, ih]
      constructor
      · intro ⟨hsi, hin, hpi, hbefore⟩
        refine ⟨by omega, by omega, hpi, fun j hj hji => ?_⟩
        rcases Nat.eq_or_lt_of_le hj with rfl | hlt
        · exact hp
        · exact hbefore j hlt hji
      · intro ⟨hsi, hin, hpi, hbefore⟩
        have hne : s ≠ i := fun h => by rw [h, hpi] at hp; cases hp
        exact ⟨by omega, by omega, hpi, fun j hj hji => hbefore j (by omega) hji⟩

theorem firstFrom_eq_none {p : ℕ → Bool} {s n : ℕ} :
    firstFrom p s n = none ↔ ∀ j, s ≤ j → j < s + n → p j = false := by
  induction n generalizing s with
  | zero => simp only [firstFrom, true_iff]; intro j hj hjs; omega
  | succ n ih =>
    rw [firstFrom]
    cases hp : p s with
    | true =>
      simp only [if_true, reduceCtorEq, false_iff, not_forall]
      exact ⟨s, le_rfl, by omega, by simp [hp]⟩
    | false =>
      simp only [Bool.false_eq_true, if_false, ih]
      constructor
      · intro h j hj hjs
        rcases Nat.eq_or_lt_of_le hj with rfl | hlt
        · exact hp
        · exact h j hlt (by omega)
      · intro h j hj hjs
        exact h j (by omega) (by omega)

/-- Distance to the first NUL, `limit` at most. -/
def textLength (m : Mem) (limit : ℕ) : ℕ := (firstFrom (fun i => m i == 0) 0 limit).getD limit

/-- The text reaches as far as there is no NUL. -/
theorem le_textLength {m : Mem} {limit n : ℕ} :
    n ≤ textLength m limit ↔ n ≤ limit ∧ ∀ i < n, m i ≠ 0 := by
  unfold textLength
  cases h : firstFrom (fun i => m i == 0) 0 limit with
  | none =>
    rw [firstFrom_eq_none] at h
    simp only [Option.getD_none]
    constructor
    · intro hn
      exact ⟨hn, fun i hi => by simpa using h i (by omega) (by omega)⟩
    · intro hn
      exact hn.1
  | some e =>
    rw [firstFrom_eq_some] at h
    obtain ⟨_, he, hz, hbefore⟩ := h
    simp only [Option.getD_some]
    constructor
    · intro hn
      exact ⟨by omega, fun i hi => by simpa using hbefore i (by omega) (by omega)⟩
    · intro ⟨_, hn⟩
      by_contra hlt
      exact hn e (by omega) (by simpa using hz)

/-- The string at `a`, read up to its NUL or the limit. -/
def stringAt (m : Mem) (a limit : ℕ) : List UInt8 :=
  (List.range (textLength (ptr m a) limit)).map fun j => m (a + j)

/-- A property of all characters, checked along the string. -/
theorem forall_mem_of_all {p : UInt8 → Prop} [DecidablePred p] {bytes : List UInt8}
    (h : (bytes.all fun c => decide (p c)) = true) : ∀ c ∈ bytes, p c := by
  intro c hc
  exact of_decide_eq_true (List.all_eq_true.mp h c hc)

/-- A byte string without NULs: what a `char *` argument stands for. -/
structure CString where
  bytes : List UInt8
  noNul : ∀ c ∈ bytes, c ≠ 0
deriving DecidableEq

theorem CString.ext {s t : CString} (h : s.bytes = t.bytes) : s = t := by
  cases s
  cases t
  cases h
  rfl

def CString.empty : CString := ⟨[], fun _ h => absurd h List.not_mem_nil⟩

/-- The string up to its `n`th character. -/
def CString.take (s : CString) (n : ℕ) : CString :=
  ⟨s.bytes.take n, fun c hc => s.noNul c (List.mem_of_mem_take hc)⟩

/-- The string from its `n`th character on. -/
def CString.drop (s : CString) (n : ℕ) : CString :=
  ⟨s.bytes.drop n, fun c hc => s.noNul c (List.mem_of_mem_drop hc)⟩

/-- The bytes of a string, then NULs. -/
def chars (bytes : List UInt8) : Mem := fun j => bytes.getD j 0

theorem chars_lt {bytes : List UInt8} {j : ℕ} (h : j < bytes.length) :
    chars bytes j = bytes[j] := by
  rw [chars, List.getD_eq_getElem?_getD, List.getElem?_eq_getElem h]
  rfl

theorem chars_mem {bytes : List UInt8} {j : ℕ} (h : j < bytes.length) :
    chars bytes j ∈ bytes := by
  rw [chars_lt h]
  exact List.getElem_mem h

theorem chars_ge {bytes : List UInt8} {j : ℕ} (h : bytes.length ≤ j) : chars bytes j = 0 := by
  rw [chars, List.getD_eq_getElem?_getD, List.getElem?_eq_none h]
  rfl

theorem chars_take_lt {bytes : List UInt8} {n j : ℕ} (h : j < n) :
    chars (bytes.take n) j = chars bytes j := by
  simp only [chars, List.getD_eq_getElem?_getD, List.getElem?_take_of_lt h]

theorem chars_append (a b : List UInt8) (j : ℕ) :
    chars (a ++ b) j = if j < a.length then chars a j else chars b (j - a.length) := by
  simp only [chars, List.getD_eq_getElem?_getD]
  split
  case isTrue h => rw [List.getElem?_append_left h]
  case isFalse h => rw [List.getElem?_append_right (Nat.le_of_not_lt h)]

/-- A string without NULs is copied whole, with the NULs behind it. -/
theorem copied_chars {bytes : List UInt8} (hz : ∀ c ∈ bytes, c ≠ 0) (j : ℕ) :
    copied (chars bytes) j = chars bytes j := by
  by_cases hj : j ≤ bytes.length
  · exact copied_eq fun k hk => hz _ (chars_mem (hk.trans_le hj))
  · rw [copied, if_pos ⟨bytes.length, by omega, chars_ge le_rfl⟩, chars_ge (by omega)]

/-- What the memory holds up to a NUL is the string there. -/
theorem stringAt_eq {m : Mem} {bytes : List UInt8} (hz : ∀ c ∈ bytes, c ≠ 0) {a limit : ℕ}
    (hlimit : bytes.length < limit) (htext : ∀ j < bytes.length, m (a + j) = chars bytes j)
    (hend : m (a + bytes.length) = 0) : stringAt m a limit = bytes := by
  have hlen : textLength (ptr m a) limit = bytes.length := by
    refine le_antisymm ?_ (le_textLength.mpr ⟨hlimit.le, fun i hi => ?_⟩)
    · by_contra hlt
      exact (le_textLength.mp (Nat.not_le.mp hlt)).2 _ (Nat.lt_succ_self _) hend
    · rw [ptr_apply, htext i hi]
      exact hz _ (chars_mem hi)
  rw [stringAt, hlen]
  refine List.ext_getElem (by simp) fun i hi hi' => ?_
  rw [List.getElem_map, List.getElem_range, htext i hi', chars_lt hi']

/-- A string has no NUL. -/
theorem stringAt_ne_zero {m : Mem} {a limit : ℕ} : ∀ c ∈ stringAt m a limit, c ≠ 0 := by
  intro c hc
  obtain ⟨j, hj, rfl⟩ := List.mem_map.mp hc
  exact (le_textLength.mp le_rfl).2 j (List.mem_range.mp hj)

/-- A string ends at a NUL. -/
theorem stringAt_length_le {m : Mem} {a limit d : ℕ} (h : m (a + d) = 0) :
    (stringAt m a limit).length ≤ d := by
  rw [stringAt, List.length_map, List.length_range]
  by_contra hlt
  exact (le_textLength.mp (Nat.not_le.mp hlt)).2 d (Nat.lt_succ_self d) h

/-- Copying the characters of a string without NULs writes those characters. -/
theorem strncpy_chars {m : Mem} {bytes : List UInt8} (hz : ∀ c ∈ bytes, c ≠ 0) {a n : ℕ}
    (hn : n ≤ bytes.length) : strncpy m a (chars bytes) n = overlay m a n (chars bytes) :=
  overlay_congr fun j hj => copied_eq fun k hk => hz _ (chars_mem (by omega))

end ByteMemory
