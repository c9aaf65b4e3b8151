import Hashpipe.Library.ByteMemory
import Hashpipe.Library.CNumber

/-!
# The name of the status semaphore

`hashpipe_status_semname` writes the semaphore's name into a buffer of the caller's and says
whether it fits.  The buffer is the first `size` bytes of a memory; `strchr` that does not come
to a NUL within them reads beyond the buffer, for which the function is `none`.

A name taken from `HASHPIPE_STATUS_SEMNAME` is never said to fit, and in a buffer of one byte
the search for slashes starts behind its end; otherwise the function does what it says
(`semname_correct_iff`).
-/

namespace Hashpipe.Status

open ByteMemory CNumber

/-- The environment variables that the status functions read. -/
structure StatusEnv where
  HASHPIPE_STATUS_SEMNAME : Option CString
  HASHPIPE_STATUS_KEY : Option CString
  HASHPIPE_KEYFILE : Option CString
  HOME : Option CString

/-- `"/tmp"`. -/
def tmpPath : CString := ⟨[47, 116, 109, 112], forall_mem_of_all (by decide)⟩

/-- The path that names the keys and the semaphore. -/
def StatusEnv.keyfile (env : StatusEnv) : CString :=
  env.HASHPIPE_KEYFILE.getD (env.HOME.getD tmpPath)

/-- `instance_id & 0x3f`. -/
def instanceBits (instance_id : Int32) : ℕ := (instance_id.toInt % 64).toNat

/-- `"_hashpipe_status_%d"` with the instance. -/
def semnameSuffix (instance_id : Int32) : List UInt8 :=
  [95, 104, 97, 115, 104, 112, 105, 112, 101, 95, 115, 116, 97, 116, 117, 115, 95] ++
    natText (instanceBits instance_id)

/-- `strncpy(semid, src, n); semid[n-1] = 0`. -/
def copyCut (m : Mem) (src : CString) (n : ℕ) : Mem :=
  Function.update (strncpy m 0 (chars src.bytes) n) (n - 1) 0

/-- `strchr(m + s, c)` in a buffer of `size` bytes: where `c` is, or `some none` for `NULL`. -/
def strchrWithin (size : ℕ) (m : Mem) (s : ℕ) (c : UInt8) : Option (Option ℕ) :=
  (firstFrom (fun i => m i == c || m i == 0) s (size - s)).map fun i =>
    if m i = c then some i else none

/-- The loop over the slashes from `s` on. -/
def replaceSlashes (size : ℕ) : ℕ → Mem → ℕ → Option Mem
  | 0, _, _ => none
  | fuel + 1, m, s =>
    match strchrWithin size m s 47 with
    | none => none
    | some none => some m
    | some (some i) => replaceSlashes size fuel (Function.update m i 95) i

/-- `snprintf(m + a, n, "%s", text)` for a positive `n`. -/
def snprintf (m : Mem) (a n : ℕ) (text : List UInt8) : Mem :=
  overlay m a (min text.length (n - 1) + 1) (chars (text.take (n - 1)))

/-- The buffer afterwards and the value returned. -/
def hashpipeStatusSemname (env : StatusEnv) (instance_id : Int32) (size : ℕ) (semid : Mem) :
    Option (Mem × ℕ) :=
  match env.HASHPIPE_STATUS_SEMNAME with
  | some envstr => some (copyCut semid envstr size, 1)
  | none =>
    (replaceSlashes size (size + 1) (copyCut semid env.keyfile size) 1).map fun semid =>
      let length := textLength semid size
      let length_remaining := size - length
      if 0 < length_remaining then
        (snprintf semid length length_remaining (semnameSuffix instance_id),
          if (semnameSuffix instance_id).length < length_remaining then 0 else 1)
      else (semid, 1)

/-! ### The complete name -/

def slashReplaced (c : UInt8) : UInt8 := if c = 47 then 95 else c

/-- Every slash after the first character replaced. -/
def slashesReplaced : List UInt8 → List UInt8
  | [] => []
  | c :: cs => c :: cs.map slashReplaced

def completeName (env : StatusEnv) (instance_id : Int32) : List UInt8 :=
  env.HASHPIPE_STATUS_SEMNAME.elim
    (slashesReplaced env.keyfile.bytes ++ semnameSuffix instance_id) CString.bytes

/-- What the function is to do, from a buffer with any contents. -/
structure SemnameCorrect (env : StatusEnv) (instance_id : Int32) (size : ℕ) (semid semid' : Mem)
    (rc : ℕ) : Prop where
  returns : hashpipeStatusSemname env instance_id size semid = some (semid', rc)
  terminated : ∃ i < size, semid' i = 0
  outside : ∀ i, size ≤ i → semid' i = semid i
  fits : rc = 0 ↔ (completeName env instance_id).length < size
  name : rc = 0 → stringAt semid' 0 size = completeName env instance_id
  noSlash : rc = 0 → env.HASHPIPE_STATUS_SEMNAME = none →
    ∀ c ∈ (stringAt semid' 0 size).tail, c ≠ 47
  distinct : rc = 0 → env.HASHPIPE_STATUS_SEMNAME = none → ∀ other other_semid other_semid',
    hashpipeStatusSemname env other size other_semid = some (other_semid', 0) →
      (stringAt semid' 0 size = stringAt other_semid' 0 size ↔
        instance_id.toInt % 64 = other.toInt % 64)

/-! ### Copying and replacing -/

theorem copyCut_inside (m : Mem) (src : CString) {n i : ℕ} (hi : i < n) :
    copyCut m src n i = chars (src.bytes.take (n - 1)) i := by
  unfold copyCut
  by_cases hlast : i = n - 1
  · rw [hlast, Function.update_self, chars_ge (List.length_take_le _ _)]
  · have hlt : i < n - 1 := by omega
    rw [Function.update_of_ne hlast, chars_take_lt hlt, strncpy_eq_overlay,
      overlay_inside (Nat.zero_add i).symm hi, copied_chars src.noNul]

theorem copyCut_outside (m : Mem) (src : CString) {n i : ℕ} (hn : 1 ≤ n) (hi : n ≤ i) :
    copyCut m src n i = m i := by
  unfold copyCut
  rw [Function.update_of_ne (by omega), strncpy_outside (by omega)]

/-- The next slash or NUL, in a buffer that has a NUL. -/
theorem strchrWithin_eq {size : ℕ} {m : Mem} {s e : ℕ} (hse : s ≤ e) (he : e < size)
    (hnul : m e = 0) :
    ∃ i, s ≤ i ∧ i ≤ e ∧ (∀ j, s ≤ j → j < i → m j ≠ 47 ∧ m j ≠ 0) ∧
      ((m i = 47 ∧ strchrWithin size m s 47 = some (some i)) ∨
        (m i = 0 ∧ strchrWithin size m s 47 = some none)) := by
  have hfound : firstFrom (fun i => m i == 47 || m i == 0) s (size - s) ≠ none := by
    intro hnone
    have hat := firstFrom_eq_none.mp hnone e hse (by omega)
    simp [hnul] at hat
  obtain ⟨i, hi⟩ := Option.ne_none_iff_exists'.mp hfound
  obtain ⟨hsi, -, hat, hbefore⟩ := firstFrom_eq_some.mp hi
  have hle : i ≤ e := by
    by_contra hlt
    have hat := hbefore e hse (by omega)
    simp [hnul] at hat
  refine ⟨i, hsi, hle, fun j hj hji => by simpa using hbefore j hj hji, ?_⟩
  rcases (by simpa using hat : m i = 47 ∨ m i = 0) with h | h
  · exact .inl ⟨h, by simp only [strchrWithin, hi, Option.map_some, h, if_true]⟩
  · exact .inr ⟨h, by simp only [strchrWithin, hi, Option.map_some, h]; rfl⟩

/-- From `s` on, the loop changes the slashes before the next NUL. -/
theorem replaceSlashes_eq {size : ℕ} {m : Mem} {s e fuel : ℕ} (hse : s ≤ e) (he : e < size)
    (hnul : m e = 0) (htext : ∀ i, s ≤ i → i < e → m i ≠ 0)
    (hfuel : e - s + (if m s = 47 then 1 else 0) < fuel) :
    replaceSlashes size fuel m s =
      some (fun i => if s ≤ i ∧ i < e then slashReplaced (m i) else m i) := by
  induction fuel generalizing m s with
  | zero => omega
  | succ fuel ih =>
    obtain ⟨i, hsi, hie, hbefore, hcase⟩ := strchrWithin_eq hse he hnul
    rcases hcase with ⟨hslash, hchr⟩ | ⟨hzero, hchr⟩
    · -- after the change there is no slash at `i`, so the rest needs less fuel
      have hne : i ≠ e := fun h => by rw [h, hnul] at hslash; cases hslash
      have hrest := @ih (Function.update m i 95) i hie
        (by rw [Function.update_of_ne (Ne.symm hne)]; exact hnul)
        (fun j hj hje => by
          by_cases hji : j = i
          · rw [hji, Function.update_self]
            decide
          · rw [Function.update_of_ne hji]
            exact htext j (by omega) hje)
        (by
          rw [Function.update_self, if_neg (by decide)]
          by_cases hsi' : s = i
          · subst hsi'
            rw [if_pos hslash] at hfuel
            omega
          · omega)
      simp only [replaceSlashes, hchr, hrest, Option.some.injEq]
      funext j
      by_cases hji : j = i
      · subst hji
        have hin : s ≤ j ∧ j < e := ⟨hsi, lt_of_le_of_ne hie hne⟩
        rw [if_pos ⟨le_rfl, hin.2⟩, if_pos hin, Function.update_self, hslash]
        rfl
      · rw [Function.update_of_ne hji]
        by_cases hj : s ≤ j ∧ j < e
        · rw [if_pos hj]
          by_cases hij : i ≤ j
          · rw [if_pos ⟨hij, hj.2⟩]
          · rw [if_neg (by omega), slashReplaced, if_neg (hbefore j hj.1 (by omega)).1]
        · rw [if_neg hj, if_neg (by omega)]
    · have hei : i = e := by
        by_contra hne
        exact htext i hsi (lt_of_le_of_ne hie hne) hzero
      subst hei
      simp only [replaceSlashes, hchr, Option.some.injEq]
      funext j
      by_cases hj : s ≤ j ∧ j < i
      · rw [if_pos hj, slashReplaced, if_neg (hbefore j hj.1 hj.2).1]
      · rw [if_neg hj]

theorem slashesReplaced_length (bytes : List UInt8) :
    (slashesReplaced bytes).length = bytes.length := by
  cases bytes with
  | nil => rfl
  | cons c cs => simp only [slashesReplaced, List.length_cons, List.length_map]

theorem chars_slashesReplaced (bytes : List UInt8) (j : ℕ) :
    chars (slashesReplaced bytes) j =
      if 1 ≤ j then slashReplaced (chars bytes j) else chars bytes j := by
  cases bytes with
  | nil => cases j <;> rfl
  | cons c cs =>
    cases j with
    | zero => rfl
    | succ j =>
      have hget : (cs.map slashReplaced)[j]? = cs[j]?.map slashReplaced := List.getElem?_map ..
      show (cs.map slashReplaced).getD j 0 = slashReplaced (cs.getD j 0)
      rw [List.getD_eq_getElem?_getD, List.getD_eq_getElem?_getD, hget]
      cases cs[j]? <;> rfl

theorem slashReplaced_eq_zero {c : UInt8} : slashReplaced c = 0 ↔ c = 0 := by
  unfold slashReplaced
  split
  case isTrue h => simp [h]
  case isFalse => rfl

theorem slashReplaced_ne (c : UInt8) : slashReplaced c ≠ 47 := by
  unfold slashReplaced
  split
  case isTrue => decide
  case isFalse h => exact h

theorem natText_ne_zero (n : ℕ) : ∀ c ∈ natText n, c ≠ 0 ∧ c ≠ 47 := by
  intro c hc
  have hrange := natText_range hc
  constructor
  · rintro rfl
    exact absurd hrange (by decide)
  · rintro rfl
    exact absurd hrange (by decide)

theorem semnameSuffix_clean (instance_id : Int32) :
    ∀ c ∈ semnameSuffix instance_id, c ≠ 0 ∧ c ≠ 47 := by
  intro c hc
  rcases List.mem_append.mp hc with h | h
  · have hall : ∀ c ∈ ([95, 104, 97, 115, 104, 112, 105, 112, 101, 95, 115, 116, 97, 116, 117, 115,
        95] : List UInt8), c ≠ 0 ∧ c ≠ 47 := forall_mem_of_all (by decide)
    exact hall c h
  · exact natText_ne_zero _ c h

/-- The number can be read back from the name. -/
theorem semnameSuffix_inj {a b : Int32} :
    semnameSuffix a = semnameSuffix b ↔ a.toInt % 64 = b.toInt % 64 := by
  constructor
  · intro h
    have htext := List.append_cancel_left h
    have hread := readDigits_natText (instanceBits a)
    rw [htext, readDigits_natText] at hread
    have hbits : instanceBits b = instanceBits a := congrArg Prod.fst hread
    unfold instanceBits at hbits
    omega
  · intro h
    unfold semnameSuffix instanceBits
    rw [h]

/-! ### The key path -/

section KeyPath

variable {env : StatusEnv} {instance_id : Int32} {size : ℕ} {semid : Mem}

/-- The part of the path that the buffer takes. -/
def pathCut (env : StatusEnv) (size : ℕ) : List UInt8 := env.keyfile.bytes.take (size - 1)

theorem pathCut_noNul : ∀ c ∈ pathCut env size, c ≠ 0 :=
  fun c hc => env.keyfile.noNul c (List.mem_of_mem_take hc)

theorem pathCut_length : (pathCut env size).length = min (size - 1) env.keyfile.bytes.length :=
  List.length_take ..

/-- The path in the buffer, its slashes replaced. -/
theorem replaceSlashes_path (hsize : 2 ≤ size) :
    ∃ m, replaceSlashes size (size + 1) (copyCut semid env.keyfile size) 1 = some m ∧
      (∀ i < size, m i = chars (slashesReplaced (pathCut env size)) i) ∧
        ∀ i, size ≤ i → m i = semid i := by
  have hlen := @pathCut_length env size
  set e := max (pathCut env size).length 1 with he
  have hcut : ∀ i < size, copyCut semid env.keyfile size i = chars (pathCut env size) i :=
    fun i hi => copyCut_inside semid env.keyfile hi
  have hnul : copyCut semid env.keyfile size e = 0 := by
    rw [hcut e (by omega), chars_ge (by omega)]
  have htext : ∀ i, 1 ≤ i → i < e → copyCut semid env.keyfile size i ≠ 0 := by
    intro i hi hie
    rw [hcut i (by omega)]
    exact pathCut_noNul _ (chars_mem (by omega))
  have hfuel : e - 1 + (if copyCut semid env.keyfile size 1 = 47 then 1 else 0) < size + 1 := by
    split <;> omega
  refine ⟨_, replaceSlashes_eq (by omega) (by omega) hnul htext hfuel, fun i hi => ?_,
    fun i hi => ?_⟩
  · rw [hcut i hi, chars_slashesReplaced]
    by_cases hin : 1 ≤ i ∧ i < e
    · rw [if_pos hin, if_pos hin.1]
    · rw [if_neg hin]
      split
      · rw [chars_ge (by omega)]
        rfl
      · rfl
  · rw [if_neg (by omega), copyCut_outside semid env.keyfile (by omega) hi]

/-- What the name is cut to. -/
def nameCut (env : StatusEnv) (instance_id : Int32) (size : ℕ) : List UInt8 :=
  slashesReplaced (pathCut env size) ++
    (semnameSuffix instance_id).take (size - (pathCut env size).length - 1)

theorem semname_path (henv : env.HASHPIPE_STATUS_SEMNAME = none) (hsize : 2 ≤ size) :
    ∃ m, hashpipeStatusSemname env instance_id size semid = some (m,
        if (semnameSuffix instance_id).length < size - (pathCut env size).length then 0 else 1) ∧
      (∀ i < size, m i = chars (nameCut env instance_id size) i) ∧
        ∀ i, size ≤ i → m i = semid i := by
  obtain ⟨m, hm, hinside, houtside⟩ := @replaceSlashes_path env size semid hsize
  have hlen := @pathCut_length env size
  have hlength : textLength m size = (pathCut env size).length := by
    refine le_antisymm ?_ (le_textLength.mpr ⟨by omega, fun i hi => ?_⟩)
    · by_contra hlt
      have hne := (le_textLength.mp (Nat.not_le.mp hlt)).2 _ (Nat.lt_succ_self _)
      rw [hinside _ (by omega), chars_ge (slashesReplaced_length _).le] at hne
      exact hne rfl
    · rw [hinside i (by omega), chars_slashesReplaced]
      have hne := @pathCut_noNul env size _ (chars_mem hi)
      split
      · exact fun h => hne (slashReplaced_eq_zero.mp h)
      · exact hne
  set n := (pathCut env size).length with hn
  refine ⟨snprintf m n (size - n) (semnameSuffix instance_id), ?_, fun i hi => ?_, fun i hi => ?_⟩
  · simp only [hashpipeStatusSemname, henv, hm, Option.map_some, hlength]
    rw [if_pos (by omega)]
  · rw [nameCut, chars_append, slashesReplaced_length, ← hn]
    unfold snprintf
    by_cases hin : i < n
    · rw [overlay_outside (.inl hin), if_pos hin, hinside i hi]
    · rw [if_neg hin]
      by_cases hwritten : i < n + (min (semnameSuffix instance_id).length (size - n - 1) + 1)
      · rw [overlay_inside (show i = n + (i - n) by omega) (by omega)]
      · rw [overlay_outside (.inr (by omega)), hinside i hi,
          chars_ge (by rw [slashesReplaced_length]; omega), chars_ge]
        rw [List.length_take]
        omega
  · unfold snprintf
    rw [overlay_outside (.inr (by omega)), houtside i hi]

/-- The value returned is right. -/
theorem suffix_fits_iff (henv : env.HASHPIPE_STATUS_SEMNAME = none) (hsize : 2 ≤ size) :
    (semnameSuffix instance_id).length < size - (pathCut env size).length ↔
      (completeName env instance_id).length < size := by
  have hlen := @pathCut_length env size
  have hsuffix : 17 ≤ (semnameSuffix instance_id).length := by
    simp [semnameSuffix]
  rw [completeName, henv]
  simp only [Option.elim_none, List.length_append, slashesReplaced_length]
  omega

theorem nameCut_complete (henv : env.HASHPIPE_STATUS_SEMNAME = none)
    (hfits : (completeName env instance_id).length < size) :
    nameCut env instance_id size = completeName env instance_id := by
  rw [completeName, henv] at hfits ⊢
  simp only [Option.elim_none, List.length_append, slashesReplaced_length] at hfits ⊢
  have hpath : pathCut env size = env.keyfile.bytes := List.take_of_length_le (by omega)
  rw [nameCut, hpath, List.take_of_length_le (by omega)]

theorem completeName_clean (henv : env.HASHPIPE_STATUS_SEMNAME = none) :
    (∀ c ∈ completeName env instance_id, c ≠ 0) ∧
      ∀ c ∈ (completeName env instance_id).tail, c ≠ 47 := by
  rw [completeName, henv]
  have hsuffix := semnameSuffix_clean instance_id
  have hpath := env.keyfile.noNul
  simp only [Option.elim_none]
  generalize env.keyfile.bytes = path at hpath
  cases path with
  | nil =>
    exact ⟨fun c hc => (hsuffix c hc).1, fun c hc => (hsuffix c (List.mem_of_mem_tail hc)).2⟩
  | cons c cs =>
    simp only [slashesReplaced, List.cons_append, List.tail_cons, List.mem_cons, List.mem_append]
    refine ⟨?_, ?_⟩
    · rintro d (rfl | hd | hd)
      · exact hpath d (List.mem_cons_self ..)
      · obtain ⟨x, hx, rfl⟩ := List.mem_map.mp hd
        exact fun h => hpath x (List.mem_cons_of_mem _ hx) (slashReplaced_eq_zero.mp h)
      · exact (hsuffix d hd).1
    · rintro d (hd | hd)
      · obtain ⟨x, -, rfl⟩ := List.mem_map.mp hd
        exact slashReplaced_ne x
      · exact (hsuffix d hd).2

/-- A name that is said to fit is the complete one. -/
theorem semname_fits_name (henv : env.HASHPIPE_STATUS_SEMNAME = none) {m : Mem}
    (hm : hashpipeStatusSemname env instance_id size semid = some (m, 0)) :
    stringAt m 0 size = completeName env instance_id := by
  have hsize : 2 ≤ size := by
    by_contra hlt
    obtain rfl | rfl : size = 0 ∨ size = 1 := by omega
    · simp [hashpipeStatusSemname, henv, replaceSlashes, strchrWithin, firstFrom] at hm
    · simp [hashpipeStatusSemname, henv, replaceSlashes, strchrWithin, firstFrom] at hm
  obtain ⟨m', hm', hinside, -⟩ := @semname_path env instance_id size semid henv hsize
  rw [hm, Option.some.injEq, Prod.mk.injEq] at hm'
  obtain ⟨rfl, hrc⟩ := hm'
  have hfits : (completeName env instance_id).length < size := by
    rw [← suffix_fits_iff henv hsize]
    by_contra hnot
    rw [if_neg hnot] at hrc
    cases hrc
  rw [nameCut_complete henv hfits] at hinside
  refine stringAt_eq (completeName_clean henv).1 hfits (fun j hj => ?_) ?_
  · rw [Nat.zero_add]
    exact hinside j (by omega)
  · rw [Nat.zero_add, hinside _ hfits, chars_ge le_rfl]

theorem completeName_inj (henv : env.HASHPIPE_STATUS_SEMNAME = none) {other : Int32} :
    completeName env instance_id = completeName env other ↔
      instance_id.toInt % 64 = other.toInt % 64 := by
  rw [completeName, completeName, henv, ← semnameSuffix_inj]
  simp only [Option.elim_none, List.append_cancel_left_eq]

theorem semname_path_correct (henv : env.HASHPIPE_STATUS_SEMNAME = none) (hsize : 2 ≤ size) :
    ∃ semid' rc, SemnameCorrect env instance_id size semid semid' rc := by
  obtain ⟨m, hm, hinside, houtside⟩ := @semname_path env instance_id size semid henv hsize
  have hlen := @pathCut_length env size
  refine ⟨m, _, hm, ⟨size - 1, by omega, ?_⟩, houtside, ?_, fun hrc => ?_, fun hrc _ => ?_,
    fun hrc _ other other_semid other_semid' hother => ?_⟩
  · rw [hinside _ (by omega), chars_ge]
    rw [nameCut, List.length_append, slashesReplaced_length, List.length_take]
    omega
  · rw [← suffix_fits_iff henv hsize]
    split <;> simp_all
  · exact semname_fits_name henv (hrc ▸ hm)
  · rw [semname_fits_name henv (hrc ▸ hm)]
    exact (completeName_clean henv).2
  · rw [semname_fits_name henv (hrc ▸ hm), semname_fits_name henv hother]
    exact completeName_inj henv

end KeyPath

/-- With one byte the search for slashes starts behind the buffer. -/
theorem semname_one {env : StatusEnv} (henv : env.HASHPIPE_STATUS_SEMNAME = none)
    (instance_id : Int32) (semid : Mem) :
    hashpipeStatusSemname env instance_id 1 semid = none := by
  simp [hashpipeStatusSemname, henv, replaceSlashes, strchrWithin, firstFrom]

/-- A name from the environment is copied as far as it goes. -/
theorem semname_environment {env : StatusEnv} {envstr : CString}
    (henv : env.HASHPIPE_STATUS_SEMNAME = some envstr) (instance_id : Int32) (size : ℕ)
    (semid : Mem) :
    hashpipeStatusSemname env instance_id size semid = some (copyCut semid envstr size, 1) := by
  simp only [hashpipeStatusSemname, henv]

/-- For every environment, instance and buffer the function does what it is to do exactly when
a name given in the environment does not fit, or a path's name has a buffer of two bytes at
least. -/
theorem semname_correct_iff (env : StatusEnv) (instance_id : Int32) (size : ℕ) (hsize : 1 ≤ size)
    (semid : Mem) :
    (∃ semid' rc, SemnameCorrect env instance_id size semid semid' rc) ↔
      (∀ envstr, env.HASHPIPE_STATUS_SEMNAME = some envstr → size ≤ envstr.bytes.length) ∧
        (env.HASHPIPE_STATUS_SEMNAME = none → 2 ≤ size) := by
  cases henv : env.HASHPIPE_STATUS_SEMNAME with
  | none =>
    constructor
    · rintro ⟨semid', rc, h⟩
      refine ⟨fun envstr heq => (by cases heq), fun _ => ?_⟩
      by_contra hlt
      obtain rfl : size = 1 := by omega
      have hreturns := h.returns
      rw [semname_one henv] at hreturns
      cases hreturns
    · rintro ⟨-, hsize⟩
      exact semname_path_correct henv (hsize rfl)
  | some envstr =>
    have hrun := semname_environment henv instance_id size semid
    have hcomplete : completeName env instance_id = envstr.bytes := by
      rw [completeName, henv]
      rfl
    constructor
    · rintro ⟨semid', rc, h⟩
      have hreturns := h.returns
      rw [hrun, Option.some.injEq, Prod.mk.injEq] at hreturns
      have hfits := h.fits
      rw [← hreturns.2, hcomplete] at hfits
      refine ⟨fun envstr' heq => ?_, fun hnone => (by cases hnone)⟩
      obtain rfl := Option.some.inj heq
      omega
    · rintro ⟨hlong, -⟩
      have hle := hlong envstr rfl
      refine ⟨_, 1, hrun, ⟨size - 1, by omega, Function.update_self ..⟩,
        fun i hi => copyCut_outside semid envstr hsize hi, ?_,
        fun hrc => (by cases hrc), fun hrc => (by cases hrc), fun hrc => (by cases hrc)⟩
      rw [hcomplete]
      omega

/-- No override, and a home directory `/root`. -/
def homeEnv : StatusEnv :=
  ⟨none, none, none, some ⟨[47, 114, 111, 111, 116], forall_mem_of_all (by decide)⟩⟩

/-- `HASHPIPE_STATUS_SEMNAME` set to `/sem`. -/
def semnameEnv : StatusEnv :=
  ⟨some ⟨[47, 115, 101, 109], forall_mem_of_all (by decide)⟩, none, none, none⟩

theorem semname_home : ∃ semid' rc, SemnameCorrect homeEnv 3 255 (fun _ => 0) semid' rc :=
  (semname_correct_iff homeEnv 3 255 (by decide) fun _ => 0).mpr
    ⟨fun envstr h => (by cases h), fun _ => (by decide)⟩

/-- The name `/sem` fits in 255 bytes and is said not to. -/
theorem semname_override_refused : ¬ ∀ (env : StatusEnv) (instance_id : Int32) (size : ℕ),
    1 ≤ size → ∀ semid, ∃ semid' rc, SemnameCorrect env instance_id size semid semid' rc := by
  intro h
  obtain ⟨semid', rc, hcorrect⟩ := h semnameEnv 0 255 (by decide) fun _ => 0
  have hreturns := hcorrect.returns
  rw [semname_environment rfl, Option.some.injEq, Prod.mk.injEq] at hreturns
  have hfits := hcorrect.fits
  rw [← hreturns.2] at hfits
  exact absurd (hfits.mpr (by decide)) (by decide)

end Hashpipe.Status
