import Hashpipe.Databuf.Semaphores
import Hashpipe.Library.StepSystem

/-!
# The status of all blocks at once

`hashpipe_databuf_total_status` and `hashpipe_databuf_total_mask` read every semaphore of
a databuf with one `GETALL` and sum it up, the latter as one bit for each of the first 64
blocks.  The bit is `1<<i` with an `int` 1, then widened to the 64 bits of the mask.

`blockSystem` is a databuf in use: any number of processes call the set, clear and wait
functions, each of which comes down to one operation on the semaphore set (or one for each
pass of a busy wait).  `binary_next` is the invariant it keeps, `maskLoop` the loop of the
mask.
-/

namespace Hashpipe.Databuf

open SemaphoreSet StepSystem

/-- `semctl` rejects the number of a semaphore that is not in the set. -/
def validBlock (n_block : ℕ) (block_id : ℤ) : Bool := 0 ≤ block_id ∧ block_id < n_block

/-- `semctl(GETVAL)`. -/
def hashpipeDatabufBlockStatus (n_block : ℕ) (sem : SemSet) (block_id : ℤ) : ℤ :=
  if validBlock n_block block_id then sem block_id.toNat else -1

def hashpipeDatabufTotalStatus (n_block : ℕ) (sem : SemSet) : ℕ :=
  (getAll sem n_block).foldl (fun tot value => tot + value) 0

/-- `1<<i` in `int`, converted to `uint64_t`.  A shift by 31 gives the most negative `int`,
whose sign the conversion extends; a shift by 32 or more has no defined result. -/
def shiftedOne (i : ℕ) : Option (BitVec 64) :=
  if i < 32 then some ((1#32 <<< i).signExtend 64) else none

/-- The body of the loop of `hashpipe_databuf_total_mask`. -/
def maskStep (array : List ℕ) (tot : BitVec 64) (i : ℕ) : Option (BitVec 64) :=
  if array.getD i 0 ≠ 0 then (shiftedOne i).map fun bit => tot ||| bit else some tot

def maskLoop (array : List ℕ) (n : ℕ) : Option (BitVec 64) :=
  (List.range n).foldlM (maskStep array) 0#64

def hashpipeDatabufTotalMask (n_block : ℕ) (sem : SemSet) : Option (BitVec 64) :=
  maskLoop (getAll sem n_block) (if 64 < n_block then 64 else n_block)

/-- `semctl(SETALL)` with zeros. -/
def hashpipeDatabufClear (n_block : ℕ) (sem : SemSet) : SemSet := setAll sem n_block fun _ => 0

/-- A call by one of the processes that use the databuf.  The kernel's answer to a wait is
part of the action, and so is the block number that is handed to it. -/
inductive BlockAction
  | setFilled (block_id : ℤ)
  | setFree (block_id : ℤ)
  | clear
  /-- `wait_free`, or one pass of `busywait_free`. -/
  | waitFree (busy : Bool) (block_id : ℕ) (answer : Answer)
  /-- `wait_filled`, or one pass of `busywait_filled`. -/
  | waitFilled (busy : Bool) (block_id : ℕ) (answer : Answer)

/-- The semaphores after a call; a wait may have to sleep. -/
def blockNext (n_block : ℕ) (sem : SemSet) : BlockAction → Option SemSet
  | .setFilled block_id =>
    if validBlock n_block block_id then some (hashpipeDatabufSetFilled sem block_id.toNat).1
    else some sem
  | .setFree block_id =>
    if validBlock n_block block_id then some (hashpipeDatabufSetFree sem block_id.toNat).1
    else some sem
  | .clear => some (hashpipeDatabufClear n_block sem)
  | .waitFree busy block_id answer =>
    if busy then (hashpipeDatabufBusywaitFree sem block_id answer).map Prod.fst
    else (hashpipeDatabufWaitFree sem block_id answer).map Prod.fst
  | .waitFilled busy block_id answer =>
    if busy then (hashpipeDatabufBusywaitFilled sem block_id answer).map Prod.fst
    else (hashpipeDatabufWaitFilled sem block_id answer).map Prod.fst

/-- A new databuf has all its semaphores at 0. -/
def blockSystem (n_block : ℕ) : System SemSet BlockAction where
  init sem := sem = fun _ => 0
  next := blockNext n_block

/-- How many blocks are filled. -/
def filledCount (n_block : ℕ) (sem : SemSet) : ℕ :=
  (List.range n_block).countP fun i : ℕ => hashpipeDatabufBlockStatus n_block sem i = 1

/-- Bit `i` of the mask says whether there is a block `i` and it is filled. -/
def MaskAgrees (n_block : ℕ) (sem : SemSet) : Prop :=
  ∃ mask, hashpipeDatabufTotalMask n_block sem = some mask ∧ ∀ i < 64,
    (mask.getLsbD i = true ↔ i < n_block ∧ hashpipeDatabufBlockStatus n_block sem i = 1)

/-- How many bits of the mask are set. -/
def popCount (mask : BitVec 64) : ℕ := (List.range 64).countP fun i => mask.getLsbD i

section Blocks

variable {n_block : ℕ} {sem sem' : SemSet}

theorem blockStatus_eq {i : ℕ} (h : i < n_block) :
    hashpipeDatabufBlockStatus n_block sem i = sem i := by
  have hvalid : validBlock n_block i = true := by simp [validBlock, h]
  rw [hashpipeDatabufBlockStatus, if_pos hvalid, Int.toNat_natCast]

/-! ### The values of the semaphores -/

/-- What a wait leaves is what it found. -/
theorem waitFree_next {busy : Bool} {block_id : ℕ} {answer : Answer}
    (h : blockNext n_block sem (.waitFree busy block_id answer) = some sem') : sem' = sem := by
  cases busy with
  | true =>
    obtain ⟨r, hr, rfl⟩ := Option.map_eq_some_iff.mp h
    exact (busywaitFree_spec hr).1
  | false =>
    obtain ⟨r, hr, rfl⟩ := Option.map_eq_some_iff.mp h
    exact (waitFree_spec hr).1

theorem waitFilled_next {busy : Bool} {block_id : ℕ} {answer : Answer}
    (h : blockNext n_block sem (.waitFilled busy block_id answer) = some sem') : sem' = sem := by
  cases busy with
  | true =>
    obtain ⟨r, hr, rfl⟩ := Option.map_eq_some_iff.mp h
    exact (busywaitFilled_spec hr).1
  | false =>
    obtain ⟨r, hr, rfl⟩ := Option.map_eq_some_iff.mp h
    exact (waitFilled_spec hr).1

theorem setVal_binary (hi : ∀ i, sem i = 0 ∨ sem i = 1) {b v : ℕ} (hv : v = 0 ∨ v = 1) :
    ∀ i, setVal sem b v i = 0 ∨ setVal sem b v i = 1 := by
  intro i
  by_cases hb : i = b
  · subst hb
    rw [setVal_same]
    exact hv
  · rw [setVal_of_ne hb]
    exact hi i

/-- **One call leaves every semaphore at 0 or 1.** -/
theorem binary_next (hi : ∀ i, sem i = 0 ∨ sem i = 1) {a : BlockAction}
    (h : blockNext n_block sem a = some sem') : ∀ i, sem' i = 0 ∨ sem' i = 1 := by
  cases a with
  | setFilled block_id =>
    simp only [blockNext] at h
    split at h <;> obtain rfl := Option.some.inj h
    · exact setVal_binary hi (.inr rfl)
    · exact hi
  | setFree block_id =>
    simp only [blockNext] at h
    split at h <;> obtain rfl := Option.some.inj h
    · exact setVal_binary hi (.inl rfl)
    · exact hi
  | clear =>
    obtain rfl := Option.some.inj h
    intro i
    simp only [hashpipeDatabufClear, setAll]
    split
    · exact .inl rfl
    · exact hi i
  | waitFree busy block_id answer =>
    rw [waitFree_next h]
    exact hi
  | waitFilled busy block_id answer =>
    rw [waitFilled_next h]
    exact hi

theorem binary_of_reachable (h : Reachable (blockSystem n_block) sem) :
    ∀ i, sem i = 0 ∨ sem i = 1 := by
  refine h.invariant (I := fun sem => ∀ i, sem i = 0 ∨ sem i = 1) ?_ ?_
  · intro sem hsem i
    rw [hsem]
    exact .inl rfl
  · intro sem a sem' hi hnext
    exact binary_next hi hnext

/-- Over values of 0 and 1 the sum counts the ones. -/
theorem totalStatus_eq (hi : ∀ i, sem i = 0 ∨ sem i = 1) :
    hashpipeDatabufTotalStatus n_block sem = filledCount n_block sem := by
  have hcount : ∀ k ≤ n_block, ((List.range k).map sem).foldl (fun tot value => tot + value) 0 =
      (List.range k).countP fun i : ℕ => hashpipeDatabufBlockStatus n_block sem i = 1 := by
    intro k
    induction k with
    | zero => intro _; rfl
    | succ k ih =>
      intro hk
      have hstatus : hashpipeDatabufBlockStatus n_block sem k = sem k := blockStatus_eq hk
      rw [List.range_succ, List.map_append, List.foldl_append, ih (by omega), List.countP_append]
      simp only [List.map_cons, List.map_nil, List.foldl_cons, List.foldl_nil,
        List.countP_singleton, hstatus]
      rcases hi k with hk0 | hk1
      · simp [hk0]
      · simp [hk1]
  exact hcount n_block le_rfl

/-! ### The loop of the mask -/

theorem shiftedOne_low {i : ℕ} (h : i < 31) :
    ∃ bit, shiftedOne i = some bit ∧ ∀ j, bit.getLsbD j = true ↔ j = i := by
  refine ⟨_, if_pos (by omega), fun j => ?_⟩
  rw [BitVec.getLsbD_signExtend, BitVec.msb_eq_getLsbD_last]
  simp only [BitVec.getLsbD_shiftLeft, BitVec.getLsbD_one]
  split <;> simp <;> omega

theorem maskLoop_succ (array : List ℕ) (n : ℕ) :
    maskLoop array (n + 1) = (maskLoop array n).bind fun tot => maskStep array tot n := by
  simp only [maskLoop, List.range_succ, List.foldlM_append, List.foldlM_cons, List.foldlM_nil]
  cases List.foldlM (maskStep array) 0#64 (List.range n) <;> simp

/-- Where no block from 31 on is filled, the loop sets the bits of the filled blocks. -/
theorem maskLoop_bits (array : List ℕ) (n : ℕ)
    (hlow : ∀ i, 31 ≤ i → i < n → array.getD i 0 = 0) :
    ∃ tot, maskLoop array n = some tot ∧
      ∀ j, tot.getLsbD j = true ↔ j < n ∧ array.getD j 0 ≠ 0 := by
  induction n with
  | zero => exact ⟨0#64, rfl, by simp⟩
  | succ n ih =>
    obtain ⟨tot, htot, hbits⟩ := ih fun i hi hin => hlow i hi (by omega)
    rw [maskLoop_succ, htot, Option.bind_some, maskStep]
    by_cases hfilled : array.getD n 0 ≠ 0
    · have hn : n < 31 := by
        by_contra hn
        exact hfilled (hlow n (by omega) (by omega))
      obtain ⟨bit, hbit, hone⟩ := shiftedOne_low hn
      refine ⟨tot ||| bit, by rw [if_pos hfilled, hbit]; rfl, fun j => ?_⟩
      rw [BitVec.getLsbD_or, Bool.or_eq_true, hbits, hone]
      constructor
      · rintro (⟨hj, hne⟩ | rfl)
        · exact ⟨by omega, hne⟩
        · exact ⟨by omega, hfilled⟩
      · rintro ⟨hj, hne⟩
        rcases Nat.lt_succ_iff_lt_or_eq.mp hj with hlt | rfl
        · exact .inl ⟨hlt, hne⟩
        · exact .inr rfl
    · refine ⟨tot, if_neg hfilled, fun j => ?_⟩
      rw [hbits]
      constructor
      · rintro ⟨hj, hne⟩
        exact ⟨by omega, hne⟩
      · rintro ⟨hj, hne⟩
        rcases Nat.lt_succ_iff_lt_or_eq.mp hj with hlt | rfl
        · exact ⟨hlt, hne⟩
        · exact absurd hne hfilled

/-- The bits that a filled block contributes stay in the mask. -/
theorem maskLoop_contains {array : List ℕ} {n : ℕ} : ∀ {tot : BitVec 64} {i : ℕ},
    maskLoop array n = some tot → i < n → array.getD i 0 ≠ 0 →
    ∃ bit, shiftedOne i = some bit ∧ ∀ j, bit.getLsbD j = true → tot.getLsbD j = true := by
  induction n with
  | zero => intro tot i _ hi; exact absurd hi (Nat.not_lt_zero i)
  | succ n ih =>
    intro tot i h hi hne
    rw [maskLoop_succ] at h
    obtain ⟨mid, hmid, hstep⟩ := Option.bind_eq_some_iff.mp h
    have hgrow : ∀ j, mid.getLsbD j = true → tot.getLsbD j = true := by
      intro j hj
      rw [maskStep] at hstep
      split at hstep
      · obtain ⟨bit, -, rfl⟩ := Option.map_eq_some_iff.mp hstep
        rw [BitVec.getLsbD_or, hj, Bool.true_or]
      · obtain rfl := Option.some.inj hstep
        exact hj
    rcases Nat.lt_succ_iff_lt_or_eq.mp hi with hlt | rfl
    · obtain ⟨bit, hbit, hin⟩ := ih hmid hlt hne
      exact ⟨bit, hbit, fun j hj => hgrow j (hin j hj)⟩
    · rw [maskStep, if_pos hne] at hstep
      obtain ⟨bit, hbit, rfl⟩ := Option.map_eq_some_iff.mp hstep
      refine ⟨bit, hbit, fun j hj => ?_⟩
      rw [BitVec.getLsbD_or, hj, Bool.or_true]

/-- **When the mask is right**: as long as no block from 31 on is filled. -/
theorem maskAgrees_iff (hi : ∀ i, sem i = 0 ∨ sem i = 1) :
    MaskAgrees n_block sem ↔ ∀ i, 31 ≤ i → i < 64 → i < n_block → sem i = 0 := by
  have hn : (if 64 < n_block then 64 else n_block) = min n_block 64 := by
    split <;> omega
  have harray : ∀ i < n_block, (getAll sem n_block).getD i 0 = sem i := fun i => getAll_getD sem
  have hfilled : ∀ i < n_block,
      (hashpipeDatabufBlockStatus n_block sem i = 1 ↔ (getAll sem n_block).getD i 0 ≠ 0) := by
    intro i hlt
    rw [blockStatus_eq hlt, harray i hlt]
    rcases hi i with h0 | h1 <;> simp [*]
  constructor
  · intro h i h31 h64 hlt
    obtain ⟨mask, hmask, hbits⟩ := h
    rw [hashpipeDatabufTotalMask, hn] at hmask
    -- a filled block that got its bit in is below 32
    have hsmall : ∀ k, k < n_block → k < 64 → (getAll sem n_block).getD k 0 ≠ 0 →
        k < 32 := by
      intro k hk hk64 hne
      obtain ⟨bit, hbit, -⟩ := maskLoop_contains hmask (by omega) hne
      by_contra hbig
      rw [shiftedOne, if_neg hbig] at hbit
      cases hbit
    by_contra hne
    rw [← harray i hlt] at hne
    obtain rfl : i = 31 := by
      have := hsmall i hlt h64 hne
      omega
    -- block 31 sets the bits above it as well
    obtain ⟨bit, hbit, hin⟩ := maskLoop_contains hmask (by omega) hne
    have hsign : bit.getLsbD 32 = true := by
      obtain rfl := Option.some.inj hbit
      decide
    obtain ⟨hlt32, hone⟩ := (hbits 32 (by omega)).mp (hin 32 hsign)
    exact absurd (hsmall 32 hlt32 (by omega) ((hfilled 32 hlt32).mp hone)) (by omega)
  · intro hlow
    obtain ⟨mask, hmask, hbits⟩ := maskLoop_bits (getAll sem n_block) (min n_block 64)
      fun i h31 hlt => by rw [harray i (by omega)]; exact hlow i h31 (by omega) (by omega)
    refine ⟨mask, by rw [hashpipeDatabufTotalMask, hn]; exact hmask, fun i h64 => ?_⟩
    rw [hbits]
    constructor
    · rintro ⟨hlt, hne⟩
      exact ⟨by omega, (hfilled i (by omega)).mpr hne⟩
    · rintro ⟨hlt, hone⟩
      exact ⟨by omega, (hfilled i hlt).mp hone⟩

/-- A mask that is right counts what `total_status` counts, when it has room for all. -/
theorem popCount_eq (hn : n_block ≤ 64) {mask : BitVec 64}
    (hbits : ∀ i < 64,
      (mask.getLsbD i = true ↔ i < n_block ∧ hashpipeDatabufBlockStatus n_block sem i = 1)) :
    popCount mask = filledCount n_block sem := by
  obtain ⟨m, hm⟩ := Nat.exists_eq_add_of_le hn
  have hrange : List.range 64 = List.range n_block ++ (List.range m).map (n_block + ·) := by
    rw [hm, List.range_add]
  have hin : (List.range n_block).countP (fun i => mask.getLsbD i) = filledCount n_block sem := by
    apply List.countP_congr
    intro i hi
    have hlt : i < n_block := List.mem_range.mp hi
    rw [hbits i (by omega), decide_eq_true_eq]
    exact and_iff_right hlt
  have hout : ((List.range m).map (n_block + ·)).countP (fun i => mask.getLsbD i) = 0 := by
    rw [List.countP_eq_zero]
    intro i hi
    obtain ⟨k, hk, rfl⟩ := List.mem_map.mp hi
    have hkm := List.mem_range.mp hk
    rw [hbits _ (by omega)]
    omega
  rw [popCount, hrange, List.countP_append, hin, hout, Nat.add_zero]

/-- **The status of all blocks agrees with the blocks.**  In every reachable state each
block is at 0 or 1 and the total counts the filled ones; the mask shows exactly these if and
only if none of the blocks 31 to 63 is filled, and then has as many bits set. -/
theorem block_status_agrees (h : Reachable (blockSystem n_block) sem) :
    (∀ i < n_block, hashpipeDatabufBlockStatus n_block sem i = 0 ∨
      hashpipeDatabufBlockStatus n_block sem i = 1) ∧
    hashpipeDatabufTotalStatus n_block sem = filledCount n_block sem ∧
    (MaskAgrees n_block sem ↔ ∀ i, 31 ≤ i → i < 64 → i < n_block →
      hashpipeDatabufBlockStatus n_block sem i = 0) ∧
    (n_block ≤ 64 → MaskAgrees n_block sem →
      ∃ mask, hashpipeDatabufTotalMask n_block sem = some mask ∧
        popCount mask = hashpipeDatabufTotalStatus n_block sem) := by
  have hi := binary_of_reachable h
  refine ⟨?_, totalStatus_eq hi, ?_, ?_⟩
  · intro i hlt
    rw [blockStatus_eq hlt]
    rcases hi i with h0 | h1
    · exact .inl (by rw [h0]; rfl)
    · exact .inr (by rw [h1]; rfl)
  · rw [maskAgrees_iff hi]
    have hzero : ∀ i < n_block, (hashpipeDatabufBlockStatus n_block sem i = 0 ↔ sem i = 0) := by
      intro i hlt
      rw [blockStatus_eq hlt, Int.natCast_eq_zero]
    constructor
    · intro hlow i h31 h64 hlt
      exact (hzero i hlt).mpr (hlow i h31 h64 hlt)
    · intro hlow i h31 h64 hlt
      exact (hzero i hlt).mp (hlow i h31 h64 hlt)
  · intro hn hagrees
    obtain ⟨mask, hmask, hbits⟩ := hagrees
    exact ⟨mask, hmask, by rw [popCount_eq hn hbits, totalStatus_eq hi]⟩

end Blocks

/-- A databuf of 24 blocks, two of them filled while a third process waits. -/
def blockRun : List BlockAction :=
  [.setFilled 3, .waitFilled false 3 .proceed, .setFilled 5, .setFilled 24, .clear,
   .setFilled 0, .setFilled 23, .waitFree true 23 (.fail .EAGAIN)]

def blockEnd : SemSet := (run (blockSystem 24) (fun _ => 0) blockRun).getD fun _ => 0

theorem block_status_agrees_blockRun :
    hashpipeDatabufTotalMask 24 blockEnd = some 0x800001#64 ∧ MaskAgrees 24 blockEnd := by
  have hinit : Reachable (blockSystem 24) (fun _ => 0) := .init rfl
  refine ⟨by decide, (block_status_agrees (hinit.run_getD blockRun)).2.2.1.mpr ?_⟩
  intro i h31 _ hlt
  omega

/-- A databuf of 32 blocks of which only block 31 is filled: 33 bits are set. -/
def lastBlockEnd : SemSet :=
  (run (blockSystem 32) (fun _ => 0) [.setFilled 31]).getD fun _ => 0

theorem total_mask_sign_extends :
    Reachable (blockSystem 32) lastBlockEnd ∧
      hashpipeDatabufTotalMask 32 lastBlockEnd = some 0xffffffff80000000#64 ∧
      hashpipeDatabufTotalStatus 32 lastBlockEnd = 1 ∧ ¬ MaskAgrees 32 lastBlockEnd := by
  have hinit : Reachable (blockSystem 32) (fun _ => 0) := .init rfl
  have hmask : hashpipeDatabufTotalMask 32 lastBlockEnd = some 0xffffffff80000000#64 := by decide
  refine ⟨hinit.run_getD _, hmask, by decide, ?_⟩
  rintro ⟨mask, heq, hbits⟩
  obtain rfl := Option.some.inj (hmask.symm.trans heq)
  exact absurd ((hbits 32 (by decide)).mp (by decide)).1 (by decide)

end Hashpipe.Databuf
