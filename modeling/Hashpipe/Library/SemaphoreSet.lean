import Mathlib.Tactic

/-!
# Sets of counting semaphores

The operations of `semop(2)`, `semtimedop(2)` and `semctl(2)` on one semaphore set.
An array of operations is applied in order on the values as they then are, and
either all of it takes effect or none: `semop` is `none` while the array cannot be
applied, which is when the call sleeps.  What the caller gets back is chosen by the
environment (`Answer`): the array goes through, or the call fails and changes nothing.
-/

namespace SemaphoreSet

/-- The values of the semaphores of one set. -/
abbrev SemSet := ℕ → ℕ

/-- One element of the array handed to `semop`. -/
structure SemBuf where
  sem_num : ℕ
  sem_op : ℤ

/-- The values of `errno` the callers tell apart. -/
inductive Errno
  | EAGAIN
  | EINTR
  | other
  deriving DecidableEq, Repr

/-- How the kernel answers one call. -/
inductive Answer
  | proceed
  | fail (errno : Errno)
  deriving DecidableEq, Repr

/-- One operation: wait for zero, or add without going below zero. -/
def applyOp (sem : SemSet) (op : SemBuf) : Option SemSet :=
  if op.sem_op = 0 then
    if sem op.sem_num = 0 then some sem else none
  else if 0 ≤ (sem op.sem_num : ℤ) + op.sem_op then
    some (Function.update sem op.sem_num ((sem op.sem_num : ℤ) + op.sem_op).toNat)
  else none

/-- A whole array of operations, applied atomically. -/
def semop (sem : SemSet) (ops : List SemBuf) : Option SemSet := ops.foldlM applyOp sem

/-- A call that may sleep: `none` while the kernel cannot let it proceed, else the
values afterwards and the error, if it failed. -/
def semtimedop (sem : SemSet) (ops : List SemBuf) : Answer → Option (SemSet × Option Errno)
  | .proceed => (semop sem ops).map fun sem' => (sem', none)
  | .fail errno => some (sem, some errno)

/-- `semctl(.., SETVAL, ..)`. -/
def setVal (sem : SemSet) (i v : ℕ) : SemSet := Function.update sem i v

/-- `semctl(.., SETALL, ..)` on a set of `n` semaphores. -/
def setAll (sem : SemSet) (n : ℕ) (v : ℕ → ℕ) : SemSet := fun i => if i < n then v i else sem i

/-- `semctl(.., GETALL, ..)` on a set of `n` semaphores. -/
def getAll (sem : SemSet) (n : ℕ) : List ℕ := (List.range n).map sem

theorem getAll_getD {n i : ℕ} (sem : SemSet) (h : i < n) : (getAll sem n).getD i 0 = sem i := by
  simp [getAll, List.getD_eq_getElem?_getD, h]

@[simp] theorem setVal_same (sem : SemSet) (i v : ℕ) : setVal sem i v i = v := by
  simp [setVal]

@[simp] theorem setVal_of_ne {sem : SemSet} {i j v : ℕ} (h : j ≠ i) :
    setVal sem i v j = sem j := by
  simp [setVal, h]

theorem applyOp_zero (sem : SemSet) (i : ℕ) :
    applyOp sem ⟨i, 0⟩ = if sem i = 0 then some sem else none := by
  simp [applyOp]

theorem applyOp_take (sem : SemSet) (i : ℕ) :
    applyOp sem ⟨i, -1⟩ =
      if 0 < sem i then some (Function.update sem i (sem i - 1)) else none := by
  have hcast : ((sem i : ℤ) + -1).toNat = sem i - 1 := by omega
  have hiff : (0 : ℤ) ≤ (sem i : ℤ) + -1 ↔ 0 < sem i := by omega
  simp only [applyOp, hcast, hiff]
  rw [if_neg (by decide)]

theorem applyOp_give (sem : SemSet) (i : ℕ) :
    applyOp sem ⟨i, 1⟩ = some (Function.update sem i (sem i + 1)) := by
  have hcast : ((sem i : ℤ) + 1).toNat = sem i + 1 := by omega
  have hpos : (0 : ℤ) ≤ (sem i : ℤ) + 1 := by omega
  simp only [applyOp, hcast, if_pos hpos]
  rw [if_neg (by decide)]

/-- Waiting for zero changes nothing and goes through at zero only. -/
theorem semop_waitZero {sem sem' : SemSet} {i : ℕ} :
    semop sem [⟨i, 0⟩] = some sem' ↔ sem i = 0 ∧ sem' = sem := by
  by_cases h : sem i = 0 <;> simp [semop, applyOp_zero, h, eq_comm]

/-- Taking one and giving it back in the same array changes nothing and goes through
at a positive value only. -/
theorem semop_takeRestore {sem sem' : SemSet} {i : ℕ} :
    semop sem [⟨i, -1⟩, ⟨i, 1⟩] = some sem' ↔ 0 < sem i ∧ sem' = sem := by
  by_cases h : 0 < sem i
  · have hrestore : Function.update sem i (sem i - 1 + 1) = sem := by
      rw [Nat.sub_add_cancel h, Function.update_eq_self]
    have hrun : semop sem [⟨i, -1⟩, ⟨i, 1⟩] = some sem := by
      simp [semop, applyOp_take, applyOp_give, h, hrestore]
    rw [hrun, Option.some.injEq]
    exact ⟨fun heq => ⟨h, heq.symm⟩, fun heq => heq.2.symm⟩
  · simp [semop, applyOp_take, h]

end SemaphoreSet
