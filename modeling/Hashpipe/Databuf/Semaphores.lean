import Hashpipe.Error
import Hashpipe.Library.SemaphoreSet

/-!
# The block semaphores of a databuf

`hashpipe_databuf.c`: each block has one semaphore, 0 when the block is free and 1
when it is filled.  The wait functions hand `semtimedop` an array that changes
nothing, so that they only observe; the set functions use `SETVAL`.  A wait is
`none` while it sleeps; its answer comes from the kernel, whose clock and signals
the model leaves open, so `EAGAIN` (the timeout) and `EINTR` may come at any time.
-/

namespace Hashpipe.Databuf

open SemaphoreSet

/-- The return value of the timed waits, from `errno`. -/
def waitReturn : Option Errno → ℤ
  | none => hashpipeOk
  | some .EAGAIN => hashpipeTimeout
  | some .EINTR => hashpipeErrSys
  | some .other => hashpipeErrSys

/-- The body the two timed waits share: one `semtimedop` call. -/
def waitTimeout (ops : List SemBuf) (sem : SemSet) (answer : Answer) : Option (SemSet × ℤ) :=
  (semtimedop sem ops answer).map fun r => (r.1, waitReturn r.2)

/-- The body the two busy waits share, one pass of `do .. while(rv == -1 && errno ==
EAGAIN)`: no return value means that the loop goes round again. -/
def busywait (ops : List SemBuf) (sem : SemSet) (answer : Answer) :
    Option (SemSet × Option ℤ) :=
  (semtimedop sem ops answer).map fun r =>
    (r.1, if r.2 = some .EAGAIN then none else some (waitReturn r.2))

/-- Wait for the value to be 0. -/
def freeOps (block_id : ℕ) : List SemBuf := [⟨block_id, 0⟩]

/-- Wait for the value to be 1 and take it, then give it back. -/
def filledOps (block_id : ℕ) : List SemBuf := [⟨block_id, -1⟩, ⟨block_id, 1⟩]

def hashpipeDatabufWaitFreeTimeout (sem : SemSet) (block_id : ℕ) (answer : Answer) :
    Option (SemSet × ℤ) := waitTimeout (freeOps block_id) sem answer

/-- Calls the former with a 0.25 second timeout. -/
def hashpipeDatabufWaitFree (sem : SemSet) (block_id : ℕ) (answer : Answer) :
    Option (SemSet × ℤ) := hashpipeDatabufWaitFreeTimeout sem block_id answer

def hashpipeDatabufBusywaitFree (sem : SemSet) (block_id : ℕ) (answer : Answer) :
    Option (SemSet × Option ℤ) := busywait (freeOps block_id) sem answer

def hashpipeDatabufWaitFilledTimeout (sem : SemSet) (block_id : ℕ) (answer : Answer) :
    Option (SemSet × ℤ) := waitTimeout (filledOps block_id) sem answer

/-- Calls the former with a 0.25 second timeout. -/
def hashpipeDatabufWaitFilled (sem : SemSet) (block_id : ℕ) (answer : Answer) :
    Option (SemSet × ℤ) := hashpipeDatabufWaitFilledTimeout sem block_id answer

def hashpipeDatabufBusywaitFilled (sem : SemSet) (block_id : ℕ) (answer : Answer) :
    Option (SemSet × Option ℤ) := busywait (filledOps block_id) sem answer

/-- `semctl(SETVAL)` with 0; "this function should always succeed regardless of the
current state", and here it does. -/
def hashpipeDatabufSetFree (sem : SemSet) (block_id : ℕ) : SemSet × ℤ :=
  (setVal sem block_id 0, hashpipeOk)

def hashpipeDatabufSetFilled (sem : SemSet) (block_id : ℕ) : SemSet × ℤ :=
  (setVal sem block_id 1, hashpipeOk)

/-! ### What a wait tells its caller -/

theorem waitReturn_eq_ok {e : Option Errno} : waitReturn e = hashpipeOk ↔ e = none := by
  rcases e with _ | _ | _ | _ <;> decide

/-- A wait over operations that change nothing leaves the values alone, and returns
`HASHPIPE_OK` only when the operations could be applied. -/
theorem semtimedop_observe {ops : List SemBuf} {P : Prop} {sem sem' : SemSet} {answer : Answer}
    {e : Option Errno} (hops : ∀ sem', semop sem ops = some sem' ↔ P ∧ sem' = sem)
    (h : semtimedop sem ops answer = some (sem', e)) : sem' = sem ∧ (e = none → P) := by
  cases answer with
  | proceed =>
    simp only [semtimedop, Option.map_eq_some_iff, Prod.mk.injEq] at h
    obtain ⟨m, hm, rfl, -⟩ := h
    obtain ⟨hP, rfl⟩ := (hops m).mp hm
    exact ⟨rfl, fun _ => hP⟩
  | fail errno =>
    simp only [semtimedop, Option.some.injEq, Prod.mk.injEq] at h
    obtain ⟨rfl, rfl⟩ := h
    exact ⟨rfl, by simp⟩

theorem waitTimeout_observe {ops : List SemBuf} {P : Prop} {sem sem' : SemSet}
    {answer : Answer} {rv : ℤ} (hops : ∀ sem', semop sem ops = some sem' ↔ P ∧ sem' = sem)
    (h : waitTimeout ops sem answer = some (sem', rv)) :
    sem' = sem ∧ (rv = hashpipeOk → P) := by
  simp only [waitTimeout, Option.map_eq_some_iff, Prod.mk.injEq] at h
  obtain ⟨⟨m, e⟩, hcall, rfl, rfl⟩ := h
  obtain ⟨hm, hP⟩ := semtimedop_observe hops hcall
  exact ⟨hm, fun hrv => hP (waitReturn_eq_ok.mp hrv)⟩

theorem busywait_observe {ops : List SemBuf} {P : Prop} {sem sem' : SemSet}
    {answer : Answer} {rv : Option ℤ} (hops : ∀ sem', semop sem ops = some sem' ↔ P ∧ sem' = sem)
    (h : busywait ops sem answer = some (sem', rv)) :
    sem' = sem ∧ (rv = some hashpipeOk → P) := by
  simp only [busywait, Option.map_eq_some_iff, Prod.mk.injEq] at h
  obtain ⟨⟨m, e⟩, hcall, rfl, rfl⟩ := h
  obtain ⟨hm, hP⟩ := semtimedop_observe hops hcall
  refine ⟨hm, fun hrv => ?_⟩
  split at hrv
  · simp at hrv
  · exact hP (waitReturn_eq_ok.mp (Option.some.inj hrv))

/-- **Waiting for a free block** changes no semaphore, and `HASHPIPE_OK` means 0. -/
theorem waitFree_spec {sem sem' : SemSet} {b : ℕ} {answer : Answer} {rv : ℤ}
    (h : hashpipeDatabufWaitFree sem b answer = some (sem', rv)) :
    sem' = sem ∧ (rv = hashpipeOk → sem b = 0) :=
  waitTimeout_observe (fun _ => semop_waitZero) h

theorem busywaitFree_spec {sem sem' : SemSet} {b : ℕ} {answer : Answer} {rv : Option ℤ}
    (h : hashpipeDatabufBusywaitFree sem b answer = some (sem', rv)) :
    sem' = sem ∧ (rv = some hashpipeOk → sem b = 0) :=
  busywait_observe (fun _ => semop_waitZero) h

/-- **Waiting for a filled block** gives back what it takes, and `HASHPIPE_OK` means a
positive value. -/
theorem waitFilled_spec {sem sem' : SemSet} {b : ℕ} {answer : Answer} {rv : ℤ}
    (h : hashpipeDatabufWaitFilled sem b answer = some (sem', rv)) :
    sem' = sem ∧ (rv = hashpipeOk → 0 < sem b) :=
  waitTimeout_observe (fun _ => semop_takeRestore) h

theorem busywaitFilled_spec {sem sem' : SemSet} {b : ℕ} {answer : Answer} {rv : Option ℤ}
    (h : hashpipeDatabufBusywaitFilled sem b answer = some (sem', rv)) :
    sem' = sem ∧ (rv = some hashpipeOk → 0 < sem b) :=
  busywait_observe (fun _ => semop_takeRestore) h

end Hashpipe.Databuf
