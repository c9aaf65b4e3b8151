import Hashpipe.Library.SemaphoreSet

/-!
# One key of System V shared memory and semaphores

What `shmget(2)`, `semget(2)` and `semctl(2)` do for one fixed key, at which there is at
most one segment and at most one semaphore set.  `η` is what a program keeps in the
segment.  The environment answers each call (`IpcAnswer`): it may fail for a reason of its
own, or go by the rules below; where a call makes an object, the answer also names the
object's identifier.
-/

namespace SysVIpc

open SemaphoreSet

inductive IpcErrno
  | EEXIST
  | ENOMEM
  | ENOENT
  | EINVAL
  | other
  deriving DecidableEq, Repr

inductive IpcAnswer
  | ok (id : ℕ)
  | fail (errno : IpcErrno)
  deriving DecidableEq, Repr

def IpcAnswer.isOk : IpcAnswer → Bool
  | .ok _ => true
  | .fail _ => false

structure Segment (η : Type) where
  shmid : ℕ
  size : ℕ
  content : η

structure SemRecord where
  semid : ℕ
  nsems : ℕ
  sem : SemSet

/-- The objects at the key. -/
structure Ipc (η : Type) where
  shm : Option (Segment η)
  sem : Option SemRecord

variable {η : Type}

/-- `shmget` with `IPC_CREAT | IPC_EXCL`; a new segment is filled with zeros. -/
def shmgetCreate (zeros : η) (k : Ipc η) (size : ℕ) : IpcAnswer → Except IpcErrno ℕ × Ipc η
  | .fail errno => (.error errno, k)
  | .ok id =>
    match k.shm with
    | some _ => (.error .EEXIST, k)
    | none =>
      if size = 0 then (.error .EINVAL, k)
      else (.ok id, { k with shm := some ⟨id, size, zeros⟩ })

/-- `shmget` without `IPC_CREAT`. -/
def shmgetOpen (k : Ipc η) (size : ℕ) : IpcAnswer → Except IpcErrno ℕ
  | .fail errno => .error errno
  | .ok _ =>
    match k.shm with
    | none => .error .ENOENT
    | some seg => if seg.size < size then .error .EINVAL else .ok seg.shmid

/-- `semget` with `IPC_CREAT`; a new set is at zero. -/
def semgetCreate (k : Ipc η) (nsems : ℤ) : IpcAnswer → Except IpcErrno ℕ × Ipc η
  | .fail errno => (.error errno, k)
  | .ok id =>
    if nsems < 0 then (.error .EINVAL, k)
    else
      match k.sem with
      | some r => if (r.nsems : ℤ) < nsems then (.error .EINVAL, k) else (.ok r.semid, k)
      | none =>
        if nsems = 0 then (.error .EINVAL, k)
        else (.ok id, { k with sem := some ⟨id, nsems.toNat, fun _ => 0⟩ })

/-- `semctl(SETALL)` on the set with identifier `semid`: whether it succeeds. -/
def semctlSetAll (k : Ipc η) (semid : ℤ) (v : ℕ → ℕ) : IpcAnswer → Bool × Ipc η
  | .fail _ => (false, k)
  | .ok _ =>
    match k.sem with
    | some r =>
      if r.semid = semid then
        (true, { k with sem := some { r with sem := setAll r.sem r.nsems v } })
      else (false, k)
    | none => (false, k)

/-- A store into the mapped segment. -/
def Ipc.write (k : Ipc η) (f : η → η) : Ipc η :=
  { k with shm := k.shm.map fun seg => { seg with content := f seg.content } }

@[simp] theorem Ipc.write_sem (k : Ipc η) (f : η → η) : (k.write f).sem = k.sem := rfl

@[simp] theorem Ipc.write_shm {k : Ipc η} {seg : Segment η} (h : k.shm = some seg) (f : η → η) :
    (k.write f).shm = some { seg with content := f seg.content } := by
  rw [Ipc.write, h]
  rfl

/-- A segment is made only where there is none, and of a positive size. -/
theorem shmgetCreate_spec {zeros : η} {k k' : Ipc η} {size : ℕ} {ans : IpcAnswer}
    {r : Except IpcErrno ℕ} (h : shmgetCreate zeros k size ans = (r, k')) :
    (∀ e, r = .error e → k' = k) ∧
      ∀ id, r = .ok id → size ≠ 0 ∧ k.shm = none ∧ k' = { k with shm := some ⟨id, size, zeros⟩ } := by
  cases ans with
  | fail errno =>
    obtain ⟨rfl, rfl⟩ := Prod.mk.inj h
    exact ⟨fun _ _ => rfl, fun _ h => by cases h⟩
  | ok id =>
    simp only [shmgetCreate] at h
    split at h
    · obtain ⟨rfl, rfl⟩ := Prod.mk.inj h
      exact ⟨fun _ _ => rfl, fun _ h => by cases h⟩
    · rename_i hnone
      split at h <;> obtain ⟨rfl, rfl⟩ := Prod.mk.inj h
      · exact ⟨fun _ _ => rfl, fun _ h => by cases h⟩
      · rename_i hsize
        refine ⟨(fun _ h => by cases h), fun id' hid => ⟨hsize, hnone, ?_⟩⟩
        cases hid
        rfl

theorem shmgetOpen_spec {k : Ipc η} {size id : ℕ} {ans : IpcAnswer}
    (h : shmgetOpen k size ans = .ok id) : ∃ seg, k.shm = some seg := by
  cases ans with
  | fail errno => cases h
  | ok id' =>
    cases hshm : k.shm with
    | none => simp [shmgetOpen, hshm] at h
    | some seg => exact ⟨seg, rfl⟩

/-- `semget` leaves the segment alone; when it succeeds the set has the returned identifier
and as many semaphores as were asked for. -/
theorem semgetCreate_spec {k k' : Ipc η} {nsems : ℤ} {ans : IpcAnswer} {r : Except IpcErrno ℕ}
    (h : semgetCreate k nsems ans = (r, k')) :
    k'.shm = k.shm ∧ (∀ e, r = .error e → k' = k) ∧
      ∀ id, r = .ok id → 0 ≤ nsems ∧ (∃ rec, k'.sem = some rec ∧ rec.semid = id) ∧
        ∀ rec, k.sem = some rec → k' = k := by
  cases ans with
  | fail errno =>
    obtain ⟨rfl, rfl⟩ := Prod.mk.inj h
    exact ⟨rfl, fun _ _ => rfl, fun _ h => by cases h⟩
  | ok id =>
    simp only [semgetCreate] at h
    split at h
    · obtain ⟨rfl, rfl⟩ := Prod.mk.inj h
      exact ⟨rfl, fun _ _ => rfl, fun _ h => by cases h⟩
    · rename_i hneg
      split at h
      · rename_i rec hsem
        split at h <;> obtain ⟨rfl, rfl⟩ := Prod.mk.inj h
        · exact ⟨rfl, fun _ _ => rfl, fun _ h => by cases h⟩
        · refine ⟨rfl, fun _ _ => rfl, fun id' hid => ⟨by omega, ⟨rec, hsem, ?_⟩, fun _ _ => rfl⟩⟩
          cases hid
          rfl
      · rename_i hsem
        split at h <;> obtain ⟨rfl, rfl⟩ := Prod.mk.inj h
        · exact ⟨rfl, fun _ _ => rfl, fun _ h => by cases h⟩
        · refine ⟨rfl, (fun _ h => by cases h), fun id' hid => ⟨by omega, ⟨_, rfl, ?_⟩, ?_⟩⟩
          · cases hid
            rfl
          · intro rec hrec
            exact absurd (hsem.symm.trans hrec) (by simp)

/-- `SETALL` leaves the segment alone and every identifier as it is. -/
theorem semctlSetAll_spec {k k' : Ipc η} {semid : ℤ} {v : ℕ → ℕ} {ans : IpcAnswer} {done : Bool}
    (h : semctlSetAll k semid v ans = (done, k')) :
    k'.shm = k.shm ∧ k'.sem.map SemRecord.semid = k.sem.map SemRecord.semid ∧
      (done = false → k' = k) := by
  cases ans with
  | fail errno =>
    obtain ⟨rfl, rfl⟩ := Prod.mk.inj h
    exact ⟨rfl, rfl, fun _ => rfl⟩
  | ok id =>
    simp only [semctlSetAll] at h
    split at h
    · rename_i r hr
      split at h <;> obtain ⟨rfl, rfl⟩ := Prod.mk.inj h
      · exact ⟨rfl, by simp [hr], fun h => by cases h⟩
      · exact ⟨rfl, rfl, fun _ => rfl⟩
    · obtain ⟨rfl, rfl⟩ := Prod.mk.inj h
      exact ⟨rfl, rfl, fun _ => rfl⟩

/-- `SETALL` succeeds only on the set at the key. -/
theorem semctlSetAll_done {k k' : Ipc η} {semid : ℤ} {v : ℕ → ℕ} {ans : IpcAnswer}
    (h : semctlSetAll k semid v ans = (true, k')) : ∃ r, k'.sem = some r ∧ semid = r.semid := by
  cases ans with
  | fail errno => cases h
  | ok id =>
    simp only [semctlSetAll] at h
    split at h
    · split at h
      · rename_i hid
        cases h
        exact ⟨_, rfl, hid.symm⟩
      · cases h
    · cases h

end SysVIpc
