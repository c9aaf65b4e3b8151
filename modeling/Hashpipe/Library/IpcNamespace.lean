import Mathlib.Logic.Function.Basic
import Mathlib.Data.List.Basic
import Hashpipe.Library.SysVIpc

/-!
# All the System V objects of a system

What is at each place of a system.  `IPC_RMID` names an object by its identifier and not by
its place, so what one call removes depends on the whole system: with identifiers that are
unique in it, that is the object at one place (`rmShm_eq`, `rmSem_eq`).
-/

namespace SysVIpc

/-- What is at each place. -/
abbrev IpcNamespace (κ η : Type) : Type := κ → Ipc η

def Ipc.empty {η : Type} : Ipc η := ⟨none, none⟩

def Ipc.dropShm {η : Type} (k : Ipc η) : Ipc η := { k with shm := none }

def Ipc.dropSem {η : Type} (k : Ipc η) : Ipc η := { k with sem := none }

def Ipc.hasShm {η : Type} (k : Ipc η) (shmid : ℤ) : Bool :=
  k.shm.any fun seg => (seg.shmid : ℤ) == shmid

def Ipc.hasSem {η : Type} (k : Ipc η) (semid : ℤ) : Bool :=
  k.sem.any fun r => (r.semid : ℤ) == semid

/-- `shmctl(IPC_RMID)`, once no process has the segment attached. -/
def rmShm {κ η : Type} (n : IpcNamespace κ η) (shmid : ℤ) : IpcNamespace κ η := fun p =>
  if (n p).hasShm shmid then (n p).dropShm else n p

/-- `semctl(IPC_RMID)`. -/
def rmSem {κ η : Type} (n : IpcNamespace κ η) (semid : ℤ) : IpcNamespace κ η := fun p =>
  if (n p).hasSem semid then (n p).dropSem else n p

/-- No identifier is given out twice. -/
structure DistinctIds {κ η : Type} (n : IpcNamespace κ η) : Prop where
  shm : ∀ p q s t, (n p).shm = some s → (n q).shm = some t → s.shmid = t.shmid → p = q
  sem : ∀ p q r t, (n p).sem = some r → (n q).sem = some t → r.semid = t.semid → p = q

theorem Ipc.hasShm_iff {η : Type} (k : Ipc η) (shmid : ℤ) :
    k.hasShm shmid = true ↔ ∃ seg, k.shm = some seg ∧ (seg.shmid : ℤ) = shmid := by
  simp [Ipc.hasShm, Option.any_eq_true]

theorem Ipc.hasSem_iff {η : Type} (k : Ipc η) (semid : ℤ) :
    k.hasSem semid = true ↔ ∃ r, k.sem = some r ∧ (r.semid : ℤ) = semid := by
  simp [Ipc.hasSem, Option.any_eq_true]

section Removal

variable {κ η : Type} [DecidableEq κ] {n : IpcNamespace κ η} {p : κ}

/-- A change of all entries that pass a test is one of a single entry if no other passes it. -/
theorem ite_eq_update {β : Type} (f : κ → β) (test : β → Bool) (g : β → β)
    (hp : test (f p) = true) (hother : ∀ q, test (f q) = true → q = p) :
    (fun q => if test (f q) then g (f q) else f q) = Function.update f p (g (f p)) := by
  funext q
  by_cases hq : q = p
  · rw [hq, Function.update_self, if_pos hp]
  · rw [Function.update_of_ne hq]
    apply if_neg
    intro htest
    exact hq (hother q htest)

theorem rmShm_eq (hn : DistinctIds n) {seg : Segment η} (h : (n p).shm = some seg) :
    rmShm n seg.shmid = Function.update n p (n p).dropShm := by
  apply ite_eq_update n (fun k => k.hasShm seg.shmid) Ipc.dropShm
  · exact ((n p).hasShm_iff _).mpr ⟨seg, h, rfl⟩
  · intro q hhas
    obtain ⟨t, ht, hid⟩ := ((n q).hasShm_iff _).mp hhas
    exact hn.shm q p t seg ht h (Nat.cast_injective hid)

theorem rmSem_eq (hn : DistinctIds n) {r : SemRecord} (h : (n p).sem = some r) :
    rmSem n r.semid = Function.update n p (n p).dropSem := by
  apply ite_eq_update n (fun k => k.hasSem r.semid) Ipc.dropSem
  · exact ((n p).hasSem_iff _).mpr ⟨r, h, rfl⟩
  · intro q hhas
    obtain ⟨t, ht, hid⟩ := ((n q).hasSem_iff _).mp hhas
    exact hn.sem q p t r ht h (Nat.cast_injective hid)

/-- What an entry that only lost objects has was there before. -/
theorem update_had {α : Type} {k : Ipc η} {read : Ipc η → Option α}
    (hread : ∀ x, read k = some x → read (n p) = some x) {q : κ} {x : α}
    (h : read (Function.update n p k q) = some x) : read (n q) = some x := by
  by_cases hq : q = p
  · subst hq
    rw [Function.update_self] at h
    exact hread x h
  · rwa [Function.update_of_ne hq] at h

/-- Identifiers stay distinct while objects are only removed. -/
theorem DistinctIds.removed (hn : DistinctIds n) {k : Ipc η}
    (hshm : ∀ s, k.shm = some s → (n p).shm = some s)
    (hsem : ∀ r, k.sem = some r → (n p).sem = some r) :
    DistinctIds (Function.update n p k) := by
  constructor
  · intro q q' s t hs ht
    exact hn.shm q q' s t (update_had hshm hs) (update_had hshm ht)
  · intro q q' r t hr ht
    exact hn.sem q q' r t (update_had hsem hr) (update_had hsem ht)

end Removal

/-- A loop that visits places, no place twice, and works on the one it visits. -/
theorem foldl_update_apply {κ β : Type} [DecidableEq κ] (f : β → β) {places : List κ} :
    ∀ {n : κ → β}, places.Nodup → ∀ q,
      places.foldl (fun n p => Function.update n p (f (n p))) n q =
        if q ∈ places then f (n q) else n q := by
  induction places with
  | nil => exact fun _ q => rfl
  | cons p places ih =>
    intro n hnodup q
    have hp : p ∉ places := (List.nodup_cons.mp hnodup).1
    rw [List.foldl_cons, ih (List.nodup_cons.mp hnodup).2 q]
    by_cases hq : q = p
    · subst hq
      rw [if_neg hp, Function.update_self, if_pos (List.mem_cons_self ..)]
    · rw [Function.update_of_ne hq]
      simp [hq]

end SysVIpc
