import Hashpipe.Databuf.BlockLayout
import Hashpipe.Library.IpcNamespace

/-!
# The identifiers in the header of a databuf

`hashpipe_databuf_create` keeps the identifiers of the segment and of its semaphore set in the
header, where other programs that attach to the databuf find them.  When the function returns a
databuf, made by this call or found, they are those of the objects at the key
(`hashpipeDatabufCreate_complete`).
-/

namespace Hashpipe.Databuf

open SysVIpc

/-- The header names the segment that it is in. -/
def NamesSegment (k : Ipc Header) : Prop :=
  ∀ seg, k.shm = some seg → (mapped k).shmid = seg.shmid

/-- A databuf whose header names its objects. -/
structure Complete (k : Ipc Header) : Prop where
  segment : ∃ seg, k.shm = some seg ∧ (mapped k).shmid = seg.shmid
  semaphores : ∃ r, k.sem = some r ∧ (mapped k).semid = r.semid

theorem Complete.namesSegment {k : Ipc Header} (h : Complete k) : NamesSegment k := by
  intro seg hseg
  obtain ⟨seg', hseg', hid⟩ := h.segment
  cases hseg.symm.trans hseg'
  exact hid

theorem namesSegment_empty : NamesSegment Ipc.empty := fun _ h => by cases h

/-- `d->shmid` is stored, or was when the segment was found. -/
def CreatePc.named : CreatePc → Bool
  | .attach path | .lock path => path == .existing
  | .zero _ | .store _ .shmid | .mismatch | .failed => false
  | _ => true

structure NamedInv (pc : CreatePc) (k : Ipc Header) : Prop where
  segment : pc.named = true → NamesSegment k
  semaphores : ∀ path, pc = .returned path → ∃ r, k.sem = some r ∧ (mapped k).semid = r.semid

section Named

variable {p : CreateArgs} {heap : ℕ → ℕ} {k : Ipc Header} {pc : CreatePc}

theorem namedInv_unnamed (h : pc.named = false) : NamedInv pc k := by
  refine ⟨fun hnamed => absurd (h.symm.trans hnamed) (by decide), ?_⟩
  rintro path rfl
  cases h

/-- A step that leaves the segment as it is and does not return. -/
theorem NamedInv.move (hi : NamedInv pc k) (hpc : pc.named = true) {pc' : CreatePc}
    {k' : Ipc Header} (hk : k'.shm = k.shm) (hpc' : ∀ path, pc' ≠ .returned path) :
    NamedInv pc' k' := by
  refine ⟨fun _ seg hseg => ?_, fun path h => absurd h (hpc' path)⟩
  rw [mapped_of_shm hk]
  exact hi.segment hpc seg (hk ▸ hseg)

/-- A store into the header. -/
theorem namedInv_write {f : Header → Header}
    (hshmid : ∀ seg, k.shm = some seg → (f (mapped k)).shmid = seg.shmid)
    (hpc : ∀ path, pc ≠ .returned path) : NamedInv pc (k.write f) := by
  refine ⟨fun _ seg' hseg' => ?_, fun path h => absurd h (hpc path)⟩
  cases hshm : k.shm with
  | none =>
    rw [Ipc.write, hshm] at hseg'
    cases hseg'
  | some seg =>
    rw [Ipc.write_shm hshm] at hseg'
    cases hseg'
    rw [mapped_write hshm]
    exact hshmid seg hshm

theorem namedInv_create {path : Path} (hpath : path ≠ .existing) : NamedInv (.attach path) k :=
  namedInv_unnamed (by simpa [CreatePc.named] using hpath)

/-- **One step of a process that runs alone keeps the identifiers.** -/
theorem NamedInv.step (hi : NamedInv pc k) {pc' : CreatePc} {k' : Ipc Header}
    (hmove : CreateMove p k pc pc' k') : NamedInv pc' k' := by
  cases hmove with
  | stays => exact hi
  | fails => exact namedInv_unnamed rfl
  | made id hpath => exact namedInv_create (CreatePc.attempt_ne hpath)
  | attachedNew hnew => exact namedInv_unnamed (by simpa [CreatePc.named] using hnew)
  | differs => exact namedInv_unnamed rfl
  | lockedNew => exact namedInv_unnamed rfl
  | zeroed => exact namedInv_unnamed rfl
  | @stored path field =>
    refine namedInv_write ?_ ?_
    · intro seg hseg
      cases field with
      | shmid =>
        show shmidOf k = seg.shmid
        rw [shmidOf, hseg]
      | _ => exact hi.segment rfl seg hseg
    · intro path'
      cases field <;> simp [storeNext, HeaderField.next]
  | gotSem _ hshm => exact hi.move rfl hshm (by simp)
  | storedSemid =>
    exact namedInv_write (fun seg hseg => hi.segment rfl seg hseg) (by simp)
  | set hshm _ hset =>
    refine ⟨fun _ seg hseg => ?_, fun path' _ => ?_⟩
    · rw [mapped_of_shm hshm]
      exact hi.segment rfl seg (hshm ▸ hseg)
    · rw [mapped_of_shm hshm]
      exact hset
  -- the other steps leave the segment alone
  | _ => exact hi.move rfl rfl (by simp)

/-- A databuf that `hashpipe_databuf_create` returns has the identifiers of its own objects, when
a segment that was at the key has its own. -/
theorem hashpipeDatabufCreate_complete {ans : CreateCall → IpcAnswer} (hk : NamesSegment k)
    (h : (hashpipeDatabufCreate p heap ans k).1.isDatabuf = true) :
    Complete (hashpipeDatabufCreate p heap ans k).2 := by
  have hstart : NamedInv .start k := ⟨fun _ => hk, fun path h => by cases h⟩
  have hend : NamedInv (hashpipeDatabufCreate p heap ans k).1
      (hashpipeDatabufCreate p heap ans k).2 :=
    createRun_invariant (I := NamedInv) (fun _ _ hi => hi.step (createStep_move _)) _ hstart
  cases hrun : hashpipeDatabufCreate p heap ans k with
  | mk pc k' =>
    rw [hrun] at h hend
    cases pc with
    | returned path =>
      obtain ⟨seg, hseg⟩ := (hashpipeDatabufCreate_sized hrun).attached path rfl
      exact ⟨⟨seg, hseg, hend.segment rfl seg hseg⟩, hend.semaphores path rfl⟩
    | _ => cases h

end Named

end Hashpipe.Databuf
