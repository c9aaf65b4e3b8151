import Hashpipe.Error
import Hashpipe.Status.Buffer
import Hashpipe.Status.Semname

/-!
# Attaching to the status buffer

`hashpipe_status_attach` in its five stages: the key, the segment, its mapping, the name of the
semaphore and the semaphore itself.  Any of them may fail, for which a pattern of answers of the
system calls is given.  Of the caller's `hashpipe_status_t` the model keeps what the call writes.

A failed stage returns without undoing what was done before it, and the first one returns
`HASHPIPE_OK` (`attach_allOrNothing_iff`).
-/

namespace Hashpipe.Status

open ByteMemory CNumber

/-- `HASHPIPE_KEY_ERROR`. -/
def hashpipeKeyError : Int32 := -1

/-- What the system calls answer: `ftok` and `shmget` with -1 and `none` for a failure. -/
structure AttachAnswers where
  ftok : CString → ℕ → Int32
  shmget : Int32 → Option ℕ
  shmat : ℕ → Bool
  sem_open : List UInt8 → Bool

/-- `s->buf`. -/
inductive BufPointer
  | untouched
  /-- `(void *)-1` -/
  | failed
  | segment (shmid : ℕ)
  deriving DecidableEq

/-- `s->lock`. -/
inductive LockPointer
  | untouched
  /-- `SEM_FAILED` -/
  | failed
  | semaphore (name : List UInt8)
  deriving DecidableEq

/-- `hashpipe_status_t` as far as the call has written it. -/
structure StatusHandle where
  instance_id : Int32
  shmid : Option ℤ
  lock : LockPointer
  buf : BufPointer

/-- The segments that the process has mapped, and what they hold. -/
structure Mappings where
  attached : List ℕ
  contents : ℕ → Mem

/-- `hashpipe_ipckey`. -/
def hashpipeIpckey (os : AttachAnswers) (env : StatusEnv) (proj_id : ℕ) : Int32 :=
  os.ftok env.keyfile proj_id

/-- `hashpipe_status_key`; `strtoul` is cut to a `key_t`. -/
def hashpipeStatusKey (os : AttachAnswers) (env : StatusEnv) (instance_id : Int32) : Int32 :=
  match env.HASHPIPE_STATUS_KEY with
  | some status_key => Int32.ofNat (strtoull status_key.bytes).1
  | none => hashpipeIpckey os env (instanceBits instance_id ||| 0x40)

/-- `NAME_MAX`. -/
def nameMax : ℕ := 255

/-- The value returned, the handle and the mappings; `none` if the call does not return. -/
def hashpipeStatusAttach (os : AttachAnswers) (env : StatusEnv) (instance_id : Int32)
    (p : Mappings) : Option (ℤ × StatusHandle × Mappings) :=
  let instance_id := Int32.ofNat (instanceBits instance_id)
  let s : StatusHandle := ⟨instance_id, none, .untouched, .untouched⟩
  let key := hashpipeStatusKey os env instance_id
  if key = hashpipeKeyError then some (0, s, p)
  else match os.shmget key with
    | none => some (hashpipeErrSys, { s with shmid := some (-1) }, p)
    | some shmid =>
      let s := { s with shmid := some shmid }
      if os.shmat shmid then
        let s := { s with buf := .segment shmid }
        let p := { p with attached := shmid :: p.attached }
        match hashpipeStatusSemname env instance_id nameMax (fun _ => 0) with
        | none => none
        | some (semid, rc) =>
          if rc ≠ 0 then some (hashpipeErrSys, s, p)
          else if os.sem_open (stringAt semid 0 nameMax) then
            let s := { s with lock := .semaphore (stringAt semid 0 nameMax) }
            match hashpipeStatusChkinit (p.contents shmid) instance_id with
            | .error _ => none
            | .ok buf =>
              some (hashpipeOk, s, { p with contents := Function.update p.contents shmid buf })
          else some (hashpipeErrSys, { s with lock := .failed }, p)
      else some (hashpipeErrSys, { s with buf := .failed }, p)

/-! ### All or nothing -/

/-- The segment of `instance_id`'s key, if there is one. -/
def statusSegment (os : AttachAnswers) (env : StatusEnv) (instance_id : Int32) : Option ℕ :=
  if hashpipeStatusKey os env instance_id = hashpipeKeyError then none
  else os.shmget (hashpipeStatusKey os env instance_id)

/-- What a call that returned is to have done. -/
structure AllOrNothing (os : AttachAnswers) (env : StatusEnv) (instance_id : Int32) (p : Mappings)
    (rv : ℤ) (s : StatusHandle) (p' : Mappings) : Prop where
  all : rv = hashpipeOk → s.instance_id.toInt = instance_id.toInt % 64 ∧
    (∃ shmid, statusSegment os env (Int32.ofNat (instanceBits instance_id)) = some shmid ∧
      s.buf = .segment shmid ∧ shmid ∈ p'.attached) ∧
    ∃ name, s.lock = .semaphore name
  nothing : rv ≠ hashpipeOk → p'.attached = p.attached ∧ s.buf ≠ .failed ∧ s.lock ≠ .failed ∧
    ∀ shmid, s.buf = .segment shmid → shmid ∈ p'.attached

/-- The key is had, and if the segment is had, then so are its mapping and the semaphore, under
a name that is not given in the environment and fits in the array on the stack. -/
def AttachSucceedsOrStartsNot (os : AttachAnswers) (env : StatusEnv) (instance_id : Int32) :
    Prop :=
  hashpipeStatusKey os env instance_id ≠ hashpipeKeyError ∧
    ∀ shmid, os.shmget (hashpipeStatusKey os env instance_id) = some shmid →
      os.shmat shmid = true ∧ env.HASHPIPE_STATUS_SEMNAME = none ∧
        (completeName env instance_id).length < nameMax ∧
          os.sem_open (completeName env instance_id) = true

/-! ### The masked instance -/

theorem toInt_masked (instance_id : Int32) :
    (Int32.ofNat (instanceBits instance_id)).toInt = instance_id.toInt % 64 := by
  have hlt : instanceBits instance_id < 64 := by
    unfold instanceBits
    omega
  rw [Int32.toInt_ofNat_of_lt (by omega)]
  unfold instanceBits
  omega

theorem instanceBits_masked (instance_id : Int32) :
    instanceBits (Int32.ofNat (instanceBits instance_id)) = instanceBits instance_id := by
  unfold instanceBits
  rw [show Int32.ofNat (instance_id.toInt % 64).toNat = Int32.ofNat (instanceBits instance_id)
    from rfl, toInt_masked]
  omega

theorem hashpipeStatusKey_masked (os : AttachAnswers) (env : StatusEnv) (instance_id : Int32) :
    hashpipeStatusKey os env (Int32.ofNat (instanceBits instance_id)) =
      hashpipeStatusKey os env instance_id := by
  unfold hashpipeStatusKey
  rw [instanceBits_masked]

theorem completeName_masked (env : StatusEnv) (instance_id : Int32) :
    completeName env (Int32.ofNat (instanceBits instance_id)) = completeName env instance_id := by
  unfold completeName semnameSuffix
  rw [instanceBits_masked]

/-! ### The stages -/

/-- The name as the attach gets it: complete or refused. -/
theorem semname_attach (env : StatusEnv) (instance_id : Int32) :
    ∃ semid rc, hashpipeStatusSemname env (Int32.ofNat (instanceBits instance_id)) nameMax
        (fun _ => 0) = some (semid, rc) ∧
      (rc = 0 ↔ env.HASHPIPE_STATUS_SEMNAME = none ∧
        (completeName env instance_id).length < nameMax) ∧
      (rc = 0 → stringAt semid 0 nameMax = completeName env instance_id) := by
  have hmax : 2 ≤ nameMax := by decide
  cases henv : env.HASHPIPE_STATUS_SEMNAME with
  | some envstr =>
    refine ⟨_, 1, semname_environment henv _ _ _, ?_, fun h => (by cases h)⟩
    simp
  | none =>
    obtain ⟨m, hm, -, -⟩ := @semname_path env (Int32.ofNat (instanceBits instance_id)) nameMax
      (fun _ => 0) henv hmax
    refine ⟨m, _, hm, ?_, fun hrc => ?_⟩
    · rw [← completeName_masked, ← suffix_fits_iff henv hmax]
      split <;> simp_all
    · rw [← completeName_masked]
      exact semname_fits_name henv (hrc ▸ hm)

section Stages

variable {os : AttachAnswers} {env : StatusEnv} {instance_id : Int32} {p : Mappings}

/-- The handle before the segment is had. -/
def freshHandle (instance_id : Int32) : StatusHandle :=
  ⟨Int32.ofNat (instanceBits instance_id), none, .untouched, .untouched⟩

/-- The handle once the segment is mapped. -/
def mappedHandle (instance_id : Int32) (shmid : ℕ) (lock : LockPointer) : StatusHandle :=
  ⟨Int32.ofNat (instanceBits instance_id), some shmid, lock, .segment shmid⟩

theorem attach_noKey (hkey : hashpipeStatusKey os env instance_id = hashpipeKeyError) :
    hashpipeStatusAttach os env instance_id p = some (0, freshHandle instance_id, p) := by
  simp only [hashpipeStatusAttach, hashpipeStatusKey_masked, hkey, if_true]
  rfl

theorem attach_noSegment (hkey : hashpipeStatusKey os env instance_id ≠ hashpipeKeyError)
    (hget : os.shmget (hashpipeStatusKey os env instance_id) = none) :
    hashpipeStatusAttach os env instance_id p =
      some (hashpipeErrSys, { freshHandle instance_id with shmid := some (-1) }, p) := by
  simp only [hashpipeStatusAttach, hashpipeStatusKey_masked, hkey, if_false, hget]
  rfl

variable {shmid : ℕ}

theorem attach_noMapping (hkey : hashpipeStatusKey os env instance_id ≠ hashpipeKeyError)
    (hget : os.shmget (hashpipeStatusKey os env instance_id) = some shmid)
    (hat : os.shmat shmid = false) :
    hashpipeStatusAttach os env instance_id p = some (hashpipeErrSys,
      { freshHandle instance_id with shmid := some (shmid : ℤ), buf := .failed }, p) := by
  simp only [hashpipeStatusAttach, hashpipeStatusKey_masked, hkey, if_false, hget, hat,
    Bool.false_eq_true]
  rfl

/-- What is left after the name has been refused. -/
theorem attach_noName (hkey : hashpipeStatusKey os env instance_id ≠ hashpipeKeyError)
    (hget : os.shmget (hashpipeStatusKey os env instance_id) = some shmid)
    (hat : os.shmat shmid = true) (hname : ¬ (env.HASHPIPE_STATUS_SEMNAME = none ∧
      (completeName env instance_id).length < nameMax)) :
    hashpipeStatusAttach os env instance_id p = some (hashpipeErrSys,
      mappedHandle instance_id shmid .untouched, { p with attached := shmid :: p.attached }) := by
  obtain ⟨semid, rc, hrun, hrc, -⟩ := semname_attach env instance_id
  have hne : rc ≠ 0 := fun h => hname (hrc.mp h)
  simp only [hashpipeStatusAttach, hashpipeStatusKey_masked, hkey, if_false, hget, hat, if_true,
    hrun, if_pos hne]
  rfl

theorem attach_noSemaphore (hkey : hashpipeStatusKey os env instance_id ≠ hashpipeKeyError)
    (hget : os.shmget (hashpipeStatusKey os env instance_id) = some shmid)
    (hat : os.shmat shmid = true) (hname : env.HASHPIPE_STATUS_SEMNAME = none ∧
      (completeName env instance_id).length < nameMax)
    (hopen : os.sem_open (completeName env instance_id) = false) :
    hashpipeStatusAttach os env instance_id p = some (hashpipeErrSys,
      mappedHandle instance_id shmid .failed, { p with attached := shmid :: p.attached }) := by
  obtain ⟨semid, rc, hrun, hrc, htext⟩ := semname_attach env instance_id
  obtain rfl := hrc.mpr hname
  simp only [hashpipeStatusAttach, hashpipeStatusKey_masked, hkey, if_false, hget, hat, if_true,
    hrun, ne_eq, not_true_eq_false, htext rfl, hopen, Bool.false_eq_true]
  rfl

/-- All stages done, the call returns once the buffer is initialised. -/
theorem attach_done (hkey : hashpipeStatusKey os env instance_id ≠ hashpipeKeyError)
    (hget : os.shmget (hashpipeStatusKey os env instance_id) = some shmid)
    (hat : os.shmat shmid = true) (hname : env.HASHPIPE_STATUS_SEMNAME = none ∧
      (completeName env instance_id).length < nameMax)
    (hopen : os.sem_open (completeName env instance_id) = true) {r : ℤ × StatusHandle × Mappings}
    (hr : hashpipeStatusAttach os env instance_id p = some r) :
    ∃ contents, r = (hashpipeOk,
      mappedHandle instance_id shmid (.semaphore (completeName env instance_id)),
      ⟨shmid :: p.attached, contents⟩) := by
  obtain ⟨semid, rc, hrun, hrc, htext⟩ := semname_attach env instance_id
  obtain rfl := hrc.mpr hname
  simp only [hashpipeStatusAttach, hashpipeStatusKey_masked, hkey, if_false, hget, hat, if_true,
    hrun, ne_eq, not_true_eq_false, htext rfl, hopen] at hr
  split at hr
  · cases hr
  · exact ⟨_, (Option.some.inj hr).symm⟩

end Stages

/-! ### The law -/

/-- In every environment and for every pattern of failures the call does all or nothing exactly
if the key is had and either the segment is not or everything after it is. -/
theorem attach_allOrNothing_iff (os : AttachAnswers) (env : StatusEnv) (instance_id : Int32)
    (p : Mappings) :
    (∀ rv s p', hashpipeStatusAttach os env instance_id p = some (rv, s, p') →
      AllOrNothing os env instance_id p rv s p') ↔
        AttachSucceedsOrStartsNot os env instance_id := by
  have hok : hashpipeErrSys ≠ hashpipeOk := by decide
  have hcons : ∀ shmid, shmid :: p.attached ≠ p.attached := fun shmid h => by
    simpa using congrArg List.length h
  constructor
  · intro h
    have hkey : hashpipeStatusKey os env instance_id ≠ hashpipeKeyError := by
      intro hkey
      obtain ⟨-, ⟨shmid, hsegment, -⟩, -⟩ := (h _ _ _ (attach_noKey hkey)).all rfl
      rw [statusSegment, hashpipeStatusKey_masked, if_pos hkey] at hsegment
      cases hsegment
    refine ⟨hkey, fun shmid hget => ?_⟩
    have hat : os.shmat shmid = true := by
      cases hat : os.shmat shmid with
      | true => rfl
      | false => exact absurd rfl ((h _ _ _ (attach_noMapping hkey hget hat)).nothing hok).2.1
    have hname : env.HASHPIPE_STATUS_SEMNAME = none ∧
        (completeName env instance_id).length < nameMax := by
      by_contra hname
      exact hcons shmid ((h _ _ _ (attach_noName hkey hget hat hname)).nothing hok).1
    cases hopen : os.sem_open (completeName env instance_id) with
    | true => exact ⟨hat, hname.1, hname.2, rfl⟩
    | false =>
      exact absurd ((h _ _ _ (attach_noSemaphore hkey hget hat hname hopen)).nothing hok).1
        (hcons shmid)
  · rintro ⟨hkey, hrest⟩ rv s p' hr
    cases hget : os.shmget (hashpipeStatusKey os env instance_id) with
    | none =>
      rw [attach_noSegment hkey hget, Option.some.injEq, Prod.mk.injEq, Prod.mk.injEq] at hr
      obtain ⟨rfl, rfl, rfl⟩ := hr
      exact ⟨fun h => absurd h hok, fun _ => ⟨rfl, nofun, nofun, nofun⟩⟩
    | some shmid =>
      obtain ⟨hat, hunset, hshort, hopen⟩ := hrest shmid hget
      obtain ⟨contents, heq⟩ := attach_done hkey hget hat ⟨hunset, hshort⟩ hopen hr
      rw [Prod.mk.injEq, Prod.mk.injEq] at heq
      obtain ⟨rfl, rfl, rfl⟩ := heq
      refine ⟨fun _ => ⟨toInt_masked instance_id, ⟨shmid, ?_, rfl, List.mem_cons_self ..⟩, _, rfl⟩,
        fun h => absurd rfl h⟩
      rw [statusSegment, hashpipeStatusKey_masked, if_neg hkey, hget]

/-- Every call succeeds but `shmat`. -/
def shmatFails : AttachAnswers :=
  ⟨fun _ n => Int32.ofNat n, fun _ => some 7, fun _ => false, fun _ => true⟩

/-- The handle is left with an invalid mapping. -/
theorem shmat_failure_leaves_pointer :
    ¬ ∀ (os : AttachAnswers) (env : StatusEnv) (instance_id : Int32) (p : Mappings) rv s p',
      hashpipeStatusAttach os env instance_id p = some (rv, s, p') →
        AllOrNothing os env instance_id p rv s p' := by
  intro h
  have hkey : hashpipeStatusKey shmatFails homeEnv 0 ≠ hashpipeKeyError := by decide
  exact ((h shmatFails homeEnv 0 ⟨[], fun _ _ => 0⟩ _ _ _
    (attach_noMapping hkey rfl rfl)).nothing (by decide)).2.1 rfl

end Hashpipe.Status
