import Hashpipe.CleanShmem
import Hashpipe.Library.Isolation

/-!
# Several instances on one machine

The databufs that the pipelines of all instances make, and what `hashpipe_clean_shmem` removes,
in any order: a step is one call of `hashpipe_databuf_create`, which may fail at any of its calls
and leave what it has made, or one pass of the tool's loop, whose removals may fail.

The tool removes objects by the identifiers it reads from headers, which are stale after a
removal that failed half way and zero after a creation that did.  A header never names an object
of another databuf (`Apart`) as long as the kernel gives out no identifier that an object or a
header still has, and not 0 for a segment.  Then what an instance finds at its keys is what it
would find without the others (`instances_isolated`).
-/

namespace Hashpipe.Instances

open ByteMemory SysVIpc Databuf CommandLine IpcKey Status PipelineDatabufs CleanShmem

/-! ### What a creation leaves in the header -/

/-- The call is filling a segment that it has made. -/
def fills : CreatePc → Bool
  | .attach path | .lock path => path != .existing
  | .zero _ | .store _ _ => true
  | _ => false

/-- What a call that found `k₀` at its key has left there. -/
structure HeaderFrom (k₀ k : Ipc Header) : Prop where
  shmKept : ∀ seg, k₀.shm = some seg → ∃ seg', k.shm = some seg' ∧ seg'.shmid = seg.shmid ∧
    seg'.content.shmid = seg.content.shmid
  shmMade : k₀.shm = none → ∀ seg, k.shm = some seg →
    seg.content.shmid = 0 ∨ seg.content.shmid = seg.shmid
  semKept : ∀ r, k₀.sem = some r → ∃ r', k.sem = some r' ∧ r'.semid = r.semid
  semid : ∀ seg, k.shm = some seg → seg.content.semid = 0 ∨ seg.content.semid = -1 ∨
    (∃ seg₀, k₀.shm = some seg₀ ∧ seg.content.semid = seg₀.content.semid) ∨
    ∃ r, k.sem = some r ∧ seg.content.semid = r.semid

structure FromInv (k₀ : Ipc Header) (pc : CreatePc) (k : Ipc Header) : Prop where
  header : HeaderFrom k₀ k
  filling : fills pc = true → k₀.shm = none
  got : ∀ path rv, pc = .storeSemid path rv → rv = -1 ∨ ∃ r, k.sem = some r ∧ rv = r.semid

section Creation

variable {p : CreateArgs} {heap : ℕ → ℕ} {k₀ k : Ipc Header} {pc : CreatePc}

theorem headerFrom_refl : HeaderFrom k₀ k₀ where
  shmKept := fun seg hseg => ⟨seg, hseg, rfl, rfl⟩
  shmMade := fun hnone seg hseg => by rw [hnone] at hseg; cases hseg
  semKept := fun r hr => ⟨r, hr, rfl⟩
  semid := fun seg hseg => .inr (.inr (.inl ⟨seg, hseg, rfl⟩))

/-- A step that leaves the objects as they are. -/
theorem FromInv.move (hi : FromInv k₀ pc k) {pc' : CreatePc} (hfills : fills pc' = true →
    fills pc = true) (hpc' : ∀ path rv, pc' = .storeSemid path rv → rv = -1) :
    FromInv k₀ pc' k :=
  ⟨hi.header, fun h => hi.filling (hfills h), fun path rv h => .inl (hpc' path rv h)⟩

/-- A store into the header of a segment. -/
theorem HeaderFrom.write (h : HeaderFrom k₀ k) {f : Header → Header}
    (hshmid : ∀ seg, k.shm = some seg → (f seg.content).shmid = seg.content.shmid ∨
      k₀.shm = none ∧ ((f seg.content).shmid = 0 ∨ (f seg.content).shmid = seg.shmid))
    (hsemid : ∀ seg, k.shm = some seg → (f seg.content).semid = seg.content.semid ∨
      (f seg.content).semid = 0 ∨ (f seg.content).semid = -1 ∨
        ∃ r, k.sem = some r ∧ (f seg.content).semid = r.semid) :
    HeaderFrom k₀ (k.write f) where
  shmKept := by
    intro seg hseg
    obtain ⟨seg', hseg', hid, hname⟩ := h.shmKept seg hseg
    refine ⟨_, Ipc.write_shm hseg' f, hid, ?_⟩
    rcases hshmid seg' hseg' with hsame | ⟨hnone, -⟩
    · exact hsame.trans hname
    · rw [hnone] at hseg
      cases hseg
  shmMade := by
    intro hnone seg' hseg'
    cases hk : k.shm with
    | none =>
      rw [Ipc.write, hk] at hseg'
      cases hseg'
    | some seg =>
      rw [Ipc.write_shm hk] at hseg'
      cases hseg'
      rcases hshmid seg hk with hsame | ⟨-, hnew⟩
      · have hold := h.shmMade hnone seg hk
        rw [← hsame] at hold
        exact hold
      · exact hnew
  semKept := h.semKept
  semid := by
    intro seg' hseg'
    cases hk : k.shm with
    | none =>
      rw [Ipc.write, hk] at hseg'
      cases hseg'
    | some seg =>
      rw [Ipc.write_shm hk] at hseg'
      cases hseg'
      rcases hsemid seg hk with hsame | hzero | herror | hown
      · have hold := h.semid seg hk
        rw [← hsame] at hold
        exact hold
      · exact .inl hzero
      · exact .inr (.inl herror)
      · exact .inr (.inr (.inr hown))

/-- A step on the semaphores that keeps the identifier of a set that was there. -/
theorem HeaderFrom.semaphores (h : HeaderFrom k₀ k) {k' : Ipc Header} (hshm : k'.shm = k.shm)
    (hsem : ∀ r, k.sem = some r → ∃ r', k'.sem = some r' ∧ r'.semid = r.semid) :
    HeaderFrom k₀ k' where
  shmKept := by
    rw [hshm]
    exact h.shmKept
  shmMade := by
    rw [hshm]
    exact h.shmMade
  semKept := by
    intro r hr
    obtain ⟨r', hr', hid⟩ := h.semKept r hr
    obtain ⟨r'', hr'', hid'⟩ := hsem r' hr'
    exact ⟨r'', hr'', hid'.trans hid⟩
  semid := by
    intro seg hseg
    rw [hshm] at hseg
    rcases h.semid seg hseg with hzero | herror | hold | ⟨r, hr, hid⟩
    · exact .inl hzero
    · exact .inr (.inl herror)
    · exact .inr (.inr (.inl hold))
    · obtain ⟨r', hr', hid'⟩ := hsem r hr
      exact .inr (.inr (.inr ⟨r', hr', hid.trans (congrArg _ hid'.symm)⟩))

/-- **One step of the call.** -/
theorem FromInv.step (hi : FromInv k₀ pc k) {pc' : CreatePc} {k' : Ipc Header}
    (hmove : CreateMove p k pc pc' k') : FromInv k₀ pc' k' := by
  cases hmove with
  | stays => exact hi
  | made id hpath hsize hnone =>
    have hnone₀ : k₀.shm = none := by
      cases hk₀ : k₀.shm with
      | none => rfl
      | some seg =>
        obtain ⟨seg', hseg', -⟩ := hi.header.shmKept seg hk₀
        rw [hnone] at hseg'
        cases hseg'
    refine ⟨⟨fun seg hseg => ?_, fun _ seg hseg => ?_, hi.header.semKept, fun seg hseg => ?_⟩,
      fun _ => hnone₀, fun path rv h => by cases h⟩
    · rw [hnone₀] at hseg
      cases hseg
    · cases hseg
      exact .inl rfl
    · cases hseg
      exact .inl rfl
  | attachedNew hnew => exact hi.move (by simp [fills]) (by simp)
  | lockedNew hnew => exact hi.move (by simp [fills, hnew]) (by simp)
  | zeroed =>
    have hnone := hi.filling rfl
    refine ⟨hi.header.write (fun _ _ => .inr ⟨hnone, .inl rfl⟩) (fun _ _ => .inr (.inl rfl)),
      fun _ => hnone, fun path rv h => by cases h⟩
  | @stored path field =>
    have hnone := hi.filling rfl
    refine ⟨hi.header.write (fun seg hseg => ?_) (fun seg _ => ?_), fun _ => hnone, ?_⟩
    · cases field with
      | shmid =>
        refine .inr ⟨hnone, .inr ?_⟩
        show shmidOf k = seg.shmid
        rw [shmidOf, hseg]
      | _ => exact .inl rfl
    · cases field with
      | semid => exact .inr (.inl rfl)
      | _ => exact .inl rfl
    · intro path' rv
      cases field <;> simp [storeNext, HeaderField.next]
  | gotSem _ hshm hset hsame =>
    obtain ⟨r, hr, hid⟩ := hset
    refine ⟨hi.header.semaphores hshm fun r' hr' => ?_, (fun h => by cases h), ?_⟩
    · rw [hsame r' hr']
      exact ⟨r', hr', rfl⟩
    · intro path' rv h
      cases h
      exact .inr ⟨r, hr, congrArg _ hid.symm⟩
  | noSem =>
    refine ⟨hi.header, (fun h => by cases h), fun path' rv h => ?_⟩
    cases h
    exact .inl rfl
  | @storedSemid path rv =>
    refine ⟨hi.header.write (fun _ _ => .inl rfl) (fun _ _ => .inr (.inr ?_)),
      (fun h => by cases h), fun path' rv' h => by cases h⟩
    exact hi.got path rv rfl
  | set hshm hids hset =>
    refine ⟨hi.header.semaphores hshm fun r hr => ?_, (fun h => by cases h),
      fun path' rv h => by cases h⟩
    rw [hr] at hids
    obtain ⟨r', hr', hid⟩ := Option.map_eq_some_iff.mp hids
    exact ⟨r', hr', hid⟩
  -- the other steps leave the objects alone
  | _ => exact hi.move (by simp [fills]) (by simp)

/-- What the call leaves, however it ends. -/
theorem create_headerFrom (ans : CreateCall → IpcAnswer) :
    HeaderFrom k₀ (hashpipeDatabufCreate p heap ans k₀).2 := by
  have hstart : FromInv k₀ .start k₀ :=
    ⟨headerFrom_refl, (fun h => by cases h), fun path rv h => by cases h⟩
  have hend : FromInv k₀ (hashpipeDatabufCreate p heap ans k₀).1
      (hashpipeDatabufCreate p heap ans k₀).2 :=
    createRun_invariant (I := FromInv k₀) (fun _ _ hi => hi.step (createStep_move _)) _ hstart
  exact hend.header

end Creation

/-! ### The steps -/

/-- A step of an instance. -/
inductive InstanceStep
  /-- `hashpipe_databuf_create(instance_id, databuf_id, ...)`. -/
  | create (instance_id : Int32) (databuf_id : ℕ) (c : DatabufCreate)
  /-- The pass of the tool for databuf `i`. -/
  | clean (instance_id : Int32) (i : ℕ) (calls : CleanCalls)

def InstanceStep.instanceId : InstanceStep → Int32
  | .create instance_id _ _ => instance_id
  | .clean instance_id _ _ => instance_id

/-- What `hashpipe_databuf_create` leaves, whether it returns a databuf or not. -/
def createLeaves (base : Int32) (databuf_id : ℕ) (c : DatabufCreate) (s : IpcSystem) : IpcSystem :=
  if base = hashpipeKeyError then s
  else if databufKey base databuf_id = ipcPrivate then
    s.addUnkeyed
      (hashpipeDatabufCreate c.args c.heap c.answers (s.objects (.unkeyed s.unkeyed))).2
  else
    s.putKeyed (databufKey base databuf_id)
      (hashpipeDatabufCreate c.args c.heap c.answers
        (s.objects (.key (databufKey base databuf_id)))).2

def instanceNext (os : AttachAnswers) (env : KeyEnv) (s : IpcSystem) : InstanceStep → IpcSystem
  | .create instance_id databuf_id c =>
    createLeaves (hashpipeDatabufKey os env instance_id) databuf_id c s
  | .clean instance_id i calls =>
    { s with objects :=
        (cleanDatabuf (hashpipeDatabufKey os env instance_id) calls (0, s.objects) i).2 }

/-- The identifiers of the objects that a call has made at `p`, where it leaves `k`, are given to
no other object and named by no other header.  A header with the identifier 0 for its semaphore
set names none. -/
structure Fresh (n : IpcNamespace Place Header) (p : Place) (k : Ipc Header) : Prop where
  nonzero : (n p).shm = none → ∀ seg, k.shm = some seg → seg.shmid ≠ 0
  shm : (n p).shm = none → ∀ seg, k.shm = some seg → ∀ q ≠ p, ∀ t, (n q).shm = some t →
    t.shmid ≠ seg.shmid ∧ t.content.shmid ≠ seg.shmid
  sem : (n p).sem = none → ∀ r, k.sem = some r → ∀ q ≠ p,
    (∀ t, (n q).sem = some t → t.semid ≠ r.semid) ∧
    ∀ t, (n q).shm = some t → t.content.semid ≠ 0 → t.content.semid ≠ r.semid

/-- The numbers that `main` and the tool use, and what the kernel sees to. -/
def stepOk (os : AttachAnswers) (env : KeyEnv) (s : IpcSystem) : InstanceStep → Prop
  | .create instance_id databuf_id c =>
    databuf_id ≤ maxHashpipeThreads ∧
      let key := databufKey (hashpipeDatabufKey os env instance_id) databuf_id
      Fresh s.objects (.key key)
        (hashpipeDatabufCreate c.args c.heap c.answers (s.objects (.key key))).2
  | .clean _ i _ => 1 ≤ i ∧ i ≤ 20

/-- A step of the instance with this number, of which the keys have six bits. -/
def ofInstance (instance_id : Int32) (a : InstanceStep) : Bool :=
  a.instanceId.toInt % 64 == instance_id.toInt % 64

/-- What an instance finds at its keys. -/
def databufsOf (os : AttachAnswers) (env : KeyEnv) (instance_id : Int32) (s : IpcSystem)
    (databuf_id : Fin (maxHashpipeThreads + 1)) : Ipc Header :=
  s.objects (.key (databufKey (hashpipeDatabufKey os env instance_id) databuf_id))

/-- Every header names objects of its own databuf, or none. -/
structure Apart (n : IpcNamespace Place Header) : Prop where
  nonzero : ∀ p t, (n p).shm = some t → t.shmid ≠ 0
  shm : ∀ p q seg t, (n p).shm = some seg → (n q).shm = some t →
    seg.content.shmid = t.shmid → p = q
  sem : ∀ p q seg r, (n p).shm = some seg → (n q).sem = some r → seg.content.semid ≠ 0 →
    seg.content.semid = r.semid → p = q
  distinct : ∀ p q r t, (n p).sem = some r → (n q).sem = some t → r.semid = t.semid → p = q

theorem apart_empty : Apart fun _ => Ipc.empty := by
  constructor <;> exact fun _ _ => by simp [Ipc.empty]

/-! ### A creation keeps the databufs apart -/

section Apart

variable {n n' : IpcNamespace Place Header} {p q : Place} {k : Ipc Header}

/-- What is at another place is as it was. -/
theorem update_shm_cases {seg : Segment Header} (h : (Function.update n p k q).shm = some seg) :
    q = p ∧ k.shm = some seg ∨ q ≠ p ∧ (n q).shm = some seg := by
  by_cases hq : q = p
  · rw [hq, Function.update_self] at h
    exact .inl ⟨hq, h⟩
  · rw [Function.update_of_ne hq] at h
    exact .inr ⟨hq, h⟩

theorem update_sem_cases {r : SemRecord} (h : (Function.update n p k q).sem = some r) :
    q = p ∧ k.sem = some r ∨ q ≠ p ∧ (n q).sem = some r := by
  by_cases hq : q = p
  · rw [hq, Function.update_self] at h
    exact .inl ⟨hq, h⟩
  · rw [Function.update_of_ne hq] at h
    exact .inr ⟨hq, h⟩

/-- The segment after a call was there before, or the call has made it. -/
theorem HeaderFrom.shm_cases {k₀ : Ipc Header} (h : HeaderFrom k₀ k) {seg : Segment Header}
    (hseg : k.shm = some seg) :
    (∃ seg₀, k₀.shm = some seg₀ ∧ seg.shmid = seg₀.shmid ∧
      seg.content.shmid = seg₀.content.shmid) ∨
    k₀.shm = none ∧ (seg.content.shmid = 0 ∨ seg.content.shmid = seg.shmid) := by
  cases hk₀ : k₀.shm with
  | none => exact .inr ⟨rfl, h.shmMade hk₀ seg hseg⟩
  | some seg₀ =>
    obtain ⟨seg', hseg', hid, hname⟩ := h.shmKept seg₀ hk₀
    cases hseg.symm.trans hseg'
    exact .inl ⟨seg₀, rfl, hid, hname⟩

theorem HeaderFrom.sem_cases {k₀ : Ipc Header} (h : HeaderFrom k₀ k) {r : SemRecord}
    (hr : k.sem = some r) : (∃ r₀, k₀.sem = some r₀ ∧ r.semid = r₀.semid) ∨ k₀.sem = none := by
  cases hk₀ : k₀.sem with
  | none => exact .inr rfl
  | some r₀ =>
    obtain ⟨r', hr', hid⟩ := h.semKept r₀ hk₀
    cases hr.symm.trans hr'
    exact .inl ⟨r₀, rfl, hid⟩

/-- No other place has a semaphore set with the identifier of the one here. -/
theorem Apart.sem_alone (hn : Apart n) (hk : HeaderFrom (n p) k) (hfresh : Fresh n p k)
    {r t : SemRecord} (hr : k.sem = some r) (hq : q ≠ p) (ht : (n q).sem = some t) :
    r.semid ≠ t.semid := by
  intro heq
  rcases hk.sem_cases hr with ⟨r₀, hr₀, hid⟩ | hnone
  · exact hq (hn.distinct p q r₀ t hr₀ ht (hid.symm.trans heq)).symm
  · exact ((hfresh.sem hnone r hr q hq).1 t ht) heq.symm

/-- The headers stay apart when a call leaves `k` at `p`. -/
theorem Apart.update (hn : Apart n) (hk : HeaderFrom (n p) k) (hfresh : Fresh n p k) :
    Apart (Function.update n p k) where
  nonzero := by
    intro q t ht
    rcases update_shm_cases ht with ⟨-, ht⟩ | ⟨-, ht⟩
    · rcases hk.shm_cases ht with ⟨t₀, ht₀, hid, -⟩ | ⟨hnone, -⟩
      · rw [hid]
        exact hn.nonzero p t₀ ht₀
      · exact hfresh.nonzero hnone t ht
    · exact hn.nonzero q t ht
  shm := by
    intro q q' seg t hseg ht heq
    rcases update_shm_cases hseg with ⟨hq, hseg⟩ | ⟨hq, hseg⟩
    · rcases update_shm_cases ht with ⟨hq', -⟩ | ⟨hq', ht⟩
      · exact hq.trans hq'.symm
      · exfalso
        rcases hk.shm_cases hseg with ⟨seg₀, hseg₀, -, hname⟩ | ⟨hnone, hzero | hown⟩
        · exact hq' (hn.shm p q' seg₀ t hseg₀ ht (hname.symm.trans heq)).symm
        · exact hn.nonzero q' t ht (by rw [hzero] at heq; exact_mod_cast heq.symm)
        · refine (hfresh.shm hnone seg hseg q' hq' t ht).1 ?_
          rw [hown] at heq
          exact_mod_cast heq.symm
    · rcases update_shm_cases ht with ⟨hq', ht⟩ | ⟨-, ht⟩
      · exfalso
        rcases hk.shm_cases ht with ⟨t₀, ht₀, hid, -⟩ | ⟨hnone, -⟩
        · refine hq (hn.shm q p seg t₀ hseg ht₀ ?_)
          rw [heq, hid]
        · exact (hfresh.shm hnone t ht q hq seg hseg).2 heq
      · exact hn.shm q q' seg t hseg ht heq
  sem := by
    intro q q' seg r hseg hr hzero heq
    rcases update_shm_cases hseg with ⟨hq, hseg⟩ | ⟨hq, hseg⟩
    · rcases update_sem_cases hr with ⟨hq', -⟩ | ⟨hq', hr⟩
      · exact hq.trans hq'.symm
      · exfalso
        rcases hk.semid seg hseg with hzero' | herror | ⟨seg₀, hseg₀, hold⟩ | ⟨r', hr', hown⟩
        · exact hzero hzero'
        · rw [herror] at heq
          omega
        · rw [hold] at hzero heq
          exact hq' (hn.sem p q' seg₀ r hseg₀ hr hzero heq).symm
        · rw [hown] at heq
          exact hn.sem_alone hk hfresh hr' hq' hr (by exact_mod_cast heq)
    · rcases update_sem_cases hr with ⟨hq', hr⟩ | ⟨-, hr⟩
      · exfalso
        rcases hk.sem_cases hr with ⟨r₀, hr₀, hid⟩ | hnone
        · refine hq (hn.sem q p seg r₀ hseg hr₀ hzero ?_)
          rw [heq, hid]
        · exact (hfresh.sem hnone r hr q hq).2 seg hseg hzero heq
      · exact hn.sem q q' seg r hseg hr hzero heq
  distinct := by
    intro q q' r t hr ht heq
    rcases update_sem_cases hr with ⟨hq, hr⟩ | ⟨hq, hr⟩
    · rcases update_sem_cases ht with ⟨hq', -⟩ | ⟨hq', ht⟩
      · exact hq.trans hq'.symm
      · exact absurd heq (hn.sem_alone hk hfresh hr hq' ht)
    · rcases update_sem_cases ht with ⟨hq', ht⟩ | ⟨-, ht⟩
      · exact absurd heq.symm (hn.sem_alone hk hfresh ht hq hr)
      · exact hn.distinct q q' r t hr ht heq

/-! ### A pass of the tool -/

/-- Some objects are gone and the others are as they were. -/
structure Removed (n n' : IpcNamespace Place Header) : Prop where
  shm : ∀ p s, (n' p).shm = some s → (n p).shm = some s
  sem : ∀ p r, (n' p).sem = some r → (n p).sem = some r

theorem Removed.refl : Removed n n := ⟨fun _ _ h => h, fun _ _ h => h⟩

theorem Removed.trans {n'' : IpcNamespace Place Header} (h : Removed n n') (h' : Removed n' n'') :
    Removed n n'' :=
  ⟨fun p s hs => h.shm p s (h'.shm p s hs), fun p r hr => h.sem p r (h'.sem p r hr)⟩

theorem removed_rmShm (shmid : ℤ) : Removed n (rmShm n shmid) := by
  constructor
  · intro p s hs
    rw [rmShm] at hs
    split at hs
    · cases hs
    · exact hs
  · intro p r hr
    rw [rmShm] at hr
    split at hr
    · exact hr
    · exact hr

theorem removed_rmSem (semid : ℤ) : Removed n (rmSem n semid) := by
  constructor
  · intro p s hs
    rw [rmSem] at hs
    split at hs
    · exact hs
    · exact hs
  · intro p r hr
    rw [rmSem] at hr
    split at hr
    · cases hr
    · exact hr

theorem Apart.removed (hn : Apart n) (h : Removed n n') : Apart n' where
  nonzero := fun p t ht => hn.nonzero p t (h.shm p t ht)
  shm := fun p q seg t hseg ht => hn.shm p q seg t (h.shm p seg hseg) (h.shm q t ht)
  sem := fun p q seg r hseg hr => hn.sem p q seg r (h.shm p seg hseg) (h.sem q r hr)
  distinct := fun p q r t hr ht => hn.distinct p q r t (h.sem p r hr) (h.sem q t ht)

/-- What the header at `p` names is not elsewhere. -/
theorem Apart.rmShm_other (hn : Apart n) {seg : Segment Header} (hseg : (n p).shm = some seg)
    (hq : q ≠ p) : rmShm n seg.content.shmid q = n q := by
  apply if_neg
  intro hhas
  obtain ⟨t, ht, hid⟩ := ((n q).hasShm_iff _).mp hhas
  exact hq (hn.shm p q seg t hseg ht hid.symm).symm

theorem Apart.rmSem_other (hn : Apart n) {seg : Segment Header} (hseg : (n p).shm = some seg)
    (hzero : seg.content.semid ≠ 0) (hq : q ≠ p) : rmSem n seg.content.semid q = n q := by
  apply if_neg
  intro hhas
  obtain ⟨r, hr, hid⟩ := ((n q).hasSem_iff _).mp hhas
  exact hq (hn.sem p q seg r hseg hr hzero hid.symm).symm

/-! ### A pass of the tool, with its calls -/

section Pass

variable {base : Int32} {calls : CleanCalls} {i : ℕ}

theorem attach_mapped {d : Header} (h : hashpipeDatabufAttach base calls i n = some d) :
    ∃ seg, (n (.key (databufKey base i))).shm = some seg ∧ d = seg.content := by
  rw [hashpipeDatabufAttach] at h
  split at h
  · cases h
  split at h
  · cases h
  simp only at h
  split at h
  · cases h
  · rename_i hopen
    obtain ⟨seg, hseg⟩ := shmgetOpen_spec hopen
    split at h
    · cases h
      refine ⟨seg, hseg, ?_⟩
      rw [mapped, hseg]
    · cases h

/-- The two removals of a pass, either of which may fail. -/
def removals (calls : CleanCalls) (i : ℕ) (d : Header) (n : IpcNamespace Place Header) :
    IpcNamespace Place Header :=
  let n := if d.semid ≠ 0 ∧ calls.rmSemaphores i = true then rmSem n d.semid else n
  if calls.rmSegment i then rmShm n d.shmid else n

theorem cleanDatabuf_removals (ex : ℤ) : (cleanDatabuf base calls (ex, n) i).2 =
    match hashpipeDatabufAttach base calls i n with
    | none => n
    | some d => removals calls i d n := by
  rw [cleanDatabuf]
  cases hashpipeDatabufAttach base calls i n with
  | none => rfl
  | some d =>
    show _ = removals calls i d n
    rw [removals]
    by_cases hzero : d.semid = 0 <;> cases calls.rmSemaphores i <;> cases calls.rmSegment i <;>
      simp [hzero]

theorem removed_removals (d : Header) : Removed n (removals calls i d n) := by
  rw [removals]
  have hsem : Removed n
      (if d.semid ≠ 0 ∧ calls.rmSemaphores i = true then rmSem n d.semid else n) := by
    split
    · exact removed_rmSem d.semid
    · exact .refl
  split
  · exact hsem.trans (removed_rmShm d.shmid)
  · exact hsem

theorem removed_cleanDatabuf (ex : ℤ) : Removed n (cleanDatabuf base calls (ex, n) i).2 := by
  rw [cleanDatabuf_removals]
  split
  · exact .refl
  · exact removed_removals _

/-- **A pass changes nothing at another place**, whichever of its calls fail. -/
theorem Apart.cleanDatabuf_other (hn : Apart n) (ex : ℤ) (hq : q ≠ .key (databufKey base i)) :
    (cleanDatabuf base calls (ex, n) i).2 q = n q := by
  rw [cleanDatabuf_removals]
  split
  · rfl
  · rename_i d hd
    obtain ⟨seg, hseg, rfl⟩ := attach_mapped hd
    rw [removals]
    -- the header is as it was when the segment goes, only the semaphores are gone
    have hstep : ∀ n', Apart n' → (n' (.key (databufKey base i))).shm = some seg →
        (if calls.rmSegment i then rmShm n' seg.content.shmid else n') q = n' q := by
      intro n' hn' hseg'
      split
      · exact hn'.rmShm_other hseg' hq
      · rfl
    by_cases hsem : seg.content.semid ≠ 0 ∧ calls.rmSemaphores i = true
    · rw [if_pos hsem, hstep _ (hn.removed (removed_rmSem _))]
      · exact hn.rmSem_other hseg hsem.1 hq
      · rw [rmSem]
        split
        · exact hseg
        · exact hseg
    · rw [if_neg hsem]
      exact hstep n hn hseg

/-- What a pass does where it looks depends on what is there. -/
theorem cleanDatabuf_congr {n₁ n₂ : IpcNamespace Place Header} (ex : ℤ)
    (hi : n₁ (.key (databufKey base i)) = n₂ (.key (databufKey base i))) (hq : n₁ q = n₂ q) :
    (cleanDatabuf base calls (ex, n₁) i).2 q = (cleanDatabuf base calls (ex, n₂) i).2 q := by
  have hattach : hashpipeDatabufAttach base calls i n₁ = hashpipeDatabufAttach base calls i n₂ := by
    rw [hashpipeDatabufAttach, hashpipeDatabufAttach, hi]
  rw [cleanDatabuf_removals, cleanDatabuf_removals, hattach]
  split
  · exact hq
  · rename_i d _
    have hsem : ∀ semid, rmSem n₁ semid q = rmSem n₂ semid q := by
      intro semid
      rw [rmSem, rmSem, hq]
    have hshm : ∀ m₁ m₂ : IpcNamespace Place Header, m₁ q = m₂ q →
        (if calls.rmSegment i then rmShm m₁ d.shmid else m₁) q =
          (if calls.rmSegment i then rmShm m₂ d.shmid else m₂) q := by
      intro m₁ m₂ hm
      split
      · rw [rmShm, rmShm, hm]
      · exact hm
    rw [removals, removals]
    by_cases hgone : d.semid ≠ 0 ∧ calls.rmSemaphores i = true
    · rw [if_pos hgone, if_pos hgone]
      exact hshm _ _ (hsem d.semid)
    · rw [if_neg hgone, if_neg hgone]
      exact hshm _ _ hq

end Pass

end Apart

/-! ### The keys of different instances -/

section Machine

variable {os : AttachAnswers} {stat : CString → Option FileStat} {env : KeyEnv} {st : FileStat}

theorem databufKey_place (hfile : stat env.keyfile = some st) (hftok : os.ftok = ftok stat)
    (hdatabuf : env.HASHPIPE_DATABUF_KEY = none) (a : Int32) (m : ℕ) :
    databufKey (hashpipeDatabufKey os env a) m =
      Int32.ofInt ((128 + a.toInt % 64) * 2 ^ 24 + st.low + m - 1) := by
  rw [databufKey, databufKey_eq hfile hftok hdatabuf a, ← Int32.ofInt_eq_ofNat, ← Int32.ofInt_add]
  exact (Int32.ofInt_sub _ 1).symm

/-- Databufs are at one key only if they have one number and their instances have. -/
theorem databufKey_eq_iff (hfile : stat env.keyfile = some st) (hftok : os.ftok = ftok stat)
    (hdatabuf : env.HASHPIPE_DATABUF_KEY = none) {a b : Int32} {m l : ℕ}
    (hm : m ≤ maxHashpipeThreads) (hl : l ≤ maxHashpipeThreads) :
    databufKey (hashpipeDatabufKey os env a) m = databufKey (hashpipeDatabufKey os env b) l ↔
      a.toInt % 64 = b.toInt % 64 ∧ m = l := by
  have hm' : m ≤ 1024 := hm
  have hl' : l ≤ 1024 := hl
  have hlow := st.low_lt
  rw [databufKey_place hfile hftok hdatabuf, databufKey_place hfile hftok hdatabuf,
    ofInt_eq_iff (by omega) (by omega) (by omega) (by omega)]
  omega

theorem databufKey_ne_private (hfile : stat env.keyfile = some st) (hftok : os.ftok = ftok stat)
    (hdatabuf : env.HASHPIPE_DATABUF_KEY = none) (a : Int32) {m : ℕ}
    (hm : m ≤ maxHashpipeThreads) : databufKey (hashpipeDatabufKey os env a) m ≠ ipcPrivate := by
  have hm' : m ≤ 1024 := hm
  have hlow := st.low_lt
  have hprivate : ipcPrivate = Int32.ofInt 0 := by decide
  rw [databufKey_place hfile hftok hdatabuf, hprivate, Ne,
    ofInt_eq_iff (by omega) (by omega) (by decide) (by decide)]
  omega

theorem hashpipeDatabufKey_ne_error (hfile : stat env.keyfile = some st)
    (hftok : os.ftok = ftok stat) (hdatabuf : env.HASHPIPE_DATABUF_KEY = none) (a : Int32) :
    hashpipeDatabufKey os env a ≠ hashpipeKeyError := by
  have hlow := st.low_lt
  have herror : hashpipeKeyError = Int32.ofInt (2 ^ 32 - 1) := by decide
  rw [databufKey_eq hfile hftok hdatabuf, herror, Ne,
    ofInt_eq_iff (by omega) (by omega) (by decide) (by decide)]
  omega

/-! ### Any order of steps -/

theorem createLeaves_keyed {base : Int32} {m : ℕ} (hbase : base ≠ hashpipeKeyError)
    (hkey : databufKey base m ≠ ipcPrivate) (c : DatabufCreate) (s : IpcSystem) :
    createLeaves base m c s = s.putKeyed (databufKey base m)
      (hashpipeDatabufCreate c.args c.heap c.answers (s.objects (.key (databufKey base m)))).2 := by
  rw [createLeaves, if_neg hbase, if_neg hkey]

/-- What an instance finds is its own doing. -/
theorem instances_separate (hfile : stat env.keyfile = some st) (hftok : os.ftok = ftok stat)
    (hdatabuf : env.HASHPIPE_DATABUF_KEY = none) (instance_id : Int32) :
    Isolation.Separate (instanceNext os env) (stepOk os env) (fun s => Apart s.objects)
      (ofInstance instance_id) (databufsOf os env instance_id) where
  keeps := by
    intro s a hs hok
    cases a with
    | create a m c =>
      show Apart (createLeaves _ m c s).objects
      rw [createLeaves_keyed (hashpipeDatabufKey_ne_error hfile hftok hdatabuf a)
        (databufKey_ne_private hfile hftok hdatabuf a hok.1)]
      exact hs.update (create_headerFrom _) hok.2
    | clean a i calls => exact hs.removed (removed_cleanDatabuf 0)
  others := by
    intro s a hs hok hother
    have hne : a.instanceId.toInt % 64 ≠ instance_id.toInt % 64 := by
      simpa [ofInstance] using hother
    funext l
    have hl : (l : ℕ) ≤ maxHashpipeThreads := Nat.le_of_lt_succ l.isLt
    cases a with
    | create a m c =>
      show (createLeaves _ m c s).objects _ = s.objects _
      rw [createLeaves_keyed (hashpipeDatabufKey_ne_error hfile hftok hdatabuf a)
        (databufKey_ne_private hfile hftok hdatabuf a hok.1)]
      apply IpcSystem.putKeyed_other
      intro heq
      exact hne ((databufKey_eq_iff hfile hftok hdatabuf hl hok.1).mp heq).1.symm
    | clean a i calls =>
      have hi : i ≤ maxHashpipeThreads := hok.2.trans (by decide)
      apply hs.cleanDatabuf_other
      intro heq
      have hkeys := (databufKey_eq_iff hfile hftok hdatabuf hl hi).mp (Place.key.inj heq)
      exact hne hkeys.1.symm
  own := by
    intro s t a hok hmine heq
    have hinstance : a.instanceId.toInt % 64 = instance_id.toInt % 64 := by
      simpa [ofInstance] using hmine
    have hbase : hashpipeDatabufKey os env a.instanceId = hashpipeDatabufKey os env instance_id := by
      rw [databufKey_eq hfile hftok hdatabuf, databufKey_eq hfile hftok hdatabuf, hinstance]
    have hview : ∀ m ≤ maxHashpipeThreads,
        s.objects (.key (databufKey (hashpipeDatabufKey os env instance_id) m)) =
          t.objects (.key (databufKey (hashpipeDatabufKey os env instance_id) m)) :=
      fun m hm => congrFun heq ⟨m, Nat.lt_succ_of_le hm⟩
    funext l
    have hl : (l : ℕ) ≤ maxHashpipeThreads := Nat.le_of_lt_succ l.isLt
    cases a with
    | create a m c =>
      show (createLeaves _ m c s).objects _ = (createLeaves _ m c t).objects _
      rw [createLeaves_keyed (hashpipeDatabufKey_ne_error hfile hftok hdatabuf a)
          (databufKey_ne_private hfile hftok hdatabuf a hok.1),
        createLeaves_keyed (hashpipeDatabufKey_ne_error hfile hftok hdatabuf a)
          (databufKey_ne_private hfile hftok hdatabuf a hok.1)]
      have hbase' : hashpipeDatabufKey os env a = hashpipeDatabufKey os env instance_id := hbase
      rw [hbase', hview m hok.1]
      by_cases hkey : databufKey (hashpipeDatabufKey os env instance_id) l =
          databufKey (hashpipeDatabufKey os env instance_id) m
      · rw [hkey, IpcSystem.putKeyed_self, IpcSystem.putKeyed_self]
      · rw [IpcSystem.putKeyed_other _ _ _ hkey, IpcSystem.putKeyed_other _ _ _ hkey]
        exact hview l hl
    | clean a i calls =>
      have hbase' : hashpipeDatabufKey os env a = hashpipeDatabufKey os env instance_id := hbase
      show (cleanDatabuf (hashpipeDatabufKey os env a) calls (0, s.objects) i).2 _ =
        (cleanDatabuf (hashpipeDatabufKey os env a) calls (0, t.objects) i).2 _
      rw [hbase']
      exact cleanDatabuf_congr 0 (hview i (hok.2.trans (by decide))) (hview l hl)

/-- **In any order of creations and removals, of any number of instances, an instance finds at its
keys what it would find there without the others.** -/
theorem instances_isolated (hfile : stat env.keyfile = some st) (hftok : os.ftok = ftok stat)
    (hdatabuf : env.HASHPIPE_DATABUF_KEY = none) {s : IpcSystem} (hs : Apart s.objects)
    {steps : List InstanceStep} (hok : Isolation.Allowed (instanceNext os env) (stepOk os env) s steps)
    (instance_id : Int32) :
    databufsOf os env instance_id (steps.foldl (instanceNext os env) s) =
      databufsOf os env instance_id
        ((steps.filter (ofInstance instance_id)).foldl (instanceNext os env) s) :=
  (instances_separate hfile hftok hdatabuf instance_id).view_run steps hs hok rfl

end Machine

/-! ### Whole programs -/

/-- The calls of `hashpipe_databuf_create` for the threads from number `k` on. -/
def pipelineSteps (instance_id : Int32) : ℕ → List PipelineThread → List InstanceStep
  | _, [] => []
  | k, t :: ts =>
    (t.ibuf.map (InstanceStep.create instance_id k)).toList ++
      ((t.obuf.map (InstanceStep.create instance_id (k + 1))).toList ++
        pipelineSteps instance_id (k + 1) ts)

/-- The passes of the tool. -/
def toolSteps (instance_id : Int32) (calls : CleanCalls) : List InstanceStep :=
  (List.range' 1 20).map fun i => .clean instance_id i calls

section Programs

variable {os : AttachAnswers} {env : KeyEnv} {instance_id : Int32}

theorem createIf_foldl {m : ℕ} {c : Option DatabufCreate} {s s' : IpcSystem}
    (h : createIf (hashpipeDatabufKey os env instance_id) m c s = some s') :
    (c.map (InstanceStep.create instance_id m)).toList.foldl (instanceNext os env) s = s' := by
  cases c with
  | none =>
    cases h
    rfl
  | some c =>
    show createLeaves _ m c s = s'
    rw [createIf, createDatabuf] at h
    rw [createLeaves]
    split at h
    · cases h
    rename_i hbase
    rw [if_neg hbase]
    split at h
    · rename_i hprivate
      rw [if_pos hprivate]
      simp only at h
      split at h
      · cases h
        rfl
      · cases h
    · rename_i hkey
      rw [if_neg hkey]
      simp only at h
      split at h
      · cases h
        rfl
      · cases h

/-- A pipeline that is initialised has taken the steps of its threads. -/
theorem createDatabufs_foldl (pipeline : List PipelineThread) :
    ∀ {k : ℕ} {s s' : IpcSystem},
      createDatabufs (hashpipeDatabufKey os env instance_id) k pipeline s = some s' →
        (pipelineSteps instance_id k pipeline).foldl (instanceNext os env) s = s' := by
  induction pipeline with
  | nil =>
    intro k s s' h
    cases h
    rfl
  | cons t ts ih =>
    intro k s s' h
    rw [createDatabufs] at h
    split at h
    · cases h
    rename_i s₁ hibuf
    split at h
    · cases h
    rename_i s₂ hobuf
    rw [pipelineSteps, List.foldl_append, List.foldl_append, createIf_foldl hibuf,
      createIf_foldl hobuf]
    exact ih h

/-- The exit status does not change what a pass removes. -/
theorem cleanDatabuf_ex {base : Int32} {calls : CleanCalls} (ex ex' : ℤ)
    (n : IpcNamespace Place Header) (i : ℕ) :
    (cleanDatabuf base calls (ex, n) i).2 = (cleanDatabuf base calls (ex', n) i).2 := by
  rw [cleanDatabuf_removals, cleanDatabuf_removals]

theorem cleanLoop_foldl (calls : CleanCalls) (is : List ℕ) :
    ∀ (ex : ℤ) (s : IpcSystem),
      ((is.map fun i => InstanceStep.clean instance_id i calls).foldl (instanceNext os env) s).objects =
        (is.foldl (cleanDatabuf (hashpipeDatabufKey os env instance_id) calls) (ex, s.objects)).2 := by
  induction is with
  | nil => exact fun _ _ => rfl
  | cons i is ih =>
    intro ex s
    rw [List.map_cons, List.foldl_cons, List.foldl_cons]
    have hpass := ih (cleanDatabuf (hashpipeDatabufKey os env instance_id) calls (ex, s.objects) i).1
      (instanceNext os env s (.clean instance_id i calls))
    rw [hpass]
    show (is.foldl _ (_, (cleanDatabuf _ calls (0, s.objects) i).2)).2 = _
    rw [cleanDatabuf_ex 0 ex]

/-- The tool takes its steps, or stops before its loop. -/
theorem hashpipeCleanShmem_steps {calls : CleanCalls} {opts : List CleanOption} {a : CleanArgs}
    (hopts : cleanOptions ⟨env, 0, false⟩ opts = .ok a) {s : IpcSystem} {ex : ℤ}
    {n' : IpcNamespace Place Header}
    (h : hashpipeCleanShmem os calls env opts s.objects = some (ex, n')) :
    n' = s.objects ∨
      n' = ((toolSteps a.instance_id calls).foldl (instanceNext os a.env) s).objects := by
  rw [hashpipeCleanShmem, hopts] at h
  simp only at h
  split at h
  · cases h
  · split at h
    · cases h
      exact .inl rfl
    · split at h
      · cases h
        exact .inl rfl
      · rw [toolSteps, cleanLoop_foldl calls _ (deleteStatus calls a.delete_status)]
        exact .inr (congrArg Prod.snd (Option.some.inj h)).symm

end Programs

section Tool

variable {os : AttachAnswers} {stat : CString → Option FileStat} {env : KeyEnv} {st : FileStat}

/-- **The tool, run for an instance after any order of steps, leaves the databufs of all other
instances as they are**, whichever of its calls fail. -/
theorem clean_spares_others (hfile : stat env.keyfile = some st) (hftok : os.ftok = ftok stat)
    (hdatabuf : env.HASHPIPE_DATABUF_KEY = none) {s : IpcSystem} (hs : Apart s.objects)
    {steps : List InstanceStep} (hok : Isolation.Allowed (instanceNext os env) (stepOk os env) s steps)
    {calls : CleanCalls} {opts : List CleanOption} {a : CleanArgs}
    (hopts : cleanOptions ⟨env, 0, false⟩ opts = .ok a) (henv : a.env = env) {instance_id : Int32}
    (hother : a.instance_id.toInt % 64 ≠ instance_id.toInt % 64) {ex : ℤ}
    {n' : IpcNamespace Place Header}
    (h : hashpipeCleanShmem os calls env opts
      (steps.foldl (instanceNext os env) s).objects = some (ex, n')) :
    ∀ databuf_id ≤ maxHashpipeThreads,
      n' (.key (databufKey (hashpipeDatabufKey os env instance_id) databuf_id)) =
        (steps.foldl (instanceNext os env) s).objects
          (.key (databufKey (hashpipeDatabufKey os env instance_id) databuf_id)) := by
  intro m hm
  have hseparate := instances_separate hfile hftok hdatabuf instance_id
  rcases hashpipeCleanShmem_steps hopts h with rfl | rfl
  · rfl
  have hpass : ∀ b ∈ toolSteps a.instance_id calls, ∃ i, b = .clean a.instance_id i calls ∧
      1 ≤ i ∧ i ≤ 20 := by
    intro b hb
    obtain ⟨i, hi, rfl⟩ := List.mem_map.mp hb
    have hi' := List.mem_range'_1.mp hi
    exact ⟨i, rfl, hi'.1, by omega⟩
  have hnone : (toolSteps a.instance_id calls).filter (ofInstance instance_id) = [] := by
    refine List.filter_eq_nil_iff.mpr fun b hb => ?_
    obtain ⟨i, rfl, -⟩ := hpass b hb
    simpa [ofInstance, InstanceStep.instanceId] using hother
  have hallowed : Isolation.Allowed (instanceNext os env) (stepOk os env)
      (steps.foldl (instanceNext os env) s) (toolSteps a.instance_id calls) := by
    refine Isolation.allowed_of_forall fun t b hb => ?_
    obtain ⟨i, rfl, hi⟩ := hpass b hb
    exact hi
  have hview := hseparate.view_run (toolSteps a.instance_id calls)
    (hseparate.inv_run steps hs hok) hallowed rfl
  rw [hnone] at hview
  rw [henv]
  exact congrFun hview ⟨m, Nat.lt_succ_of_le hm⟩

end Tool

/-! ### Two instances -/

def noMachine : IpcSystem := ⟨fun _ => Ipc.empty, 0⟩

/-- A kernel without huge pages that gives out `id`. -/
def givesOut (id : ℕ) : CreateCall → IpcAnswer
  | .shmget1GB | .shmget2MB => .fail .ENOMEM
  | _ => .ok id

/-- Two instances with a databuf each, and the tool at that of the first. -/
def twoInstances : List InstanceStep :=
  [.create 0 1 ⟨smallArgs, fun _ => 0, givesOut 7⟩, .create 1 1 ⟨smallArgs, fun _ => 0, givesOut 8⟩,
    .clean 0 1 allSucceed]

/-- What a creation leaves where nothing was. -/
def madeWith (id : ℕ) : Ipc Header :=
  (hashpipeDatabufCreate smallArgs (fun _ => 0) (givesOut id) Ipc.empty).2

/-- A databuf whose objects and header have one identifier. -/
structure AllNamed (id : ℕ) (k : Ipc Header) : Prop where
  shm : k.shm.map (fun seg => (seg.shmid, seg.content.shmid, seg.content.semid)) =
    some (id, (id : ℤ), (id : ℤ))
  sem : k.sem.map SemRecord.semid = some id

theorem allNamed_7 : AllNamed 7 (madeWith 7) := ⟨by decide, by decide⟩

theorem allNamed_8 : AllNamed 8 (madeWith 8) := ⟨by decide, by decide⟩

theorem AllNamed.segment {id : ℕ} {k : Ipc Header} (h : AllNamed id k) {seg : Segment Header}
    (hseg : k.shm = some seg) :
    seg.shmid = id ∧ seg.content.shmid = id ∧ seg.content.semid = id := by
  have hshm := h.shm
  rw [hseg] at hshm
  simpa using hshm

theorem AllNamed.record {id : ℕ} {k : Ipc Header} (h : AllNamed id k) {r : SemRecord}
    (hr : k.sem = some r) : r.semid = id := by
  have hsem := h.sem
  rw [hr] at hsem
  simpa using hsem

/-- A databuf is made with new identifiers next to another one. -/
theorem AllNamed.fresh {n : IpcNamespace Place Header} {p : Place} {id other : ℕ}
    {k : Ipc Header} (hk : AllNamed id k) (hid : id ≠ 0) (hother : other ≠ id)
    (hn : ∀ q ≠ p, n q = Ipc.empty ∨ AllNamed other (n q)) : Fresh n p k where
  nonzero := by
    intro _ seg hseg
    rw [(hk.segment hseg).1]
    exact hid
  shm := by
    intro _ seg hseg q hq t ht
    rcases hn q hq with hempty | hnamed
    · rw [hempty] at ht
      cases ht
    · rw [(hk.segment hseg).1, (hnamed.segment ht).1, (hnamed.segment ht).2.1]
      exact ⟨hother, by exact_mod_cast hother⟩
  sem := by
    intro _ r hr q hq
    rw [hk.record hr]
    rcases hn q hq with hempty | hnamed
    · rw [hempty]
      exact ⟨fun t ht => (by cases ht), fun t ht => (by cases ht)⟩
    · refine ⟨fun t ht => ?_, fun t ht _ => ?_⟩
      · rw [hnamed.record ht]
        exact hother
      · rw [(hnamed.segment ht).2.2]
        exact_mod_cast hother

def homeDatabuf (instance_id : Int32) : Place :=
  .key (databufKey (hashpipeDatabufKey oneFileAnswers homeKeyEnv instance_id) 1)

theorem twoInstances_allowed : Isolation.Allowed (instanceNext oneFileAnswers homeKeyEnv)
    (stepOk oneFileAnswers homeKeyEnv) noMachine twoInstances := by
  have hfirst : Fresh noMachine.objects (homeDatabuf 0) (madeWith 7) :=
    @AllNamed.fresh _ _ _ 8 _ allNamed_7 (by decide) (by decide) fun _ _ => .inl rfl
  have hsecond : Fresh (Function.update noMachine.objects (homeDatabuf 0) (madeWith 7))
      (homeDatabuf 1) (madeWith 8) := by
    refine @AllNamed.fresh _ _ _ 7 _ allNamed_8 (by decide) (by decide) fun q _ => ?_
    by_cases hq : q = homeDatabuf 0
    · rw [hq, Function.update_self]
      exact .inr allNamed_7
    · rw [Function.update_of_ne hq]
      exact .inl rfl
  exact ⟨⟨by decide, hfirst⟩, ⟨by decide, hsecond⟩, ⟨by decide, by decide⟩, trivial⟩

theorem instances_isolated_twoInstances :
    databufsOf oneFileAnswers homeKeyEnv 1
        (twoInstances.foldl (instanceNext oneFileAnswers homeKeyEnv) noMachine) =
      databufsOf oneFileAnswers homeKeyEnv 1
        ((twoInstances.filter (ofInstance 1)).foldl (instanceNext oneFileAnswers homeKeyEnv)
          noMachine) :=
  @instances_isolated oneFileAnswers oneFile homeKeyEnv ⟨2049, 131073⟩ rfl rfl rfl noMachine
    apart_empty twoInstances twoInstances_allowed 1

/-- With the identifier 0 in use, the tool would remove another instance's databuf: the first
instance's `shmat` has failed, and its header is still zero. -/
example : (([.create 1 1 ⟨smallArgs, fun _ => 0, givesOut 0⟩,
      .create 0 1 ⟨smallArgs, fun _ => 0, fun c => if c = .shmat then .fail .other else givesOut 8 c⟩,
      .clean 0 1 allSucceed].foldl (instanceNext oneFileAnswers homeKeyEnv) noMachine).objects
    (.key (databufKey (hashpipeDatabufKey oneFileAnswers homeKeyEnv 1) 1))).shm.isSome = false := by
  decide

end Hashpipe.Instances
