import Hashpipe.PipelineDatabufs

/-!
# Cleaning up after a pipeline

`hashpipe_clean_shmem.c`: the tool "clears status buffer and deletes data buffers for specified
Hashpipe instance".  It looks for the databufs 1 to 20 and takes the identifiers of the segment
and of the semaphore set from the header of each, where it holds 0 for no semaphore set.

`hashpipe` numbers the databufs of a pipeline from 0 and has no bound at 20, and the kernel's
first semaphore set has the identifier 0 (`clean_removes_all_iff`).
-/

namespace Hashpipe.CleanShmem

open ByteMemory CNumber SysVIpc Databuf CommandLine IpcKey Status PipelineDatabufs

/-- An option as `getopt_long` returns it. -/
inductive CleanOption
  | delete
  | help
  | shmkey (optarg : CString)
  | instanceId (optarg : List UInt8)
  | unknown

/-- What the options have set, with the environment. -/
structure CleanArgs where
  env : KeyEnv
  instance_id : Int32
  delete_status : Bool

/-- `optarg` behind `"HASHPIPE_KEYFILE="` in `keyfile[1000]`. -/
def keyfileCut (optarg : CString) : CString :=
  ⟨optarg.bytes.take 982, fun c hc => optarg.noNul c (List.mem_of_mem_take hc)⟩

/-- One pass of the option loop; an error is the status that the tool exits with. -/
def cleanOption (a : CleanArgs) : CleanOption → Except ℤ CleanArgs
  | .delete => .ok { a with delete_status := true }
  | .help => .error 0
  | .shmkey optarg =>
    .ok { a with env := { a.env with HASHPIPE_KEYFILE := some (keyfileCut optarg) } }
  | .instanceId optarg => .ok { a with instance_id := atoi optarg }
  | .unknown => .error 1

def cleanOptions : CleanArgs → List CleanOption → Except ℤ CleanArgs
  | a, [] => .ok a
  | a, o :: opts =>
    match cleanOption a o with
    | .error status => .error status
    | .ok a => cleanOptions a opts

/-- What the calls come back with, those of the loop for each `i`.  A removal that succeeds
removes what has the identifier. -/
structure CleanCalls where
  statusAttach : ℤ
  rmStatus : Bool
  unlinkStatus : Bool
  shmget : ℕ → Bool
  shmat : ℕ → Bool
  rmSemaphores : ℕ → Bool
  rmSegment : ℕ → Bool

structure CleanCalls.Succeed (calls : CleanCalls) : Prop where
  statusAttach : calls.statusAttach = hashpipeOk
  rmStatus : calls.rmStatus = true
  unlinkStatus : calls.unlinkStatus = true
  shmget : ∀ i, calls.shmget i = true
  shmat : ∀ i, calls.shmat i = true
  rmSemaphores : ∀ i, calls.rmSemaphores i = true
  rmSegment : ∀ i, calls.rmSegment i = true

/-- `hashpipe_databuf_attach`, with `base` for `hashpipe_databuf_key`: the header seen through
the mapping, or NULL.  `shmget` of no bytes with `IPC_PRIVATE` fails. -/
def hashpipeDatabufAttach (base : Int32) (calls : CleanCalls) (databuf_id : ℕ)
    (n : IpcNamespace Place Header) : Option Header :=
  if base = hashpipeKeyError then none
  else if databufKey base databuf_id = ipcPrivate then none
  else
    let k := n (.key (databufKey base databuf_id))
    match shmgetOpen k 0 (if calls.shmget databuf_id then .ok 0 else .fail .other) with
    | .error _ => none
    | .ok _ => if calls.shmat databuf_id then some (mapped k) else none

/-- One pass of the loop over the databufs; the first component is `ex`. -/
def cleanDatabuf (base : Int32) (calls : CleanCalls) (r : ℤ × IpcNamespace Place Header) (i : ℕ) :
    ℤ × IpcNamespace Place Header :=
  match hashpipeDatabufAttach base calls i r.2 with
  | none => r
  | some d =>
    let r := if d.semid ≠ 0 then
        if calls.rmSemaphores i then (r.1, rmSem r.2 d.semid) else (1, r.2)
      else r
    if calls.rmSegment i then (r.1, rmShm r.2 d.shmid) else (1, r.2)

/-- `for (i=1; i<=20; i++)`. -/
def cleanDatabufs (base : Int32) (calls : CleanCalls) (ex : ℤ) (n : IpcNamespace Place Header) :
    ℤ × IpcNamespace Place Header :=
  (List.range' 1 20).foldl (cleanDatabuf base calls) (ex, n)

/-- `ex` after the status buffer is deleted (with `-d`) or cleared. -/
def deleteStatus (calls : CleanCalls) (delete_status : Bool) : ℤ :=
  if delete_status then
    (if calls.rmStatus then 0 else 1) + (if calls.unlinkStatus then 0 else 2)
  else 0

/-- `main` of the tool: its exit status and what is left; `none` if it does not end. -/
def hashpipeCleanShmem (os : AttachAnswers) (calls : CleanCalls) (env : KeyEnv)
    (opts : List CleanOption) (n : IpcNamespace Place Header) :
    Option (ℤ × IpcNamespace Place Header) :=
  match cleanOptions ⟨env, 0, false⟩ opts with
  | .error status => some (status, n)
  | .ok a =>
    match hashpipeStatusSemname a.env.toStatusEnv a.instance_id nameMax (fun _ => 0) with
    | none => none
    | some (_, rc) =>
      if rc ≠ 0 then some (1, n)
      else if calls.statusAttach ≠ hashpipeOk then some (1, n)
      else some (cleanDatabufs (hashpipeDatabufKey os a.env a.instance_id) calls
        (deleteStatus calls a.delete_status) n)

/-- Every databuf of the pipeline is one that the tool finds and removes. -/
structure Reached (base : Int32) (pipeline : List PipelineThread)
    (n : IpcNamespace Place Header) : Prop where
  looped : ∀ i ∈ databufIds 0 pipeline, 1 ≤ i ∧ i ≤ 20
  keyed : ∀ i ∈ databufIds 0 pipeline, databufKey base i ≠ ipcPrivate
  /-- Its semaphore set does not have the identifier 0. -/
  nonzero : ∀ i ∈ databufIds 0 pipeline, ∀ r,
    (n (.key (databufKey base i))).sem = some r → r.semid ≠ 0

/-! ### One databuf -/

/-- What one pass leaves at the key it visits. -/
def cleaned (k : Ipc Header) : Ipc Header :=
  if k.shm.isSome then { shm := none, sem := if (mapped k).semid ≠ 0 then none else k.sem } else k

theorem cleaned_empty : cleaned Ipc.empty = Ipc.empty := rfl

theorem cleaned_complete {k : Ipc Header} (h : Complete k) :
    cleaned k = Ipc.empty ↔ ∀ r, k.sem = some r → r.semid ≠ 0 := by
  obtain ⟨seg, hseg, -⟩ := h.segment
  obtain ⟨r, hr, hsemid⟩ := h.semaphores
  have hsome : k.shm.isSome = true := by rw [hseg]; rfl
  rw [cleaned, if_pos hsome, hsemid, hr]
  by_cases hzero : r.semid = 0
  · rw [if_neg (by simpa using hzero)]
    refine iff_of_false (fun h => ?_) (fun h => h r rfl hzero)
    cases congrArg Ipc.sem h
  · rw [if_pos (by simpa using hzero)]
    refine iff_of_true rfl fun r' hr' => ?_
    cases hr'
    exact hzero

/-- Nothing is at the key, or a databuf that the tool can attach to. -/
def Attachable (base : Int32) (i : ℕ) (k : Ipc Header) : Prop :=
  k = Ipc.empty ∨ base ≠ hashpipeKeyError ∧ databufKey base i ≠ ipcPrivate ∧ Complete k

section Loop

variable {base : Int32} {calls : CleanCalls} {n : IpcNamespace Place Header} {i : ℕ} {ex : ℤ}

theorem attach_empty (h : n (.key (databufKey base i)) = Ipc.empty) :
    hashpipeDatabufAttach base calls i n = none := by
  rw [hashpipeDatabufAttach, h]
  split
  · rfl
  split
  · rfl
  cases calls.shmget i <;> rfl

theorem attach_complete (hcalls : calls.Succeed) (hbase : base ≠ hashpipeKeyError)
    (hkey : databufKey base i ≠ ipcPrivate) (h : Complete (n (.key (databufKey base i)))) :
    hashpipeDatabufAttach base calls i n = some (mapped (n (.key (databufKey base i)))) := by
  obtain ⟨seg, hseg, -⟩ := h.segment
  rw [hashpipeDatabufAttach, if_neg hbase, if_neg hkey, hcalls.shmget, hcalls.shmat]
  simp [shmgetOpen, hseg]

/-- One pass changes what is at the key, and nothing else. -/
theorem cleanDatabuf_eq (hcalls : calls.Succeed) (hn : DistinctIds n)
    (h : Attachable base i (n (.key (databufKey base i)))) :
    cleanDatabuf base calls (ex, n) i =
      (ex, Function.update n (.key (databufKey base i)) (cleaned (n (.key (databufKey base i))))) := by
  rcases h with hempty | ⟨hbase, hkey, hcomplete⟩
  · rw [cleanDatabuf, attach_empty hempty, hempty, cleaned_empty, ← hempty,
      Function.update_eq_self]
  · obtain ⟨seg, hseg, hshmid⟩ := hcomplete.segment
    obtain ⟨r, hr, hsemid⟩ := hcomplete.semaphores
    have hsome : (n (.key (databufKey base i))).shm.isSome = true := by rw [hseg]; rfl
    rw [cleanDatabuf, attach_complete hcalls hbase hkey hcomplete]
    simp only [hcalls.rmSemaphores, hcalls.rmSegment, if_true]
    by_cases hzero : (mapped (n (.key (databufKey base i)))).semid = 0
    · rw [if_neg (not_not.mpr hzero), hshmid]
      show (ex, rmShm n seg.shmid) = _
      rw [rmShm_eq hn hseg, cleaned, if_pos hsome, if_neg (not_not.mpr hzero)]
      rfl
    · rw [if_pos hzero, hshmid, hsemid]
      show (ex, rmShm (rmSem n r.semid) seg.shmid) = _
      rw [rmSem_eq hn hr]
      have hn' : DistinctIds (Function.update n (.key (databufKey base i))
          (n (.key (databufKey base i))).dropSem) :=
        hn.removed (fun _ h => h) fun _ h => by cases h
      have hseg' : (Function.update n (.key (databufKey base i))
          (n (.key (databufKey base i))).dropSem (.key (databufKey base i))).shm = some seg := by
        rw [Function.update_self]
        exact hseg
      rw [rmShm_eq hn' hseg', Function.update_self, Function.update_idem, cleaned, if_pos hsome,
        if_pos hzero]
      rfl

theorem cleaned_removed (k : Ipc Header) : (∀ s, (cleaned k).shm = some s → k.shm = some s) ∧
    ∀ r, (cleaned k).sem = some r → k.sem = some r := by
  unfold cleaned
  split
  · refine ⟨fun s h => (by cases h), fun r h => ?_⟩
    split at h
    · cases h
    · exact h
  · exact ⟨fun _ h => h, fun _ h => h⟩

/-- All passes over databufs that are different. -/
theorem cleanLoop_eq (hcalls : calls.Succeed) (is : List ℕ) :
    ∀ {n : IpcNamespace Place Header}, DistinctIds n → is.Nodup →
      (∀ i ∈ is, i ≤ maxHashpipeThreads) →
      (∀ i ∈ is, Attachable base i (n (.key (databufKey base i)))) →
      is.foldl (cleanDatabuf base calls) (ex, n) =
        (ex, (is.map fun i => Place.key (databufKey base i)).foldl
          (fun n p => Function.update n p (cleaned (n p))) n) := by
  induction is with
  | nil => exact fun _ _ _ _ => rfl
  | cons i is ih =>
    intro n hn hnodup hle hown
    have hle' := List.forall_mem_cons.mp hle
    have hown' := List.forall_mem_cons.mp hown
    have hremoved := cleaned_removed (n (.key (databufKey base i)))
    rw [List.foldl_cons, List.map_cons, List.foldl_cons, cleanDatabuf_eq hcalls hn hown'.1]
    refine ih (hn.removed hremoved.1 hremoved.2) (List.nodup_cons.mp hnodup).2 hle'.2 ?_
    intro j hj
    have hne : databufKey base j ≠ databufKey base i := by
      intro heq
      have hji := databufKey_inj (hle'.2 j hj) hle'.1 heq
      exact (List.nodup_cons.mp hnodup).1 (hji ▸ hj)
    rw [Function.update_of_ne (by simpa using hne)]
    exact hown'.2 j hj

end Loop

/-! ### All databufs of a pipeline -/

section Pipeline

variable {base : Int32} {calls : CleanCalls} {ids : List ℕ} {s : IpcSystem} {i : ℕ} {ex : ℤ}

theorem attachable_of_holds (h : Holds base ids s) (hi : i ≤ maxHashpipeThreads) :
    Attachable base i (s.objects (.key (databufKey base i))) := by
  by_cases hin : i ∈ ids
  · by_cases hkey : databufKey base i = ipcPrivate
    · exact .inl (h.others i hi (.inr hkey))
    · exact .inr ⟨h.hasKey i hin, hkey, h.made i hin hkey⟩
  · exact .inl (h.others i hi (.inl hin))

/-- The loop visits the databufs 1 to 20. -/
theorem mem_visited (hi : i ≤ maxHashpipeThreads) :
    Place.key (databufKey base i) ∈
        (List.range' 1 20).map (fun i => Place.key (databufKey base i)) ↔ 1 ≤ i ∧ i ≤ 20 := by
  have hrange : ∀ j, j ∈ List.range' 1 20 ↔ 1 ≤ j ∧ j ≤ 20 := by
    intro j
    rw [List.mem_range'_1]
    omega
  rw [List.mem_map]
  constructor
  · rintro ⟨j, hj, heq⟩
    have hj20 := (hrange j).mp hj
    have hji := databufKey_inj (hj20.2.trans (by decide)) hi (Place.key.inj heq)
    exact hji ▸ hj20
  · intro h
    exact ⟨i, (hrange i).mpr h, rfl⟩

/-- What the loop leaves. -/
theorem cleanDatabufs_spec (h : Holds base ids s) (hcalls : calls.Succeed)
    (hn : DistinctIds s.objects) : ∃ n', cleanDatabufs base calls ex s.objects = (ex, n') ∧
      (∀ i ≤ maxHashpipeThreads, n' (.key (databufKey base i)) =
        if 1 ≤ i ∧ i ≤ 20 then cleaned (s.objects (.key (databufKey base i)))
        else s.objects (.key (databufKey base i))) ∧
      ∀ j, n' (.unkeyed j) = s.objects (.unkeyed j) := by
  have hle : ∀ i ∈ List.range' 1 20, i ≤ maxHashpipeThreads := by
    intro i hi
    have hi20 : i < 1 + 20 := (List.mem_range'_1.mp hi).2
    exact (show i ≤ 20 by omega).trans (by decide)
  have hnodup : ((List.range' 1 20).map fun i => Place.key (databufKey base i)).Nodup := by
    apply List.Nodup.map_on _ List.nodup_range'
    intro i hi j hj heq
    exact databufKey_inj (hle i hi) (hle j hj) (Place.key.inj heq)
  refine ⟨_, cleanLoop_eq hcalls (List.range' 1 20) hn List.nodup_range' hle
    fun i hi => attachable_of_holds h (hle i hi), ?_, ?_⟩
  · intro i hi
    rw [foldl_update_apply cleaned hnodup]
    exact if_congr (mem_visited hi) rfl rfl
  · intro j
    rw [foldl_update_apply cleaned hnodup]
    apply if_neg
    simp

theorem complete_ne_empty {k : Ipc Header} (h : Complete k) : k ≠ Ipc.empty := by
  rintro rfl
  obtain ⟨seg, hseg, -⟩ := h.segment
  cases hseg

/-- Nothing is left exactly when each databuf was at a key, visited, and had a semaphore set whose
identifier is not 0. -/
theorem noDatabufs_iff (h : Holds base ids s) (hids : ∀ i ∈ ids, i ≤ maxHashpipeThreads)
    {n' : IpcNamespace Place Header}
    (hkeyed : ∀ i ≤ maxHashpipeThreads, n' (.key (databufKey base i)) =
      if 1 ≤ i ∧ i ≤ 20 then cleaned (s.objects (.key (databufKey base i)))
      else s.objects (.key (databufKey base i)))
    (hunkeyed : ∀ j, n' (.unkeyed j) = s.objects (.unkeyed j)) :
    NoDatabufs base n' ↔ ∀ i ∈ ids, (1 ≤ i ∧ i ≤ 20) ∧ databufKey base i ≠ ipcPrivate ∧
      ∀ r, (s.objects (.key (databufKey base i))).sem = some r → r.semid ≠ 0 := by
  constructor
  · intro hnone i hi
    have hkey : databufKey base i ≠ ipcPrivate := by
      intro hprivate
      have hpos := h.unkeyed_iff.mpr ⟨i, hi, hprivate⟩
      exact complete_ne_empty (h.unkeyed 0 hpos) ((hunkeyed 0).symm.trans (hnone.unkeyed 0))
    have hmade := h.made i hi hkey
    have hleft := (hkeyed i (hids i hi)).symm.trans (hnone.keyed i (hids i hi))
    by_cases hloop : 1 ≤ i ∧ i ≤ 20
    · rw [if_pos hloop] at hleft
      exact ⟨hloop, hkey, (cleaned_complete hmade).mp hleft⟩
    · rw [if_neg hloop] at hleft
      exact absurd hleft (complete_ne_empty hmade)
  · intro hreached
    constructor
    · intro i hi
      rw [hkeyed i hi]
      by_cases hin : i ∈ ids
      · obtain ⟨hloop, hkey, hsemid⟩ := hreached i hin
        rw [if_pos hloop]
        exact (cleaned_complete (h.made i hin hkey)).mpr hsemid
      · rw [h.others i hi (.inl hin), cleaned_empty, ite_self]
    · intro j
      have hnone : ¬ 0 < s.unkeyed := by
        intro hpos
        obtain ⟨i, hi, hprivate⟩ := h.unkeyed_iff.mp hpos
        exact (hreached i hi).2.1 hprivate
      rw [hunkeyed j]
      exact h.unkeyed_free j (by omega)

theorem reached_iff {pipeline : List PipelineThread} {n : IpcNamespace Place Header} :
    Reached base pipeline n ↔ ∀ i ∈ databufIds 0 pipeline, (1 ≤ i ∧ i ≤ 20) ∧
      databufKey base i ≠ ipcPrivate ∧
      ∀ r, (n (.key (databufKey base i))).sem = some r → r.semid ≠ 0 :=
  ⟨fun h i hi => ⟨h.looped i hi, h.keyed i hi, h.nonzero i hi⟩,
    fun h => ⟨fun i hi => (h i hi).1, fun i hi => (h i hi).2.1, fun i hi => (h i hi).2.2⟩⟩

theorem cleanDatabufs_pipeline (ex : ℤ) (hcalls : calls.Succeed) {pipeline : List PipelineThread}
    (hlen : pipeline.length ≤ maxHashpipeThreads) {n : IpcNamespace Place Header}
    (hn : NoDatabufs base n) (hbuilt : createDatabufs base 0 pipeline ⟨n, 0⟩ = some s)
    (hids : DistinctIds s.objects) : ∃ n', cleanDatabufs base calls ex s.objects = (ex, n') ∧
      (NoDatabufs base n' ↔ Reached base pipeline s.objects) := by
  have hholds := pipeline_holds hn hlen hbuilt
  have hle : ∀ i ∈ databufIds 0 pipeline, i ≤ maxHashpipeThreads := by
    intro i hi
    have hi' := databufIds_le hi
    omega
  obtain ⟨n', hloop, hkeyed, hunkeyed⟩ := cleanDatabufs_spec hholds hcalls hids
  exact ⟨n', hloop, (noDatabufs_iff hholds hle hkeyed hunkeyed).trans reached_iff.symm⟩

end Pipeline

/-! ### The tool -/

theorem hashpipeDatabufKey_congr (os : AttachAnswers) (env : KeyEnv) {a b : Int32}
    (h : instanceBits a = instanceBits b) :
    hashpipeDatabufKey os env a = hashpipeDatabufKey os env b := by
  rw [hashpipeDatabufKey, hashpipeDatabufKey, h]

/-- When its calls succeed, the tool gets to its loop. -/
theorem hashpipeCleanShmem_eq {os : AttachAnswers} {calls : CleanCalls} (hcalls : calls.Succeed)
    {env : KeyEnv} {opts : List CleanOption} {a : CleanArgs}
    (hopts : cleanOptions ⟨env, 0, false⟩ opts = .ok a)
    (hname : (hashpipeStatusSemname a.env.toStatusEnv a.instance_id nameMax
      (fun _ => 0)).map Prod.snd = some 0) (n : IpcNamespace Place Header) :
    hashpipeCleanShmem os calls env opts n =
      some (cleanDatabufs (hashpipeDatabufKey os a.env a.instance_id) calls 0 n) := by
  obtain ⟨⟨semid, rc⟩, hsem, hrc⟩ := Option.map_eq_some_iff.mp hname
  have hrc' : rc = 0 := hrc
  have hexit : deleteStatus calls a.delete_status = 0 := by
    simp [deleteStatus, hcalls.rmStatus, hcalls.unlinkStatus]
  rw [hashpipeCleanShmem, hopts]
  simp only [hsem, hrc', hcalls.statusAttach, hexit, ne_eq, not_true_eq_false, if_false]

/-- The tool, run in the environment and for the instance of a pipeline, exits with 0 when its
calls succeed.  It leaves nothing of the pipeline's databufs if and only if they all are among
the databufs 1 to 20, have keys, and have semaphore sets with identifiers other than 0. -/
theorem clean_removes_all_iff {os : AttachAnswers} {calls : CleanCalls} (hcalls : calls.Succeed)
    {env : KeyEnv} {opts : List CleanOption} {a : CleanArgs}
    (hopts : cleanOptions ⟨env, 0, false⟩ opts = .ok a)
    (hname : (hashpipeStatusSemname a.env.toStatusEnv a.instance_id nameMax
      (fun _ => 0)).map Prod.snd = some 0)
    {instance_id : Int32} (hinstance : instanceBits a.instance_id = instanceBits instance_id)
    {pipeline : List PipelineThread} (hlen : pipeline.length ≤ maxHashpipeThreads)
    {n : IpcNamespace Place Header} {s : IpcSystem}
    (hn : NoDatabufs (hashpipeDatabufKey os a.env instance_id) n)
    (hbuilt : createDatabufs (hashpipeDatabufKey os a.env instance_id) 0 pipeline ⟨n, 0⟩ = some s)
    (hids : DistinctIds s.objects) :
    ∃ n', hashpipeCleanShmem os calls env opts s.objects = some (0, n') ∧
      (NoDatabufs (hashpipeDatabufKey os a.env instance_id) n' ↔
        Reached (hashpipeDatabufKey os a.env instance_id) pipeline s.objects) := by
  obtain ⟨n', hloop, hiff⟩ := cleanDatabufs_pipeline 0 hcalls hlen hn hbuilt hids
  refine ⟨n', ?_, hiff⟩
  rw [hashpipeCleanShmem_eq hcalls hopts hname, hashpipeDatabufKey_congr os a.env hinstance, hloop]

/-! ### A pipeline with one databuf -/

/-- One thread, with an output databuf. -/
def outputThread (ans : CreateCall → IpcAnswer) : List PipelineThread :=
  [⟨none, some ⟨smallArgs, fun _ => 0, ans⟩⟩]

def homeBase : Int32 := hashpipeDatabufKey oneFileAnswers homeKeyEnv 0

/-- What its databuf is at. -/
def outputObjects (ans : CreateCall → IpcAnswer) : Ipc Header :=
  (hashpipeDatabufCreate smallArgs (fun _ => 0) ans Ipc.empty).2

def outputSystem (ans : CreateCall → IpcAnswer) : IpcSystem :=
  IpcSystem.putKeyed ⟨fun _ => Ipc.empty, 0⟩ (databufKey homeBase 1) (outputObjects ans)

theorem outputSystem_built (ans : CreateCall → IpcAnswer)
    (h : (hashpipeDatabufCreate smallArgs (fun _ => 0) ans Ipc.empty).1.isDatabuf = true) :
    createDatabufs homeBase 0 (outputThread ans) ⟨fun _ => Ipc.empty, 0⟩ =
      some (outputSystem ans) := by
  have hbase : homeBase ≠ hashpipeKeyError := by decide
  have hkey : databufKey homeBase 1 ≠ ipcPrivate := by decide
  simp only [outputThread, createDatabufs, createIf, createDatabuf, if_neg hbase, if_neg hkey, h,
    if_true]
  rfl

theorem outputSystem_distinct (ans : CreateCall → IpcAnswer) :
    DistinctIds (outputSystem ans).objects := by
  have hplace : ∀ p, (outputSystem ans).objects p ≠ Ipc.empty →
      p = .key (databufKey homeBase 1) := by
    intro p hp
    by_contra hne
    exact hp (Function.update_of_ne hne _ _)
  constructor
  · intro p q s t hs ht _
    have hp := hplace p fun h => by rw [h] at hs; cases hs
    have hq := hplace q fun h => by rw [h] at ht; cases ht
    rw [hp, hq]
  · intro p q s t hs ht _
    have hp := hplace p fun h => by rw [h] at hs; cases hs
    have hq := hplace q fun h => by rw [h] at ht; cases ht
    rw [hp, hq]

theorem noDatabufs_empty (base : Int32) : NoDatabufs base fun _ => Ipc.empty :=
  ⟨fun _ _ => rfl, fun _ => rfl⟩

def allSucceed : CleanCalls :=
  ⟨hashpipeOk, true, true, fun _ => true, fun _ => true, fun _ => true, fun _ => true⟩

theorem allSucceed_succeed : allSucceed.Succeed :=
  ⟨rfl, rfl, rfl, fun _ => rfl, fun _ => rfl, fun _ => rfl, fun _ => rfl⟩

theorem homeName : (hashpipeStatusSemname homeKeyEnv.toStatusEnv 0 nameMax
    (fun _ => 0)).map Prod.snd = some 0 := by
  obtain ⟨semid, rc, hsem, hrc, -⟩ := semname_attach homeEnv 0
  have hzero : Int32.ofNat (instanceBits 0) = 0 := by decide
  rw [hzero] at hsem
  have hcomplete : rc = 0 := hrc.mpr ⟨rfl, by decide⟩
  show (hashpipeStatusSemname homeEnv 0 nameMax (fun _ => 0)).map Prod.snd = some 0
  rw [hsem, hcomplete]
  rfl

theorem clean_removes_all_iff_outputThread :
    ∃ n', hashpipeCleanShmem oneFileAnswers allSucceed homeKeyEnv []
        (outputSystem noHugePages).objects = some (0, n') ∧
      (NoDatabufs (hashpipeDatabufKey oneFileAnswers homeKeyEnv 0) n' ↔
        Reached (hashpipeDatabufKey oneFileAnswers homeKeyEnv 0) (outputThread noHugePages)
          (outputSystem noHugePages).objects) :=
  have hopts : cleanOptions ⟨homeKeyEnv, 0, false⟩ [] = .ok ⟨homeKeyEnv, 0, false⟩ := rfl
  have hlen : (outputThread noHugePages).length ≤ maxHashpipeThreads := by decide
  clean_removes_all_iff allSucceed_succeed hopts homeName rfl hlen (noDatabufs_empty homeBase)
    (outputSystem_built noHugePages (by decide)) (outputSystem_distinct noHugePages)

/-- The kernel's first semaphore set. -/
def firstSemaphores : CreateCall → IpcAnswer
  | .shmget1GB => .fail .ENOMEM
  | .semget => .ok 0
  | _ => .ok 7

/-- The semaphore set with the identifier 0 is not removed. -/
theorem clean_leaves_first_semaphores : ¬ ∀ (os : AttachAnswers) (calls : CleanCalls),
    calls.Succeed → ∀ (env : KeyEnv) (opts : List CleanOption) (a : CleanArgs),
    cleanOptions ⟨env, 0, false⟩ opts = .ok a →
    (hashpipeStatusSemname a.env.toStatusEnv a.instance_id nameMax
      (fun _ => 0)).map Prod.snd = some 0 →
    ∀ instance_id, instanceBits a.instance_id = instanceBits instance_id →
    ∀ pipeline : List PipelineThread, pipeline.length ≤ maxHashpipeThreads → ∀ n s,
    NoDatabufs (hashpipeDatabufKey os a.env instance_id) n →
    createDatabufs (hashpipeDatabufKey os a.env instance_id) 0 pipeline ⟨n, 0⟩ = some s →
    DistinctIds s.objects → ∀ ex n',
    hashpipeCleanShmem os calls env opts s.objects = some (ex, n') →
    NoDatabufs (hashpipeDatabufKey os a.env instance_id) n' := by
  intro h
  have hbuilt := outputSystem_built firstSemaphores (by decide)
  have hdistinct := outputSystem_distinct firstSemaphores
  have hlen : (outputThread firstSemaphores).length ≤ maxHashpipeThreads := by decide
  obtain ⟨n', hloop, hiff⟩ := cleanDatabufs_pipeline 0 allSucceed_succeed hlen
    (noDatabufs_empty homeBase) hbuilt hdistinct
  have htool : hashpipeCleanShmem oneFileAnswers allSucceed homeKeyEnv []
      (outputSystem firstSemaphores).objects = some (0, n') := by
    rw [hashpipeCleanShmem_eq allSucceed_succeed rfl homeName]
    exact congrArg some hloop
  have hnone := h oneFileAnswers allSucceed allSucceed_succeed homeKeyEnv [] _ rfl homeName 0 rfl
    _ hlen _ _ (noDatabufs_empty _) hbuilt hdistinct 0 n' htool
  have hreached : Reached homeBase (outputThread firstSemaphores)
      (outputSystem firstSemaphores).objects := hiff.mp hnone
  obtain ⟨r, hr, hzero⟩ : ∃ r, (outputObjects firstSemaphores).sem = some r ∧ r.semid = 0 :=
    ⟨_, rfl, rfl⟩
  refine hreached.nonzero 1 (by decide) r ?_ hzero
  rw [outputSystem, IpcSystem.putKeyed_self]
  exact hr

end Hashpipe.CleanShmem
