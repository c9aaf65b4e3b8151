import Hashpipe.Databuf.Create

/-!
# What a failed creation leaves behind

`hashpipe_databuf_create` makes or opens the segment, attaches it, verifies or fills the
header, and sets up the semaphores; it undoes nothing.  `LeavesAsWas` says for which prior
states and answers a call that returns NULL has changed nothing at the key: either no
segment was made, or nothing fails afterwards; and where an existing databuf was opened the
store to its `semid` must not matter.

The proof follows the call in two stretches: up to the attached segment (`createEnd_attach`
is where both kinds of segment arrive), and from `semget` to the end.
-/

namespace Hashpipe.Databuf

open SemaphoreSet SysVIpc

/-- NULL means that nothing has changed, and so that a later call which would have got a
databuf still gets one. -/
def FailsAtomically (p : CreateArgs) (heap : ℕ → ℕ) (ans : CreateCall → IpcAnswer)
    (k : Ipc Header) : Prop :=
  (hashpipeDatabufCreate p heap ans k).1.isDatabuf = false →
    (hashpipeDatabufCreate p heap ans k).2 = k ∧
    ∀ ans', (hashpipeDatabufCreate p heap ans' k).1.isDatabuf = true →
      (hashpipeDatabufCreate p heap ans' (hashpipeDatabufCreate p heap ans k).2).1.isDatabuf = true

/-- The arguments are accepted and there is a key. -/
def hasKey (p : CreateArgs) (ans : CreateCall → IpcAnswer) : Prop :=
  sizeofHashpipeDatabufT ≤ p.header_size ∧ (ans .key).isOk = true

/-- There is no segment, and one of the three attempts to make one goes through. -/
def MakesSegment (p : CreateArgs) (ans : CreateCall → IpcAnswer) (k : Ipc Header) : Prop :=
  hasKey p ans ∧ k.shm = none ∧
    (((ans .shmget1GB).isOk = true ∧ p.requested .gb1 ≠ 0) ∨
      (ans .shmget1GB = .fail .ENOMEM ∧
        (((ans .shmget2MB).isOk = true ∧ p.requested .mb2 ≠ 0) ∨
          (ans .shmget2MB = .fail .ENOMEM ∧ (ans .shmgetNormal).isOk = true ∧
            p.requested .normal ≠ 0))))

/-- There is a segment, and the call gets as far as `semget` with it. -/
def Reopens (p : CreateArgs) (ans : CreateCall → IpcAnswer) (k : Ipc Header)
    (seg : Segment Header) : Prop :=
  hasKey p ans ∧ k.shm = some seg ∧
    ((ans .shmget1GB).isOk = true ∨ ans .shmget1GB = .fail .EEXIST) ∧
    (ans .shmgetExisting).isOk = true ∧ p.requested .existing ≤ seg.size ∧
    (ans .shmat).isOk = true ∧ (∀ field, seg.content.sizing field = p.sizing field) ∧
    (ans .shmctlLock).isOk = true

/-- `semget` goes through. -/
def SemgetOk (p : CreateArgs) (ans : CreateCall → IpcAnswer) (k : Ipc Header) : Prop :=
  ∃ id, (semgetCreate k p.n_block (ans .semget)).1 = .ok id

structure LeavesAsWas (p : CreateArgs) (ans : CreateCall → IpcAnswer) (k : Ipc Header) :
    Prop where
  /-- Once the call has made a segment, nothing fails. -/
  made : MakesSegment p ans k → (ans .shmat).isOk = true ∧ (ans .shmctlLock).isOk = true ∧
    SemgetOk p ans k ∧ (ans .setAll).isOk = true
  /-- A failure to get at the semaphores finds the `semid` of the header as it stores it. -/
  reopened : ∀ seg, Reopens p ans k seg →
    (¬ SemgetOk p ans k → seg.content.semid = -1) ∧
    (SemgetOk p ans k → (ans .setAll).isOk = true ∨
      ∃ rec, k.sem = some rec ∧ seg.content.semid = rec.semid)

section Stretches

variable {p : CreateArgs} {heap : ℕ → ℕ} {ans : CreateCall → IpcAnswer} {k : Ipc Header}
  {path : Path} {seg : Segment Header}

theorem write_semid_eq (h : k.shm = some seg) {v : ℤ} :
    (k.write fun h => { h with semid := v }) = k ↔ seg.content.semid = v := by
  constructor
  · intro heq
    have hshm := congrArg Ipc.shm heq
    rw [Ipc.write_shm h, h] at hshm
    have hcontent := congrArg (fun s => s.content.semid) (Option.some.inj hshm)
    exact hcontent.symm
  · intro hv
    rcases k with ⟨shm, sem⟩
    obtain rfl : shm = some seg := h
    rcases seg with ⟨shmid, size, content⟩
    rcases content with ⟨data_type, header_size, block_size, n_block, shmid', semid⟩
    obtain rfl : semid = v := hv
    rfl

theorem mapped_semid (h : k.shm = some seg) (v : ℤ) :
    (mapped (k.write fun h => { h with semid := v })).semid = v := by
  rw [mapped, Ipc.write_shm h]

/-! ### From `semget` on -/

theorem createEnd_semget_fails (heap : ℕ → ℕ) (path : Path) (hseg : k.shm = some seg) (h : ¬ SemgetOk p ans k) :
    createEnd p heap ans (.semget path) k =
      (.failed, k.write fun h => { h with semid := -1 }) := by
  have hcall : ∃ e, semgetCreate k p.n_block (ans .semget) = (.error e, k) := by
    cases hr : semgetCreate k p.n_block (ans .semget) with
    | mk r k' =>
      cases r with
      | error e => exact ⟨e, by rw [(semgetCreate_spec hr).2.1 e rfl]⟩
      | ok id => exact absurd ⟨id, by rw [hr]⟩ h
  obtain ⟨e, he⟩ := hcall
  have hsemget : createStep p heap k (.semget path) (ans .semget) = (.storeSemid path (-1), k) := by
    simp only [createStep, he]
  rw [createEnd_step, CreatePc.answer, hsemget, createEnd_step]
  simp only [createStep]
  rw [createEnd_step]
  simp only [createStep, mapped_semid hseg, if_true]
  exact createEnd_final rfl

theorem createEnd_semget_ok (heap : ℕ → ℕ) (path : Path) (hseg : k.shm = some seg) (h : SemgetOk p ans k) :
    ∃ rec k', k'.shm = k.shm ∧ k'.sem = some rec ∧ (∀ r, k.sem = some r → k' = k) ∧
      createEnd p heap ans (.semget path) k =
        if (ans .setAll).isOk = true then
          (.returned path, { (k'.write fun h => { h with semid := rec.semid }) with
            sem := some { rec with sem := setAll rec.sem rec.nsems (clearArray p heap) } })
        else (.failed, k'.write fun h => { h with semid := rec.semid }) := by
  obtain ⟨id, hid⟩ := h
  obtain ⟨k', hcall⟩ : ∃ k', semgetCreate k p.n_block (ans .semget) = (.ok id, k') :=
    ⟨_, Prod.ext hid rfl⟩
  obtain ⟨hshm, -, hok⟩ := semgetCreate_spec hcall
  obtain ⟨-, ⟨rec, hrec, rfl⟩, hsame⟩ := hok id rfl
  have hseg' : k'.shm = some seg := hshm.trans hseg
  refine ⟨rec, k', hshm, hrec, hsame, ?_⟩
  have hsemget : createStep p heap k (.semget path) (ans .semget) =
      (.storeSemid path rec.semid, k') := by
    simp only [createStep, hcall]
  have hne : ((rec.semid : ℤ) = -1) = False := by
    rw [eq_iff_iff, iff_false]
    omega
  rw [createEnd_step, CreatePc.answer, hsemget, createEnd_step]
  simp only [createStep]
  rw [createEnd_step]
  simp only [createStep, mapped_semid hseg', hne, if_false]
  rw [createEnd_step, CreatePc.answer]
  simp only [createStep, mapped_semid hseg']
  cases hset : ans .setAll with
  | ok id =>
    simp only [semctlSetAll, Ipc.write_sem, hrec, if_true, IpcAnswer.isOk]
    exact createEnd_final rfl
  | fail errno =>
    simp only [semctlSetAll, IpcAnswer.isOk, Bool.false_eq_true, if_false]
    exact createEnd_final rfl

/-! ### From the attached segment to `semget` -/

theorem createEnd_verify (field : SizeField) (h : ∀ f, (mapped k).sizing f = p.sizing f) :
    createEnd p heap ans (.verify field) k = createEnd p heap ans (.lock .existing) k := by
  have hstep : ∀ f, createEnd p heap ans (.verify f) k =
      createEnd p heap ans (f.next.elim (.lock .existing) .verify) k := by
    intro f
    rw [createEnd_step]
    simp only [createStep, h f, if_true]
    cases f <;> rfl
  cases field with
  | header_size =>
    rw [hstep .header_size]
    show createEnd p heap ans (.verify .block_size) k = _
    rw [hstep .block_size]
    show createEnd p heap ans (.verify .n_block) k = _
    exact hstep .n_block
  | block_size =>
    rw [hstep .block_size]
    show createEnd p heap ans (.verify .n_block) k = _
    exact hstep .n_block
  | n_block => exact hstep .n_block

/-- A size that differs ends the call, with nothing changed. -/
theorem createEnd_verify_mismatch (h : ¬ ∀ f, (mapped k).sizing f = p.sizing f) :
    createEnd p heap ans (.verify .header_size) k = (.mismatch, k) := by
  have hstop : ∀ f, (mapped k).sizing f ≠ p.sizing f →
      createEnd p heap ans (.verify f) k = (.mismatch, k) := by
    intro f hf
    rw [createEnd_step]
    simp only [createStep, if_neg hf]
    exact createEnd_final rfl
  have hpass : ∀ f g, f.next = some g → (mapped k).sizing f = p.sizing f →
      createEnd p heap ans (.verify f) k = createEnd p heap ans (.verify g) k := by
    intro f g hfg hf
    rw [createEnd_step]
    simp only [createStep, hf, if_true, hfg]
  by_cases hheader : (mapped k).sizing .header_size = p.sizing .header_size
  · rw [hpass _ _ rfl hheader]
    by_cases hblock : (mapped k).sizing .block_size = p.sizing .block_size
    · rw [hpass _ _ rfl hblock]
      apply hstop
      intro hn
      exact h fun f => by cases f <;> assumption
    · exact hstop _ hblock
  · exact hstop _ hheader

theorem createEnd_failed : createEnd p heap ans .failed k = (.failed, k) := createEnd_final rfl

/-- Zeroing and filling a new header changes the segment's contents and nothing else. -/
theorem createEnd_fill (heap : ℕ → ℕ) (ans : CreateCall → IpcAnswer) (path : Path)
    (hseg : k.shm = some seg) :
    ∃ seg', createEnd p heap ans (.zero path) k =
      createEnd p heap ans (.semget path) { k with shm := some seg' } := by
  have hlast : ∀ s : Segment Header, ∃ s', createEnd p heap ans (.store path .data_type)
      { k with shm := some s } = createEnd p heap ans (.semget path) { k with shm := some s' } :=
    fun s => ⟨_, createEnd_step⟩
  have hthen : ∀ f g, f.next = some g →
      (∀ s : Segment Header, ∃ s', createEnd p heap ans (.store path g) { k with shm := some s } =
        createEnd p heap ans (.semget path) { k with shm := some s' }) →
      ∀ s : Segment Header, ∃ s', createEnd p heap ans (.store path f) { k with shm := some s } =
        createEnd p heap ans (.semget path) { k with shm := some s' } := by
    intro f g hfg hg s
    obtain ⟨s', hs'⟩ := hg { s with content := s.content.store p s.shmid f }
    refine ⟨s', ?_⟩
    rw [createEnd_step, ← hs']
    simp only [createStep, hfg]
    rfl
  have hblock := hthen .block_size .data_type rfl hlast
  have hn := hthen .n_block .block_size rfl hblock
  have hheader := hthen .header_size .n_block rfl hn
  have hsemid := hthen .semid .header_size rfl hheader
  have hshmid := hthen .shmid .semid rfl hsemid
  obtain ⟨s', hs'⟩ := hshmid { seg with content := Header.zeros }
  have hwrite : (k.write fun _ => Header.zeros) =
      { k with shm := some { seg with content := Header.zeros } } := by
    rw [Ipc.write, hseg]
    rfl
  refine ⟨s', ?_⟩
  rw [createEnd_step, ← hs', ← hwrite]
  rfl

/-- Whether `semget` goes through does not depend on the segment. -/
theorem semgetOk_congr {k k' : Ipc Header} (h : k'.sem = k.sem) :
    SemgetOk p ans k' ↔ SemgetOk p ans k := by
  have hresult : (semgetCreate k' p.n_block (ans .semget)).1 =
      (semgetCreate k p.n_block (ans .semget)).1 := by
    cases ans .semget with
    | fail errno => rfl
    | ok id =>
      cases hsem : k.sem with
      | none =>
        simp only [semgetCreate, h, hsem]
        split
        · rfl
        · split <;> rfl
      | some rec =>
        simp only [semgetCreate, h, hsem]
        split
        · rfl
        · split <;> rfl
  rw [SemgetOk, SemgetOk, hresult]

/-- A call that has made the segment gets its databuf exactly when nothing fails any more. -/
theorem createEnd_made (p : CreateArgs) (heap : ℕ → ℕ) (ans : CreateCall → IpcAnswer)
    (hpath : path ≠ .existing) (hseg : k.shm = some seg) :
    (createEnd p heap ans (.attach path) k).1.isDatabuf = true ↔
      (ans .shmat).isOk = true ∧ (ans .shmctlLock).isOk = true ∧ SemgetOk p ans k ∧
        (ans .setAll).isOk = true := by
  rw [createEnd_step, CreatePc.answer]
  by_cases hattach : (ans .shmat).isOk = true
  · simp only [createStep, hattach, if_true, if_neg hpath, true_and]
    rw [createEnd_step, CreatePc.answer]
    by_cases hlock : (ans .shmctlLock).isOk = true
    · simp only [createStep, hlock, if_true, if_neg hpath, true_and]
      obtain ⟨seg', hfill⟩ := createEnd_fill (p := p) heap ans path hseg
      rw [hfill]
      have hsem : SemgetOk p ans { k with shm := some seg' } ↔ SemgetOk p ans k :=
        semgetOk_congr rfl
      by_cases hsemget : SemgetOk p ans k
      · obtain ⟨rec, k', -, -, -, hend⟩ :=
          createEnd_semget_ok (k := { k with shm := some seg' }) heap path rfl
            (hsem.mpr hsemget)
        rw [hend]
        by_cases hset : (ans .setAll).isOk = true
        · simp [hset, hsemget, CreatePc.isDatabuf]
        · simp [hset, CreatePc.isDatabuf]
      · rw [createEnd_semget_fails heap path rfl (mt hsem.mp hsemget)]
        simp [hsemget, CreatePc.isDatabuf]
    · simp [createStep, hlock, createEnd_failed, CreatePc.isDatabuf]
  · simp [createStep, hattach, createEnd_failed, CreatePc.isDatabuf]

/-! ### Up to the attached segment -/

theorem shmgetCreate_isSome {zeros : Header} {size : ℕ} {a : IpcAnswer} {r : Except IpcErrno ℕ}
    {k' : Ipc Header} (h : shmgetCreate zeros k size a = (r, k')) (hk : k.shm.isSome = true) :
    k'.shm.isSome = true := by
  obtain ⟨herror, hok⟩ := shmgetCreate_spec h
  cases r with
  | error e =>
    rw [herror e rfl]
    exact hk
  | ok id =>
    obtain ⟨-, -, rfl⟩ := hok id rfl
    rfl

/-- No step removes the segment. -/
theorem isSome_createStep {pc : CreatePc} (a : IpcAnswer) (hk : k.shm.isSome = true) :
    (createStep p heap k pc a).2.shm.isSome = true := by
  have hwrite : ∀ f, (k.write f).shm.isSome = true := by
    intro f
    rw [Ipc.write, Option.isSome_map]
    exact hk
  cases pc with
  | try1GB => simp only [createStep]; split <;> rename_i hcall <;> exact shmgetCreate_isSome hcall hk
  | try2MB => simp only [createStep]; split <;> rename_i hcall <;> exact shmgetCreate_isSome hcall hk
  | tryNormal => simp only [createStep]; split <;> rename_i hcall <;> exact shmgetCreate_isSome hcall hk
  | zero path => exact hwrite _
  | store path field => exact hwrite _
  | storeSemid path rv => exact hwrite _
  | semget path =>
    simp only [createStep]
    split <;> rename_i hcall <;> rw [(semgetCreate_spec hcall).1] <;> exact hk
  | setAll path =>
    simp only [createStep]
    split <;> rename_i hcall <;> rw [(semctlSetAll_spec hcall).1] <;> exact hk
  | start => simp only [createStep]; split <;> [exact hk; (split <;> exact hk)]
  | tryExisting => simp only [createStep]; split <;> exact hk
  | attach path => simp only [createStep]; split <;> exact hk
  | verify field =>
    simp only [createStep]
    split
    · cases field <;> exact hk
    · exact hk
  | lock path => simp only [createStep]; split <;> exact hk
  | checkSemid path => exact hk
  | returned path => exact hk
  | mismatch => exact hk
  | failed => exact hk

theorem isSome_createEnd {pc : CreatePc} (hk : k.shm.isSome = true) :
    (createEnd p heap ans pc k).2.shm.isSome = true :=
  createRun_invariant (I := fun _ k => k.shm.isSome = true)
    (fun pc _ hk => isSome_createStep (pc.answer ans) hk) _ hk

theorem createEnd_start (h : hasKey p ans) :
    createEnd p heap ans .start k = createEnd p heap ans .try1GB k := by
  rw [createEnd_step, CreatePc.answer]
  simp only [createStep, if_neg (Nat.not_lt.mpr h.1), h.2, if_true]

theorem createEnd_noKey (h : ¬ hasKey p ans) : createEnd p heap ans .start k = (.failed, k) := by
  rw [createEnd_step, CreatePc.answer]
  simp only [createStep]
  split
  · exact createEnd_failed
  · rename_i hheader
    have hkey : ¬ (ans .key).isOk = true := fun hok => h ⟨Nat.not_lt.mp hheader, hok⟩
    rw [if_neg hkey]
    exact createEnd_failed

/-- With no segment at the key, an attempt that goes through makes one. -/
theorem shmgetCreate_none (hshm : k.shm = none) (size : ℕ) {a : IpcAnswer} (ha : a.isOk = true)
    (hsize : size ≠ 0) : ∃ id, shmgetCreate Header.zeros k size a =
      (.ok id, { k with shm := some ⟨id, size, Header.zeros⟩ }) := by
  cases a with
  | fail errno => cases ha
  | ok id => exact ⟨id, by simp only [shmgetCreate, hshm, if_neg hsize]⟩

theorem createEnd_makes (heap : ℕ → ℕ) (h : MakesSegment p ans k) :
    ∃ path seg, path ≠ .existing ∧ createEnd p heap ans .start k =
      createEnd p heap ans (.attach path) { k with shm := some seg } := by
  obtain ⟨hkey, hshm, hattempt⟩ := h
  rw [createEnd_start hkey, createEnd_step, CreatePc.answer]
  rcases hattempt with ⟨hok, hsize⟩ | ⟨hnomem, hattempt⟩
  · obtain ⟨id, hid⟩ := shmgetCreate_none hshm _ hok hsize
    simp only [createStep, hid]
    exact ⟨.gb1, _, by decide, rfl⟩
  · simp only [createStep, hnomem, shmgetCreate]
    rw [createEnd_step, CreatePc.answer]
    rcases hattempt with ⟨hok, hsize⟩ | ⟨hnomem2, hok, hsize⟩
    · obtain ⟨id, hid⟩ := shmgetCreate_none hshm _ hok hsize
      simp only [createStep, hid]
      exact ⟨.mb2, _, by decide, rfl⟩
    · simp only [createStep, hnomem2, shmgetCreate]
      rw [createEnd_step, CreatePc.answer]
      obtain ⟨id, hid⟩ := shmgetCreate_none hshm _ hok hsize
      simp only [createStep, hid]
      exact ⟨.normal, _, by decide, rfl⟩

/-- The attempt ends the call, one way or the other. -/
theorem shmgetCreate_none_fails (hshm : k.shm = none) (size : ℕ) {a : IpcAnswer}
    (h : ¬ (a.isOk = true ∧ size ≠ 0)) :
    ∃ e, shmgetCreate Header.zeros k size a = (.error e, k) ∧
      (e = .ENOMEM → a = .fail .ENOMEM) := by
  cases a with
  | fail errno => exact ⟨errno, rfl, fun he => he ▸ rfl⟩
  | ok id =>
    have hsize : size = 0 := by
      by_contra hne
      exact h ⟨rfl, hne⟩
    exact ⟨.EINVAL, by simp [shmgetCreate, hshm, hsize], by simp⟩

/-- With no segment and none made, the call fails and has changed nothing. -/
theorem createEnd_makesNone (heap : ℕ → ℕ) (hshm : k.shm = none) (h : ¬ MakesSegment p ans k) :
    createEnd p heap ans .start k = (.failed, k) := by
  by_cases hkey : hasKey p ans
  · rw [createEnd_start hkey, createEnd_step, CreatePc.answer]
    obtain ⟨e, he, hnomem⟩ := shmgetCreate_none_fails hshm (p.requested .gb1)
      (a := ans .shmget1GB) fun hok => h ⟨hkey, hshm, .inl hok⟩
    simp only [createStep, he]
    cases e with
    | EEXIST =>
      simp only
      rw [createEnd_step, CreatePc.answer]
      have hopen : ∃ e, shmgetOpen k (p.requested .existing) (ans .shmgetExisting) = .error e := by
        cases ans .shmgetExisting with
        | fail errno => exact ⟨errno, rfl⟩
        | ok id => exact ⟨.ENOENT, by simp only [shmgetOpen, hshm]⟩
      obtain ⟨e, he⟩ := hopen
      simp only [createStep, he]
      exact createEnd_failed
    | ENOMEM =>
      simp only
      rw [createEnd_step, CreatePc.answer]
      obtain ⟨e2, he2, hnomem2⟩ := shmgetCreate_none_fails hshm (p.requested .mb2)
        (a := ans .shmget2MB) fun hok => h ⟨hkey, hshm, .inr ⟨hnomem rfl, .inl hok⟩⟩
      simp only [createStep, he2]
      cases e2 with
      | ENOMEM =>
        simp only
        rw [createEnd_step, CreatePc.answer]
        obtain ⟨e3, he3, -⟩ := shmgetCreate_none_fails hshm (p.requested .normal)
          (a := ans .shmgetNormal)
          fun hok => h ⟨hkey, hshm, .inr ⟨hnomem rfl, .inr ⟨hnomem2 rfl, hok⟩⟩⟩
        simp only [createStep, he3]
        exact createEnd_failed
      | EEXIST => exact createEnd_failed
      | ENOENT => exact createEnd_failed
      | EINVAL => exact createEnd_failed
      | other => exact createEnd_failed
    | ENOENT => exact createEnd_failed
    | EINVAL => exact createEnd_failed
    | other => exact createEnd_failed
  · exact createEnd_noKey hkey

/-- Where there is a segment, no attempt to make one goes through. -/
theorem shmgetCreate_some (hseg : k.shm = some seg) (size : ℕ) (a : IpcAnswer) :
    ∃ e, shmgetCreate Header.zeros k size a = (.error e, k) ∧
      (e = .EEXIST ↔ a.isOk = true ∨ a = .fail .EEXIST) := by
  cases a with
  | fail errno => exact ⟨errno, rfl, by simp [IpcAnswer.isOk]⟩
  | ok id => exact ⟨.EEXIST, by simp [shmgetCreate, hseg], by simp [IpcAnswer.isOk]⟩

theorem createEnd_reopens (heap : ℕ → ℕ) (h : Reopens p ans k seg) :
    createEnd p heap ans .start k = createEnd p heap ans (.semget .existing) k := by
  obtain ⟨hkey, hseg, hexist, hopen, hsize, hattach, hsizing, hlock⟩ := h
  obtain ⟨e, he, hiff⟩ := shmgetCreate_some hseg (p.requested .gb1) (ans .shmget1GB)
  obtain rfl := hiff.mpr hexist
  have hok : ∃ id, shmgetOpen k (p.requested .existing) (ans .shmgetExisting) = .ok id := by
    cases ho : ans .shmgetExisting with
    | fail errno => simp [ho, IpcAnswer.isOk] at hopen
    | ok id => exact ⟨seg.shmid, by simp only [shmgetOpen, hseg, if_neg (Nat.not_lt.mpr hsize)]⟩
  obtain ⟨id, hid⟩ := hok
  have hmapped : ∀ f, (mapped k).sizing f = p.sizing f := by
    intro f
    rw [mapped, hseg]
    exact hsizing f
  rw [createEnd_start hkey, createEnd_step, CreatePc.answer]
  simp only [createStep, he]
  rw [createEnd_step, CreatePc.answer]
  simp only [createStep, hid]
  rw [createEnd_step, CreatePc.answer]
  simp only [createStep, hattach, if_true]
  rw [createEnd_verify _ hmapped, createEnd_step, CreatePc.answer]
  simp only [createStep, hlock, if_true]

/-- An existing segment with which the call does not get to `semget` is left as it is. -/
theorem createEnd_not_reopens (heap : ℕ → ℕ) (hseg : k.shm = some seg) (h : ¬ Reopens p ans k seg) :
    ∃ pc, pc.isDatabuf = false ∧ createEnd p heap ans .start k = (pc, k) := by
  have hfailed : ∃ pc, pc.isDatabuf = false ∧ createEnd p heap ans .failed k = (pc, k) :=
    ⟨.failed, rfl, createEnd_failed⟩
  by_cases hkey : hasKey p ans
  · obtain ⟨e, he, hiff⟩ := shmgetCreate_some hseg (p.requested .gb1) (ans .shmget1GB)
    rw [createEnd_start hkey, createEnd_step, CreatePc.answer]
    simp only [createStep, he]
    by_cases hexist : (ans .shmget1GB).isOk = true ∨ ans .shmget1GB = .fail .EEXIST
    · obtain rfl := hiff.mpr hexist
      simp only
      rw [createEnd_step, CreatePc.answer]
      cases hopen : shmgetOpen k (p.requested .existing) (ans .shmgetExisting) with
      | error e =>
        simp only [createStep, hopen]
        exact hfailed
      | ok id =>
        have hgot : (ans .shmgetExisting).isOk = true ∧ p.requested .existing ≤ seg.size := by
          cases ha : ans .shmgetExisting with
          | fail errno => simp [ha, shmgetOpen] at hopen
          | ok id' =>
            refine ⟨rfl, ?_⟩
            by_contra hsmall
            simp [ha, shmgetOpen, hseg, Nat.not_le.mp hsmall] at hopen
        simp only [createStep, hopen]
        rw [createEnd_step, CreatePc.answer]
        by_cases hattach : (ans .shmat).isOk = true
        · simp only [createStep, hattach, if_true]
          by_cases hsizing : ∀ f, (mapped k).sizing f = p.sizing f
          · rw [createEnd_verify _ hsizing, createEnd_step, CreatePc.answer]
            have hlock : ¬ (ans .shmctlLock).isOk = true := by
              intro hlock
              rw [mapped, hseg] at hsizing
              exact h ⟨hkey, hseg, hexist, hgot.1, hgot.2, hattach, hsizing, hlock⟩
            simp only [createStep, if_neg hlock]
            exact hfailed
          · exact ⟨.mismatch, rfl, createEnd_verify_mismatch hsizing⟩
        · simp only [createStep, if_neg hattach]
          exact hfailed
    · cases e with
      | EEXIST => exact absurd (hiff.mp rfl) hexist
      | ENOMEM =>
        -- the further attempts find the segment as well
        simp only
        rw [createEnd_step, CreatePc.answer]
        obtain ⟨e2, he2, -⟩ := shmgetCreate_some hseg (p.requested .mb2) (ans .shmget2MB)
        simp only [createStep, he2]
        cases e2 with
        | ENOMEM =>
          simp only
          rw [createEnd_step, CreatePc.answer]
          obtain ⟨e3, he3, -⟩ := shmgetCreate_some hseg (p.requested .normal) (ans .shmgetNormal)
          simp only [createStep, he3]
          exact hfailed
        | EEXIST => exact hfailed
        | ENOENT => exact hfailed
        | EINVAL => exact hfailed
        | other => exact hfailed
      | ENOENT => exact hfailed
      | EINVAL => exact hfailed
      | other => exact hfailed
  · exact ⟨.failed, rfl, createEnd_noKey hkey⟩

/-- Where nothing has changed nothing is lost. -/
theorem failsAtomically_of_eq (h : (hashpipeDatabufCreate p heap ans k).1.isDatabuf = false →
    (hashpipeDatabufCreate p heap ans k).2 = k) : FailsAtomically p heap ans k := by
  intro hnull
  have hk := h hnull
  exact ⟨hk, fun ans' hok => by rw [hk]; exact hok⟩

/-- A call that has made the segment leaves it there: it must not fail. -/
theorem failsAtomically_made_iff (heap : ℕ → ℕ) (h : MakesSegment p ans k) :
    FailsAtomically p heap ans k ↔ (ans .shmat).isOk = true ∧ (ans .shmctlLock).isOk = true ∧
      SemgetOk p ans k ∧ (ans .setAll).isOk = true := by
  obtain ⟨path, seg, hpath, hend⟩ := createEnd_makes heap h
  have hcreate : hashpipeDatabufCreate p heap ans k =
      createEnd p heap ans (.attach path) { k with shm := some seg } := hend
  have hsem : SemgetOk p ans { k with shm := some seg } ↔ SemgetOk p ans k := semgetOk_congr rfl
  have hmade := createEnd_made (k := { k with shm := some seg }) p heap ans hpath rfl
  rw [hsem, ← hcreate] at hmade
  rw [← hmade]
  constructor
  · intro hatomic
    by_contra hnull
    have hsame := (hatomic (by simpa using hnull)).1
    have hleft : (hashpipeDatabufCreate p heap ans k).2.shm.isSome = true := by
      rw [hcreate]
      exact isSome_createEnd rfl
    rw [hsame, h.2.1] at hleft
    cases hleft
  · intro hok hnull
    rw [hok] at hnull
    cases hnull

/-- A call that has opened an existing databuf writes its `semid`, whatever `semget` says. -/
theorem failsAtomically_reopened_iff (heap : ℕ → ℕ) (h : Reopens p ans k seg) :
    FailsAtomically p heap ans k ↔ (¬ SemgetOk p ans k → seg.content.semid = -1) ∧
      (SemgetOk p ans k → (ans .setAll).isOk = true ∨
        ∃ rec, k.sem = some rec ∧ seg.content.semid = rec.semid) := by
  have hseg : k.shm = some seg := h.2.1
  have hcreate : hashpipeDatabufCreate p heap ans k = createEnd p heap ans (.semget .existing) k :=
    createEnd_reopens heap h
  by_cases hsemget : SemgetOk p ans k
  · obtain ⟨rec, k', -, hrec, hsame, hend⟩ := createEnd_semget_ok heap .existing hseg hsemget
    rw [← hcreate] at hend
    by_cases hset : (ans .setAll).isOk = true
    · rw [if_pos hset] at hend
      refine iff_of_true ?_ ⟨fun hno => absurd hsemget hno, fun _ => .inl hset⟩
      intro hnull
      rw [hend] at hnull
      cases hnull
    · rw [if_neg hset] at hend
      constructor
      · intro hatomic
        have hk := (hatomic (by rw [hend]; rfl)).1
        rw [hend] at hk
        -- the set was there before, and its identifier in the header
        have hsem : k.sem = some rec := by
          rw [← hk]
          exact hrec
        rw [hsame rec hsem] at hk
        exact ⟨fun hno => absurd hsemget hno,
          fun _ => .inr ⟨rec, hsem, (write_semid_eq hseg).mp hk⟩⟩
      · intro hcond
        rcases hcond.2 hsemget with hok | ⟨rec', hrec', hsemid⟩
        · exact absurd hok hset
        · refine failsAtomically_of_eq fun _ => ?_
          have hrec_eq : rec = rec' := by
            rw [hsame rec' hrec', hrec'] at hrec
            exact (Option.some.inj hrec).symm
          rw [hend, hsame rec' hrec', hrec_eq]
          exact (write_semid_eq hseg).mpr hsemid
  · have hend : hashpipeDatabufCreate p heap ans k =
        (.failed, k.write fun h => { h with semid := -1 }) :=
      hcreate.trans (createEnd_semget_fails heap .existing hseg hsemget)
    constructor
    · intro hatomic
      have hk := (hatomic (by rw [hend]; rfl)).1
      rw [hend] at hk
      exact ⟨fun _ => (write_semid_eq hseg).mp hk, fun hok => absurd hok hsemget⟩
    · intro hcond
      refine failsAtomically_of_eq fun _ => ?_
      rw [hend]
      exact (write_semid_eq hseg).mpr (hcond.1 hsemget)

/-- **When a failed creation leaves things as they were**: exactly under `LeavesAsWas`. -/
theorem fails_atomically_iff (p : CreateArgs) (heap : ℕ → ℕ) (ans : CreateCall → IpcAnswer)
    (k : Ipc Header) : FailsAtomically p heap ans k ↔ LeavesAsWas p ans k := by
  cases hshm : k.shm with
  | none =>
    have hreopened : ∀ seg, ¬ Reopens p ans k seg := by
      intro seg h
      exact absurd (hshm.symm.trans h.2.1) (by simp)
    by_cases hmakes : MakesSegment p ans k
    · rw [failsAtomically_made_iff heap hmakes]
      constructor
      · intro h
        exact ⟨fun _ => h, fun seg hr => absurd hr (hreopened seg)⟩
      · intro h
        exact h.made hmakes
    · have hend : hashpipeDatabufCreate p heap ans k = (.failed, k) :=
        createEnd_makesNone heap hshm hmakes
      exact iff_of_true (failsAtomically_of_eq fun _ => by rw [hend])
        ⟨fun h => absurd h hmakes, fun seg hr => absurd hr (hreopened seg)⟩
  | some seg =>
    have hmade : ¬ MakesSegment p ans k := fun h => absurd (hshm.symm.trans h.2.1) (by simp)
    by_cases hreopens : Reopens p ans k seg
    · rw [failsAtomically_reopened_iff heap hreopens]
      constructor
      · intro h
        refine ⟨fun hm => absurd hm hmade, fun seg' h' => ?_⟩
        obtain rfl := Option.some.inj (hshm.symm.trans h'.2.1)
        exact h
      · intro h
        exact h.reopened seg hreopens
    · obtain ⟨pc, -, hpc⟩ := createEnd_not_reopens heap hshm hreopens
      have hend : hashpipeDatabufCreate p heap ans k = (pc, k) := hpc
      refine iff_of_true (failsAtomically_of_eq fun _ => by rw [hend])
        ⟨fun h => absurd h hmade, fun seg' h => ?_⟩
      obtain rfl := Option.some.inj (hshm.symm.trans h.2.1)
      exact absurd h hreopens

end Stretches

/-- Locking fails on a new databuf: the segment stays behind with a header of zeros, and the
next creation finds sizes that do not match, where there was nothing before. -/
def lockFails : CreateCall → IpcAnswer
  | .shmget1GB => .fail .ENOMEM
  | .shmctlLock => .fail .ENOMEM
  | _ => .ok 7

theorem failed_create_blocks_the_next :
    (hashpipeDatabufCreate smallArgs (fun _ => 0) lockFails noKey).1 = .failed ∧
      (hashpipeDatabufCreate smallArgs (fun _ => 0) noHugePages noKey).1 = .returned .mb2 ∧
      (hashpipeDatabufCreate smallArgs (fun _ => 0) (fun _ => .ok 7)
        (hashpipeDatabufCreate smallArgs (fun _ => 0) lockFails noKey).2).1 = .mismatch ∧
      ¬ FailsAtomically smallArgs (fun _ => 0) lockFails noKey := by
  refine ⟨by decide, by decide, by decide, fun hatomic => ?_⟩
  have hnext := (hatomic (by decide)).2 noHugePages (by decide)
  exact absurd hnext (by decide)

end Hashpipe.Databuf
