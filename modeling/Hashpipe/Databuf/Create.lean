import Hashpipe.Library.SysVIpc

/-!
# Creating a databuf

`hashpipe_databuf_create` one call and one store at a time, for a fixed key.  Other
processes see the segment as soon as `shmget` has made it, and its header field by field as
they are stored, so `createStep` is what one process does next to the objects at the key,
given the answer to the call it makes (if it makes one).

`createRun` iterates it for a process that runs alone, with an answer for each of the
function's calls: this is the function itself, `hashpipeDatabufCreate`.

`CreateMove` lists all that a step can do (`createStep_move`); what is kept by its cases is kept
by `createStep`.
-/

namespace Hashpipe.Databuf

open SemaphoreSet SysVIpc

/-- `hashpipe_databuf_t`, at the start of the segment. -/
structure Header where
  data_type : String
  header_size : ℕ
  block_size : ℕ
  n_block : ℤ
  shmid : ℤ
  semid : ℤ
  deriving DecidableEq

/-- A header of zero bytes. -/
def Header.zeros : Header := ⟨"", 0, 0, 0, 0, 0⟩

def sizeofHashpipeDatabufT : ℕ := 96

/-- The sizing arguments: two `size_t` and an `int`. -/
structure CreateArgs where
  header_size : ℕ
  block_size : ℕ
  n_block : ℤ
  header_size_lt : header_size < 2 ^ 64
  block_size_lt : block_size < 2 ^ 64
  le_n_block : -2 ^ 31 ≤ n_block
  n_block_lt : n_block < 2 ^ 31

/-- The arguments with their bounds in one proof. -/
def CreateArgs.ofBounds (header_size block_size : ℕ) (n_block : ℤ)
    (h : header_size < 2 ^ 64 ∧ block_size < 2 ^ 64 ∧ -2 ^ 31 ≤ n_block ∧ n_block < 2 ^ 31) :
    CreateArgs :=
  ⟨header_size, block_size, n_block, h.1, h.2.1, h.2.2.1, h.2.2.2⟩

/-- The conversion of an `int` to `size_t`. -/
def sizeOfInt (n : ℤ) : ℕ := (n % 2 ^ 64).toNat

def CreateArgs.total_size (p : CreateArgs) : ℕ :=
  (p.header_size + p.block_size * sizeOfInt p.n_block) % 2 ^ 64

/-- `total_size + ((-total_size) % page)` in `size_t`. -/
def CreateArgs.total_size_page_aligned (p : CreateArgs) (page : ℕ) : ℕ :=
  (p.total_size + (2 ^ 64 - p.total_size) % 2 ^ 64 % page) % 2 ^ 64

/-- How the segment was got: made with 1 GB, 2 MB or normal pages, or already there. -/
inductive Path
  | gb1
  | mb2
  | normal
  | existing
  deriving DecidableEq

/-- The size that the successful `shmget` was called with. -/
def CreateArgs.requested (p : CreateArgs) : Path → ℕ
  | .gb1 => p.total_size_page_aligned (2 ^ 30)
  | .mb2 => p.total_size_page_aligned (2 ^ 21)
  | .normal => p.total_size
  | .existing => p.total_size

/-- The fields in the order in which the sizes are verified. -/
inductive SizeField
  | header_size
  | block_size
  | n_block
  deriving DecidableEq

def SizeField.next : SizeField → Option SizeField
  | .header_size => some .block_size
  | .block_size => some .n_block
  | .n_block => none

def Header.sizing (h : Header) : SizeField → ℤ
  | .header_size => h.header_size
  | .block_size => h.block_size
  | .n_block => h.n_block

def CreateArgs.sizing (p : CreateArgs) : SizeField → ℤ
  | .header_size => p.header_size
  | .block_size => p.block_size
  | .n_block => p.n_block

/-- The fields in the order in which a new header is filled. -/
inductive HeaderField
  | shmid
  | semid
  | header_size
  | n_block
  | block_size
  | data_type
  deriving DecidableEq

def HeaderField.next : HeaderField → Option HeaderField
  | .shmid => some .semid
  | .semid => some .header_size
  | .header_size => some .n_block
  | .n_block => some .block_size
  | .block_size => some .data_type
  | .data_type => none

/-- One store of "Fill params into databuf". -/
def Header.store (p : CreateArgs) (shmid : ℤ) (h : Header) : HeaderField → Header
  | .shmid => { h with shmid := shmid }
  | .semid => { h with semid := 0 }
  | .header_size => { h with header_size := p.header_size }
  | .n_block => { h with n_block := p.n_block }
  | .block_size => { h with block_size := p.block_size }
  | .data_type => { h with data_type := "unknown" }

/-- Where a process is in `hashpipe_databuf_create`. -/
inductive CreatePc
  | start
  | try1GB
  | tryExisting
  | try2MB
  | tryNormal
  | attach (path : Path)
  | verify (field : SizeField)
  | lock (path : Path)
  | zero (path : Path)
  | store (path : Path) (field : HeaderField)
  | semget (path : Path)
  /-- `d->semid = rv`. -/
  | storeSemid (path : Path) (rv : ℤ)
  /-- `if (d->semid==-1)`. -/
  | checkSemid (path : Path)
  | setAll (path : Path)
  /-- Returned the databuf. -/
  | returned (path : Path)
  /-- Returned NULL, for a size mismatch or else. -/
  | mismatch
  | failed
  deriving DecidableEq

/-- The header as the process sees it through its mapping. -/
def mapped (k : Ipc Header) : Header :=
  match k.shm with
  | some seg => seg.content
  | none => Header.zeros

/-- The identifier that `shmget` returned for the segment. -/
def shmidOf (k : Ipc Header) : ℤ :=
  match k.shm with
  | some seg => seg.shmid
  | none => -1

/-- The array handed to `SETALL`: `n_block` zeros, and what lies behind them on the heap. -/
def clearArray (p : CreateArgs) (heap : ℕ → ℕ) (i : ℕ) : ℕ := if (i : ℤ) < p.n_block then 0 else heap i

/-- What one process does next. -/
def createStep (p : CreateArgs) (heap : ℕ → ℕ) (k : Ipc Header) (pc : CreatePc)
    (ans : IpcAnswer) : CreatePc × Ipc Header :=
  match pc with
  | .start =>
    -- the key is computed by ftok, which may fail
    if p.header_size < sizeofHashpipeDatabufT then (.failed, k)
    else if ans.isOk then (.try1GB, k) else (.failed, k)
  | .try1GB =>
    match shmgetCreate Header.zeros k (p.requested .gb1) ans with
    | (.ok _, k') => (.attach .gb1, k')
    | (.error .EEXIST, k') => (.tryExisting, k')
    | (.error .ENOMEM, k') => (.try2MB, k')
    | (.error _, k') => (.failed, k')
  | .tryExisting =>
    match shmgetOpen k (p.requested .existing) ans with
    | .ok _ => (.attach .existing, k)
    | .error _ => (.failed, k)
  | .try2MB =>
    match shmgetCreate Header.zeros k (p.requested .mb2) ans with
    | (.ok _, k') => (.attach .mb2, k')
    | (.error .ENOMEM, k') => (.tryNormal, k')
    | (.error _, k') => (.failed, k')
  | .tryNormal =>
    match shmgetCreate Header.zeros k (p.requested .normal) ans with
    | (.ok _, k') => (.attach .normal, k')
    | (.error _, k') => (.failed, k')
  | .attach path =>
    if ans.isOk then (if path = .existing then .verify .header_size else .lock path, k)
    else (.failed, k)
  | .verify field =>
    if (mapped k).sizing field = p.sizing field then
      match field.next with
      | some field' => (.verify field', k)
      | none => (.lock .existing, k)
    else (.mismatch, k)
  | .lock path =>
    if ans.isOk then (if path = .existing then .semget path else .zero path, k) else (.failed, k)
  | .zero path => (.store path .shmid, k.write fun _ => Header.zeros)
  | .store path field =>
    (match field.next with
      | some field' => .store path field'
      | none => .semget path,
     k.write fun h => h.store p (shmidOf k) field)
  | .semget path =>
    match semgetCreate k p.n_block ans with
    | (.ok id, k') => (.storeSemid path id, k')
    | (.error _, k') => (.storeSemid path (-1), k')
  | .storeSemid path rv => (.checkSemid path, k.write fun h => { h with semid := rv })
  | .checkSemid path => (if (mapped k).semid = -1 then .failed else .setAll path, k)
  | .setAll path =>
    match semctlSetAll k (mapped k).semid (clearArray p heap) ans with
    | (true, k') => (.returned path, k')
    | (false, k') => (.failed, k')
  | .returned path => (.returned path, k)
  | .mismatch => (.mismatch, k)
  | .failed => (.failed, k)

/-- The calls of `hashpipe_databuf_create`, in the source's order. -/
inductive CreateCall
  | key
  | shmget1GB
  | shmgetExisting
  | shmget2MB
  | shmgetNormal
  | shmat
  | shmctlLock
  | semget
  | setAll
  deriving DecidableEq

/-- The answer to the call at `pc`; where there is none it does not matter. -/
def CreatePc.answer (ans : CreateCall → IpcAnswer) : CreatePc → IpcAnswer
  | .start => ans .key
  | .try1GB => ans .shmget1GB
  | .tryExisting => ans .shmgetExisting
  | .try2MB => ans .shmget2MB
  | .tryNormal => ans .shmgetNormal
  | .attach _ => ans .shmat
  | .lock _ => ans .shmctlLock
  | .semget _ => ans .semget
  | .setAll _ => ans .setAll
  | _ => .ok 0

/-- `n` steps of a process that runs alone. -/
def createRun (p : CreateArgs) (heap : ℕ → ℕ) (ans : CreateCall → IpcAnswer) :
    ℕ → CreatePc → Ipc Header → CreatePc × Ipc Header
  | 0, pc, k => (pc, k)
  | n + 1, pc, k =>
    let r := createStep p heap k pc (pc.answer ans)
    createRun p heap ans n r.1 r.2

/-- How many steps are left at most. -/
def CreatePc.rank : CreatePc → ℕ
  | .start => 17
  | .try1GB => 16
  | .tryExisting => 10
  | .try2MB => 15
  | .tryNormal => 14
  | .attach path => if path = .existing then 9 else 13
  | .verify .header_size => 8
  | .verify .block_size => 7
  | .verify .n_block => 6
  | .lock path => if path = .existing then 5 else 12
  | .zero _ => 11
  | .store _ .shmid => 10
  | .store _ .semid => 9
  | .store _ .header_size => 8
  | .store _ .n_block => 7
  | .store _ .block_size => 6
  | .store _ .data_type => 5
  | .semget _ => 4
  | .storeSemid _ _ => 3
  | .checkSemid _ => 2
  | .setAll _ => 1
  | .returned _ | .mismatch | .failed => 0

/-- What the function returns and the objects at the key afterwards: its steps until it has
returned. -/
def hashpipeDatabufCreate (p : CreateArgs) (heap : ℕ → ℕ) (ans : CreateCall → IpcAnswer)
    (k : Ipc Header) : CreatePc × Ipc Header :=
  createRun p heap ans CreatePc.start.rank .start k

/-- The function has returned. -/
def CreatePc.Final (pc : CreatePc) : Prop := pc.rank = 0

/-- It has returned a databuf. -/
def CreatePc.isDatabuf : CreatePc → Bool
  | .returned _ => true
  | _ => false

/-- The way in which an attempt makes the segment. -/
def CreatePc.attempt : CreatePc → Option Path
  | .try1GB => some .gb1
  | .try2MB => some .mb2
  | .tryNormal => some .normal
  | _ => none

theorem CreatePc.attempt_ne {pc : CreatePc} {path : Path} (h : pc.attempt = some path) :
    path ≠ .existing := by
  cases pc <;> cases h <;> decide

/-- A step from here may end the call. -/
def CreatePc.mayFail : CreatePc → Bool
  | .start | .try1GB | .tryExisting | .try2MB | .tryNormal => true
  | .attach _ | .lock _ | .checkSemid _ | .setAll _ => true
  | _ => false

/-- Where the process goes from a store. -/
def storeNext (path : Path) (field : HeaderField) : CreatePc :=
  match field.next with
  | some field' => .store path field'
  | none => .semget path

/-- All that one step can do: where the process goes and what it leaves at the key. -/
inductive CreateMove (p : CreateArgs) (k : Ipc Header) : CreatePc → CreatePc → Ipc Header → Prop
  | stays {pc : CreatePc} : pc.Final → CreateMove p k pc pc k
  | fails {pc : CreatePc} : pc.mayFail = true → CreateMove p k pc .failed k
  | keyed : sizeofHashpipeDatabufT ≤ p.header_size → CreateMove p k .start .try1GB k
  | there : CreateMove p k .try1GB .tryExisting k
  | no1GB : CreateMove p k .try1GB .try2MB k
  | no2MB : CreateMove p k .try2MB .tryNormal k
  | made {pc : CreatePc} {path : Path} (id : ℕ) : pc.attempt = some path →
      p.requested path ≠ 0 → k.shm = none →
        CreateMove p k pc (.attach path)
          { k with shm := some ⟨id, p.requested path, Header.zeros⟩ }
  | found {seg : Segment Header} : k.shm = some seg →
      CreateMove p k .tryExisting (.attach .existing) k
  | attachedOld : CreateMove p k (.attach .existing) (.verify .header_size) k
  | attachedNew {path : Path} : path ≠ .existing → CreateMove p k (.attach path) (.lock path) k
  | verified {field field' : SizeField} : (mapped k).sizing field = p.sizing field →
      field.next = some field' → CreateMove p k (.verify field) (.verify field') k
  | verifiedAll {field : SizeField} : (mapped k).sizing field = p.sizing field →
      field.next = none → CreateMove p k (.verify field) (.lock .existing) k
  | differs {field : SizeField} : (mapped k).sizing field ≠ p.sizing field →
      CreateMove p k (.verify field) .mismatch k
  | lockedOld : CreateMove p k (.lock .existing) (.semget .existing) k
  | lockedNew {path : Path} : path ≠ .existing → CreateMove p k (.lock path) (.zero path) k
  | zeroed {path : Path} :
      CreateMove p k (.zero path) (.store path .shmid) (k.write fun _ => Header.zeros)
  | stored {path : Path} {field : HeaderField} :
      CreateMove p k (.store path field) (storeNext path field)
        (k.write fun h => h.store p (shmidOf k) field)
  | gotSem {path : Path} {id : ℕ} {k' : Ipc Header} : 0 ≤ p.n_block → k'.shm = k.shm →
      (∃ r, k'.sem = some r ∧ r.semid = id) → (∀ r, k.sem = some r → k' = k) →
        CreateMove p k (.semget path) (.storeSemid path id) k'
  | noSem {path : Path} : CreateMove p k (.semget path) (.storeSemid path (-1)) k
  | storedSemid {path : Path} {rv : ℤ} :
      CreateMove p k (.storeSemid path rv) (.checkSemid path)
        (k.write fun h => { h with semid := rv })
  | checked {path : Path} : (mapped k).semid ≠ -1 →
      CreateMove p k (.checkSemid path) (.setAll path) k
  | set {path : Path} {k' : Ipc Header} : k'.shm = k.shm →
      k'.sem.map SemRecord.semid = k.sem.map SemRecord.semid →
      (∃ r, k'.sem = some r ∧ (mapped k).semid = r.semid) →
        CreateMove p k (.setAll path) (.returned path) k'

section Run

variable {p : CreateArgs} {heap : ℕ → ℕ} {ans : CreateCall → IpcAnswer} {k : Ipc Header}
  {pc : CreatePc}

theorem createRun_succ (n : ℕ) : createRun p heap ans (n + 1) pc k =
    createRun p heap ans n (createStep p heap k pc (pc.answer ans)).1
      (createStep p heap k pc (pc.answer ans)).2 := rfl

/-- An attempt that makes the segment. -/
theorem createMove_made {path : Path} {a : IpcAnswer} {id : ℕ} {k' : Ipc Header}
    (hpath : pc.attempt = some path)
    (hcall : shmgetCreate Header.zeros k (p.requested path) a = (.ok id, k')) :
    CreateMove p k pc (.attach path) k' := by
  obtain ⟨hsize, hshm, rfl⟩ := (shmgetCreate_spec hcall).2 id rfl
  exact .made id hpath hsize hshm

/-- **What one step does.** -/
theorem createStep_move (a : IpcAnswer) :
    CreateMove p k pc (createStep p heap k pc a).1 (createStep p heap k pc a).2 := by
  cases pc with
  | start =>
    simp only [createStep]
    split
    · exact .fails rfl
    · rename_i hheader
      split
      · exact .keyed (Nat.not_lt.mp hheader)
      · exact .fails rfl
  | try1GB =>
    simp only [createStep]
    split <;> rename_i hcall
    · exact createMove_made rfl hcall
    · rw [(shmgetCreate_spec hcall).1 _ rfl]
      exact .there
    · rw [(shmgetCreate_spec hcall).1 _ rfl]
      exact .no1GB
    · rw [(shmgetCreate_spec hcall).1 _ rfl]
      exact .fails rfl
  | tryExisting =>
    simp only [createStep]
    split
    · rename_i hcall
      obtain ⟨seg, hseg⟩ := shmgetOpen_spec hcall
      exact .found hseg
    · exact .fails rfl
  | try2MB =>
    simp only [createStep]
    split <;> rename_i hcall
    · exact createMove_made rfl hcall
    · rw [(shmgetCreate_spec hcall).1 _ rfl]
      exact .no2MB
    · rw [(shmgetCreate_spec hcall).1 _ rfl]
      exact .fails rfl
  | tryNormal =>
    simp only [createStep]
    split <;> rename_i hcall
    · exact createMove_made rfl hcall
    · rw [(shmgetCreate_spec hcall).1 _ rfl]
      exact .fails rfl
  | attach path =>
    simp only [createStep]
    split
    · split
      · rename_i hexisting
        subst hexisting
        exact .attachedOld
      · exact .attachedNew ‹_›
    · exact .fails rfl
  | verify field =>
    simp only [createStep]
    split
    · rename_i hsame
      cases hnext : field.next with
      | some field' => exact .verified hsame hnext
      | none => exact .verifiedAll hsame hnext
    · exact .differs ‹_›
  | lock path =>
    simp only [createStep]
    split
    · split
      · rename_i hexisting
        subst hexisting
        exact .lockedOld
      · exact .lockedNew ‹_›
    · exact .fails rfl
  | zero path => exact .zeroed
  | store path field => exact .stored
  | semget path =>
    simp only [createStep]
    split <;> rename_i hcall
    · obtain ⟨hshm, -, hok⟩ := semgetCreate_spec hcall
      obtain ⟨hcount, hset, hsame⟩ := hok _ rfl
      exact .gotSem hcount hshm hset hsame
    · rw [(semgetCreate_spec hcall).2.1 _ rfl]
      exact .noSem
  | storeSemid path rv => exact .storedSemid
  | checkSemid path =>
    simp only [createStep]
    split
    · exact .fails rfl
    · exact .checked ‹_›
  | setAll path =>
    simp only [createStep]
    split <;> rename_i hcall
    · obtain ⟨hshm, hids, -⟩ := semctlSetAll_spec hcall
      exact .set hshm hids (semctlSetAll_done hcall)
    · rw [(semctlSetAll_spec hcall).2.2 rfl]
      exact .fails rfl
  | returned path => exact .stays rfl
  | mismatch => exact .stays rfl
  | failed => exact .stays rfl

theorem CreateMove.rank_le {pc' : CreatePc} {k' : Ipc Header} (h : CreateMove p k pc pc' k') :
    pc'.rank ≤ pc.rank - 1 := by
  cases h with
  | stays hfinal => exact (hfinal.le : pc.rank ≤ 0).trans (Nat.zero_le _)
  | fails => exact Nat.zero_le _
  | made id hpath =>
    cases pc <;> cases hpath <;> decide
  | attachedNew hnew => simp [CreatePc.rank, hnew]
  | @verified field field' _ hnext =>
    cases field <;> simp only [SizeField.next, Option.some.injEq, reduceCtorEq] at hnext <;>
      subst hnext <;> decide
  | @verifiedAll field _ hnext =>
    cases field <;> simp only [SizeField.next, reduceCtorEq] at hnext
    decide
  | lockedNew hnew => simp [CreatePc.rank, hnew]
  | @stored path field => cases field <;> simp [storeNext, HeaderField.next, CreatePc.rank]
  | _ => simp [CreatePc.rank]

/-- Every step of an unfinished call brings it closer to its return. -/
theorem rank_createStep (a : IpcAnswer) :
    (createStep p heap k pc a).1.rank ≤ pc.rank - 1 :=
  (createStep_move a).rank_le

theorem createRun_final {n : ℕ} : ∀ {pc : CreatePc} {k : Ipc Header}, pc.rank ≤ n →
    (createRun p heap ans n pc k).1.Final := by
  induction n with
  | zero => intro pc k h; exact Nat.le_zero.mp h
  | succ n ih =>
    intro pc k h
    rw [createRun_succ]
    apply ih
    have hstep : (createStep p heap k pc (pc.answer ans)).1.rank ≤ pc.rank - 1 :=
      rank_createStep _
    omega

/-- **The function returns**, whatever it finds and however its calls are answered. -/
theorem hashpipeDatabufCreate_final : (hashpipeDatabufCreate p heap ans k).1.Final :=
  createRun_final le_rfl

/-- What holds at the start and is kept by every step holds at the return. -/
theorem createRun_invariant {I : CreatePc → Ipc Header → Prop}
    (hstep : ∀ pc k, I pc k →
      I (createStep p heap k pc (pc.answer ans)).1 (createStep p heap k pc (pc.answer ans)).2)
    (n : ℕ) : ∀ {pc : CreatePc} {k : Ipc Header}, I pc k →
      I (createRun p heap ans n pc k).1 (createRun p heap ans n pc k).2 := by
  induction n with
  | zero => intro pc k h; exact h
  | succ n ih =>
    intro pc k h
    rw [createRun_succ]
    exact ih (hstep pc k h)

/-! ### The rest of a call, from any point -/

/-- What is left of the call at `pc`, run to its return. -/
def createEnd (p : CreateArgs) (heap : ℕ → ℕ) (ans : CreateCall → IpcAnswer) (pc : CreatePc)
    (k : Ipc Header) : CreatePc × Ipc Header := createRun p heap ans pc.rank pc k

theorem createStep_final (h : pc.Final) (a : IpcAnswer) : createStep p heap k pc a = (pc, k) := by
  cases pc with
  | returned path => rfl
  | mismatch => rfl
  | failed => rfl
  | attach path => cases path <;> cases h
  | verify field => cases field <;> cases h
  | lock path => cases path <;> cases h
  | store path field => cases field <;> cases h
  | _ => cases h

theorem createRun_of_final (h : pc.Final) (n : ℕ) : createRun p heap ans n pc k = (pc, k) := by
  induction n with
  | zero => rfl
  | succ n ih => rw [createRun_succ, createStep_final h, ih]

/-- More steps than are left change nothing. -/
theorem createRun_of_rank_le (n : ℕ) : ∀ {m : ℕ} {pc : CreatePc} {k : Ipc Header},
    pc.rank ≤ n → n ≤ m → createRun p heap ans m pc k = createRun p heap ans n pc k := by
  induction n with
  | zero =>
    intro m pc k h _
    exact createRun_of_final (Nat.le_zero.mp h) m
  | succ n ih =>
    intro m pc k h hm
    obtain ⟨m, rfl⟩ := Nat.exists_eq_add_of_lt hm
    rw [createRun_succ, createRun_succ]
    have hstep : (createStep p heap k pc (pc.answer ans)).1.rank ≤ pc.rank - 1 :=
      rank_createStep _
    exact ih (by omega) (by omega)

/-- One step, then the rest. -/
theorem createEnd_step : createEnd p heap ans pc k =
    createEnd p heap ans (createStep p heap k pc (pc.answer ans)).1
      (createStep p heap k pc (pc.answer ans)).2 := by
  have hstep : (createStep p heap k pc (pc.answer ans)).1.rank ≤ pc.rank - 1 := rank_createStep _
  cases hrank : pc.rank with
  | zero => rw [createStep_final hrank]
  | succ n =>
    rw [createEnd, hrank, createRun_succ, createEnd]
    exact createRun_of_rank_le _ le_rfl (by omega)

theorem createEnd_final (h : pc.Final) : createEnd p heap ans pc k = (pc, k) :=
  createRun_of_final h _

end Run

/-! ### A small databuf on a machine without 1 GB pages -/

def smallArgs : CreateArgs := ⟨96, 4096, 24, by decide, by decide, by decide, by decide⟩

def noHugePages : CreateCall → IpcAnswer
  | .shmget1GB => .fail .ENOMEM
  | _ => .ok 7

/-- Nothing at the key. -/
def noKey : Ipc Header := ⟨none, none⟩

end Hashpipe.Databuf
