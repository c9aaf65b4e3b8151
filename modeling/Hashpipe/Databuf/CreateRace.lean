import Hashpipe.Databuf.BlockLayout
import Hashpipe.Library.StepSystem

/-!
# Creating a databuf while others create or attach it

Any number of processes call `hashpipe_databuf_create` with the same sizing arguments, or
`hashpipe_databuf_attach`, for a key at which there is no segment yet; whoever holds the
databuf reads its header.  Each call of the system and each access to the header is a step
of its own (`createStep`), so another process can come in between any two of them: after
`shmget` has made the segment its header is still zero, and the fields are stored one after
the other.

`stored` and `identified` are history: which sizes the creating process has stored, and
whether the last store to `semid` was the identifier of the semaphore set.  `RaceInv` says
that the header is exactly as far as `stored` says.
-/

namespace Hashpipe.Databuf

open SysVIpc StepSystem

/-- What a holder of the databuf reads of its header. -/
inductive ReadField
  | size (field : SizeField)
  | semid
  deriving DecidableEq

def Header.read (h : Header) : ReadField → ℤ
  | .size field => h.sizing field
  | .semid => h.semid

/-- Where a process is: in neither function, in one of them, or back with the databuf from
`hashpipe_databuf_attach`.  A call of that function that returned NULL may be repeated, as
`null_output_thread` does. -/
inductive UserPc
  | idle
  | create (pc : CreatePc)
  | attachShmget
  | attachShmat
  | attached
  deriving DecidableEq

/-- The process has got the databuf. -/
def UserPc.holds : UserPc → Bool
  | .create pc => pc.isDatabuf
  | .attached => true
  | _ => false

/-- The process has no call in progress and no databuf. -/
def UserPc.mayCall : UserPc → Bool
  | .idle => true
  | .create .failed => true
  | .create .mismatch => true
  | _ => false

structure Race (P : Type) where
  ipc : Ipc Header
  pc : P → UserPc
  stored : SizeField → Bool
  identified : Bool
  /-- Every read so far of a process that holds the databuf. -/
  reads : List (ReadField × ℤ)

inductive RaceAction (P : Type)
  | callCreate (p : P)
  | callAttach (p : P)
  | step (p : P) (ans : IpcAnswer)
  | read (p : P) (field : ReadField)

/-- The history variables after a step from `pc`. -/
def storedAfter (stored : SizeField → Bool) : CreatePc → SizeField → Bool
  | .zero _ => fun _ => false
  | .store _ .header_size => Function.update stored .header_size true
  | .store _ .n_block => Function.update stored .n_block true
  | .store _ .block_size => Function.update stored .block_size true
  | _ => stored

def identifiedAfter (identified : Bool) : CreatePc → Bool
  | .zero _ => false
  | .store _ .semid => false
  | .storeSemid _ rv => rv ≠ -1
  | _ => identified

variable {P : Type} [DecidableEq P]

def Race.move (s : Race P) (p : P) (u : UserPc) : Race P :=
  { s with pc := Function.update s.pc p u }

def raceNext (args : CreateArgs) (heap : ℕ → ℕ) (s : Race P) : RaceAction P → Option (Race P)
  | .callCreate p => if (s.pc p).mayCall then some (s.move p (.create .start)) else none
  | .callAttach p => if (s.pc p).mayCall then some (s.move p .attachShmget) else none
  | .step p ans =>
    match s.pc p with
    | .create pc =>
      if pc.rank = 0 then none
      else
        some { s with ipc := (createStep args heap s.ipc pc ans).2,
                      pc := Function.update s.pc p (.create (createStep args heap s.ipc pc ans).1),
                      stored := storedAfter s.stored pc,
                      identified := identifiedAfter s.identified pc }
    | .attachShmget =>
      match shmgetOpen s.ipc 0 ans with
      | .ok _ => some (s.move p .attachShmat)
      | .error _ => some (s.move p .idle)
    | .attachShmat => some (s.move p (if ans.isOk then .attached else .idle))
    | _ => none
  | .read p field =>
    if (s.pc p).holds then
      some { s with reads := (field, (mapped s.ipc).read field) :: s.reads }
    else none

/-- No segment at the key, and nobody has called anything yet. -/
def RaceInit (s : Race P) : Prop :=
  s.ipc.shm = none ∧ (∀ p, s.pc p = .idle) ∧ (∀ field, s.stored field = false) ∧
    s.identified = false ∧ s.reads = []

def raceSystem (args : CreateArgs) (heap : ℕ → ℕ) : System (Race P) (RaceAction P) where
  init := RaceInit
  next := raceNext args heap

/-- A size is verified or read when it has been stored, and the semaphore identifier is read
when the header holds one. -/
def published (s : Race P) : RaceAction P → Prop
  | .step p _ =>
    match s.pc p with
    | .create (.verify field) => s.stored field = true
    | _ => True
  | .read _ (.size field) => s.stored field = true
  | .read _ .semid => s.identified = true
  | _ => True

instance (s : Race P) (a : RaceAction P) : Decidable (published s a) := by
  unfold published
  split
  · split <;> infer_instance
  · infer_instance
  · infer_instance
  · infer_instance

/-- The value is the one the field keeps: the size that was asked for, the identifier of the
key's semaphore set. -/
def FinalValue (args : CreateArgs) (k : Ipc Header) : ReadField × ℤ → Prop
  | (.size field, v) => v = args.sizing field
  | (.semid, v) => ∃ rec, k.sem = some rec ∧ v = rec.semid

/-- The process has the segment, or knows it. -/
def UserPc.path : UserPc → Option Path
  | .create pc => pc.path
  | .attachShmat | .attached => some .existing
  | _ => none

def UserPc.sized : UserPc → SizeField → Bool
  | .create pc, field => pc.sized field
  | _, _ => false

/-- The process has made the segment and its header is not complete. -/
def CreatePc.filling : CreatePc → Bool
  | .attach path | .lock path => path ≠ .existing
  | .zero _ => true
  | .store _ _ => true
  | _ => false

def UserPc.filling : UserPc → Bool
  | .create pc => pc.filling
  | _ => false

structure RaceInv (args : CreateArgs) (s : Race P) : Prop where
  noSegment : s.ipc.shm = none → (∀ p, (s.pc p).path = none) ∧ ∀ field, s.stored field = false
  header : ∀ field, (mapped s.ipc).sizing field = if s.stored field then args.sizing field else 0
  sized : ∀ p field, (s.pc p).sized field = true → s.stored field = true
  filling : ∀ p, (s.pc p).filling = true → ∀ field, s.stored field = (s.pc p).sized field
  unique : ∀ p q, (s.pc p).filling = true → (s.pc q).filling = true → p = q
  semget : ∀ p path rv, s.pc p = .create (.storeSemid path rv) →
    rv = -1 ∨ ∃ rec, s.ipc.sem = some rec ∧ rv = rec.semid
  identified : s.identified = true →
    ∃ rec, s.ipc.sem = some rec ∧ (mapped s.ipc).semid = rec.semid
  matched : ∀ p, s.pc p ≠ .create .mismatch
  reads : ∀ r ∈ s.reads, FinalValue args s.ipc r

section Invariant

variable {args : CreateArgs} {heap : ℕ → ℕ} {s t : Race P} {p : P}

theorem path_of_filling {u : UserPc} (h : u.filling = true) : ∃ path, u.path = some path := by
  cases u with
  | create pc => cases pc <;> first | exact ⟨_, rfl⟩ | cases h
  | _ => cases h

theorem path_of_sized {u : UserPc} {field : SizeField} (h : u.sized field = true) :
    ∃ path, u.path = some path := by
  cases u with
  | create pc => cases pc <;> first | exact ⟨_, rfl⟩ | cases h
  | _ => cases h

/-- A value that is final stays so while the semaphore set keeps its identifier. -/
theorem FinalValue.mono {k k' : Ipc Header}
    (hsem : ∀ rec, k.sem = some rec → ∃ rec', k'.sem = some rec' ∧ rec'.semid = rec.semid)
    {r : ReadField × ℤ} (h : FinalValue args k r) : FinalValue args k' r := by
  rcases r with ⟨field, v⟩
  cases field with
  | size field => exact h
  | semid =>
    obtain ⟨rec, hrec, rfl⟩ := h
    obtain ⟨rec', hrec', hid⟩ := hsem rec hrec
    exact ⟨rec', hrec', by rw [hid]⟩

/-- What has to be checked of a step in which process `p` moves to `u`. -/
theorem RaceInv.move (hi : RaceInv args s) (u : UserPc) (k : Ipc Header)
    (stored : SizeField → Bool) (identified : Bool)
    (hnone : k.shm = none → u.path = none ∧ s.ipc.shm = none ∧ ∀ f, stored f = false)
    (hheader : ∀ f, (mapped k).sizing f = if stored f then args.sizing f else 0)
    (hmono : ∀ f, s.stored f = true → stored f = true)
    (hsized : ∀ f, u.sized f = true → stored f = true)
    (hfilling : u.filling = true →
      (∀ q ≠ p, (s.pc q).filling = false) ∧ ∀ f, stored f = u.sized f)
    (hothers : ∀ q ≠ p, (s.pc q).filling = true → stored = s.stored)
    (hsem : ∀ rec, s.ipc.sem = some rec → ∃ rec', k.sem = some rec' ∧ rec'.semid = rec.semid)
    (hsemget : ∀ path rv, u = .create (.storeSemid path rv) →
      rv = -1 ∨ ∃ rec, k.sem = some rec ∧ rv = rec.semid)
    (hidentified : identified = true →
      ∃ rec, k.sem = some rec ∧ (mapped k).semid = rec.semid)
    (hmatched : u ≠ .create .mismatch) :
    RaceInv args { s with ipc := k, pc := Function.update s.pc p u, stored := stored,
                          identified := identified } := by
  have hpc : ∀ q, (q = p ∧ Function.update s.pc p u q = u) ∨
      (q ≠ p ∧ Function.update s.pc p u q = s.pc q) := by
    intro q
    by_cases hq : q = p
    · exact .inl ⟨hq, by rw [hq, Function.update_self]⟩
    · exact .inr ⟨hq, Function.update_of_ne hq _ _⟩
  constructor
  · intro hk
    obtain ⟨hu, hshm, hfalse⟩ := hnone hk
    refine ⟨fun q => ?_, hfalse⟩
    dsimp only
    rcases hpc q with ⟨-, hq⟩ | ⟨-, hq⟩
    · rw [hq]
      exact hu
    · rw [hq]
      exact (hi.noSegment hshm).1 q
  · exact hheader
  · intro q f hf
    dsimp only at hf ⊢
    rcases hpc q with ⟨-, hq⟩ | ⟨-, hq⟩
    · rw [hq] at hf
      exact hsized f hf
    · rw [hq] at hf
      exact hmono f (hi.sized q f hf)
  · intro q hq' f
    dsimp only at hq' ⊢
    rcases hpc q with ⟨-, hq⟩ | ⟨hne, hq⟩
    · rw [hq] at hq' ⊢
      exact (hfilling hq').2 f
    · rw [hq] at hq' ⊢
      rw [hothers q hne hq']
      exact hi.filling q hq' f
  · intro q r hq' hr'
    dsimp only at hq' hr'
    rcases hpc q with ⟨hqp, hq⟩ | ⟨hqp, hq⟩ <;> rcases hpc r with ⟨hrp, hr⟩ | ⟨hrp, hr⟩
    · rw [hqp, hrp]
    · rw [hq] at hq'
      rw [hr, (hfilling hq').1 r hrp] at hr'
      cases hr'
    · rw [hr] at hr'
      rw [hq, (hfilling hr').1 q hqp] at hq'
      cases hq'
    · rw [hq] at hq'
      rw [hr] at hr'
      exact hi.unique q r hq' hr'
  · intro q path rv hq'
    dsimp only at hq' ⊢
    rcases hpc q with ⟨-, hq⟩ | ⟨-, hq⟩
    · exact hsemget path rv (hq.symm.trans hq')
    · rw [hq] at hq'
      rcases hi.semget q path rv hq' with hfail | ⟨rec, hrec, hrv⟩
      · exact .inl hfail
      · obtain ⟨rec', hrec', hid⟩ := hsem rec hrec
        exact .inr ⟨rec', hrec', by rw [hrv, hid]⟩
  · exact hidentified
  · intro q hq'
    dsimp only at hq'
    rcases hpc q with ⟨-, hq⟩ | ⟨-, hq⟩
    · exact hmatched (hq.symm.trans hq')
    · exact hi.matched q (hq.symm.trans hq')
  · intro r hr
    exact (hi.reads r hr).mono hsem

/-- A step that leaves the objects at the key alone. -/
theorem RaceInv.quiet (hi : RaceInv args s) {u : UserPc}
    (hpath : u.path = none ∨ s.ipc.shm ≠ none) (hsized : ∀ f, u.sized f = true → s.stored f = true)
    (hfilling : u.filling = true → (s.pc p).filling = true ∧ u.sized = (s.pc p).sized)
    (hsemget : ∀ path rv, u ≠ .create (.storeSemid path rv))
    (hmatched : u ≠ .create .mismatch) : RaceInv args (s.move p u) := by
  refine hi.move u s.ipc s.stored s.identified ?_ hi.header (fun _ h => h) hsized ?_
    (fun _ _ _ => rfl) (fun rec h => ⟨rec, h, rfl⟩) ?_ hi.identified hmatched
  · intro hshm
    exact ⟨hpath.resolve_right (not_not.mpr hshm), hshm, (hi.noSegment hshm).2⟩
  · intro hu
    obtain ⟨hp, hsame⟩ := hfilling hu
    refine ⟨fun q hq => ?_, fun f => by rw [hsame]; exact hi.filling p hp f⟩
    rw [Bool.eq_false_iff]
    intro hq'
    exact hq (hi.unique q p hq' hp)
  · intro path rv h
    exact absurd h (hsemget path rv)

/-- One process makes the segment: nobody else can be filling it. -/
theorem RaceInv.made (hi : RaceInv args s) {path : Path}
    (hshm : s.ipc.shm = none) (id size : ℕ) :
    RaceInv args { s with ipc := { s.ipc with shm := some ⟨id, size, Header.zeros⟩ },
                          pc := Function.update s.pc p (.create (.attach path)) } := by
  obtain ⟨hnone, hstored⟩ := hi.noSegment hshm
  have hmapped : mapped s.ipc = Header.zeros := by rw [mapped, hshm]
  refine hi.move (.create (.attach path)) _ s.stored s.identified (fun h => by cases h) ?_
    (fun _ h => h) (fun _ h => by cases h) ?_ (fun _ _ _ => rfl) (fun rec h => ⟨rec, h, rfl⟩)
    (fun _ _ h => by cases h) ?_ (by simp)
  · intro f
    have hheader := hi.header f
    rw [hmapped] at hheader
    exact hheader
  · intro _
    refine ⟨fun q _ => ?_, hstored⟩
    rw [Bool.eq_false_iff]
    intro hq
    obtain ⟨path', hpath'⟩ := path_of_filling hq
    exact absurd ((hnone q).symm.trans hpath') (by simp)
  · intro h
    obtain ⟨rec, hrec, hsemid⟩ := hi.identified h
    rw [hmapped] at hsemid
    exact ⟨rec, hrec, hsemid⟩

omit [DecidableEq P] in
/-- The segment is there for a process that has a path. -/
theorem RaceInv.segment (hi : RaceInv args s) {path : Path} (h : (s.pc p).path = some path) :
    ∃ seg, s.ipc.shm = some seg := by
  cases hshm : s.ipc.shm with
  | none => exact absurd (((hi.noSegment hshm).1 p).symm.trans h) (by simp)
  | some seg => exact ⟨seg, rfl⟩

/-- The process that fills the header writes it. -/
theorem RaceInv.fill (hi : RaceInv args s) (hp : (s.pc p).filling = true) (u : UserPc)
    (g : Header → Header) (stored : SizeField → Bool) (identified : Bool)
    (hheader : ∀ f, (g (mapped s.ipc)).sizing f = if stored f then args.sizing f else 0)
    (hmono : ∀ f, s.stored f = true → stored f = true)
    (hsized : ∀ f, u.sized f = true → stored f = true)
    (hfilling : u.filling = true → ∀ f, stored f = u.sized f)
    (hsemget : ∀ path rv, u ≠ .create (.storeSemid path rv))
    (hidentified : identified = true →
      s.identified = true ∧ (g (mapped s.ipc)).semid = (mapped s.ipc).semid)
    (hmatched : u ≠ .create .mismatch) :
    RaceInv args { s with ipc := s.ipc.write g, pc := Function.update s.pc p u, stored := stored,
                          identified := identified } := by
  have hothers : ∀ q ≠ p, (s.pc q).filling = false := by
    intro q hq
    rw [Bool.eq_false_iff]
    intro hq'
    exact hq (hi.unique q p hq' hp)
  obtain ⟨path, hpath⟩ := path_of_filling hp
  obtain ⟨seg, hseg⟩ := hi.segment hpath
  refine hi.move u _ stored identified ?_ ?_ hmono hsized
    (fun hu => ⟨hothers, hfilling hu⟩) ?_ (fun rec h => ⟨rec, h, rfl⟩)
    (fun path rv h => absurd h (hsemget path rv)) ?_ hmatched
  · intro h
    rw [Ipc.write_shm hseg] at h
    cases h
  · intro f
    rw [mapped_write hseg]
    exact hheader f
  · intro q hq hq'
    rw [hothers q hq] at hq'
    cases hq'
  · intro h
    obtain ⟨hold, hsame⟩ := hidentified h
    obtain ⟨rec, hrec, hsemid⟩ := hi.identified hold
    exact ⟨rec, hrec, by rw [mapped_write hseg, hsame, hsemid]⟩

/-- A call that ends with NULL for a reason other than the sizes. -/
theorem RaceInv.fails (hi : RaceInv args s) : RaceInv args (s.move p (.create .failed)) :=
  hi.quiet (.inl rfl) (fun _ h => by cases h) (fun h => by cases h) (fun _ _ h => by cases h)
    (by simp)

/-- A next attempt at a segment. -/
theorem RaceInv.attempt (hi : RaceInv args s) {pc : CreatePc} (hpath : pc.path = none)
    (hmatched : pc ≠ .mismatch) : RaceInv args (s.move p (.create pc)) := by
  refine hi.quiet (.inl hpath) ?_ ?_ ?_ (by simpa using hmatched)
  · intro f hf
    obtain ⟨path, h⟩ := path_of_sized hf
    exact absurd (hpath.symm.trans h) (by simp)
  · intro hf
    obtain ⟨path, h⟩ := path_of_filling hf
    exact absurd (hpath.symm.trans h) (by simp)
  · intro path rv h
    cases h
    cases hpath

/-- A step on a path that only moves the process. -/
theorem RaceInv.forward (hi : RaceInv args s) {pc pc' : CreatePc} (hpc : s.pc p = .create pc)
    {path : Path} (hpath : pc.path = some path)
    (hsized : ∀ f, pc'.sized f = true → s.stored f = true)
    (hfilling : pc'.filling = true → pc.filling = true ∧ pc'.sized = pc.sized)
    (hsemget : ∀ path rv, pc' ≠ .storeSemid path rv) (hmatched : pc' ≠ .mismatch) :
    RaceInv args (s.move p (.create pc')) := by
  have hpath' : (s.pc p).path = some path := by rw [hpc]; exact hpath
  obtain ⟨seg, hseg⟩ := hi.segment hpath'
  refine hi.quiet (.inr (by simp [hseg])) hsized ?_ (by simpa using hsemget) (by simpa using hmatched)
  intro h
  rw [hpc]
  obtain ⟨hf, hs⟩ := hfilling h
  exact ⟨hf, funext fun f => congrFun hs f⟩

omit [DecidableEq P] in
/-- What is known at `pc` has been stored. -/
theorem RaceInv.sized_at (hi : RaceInv args s) {pc : CreatePc} (hpc : s.pc p = .create pc)
    {f : SizeField} (h : pc.sized f = true) : s.stored f = true :=
  hi.sized p f (by rw [hpc]; exact h)

/-- A step behind the header's sizes that does not touch them: the segment keeps its sizes, the
semaphore set its identifier. -/
theorem RaceInv.behind (hi : RaceInv args s) {pc : CreatePc} (hpc : s.pc p = .create pc)
    (hall : ∀ f, pc.sized f = true) (u : CreatePc) (hfilling : u.filling = false) (k : Ipc Header) (identified : Bool)
    (hshm : k.shm ≠ none) (hsizing : ∀ f, (mapped k).sizing f = (mapped s.ipc).sizing f)
    (hsem : ∀ rec, s.ipc.sem = some rec → ∃ rec', k.sem = some rec' ∧ rec'.semid = rec.semid)
    (hsemget : ∀ path rv, u = .storeSemid path rv →
      rv = -1 ∨ ∃ rec, k.sem = some rec ∧ rv = rec.semid)
    (hidentified : identified = true → ∃ rec, k.sem = some rec ∧ (mapped k).semid = rec.semid)
    (hmatched : u ≠ .mismatch) :
    RaceInv args { s with ipc := k, pc := Function.update s.pc p (.create u),
                          identified := identified } := by
  refine hi.move (.create u) k s.stored identified (fun h => absurd h hshm) ?_ (fun _ h => h)
    (fun f _ => hi.sized_at hpc (hall f)) ?_ (fun _ _ _ => rfl) hsem ?_ hidentified
    (by simpa using hmatched)
  · intro f
    rw [hsizing]
    exact hi.header f
  · intro h
    have hu : u.filling = true := h
    rw [hfilling] at hu
    cases hu
  · intro path rv h
    exact hsemget path rv (UserPc.create.inj h)

/-- The state after a step of `hashpipe_databuf_create` in process `p`. -/
def Race.createStep (args : CreateArgs) (heap : ℕ → ℕ) (s : Race P) (p : P) (pc : CreatePc)
    (ans : IpcAnswer) : Race P :=
  { s with ipc := (Databuf.createStep args heap s.ipc pc ans).2,
           pc := Function.update s.pc p
             (.create (Databuf.createStep args heap s.ipc pc ans).1),
           stored := storedAfter s.stored pc,
           identified := identifiedAfter s.identified pc }

theorem storedAfter_store (stored : SizeField → Bool) (path : Path) (field : HeaderField)
    (f : SizeField) : storedAfter stored (.store path field) f = true ↔
      field.size = some f ∨ stored f = true := by
  cases field <;> cases f <;> simp [storedAfter, HeaderField.size, Function.update]

/-- A store in the header: its size is stored, and known behind it. -/
theorem RaceInv.store (hi : RaceInv args s) {path : Path} {field : HeaderField}
    (hpc : s.pc p = .create (.store path field)) :
    RaceInv args { s with ipc := s.ipc.write fun h => h.store args (shmidOf s.ipc) field,
                          pc := Function.update s.pc p (.create (storeNext path field)),
                          stored := storedAfter s.stored (.store path field),
                          identified := identifiedAfter s.identified (.store path field) } := by
  have hp : (s.pc p).filling = true := by rw [hpc]; rfl
  have hold : ∀ f, s.stored f = (CreatePc.store path field).sized f := by
    intro f
    rw [hi.filling p hp f, hpc]
    rfl
  have hafter := storedAfter_store s.stored path field
  have hnext : ∀ f, storedAfter s.stored (.store path field) f = (storeNext path field).sized f := by
    intro f
    rw [Bool.eq_iff_iff, hafter, sized_store, hold]
  refine hi.fill hp (.create (storeNext path field)) _ _ _ ?_
    (fun f hf => (hafter f).mpr (.inr hf))
    (fun f hf => (hnext f).trans hf) (fun _ f => hnext f) ?_ ?_ ?_
  · intro f
    rw [sizing_store]
    by_cases hfield : field.size = some f
    · rw [if_pos hfield, if_pos ((hafter f).mpr (.inl hfield))]
    · have hsame : storedAfter s.stored (.store path field) f = s.stored f := by
        rw [Bool.eq_iff_iff, hafter, or_iff_right hfield]
      rw [if_neg hfield, hsame]
      exact hi.header f
  · intro path' rv h
    cases field <;> cases h
  · intro h
    cases field <;> first | exact ⟨h, rfl⟩ | cases h
  · cases field <;> simp [storeNext, HeaderField.next]

/-- The header is cleared by the process that then fills it. -/
theorem RaceInv.zero (hi : RaceInv args s) {path : Path} (hpc : s.pc p = .create (.zero path)) :
    RaceInv args { s with ipc := s.ipc.write fun _ => Header.zeros,
                          pc := Function.update s.pc p (.create (.store path .shmid)),
                          stored := fun _ => false, identified := false } := by
  have hp : (s.pc p).filling = true := by rw [hpc]; rfl
  have hnone : ∀ f, s.stored f = false := by
    intro f
    rw [hi.filling p hp f, hpc]
    rfl
  refine hi.fill hp _ _ _ _ ?_ ?_ (fun _ h => by cases h) (fun _ _ => rfl)
    (fun _ _ h => by cases h) (fun h => by cases h) (by simp)
  · intro f
    cases f <;> rfl
  · intro f hf
    rw [hnone f] at hf
    cases hf

/-- A step that may fail, or makes the segment, stores nothing. -/
theorem history_kept {pc : CreatePc} (h : pc.mayFail = true) (stored : SizeField → Bool)
    (identified : Bool) :
    storedAfter stored pc = stored ∧ identifiedAfter identified pc = identified := by
  cases pc <;> first | exact ⟨rfl, rfl⟩ | cases h

theorem CreatePc.attempt_mayFail {pc : CreatePc} {path : Path} (h : pc.attempt = some path) :
    pc.mayFail = true := by
  cases pc <;> first | rfl | cases h

/-- **What a process does in one step of `hashpipe_databuf_create` keeps the invariant**, when a
size that is verified has been stored. -/
theorem RaceInv.moved (hi : RaceInv args s) {pc pc' : CreatePc} {k : Ipc Header}
    (hpc : s.pc p = .create pc) (hrank : pc.rank ≠ 0)
    (hverify : ∀ f, pc = .verify f → s.stored f = true) (hmove : CreateMove args s.ipc pc pc' k) :
    RaceInv args { s with ipc := k, pc := Function.update s.pc p (.create pc'),
                          stored := storedAfter s.stored pc,
                          identified := identifiedAfter s.identified pc } := by
  have hsegment : ∀ path, pc.path = some path → ∃ seg, s.ipc.shm = some seg := by
    intro path hpath
    have hpath' : (s.pc p).path = some path := by rw [hpc]; exact hpath
    exact hi.segment hpath'
  cases hmove with
  | stays hfinal => exact absurd hfinal hrank
  | fails hmay =>
    obtain ⟨hstored, hidentified⟩ := history_kept hmay s.stored s.identified
    rw [hstored, hidentified]
    exact hi.fails
  | keyed => exact hi.attempt rfl (by simp)
  | there => exact hi.attempt rfl (by simp)
  | no1GB => exact hi.attempt rfl (by simp)
  | no2MB => exact hi.attempt rfl (by simp)
  | made id hpath _ hshm =>
    obtain ⟨hstored, hidentified⟩ :=
      history_kept (CreatePc.attempt_mayFail hpath) s.stored s.identified
    rw [hstored, hidentified]
    exact hi.made hshm _ _
  | found hseg =>
    exact hi.quiet (.inr (by simp [hseg])) (fun _ h => by cases h) (fun h => by cases h)
      (fun _ _ h => by cases h) (by simp)
  | attachedOld =>
    exact hi.forward hpc rfl (fun _ h => by cases h) (fun h => by cases h)
      (fun _ _ h => by cases h) (by simp)
  | @attachedNew path hnew =>
    refine hi.forward hpc rfl ?_ ?_ (fun _ _ h => by cases h) (by simp)
    · intro f h
      cases path <;> simp_all [CreatePc.sized]
    · intro _
      cases path <;> simp_all [CreatePc.filling] <;> rfl
  | verified _ hnext =>
    refine hi.forward hpc rfl ?_ (fun h => by cases h) (fun _ _ h => by cases h) (by simp)
    intro f hf
    rcases sized_verify hnext hf with rfl | hold
    · exact hverify _ rfl
    · exact hi.sized_at hpc hold
  | verifiedAll _ hnext =>
    refine hi.forward hpc rfl ?_ (fun h => by cases h) (fun _ _ h => by cases h) (by simp)
    intro f _
    rcases sized_verifyAll hnext f with rfl | hold
    · exact hverify _ rfl
    · exact hi.sized_at hpc hold
  | @differs field hne =>
    have heq : (mapped s.ipc).sizing field = args.sizing field := by
      rw [hi.header, if_pos (hverify field rfl)]
    exact absurd heq hne
  | lockedOld =>
    exact hi.forward hpc rfl (fun f _ => hi.sized_at hpc rfl) (fun h => by cases h)
      (fun _ _ h => by cases h) (by simp)
  | @lockedNew path hnew =>
    refine hi.forward hpc rfl (fun _ h => by cases h) ?_ (fun _ _ h => by cases h) (by simp)
    intro _
    cases path <;> simp_all [CreatePc.filling] <;> rfl
  | zeroed => exact hi.zero hpc
  | stored => exact hi.store hpc
  | gotSem _ hshm hset hsame =>
    obtain ⟨seg, hseg⟩ := hsegment _ rfl
    obtain ⟨rec, hrec, hid⟩ := hset
    refine hi.behind hpc (fun _ => rfl) _ rfl _ _ (by simp [hshm, hseg])
      (fun f => by rw [mapped_of_shm hshm]) ?_ ?_ ?_ (by simp)
    · intro rec' hrec'
      exact ⟨rec', by rw [hsame rec' hrec']; exact hrec', rfl⟩
    · intro path' rv h
      cases h
      exact .inr ⟨rec, hrec, by rw [hid]⟩
    · intro h
      obtain ⟨rec', hrec', hsemid⟩ := hi.identified h
      exact ⟨rec', by rw [hsame rec' hrec']; exact hrec', by rw [mapped_of_shm hshm]; exact hsemid⟩
  | noSem =>
    obtain ⟨seg, hseg⟩ := hsegment _ rfl
    refine hi.behind hpc (fun _ => rfl) _ rfl _ _ (by simp [hseg]) (fun _ => rfl)
      (fun rec h => ⟨rec, h, rfl⟩) ?_ hi.identified (by simp)
    intro path' rv h
    cases h
    exact .inl rfl
  | @storedSemid path rv =>
    obtain ⟨seg, hseg⟩ := hsegment path rfl
    refine hi.behind hpc (fun _ => rfl) _ rfl _ _ (by simp [Ipc.write_shm hseg]) ?_
      (fun rec h => ⟨rec, h, rfl⟩) (fun _ _ h => by cases h) ?_ (by simp)
    · intro f
      rw [mapped_write hseg]
      cases f <;> rfl
    · intro h
      have hrv : rv ≠ -1 := by simpa [identifiedAfter] using h
      obtain ⟨rec, hrec, hid⟩ := (hi.semget p path rv hpc).resolve_left hrv
      exact ⟨rec, hrec, by rw [mapped_write hseg]; exact hid⟩
  | checked =>
    exact hi.forward hpc rfl (fun f _ => hi.sized_at hpc rfl) (fun h => by cases h)
      (fun _ _ h => by cases h) (by simp)
  | set hshm hids _ =>
    obtain ⟨seg, hseg⟩ := hsegment _ rfl
    have hsem : ∀ rec, s.ipc.sem = some rec → ∃ rec', k.sem = some rec' ∧ rec'.semid = rec.semid := by
      intro rec hrec
      rw [hrec, Option.map_some, Option.map_eq_some_iff] at hids
      exact hids
    refine hi.behind hpc (fun _ => rfl) _ rfl _ _ (by simp [hshm, hseg])
      (fun f => by rw [mapped_of_shm hshm]) hsem (fun _ _ h => by cases h) ?_ (by simp)
    intro h
    obtain ⟨rec, hrec, hsemid⟩ := hi.identified h
    obtain ⟨rec', hrec', hid⟩ := hsem rec hrec
    exact ⟨rec', hrec', by rw [mapped_of_shm hshm, hsemid, hid]⟩

theorem RaceInv.createStep (hi : RaceInv args s) {pc : CreatePc} (hpc : s.pc p = .create pc)
    (hrank : pc.rank ≠ 0) (hverify : ∀ f, pc = .verify f → s.stored f = true) (ans : IpcAnswer) :
    RaceInv args (s.createStep args heap p pc ans) :=
  hi.moved hpc hrank hverify (createStep_move ans)

omit [DecidableEq P] in
theorem raceInv_init (h : RaceInit s) : RaceInv args s := by
  obtain ⟨hshm, hidle, hstored, hidentified, hreads⟩ := h
  have hmapped : mapped s.ipc = Header.zeros := by rw [mapped, hshm]
  constructor
  · intro _
    exact ⟨fun p => by rw [hidle p]; rfl, hstored⟩
  · intro f
    rw [hmapped, hstored f]
    cases f <;> rfl
  · intro p f h
    rw [hidle p] at h
    cases h
  · intro p h
    rw [hidle p] at h
    cases h
  · intro p q h
    rw [hidle p] at h
    cases h
  · intro p path rv h
    rw [hidle p] at h
    cases h
  · intro h
    rw [hidentified] at h
    cases h
  · intro p h
    rw [hidle p] at h
    cases h
  · intro r hr
    rw [hreads] at hr
    cases hr

/-- **One step of any process keeps the invariant**, when what it reads has been stored. -/
theorem RaceInv.next (hi : RaceInv args s) {a : RaceAction P} (hok : published s a)
    (h : raceNext args heap s a = some t) : RaceInv args t := by
  cases a with
  | callCreate p =>
    simp only [raceNext, Option.ite_none_right_eq_some] at h
    obtain ⟨-, h⟩ := h
    obtain rfl := Option.some.inj h
    exact hi.attempt rfl (by simp)
  | callAttach p =>
    simp only [raceNext, Option.ite_none_right_eq_some] at h
    obtain ⟨-, h⟩ := h
    obtain rfl := Option.some.inj h
    exact hi.quiet (.inl rfl) (fun _ h => by cases h) (fun h => by cases h)
      (fun _ _ h => by cases h) (by simp)
  | step p ans =>
    simp only [raceNext] at h
    split at h
    · rename_i pc hpc
      simp only [Option.ite_none_left_eq_some] at h
      obtain ⟨hrank, h⟩ := h
      obtain rfl := Option.some.inj h
      refine hi.createStep hpc hrank ?_ ans
      intro f hf
      subst hf
      simpa only [published, hpc] using hok
    · rename_i hpc
      split at h <;> obtain rfl := Option.some.inj h
      · rename_i hcall
        obtain ⟨seg, hseg⟩ := shmgetOpen_spec hcall
        exact hi.quiet (.inr (by simp [hseg])) (fun _ h => by cases h) (fun h => by cases h)
          (fun _ _ h => by cases h) (by simp)
      · exact hi.quiet (.inl rfl) (fun _ h => by cases h) (fun h => by cases h)
          (fun _ _ h => by cases h) (by simp)
    · rename_i hpc
      obtain rfl := Option.some.inj h
      have hpath : (s.pc p).path = some .existing := by rw [hpc]; rfl
      obtain ⟨seg, hseg⟩ := hi.segment hpath
      split
      · exact hi.quiet (.inr (by simp [hseg])) (fun _ h => by cases h) (fun h => by cases h)
          (fun _ _ h => by cases h) (by simp)
      · exact hi.quiet (.inl rfl) (fun _ h => by cases h) (fun h => by cases h)
          (fun _ _ h => by cases h) (by simp)
    · cases h
  | read p field =>
    simp only [raceNext, Option.ite_none_right_eq_some] at h
    obtain ⟨-, h⟩ := h
    obtain rfl := Option.some.inj h
    refine ⟨hi.noSegment, hi.header, hi.sized, hi.filling, hi.unique, hi.semget, hi.identified,
      hi.matched, ?_⟩
    intro r hr
    rcases List.mem_cons.mp hr with rfl | hold
    · cases field with
      | size f =>
        have hstored : s.stored f = true := hok
        show (mapped s.ipc).sizing f = args.sizing f
        rw [hi.header, if_pos hstored]
      | semid =>
        obtain ⟨rec, hrec, hsemid⟩ := hi.identified hok
        exact ⟨rec, hrec, hsemid⟩
    · exact hi.reads r hold

theorem raceInv_of_reachable (h : ReachableUnder (raceSystem args heap) published s) :
    RaceInv args s := by
  refine h.invariant (I := RaceInv args) ?_ ?_
  · intro s hs
    exact raceInv_init hs
  · intro s a t hi hok hs
    exact hi.next hok hs

/-- **Creating a databuf among others.**  As long as no process verifies or reads a field of
the header before the creating process has stored it, nobody reads anything but the final
values and no creation with the same sizes fails with a mismatch.  A size that has not been
stored yet is zero in the header: a read of it gives 0, and to verify it fails, unless it is
meant to be 0. -/
theorem create_race (h : ReachableUnder (raceSystem args heap) published s) :
    (∀ p, s.pc p ≠ .create .mismatch) ∧ (∀ r ∈ s.reads, FinalValue args s.ipc r) ∧
    (0 < args.n_block → ∀ v, (.size .n_block, v) ∈ s.reads → v ≠ 0) ∧
    ∀ f, (mapped s.ipc).sizing f = if s.stored f then args.sizing f else 0 := by
  have hi := raceInv_of_reachable h
  refine ⟨hi.matched, hi.reads, ?_, hi.header⟩
  intro hpos v hv hzero
  have hfinal : v = args.n_block := hi.reads _ hv
  omega

end Invariant

/-! ### Three processes -/

def raceStart : Race ℕ :=
  { ipc := noKey, pc := fun _ => .idle, stored := fun _ => false, identified := false, reads := [] }

/-- Process 0 creates the databuf with 1 GB pages; process 1 attaches meanwhile and reads the
block count once it is there; process 2 creates the databuf again afterwards. -/
def raceRun : List (RaceAction ℕ) :=
  [.callCreate 0, .step 0 (.ok 1), .step 0 (.ok 5), .callAttach 1, .step 1 (.ok 0),
   .step 1 (.ok 0)] ++ List.replicate 7 (.step 0 (.ok 0)) ++ [.read 1 (.size .n_block)] ++
  [.step 0 (.ok 0), .step 0 (.ok 0), .step 0 (.ok 9), .step 0 (.ok 0), .step 0 (.ok 0),
   .step 0 (.ok 0), .callCreate 2] ++ List.replicate 12 (.step 2 (.ok 0)) ++ [.read 1 .semid, .read 2 (.size .block_size)]

def raceEnd : Race ℕ :=
  (runUnder (raceSystem smallArgs fun _ => 0) published raceStart raceRun).getD raceStart

theorem raceStart_init : RaceInit raceStart :=
  ⟨rfl, fun _ => rfl, fun _ => rfl, rfl, rfl⟩

theorem create_race_raceRun :
    raceEnd.pc 0 = .create (.returned .gb1) ∧ raceEnd.pc 2 = .create (.returned .existing) ∧
      raceEnd.reads = [(.size .block_size, 4096), (.semid, 9), (.size .n_block, 24)] ∧
      ∀ r ∈ raceEnd.reads, FinalValue smallArgs raceEnd.ipc r := by
  have hinit : ReachableUnder (raceSystem smallArgs fun _ => 0) published raceStart :=
    .init raceStart_init
  exact ⟨by decide, by decide, by decide, (create_race (hinit.run_getD raceRun)).2.1⟩

/-- Processes 1 and 2 come in right after the segment is made. -/
def lostRaceRun : List (RaceAction ℕ) :=
  [.callCreate 0, .step 0 (.ok 1), .step 0 (.ok 5), .callAttach 1, .step 1 (.ok 0),
   .step 1 (.ok 0), .read 1 (.size .n_block), .callCreate 2] ++
  List.replicate 5 (.step 2 (.ok 0))

def lostRaceEnd : Race ℕ :=
  (run (raceSystem smallArgs fun _ => 0) raceStart lostRaceRun).getD raceStart

theorem create_race_lost :
    Reachable (raceSystem smallArgs fun _ => 0) lostRaceEnd ∧
      lostRaceEnd.reads = [(.size .n_block, 0)] ∧ lostRaceEnd.pc 2 = .create .mismatch ∧
      ¬ FinalValue smallArgs lostRaceEnd.ipc (.size .n_block, 0) := by
  have hinit : Reachable (raceSystem smallArgs fun _ => 0) raceStart := .init raceStart_init
  refine ⟨hinit.run_getD lostRaceRun, by decide, by decide, ?_⟩
  intro hfinal
  have hzero : (0 : ℤ) = 24 := hfinal
  exact absurd hzero (by decide)

end Hashpipe.Databuf
