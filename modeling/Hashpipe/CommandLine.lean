import Mathlib.Tactic
import Mathlib.Data.List.DropRight
import Hashpipe.Error
import Hashpipe.Library.CNumber
import Hashpipe.Status.Attach

/-!
# The command line and the pipeline it makes

The option loop of `main` in `hashpipe.c`, with `hashpipe_thread_args_init`,
`hashpipe_thread_init` and the start of the threads.

Each thread name commits a slot of `args` and prepares the next one.  The instance and the
databuf numbers are kept in local variables and copied into the next slot, the CPU mask is
kept in the slot alone, which `hashpipe_thread_args_init` clears.  So `-c` and `-m` are for
the next thread named and not "for subsequent threads" (`pipeline_built_iff`).
-/

namespace Hashpipe.CommandLine

open CNumber Status

def maxHashpipeThreads : ℕ := 1024

/-- What `main` and `hashpipe_thread_init` read of `struct hashpipe_thread_desc`, a function
pointer being whether it is set. -/
structure HashpipeThreadDesc where
  name : List UInt8
  init : Bool
  ibufCreate : Bool
  obufCreate : Bool
  deriving DecidableEq

/-- `st`, `ibuf` and `obuf` are whether they are attached, `user_data` is 0 for `NULL`. -/
structure HashpipeThreadArgs where
  thread_desc : Option HashpipeThreadDesc
  instance_id : Int32
  input_buffer : ℕ
  output_buffer : ℕ
  /-- 0 means use inherited. -/
  cpu_mask : ℕ
  finished : Bool
  st : Bool
  ibuf : Bool
  obuf : Bool
  user_data : ℕ
  deriving DecidableEq

def hashpipeThreadArgsInit (a : HashpipeThreadArgs) : HashpipeThreadArgs :=
  { a with
    thread_desc := none, instance_id := 0, cpu_mask := 0, finished := false, st := false,
    ibuf := false, obuf := false }

/-! ### Initialising a thread -/

/-- What the calls of `hashpipe_thread_init` come back with, and the user's function. -/
structure InitCalls where
  statusAttach : ℤ
  ibufCreate : Bool
  obufCreate : Bool
  init : HashpipeThreadArgs → ℤ × HashpipeThreadArgs
  obufDetach : ℤ
  ibufDetach : ℤ
  statusDetach : ℤ

/-- `rv` after a detach: its error, unless there is one already. -/
def detachError (attached : Bool) (detach rv : ℤ) : ℤ :=
  if attached ∧ detach ≠ 0 ∧ rv = 0 then hashpipeErrGen else rv

def InitCalls.detachObuf (calls : InitCalls) (r : ℤ × HashpipeThreadArgs) :
    ℤ × HashpipeThreadArgs :=
  (detachError r.2.obuf calls.obufDetach r.1, { r.2 with obuf := false })

/-- The label `obuf_error`. -/
def InitCalls.detachIbuf (calls : InitCalls) (r : ℤ × HashpipeThreadArgs) :
    ℤ × HashpipeThreadArgs :=
  (detachError r.2.ibuf calls.ibufDetach r.1, { r.2 with ibuf := false })

/-- The label `ibuf_error`: a detach that fails leaves the status buffer attached. -/
def InitCalls.detachStatus (calls : InitCalls) (r : ℤ × HashpipeThreadArgs) :
    ℤ × HashpipeThreadArgs :=
  (detachError r.2.st calls.statusDetach r.1,
    { r.2 with st := r.2.st && calls.statusDetach != 0 })

/-- `desc` is `args->thread_desc`. -/
def hashpipeThreadInit (desc : HashpipeThreadDesc) (calls : InitCalls)
    (args : HashpipeThreadArgs) : ℤ × HashpipeThreadArgs :=
  let args := { args with ibuf := false, obuf := false }
  if calls.statusAttach ≠ hashpipeOk then (calls.statusAttach, args)
  else
    let args := { args with st := true }
    if desc.ibufCreate ∧ !calls.ibufCreate then calls.detachStatus (hashpipeErrGen, args)
    else
      let args := { args with ibuf := desc.ibufCreate }
      if desc.obufCreate ∧ !calls.obufCreate then
        calls.detachStatus (calls.detachIbuf (hashpipeErrGen, args))
      else
        let args := { args with obuf := desc.obufCreate }
        let r := if desc.init then calls.init args else (hashpipeOk, args)
        calls.detachStatus (calls.detachIbuf (calls.detachObuf r))

/-! ### The option loop -/

/-- An option as `getopt_long` returns it, with what the calls it causes come back with.  A
plugin that is loaded registers its threads. -/
inductive MainOption
  | thread (name : List UInt8) (calls : InitCalls)
  | help
  | list
  | shmkey (optarg : List UInt8)
  | instanceId (optarg : List UInt8)
  | option (attached : Bool)
  | mask (optarg : List UInt8)
  | cpu (optarg : List UInt8)
  | plugin (loaded : Option (List HashpipeThreadDesc))
  | version
  | buffer
  | error

/-- How `main` ends without a pipeline. -/
inductive MainEnd
  | exit (status : ℤ)
  /-- A shift by no bit number, or a slot beyond `args`. -/
  | undefined
  deriving DecidableEq

def registerHashpipeThread (thread_list : List HashpipeThreadDesc) (ptm : HashpipeThreadDesc) :
    List HashpipeThreadDesc :=
  if thread_list.length < maxHashpipeThreads then thread_list ++ [ptm] else thread_list

def findHashpipeThread (thread_list : List HashpipeThreadDesc) (name : List UInt8) :
    Option HashpipeThreadDesc :=
  thread_list.find? fun desc => desc.name == name

structure MainState where
  num_threads : ℕ
  instance_id : Int32
  input_buffer : ℕ
  output_buffer : ℕ
  args : ℕ → HashpipeThreadArgs
  thread_list : List HashpipeThreadDesc

/-- `args[num_threads]`. -/
def MainState.slot (s : MainState) : HashpipeThreadArgs := s.args s.num_threads

def MainState.setSlot (s : MainState) (a : HashpipeThreadArgs) : MainState :=
  { s with args := Function.update s.args s.num_threads a }

def MainState.prepareSlot (s : MainState) : MainState :=
  s.setSlot { hashpipeThreadArgsInit s.slot with
    instance_id := s.instance_id, input_buffer := s.input_buffer,
    output_buffer := s.output_buffer, user_data := 0 }

@[simp] theorem MainState.slot_setSlot (s : MainState) (a : HashpipeThreadArgs) :
    (s.setSlot a).slot = a := Function.update_self _ _ _

theorem MainState.args_setSlot (s : MainState) (a : HashpipeThreadArgs) {j : ℕ}
    (h : j < s.num_threads) : (s.setSlot a).args j = s.args j :=
  Function.update_of_ne h.ne _ _

/-- The instance that `-I` sets. -/
def instanceOption (optarg : List UInt8) : Int32 :=
  let instance_id := Int32.ofInt (strtoll optarg).1
  if instance_id.toInt < 0 ∨ instance_id.toInt > 63 then Int32.ofNat (instanceBits instance_id)
  else instance_id

/-- `1 << i`, where that is a 32-bit number. -/
def cpuBit (i : Int32) : Option ℕ :=
  if 0 ≤ i.toInt ∧ i.toInt < 32 then some (2 ^ i.toInt.toNat) else none

/-- After the thread in the slot is initialised: set up for the next one. -/
def MainState.nextThread (s : MainState) (a : HashpipeThreadArgs) : MainState :=
  { s.setSlot a with
    num_threads := s.num_threads + 1, input_buffer := s.input_buffer + 1,
    output_buffer := s.output_buffer + 1 }.prepareSlot

/-- The thread in the slot is committed, and those before it are left as they are. -/
theorem MainState.args_nextThread (s : MainState) (a : HashpipeThreadArgs) :
    (s.nextThread a).args s.num_threads = a ∧
      ∀ j < s.num_threads, (s.nextThread a).args j = s.args j := by
  constructor
  · exact (MainState.args_setSlot _ _ (Nat.lt_succ_self s.num_threads)).trans (s.slot_setSlot a)
  · intro j hj
    exact (MainState.args_setSlot _ _ (Nat.lt_succ_of_lt hj)).trans (s.args_setSlot a hj)

/-- One pass of the loop over the options. -/
def mainOption (s : MainState) : MainOption → Except MainEnd MainState
  | .thread name calls =>
    match findHashpipeThread s.thread_list name with
    | none => .error (.exit 1)
    | some desc =>
      let r := hashpipeThreadInit desc calls { s.slot with thread_desc := some desc }
      if r.1 ≠ 0 then .error (.exit 1)
      else if s.num_threads + 1 < maxHashpipeThreads then .ok (s.nextThread r.2)
      else .error .undefined
  | .help | .list | .version => .error (.exit 0)
  | .shmkey _ | .buffer => .ok s
  | .instanceId optarg =>
    let s := { s with instance_id := instanceOption optarg }
    .ok (s.setSlot { s.slot with instance_id := s.instance_id })
  | .option attached => if attached then .ok s else .error (.exit 1)
  | .mask optarg => .ok (s.setSlot { s.slot with cpu_mask := (strtoull optarg).1 % 2 ^ 32 })
  | .cpu optarg =>
    match cpuBit (Int32.ofInt (strtoll optarg).1) with
    | none => .error .undefined
    | some mask => .ok (s.setSlot { s.slot with cpu_mask := mask })
  | .plugin none => .error (.exit 1)
  | .plugin (some loaded) =>
    .ok { s with thread_list := loaded.foldl registerHashpipeThread s.thread_list }
  | .error => .error (.exit 1)

def mainLoop : MainState → List MainOption → Except MainEnd MainState
  | s, [] => .ok s
  | s, o :: opts =>
    match mainOption s o with
    | .error e => .error e
    | .ok s' => mainLoop s' opts

/-! ### Starting the threads -/

/-- Whether `setuid` succeeds, and whether the thread of a slot can be created. -/
structure StartCalls where
  setuid : Bool
  created : ℕ → Bool

/-- Start the threads below `n`, the last first: what each runs with, in the order of the
slots. -/
def startThreads (args : ℕ → HashpipeThreadArgs) (created : ℕ → Bool) :
    ℕ → Except MainEnd (List HashpipeThreadArgs)
  | 0 => .ok []
  | n + 1 =>
    if created n then (startThreads args created n).map fun started => started ++ [args n]
    else .error (.exit 1)

/-- Before the loop, `args` being whatever is on the stack. -/
def mainInit (stack : ℕ → HashpipeThreadArgs) (thread_list : List HashpipeThreadDesc) :
    MainState :=
  { num_threads := 0, instance_id := 0, input_buffer := 0, output_buffer := 1, args := stack,
    thread_list := thread_list : MainState }.prepareSlot

/-- The arguments that `main` starts the threads with. -/
def main (stack : ℕ → HashpipeThreadArgs) (thread_list : List HashpipeThreadDesc)
    (calls : StartCalls) (opts : List MainOption) : Except MainEnd (List HashpipeThreadArgs) :=
  match mainLoop (mainInit stack thread_list) opts with
  | .error e => .error e
  | .ok s =>
    if calls.setuid then
      if s.num_threads = 0 then .error (.exit 1)
      else startThreads s.args calls.created s.num_threads
    else .error (.exit 1)

/-! ### What the options say -/

def MainOption.isThread : MainOption → Bool
  | .thread _ _ => true
  | _ => false

/-- The instance that an option names. -/
def MainOption.namesInstance : MainOption → Option ℤ
  | .instanceId optarg => some (strtoll optarg).1
  | _ => none

/-- The CPU mask that an option sets. -/
def MainOption.setsMask : MainOption → Option ℕ
  | .mask optarg => some ((strtoull optarg).1 % 2 ^ 32)
  | .cpu optarg => some (2 ^ (strtoll optarg).1.toNat)
  | _ => none

/-- The last value that options set, `initial` if they set none. -/
def lastSet {β : Type} (sets : MainOption → Option β) (initial : β) (opts : List MainOption) : β :=
  (opts.filterMap sets).getLast?.getD initial

def threadCount (opts : List MainOption) : ℕ := opts.countP MainOption.isThread

/-- The options behind the last thread name. -/
def sinceThread (opts : List MainOption) : List MainOption :=
  opts.rtakeWhile fun o => !o.isThread

/-- A thread named behind the options `before` runs with its place in the pipeline, the last
instance, and `cpu_mask`. -/
structure RunsAs (before : List MainOption) (name : List UInt8) (cpu_mask : ℕ)
    (a : HashpipeThreadArgs) : Prop where
  thread : ∃ desc, a.thread_desc = some desc ∧ desc.name = name
  input : a.input_buffer = threadCount before
  output : a.output_buffer = threadCount before + 1
  instance_id : a.instance_id.toInt = lastSet MainOption.namesInstance 0 before % 64
  mask : a.cpu_mask = cpu_mask

/-- Every thread named is started, with the last CPU mask set before its name. -/
structure PipelineBuilt (opts : List MainOption) (started : List HashpipeThreadArgs) : Prop where
  count : started.length = threadCount opts
  runs : ∀ before name calls after, opts = before ++ .thread name calls :: after →
    ∃ a, started[threadCount before]? = some a ∧
      RunsAs before name (lastSet MainOption.setsMask 0 before) a

/-- Each thread has a mask of its own, or follows none, or a mask of 0. -/
def MasksNamed (opts : List MainOption) : Prop :=
  ∀ before name calls after, opts = before ++ .thread name calls :: after →
    (∃ o ∈ sinceThread before, (MainOption.setsMask o).isSome = true) ∨
      lastSet MainOption.setsMask 0 before = 0

/-- The mask in the slot after `opts`. -/
def slotMask (opts : List MainOption) : ℕ := lastSet MainOption.setsMask 0 (sinceThread opts)

/-- The fields that say which thread runs, where and on which CPUs agree. -/
structure SameRun (a b : HashpipeThreadArgs) : Prop where
  thread_desc : a.thread_desc = b.thread_desc
  instance_id : a.instance_id = b.instance_id
  input_buffer : a.input_buffer = b.input_buffer
  output_buffer : a.output_buffer = b.output_buffer
  cpu_mask : a.cpu_mask = b.cpu_mask

/-- The user's function leaves these fields alone. -/
def InitCalls.KeepsArgs (calls : InitCalls) : Prop := ∀ a, SameRun (calls.init a).2 a

/-- The CPU numbers are below 32, and initialising leaves alone what is not its own. -/
def MainOption.permitted : MainOption → Prop
  | .cpu optarg => 0 ≤ (strtoll optarg).1 ∧ (strtoll optarg).1 ≤ 31
  | .thread _ calls => calls.KeepsArgs
  | _ => True

/-- All calls succeed. -/
structure InitCalls.Succeeds (calls : InitCalls) : Prop where
  statusAttach : calls.statusAttach = hashpipeOk
  ibufCreate : calls.ibufCreate = true
  obufCreate : calls.obufCreate = true
  init : ∀ a, (calls.init a).1 = hashpipeOk
  obufDetach : calls.obufDetach = hashpipeOk
  ibufDetach : calls.ibufDetach = hashpipeOk
  statusDetach : calls.statusDetach = hashpipeOk

/-- `-I`, `-c`, `-m`, and names of threads that are known and initialise. -/
def MainOption.startable (thread_list : List HashpipeThreadDesc) : MainOption → Prop
  | .thread name calls => (findHashpipeThread thread_list name).isSome = true ∧ calls.Succeeds
  | .instanceId _ | .mask _ | .cpu _ => True
  | _ => False

/-- What `main` needs to start a pipeline. -/
structure Startable (thread_list : List HashpipeThreadDesc) (calls : StartCalls)
    (opts : List MainOption) : Prop where
  options : ∀ o ∈ opts, o.startable thread_list
  named : 0 < threadCount opts
  setuid : calls.setuid = true
  created : ∀ k, calls.created k = true

/-! ### Lists of options -/

section Options

variable {β : Type} {sets : MainOption → Option β}

theorem lastSet_append (initial : β) (opts rest : List MainOption) :
    lastSet sets initial (opts ++ rest) = lastSet sets (lastSet sets initial opts) rest := by
  unfold lastSet
  rw [List.filterMap_append, List.getLast?_append]
  cases (rest.filterMap sets).getLast? with
  | none => rfl
  | some v => rfl

theorem lastSet_concat (initial : β) (opts : List MainOption) (o : MainOption) :
    lastSet sets initial (opts ++ [o]) = (sets o).getD (lastSet sets initial opts) := by
  rw [lastSet_append]
  cases ho : sets o with
  | none => simp [lastSet, ho]
  | some v => simp [lastSet, ho]

theorem lastSet_of_none (initial : β) {opts : List MainOption} (h : ∀ o ∈ opts, sets o = none) :
    lastSet sets initial opts = initial := by
  have hnil : opts.filterMap sets = [] := List.filterMap_eq_nil_iff.mpr h
  rw [lastSet, hnil]
  rfl

/-- Once an option sets the value, the initial one does not matter. -/
theorem lastSet_of_some (initial other : β) {opts : List MainOption}
    (h : ∃ o ∈ opts, (sets o).isSome = true) :
    lastSet sets initial opts = lastSet sets other opts := by
  have hne : opts.filterMap sets ≠ [] := by
    intro hnil
    obtain ⟨o, ho, hsome⟩ := h
    rw [List.filterMap_eq_nil_iff.mp hnil o ho] at hsome
    cases hsome
  unfold lastSet
  rw [List.getLast?_eq_some_getLast hne]
  rfl

theorem threadCount_append (opts rest : List MainOption) :
    threadCount (opts ++ rest) = threadCount opts + threadCount rest := List.countP_append

theorem threadCount_concat (opts : List MainOption) (o : MainOption) :
    threadCount (opts ++ [o]) = threadCount opts + if o.isThread then 1 else 0 := by
  simp [threadCount, List.countP_append, List.countP_cons]

theorem threadCount_lt {opts before after : List MainOption} {name : List UInt8}
    {calls : InitCalls} (h : opts = before ++ .thread name calls :: after) :
    threadCount before < threadCount opts := by
  subst h
  simp [threadCount, List.countP_append, List.countP_cons, MainOption.isThread]

/-- The thread of number `k`. -/
theorem exists_thread {opts : List MainOption} : ∀ {k : ℕ}, k < threadCount opts →
    ∃ before name calls after, opts = before ++ .thread name calls :: after ∧
      threadCount before = k := by
  induction opts with
  | nil => exact fun h => absurd h (Nat.not_lt_zero _)
  | cons o opts ih =>
    intro k h
    have hcons : ∀ rest, threadCount (o :: rest) = threadCount [o] + threadCount rest :=
      threadCount_append [o]
    rw [hcons] at h
    by_cases hk : k < threadCount [o]
    · cases o with
      | thread name calls =>
        have hone : threadCount [.thread name calls] = 1 := rfl
        exact ⟨[], name, calls, opts, rfl, show 0 = k by omega⟩
      | _ => exact absurd hk (Nat.not_lt_zero _)
    · obtain ⟨before, name, calls, after, hopts, hcount⟩ :=
        ih (show k - threadCount [o] < threadCount opts by omega)
      refine ⟨o :: before, name, calls, after, by rw [hopts]; rfl, ?_⟩
      rw [hcons, hcount]
      omega

/-- The slot's mask is the last mask set, unless that was for an earlier thread. -/
theorem slotMask_eq_iff (opts : List MainOption) :
    slotMask opts = lastSet MainOption.setsMask 0 opts ↔
      (∃ o ∈ sinceThread opts, (MainOption.setsMask o).isSome = true) ∨
        lastSet MainOption.setsMask 0 opts = 0 := by
  have hsplit : lastSet MainOption.setsMask 0 opts =
      lastSet MainOption.setsMask (lastSet MainOption.setsMask 0
        (opts.rdropWhile fun o => !o.isThread)) (sinceThread opts) := by
    rw [← lastSet_append, sinceThread, List.rdropWhile_append_rtakeWhile]
  by_cases hset : ∃ o ∈ sinceThread opts, (MainOption.setsMask o).isSome = true
  · have heq : slotMask opts = lastSet MainOption.setsMask 0 opts := by
      rw [hsplit, slotMask]
      exact lastSet_of_some _ _ hset
    exact iff_of_true heq (Or.inl hset)
  · have hnone : ∀ o ∈ sinceThread opts, MainOption.setsMask o = none := fun o ho =>
      Option.not_isSome_iff_eq_none.mp fun hsome => hset ⟨o, ho, hsome⟩
    have hzero : slotMask opts = 0 := lastSet_of_none 0 hnone
    rw [hzero, or_iff_right hset, eq_comm]

theorem slotMask_concat_thread (opts : List MainOption) (name : List UInt8) (calls : InitCalls) :
    slotMask (opts ++ [.thread name calls]) = 0 := by
  rw [slotMask, sinceThread, List.rtakeWhile_concat_neg _ _ _ (by simp [MainOption.isThread])]
  rfl

theorem slotMask_concat {o : MainOption} (opts : List MainOption) (h : o.isThread = false) :
    slotMask (opts ++ [o]) = o.setsMask.getD (slotMask opts) := by
  rw [slotMask, sinceThread, List.rtakeWhile_concat_pos _ _ _ (by simp [h]), lastSet_concat]
  rfl

end Options

/-! ### The arguments of options -/

theorem instanceOption_toInt (optarg : List UInt8) :
    (instanceOption optarg).toInt = (strtoll optarg).1 % 64 := by
  have hint : (Int32.ofInt (strtoll optarg).1).toInt % 64 = (strtoll optarg).1 % 64 := by
    rw [Int32.toInt_ofInt, show Int32.size = 4294967296 from rfl, Int.bmod_def]
    split <;> omega
  simp only [instanceOption]
  split
  · rw [toInt_masked, hint]
  · omega

theorem cpuBit_of_le {z : ℤ} (h0 : 0 ≤ z) (h31 : z ≤ 31) :
    cpuBit (Int32.ofInt z) = some (2 ^ z.toNat) := by
  have hz : (Int32.ofInt z).toInt = z := by
    rw [Int32.toInt_ofInt, show Int32.size = 4294967296 from rfl, Int.bmod_def]
    split <;> omega
  rw [cpuBit, hz, if_pos ⟨h0, by omega⟩]

/-! ### Initialising keeps what the thread runs with -/

theorem SameRun.trans {a b c : HashpipeThreadArgs} (h : SameRun a b) (h' : SameRun b c) :
    SameRun a c where
  thread_desc := h.thread_desc.trans h'.thread_desc
  instance_id := h.instance_id.trans h'.instance_id
  input_buffer := h.input_buffer.trans h'.input_buffer
  output_buffer := h.output_buffer.trans h'.output_buffer
  cpu_mask := h.cpu_mask.trans h'.cpu_mask

/-- What is attached is none of these fields. -/
theorem sameRun_attached (a : HashpipeThreadArgs) (st ibuf obuf : Bool) :
    SameRun { a with st := st, ibuf := ibuf, obuf := obuf } a where
  thread_desc := rfl
  instance_id := rfl
  input_buffer := rfl
  output_buffer := rfl
  cpu_mask := rfl

/-- The three detaches at the end. -/
theorem detaches_sameRun (calls : InitCalls) (r : ℤ × HashpipeThreadArgs) :
    SameRun (calls.detachStatus (calls.detachIbuf (calls.detachObuf r))).2 r.2 :=
  sameRun_attached r.2 _ false false

theorem hashpipeThreadInit_sameRun {calls : InitCalls} (hkeep : calls.KeepsArgs)
    (desc : HashpipeThreadDesc) (args : HashpipeThreadArgs) :
    SameRun (hashpipeThreadInit desc calls args).2 args := by
  simp only [hashpipeThreadInit]
  split
  · exact sameRun_attached args args.st false false
  split
  · exact sameRun_attached args _ false false
  split
  · exact sameRun_attached args _ false false
  apply (detaches_sameRun calls _).trans
  split
  · exact (hkeep _).trans (sameRun_attached args true desc.ibufCreate desc.obufCreate)
  · exact sameRun_attached args true desc.ibufCreate desc.obufCreate

theorem detachError_ok (attached : Bool) : detachError attached hashpipeOk 0 = 0 := by
  simp [detachError, hashpipeOk]

theorem hashpipeThreadInit_ok {calls : InitCalls} (h : calls.Succeeds)
    (desc : HashpipeThreadDesc) (args : HashpipeThreadArgs) :
    (hashpipeThreadInit desc calls args).1 = 0 := by
  have hdetach : ∀ r : ℤ × HashpipeThreadArgs, r.1 = 0 →
      (calls.detachStatus (calls.detachIbuf (calls.detachObuf r))).1 = 0 := by
    intro r hr
    simp only [InitCalls.detachStatus, InitCalls.detachIbuf, InitCalls.detachObuf, h.obufDetach,
      h.ibufDetach, h.statusDetach, hr, detachError_ok]
  simp only [hashpipeThreadInit, h.statusAttach, h.ibufCreate, h.obufCreate, ne_eq,
    not_true_eq_false, if_false, Bool.not_true, Bool.false_eq_true, and_false]
  apply hdetach
  split
  · exact h.init _
  · rfl

/-! ### One pass of the loop, and all passes -/

/-- The slots of the threads named in `opts`. -/
def Committed (opts : List MainOption) (args : ℕ → HashpipeThreadArgs) : Prop :=
  ∀ before name calls after, opts = before ++ .thread name calls :: after →
    RunsAs before name (slotMask before) (args (threadCount before))

/-- The state of `main` after the options `opts`. -/
structure Parsed (opts : List MainOption) (s : MainState) : Prop where
  num_threads : s.num_threads = threadCount opts
  instance_id : s.instance_id.toInt = lastSet MainOption.namesInstance 0 opts % 64
  input : s.input_buffer = threadCount opts
  output : s.output_buffer = threadCount opts + 1
  slot_instance : s.slot.instance_id = s.instance_id
  slot_input : s.slot.input_buffer = s.input_buffer
  slot_output : s.slot.output_buffer = s.output_buffer
  slot_mask : s.slot.cpu_mask = slotMask opts
  committed : Committed opts s.args

theorem parsed_mainInit (stack : ℕ → HashpipeThreadArgs)
    (thread_list : List HashpipeThreadDesc) : Parsed [] (mainInit stack thread_list) where
  num_threads := rfl
  instance_id := rfl
  input := rfl
  output := rfl
  slot_instance := rfl
  slot_input := rfl
  slot_output := rfl
  slot_mask := rfl
  committed := by
    intro before name calls after h
    cases before <;> cases h

/-- A thread name in a longer list is the last option or one of those before it. -/
theorem split_concat {opts before after : List MainOption} {o t : MainOption}
    (h : opts ++ [o] = before ++ t :: after) :
    (before = opts ∧ t = o) ∨ ∃ after', opts = before ++ t :: after' := by
  rcases List.eq_nil_or_concat after with rfl | ⟨after', last, rfl⟩
  · obtain ⟨rfl, hlast⟩ := List.append_inj' h rfl
    exact Or.inl ⟨rfl, (List.head_eq_of_cons_eq hlast).symm⟩
  · rw [List.concat_eq_append, ← List.cons_append, ← List.append_assoc] at h
    exact Or.inr ⟨after', List.append_inj_left' h rfl⟩

/-- The slots that are committed are not written again. -/
theorem Committed.congr {opts : List MainOption} {args args' : ℕ → HashpipeThreadArgs}
    (h : Committed opts args) (hargs : ∀ j < threadCount opts, args' j = args j) :
    Committed opts args' := by
  intro before name calls after hopts
  rw [hargs _ (threadCount_lt hopts)]
  exact h before name calls after hopts

theorem Committed.concat {opts : List MainOption} {args : ℕ → HashpipeThreadArgs}
    (h : Committed opts args) {o : MainOption}
    (hlast : ∀ name calls, o = .thread name calls →
      RunsAs opts name (slotMask opts) (args (threadCount opts))) :
    Committed (opts ++ [o]) args := by
  intro before name calls after hopts
  rcases split_concat hopts with ⟨rfl, ho⟩ | ⟨after', hsplit⟩
  · exact hlast name calls ho.symm
  · exact h before name calls after' hsplit

/-- What an option that is no thread name does: it may change the instance and the mask of the
slot, and the list of threads. -/
structure Adjusts (o : MainOption) (s s' : MainState) : Prop where
  num_threads : s'.num_threads = s.num_threads
  input : s'.input_buffer = s.input_buffer
  output : s'.output_buffer = s.output_buffer
  instance_id : s'.instance_id.toInt = (o.namesInstance.map (· % 64)).getD s.instance_id.toInt
  slot_instance : s.slot.instance_id = s.instance_id → s'.slot.instance_id = s'.instance_id
  slot_input : s'.slot.input_buffer = s.slot.input_buffer
  slot_output : s'.slot.output_buffer = s.slot.output_buffer
  slot_mask : s'.slot.cpu_mask = o.setsMask.getD s.slot.cpu_mask
  args : ∀ j < s.num_threads, s'.args j = s.args j

/-- An option that has nothing to do with the pipeline. -/
theorem adjusts_thread_list {o : MainOption} (s : MainState) (thread_list : List HashpipeThreadDesc)
    (hinstance : o.namesInstance = none) (hmask : o.setsMask = none) :
    Adjusts o s { s with thread_list := thread_list } where
  num_threads := rfl
  input := rfl
  output := rfl
  instance_id := by rw [hinstance]; rfl
  slot_instance := id
  slot_input := rfl
  slot_output := rfl
  slot_mask := by rw [hmask]; rfl
  args := fun _ _ => rfl

theorem adjusts_mask {o : MainOption} (s : MainState) (mask : ℕ)
    (hinstance : o.namesInstance = none) (hmask : o.setsMask = some mask) :
    Adjusts o s (s.setSlot { s.slot with cpu_mask := mask }) where
  num_threads := rfl
  input := rfl
  output := rfl
  instance_id := by rw [hinstance]; rfl
  slot_instance := by
    intro h
    rw [MainState.slot_setSlot]
    exact h
  slot_input := by rw [MainState.slot_setSlot]
  slot_output := by rw [MainState.slot_setSlot]
  slot_mask := by rw [MainState.slot_setSlot, hmask]; rfl
  args := fun _ hj => s.args_setSlot _ hj

theorem adjusts_instance (s : MainState) (optarg : List UInt8) :
    Adjusts (.instanceId optarg) s
      ({ s with instance_id := instanceOption optarg }.setSlot
        { s.slot with instance_id := instanceOption optarg }) where
  num_threads := rfl
  input := rfl
  output := rfl
  instance_id := instanceOption_toInt optarg
  slot_instance := by
    intro _
    rw [MainState.slot_setSlot]
    rfl
  slot_input := by rw [MainState.slot_setSlot]
  slot_output := by rw [MainState.slot_setSlot]
  slot_mask := by rw [MainState.slot_setSlot]; rfl
  args := fun _ hj => MainState.args_setSlot _ _ hj

/-- The pass of the loop for an option that is no thread name. -/
theorem mainOption_adjusts {s s' : MainState} {o : MainOption} (ho : o.isThread = false)
    (hperm : o.permitted) (h : mainOption s o = .ok s') : Adjusts o s s' := by
  cases o with
  | thread name calls => cases ho
  | help => cases h
  | list => cases h
  | version => cases h
  | error => cases h
  | shmkey optarg =>
    cases h
    exact adjusts_thread_list s s.thread_list rfl rfl
  | buffer =>
    cases h
    exact adjusts_thread_list s s.thread_list rfl rfl
  | instanceId optarg =>
    cases h
    exact adjusts_instance s optarg
  | option attached =>
    cases attached with
    | false => cases h
    | true =>
      cases h
      exact adjusts_thread_list s s.thread_list rfl rfl
  | mask optarg =>
    cases h
    exact adjusts_mask s _ rfl rfl
  | cpu optarg =>
    rw [mainOption, cpuBit_of_le hperm.1 hperm.2] at h
    cases h
    exact adjusts_mask s _ rfl rfl
  | plugin loaded =>
    cases loaded with
    | none => cases h
    | some descs =>
      cases h
      exact adjusts_thread_list s _ rfl rfl

theorem Parsed.adjust {opts : List MainOption} {o : MainOption} {s s' : MainState}
    (hs : Parsed opts s) (ho : o.isThread = false) (h : Adjusts o s s') :
    Parsed (opts ++ [o]) s' := by
  have hcount : threadCount (opts ++ [o]) = threadCount opts := by
    rw [threadCount_concat, ho]
    rfl
  exact {
    num_threads := by rw [h.num_threads, hs.num_threads, hcount]
    instance_id := by
      rw [h.instance_id, hs.instance_id, lastSet_concat]
      cases o.namesInstance <;> rfl
    input := by rw [h.input, hs.input, hcount]
    output := by rw [h.output, hs.output, hcount]
    slot_instance := h.slot_instance hs.slot_instance
    slot_input := by rw [h.slot_input, hs.slot_input, h.input]
    slot_output := by rw [h.slot_output, hs.slot_output, h.output]
    slot_mask := by rw [h.slot_mask, hs.slot_mask, slotMask_concat opts ho]
    committed := by
      apply Committed.concat
      · exact hs.committed.congr fun j hj => h.args j (by rw [hs.num_threads]; exact hj)
      · intro name calls hthread
        subst hthread
        cases ho }

/-- The pass of the loop for a thread name: the slot is committed with what it holds. -/
theorem Parsed.thread {opts : List MainOption} {s s' : MainState} {name : List UInt8}
    {calls : InitCalls} (hs : Parsed opts s) (hkeep : calls.KeepsArgs)
    (h : mainOption s (.thread name calls) = .ok s') :
    Parsed (opts ++ [.thread name calls]) s' := by
  have hcount : threadCount (opts ++ [.thread name calls]) = threadCount opts + 1 :=
    threadCount_concat _ _
  rw [mainOption] at h
  split at h
  · cases h
  rename_i desc hfind
  simp only at h
  split at h
  · cases h
  split at h
  swap
  · cases h
  have hsame := hashpipeThreadInit_sameRun hkeep desc { s.slot with thread_desc := some desc }
  have hname : desc.name = name := by simpa using List.find?_some hfind
  have hruns : RunsAs opts name (slotMask opts)
      (hashpipeThreadInit desc calls { s.slot with thread_desc := some desc }).2 := {
    thread := ⟨desc, hsame.thread_desc, hname⟩
    input := by rw [hsame.input_buffer, ← hs.input]; exact hs.slot_input
    output := by rw [hsame.output_buffer, ← hs.output]; exact hs.slot_output
    instance_id := by
      rw [hsame.instance_id, ← hs.instance_id]
      exact congrArg Int32.toInt hs.slot_instance
    mask := hsame.cpu_mask.trans hs.slot_mask }
  cases h
  exact {
    num_threads := by rw [hcount, ← hs.num_threads]; rfl
    instance_id := by rw [lastSet_concat]; exact hs.instance_id
    input := by rw [hcount, ← hs.input]; rfl
    output := by rw [hcount, ← hs.output]; rfl
    slot_instance := congrArg HashpipeThreadArgs.instance_id (MainState.slot_setSlot _ _)
    slot_input := congrArg HashpipeThreadArgs.input_buffer (MainState.slot_setSlot _ _)
    slot_output := congrArg HashpipeThreadArgs.output_buffer (MainState.slot_setSlot _ _)
    slot_mask := by
      rw [slotMask_concat_thread]
      exact congrArg HashpipeThreadArgs.cpu_mask (MainState.slot_setSlot _ _)
    committed := by
      apply Committed.concat
      · apply hs.committed.congr
        intro j hj
        exact (s.args_nextThread _).2 j (by rw [hs.num_threads]; exact hj)
      · intro name' calls' hthread
        cases hthread
        rw [← hs.num_threads, (s.args_nextThread _).1]
        exact hruns }

/-- One pass of the loop. -/
theorem Parsed.step {opts : List MainOption} {o : MainOption} {s s' : MainState}
    (hs : Parsed opts s) (hperm : o.permitted) (h : mainOption s o = .ok s') :
    Parsed (opts ++ [o]) s' := by
  cases ho : o.isThread with
  | false => exact hs.adjust ho (mainOption_adjusts ho hperm h)
  | true =>
    cases o with
    | thread name calls => exact hs.thread hperm h
    | _ => cases ho

/-- All passes of the loop, from the state after the options `done` on. -/
theorem Parsed.run {rest : List MainOption} :
    ∀ {done : List MainOption} {s s' : MainState}, Parsed done s → (∀ o ∈ rest, o.permitted) →
      mainLoop s rest = .ok s' → Parsed (done ++ rest) s' := by
  induction rest with
  | nil =>
    intro done s s' hs _ h
    cases h
    rw [List.append_nil]
    exact hs
  | cons o rest ih =>
    intro done s s' hs hperm h
    rw [List.forall_mem_cons] at hperm
    rw [mainLoop] at h
    cases hstep : mainOption s o with
    | error e =>
      rw [hstep] at h
      cases h
    | ok t =>
      rw [hstep] at h
      rw [← List.singleton_append, ← List.append_assoc]
      exact ih (hs.step hperm.1 hstep) hperm.2 h

theorem startThreads_eq {args : ℕ → HashpipeThreadArgs} {created : ℕ → Bool} {n : ℕ} :
    ∀ {started : List HashpipeThreadArgs}, startThreads args created n = .ok started →
      started = (List.range n).map args := by
  induction n with
  | zero =>
    intro started h
    cases h
    rfl
  | succ n ih =>
    intro started h
    rw [startThreads] at h
    split at h
    swap
    · cases h
    cases hrest : startThreads args created n with
    | error e =>
      rw [hrest] at h
      cases h
    | ok rest =>
      rw [hrest] at h
      cases h
      rw [ih hrest, List.range_succ, List.map_append]
      rfl

theorem main_started {stack : ℕ → HashpipeThreadArgs} {thread_list : List HashpipeThreadDesc}
    {calls : StartCalls} {opts : List MainOption} {started : List HashpipeThreadArgs}
    (hopts : ∀ o ∈ opts, o.permitted) (h : main stack thread_list calls opts = .ok started) :
    ∃ args, Committed opts args ∧ started = (List.range (threadCount opts)).map args := by
  rw [main] at h
  cases hloop : mainLoop (mainInit stack thread_list) opts with
  | error e =>
    rw [hloop] at h
    cases h
  | ok s =>
    rw [hloop] at h
    simp only at h
    split at h
    swap
    · cases h
    split at h
    · cases h
    have hs : Parsed opts s := (parsed_mainInit stack thread_list).run hopts hloop
    refine ⟨s.args, hs.committed, ?_⟩
    rw [← hs.num_threads]
    exact startThreads_eq h

/-- Each thread started has the databuf numbers of its place. -/
theorem started_numbers {stack : ℕ → HashpipeThreadArgs} {thread_list : List HashpipeThreadDesc}
    {calls : StartCalls} {opts : List MainOption} {started : List HashpipeThreadArgs}
    (hopts : ∀ o ∈ opts, o.permitted) (h : main stack thread_list calls opts = .ok started)
    {k : ℕ} {a : HashpipeThreadArgs} (ha : started[k]? = some a) :
    a.input_buffer = k ∧ a.output_buffer = k + 1 := by
  obtain ⟨args, hcommitted, rfl⟩ := main_started hopts h
  rw [List.getElem?_map, Option.map_eq_some_iff] at ha
  obtain ⟨j, hj, rfl⟩ := ha
  obtain ⟨hlt, hjk⟩ := List.getElem?_eq_some_iff.mp hj
  rw [List.getElem_range] at hjk
  subst hjk
  rw [List.length_range] at hlt
  obtain ⟨before, name, calls', after, hsplit, rfl⟩ := exists_thread hlt
  have hruns := hcommitted before name calls' after hsplit
  exact ⟨hruns.input, hruns.output⟩

theorem Committed.built_iff {opts : List MainOption} {args : ℕ → HashpipeThreadArgs}
    (h : Committed opts args) :
    PipelineBuilt opts ((List.range (threadCount opts)).map args) ↔ MasksNamed opts := by
  have hget : ∀ {before name calls after}, opts = before ++ .thread name calls :: after →
      ((List.range (threadCount opts)).map args)[threadCount before]? =
        some (args (threadCount before)) := by
    intro before name calls after hopts
    rw [List.getElem?_map, List.getElem?_range (threadCount_lt hopts)]
    rfl
  constructor
  · intro hbuilt before name calls after hopts
    obtain ⟨a, ha, hruns⟩ := hbuilt.runs before name calls after hopts
    rw [hget hopts] at ha
    cases ha
    apply (slotMask_eq_iff before).mp
    rw [← (h before name calls after hopts).mask]
    exact hruns.mask
  · intro hnamed
    refine ⟨by simp, fun before name calls after hopts => ⟨_, hget hopts, ?_⟩⟩
    have hmask := (slotMask_eq_iff before).mpr (hnamed before name calls after hopts)
    rw [← hmask]
    exact h before name calls after hopts

/-! ### A pipeline that starts -/

/-- The pass of the loop for a known thread that initialises, while there is a next slot. -/
theorem mainOption_thread_ok {s : MainState} {name : List UInt8} {calls : InitCalls}
    (hfind : (findHashpipeThread s.thread_list name).isSome = true) (hcalls : calls.Succeeds)
    (hlt : s.num_threads + 1 < maxHashpipeThreads) :
    ∃ s', mainOption s (.thread name calls) = .ok s' ∧ s'.thread_list = s.thread_list := by
  obtain ⟨desc, hdesc⟩ := Option.isSome_iff_exists.mp hfind
  have hinit := hashpipeThreadInit_ok hcalls desc { s.slot with thread_desc := some desc }
  refine ⟨s.nextThread (hashpipeThreadInit desc calls { s.slot with thread_desc := some desc }).2,
    ?_, rfl⟩
  rw [mainOption, hdesc]
  simp only [hinit, ne_eq, not_true_eq_false, if_false, if_pos hlt]

theorem mainOption_ok {s : MainState} {o : MainOption} (ho : o.startable s.thread_list)
    (hperm : o.permitted) (hlt : o.isThread = true → s.num_threads + 1 < maxHashpipeThreads) :
    ∃ s', mainOption s o = .ok s' ∧ s'.thread_list = s.thread_list := by
  cases o with
  | thread name calls => exact mainOption_thread_ok ho.1 ho.2 (hlt rfl)
  | instanceId optarg => exact ⟨_, rfl, rfl⟩
  | mask optarg => exact ⟨_, rfl, rfl⟩
  | cpu optarg =>
    refine ⟨s.setSlot { s.slot with cpu_mask := 2 ^ (strtoll optarg).1.toNat }, ?_, rfl⟩
    rw [mainOption, cpuBit_of_le hperm.1 hperm.2]
  | _ => cases ho

/-- The loop gets through options that are all right, from the state after `done` on. -/
theorem mainLoop_ok {thread_list : List HashpipeThreadDesc} {rest : List MainOption} :
    ∀ {done : List MainOption} {s : MainState}, Parsed done s → s.thread_list = thread_list →
      threadCount (done ++ rest) < maxHashpipeThreads → (∀ o ∈ rest, o.permitted) →
      (∀ o ∈ rest, o.startable thread_list) → ∃ s', mainLoop s rest = .ok s' := by
  induction rest with
  | nil =>
    intro done s _ _ _ _ _
    exact ⟨s, rfl⟩
  | cons o rest ih =>
    intro done s hs hlist hlt hperm hstart
    rw [List.forall_mem_cons] at hperm hstart
    rw [← List.singleton_append, ← List.append_assoc] at hlt
    have hone : ∃ s', mainOption s o = .ok s' ∧ s'.thread_list = s.thread_list := by
      refine mainOption_ok (by rw [hlist]; exact hstart.1) hperm.1 fun hthread => ?_
      rw [threadCount_append, threadCount_concat, if_pos hthread, ← hs.num_threads] at hlt
      omega
    obtain ⟨t, hstep, htlist⟩ := hone
    rw [mainLoop, hstep]
    exact ih (hs.step hperm.1 hstep) (htlist.trans hlist) hlt hperm.2 hstart.2

theorem startThreads_ok {created : ℕ → Bool} (hcreated : ∀ k, created k = true)
    (args : ℕ → HashpipeThreadArgs) (n : ℕ) :
    ∃ started, startThreads args created n = .ok started := by
  induction n with
  | zero => exact ⟨[], rfl⟩
  | succ n ih =>
    obtain ⟨started, hstarted⟩ := ih
    refine ⟨started ++ [args n], ?_⟩
    rw [startThreads, if_pos (hcreated n), hstarted]
    rfl

theorem main_ok {thread_list : List HashpipeThreadDesc} {calls : StartCalls}
    {opts : List MainOption} (stack : ℕ → HashpipeThreadArgs) (hopts : ∀ o ∈ opts, o.permitted)
    (hlt : threadCount opts < maxHashpipeThreads) (h : Startable thread_list calls opts) :
    ∃ started, main stack thread_list calls opts = .ok started := by
  have hinit := parsed_mainInit stack thread_list
  obtain ⟨s, hloop⟩ := mainLoop_ok hinit rfl hlt hopts h.options
  have hs : Parsed opts s := hinit.run hopts hloop
  have hnamed : s.num_threads ≠ 0 := by
    rw [hs.num_threads]
    exact h.named.ne'
  obtain ⟨started, hstarted⟩ := startThreads_ok h.created s.args s.num_threads
  refine ⟨started, ?_⟩
  rw [main, hloop]
  simp only [h.setuid, hnamed, if_true, if_false]
  exact hstarted

/-- The threads that `main` starts are those named, each with its databufs and instance, and
each with the last CPU mask set before its name if and only if none takes over the mask of an
earlier thread.  Threads that are known and initialise are started. -/
theorem pipeline_built_iff (stack : ℕ → HashpipeThreadArgs)
    (thread_list : List HashpipeThreadDesc) (calls : StartCalls) (opts : List MainOption)
    (hopts : ∀ o ∈ opts, o.permitted) (hlt : threadCount opts < maxHashpipeThreads) :
    (∀ started, main stack thread_list calls opts = .ok started →
      (PipelineBuilt opts started ↔ MasksNamed opts)) ∧
    (Startable thread_list calls opts →
      ∃ started, main stack thread_list calls opts = .ok started) := by
  constructor
  · intro started h
    obtain ⟨args, hcommitted, rfl⟩ := main_started hopts h
    exact hcommitted.built_iff
  · exact main_ok stack hopts hlt

/-- The thread that `null_output_thread.c` registers. -/
def nullThread : HashpipeThreadDesc where
  name := [110, 117, 108, 108, 95, 111, 117, 116, 112, 117, 116, 95, 116, 104, 114, 101, 97, 100]
  init := false
  ibufCreate := false
  obufCreate := false

def calmInit : InitCalls where
  statusAttach := hashpipeOk
  ibufCreate := true
  obufCreate := true
  init := fun a => (hashpipeOk, a)
  obufDetach := hashpipeOk
  ibufDetach := hashpipeOk
  statusDetach := hashpipeOk

theorem calmInit_keepsArgs : calmInit.KeepsArgs := fun a => sameRun_attached a a.st a.ibuf a.obuf

def calmStart : StartCalls where
  setuid := true
  created := fun _ => true

def zeroArgs : HashpipeThreadArgs where
  thread_desc := none
  instance_id := 0
  input_buffer := 0
  output_buffer := 0
  cpu_mask := 0
  finished := false
  st := false
  ibuf := false
  obuf := false
  user_data := 0

/-- `-I 65 -c 3 null_output_thread null_output_thread`. -/
def twoThreads : List MainOption :=
  [.instanceId [54, 53], .cpu [51], .thread nullThread.name calmInit,
    .thread nullThread.name calmInit]

theorem twoThreads_permitted : ∀ o ∈ twoThreads, o.permitted := by
  simp only [twoThreads, List.forall_mem_cons, MainOption.permitted]
  exact ⟨trivial, by decide, calmInit_keepsArgs, calmInit_keepsArgs, by simp⟩

/-- What `main` starts for it: the second thread has no mask. -/
def twoStarted : List HashpipeThreadArgs :=
  [{ zeroArgs with
      thread_desc := some nullThread, instance_id := 1, input_buffer := 0, output_buffer := 1,
      cpu_mask := 8 },
    { zeroArgs with
      thread_desc := some nullThread, instance_id := 1, input_buffer := 1, output_buffer := 2,
      cpu_mask := 0 }]

theorem main_twoThreads :
    main (fun _ => zeroArgs) [nullThread] calmStart twoThreads = .ok twoStarted := by
  rfl

theorem pipeline_built_twoThreads : PipelineBuilt twoThreads twoStarted ↔ MasksNamed twoThreads :=
  (pipeline_built_iff (fun _ => zeroArgs) [nullThread] calmStart twoThreads twoThreads_permitted
    (by decide)).1 twoStarted main_twoThreads

/-- The second thread runs with the inherited affinity, although `-c 3` is before its name. -/
theorem mask_not_for_subsequent_threads :
    main (fun _ => zeroArgs) [nullThread] calmStart twoThreads = .ok twoStarted ∧
      ¬PipelineBuilt twoThreads twoStarted := by
  refine ⟨main_twoThreads, fun hbuilt => ?_⟩
  obtain ⟨a, ha, hruns⟩ := hbuilt.runs (twoThreads.take 3) nullThread.name calmInit [] rfl
  have hsecond : a.cpu_mask = 0 := by
    cases ha
    rfl
  have hmask : a.cpu_mask = 8 := hruns.mask
  omega

end Hashpipe.CommandLine
