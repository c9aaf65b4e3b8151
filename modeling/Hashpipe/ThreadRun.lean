import Mathlib.Tactic
import Hashpipe.Library.StepSystem

/-!
# The threads of a pipeline and the run flag

`hashpipe_thread_run` in `hashpipe.c`, one step for each call it makes, with the stack of
cleanup handlers that `pthread_exit` and cancellation unwind, and the part of `main` that
starts the threads, waits for `run_threads()` to turn false and cancels them.

A thread that ends is meant to stop the others ("User thread returned (or was not run),
stop other threads").  Only the path through the user's `run` function does so: the two
`goto done` leave before it, and unwinding calls `hashpipe_thread_set_finished` but not
`clear_run_threads` (`exit_leaves_pipeline_running`).
-/

namespace Hashpipe

open StepSystem

def threadOk : ℤ := 0
def threadError : ℤ := -1

/-- What `hashpipe_thread_run` reads of the descriptor and the arguments: whether there is
a status key, whether the databufs are used, and the CPU mask. -/
structure ThreadDesc where
  skey : Bool
  ibufCreate : Bool
  obufCreate : Bool
  cpu_mask : ℕ

/-- The functions that `hashpipe_thread_run` pushes as cleanup handlers. -/
inductive Cleanup
  | hashpipeStatusDetach
  | setExitStatus
  | ibufDetach
  | obufDetach
  | hashpipeThreadSetFinished
  deriving DecidableEq

/-- The call that `hashpipe_thread_run` makes next. -/
inductive RunPc
  | unborn
  | setAffinity
  | attachStatus
  | attachIbuf
  | attachObuf
  | callRun
  | inRun
  | setFinished
  | clearRun
  | detachObuf
  | detachIbuf
  | exitStatus
  | detachStatus
  | unwinding
  | terminated
  deriving DecidableEq

/-- One thread: its arguments (`finished`, what is attached), the text under its status
key, its return value and its cleanup stack, top first. -/
structure RunThread where
  pc : RunPc
  stack : List Cleanup
  rv : ℤ
  finished : Bool
  st : Bool
  ibuf : Bool
  obuf : Bool
  statusText : String
  deriving DecidableEq

/-- `sched_setaffinity` is called for a nonzero mask only. -/
def setCpuAffinity (mask : ℕ) (succeeds : Bool) : ℤ :=
  if mask ≠ 0 then if succeeds then 0 else -1 else 0

def hashpipeThreadSetFinished (th : RunThread) : RunThread := { th with finished := true }

/-- A detach that fails leaves the segment attached. -/
def hashpipeStatusDetach (succeeds : Bool) (th : RunThread) : RunThread :=
  { th with st := th.st && !succeeds }

def ibufDetach (succeeds : Bool) (th : RunThread) : RunThread :=
  { th with ibuf := th.ibuf && !succeeds }

def obufDetach (succeeds : Bool) (th : RunThread) : RunThread :=
  { th with obuf := th.obuf && !succeeds }

def setExitStatus (desc : ThreadDesc) (th : RunThread) : RunThread :=
  if th.st && desc.skey then { th with statusText := "exit" } else th

/-- A cleanup handler.  `set_exit_status` is pushed with `&args->st`, where it expects `args`: run
as a handler it does not find the status key, and the text stays. -/
def Cleanup.call (succeeds : Bool) : Cleanup → RunThread → RunThread
  | .hashpipeStatusDetach => Hashpipe.hashpipeStatusDetach succeeds
  | .setExitStatus => id
  | .ibufDetach => Hashpipe.ibufDetach succeeds
  | .obufDetach => Hashpipe.obufDetach succeeds
  | .hashpipeThreadSetFinished => Hashpipe.hashpipeThreadSetFinished

/-- `rv` after a detach in the straight-line code. -/
def detachRv (attached succeeds : Bool) (rv : ℤ) : ℤ :=
  if attached && !succeeds then threadError else rv

inductive ThreadAction
  | start
  | setAffinity (succeeds : Bool)
  | attachStatus (succeeds : Bool)
  | attachIbuf (succeeds : Bool)
  | attachObuf (succeeds : Bool)
  | callRun
  /-- The user's function calls `clear_run_threads`. -/
  | userClear
  | runReturns (rv : ℤ)
  | pthreadExit
  | setFinished
  | clearRun
  | detachObuf (succeeds : Bool)
  | detachIbuf (succeeds : Bool)
  | exitStatus
  | detachStatus (succeeds : Bool)
  /-- Run the handler on top of the cleanup stack, or end. -/
  | unwind (succeeds : Bool)
  | cancel
  deriving DecidableEq

/-- Where a pending cancellation may take effect: the calls that lock a semaphore, map or
unmap memory, or write a message, and the user's function. -/
def RunPc.cancellable : RunPc → Bool
  | .setAffinity | .attachStatus | .attachIbuf | .attachObuf | .inRun | .detachObuf
  | .detachIbuf | .exitStatus | .detachStatus => true
  | .unborn | .callRun | .setFinished | .clearRun | .unwinding | .terminated => false

/-- One step of one thread, on the run flag and its own state. -/
def threadStep (desc : ThreadDesc) (flag : Bool) (th : RunThread) :
    ThreadAction → Option (Bool × RunThread)
  | .start => if th.pc = .unborn then some (flag, { th with pc := .setAffinity }) else none
  | .setAffinity succeeds =>
    if th.pc = .setAffinity then
      if setCpuAffinity desc.cpu_mask succeeds < 0 then
        some (flag, { th with rv := threadError, pc := .terminated })
      else some (flag, { th with pc := .attachStatus })
    else none
  | .attachStatus succeeds =>
    if th.pc = .attachStatus then
      if succeeds then
        some (flag, { th with st := true, stack := [.setExitStatus, .hashpipeStatusDetach],
                              pc := .attachIbuf })
      else some (flag, { th with rv := threadError, pc := .terminated })
    else none
  | .attachIbuf succeeds =>
    if th.pc = .attachIbuf then
      some (flag, { th with ibuf := desc.ibufCreate && succeeds,
                            rv := if desc.ibufCreate && !succeeds then threadError else th.rv,
                            stack := .ibufDetach :: th.stack, pc := .attachObuf })
    else none
  | .attachObuf succeeds =>
    if th.pc = .attachObuf then
      some (flag, { th with obuf := desc.obufCreate && succeeds,
                            rv := if desc.obufCreate && !succeeds then threadError else th.rv,
                            stack := .hashpipeThreadSetFinished :: .obufDetach :: th.stack,
                            pc := .callRun })
    else none
  | .callRun =>
    if th.pc = .callRun then
      some (flag, { th with pc := if th.rv = threadOk then .inRun else .setFinished })
    else none
  | .userClear => if th.pc = .inRun then some (false, th) else none
  | .runReturns rv =>
    if th.pc = .inRun then some (flag, { th with rv := rv, pc := .setFinished }) else none
  | .pthreadExit => if th.pc = .inRun then some (flag, { th with pc := .unwinding }) else none
  | .setFinished =>
    if th.pc = .setFinished then
      some (flag, { hashpipeThreadSetFinished th with stack := th.stack.tail, pc := .clearRun })
    else none
  | .clearRun => if th.pc = .clearRun then some (false, { th with pc := .detachObuf }) else none
  | .detachObuf succeeds =>
    if th.pc = .detachObuf then
      some (flag, { obufDetach succeeds th with rv := detachRv th.obuf succeeds th.rv,
                                                stack := th.stack.tail, pc := .detachIbuf })
    else none
  | .detachIbuf succeeds =>
    if th.pc = .detachIbuf then
      some (flag, { ibufDetach succeeds th with rv := detachRv th.ibuf succeeds th.rv,
                                                stack := th.stack.tail, pc := .exitStatus })
    else none
  | .exitStatus =>
    if th.pc = .exitStatus then
      some (flag, { setExitStatus desc th with stack := th.stack.tail, pc := .detachStatus })
    else none
  | .detachStatus succeeds =>
    if th.pc = .detachStatus then
      some (flag, { hashpipeStatusDetach succeeds th with stack := th.stack.tail,
                                                          pc := .terminated })
    else none
  | .unwind succeeds =>
    if th.pc = .unwinding then
      match th.stack with
      | [] => some (flag, { th with pc := .terminated })
      | handler :: rest => some (flag, { handler.call succeeds th with stack := rest })
    else none
  | .cancel => if th.pc.cancellable then some (flag, { th with pc := .unwinding }) else none

inductive MainPc
  | starting
  /-- In `while (run_threads())`. -/
  | waiting
  | cancelling
  deriving DecidableEq

structure PipelineState (T : Type) where
  flag : Bool
  main : MainPc
  thread : T → RunThread

inductive PipelineAction (T : Type)
  | thread (t : T) (a : ThreadAction)
  /-- `SIGINT` or `SIGTERM`. -/
  | signal
  | mainStarted
  | mainTest

/-- `main` starts threads in its first loop and cancels them after its second. -/
def mainAllows (main : MainPc) : ThreadAction → Prop
  | .start => main = .starting
  | .cancel => main = .cancelling
  | _ => True

instance (main : MainPc) (a : ThreadAction) : Decidable (mainAllows main a) := by
  cases a <;> simp only [mainAllows] <;> infer_instance

def threadInit : RunThread :=
  { pc := .unborn, stack := [], rv := threadOk, finished := false, st := false, ibuf := false,
    obuf := false, statusText := "init" }

section Pipeline

variable {T : Type} [DecidableEq T]

def pipelineNext (desc : T → ThreadDesc) (s : PipelineState T) :
    PipelineAction T → Option (PipelineState T)
  | .thread t a =>
    if mainAllows s.main a then
      (threadStep (desc t) s.flag (s.thread t) a).map fun r =>
        { s with flag := r.1, thread := Function.update s.thread t r.2 }
    else none
  | .signal => some { s with flag := false }
  | .mainStarted => if s.main = .starting then some { s with main := .waiting } else none
  | .mainTest =>
    if s.main = .waiting then
      some { s with main := if s.flag then .waiting else .cancelling }
    else none

/-- After `set_run_threads`, before the first `pthread_create`. -/
def pipelineSystem (desc : T → ThreadDesc) : System (PipelineState T) (PipelineAction T) where
  init s := s.flag = true ∧ s.main = .starting ∧ ∀ t, s.thread t = threadInit
  next := pipelineNext desc

/-- A thread that has ended has stopped the others and says that it is finished. -/
def PipelineState.propagated (s : PipelineState T) : Prop :=
  ∀ t, (s.thread t).pc = .terminated → s.flag = false ∧ (s.thread t).finished = true

/-- The CPU affinity can be set and the status buffer attached, `pthread_exit` is called
only once the flag is clear, and no thread is cancelled before the handler that sets
`finished` is pushed. -/
def stepOk (desc : ThreadDesc) (flag : Bool) (th : RunThread) : ThreadAction → Prop
  | .setAffinity succeeds => 0 ≤ setCpuAffinity desc.cpu_mask succeeds
  | .attachStatus succeeds => succeeds = true
  | .pthreadExit => flag = false
  | .cancel => th.finished = true ∨ .hashpipeThreadSetFinished ∈ th.stack
  | _ => True

instance (desc : ThreadDesc) (flag : Bool) (th : RunThread) (a : ThreadAction) :
    Decidable (stepOk desc flag th a) := by
  cases a <;> simp only [stepOk] <;> infer_instance

def pipelineOk (desc : T → ThreadDesc) (s : PipelineState T) : PipelineAction T → Prop
  | .thread t a => stepOk (desc t) s.flag (s.thread t) a
  | _ => True

instance (desc : T → ThreadDesc) (s : PipelineState T) (a : PipelineAction T) :
    Decidable (pipelineOk desc s a) := by
  cases a <;> simp only [pipelineOk] <;> infer_instance

/-- What holds of a thread at each point, given the run flag. -/
def RunThread.promise (flag : Bool) (th : RunThread) : Prop :=
  match th.pc with
  | .callRun | .inRun => .hashpipeThreadSetFinished ∈ th.stack
  | .clearRun => th.finished = true
  | .detachObuf | .detachIbuf | .exitStatus | .detachStatus | .terminated =>
    flag = false ∧ th.finished = true
  | .unwinding =>
    flag = false ∧ (th.finished = true ∨ .hashpipeThreadSetFinished ∈ th.stack)
  | .unborn | .setAffinity | .attachStatus | .attachIbuf | .attachObuf | .setFinished => True

/-- Clearing the flag breaks no thread's promise. -/
theorem RunThread.promise_clear {flag : Bool} {th : RunThread} (h : th.promise flag) :
    th.promise false := by
  cases hpc : th.pc <;> simp_all [RunThread.promise]

theorem setExitStatus_finished (desc : ThreadDesc) (th : RunThread) :
    (setExitStatus desc th).finished = th.finished := by
  unfold setExitStatus
  split <;> rfl

theorem Cleanup.call_finished (succeeds : Bool) (handler : Cleanup) (th : RunThread) :
    (handler.call succeeds th).finished =
      (th.finished || decide (handler = .hashpipeThreadSetFinished)) := by
  cases handler with
  | setExitStatus => simp [Cleanup.call]
  | hashpipeThreadSetFinished => simp [Cleanup.call, Hashpipe.hashpipeThreadSetFinished]
  | hashpipeStatusDetach => simp [Cleanup.call, Hashpipe.hashpipeStatusDetach]
  | ibufDetach => simp [Cleanup.call, Hashpipe.ibufDetach]
  | obufDetach => simp [Cleanup.call, Hashpipe.obufDetach]

/-- Only `set_finished` changes the program counter's promise while unwinding, and no
handler moves it. -/
theorem Cleanup.call_pc (succeeds : Bool) (handler : Cleanup) (th : RunThread) :
    (handler.call succeeds th).pc = th.pc := by
  cases handler <;> rfl

/-- Unwinding one handler keeps what unwinding promises. -/
theorem RunThread.promise_unwind {flag succeeds : Bool} {th : RunThread}
    {handler : Cleanup} {rest : List Cleanup} (hpc : th.pc = .unwinding)
    (hstack : th.stack = handler :: rest) (h : th.promise flag) :
    RunThread.promise flag { handler.call succeeds th with stack := rest } := by
  simp only [RunThread.promise, hpc, hstack, List.mem_cons] at h
  simp only [RunThread.promise, Cleanup.call_pc, hpc, Cleanup.call_finished, Bool.or_eq_true,
    decide_eq_true_eq]
  obtain ⟨hflag, hfin | rfl | hrest⟩ := h
  · exact ⟨hflag, .inl (.inl hfin)⟩
  · exact ⟨hflag, .inl (.inr rfl)⟩
  · exact ⟨hflag, .inr hrest⟩

/-- **One step of a thread** keeps its promise, and changes the flag only to clear it. -/
theorem threadStep_promise {desc : ThreadDesc} {flag flag' : Bool} {th th' : RunThread}
    {a : ThreadAction} (hp : th.promise flag) (hok : stepOk desc flag th a)
    (hcancel : a = .cancel → flag = false) (h : threadStep desc flag th a = some (flag', th')) :
    th'.promise flag' ∧ (flag' = flag ∨ flag' = false) := by
  cases a with
  | setAffinity succeeds =>
    have hset : ¬ setCpuAffinity desc.cpu_mask succeeds < 0 := by simpa [stepOk] using hok
    simp only [threadStep, if_neg hset, Option.ite_none_right_eq_some, Option.some.injEq,
      Prod.mk.injEq] at h
    obtain ⟨-, rfl, rfl⟩ := h
    exact ⟨trivial, .inl rfl⟩
  | attachStatus succeeds =>
    obtain rfl : succeeds = true := hok
    simp only [threadStep, if_true, Option.ite_none_right_eq_some, Option.some.injEq,
      Prod.mk.injEq] at h
    obtain ⟨-, rfl, rfl⟩ := h
    exact ⟨trivial, .inl rfl⟩
  | unwind succeeds =>
    simp only [threadStep, Option.ite_none_right_eq_some] at h
    obtain ⟨hpc, h⟩ := h
    cases hstack : th.stack with
    | nil =>
      simp only [hstack, Option.some.injEq, Prod.mk.injEq] at h
      obtain ⟨rfl, rfl⟩ := h
      simp only [RunThread.promise, hpc, hstack, List.not_mem_nil, or_false] at hp
      exact ⟨hp, .inl rfl⟩
    | cons handler rest =>
      simp only [hstack, Option.some.injEq, Prod.mk.injEq] at h
      obtain ⟨rfl, rfl⟩ := h
      exact ⟨RunThread.promise_unwind hpc hstack hp, .inl rfl⟩
  | cancel =>
    simp only [threadStep, Option.ite_none_right_eq_some, Option.some.injEq, Prod.mk.injEq] at h
    obtain ⟨-, rfl, rfl⟩ := h
    exact ⟨⟨hcancel rfl, hok⟩, .inl rfl⟩
  | pthreadExit =>
    simp only [threadStep, Option.ite_none_right_eq_some, Option.some.injEq, Prod.mk.injEq] at h
    obtain ⟨hpc, rfl, rfl⟩ := h
    simp only [RunThread.promise, hpc] at hp
    exact ⟨⟨hok, .inr hp⟩, .inl rfl⟩
  | callRun =>
    simp only [threadStep, Option.ite_none_right_eq_some, Option.some.injEq, Prod.mk.injEq] at h
    obtain ⟨hpc, rfl, rfl⟩ := h
    simp only [RunThread.promise, hpc] at hp
    refine ⟨?_, .inl rfl⟩
    split
    · exact hp
    · trivial
  | userClear =>
    simp only [threadStep, Option.ite_none_right_eq_some, Option.some.injEq, Prod.mk.injEq] at h
    obtain ⟨-, rfl, rfl⟩ := h
    exact ⟨RunThread.promise_clear hp, .inr rfl⟩
  | clearRun =>
    simp only [threadStep, Option.ite_none_right_eq_some, Option.some.injEq, Prod.mk.injEq] at h
    obtain ⟨hpc, rfl, rfl⟩ := h
    simp only [RunThread.promise, hpc] at hp
    exact ⟨⟨rfl, hp⟩, .inr rfl⟩
  | exitStatus =>
    simp only [threadStep, Option.ite_none_right_eq_some, Option.some.injEq, Prod.mk.injEq] at h
    obtain ⟨hpc, rfl, rfl⟩ := h
    simp only [RunThread.promise, hpc] at hp
    exact ⟨⟨hp.1, (setExitStatus_finished desc th).trans hp.2⟩, .inl rfl⟩
  | detachObuf _ | detachIbuf _ | detachStatus _ =>
    simp only [threadStep, Option.ite_none_right_eq_some, Option.some.injEq, Prod.mk.injEq] at h
    obtain ⟨hpc, rfl, rfl⟩ := h
    simp only [RunThread.promise, hpc] at hp
    exact ⟨hp, .inl rfl⟩
  | attachObuf _ =>
    simp only [threadStep, Option.ite_none_right_eq_some, Option.some.injEq, Prod.mk.injEq] at h
    obtain ⟨-, rfl, rfl⟩ := h
    exact ⟨List.mem_cons_self, .inl rfl⟩
  | setFinished =>
    simp only [threadStep, Option.ite_none_right_eq_some, Option.some.injEq, Prod.mk.injEq] at h
    obtain ⟨-, rfl, rfl⟩ := h
    exact ⟨rfl, .inl rfl⟩
  | start | attachIbuf _ | runReturns _ =>
    simp only [threadStep, Option.ite_none_right_eq_some, Option.some.injEq, Prod.mk.injEq] at h
    obtain ⟨-, rfl, rfl⟩ := h
    exact ⟨trivial, .inl rfl⟩

structure PipelineInv (s : PipelineState T) : Prop where
  main : s.main = .cancelling → s.flag = false
  promise : ∀ t, (s.thread t).promise s.flag

theorem PipelineInv.next {desc : T → ThreadDesc} {s s' : PipelineState T}
    {a : PipelineAction T} (hi : PipelineInv s) (hok : pipelineOk desc s a)
    (h : pipelineNext desc s a = some s') : PipelineInv s' := by
  cases a with
  | thread t a =>
    simp only [pipelineNext, Option.ite_none_right_eq_some, Option.map_eq_some_iff] at h
    obtain ⟨hallow, ⟨flag', th'⟩, hstep, rfl⟩ := h
    have hcancel : a = .cancel → s.flag = false := by
      rintro rfl
      exact hi.main hallow
    obtain ⟨hp, hflag⟩ := threadStep_promise (hi.promise t) hok hcancel hstep
    constructor
    · intro hm
      rcases hflag with hsame | hclear
      · exact hsame.trans (hi.main hm)
      · exact hclear
    · intro u
      by_cases hu : u = t
      · subst hu
        simpa using hp
      · simp only [Function.update_of_ne hu]
        rcases hflag with hsame | hclear
        · rw [hsame]
          exact hi.promise u
        · rw [hclear]
          exact RunThread.promise_clear (hi.promise u)
  | signal =>
    obtain rfl := Option.some.inj h
    exact ⟨fun _ => rfl, fun t => RunThread.promise_clear (hi.promise t)⟩
  | mainStarted =>
    simp only [pipelineNext, Option.ite_none_right_eq_some, Option.some.injEq] at h
    obtain ⟨-, rfl⟩ := h
    exact ⟨by simp, hi.promise⟩
  | mainTest =>
    simp only [pipelineNext, Option.ite_none_right_eq_some, Option.some.injEq] at h
    obtain ⟨-, rfl⟩ := h
    refine ⟨?_, hi.promise⟩
    cases hflag : s.flag <;> simp

theorem pipelineInv_of_reachable {desc : T → ThreadDesc} {s : PipelineState T}
    (h : ReachableUnder (pipelineSystem desc) (pipelineOk desc) s) : PipelineInv s := by
  refine h.invariant (I := PipelineInv) ?_ ?_
  · intro s ⟨_, hmain, hthread⟩
    refine ⟨by simp [hmain], fun t => ?_⟩
    rw [hthread t]
    trivial
  · intro s a t hi hok hs
    exact PipelineInv.next hi hok hs

/-- **A thread that ends stops the pipeline** in every run in which the affinity and the
status buffer cause no trouble, `pthread_exit` comes after the flag is cleared, and
cancellation after the `finished` handler is pushed. -/
theorem exit_propagates {desc : T → ThreadDesc} {s : PipelineState T}
    (h : ReachableUnder (pipelineSystem desc) (pipelineOk desc) s) : s.propagated := by
  intro t ht
  have hp := (pipelineInv_of_reachable h).promise t
  simpa only [RunThread.promise, ht] using hp

end Pipeline

/-! ### Three ends that the pipeline does not notice -/

def plainDesc : Fin 2 → ThreadDesc := fun _ => ⟨true, true, true, 1⟩

def pipelineStart : PipelineState (Fin 2) := ⟨true, .starting, fun _ => threadInit⟩

theorem pipelineStart_init : (pipelineSystem plainDesc).init pipelineStart :=
  ⟨rfl, rfl, fun _ => rfl⟩

def enterRun (t : Fin 2) : List (PipelineAction (Fin 2)) :=
  [.thread t .start, .thread t (.setAffinity true), .thread t (.attachStatus true),
   .thread t (.attachIbuf true), .thread t (.attachObuf true), .thread t .callRun]

def unwindAll (t : Fin 2) (handlers : ℕ) : List (PipelineAction (Fin 2)) :=
  List.replicate (handlers + 1) (.thread t (.unwind true))

/-- Thread 1's `run` returns; `main` sees the flag and cancels thread 0. -/
def returnRun : List (PipelineAction (Fin 2)) :=
  enterRun 1 ++ enterRun 0 ++ [.mainStarted, .mainTest, .thread 1 (.runReturns threadOk),
   .thread 1 .setFinished, .thread 1 .clearRun, .mainTest, .thread 0 .cancel] ++ unwindAll 0 5

def returnEnd : PipelineState (Fin 2) :=
  (runUnder (pipelineSystem plainDesc) (pipelineOk plainDesc) pipelineStart returnRun).getD
    pipelineStart

theorem exit_propagates_returnRun :
    (returnEnd.thread 0).pc = .terminated ∧ returnEnd.propagated :=
  ⟨by decide, exit_propagates ((ReachableUnder.init pipelineStart_init).run_getD returnRun)⟩

/-- Thread 1 ends where `last` says while thread 0 is in its `run` and `main` waits. -/
def lateEnd (first last : List (PipelineAction (Fin 2))) : PipelineState (Fin 2) :=
  (run (pipelineSystem plainDesc) pipelineStart
    (enterRun 0 ++ first ++ [.mainStarted] ++ last ++ [.mainTest])).getD pipelineStart

theorem lateEnd_reachable (first last : List (PipelineAction (Fin 2))) :
    Reachable (pipelineSystem plainDesc) (lateEnd first last) :=
  (Reachable.init pipelineStart_init).run_getD _

/-- By `pthread_exit`, as `null_output_thread` does. -/
def exitEnd : PipelineState (Fin 2) :=
  lateEnd (enterRun 1) (.thread 1 .pthreadExit :: unwindAll 1 5)

/-- By a failed status attach. -/
def attachEnd : PipelineState (Fin 2) :=
  lateEnd [.thread 1 .start, .thread 1 (.setAffinity true)] [.thread 1 (.attachStatus false)]

/-- By a failed `sched_setaffinity`. -/
def affinityEnd : PipelineState (Fin 2) :=
  lateEnd [.thread 1 .start] [.thread 1 (.setAffinity false)]

/-- Each leaves the flag set, `main` waiting and thread 0 running; the two failures leave
`finished` unset as well. -/
theorem exit_leaves_pipeline_running :
    (∀ s ∈ [exitEnd, attachEnd, affinityEnd],
      Reachable (pipelineSystem plainDesc) s ∧ (s.thread 1).pc = .terminated ∧
        s.flag = true ∧ s.main = .waiting ∧ (s.thread 0).pc = .inRun ∧ ¬ s.propagated) ∧
    (attachEnd.thread 1).finished = false ∧ (affinityEnd.thread 1).finished = false := by
  have hbad : ∀ s : PipelineState (Fin 2), (s.thread 1).pc = .terminated → s.flag = true →
      ¬ s.propagated := by
    intro s hpc hflag hprop
    rw [(hprop 1 hpc).1] at hflag
    exact absurd hflag (by decide)
  refine ⟨?_, by decide, by decide⟩
  intro s hs
  simp only [List.mem_cons, List.not_mem_nil, or_false] at hs
  rcases hs with rfl | rfl | rfl
  · exact ⟨lateEnd_reachable _ _, by decide, by decide, by decide, by decide,
      hbad _ (by decide) (by decide)⟩
  · exact ⟨lateEnd_reachable _ _, by decide, by decide, by decide, by decide,
      hbad _ (by decide) (by decide)⟩
  · exact ⟨lateEnd_reachable _ _, by decide, by decide, by decide, by decide,
      hbad _ (by decide) (by decide)⟩

end Hashpipe
