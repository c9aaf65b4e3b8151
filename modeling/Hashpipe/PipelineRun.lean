import Hashpipe.Library.StageChain
import Hashpipe.Databuf.RingProtocol

/-!
# A pipeline of threads

The threads that `main` starts are numbered from 0, and thread `t` reads databuf `t` and fills
databuf `t + 1`: it is the consumer of the one ring and the producer of the next.  Thread 0
gets its data from outside and the last thread, as `null_output_thread.c`, fills no databuf.

Each databuf is a ring of `RingProtocol`, here under the number of the thread that fills it.
What a thread writes is computed from the blocks it has read so far; in which order it serves
its two databufs is left open.  `PipelineInv` says that ring `t` carries the `t`-th stream of
the chain of stages, so that everything known of one ring holds of all of them.
-/

namespace Hashpipe.Databuf

open SemaphoreSet RingWindow StepSystem StageChain

variable {α : Type}

/-- The threads, what each of them computes, and the sizes of the databufs. -/
structure Pipeline (α : Type) where
  count : ℕ
  stage : ℕ → Stage α
  /-- Input-only threads "get their data from external sources". -/
  source : ∀ k, (stage 0).need k = 0
  n_block : ℕ → ℕ
  n_block_pos : ∀ d, 0 < n_block d

/-- The rings between the threads: ring `t` is the output databuf of thread `t`, with the
producer's side of thread `t` and the consumer's side of thread `t + 1`. -/
abbrev PipelineState (α : Type) := ℕ → RingState α

/-- The blocks a thread has read from its input databuf. -/
def received (s : PipelineState α) : ℕ → List α
  | 0 => []
  | t + 1 => (s t).processed

/-- What thread `t` writes into the block it is at. -/
def Pipeline.content (P : Pipeline α) (s : PipelineState α) (t : ℕ) : α :=
  (P.stage t).emit (s t).k ((received s t).take ((P.stage t).need (s t).k))

/-- A thread has the input for a block before it writes it. -/
def Pipeline.hasInput (P : Pipeline α) (s : PipelineState α) (t : ℕ) : RingAction α → Bool
  | .producerWrite => (P.stage t).need (s t).k ≤ (received s t).length
  | _ => true

/-- A step at the ring behind thread `a.1`: by that thread or by the next one. -/
def Pipeline.next (P : Pipeline α) (s : PipelineState α) (a : ℕ × RingAction α) :
    Option (PipelineState α) :=
  if a.1 + 1 < P.count ∧ P.hasInput s a.1 a.2 then
    (ringNext (P.n_block (a.1 + 1)) (fun _ => P.content s a.1) (s a.1) a.2).map
      (Function.update s a.1)
  else none

def pipelineSystem (P : Pipeline α) : System (PipelineState α) (ℕ × RingAction α) where
  init s := ∀ t, RingInit (s t)
  next := P.next

/-- The blocks thread `t` fills, in order. -/
def Pipeline.stream (P : Pipeline α) : ℕ → ℕ → α := StageChain.stream P.stage

/-- Every ring carries the stream of its thread. -/
def PipelineInv (P : Pipeline α) (s : PipelineState α) : Prop :=
  ∀ t, RingInv (P.n_block (t + 1)) (P.stream t) (s t)

/-- A step looks at the datum it writes and at no other. -/
theorem ringNext_congr {n_block : ℕ} {datum datum' : ℕ → α} {s : RingState α} {a : RingAction α}
    (h : a = .producerWrite → datum s.k = datum' s.k) :
    ringNext n_block datum s a = ringNext n_block datum' s a := by
  cases a with
  | producerWrite => simp only [ringNext, h rfl]
  | _ => rfl

section Invariant

variable {P : Pipeline α} {s : PipelineState α}

/-- What a thread has read is the beginning of the stream of the thread before it. -/
theorem PipelineInv.received_eq (hi : PipelineInv P s) (t : ℕ) :
    received s (t + 1) = (List.range (received s (t + 1)).length).map (P.stream t) := by
  have hlog := (hi t).processed
  rw [received, hlog, List.length_map, List.length_range]

/-- **What a thread writes is the next item of its stream**, if it has the input for it. -/
theorem PipelineInv.content_eq (hi : PipelineInv P s) {t : ℕ}
    (hinput : (P.stage t).need (s t).k ≤ (received s t).length) :
    P.content s t = P.stream t (s t).k := by
  cases t with
  | zero => simp [Pipeline.content, Pipeline.stream, StageChain.stream, P.source]
  | succ t =>
    rw [Pipeline.content, hi.received_eq t, take_map_range _ hinput]
    rfl

theorem PipelineInv.next (hi : PipelineInv P s) {a : ℕ × RingAction α} {s' : PipelineState α}
    (h : P.next s a = some s') : PipelineInv P s' := by
  obtain ⟨t, a⟩ := a
  simp only [Pipeline.next, Option.ite_none_right_eq_some] at h
  obtain ⟨⟨-, hinput⟩, h⟩ := h
  obtain ⟨r, hring, rfl⟩ := Option.map_eq_some_iff.mp h
  have hwrite : a = .producerWrite → P.content s t = P.stream t (s t).k := by
    rintro rfl
    exact hi.content_eq (of_decide_eq_true hinput)
  rw [@ringNext_congr _ _ _ (P.stream t) _ _ hwrite] at hring
  intro u
  by_cases hu : u = t
  · subst hu
    rw [Function.update_self]
    exact (hi u).next (P.n_block_pos _) hring
  · rw [Function.update_of_ne hu]
    exact hi u

theorem pipelineInv_of_reachable (h : Reachable (pipelineSystem P) s) : PipelineInv P s := by
  refine h.invariant (I := PipelineInv P) ?_ ?_
  · intro s hs t
    exact (hs t).inv
  · intro s a s' hi hstep
    exact hi.next (a := a) hstep

theorem PipelineInv.received_length (hi : PipelineInv P s) (t : ℕ) :
    (received s (t + 1)).length = (s t).freed + (s t).readAhead := by
  rw [received, (hi t).processed, List.length_map, List.length_range]

/-- **A pipeline delivers in order and without loss.**  Whatever the threads do in between, the
blocks that a thread has read are the first blocks of the stream of the thread before it, which
is computed from the streams before that; the block in its hands is the next one; and the
blocks filled and not yet freed are at most those the databuf has. -/
theorem pipeline_in_order (h : Reachable (pipelineSystem P) s) (t : ℕ) :
    received s (t + 1) = (List.range (received s (t + 1)).length).map (P.stream t) ∧
      ((s t).processing → (s t).block (s t).block_idx = P.stream t (s t).freed) ∧
      (s t).freed ≤ (received s (t + 1)).length ∧ (received s (t + 1)).length ≤ (s t).k ∧
      (s t).k ≤ (s t).freed + P.n_block (t + 1) := by
  have hi := pipelineInv_of_reachable h
  have hlen := hi.received_length t
  refine ⟨hi.received_eq t, (hi t).in_hand, by omega, ?_, (hi t).le_freed⟩
  rw [hlen, RingState.readAhead]
  split
  · exact (hi t).busy (.inr ‹_›)
  · exact (hi t).freed_le

/-! ### No deadlock -/

/-- The wait that thread `t` may be in at its input goes through at once. -/
def InputReady (P : Pipeline α) (s : PipelineState α) (t : ℕ) : Prop :=
  ∀ u, u + 1 = t → (s u).consumer = .waiting →
    P.next s (u, .consumerWait .proceed) =
      some (Function.update s u { s u with consumer := .reading })

/-- The wait that thread `t` may be in at its output goes through at once. -/
def OutputReady (P : Pipeline α) (s : PipelineState α) (t : ℕ) : Prop :=
  t + 1 < P.count → (s t).producer = .waiting → ∀ busy,
    P.next s (t, .producerWait busy .proceed) =
      some (Function.update s t { s t with producer := .writing })

theorem inputReady_of_filled {t : ℕ} (ht : t < P.count)
    (h : ∀ u, u + 1 = t → 0 < (s u).sem (s u).block_idx) : InputReady P s t := by
  rintro u rfl hpc
  have hwait : semop (s u).sem (filledOps (s u).block_idx) = some (s u).sem :=
    semop_takeRestore.mpr ⟨h u rfl, rfl⟩
  have hguard : u + 1 < P.count ∧ P.hasInput s u (.consumerWait .proceed) = true := ⟨ht, rfl⟩
  simp only [Pipeline.next, if_pos hguard, ringNext, if_pos hpc, hashpipeDatabufWaitFilled,
    hashpipeDatabufWaitFilledTimeout, waitTimeout, semtimedop, hwait]
  rfl

theorem outputReady_of_free {t : ℕ} (h : t + 1 < P.count → (s t).sem (s t).b = 0) :
    OutputReady P s t := by
  intro ht hpc busy
  have hwait : semop (s t).sem (freeOps (s t).b) = some (s t).sem :=
    semop_waitZero.mpr ⟨h ht, rfl⟩
  have hguard : t + 1 < P.count ∧ P.hasInput s t (.producerWait busy .proceed) = true := ⟨ht, rfl⟩
  cases busy <;>
    simp only [Pipeline.next, if_pos hguard, ringNext, if_pos hpc, hashpipeDatabufWaitFree,
      hashpipeDatabufWaitFreeTimeout, hashpipeDatabufBusywaitFree, waitTimeout, busywait,
      semtimedop, hwait] <;> rfl

/-- A ring in which the consumer finds nothing has room for the producer. -/
theorem PipelineInv.free_of_empty (hi : PipelineInv P s) {t : ℕ}
    (h : (s t).sem (s t).block_idx = 0) : (s t).sem (s t).b = 0 := by
  have hring := hi t
  have hempty : (s t).k = (s t).freed := by
    by_contra hne
    have hlt : (s t).freed < (s t).k := by have := hring.freed_le; omega
    have := hring.filled _ (occupied_first hlt)
    rw [← hring.idx_eq, h] at this
    omega
  refine hring.free _ ?_
  rw [hempty]
  exact not_occupied_empty _ _ _

/-- **No deadlock.**  In every reachable state there is a thread whose input block is filled and
whose output block is free, and so it gets past the wait it is in, whatever the order in which
the threads serve their two databufs. -/
theorem pipeline_not_stuck (hcount : 0 < P.count) (h : Reachable (pipelineSystem P) s) :
    ∃ t < P.count, (∀ u, u + 1 = t → 0 < (s u).sem (s u).block_idx) ∧
      (t + 1 < P.count → (s t).sem (s t).b = 0) ∧ InputReady P s t ∧ OutputReady P s t := by
  have hi := pipelineInv_of_reachable h
  obtain ⟨t, ht, hinput, houtput⟩ := @exists_ready (P.count - 1)
    (fun t => (s t).sem (s t).block_idx = 0) (fun t => (s t).sem (s t).b ≠ 0)
    fun t _ hempty hfull => hfull (hi.free_of_empty hempty)
  have hfilled : ∀ u, u + 1 = t → 0 < (s u).sem (s u).block_idx := fun u hu =>
    Nat.pos_of_ne_zero (hinput u hu)
  have hfree : t + 1 < P.count → (s t).sem (s t).b = 0 := fun hlt =>
    not_not.mp (houtput (by omega))
  exact ⟨t, by omega, hfilled, hfree, inputReady_of_filled (by omega) hfilled,
    outputReady_of_free hfree⟩

/-! ### Back pressure -/

/-- A thread between two databufs takes up a block only when it has passed on at least as many
blocks as it took up before. -/
def passesOn (P : Pipeline α) (s : PipelineState α) (a : ℕ × RingAction α) : Prop :=
  match a.2 with
  | .consumerRead => a.1 + 2 < P.count → (s a.1).processed.length ≤ (s (a.1 + 1)).k
  | _ => True

instance (P : Pipeline α) (s : PipelineState α) (a : ℕ × RingAction α) :
    Decidable (passesOn P s a) := by
  unfold passesOn
  split <;> infer_instance

/-- A thread is ahead of its output by at most one block. -/
def Passed (P : Pipeline α) (s : PipelineState α) : Prop :=
  ∀ t, t + 2 < P.count → (s t).processed.length ≤ (s (t + 1)).k + 1

/-- Only reading makes the list of processed blocks longer, and the count of published blocks
never falls. -/
theorem ringNext_progress {n_block : ℕ} {datum : ℕ → α} {s r : RingState α} {a : RingAction α}
    (h : ringNext n_block datum s a = some r) :
    s.k ≤ r.k ∧ (r.processed = s.processed ∨
      (a = .consumerRead ∧ r.processed.length = s.processed.length + 1)) := by
  cases a with
  | producerWait busy answer =>
    simp only [ringNext] at h
    split at h <;> [split at h; simp at h] <;>
      obtain ⟨r, -, rfl⟩ := Option.map_eq_some_iff.mp h <;> exact ⟨le_rfl, .inl rfl⟩
  | consumerWait answer =>
    simp only [ringNext, Option.ite_none_right_eq_some, Option.map_eq_some_iff] at h
    obtain ⟨-, r, -, rfl⟩ := h
    exact ⟨le_rfl, .inl rfl⟩
  | producerSetFilled =>
    simp only [ringNext, Option.ite_none_right_eq_some, Option.some.injEq] at h
    obtain ⟨-, rfl⟩ := h
    exact ⟨Nat.le_succ _, .inl rfl⟩
  | consumerRead =>
    simp only [ringNext, Option.ite_none_right_eq_some, Option.some.injEq] at h
    obtain ⟨-, rfl⟩ := h
    exact ⟨le_rfl, .inr ⟨rfl, by simp⟩⟩
  | producerScribble _ | producerWrite | consumerTest _ | consumerSetFree =>
    simp only [ringNext, Option.ite_none_right_eq_some, Option.some.injEq] at h
    obtain ⟨-, rfl⟩ := h
    exact ⟨le_rfl, .inl rfl⟩

theorem Passed.next (hpassed : Passed P s) {a : ℕ × RingAction α} (hok : passesOn P s a)
    {s' : PipelineState α} (h : P.next s a = some s') : Passed P s' := by
  obtain ⟨u, a⟩ := a
  simp only [Pipeline.next, Option.ite_none_right_eq_some] at h
  obtain ⟨-, h⟩ := h
  obtain ⟨r, hring, rfl⟩ := Option.map_eq_some_iff.mp h
  obtain ⟨hk, hread⟩ := ringNext_progress hring
  intro t ht
  have hbefore := hpassed t ht
  by_cases hu : t = u
  · subst hu
    rw [Function.update_self, Function.update_of_ne (by omega)]
    rcases hread with hsame | ⟨rfl, hlen⟩
    · rw [hsame]
      exact hbefore
    · have := hok ht
      dsimp only at this
      omega
  · rw [Function.update_of_ne hu]
    by_cases hu' : t + 1 = u
    · subst hu'
      rw [Function.update_self]
      omega
    · rw [Function.update_of_ne hu']
      exact hbefore

theorem passed_of_reachable (h : ReachableUnder (pipelineSystem P) (passesOn P) s) :
    Passed P s := by
  refine h.invariant (I := Passed P) ?_ ?_
  · intro s hs t _
    obtain ⟨-, -, -, -, -, -, hlog, -⟩ := hs t
    simp [hlog]
  · intro s a s' hi hok hstep
    exact hi.next (a := a) hok hstep

/-- **Back pressure.**  If every thread between two databufs passes a block or more on before it
takes up the next, the first thread is never further ahead of the last one than the blocks of all
databufs and one block in the hands of each thread between them. -/
theorem pipeline_back_pressure {m : ℕ} (hcount : P.count = m + 2)
    (h : ReachableUnder (pipelineSystem P) (passesOn P) s) :
    (s 0).k ≤ (s m).freed + ∑ t ∈ Finset.range (m + 1), P.n_block (t + 1) + m := by
  have hpassed := passed_of_reachable h
  have hi := pipelineInv_of_reachable h.reachable
  refine @backlog_le (fun t => (s t).k) (fun t => (s t).freed) (fun t => P.n_block (t + 1)) m
    (fun t _ => ?_) fun t ht => ?_
  · exact (hi t).le_freed
  · have hlen := hi.received_length t
    have hlate : (received s (t + 1)).length ≤ (s (t + 1)).k + 1 := hpassed t (by omega)
    show (s t).freed ≤ (s (t + 1)).k + 1
    omega

end Invariant

/-! ### Three threads -/

/-- A source of `7, 8, …`, a thread that doubles, and a sink, with databufs of one block. -/
def doublingPipeline : Pipeline ℕ where
  count := 3
  stage
    | 0 => ⟨fun _ => 0, fun k _ => k + 7⟩
    | _ + 1 => ⟨fun k => k + 1, fun k xs => 2 * xs.getD k 0⟩
  source := fun _ => rfl
  n_block := fun _ => 1
  n_block_pos := fun _ => Nat.one_pos

/-- A block goes through both databufs while the next one is filled. -/
def doublingRun : List (ℕ × RingAction ℕ) :=
  [(0, .producerWait false .proceed), (0, .producerWrite), (0, .producerSetFilled),
   (0, .consumerTest true), (0, .consumerWait .proceed), (0, .consumerRead),
   (1, .producerWait false .proceed), (0, .consumerSetFree), (1, .producerWrite),
   (0, .producerWait false .proceed), (0, .producerWrite), (0, .producerSetFilled),
   (1, .producerSetFilled), (1, .consumerTest true), (1, .consumerWait .proceed),
   (1, .consumerRead)]

def doublingStart : PipelineState ℕ := fun _ => ringStart

def doublingEnd : PipelineState ℕ :=
  (run (pipelineSystem doublingPipeline) doublingStart doublingRun).getD doublingStart

theorem doublingStart_init : (pipelineSystem doublingPipeline).init doublingStart :=
  fun _ => ⟨rfl, rfl, rfl, rfl, rfl, rfl, rfl, rfl⟩

theorem pipeline_in_order_doublingRun :
    received doublingEnd 2 = [14] ∧ doublingPipeline.stream 1 0 = 14 ∧
      received doublingEnd 2 =
        (List.range (received doublingEnd 2).length).map (doublingPipeline.stream 1) := by
  have hinit : Reachable (pipelineSystem doublingPipeline) doublingStart :=
    .init doublingStart_init
  exact ⟨by decide, by decide, (pipeline_in_order (hinit.run_getD doublingRun) 1).1⟩

theorem pipeline_not_stuck_doublingRun :
    ∃ t < 3, InputReady doublingPipeline doublingEnd t ∧
      OutputReady doublingPipeline doublingEnd t := by
  have hinit : Reachable (pipelineSystem doublingPipeline) doublingStart :=
    .init doublingStart_init
  obtain ⟨t, ht, -, -, hready⟩ :=
    pipeline_not_stuck (P := doublingPipeline) (by decide) (hinit.run_getD doublingRun)
  exact ⟨t, ht, hready⟩

/-- The same run, in which the second thread reads under the condition. -/
def pressedEnd : PipelineState ℕ :=
  (runUnder (pipelineSystem doublingPipeline) (passesOn doublingPipeline) doublingStart
    doublingRun).getD doublingStart

theorem pipeline_back_pressure_doublingRun :
    (pressedEnd 0).k = 2 ∧ (pressedEnd 1).processed = [14] ∧
      (pressedEnd 0).k ≤ (pressedEnd 1).freed +
        ∑ t ∈ Finset.range 2, doublingPipeline.n_block (t + 1) + 1 := by
  have hinit : ReachableUnder (pipelineSystem doublingPipeline) (passesOn doublingPipeline)
      doublingStart := .init doublingStart_init
  exact ⟨by decide, by decide,
    pipeline_back_pressure (P := doublingPipeline) rfl (hinit.run_getD doublingRun)⟩

end Hashpipe.Databuf
