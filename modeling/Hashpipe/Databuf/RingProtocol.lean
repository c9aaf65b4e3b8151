import Hashpipe.Databuf.Semaphores
import Hashpipe.Library.RingWindow
import Hashpipe.Library.StepSystem

/-!
# The databuf ring protocol

One producer fills the blocks of a databuf in ring order and one consumer, the main
loop of `null_output_thread.c`, empties them in ring order.  Each keeps its index to
itself; all they share is the block contents and one semaphore per block.

`RingInv` ties the two private indices, the semaphores and the contents to two
counters: `k` data have been published and `freed` blocks given back, the blocks of
the window `[freed, k)` are the filled ones, and block `j % n_block` holds datum `j`.
`queueSystem` is the bounded queue this implements, and `ring_refines_queue` says so.
-/

namespace Hashpipe.Databuf

open SemaphoreSet RingWindow StepSystem

variable {α : Type}

inductive ProducerPc
  | waiting
  | writing
  | marking
  deriving DecidableEq

inductive ConsumerPc
  /-- At the `while (run_threads())` test. -/
  | testing
  | waiting
  | reading
  | freeing
  | exited
  deriving DecidableEq

/-- The shared databuf, the private state of both threads, and two history variables:
what the consumer has read and how many blocks it has set free. -/
structure RingState (α : Type) where
  sem : SemSet
  block : ℕ → α
  b : ℕ
  k : ℕ
  producer : ProducerPc
  block_idx : ℕ
  consumer : ConsumerPc
  processed : List α
  freed : ℕ

inductive RingAction (α : Type)
  /-- One answer to `wait_free`, or to one pass of `busywait_free`. -/
  | producerWait (busy : Bool) (answer : Answer)
  /-- Part of a write: the block holds anything meanwhile. -/
  | producerScribble (x : α)
  | producerWrite
  | producerSetFilled
  | consumerTest (running : Bool)
  | consumerWait (answer : Answer)
  | consumerRead
  | consumerSetFree

/-- Where the producer is after a wait that came back with `rv`. -/
def producerAfter (rv : Option ℤ) : ProducerPc :=
  if rv = some hashpipeOk then .writing else .waiting

/-- Where the consumer is after `wait_filled`: it goes round again on a timeout and
calls `pthread_exit` on any other error. -/
def consumerAfter (rv : ℤ) : ConsumerPc :=
  if rv = hashpipeOk then .reading else if rv = hashpipeTimeout then .waiting else .exited

def ringNext (n_block : ℕ) (datum : ℕ → α) (s : RingState α) :
    RingAction α → Option (RingState α)
  | .producerWait busy answer =>
    if s.producer = .waiting then
      if busy then
        (hashpipeDatabufBusywaitFree s.sem s.b answer).map fun r =>
          { s with sem := r.1, producer := producerAfter r.2 }
      else
        (hashpipeDatabufWaitFree s.sem s.b answer).map fun r =>
          { s with sem := r.1, producer := producerAfter (some r.2) }
    else none
  | .producerScribble x =>
    if s.producer = .writing then
      some { s with block := Function.update s.block s.b x }
    else none
  | .producerWrite =>
    if s.producer = .writing then
      some { s with block := Function.update s.block s.b (datum s.k), producer := .marking }
    else none
  | .producerSetFilled =>
    if s.producer = .marking then
      some { s with sem := (hashpipeDatabufSetFilled s.sem s.b).1, b := (s.b + 1) % n_block,
                    k := s.k + 1, producer := .waiting }
    else none
  | .consumerTest running =>
    if s.consumer = .testing then
      some { s with consumer := if running then .waiting else .exited }
    else none
  | .consumerWait answer =>
    if s.consumer = .waiting then
      (hashpipeDatabufWaitFilled s.sem s.block_idx answer).map fun r =>
        { s with sem := r.1, consumer := consumerAfter r.2 }
    else none
  | .consumerRead =>
    if s.consumer = .reading then
      some { s with processed := s.processed ++ [s.block s.block_idx], consumer := .freeing }
    else none
  | .consumerSetFree =>
    if s.consumer = .freeing then
      some { s with sem := (hashpipeDatabufSetFree s.sem s.block_idx).1,
                    block_idx := (s.block_idx + 1) % n_block, freed := s.freed + 1,
                    consumer := .testing }
    else none

/-- All semaphores 0, both indices at block 0, any contents. -/
def RingInit (s : RingState α) : Prop :=
  s.sem = (fun _ => 0) ∧ s.b = 0 ∧ s.k = 0 ∧ s.producer = .waiting ∧
    s.block_idx = 0 ∧ s.consumer = .testing ∧ s.processed = [] ∧ s.freed = 0

def ringSystem (n_block : ℕ) (datum : ℕ → α) : System (RingState α) (RingAction α) where
  init := RingInit
  next := ringNext n_block datum

/-- The consumer is between a successful wait and giving the block back. -/
def RingState.processing (s : RingState α) : Prop :=
  s.consumer = .reading ∨ s.consumer = .freeing

/-- The consumer has appended the block it still holds to `processed`. -/
def RingState.readAhead (s : RingState α) : ℕ := if s.consumer = .freeing then 1 else 0

structure RingInv (n_block : ℕ) (datum : ℕ → α) (s : RingState α) : Prop where
  b_eq : s.b = s.k % n_block
  idx_eq : s.block_idx = s.freed % n_block
  freed_le : s.freed ≤ s.k
  le_freed : s.k ≤ s.freed + n_block
  filled : ∀ i, Occupied n_block s.freed s.k i → s.sem i = 1
  free : ∀ i, ¬ Occupied n_block s.freed s.k i → s.sem i = 0
  data : ∀ j, s.freed ≤ j → j < s.k → s.block (j % n_block) = datum j
  writing : s.producer ≠ .waiting → s.k < s.freed + n_block
  marking : s.producer = .marking → s.block s.b = datum s.k
  busy : s.processing → s.freed < s.k
  processed : s.processed = (List.range (s.freed + s.readAhead)).map datum

section Invariant

variable {n_block : ℕ} {datum : ℕ → α} {s : RingState α}

theorem RingInit.inv (h : RingInit s) : RingInv n_block datum s := by
  obtain ⟨hsem, hb, hk, hp, hidx, hc, hlog, hfreed⟩ := h
  constructor <;> simp_all [RingState.processing, RingState.readAhead, not_occupied_empty]

/-- A step that touches no shared state and no counter only has to keep what the two
program counters promise. -/
theorem RingInv.pcs (hi : RingInv n_block datum s) {p : ProducerPc} {c : ConsumerPc}
    (hp : p ≠ .waiting → s.k < s.freed + n_block) (hm : p = .marking → s.block s.b = datum s.k)
    (hc : c = .reading ∨ c = .freeing → s.freed < s.k)
    (hr : (c = .freeing) = (s.consumer = .freeing)) :
    RingInv n_block datum { s with producer := p, consumer := c } := by
  refine ⟨hi.b_eq, hi.idx_eq, hi.freed_le, hi.le_freed, hi.filled, hi.free, hi.data, hp, hm, hc, ?_⟩
  simp only [RingState.readAhead, hr]
  exact hi.processed

/-- The semaphore of the producer's block is 0 exactly when there is room. -/
theorem RingInv.room (hn : 0 < n_block) (hi : RingInv n_block datum s) (h : s.sem s.b = 0) :
    s.k < s.freed + n_block := by
  by_contra hfull
  have hk : s.k = s.freed + n_block := by have := hi.le_freed; omega
  have hocc := (occupied_next hn hi.freed_le hi.le_freed).mpr hk
  have := hi.filled _ (hi.b_eq ▸ hocc)
  omega

/-- The semaphore of the consumer's block is positive only when a datum is there. -/
theorem RingInv.nonempty (hi : RingInv n_block datum s)
    (h : 0 < s.sem s.block_idx) : s.freed < s.k := by
  by_contra hempty
  have hk : s.k = s.freed := by have := hi.freed_le; omega
  have hnot : ¬ Occupied n_block s.freed s.k s.block_idx := hk ▸ not_occupied_empty _ _ _
  have := hi.free _ hnot
  omega

/-- Writing the producer's block leaves every filled block alone. -/
theorem RingInv.write (hi : RingInv n_block datum s)
    (hroom : s.k < s.freed + n_block) (x : α) {j : ℕ} (hj : s.freed ≤ j) (hjk : j < s.k) :
    Function.update s.block s.b x (j % n_block) = datum j := by
  have hne : j % n_block ≠ s.b := by
    intro heq
    have := slot_injective (n := n_block) hj (by omega) hi.freed_le hroom (heq.trans hi.b_eq)
    omega
  rw [Function.update_of_ne hne, hi.data j hj hjk]

theorem RingInv.setFilled (hi : RingInv n_block datum s)
    (hp : s.producer = .marking) :
    RingInv n_block datum
      { s with sem := setVal s.sem s.b 1, b := (s.b + 1) % n_block, k := s.k + 1,
               producer := .waiting } where
  b_eq := by
    show (s.b + 1) % n_block = (s.k + 1) % n_block
    rw [hi.b_eq, Nat.mod_add_mod]
  idx_eq := hi.idx_eq
  freed_le := Nat.le_succ_of_le hi.freed_le
  le_freed := hi.writing (by rw [hp]; simp)
  filled := by
    intro i hocc
    rcases (occupied_push hi.freed_le).mp hocc with hold | rfl
    · by_cases hb : i = s.b
      · subst hb; exact setVal_same _ _ _
      · exact (setVal_of_ne hb).trans (hi.filled i hold)
    · rw [← hi.b_eq]; exact setVal_same _ _ _
  free := by
    intro i hocc
    rw [occupied_push hi.freed_le, not_or] at hocc
    have hne : i ≠ s.b := by rw [hi.b_eq]; exact hocc.2
    exact (setVal_of_ne hne).trans (hi.free i hocc.1)
  data := by
    intro j hj hjk
    rcases Nat.lt_succ_iff_lt_or_eq.mp hjk with hlt | rfl
    · exact hi.data j hj hlt
    · show s.block (s.k % n_block) = datum s.k
      rw [← hi.b_eq]; exact hi.marking hp
  writing := by simp
  marking := by simp
  busy := fun h => Nat.lt_succ_of_lt (hi.busy h)
  processed := hi.processed

theorem RingInv.setFree (hi : RingInv n_block datum s) (hc : s.consumer = .freeing) :
    RingInv n_block datum
      { s with sem := setVal s.sem s.block_idx 0, block_idx := (s.block_idx + 1) % n_block,
               freed := s.freed + 1, consumer := .testing } where
  b_eq := hi.b_eq
  idx_eq := by
    show (s.block_idx + 1) % n_block = (s.freed + 1) % n_block
    rw [hi.idx_eq, Nat.mod_add_mod]
  freed_le := hi.busy (.inr hc)
  le_freed := by have := hi.le_freed; show s.k ≤ s.freed + 1 + n_block; omega
  filled := by
    intro i hocc
    obtain ⟨hold, hne⟩ := (occupied_pop hi.le_freed).mp hocc
    have hidx : i ≠ s.block_idx := by rw [hi.idx_eq]; exact hne
    exact (setVal_of_ne hidx).trans (hi.filled i hold)
  free := by
    intro i hocc
    rw [occupied_pop hi.le_freed, not_and_or, not_not] at hocc
    by_cases hidx : i = s.block_idx
    · subst hidx; exact setVal_same _ _ _
    · rcases hocc with hold | heq
      · exact (setVal_of_ne hidx).trans (hi.free i hold)
      · exact absurd (heq.trans hi.idx_eq.symm) hidx
  data := fun j hj hjk => hi.data j (Nat.le_of_succ_le hj) hjk
  writing := fun h => by
    have := hi.writing h
    show s.k < s.freed + 1 + n_block
    omega
  marking := hi.marking
  busy := by simp [RingState.processing]
  processed := by
    have hlog := hi.processed
    simp only [RingState.readAhead, hc, if_true] at hlog
    simpa [RingState.readAhead] using hlog

/-- **One step keeps the invariant**, whoever moves and however the kernel answers. -/
theorem RingInv.next (hn : 0 < n_block) (hi : RingInv n_block datum s) {a : RingAction α}
    {t : RingState α} (h : ringNext n_block datum s a = some t) : RingInv n_block datum t := by
  have hcons : s.consumer = .reading ∨ s.consumer = .freeing → s.freed < s.k := hi.busy
  cases a with
  | producerWait busy answer =>
    have hwait : ∀ rv : Option ℤ, (rv = some hashpipeOk → s.sem s.b = 0) →
        RingInv n_block datum { s with producer := producerAfter rv } := by
      intro rv hrv
      by_cases hok : rv = some hashpipeOk
      · exact hi.pcs (fun _ => hi.room hn (hrv hok)) (by simp [producerAfter, hok]) hcons rfl
      · exact hi.pcs (by simp [producerAfter, hok]) (by simp [producerAfter, hok]) hcons rfl
    simp only [ringNext] at h
    split at h <;> [split at h; simp at h]
    · obtain ⟨⟨sem', rv⟩, hcall, rfl⟩ := Option.map_eq_some_iff.mp h
      obtain ⟨rfl, hrv⟩ := busywaitFree_spec hcall
      exact hwait rv hrv
    · obtain ⟨⟨sem', rv⟩, hcall, rfl⟩ := Option.map_eq_some_iff.mp h
      obtain ⟨rfl, hrv⟩ := waitFree_spec hcall
      exact hwait (some rv) fun heq => hrv (Option.some.inj heq)
  | producerScribble x =>
    simp only [ringNext, Option.ite_none_right_eq_some, Option.some.injEq] at h
    obtain ⟨hp, rfl⟩ := h
    have hroom := hi.writing (by rw [hp]; simp)
    exact { hi with
      data := fun j hj hjk => hi.write hroom x hj hjk
      marking := fun hm => by simp [hp] at hm }
  | producerWrite =>
    simp only [ringNext, Option.ite_none_right_eq_some, Option.some.injEq] at h
    obtain ⟨hp, rfl⟩ := h
    have hroom := hi.writing (by rw [hp]; simp)
    exact { hi with
      data := fun j hj hjk => hi.write hroom _ hj hjk
      writing := fun _ => hroom
      marking := fun _ => Function.update_self _ _ _ }
  | producerSetFilled =>
    simp only [ringNext, Option.ite_none_right_eq_some, Option.some.injEq] at h
    obtain ⟨hp, rfl⟩ := h
    exact hi.setFilled hp
  | consumerTest running =>
    simp only [ringNext, Option.ite_none_right_eq_some, Option.some.injEq] at h
    obtain ⟨hc, rfl⟩ := h
    cases running <;> exact hi.pcs hi.writing hi.marking (by simp) (by simp [hc])
  | consumerWait answer =>
    simp only [ringNext] at h
    split at h <;> [skip; simp at h]
    rename_i hc
    obtain ⟨⟨sem', rv⟩, hcall, rfl⟩ := Option.map_eq_some_iff.mp h
    obtain ⟨rfl, hrv⟩ := waitFilled_spec hcall
    by_cases hok : rv = hashpipeOk
    · exact hi.pcs hi.writing hi.marking (fun _ => hi.nonempty (hrv hok))
        (by simp [consumerAfter, hok, hc])
    · have hafter : consumerAfter rv = .waiting ∨ consumerAfter rv = .exited := by
        unfold consumerAfter
        rw [if_neg hok]
        by_cases hto : rv = hashpipeTimeout
        · exact .inl (if_pos hto)
        · exact .inr (if_neg hto)
      rcases hafter with hpc | hpc <;>
        exact hi.pcs hi.writing hi.marking (by simp [hpc]) (by simp [hpc, hc])
  | consumerRead =>
    simp only [ringNext, Option.ite_none_right_eq_some, Option.some.injEq] at h
    obtain ⟨hc, rfl⟩ := h
    have hlt := hi.busy (.inl hc)
    have hlog := hi.processed
    simp only [RingState.readAhead, hc] at hlog
    exact { hi with
      busy := fun _ => hlt
      processed := by
        show s.processed ++ [s.block s.block_idx] = _
        rw [hlog, hi.idx_eq, hi.data s.freed le_rfl hlt]
        simp [RingState.readAhead, List.range_succ] }
  | consumerSetFree =>
    simp only [ringNext, Option.ite_none_right_eq_some, Option.some.injEq] at h
    obtain ⟨hc, rfl⟩ := h
    exact hi.setFree hc

theorem ringInv_of_reachable (hn : 0 < n_block) (h : Reachable (ringSystem n_block datum) s) :
    RingInv n_block datum s := by
  refine h.invariant (I := RingInv n_block datum) ?_ ?_
  · intro s hs
    exact RingInit.inv hs
  · intro s a t hi hs
    exact RingInv.next (a := a) hn hi hs

/-! ### What the protocol guarantees -/

/-- A block is marked filled exactly when its semaphore is 1. -/
theorem RingInv.sem_eq_one_iff (hi : RingInv n_block datum s) (i : ℕ) :
    s.sem i = 1 ↔ Occupied n_block s.freed s.k i := by
  constructor
  · intro hone
    by_contra hnot
    have := hi.free i hnot
    omega
  · exact hi.filled i

theorem RingInv.sem_zero_or_one (hi : RingInv n_block datum s) (i : ℕ) :
    s.sem i = 0 ∨ s.sem i = 1 := by
  by_cases h : Occupied n_block s.freed s.k i
  · exact .inr (hi.filled i h)
  · exact .inl (hi.free i h)

/-- What the consumer has in its hands is the datum it is to process next. -/
theorem RingInv.in_hand (hi : RingInv n_block datum s) (hp : s.processing) :
    s.block s.block_idx = datum s.freed := by
  rw [hi.idx_eq]
  exact hi.data s.freed le_rfl (hi.busy hp)

/-- While the producer writes, its block is not among the filled ones. -/
theorem RingInv.writing_free (hn : 0 < n_block) (hi : RingInv n_block datum s)
    (hp : s.producer ≠ .waiting) : ¬ Occupied n_block s.freed s.k s.b := by
  rw [hi.b_eq, occupied_next hn hi.freed_le hi.le_freed]
  have := hi.writing hp
  omega

/-- The block the consumer processes is among the filled ones. -/
theorem RingInv.processing_filled (hi : RingInv n_block datum s) (hp : s.processing) :
    Occupied n_block s.freed s.k s.block_idx := by
  rw [hi.idx_eq]
  exact occupied_first (hi.busy hp)

theorem RingInv.card_filled (hn : 0 < n_block) (hi : RingInv n_block datum s) :
    ((Finset.range n_block).filter fun i => s.sem i = 1).card = s.k - s.freed := by
  classical
  rw [Finset.filter_congr fun i _ => hi.sem_eq_one_iff i]
  exact card_occupied hn hi.le_freed

/-- **The ring is a lossless FIFO.**  In every reachable state the blocks processed so
far are the first data produced, in order; the block in the consumer's hands holds the
next one; a block being written has semaphore 0 and is not the consumer's; every
semaphore is 0 or 1; and at most `n_block` blocks are filled, those published and not
yet freed. -/
theorem ring_lossless_fifo (hn : 0 < n_block) (h : Reachable (ringSystem n_block datum) s) :
    s.processed = (List.range s.processed.length).map datum ∧
    (s.processing → s.block s.block_idx = datum s.freed) ∧
    (s.consumer = .reading → s.processed.length = s.freed) ∧
    (s.producer ≠ .waiting → s.sem s.b = 0 ∧ (s.processing → s.b ≠ s.block_idx)) ∧
    (∀ i, s.sem i = 0 ∨ s.sem i = 1) ∧
    ((Finset.range n_block).filter fun i => s.sem i = 1).card = s.k - s.freed ∧
    s.k - s.freed ≤ n_block := by
  have hi := ringInv_of_reachable hn h
  have hlen : s.processed.length = s.freed + s.readAhead := by
    rw [hi.processed, List.length_map, List.length_range]
  refine ⟨?_, hi.in_hand, ?_, ?_, hi.sem_zero_or_one, hi.card_filled hn, ?_⟩
  · rw [hlen]
    exact hi.processed
  · intro hc
    simp [hlen, RingState.readAhead, hc]
  · intro hp
    have hfree := hi.writing_free hn hp
    refine ⟨hi.free _ hfree, fun hproc heq => hfree ?_⟩
    rw [heq]
    exact hi.processing_filled hproc
  · have := hi.le_freed
    omega

end Invariant

/-- Three data go through a ring of two blocks, past timeouts of both threads and with the
producer as far ahead as it gets. -/
def shortRun : List (RingAction ℕ) :=
  [.consumerTest true, .consumerWait (.fail .EAGAIN), .producerWait true (.fail .EAGAIN),
   .producerWait true .proceed, .producerScribble 0, .producerWrite,
   .consumerWait (.fail .EAGAIN), .producerSetFilled, .producerWait false .proceed,
   .producerWrite, .producerSetFilled, .producerWait false (.fail .EAGAIN),
   .consumerWait .proceed, .consumerRead, .consumerSetFree, .producerWait false .proceed,
   .producerWrite, .consumerTest true, .consumerWait .proceed, .producerSetFilled,
   .consumerRead, .consumerSetFree, .consumerTest true, .consumerWait .proceed, .consumerRead]

def ringStart : RingState ℕ :=
  { sem := fun _ => 0, block := fun _ => 9, b := 0, k := 0, producer := .waiting,
    block_idx := 0, consumer := .testing, processed := [], freed := 0 }

def shortRunEnd : RingState ℕ :=
  (run (ringSystem 2 (· + 7)) ringStart shortRun).getD ringStart

theorem ring_lossless_fifo_shortRun :
    shortRunEnd.processed = [7, 8, 9] ∧
      shortRunEnd.processed = (List.range shortRunEnd.processed.length).map (· + 7) := by
  have hinit : Reachable (ringSystem 2 (· + 7)) ringStart :=
    .init ⟨rfl, rfl, rfl, rfl, rfl, rfl, rfl, rfl⟩
  exact ⟨by decide, (ring_lossless_fifo (by decide) (hinit.run_getD shortRun)).1⟩

/-! ### The bounded queue behind it -/

/-- A bounded queue: what is in it, and what came out. -/
structure QueueState (α : Type) where
  pushed : ℕ
  queue : List α
  delivered : List α

inductive QueueAction
  | push
  | pop

def queueNext (capacity : ℕ) (datum : ℕ → α) (s : QueueState α) :
    QueueAction → Option (QueueState α)
  | .push =>
    if s.queue.length < capacity then
      some { s with pushed := s.pushed + 1, queue := s.queue ++ [datum s.pushed] }
    else none
  | .pop =>
    match s.queue with
    | [] => none
    | x :: rest => some { s with queue := rest, delivered := s.delivered ++ [x] }

def queueSystem (capacity : ℕ) (datum : ℕ → α) : System (QueueState α) QueueAction where
  init s := s = ⟨0, [], []⟩
  next := queueNext capacity datum

/-- The queue a ring state stands for: the filled blocks, oldest first. -/
def RingState.toQueue (datum : ℕ → α) (s : RingState α) : QueueState α where
  pushed := s.k
  queue := (List.range' s.freed (s.k - s.freed)).map datum
  delivered := (List.range s.freed).map datum

section Refinement

variable {n_block : ℕ} {datum : ℕ → α} {s : RingState α}

/-- Publishing a block pushes its datum. -/
theorem queueNext_push (n_block : ℕ) {s : RingState α} (hle : s.freed ≤ s.k) (hroom : s.k < s.freed + n_block) :
    queueNext n_block datum (s.toQueue datum) .push =
      some ⟨s.k + 1, (List.range' s.freed (s.k + 1 - s.freed)).map datum,
        (List.range s.freed).map datum⟩ := by
  have hlen : (s.toQueue datum).queue.length < n_block := by
    simp only [RingState.toQueue, List.length_map, List.length_range']
    omega
  have hsucc : s.k + 1 - s.freed = (s.k - s.freed) + 1 := by omega
  have hlast : s.freed + (s.k - s.freed) = s.k := by omega
  rw [queueNext, if_pos hlen, hsucc, List.range'_concat, List.map_append, Nat.one_mul, hlast]
  rfl

/-- Freeing a block pops its datum. -/
theorem queueNext_pop (n_block : ℕ) {s : RingState α} (hlt : s.freed < s.k) :
    queueNext n_block datum (s.toQueue datum) .pop =
      some ⟨s.k, (List.range' (s.freed + 1) (s.k - (s.freed + 1))).map datum,
        (List.range (s.freed + 1)).map datum⟩ := by
  have hcount : s.k - s.freed = (s.k - (s.freed + 1)) + 1 := by omega
  simp only [queueNext, RingState.toQueue, hcount, List.range'_succ, List.map_cons,
    List.range_succ, List.map_append, List.map_nil]

/-- Only publishing and freeing move the counters. -/
theorem ringNext_counters {a : RingAction α} {t : RingState α}
    (h : ringNext n_block datum s a = some t) :
    (t.k = s.k ∧ t.freed = s.freed) ∨ a = .producerSetFilled ∨ a = .consumerSetFree := by
  cases a with
  | producerSetFilled => exact .inr (.inl rfl)
  | consumerSetFree => exact .inr (.inr rfl)
  | producerWait busy answer =>
    simp only [ringNext] at h
    split at h <;> [split at h; simp at h] <;>
      obtain ⟨r, -, rfl⟩ := Option.map_eq_some_iff.mp h <;> exact .inl ⟨rfl, rfl⟩
  | consumerWait answer =>
    simp only [ringNext, Option.ite_none_right_eq_some, Option.map_eq_some_iff] at h
    obtain ⟨-, r, -, rfl⟩ := h
    exact .inl ⟨rfl, rfl⟩
  | producerScribble _ | producerWrite | consumerTest _ | consumerRead =>
    simp only [ringNext, Option.ite_none_right_eq_some, Option.some.injEq] at h
    obtain ⟨-, rfl⟩ := h
    exact .inl ⟨rfl, rfl⟩

/-- **The ring refines the bounded queue**: `set_filled` is the push, `set_free` the
pop, and no other step is visible. -/
theorem ring_refines_queue (hn : 0 < n_block) :
    Simulation (ringSystem n_block datum) (queueSystem n_block datum) (fun _ _ => True)
      (fun s r => RingInv n_block datum s ∧ r = s.toQueue datum) where
  init := by
    intro s hs
    refine ⟨s.toQueue datum, ?_, RingInit.inv hs, rfl⟩
    obtain ⟨-, -, hk, -, -, -, -, hfreed⟩ := hs
    show s.toQueue datum = ⟨0, [], []⟩
    simp [RingState.toQueue, hk, hfreed]
  step := by
    rintro s _ a t ⟨hi, rfl⟩ - hstep
    have hi' : RingInv n_block datum t := RingInv.next (a := a) hn hi hstep
    rcases ringNext_counters hstep with ⟨hk, hf⟩ | rfl | rfl
    · refine .inl ⟨hi', ?_⟩
      simp only [RingState.toQueue, hk, hf]
    · simp only [ringSystem, ringNext, Option.ite_none_right_eq_some, Option.some.injEq] at hstep
      obtain ⟨hp, rfl⟩ := hstep
      have hroom := hi.writing (by rw [hp]; simp)
      exact .inr ⟨.push, _, queueNext_push n_block hi.freed_le hroom, hi', rfl⟩
    · simp only [ringSystem, ringNext, Option.ite_none_right_eq_some, Option.some.injEq] at hstep
      obtain ⟨hc, rfl⟩ := hstep
      have hlt := hi.busy (.inr hc)
      exact .inr ⟨.pop, _, queueNext_pop n_block hlt, hi', rfl⟩

end Refinement

end Hashpipe.Databuf
