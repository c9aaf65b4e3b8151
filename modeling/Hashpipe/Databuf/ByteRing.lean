import Hashpipe.Databuf.BlockLayout
import Hashpipe.Databuf.RingProtocol
import Hashpipe.Library.ByteMemory

/-!
# The ring in memory

The two threads of `RingProtocol` with the databuf as bytes: the producer stores single bytes
through the pointer that `hashpipe_databuf_data` gives it, in any order and any number of
times, and the consumer loads single bytes in the same way.  Nothing but the semaphores keeps
the two apart, and a store of the one may come between any two loads of the other.

`ByteRel` relates a state to one of `RingProtocol` whose blocks are read out of the memory;
`byteRing_refines_ring` maps each step, a store being a scribble and a load no step at all.
-/

namespace Hashpipe.Databuf

open SemaphoreSet RingWindow StepSystem SysVIpc ByteMemory

/-! ### Blocks of bytes -/

/-- The bytes of block `i`. -/
def blockBytes (h : Header) (mem : Mem) (i : ℕ) : List UInt8 :=
  (List.range h.block_size).map fun j => mem (hashpipeDatabufData h i + j)

/-- A databuf of `n` blocks that ends below 2^64. -/
structure Header.Fits (h : Header) (n : ℕ) : Prop where
  pos : 0 < n
  n_block : h.n_block = n
  int : n < 2 ^ 31
  sum : h.header_size + h.block_size * n < 2 ^ 64

section Blocks

variable {h : Header} {n : ℕ} {mem : Mem} {i a : ℕ}

theorem Header.Fits.data (hfits : h.Fits n) (hi : i < n) :
    hashpipeDatabufData h i = h.header_size + h.block_size * i := by
  have hle := (slot_le (b := h.block_size) hi le_rfl).1
  have hint := hfits.int
  have hsum := hfits.sum
  rw [hashpipeDatabufData, sizeOfInt_natCast (by omega)]
  exact Nat.mod_eq_of_lt (by omega)

/-- A byte of one block is no byte of another. -/
theorem Header.Fits.apart (hfits : h.Fits n) {b j : ℕ} (hb : b < n) (hi : i < n) (hne : i ≠ b)
    (hj : j < h.block_size) :
    hashpipeDatabufData h b + j < hashpipeDatabufData h i ∨
      hashpipeDatabufData h i + h.block_size ≤ hashpipeDatabufData h b + j := by
  rw [hfits.data hb, hfits.data hi]
  rcases Nat.lt_or_gt_of_ne hne with hlt | hgt
  · have := (slot_le (b := h.block_size) hlt le_rfl).1
    exact .inr (by omega)
  · have := (slot_le (b := h.block_size) hgt le_rfl).1
    exact .inl (by omega)

@[simp] theorem blockBytes_length : (blockBytes h mem i).length = h.block_size := by
  simp [blockBytes]

theorem blockBytes_getElem? {j : ℕ} (hj : j < h.block_size) :
    (blockBytes h mem i)[j]? = some (mem (hashpipeDatabufData h i + j)) := by
  simp [blockBytes, hj]

/-- A store outside a block leaves its bytes as they are. -/
theorem blockBytes_update {c : UInt8}
    (hout : a < hashpipeDatabufData h i ∨ hashpipeDatabufData h i + h.block_size ≤ a) :
    blockBytes h (Function.update mem a c) i = blockBytes h mem i := by
  apply List.map_congr_left
  intro j hj
  have hj := List.mem_range.mp hj
  exact Function.update_of_ne (by omega) _ _

end Blocks

/-! ### The system -/

/-- The segment, the semaphores, the private state of both threads, and two history
variables: what the consumer has loaded, each byte with the number of blocks given back
before and its place in the block, and how many blocks it has set free. -/
structure ByteState where
  mem : Mem
  sem : SemSet
  b : ℕ
  k : ℕ
  producer : ProducerPc
  block_idx : ℕ
  consumer : ConsumerPc
  loads : List (ℕ × ℕ × UInt8)
  freed : ℕ

inductive ByteAction
  | producerWait (busy : Bool) (answer : Answer)
  /-- A byte at offset `j` of the block. -/
  | producerStore (j : ℕ) (c : UInt8)
  /-- The block holds the datum: the producer stores no more. -/
  | producerDone
  | producerSetFilled
  | consumerTest (running : Bool)
  | consumerWait (answer : Answer)
  | consumerLoad (j : ℕ)
  /-- The consumer loads no more. -/
  | consumerDone
  | consumerSetFree

def byteNext (h : Header) (n_block : ℕ) (datum : ℕ → List UInt8) (s : ByteState) :
    ByteAction → Option ByteState
  | .producerWait busy answer =>
    if s.producer = .waiting then
      if busy then
        (hashpipeDatabufBusywaitFree s.sem s.b answer).map fun r =>
          { s with sem := r.1, producer := producerAfter r.2 }
      else
        (hashpipeDatabufWaitFree s.sem s.b answer).map fun r =>
          { s with sem := r.1, producer := producerAfter (some r.2) }
    else none
  | .producerStore j c =>
    if s.producer = .writing ∧ j < h.block_size then
      some { s with mem := Function.update s.mem (hashpipeDatabufData h s.b + j) c }
    else none
  | .producerDone =>
    if s.producer = .writing ∧ blockBytes h s.mem s.b = datum s.k then
      some { s with producer := .marking }
    else none
  | .producerSetFilled =>
    if s.producer = .marking then
      some { s with sem := (hashpipeDatabufSetFilled s.sem s.b).1, b := (s.b + 1) % n_block,
                    k := s.k + 1, producer := .waiting }
    else none
  | .consumerTest running =>
    if s.consumer = .testing then
      some { s with consumer := if running then .waiting else .exited }
    else none
  | .consumerWait answer =>
    if s.consumer = .waiting then
      (hashpipeDatabufWaitFilled s.sem s.block_idx answer).map fun r =>
        { s with sem := r.1, consumer := consumerAfter r.2 }
    else none
  | .consumerLoad j =>
    if s.consumer = .reading ∧ j < h.block_size then
      some { s with loads := s.loads ++
        [(s.freed, j, s.mem (hashpipeDatabufData h s.block_idx + j))] }
    else none
  | .consumerDone =>
    if s.consumer = .reading then some { s with consumer := .freeing } else none
  | .consumerSetFree =>
    if s.consumer = .freeing then
      some { s with sem := (hashpipeDatabufSetFree s.sem s.block_idx).1,
                    block_idx := (s.block_idx + 1) % n_block, freed := s.freed + 1,
                    consumer := .testing }
    else none

/-- All semaphores 0, both threads at block 0, the bytes `mem` in the segment. -/
def ByteInit (mem : Mem) (s : ByteState) : Prop :=
  s.mem = mem ∧ s.sem = (fun _ => 0) ∧ s.b = 0 ∧ s.k = 0 ∧ s.producer = .waiting ∧
    s.block_idx = 0 ∧ s.consumer = .testing ∧ s.loads = [] ∧ s.freed = 0

def byteSystem (h : Header) (n_block : ℕ) (datum : ℕ → List UInt8) (mem : Mem) :
    System ByteState ByteAction where
  init := ByteInit mem
  next := byteNext h n_block datum

/-! ### The ring of its blocks -/

section Refinement

variable {h : Header} {n : ℕ} {datum : ℕ → List UInt8} {mem : Mem} {s t : ByteState}

/-- The ring state that a state in memory stands for. -/
def ByteState.toRing (h : Header) (n : ℕ) (s : ByteState) (log : List (List UInt8)) :
    RingState (List UInt8) where
  sem := s.sem
  block i := if i < n then blockBytes h s.mem i else []
  b := s.b
  k := s.k
  producer := s.producer
  block_idx := s.block_idx
  consumer := s.consumer
  processed := log
  freed := s.freed

/-- The byte at `a` belongs to no block. -/
def outside (h : Header) (n a : ℕ) : Prop :=
  ∀ i < n, a < hashpipeDatabufData h i ∨ hashpipeDatabufData h i + h.block_size ≤ a

/-- A state in memory and a ring state. -/
structure ByteRel (h : Header) (n : ℕ) (datum : ℕ → List UInt8) (mem : Mem) (s : ByteState)
    (r : RingState (List UInt8)) : Prop where
  ring : ∃ log, r = s.toRing h n log
  inv : RingInv n datum r
  /-- Every byte loaded is the byte at that place of the datum then in hand. -/
  loads : ∀ i j c, (i, j, c) ∈ s.loads → (datum i)[j]? = some c
  others : ∀ a, outside h n a → s.mem a = mem a

theorem ByteRel.in_hand {r : RingState (List UInt8)} (hrel : ByteRel h n datum mem s r)
    (hpos : 0 < n) (hc : s.consumer = .reading ∨ s.consumer = .freeing) :
    blockBytes h s.mem s.block_idx = datum s.freed := by
  obtain ⟨log, rfl⟩ := hrel.ring
  have hlt : s.block_idx < n := by
    have hidx := hrel.inv.idx_eq
    simp only [ByteState.toRing] at hidx
    rw [hidx]
    exact Nat.mod_lt _ hpos
  have hhand := hrel.inv.in_hand hc
  simp only [ByteState.toRing, if_pos hlt] at hhand
  exact hhand

theorem ByteRel.b_lt {r : RingState (List UInt8)} (hrel : ByteRel h n datum mem s r)
    (hpos : 0 < n) : s.b < n := by
  obtain ⟨log, rfl⟩ := hrel.ring
  have hb := hrel.inv.b_eq
  simp only [ByteState.toRing] at hb
  rw [hb]
  exact Nat.mod_lt _ hpos

/-- A store scribbles on the producer's block. -/
theorem toRing_store (hfits : h.Fits n) (hb : s.b < n) {j : ℕ} (hj : j < h.block_size) (c : UInt8)
    (log : List (List UInt8)) :
    ({ s with mem := Function.update s.mem (hashpipeDatabufData h s.b + j) c } :
        ByteState).toRing h n log =
      { s.toRing h n log with
        block := Function.update (s.toRing h n log).block s.b
          (blockBytes h (Function.update s.mem (hashpipeDatabufData h s.b + j) c) s.b) } := by
  simp only [ByteState.toRing, RingState.mk.injEq, true_and, and_true]
  funext i
  by_cases hi : i = s.b
  · subst hi
    rw [Function.update_self, if_pos hb]
  · rw [Function.update_of_ne hi]
    by_cases hin : i < n
    · rw [if_pos hin, if_pos hin, blockBytes_update (hfits.apart hb hin hi hj)]
    · rw [if_neg hin, if_neg hin]

/-- When the producer is done its block holds the datum. -/
theorem toRing_done (hb : s.b < n) (hdone : blockBytes h s.mem s.b = datum s.k)
    (log : List (List UInt8)) :
    ({ s with producer := .marking } : ByteState).toRing h n log =
      { s.toRing h n log with
        block := Function.update (s.toRing h n log).block s.b (datum s.k)
        producer := .marking } := by
  simp only [ByteState.toRing, RingState.mk.injEq, true_and, and_true]
  funext i
  by_cases hi : i = s.b
  · subst hi
    rw [Function.update_self, if_pos hb, hdone]
  · rw [Function.update_of_ne hi]

/-- The steps of the ring that touch neither the blocks nor what has been read. -/
def ByteAction.control : ByteAction → Option (RingAction (List UInt8))
  | .producerWait busy answer => some (.producerWait busy answer)
  | .producerSetFilled => some .producerSetFilled
  | .consumerTest running => some (.consumerTest running)
  | .consumerWait answer => some (.consumerWait answer)
  | .consumerSetFree => some .consumerSetFree
  | .producerStore _ _ | .producerDone | .consumerLoad _ | .consumerDone => none

/-- These are the same steps in the ring. -/
theorem ringNext_control {a : ByteAction} {a' : RingAction (List UInt8)}
    (ha : a.control = some a') (log : List (List UInt8)) :
    ringNext n datum (s.toRing h n log) a' =
      (byteNext h n datum s a).map fun t => t.toRing h n log := by
  cases a with
  | producerWait busy answer =>
    obtain rfl := Option.some.inj ha
    by_cases hp : s.producer = .waiting <;> cases busy <;>
      simp [ringNext, byteNext, ByteState.toRing, hp, Function.comp_def]
  | producerSetFilled =>
    obtain rfl := Option.some.inj ha
    by_cases hp : s.producer = .marking <;> simp [ringNext, byteNext, ByteState.toRing, hp]
  | consumerTest running =>
    obtain rfl := Option.some.inj ha
    by_cases hc : s.consumer = .testing <;> simp [ringNext, byteNext, ByteState.toRing, hc]
  | consumerWait answer =>
    obtain rfl := Option.some.inj ha
    by_cases hc : s.consumer = .waiting <;>
      simp [ringNext, byteNext, ByteState.toRing, hc, Function.comp_def]
  | consumerSetFree =>
    obtain rfl := Option.some.inj ha
    by_cases hc : s.consumer = .freeing <;> simp [ringNext, byteNext, ByteState.toRing, hc]
  | producerStore j c => cases ha
  | producerDone => cases ha
  | consumerLoad j => cases ha
  | consumerDone => cases ha

/-- Nor do they load or store. -/
theorem byteNext_control {a : ByteAction} {a' : RingAction (List UInt8)}
    (ha : a.control = some a') (hnext : byteNext h n datum s a = some t) :
    t.mem = s.mem ∧ t.loads = s.loads := by
  cases a <;> simp only [ByteAction.control, reduceCtorEq] at ha
  case producerWait busy answer =>
    simp only [byteNext] at hnext
    split at hnext <;> [split at hnext; simp at hnext] <;>
      obtain ⟨r, -, rfl⟩ := Option.map_eq_some_iff.mp hnext <;> exact ⟨rfl, rfl⟩
  case consumerWait answer =>
    simp only [byteNext, Option.ite_none_right_eq_some, Option.map_eq_some_iff] at hnext
    obtain ⟨-, r, -, rfl⟩ := hnext
    exact ⟨rfl, rfl⟩
  all_goals
    simp only [byteNext, Option.ite_none_right_eq_some, Option.some.injEq] at hnext
    obtain ⟨-, rfl⟩ := hnext
    exact ⟨rfl, rfl⟩

/-- **The ring in memory refines the ring of data.** -/
theorem byteRing_refines_ring (hfits : h.Fits n) :
    Simulation (byteSystem h n datum mem) (ringSystem n datum) (fun _ _ => True)
      (ByteRel h n datum mem) where
  init := by
    intro s hs
    obtain ⟨hmem, hsem, hb, hk, hp, hidx, hc, hloads, hfreed⟩ := hs
    have hinit : RingInit (s.toRing h n []) := ⟨hsem, hb, hk, hp, hidx, hc, rfl, hfreed⟩
    exact ⟨s.toRing h n [], hinit, ⟨[], rfl⟩, hinit.inv, by simp [hloads], fun a _ => by rw [hmem]⟩
  step := by
    intro s r a t hrel _ hstep
    have hnext : byteNext h n datum s a = some t := hstep
    have hb := hrel.b_lt hfits.pos
    obtain ⟨log, hr⟩ := hrel.ring
    subst hr
    have hctl : ∀ a', a.control = some a' → ∃ b r', (ringSystem n datum).next (s.toRing h n log) b =
        some r' ∧ ByteRel h n datum mem t r' := by
      intro a' ha
      have hring : ringNext n datum (s.toRing h n log) a' =
          (byteNext h n datum s a).map fun t => t.toRing h n log := ringNext_control ha log
      rw [hnext, Option.map_some] at hring
      obtain ⟨hmem, hloads⟩ := byteNext_control ha hnext
      exact ⟨a', t.toRing h n log, hring, ⟨log, rfl⟩, hrel.inv.next hfits.pos hring,
        hloads ▸ hrel.loads, fun x hx => hmem ▸ hrel.others x hx⟩
    cases a with
    | producerWait busy answer => exact .inr (hctl _ rfl)
    | producerSetFilled => exact .inr (hctl _ rfl)
    | consumerTest running => exact .inr (hctl _ rfl)
    | consumerWait answer => exact .inr (hctl _ rfl)
    | consumerSetFree => exact .inr (hctl _ rfl)
    | producerStore j c =>
      simp only [byteNext, Option.ite_none_right_eq_some, Option.some.injEq] at hnext
      obtain ⟨⟨hp, hj⟩, rfl⟩ := hnext
      have hring : ringNext n datum (s.toRing h n log) (.producerScribble
          (blockBytes h (Function.update s.mem (hashpipeDatabufData h s.b + j) c) s.b)) =
          some (ByteState.toRing h n _ log) :=
        (if_pos hp).trans (congrArg some (toRing_store hfits hb hj c log).symm)
      refine .inr ⟨.producerScribble _, _, hring, ⟨log, rfl⟩, hrel.inv.next hfits.pos hring,
        hrel.loads, ?_⟩
      intro x hx
      have hne : x ≠ hashpipeDatabufData h s.b + j := by
        have := hx s.b hb
        omega
      show Function.update s.mem _ c x = mem x
      rw [Function.update_of_ne hne]
      exact hrel.others x hx
    | producerDone =>
      simp only [byteNext, Option.ite_none_right_eq_some, Option.some.injEq] at hnext
      obtain ⟨⟨hp, hdone⟩, rfl⟩ := hnext
      have hring : ringNext n datum (s.toRing h n log) .producerWrite =
          some (ByteState.toRing h n _ log) :=
        (if_pos hp).trans (congrArg some (toRing_done hb hdone log).symm)
      exact .inr ⟨.producerWrite, _, hring, ⟨log, rfl⟩, hrel.inv.next hfits.pos hring, hrel.loads,
        hrel.others⟩
    | consumerLoad j =>
      simp only [byteNext, Option.ite_none_right_eq_some, Option.some.injEq] at hnext
      obtain ⟨⟨hc, hj⟩, rfl⟩ := hnext
      refine .inl ⟨⟨log, rfl⟩, hrel.inv, ?_, hrel.others⟩
      intro i j' c hmem
      rcases List.mem_append.mp hmem with hold | hnew
      · exact hrel.loads i j' c hold
      · obtain ⟨rfl, rfl, rfl⟩ : i = s.freed ∧ j' = j ∧
            c = s.mem (hashpipeDatabufData h s.block_idx + j) := by simpa using hnew
        rw [← hrel.in_hand hfits.pos (.inl hc)]
        exact blockBytes_getElem? hj
    | consumerDone =>
      simp only [byteNext, Option.ite_none_right_eq_some, Option.some.injEq] at hnext
      obtain ⟨hc, rfl⟩ := hnext
      have hring : ringNext n datum (s.toRing h n log) .consumerRead =
          some (ByteState.toRing h n { s with consumer := .freeing }
            (log ++ [(s.toRing h n log).block s.block_idx])) := if_pos hc
      exact .inr ⟨.consumerRead, _, hring, ⟨_, rfl⟩, hrel.inv.next hfits.pos hring, hrel.loads,
        hrel.others⟩

end Refinement

/-! ### A databuf that has been created -/

section Created

variable {p : CreateArgs} {heap : ℕ → ℕ} {ans : CreateCall → IpcAnswer} {k k' : Ipc Header}
  {path : Path} {datum : ℕ → List UInt8} {mem : Mem} {s : ByteState}

theorem created_fits (h : hashpipeDatabufCreate p heap ans k = (.returned path, k'))
    (hfit : p.exactSize < 2 ^ 64) (hpos : 0 < p.n_block) :
    (mapped k').Fits p.n_block.toNat ∧ (mapped k').header_size = p.header_size ∧
      (mapped k').block_size = p.block_size := by
  have hi := hashpipeDatabufCreate_sized h
  have hhs : (mapped k').header_size = p.header_size := Int.ofNat.inj (hi.sized .header_size rfl)
  have hbs : (mapped k').block_size = p.block_size := Int.ofNat.inj (hi.sized .block_size rfl)
  have hnb : (mapped k').n_block = p.n_block := hi.sized .n_block rfl
  have hn : p.n_block = (p.n_block.toNat : ℤ) := (Int.toNat_of_nonneg hpos.le).symm
  have hlt := p.n_block_lt
  rw [exactSize_natCast hn] at hfit
  refine ⟨⟨by omega, hnb.trans hn, by omega, ?_⟩, hhs, hbs⟩
  rw [hhs, hbs]
  exact_mod_cast hfit

/-- **No torn blocks, down to single bytes.**  In a databuf that `hashpipe_databuf_create`
returned, however the stores of the producer and the loads of the consumer interleave: every
byte ever loaded is the byte at its place in the datum that was published for that turn, the
filled blocks hold the data published and not given back, and the header, like everything
behind the last block, stays as it was. -/
theorem ring_bytes_not_torn (h : hashpipeDatabufCreate p heap ans k = (.returned path, k'))
    (hfit : p.exactSize < 2 ^ 64) (hpos : 0 < p.n_block)
    (hs : Reachable (byteSystem (mapped k') p.n_block.toNat datum mem) s) :
    (∀ i j c, (i, j, c) ∈ s.loads → (datum i)[j]? = some c) ∧
    (∀ i, s.freed ≤ i → i < s.k →
      blockBytes (mapped k') s.mem (i % p.n_block.toNat) = datum i) ∧
    ∀ a, a < p.header_size ∨ p.exactSize ≤ a → s.mem a = mem a := by
  obtain ⟨hfits, hhs, hbs⟩ := created_fits h hfit hpos
  obtain ⟨r, -, hrel⟩ := (byteRing_refines_ring hfits).reachable hs.underTrue
  refine ⟨hrel.loads, ?_, ?_⟩
  · intro i hi hik
    obtain ⟨log, rfl⟩ := hrel.ring
    have hdata := hrel.inv.data i hi hik
    simpa only [ByteState.toRing, if_pos (Nat.mod_lt i hfits.pos)] using hdata
  · intro a ha
    apply hrel.others
    intro i hi
    have hle := slot_le (b := p.block_size) hi le_rfl
    rw [exactSize_natCast (Int.toNat_of_nonneg hpos.le).symm] at ha
    rw [hfits.data hi, hhs, hbs]
    omega

end Created

theorem pair_bounds :
    96 < 2 ^ 64 ∧ 2 < 2 ^ 64 ∧ (-2 ^ 31 : ℤ) ≤ 2 ∧ (2 : ℤ) < 2 ^ 31 := by decide

/-- A databuf of two blocks of two bytes. -/
def pairArgs : CreateArgs := .ofBounds 96 2 2 pair_bounds

def pairCreated : CreatePc × Ipc Header :=
  hashpipeDatabufCreate pairArgs (fun _ => 0) noHugePages noKey

def pairDatum (i : ℕ) : List UInt8 := [UInt8.ofNat i, 9]

/-- The producer stores into block 1 between two loads of block 0. -/
def pairRun : List ByteAction :=
  [.producerWait false .proceed, .producerStore 1 5, .producerStore 0 0, .producerStore 1 9,
   .producerDone, .producerSetFilled, .consumerTest true, .consumerWait .proceed,
   .producerWait true .proceed, .consumerLoad 1, .producerStore 0 7, .consumerLoad 0]

def pairStart : ByteState := ⟨fun _ => 1, fun _ => 0, 0, 0, .waiting, 0, .testing, [], 0⟩

def pairEnd : ByteState :=
  (run (byteSystem (mapped pairCreated.2) 2 pairDatum fun _ => 1) pairStart pairRun).getD pairStart

theorem ring_bytes_not_torn_pairRun :
    pairEnd.loads = [(0, 1, 9), (0, 0, 0)] ∧
      (∀ i j c, (i, j, c) ∈ pairEnd.loads → (pairDatum i)[j]? = some c) ∧ pairEnd.mem 95 = 1 := by
  have hcreate : hashpipeDatabufCreate pairArgs (fun _ => 0) noHugePages noKey =
      (.returned .mb2, pairCreated.2) := Prod.ext (by decide) rfl
  have hinit : Reachable (byteSystem (mapped pairCreated.2) 2 pairDatum fun _ => 1) pairStart :=
    .init ⟨rfl, rfl, rfl, rfl, rfl, rfl, rfl, rfl, rfl⟩
  have hbytes := ring_bytes_not_torn hcreate (by decide) (by decide) (hinit.run_getD pairRun)
  exact ⟨by decide, hbytes.1, hbytes.2.2 95 (.inl (by decide))⟩

end Hashpipe.Databuf
