import Hashpipe.Ibverbs.Verbs
import Hashpipe.Library.LinkedChain
import Hashpipe.Library.QueueFamily
import Hashpipe.Library.StepSystem

/-!
# Send packets

`hashpipe_ibv_get_pkts` and `hashpipe_ibv_send_pkts`.  A packet is named by its index in
`send_pkt_buf`; its one `next` pointer is in turn a link of the free list, of a list the
caller holds, and of the chain that `ibv_post_send` walks.  `get_pkts` is taken step by
step, since the NIC completes packets while it polls, and a verbs call may fail.

`SendInv` says which packets are where: the free list, the caller's lists, the send
queues and the completion queues together hold every packet once.
-/

namespace Hashpipe.Ibverbs

open LinkedChain QueueFamily StepSystem

/-- The context's fields, as they are once `hashpipe_ibv_init` has replaced zeros. -/
structure SendConfig where
  nqp : ℕ
  send_pkt_num : ℕ

/-- `send_pkt_num*nqp`, a product of two `uint32_t`. -/
def SendConfig.total (c : SendConfig) : ℕ := (c.send_pkt_num * c.nqp) % 2 ^ 32

inductive SendPc
  | idle
  /-- In the loop over the queue pairs' states, at `i`. -/
  | preparing (num_pkts i : ℕ)
  /-- In the loop over the completion queues, at `i`. -/
  | draining (num_pkts i : ℕ)
  deriving DecidableEq

structure SendState where
  wr_id : ℕ → ℕ
  next : ℕ → Option ℕ
  send_pkt_head : Option ℕ
  qp : ℕ → QpState
  /-- The work requests (their `wr_id`) on each send queue, not yet completed. -/
  posted : ℕ → List ℕ
  /-- The completions in each send CQ, not yet polled. -/
  send_cq : ℕ → List ℕ
  pc : SendPc
  /-- The lists that `get_pkts` has returned and `send_pkts` not been given. -/
  held : List ℕ
  /-- The return value of the last `get_pkts`. -/
  result : Option ℕ

inductive SendAction
  | getPkts (num_pkts : ℕ)
  | prepare (modify : QpState → Bool)
  | poll (fails : Bool)
  | pop
  | sendPkts (send_pkt : Option ℕ) (qp_idx : ℕ)
  /-- The NIC completes a posted work request. -/
  | complete (q wr_id : ℕ)

/-- The part of `hashpipe_ibv_init` that sets up the send packets.  `int i` cannot count
to 2^31, and the loop bound `send_pkt_num*nqp-1` wraps around at 0: no defined result. -/
def hashpipeIbvInitSend (c : SendConfig) : Option SendState :=
  if c.total = 0 ∨ 2 ^ 31 ≤ c.total ∨ 2 ^ 31 ≤ c.nqp then none
  else some
    { wr_id := fun i => i
      next := fun i => if i < c.total - 1 then some (i + 1) else none
      send_pkt_head := some 0
      qp := fun _ => .INIT
      posted := fun _ => []
      send_cq := fun _ => []
      pc := .idle
      held := []
      result := none }

/-- The loop over one batch of completions: push each packet onto `send_pkt_head`. -/
def pushCompletions (next : ℕ → Option ℕ) (head : Option ℕ) (wc : List ℕ) :
    (ℕ → Option ℕ) × Option ℕ :=
  wc.foldl (fun s w => (Function.update s.1 w s.2, some w)) (next, head)

/-- The links, `send_pkt_head` and the return value after `pop_send_packets`. -/
def popSendPackets (next : ℕ → Option ℕ) (send_pkt_head : Option ℕ) (num_to_pop : ℕ) :
    (ℕ → Option ℕ) × Option ℕ × Option ℕ :=
  match send_pkt_head with
  | none => (next, none, none)
  | some head =>
    if num_to_pop = 0 then (next, some head, none)
    else
      let tail := advance next (num_to_pop - 1) head
      (Function.update next tail none, next tail, some head)

def sendNext (c : SendConfig) (s : SendState) : SendAction → Option SendState
  | .getPkts num_pkts =>
    if s.pc = .idle then
      if c.send_pkt_num < num_pkts then
        some { s with pc := .preparing c.send_pkt_num 0 }
      else if num_pkts = 0 then some { s with result := none }
      else some { s with pc := .preparing num_pkts 0 }
    else none
  | .prepare modify =>
    match s.pc with
    | .preparing num_pkts i =>
      if i < c.nqp then
        let r := sendReady modify (s.qp i)
        if r.2 then
          some { s with qp := Function.update s.qp i r.1, pc := .preparing num_pkts (i + 1) }
        else some { s with qp := Function.update s.qp i r.1, pc := .idle, result := none }
      else some { s with pc := .draining num_pkts 0 }
    | _ => none
  | .poll fails =>
    match s.pc with
    | .draining num_pkts i =>
      if i < c.nqp then
        if fails then some { s with pc := .idle, result := none }
        else
          let wc := ibvPollCq (s.send_cq i)
          let r := pushCompletions s.next s.send_pkt_head wc.1
          some { s with send_cq := Function.update s.send_cq i wc.2, next := r.1,
                        send_pkt_head := r.2,
                        pc := .draining num_pkts (if wc.1 = [] then i + 1 else i) }
      else none
    | _ => none
  | .pop =>
    match s.pc with
    | .draining num_pkts i =>
      if i < c.nqp then none
      else
        let r := popSendPackets s.next s.send_pkt_head num_pkts
        some { s with next := r.1, send_pkt_head := r.2.1, pc := .idle, result := r.2.2,
                      held := r.2.2.toList ++ s.held }
    | _ => none
  | .sendPkts send_pkt qp_idx =>
    if s.pc = .idle then
      match send_pkt with
      | none => some s
      | some head =>
        if c.nqp ≤ qp_idx then some s
        else if head ∈ s.held then
          let wrs := (walk s.next c.total (some head)).map s.wr_id
          some { s with posted := Function.update s.posted qp_idx (s.posted qp_idx ++ wrs),
                        held := s.held.erase head }
        else none
    else none
  | .complete q w =>
    if q < c.nqp ∧ w ∈ s.posted q then
      some { s with posted := Function.update s.posted q ((s.posted q).erase w),
                    send_cq := Function.update s.send_cq q (s.send_cq q ++ [w]) }
    else none

def sendSystem (c : SendConfig) : System SendState SendAction where
  init s := hashpipeIbvInitSend c = some s
  next := sendNext c

/-- The state after a poll of send CQ `i`: what it reported is on the free list. -/
def SendState.polled (s : SendState) (num_pkts i : ℕ) : SendState :=
  let wc := ibvPollCq (s.send_cq i)
  let r := pushCompletions s.next s.send_pkt_head wc.1
  { s with send_cq := Function.update s.send_cq i wc.2
           next := r.1
           send_pkt_head := r.2
           pc := .draining num_pkts (if wc.1 = [] then i + 1 else i) }

/-- All that one step can do. -/
inductive SendMove (c : SendConfig) (s : SendState) : SendAction → SendState → Prop
  | called {num_pkts : ℕ} : s.pc = .idle → 0 < num_pkts →
      SendMove c s (.getPkts num_pkts) { s with pc := .preparing (min num_pkts c.send_pkt_num) 0 }
  | calledNone : s.pc = .idle → SendMove c s (.getPkts 0) { s with result := none }
  | prepared {modify : QpState → Bool} {num_pkts i : ℕ} : s.pc = .preparing num_pkts i →
      i < c.nqp → (sendReady modify (s.qp i)).2 = true →
        SendMove c s (.prepare modify)
          { s with qp := Function.update s.qp i (sendReady modify (s.qp i)).1,
                   pc := .preparing num_pkts (i + 1) }
  | prepareFails {modify : QpState → Bool} {num_pkts i : ℕ} : s.pc = .preparing num_pkts i →
      (sendReady modify (s.qp i)).2 = false →
        SendMove c s (.prepare modify)
          { s with qp := Function.update s.qp i (sendReady modify (s.qp i)).1, pc := .idle,
                   result := none }
  | drains {modify : QpState → Bool} {num_pkts i : ℕ} : s.pc = .preparing num_pkts i →
      SendMove c s (.prepare modify) { s with pc := .draining num_pkts 0 }
  | pollFails {num_pkts i : ℕ} : s.pc = .draining num_pkts i →
      SendMove c s (.poll true) { s with pc := .idle, result := none }
  | polled {num_pkts i : ℕ} : s.pc = .draining num_pkts i → i < c.nqp →
      SendMove c s (.poll false) (s.polled num_pkts i)
  | popped {num_pkts i : ℕ} : s.pc = .draining num_pkts i → c.nqp ≤ i →
      SendMove c s .pop
        { s with next := (popSendPackets s.next s.send_pkt_head num_pkts).1,
                 send_pkt_head := (popSendPackets s.next s.send_pkt_head num_pkts).2.1,
                 pc := .idle,
                 result := (popSendPackets s.next s.send_pkt_head num_pkts).2.2,
                 held := (popSendPackets s.next s.send_pkt_head num_pkts).2.2.toList ++ s.held }
  | sentNone {send_pkt : Option ℕ} {qp_idx : ℕ} : s.pc = .idle →
      SendMove c s (.sendPkts send_pkt qp_idx) s
  | sent {head qp_idx : ℕ} : s.pc = .idle → qp_idx < c.nqp → head ∈ s.held →
      SendMove c s (.sendPkts (some head) qp_idx)
        { s with posted := Function.update s.posted qp_idx
                   (s.posted qp_idx ++ (walk s.next c.total (some head)).map s.wr_id),
                 held := s.held.erase head }
  | completed {q w : ℕ} : q < c.nqp → w ∈ s.posted q →
      SendMove c s (.complete q w)
        { s with posted := Function.update s.posted q ((s.posted q).erase w),
                 send_cq := Function.update s.send_cq q (s.send_cq q ++ [w]) }

theorem sendNext_move {c : SendConfig} {s t : SendState} {a : SendAction}
    (h : sendNext c s a = some t) : SendMove c s a t := by
  cases a with
  | getPkts num_pkts =>
    simp only [sendNext, Option.ite_none_right_eq_some] at h
    obtain ⟨hidle, h⟩ := h
    split at h
    · rename_i hmore
      obtain rfl := Option.some.inj h
      have hmove := SendMove.called (c := c) hidle (Nat.zero_lt_of_lt hmore)
      rwa [Nat.min_eq_right hmore.le] at hmove
    · rename_i hmore
      split at h
      · rename_i hzero
        subst hzero
        obtain rfl := Option.some.inj h
        exact .calledNone hidle
      · rename_i hpos
        obtain rfl := Option.some.inj h
        have hmove := SendMove.called (c := c) hidle (Nat.pos_of_ne_zero hpos)
        rwa [Nat.min_eq_left (Nat.le_of_not_lt hmore)] at hmove
  | prepare modify =>
    simp only [sendNext] at h
    split at h
    · rename_i num_pkts i hpc
      split at h
      · rename_i hq
        split at h <;> obtain rfl := Option.some.inj h
        · exact .prepared hpc hq ‹_›
        · exact .prepareFails hpc (Bool.eq_false_iff.mpr ‹_›)
      · obtain rfl := Option.some.inj h
        exact .drains hpc
    · cases h
  | poll fails =>
    simp only [sendNext] at h
    split at h
    · rename_i num_pkts i hpc
      simp only [Option.ite_none_right_eq_some] at h
      obtain ⟨hq, h⟩ := h
      cases fails with
      | true =>
        obtain rfl := Option.some.inj h
        exact .pollFails hpc
      | false =>
        obtain rfl := Option.some.inj h
        exact .polled hpc hq
    · cases h
  | pop =>
    simp only [sendNext] at h
    split at h
    · rename_i num_pkts i hpc
      simp only [Option.ite_none_left_eq_some] at h
      obtain ⟨hq, h⟩ := h
      obtain rfl := Option.some.inj h
      exact .popped hpc (Nat.le_of_not_lt hq)
    · cases h
  | sendPkts send_pkt qp_idx =>
    simp only [sendNext, Option.ite_none_right_eq_some] at h
    obtain ⟨hidle, h⟩ := h
    cases send_pkt with
    | none =>
      obtain rfl := Option.some.inj h
      exact .sentNone hidle
    | some head =>
      dsimp only at h
      split at h
      · obtain rfl := Option.some.inj h
        exact .sentNone hidle
      · rename_i hq
        simp only [Option.ite_none_right_eq_some] at h
        obtain ⟨hh, h⟩ := h
        obtain rfl := Option.some.inj h
        exact .sent hidle (Nat.lt_of_not_le hq) hh
  | complete q w =>
    simp only [sendNext, Option.ite_none_right_eq_some] at h
    obtain ⟨⟨hq, hw⟩, h⟩ := h
    obtain rfl := Option.some.inj h
    exact .completed hq hw

/-- The packets on the free list, and those on the list that starts at `head`. -/
def SendState.freeList (c : SendConfig) (s : SendState) : List ℕ :=
  walk s.next c.total s.send_pkt_head

def SendState.listFrom (c : SendConfig) (s : SendState) (head : ℕ) : List ℕ :=
  walk s.next c.total (some head)

/-- Every packet, once for each place it is in. -/
def SendState.places (c : SendConfig) (s : SendState) : Multiset ℕ :=
  (s.freeList c : Multiset ℕ) + (s.held.flatMap (s.listFrom c) : List ℕ) +
    contents c.nqp s.posted + contents c.nqp s.send_cq

/-- `free` is the free list and `lists h` the caller's list that starts at `h`; with the
send queues and their completion queues these hold every packet once. -/
structure SendInv (c : SendConfig) (s : SendState) (free : List ℕ) (lists : ℕ → List ℕ) :
    Prop where
  wr_id : ∀ i < c.total, s.wr_id i = i
  freeChain : Chain s.next s.send_pkt_head free
  heldChain : Chains s.next s.held lists
  places : (free : Multiset ℕ) + (s.held.flatMap lists : List ℕ) + contents c.nqp s.posted +
    contents c.nqp s.send_cq = Multiset.range c.total
  qpKnown : ∀ q, s.qp q ≠ .other

section Invariant

variable {c : SendConfig} {s t : SendState} {free : List ℕ} {lists : ℕ → List ℕ}

/-- `pop_send_packets` cuts the free list after `num_to_pop` packets. -/
theorem popSendPackets_spec {next : ℕ → Option ℕ} {head : Option ℕ}
    (h : Chain next head free) (num_to_pop : ℕ) :
    ∃ got rest, free = got ++ rest ∧ got.length = min num_to_pop free.length ∧
      Chain (popSendPackets next head num_to_pop).1
        (popSendPackets next head num_to_pop).2.2 got ∧
      Chain (popSendPackets next head num_to_pop).1
        (popSendPackets next head num_to_pop).2.1 rest ∧
      ∀ l : List ℕ, (∀ a ∈ l, a ∉ free) → ∀ p,
        (Chain (popSendPackets next head num_to_pop).1 p l ↔ Chain next p l) := by
  cases free with
  | nil =>
    obtain rfl : head = none := h
    exact ⟨[], [], rfl, by simp, rfl, rfl, fun _ _ _ => Iff.rfl⟩
  | cons a free =>
    obtain rfl : head = some a := h.1
    by_cases hzero : num_to_pop = 0
    · subst hzero
      exact ⟨[], a :: free, rfl, by simp, rfl, h, fun _ _ _ => Iff.rfl⟩
    · obtain ⟨l₁, l₂, hsplit, hlen⟩ := Chain.advance_eq h (num_to_pop - 1)
      simp only [popSendPackets, if_neg hzero]
      generalize htail : advance next (num_to_pop - 1) a = tail at hsplit ⊢
      rw [hsplit] at h
      obtain ⟨hgot, hrest⟩ := h.cut
      refine ⟨l₁ ++ [tail], l₂, by simp [hsplit], ?_, hgot, hrest, ?_⟩
      · simp only [List.length_append, List.length_cons, List.length_nil, hlen]
        omega
      · intro l hl p
        apply chain_update
        intro hmem
        exact hl tail hmem (by simp [hsplit])

/-- Where a packet is, it is nowhere else. -/
theorem SendInv.nodup (hi : SendInv c s free lists) :
    ((free : Multiset ℕ) + (s.held.flatMap lists : List ℕ) + contents c.nqp s.posted +
      contents c.nqp s.send_cq).Nodup := by
  rw [hi.places]
  exact Multiset.nodup_range _

theorem SendInv.free_not_held (hi : SendInv c s free lists) {a h : ℕ} (hh : h ∈ s.held)
    (ha : a ∈ lists h) : a ∉ free := by
  intro hfree
  have hn := (Multiset.nodup_add.mp (Multiset.nodup_add.mp (Multiset.nodup_add.mp
    hi.nodup).1).1).2.2
  exact Multiset.disjoint_left.mp hn hfree (List.mem_flatMap.mpr ⟨h, hh, ha⟩)

theorem SendInv.cq_not_linked (hi : SendInv c s free lists) {q w : ℕ} (hq : q < c.nqp)
    (hw : w ∈ s.send_cq q) : w ∉ free ∧ ∀ h ∈ s.held, w ∉ lists h := by
  have hn := (Multiset.nodup_add.mp hi.nodup).2.2
  have hcq : w ∈ contents c.nqp s.send_cq := mem_contents.mpr ⟨q, hq, hw⟩
  have hout := Multiset.disjoint_right.mp hn hcq
  simp only [Multiset.mem_add, not_or, Multiset.mem_coe, List.mem_flatMap, not_exists,
    not_and] at hout
  exact ⟨hout.1.1, hout.1.2⟩

theorem SendInv.cq_nodup (hi : SendInv c s free lists) {q : ℕ} (hq : q < c.nqp) :
    (s.send_cq q).Nodup := by
  have hn := (Multiset.nodup_add.mp hi.nodup).2.1
  have hle : ((s.send_cq q : List ℕ) : Multiset ℕ) ≤ contents c.nqp s.send_cq :=
    Finset.single_le_sum (f := fun q => ((s.send_cq q : List ℕ) : Multiset ℕ))
      (fun _ _ => Multiset.zero_le _) (Finset.mem_range.mpr hq)
  exact Multiset.coe_nodup.mp (Multiset.nodup_of_le hle hn)

theorem SendInv.mem_lt (hi : SendInv c s free lists) {a : ℕ}
    (ha : a ∈ (free : Multiset ℕ) + (s.held.flatMap lists : List ℕ) +
      contents c.nqp s.posted + contents c.nqp s.send_cq) : a < c.total := by
  rw [hi.places] at ha
  exact Multiset.mem_range.mp ha

/-- Each of the lists is short enough for a walk to find all of it. -/
theorem SendInv.length_le (hi : SendInv c s free lists) :
    free.length ≤ c.total ∧ ∀ h ∈ s.held, (lists h).length ≤ c.total := by
  have hcard := congrArg Multiset.card hi.places
  simp only [Multiset.card_add, Multiset.coe_card, Multiset.card_range] at hcard
  refine ⟨by omega, fun h hh => ?_⟩
  have hsplit := congrArg Multiset.card (flatMap_erase hh lists)
  simp only [Multiset.card_add, Multiset.coe_card] at hsplit
  omega

/-- Where the wr_ids of one of the caller's lists come from. -/
theorem SendInv.map_wr_id (hi : SendInv c s free lists) {h : ℕ} (hh : h ∈ s.held) :
    (lists h).map s.wr_id = lists h := by
  have hid : ∀ a ∈ lists h, s.wr_id a = id a := by
    intro a ha
    apply hi.wr_id
    apply hi.mem_lt
    simp only [Multiset.mem_add, Multiset.mem_coe, List.mem_flatMap]
    exact .inl (.inl (.inr ⟨h, hh, ha⟩))
  rw [List.map_congr_left hid, List.map_id]

/-! ### Initially all packets are free -/

theorem sendInv_init (h : hashpipeIbvInitSend c = some s) :
    SendInv c s (List.range c.total) (fun _ => []) := by
  unfold hashpipeIbvInitSend at h
  split at h
  · cases h
  · rename_i hdef
    obtain rfl := Option.some.inj h
    refine ⟨fun _ _ => rfl, ?_, by simp [Chains], ?_, by simp⟩
    · have htotal : c.total - 1 + 1 = c.total := by omega
      rw [List.range_eq_range', ← htotal]
      apply Chain.range' (m := c.total)
      · exact if_neg (by omega)
      · omega
      · intro i _ hlt
        exact if_pos hlt
    · simp [contents_empty, Multiset.range]

/-! ### Each step keeps every packet in one place -/

theorem SendInv.poll (hi : SendInv c s free lists) {i : ℕ} (hq : i < c.nqp) (num_pkts : ℕ) :
    SendInv c (s.polled num_pkts i) ((ibvPollCq (s.send_cq i)).1.reverse ++ free) lists := by
  have hwc := ibvPollCq_append (s.send_cq i)
  simp only [SendState.polled]
  generalize (ibvPollCq (s.send_cq i)).1 = wc at hwc ⊢
  generalize (ibvPollCq (s.send_cq i)).2 = rest at hwc ⊢
  have hmem : ∀ w ∈ wc, w ∈ s.send_cq i := by
    intro w hw
    rw [← hwc]
    exact List.mem_append_left rest hw
  have hnodup : wc.Nodup := by
    have hcq := hi.cq_nodup hq
    rw [← hwc] at hcq
    exact (List.nodup_append.mp hcq).1
  obtain ⟨hchain, hframe⟩ := hi.freeChain.pushAll hnodup
    fun w hw => (hi.cq_not_linked hq (hmem w hw)).1
  refine ⟨hi.wr_id, hchain, ?_, ?_, hi.qpKnown⟩
  · refine hi.heldChain.congr fun h hh a ha => hframe a fun hw => ?_
    exact (hi.cq_not_linked hq (hmem a hw)).2 h hh ha
  · have htake : contents c.nqp (Function.update s.send_cq i rest) + (wc : Multiset ℕ) =
        contents c.nqp s.send_cq := by
      apply contents_take hq
      rw [← hwc, Multiset.coe_add]
    rw [← hi.places, ← htake, ← Multiset.coe_add, Multiset.coe_reverse]
    abel

theorem SendInv.sendPkts (hi : SendInv c s free lists) {h q : ℕ} (hh : h ∈ s.held)
    (hq : q < c.nqp) :
    SendInv c
      { s with posted := Function.update s.posted q
                 (s.posted q ++ (walk s.next c.total (some h)).map s.wr_id),
               held := s.held.erase h }
      free lists := by
  have hwalk : (walk s.next c.total (some h)).map s.wr_id = lists h := by
    rw [(hi.heldChain h hh).walk_eq (hi.length_le.2 h hh), hi.map_wr_id hh]
  refine ⟨hi.wr_id, hi.freeChain, hi.heldChain.erase h, ?_, hi.qpKnown⟩
  · have hput : contents c.nqp (Function.update s.posted q (s.posted q ++ lists h)) =
        contents c.nqp s.posted + (lists h : Multiset ℕ) := by
      apply contents_put hq
      rw [Multiset.coe_add]
    rw [hwalk, ← hi.places, hput, flatMap_erase hh]
    abel

theorem SendInv.complete (hi : SendInv c s free lists) {q w : ℕ} (hq : q < c.nqp)
    (hw : w ∈ s.posted q) :
    SendInv c
      { s with posted := Function.update s.posted q ((s.posted q).erase w),
               send_cq := Function.update s.send_cq q (s.send_cq q ++ [w]) }
      free lists := by
  refine ⟨hi.wr_id, hi.freeChain, hi.heldChain, ?_, hi.qpKnown⟩
  have htake : contents c.nqp (Function.update s.posted q ((s.posted q).erase w)) +
      (([w] : List ℕ) : Multiset ℕ) = contents c.nqp s.posted := by
    apply contents_take hq
    rw [Multiset.coe_add, Multiset.coe_eq_coe]
    exact List.perm_cons_erase hw
  have hput : contents c.nqp (Function.update s.send_cq q (s.send_cq q ++ [w])) =
      contents c.nqp s.send_cq + (([w] : List ℕ) : Multiset ℕ) := by
    apply contents_put hq
    rw [Multiset.coe_add]
  rw [← hi.places, hput, ← htake]
  abel

/-- What `get_pkts` returns when its verbs calls succeed: the first packets of the free
list, which the caller now holds. -/
theorem SendInv.pop (hi : SendInv c s free lists) (num_pkts : ℕ) :
    ∃ got rest lists',
      SendInv c
        { s with next := (popSendPackets s.next s.send_pkt_head num_pkts).1,
                 send_pkt_head := (popSendPackets s.next s.send_pkt_head num_pkts).2.1,
                 pc := .idle,
                 result := (popSendPackets s.next s.send_pkt_head num_pkts).2.2,
                 held := (popSendPackets s.next s.send_pkt_head num_pkts).2.2.toList ++ s.held }
        rest lists' ∧
      free = got ++ rest ∧ got.length = min num_pkts free.length ∧
      Chain (popSendPackets s.next s.send_pkt_head num_pkts).1
        (popSendPackets s.next s.send_pkt_head num_pkts).2.2 got := by
  obtain ⟨got, rest, hsplit, hlen, hgot, hrest, hframe⟩ :=
    popSendPackets_spec hi.freeChain num_pkts
  generalize popSendPackets s.next s.send_pkt_head num_pkts = r at hgot hrest hframe ⊢
  have hheld : Chains r.1 s.held lists := by
    intro h hh
    refine (hframe _ ?_ _).mpr (hi.heldChain h hh)
    intro a ha
    exact hi.free_not_held hh ha
  have hapart : ∀ h ∈ s.held, ∀ a ∈ lists h, a ∉ got := by
    intro h hh a ha hmem
    exact hi.free_not_held hh ha (by simp [hsplit, hmem])
  obtain ⟨lists', hchains, hflat, -, -⟩ := hheld.add hgot hapart
  refine ⟨got, rest, lists', ⟨hi.wr_id, hrest, hchains, ?_, hi.qpKnown⟩, hsplit, hlen, hgot⟩
  rw [← hi.places, hflat, hsplit, ← Multiset.coe_add, ← Multiset.coe_add]
  abel

/-- The steps of `get_pkts` between the calls move no packet. -/
theorem SendInv.control (hi : SendInv c s free lists) (pc : SendPc) (result : Option ℕ) :
    SendInv c { s with pc := pc, result := result } free lists :=
  ⟨hi.wr_id, hi.freeChain, hi.heldChain, hi.places, hi.qpKnown⟩

/-- A queue pair climbs towards RTS. -/
theorem SendInv.prepare (hi : SendInv c s free lists) (modify : QpState → Bool) (i : ℕ) :
    SendInv c { s with qp := Function.update s.qp i (sendReady modify (s.qp i)).1 }
      free lists := by
  refine ⟨hi.wr_id, hi.freeChain, hi.heldChain, hi.places, fun q => ?_⟩
  by_cases hq : q = i
  · subst hq
    dsimp only
    rw [Function.update_self]
    exact sendReady_ne_other modify (hi.qpKnown q)
  · dsimp only
    rw [Function.update_of_ne hq]
    exact hi.qpKnown q

/-- **One step keeps every packet in exactly one place.** -/
theorem SendInv.next (hi : SendInv c s free lists) {a : SendAction}
    (h : sendNext c s a = some t) : ∃ free' lists', SendInv c t free' lists' := by
  cases sendNext_move h with
  | called => exact ⟨_, _, hi.control _ s.result⟩
  | calledNone => exact ⟨_, _, hi.control s.pc none⟩
  | @prepared modify num_pkts i => exact ⟨_, _, (hi.prepare modify i).control _ s.result⟩
  | @prepareFails modify num_pkts i => exact ⟨_, _, (hi.prepare modify i).control _ none⟩
  | drains => exact ⟨_, _, hi.control _ s.result⟩
  | pollFails => exact ⟨_, _, hi.control _ none⟩
  | polled _ hq => exact ⟨_, _, hi.poll hq _⟩
  | @popped num_pkts =>
    obtain ⟨_, rest, lists', hinv, -⟩ := hi.pop num_pkts
    exact ⟨rest, lists', hinv⟩
  | sentNone => exact ⟨_, _, hi⟩
  | sent _ hq hh => exact ⟨_, _, hi.sendPkts hh hq⟩
  | completed hq hw => exact ⟨_, _, hi.complete hq hw⟩

theorem sendInv_of_reachable (h : Reachable (sendSystem c) s) :
    ∃ free lists, SendInv c s free lists := by
  refine h.invariant (I := fun s => ∃ free lists, SendInv c s free lists) ?_ ?_
  · intro s hs
    exact ⟨_, _, sendInv_init hs⟩
  · intro s a t ⟨free, lists, hi⟩ hs
    exact hi.next hs

/-! ### What the caller can rely on -/

theorem SendInv.freeList_eq (hi : SendInv c s free lists) : s.freeList c = free :=
  hi.freeChain.walk_eq hi.length_le.1

theorem SendInv.listFrom_eq (hi : SendInv c s free lists) {h : ℕ} (hh : h ∈ s.held) :
    s.listFrom c h = lists h :=
  (hi.heldChain h hh).walk_eq (hi.length_le.2 h hh)

theorem SendInv.places_eq (hi : SendInv c s free lists) :
    s.places c = Multiset.range c.total := by
  have hlists : s.held.flatMap (s.listFrom c) = s.held.flatMap lists := by
    apply List.flatMap_congr
    intro h hh
    exact hi.listFrom_eq hh
  rw [SendState.places, hi.freeList_eq, hlists]
  exact hi.places

theorem SendInv.held_not_queued (hi : SendInv c s free lists) {h a q : ℕ} (hh : h ∈ s.held)
    (ha : a ∈ lists h) (hq : q < c.nqp) : a ∉ s.posted q ∧ a ∉ s.send_cq q := by
  have hlinked : a ∈ (free : Multiset ℕ) + (s.held.flatMap lists : List ℕ) :=
    Multiset.mem_add.mpr (.inr (List.mem_flatMap.mpr ⟨h, hh, ha⟩))
  obtain ⟨hleft, -, hcq⟩ := Multiset.nodup_add.mp hi.nodup
  obtain ⟨-, -, hposted⟩ := Multiset.nodup_add.mp hleft
  constructor
  · intro hmem
    exact Multiset.disjoint_left.mp hposted hlinked (mem_contents.mpr ⟨q, hq, hmem⟩)
  · intro hmem
    exact Multiset.disjoint_left.mp hcq (Multiset.mem_add.mpr (.inl hlinked))
      (mem_contents.mpr ⟨q, hq, hmem⟩)

/-! ### One call of `get_pkts` -/

/-- The verbs calls of a step succeed. -/
def sendVerbsSucceed : SendAction → Prop
  | .prepare modify => ∀ target, modify target = true
  | .poll fails => fails = false
  | _ => True

/-- `get_pkts(num_pkts)`, called in `s`, has come to `u` by the steps `as`, its own and those
of the NIC, and has not returned. -/
structure InCall (c : SendConfig) (s : SendState) (num_pkts : ℕ) (as : List SendAction)
    (u : SendState) : Prop where
  steps : run (sendSystem c) s (.getPkts num_pkts :: as) = some u
  once : ∀ n, .getPkts n ∉ as
  running : u.pc ≠ .idle

/-- Among the steps `as` of that call is a poll that found send CQ `q` empty. -/
def FoundEmpty (c : SendConfig) (s : SendState) (num_pkts : ℕ) (as : List SendAction) (q : ℕ) :
    Prop :=
  ∃ before after u n, as = before ++ .poll false :: after ∧ InCall c s num_pkts before u ∧
    u.pc = .draining n q ∧ u.send_cq q = []

theorem FoundEmpty.concat {num_pkts q : ℕ} {as : List SendAction}
    (h : FoundEmpty c s num_pkts as q) (a : SendAction) :
    FoundEmpty c s num_pkts (as ++ [a]) q := by
  obtain ⟨before, after, u, n, rfl, hcall, hpc, hcq⟩ := h
  exact ⟨before, after ++ [a], u, n, by simp, hcall, hpc, hcq⟩

/-- Only a call of `get_pkts` leaves the idle state. -/
theorem sendNext_idle {a : SendAction} (hpc : s.pc = .idle) (ha : ∀ n, a ≠ .getPkts n)
    (h : sendNext c s a = some t) : t.pc = .idle := by
  cases sendNext_move h with
  | called => exact absurd rfl (ha _)
  | calledNone => exact absurd rfl (ha _)
  | prepared hrun | prepareFails hrun | drains hrun | pollFails hrun | polled hrun | popped hrun =>
    exact absurd (hpc.symm.trans hrun) nofun
  | sentNone | sent | completed => exact hpc

/-- A call for packets begins. -/
theorem inCall_start (hidle : s.pc = .idle) {num_pkts : ℕ} (hpos : 0 < num_pkts) :
    ∃ u, InCall c s num_pkts [] u := by
  have hsteps : ∀ n i, sendNext c s (.getPkts num_pkts) = some { s with pc := .preparing n i } →
      ∃ u, InCall c s num_pkts [] u := by
    intro n i hnext
    refine ⟨{ s with pc := .preparing n i }, ?_, fun _ hmem => absurd hmem List.not_mem_nil,
      fun h => by cases h⟩
    show (sendNext c s (.getPkts num_pkts)).bind _ = _
    rw [hnext]
    rfl
  by_cases hmore : c.send_pkt_num < num_pkts
  · refine hsteps c.send_pkt_num 0 ?_
    simp [sendNext, hidle, hmore]
  · refine hsteps num_pkts 0 ?_
    simp [sendNext, hidle, hmore, hpos.ne']

theorem InCall.concat {num_pkts : ℕ} {as : List SendAction} {a : SendAction}
    (h : InCall c s num_pkts (as ++ [a]) t) :
    ∃ u, InCall c s num_pkts as u ∧ sendNext c u a = some t := by
  have hsteps : run (sendSystem c) s ((.getPkts num_pkts :: as) ++ [a]) = some t := h.steps
  obtain ⟨u, hu, hstep⟩ := run_concat hsteps
  have hstep : sendNext c u a = some t := hstep
  have hold : ∀ n, .getPkts n ∉ as := fun n hmem => h.once n (List.mem_append_left _ hmem)
  have hnew : ∀ n, a ≠ .getPkts n := by
    rintro n rfl
    exact h.once n (List.mem_append_right _ List.mem_cons_self)
  exact ⟨u, ⟨hu, hold, fun hidle => h.running (sendNext_idle hidle hnew hstep)⟩, hstep⟩

/-- The program counter of a call keeps the clamped argument, and behind it lie the send CQs
that the call has found empty. -/
theorem InCall.progress {num_pkts : ℕ} {as : List SendAction} :
    ∀ {u : SendState}, InCall c s num_pkts as u →
      (∃ i, u.pc = .preparing (min num_pkts c.send_pkt_num) i) ∨
      ∃ i, u.pc = .draining (min num_pkts c.send_pkt_num) i ∧
        ∀ q < i, FoundEmpty c s num_pkts as q := by
  induction as using List.reverseRecOn with
  | nil =>
    intro u h
    obtain ⟨v, hv, hnil⟩ := Option.bind_eq_some_iff.mp h.steps
    cases hnil
    have hv : sendNext c s (.getPkts num_pkts) = some u := hv
    cases sendNext_move hv with
    | called => exact .inl ⟨0, rfl⟩
    | calledNone hidle => exact absurd hidle h.running
  | append_singleton as a ih =>
    intro t h
    obtain ⟨u, hcall, hstep⟩ := h.concat
    have hkeep : ∀ i, (∀ q < i, FoundEmpty c s num_pkts as q) →
        ∀ q < i, FoundEmpty c s num_pkts (as ++ [a]) q := fun i hi q hq => (hi q hq).concat a
    rcases ih hcall with ⟨i, hpc⟩ | ⟨i, hpc, hempty⟩
    · cases sendNext_move hstep with
      | prepared hrun =>
        obtain ⟨rfl, rfl⟩ := SendPc.preparing.inj (hpc.symm.trans hrun)
        exact .inl ⟨_, rfl⟩
      | drains hrun =>
        obtain ⟨rfl, rfl⟩ := SendPc.preparing.inj (hpc.symm.trans hrun)
        exact .inr ⟨0, rfl, fun q hq => absurd hq (Nat.not_lt_zero q)⟩
      | completed => exact .inl ⟨i, hpc⟩
      | prepareFails | pollFails | popped => exact absurd rfl h.running
      | called hrun | calledNone hrun | sentNone hrun | sent hrun =>
        exact absurd hrun hcall.running
      | polled hrun => cases hpc.symm.trans hrun
    · cases sendNext_move hstep with
      | polled hrun =>
        obtain ⟨rfl, rfl⟩ := SendPc.draining.inj (hpc.symm.trans hrun)
        refine .inr ⟨_, rfl, fun q hq => ?_⟩
        split at hq
        · rename_i hnil
          rcases Nat.lt_succ_iff_lt_or_eq.mp hq with hlt | rfl
          · exact hkeep i hempty q hlt
          · -- the poll that moves on from CQ `i` found it empty
            exact ⟨as, [], u, _, rfl, hcall, hpc, ibvPollCq_eq_nil hnil⟩
        · exact hkeep i hempty q hq
      | completed => exact .inr ⟨i, hpc, hkeep i hempty⟩
      | prepareFails | pollFails | popped => exact absurd rfl h.running
      | called hrun | calledNone hrun | sentNone hrun | sent hrun =>
        exact absurd hrun hcall.running
      | prepared hrun | drains hrun => cases hpc.symm.trans hrun

/-- A call that returns has popped the free list, with every send CQ found empty before, or
one of its verbs calls has failed. -/
theorem SendInv.returns {u : SendState} (hi : SendInv c u free lists) {num_pkts : ℕ}
    {as : List SendAction} {b : SendAction} (hcall : InCall c s num_pkts as u)
    (h : sendNext c u b = some t) (hidle : t.pc = .idle) :
    (b = .pop ∧ (∀ q < c.nqp, FoundEmpty c s num_pkts as q) ∧
      ∃ got, Chain t.next t.result got ∧ free = got ++ t.freeList c ∧
        got.length = min num_pkts (min c.send_pkt_num free.length) ∧
        t.held = t.result.toList ++ u.held ∧
        ∀ a ∈ got, ∀ q < c.nqp, a ∉ t.posted q ∧ a ∉ t.send_cq q) ∨
    (¬ sendVerbsSucceed b ∧ t.result = none ∧ t.held = u.held) := by
  cases sendNext_move h with
  | called hrun | calledNone hrun | sentNone hrun | sent hrun => exact absurd hrun hcall.running
  | completed => exact absurd hidle hcall.running
  | prepared | drains | polled => cases hidle
  | @prepareFails modify n i _ hfails =>
    refine .inr ⟨fun hmodify => ?_, rfl, rfl⟩
    rw [sendReady_succeeds hmodify (hi.qpKnown i)] at hfails
    cases hfails
  | pollFails => exact .inr ⟨by simp [sendVerbsSucceed], rfl, rfl⟩
  | @popped n i hpc hall =>
    rcases hcall.progress with ⟨j, hpc'⟩ | ⟨j, hpc', hempty⟩
    · cases hpc.symm.trans hpc'
    · obtain ⟨rfl, rfl⟩ := SendPc.draining.inj (hpc.symm.trans hpc')
      obtain ⟨got, rest, lists', hinv, hsplit, hlen, hgot⟩ :=
        hi.pop (min num_pkts c.send_pkt_num)
      refine .inl ⟨rfl, fun q hq => hempty q (hq.trans_le hall), got, hgot, ?_, by omega, rfl, ?_⟩
      · rw [hinv.freeList_eq]
        exact hsplit
      · intro a ha q hq
        -- the list is the one that the caller now holds from its first packet
        obtain ⟨b, hb⟩ := Option.ne_none_iff_exists'.mp
          (mt List.head?_eq_none_iff.mp (List.ne_nil_of_mem ha))
        have hheld := hgot.head.trans hb
        have hmem : b ∈ (popSendPackets u.next u.send_pkt_head
            (min num_pkts c.send_pkt_num)).2.2.toList ++ u.held := by
          simp [hheld]
        have hlist := (hinv.heldChain b hmem).unique (hheld ▸ hgot)
        exact hinv.held_not_queued hmem (hlist ▸ ha) hq

/-- How many more steps a call takes at most: each poll that finds a completion puts a packet
that was in flight on the free list. -/
def SendState.stepsLeft (c : SendConfig) (s : SendState) : ℕ :=
  let inFlight := Multiset.card (contents c.nqp s.posted) + Multiset.card (contents c.nqp s.send_cq)
  match s.pc with
  | .idle => 0
  | .preparing _ i => (c.nqp - i) + 1 + (c.nqp + inFlight + 1)
  | .draining _ i => (c.nqp - i) + inFlight + 1

/-- Each step of a call brings its return closer, and the NIC does not put it off. -/
theorem stepsLeft_next {a : SendAction} (hpc : s.pc ≠ .idle) (h : sendNext c s a = some t) :
    t.stepsLeft c < s.stepsLeft c ∨
      (∃ q w, a = .complete q w) ∧ t.stepsLeft c = s.stepsLeft c := by
  cases sendNext_move h with
  | called hrun | calledNone hrun | sentNone hrun | sent hrun => exact absurd hrun hpc
  | prepared hrun hq =>
    refine .inl ?_
    simp only [SendState.stepsLeft, hrun]
    omega
  | prepareFails hrun =>
    refine .inl ?_
    simp only [SendState.stepsLeft, hrun]
    omega
  | drains hrun =>
    refine .inl ?_
    simp only [SendState.stepsLeft, hrun]
    omega
  | pollFails hrun =>
    refine .inl ?_
    simp only [SendState.stepsLeft, hrun]
    omega
  | popped hrun =>
    refine .inl ?_
    simp only [SendState.stepsLeft, hrun]
    omega
  | @polled n i hrun hq =>
    refine .inl ?_
    have htake : contents c.nqp (Function.update s.send_cq i (ibvPollCq (s.send_cq i)).2) +
        ((ibvPollCq (s.send_cq i)).1 : Multiset ℕ) = contents c.nqp s.send_cq := by
      apply contents_take hq
      rw [Multiset.coe_add, ibvPollCq_append]
    have hcard := congrArg Multiset.card htake
    rw [Multiset.card_add, Multiset.coe_card] at hcard
    simp only [SendState.stepsLeft, SendState.polled, hrun]
    split
    · rename_i hnil
      rw [hnil, List.length_nil] at hcard
      omega
    · rename_i hne
      have hpos := List.length_pos_iff.mpr hne
      omega
  | @completed q w hq hw =>
    refine .inr ⟨⟨q, w, rfl⟩, ?_⟩
    have htake : contents c.nqp (Function.update s.posted q ((s.posted q).erase w)) +
        (([w] : List ℕ) : Multiset ℕ) = contents c.nqp s.posted := by
      apply contents_take hq
      rw [Multiset.coe_add, Multiset.coe_eq_coe]
      exact List.perm_cons_erase hw
    have hput : contents c.nqp (Function.update s.send_cq q (s.send_cq q ++ [w])) =
        contents c.nqp s.send_cq + (([w] : List ℕ) : Multiset ℕ) := by
      apply contents_put hq
      rw [Multiset.coe_add]
    have hcard := congrArg Multiset.card htake
    rw [Multiset.card_add, Multiset.coe_card, List.length_singleton] at hcard
    have hcard' := congrArg Multiset.card hput
    rw [Multiset.card_add, Multiset.coe_card, List.length_singleton] at hcard'
    simp only [SendState.stepsLeft]
    split <;> omega

/-- A call in progress always has a next step, and its verbs calls may succeed. -/
theorem SendInv.advances (hi : SendInv c s free lists) (hpc : s.pc ≠ .idle) :
    ∃ a t, sendVerbsSucceed a ∧ sendNext c s a = some t ∧ t.stepsLeft c < s.stepsLeft c := by
  have hclose : ∀ {a t}, sendNext c s a = some t → (∀ q w, a ≠ .complete q w) →
      t.stepsLeft c < s.stepsLeft c := by
    intro a t h ha
    rcases stepsLeft_next hpc h with hlt | ⟨⟨q, w, hnic⟩, -⟩
    · exact hlt
    · exact absurd hnic (ha q w)
  cases hrun : s.pc with
  | idle => exact absurd hrun hpc
  | preparing n i =>
    by_cases hq : i < c.nqp
    · have hready := @sendReady_succeeds (fun _ => true) (fun _ => rfl) _ (hi.qpKnown i)
      have hnext : sendNext c s (.prepare fun _ => true) =
          some { s with qp := Function.update s.qp i .RTS, pc := .preparing n (i + 1) } := by
        simp only [sendNext, hrun, if_pos hq, hready, if_true]
      exact ⟨.prepare fun _ => true, _, fun _ => rfl, hnext, hclose hnext nofun⟩
    · have hnext : sendNext c s (.prepare fun _ => true) = some { s with pc := .draining n 0 } := by
        simp only [sendNext, hrun, if_neg hq]
      exact ⟨.prepare fun _ => true, _, fun _ => rfl, hnext, hclose hnext nofun⟩
  | draining n i =>
    by_cases hq : i < c.nqp
    · have hnext : sendNext c s (.poll false) = some (s.polled n i) := by
        simp only [sendNext, hrun, if_pos hq]
        rfl
      exact ⟨.poll false, _, rfl, hnext, hclose hnext nofun⟩
    · obtain ⟨t, hnext⟩ : ∃ t, sendNext c s .pop = some t := by
        simp only [sendNext, hrun, if_neg hq]
        exact ⟨_, rfl⟩
      exact ⟨.pop, _, trivial, hnext, hclose hnext nofun⟩

/-- **Send packets are conserved.**  In every reachable state each packet is in exactly one
place; the free list and the caller's lists are finite, end in a null pointer and visit no
packet twice.  A call of `get_pkts` takes a bounded number of steps of its own; with its verbs
calls succeeding it returns, once it has found every send CQ empty, a list of exactly
`min(num_pkts, send_pkt_num, number free)` packets off the free list, none of them in flight.
`send_pkts` posts a list of the caller on the queue pair it names. -/
theorem send_pkts_conserved (h : Reachable (sendSystem c) s) :
    s.places c = Multiset.range c.total ∧
    Chain s.next s.send_pkt_head (s.freeList c) ∧ (s.freeList c).Nodup ∧
    (∀ p ∈ s.held, Chain s.next (some p) (s.listFrom c p)) ∧
    (s.pc = .idle → ∀ num_pkts > 0, ∃ u, InCall c s num_pkts [] u) ∧
    (∀ num_pkts as u b t, InCall c s num_pkts as u → sendNext c u b = some t → t.pc = .idle →
      (b = .pop ∧ (∀ q < c.nqp, FoundEmpty c s num_pkts as q) ∧
        ∃ got, Chain t.next t.result got ∧ u.freeList c = got ++ t.freeList c ∧
          got.length = min num_pkts (min c.send_pkt_num (u.freeList c).length) ∧
          t.held = t.result.toList ++ u.held ∧
          ∀ a ∈ got, ∀ q < c.nqp, a ∉ t.posted q ∧ a ∉ t.send_cq q) ∨
      (¬ sendVerbsSucceed b ∧ t.result = none ∧ t.held = u.held)) ∧
    (s.pc ≠ .idle → (∃ a t, sendVerbsSucceed a ∧ sendNext c s a = some t ∧
        t.stepsLeft c < s.stepsLeft c) ∧
      ∀ a t, sendNext c s a = some t → t.stepsLeft c < s.stepsLeft c ∨
        (∃ q w, a = .complete q w) ∧ t.stepsLeft c = s.stepsLeft c) ∧
    (∀ t, sendNext c s (.getPkts 0) = some t → t.pc = .idle ∧ t.result = none ∧
      t.held = s.held) ∧
    (s.pc = .idle → ∀ p ∈ s.held, ∀ q < c.nqp,
      ∃ t, sendNext c s (.sendPkts (some p) q) = some t ∧
        t.posted = Function.update s.posted q (s.posted q ++ s.listFrom c p) ∧
        t.held = s.held.erase p ∧ t.next = s.next ∧ t.send_pkt_head = s.send_pkt_head) := by
  obtain ⟨free, lists, hi⟩ := sendInv_of_reachable h
  refine ⟨hi.places_eq, ?_, ?_, ?_, ?_, ?_, ?_, ?_, ?_⟩
  · rw [hi.freeList_eq]
    exact hi.freeChain
  · rw [hi.freeList_eq]
    exact hi.freeChain.nodup
  · intro p hp
    rw [hi.listFrom_eq hp]
    exact hi.heldChain p hp
  · exact fun hidle num_pkts hpos => inCall_start hidle hpos
  · intro num_pkts as u b t hcall ht hidle
    obtain ⟨free', lists', hu⟩ := sendInv_of_reachable (h.run hcall.steps)
    rw [hu.freeList_eq]
    exact hu.returns hcall ht hidle
  · intro hpc
    exact ⟨hi.advances hpc, fun a t ht => stepsLeft_next hpc ht⟩
  · intro t ht
    simp only [sendNext, Option.ite_none_right_eq_some] at ht
    obtain ⟨hidle, ht⟩ := ht
    obtain rfl := Option.some.inj ht
    exact ⟨hidle, rfl, rfl⟩
  · intro hidle p hp q hq
    have hsend : sendNext c s (.sendPkts (some p) q) =
        some { s with posted := Function.update s.posted q
                        (s.posted q ++ (s.listFrom c p).map s.wr_id),
                      held := s.held.erase p } := by
      simp only [sendNext, if_pos hidle, if_neg (Nat.not_le.mpr hq), if_pos hp]
      rfl
    refine ⟨_, hsend, ?_, rfl, rfl, rfl⟩
    dsimp only
    rw [hi.listFrom_eq hp, hi.map_wr_id hp]

end Invariant

/-- Two queue pairs with two packets each. -/
def sendPair : SendConfig := ⟨2, 2⟩

def prepareAll : List SendAction := List.replicate 3 (.prepare fun _ => true)

def sendStart : SendState := (hashpipeIbvInitSend sendPair).get (by decide)

/-- Take two packets and send them on queue pair 1; one of them completes. -/
def sendRun : List SendAction :=
  [.getPkts 3] ++ prepareAll ++ [.poll false, .poll false, .pop, .sendPkts (some 0) 1,
   .complete 1 1]

def sendOne : SendState := (run (sendSystem sendPair) sendStart sendRun).getD sendStart

/-- A call while it polls; the other packet completes in between. -/
def secondCall : List SendAction :=
  prepareAll ++ [.poll false, .poll false, .complete 1 0, .poll false, .poll false]

def sendDrained : SendState :=
  (run (sendSystem sendPair) sendOne (.getPkts 2 :: secondCall)).get (by decide)

def sendEnd : SendState := (sendNext sendPair sendDrained .pop).get (by decide)

theorem send_pkts_conserved_sendRun :
    sendDrained.freeList sendPair = [0, 1, 2, 3] ∧ sendEnd.held = [0] ∧
      sendEnd.freeList sendPair = [2, 3] ∧ Chain sendEnd.next sendEnd.result [0, 1] := by
  have hinit : Reachable (sendSystem sendPair) sendStart := .init (Option.some_get _).symm
  have hcall : InCall sendPair sendOne 2 secondCall sendDrained :=
    ⟨(Option.some_get _).symm, by simp [secondCall, prepareAll], by decide⟩
  have hpop : sendNext sendPair sendDrained .pop = some sendEnd := (Option.some_get _).symm
  have hdrained : sendDrained.freeList sendPair = [0, 1, 2, 3] := by decide
  have hrest : sendEnd.freeList sendPair = [2, 3] := by decide
  refine ⟨hdrained, by decide, hrest, ?_⟩
  rcases (send_pkts_conserved (hinit.run_getD sendRun)).2.2.2.2.2.1 2 _ _ _ _ hcall hpop
    (by decide) with ⟨-, -, got, hgot, hsplit, -⟩ | ⟨hfails, -⟩
  · rw [hdrained, hrest] at hsplit
    have hsame : [0, 1] ++ [2, 3] = got ++ [2, 3] := hsplit
    obtain rfl : [0, 1] = got := List.append_cancel_right hsame
    exact hgot
  · exact absurd trivial hfails

end Hashpipe.Ibverbs
