import Hashpipe.Ibverbs.Send

/-!
# Room on the send queues

Every queue pair is created with room for `send_pkt_num` work requests, and
`hashpipe_ibv_get_pkts` clamps one request to that number.  The packets themselves come
from one pool of `send_pkt_num*nqp`, and nothing counts what is already outstanding on the
queue pair a list is then sent on.

* `noOverCommit_next`: no queue pair is over-committed by a list that fits;
* `get_pkts_returns`: a call of `get_pkts` on quiet queue pairs returns, and what it returns;
* `send_room_iff`: without a condition on the lists, it takes a pool that fits one queue.
-/

namespace Hashpipe.Ibverbs

open LinkedChain QueueFamily StepSystem

/-- The work requests posted on queue pair `q` and not yet polled from its CQ. -/
def SendState.outstanding (s : SendState) (q : ℕ) : ℕ :=
  (s.posted q).length + (s.send_cq q).length

/-- No queue pair has more work requests outstanding than its `max_send_wr`. -/
def NoOverCommit (c : SendConfig) (s : SendState) : Prop :=
  ∀ q < c.nqp, s.outstanding q ≤ c.send_pkt_num

/-- How many work requests the action posts on queue pair `q`. -/
def SendState.posts (c : SendConfig) (s : SendState) (q : ℕ) : SendAction → ℕ
  | .sendPkts (some head) qp_idx => if qp_idx = q then (s.listFrom c head).length else 0
  | _ => 0

/-- A list given to `send_pkts` fits on its queue pair, beside what is outstanding there. -/
def fitsQp (c : SendConfig) (s : SendState) : SendAction → Prop
  | .sendPkts (some head) qp_idx =>
    qp_idx < c.nqp → s.outstanding qp_idx + (s.listFrom c head).length ≤ c.send_pkt_num
  | _ => True

instance (c : SendConfig) (s : SendState) (a : SendAction) : Decidable (fitsQp c s a) := by
  unfold fitsQp
  split <;> infer_instance

section Room

variable {c : SendConfig} {s t : SendState} {free : List ℕ} {lists : ℕ → List ℕ}

/-! ### What one step adds -/

theorem outstanding_complete {q w : ℕ} (hw : w ∈ s.posted q) (p : ℕ) :
    (Function.update s.posted q ((s.posted q).erase w) p).length +
      (Function.update s.send_cq q (s.send_cq q ++ [w]) p).length = s.outstanding p := by
  by_cases hp : p = q
  · subst hp
    have hlen := List.length_erase_add_one hw
    simp only [Function.update_self, List.length_append, List.length_cons, List.length_nil,
      SendState.outstanding]
    omega
  · rw [Function.update_of_ne hp, Function.update_of_ne hp]
    rfl

/-- Only `send_pkts` adds to what is outstanding on a queue pair. -/
theorem outstanding_next_le (h : sendNext c s a = some t) (q : ℕ) :
    t.outstanding q ≤ s.outstanding q + s.posts c q a := by
  cases sendNext_move h with
  | @polled num_pkts i j =>
    -- a poll takes completions off one CQ
    have hle : (Function.update s.send_cq i (ibvPollCq (s.send_cq i)).2 q).length ≤
        (s.send_cq q).length := by
      by_cases hq : q = i
      · subst hq
        rw [Function.update_self]
        exact (List.drop_sublist _ _).length_le
      · rw [Function.update_of_ne hq]
    exact (Nat.add_le_add_left hle _).trans (Nat.le_add_right _ _)
  | @sent head qp_idx =>
    simp only [SendState.outstanding, SendState.posts]
    by_cases hq : q = qp_idx
    · subst hq
      rw [Function.update_self, if_pos rfl, List.length_append, List.length_map]
      have hlist : s.listFrom c head = walk s.next c.total (some head) := rfl
      rw [hlist]
      omega
    · rw [Function.update_of_ne hq]
      exact Nat.le_add_right _ _
  | completed _ hw => exact (outstanding_complete hw q).le.trans (Nat.le_add_right _ _)
  -- the other steps leave the queues and CQs alone
  | _ => exact Nat.le_add_right _ _

/-- **One step over-commits no queue pair**, when a list sent on it fits. -/
theorem noOverCommit_next (hi : NoOverCommit c s) {a : SendAction} (hok : fitsQp c s a)
    (h : sendNext c s a = some t) : NoOverCommit c t := by
  intro q hq
  refine (outstanding_next_le h q).trans ?_
  have hroom := hi q hq
  cases a with
  | sendPkts send_pkt qp_idx =>
    cases send_pkt with
    | none => exact hroom
    | some head =>
      simp only [SendState.posts]
      split
      · rename_i hqp
        subst hqp
        exact hok hq
      · exact hroom
  | _ => exact hroom

theorem noOverCommit_init (h : hashpipeIbvInitSend c = some s) : NoOverCommit c s := by
  unfold hashpipeIbvInitSend at h
  split at h
  · cases h
  · obtain rfl := Option.some.inj h
    intro q _
    exact Nat.zero_le _

theorem noOverCommit_of_fits (h : ReachableUnder (sendSystem c) (fitsQp c) s) :
    NoOverCommit c s := by
  refine h.invariant (I := NoOverCommit c) ?_ ?_
  · intro s hs
    exact noOverCommit_init hs
  · intro s a t hi hok hs
    exact noOverCommit_next hi hok hs

/-! ### A pool that fits one queue -/

theorem length_le_contents {n q : ℕ} (f : ℕ → List ℕ) (hq : q < n) :
    (f q).length ≤ Multiset.card (contents n f) := by
  have hle : ((f q : List ℕ) : Multiset ℕ) ≤ contents n f :=
    Finset.single_le_sum (f := fun q => ((f q : List ℕ) : Multiset ℕ))
      (fun _ _ => Multiset.zero_le _) (Finset.mem_range.mpr hq)
  exact Multiset.card_le_card hle

/-- What is outstanding comes from the pool. -/
theorem SendInv.outstanding_le (hi : SendInv c s free lists) {q : ℕ} (hq : q < c.nqp) :
    s.outstanding q + free.length ≤ c.total := by
  have hcard := congrArg Multiset.card hi.places
  simp only [Multiset.card_add, Multiset.coe_card, Multiset.card_range] at hcard
  have hposted := length_le_contents s.posted hq
  have hcq := length_le_contents s.send_cq hq
  rw [SendState.outstanding]
  omega

/-! ### A call of `get_pkts` while nothing completes -/

theorem reachable_sendNext (hs : Reachable (sendSystem c) s) {a : SendAction}
    (h : sendNext c s a = some t) : Reachable (sendSystem c) t :=
  hs.step a h

/-- No send CQ holds a completion and no queue pair is in an unexpected state. -/
def SendState.Quiet (s : SendState) : Prop :=
  (∀ q, s.send_cq q = []) ∧ ∀ q, s.qp q ≠ .other

/-- The loop over the queue pairs' states, from `i` to its end. -/
theorem prepare_loop {num_pkts : ℕ} (k : ℕ) : ∀ {s : SendState} {i : ℕ}, c.nqp = i + k →
    Reachable (sendSystem c) s → s.pc = .preparing num_pkts i → s.Quiet →
    ∃ qp, Reachable (sendSystem c) { s with qp := qp, pc := .draining num_pkts 0 } ∧
      ∀ q, qp q ≠ .other := by
  induction k with
  | zero =>
    intro s i hk hs hpc hquiet
    have hnext : sendNext c s (.prepare fun _ => true) =
        some { s with pc := .draining num_pkts 0 } := by
      simp only [sendNext, hpc]
      exact if_neg (by omega)
    exact ⟨s.qp, reachable_sendNext hs hnext, hquiet.2⟩
  | succ k ih =>
    intro s i hk hs hpc hquiet
    have hready := @sendReady_succeeds (fun _ => true) (fun _ => rfl) _ (hquiet.2 i)
    have hnext : sendNext c s (.prepare fun _ => true) =
        some { s with qp := Function.update s.qp i .RTS, pc := .preparing num_pkts (i + 1) } := by
      simp only [sendNext, hpc, hready, if_pos]
      exact if_pos (by omega)
    refine ih (s := { s with qp := Function.update s.qp i .RTS, pc := .preparing num_pkts (i + 1) })
      (by omega) (reachable_sendNext hs hnext) rfl ⟨hquiet.1, fun q => ?_⟩
    by_cases hq : q = i
    · subst hq
      simp
    · simp only [Function.update_of_ne hq]
      exact hquiet.2 q

/-- The loop over the empty completion queues, from `i` to its end. -/
theorem drain_loop {num_pkts : ℕ} (k : ℕ) : ∀ {s : SendState} {i : ℕ}, c.nqp = i + k →
    Reachable (sendSystem c) s → s.pc = .draining num_pkts i → (∀ q, s.send_cq q = []) →
    Reachable (sendSystem c) { s with pc := .draining num_pkts c.nqp } := by
  induction k with
  | zero =>
    intro s i hk hs hpc _
    obtain rfl : c.nqp = i := hk
    rw [← hpc]
    exact hs
  | succ k ih =>
    intro s i hk hs hpc hcq
    have hempty : Function.update s.send_cq i [] = s.send_cq := by
      rw [← hcq i]
      exact Function.update_eq_self i s.send_cq
    have hnext : sendNext c s (.poll false) = some { s with pc := .draining num_pkts (i + 1) } := by
      simp only [sendNext, hpc, hcq i, ibvPollCq, List.take_nil, List.drop_nil, pushCompletions,
        List.foldl_nil, if_true, hempty]
      exact if_pos (by omega)
    have hend := ih (s := { s with pc := .draining num_pkts (i + 1) }) (by omega)
      (reachable_sendNext hs hnext) rfl hcq
    exact hend

/-- A call of `get_pkts` that finds no completion returns; what it takes off the free list
is then on a list of the caller, and nothing else has changed. -/
theorem get_pkts_returns (hs : Reachable (sendSystem c) s) (hidle : s.pc = .idle)
    (hquiet : s.Quiet) {num_pkts : ℕ} (hpos : 0 < num_pkts) (hmax : num_pkts ≤ c.send_pkt_num)
    (hfree : s.freeList c ≠ []) :
    ∃ t head, Reachable (sendSystem c) t ∧ t.pc = .idle ∧ t.Quiet ∧ t.posted = s.posted ∧
      head ∈ t.held ∧ (t.listFrom c head).length = min num_pkts (s.freeList c).length ∧
      (t.freeList c).length + (t.listFrom c head).length = (s.freeList c).length := by
  have hcall : sendNext c s (.getPkts num_pkts) =
      some { s with pc := .preparing num_pkts 0 } := by
    simp only [sendNext, if_pos hidle, if_neg (Nat.not_lt.mpr hmax), if_neg hpos.ne']
  obtain ⟨qp, hprepared, hqp⟩ := prepare_loop c.nqp (by omega)
    (reachable_sendNext hs hcall) rfl hquiet
  have hdrained := drain_loop c.nqp (by omega) hprepared rfl hquiet.1
  obtain ⟨free, lists, hi⟩ := sendInv_of_reachable hdrained
  obtain ⟨got, rest, lists', hinv, hsplit, hlen, hgot⟩ := hi.pop num_pkts
  have hfree_eq : s.freeList c = free := hi.freeList_eq
  have hpop : sendNext c { s with qp := qp, pc := .draining num_pkts c.nqp }
      .pop = some _ := if_neg (Nat.lt_irrefl _)
  rw [hfree_eq] at hfree ⊢
  -- the list is not empty, and the caller holds it by its first packet
  have hne : got ≠ [] := by
    intro hnil
    rw [hnil, List.length_nil] at hlen
    have hfreepos := List.length_pos_iff.mpr hfree
    omega
  obtain ⟨head, hhead⟩ := Option.ne_none_iff_exists'.mp (mt List.head?_eq_none_iff.mp hne)
  have hresult := hgot.head.trans hhead
  have hmem : head ∈ (popSendPackets s.next s.send_pkt_head num_pkts).2.2.toList ++ s.held := by
    simp [hresult]
  have hlist : lists' head = got := (hinv.heldChain head hmem).unique (hresult ▸ hgot)
  refine ⟨_, head, reachable_sendNext hdrained hpop, rfl, ⟨hquiet.1, hqp⟩, rfl, hmem, ?_, ?_⟩
  · rw [hinv.listFrom_eq hmem, hlist, hlen]
  · rw [hinv.listFrom_eq hmem, hinv.freeList_eq, hlist, hsplit, List.length_append]
    omega

/-- Take up to `send_pkt_num` packets and send them all on queue pair 0. -/
theorem get_and_send (hs : Reachable (sendSystem c) s) (hidle : s.pc = .idle) (hquiet : s.Quiet)
    (hnqp : 0 < c.nqp) (hpos : 0 < c.send_pkt_num) (hfree : s.freeList c ≠ []) :
    ∃ t, Reachable (sendSystem c) t ∧ t.pc = .idle ∧ t.Quiet ∧
      (t.posted 0).length = (s.posted 0).length + min c.send_pkt_num (s.freeList c).length ∧
      (t.freeList c).length + min c.send_pkt_num (s.freeList c).length =
        (s.freeList c).length := by
  obtain ⟨t, head, ht, hpc, htq, hposted, hheld, hlen, hrest⟩ :=
    get_pkts_returns hs hidle hquiet hpos le_rfl hfree
  have hsend : sendNext c t (.sendPkts (some head) 0) =
      some { t with posted := Function.update t.posted 0
                      (t.posted 0 ++ (walk t.next c.total (some head)).map t.wr_id),
                    held := t.held.erase head } := by
    simp only [sendNext, if_pos hpc, if_neg (Nat.not_le.mpr hnqp), if_pos hheld]
  refine ⟨_, reachable_sendNext ht hsend, hpc, htq, ?_, ?_⟩
  · dsimp only
    rw [Function.update_self, List.length_append, List.length_map, hposted, ← hlen]
    rfl
  · rw [← hlen]
    exact hrest

/-- **Which pools over-commit no queue pair.**  A list that fits on its queue pair never
over-commits it.  With nothing asked of the lists, no run does so exactly when the whole
pool fits on one queue pair, as it does for a single one. -/
theorem send_room_iff (hinit : hashpipeIbvInitSend c = some s) :
    (∀ t, ReachableUnder (sendSystem c) (fitsQp c) t → NoOverCommit c t) ∧
    ((∀ t, Reachable (sendSystem c) t → NoOverCommit c t) ↔ c.total ≤ c.send_pkt_num) := by
  refine ⟨fun t ht => noOverCommit_of_fits ht, ?_, ?_⟩
  · intro hall
    by_contra hbig
    have hs : Reachable (sendSystem c) s := .init hinit
    have hfree : (s.freeList c).length = c.total := by
      rw [(sendInv_init hinit).freeList_eq, List.length_range]
    obtain ⟨hidle, hquiet, hzero⟩ :
        s.pc = .idle ∧ s.Quiet ∧ 0 < c.total ∧ s.posted 0 = [] := by
      unfold hashpipeIbvInitSend at hinit
      split at hinit
      · cases hinit
      · rename_i hdef
        obtain rfl := Option.some.inj hinit
        exact ⟨rfl, ⟨fun _ => rfl, fun _ => by simp⟩, by omega, rfl⟩
    have hprod : c.send_pkt_num * c.nqp ≠ 0 := by
      intro h
      rw [SendConfig.total, h] at hzero
      exact absurd hzero.1 (by decide)
    have hnqp : 0 < c.nqp := Nat.pos_of_ne_zero (right_ne_zero_of_mul hprod)
    have hnum : 0 < c.send_pkt_num := Nat.pos_of_ne_zero (left_ne_zero_of_mul hprod)
    obtain ⟨t, ht, htpc, htq, htposted, htfree⟩ := get_and_send hs hidle hquiet hnqp hnum
      (List.ne_nil_of_length_pos (by omega))
    obtain ⟨u, hu, -, -, huposted, -⟩ := get_and_send ht htpc htq hnqp hnum
      (List.ne_nil_of_length_pos (by omega))
    have hroom := hall u hu 0 hnqp
    rw [hzero.2, List.length_nil] at htposted
    rw [SendState.outstanding] at hroom
    omega
  · intro hsmall t ht q hq
    obtain ⟨free, lists, hi⟩ := sendInv_of_reachable ht
    have hle := hi.outstanding_le hq
    omega

end Room

/-- Two queue pairs with two packets each, and both lists of two sent on queue pair 0. -/
def overCommitRun : List SendAction :=
  [.getPkts 2] ++ prepareAll ++ [.poll false, .poll false, .pop, .sendPkts (some 0) 0, .getPkts 2]
    ++ prepareAll ++ [.poll false, .poll false, .pop, .sendPkts (some 2) 0]

def overCommitEnd : SendState :=
  (run (sendSystem sendPair) sendStart overCommitRun).getD sendStart

theorem send_pkts_over_commits :
    Reachable (sendSystem sendPair) overCommitEnd ∧ overCommitEnd.outstanding 0 = 4 ∧
      ¬ NoOverCommit sendPair overCommitEnd := by
  have hinit : Reachable (sendSystem sendPair) sendStart := .init (Option.some_get _).symm
  have hfour : overCommitEnd.outstanding 0 = 4 := by decide
  refine ⟨hinit.run_getD overCommitRun, hfour, fun hroom => ?_⟩
  have hle := hroom 0 (by decide)
  rw [hfour] at hle
  exact absurd hle (by decide)

theorem send_room_iff_sendPair :
    ¬ ∀ t, Reachable (sendSystem sendPair) t → NoOverCommit sendPair t := by
  intro hall
  have hinit : hashpipeIbvInitSend sendPair = some sendStart := (Option.some_get _).symm
  exact absurd ((send_room_iff hinit).2.mp hall) (by decide)

end Hashpipe.Ibverbs
