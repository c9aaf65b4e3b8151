import Hashpipe.Library.LinkedChain
import Hashpipe.Ibverbs.PacketSlots

/-!
# The work requests after `hashpipe_ibv_init`

What the loops over the packets leave in the two arrays of a side, for library managed and for
user managed work requests: each packet's elements begin where those of the packet before it
end, so the segments partition the first elements of the array (`SideSetUp`), and the links
make one list of the send packets and one of the receive packets of each queue pair.

`setUpPkts_filled` and `linkPkts_pkt` say what each loop does, and `work_requests_set_up` what
all of them have done when `hashpipe_ibv_init` returns.
-/

namespace Hashpipe.Ibverbs

open StepSequence LinkedChain

/-- The elements of packet `i` in the side's array. -/
def PacketBufs.segment (b : PacketBufs) (i : ℕ) : Set ℕ :=
  Set.Ico (b.pkt i).sg_list ((b.pkt i).sg_list + (b.pkt i).num_sge)

/-- `num_sge` of a packet: what the user has set, or 1. -/
def givenSge (user_managed_flag : Bool) (b : PacketBufs) (i : ℕ) : ℕ :=
  if user_managed_flag then (b.pkt i).num_sge else 1

/-- One side after its set-up. -/
structure SideSetUp (b : PacketBufs) (given : ℕ → ℕ) (total lkey : ℕ) : Prop where
  wr_id : ∀ i < total, (b.pkt i).wr_id = i
  num_sge : ∀ i < total, (b.pkt i).num_sge = given i
  consecutive : ∀ i, i + 1 < total →
    (b.pkt (i + 1)).sg_list = (b.pkt i).sg_list + (b.pkt i).num_sge
  apart : ∀ i < total, ∀ j < total, ∀ m, m ∈ b.segment i → m ∈ b.segment j → i = j
  covered : ∀ m, (∃ i < total, m ∈ b.segment i) ↔ m < ∑ i ∈ Finset.range total, given i
  lkey : ∀ m < ∑ i ∈ Finset.range total, given i, (b.sge m).lkey = lkey

/-! ### Where the segments lie -/

section Offsets

variable (num : ℕ → ℕ)

/-- The elements before those of packet `i`. -/
def offset (i : ℕ) : ℕ := ∑ j ∈ Finset.range i, num j

theorem offset_succ (i : ℕ) : offset num (i + 1) = offset num i + num i :=
  Finset.sum_range_succ _ _

theorem offset_mono {i j : ℕ} (h : i ≤ j) : offset num i ≤ offset num j := by
  induction h with
  | refl => exact le_rfl
  | step _ ih =>
    rw [offset_succ]
    exact ih.trans (Nat.le_add_right _ _)

theorem exists_offset {m : ℕ} : ∀ {n : ℕ}, m < offset num n →
    ∃ i < n, offset num i ≤ m ∧ m < offset num (i + 1) := by
  intro n
  induction n with
  | zero => exact fun h => absurd h (Nat.not_lt_zero m)
  | succ n ih =>
    intro h
    by_cases hm : m < offset num n
    · obtain ⟨i, hi, hmem⟩ := ih hm
      exact ⟨i, hi.trans (Nat.lt_succ_self n), hmem⟩
    · exact ⟨n, Nat.lt_succ_self n, Nat.not_lt.mp hm, h⟩

/-- A position lies between one pair of offsets only. -/
theorem offset_unique {m i j : ℕ} (hi : offset num i ≤ m ∧ m < offset num (i + 1))
    (hj : offset num j ≤ m ∧ m < offset num (j + 1)) : i = j := by
  rcases Nat.lt_trichotomy i j with hlt | heq | hgt
  · have hle := offset_mono num (show i + 1 ≤ j from hlt)
    omega
  · exact heq
  · have hle := offset_mono num (show j + 1 ≤ i from hgt)
    omega

end Offsets

/-! ### The set-up loop -/

/-- The side `b` after `k` iterations over the packets of `b₀`. -/
structure Filled (a : SetUpArgs) (b₀ : PacketBufs) (k : ℕ) (b : PacketBufs) : Prop where
  wr_id : ∀ i < k, (b.pkt i).wr_id = i
  num_sge : ∀ i < k, (b.pkt i).num_sge = givenSge a.user_managed_flag b₀ i
  sg_list : ∀ i < k, (b.pkt i).sg_list = offset (givenSge a.user_managed_flag b₀) i
  lkey : ∀ m < offset (givenSge a.user_managed_flag b₀) k, (b.sge m).lkey = a.lkey
  ahead : ∀ i, k ≤ i → b.pkt i = b₀.pkt i

section SetUp

variable {a : SetUpArgs} {b₀ b : PacketBufs} {k : ℕ}

/-- The inner loop sets the `lkey` of a packet's elements, and of no others. -/
theorem setLkeys_lkey (lkey sg_list num_sge : ℕ) (sge : ℕ → Sge) (m : ℕ) :
    (setLkeys lkey sg_list num_sge sge m).lkey =
      if sg_list ≤ m ∧ m < sg_list + num_sge then lkey else (sge m).lkey := by
  induction num_sge with
  | zero => exact (if_neg (by omega)).symm
  | succ n ih =>
    rw [setLkeys, List.range_succ, List.foldl_append, List.foldl_cons, List.foldl_nil]
    show (Function.update (setLkeys lkey sg_list n sge) (sg_list + n)
      { setLkeys lkey sg_list n sge (sg_list + n) with lkey := lkey } m).lkey = _
    by_cases hm : m = sg_list + n
    · subst hm
      rw [Function.update_self, if_pos (by omega)]
    · rw [Function.update_of_ne hm, ih]
      exact if_congr (by omega) rfl rfl

theorem filled_zero (a : SetUpArgs) (b₀ : PacketBufs) : Filled a b₀ 0 b₀ where
  wr_id := fun i hi => absurd hi (Nat.not_lt_zero i)
  num_sge := fun i hi => absurd hi (Nat.not_lt_zero i)
  sg_list := fun i hi => absurd hi (Nat.not_lt_zero i)
  lkey := fun m hm => absurd hm (Nat.not_lt_zero m)
  ahead := fun _ _ => rfl

/-- Where the next segment begins. -/
theorem Filled.next_sg_list (h : Filled a b₀ k b) :
    (if k = 0 then 0 else (b.pkt (k - 1)).sg_list + (b.pkt (k - 1)).num_sge) =
      offset (givenSge a.user_managed_flag b₀) k := by
  cases k with
  | zero => rfl
  | succ k =>
    rw [if_neg (Nat.succ_ne_zero k), Nat.add_sub_cancel, h.sg_list k (Nat.lt_succ_self k),
      h.num_sge k (Nat.lt_succ_self k), offset_succ]

/-- What one iteration does to its packet. -/
theorem Filled.setUpPkt_pkt (h : Filled a b₀ k b) : (setUpPkt a b k).pkt k =
    ⟨k, givenSge a.user_managed_flag b₀ k, offset (givenSge a.user_managed_flag b₀) k,
      (b₀.pkt k).next⟩ := by
  have hpkt := h.ahead k le_rfl
  simp only [setUpPkt, Function.update_self, h.next_sg_list, hpkt]
  cases huser : a.user_managed_flag <;> simp [givenSge]

/-- What it does to the elements: those of the packet get the `lkey`. -/
theorem Filled.setUpPkt_lkey (h : Filled a b₀ k b) (m : ℕ) : ((setUpPkt a b k).sge m).lkey =
    if offset (givenSge a.user_managed_flag b₀) k ≤ m ∧
        m < offset (givenSge a.user_managed_flag b₀) (k + 1) then a.lkey
      else (b.sge m).lkey := by
  have hpkt := h.ahead k le_rfl
  rw [offset_succ]
  simp only [setUpPkt, setLkeys_lkey, h.next_sg_list, hpkt]
  cases huser : a.user_managed_flag with
  | true => simp [givenSge]
  | false =>
    have hlkey : (Function.update b.sge k { b.sge k with
        addr := slotAddr a.mr_buf a.pkt_size_max k, length := a.pkt_size_max } m).lkey =
          (b.sge m).lkey := by
      by_cases hm : m = k
      · rw [hm, Function.update_self]
      · rw [Function.update_of_ne hm]
    simp [givenSge, hlkey]

/-- **One iteration of the set-up loop.** -/
theorem Filled.step (h : Filled a b₀ k b) : Filled a b₀ (k + 1) (setUpPkt a b k) := by
  have hself := h.setUpPkt_pkt
  have hother : ∀ i, i ≠ k → (setUpPkt a b k).pkt i = b.pkt i := fun i hi =>
    Function.update_of_ne hi _ _
  constructor
  · intro i hi
    rcases Nat.lt_succ_iff_lt_or_eq.mp hi with hlt | rfl
    · rw [hother i hlt.ne]
      exact h.wr_id i hlt
    · rw [hself]
  · intro i hi
    rcases Nat.lt_succ_iff_lt_or_eq.mp hi with hlt | rfl
    · rw [hother i hlt.ne]
      exact h.num_sge i hlt
    · rw [hself]
  · intro i hi
    rcases Nat.lt_succ_iff_lt_or_eq.mp hi with hlt | rfl
    · rw [hother i hlt.ne]
      exact h.sg_list i hlt
    · rw [hself]
  · intro m hm
    rw [h.setUpPkt_lkey]
    split
    · rfl
    · exact h.lkey m (by omega)
  · intro i hi
    rw [hother i (by omega)]
    exact h.ahead i (by omega)

theorem setUpPkts_filled (a : SetUpArgs) (b₀ : PacketBufs) (total : ℕ) :
    Filled a b₀ total (setUpPkts a total b₀) := by
  induction total with
  | zero => exact filled_zero a b₀
  | succ k ih =>
    rw [setUpPkts, List.range_succ, List.foldl_append]
    exact ih.step

end SetUp

/-! ### The linking loops -/

theorem foldl_link_pkt (first n : ℕ) (pkt : ℕ → WorkRequest) (i : ℕ) :
    (List.range n).foldl (fun pkt j => Function.update pkt (first + j)
        { pkt (first + j) with next := some (first + j + 1) }) pkt i =
      if first ≤ i ∧ i < first + n then { pkt i with next := some (i + 1) } else pkt i := by
  induction n with
  | zero => exact (if_neg (by omega)).symm
  | succ n ih =>
    rw [List.range_succ, List.foldl_append, List.foldl_cons, List.foldl_nil]
    by_cases hi : i = first + n
    · subst hi
      rw [Function.update_self, ih, if_neg (by omega), if_pos (by omega)]
    · rw [Function.update_of_ne hi, ih]
      exact if_congr (by omega) rfl rfl

/-- The packets `first` to `first + count - 1` each point to the next, the last one to none. -/
theorem linkPkts_pkt {first count : ℕ} (hcount : 0 < count) (b : PacketBufs) (i : ℕ) :
    (linkPkts first count b).pkt i = if first ≤ i ∧ i < first + count then
      { b.pkt i with next := if i + 1 < first + count then some (i + 1) else none }
    else b.pkt i := by
  simp only [linkPkts]
  by_cases hi : i = first + (count - 1)
  · subst hi
    rw [Function.update_self, foldl_link_pkt, if_neg (by omega), if_pos (by omega),
      if_neg (by omega)]
  · rw [Function.update_of_ne hi, foldl_link_pkt]
    by_cases hin : first ≤ i ∧ i < first + (count - 1)
    · rw [if_pos hin, if_pos (by omega), if_pos (by omega)]
    · rw [if_neg hin, if_neg (by omega)]

/-- The two sides differ in the links alone. -/
structure Relinked (b b' : PacketBufs) : Prop where
  wr_id : ∀ i, (b'.pkt i).wr_id = (b.pkt i).wr_id
  num_sge : ∀ i, (b'.pkt i).num_sge = (b.pkt i).num_sge
  sg_list : ∀ i, (b'.pkt i).sg_list = (b.pkt i).sg_list
  sge : b'.sge = b.sge

theorem Relinked.refl (b : PacketBufs) : Relinked b b :=
  ⟨fun _ => rfl, fun _ => rfl, fun _ => rfl, rfl⟩

theorem Relinked.trans {b b' b'' : PacketBufs} (h : Relinked b b') (h' : Relinked b' b'') :
    Relinked b b'' where
  wr_id := fun i => (h'.wr_id i).trans (h.wr_id i)
  num_sge := fun i => (h'.num_sge i).trans (h.num_sge i)
  sg_list := fun i => (h'.sg_list i).trans (h.sg_list i)
  sge := h'.sge.trans h.sge

theorem linkPkts_relinked {first count : ℕ} (hcount : 0 < count) (b : PacketBufs) :
    Relinked b (linkPkts first count b) := by
  refine ⟨fun i => ?_, fun i => ?_, fun i => ?_, rfl⟩ <;> rw [linkPkts_pkt hcount] <;> split <;>
    rfl

theorem linkPkts_next {first count j : ℕ} (hj : j < count) (b : PacketBufs) :
    ((linkPkts first count b).pkt (first + j)).next =
      if j + 1 < count then some (first + j + 1) else none := by
  rw [linkPkts_pkt (Nat.zero_lt_of_lt hj), if_pos (by omega)]
  exact if_congr (by omega) rfl rfl

/-- Packets that are linked so make one list. -/
theorem chain_of_next {next : ℕ → Option ℕ} {first count : ℕ} (hcount : 0 < count)
    (hnext : ∀ j < count, next (first + j) =
      if j + 1 < count then some (first + j + 1) else none) :
    Chain next (some first) (List.range' first count) := by
  obtain ⟨n, rfl⟩ := Nat.exists_eq_add_of_lt hcount
  rw [Nat.zero_add] at hnext ⊢
  refine Chain.range' ?_ n first rfl fun i hlo hi => ?_
  · have hlast := hnext n (Nat.lt_succ_self n)
    rwa [if_neg (lt_irrefl _)] at hlast
  · obtain ⟨j, rfl⟩ := Nat.exists_eq_add_of_le hlo
    have hlink := hnext j (by omega)
    rwa [if_pos (by omega)] at hlink

/-- After the set-up loop, whatever is linked then. -/
theorem Filled.sideSetUp {a : SetUpArgs} {b₀ b b' : PacketBufs} {total : ℕ}
    (h : Filled a b₀ total b) (hlink : Relinked b b') :
    SideSetUp b' (givenSge a.user_managed_flag b₀) total a.lkey := by
  have hsegment : ∀ i < total, ∀ m, m ∈ b'.segment i ↔
      offset (givenSge a.user_managed_flag b₀) i ≤ m ∧
        m < offset (givenSge a.user_managed_flag b₀) (i + 1) := by
    intro i hi m
    rw [PacketBufs.segment, hlink.sg_list, hlink.num_sge, h.sg_list i hi, h.num_sge i hi,
      offset_succ]
    exact Iff.rfl
  constructor
  · intro i hi
    rw [hlink.wr_id]
    exact h.wr_id i hi
  · intro i hi
    rw [hlink.num_sge]
    exact h.num_sge i hi
  · intro i hi
    rw [hlink.sg_list, hlink.sg_list, hlink.num_sge, h.sg_list (i + 1) hi, offset_succ,
      h.sg_list i (by omega), h.num_sge i (by omega)]
  · intro i hi j hj m hmi hmj
    exact offset_unique _ ((hsegment i hi m).mp hmi) ((hsegment j hj m).mp hmj)
  · intro m
    constructor
    · intro hm
      obtain ⟨i, hi, hmem⟩ := hm
      have hend := ((hsegment i hi m).mp hmem).2
      exact hend.trans_le (offset_mono _ (show i + 1 ≤ total from hi))
    · intro hm
      obtain ⟨i, hi, hmem⟩ := exists_offset _ hm
      exact ⟨i, hi, (hsegment i hi m).mpr hmem⟩
  · intro m hm
    rw [hlink.sge]
    exact h.lkey m hm

/-! ### The steps of `hashpipe_ibv_init` around the loops -/

/-- The steps that write the packet arrays. -/
def Step.touchesPkts : Step → Bool
  | .callocSendPktBuf | .callocRecvPktBuf | .callocSendSgeBuf | .callocRecvSgeBuf => true
  | .setUpSend | .setUpRecv | .linkSend | .linkRecv _ => true
  | _ => false

/-- The steps before the set-up of the send packets. -/
def stepsUntilSetUp (c : InitConfig) : List Step :=
  [.checkPktNums, .allocPd, .createRecvCc, .setNonblocking, .callocSendCq] ++
  forQps c .sendCq (fun i => [.createSendCq i]) ++
  [.callocRecvCq] ++
  forQps c .recvCq (fun i => [.createRecvCq i, .reqNotifyCq i]) ++
  (if c.user_managed_flag then [.walkSges] else []) ++
  [.callocQp] ++
  forQps c .qp (fun i => [.createQp i, .modifyQp i]) ++
  (if c.user_managed_flag then [] else allocSteps) ++ [.regSendMr, .regRecvMr]

theorem initSteps_split (c : InitConfig) : initSteps c = stepsUntilSetUp c ++
    .setUpSend :: .setUpRecv :: .linkSend ::
      (forQps c .post (fun i => [.linkRecv i, .postRecv i]) ++
        [.callocFlows, .callocFlowDstIps, .openSocket]) := by
  simp [initSteps, stepsUntilSetUp]

section Steps

variable {env : InitEnv} {c : InitConfig} {s : Step}

theorem pkts_kept (env : InitEnv) (c : InitConfig) (w : World) (h : s.touchesPkts = false) :
    (Step.effect env c w s).hibv_ctx.send_pkts = w.hibv_ctx.send_pkts ∧
      (Step.effect env c w s).hibv_ctx.recv_pkts = w.hibv_ctx.recv_pkts := by
  cases s <;> first | exact ⟨rfl, rfl⟩ | cases h

/-- The packets that the user manages come as they are to the set-up. -/
theorem untilSetUp_user (hu : c.user_managed_flag = true) (hs : s ∈ stepsUntilSetUp c) :
    s.touchesPkts = false := by
  have hall : (stepsUntilSetUp c).all (fun s => !s.touchesPkts) = true := by
    simp [stepsUntilSetUp, forQps, hu, Step.touchesPkts]
  simpa using List.all_eq_true.mp hall s hs

/-- `max_send_sge` and `max_recv_sge` as the walk over the packets finds them. -/
def capOf (c : InitConfig) (w : World) : ℕ × ℕ :=
  (maxSge c.user_managed_flag c.send_total w.hibv_ctx.send_pkts,
    maxSge c.user_managed_flag c.recv_total w.hibv_ctx.recv_pkts)

theorem capOf_kept (hs : s ∈ stepsUntilSetUp c) (w : World) :
    capOf c (Step.effect env c w s) = capOf c w := by
  cases hu : c.user_managed_flag with
  | false => simp [capOf, maxSge, hu]
  | true =>
    obtain ⟨hsend, hrecv⟩ := pkts_kept env c w (untilSetUp_user hu hs)
    rw [capOf, hsend, hrecv]
    rfl

/-- The queue pairs are created with these limits. -/
theorem caps_set (env : InitEnv) {q : ℕ} (hq : q < min c.nqp (2 ^ 31)) (w : World) :
    ((stepsUntilSetUp c).foldl (Step.effect env c) w).caps q = capOf c w := by
  have hmem : .createQp q ∈ stepsUntilSetUp c := by
    simpa [stepsUntilSetUp, forQps, allocSteps] using lt_min_iff.mp hq
  refine foldl_computed (Step.effect env c) (fun w => w.caps q) (capOf c) ?_ ?_
    (fun s hs w => capOf_kept hs w) hmem w
  · intro w
    exact Function.update_self ..
  · intro s _ hne w
    cases s with
    | createQp j =>
      have hqj : q ≠ j := fun h => hne (by rw [h])
      exact Function.update_of_ne hqj _ _
    | _ => rfl

/-- The walk finds no packet with more elements. -/
theorem given_le_maxSge (user_managed_flag : Bool) {total i : ℕ} (b : PacketBufs) (hi : i < total) :
    givenSge user_managed_flag b i ≤ maxSge user_managed_flag total b := by
  cases user_managed_flag with
  | false => exact le_rfl
  | true =>
    show (b.pkt i).num_sge ≤ _
    rw [maxSge, if_pos rfl]
    induction total with
    | zero => exact absurd hi (Nat.not_lt_zero i)
    | succ n ih =>
      rw [List.range_succ, List.foldl_append, List.foldl_cons, List.foldl_nil]
      rcases Nat.lt_succ_iff_lt_or_eq.mp hi with hlt | rfl
      · have hle := ih hlt
        split <;> omega
      · split <;> omega

/-- After the passes of the posting loop for the queue pairs below `n`, from `w₀`. -/
structure Posted (c : InitConfig) (w₀ : World) (n : ℕ) (w : World) : Prop where
  relinked : Relinked w₀.hibv_ctx.recv_pkts w.hibv_ctx.recv_pkts
  next : ∀ q < n, ∀ j < c.recv_pkt_num,
    (w.hibv_ctx.recv_pkts.pkt (q * c.recv_pkt_num + j)).next =
      if j + 1 < c.recv_pkt_num then some (q * c.recv_pkt_num + j + 1) else none
  posted : ∀ q < n, w.posted q = some (q * c.recv_pkt_num)
  send_pkts : w.hibv_ctx.send_pkts = w₀.hibv_ctx.send_pkts
  send_pkt_head : w.hibv_ctx.send_pkt_head = w₀.hibv_ctx.send_pkt_head
  caps : w.caps = w₀.caps

variable {w₀ w : World} {n : ℕ}

theorem posted_zero (c : InitConfig) (w₀ : World) : Posted c w₀ 0 w₀ :=
  ⟨Relinked.refl _, fun q hq => absurd hq (Nat.not_lt_zero q),
    fun q hq => absurd hq (Nat.not_lt_zero q), rfl, rfl, rfl⟩

/-- The links before `ibv_post_recv`: those of the earlier queue pairs stay. -/
theorem Posted.linkRecv (env : InitEnv) (h : Posted c w₀ n w) (hr : 0 < c.recv_pkt_num)
    (hwrap : n * c.recv_pkt_num % 2 ^ 32 = n * c.recv_pkt_num) :
    ∀ q < n + 1, ∀ j < c.recv_pkt_num,
      ((Step.effect env c w (.linkRecv n)).hibv_ctx.recv_pkts.pkt (q * c.recv_pkt_num + j)).next =
        if j + 1 < c.recv_pkt_num then some (q * c.recv_pkt_num + j + 1) else none := by
  intro q hq j hj
  show ((linkPkts (n * c.recv_pkt_num % 2 ^ 32) c.recv_pkt_num w.hibv_ctx.recv_pkts).pkt
    (q * c.recv_pkt_num + j)).next = _
  rw [hwrap]
  rcases Nat.lt_succ_iff_lt_or_eq.mp hq with hlt | rfl
  · have hbelow : (q + 1) * c.recv_pkt_num ≤ n * c.recv_pkt_num := Nat.mul_le_mul_right _ hlt
    rw [Nat.succ_mul] at hbelow
    rw [linkPkts_pkt hr, if_neg (by omega)]
    exact h.next q hlt j hj
  · exact linkPkts_next hj _

/-- **One pass of the posting loop.** -/
theorem Posted.pass (h : Posted c w₀ n w) (hr : 0 < c.recv_pkt_num)
    (hwrap : n * c.recv_pkt_num % 2 ^ 32 = n * c.recv_pkt_num) :
    Posted c w₀ (n + 1)
      (Step.effect env c (Step.effect env c w (.linkRecv n)) (.postRecv n)) where
  relinked := h.relinked.trans (linkPkts_relinked hr _)
  next := h.linkRecv env hr hwrap
  posted := by
    intro q hq
    show Function.update w.posted n (some (n * c.recv_pkt_num % 2 ^ 32)) q = _
    rcases Nat.lt_succ_iff_lt_or_eq.mp hq with hlt | rfl
    · rw [Function.update_of_ne hlt.ne]
      exact h.posted q hlt
    · rw [Function.update_self, hwrap]
  send_pkts := h.send_pkts
  send_pkt_head := h.send_pkt_head
  caps := h.caps

/-- The passes of the posting loop. -/
theorem posted_loop (env : InitEnv) (w₀ : World) (hr : 0 < c.recv_pkt_num)
    (hwrap : ∀ q ≤ n, q * c.recv_pkt_num % 2 ^ 32 = q * c.recv_pkt_num) :
    Posted c w₀ n (((List.range n).flatMap fun i => [.linkRecv i, .postRecv i]).foldl
      (Step.effect env c) w₀) := by
  induction n with
  | zero => exact posted_zero c w₀
  | succ n ih =>
    rw [List.range_succ, List.flatMap_append, List.foldl_append]
    exact (ih fun q hq => hwrap q (by omega)).pass hr (hwrap n (Nat.le_succ n))

/-- The steps after the loop leave all this alone. -/
theorem Posted.keep (h : Posted c w₀ n w)
    (hs : s = .leave .post ∨ s = .callocFlows ∨ s = .callocFlowDstIps ∨ s = .openSocket) :
    Posted c w₀ n (Step.effect env c w s) := by
  rcases hs with rfl | rfl | rfl | rfl <;>
    exact ⟨h.relinked, h.next, h.posted, h.send_pkts, h.send_pkt_head, h.caps⟩

end Steps

/-! ### A successful run -/

/-- Both sides, the two kinds of lists, and the limits of the queue pairs. -/
structure WorkRequestsSetUp (env : InitEnv) (c : InitConfig) (h : Context) (w : World) : Prop where
  send : SideSetUp w.hibv_ctx.send_pkts (givenSge c.user_managed_flag h.send_pkts)
    (c.send_pkt_num * c.nqp) env.send_lkey
  recv : SideSetUp w.hibv_ctx.recv_pkts (givenSge c.user_managed_flag h.recv_pkts)
    (c.recv_pkt_num * c.nqp) env.recv_lkey
  send_list : Chain (fun i => (w.hibv_ctx.send_pkts.pkt i).next) w.hibv_ctx.send_pkt_head
    (List.range (c.send_pkt_num * c.nqp))
  recv_lists : ∀ q < c.nqp, Chain (fun i => (w.hibv_ctx.recv_pkts.pkt i).next) (w.posted q)
    (List.range' (q * c.recv_pkt_num) c.recv_pkt_num)
  max_send_sge : ∀ q < c.nqp, ∀ i < c.send_pkt_num * c.nqp,
    givenSge c.user_managed_flag h.send_pkts i ≤ (w.caps q).1
  max_recv_sge : ∀ q < c.nqp, ∀ i < c.recv_pkt_num * c.nqp,
    givenSge c.user_managed_flag h.recv_pkts i ≤ (w.caps q).2

section Run

variable {env : InitEnv} {c : InitConfig}

/-- The user managed packets when they are set up; in the other case there is one element each,
whatever the packets hold. -/
theorem givenSge_untilSetUp (env : InitEnv) (w : World) :
    givenSge c.user_managed_flag
        ((stepsUntilSetUp c).foldl (Step.effect env c) w).hibv_ctx.send_pkts =
      givenSge c.user_managed_flag w.hibv_ctx.send_pkts ∧
    givenSge c.user_managed_flag
        ((stepsUntilSetUp c).foldl (Step.effect env c) w).hibv_ctx.recv_pkts =
      givenSge c.user_managed_flag w.hibv_ctx.recv_pkts := by
  cases hu : c.user_managed_flag with
  | false =>
    have hone : ∀ b b' : PacketBufs, givenSge false b = givenSge false b' := fun _ _ => rfl
    exact ⟨hone _ _, hone _ _⟩
  | true =>
    have hsend := foldl_kept (Step.effect env c) (fun w => w.hibv_ctx.send_pkts)
      (fun s hs w => (pkts_kept env c w (untilSetUp_user hu hs)).1) w
    have hrecv := foldl_kept (Step.effect env c) (fun w => w.hibv_ctx.recv_pkts)
      (fun s hs w => (pkts_kept env c w (untilSetUp_user hu hs)).2) w
    exact ⟨congrArg _ hsend, congrArg _ hrecv⟩

/-- The world when the send packets are linked. -/
def linkedSend (env : InitEnv) (c : InitConfig) (w₀ : World) : World :=
  Step.effect env c (Step.effect env c (Step.effect env c
    ((stepsUntilSetUp c).foldl (Step.effect env c) w₀) .setUpSend) .setUpRecv) .linkSend

theorem posted_run (env : InitEnv) (w₀ : World) (hn : c.nqp < 2 ^ 31) (hr : 0 < c.recv_pkt_num)
    (hwrap : ∀ q ≤ c.nqp, q * c.recv_pkt_num % 2 ^ 32 = q * c.recv_pkt_num) :
    Posted c (linkedSend env c w₀) c.nqp ((initSteps c).foldl (Step.effect env c) w₀) := by
  have hloop := posted_loop env (linkedSend env c w₀) hr hwrap
  rw [initSteps_split, forQps, Nat.min_eq_left hn.le]
  simp only [List.foldl_append, List.foldl_cons, List.foldl_nil]
  exact (((hloop.keep (by simp)).keep (by simp)).keep (by simp)).keep (by simp)

/-- What `ibv_post_recv` is given for queue pair `q` is linked when it is called. -/
theorem linked_when_posted (env : InitEnv) (w₀ : World) (hn : c.nqp < 2 ^ 31)
    (hr : 0 < c.recv_pkt_num)
    (hwrap : ∀ q ≤ c.nqp, q * c.recv_pkt_num % 2 ^ 32 = q * c.recv_pkt_num) {q : ℕ}
    (hq : q < c.nqp) : ∃ before after, initSteps c = before ++ .postRecv q :: after ∧
      Chain (fun i => ((before.foldl (Step.effect env c) w₀).hibv_ctx.recv_pkts.pkt i).next)
        (some (q * c.recv_pkt_num)) (List.range' (q * c.recv_pkt_num) c.recv_pkt_num) := by
  obtain ⟨k, hk⟩ := Nat.exists_eq_add_of_lt hq
  have hrange : List.range c.nqp = List.range q ++ q :: (List.range k).map (q + · + 1) := by
    rw [hk, Nat.add_assoc, List.range_add, List.range_succ_eq_map]
    simp [Function.comp_def, Nat.add_assoc]
  have hloop := posted_loop env (linkedSend env c w₀) hr
    fun j hj => hwrap j (hj.trans hq.le)
  let body : ℕ → List Step := fun i => [.linkRecv i, .postRecv i]
  let before : List Step := (List.range q).flatMap body
  let after : List Step := ((List.range k).map (q + · + 1)).flatMap body
  let last : List Step := [.leave .post, .callocFlows, .callocFlowDstIps, .openSocket]
  refine ⟨stepsUntilSetUp c ++ .setUpSend :: .setUpRecv :: .linkSend :: (before ++ [.linkRecv q]),
    after ++ last, ?_, ?_⟩
  · rw [initSteps_split, forQps, Nat.min_eq_left hn.le, hrange, List.flatMap_append]
    simp only [List.flatMap_cons, List.append_assoc, List.cons_append, List.nil_append]
    rfl
  · apply chain_of_next hr
    intro j hj
    rw [List.foldl_append, List.foldl_cons, List.foldl_cons, List.foldl_cons, List.foldl_append]
    exact hloop.linkRecv env hr (hwrap q hq.le) q (Nat.lt_succ_self q) j hj

/-- The packets when the send packets are linked. -/
theorem linkedSend_pkts (env : InitEnv) (w₀ : World) (htotal : 0 < c.send_total) :
    SideSetUp (linkedSend env c w₀).hibv_ctx.send_pkts
        (givenSge c.user_managed_flag w₀.hibv_ctx.send_pkts) c.send_total env.send_lkey ∧
      (∀ b, Relinked (linkedSend env c w₀).hibv_ctx.recv_pkts b →
        SideSetUp b (givenSge c.user_managed_flag w₀.hibv_ctx.recv_pkts) c.recv_total
          env.recv_lkey) ∧
      Chain (fun i => ((linkedSend env c w₀).hibv_ctx.send_pkts.pkt i).next)
        (linkedSend env c w₀).hibv_ctx.send_pkt_head (List.range c.send_total) := by
  obtain ⟨hsend, hrecv⟩ := givenSge_untilSetUp (c := c) env w₀
  simp only [linkedSend]
  generalize (stepsUntilSetUp c).foldl (Step.effect env c) w₀ = w₁ at hsend hrecv
  refine ⟨?_, ?_, ?_⟩
  · rw [← hsend]
    exact (setUpPkts_filled ⟨c.user_managed_flag, w₁.hibv_ctx.send_mr_buf, c.pkt_size_max,
      env.send_lkey⟩ w₁.hibv_ctx.send_pkts c.send_total).sideSetUp (linkPkts_relinked htotal _)
  · intro b hb
    rw [← hrecv]
    exact (setUpPkts_filled ⟨c.user_managed_flag, w₁.hibv_ctx.recv_mr_buf, c.pkt_size_max,
      env.recv_lkey⟩ w₁.hibv_ctx.recv_pkts c.recv_total).sideSetUp hb
  · rw [List.range_eq_range']
    apply chain_of_next htotal
    intro j hj
    exact linkPkts_next hj _

theorem linkedSend_caps (env : InitEnv) (w₀ : World) (hn : c.nqp < 2 ^ 31) {q : ℕ}
    (hq : q < c.nqp) : (linkedSend env c w₀).caps q = capOf c w₀ := by
  have hkeep : (linkedSend env c w₀).caps =
      ((stepsUntilSetUp c).foldl (Step.effect env c) w₀).caps := by
    rw [linkedSend]
    generalize (stepsUntilSetUp c).foldl (Step.effect env c) w₀ = w
    rfl
  rw [hkeep]
  exact caps_set env (lt_min hq (hq.trans hn)) w₀

theorem initSteps_workRequests (env : InitEnv) (w₀ : World) (hn : 1 ≤ c.nqp)
    (hs : 1 ≤ c.send_pkt_num) (hr : 1 ≤ c.recv_pkt_num)
    (hst : c.send_pkt_num * c.nqp < 2 ^ 31) (hrt : c.recv_pkt_num * c.nqp < 2 ^ 31) :
    WorkRequestsSetUp env c w₀.hibv_ctx ((initSteps c).foldl (Step.effect env c) w₀) := by
  have hst' : c.send_total = c.send_pkt_num * c.nqp := Nat.mod_eq_of_lt (by omega)
  have hrt' : c.recv_total = c.recv_pkt_num * c.nqp := Nat.mod_eq_of_lt (by omega)
  have hpos : 0 < c.send_total := hst' ▸ Nat.mul_pos hs hn
  have hnqp : c.nqp < 2 ^ 31 := (Nat.le_mul_of_pos_left c.nqp hs).trans_lt hst
  have hwrap : ∀ q ≤ c.nqp, q * c.recv_pkt_num % 2 ^ 32 = q * c.recv_pkt_num := by
    intro q hq
    have hle := Nat.mul_le_mul_right c.recv_pkt_num hq
    rw [Nat.mul_comm c.nqp] at hle
    exact Nat.mod_eq_of_lt (by omega)
  have hposted := posted_run env w₀ hnqp hr hwrap
  obtain ⟨hsend, hrecv, hlist⟩ := linkedSend_pkts env w₀ hpos
  have hcaps : ∀ q < c.nqp, ((initSteps c).foldl (Step.effect env c) w₀).caps q = capOf c w₀ := by
    intro q hq
    rw [hposted.caps]
    exact linkedSend_caps env w₀ hnqp hq
  have hrecv' := hrecv _ hposted.relinked
  rw [hst'] at hsend hlist
  rw [hrt'] at hrecv'
  constructor
  · rw [hposted.send_pkts]
    exact hsend
  · exact hrecv'
  · rw [hposted.send_pkts, hposted.send_pkt_head]
    exact hlist
  · intro q hq
    rw [hposted.posted q hq]
    exact chain_of_next hr (hposted.next q hq)
  · intro q hq i hi
    rw [hcaps q hq]
    exact given_le_maxSge _ _ (hst'.symm ▸ hi)
  · intro q hq i hi
    rw [hcaps q hq]
    exact given_le_maxSge _ _ (hrt'.symm ▸ hi)

end Run

theorem opened_pkts (env : InitEnv) (c : InitConfig) (h : Context) :
    (opened env c h).hibv_ctx.send_pkts = h.send_pkts ∧
      (opened env c h).hibv_ctx.recv_pkts = h.recv_pkts := by
  simp only [opened, World.acquire, Context.reset]
  split <;> exact ⟨rfl, rfl⟩

/-- **After a successful initialisation the work requests are set up as all later accounting of
packets relies on**, also the receive lists at the moment at which they are posted. -/
theorem work_requests_set_up {env : InitEnv} {c : InitConfig} {h : Context} {w : World}
    (hn : 1 ≤ c.nqp) (hs : 1 ≤ c.send_pkt_num) (hr : 1 ≤ c.recv_pkt_num)
    (hst : c.send_pkt_num * c.nqp < 2 ^ 31) (hrt : c.recv_pkt_num * c.nqp < 2 ^ 31)
    (hinit : hashpipeIbvInit env c h = some (0, w)) :
    WorkRequestsSetUp env c h w ∧ ∀ q < c.nqp, ∃ before after,
      initSteps (env.fill c) = before ++ .postRecv q :: after ∧
      Chain (fun i => ((before.foldl (Step.effect env (env.fill c))
          (opened env (env.fill c) h)).hibv_ctx.recv_pkts.pkt i).next)
        (some (q * c.recv_pkt_num)) (List.range' (q * c.recv_pkt_num) c.recv_pkt_num) := by
  rw [(init_finished hinit).2]
  obtain ⟨hfn, hfs, hfr⟩ := fill_of_pos env hn hs hr
  obtain ⟨hsend, hrecv⟩ := opened_pkts env (env.fill c) h
  have hcore := initSteps_workRequests env (opened env (env.fill c) h) (hfn.symm ▸ hn)
    (hfs.symm ▸ hs) (hfr.symm ▸ hr) (by rwa [hfs, hfn]) (by rwa [hfr, hfn])
  have hnqp : c.nqp < 2 ^ 31 := (Nat.le_mul_of_pos_left c.nqp hs).trans_lt hst
  constructor
  · obtain ⟨h₁, h₂, h₃, h₄, h₅, h₆⟩ := hcore
    rw [hsend, hfs, hfn] at h₁ h₅
    rw [hrecv, hfr, hfn] at h₂ h₆
    rw [hfs, hfn] at h₃
    rw [hfr, hfn] at h₄
    exact ⟨h₁, h₂, h₃, h₄, h₅, h₆⟩
  · have hwrap : ∀ q ≤ (env.fill c).nqp, q * (env.fill c).recv_pkt_num % 2 ^ 32 =
        q * (env.fill c).recv_pkt_num := by
      intro q hq
      rw [hfn] at hq
      have hle := Nat.mul_le_mul_right c.recv_pkt_num hq
      rw [Nat.mul_comm c.nqp] at hle
      rw [hfr]
      exact Nat.mod_eq_of_lt (by omega)
    intro q hq
    have hposted := linked_when_posted env (opened env (env.fill c) h) (hfn.symm ▸ hnqp)
      (hfr.symm ▸ hr) hwrap (hfn.symm ▸ hq)
    rwa [hfr] at hposted

/-- 2 queue pairs with 3 packets, whose work requests the user manages. -/
def userConfig : InitConfig := { smallConfig with user_managed_flag := true }

/-- Packet `i` has `i % 3` elements, so that some have none. -/
def userContext : Context :=
  { Context.zeros with
    send_pkt_buf := 4096, recv_pkt_buf := 8192, send_sge_buf := 12288, recv_sge_buf := 16384
    send_mr_buf := 2 ^ 40, recv_mr_buf := 2 ^ 41, send_mr_size := 4096, recv_mr_size := 4096
    send_pkts := ⟨fun i => ⟨0, i % 3, 0, none⟩, fun _ => ⟨2 ^ 40, 64, 0⟩⟩
    recv_pkts := ⟨fun i => ⟨0, i % 3, 0, none⟩, fun _ => ⟨2 ^ 41, 64, 0⟩⟩ }

theorem userConfig_runs :
    firstFailure (Step.succeeds willingEnv (willingEnv.fill userConfig))
      (initSteps (willingEnv.fill userConfig)) = none := by decide +kernel

theorem work_requests_set_up_userConfig : ∃ w,
    hashpipeIbvInit willingEnv userConfig userContext = some (0, w) ∧
      WorkRequestsSetUp willingEnv userConfig userContext w := by
  have hbuffers : userContext.hasBuffers = true := by decide
  have hinfo : willingEnv.get_interface_info = true := rfl
  have hdevice : willingEnv.open_device = true := rfl
  have hinit : hashpipeIbvInit willingEnv userConfig userContext =
      some (0, (initSteps (willingEnv.fill userConfig)).foldl
        (Step.effect willingEnv (willingEnv.fill userConfig))
        (opened willingEnv (willingEnv.fill userConfig) userContext)) := by
    simp only [hashpipeIbvInit, hbuffers, hinfo, hdevice, run_eq_finished userConfig_runs,
      Bool.not_true, Bool.and_false, Bool.false_eq_true, if_false]
  exact ⟨_, hinit, (work_requests_set_up (by decide) (by decide) (by decide) (by decide)
    (by decide) hinit).1⟩

end Hashpipe.Ibverbs
