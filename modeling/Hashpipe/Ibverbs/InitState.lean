import Hashpipe.Ibverbs.Init

/-!
# What `hashpipe_ibv_init` has built when it stops

The steps are sorted by `Step.rank`, so the failing step tells which ones came before it.
Every pointer of the context is written by one step, hence known from the steps done
(`Built`), and so are the resources acquired (`acquired_of_done`).
-/

namespace Hashpipe.Ibverbs

open StepSequence

/-- The position of a step in `hashpipe_ibv_init`; the steps of one loop share theirs. -/
def Step.rank : Step → ℕ
  | .checkPktNums => 0
  | .allocPd => 1
  | .createRecvCc => 2
  | .setNonblocking => 3
  | .callocSendCq => 4
  | .createSendCq _ => 5
  | .leave .sendCq => 6
  | .callocRecvCq => 7
  | .createRecvCq _ => 8
  | .reqNotifyCq _ => 8
  | .leave .recvCq => 9
  | .walkSges => 10
  | .callocQp => 11
  | .createQp _ => 12
  | .modifyQp _ => 12
  | .leave .qp => 13
  | .callocSendPktBuf => 14
  | .callocRecvPktBuf => 15
  | .callocSendSgeBuf => 16
  | .callocRecvSgeBuf => 17
  | .setMrSizes => 18
  | .mmapSend => 19
  | .mlockSend => 20
  | .mmapRecv => 21
  | .mlockRecv => 22
  | .regSendMr => 23
  | .regRecvMr => 24
  | .setUpSend => 25
  | .setUpRecv => 26
  | .linkSend => 27
  | .linkRecv _ => 28
  | .postRecv _ => 28
  | .leave .post => 29
  | .callocFlows => 30
  | .callocFlowDstIps => 31
  | .openSocket => 32

theorem ranked_of_decide {lo hi : ℕ} (as : List Step)
    (h : as.Pairwise (fun a b => a.rank ≤ b.rank) ∧ as.Nodup ∧
      as.all (fun a => decide (lo ≤ a.rank ∧ a.rank ≤ hi)) = true) : Ranked Step.rank lo hi as :=
  ⟨h.1, h.2.1, by simpa using h.2.2⟩

theorem forQps_ranked {c : InitConfig} {loop : QpLoop} {r : ℕ} {body : ℕ → List Step}
    (hrank : ∀ i, ∀ s ∈ body i, s.rank = r) (hnodup : ∀ i, (body i).Nodup)
    (hdisj : ∀ i j, i ≠ j → List.Disjoint (body i) (body j))
    (hleave : (Step.leave loop).rank = r + 1) :
    Ranked Step.rank r (r + 1) (forQps c loop body) := by
  have hlast : Ranked Step.rank (r + 1) (r + 1) [.leave loop] :=
    ⟨List.pairwise_singleton _ _, List.nodup_singleton _, by simp [hleave]⟩
  exact (Ranked.loop hrank hnodup hdisj).append hlast (Nat.le_succ r) (Nat.lt_succ_self r)
    (Nat.le_succ r)

theorem initSteps_ranked (c : InitConfig) : Ranked Step.rank 0 32 (initSteps c) := by
  have hsend : Ranked Step.rank 5 6 (forQps c .sendCq fun i => [.createSendCq i]) :=
    forQps_ranked (by simp [Step.rank]) (by simp) (fun i j hij => by simp [hij.symm]) rfl
  have hrecv : Ranked Step.rank 8 9
      (forQps c .recvCq fun i => [.createRecvCq i, .reqNotifyCq i]) :=
    forQps_ranked (by simp [Step.rank]) (by simp) (fun i j hij => by simp [hij.symm]) rfl
  have hqp : Ranked Step.rank 12 13 (forQps c .qp fun i => [.createQp i, .modifyQp i]) :=
    forQps_ranked (by simp [Step.rank]) (by simp) (fun i j hij => by simp [hij.symm]) rfl
  have hpost : Ranked Step.rank 28 29 (forQps c .post fun i => [.linkRecv i, .postRecv i]) :=
    forQps_ranked (by simp [Step.rank]) (by simp) (fun i j hij => by simp [hij.symm]) rfl
  have hwalk : Ranked Step.rank 10 10 (if c.user_managed_flag then [.walkSges] else []) := by
    split <;> exact ranked_of_decide _ (by decide)
  have halloc : Ranked Step.rank 14 22 (if c.user_managed_flag then [] else allocSteps) := by
    split <;> exact ranked_of_decide _ (by decide)
  have hhead : Ranked Step.rank 0 4
      [.checkPktNums, .allocPd, .createRecvCc, .setNonblocking, .callocSendCq] :=
    ranked_of_decide _ (by decide)
  have hmr : Ranked Step.rank 23 27 [.regSendMr, .regRecvMr, .setUpSend, .setUpRecv, .linkSend] :=
    ranked_of_decide _ (by decide)
  have hlast : Ranked Step.rank 30 32 [.callocFlows, .callocFlowDstIps, .openSocket] :=
    ranked_of_decide _ (by decide)
  have hcalloc : Ranked Step.rank 7 7 [.callocRecvCq] := ranked_of_decide _ (by decide)
  have hcallocQp : Ranked Step.rank 11 11 [.callocQp] := ranked_of_decide _ (by decide)
  unfold initSteps
  exact ((((((((((hhead.append hsend (by decide) (by decide) (by decide)).append
    hcalloc (by decide) (by decide) (by decide)).append
    hrecv (by decide) (by decide) (by decide)).append
    hwalk (by decide) (by decide) (by decide)).append
    hcallocQp (by decide) (by decide) (by decide)).append
    hqp (by decide) (by decide) (by decide)).append
    halloc (by decide) (by decide) (by decide)).append
    hmr (by decide) (by decide) (by decide)).append
    hpost (by decide) (by decide) (by decide)).append
    hlast (by decide) (by decide) (by decide))

/-! ### The resources acquired -/

/-- What a step acquires. -/
def Step.acquires (env : InitEnv) (c : InitConfig) (s : Step) : Option Resource :=
  let p := env.handle s
  match s with
  | .allocPd => some (.pd p)
  | .createRecvCc => some (.channel p)
  | .createSendCq _ => some (.cq p)
  | .createRecvCq _ => some (.cq p)
  | .createQp _ => some (.qp p)
  | .callocSendCq => some (.memory p)
  | .callocRecvCq => some (.memory p)
  | .callocQp => some (.memory p)
  | .callocSendPktBuf => some (.memory p)
  | .callocRecvPktBuf => some (.memory p)
  | .callocSendSgeBuf => some (.memory p)
  | .callocRecvSgeBuf => some (.memory p)
  | .mmapSend => some (.mapping p c.send_mr_size)
  | .mmapRecv => some (.mapping p c.recv_mr_size)
  | .regSendMr => some (.mr p)
  | .regRecvMr => some (.mr p)
  | .callocFlows => some (.memory p)
  | .callocFlowDstIps => some (.memory p)
  | .openSocket => some (.socket env.fd)
  | _ => none

theorem effect_acquired (env : InitEnv) (c : InitConfig) (w : World) (s : Step) :
    (s.effect env c w).acquired = w.acquired ++ (s.acquires env c).toList := by
  cases s <;> first | rfl | exact (List.append_nil _).symm

theorem acquired_of_done (env : InitEnv) (c : InitConfig) (done : List Step) (w : World) :
    (done.foldl (Step.effect env c) w).acquired =
      w.acquired ++ done.filterMap (Step.acquires env c) := by
  induction done generalizing w with
  | nil => exact (List.append_nil _).symm
  | cons s ss ih =>
    rw [List.foldl_cons, ih, effect_acquired, List.append_assoc]
    cases hs : s.acquires env c <;> simp [hs]

theorem released_of_done (env : InitEnv) (c : InitConfig) (done : List Step) (w : World) :
    (done.foldl (Step.effect env c) w).released = w.released :=
  foldl_kept (Step.effect env c) (fun w => w.released) (fun s _ w => by cases s <;> rfl) w

/-! ### The context -/

/-- What the pointer is that the step stores. -/
def made (env : InitEnv) (done : List Step) (s : Step) : ℕ := if s ∈ done then env.handle s else 0

/-- The context after the steps `done`, with library managed buffers. -/
structure Built (env : InitEnv) (done : List Step) (h : Context) : Prop where
  ctx : h.ctx = env.device
  pd : h.pd = made env done .allocPd
  recv_cc : h.recv_cc = made env done .createRecvCc
  send_cq : h.send_cq.ptr = made env done .callocSendCq
  send_cq_elem : ∀ i, h.send_cq.elem i = made env done (.createSendCq i)
  recv_cq : h.recv_cq.ptr = made env done .callocRecvCq
  recv_cq_elem : ∀ i, h.recv_cq.elem i = made env done (.createRecvCq i)
  qp : h.qp.ptr = made env done .callocQp
  qp_elem : ∀ i, h.qp.elem i = made env done (.createQp i)
  send_pkt_buf : h.send_pkt_buf = made env done .callocSendPktBuf
  recv_pkt_buf : h.recv_pkt_buf = made env done .callocRecvPktBuf
  send_sge_buf : h.send_sge_buf = made env done .callocSendSgeBuf
  recv_sge_buf : h.recv_sge_buf = made env done .callocRecvSgeBuf
  send_mr_buf : h.send_mr_buf = made env done .mmapSend
  recv_mr_buf : h.recv_mr_buf = made env done .mmapRecv
  send_mr : h.send_mr = made env done .regSendMr
  recv_mr : h.recv_mr = made env done .regRecvMr
  ibv_flows : h.ibv_flows.ptr = made env done .callocFlows
  ibv_flows_elem : ∀ i, h.ibv_flows.elem i = 0
  flow_dst_ips : h.flow_dst_ips = made env done .callocFlowDstIps
  mcast_subscriber : h.mcast_subscriber = if .openSocket ∈ done then (env.fd : ℤ) else -1

/-- A pointer that one step stores and no other touches. -/
theorem made_of_written {env : InitEnv} {c : InitConfig} {done : List Step} {w : World}
    (field : Context → ℕ) (a : Step)
    (hwrite : ∀ w, field (Step.effect env c w a).hibv_ctx = env.handle a)
    (hw : field w.hibv_ctx = 0)
    (hkeep : ∀ w s, s ≠ a → field (Step.effect env c w s).hibv_ctx = field w.hibv_ctx := by
      intro w s hne
      cases s <;> first | rfl | exact absurd rfl hne) :
    field (done.foldl (Step.effect env c) w).hibv_ctx = made env done a := by
  rw [foldl_written (Step.effect env c) (fun w => field w.hibv_ctx) a _ hwrite hkeep done w, hw]
  rfl

/-- An array element that one step stores, and that `calloc` cleared before. -/
theorem made_of_cleared {env : InitEnv} {c : InitConfig} {done : List Step} {w : World}
    (field : Context → ℕ) (a clear : Step)
    (hwrite : ∀ w, field (Step.effect env c w a).hibv_ctx = env.handle a)
    (hclear : ∀ w, field (Step.effect env c w clear).hibv_ctx = 0)
    (hkeep : ∀ w s, s ≠ a → s ≠ clear →
      field (Step.effect env c w s).hibv_ctx = field w.hibv_ctx)
    (hsorted : done.Pairwise fun s t => s.rank ≤ t.rank) (hrank : clear.rank < a.rank)
    (hw : field w.hibv_ctx = 0) :
    field (done.foldl (Step.effect env c) w).hibv_ctx = made env done a := by
  refine foldl_cleared (Step.effect env c) (fun w => field w.hibv_ctx) a clear _ 0 hwrite hclear
    hkeep (hsorted.imp ?_) hw
  intro s t hle hboth
  obtain ⟨rfl, rfl⟩ := hboth
  exact absurd hle (not_le.mpr hrank)

theorem built_opened (env : InitEnv) {c : InitConfig} (hu : c.user_managed_flag = false)
    (h : Context) (hflows : h.ibv_flows = .null) (hips : h.flow_dst_ips = 0) :
    Built env [] (opened env c h).hibv_ctx := by
  refine ⟨rfl, ?_, ?_, ?_, ?_, ?_, ?_, ?_, ?_, ?_, ?_, ?_, ?_, ?_, ?_, ?_, ?_, ?_, ?_, ?_, ?_⟩ <;>
    simp [opened, World.acquire, World.start, Context.reset, hu, made, PtrArray.null, hflows, hips]

theorem Built.run {env : InitEnv} {c : InitConfig} {done : List Step} {w : World}
    (hw : Built env [] w.hibv_ctx) (hsorted : done.Pairwise fun s t => s.rank ≤ t.rank) :
    Built env done (done.foldl (Step.effect env c) w).hibv_ctx where
  ctx := by
    rw [foldl_kept (Step.effect env c) (fun w => w.hibv_ctx.ctx) (fun s _ w => by cases s <;> rfl)]
    exact hw.ctx
  pd := made_of_written Context.pd .allocPd (fun _ => rfl)
    hw.pd
  recv_cc := made_of_written Context.recv_cc .createRecvCc (fun _ => rfl)
    hw.recv_cc
  send_cq := made_of_written (fun h => h.send_cq.ptr) .callocSendCq (fun _ => rfl)
    hw.send_cq
  send_cq_elem := fun i => by
    refine made_of_cleared (fun h => h.send_cq.elem i) (.createSendCq i) .callocSendCq
      (fun w => Function.update_self ..) (fun _ => rfl) (fun w s ha hc => ?_) hsorted (by simp [Step.rank])
      (hw.send_cq_elem i)
    cases s with
    | callocSendCq => exact absurd rfl hc
    | createSendCq j => exact Function.update_of_ne (fun hij => ha (by rw [hij])) _ _
    | _ => rfl
  recv_cq := made_of_written (fun h => h.recv_cq.ptr) .callocRecvCq (fun _ => rfl)
    hw.recv_cq
  recv_cq_elem := fun i => by
    refine made_of_cleared (fun h => h.recv_cq.elem i) (.createRecvCq i) .callocRecvCq
      (fun w => Function.update_self ..) (fun _ => rfl) (fun w s ha hc => ?_) hsorted (by simp [Step.rank])
      (hw.recv_cq_elem i)
    cases s with
    | callocRecvCq => exact absurd rfl hc
    | createRecvCq j => exact Function.update_of_ne (fun hij => ha (by rw [hij])) _ _
    | _ => rfl
  qp := made_of_written (fun h => h.qp.ptr) .callocQp (fun _ => rfl)
    hw.qp
  qp_elem := fun i => by
    refine made_of_cleared (fun h => h.qp.elem i) (.createQp i) .callocQp
      (fun w => Function.update_self ..) (fun _ => rfl) (fun w s ha hc => ?_) hsorted (by simp [Step.rank])
      (hw.qp_elem i)
    cases s with
    | callocQp => exact absurd rfl hc
    | createQp j => exact Function.update_of_ne (fun hij => ha (by rw [hij])) _ _
    | _ => rfl
  send_pkt_buf := made_of_written Context.send_pkt_buf .callocSendPktBuf (fun _ => rfl)
    hw.send_pkt_buf
  recv_pkt_buf := made_of_written Context.recv_pkt_buf .callocRecvPktBuf (fun _ => rfl)
    hw.recv_pkt_buf
  send_sge_buf := made_of_written Context.send_sge_buf .callocSendSgeBuf (fun _ => rfl)
    hw.send_sge_buf
  recv_sge_buf := made_of_written Context.recv_sge_buf .callocRecvSgeBuf (fun _ => rfl)
    hw.recv_sge_buf
  send_mr_buf := made_of_written Context.send_mr_buf .mmapSend (fun _ => rfl)
    hw.send_mr_buf
  recv_mr_buf := made_of_written Context.recv_mr_buf .mmapRecv (fun _ => rfl)
    hw.recv_mr_buf
  send_mr := made_of_written Context.send_mr .regSendMr (fun _ => rfl)
    hw.send_mr
  recv_mr := made_of_written Context.recv_mr .regRecvMr (fun _ => rfl)
    hw.recv_mr
  ibv_flows := made_of_written (fun h => h.ibv_flows.ptr) .callocFlows (fun _ => rfl)
    hw.ibv_flows
  ibv_flows_elem := fun i => by
    have hzero := foldl_written (Step.effect env c) (fun w => w.hibv_ctx.ibv_flows.elem i)
      .callocFlows 0 (fun _ => rfl)
      (fun w s hne => by cases s <;> first | rfl | exact absurd rfl hne) done w
    rw [hw.ibv_flows_elem i, ite_self] at hzero
    exact hzero
  flow_dst_ips := made_of_written Context.flow_dst_ips .callocFlowDstIps (fun _ => rfl)
    hw.flow_dst_ips
  mcast_subscriber := by
    have hfd := foldl_written (Step.effect env c) (fun w => w.hibv_ctx.mcast_subscriber)
      .openSocket _ (fun _ => rfl)
      (fun w s hne => by cases s <;> first | rfl | exact absurd rfl hne) done w
    rw [hw.mcast_subscriber] at hfd
    exact hfd

/-! ### Runs that succeed -/

/-- On success every step went through. -/
theorem init_finished {env : InitEnv} {c : InitConfig} {h : Context} {w : World}
    (hinit : hashpipeIbvInit env c h = some (0, w)) :
    firstFailure (Step.succeeds env (env.fill c)) (initSteps (env.fill c)) = none ∧
      w = (initSteps (env.fill c)).foldl (Step.effect env (env.fill c))
        (opened env (env.fill c) h) := by
  unfold hashpipeIbvInit at hinit
  dsimp only at hinit
  split at hinit
  · simp at hinit
  split at hinit
  · simp at hinit
  split at hinit
  · simp at hinit
  cases hfirst : firstFailure (Step.succeeds env (env.fill c)) (initSteps (env.fill c)) with
  | none =>
    rw [run_eq_finished hfirst] at hinit
    simpa [eq_comm] using hinit
  | some s =>
    obtain ⟨_, _, -, -, -, hrun⟩ := run_eq_stopped (Step.effect env (env.fill c)) Step.stop hfirst
    rw [hrun] at hinit
    revert hinit
    cases Step.stop _ s <;> simp

theorem Step.succeeds_of_firstFailure {env : InitEnv} {c : InitConfig} {s : Step}
    (h : firstFailure (Step.succeeds env c) (initSteps c) = none) (hs : s ∈ initSteps c) :
    s.succeeds env c = true := by
  have hall : ∀ s ∈ initSteps c, s.succeeds env c = true := by simpa [firstFailure] using h
  exact hall s hs

theorem fill_of_pos (env : InitEnv) {c : InitConfig} (hn : 1 ≤ c.nqp) (hs : 1 ≤ c.send_pkt_num)
    (hr : 1 ≤ c.recv_pkt_num) :
    (env.fill c).nqp = c.nqp ∧ (env.fill c).send_pkt_num = c.send_pkt_num ∧
      (env.fill c).recv_pkt_num = c.recv_pkt_num := by
  refine ⟨?_, ?_, ?_⟩
  · exact if_neg (by omega)
  · exact if_neg (by omega)
  · exact if_neg (by omega)

theorem init_succeeds {env : InitEnv} {c : InitConfig} (h : Context)
    (hu : c.user_managed_flag = false) (hinfo : env.get_interface_info = true)
    (hdev : env.open_device = true)
    (hfirst : firstFailure (Step.succeeds env (env.fill c)) (initSteps (env.fill c)) = none) :
    hashpipeIbvInit env c h = some (0, (initSteps (env.fill c)).foldl
      (Step.effect env (env.fill c)) (opened env (env.fill c) h)) := by
  have hfu : (env.fill c).user_managed_flag = false := hu
  simp only [hashpipeIbvInit, hfu, hinfo, hdev, Bool.false_and, Bool.not_true, if_false,
    Bool.false_eq_true, run_eq_finished hfirst]

/-- Every call succeeds; the two regions are mapped far apart. -/
def willingEnv : InitEnv where
  get_interface_info := true
  open_device := true
  ok := fun _ => true
  device := 2 ^ 20
  handle := fun s => if s = .mmapSend then 2 ^ 40 else if s = .mmapRecv then 2 ^ 41 else 2 ^ 21
  fd := 3
  max_qp_wr := 2 ^ 15
  send_lkey := 7
  recv_lkey := 8
  inherited := [0, 1, 2]
  device_pos := by decide
  handle_pos := by
    intro s
    split <;> [skip; split] <;> decide
  handle_lt := by
    intro s
    split <;> [skip; split] <;> decide
  max_qp_wr_lt := by decide

/-- `pkt_num` packets of `pkt_size_max` bytes on either side of each of `nqp` queue pairs. -/
def evenConfig (nqp pkt_num pkt_size_max : ℕ) (hn : nqp < 2 ^ 32) (hp : pkt_num < 2 ^ 32)
    (hm : pkt_size_max < 2 ^ 32) : InitConfig :=
  ⟨nqp, pkt_num, pkt_num, pkt_size_max, 1, false, hn, hp, hp, hm, by decide⟩

end Hashpipe.Ibverbs
