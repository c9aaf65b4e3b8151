import Hashpipe.Ibverbs.InitState

/-!
# Every resource released once

`hashpipe_ibv_init` that fails part way, or succeeds and is followed by
`hashpipe_ibv_shutdown`, with library managed buffers.  `resources_paired_iff` says when
the releasing calls match the acquiring ones and a further shutdown does nothing: it depends
on the first call that fails.

What breaks it: the lengths given to `munmap` leave out the number of queue pairs and are
32-bit products, `MAP_FAILED` is taken for a mapping, and `mcast_subscriber` is not reset
when it is closed.
-/

namespace Hashpipe.Ibverbs

open StepSequence

/-! ### What `hashpipe_ibv_shutdown` does -/

section Shutdown

variable {env : InitEnv} {c : InitConfig}

/-- A block only looks at what no other block clears, except that the flows come before
their array. -/
theorem Part.releases_clear {p q : Part} (hne : p ≠ q) (hp : p ≠ .flows) (h : Context) :
    p.releases c (q.clear c h) = p.releases c h ∧ p.counts c (q.clear c h) = p.counts c h := by
  cases hu : c.user_managed_flag <;> cases q <;>
    simp only [Part.clear, hu, if_true, if_false, Bool.false_eq_true, and_self] <;>
    cases p <;> first | exact ⟨rfl, rfl⟩ | exact absurd rfl hne | exact absurd rfl hp

theorem releaseOne_hibv_ctx (n : ℕ) (w : World) (h : Context) (r : Resource) :
    releaseOne env (n, { w with hibv_ctx := h }) r =
      ((releaseOne env (n, w) r).1, { (releaseOne env (n, w) r).2 with hibv_ctx := h }) := rfl

theorem releaseAll_hibv_ctx (env : InitEnv) (rs : List Resource) (n : ℕ) (w : World) (h : Context) :
    rs.foldl (releaseOne env) (n, { w with hibv_ctx := h }) =
      ((rs.foldl (releaseOne env) (n, w)).1,
        { (rs.foldl (releaseOne env) (n, w)).2 with hibv_ctx := h }) := by
  induction rs generalizing n w with
  | nil => rfl
  | cons r rs ih =>
    rw [List.foldl_cons, List.foldl_cons, releaseOne_hibv_ctx, ih]

theorem releaseAll_world (env : InitEnv) (rs : List Resource) (s : ℕ × World) :
    let t := rs.foldl (releaseOne env) s
    t.2.acquired = s.2.acquired ∧ t.2.released = s.2.released ++ rs ∧ t.2.caps = s.2.caps ∧
      t.2.posted = s.2.posted := by
  induction rs generalizing s with
  | nil => simp
  | cons r rs ih =>
    obtain ⟨hacq, hrel, hcaps, hposted⟩ := ih (releaseOne env s r)
    refine ⟨hacq, hrel.trans ?_, hcaps, hposted⟩
    exact List.append_assoc _ [r] rs

/-- Blocks that do not disturb one another release what the context holds at the start. -/
theorem foldlM_parts (ps : List Part)
    (hind : ps.Pairwise fun q p => p ≠ q ∧ p ≠ .flows) (n : ℕ) (w : World) :
    ps.foldlM (Part.run env c) (n, w) =
      if ps.all fun p => p.counts c w.hibv_ctx then
        some (((ps.flatMap (Part.releases c w.hibv_ctx)).foldl (releaseOne env) (n, w)).1,
          { w with
            hibv_ctx := ps.foldl (Part.clear c) w.hibv_ctx
            released := w.released ++ ps.flatMap (Part.releases c w.hibv_ctx) })
      else none := by
  induction ps generalizing n w with
  | nil => simp
  | cons p ps ih =>
    obtain ⟨hp, hps⟩ := List.pairwise_cons.mp hind
    rw [List.foldlM_cons, Part.run]
    cases hc : p.counts c w.hibv_ctx with
    | false => simp [hc]
    | true =>
      have hsame : ∀ q ∈ ps, q.releases c (p.clear c w.hibv_ctx) = q.releases c w.hibv_ctx ∧
          q.counts c (p.clear c w.hibv_ctx) = q.counts c w.hibv_ctx :=
        fun q hq => Part.releases_clear (hp q hq).1 (hp q hq).2 _
      have hall : (ps.all fun q => q.counts c (p.clear c w.hibv_ctx)) =
          ps.all fun q => q.counts c w.hibv_ctx := by
        rw [Bool.eq_iff_iff, List.all_eq_true, List.all_eq_true]
        exact forall₂_congr fun q hq => by rw [(hsame q hq).2]
      have hflat : ps.flatMap (Part.releases c (p.clear c w.hibv_ctx)) =
          ps.flatMap (Part.releases c w.hibv_ctx) :=
        List.flatMap_congr fun q hq => (hsame q hq).1
      obtain ⟨hacq, hrel, hcaps, hposted⟩ := releaseAll_world env (p.releases c w.hibv_ctx) (n, w)
      have hrc := releaseAll_hibv_ctx env (ps.flatMap (Part.releases c w.hibv_ctx))
        ((p.releases c w.hibv_ctx).foldl (releaseOne env) (n, w)).1
        ((p.releases c w.hibv_ctx).foldl (releaseOne env) (n, w)).2 (p.clear c w.hibv_ctx)
      simp only [if_true, Option.bind_eq_bind, Option.bind_some, ih hps, hall, hflat, hc,
        List.all_cons, Bool.true_and, List.foldl_cons, List.flatMap_cons, List.foldl_append, hrc]
      simp only [hacq, hrel, hcaps, hposted, List.append_assoc]

theorem hashpipeIbvShutdown_eq (w : World) :
    hashpipeIbvShutdown env c w =
      if shutdownParts.all fun p => p.counts c w.hibv_ctx then
        some (((shutdownParts.flatMap (Part.releases c w.hibv_ctx)).foldl (releaseOne env)
            (0, w)).1,
          { w with
            hibv_ctx := shutdownParts.foldl (Part.clear c) w.hibv_ctx
            released := w.released ++ shutdownParts.flatMap (Part.releases c w.hibv_ctx) })
      else none :=
  foldlM_parts shutdownParts (by decide) 0 w

end Shutdown

/-! ### The resources of a context built by the steps `done` -/

section Holdings

variable {env : InitEnv} {c : InitConfig} {done : List Step}

/-- What the step acquired, if it was taken. -/
def heldBy (env : InitEnv) (c : InitConfig) (done : List Step) (s : Step) : List Resource :=
  if s ∈ done then (s.acquires env c).toList else []

theorem made_eq_zero (s : Step) : made env done s = 0 ↔ s ∉ done := by
  unfold made
  split
  · rename_i hmem
    simp [hmem, (env.handle_pos s).ne']
  · rename_i hmem
    simp [hmem]

theorem unlessNull_made {s : Step} {r : ℕ → Resource} {p : ℕ} (hp : p = made env done s)
    (hr : s.acquires env c = some (r (env.handle s))) :
    unlessNull p (r p) = heldBy env c done s := by
  subst hp
  by_cases hmem : s ∈ done
  · have hne := (env.handle_pos s).ne'
    simp [unlessNull, made, heldBy, hmem, hne, hr]
  · simp [unlessNull, made, heldBy, hmem]

/-- The elements that one loop makes. -/
def heldByLoop (env : InitEnv) (c : InitConfig) (done : List Step) (step : ℕ → Step) :
    List Resource :=
  (List.range (min c.nqp (2 ^ 31))).flatMap fun i => heldBy env c done (step i)

theorem releaseArray_made {calloc : Step} {step : ℕ → Step} {r : ℕ → Resource} {a : PtrArray}
    (hptr : a.ptr = made env done calloc) (helem : ∀ i, a.elem i = made env done (step i))
    (hcalloc : calloc.acquires env c = some (.memory (env.handle calloc)))
    (hstep : ∀ i, (step i).acquires env c = some (r (env.handle (step i))))
    (hfirst : ∀ i, step i ∈ done → calloc ∈ done ∧ i < min c.nqp (2 ^ 31)) :
    releaseArray c.nqp a r = heldByLoop env c done step ++ heldBy env c done calloc := by
  have hrest : ∀ i, unlessNull (a.elem i) (r (a.elem i)) = heldBy env c done (step i) :=
    fun i => unlessNull_made (helem i) (hstep i)
  by_cases hmem : calloc ∈ done
  · have hne : a.ptr ≠ 0 := by
      rw [hptr, Ne, made_eq_zero, not_not]
      exact hmem
    have hsplit : c.nqp = min c.nqp (2 ^ 31) + (c.nqp - min c.nqp (2 ^ 31)) := by omega
    have hlate : ((List.range (c.nqp - min c.nqp (2 ^ 31))).map (min c.nqp (2 ^ 31) + ·)).flatMap
        (fun i => heldBy env c done (step i)) = [] := by
      refine List.flatMap_eq_nil_iff.mpr fun i hi => if_neg fun hdone => ?_
      obtain ⟨k, -, rfl⟩ := List.mem_map.mp hi
      have := (hfirst _ hdone).2
      omega
    have hall : ((List.range c.nqp).flatMap fun i => heldBy env c done (step i)) =
        heldByLoop env c done step := by
      conv_lhs => rw [hsplit, List.range_add, List.flatMap_append, hlate, List.append_nil]
      rfl
    have hmemory : heldBy env c done calloc = [.memory a.ptr] := by
      simp [heldBy, hmem, hcalloc, hptr, made]
    simp only [releaseArray, if_neg hne, hrest, hall, hmemory]
  · have hzero : a.ptr = 0 := by rw [hptr, made_eq_zero]; exact hmem
    have hnone : ∀ i, heldBy env c done (step i) = [] :=
      fun i => if_neg fun hdone => hmem (hfirst i hdone).1
    have hnocalloc : heldBy env c done calloc = [] := if_neg hmem
    simp [releaseArray, hzero, heldByLoop, hnone, hnocalloc]

/-- A step that acquires nothing. -/
theorem heldBy_of_none {s : Step} (h : s.acquires env c = none) : heldBy env c done s = [] := by
  simp [heldBy, h]

/-- What a loop over the queue pairs acquired, if each round acquires in its first step. -/
theorem flatMap_forQps {loop : QpLoop} {body : ℕ → List Step} {step : ℕ → Step}
    (hbody : ∀ i, (body i).flatMap (heldBy env c done) = heldBy env c done (step i)) :
    (forQps c loop body).flatMap (heldBy env c done) = heldByLoop env c done step := by
  have hleave : heldBy env c done (.leave loop) = [] := heldBy_of_none rfl
  rw [forQps, List.flatMap_append, List.flatMap_assoc]
  simp [hbody, heldByLoop, hleave]

/-- Everything acquired after the device, with library managed buffers. -/
theorem flatMap_initSteps (hu : c.user_managed_flag = false) :
    (initSteps c).flatMap (heldBy env c done) =
      heldBy env c done .allocPd ++ heldBy env c done .createRecvCc ++
      heldBy env c done .callocSendCq ++ heldByLoop env c done .createSendCq ++
      heldBy env c done .callocRecvCq ++ heldByLoop env c done .createRecvCq ++
      heldBy env c done .callocQp ++ heldByLoop env c done .createQp ++
      heldBy env c done .callocSendPktBuf ++ heldBy env c done .callocRecvPktBuf ++
      heldBy env c done .callocSendSgeBuf ++ heldBy env c done .callocRecvSgeBuf ++
      heldBy env c done .mmapSend ++ heldBy env c done .mmapRecv ++
      heldBy env c done .regSendMr ++ heldBy env c done .regRecvMr ++
      heldBy env c done .callocFlows ++ heldBy env c done .callocFlowDstIps ++
      heldBy env c done .openSocket := by
  have hnotify : ∀ i, heldBy env c done (.reqNotifyCq i) = [] := fun i => heldBy_of_none rfl
  have hmodify : ∀ i, heldBy env c done (.modifyQp i) = [] := fun i => heldBy_of_none rfl
  have hlink : ∀ i, heldBy env c done (.linkRecv i) = [] := fun i => heldBy_of_none rfl
  have hpost : ∀ i, heldBy env c done (.postRecv i) = [] := fun i => heldBy_of_none rfl
  have hcheck : heldBy env c done .checkPktNums = [] := heldBy_of_none rfl
  have hnonblock : heldBy env c done .setNonblocking = [] := heldBy_of_none rfl
  have hsizes : heldBy env c done .setMrSizes = [] := heldBy_of_none rfl
  have hlocks : heldBy env c done .mlockSend = [] := heldBy_of_none rfl
  have hlockr : heldBy env c done .mlockRecv = [] := heldBy_of_none rfl
  have hsets : heldBy env c done .setUpSend = [] := heldBy_of_none rfl
  have hsetr : heldBy env c done .setUpRecv = [] := heldBy_of_none rfl
  have hlinks : heldBy env c done .linkSend = [] := heldBy_of_none rfl
  have hsendCqs : (forQps c .sendCq fun i => [.createSendCq i]).flatMap (heldBy env c done) =
      heldByLoop env c done .createSendCq := flatMap_forQps (by simp)
  have hrecvCqs : (forQps c .recvCq fun i => [.createRecvCq i, .reqNotifyCq i]).flatMap
      (heldBy env c done) = heldByLoop env c done .createRecvCq :=
    flatMap_forQps (by simp [hnotify])
  have hqps : (forQps c .qp fun i => [.createQp i, .modifyQp i]).flatMap (heldBy env c done) =
      heldByLoop env c done .createQp := flatMap_forQps (by simp [hmodify])
  have hposts : (forQps c .post fun i => [.linkRecv i, .postRecv i]).flatMap
      (heldBy env c done) = [] := by
    have hloop : (forQps c .post fun i => [.linkRecv i, .postRecv i]).flatMap
        (heldBy env c done) = heldByLoop env c done .postRecv := flatMap_forQps (by simp [hlink])
    rw [hloop]
    simp [heldByLoop, hpost]
  simp [initSteps, hu, allocSteps, hsendCqs, hrecvCqs, hqps, hposts, hcheck, hnonblock, hsizes,
    hlocks, hlockr, hsets, hsetr, hlinks]

/-- An array exists when its elements do, and they are as many as the loop can make. -/
theorem arrays_of_done {rest : List Step} (h : initSteps c = done ++ rest) :
    (∀ i, .createSendCq i ∈ done → .callocSendCq ∈ done ∧ i < min c.nqp (2 ^ 31)) ∧
    (∀ i, .createRecvCq i ∈ done → .callocRecvCq ∈ done ∧ i < min c.nqp (2 ^ 31)) ∧
    (∀ i, .createQp i ∈ done → .callocQp ∈ done ∧ i < min c.nqp (2 ^ 31)) := by
  have hsorted := (initSteps_ranked c).sorted
  have hmem : ∀ s ∈ done, s ∈ initSteps c := by
    intro s hs
    rw [h]
    exact List.mem_append_left _ hs
  have hsteps : .callocSendCq ∈ initSteps c ∧ .callocRecvCq ∈ initSteps c ∧
      .callocQp ∈ initSteps c := by simp [initSteps]
  refine ⟨fun i hi => ⟨?_, ?_⟩, fun i hi => ⟨?_, ?_⟩, fun i hi => ⟨?_, ?_⟩⟩
  · exact mem_done_of_rank_lt_mem h hsorted hi hsteps.1 (by simp [Step.rank])
  · have := hmem _ hi
    simp only [initSteps, forQps, allocSteps] at this
    cases hu : c.user_managed_flag <;> simp [hu] at this <;> omega
  · exact mem_done_of_rank_lt_mem h hsorted hi hsteps.2.1 (by simp [Step.rank])
  · have := hmem _ hi
    simp only [initSteps, forQps, allocSteps] at this
    cases hu : c.user_managed_flag <;> simp [hu] at this <;> omega
  · exact mem_done_of_rank_lt_mem h hsorted hi hsteps.2.2 (by simp [Step.rank])
  · have := hmem _ hi
    simp only [initSteps, forQps, allocSteps] at this
    cases hu : c.user_managed_flag <;> simp [hu] at this <;> omega

/-- **What a shutdown releases against what was acquired**: they differ in the mappings
only, for any values of the two region pointers. -/
theorem releases_balance (hu : c.user_managed_flag = false) {rest : List Step}
    (htaken : initSteps c = done ++ rest) {h h' : Context} (hb : Built env done h) {x y : ℕ}
    (hh' : h' = { h with send_mr_buf := x, recv_mr_buf := y }) :
    (↑(shutdownParts.flatMap (Part.releases c h')) : Multiset Resource) +
        ↑(heldBy env c done .mmapSend) + ↑(heldBy env c done .mmapRecv) =
      ↑(Resource.device env.device :: done.filterMap (Step.acquires env c)) +
        ↑(unlessNull x (.mapping x c.send_munmap_length)) +
        ↑(unlessNull y (.mapping y c.recv_munmap_length)) := by
  subst hh'
  set h' := { h with send_mr_buf := x, recv_mr_buf := y } with hh'
  obtain ⟨hsendCqs, hrecvCqs, hqps⟩ := arrays_of_done htaken
  have hflows : Part.flows.releases c h' = [] := by
    simp [Part.releases, hh', hb.ibv_flows_elem]
  have hctx : Part.ctx.releases c h' = [.device env.device] := by
    simp [Part.releases, hh', hb.ctx, unlessNull, env.device_pos.ne']
  have hmcast : Part.mcast_subscriber.releases c h' = heldBy env c done .openSocket := by
    by_cases hmem : .openSocket ∈ done
    · have hfd : (env.fd : ℤ) ≠ -1 := by omega
      simp [Part.releases, hh', hb.mcast_subscriber, hmem, heldBy, Step.acquires, hfd]
    · simp [Part.releases, hh', hb.mcast_subscriber, hmem, heldBy]
  have hsendMr : Part.send_mr.releases c h' = heldBy env c done .regSendMr :=
    unlessNull_made hb.send_mr rfl
  have hrecvMr : Part.recv_mr.releases c h' = heldBy env c done .regRecvMr :=
    unlessNull_made hb.recv_mr rfl
  have hqp : Part.qp.releases c h' = heldByLoop env c done .createQp ++
      heldBy env c done .callocQp :=
    releaseArray_made hb.qp hb.qp_elem rfl (fun _ => rfl) hqps
  have hsendCq : Part.send_cq.releases c h' = heldByLoop env c done .createSendCq ++
      heldBy env c done .callocSendCq :=
    releaseArray_made hb.send_cq hb.send_cq_elem rfl (fun _ => rfl) hsendCqs
  have hrecvCq : Part.recv_cq.releases c h' = heldByLoop env c done .createRecvCq ++
      heldBy env c done .callocRecvCq :=
    releaseArray_made hb.recv_cq hb.recv_cq_elem rfl (fun _ => rfl) hrecvCqs
  have hcc : Part.recv_cc.releases c h' = heldBy env c done .createRecvCc :=
    unlessNull_made hb.recv_cc rfl
  have hpd : Part.pd.releases c h' = heldBy env c done .allocPd := unlessNull_made hb.pd rfl
  have hhead : Part.send_pkt_head.releases c h' = [] := rfl
  have hsendPkt : Part.send_pkt_buf.releases c h' = heldBy env c done .callocSendPktBuf := by
    rw [Part.releases, hu]
    exact unlessNull_made hb.send_pkt_buf rfl
  have hrecvPkt : Part.recv_pkt_buf.releases c h' = heldBy env c done .callocRecvPktBuf := by
    rw [Part.releases, hu]
    exact unlessNull_made hb.recv_pkt_buf rfl
  have hsendSge : Part.send_sge_buf.releases c h' = heldBy env c done .callocSendSgeBuf := by
    rw [Part.releases, hu]
    exact unlessNull_made hb.send_sge_buf rfl
  have hrecvSge : Part.recv_sge_buf.releases c h' = heldBy env c done .callocRecvSgeBuf := by
    rw [Part.releases, hu]
    exact unlessNull_made hb.recv_sge_buf rfl
  have hsendBuf : Part.send_mr_buf.releases c h' =
      unlessNull x (.mapping x c.send_munmap_length) := by
    rw [Part.releases, hu]
    rfl
  have hrecvBuf : Part.recv_mr_buf.releases c h' =
      unlessNull y (.mapping y c.recv_munmap_length) := by
    rw [Part.releases, hu]
    rfl
  have hfl : Part.ibv_flows.releases c h' = heldBy env c done .callocFlows :=
    unlessNull_made hb.ibv_flows rfl
  have hips : Part.flow_dst_ips.releases c h' = heldBy env c done .callocFlowDstIps :=
    unlessNull_made hb.flow_dst_ips rfl
  have hacquired : done.filterMap (Step.acquires env c) =
      (initSteps c).flatMap (heldBy env c done) :=
    (flatMap_done htaken (initSteps_ranked c).nodup _).symm
  rw [hacquired, flatMap_initSteps hu, ← List.singleton_append]
  simp only [shutdownParts, List.flatMap_cons, List.flatMap_nil, List.append_nil, hflows, hctx,
    hmcast, hsendMr, hrecvMr, hqp, hsendCq, hrecvCq, hcc, hpd, hhead, hsendPkt, hrecvPkt, hsendSge,
    hrecvSge, hsendBuf, hrecvBuf, hfl, hips, ← Multiset.coe_add, List.nil_append]
  abel

end Holdings

/-! ### The two mappings -/

/-- Lengths that agree, for the mappings that were made. -/
theorem mappings_balance {a b : ℕ} (hab : a ≠ b) (m n m' n' : ℕ) :
    ({.mapping a m} + {.mapping b n} : Multiset Resource) = {.mapping a m'} + {.mapping b n'} ↔
      m = m' ∧ n = n' := by
  constructor
  · intro heq
    have hm : Resource.mapping a m ∈ ({.mapping a m'} + {.mapping b n'} : Multiset Resource) := by
      rw [← heq]
      simp
    have hn : Resource.mapping b n ∈ ({.mapping a m'} + {.mapping b n'} : Multiset Resource) := by
      rw [← heq]
      simp
    simp [hab] at hm
    simp [hab.symm] at hn
    exact ⟨hm, hn⟩
  · intro hlen
    obtain ⟨rfl, rfl⟩ := hlen
    rfl

/-! ### Init and shutdown -/

/-- The releases so far match the acquisitions, and a further shutdown releases nothing and
returns 0. -/
def PairsUp (env : InitEnv) (c : InitConfig) (w : World) : Prop :=
  w.released.Perm w.acquired ∧
    ∃ w', hashpipeIbvShutdown env c w = some (0, w') ∧ w'.released = w.released

/-- `hashpipe_ibv_init` on a context of zeros, and `hashpipe_ibv_shutdown` if it succeeds. -/
def initAndShutdown (env : InitEnv) (c : InitConfig) : Option World :=
  match hashpipeIbvInit env c .zeros with
  | none => none
  | some (rc, w) =>
    if rc = 0 then (hashpipeIbvShutdown env (env.fill c) w).map Prod.snd else some w

def ResourcesPaired (env : InitEnv) (c : InitConfig) : Prop :=
  ∃ w, initAndShutdown env c = some w ∧ PairsUp env (env.fill c) w

/-- When the first call to fail is the one of step `s`: it is a call, and not one of the two
`mmap`; the queue pairs and flows made so far can be counted by an `int`; and `munmap` is
given the length of each mapping made so far. -/
structure FailsCleanly (c : InitConfig) (s : Step) : Prop where
  isCall : s.isCall = true
  not_mmapSend : s ≠ .mmapSend
  not_mmapRecv : s ≠ .mmapRecv
  qps : Step.callocSendCq.rank < s.rank → c.nqp < 2 ^ 31
  flows : Step.callocFlows.rank < s.rank → c.flows_total < 2 ^ 31
  send_length : Step.mmapSend.rank < s.rank → c.send_munmap_length = c.send_mr_size
  recv_length : Step.mmapRecv.rank < s.rank → c.recv_munmap_length = c.recv_mr_size

/-- The 32-bit length of one queue pair is the 64-bit length of all only if there is one, with
less than 4 GiB. -/
theorem munmap_length_eq_iff {bytes nqp : ℕ} (hb : 0 < bytes) (hn : 0 < nqp)
    (hfits : bytes * nqp < 2 ^ 64) :
    bytes % 2 ^ 32 = bytes * nqp % 2 ^ 64 ↔ nqp = 1 ∧ bytes < 2 ^ 32 := by
  rw [Nat.mod_eq_of_lt hfits]
  constructor
  · intro heq
    have hmod : bytes % 2 ^ 32 ≤ bytes := Nat.mod_le _ _
    have hle : bytes * nqp ≤ bytes * 1 := by omega
    have hone : nqp = 1 := by
      have := Nat.le_of_mul_le_mul_left hle hb
      omega
    subst hone
    omega
  · intro hboth
    obtain ⟨rfl, hlt⟩ := hboth
    rw [Nat.mod_eq_of_lt hlt, Nat.mul_one]

section Paired

variable {env : InitEnv} {c : InitConfig}

/-- **The lengths that `munmap` is given** are those that were mapped for one queue pair with
less than 4 GiB on either side only, as long as no 64-bit product wraps around. -/
theorem munmap_lengths_iff (hn : 0 < c.nqp) (hs : 0 < c.send_pkt_num * c.pkt_size_max)
    (hr : 0 < c.recv_pkt_num * c.pkt_size_max)
    (hsend : c.send_pkt_num * c.pkt_size_max * c.nqp < 2 ^ 64)
    (hrecv : c.recv_pkt_num * c.pkt_size_max * c.nqp < 2 ^ 64) :
    c.send_munmap_length = c.send_mr_size ∧ c.recv_munmap_length = c.recv_mr_size ↔
      c.nqp = 1 ∧ c.send_pkt_num * c.pkt_size_max < 2 ^ 32 ∧
        c.recv_pkt_num * c.pkt_size_max < 2 ^ 32 := by
  rw [InitConfig.send_munmap_length, InitConfig.send_mr_size, InitConfig.recv_munmap_length,
    InitConfig.recv_mr_size, munmap_length_eq_iff hs hn hsend, munmap_length_eq_iff hr hn hrecv]
  constructor
  · intro hboth
    obtain ⟨⟨hone, hs32⟩, -, hr32⟩ := hboth
    exact ⟨hone, hs32, hr32⟩
  · intro hall
    obtain ⟨hone, hs32, hr32⟩ := hall
    exact ⟨⟨hone, hs32⟩, hone, hr32⟩

theorem pairsUp_iff (w : World) :
    PairsUp env c w ↔ w.released.Perm w.acquired ∧
      (shutdownParts.all fun p => p.counts c w.hibv_ctx) = true ∧
      shutdownParts.flatMap (Part.releases c w.hibv_ctx) = [] := by
  unfold PairsUp
  rw [hashpipeIbvShutdown_eq]
  refine and_congr_right fun _ => ?_
  constructor
  · intro hex
    obtain ⟨w', heq, hrel⟩ := hex
    by_cases hcount : (shutdownParts.all fun p => p.counts c w.hibv_ctx) = true
    · rw [if_pos hcount, Option.some.injEq, Prod.mk.injEq] at heq
      obtain ⟨-, rfl⟩ := heq
      exact ⟨hcount, List.append_right_eq_self.mp hrel⟩
    · rw [if_neg hcount] at heq
      cases heq
  · intro hboth
    obtain ⟨hcount, hnil⟩ := hboth
    rw [if_pos hcount, hnil]
    exact ⟨_, rfl, List.append_nil _⟩

/-- What is left to release after a shutdown: `mcast_subscriber`, which it does not reset. -/
theorem releases_cleared (hu : c.user_managed_flag = false) (h : Context) :
    shutdownParts.flatMap (Part.releases c (shutdownParts.foldl (Part.clear c) h)) =
      if h.mcast_subscriber = -1 then [] else [.socket h.mcast_subscriber] := by
  simp [shutdownParts, Part.clear, Part.releases, hu, unlessNull, releaseArray, PtrArray.null]

theorem counts_cleared (hu : c.user_managed_flag = false) (h : Context) :
    (shutdownParts.all fun p => p.counts c (shutdownParts.foldl (Part.clear c) h)) = true := by
  simp [shutdownParts, Part.clear, Part.counts, hu, PtrArray.null]

/-- A shutdown and then a further one, from a context that has released nothing yet. -/
theorem shutdown_pairsUp_iff (hu : c.user_managed_flag = false) {w : World}
    (hw : w.released = []) :
    (∃ w', (hashpipeIbvShutdown env c w).map Prod.snd = some w' ∧ PairsUp env c w') ↔
      (shutdownParts.all fun p => p.counts c w.hibv_ctx) = true ∧
      (shutdownParts.flatMap (Part.releases c w.hibv_ctx)).Perm w.acquired ∧
      w.hibv_ctx.mcast_subscriber = -1 := by
  rw [hashpipeIbvShutdown_eq, hw, List.nil_append]
  by_cases hcount : (shutdownParts.all fun p => p.counts c w.hibv_ctx) = true
  · simp only [if_pos hcount, Option.map_some, Option.some.injEq, exists_eq_left', pairsUp_iff,
      counts_cleared hu, releases_cleared hu]
    simp [hcount]
  · simp [hcount]

/-- The steps that tell how far a run came; each has its rank to itself. -/
def milestones : List Step := [.callocSendCq, .callocFlows, .mmapSend, .mmapRecv, .openSocket]

theorem eq_of_rank_eq {s t : Step} (ht : t ∈ milestones) (h : s.rank = t.rank) : s = t := by
  simp only [milestones, List.mem_cons, List.not_mem_nil, or_false] at ht
  rcases ht with rfl | rfl | rfl | rfl | rfl <;>
  · cases s with
    | leave loop => cases loop <;> simp [Step.rank] at h
    | _ => first | rfl | simp [Step.rank] at h

theorem milestone_done_iff {done rest : List Step} {s t : Step} (hu : c.user_managed_flag = false)
    (htaken : initSteps c = done ++ s :: rest) (ht : t ∈ milestones) :
    t ∈ done ↔ t.rank < s.rank := by
  have hmem : t ∈ initSteps c := by
    simp only [milestones, List.mem_cons, List.not_mem_nil, or_false] at ht
    rcases ht with rfl | rfl | rfl | rfl | rfl <;> simp [initSteps, hu, allocSteps]
  exact mem_done_iff htaken (initSteps_ranked c).sorted (initSteps_ranked c).nodup hmem
    fun x => eq_of_rank_eq ht

theorem openSocket_not_done {done rest : List Step} {s : Step} (hu : c.user_managed_flag = false)
    (htaken : initSteps c = done ++ s :: rest) : .openSocket ∉ done := by
  have hs : s ∈ initSteps c := by simp [htaken]
  have hle := ((initSteps_ranked c).between s hs).2
  rw [milestone_done_iff hu htaken (by simp [milestones])]
  simp only [Step.rank, not_lt]
  exact hle

/-- The context that a failing step leaves. -/
theorem failed_hibv_ctx (w : World) (s : Step) :
    (s.failed w).hibv_ctx = { w.hibv_ctx with
      send_mr_buf := if s = .mmapSend then MAP_FAILED else w.hibv_ctx.send_mr_buf
      recv_mr_buf := if s = .mmapRecv then MAP_FAILED else w.hibv_ctx.recv_mr_buf } := by
  cases s <;> rfl

theorem failed_logs (w : World) (s : Step) :
    (s.failed w).acquired = w.acquired ∧ (s.failed w).released = w.released := by
  cases s <;> exact ⟨rfl, rfl⟩

/-- The loops of the shutdown can count to their bounds. -/
theorem counts_iff {done : List Step} {h : Context} (hb : Built env done h) {x y : ℕ}
    (harrays : (.callocRecvCq ∈ done → .callocSendCq ∈ done) ∧
      (.callocQp ∈ done → .callocSendCq ∈ done)) :
    (shutdownParts.all fun p =>
        p.counts c { h with send_mr_buf := x, recv_mr_buf := y }) = true ↔
      (.callocSendCq ∈ done → c.nqp < 2 ^ 31) ∧
        (.callocFlows ∈ done → c.flows_total < 2 ^ 31) := by
  simp only [shutdownParts, List.all_cons, List.all_nil, Part.counts, hb.ibv_flows, hb.qp,
    hb.send_cq, hb.recv_cq, Bool.and_true, Bool.true_and, Bool.and_eq_true, Bool.or_eq_true,
    beq_iff_eq, made_eq_zero, decide_eq_true_eq, ← imp_iff_not_or]
  constructor
  · intro hall
    obtain ⟨hflows, -, hsend, -⟩ := hall
    exact ⟨hsend, hflows⟩
  · intro hall
    obtain ⟨hsend, hflows⟩ := hall
    exact ⟨hflows, fun hmem => hsend (harrays.2 hmem), hsend, fun hmem => hsend (harrays.1 hmem)⟩

theorem mmap_handles_ne (hs : Step.succeeds env c .mmapSend = true)
    (hr : Step.succeeds env c .mmapRecv = true) :
    env.handle .mmapSend ≠ env.handle .mmapRecv := by
  simp only [Step.succeeds, freeRegion, Bool.and_eq_true, decide_eq_true_eq] at hs hr
  omega

/-- The mappings made against those that the shutdown takes for made. -/
theorem mappings_iff {done rest : List Step} {s : Step} (hu : c.user_managed_flag = false)
    (htaken : initSteps c = done ++ s :: rest) (hdone : ∀ b ∈ done, b.succeeds env c = true)
    {x y : ℕ} (hx : x = if s = .mmapSend then MAP_FAILED else made env done .mmapSend)
    (hy : y = if s = .mmapRecv then MAP_FAILED else made env done .mmapRecv) :
    (↑(heldBy env c done .mmapSend) + ↑(heldBy env c done .mmapRecv) : Multiset Resource) =
        ↑(unlessNull x (.mapping x c.send_munmap_length)) +
          ↑(unlessNull y (.mapping y c.recv_munmap_length)) ↔
      s ≠ .mmapSend ∧ s ≠ .mmapRecv ∧
        (.mmapSend ∈ done → c.send_munmap_length = c.send_mr_size) ∧
        (.mmapRecv ∈ done → c.recv_munmap_length = c.recv_mr_size) := by
  have hsend := milestone_done_iff hu htaken (t := .mmapSend) (by simp [milestones])
  have hrecv := milestone_done_iff hu htaken (t := .mmapRecv) (by simp [milestones])
  have hheldSend : heldBy env c done .mmapSend = if .mmapSend ∈ done then
      [.mapping (env.handle .mmapSend) c.send_mr_size] else [] := rfl
  have hheldRecv : heldBy env c done .mmapRecv = if .mmapRecv ∈ done then
      [.mapping (env.handle .mmapRecv) c.recv_mr_size] else [] := rfl
  have hpos : ∀ t : Step, env.handle t ≠ 0 := fun t => (env.handle_pos t).ne'
  have hfailed : MAP_FAILED ≠ 0 := by decide
  by_cases hsx : s = .mmapSend
  · subst hsx
    have hnosend : .mmapSend ∉ done := by rw [hsend]; exact lt_irrefl _
    have hnorecv : .mmapRecv ∉ done := by rw [hrecv]; decide
    simp [hheldSend, hheldRecv, hnosend, hnorecv, hx, hy, made, unlessNull, hfailed]
  by_cases hsy : s = .mmapRecv
  · subst hsy
    have hdsend : .mmapSend ∈ done := by rw [hsend]; decide
    have hnorecv : .mmapRecv ∉ done := by rw [hrecv]; exact lt_irrefl _
    constructor
    · intro heq
      have hcard := congrArg Multiset.card heq
      simp [hheldSend, hheldRecv, hdsend, hnorecv, hx, hy, made, unlessNull, hfailed, hpos]
        at hcard
    · intro hall
      exact absurd rfl hall.2.1
  rw [if_neg hsx] at hx
  rw [if_neg hsy] at hy
  subst hx hy
  by_cases hdsend : .mmapSend ∈ done
  · by_cases hdrecv : .mmapRecv ∈ done
    · have hne := mmap_handles_ne (hdone _ hdsend) (hdone _ hdrecv)
      have hiff := mappings_balance hne c.send_mr_size c.recv_mr_size c.send_munmap_length
        c.recv_munmap_length
      simp only [hheldSend, hheldRecv, hdsend, hdrecv, made, unlessNull, hpos, if_true, if_false,
        Multiset.coe_singleton]
      rw [hiff]
      simp [hsx, hsy, eq_comm]
    · simp [hheldSend, hheldRecv, hdsend, hdrecv, made, unlessNull, hpos, hsx, hsy, eq_comm]
  · have hdrecv : .mmapRecv ∉ done := by
      rw [hrecv]
      rw [hsend] at hdsend
      simp only [Step.rank, not_lt] at hdsend ⊢
      omega
    simp [hheldSend, hheldRecv, hdsend, hdrecv, made, unlessNull, hsx, hsy]

/-- What the cleanup after the failure of step `s` leaves. -/
theorem stopped_iff (env : InitEnv) {done rest : List Step} {s : Step} (hu : c.user_managed_flag = false)
    (htaken : initSteps c = done ++ s :: rest) (hdone : ∀ b ∈ done, b.succeeds env c = true)
    (hcall : s.isCall = true) :
    (∃ w, (hashpipeIbvShutdown env c (s.failed (done.foldl (Step.effect env c)
        (opened env c .zeros)))).map Prod.snd = some w ∧ PairsUp env c w) ↔ FailsCleanly c s := by
  have hsorted : done.Pairwise fun s t => s.rank ≤ t.rank := by
    have := (initSteps_ranked c).sorted
    rw [htaken, List.pairwise_append] at this
    exact this.1
  have hb := (built_opened env hu .zeros rfl rfl).run (c := c) hsorted
  have hacq := acquired_of_done env c done (opened env c .zeros)
  have hrel := released_of_done env c done (opened env c .zeros)
  generalize done.foldl (Step.effect env c) (opened env c .zeros) = w at hb hacq hrel
  obtain ⟨hfacq, hfrel⟩ := failed_logs w s
  obtain ⟨hsendCq, hrecvCq, hqp⟩ : (.callocSendCq ∈ done ↔ Step.callocSendCq.rank < s.rank) ∧
      (.callocRecvCq ∈ done → .callocSendCq ∈ done) ∧ (.callocQp ∈ done → .callocSendCq ∈ done) := by
    have hmem : .callocSendCq ∈ initSteps c := by simp [initSteps]
    exact ⟨milestone_done_iff hu htaken (by simp [milestones]),
      fun h => mem_done_of_rank_lt_mem htaken (initSteps_ranked c).sorted h hmem (by decide),
      fun h => mem_done_of_rank_lt_mem htaken (initSteps_ranked c).sorted h hmem (by decide)⟩
  have hflows := milestone_done_iff hu htaken (t := .callocFlows) (by simp [milestones])
  have hmsend := milestone_done_iff hu htaken (t := .mmapSend) (by simp [milestones])
  have hmrecv := milestone_done_iff hu htaken (t := .mmapRecv) (by simp [milestones])
  have hbalance := releases_balance hu htaken hb (failed_hibv_ctx w s)
  have hmaps := mappings_iff hu htaken hdone
    (x := if s = .mmapSend then MAP_FAILED else w.hibv_ctx.send_mr_buf)
    (y := if s = .mmapRecv then MAP_FAILED else w.hibv_ctx.recv_mr_buf)
    (by rw [hb.send_mr_buf]) (by rw [hb.recv_mr_buf])
  have hperm : (shutdownParts.flatMap (Part.releases c (s.failed w).hibv_ctx)).Perm
      (s.failed w).acquired ↔ s ≠ .mmapSend ∧ s ≠ .mmapRecv ∧
        (.mmapSend ∈ done → c.send_munmap_length = c.send_mr_size) ∧
        (.mmapRecv ∈ done → c.recv_munmap_length = c.recv_mr_size) := by
    rw [← hmaps, ← Multiset.coe_eq_coe, hfacq, hacq]
    rw [add_assoc, add_assoc] at hbalance
    constructor
    · intro heq
      rw [heq] at hbalance
      exact add_left_cancel hbalance
    · intro heq
      rw [heq] at hbalance
      exact add_right_cancel hbalance
  have hmcast : (s.failed w).hibv_ctx.mcast_subscriber = -1 := by
    rw [failed_hibv_ctx]
    exact hb.mcast_subscriber.trans (if_neg (openSocket_not_done hu htaken))
  rw [shutdown_pairsUp_iff hu (hfrel.trans hrel), hperm, failed_hibv_ctx, counts_iff hb ⟨hrecvCq, hqp⟩,
    hsendCq, hflows, hmsend, hmrecv]
  constructor
  · intro hall
    obtain ⟨⟨hq, hf⟩, ⟨hns, hnr, hls, hlr⟩, -⟩ := hall
    exact ⟨hcall, hns, hnr, hq, hf, hls, hlr⟩
  · intro hclean
    rw [failed_hibv_ctx] at hmcast
    exact ⟨⟨hclean.qps, hclean.flows⟩, ⟨hclean.not_mmapSend, hclean.not_mmapRecv,
      hclean.send_length, hclean.recv_length⟩, hmcast⟩

/-- After a success the second shutdown closes `mcast_subscriber` again. -/
theorem success_not_paired (env : InitEnv) {c : InitConfig} (hu : c.user_managed_flag = false) :
    ¬ ∃ w, (hashpipeIbvShutdown env c ((initSteps c).foldl (Step.effect env c)
        (opened env c .zeros))).map Prod.snd = some w ∧ PairsUp env c w := by
  have hb := (built_opened env hu .zeros rfl rfl).run (c := c) (initSteps_ranked c).sorted
  have hrel := released_of_done env c (initSteps c) (opened env c .zeros)
  have hmem : .openSocket ∈ initSteps c := by simp [initSteps]
  rw [shutdown_pairsUp_iff hu hrel, hb.mcast_subscriber, if_pos hmem]
  intro hall
  have := hall.2.2
  omega

/-- What `hashpipe_ibv_init` and the shutdown leave, by what fails. -/
theorem initAndShutdown_eq (hu : c.user_managed_flag = false) :
    initAndShutdown env c =
      if env.get_interface_info = false then some (.start .zeros)
      else if env.open_device = false then some (.start (Context.zeros.reset false))
      else
        match firstFailure (Step.succeeds env (env.fill c)) (initSteps (env.fill c)) with
        | none => (hashpipeIbvShutdown env (env.fill c) ((initSteps (env.fill c)).foldl
            (Step.effect env (env.fill c)) (opened env (env.fill c) .zeros))).map Prod.snd
        | some _ =>
          match StepSequence.run (Step.succeeds env (env.fill c)) (Step.effect env (env.fill c))
              Step.stop (initSteps (env.fill c)) (opened env (env.fill c) .zeros) with
          | .inr (some w) => (hashpipeIbvShutdown env (env.fill c) w).map Prod.snd
          | _ => none := by
  have hfu : (env.fill c).user_managed_flag = false := hu
  cases hinfo : env.get_interface_info with
  | false => simp [initAndShutdown, hashpipeIbvInit, hfu, hinfo]
  | true =>
    cases hdev : env.open_device with
    | false => simp [initAndShutdown, hashpipeIbvInit, hfu, hinfo, hdev]
    | true =>
      cases hfirst : firstFailure (Step.succeeds env (env.fill c)) (initSteps (env.fill c)) with
      | none => simp [initAndShutdown, hashpipeIbvInit, hfu, hinfo, hdev, run_eq_finished hfirst]
      | some s =>
        obtain ⟨done, rest, -, -, -, hrun⟩ :=
          run_eq_stopped (Step.effect env (env.fill c)) Step.stop hfirst
        simp only [initAndShutdown, hashpipeIbvInit, hfu, hinfo, hdev, hrun, Bool.false_and,
          Bool.not_true, Bool.false_eq_true, if_false, Bool.true_eq_false]
        cases s.stop (done.foldl (Step.effect env (env.fill c))
          (opened env (env.fill c) .zeros)) with
        | none => rfl
        | some w => cases hshut : hashpipeIbvShutdown env (env.fill c) w <;> simp [hshut]

theorem success_not_resourcesPaired (env : InitEnv) (c : InitConfig)
    (hu : c.user_managed_flag = false) (hinfo : env.get_interface_info = true)
    (hdev : env.open_device = true)
    (hfirst : firstFailure (Step.succeeds env (env.fill c)) (initSteps (env.fill c)) = none) :
    ¬ ResourcesPaired env c := by
  unfold ResourcesPaired
  rw [initAndShutdown_eq hu]
  simpa [hinfo, hdev, hfirst] using success_not_paired env (c := env.fill c) hu

end Paired

/-- **When every resource is released once**, with library managed buffers: exactly if the
interface is found and the device cannot be opened, or the first call that fails after that
fails cleanly. -/
theorem resources_paired_iff {env : InitEnv} {c : InitConfig} (hu : c.user_managed_flag = false) :
    ResourcesPaired env c ↔ env.get_interface_info = true ∧ (env.open_device = false ∨
      ∃ s, firstFailure (Step.succeeds env (env.fill c)) (initSteps (env.fill c)) = some s ∧
        FailsCleanly (env.fill c) s) := by
  have hfu : (env.fill c).user_managed_flag = false := hu
  unfold ResourcesPaired
  rw [initAndShutdown_eq hu]
  cases hinfo : env.get_interface_info with
  | false =>
    -- `mcast_subscriber` is still 0
    simp [pairsUp_iff, World.start, shutdownParts, Part.releases, Context.zeros, unlessNull,
      releaseArray, PtrArray.null, hfu]
  | true =>
    cases hdev : env.open_device with
    | false =>
      simp [pairsUp_iff, World.start, shutdownParts, Part.releases, Part.counts, Context.zeros,
        Context.reset, unlessNull, releaseArray, PtrArray.null, hfu]
    | true =>
      cases hfirst : firstFailure (Step.succeeds env (env.fill c)) (initSteps (env.fill c)) with
      | none => simpa using success_not_paired env hfu
      | some s =>
        obtain ⟨done, rest, htaken, hdone, -, hrun⟩ :=
          run_eq_stopped (Step.effect env (env.fill c)) Step.stop hfirst
        cases hcall : s.isCall with
        | true =>
          have hstop := stopped_iff env hfu htaken hdone hcall
          simpa [hrun, Step.stop, hcall] using hstop
        | false =>
          have hnot : ¬ FailsCleanly (env.fill c) s := fun h => by simp [h.isCall] at hcall
          simp [hrun, Step.stop, hcall, hnot]

/-- Registering the receive region fails, with 1 queue pair and 3 packets of 64 bytes. -/
theorem resources_paired_iff_regRecvMr :
    ResourcesPaired { willingEnv with ok := fun s => decide (s ≠ .regRecvMr) }
      (evenConfig 1 3 64 (by decide) (by decide) (by decide)) :=
  (resources_paired_iff rfl).mpr ⟨rfl, .inr ⟨.regRecvMr, by decide +kernel, by decide, by decide,
    by decide, by decide, by decide, by decide, by decide⟩⟩

/-- Nothing fails, with 2 queue pairs: `munmap` is given half of each mapping, and the
second shutdown closes `mcast_subscriber` again. -/
theorem shutdown_not_paired :
    ¬ ∀ (env : InitEnv) (c : InitConfig), c.user_managed_flag = false →
      (∀ s t, env.ok s = false → env.ok t = false → s = t) → ResourcesPaired env c := by
  intro hall
  refine success_not_resourcesPaired willingEnv
    (evenConfig 2 4096 8192 (by decide) (by decide) (by decide)) rfl rfl rfl ?_
    (hall willingEnv _ rfl fun s t hs => Bool.noConfusion hs)
  decide +kernel

end Hashpipe.Ibverbs
