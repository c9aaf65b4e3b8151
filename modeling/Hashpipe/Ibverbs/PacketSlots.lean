import Hashpipe.Ibverbs.InitState

/-!
# Where packets lie in the memory regions

With library managed buffers every packet has one scatter/gather element, `pkt_size_max`
bytes long.  The region is as large as all of them, in 64-bit arithmetic; the offset of an
element is a 32-bit product.  `packet_slots_iff`: the elements tile the region exactly if
the last offset fits 32 bits.  If it does not, the first packet whose offset does not fit
shares memory with packet 0.
-/

namespace Hashpipe.Ibverbs

open StepSequence

/-- The bytes that packet `i` is scattered to or gathered from. -/
def PacketBufs.bytes (b : PacketBufs) (i : ℕ) : Set ℕ :=
  {x | ∃ g ∈ b.elements i, g.addr ≤ x ∧ x < g.addr + g.length}

/-- The packets of one side tile their memory region. -/
structure TilesRegion (b : PacketBufs) (mr_buf mr_size pkt_size_max total : ℕ) : Prop where
  disjoint : ∀ i < total, ∀ j < total, i ≠ j → ∀ x ∈ b.bytes i, x ∉ b.bytes j
  inside : ∀ i < total, b.bytes i ⊆ Set.Ico mr_buf (mr_buf + mr_size)
  cover : ∀ x ∈ Set.Ico mr_buf (mr_buf + mr_size), ∃ i < total, x ∈ b.bytes i
  offset : ∀ i < total, ∃ g, b.elements i = [g] ∧ g.addr = mr_buf + i * pkt_size_max

/-! ### One side -/

section Side

variable {b : PacketBufs} {a : SetUpArgs} {total : ℕ}

theorem bytes_eq (hb : ∀ i < total, b.elements i = [slotSge a i]) {i : ℕ} (hi : i < total) :
    b.bytes i = Set.Ico (slotAddr a.mr_buf a.pkt_size_max i)
      (slotAddr a.mr_buf a.pkt_size_max i + a.pkt_size_max) := by
  ext x
  simp [PacketBufs.bytes, hb i hi, slotSge]

/-- No address wraps around at 2^64, only offsets at 2^32. -/
theorem slotAddr_eq (hmr : a.mr_buf + total * a.pkt_size_max ≤ 2 ^ 64)
    (hp : 0 < a.pkt_size_max) {i : ℕ} (hi : i < total) :
    slotAddr a.mr_buf a.pkt_size_max i = a.mr_buf + i * a.pkt_size_max % 2 ^ 32 := by
  have hlt : i * a.pkt_size_max < total * a.pkt_size_max := Nat.mul_lt_mul_of_pos_right hi hp
  have hmod : i * a.pkt_size_max % 2 ^ 32 ≤ i * a.pkt_size_max := Nat.mod_le _ _
  exact Nat.mod_eq_of_lt (by omega)

theorem slotAddr_exact (hmr : a.mr_buf + total * a.pkt_size_max ≤ 2 ^ 64)
    (hp : 0 < a.pkt_size_max) (hfits : (total - 1) * a.pkt_size_max < 2 ^ 32) {i : ℕ}
    (hi : i < total) :
    slotAddr a.mr_buf a.pkt_size_max i = a.mr_buf + i * a.pkt_size_max := by
  have hle : i * a.pkt_size_max ≤ (total - 1) * a.pkt_size_max :=
    Nat.mul_le_mul_right _ (by omega)
  rw [slotAddr_eq hmr hp hi, Nat.mod_eq_of_lt (by omega)]

/-- Slots of `p` bytes that follow one another do not overlap. -/
theorem slot_lt_slot {p i j : ℕ} (hij : i < j) : i * p + p ≤ j * p := by
  calc i * p + p = (i + 1) * p := by ring
    _ ≤ j * p := Nat.mul_le_mul_right p hij

theorem tilesRegion_of_fits (hb : ∀ i < total, b.elements i = [slotSge a i])
    (hmr : a.mr_buf + total * a.pkt_size_max ≤ 2 ^ 64) (hp : 0 < a.pkt_size_max)
    (hfits : (total - 1) * a.pkt_size_max < 2 ^ 32) :
    TilesRegion b a.mr_buf (total * a.pkt_size_max) a.pkt_size_max total := by
  have hbytes : ∀ i < total, b.bytes i = Set.Ico (a.mr_buf + i * a.pkt_size_max)
      (a.mr_buf + i * a.pkt_size_max + a.pkt_size_max) := by
    intro i hi
    rw [bytes_eq hb hi, slotAddr_exact hmr hp hfits hi]
  refine ⟨?_, ?_, ?_, ?_⟩
  · intro i hi j hj hij
    rw [hbytes i hi, hbytes j hj]
    intro x hxi hxj
    obtain ⟨hlei, hlti⟩ := hxi
    obtain ⟨hlej, hltj⟩ := hxj
    rcases Nat.lt_or_gt_of_ne hij with hlt | hgt
    · have := slot_lt_slot (p := a.pkt_size_max) hlt
      omega
    · have := slot_lt_slot (p := a.pkt_size_max) hgt
      omega
  · intro i hi x hx
    rw [hbytes i hi] at hx
    obtain ⟨hle, hlt⟩ := hx
    have := slot_lt_slot (p := a.pkt_size_max) hi
    exact ⟨by omega, by omega⟩
  · intro x hx
    obtain ⟨hle, hlt⟩ := hx
    -- the slot that `x` lies in, by division with remainder
    have hdiv : (x - a.mr_buf) / a.pkt_size_max < total :=
      Nat.div_lt_of_lt_mul (by rw [Nat.mul_comm]; omega)
    refine ⟨_, hdiv, ?_⟩
    rw [hbytes _ hdiv]
    have hmod := Nat.mod_add_div (x - a.mr_buf) a.pkt_size_max
    have hrem := Nat.mod_lt (x - a.mr_buf) hp
    rw [Nat.mul_comm] at hmod
    exact ⟨by omega, by omega⟩
  · intro i hi
    exact ⟨slotSge a i, hb i hi, slotAddr_exact hmr hp hfits hi⟩

/-- **The first packet whose offset does not fit 32 bits starts inside packet 0.** -/
theorem wrapped_slot_meets_first (hb : ∀ i < total, b.elements i = [slotSge a i])
    (hmr : a.mr_buf + total * a.pkt_size_max ≤ 2 ^ 64) (hp : 0 < a.pkt_size_max)
    (hp32 : a.pkt_size_max < 2 ^ 32) (hwrap : 2 ^ 32 ≤ (total - 1) * a.pkt_size_max) :
    ∃ i < total, i ≠ 0 ∧ ∃ x, x ∈ b.bytes i ∧ x ∈ b.bytes 0 := by
  have hex : ∃ i, 2 ^ 32 ≤ i * a.pkt_size_max := ⟨_, hwrap⟩
  classical
  let i := Nat.find hex
  have hge : 2 ^ 32 ≤ i * a.pkt_size_max := Nat.find_spec hex
  have hle : i ≤ total - 1 := Nat.find_min' hex hwrap
  have hpos : i ≠ 0 := by
    intro hzero
    rw [hzero, Nat.zero_mul] at hge
    omega
  have htotal : total ≠ 0 := by
    intro hzero
    rw [hzero, Nat.zero_sub, Nat.zero_mul] at hwrap
    omega
  have hlast : (i - 1) * a.pkt_size_max < 2 ^ 32 := not_le.mp (Nat.find_min hex (by omega))
  have hsucc : i * a.pkt_size_max = (i - 1) * a.pkt_size_max + a.pkt_size_max := by
    conv_lhs => rw [show i = i - 1 + 1 by omega]
    ring
  have hoff : i * a.pkt_size_max % 2 ^ 32 < a.pkt_size_max := by omega
  have hi : i < total := by omega
  refine ⟨i, hi, hpos, ?_⟩
  rw [bytes_eq hb hi, bytes_eq hb (Nat.pos_of_ne_zero htotal), slotAddr_eq hmr hp hi,
    slotAddr_eq hmr hp (Nat.pos_of_ne_zero htotal)]
  refine ⟨a.mr_buf + i * a.pkt_size_max % 2 ^ 32, ⟨le_refl _, by omega⟩, ?_⟩
  rw [Nat.zero_mul, Nat.zero_mod, Nat.add_zero]
  exact ⟨by omega, by omega⟩

theorem tilesRegion_iff (hb : ∀ i < total, b.elements i = [slotSge a i])
    (hmr : a.mr_buf + total * a.pkt_size_max ≤ 2 ^ 64) (hp : 0 < a.pkt_size_max)
    (hp32 : a.pkt_size_max < 2 ^ 32) :
    TilesRegion b a.mr_buf (total * a.pkt_size_max) a.pkt_size_max total ↔
      (total - 1) * a.pkt_size_max < 2 ^ 32 := by
  constructor
  · intro htiles
    by_contra hwrap
    obtain ⟨i, hi, hne, x, hx, hx0⟩ := wrapped_slot_meets_first hb hmr hp hp32 (not_lt.mp hwrap)
    exact htiles.disjoint i hi 0 (by omega) hne x hx hx0
  · exact tilesRegion_of_fits hb hmr hp

end Side

/-! ### After a successful `hashpipe_ibv_init` -/

/-- With library managed buffers: the steps before the set-up of the send packets, and those
after it. -/
def stepsBeforeSetUp (c : InitConfig) : List Step :=
  [.checkPktNums, .allocPd, .createRecvCc, .setNonblocking, .callocSendCq] ++
  forQps c .sendCq (fun i => [.createSendCq i]) ++
  [.callocRecvCq] ++
  forQps c .recvCq (fun i => [.createRecvCq i, .reqNotifyCq i]) ++
  [.callocQp] ++
  forQps c .qp (fun i => [.createQp i, .modifyQp i]) ++ allocSteps ++ [.regSendMr, .regRecvMr]

def stepsAfterSetUp (c : InitConfig) : List Step :=
  [.linkSend] ++ forQps c .post (fun i => [.linkRecv i, .postRecv i]) ++
  [.callocFlows, .callocFlowDstIps, .openSocket]

theorem initSteps_library {c : InitConfig} (hu : c.user_managed_flag = false) :
    initSteps c = stepsBeforeSetUp c ++ .setUpSend :: .setUpRecv :: stepsAfterSetUp c := by
  simp [initSteps, stepsBeforeSetUp, stepsAfterSetUp, hu]

/-- The steps that the send packets' arrays change in. -/
theorem send_elements_kept {env : InitEnv} {c : InitConfig} {s : Step} (w : World)
    (hpkt : s ≠ .callocSendPktBuf) (hsge : s ≠ .callocSendSgeBuf) (hset : s ≠ .setUpSend) :
    (Step.effect env c w s).hibv_ctx.send_pkts.elements = w.hibv_ctx.send_pkts.elements := by
  cases s with
  | callocSendPktBuf => exact absurd rfl hpkt
  | callocSendSgeBuf => exact absurd rfl hsge
  | setUpSend => exact absurd rfl hset
  | linkSend => exact funext fun i => linkPkts_elements _ _ _ i
  | _ => rfl

theorem recv_elements_kept {env : InitEnv} {c : InitConfig} {s : Step} (w : World)
    (hpkt : s ≠ .callocRecvPktBuf) (hsge : s ≠ .callocRecvSgeBuf) (hset : s ≠ .setUpRecv) :
    (Step.effect env c w s).hibv_ctx.recv_pkts.elements = w.hibv_ctx.recv_pkts.elements := by
  cases s with
  | callocRecvPktBuf => exact absurd rfl hpkt
  | callocRecvSgeBuf => exact absurd rfl hsge
  | setUpRecv => exact absurd rfl hset
  | linkRecv i => exact funext fun i => linkPkts_elements _ _ _ i
  | _ => rfl

theorem mem_stepsAfterSetUp {c : InitConfig} {s : Step} (hs : s ∈ stepsAfterSetUp c) :
    s = .linkSend ∨ (∃ i, s = .linkRecv i) ∨ (∃ i, s = .postRecv i) ∨ s = .leave .post ∨
      s = .callocFlows ∨ s = .callocFlowDstIps ∨ s = .openSocket := by
  simp only [stepsAfterSetUp, forQps, List.mem_append, List.mem_flatMap, List.mem_cons,
    List.not_mem_nil, or_false] at hs
  grind

/-- What the context's two region pointers are after the allocation. -/
theorem mr_bufs_written (env : InitEnv) {c : InitConfig} {done : List Step} (w : World)
    (hs : .mmapSend ∈ done) (hr : .mmapRecv ∈ done) :
    (done.foldl (Step.effect env c) w).hibv_ctx.send_mr_buf = env.handle .mmapSend ∧
      (done.foldl (Step.effect env c) w).hibv_ctx.recv_mr_buf = env.handle .mmapRecv := by
  have hsend := foldl_written (Step.effect env c) (fun w => w.hibv_ctx.send_mr_buf)
    .mmapSend _ (fun _ => rfl) (fun w s hne => by cases s <;> first | rfl | exact absurd rfl hne)
    done w
  have hrecv := foldl_written (Step.effect env c) (fun w => w.hibv_ctx.recv_mr_buf)
    .mmapRecv _ (fun _ => rfl) (fun w s hne => by cases s <;> first | rfl | exact absurd rfl hne)
    done w
  exact ⟨hsend.trans (if_pos hs), hrecv.trans (if_pos hr)⟩

theorem mr_sizes_written (env : InitEnv) {c : InitConfig} {done : List Step} (w : World)
    (hs : .setMrSizes ∈ done) :
    (done.foldl (Step.effect env c) w).hibv_ctx.send_mr_size = c.send_mr_size ∧
      (done.foldl (Step.effect env c) w).hibv_ctx.recv_mr_size = c.recv_mr_size := by
  have hsend := foldl_written (Step.effect env c) (fun w => w.hibv_ctx.send_mr_size)
    .setMrSizes _ (fun _ => rfl) (fun w s hne => by cases s <;> first | rfl | exact absurd rfl hne)
    done w
  have hrecv := foldl_written (Step.effect env c) (fun w => w.hibv_ctx.recv_mr_size)
    .setMrSizes _ (fun _ => rfl) (fun w s hne => by cases s <;> first | rfl | exact absurd rfl hne)
    done w
  exact ⟨hsend.trans (if_pos hs), hrecv.trans (if_pos hs)⟩

/-- What the set-up leaves of each side's packets, whatever was there before. -/
theorem init_elements (env : InitEnv) {c : InitConfig} (hu : c.user_managed_flag = false)
    (w : World) :
    let w' := (initSteps c).foldl (Step.effect env c) w
    (∀ i < c.send_total, w'.hibv_ctx.send_pkts.elements i =
      [slotSge ⟨false, env.handle .mmapSend, c.pkt_size_max, env.send_lkey⟩ i]) ∧
    (∀ i < c.recv_total, w'.hibv_ctx.recv_pkts.elements i =
      [slotSge ⟨false, env.handle .mmapRecv, c.pkt_size_max, env.recv_lkey⟩ i]) := by
  intro w'
  have hw' : w' = (stepsAfterSetUp c).foldl (Step.effect env c)
      (Step.effect env c (Step.effect env c
        ((stepsBeforeSetUp c).foldl (Step.effect env c) w) .setUpSend) .setUpRecv) := by
    simp only [w', initSteps_library hu, List.foldl_append, List.foldl_cons]
  have hmem : .mmapSend ∈ stepsBeforeSetUp c ∧ .mmapRecv ∈ stepsBeforeSetUp c := by
    simp [stepsBeforeSetUp, allocSteps]
  obtain ⟨hsbuf, hrbuf⟩ := mr_bufs_written env w hmem.1 hmem.2
  rw [hw']
  generalize (stepsBeforeSetUp c).foldl (Step.effect env c) w = before at hsbuf hrbuf
  have hafter : ∀ s ∈ stepsAfterSetUp c, s ≠ .callocSendPktBuf ∧ s ≠ .callocSendSgeBuf ∧
      s ≠ .setUpSend ∧ s ≠ .callocRecvPktBuf ∧ s ≠ .callocRecvSgeBuf ∧ s ≠ .setUpRecv := by
    intro s hs
    rcases mem_stepsAfterSetUp hs with rfl | ⟨i, rfl⟩ | ⟨i, rfl⟩ | rfl | rfl | rfl | rfl <;> simp
  rw [foldl_kept (Step.effect env c) (fun w => w.hibv_ctx.send_pkts.elements)
      (fun s hs w => send_elements_kept w (hafter s hs).1 (hafter s hs).2.1 (hafter s hs).2.2.1),
    foldl_kept (Step.effect env c) (fun w => w.hibv_ctx.recv_pkts.elements)
      (fun s hs w => recv_elements_kept w (hafter s hs).2.2.2.1 (hafter s hs).2.2.2.2.1
        (hafter s hs).2.2.2.2.2)]
  constructor
  · intro i hi
    have hset := setUpPkts_library (a := ⟨c.user_managed_flag, before.hibv_ctx.send_mr_buf,
      c.pkt_size_max, env.send_lkey⟩) hu before.hibv_ctx.send_pkts c.send_total
    rw [hu, hsbuf] at hset
    simpa [Step.effect, hu, hsbuf] using hset.elements hi
  · intro i hi
    have hset := setUpPkts_library (a := ⟨c.user_managed_flag, before.hibv_ctx.recv_mr_buf,
      c.pkt_size_max, env.recv_lkey⟩) hu before.hibv_ctx.recv_pkts c.recv_total
    rw [hu, hrbuf] at hset
    simpa [Step.effect, hu, hrbuf] using hset.elements hi

/-- The two mappings, when both `mmap` calls went through. -/
theorem mappings_apart {env : InitEnv} {c : InitConfig}
    (hs : Step.succeeds env c .mmapSend = true) (hr : Step.succeeds env c .mmapRecv = true) :
    env.handle .mmapSend + c.send_mr_size ≤ 2 ^ 64 ∧
      env.handle .mmapRecv + c.recv_mr_size ≤ 2 ^ 64 ∧
      ∀ x ∈ Set.Ico (env.handle .mmapSend) (env.handle .mmapSend + c.send_mr_size),
        x ∉ Set.Ico (env.handle .mmapRecv) (env.handle .mmapRecv + c.recv_mr_size) := by
  simp only [Step.succeeds, freeRegion, Bool.and_eq_true, decide_eq_true_eq] at hs hr
  obtain ⟨-, -, hsend, -⟩ := hs
  obtain ⟨-, -, hrecv, hapart⟩ := hr
  refine ⟨hsend, hrecv, fun x hx hx' => ?_⟩
  obtain ⟨hle, hlt⟩ := hx
  obtain ⟨hle', hlt'⟩ := hx'
  omega

/-- The size of a side's region, when nothing wraps around. -/
theorem mr_size_exact {num nqp pkt_size_max : ℕ} (htotal : num * nqp < 2 ^ 31)
    (hp : pkt_size_max < 2 ^ 32) :
    num * pkt_size_max * nqp % 2 ^ 64 = num * nqp * pkt_size_max := by
  have hle : num * nqp * pkt_size_max ≤ 2 ^ 31 * 2 ^ 32 := Nat.mul_le_mul htotal.le hp.le
  rw [show num * pkt_size_max * nqp = num * nqp * pkt_size_max by ring]
  exact Nat.mod_eq_of_lt (by omega)

/-- All packets of both sides have their own memory, in order and without gaps. -/
structure PacketsApart (h : Context) (pkt_size_max send_total recv_total : ℕ) : Prop where
  send : TilesRegion h.send_pkts h.send_mr_buf h.send_mr_size pkt_size_max send_total
  recv : TilesRegion h.recv_pkts h.recv_mr_buf h.recv_mr_size pkt_size_max recv_total
  sides : ∀ i < send_total, ∀ j < recv_total, ∀ x ∈ h.send_pkts.bytes i, x ∉ h.recv_pkts.bytes j

theorem packetsApart_iff (env : InitEnv) {c : InitConfig} (w : World)
    (hu : c.user_managed_flag = false) (hp : 1 ≤ c.pkt_size_max)
    (hst : c.send_pkt_num * c.nqp < 2 ^ 31) (hrt : c.recv_pkt_num * c.nqp < 2 ^ 31)
    (hfirst : firstFailure (Step.succeeds env c) (initSteps c) = none) :
    PacketsApart ((initSteps c).foldl (Step.effect env c) w).hibv_ctx c.pkt_size_max
        (c.send_pkt_num * c.nqp) (c.recv_pkt_num * c.nqp) ↔
      (c.send_pkt_num * c.nqp - 1) * c.pkt_size_max < 2 ^ 32 ∧
        (c.recv_pkt_num * c.nqp - 1) * c.pkt_size_max < 2 ^ 32 := by
  have hsteps : .mmapSend ∈ initSteps c ∧ .mmapRecv ∈ initSteps c ∧ .setMrSizes ∈ initSteps c := by
    simp [initSteps, hu, allocSteps]
  obtain ⟨hms, hmr, hsizes⟩ := hsteps
  obtain ⟨hsfit, hrfit, hregions⟩ := mappings_apart
    (Step.succeeds_of_firstFailure hfirst hms) (Step.succeeds_of_firstFailure hfirst hmr)
  obtain ⟨hselem, hrelem⟩ := init_elements env hu w
  obtain ⟨hsbuf, hrbuf⟩ := mr_bufs_written env w hms hmr
  obtain ⟨hssize, hrsize⟩ := mr_sizes_written env w hsizes
  generalize ((initSteps c).foldl (Step.effect env c) w).hibv_ctx = h at *
  have hst' : c.send_total = c.send_pkt_num * c.nqp := Nat.mod_eq_of_lt (by omega)
  have hrt' : c.recv_total = c.recv_pkt_num * c.nqp := Nat.mod_eq_of_lt (by omega)
  have hssize' : c.send_mr_size = c.send_pkt_num * c.nqp * c.pkt_size_max :=
    mr_size_exact hst c.pkt_size_max_lt
  have hrsize' : c.recv_mr_size = c.recv_pkt_num * c.nqp * c.pkt_size_max :=
    mr_size_exact hrt c.pkt_size_max_lt
  rw [hst'] at hselem
  rw [hrt'] at hrelem
  rw [hssize'] at hssize hsfit hregions
  rw [hrsize'] at hrsize hrfit hregions
  have hsiff := tilesRegion_iff hselem hsfit hp c.pkt_size_max_lt
  have hriff := tilesRegion_iff hrelem hrfit hp c.pkt_size_max_lt
  rw [← hsiff, ← hriff]
  constructor
  · intro hall
    exact ⟨by simpa only [hsbuf, hssize] using hall.send, by simpa only [hrbuf, hrsize] using hall.recv⟩
  · intro hall
    obtain ⟨hs, hr⟩ := hall
    refine ⟨by simpa only [hsbuf, hssize] using hs, by simpa only [hrbuf, hrsize] using hr, ?_⟩
    intro i hi j hj x hx hx'
    exact hregions x (hs.inside i hi hx) (hr.inside j hj hx')

/-- **After a successful initialisation the packet slots tile their regions exactly if the
offset of the last packet fits 32 bits**, on either side. -/
theorem packet_slots_iff {env : InitEnv} {c : InitConfig} {h : Context} {w : World}
    (hu : c.user_managed_flag = false) (hnqp : 1 ≤ c.nqp) (hsend : 1 ≤ c.send_pkt_num)
    (hrecv : 1 ≤ c.recv_pkt_num) (hp : 1 ≤ c.pkt_size_max)
    (hst : c.send_pkt_num * c.nqp < 2 ^ 31) (hrt : c.recv_pkt_num * c.nqp < 2 ^ 31)
    (hinit : hashpipeIbvInit env c h = some (0, w)) :
    PacketsApart w.hibv_ctx c.pkt_size_max (c.send_pkt_num * c.nqp) (c.recv_pkt_num * c.nqp) ↔
      (c.send_pkt_num * c.nqp - 1) * c.pkt_size_max < 2 ^ 32 ∧
        (c.recv_pkt_num * c.nqp - 1) * c.pkt_size_max < 2 ^ 32 := by
  have hdone := init_finished hinit
  have hfirst := hdone.1
  rw [hdone.2]
  obtain ⟨hfn, hfs, hfr⟩ := fill_of_pos env hnqp hsend hrecv
  have hfp : (env.fill c).pkt_size_max = c.pkt_size_max := rfl
  have hcore := packetsApart_iff env (c := env.fill c) (opened env (env.fill c) h) hu (by rw [hfp]; exact hp)
    (by rw [hfs, hfn]; exact hst) (by rw [hfr, hfn]; exact hrt) hfirst
  rwa [hfp, hfs, hfr, hfn] at hcore

/-! ### Runs in which every call succeeds -/

/-- 2 queue pairs with 3 packets of 64 bytes. -/
def smallConfig : InitConfig := evenConfig 2 3 64 (by decide) (by decide) (by decide)

/-- 16 queue pairs with 32768 packets of 16384 bytes: 8 GiB on either side. -/
def largeConfig : InitConfig := evenConfig 16 32768 16384 (by decide) (by decide) (by decide)

theorem smallConfig_runs :
    firstFailure (Step.succeeds willingEnv (willingEnv.fill smallConfig))
      (initSteps (willingEnv.fill smallConfig)) = none := by decide +kernel

theorem largeConfig_runs :
    firstFailure (Step.succeeds willingEnv (willingEnv.fill largeConfig))
      (initSteps (willingEnv.fill largeConfig)) = none := by decide +kernel

theorem packet_slots_iff_smallConfig :
    ∃ w, hashpipeIbvInit willingEnv smallConfig .zeros = some (0, w) ∧
      PacketsApart w.hibv_ctx 64 6 6 := by
  have hinit := init_succeeds .zeros rfl rfl rfl smallConfig_runs
  exact ⟨_, hinit, (packet_slots_iff rfl (by decide) (by decide) (by decide) (by decide)
    (by decide) (by decide) hinit).mpr (by decide)⟩

/-- With `largeConfig` two packets share memory. -/
theorem packet_slots_alias :
    ¬ ∀ (env : InitEnv) (c : InitConfig) (w : World), c.user_managed_flag = false →
      1 ≤ c.nqp → 1 ≤ c.send_pkt_num → 1 ≤ c.recv_pkt_num → 1 ≤ c.pkt_size_max →
      c.send_pkt_num * c.nqp < 2 ^ 31 → c.recv_pkt_num * c.nqp < 2 ^ 31 →
      hashpipeIbvInit env c .zeros = some (0, w) →
      PacketsApart w.hibv_ctx c.pkt_size_max (c.send_pkt_num * c.nqp) (c.recv_pkt_num * c.nqp) := by
  intro hall
  have hinit := init_succeeds .zeros rfl rfl rfl largeConfig_runs
  have hapart := hall willingEnv largeConfig _ rfl (by decide) (by decide) (by decide) (by decide)
    (by decide) (by decide) hinit
  have hiff := packetsApart_iff willingEnv (c := willingEnv.fill largeConfig)
    (opened willingEnv (willingEnv.fill largeConfig) .zeros) rfl (by decide) (by decide)
    (by decide) largeConfig_runs
  exact absurd (hiff.mp hapart) (by decide)

end Hashpipe.Ibverbs
