import Hashpipe.Library.StepSequence
import Hashpipe.Ibverbs.PacketSetup
import Hashpipe.Ibverbs.Flow

/-!
# Initialising and shutting down a context

`hashpipe_ibv_init` as the sequence of its calls and loops, with one answer for each call,
and `hashpipe_ibv_shutdown` as the sequence of its blocks.  `World` is the context with the
resources acquired and released so far.

The fields that the caller sizes the context with are read through `InitConfig.filled`:
`hashpipe_ibv_init` replaces zeros before anything reads them.  The build options are those
of the header: `HPIBV_USE_SEND_CC` off, `HPIBV_USE_MMAP_PKTBUFS` on.
-/

namespace Hashpipe.Ibverbs

/-- What the caller provides: five `uint32_t` and a flag. -/
structure InitConfig where
  nqp : ℕ
  send_pkt_num : ℕ
  recv_pkt_num : ℕ
  pkt_size_max : ℕ
  max_flows : ℕ
  user_managed_flag : Bool
  nqp_lt : nqp < 2 ^ 32
  send_pkt_num_lt : send_pkt_num < 2 ^ 32
  recv_pkt_num_lt : recv_pkt_num < 2 ^ 32
  pkt_size_max_lt : pkt_size_max < 2 ^ 32
  max_flows_lt : max_flows < 2 ^ 32

/-- `send_pkt_num` or `recv_pkt_num`, once 0 has been replaced. -/
def filledPktNum (user_managed_flag : Bool) (max_qp_wr : ℕ) (pkt_num : ℕ) : ℕ :=
  if pkt_num = 0 ∧ user_managed_flag = false then max_qp_wr else pkt_num

theorem filledPktNum_lt {max_qp_wr pkt_num : ℕ} (hm : max_qp_wr < 2 ^ 32)
    (hp : pkt_num < 2 ^ 32) (user_managed_flag : Bool) :
    filledPktNum user_managed_flag max_qp_wr pkt_num < 2 ^ 32 := by
  unfold filledPktNum
  split <;> assumption

/-- The fields once `hashpipe_ibv_init` has replaced zeros. -/
def InitConfig.filled (c : InitConfig) (max_qp_wr : ℕ) (hm : max_qp_wr < 2 ^ 32) : InitConfig where
  nqp := if c.nqp = 0 then 1 else c.nqp
  send_pkt_num := filledPktNum c.user_managed_flag max_qp_wr c.send_pkt_num
  recv_pkt_num := filledPktNum c.user_managed_flag max_qp_wr c.recv_pkt_num
  pkt_size_max := c.pkt_size_max
  max_flows := if c.max_flows = 0 then 1 else c.max_flows
  user_managed_flag := c.user_managed_flag
  nqp_lt := by split <;> [decide; exact c.nqp_lt]
  send_pkt_num_lt := filledPktNum_lt hm c.send_pkt_num_lt _
  recv_pkt_num_lt := filledPktNum_lt hm c.recv_pkt_num_lt _
  pkt_size_max_lt := c.pkt_size_max_lt
  max_flows_lt := by split <;> [decide; exact c.max_flows_lt]

namespace InitConfig

variable (c : InitConfig)

/-- `send_pkt_num*nqp`, a product of two `uint32_t`. -/
def send_total : ℕ := c.send_pkt_num * c.nqp % 2 ^ 32
def recv_total : ℕ := c.recv_pkt_num * c.nqp % 2 ^ 32
def flows_total : ℕ := c.max_flows * c.nqp % 2 ^ 32

/-- `(size_t)send_pkt_num * pkt_size_max * nqp`. -/
def send_mr_size : ℕ := c.send_pkt_num * c.pkt_size_max * c.nqp % 2 ^ 64
def recv_mr_size : ℕ := c.recv_pkt_num * c.pkt_size_max * c.nqp % 2 ^ 64

/-- The length that `hashpipe_ibv_shutdown` passes to `munmap`. -/
def send_munmap_length : ℕ := c.send_pkt_num * c.pkt_size_max % 2 ^ 32
def recv_munmap_length : ℕ := c.recv_pkt_num * c.pkt_size_max % 2 ^ 32

end InitConfig

/-- A `calloc`ed array of pointers; 0 is the null pointer. -/
structure PtrArray where
  ptr : ℕ
  elem : ℕ → ℕ

def PtrArray.null : PtrArray := ⟨0, fun _ => 0⟩
def PtrArray.calloc (ptr : ℕ) : PtrArray := ⟨ptr, fun _ => 0⟩
def PtrArray.set (a : PtrArray) (i p : ℕ) : PtrArray := { a with elem := Function.update a.elem i p }

/-- The fields of `hashpipe_ibv_context` that the library sets, and the packet arrays. -/
structure Context where
  ctx : ℕ
  pd : ℕ
  recv_cc : ℕ
  send_cq : PtrArray
  recv_cq : PtrArray
  qp : PtrArray
  send_pkt_buf : ℕ
  recv_pkt_buf : ℕ
  send_sge_buf : ℕ
  recv_sge_buf : ℕ
  send_pkts : PacketBufs
  recv_pkts : PacketBufs
  send_pkt_head : Option ℕ
  send_mr_buf : ℕ
  recv_mr_buf : ℕ
  send_mr_size : ℕ
  recv_mr_size : ℕ
  send_mr : ℕ
  recv_mr : ℕ
  ibv_flows : PtrArray
  flow_dst_ips : ℕ
  dst_ip : ℕ → UInt32
  mcast_subscriber : ℤ

/-- A context of zero bytes: `mcast_subscriber` is 0 too. -/
def Context.zeros : Context where
  ctx := 0
  pd := 0
  recv_cc := 0
  send_cq := .null
  recv_cq := .null
  qp := .null
  send_pkt_buf := 0
  recv_pkt_buf := 0
  send_sge_buf := 0
  recv_sge_buf := 0
  send_pkts := .zeros
  recv_pkts := .zeros
  send_pkt_head := none
  send_mr_buf := 0
  recv_mr_buf := 0
  send_mr_size := 0
  recv_mr_size := 0
  send_mr := 0
  recv_mr := 0
  ibv_flows := .null
  flow_dst_ips := 0
  dst_ip := fun _ => 0
  mcast_subscriber := 0

/-- "Init library managed fields to NULL or other invalid value." -/
def Context.reset (h : Context) (user_managed_flag : Bool) : Context :=
  let h := { h with
    ctx := 0, pd := 0, recv_cc := 0, send_cq := .null, recv_cq := .null, qp := .null
    send_pkt_head := none, send_mr := 0, recv_mr := 0, mcast_subscriber := -1 }
  if user_managed_flag then h
  else { h with
    send_pkt_buf := 0, recv_pkt_buf := 0, send_sge_buf := 0, recv_sge_buf := 0
    send_mr_buf := 0, recv_mr_buf := 0 }

/-- What `hashpipe_ibv_shutdown` releases, by what the releasing call is given. -/
inductive Resource
  | device (ctx : ℕ)
  | pd (pd : ℕ)
  | channel (cc : ℕ)
  | cq (cq : ℕ)
  | qp (qp : ℕ)
  | mr (mr : ℕ)
  | flow (flow : ℕ)
  | membership (dst_ip_be : UInt32)
  | socket (fd : ℤ)
  | memory (ptr : ℕ)
  | mapping (addr length : ℕ)
  deriving DecidableEq

/-- The loops over the queue pairs, by what they make for each. -/
inductive QpLoop
  | sendCq
  | recvCq
  | qp
  | post
  deriving DecidableEq

/-- The steps of `hashpipe_ibv_init` once the device is open. -/
inductive Step
  | checkPktNums
  | allocPd
  | createRecvCc
  | setNonblocking
  | callocSendCq
  | createSendCq (i : ℕ)
  | callocRecvCq
  | createRecvCq (i : ℕ)
  | reqNotifyCq (i : ℕ)
  | walkSges
  | callocQp
  | createQp (i : ℕ)
  | modifyQp (i : ℕ)
  | callocSendPktBuf
  | callocRecvPktBuf
  | callocSendSgeBuf
  | callocRecvSgeBuf
  | setMrSizes
  | mmapSend
  | mlockSend
  | mmapRecv
  | mlockRecv
  | regSendMr
  | regRecvMr
  | setUpSend
  | setUpRecv
  | linkSend
  | linkRecv (i : ℕ)
  | postRecv (i : ℕ)
  | callocFlows
  | callocFlowDstIps
  | openSocket
  /-- `i<hibv_ctx->nqp` is found false. -/
  | leave (loop : QpLoop)
  deriving DecidableEq

/-- `(void *)-1`. -/
def MAP_FAILED : ℕ := 2 ^ 64 - 1

/-- How the system answers: which calls succeed and what they return then. -/
structure InitEnv where
  get_interface_info : Bool
  open_device : Bool
  ok : Step → Bool
  device : ℕ
  handle : Step → ℕ
  fd : ℕ
  max_qp_wr : ℕ
  send_lkey : ℕ
  recv_lkey : ℕ
  /-- Descriptors that the process had open before. -/
  inherited : List ℤ
  device_pos : 0 < device
  handle_pos : ∀ s, 0 < handle s
  handle_lt : ∀ s, handle s < MAP_FAILED
  max_qp_wr_lt : max_qp_wr < 2 ^ 32

structure World where
  hibv_ctx : Context
  acquired : List Resource
  released : List Resource
  /-- `max_send_sge` and `max_recv_sge` of the queue pairs created. -/
  caps : ℕ → ℕ × ℕ
  /-- The receive packet whose list was posted to each queue pair. -/
  posted : ℕ → Option ℕ

def World.start (h : Context) : World := ⟨h, [], [], fun _ => (0, 0), fun _ => none⟩

def World.acquire (w : World) (r : Resource) (h : Context) : World :=
  { w with hibv_ctx := h, acquired := w.acquired ++ [r] }

/-! ### `hashpipe_ibv_shutdown` -/

/-- Its blocks, each about one field. -/
inductive Part
  | flows
  | send_mr
  | recv_mr
  | qp
  | send_cq
  | recv_cq
  | recv_cc
  | pd
  | ctx
  | send_pkt_head
  | send_pkt_buf
  | recv_pkt_buf
  | send_sge_buf
  | recv_sge_buf
  | send_mr_buf
  | recv_mr_buf
  | ibv_flows
  | flow_dst_ips
  | mcast_subscriber
  deriving DecidableEq

def shutdownParts : List Part :=
  [.flows, .send_mr, .recv_mr, .qp, .send_cq, .recv_cq, .recv_cc, .pd, .ctx, .send_pkt_head,
    .send_pkt_buf, .recv_pkt_buf, .send_sge_buf, .recv_sge_buf, .send_mr_buf, .recv_mr_buf,
    .ibv_flows, .flow_dst_ips, .mcast_subscriber]

/-- Release what the pointer is to, unless it is null. -/
def unlessNull (ptr : ℕ) (r : Resource) : List Resource := if ptr = 0 then [] else [r]

/-- Release the array's elements that are not null and free the array, unless it is null. -/
def releaseArray (nqp : ℕ) (a : PtrArray) (r : ℕ → Resource) : List Resource :=
  if a.ptr = 0 then []
  else ((List.range nqp).flatMap fun i => unlessNull (a.elem i) (r (a.elem i))) ++ [.memory a.ptr]

/-- The calls a block makes to release something, in order. -/
def Part.releases (c : InitConfig) (h : Context) : Part → List Resource
  | .flows =>
    if h.ibv_flows.ptr = 0 then []
    else (List.range c.flows_total).flatMap fun i =>
      if h.ibv_flows.elem i = 0 then []
      else (if i < c.max_flows ∧ beMulticast (h.dst_ip i) then [.membership (h.dst_ip i)] else []) ++
        [.flow (h.ibv_flows.elem i)]
  | .send_mr => unlessNull h.send_mr (.mr h.send_mr)
  | .recv_mr => unlessNull h.recv_mr (.mr h.recv_mr)
  | .qp => releaseArray c.nqp h.qp .qp
  | .send_cq => releaseArray c.nqp h.send_cq .cq
  | .recv_cq => releaseArray c.nqp h.recv_cq .cq
  | .recv_cc => unlessNull h.recv_cc (.channel h.recv_cc)
  | .pd => unlessNull h.pd (.pd h.pd)
  | .ctx => unlessNull h.ctx (.device h.ctx)
  | .send_pkt_head => []
  | .send_pkt_buf =>
    if c.user_managed_flag then [] else unlessNull h.send_pkt_buf (.memory h.send_pkt_buf)
  | .recv_pkt_buf =>
    if c.user_managed_flag then [] else unlessNull h.recv_pkt_buf (.memory h.recv_pkt_buf)
  | .send_sge_buf =>
    if c.user_managed_flag then [] else unlessNull h.send_sge_buf (.memory h.send_sge_buf)
  | .recv_sge_buf =>
    if c.user_managed_flag then [] else unlessNull h.recv_sge_buf (.memory h.recv_sge_buf)
  | .send_mr_buf =>
    if c.user_managed_flag then []
    else unlessNull h.send_mr_buf (.mapping h.send_mr_buf c.send_munmap_length)
  | .recv_mr_buf =>
    if c.user_managed_flag then []
    else unlessNull h.recv_mr_buf (.mapping h.recv_mr_buf c.recv_munmap_length)
  | .ibv_flows => unlessNull h.ibv_flows.ptr (.memory h.ibv_flows.ptr)
  | .flow_dst_ips => unlessNull h.flow_dst_ips (.memory h.flow_dst_ips)
  | .mcast_subscriber => if h.mcast_subscriber = -1 then [] else [.socket h.mcast_subscriber]

/-- The fields a block resets. -/
def Part.clear (c : InitConfig) (h : Context) : Part → Context
  | .flows => h
  | .send_mr => { h with send_mr := 0 }
  | .recv_mr => { h with recv_mr := 0 }
  | .qp => { h with qp := .null }
  | .send_cq => { h with send_cq := .null }
  | .recv_cq => { h with recv_cq := .null }
  | .recv_cc => { h with recv_cc := 0 }
  | .pd => { h with pd := 0 }
  | .ctx => { h with ctx := 0 }
  | .send_pkt_head => { h with send_pkt_head := none }
  | .send_pkt_buf => if c.user_managed_flag then h else { h with send_pkt_buf := 0 }
  | .recv_pkt_buf => if c.user_managed_flag then h else { h with recv_pkt_buf := 0 }
  | .send_sge_buf => if c.user_managed_flag then h else { h with send_sge_buf := 0 }
  | .recv_sge_buf => if c.user_managed_flag then h else { h with recv_sge_buf := 0 }
  | .send_mr_buf => if c.user_managed_flag then h else { h with send_mr_buf := 0 }
  | .recv_mr_buf => if c.user_managed_flag then h else { h with recv_mr_buf := 0 }
  | .ibv_flows => { h with ibv_flows := .null }
  | .flow_dst_ips => { h with flow_dst_ips := 0 }
  | .mcast_subscriber => h

/-- `int i` can count to the bounds of the block's loop. -/
def Part.counts (c : InitConfig) (h : Context) : Part → Bool
  | .flows => h.ibv_flows.ptr == 0 || decide (c.flows_total < 2 ^ 31)
  | .qp => h.qp.ptr == 0 || decide (c.nqp < 2 ^ 31)
  | .send_cq => h.send_cq.ptr == 0 || decide (c.nqp < 2 ^ 31)
  | .recv_cq => h.recv_cq.ptr == 0 || decide (c.nqp < 2 ^ 31)
  | _ => true

/-- The results of `free` and `munmap` are not looked at. -/
def Resource.checked : Resource → Bool
  | .memory _ => false
  | .mapping _ _ => false
  | _ => true

/-- One releasing call, and `rc++` if it fails: it does when there is nothing to release. -/
def releaseOne (env : InitEnv) (s : ℕ × World) (r : Resource) : ℕ × World :=
  let live := env.inherited.map Resource.socket ++ s.2.acquired
  let fails := live.count r ≤ s.2.released.count r
  (if r.checked && fails then s.1 + 1 else s.1, { s.2 with released := s.2.released ++ [r] })

def Part.run (env : InitEnv) (c : InitConfig) (s : ℕ × World) (p : Part) : Option (ℕ × World) :=
  if p.counts c s.2.hibv_ctx then
    let r := (p.releases c s.2.hibv_ctx).foldl (releaseOne env) s
    some (r.1, { r.2 with hibv_ctx := p.clear c s.2.hibv_ctx })
  else none

/-- The return value and what is left; `none` where the C program has no defined result. -/
def hashpipeIbvShutdown (env : InitEnv) (c : InitConfig) (w : World) : Option (ℕ × World) :=
  shutdownParts.foldlM (Part.run env c) (0, w)

/-! ### `hashpipe_ibv_init` -/

/-- A loop over the queue pairs: `int i` cannot count to 2^31. -/
def forQps (c : InitConfig) (loop : QpLoop) (body : ℕ → List Step) : List Step :=
  (List.range (min c.nqp (2 ^ 31))).flatMap body ++ [.leave loop]

/-- "Allocate buffers (unless user managed)". -/
def allocSteps : List Step :=
  [.callocSendPktBuf, .callocRecvPktBuf, .callocSendSgeBuf, .callocRecvSgeBuf, .setMrSizes,
    .mmapSend, .mlockSend, .mmapRecv, .mlockRecv]

def initSteps (c : InitConfig) : List Step :=
  [.checkPktNums, .allocPd, .createRecvCc, .setNonblocking, .callocSendCq] ++
  forQps c .sendCq (fun i => [.createSendCq i]) ++
  [.callocRecvCq] ++
  forQps c .recvCq (fun i => [.createRecvCq i, .reqNotifyCq i]) ++
  (if c.user_managed_flag then [.walkSges] else []) ++
  [.callocQp] ++
  forQps c .qp (fun i => [.createQp i, .modifyQp i]) ++
  (if c.user_managed_flag then [] else allocSteps) ++
  [.regSendMr, .regRecvMr, .setUpSend, .setUpRecv, .linkSend] ++
  forQps c .post (fun i => [.linkRecv i, .postRecv i]) ++
  [.callocFlows, .callocFlowDstIps, .openSocket]

/-- What `mmap` can return for a region of `size` bytes: it lies in the address space and
does not overlap the mapping of `size'` bytes at `addr'`. -/
def freeRegion (addr size addr' size' : ℕ) : Bool :=
  decide (0 < size ∧ addr + size ≤ 2 ^ 64 ∧ (addr + size ≤ addr' ∨ addr' + size' ≤ addr))

/-- Whether a step goes through: a call by its answer, a loop if its counters and indices
stay in their types and arrays. -/
def Step.succeeds (env : InitEnv) (c : InitConfig) : Step → Bool
  | .checkPktNums => !c.user_managed_flag || (c.send_pkt_num != 0 && c.recv_pkt_num != 0)
  | .walkSges => decide (c.send_total < 2 ^ 31 ∧ c.recv_total < 2 ^ 31)
  | .setMrSizes => true
  | .mmapSend => env.ok .mmapSend && freeRegion (env.handle .mmapSend) c.send_mr_size 0 0
  | .mmapRecv => env.ok .mmapRecv && freeRegion (env.handle .mmapRecv) c.recv_mr_size
      (env.handle .mmapSend) c.send_mr_size
  | .setUpSend => decide (c.send_total < 2 ^ 31)
  | .setUpRecv => decide (c.recv_total < 2 ^ 31)
  | .linkSend => decide (0 < c.send_total)
  | .linkRecv i => decide (0 < c.recv_pkt_num ∧
      i * c.recv_pkt_num % 2 ^ 32 + c.recv_pkt_num ≤ c.recv_total)
  | .leave _ => decide (c.nqp < 2 ^ 31)
  | s => env.ok s

/-- The steps whose failure is an error that is returned; that of the others has no defined
result. -/
def Step.isCall : Step → Bool
  | .walkSges => false
  | .setUpSend => false
  | .setUpRecv => false
  | .linkSend => false
  | .linkRecv _ => false
  | .leave _ => false
  | _ => true

/-- What a step that goes through does. -/
def Step.effect (env : InitEnv) (c : InitConfig) (w : World) (s : Step) : World :=
  let h := w.hibv_ctx
  let p := env.handle s
  match s with
  | .allocPd => w.acquire (.pd p) { h with pd := p }
  | .createRecvCc => w.acquire (.channel p) { h with recv_cc := p }
  | .callocSendCq => w.acquire (.memory p) { h with send_cq := .calloc p }
  | .createSendCq i => w.acquire (.cq p) { h with send_cq := h.send_cq.set i p }
  | .callocRecvCq => w.acquire (.memory p) { h with recv_cq := .calloc p }
  | .createRecvCq i => w.acquire (.cq p) { h with recv_cq := h.recv_cq.set i p }
  | .callocQp => w.acquire (.memory p) { h with qp := .calloc p }
  | .createQp i =>
    let cap := (maxSge c.user_managed_flag c.send_total h.send_pkts,
      maxSge c.user_managed_flag c.recv_total h.recv_pkts)
    { w.acquire (.qp p) { h with qp := h.qp.set i p } with caps := Function.update w.caps i cap }
  | .callocSendPktBuf => w.acquire (.memory p)
      { h with send_pkt_buf := p, send_pkts := { h.send_pkts with pkt := PacketBufs.zeros.pkt } }
  | .callocRecvPktBuf => w.acquire (.memory p)
      { h with recv_pkt_buf := p, recv_pkts := { h.recv_pkts with pkt := PacketBufs.zeros.pkt } }
  | .callocSendSgeBuf => w.acquire (.memory p)
      { h with send_sge_buf := p, send_pkts := { h.send_pkts with sge := PacketBufs.zeros.sge } }
  | .callocRecvSgeBuf => w.acquire (.memory p)
      { h with recv_sge_buf := p, recv_pkts := { h.recv_pkts with sge := PacketBufs.zeros.sge } }
  | .setMrSizes =>
    { w with hibv_ctx := { h with send_mr_size := c.send_mr_size, recv_mr_size := c.recv_mr_size } }
  | .mmapSend => w.acquire (.mapping p c.send_mr_size) { h with send_mr_buf := p }
  | .mmapRecv => w.acquire (.mapping p c.recv_mr_size) { h with recv_mr_buf := p }
  | .regSendMr => w.acquire (.mr p) { h with send_mr := p }
  | .regRecvMr => w.acquire (.mr p) { h with recv_mr := p }
  | .setUpSend =>
    let a := SetUpArgs.mk c.user_managed_flag h.send_mr_buf c.pkt_size_max env.send_lkey
    { w with hibv_ctx := { h with send_pkts := setUpPkts a c.send_total h.send_pkts } }
  | .setUpRecv =>
    let a := SetUpArgs.mk c.user_managed_flag h.recv_mr_buf c.pkt_size_max env.recv_lkey
    { w with hibv_ctx := { h with recv_pkts := setUpPkts a c.recv_total h.recv_pkts } }
  | .linkSend =>
    { w with hibv_ctx := { h with
        send_pkts := linkPkts 0 c.send_total h.send_pkts, send_pkt_head := some 0 } }
  | .linkRecv i =>
    { w with hibv_ctx := { h with
        recv_pkts := linkPkts (i * c.recv_pkt_num % 2 ^ 32) c.recv_pkt_num h.recv_pkts } }
  | .postRecv i =>
    { w with posted := Function.update w.posted i (some (i * c.recv_pkt_num % 2 ^ 32)) }
  | .callocFlows => w.acquire (.memory p) { h with ibv_flows := .calloc p }
  | .callocFlowDstIps =>
    w.acquire (.memory p) { h with flow_dst_ips := p, dst_ip := fun _ => 0 }
  | .openSocket => w.acquire (.socket env.fd) { h with mcast_subscriber := env.fd }
  | _ => w

/-- The context as a failing step leaves it.  `mmap` reports its failure in the pointer; the
other calls return the null or the -1 that the field has from the reset. -/
def Step.failed (w : World) : Step → World
  | .mmapSend => { w with hibv_ctx := { w.hibv_ctx with send_mr_buf := MAP_FAILED } }
  | .mmapRecv => { w with hibv_ctx := { w.hibv_ctx with recv_mr_buf := MAP_FAILED } }
  | _ => w

/-- Where a failing step goes: to `cleanup_and_return_error`, or nowhere. -/
def Step.stop (w : World) (s : Step) : Option World := if s.isCall then some (s.failed w) else none

/-- The context with the device open. -/
def opened (env : InitEnv) (c : InitConfig) (h : Context) : World :=
  let h := h.reset c.user_managed_flag
  (World.start h).acquire (.device env.device) { h with ctx := env.device }

/-- The user provided buffers are there. -/
def Context.hasBuffers (h : Context) : Bool :=
  h.send_pkt_buf != 0 && h.recv_pkt_buf != 0 && h.send_sge_buf != 0 && h.recv_sge_buf != 0 &&
    h.send_mr_buf != 0 && h.recv_mr_buf != 0

def InitEnv.fill (env : InitEnv) (c : InitConfig) : InitConfig :=
  c.filled env.max_qp_wr env.max_qp_wr_lt

/-- The return value and what is left, for a context that holds `h`; `none` where the C
program has no defined result. -/
def hashpipeIbvInit (env : InitEnv) (c : InitConfig) (h : Context) : Option (ℤ × World) :=
  let c := env.fill c
  if c.user_managed_flag && !h.hasBuffers then some (1, .start h)
  else if !env.get_interface_info then some (1, .start h)
  else if !env.open_device then some (1, .start (h.reset c.user_managed_flag))
  else
    match StepSequence.run (Step.succeeds env c) (Step.effect env c) Step.stop (initSteps c)
        (opened env c h) with
    | .inl w => some (0, w)
    | .inr none => none
    | .inr (some w) => (hashpipeIbvShutdown env c w).map fun r => (1, r.2)

end Hashpipe.Ibverbs
