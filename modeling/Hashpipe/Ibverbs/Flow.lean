import Mathlib.Tactic
import Hashpipe.Library.StepSystem

/-!
# Flow rules and multicast membership

`hashpipe_ibv_flow`: one logical rule is `nqp` handles, one for each queue pair, a recorded
destination address and, if that is a multicast address, a membership of the socket
`mcast_subscriber`.  A call changes them one at a time and returns at the first failure.

`FlowInv` is what holds between calls as long as no call stops half way: the handles of an
index are all live or all null, and the joined groups are those that live indices record.
The calls that do stop half way leave it broken (`flow_call_stops_half_way`).
-/

namespace Hashpipe.Ibverbs

open StepSystem

abbrev Mac := Vector UInt8 6

/-- On a little-endian host. -/
def htobe16 (x : UInt16) : UInt16 := (x <<< (8 : UInt16)) ||| (x >>> (8 : UInt16))

def htobe32 (x : UInt32) : UInt32 :=
  ((x &&& (0xff : UInt32)) <<< (24 : UInt32)) ||| ((x &&& (0xff00 : UInt32)) <<< (8 : UInt32)) |||
    ((x >>> (8 : UInt32)) &&& (0xff00 : UInt32)) ||| (x >>> (24 : UInt32))

/-- `IN_MULTICAST`, on a host byte order address. -/
def inMulticast (a : UInt32) : Bool := a &&& (0xf0000000 : UInt32) == (0xe0000000 : UInt32)

/-- The test of `hashpipe_ibv_mcast_membership`, on a network byte order address. -/
def beMulticast (dst_ip_be : UInt32) : Bool :=
  dst_ip_be &&& (0xf0 : UInt32) == (0xe0 : UInt32)

/-- `ETHER_MAP_IP_MULTICAST`: the low 23 bits of the address, in memory order. -/
def etherMapIpMulticast (dst_ip_be : UInt32) : Mac :=
  #v[0x01, 0x00, 0x5e, (dst_ip_be >>> (8 : UInt32)).toUInt8 &&& (0x7f : UInt8),
    (dst_ip_be >>> (16 : UInt32)).toUInt8, (dst_ip_be >>> (24 : UInt32)).toUInt8]

inductive FlowType
  | ETH
  | IPV4
  | TCP
  | UDP
  | other
  deriving DecidableEq

/-- The arguments of `hashpipe_ibv_flow` that select packets; `none` and 0 mean any. -/
structure FlowCriteria where
  flow_type : FlowType
  dst_mac : Option Mac
  src_mac : Option Mac
  ether_type : UInt16
  vlan_tag : UInt16
  src_ip : UInt32
  dst_ip : UInt32
  src_port : UInt16
  dst_port : UInt16

structure EthFilter where
  dst_mac : Mac
  src_mac : Mac
  ether_type : UInt16
  vlan_tag : UInt16

structure Ipv4Filter where
  src_ip : UInt32
  dst_ip : UInt32

structure TcpUdpFilter where
  dst_port : UInt16
  src_port : UInt16

/-- What `ibv_create_flow` is given: the specs in their order in `struct hashpipe_ibv_flow`,
each a value and a mask, and how many of them count. -/
structure FlowRule where
  num_of_specs : ℕ
  eth : EthFilter × EthFilter
  ipv4 : Ipv4Filter × Ipv4Filter
  tcp_udp_type : Option FlowType
  tcp_udp : TcpUdpFilter × TcpUdpFilter

def FlowCriteria.isTcpUdp (f : FlowCriteria) : Bool :=
  f.flow_type == .TCP || f.flow_type == .UDP

/-- The `switch` passes through the IPv4 case. -/
def FlowCriteria.isIp (f : FlowCriteria) : Bool := f.isTcpUdp || f.flow_type == .IPV4

/-- The call stores its `dst_ip` in `flow_dst_ips`. -/
def FlowCriteria.records (f : FlowCriteria) : Bool := f.isIp && f.dst_ip != 0

/-- The call joins its `dst_ip`. -/
def FlowCriteria.joins (f : FlowCriteria) : Bool := f.records && inMulticast f.dst_ip

/-- No criteria are given: the call only removes a flow. -/
def FlowCriteria.isEmpty (f : FlowCriteria) : Bool :=
  f.dst_mac.isNone && f.src_mac.isNone && f.ether_type == 0 && f.vlan_tag == 0 &&
    f.src_ip == 0 && f.dst_ip == 0 && f.src_port == 0 && f.dst_port == 0

/-- Value and mask of a number that is matched unless it is 0. -/
def matchNonzero {α : Type} [BEq α] [OfNat α 0] (x value mask : α) : α × α :=
  if x == 0 then (0, 0) else (value, mask)

def zeroMac : Mac := Vector.replicate 6 0
def onesMac : Mac := Vector.replicate 6 0xff

/-- The rule that the `switch` builds; `mac` is the context's own address, which stands in
for a destination that is not given. -/
def flowRule (mac : Mac) (f : FlowCriteria) : FlowRule :=
  let src_port := matchNonzero f.src_port (htobe16 f.src_port) 0xffff
  let dst_port := matchNonzero f.dst_port (htobe16 f.dst_port) 0xffff
  let src_ip := matchNonzero f.src_ip (htobe32 f.src_ip) 0xffffffff
  let dst_ip := matchNonzero f.dst_ip (htobe32 f.dst_ip) 0xffffffff
  let dst_mac := if f.joins then some (etherMapIpMulticast (htobe32 f.dst_ip)) else f.dst_mac
  let src_mac := match f.src_mac with
    | some m => (m, onesMac)
    | none => (zeroMac, zeroMac)
  let ether_type := matchNonzero f.ether_type (htobe16 f.ether_type) 0xffff
  let vlan_tag := matchNonzero f.vlan_tag (htobe16 f.vlan_tag) 0xffff
  { num_of_specs := if f.isTcpUdp then 3 else if f.isIp then 2 else 1
    eth := (⟨dst_mac.getD mac, src_mac.1, ether_type.1, vlan_tag.1⟩,
      ⟨onesMac, src_mac.2, ether_type.2, vlan_tag.2⟩)
    ipv4 := if f.isIp then (⟨src_ip.1, dst_ip.1⟩, ⟨src_ip.2, dst_ip.2⟩) else (⟨0, 0⟩, ⟨0, 0⟩)
    tcp_udp_type := if f.isTcpUdp then some f.flow_type else none
    tcp_udp := if f.isTcpUdp then (⟨dst_port.1, src_port.1⟩, ⟨dst_port.2, src_port.2⟩)
      else (⟨0, 0⟩, ⟨0, 0⟩) }

/-- The context's fields, as they are once `hashpipe_ibv_init` has replaced zeros. -/
structure FlowConfig where
  nqp : ℕ
  max_flows : ℕ
  mac : Mac

/-- The context's flow tables and the kernel's memberships of `mcast_subscriber`; and as
history whether a null handle was ever destroyed or a live one overwritten. -/
structure FlowState where
  ibv_flows : ℤ → Option FlowRule
  flow_dst_ips : ℕ → UInt32
  joined : UInt32 → Bool
  destroyedNull : Bool
  overwroteLive : Bool

/-- How the kernel and the NIC answer the calls made by one `hashpipe_ibv_flow`. -/
structure FlowEnv where
  drop : Bool
  destroy : ℕ → Bool
  add : Bool
  create : ℕ → Bool

/-- `int j = i*max_flows + flow_idx`, computed in `uint32_t`. -/
def flowSlot (c : FlowConfig) (i flow_idx : ℕ) : ℤ :=
  let j : ℕ := (i * c.max_flows + flow_idx) % 2 ^ 32
  if j < 2 ^ 31 then (j : ℤ) else (j : ℤ) - 2 ^ 32

inductive MembershipOption
  | ADD
  | DROP

/-- The memberships afterwards, and whether the call returned 0.  The kernel refuses to add
a group twice and to drop one that was not added. -/
def hashpipeIbvMcastMembership (joined : UInt32 → Bool) (option : MembershipOption)
    (dst_ip_be : UInt32) (answer : Bool) : (UInt32 → Bool) × Bool :=
  if beMulticast dst_ip_be then
    match option with
    | .ADD =>
      if answer && !joined dst_ip_be then (Function.update joined dst_ip_be true, true)
      else (joined, false)
    | .DROP =>
      if answer && joined dst_ip_be then (Function.update joined dst_ip_be false, true)
      else (joined, false)
  else (joined, true)

/-- `return 1` is `Except.error`, with the state it leaves. -/
def destroyFlow (c : FlowConfig) (flow_idx : ℕ) (env : FlowEnv) (s : FlowState) (i : ℕ) :
    Except FlowState FlowState :=
  let j := flowSlot c i flow_idx
  let s := { s with destroyedNull := s.destroyedNull || (s.ibv_flows j).isNone }
  if env.destroy i then .ok { s with ibv_flows := Function.update s.ibv_flows j none }
  else .error s

/-- If there is already a flow in the specified index, destroy it for each QP. -/
def removeFlows (c : FlowConfig) (flow_idx : ℕ) (env : FlowEnv) (s : FlowState) :
    Except FlowState FlowState :=
  if (s.ibv_flows flow_idx).isSome then
    let m := hashpipeIbvMcastMembership s.joined .DROP (s.flow_dst_ips flow_idx) env.drop
    if m.2 then
      (List.range c.nqp).foldlM (destroyFlow c flow_idx env)
        { s with joined := m.1, flow_dst_ips := Function.update s.flow_dst_ips flow_idx 0 }
    else .error s
  else .ok s

/-- The IPv4 case of the `switch`: remember the address, and join it. -/
def recordDstIp (flow_idx : ℕ) (f : FlowCriteria) (env : FlowEnv) (s : FlowState) :
    Except FlowState FlowState :=
  if f.records then
    let s := { s with
      flow_dst_ips := Function.update s.flow_dst_ips flow_idx (htobe32 f.dst_ip) }
    if inMulticast f.dst_ip then
      let m := hashpipeIbvMcastMembership s.joined .ADD (htobe32 f.dst_ip) env.add
      if m.2 then .ok { s with joined := m.1 } else .error s
    else .ok s
  else .ok s

def createFlow (c : FlowConfig) (flow_idx : ℕ) (rule : FlowRule) (env : FlowEnv) (s : FlowState)
    (i : ℕ) : Except FlowState FlowState :=
  let j := flowSlot c i flow_idx
  let s := { s with overwroteLive := s.overwroteLive || (s.ibv_flows j).isSome }
  if env.create i then .ok { s with ibv_flows := Function.update s.ibv_flows j (some rule) }
  else .error { s with ibv_flows := Function.update s.ibv_flows j none }

def replaceFlows (c : FlowConfig) (flow_idx : ℕ) (f : FlowCriteria) (env : FlowEnv)
    (s : FlowState) : Except FlowState FlowState :=
  (removeFlows c flow_idx env s).bind fun s =>
    if f.isEmpty then .ok s
    else (recordDstIp flow_idx f env s).bind fun s =>
      (List.range c.nqp).foldlM (createFlow c flow_idx (flowRule c.mac f) env) s

/-- The state that `hashpipe_ibv_flow` leaves and what it returns. -/
def hashpipeIbvFlow (c : FlowConfig) (flow_idx : ℕ) (f : FlowCriteria) (env : FlowEnv)
    (s : FlowState) : FlowState × ℤ :=
  if c.max_flows ≤ flow_idx then (s, 1)
  else if f.flow_type = .other then (s, 1)
  else
    match replaceFlows c flow_idx f env s with
    | .ok s => (s, 0)
    | .error s => (s, 1)

structure FlowCall where
  flow_idx : ℕ
  criteria : FlowCriteria
  env : FlowEnv

/-- After `hashpipe_ibv_init`: no flows, no addresses, no memberships. -/
def flowInit : FlowState :=
  { ibv_flows := fun _ => none, flow_dst_ips := fun _ => 0, joined := fun _ => false,
    destroyedNull := false, overwroteLive := false }

def flowSystem (c : FlowConfig) : System FlowState FlowCall where
  init s := s = flowInit
  next s a := some (hashpipeIbvFlow c a.flow_idx a.criteria a.env s).1

/-- All handles of the index are live. -/
def FlowState.live (c : FlowConfig) (s : FlowState) (flow_idx : ℕ) : Prop :=
  ∀ i < c.nqp, (s.ibv_flows (flowSlot c i flow_idx)).isSome = true

/-- All handles of the index are null. -/
def FlowState.absent (c : FlowConfig) (s : FlowState) (flow_idx : ℕ) : Prop :=
  ∀ i < c.nqp, s.ibv_flows (flowSlot c i flow_idx) = none

/-- The handles of an index are all live or all null, no null handle was destroyed and no
live one overwritten, and the joined groups are those that live indices record. -/
structure FlowState.consistent (c : FlowConfig) (s : FlowState) : Prop where
  handles : ∀ idx < c.max_flows, s.live c idx ∨ s.absent c idx
  destroyed : s.destroyedNull = false
  overwritten : s.overwroteLive = false
  joined : ∀ g, s.joined g = true ↔
    beMulticast g = true ∧ ∃ idx < c.max_flows, s.live c idx ∧ s.flow_dst_ips idx = g

/-- No call stops half way: destroying and creating fail at most on the first QP, creating
not after a group was joined, and a flow that records no address of its own does not go
to an index where a failed call left a multicast address. -/
def flowOk (c : FlowConfig) (s : FlowState) (a : FlowCall) : Prop :=
  (a.env.destroy 0 = false ∨ ∀ i < c.nqp, a.env.destroy i = true) ∧
  ((∀ i < c.nqp, a.env.create i = true) ∨ a.env.create 0 = false ∧ a.criteria.joins = false) ∧
  (a.criteria.records = true ∨ a.criteria.isEmpty = true ∨
    (s.ibv_flows a.flow_idx).isSome = true ∨ beMulticast (s.flow_dst_ips a.flow_idx) = false)

instance (c : FlowConfig) (s : FlowState) (a : FlowCall) : Decidable (flowOk c s a) := by
  unfold flowOk
  infer_instance

/-! ### Byte order -/

theorem htobe32_and (x : BitVec 32) :
    (((x &&& 0xff#32) <<< 24) ||| ((x &&& 0xff00#32) <<< 8) ||| ((x >>> 8) &&& 0xff00#32) |||
      (x >>> 24)) &&& 0xf0#32 = (x &&& 0xf0000000#32) >>> 24 := by
  apply BitVec.eq_of_getLsbD_eq
  intro i hi
  interval_cases i <;> simp

theorem top_nibble (x : BitVec 32) :
    (x &&& 0xf0000000#32) >>> 24 = 0xe0#32 ↔ x &&& 0xf0000000#32 = 0xe0000000#32 := by
  constructor
  · intro h
    have hbits : ∀ j, (x &&& 0xf0000000#32).getLsbD (24 + j) = (0xe0#32).getLsbD j := by
      intro j
      rw [← h, BitVec.getLsbD_ushiftRight]
    apply BitVec.eq_of_getLsbD_eq
    intro i hi
    by_cases hlow : i < 24
    · interval_cases i <;> simp
    · obtain ⟨j, rfl⟩ := Nat.exists_eq_add_of_le (Nat.le_of_not_lt hlow)
      rw [hbits]
      have hj : j < 8 := by omega
      interval_cases j <;> decide
  · intro h
    rw [h]
    decide

/-- The two tests for a multicast address agree. -/
theorem beMulticast_htobe32 (x : UInt32) : beMulticast (htobe32 x) = inMulticast x := by
  have hand : (htobe32 x &&& 0xf0).toBitVec = (x.toBitVec &&& 0xf0000000#32) >>> 24 :=
    htobe32_and x.toBitVec
  rw [beMulticast, inMulticast, Bool.eq_iff_iff, beq_iff_eq, beq_iff_eq, ← UInt32.toBitVec_inj,
    ← UInt32.toBitVec_inj, hand]
  exact top_nibble x.toBitVec

/-! ### The table -/

section Invariant

variable {c : FlowConfig} {s t : FlowState} {idx : ℕ} {env : FlowEnv}

/-- The handles of one index do not share their slots with those of another. -/
theorem flowSlot_eq (hsize : c.nqp * c.max_flows ≤ 2 ^ 31) {i : ℕ} (hi : i < c.nqp)
    (hidx : idx < c.max_flows) : flowSlot c i idx = (i * c.max_flows + idx : ℕ) := by
  have hlt : i * c.max_flows + idx < c.nqp * c.max_flows := by
    calc i * c.max_flows + idx < (i + 1) * c.max_flows := by rw [Nat.succ_mul]; omega
      _ ≤ c.nqp * c.max_flows := Nat.mul_le_mul_right _ hi
  have hmod : (i * c.max_flows + idx) % 2 ^ 32 = i * c.max_flows + idx :=
    Nat.mod_eq_of_lt (by omega)
  rw [flowSlot, hmod]
  exact if_pos (by omega)

theorem flowSlot_inj (hsize : c.nqp * c.max_flows ≤ 2 ^ 31) {i i' idx' : ℕ} (hi : i < c.nqp)
    (hi' : i' < c.nqp) (hidx : idx < c.max_flows) (hidx' : idx' < c.max_flows)
    (h : flowSlot c i idx = flowSlot c i' idx') : i = i' ∧ idx = idx' := by
  rw [flowSlot_eq hsize hi hidx, flowSlot_eq hsize hi' hidx', Nat.cast_inj] at h
  have hdiv := congrArg (· / c.max_flows) h
  have hmod := congrArg (· % c.max_flows) h
  simp only [Nat.mul_comm _ c.max_flows, Nat.mul_add_div (show 0 < c.max_flows by omega),
    Nat.div_eq_of_lt hidx, Nat.div_eq_of_lt hidx', Nat.add_zero] at hdiv
  simp only [Nat.mul_comm _ c.max_flows, Nat.mul_add_mod, Nat.mod_eq_of_lt hidx,
    Nat.mod_eq_of_lt hidx'] at hmod
  exact ⟨hdiv, hmod⟩

/-- Destroying live handles one after the other, when every call succeeds. -/
theorem destroyFlows_ok (hsize : c.nqp * c.max_flows ≤ 2 ^ 31) (hidx : idx < c.max_flows)
    (hlive : s.live c idx) : ∀ n ≤ c.nqp, (∀ i < n, env.destroy i = true) →
    ∃ flows, (List.range n).foldlM (destroyFlow c idx env) s = .ok { s with ibv_flows := flows } ∧
      (∀ i < n, flows (flowSlot c i idx) = none) ∧
      ∀ j, (∀ i < n, j ≠ flowSlot c i idx) → flows j = s.ibv_flows j := by
  intro n
  induction n with
  | zero =>
    intro _ _
    exact ⟨s.ibv_flows, rfl, by simp, fun _ _ => rfl⟩
  | succ n ih =>
    intro hn hall
    obtain ⟨flows, hrun, hnone, hsame⟩ := ih (by omega) fun i hi => hall i (by omega)
    have hstill : flows (flowSlot c n idx) = s.ibv_flows (flowSlot c n idx) := by
      apply hsame
      intro i hi heq
      have := (flowSlot_inj hsize (by omega) (by omega) hidx hidx heq).1
      omega
    have hsome := hlive n (by omega)
    refine ⟨Function.update flows (flowSlot c n idx) none, ?_, ?_, ?_⟩
    · rw [List.range_succ, List.foldlM_append, hrun]
      simp only [List.foldlM_cons, List.foldlM_nil, bind, Except.bind, pure, Except.pure,
        destroyFlow, hall n (Nat.lt_succ_self n), hstill, if_true]
      rw [Option.isNone_eq_false_iff.mpr hsome, Bool.or_false]
    · intro i hi
      by_cases hin : i = n
      · subst hin
        exact Function.update_self _ _ _
      · have hne : flowSlot c i idx ≠ flowSlot c n idx := fun heq =>
          hin (flowSlot_inj hsize (by omega) (by omega) hidx hidx heq).1
        rw [Function.update_of_ne hne]
        exact hnone i (by omega)
    · intro j hj
      rw [Function.update_of_ne (hj n (Nat.lt_succ_self n))]
      exact hsame j fun i hi => hj i (by omega)

/-- Creating handles where there are none, when every call succeeds. -/
theorem createFlows_ok (hsize : c.nqp * c.max_flows ≤ 2 ^ 31) (hidx : idx < c.max_flows)
    (habsent : s.absent c idx) (rule : FlowRule) : ∀ n ≤ c.nqp,
    (∀ i < n, env.create i = true) →
    ∃ flows, (List.range n).foldlM (createFlow c idx rule env) s =
        .ok { s with ibv_flows := flows } ∧
      (∀ i < n, flows (flowSlot c i idx) = some rule) ∧
      ∀ j, (∀ i < n, j ≠ flowSlot c i idx) → flows j = s.ibv_flows j := by
  intro n
  induction n with
  | zero =>
    intro _ _
    exact ⟨s.ibv_flows, rfl, by simp, fun _ _ => rfl⟩
  | succ n ih =>
    intro hn hall
    obtain ⟨flows, hrun, hsome, hsame⟩ := ih (by omega) fun i hi => hall i (by omega)
    have hstill : flows (flowSlot c n idx) = none := by
      rw [hsame, habsent n (by omega)]
      intro i hi heq
      have := (flowSlot_inj hsize (by omega) (by omega) hidx hidx heq).1
      omega
    refine ⟨Function.update flows (flowSlot c n idx) (some rule), ?_, ?_, ?_⟩
    · rw [List.range_succ, List.foldlM_append, hrun]
      simp only [List.foldlM_cons, List.foldlM_nil, bind, Except.bind, pure, Except.pure,
        createFlow, hall n (Nat.lt_succ_self n), hstill, if_true, Option.isSome_none,
        Bool.or_false]
    · intro i hi
      by_cases hin : i = n
      · subst hin
        exact Function.update_self _ _ _
      · have hne : flowSlot c i idx ≠ flowSlot c n idx := fun heq =>
          hin (flowSlot_inj hsize (by omega) (by omega) hidx hidx heq).1
        rw [Function.update_of_ne hne]
        exact hsome i (by omega)
    · intro j hj
      rw [Function.update_of_ne (hj n (Nat.lt_succ_self n))]
      exact hsame j fun i hi => hj i (by omega)

theorem destroyFlows_first (hn : 0 < c.nqp) (hsome : (s.ibv_flows (flowSlot c 0 idx)).isSome = true)
    (hfail : env.destroy 0 = false) :
    (List.range c.nqp).foldlM (destroyFlow c idx env) s = .error s := by
  obtain ⟨n, hn⟩ := Nat.exists_eq_succ_of_ne_zero (Nat.pos_iff_ne_zero.mp hn)
  rw [hn, List.range_succ_eq_map, List.foldlM_cons]
  simp only [destroyFlow, hfail, Option.isNone_eq_false_iff.mpr hsome, Bool.or_false]
  rfl

theorem createFlows_first (hn : 0 < c.nqp) (hnone : s.ibv_flows (flowSlot c 0 idx) = none)
    (rule : FlowRule) (hfail : env.create 0 = false) :
    (List.range c.nqp).foldlM (createFlow c idx rule env) s = .error s := by
  obtain ⟨n, hn⟩ := Nat.exists_eq_succ_of_ne_zero (Nat.pos_iff_ne_zero.mp hn)
  have hupd : Function.update s.ibv_flows (flowSlot c 0 idx) none = s.ibv_flows := by
    rw [← hnone, Function.update_eq_self]
  rw [hn, List.range_succ_eq_map, List.foldlM_cons]
  simp only [createFlow, hfail, hnone, Option.isSome_none, Bool.or_false, hupd]
  rfl

/-- What holds between calls: the table is consistent, and no two live indices record one
multicast group. -/
structure FlowInv (c : FlowConfig) (s : FlowState) : Prop extends s.consistent c where
  distinct : ∀ idx < c.max_flows, ∀ idx' < c.max_flows, s.live c idx → s.live c idx' →
    beMulticast (s.flow_dst_ips idx) = true → s.flow_dst_ips idx = s.flow_dst_ips idx' → idx = idx'

theorem flowInv_init (hn : 0 < c.nqp) : FlowInv c flowInit := by
  have hdead : ∀ idx, ¬ FlowState.live c flowInit idx := by
    intro idx hlive
    have := hlive 0 hn
    simp [flowInit] at this
  refine ⟨⟨fun idx _ => .inr fun _ _ => rfl, rfl, rfl, ?_⟩, ?_⟩
  · intro g
    constructor
    · intro h
      cases h
    · intro ⟨_, idx, _, hlive, _⟩
      exact absurd hlive (hdead idx)
  · intro idx _ _ _ hlive
    exact absurd hlive (hdead idx)

theorem FlowState.absent_of_not_live (hi : s.consistent c) (hidx : idx < c.max_flows)
    (h : ¬ s.live c idx) : s.absent c idx :=
  (hi.handles idx hidx).resolve_left h

theorem FlowState.not_live_of_absent (hn : 0 < c.nqp) (h : s.absent c idx) : ¬ s.live c idx := by
  intro hlive
  have hsome := hlive 0 hn
  rw [h 0 hn] at hsome
  cases hsome

/-- The test on the first handle decides for all of them. -/
theorem FlowInv.live_iff (hi : FlowInv c s) (hsize : c.nqp * c.max_flows ≤ 2 ^ 31)
    (hn : 0 < c.nqp) (hidx : idx < c.max_flows) :
    (s.ibv_flows idx).isSome = true ↔ s.live c idx := by
  have hslot : flowSlot c 0 idx = (idx : ℤ) := by
    rw [flowSlot_eq hsize hn hidx, Nat.zero_mul, Nat.zero_add]
  constructor
  · intro hsome
    rcases hi.handles idx hidx with hlive | habsent
    · exact hlive
    · rw [← hslot, habsent 0 hn] at hsome
      cases hsome
  · intro hlive
    rw [← hslot]
    exact hlive 0 hn

/-- A dropped group is out, the others stay. -/
theorem membership_drop {joined : UInt32 → Bool} {ip : UInt32} {answer : Bool}
    (hjoined : ∀ g, joined g = true → beMulticast g = true)
    (h : (hashpipeIbvMcastMembership joined .DROP ip answer).2 = true) (g : UInt32) :
    (hashpipeIbvMcastMembership joined .DROP ip answer).1 g = true ↔ joined g = true ∧ g ≠ ip := by
  unfold hashpipeIbvMcastMembership at h ⊢
  by_cases hm : beMulticast ip = true
  · simp only [hm, if_true] at h ⊢
    by_cases hdrop : (answer && joined ip) = true
    · simp only [hdrop, if_true]
      by_cases hg : g = ip
      · subst hg
        simp
      · simp [hg]
    · simp [hdrop] at h
  · simp only [hm]
    refine ⟨fun hg => ⟨hg, ?_⟩, fun hg => hg.1⟩
    rintro rfl
    exact hm (hjoined g hg)

/-- An added group was not joined before, and is now. -/
theorem membership_add {joined : UInt32 → Bool} {ip : UInt32} {answer : Bool}
    (hm : beMulticast ip = true)
    (h : (hashpipeIbvMcastMembership joined .ADD ip answer).2 = true) :
    joined ip = false ∧
      (hashpipeIbvMcastMembership joined .ADD ip answer).1 = Function.update joined ip true := by
  unfold hashpipeIbvMcastMembership at h ⊢
  simp only [hm, if_true] at h ⊢
  by_cases hadd : (answer && !joined ip) = true
  · simp only [hadd, if_true, and_true]
    simpa using (Bool.and_eq_true_iff.mp hadd).2
  · simp [hadd] at h

/-- Recording an address at an index without flows. -/
theorem FlowInv.setRecord (hi : FlowInv c s) (hdead : ¬ s.live c idx) (ip : UInt32) :
    FlowInv c { s with flow_dst_ips := Function.update s.flow_dst_ips idx ip } := by
  have hother : ∀ k, s.live c k → Function.update s.flow_dst_ips idx ip k = s.flow_dst_ips k := by
    intro k hk
    apply Function.update_of_ne
    rintro rfl
    exact hdead hk
  refine ⟨⟨hi.handles, hi.destroyed, hi.overwritten, fun g => ?_⟩, ?_⟩
  · refine (hi.joined g).trans (and_congr_right fun _ => ?_)
    refine exists_congr fun k => and_congr_right fun _ => and_congr_right fun hk => ?_
    rw [← hother k hk]
  · intro k hk k' hk' hlive hlive' hm heq
    have hlive : s.live c k := hlive
    have hlive' : s.live c k' := hlive'
    dsimp only at hm heq
    rw [hother k hlive] at hm heq
    rw [hother k' hlive'] at heq
    exact hi.distinct k hk k' hk' hlive hlive' hm heq

/-- Leaving the group of a live index and forgetting its address. -/
theorem FlowInv.dropRecord (hi : FlowInv c s) (hidx : idx < c.max_flows) (hlive : s.live c idx)
    {answer : Bool}
    (hdrop : (hashpipeIbvMcastMembership s.joined .DROP (s.flow_dst_ips idx) answer).2 = true) :
    FlowInv c { s with
      joined := (hashpipeIbvMcastMembership s.joined .DROP (s.flow_dst_ips idx) answer).1,
      flow_dst_ips := Function.update s.flow_dst_ips idx 0 } := by
  have hjoined := membership_drop (fun g hg => ((hi.joined g).mp hg).1) hdrop
  have hrecord : ∀ {k g}, beMulticast g = true → Function.update s.flow_dst_ips idx 0 k = g →
      k ≠ idx ∧ s.flow_dst_ips k = g := by
    rintro k g hm rfl
    have hk : k ≠ idx := by
      rintro rfl
      rw [Function.update_self] at hm
      cases hm
    exact ⟨hk, (Function.update_of_ne hk _ _).symm⟩
  refine ⟨⟨hi.handles, hi.destroyed, hi.overwritten, fun g => (hjoined g).trans ?_⟩, ?_⟩
  · constructor
    · intro ⟨hg, hne⟩
      obtain ⟨hm, k, hk, hklive, rfl⟩ := (hi.joined g).mp hg
      refine ⟨hm, k, hk, hklive, Function.update_of_ne ?_ _ _⟩
      rintro rfl
      exact hne rfl
    · intro ⟨hm, k, hk, hklive, hkg⟩
      obtain ⟨hne, hkg⟩ := hrecord hm hkg
      refine ⟨(hi.joined g).mpr ⟨hm, k, hk, hklive, hkg⟩, ?_⟩
      rintro rfl
      exact hne (hi.distinct k hk idx hidx hklive hlive (hkg ▸ hm) hkg)
  · intro k hk k' hk' hklive hklive' hm heq
    obtain ⟨-, hkg⟩ := hrecord hm rfl
    obtain ⟨-, hkg'⟩ := hrecord hm heq.symm
    exact hi.distinct k hk k' hk' hklive hklive' (by rw [hkg]; exact hm) (hkg.trans hkg'.symm)

/-- The handles of the other indices are untouched. -/
theorem live_congr (hsize : c.nqp * c.max_flows ≤ 2 ^ 31) (hidx : idx < c.max_flows)
    {flows : ℤ → Option FlowRule}
    (hsame : ∀ j, (∀ i < c.nqp, j ≠ flowSlot c i idx) → flows j = s.ibv_flows j) {k : ℕ}
    (hk : k < c.max_flows) (hne : k ≠ idx) (i : ℕ) (hi : i < c.nqp) :
    flows (flowSlot c i k) = s.ibv_flows (flowSlot c i k) := by
  apply hsame
  intro i' hi' heq
  exact hne (flowSlot_inj hsize hi hi' hk hidx heq).2

theorem FlowInv.clearHandles (hi : FlowInv c s) (hsize : c.nqp * c.max_flows ≤ 2 ^ 31)
    (hn : 0 < c.nqp) (hidx : idx < c.max_flows) (hm : beMulticast (s.flow_dst_ips idx) = false)
    {flows : ℤ → Option FlowRule} (hnone : ∀ i < c.nqp, flows (flowSlot c i idx) = none)
    (hsame : ∀ j, (∀ i < c.nqp, j ≠ flowSlot c i idx) → flows j = s.ibv_flows j) :
    FlowInv c { s with ibv_flows := flows } := by
  have hother : ∀ k < c.max_flows, k ≠ idx →
      (FlowState.live c { s with ibv_flows := flows } k ↔ s.live c k) := by
    intro k hk hne
    refine forall_congr' fun i => forall_congr' fun hin => ?_
    dsimp only
    rw [live_congr hsize hidx hsame hk hne i hin]
  have hdead : ¬ FlowState.live c { s with ibv_flows := flows } idx :=
    FlowState.not_live_of_absent hn hnone
  have hne_of_live : ∀ {k}, FlowState.live c { s with ibv_flows := flows } k → k ≠ idx := by
    rintro k hk rfl
    exact hdead hk
  refine ⟨⟨?_, hi.destroyed, hi.overwritten, fun g => (hi.joined g).trans ?_⟩, ?_⟩
  · intro k hk
    by_cases hne : k = idx
    · subst hne
      exact .inr hnone
    · rcases hi.handles k hk with hlive | habsent
      · exact .inl ((hother k hk hne).mpr hlive)
      · exact .inr fun i hin => (live_congr hsize hidx hsame hk hne i hin).trans (habsent i hin)
  · refine and_congr_right fun hg => exists_congr fun k => and_congr_right fun hk => ?_
    constructor
    · rintro ⟨hlive, rfl⟩
      have hne : k ≠ idx := by
        rintro rfl
        rw [hm] at hg
        cases hg
      exact ⟨(hother k hk hne).mpr hlive, rfl⟩
    · intro ⟨hlive, hkg⟩
      exact ⟨(hother k hk (hne_of_live hlive)).mp hlive, hkg⟩
  · intro k hk k' hk' hlive hlive' hm heq
    exact hi.distinct k hk k' hk' ((hother k hk (hne_of_live hlive)).mp hlive)
      ((hother k' hk' (hne_of_live hlive')).mp hlive') hm heq

/-- **Removing a flow** keeps the table consistent whether it succeeds or not. -/
theorem FlowInv.removeFlows (hi : FlowInv c s) (hsize : c.nqp * c.max_flows ≤ 2 ^ 31)
    (hn : 0 < c.nqp) (hidx : idx < c.max_flows)
    (hok : env.destroy 0 = false ∨ ∀ i < c.nqp, env.destroy i = true) :
    (∃ t, removeFlows c idx env s = .error t ∧ FlowInv c t) ∨
    ∃ t, removeFlows c idx env s = .ok t ∧ FlowInv c t ∧ t.absent c idx ∧
      (t = s ∨ t.flow_dst_ips idx = 0) ∧
      ((s.ibv_flows idx).isSome = true → t.flow_dst_ips idx = 0) := by
  unfold Ibverbs.removeFlows
  by_cases hsome : (s.ibv_flows idx).isSome = true
  · have hlive := (hi.live_iff hsize hn hidx).mp hsome
    simp only [hsome, if_true]
    by_cases hdrop : (hashpipeIbvMcastMembership s.joined .DROP (s.flow_dst_ips idx) env.drop).2 = true
    · simp only [hdrop, if_true]
      have hdropped := hi.dropRecord hidx hlive hdrop
      rcases hok with hfirst | hall
      · left
        exact ⟨_, destroyFlows_first hn (hlive 0 hn) hfirst, hdropped⟩
      · right
        obtain ⟨flows, hrun, hnone, hsame⟩ := destroyFlows_ok
          (s := { s with
            joined := (hashpipeIbvMcastMembership s.joined .DROP (s.flow_dst_ips idx) env.drop).1,
            flow_dst_ips := Function.update s.flow_dst_ips idx 0 })
          hsize hidx hlive c.nqp le_rfl hall
        have hzero : Function.update s.flow_dst_ips idx 0 idx = 0 := Function.update_self _ _ _
        refine ⟨_, hrun, hdropped.clearHandles hsize hn hidx ?_ hnone hsame, hnone,
          .inr hzero, fun _ => hzero⟩
        dsimp only
        rw [hzero]
        rfl
    · left
      refine ⟨s, ?_, hi⟩
      simp [hdrop]
  · right
    simp only [hsome]
    have habsent : s.absent c idx := by
      apply FlowState.absent_of_not_live hi.toconsistent hidx
      rwa [← hi.live_iff hsize hn hidx]
    exact ⟨s, rfl, hi, habsent, .inl rfl, fun h => absurd h (by simp)⟩

/-- The state just before the handles are created: the address of the index is recorded,
and joined by this very call if it is a multicast address. -/
structure FlowReady (s t : FlowState) (idx : ℕ) : Prop where
  flows : t.ibv_flows = s.ibv_flows
  destroyed : t.destroyedNull = s.destroyedNull
  overwritten : t.overwroteLive = s.overwroteLive
  others : ∀ k, k ≠ idx → t.flow_dst_ips k = s.flow_dst_ips k
  joined : ∀ g, t.joined g = true ↔
    s.joined g = true ∨ (beMulticast g = true ∧ t.flow_dst_ips idx = g)
  fresh : beMulticast (t.flow_dst_ips idx) = true → s.joined (t.flow_dst_ips idx) = false

theorem FlowInv.recordDstIp (hi : FlowInv c s) (habsent : ¬ s.live c idx) (env : FlowEnv)
    {f : FlowCriteria}
    (hstale : f.records = true ∨ beMulticast (s.flow_dst_ips idx) = false) :
    (∃ t, recordDstIp idx f env s = .error t ∧ FlowInv c t) ∨
    ∃ t, recordDstIp idx f env s = .ok t ∧ FlowReady s t idx ∧ (f.joins = false → FlowInv c t) := by
  unfold Ibverbs.recordDstIp
  by_cases hrec : f.records = true
  · simp only [hrec, if_true]
    have hset := hi.setRecord habsent (htobe32 f.dst_ip)
    have hself : Function.update s.flow_dst_ips idx (htobe32 f.dst_ip) idx = htobe32 f.dst_ip :=
      Function.update_self _ _ _
    have hothers : ∀ k, k ≠ idx →
        Function.update s.flow_dst_ips idx (htobe32 f.dst_ip) k = s.flow_dst_ips k :=
      fun k hk => Function.update_of_ne hk _ _
    by_cases hm : inMulticast f.dst_ip = true
    · simp only [hm, if_true]
      have hbe : beMulticast (htobe32 f.dst_ip) = true := by rw [beMulticast_htobe32, hm]
      by_cases hadd : (hashpipeIbvMcastMembership s.joined .ADD (htobe32 f.dst_ip) env.add).2 = true
      · right
        obtain ⟨hfresh, hjoined⟩ := membership_add hbe hadd
        simp only [hadd, if_true]
        refine ⟨_, rfl, ⟨rfl, rfl, rfl, hothers, ?_, ?_⟩, ?_⟩
        · intro g
          dsimp only
          rw [hjoined, hself]
          by_cases hg : g = htobe32 f.dst_ip
          · subst hg
            simp [hbe]
          · rw [Function.update_of_ne hg]
            simp [Ne.symm hg]
        · dsimp only
          rw [hself]
          exact fun _ => hfresh
        · intro hjoins
          simp [FlowCriteria.joins, hrec, hm] at hjoins
      · left
        simp only [hadd]
        exact ⟨_, rfl, hset⟩
    · right
      simp only [hm]
      have hbe : beMulticast (htobe32 f.dst_ip) = false := by
        rw [beMulticast_htobe32]
        exact Bool.eq_false_iff.mpr hm
      refine ⟨_, rfl, ⟨rfl, rfl, rfl, hothers, ?_, ?_⟩, fun _ => hset⟩
      · intro g
        dsimp only
        rw [hself]
        constructor
        · exact .inl
        · rintro (hg | ⟨hg, rfl⟩)
          · exact hg
          · rw [hbe] at hg
            cases hg
      · dsimp only
        rw [hself, hbe]
        exact fun h => by cases h
  · right
    have hbe := hstale.resolve_left hrec
    simp only [hrec]
    refine ⟨s, rfl, ⟨rfl, rfl, rfl, fun _ _ => rfl, ?_, ?_⟩, fun _ => hi⟩
    · intro g
      constructor
      · exact .inl
      · rintro (hg | ⟨hg, rfl⟩)
        · exact hg
        · rw [hbe] at hg
          cases hg
    · rw [hbe]
      exact fun h => by cases h

/-- Creating all handles of an index makes it live with the address it records. -/
theorem FlowInv.setHandles (hi : FlowInv c s) (hsize : c.nqp * c.max_flows ≤ 2 ^ 31)
    (hidx : idx < c.max_flows) (hdead : ¬ s.live c idx) (hready : FlowReady s t idx)
    {rule : FlowRule} {flows : ℤ → Option FlowRule}
    (hsome : ∀ i < c.nqp, flows (flowSlot c i idx) = some rule)
    (hsame : ∀ j, (∀ i < c.nqp, j ≠ flowSlot c i idx) → flows j = t.ibv_flows j) :
    FlowInv c { t with ibv_flows := flows } := by
  have hframe : ∀ k < c.max_flows, k ≠ idx → ∀ i < c.nqp,
      flows (flowSlot c i k) = s.ibv_flows (flowSlot c i k) := by
    intro k hk hne i hin
    rw [← hready.flows]
    exact live_congr hsize hidx hsame hk hne i hin
  have hother : ∀ k < c.max_flows, k ≠ idx →
      (FlowState.live c { t with ibv_flows := flows } k ↔ s.live c k) := by
    intro k hk hne
    refine forall_congr' fun i => forall_congr' fun hin => ?_
    dsimp only
    rw [hframe k hk hne i hin]
  have hlive : FlowState.live c { t with ibv_flows := flows } idx := by
    intro i hin
    dsimp only
    rw [hsome i hin]
    rfl
  -- a live index other than `idx` has its group joined already
  have hfresh : ∀ k < c.max_flows, s.live c k → beMulticast (t.flow_dst_ips idx) = true →
      s.flow_dst_ips k ≠ t.flow_dst_ips idx := by
    intro k hk hklive hm heq
    have hjoined := (hi.joined (t.flow_dst_ips idx)).mpr ⟨hm, k, hk, hklive, heq⟩
    rw [hready.fresh hm] at hjoined
    cases hjoined
  refine ⟨⟨?_, hready.destroyed.trans hi.destroyed, hready.overwritten.trans hi.overwritten,
    fun g => (hready.joined g).trans ?_⟩, ?_⟩
  · intro k hk
    by_cases hne : k = idx
    · subst hne
      exact .inl hlive
    · rcases hi.handles k hk with hklive | habsent
      · exact .inl ((hother k hk hne).mpr hklive)
      · exact .inr fun i hin => (hframe k hk hne i hin).trans (habsent i hin)
  · rw [hi.joined g]
    constructor
    · rintro (⟨hm, k, hk, hklive, rfl⟩ | ⟨hm, hg⟩)
      · have hne : k ≠ idx := by
          rintro rfl
          exact hdead hklive
        exact ⟨hm, k, hk, (hother k hk hne).mpr hklive, hready.others k hne⟩
      · exact ⟨hm, idx, hidx, hlive, hg⟩
    · intro ⟨hm, k, hk, hklive, hkg⟩
      by_cases hne : k = idx
      · subst hne
        exact .inr ⟨hm, hkg⟩
      · exact .inl ⟨hm, k, hk, (hother k hk hne).mp hklive, (hready.others k hne).symm.trans hkg⟩
  · intro k hk k' hk' hklive hklive' hm heq
    dsimp only at hm heq
    by_cases hne : k = idx
    · subst hne
      by_contra hne'
      have hk'live := (hother k' hk' (Ne.symm hne')).mp hklive'
      exact hfresh k' hk' hk'live hm ((hready.others k' (Ne.symm hne')).symm.trans heq.symm)
    · have hkl := (hother k hk hne).mp hklive
      by_cases hne' : k' = idx
      · subst hne'
        rw [heq] at hm
        exact absurd ((hready.others k hne).symm.trans heq) (hfresh k hk hkl hm)
      · rw [hready.others k hne] at hm heq
        rw [hready.others k' hne'] at heq
        exact hi.distinct k hk k' hk' hkl ((hother k' hk' hne').mp hklive') hm heq

/-- **One call keeps the table consistent** under the condition. -/
theorem FlowInv.next (hi : FlowInv c s) (hsize : c.nqp * c.max_flows ≤ 2 ^ 31) (hn : 0 < c.nqp)
    {a : FlowCall} (hok : flowOk c s a) :
    FlowInv c (hashpipeIbvFlow c a.flow_idx a.criteria a.env s).1 := by
  obtain ⟨hdestroy, hcreate, hstale⟩ := hok
  unfold hashpipeIbvFlow
  split
  · exact hi
  · rename_i hidx
    have hidx : a.flow_idx < c.max_flows := Nat.lt_of_not_le hidx
    split
    · exact hi
    · suffices h : (∃ t, replaceFlows c a.flow_idx a.criteria a.env s = .error t ∧ FlowInv c t) ∨
          ∃ t, replaceFlows c a.flow_idx a.criteria a.env s = .ok t ∧ FlowInv c t by
        rcases h with ⟨t, ht, hinv⟩ | ⟨t, ht, hinv⟩ <;> rw [ht] <;> exact hinv
      unfold replaceFlows
      rcases hi.removeFlows hsize hn hidx hdestroy with ⟨t, ht, hinv⟩ | ⟨t, ht, hinv, habs, hdst, hzero⟩
      · rw [ht]
        exact .inl ⟨t, rfl, hinv⟩
      rw [ht]
      simp only [Except.bind]
      by_cases hempty : a.criteria.isEmpty = true
      · rw [if_pos hempty]
        exact .inr ⟨t, rfl, hinv⟩
      rw [if_neg hempty]
      have hdead := FlowState.not_live_of_absent hn habs
      have hrecords : a.criteria.records = true ∨ beMulticast (t.flow_dst_ips a.flow_idx) = false := by
        rcases hstale with hrec | hemp | hlive | hplain
        · exact .inl hrec
        · exact absurd hemp hempty
        · rw [hzero hlive]
          exact .inr rfl
        · rcases hdst with rfl | hdst
          · exact .inr hplain
          · rw [hdst]
            exact .inr rfl
      rcases hinv.recordDstIp hdead a.env hrecords with
        ⟨u, hu, hinv'⟩ | ⟨u, hu, hready, hnojoin⟩
      · rw [hu]
        exact .inl ⟨u, rfl, hinv'⟩
      rw [hu]
      dsimp only
      have habs' : u.absent c a.flow_idx := by
        intro i hin
        rw [hready.flows]
        exact habs i hin
      rcases hcreate with hall | ⟨hfirst, hjoins⟩
      · right
        obtain ⟨flows, hrun, hsome, hsame⟩ := createFlows_ok hsize hidx habs'
          (flowRule c.mac a.criteria) c.nqp le_rfl hall
        exact ⟨_, hrun, hinv.setHandles hsize hidx hdead hready hsome hsame⟩
      · left
        exact ⟨u, createFlows_first hn (habs' 0 hn) _ hfirst, hnojoin hjoins⟩

/-- **The flow table stays consistent** in every run of calls that do not stop half way, when
`int j` can hold every slot. -/
theorem flows_consistent (hn : 0 < c.nqp) (hsize : c.nqp * c.max_flows ≤ 2 ^ 31)
    (h : ReachableUnder (flowSystem c) (flowOk c) s) : s.consistent c := by
  have hinv : FlowInv c s := by
    refine h.invariant (I := FlowInv c) ?_ ?_
    · rintro s rfl
      exact flowInv_init hn
    · intro s a t hi hok hs
      obtain rfl := Option.some.inj hs
      exact hi.next hsize hn hok
  exact hinv.toconsistent

end Invariant

/-! ### Calls that stop half way -/

def twoQps : FlowConfig := ⟨2, 2, zeroMac⟩

def udpPort (port : UInt16) : FlowCriteria := ⟨.UDP, none, none, 0, 0, 0, 0, 0, port⟩

def udpGroup (dst_ip : UInt32) : FlowCriteria := ⟨.UDP, none, none, 0, 0, 0, dst_ip, 0, 0⟩

def allSucceed : FlowEnv := ⟨true, fun _ => true, true, fun _ => true⟩

def createFails (i : ℕ) : FlowEnv := { allSucceed with create := fun k => k != i }

/-- Two indices are set up, one with a group; that one is replaced, first without success. -/
def replaceRun : List FlowCall :=
  [⟨0, udpGroup 0xe0000001, allSucceed⟩, ⟨1, udpPort 4000, allSucceed⟩,
   ⟨0, udpPort 5000, createFails 0⟩, ⟨0, udpGroup 0xe0000002, allSucceed⟩]

def replaceEnd : FlowState :=
  (runUnder (flowSystem twoQps) (flowOk twoQps) flowInit replaceRun).getD flowInit

theorem flows_consistent_replaceRun :
    replaceEnd.joined (htobe32 0xe0000002) = true ∧ replaceEnd.consistent twoQps :=
  ⟨by decide, flows_consistent (by decide) (by decide)
    ((ReachableUnder.init rfl).run_getD replaceRun)⟩

def flowEnd (calls : List FlowCall) : FlowState :=
  (run (flowSystem twoQps) flowInit calls).getD flowInit

theorem flowEnd_reachable (calls : List FlowCall) :
    Reachable (flowSystem twoQps) (flowEnd calls) :=
  (Reachable.init rfl).run_getD calls

/-- Creating the rule fails on queue pair 1. -/
def halfCreated : List FlowCall := [⟨0, udpPort 4000, createFails 1⟩]

/-- The same, and the call is made again. -/
def retried : List FlowCall := halfCreated ++ [⟨0, udpPort 4000, allSucceed⟩]

/-- A group is joined, and then creating the rule fails on queue pair 0. -/
def joinedOnly : List FlowCall := [⟨0, udpGroup 0xe0000001, createFails 0⟩]

/-- A failure on queue pair 1 leaves a live handle beside a null one, and the next call for
the index destroys the null one; a failure after the join leaves a group that no live index
records. -/
theorem flow_call_stops_half_way :
    (Reachable (flowSystem twoQps) (flowEnd halfCreated) ∧
      ¬ (flowEnd halfCreated).live twoQps 0 ∧ ¬ (flowEnd halfCreated).absent twoQps 0 ∧
      ¬ (flowEnd halfCreated).consistent twoQps) ∧
    (Reachable (flowSystem twoQps) (flowEnd retried) ∧ (flowEnd retried).destroyedNull = true) ∧
    (Reachable (flowSystem twoQps) (flowEnd joinedOnly) ∧
      (flowEnd joinedOnly).joined (htobe32 0xe0000001) = true ∧
      (∀ idx < 2, ¬ (flowEnd joinedOnly).live twoQps idx) ∧
      ¬ (flowEnd joinedOnly).consistent twoQps) := by
  have hhalf : ¬ (flowEnd halfCreated).live twoQps 0 ∧ ¬ (flowEnd halfCreated).absent twoQps 0 := by
    constructor
    · intro hlive
      exact absurd (hlive 1 (by decide)) (by decide)
    · intro habsent
      have hnone := habsent 0 (by decide)
      exact absurd (congrArg Option.isSome hnone) (by decide)
  have hjoined : (flowEnd joinedOnly).joined (htobe32 0xe0000001) = true := by decide
  have hdead : ∀ idx < 2, ¬ (flowEnd joinedOnly).live twoQps idx := by
    intro idx hidx hlive
    have hsome := hlive 0 (by decide)
    interval_cases idx <;> exact absurd hsome (by decide)
  refine ⟨⟨flowEnd_reachable _, hhalf.1, hhalf.2, fun hcons => ?_⟩,
    ⟨flowEnd_reachable _, by decide⟩, flowEnd_reachable _, hjoined, hdead, fun hcons => ?_⟩
  · rcases hcons.handles 0 (by decide) with hlive | habsent
    · exact hhalf.1 hlive
    · exact hhalf.2 habsent
  · obtain ⟨-, idx, hidx, hlive, -⟩ := (hcons.joined _).mp hjoined
    exact hdead idx hidx hlive

end Hashpipe.Ibverbs
