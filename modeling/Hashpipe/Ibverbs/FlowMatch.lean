import Hashpipe.Ibverbs.Flow

/-!
# What a flow rule matches

The structure that `hashpipe_ibv_flow` hands to `ibv_create_flow`, as its `switch` builds it:
an attribute header and three layer specs, of which the first `num_of_specs` count.  A packet's
fields stand in a spec as they come from the wire, in network byte order.

`flowRule_meaning`: for every type and choice of criteria the rule matches the packets of that
type whose fields are those given, and whose destination address is the one that the multicast
group, the caller or the context says.  `flowStruct_rule` connects the structure with the rule
that the model of the flow tables keeps.
-/

namespace Hashpipe.Ibverbs

/-! ### The structure -/

def sizeofFlowAttr : ℕ := 20
def sizeofFlowSpecEth : ℕ := 40
def sizeofFlowSpecIpv4 : ℕ := 24
def sizeofFlowSpecTcpUdp : ℕ := 16

/-- A layer spec: its header, the value and the mask. -/
structure FlowSpec (α : Type) where
  type : Option FlowType
  size : ℕ
  val : α
  mask : α

/-- `struct hashpipe_ibv_flow`, with the fields of `attr` that are not constant. -/
structure HashpipeIbvFlowStruct where
  size : ℕ
  num_of_specs : ℕ
  port : ℕ
  spec_eth : FlowSpec EthFilter
  spec_ipv4 : FlowSpec Ipv4Filter
  spec_tcp_udp : FlowSpec TcpUdpFilter

def zeroEth : EthFilter := ⟨zeroMac, zeroMac, 0, 0⟩

/-- The initialiser. -/
def flowStart (port_num : ℕ) : HashpipeIbvFlowStruct where
  size := sizeofFlowAttr
  num_of_specs := 0
  port := port_num
  spec_eth := ⟨some .ETH, sizeofFlowSpecEth, zeroEth, zeroEth⟩
  spec_ipv4 := ⟨some .IPV4, sizeofFlowSpecIpv4, ⟨0, 0⟩, ⟨0, 0⟩⟩
  spec_tcp_udp := ⟨none, sizeofFlowSpecTcpUdp, ⟨0, 0⟩, ⟨0, 0⟩⟩

/-- `case IBV_FLOW_SPEC_TCP` and `IBV_FLOW_SPEC_UDP`, which fall through. -/
def tcpUdpCase (f : FlowCriteria) (flow : HashpipeIbvFlowStruct) : HashpipeIbvFlowStruct :=
  let src := matchNonzero f.src_port (htobe16 f.src_port) 0xffff
  let dst := matchNonzero f.dst_port (htobe16 f.dst_port) 0xffff
  { flow with
    size := flow.size + sizeofFlowSpecTcpUdp
    num_of_specs := flow.num_of_specs + 1
    spec_tcp_udp := ⟨some f.flow_type, flow.spec_tcp_udp.size, ⟨dst.1, src.1⟩, ⟨dst.2, src.2⟩⟩ }

/-- `case IBV_FLOW_SPEC_IPV4`, which falls through. -/
def ipv4Case (f : FlowCriteria) (flow : HashpipeIbvFlowStruct) : HashpipeIbvFlowStruct :=
  let src := matchNonzero f.src_ip (htobe32 f.src_ip) 0xffffffff
  let dst := matchNonzero f.dst_ip (htobe32 f.dst_ip) 0xffffffff
  { flow with
    size := flow.size + sizeofFlowSpecIpv4
    num_of_specs := flow.num_of_specs + 1
    spec_ipv4 := ⟨flow.spec_ipv4.type, flow.spec_ipv4.size, ⟨src.1, dst.1⟩, ⟨src.2, dst.2⟩⟩ }

/-- `case IBV_FLOW_SPEC_ETH`; the default build has no wildcard destination. -/
def ethCase (mac : Mac) (dst_mac : Option Mac) (f : FlowCriteria) (flow : HashpipeIbvFlowStruct) :
    HashpipeIbvFlowStruct :=
  let src := f.src_mac.elim (zeroMac, zeroMac) fun m => (m, onesMac)
  let ether_type := matchNonzero f.ether_type (htobe16 f.ether_type) 0xffff
  let vlan_tag := matchNonzero f.vlan_tag (htobe16 f.vlan_tag) 0xffff
  { flow with
    size := flow.size + sizeofFlowSpecEth
    num_of_specs := flow.num_of_specs + 1
    spec_eth := ⟨flow.spec_eth.type, flow.spec_eth.size,
      ⟨dst_mac.getD mac, src.1, ether_type.1, vlan_tag.1⟩,
      ⟨onesMac, src.2, ether_type.2, vlan_tag.2⟩⟩ }

/-- The pointer `dst_mac` at the Ethernet case: a multicast `dst_ip` replaces it. -/
def dstMacArgument (f : FlowCriteria) : Option Mac :=
  if f.isIp && f.dst_ip != 0 && inMulticast f.dst_ip then
    some (etherMapIpMulticast (htobe32 f.dst_ip))
  else f.dst_mac

/-- The `switch`. -/
def flowStruct (port_num : ℕ) (mac : Mac) (f : FlowCriteria) : HashpipeIbvFlowStruct :=
  let flow := flowStart port_num
  let flow := if f.isTcpUdp then tcpUdpCase f flow else flow
  let flow := if f.isIp then ipv4Case f flow else flow
  ethCase mac (dstMacArgument f) f flow

/-- What the flow tables keep of the structure. -/
def HashpipeIbvFlowStruct.rule (flow : HashpipeIbvFlowStruct) : FlowRule where
  num_of_specs := flow.num_of_specs
  eth := (flow.spec_eth.val, flow.spec_eth.mask)
  ipv4 := (flow.spec_ipv4.val, flow.spec_ipv4.mask)
  tcp_udp_type := flow.spec_tcp_udp.type
  tcp_udp := (flow.spec_tcp_udp.val, flow.spec_tcp_udp.mask)

/-- It is the rule that `hashpipe_ibv_flow` creates. -/
theorem flowStruct_rule (port_num : ℕ) (mac : Mac) (f : FlowCriteria) :
    (flowStruct port_num mac f).rule = flowRule mac f := by
  have hdst : dstMacArgument f =
      if f.joins then some (etherMapIpMulticast (htobe32 f.dst_ip)) else f.dst_mac := rfl
  by_cases htu : f.isTcpUdp = true
  · have hip : f.isIp = true := by rw [FlowCriteria.isIp, htu]; rfl
    simp only [flowStruct, flowRule, htu, hip, if_true, ethCase, ipv4Case, tcpUdpCase, flowStart,
      HashpipeIbvFlowStruct.rule, hdst]
    cases f.src_mac <;> rfl
  · by_cases hip : f.isIp = true
    · simp only [flowStruct, flowRule, htu, hip, if_true, ethCase, ipv4Case, flowStart,
        HashpipeIbvFlowStruct.rule, hdst, Bool.false_eq_true, if_false]
      cases f.src_mac <;> rfl
    · simp only [flowStruct, flowRule, htu, hip, ethCase, flowStart,
        HashpipeIbvFlowStruct.rule, hdst, Bool.false_eq_true, if_false]
      cases f.src_mac <;> rfl

/-! ### Packets -/

inductive Transport
  | TCP
  | UDP
  deriving DecidableEq

structure TransportHeader where
  kind : Transport
  src_port : UInt16
  dst_port : UInt16

structure IpHeader where
  src_ip : UInt32
  dst_ip : UInt32
  transport : Option TransportHeader

/-- A packet's fields as numbers, and the headers it has. -/
structure Packet where
  dst_mac : Mac
  src_mac : Mac
  ether_type : UInt16
  vlan_tag : UInt16
  ip : Option IpHeader

/-- The bytes of a field and of a value agree where the mask has bits. -/
def MacMatches (field val mask : Mac) : Prop :=
  ∀ i : Fin 6, field.get i &&& mask.get i = val.get i &&& mask.get i

def FlowSpec.matchesEth (spec : FlowSpec EthFilter) (p : Packet) : Prop :=
  MacMatches p.dst_mac spec.val.dst_mac spec.mask.dst_mac ∧
  MacMatches p.src_mac spec.val.src_mac spec.mask.src_mac ∧
  htobe16 p.ether_type &&& spec.mask.ether_type = spec.val.ether_type &&& spec.mask.ether_type ∧
  htobe16 p.vlan_tag &&& spec.mask.vlan_tag = spec.val.vlan_tag &&& spec.mask.vlan_tag

def FlowSpec.matchesIpv4 (spec : FlowSpec Ipv4Filter) (p : Packet) : Prop :=
  ∃ ip, p.ip = some ip ∧
    htobe32 ip.src_ip &&& spec.mask.src_ip = spec.val.src_ip &&& spec.mask.src_ip ∧
    htobe32 ip.dst_ip &&& spec.mask.dst_ip = spec.val.dst_ip &&& spec.mask.dst_ip

/-- The flow type that names a transport layer. -/
def Transport.flowType : Transport → FlowType
  | .TCP => .TCP
  | .UDP => .UDP

def FlowSpec.matchesTcpUdp (spec : FlowSpec TcpUdpFilter) (p : Packet) : Prop :=
  ∃ ip transport, p.ip = some ip ∧ ip.transport = some transport ∧
    spec.type = some transport.kind.flowType ∧
    htobe16 transport.src_port &&& spec.mask.src_port = spec.val.src_port &&& spec.mask.src_port ∧
    htobe16 transport.dst_port &&& spec.mask.dst_port = spec.val.dst_port &&& spec.mask.dst_port

/-- The specs in their order in memory, with their sizes. -/
def HashpipeIbvFlowStruct.layers (flow : HashpipeIbvFlowStruct) :
    List (ℕ × (Packet → Prop)) :=
  [(flow.spec_eth.size, flow.spec_eth.matchesEth), (flow.spec_ipv4.size, flow.spec_ipv4.matchesIpv4),
    (flow.spec_tcp_udp.size, flow.spec_tcp_udp.matchesTcpUdp)]

/-- The rule matches a packet: the specs that count do. -/
def HashpipeIbvFlowStruct.Matches (flow : HashpipeIbvFlowStruct) (p : Packet) : Prop :=
  ∀ layer ∈ flow.layers.take flow.num_of_specs, layer.2 p

/-- `attr.size` ends with the last spec that counts, and there are as many as that. -/
def HashpipeIbvFlowStruct.Describes (flow : HashpipeIbvFlowStruct) (specs : ℕ) : Prop :=
  flow.num_of_specs = specs ∧ specs ≤ flow.layers.length ∧
    flow.size = sizeofFlowAttr + ((flow.layers.take specs).map Prod.fst).sum

/-! ### What is asked for -/

/-- How many layers a type has. -/
def FlowType.specs : FlowType → ℕ
  | .ETH => 1
  | .IPV4 => 2
  | .TCP => 3
  | .UDP => 3
  | .other => 0

/-- The Ethernet address of a multicast group: 01:00:5e and the low 23 bits of its address. -/
def multicastMac (dst_ip : UInt32) : Mac :=
  #v[0x01, 0x00, 0x5e, (dst_ip >>> (16 : UInt32)).toUInt8 &&& (0x7f : UInt8),
    (dst_ip >>> (8 : UInt32)).toUInt8, dst_ip.toUInt8]

/-- A `dst_ip` is given, the type looks at it, and it is a multicast address. -/
def FlowCriteria.toGroup (f : FlowCriteria) : Prop :=
  f.isIp = true ∧ f.dst_ip ≠ 0 ∧ inMulticast f.dst_ip = true

instance (f : FlowCriteria) : Decidable f.toGroup := by
  unfold FlowCriteria.toGroup
  infer_instance

/-- The destination address that the criteria stand for. -/
def wantedDstMac (mac : Mac) (f : FlowCriteria) : Mac :=
  if f.toGroup then multicastMac f.dst_ip else f.dst_mac.getD mac

/-- The packet has the headers of the type. -/
def Packet.ofType (p : Packet) : FlowType → Prop
  | .ETH => True
  | .IPV4 => p.ip.isSome = true
  | .TCP => ∃ ip transport, p.ip = some ip ∧ ip.transport = some transport ∧ transport.kind = .TCP
  | .UDP => ∃ ip transport, p.ip = some ip ∧ ip.transport = some transport ∧ transport.kind = .UDP
  | .other => False

/-- The packets that the criteria ask for. -/
structure Wanted (mac : Mac) (f : FlowCriteria) (p : Packet) : Prop where
  type : p.ofType f.flow_type
  dst_mac : p.dst_mac = wantedDstMac mac f
  src_mac : ∀ m, f.src_mac = some m → p.src_mac = m
  ether_type : f.ether_type ≠ 0 → p.ether_type = f.ether_type
  vlan_tag : f.vlan_tag ≠ 0 → p.vlan_tag = f.vlan_tag
  src_ip : f.isIp = true → f.src_ip ≠ 0 → ∀ ip, p.ip = some ip → ip.src_ip = f.src_ip
  dst_ip : f.isIp = true → f.dst_ip ≠ 0 → ∀ ip, p.ip = some ip → ip.dst_ip = f.dst_ip
  src_port : f.isTcpUdp = true → f.src_port ≠ 0 → ∀ ip transport, p.ip = some ip →
    ip.transport = some transport → transport.src_port = f.src_port
  dst_port : f.isTcpUdp = true → f.dst_port ≠ 0 → ∀ ip transport, p.ip = some ip →
    ip.transport = some transport → transport.dst_port = f.dst_port

/-! ### Masks and byte order -/

theorem htobe16_htobe16 (x : UInt16) : htobe16 (htobe16 x) = x := by
  apply UInt16.eq_of_toBitVec_eq
  apply BitVec.eq_of_getLsbD_eq
  intro i hi
  unfold htobe16
  interval_cases i <;> simp

/-- `htobe32` on bits. -/
def swap32 (x : BitVec 32) : BitVec 32 :=
  ((x &&& 0xff#32) <<< 24) ||| ((x &&& 0xff00#32) <<< 8) ||| ((x >>> 8) &&& 0xff00#32) |||
    (x >>> 24)

theorem toBitVec_htobe32 (x : UInt32) : (htobe32 x).toBitVec = swap32 x.toBitVec := rfl

theorem swap32_getLsbD (x : BitVec 32) {i : ℕ} (hi : i < 32) :
    (swap32 x).getLsbD i = x.getLsbD (24 - i / 8 * 8 + i % 8) := by
  unfold swap32
  interval_cases i <;> simp

theorem htobe32_htobe32 (x : UInt32) : htobe32 (htobe32 x) = x := by
  apply UInt32.eq_of_toBitVec_eq
  apply BitVec.eq_of_getLsbD_eq
  intro i hi
  rw [toBitVec_htobe32, toBitVec_htobe32, swap32_getLsbD _ hi, swap32_getLsbD _ (by omega)]
  congr 1
  omega

/-- Byte `k` of the one is byte `3 - k` of the other. -/
theorem swap32_byte (x : BitVec 32) {k : ℕ} (hk : k ≤ 3) :
    (swap32 x >>> (8 * k)).setWidth 8 = (x >>> (24 - 8 * k)).setWidth 8 := by
  apply BitVec.eq_of_getLsbD_eq
  intro i hi
  rw [BitVec.getLsbD_setWidth, BitVec.getLsbD_setWidth, BitVec.getLsbD_ushiftRight,
    BitVec.getLsbD_ushiftRight, swap32_getLsbD _ (by omega)]
  congr 2
  omega

/-- A 16-bit field is matched exactly if its criterion is not 0. -/
theorem match16_iff (x field : UInt16) :
    htobe16 field &&& (matchNonzero x (htobe16 x) (0xffff : UInt16)).2 =
        (matchNonzero x (htobe16 x) (0xffff : UInt16)).1 &&&
          (matchNonzero x (htobe16 x) (0xffff : UInt16)).2 ↔
      (x ≠ 0 → field = x) := by
  have hones : ∀ y : UInt16, y &&& (0xffff : UInt16) = y := fun _ => UInt16.and_neg_one
  unfold matchNonzero
  by_cases hx : x = 0
  · simp [hx]
  · simp only [beq_iff_eq, hx, if_false, hones, ne_eq, not_false_eq_true, true_implies]
    constructor
    · intro h
      rw [← htobe16_htobe16 field, h, htobe16_htobe16]
    · intro h
      rw [h]

theorem match32_iff (x field : UInt32) :
    htobe32 field &&& (matchNonzero x (htobe32 x) (0xffffffff : UInt32)).2 =
        (matchNonzero x (htobe32 x) (0xffffffff : UInt32)).1 &&&
          (matchNonzero x (htobe32 x) (0xffffffff : UInt32)).2 ↔
      (x ≠ 0 → field = x) := by
  have hones : ∀ y : UInt32, y &&& (0xffffffff : UInt32) = y := fun _ => UInt32.and_neg_one
  unfold matchNonzero
  by_cases hx : x = 0
  · simp [hx]
  · simp only [beq_iff_eq, hx, if_false, hones, ne_eq, not_false_eq_true, true_implies]
    constructor
    · intro h
      rw [← htobe32_htobe32 field, h, htobe32_htobe32]
    · intro h
      rw [h]

theorem onesMac_get (i : Fin 6) : onesMac.get i = 0xff := by
  revert i
  decide

theorem zeroMac_get (i : Fin 6) : zeroMac.get i = 0 := by
  revert i
  decide

theorem macMatches_ones (field val : Mac) : MacMatches field val onesMac ↔ field = val := by
  have hones : ∀ y : UInt8, y &&& (0xff : UInt8) = y := fun _ => UInt8.and_neg_one
  unfold MacMatches
  simp only [onesMac_get, hones]
  constructor
  · intro h
    apply Vector.ext
    intro i hi
    exact h ⟨i, hi⟩
  · intro h i
    rw [h]

theorem macMatches_zero (field val : Mac) : MacMatches field val zeroMac := by
  intro i
  rw [zeroMac_get]
  simp

/-- The macro makes the group's address from the address in network byte order. -/
theorem etherMap_multicast (dst_ip : UInt32) :
    etherMapIpMulticast (htobe32 dst_ip) = multicastMac dst_ip := by
  have hhigh : (htobe32 dst_ip >>> (8 : UInt32)).toUInt8 = (dst_ip >>> (16 : UInt32)).toUInt8 := by
    apply UInt8.eq_of_toBitVec_eq
    show (swap32 dst_ip.toBitVec >>> 8).setWidth 8 = (dst_ip.toBitVec >>> 16).setWidth 8
    exact swap32_byte dst_ip.toBitVec (show 1 ≤ 3 by omega)
  have hmid : (htobe32 dst_ip >>> (16 : UInt32)).toUInt8 = (dst_ip >>> (8 : UInt32)).toUInt8 := by
    apply UInt8.eq_of_toBitVec_eq
    show (swap32 dst_ip.toBitVec >>> 16).setWidth 8 = (dst_ip.toBitVec >>> 8).setWidth 8
    exact swap32_byte dst_ip.toBitVec (show 2 ≤ 3 by omega)
  have hlow : (htobe32 dst_ip >>> (24 : UInt32)).toUInt8 = dst_ip.toUInt8 := by
    apply UInt8.eq_of_toBitVec_eq
    show (swap32 dst_ip.toBitVec >>> 24).setWidth 8 = dst_ip.toBitVec.setWidth 8
    have hbyte := swap32_byte dst_ip.toBitVec (show 3 ≤ 3 by omega)
    simpa only [Nat.reduceMul, Nat.reduceSub, BitVec.ushiftRight_zero] using hbyte
  simp only [etherMapIpMulticast, multicastMac, hhigh, hmid, hlow]

/-! ### The rule -/

section Rule

variable {port_num : ℕ} {mac : Mac} {f : FlowCriteria}

theorem FlowCriteria.isTcpUdp_isIp (h : f.isTcpUdp = true) : f.isIp = true := by
  rw [FlowCriteria.isIp, h]
  rfl

theorem flowStruct_eth (port_num : ℕ) (mac : Mac) (f : FlowCriteria) :
    (flowStruct port_num mac f).spec_eth.val.dst_mac = wantedDstMac mac f := by
  have hval : (flowStruct port_num mac f).spec_eth.val.dst_mac = (dstMacArgument f).getD mac := rfl
  have hgroup : (f.isIp && f.dst_ip != 0 && inMulticast f.dst_ip) = true ↔ f.toGroup := by
    unfold FlowCriteria.toGroup
    rw [Bool.and_eq_true, Bool.and_eq_true, bne_iff_ne, and_assoc]
  rw [hval, dstMacArgument, wantedDstMac]
  by_cases h : f.toGroup
  · rw [if_pos (hgroup.mpr h), if_pos h, etherMap_multicast]
    rfl
  · rw [if_neg fun hb => h (hgroup.mp hb), if_neg h]

/-- The Ethernet spec. -/
theorem matchesEth_iff (p : Packet) : (flowStruct port_num mac f).spec_eth.matchesEth p ↔
    p.dst_mac = wantedDstMac mac f ∧ (∀ m, f.src_mac = some m → p.src_mac = m) ∧
      (f.ether_type ≠ 0 → p.ether_type = f.ether_type) ∧
        (f.vlan_tag ≠ 0 → p.vlan_tag = f.vlan_tag) := by
  have hdst : MacMatches p.dst_mac (flowStruct port_num mac f).spec_eth.val.dst_mac
      (flowStruct port_num mac f).spec_eth.mask.dst_mac ↔ p.dst_mac = wantedDstMac mac f := by
    rw [flowStruct_eth]
    exact macMatches_ones _ _
  have hsrc : MacMatches p.src_mac (flowStruct port_num mac f).spec_eth.val.src_mac
      (flowStruct port_num mac f).spec_eth.mask.src_mac ↔
        ∀ m, f.src_mac = some m → p.src_mac = m := by
    show MacMatches p.src_mac (f.src_mac.elim (zeroMac, zeroMac) fun m => (m, onesMac)).1
      (f.src_mac.elim (zeroMac, zeroMac) fun m => (m, onesMac)).2 ↔ _
    cases f.src_mac with
    | none => simp [macMatches_zero]
    | some m => simp [macMatches_ones]
  exact and_congr hdst (and_congr hsrc (and_congr (match16_iff _ _) (match16_iff _ _)))

theorem matchesIpv4_iff (hip : f.isIp = true) (p : Packet) :
    (flowStruct port_num mac f).spec_ipv4.matchesIpv4 p ↔
      ∃ ip, p.ip = some ip ∧ (f.src_ip ≠ 0 → ip.src_ip = f.src_ip) ∧
        (f.dst_ip ≠ 0 → ip.dst_ip = f.dst_ip) := by
  have hspec : (flowStruct port_num mac f).spec_ipv4 = (ipv4Case f (flowStart port_num)).spec_ipv4 := by
    simp only [flowStruct, hip, if_true, ethCase, ipv4Case]
    split <;> rfl
  rw [hspec]
  exact exists_congr fun ip =>
    and_congr_right fun _ => and_congr (match32_iff _ _) (match32_iff _ _)

theorem matchesTcpUdp_iff (htu : f.isTcpUdp = true) (p : Packet) :
    (flowStruct port_num mac f).spec_tcp_udp.matchesTcpUdp p ↔
      ∃ ip transport, p.ip = some ip ∧ ip.transport = some transport ∧
        f.flow_type = transport.kind.flowType ∧
          (f.src_port ≠ 0 → transport.src_port = f.src_port) ∧
            (f.dst_port ≠ 0 → transport.dst_port = f.dst_port) := by
  have hspec : (flowStruct port_num mac f).spec_tcp_udp =
      (tcpUdpCase f (flowStart port_num)).spec_tcp_udp := by
    simp only [flowStruct, htu, FlowCriteria.isTcpUdp_isIp htu, if_true, ethCase, ipv4Case]
  rw [hspec]
  exact exists_congr fun ip => exists_congr fun transport => and_congr_right fun _ =>
    and_congr_right fun _ => and_congr Option.some_inj
      (and_congr (match16_iff _ _) (match16_iff _ _))

theorem flowStruct_describes (htype : f.flow_type ≠ .other) :
    (flowStruct port_num mac f).Describes f.flow_type.specs := by
  obtain ⟨flow_type, dst_mac, src_mac, ether_type, vlan_tag, src_ip, dst_ip, src_port, dst_port⟩ := f
  cases flow_type with
  | ETH => exact ⟨rfl, show 1 ≤ 3 by omega, rfl⟩
  | IPV4 => exact ⟨rfl, show 2 ≤ 3 by omega, rfl⟩
  | TCP => exact ⟨rfl, show 3 ≤ 3 by omega, rfl⟩
  | UDP => exact ⟨rfl, show 3 ≤ 3 by omega, rfl⟩
  | other => exact absurd rfl htype

/-- The layers that count are those of the type. -/
theorem matches_iff (htype : f.flow_type ≠ .other) (p : Packet) :
    (flowStruct port_num mac f).Matches p ↔ (flowStruct port_num mac f).spec_eth.matchesEth p ∧
      (f.isIp = true → (flowStruct port_num mac f).spec_ipv4.matchesIpv4 p) ∧
        (f.isTcpUdp = true → (flowStruct port_num mac f).spec_tcp_udp.matchesTcpUdp p) := by
  have hnum := (@flowStruct_describes port_num mac f htype).1
  rw [HashpipeIbvFlowStruct.Matches, hnum, HashpipeIbvFlowStruct.layers]
  unfold FlowCriteria.isIp FlowCriteria.isTcpUdp
  cases hft : f.flow_type with
  | ETH => simp [FlowType.specs]
  | IPV4 => simp [FlowType.specs]
  | TCP => simp [FlowType.specs]
  | UDP => simp [FlowType.specs]
  | other => exact absurd hft htype

theorem ofType_tcpUdp (htu : f.isTcpUdp = true) (p : Packet) : p.ofType f.flow_type ↔
    ∃ ip transport, p.ip = some ip ∧ ip.transport = some transport ∧
      f.flow_type = transport.kind.flowType := by
  unfold FlowCriteria.isTcpUdp at htu
  have hkind : ∀ k : Transport, FlowType.TCP = k.flowType ↔ k = .TCP :=
    fun k => by cases k <;> simp [Transport.flowType]
  have hkind' : ∀ k : Transport, FlowType.UDP = k.flowType ↔ k = .UDP :=
    fun k => by cases k <;> simp [Transport.flowType]
  cases hft : f.flow_type with
  | TCP => simp only [Packet.ofType, hkind]
  | UDP => simp only [Packet.ofType, hkind']
  | _ => simp [hft] at htu

theorem ofType_ip (hip : f.isIp = true) {p : Packet} (h : p.ofType f.flow_type) :
    ∃ ip, p.ip = some ip := by
  by_cases htu : f.isTcpUdp = true
  · obtain ⟨ip, -, hsome, -⟩ := (ofType_tcpUdp htu p).mp h
    exact ⟨ip, hsome⟩
  · have hipv4 : f.flow_type = .IPV4 := by
      unfold FlowCriteria.isIp at hip
      simpa [htu] using hip
    rw [hipv4] at h
    exact Option.isSome_iff_exists.mp h

theorem matches_wanted (htype : f.flow_type ≠ .other) (p : Packet) :
    (flowStruct port_num mac f).Matches p ↔ Wanted mac f p := by
  rw [matches_iff htype, matchesEth_iff]
  constructor
  · rintro ⟨⟨hdst, hsrc, hether, hvlan⟩, hipv4, htcpudp⟩
    have hipv4 := fun hip => (matchesIpv4_iff hip p).mp (hipv4 hip)
    have htcpudp := fun htu => (matchesTcpUdp_iff htu p).mp (htcpudp htu)
    refine ⟨?_, hdst, hsrc, hether, hvlan, fun hip hne ip hsome => ?_, fun hip hne ip hsome => ?_,
      fun htu hne ip transport hsome htransport => ?_,
      fun htu hne ip transport hsome htransport => ?_⟩
    · by_cases htu : f.isTcpUdp = true
      · obtain ⟨ip, transport, hsome, htransport, hkind, -⟩ := htcpudp htu
        exact (ofType_tcpUdp htu p).mpr ⟨ip, transport, hsome, htransport, hkind⟩
      · unfold FlowCriteria.isTcpUdp at htu
        cases hft : f.flow_type with
        | ETH => trivial
        | IPV4 =>
          obtain ⟨ip, hsome, -⟩ := hipv4 (by simp [FlowCriteria.isIp, hft])
          exact Option.isSome_iff_exists.mpr ⟨ip, hsome⟩
        | TCP => simp [hft] at htu
        | UDP => simp [hft] at htu
        | other => exact htype hft
    · obtain ⟨ip', hsome', hsrc, -⟩ := hipv4 hip
      obtain rfl := Option.some.inj (hsome.symm.trans hsome')
      exact hsrc hne
    · obtain ⟨ip', hsome', -, hdst⟩ := hipv4 hip
      obtain rfl := Option.some.inj (hsome.symm.trans hsome')
      exact hdst hne
    · obtain ⟨ip', transport', hsome', htransport', -, hsrc, -⟩ := htcpudp htu
      obtain rfl := Option.some.inj (hsome.symm.trans hsome')
      obtain rfl := Option.some.inj (htransport.symm.trans htransport')
      exact hsrc hne
    · obtain ⟨ip', transport', hsome', htransport', -, -, hdst⟩ := htcpudp htu
      obtain rfl := Option.some.inj (hsome.symm.trans hsome')
      obtain rfl := Option.some.inj (htransport.symm.trans htransport')
      exact hdst hne
  · intro h
    refine ⟨⟨h.dst_mac, h.src_mac, h.ether_type, h.vlan_tag⟩, fun hip => ?_, fun htu => ?_⟩
    · obtain ⟨ip, hsome⟩ := ofType_ip hip h.type
      exact (matchesIpv4_iff hip p).mpr ⟨ip, hsome, fun hne => h.src_ip hip hne ip hsome,
        fun hne => h.dst_ip hip hne ip hsome⟩
    · obtain ⟨ip, transport, hsome, htransport, hkind⟩ := (ofType_tcpUdp htu p).mp h.type
      exact (matchesTcpUdp_iff htu p).mpr ⟨ip, transport, hsome, htransport, hkind,
        fun hne => h.src_port htu hne ip transport hsome htransport,
        fun hne => h.dst_port htu hne ip transport hsome htransport⟩

end Rule

/-! ### The rules that a call creates -/

section Created

variable {c : FlowConfig} {flow_idx : ℕ} {f : FlowCriteria} {rule : FlowRule} {env : FlowEnv}
  {s t : FlowState}

/-- The state that a step leaves, whether it returns early or not. -/
def leaves : Except FlowState FlowState → FlowState
  | .ok s => s
  | .error s => s

/-- What each step keeps from any state on, the loop keeps wherever it stops. -/
theorem foldlM_leaves {I : FlowState → Prop} {step : FlowState → ℕ → Except FlowState FlowState}
    (hstep : ∀ s i, I s → I (leaves (step s i))) (is : List ℕ) (hs : I s) :
    I (leaves (is.foldlM step s)) := by
  induction is generalizing s with
  | nil => exact hs
  | cons i is ih =>
    have hnext := hstep s i hs
    rw [List.foldlM_cons]
    cases hr : step s i with
    | error t =>
      rw [hr] at hnext
      exact hnext
    | ok t =>
      rw [hr] at hnext
      exact ih hnext

/-- Every live handle is one of `old` or holds the rule. -/
def HandlesFrom (old : ℤ → Option FlowRule) (rule : FlowRule) (s : FlowState) : Prop :=
  ∀ j r, s.ibv_flows j = some r → old j = some r ∨ r = rule

theorem createFlow_handles {old : ℤ → Option FlowRule} (i : ℕ) (hs : HandlesFrom old rule s) :
    HandlesFrom old rule (leaves (createFlow c flow_idx rule env s i)) := by
  intro j r hj
  unfold createFlow at hj
  by_cases hslot : j = flowSlot c i flow_idx
  · subst hslot
    by_cases henv : env.create i = true
    · simp only [henv, if_true, leaves, Function.update_self] at hj
      exact .inr (Option.some.inj hj).symm
    · simp [henv, leaves] at hj
  · by_cases henv : env.create i = true
    · simp only [henv, if_true, leaves, Function.update_of_ne hslot] at hj
      exact hs j r hj
    · simp only [henv, Bool.false_eq_true, if_false, leaves, Function.update_of_ne hslot] at hj
      exact hs j r hj

/-- Removing flows makes no handle live. -/
theorem removeFlows_handles : HandlesFrom s.ibv_flows rule (leaves (removeFlows c flow_idx env s)) := by
  have hsame : HandlesFrom s.ibv_flows rule s := fun j r hj => .inl hj
  unfold removeFlows
  by_cases hsome : (s.ibv_flows flow_idx).isSome = true
  · by_cases hdrop :
        (hashpipeIbvMcastMembership s.joined .DROP (s.flow_dst_ips flow_idx) env.drop).2 = true
    · simp only [hsome, hdrop, if_true]
      refine foldlM_leaves (fun t i ht => ?_) _ hsame
      intro j r hj
      unfold destroyFlow at hj
      by_cases henv : env.destroy i = true
      · by_cases hslot : j = flowSlot c i flow_idx
        · simp [henv, hslot, leaves] at hj
        · simp only [henv, if_true, leaves, Function.update_of_ne hslot] at hj
          exact ht j r hj
      · simp only [henv, leaves] at hj
        exact ht j r hj
    · simp only [hsome, hdrop, if_true]
      exact hsame
  · simp only [hsome]
    exact hsame

/-- Recording an address touches no handle. -/
theorem recordDstIp_handles : (leaves (recordDstIp flow_idx f env s)).ibv_flows = s.ibv_flows := by
  unfold recordDstIp
  split
  · split
    · dsimp only
      split <;> rfl
    · rfl
  · rfl

theorem replaceFlows_handles :
    HandlesFrom s.ibv_flows (flowRule c.mac f) (leaves (replaceFlows c flow_idx f env s)) := by
  have hremove := @removeFlows_handles c flow_idx (flowRule c.mac f) env s
  unfold replaceFlows
  cases hr : removeFlows c flow_idx env s with
  | error t =>
    rw [hr] at hremove
    exact hremove
  | ok t =>
    rw [hr] at hremove
    simp only [Except.bind]
    split
    · exact hremove
    · have hrecord := @recordDstIp_handles flow_idx f env t
      have hrecorded : HandlesFrom s.ibv_flows (flowRule c.mac f)
          (leaves (recordDstIp flow_idx f env t)) := by
        intro j r hj
        rw [hrecord] at hj
        exact hremove j r hj
      cases hu : recordDstIp flow_idx f env t with
      | error u =>
        rw [hu] at hrecorded
        exact hrecorded
      | ok u =>
        rw [hu] at hrecorded
        exact foldlM_leaves (fun _ i hs => createFlow_handles i hs) _ hrecorded

/-- A loop that went through has put the rule into each of its handles. -/
theorem createFlows_all {is : List ℕ}
    (h : is.foldlM (createFlow c flow_idx rule env) s = .ok t) {j : ℤ}
    (hj : (∃ i ∈ is, j = flowSlot c i flow_idx) ∨ s.ibv_flows j = some rule) :
    t.ibv_flows j = some rule := by
  induction is generalizing s with
  | nil =>
    obtain rfl := Except.ok.inj h
    exact hj.resolve_left (by simp)
  | cons i is ih =>
    rw [List.foldlM_cons, createFlow] at h
    by_cases henv : env.create i = true
    · simp only [henv, if_true] at h
      refine ih h ?_
      by_cases hslot : j = flowSlot c i flow_idx
      · right
        simp [hslot]
      · rcases hj with ⟨k, hk, hkj⟩ | hold
        · left
          refine ⟨k, (List.mem_cons.mp hk).resolve_left ?_, hkj⟩
          rintro rfl
          exact hslot hkj
        · right
          simpa [hslot] using hold
    · simp only [henv] at h
      cases h

theorem replaceFlows_all (hgiven : f.isEmpty = false)
    (h : replaceFlows c flow_idx f env s = .ok t) :
    ∀ i < c.nqp, t.ibv_flows (flowSlot c i flow_idx) = some (flowRule c.mac f) := by
  intro i hi
  unfold replaceFlows at h
  cases hr : removeFlows c flow_idx env s with
  | error u =>
    rw [hr] at h
    cases h
  | ok u =>
    rw [hr] at h
    simp only [Except.bind, hgiven] at h
    cases hu : recordDstIp flow_idx f env u with
    | error v =>
      rw [hu] at h
      cases h
    | ok v =>
      rw [hu] at h
      exact createFlows_all h (.inl ⟨i, List.mem_range.mpr hi, rfl⟩)

end Created

/-- **The rule means what was asked for**: it matches the wanted packets, its header counts the
layers of the type, and it is what a call creates, on every queue pair if the call succeeds. -/
theorem flowRule_meaning (c : FlowConfig) (port_num : ℕ) (f : FlowCriteria)
    (htype : f.flow_type ≠ .other) (hgiven : f.isEmpty = false) :
    (∀ p, (flowStruct port_num c.mac f).Matches p ↔ Wanted c.mac f p) ∧
    (flowStruct port_num c.mac f).Describes f.flow_type.specs ∧
    ∀ flow_idx env s,
      HandlesFrom s.ibv_flows (flowStruct port_num c.mac f).rule
        (hashpipeIbvFlow c flow_idx f env s).1 ∧
      ((hashpipeIbvFlow c flow_idx f env s).2 = 0 → ∀ i < c.nqp,
        (hashpipeIbvFlow c flow_idx f env s).1.ibv_flows (flowSlot c i flow_idx) =
          some (flowStruct port_num c.mac f).rule) := by
  refine ⟨matches_wanted htype, flowStruct_describes htype, fun flow_idx env s => ?_⟩
  rw [flowStruct_rule]
  have hhandles := @replaceFlows_handles c flow_idx f env s
  unfold hashpipeIbvFlow
  by_cases hidx : c.max_flows ≤ flow_idx
  · rw [if_pos hidx]
    exact ⟨fun j r hj => .inl hj, fun h => by cases h⟩
  rw [if_neg hidx, if_neg htype]
  cases hr : replaceFlows c flow_idx f env s with
  | error t =>
    rw [hr] at hhandles
    exact ⟨hhandles, fun h => by cases h⟩
  | ok t =>
    rw [hr] at hhandles
    exact ⟨hhandles, fun _ => replaceFlows_all hgiven hr⟩

/-- A UDP packet of the group 224.0.0.1. -/
def groupPacket : Packet where
  dst_mac := multicastMac 0xe0000001
  src_mac := zeroMac
  ether_type := 0x800
  vlan_tag := 0
  ip := some ⟨0x0a000001, 0xe0000001, some ⟨.UDP, 1024, 4000⟩⟩

theorem flowRule_meaning_udpGroup :
    (flowStruct 1 zeroMac (udpGroup 0xe0000001)).Matches groupPacket ∧
    (hashpipeIbvFlow twoQps 0 (udpGroup 0xe0000001) allSucceed flowInit).1.ibv_flows
      (flowSlot twoQps 1 0) = some (flowStruct 1 zeroMac (udpGroup 0xe0000001)).rule := by
  have hmeaning := flowRule_meaning twoQps 1 (udpGroup 0xe0000001) (by decide) (by decide)
  refine ⟨(hmeaning.1 groupPacket).mpr ?_, (hmeaning.2.2 0 allSucceed flowInit).2 (by decide) 1
    (by decide)⟩
  refine ⟨⟨_, _, rfl, rfl, rfl⟩, by decide, fun m h => (by cases h), fun h => absurd rfl h,
    fun h => absurd rfl h, fun _ h => absurd rfl h, fun _ _ ip hip => ?_, fun _ h => absurd rfl h,
    fun _ h => absurd rfl h⟩
  obtain rfl := Option.some.inj hip
  rfl

end Hashpipe.Ibverbs
