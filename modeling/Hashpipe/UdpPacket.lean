import Hashpipe.Packet
import Hashpipe.Pktsock.Udp
import Hashpipe.Ibverbs.FlowMatch

/-!
# Building a UDP packet

`hashpipe_packet_ethhdr_init`, `hashpipe_packet_udphdr_init` and `hashpipe_packet_udppkt_length`
beside the IP header functions, over the bytes of a `struct udppkt`: the three headers are packed
one behind the other, and the payload follows.

A packet so built, in whatever memory and on a host of either byte order, is to its receivers the
packet that the arguments describe: to a flow rule of the NIC, to the UDP filter of a packet
socket, and to the macros that find its payload (`udpPacket_received`).
-/

namespace Hashpipe.UdpPacket

open ByteMemory OnesComplement Packet Pktsock

/-! ### The functions -/

/-- Offsets in `struct udppkt`. -/
def IPHDR_OFFSET : ℕ := 14
def UDPHDR_OFFSET : ℕ := 34
def PAYLOAD_OFFSET : ℕ := 42

/-- `(mac >> (8*(5-i))) & 0xff`. -/
def macByte (mac : UInt64) (i : ℕ) : UInt8 := (mac >>> UInt64.ofNat (8 * (5 - i))).toUInt8

/-- `hashpipe_packet_ethhdr_init`. -/
def hashpipePacketEthhdrInit (order : ByteOrder) (m : Mem) (dst_mac src_mac : UInt64)
    (ether_type : UInt16) : Mem :=
  let m := (List.range 6).foldl (fun m i =>
    let m := Function.update m i (macByte dst_mac i)
    Function.update m (6 + i) (macByte src_mac i)) m
  store16 order m 12 (htons order ether_type)

/-- `hashpipe_packet_udphdr_init`. -/
def hashpipePacketUdphdrInit (order : ByteOrder) (m : Mem) (src_port dst_port : UInt16) : Mem :=
  let m := store16 order m 0 (htons order src_port)
  let m := store16 order m 2 (htons order dst_port)
  let m := store16 order m 4 (htons order 8)
  store16 order m 6 0

/-- The memory with what is at `a` seen and replaced through a pointer. -/
def replaceFrom (a : ℕ) (m view : Mem) : Mem := fun i => if i < a then m i else view (i - a)

/-- `hashpipe_packet_udppkt_length`. -/
def hashpipePacketUdppktLength (order : ByteOrder) (m : Mem) (payload_length : UInt16) : Mem :=
  let m := store16 order m (IPHDR_OFFSET + 2) (htons order (20 + 8 + payload_length))
  store16 order m (UDPHDR_OFFSET + 4) (htons order (8 + payload_length))

/-- `PKT_UDP_SIZE`. -/
def pktUdpSize (net : Mem) : ℕ := (net 0x18).toNat <<< 8 ||| (net 0x19).toNat

/-- `PKT_UDP_DATA`. -/
def pktUdpData (net : Mem) : Mem := ptr net 0x1c

structure UdpArgs where
  dst_mac : UInt64
  src_mac : UInt64
  src_ip : UInt64
  dst_ip : UInt64
  src_port : UInt16
  dst_port : UInt16
  payload_length : UInt16

def ETH_P_IP : UInt16 := 0x0800

/-- The headers initialised and the lengths set. -/
def buildUdp (order : ByteOrder) (m : Mem) (a : UdpArgs) : Mem :=
  let m := hashpipePacketEthhdrInit order m a.dst_mac a.src_mac ETH_P_IP
  let m := replaceFrom IPHDR_OFFSET m
    (hashpipePacketIphdrInit order (ptr m IPHDR_OFFSET) a.src_ip a.dst_ip)
  let m := replaceFrom UDPHDR_OFFSET m
    (hashpipePacketUdphdrInit order (ptr m UDPHDR_OFFSET) a.src_port a.dst_port)
  hashpipePacketUdppktLength order m a.payload_length

/-- The packet as it is sent: its IP checksum is computed last. -/
def SentUdp (order : ByteOrder) (m : Mem) (a : UdpArgs) (packet : Mem) : Prop :=
  ∃ net check, Returns order (ptr (buildUdp order m a) IPHDR_OFFSET) net check ∧
    packet = replaceFrom IPHDR_OFFSET (buildUdp order m a) net

/-! ### What a receiver reads -/

def be32 (net : Mem) (a : ℕ) : UInt32 :=
  UInt32.ofNat (2 ^ 16 * be16 net a + be16 net (a + 2))

def macAt (m : Mem) (a : ℕ) : Ibverbs.Mac := Vector.ofFn fun i : Fin 6 => m (a + i)

/-- The transport header of an unfragmented packet. -/
def wireTransport (net : Mem) : Option Ibverbs.TransportHeader :=
  let ports := fun kind : Ibverbs.Transport =>
    Ibverbs.TransportHeader.mk kind (UInt16.ofNat (be16 net (headerLength net)))
      (UInt16.ofNat (be16 net (headerLength net + 2)))
  if fragmentOffset net ≠ 0 then none
  else if net 9 = 6 then some (ports .TCP)
  else if net 9 = IPPROTO_UDP then some (ports .UDP)
  else none

/-- The fields of an untagged Ethernet frame. -/
def wirePacket (m : Mem) : Ibverbs.Packet where
  dst_mac := macAt m 0
  src_mac := macAt m 6
  ether_type := UInt16.ofNat (be16 m 12)
  vlan_tag := 0
  ip := if be16 m 12 = 0x0800 then
      let net := ptr m IPHDR_OFFSET
      some ⟨be32 net 12, be32 net 16, wireTransport net⟩
    else none

/-- The fields that the arguments stand for. -/
def UdpArgs.packet (a : UdpArgs) : Ibverbs.Packet where
  dst_mac := Vector.ofFn fun i : Fin 6 => macByte a.dst_mac i
  src_mac := Vector.ofFn fun i : Fin 6 => macByte a.src_mac i
  ether_type := ETH_P_IP
  vlan_tag := 0
  ip := some ⟨a.src_ip.toUInt32, a.dst_ip.toUInt32, some ⟨.UDP, a.src_port, a.dst_port⟩⟩

/-! ### The bytes of the headers -/

theorem overlay_append {m : Mem} {n k : ℕ} {xs ys : List UInt8} (hn : xs.length = n) :
    overlay (overlay m 0 n (chars xs)) n k (chars ys) = overlay m 0 (n + k) (chars (xs ++ ys)) := by
  funext i
  by_cases hi : i < n + k
  · rw [overlay_inside (f := chars (xs ++ ys)) (Nat.zero_add i).symm hi, chars_append]
    by_cases hj : i < n
    · rw [overlay_outside (by omega), overlay_inside (Nat.zero_add i).symm hj, if_pos (by omega)]
    · rw [overlay_inside (j := i - n) (by omega) (by omega), if_neg (by omega), hn]
  · rw [overlay_outside (by omega), overlay_outside (by omega), overlay_outside (by omega)]

/-- A field in the middle is written over. -/
theorem overlay_middle {m : Mem} {a n b k : ℕ} {xs ys zs : List UInt8} {old : List UInt8}
    (hb : b = a + xs.length) (hk : ys.length = k) (hold : old.length = k)
    (hn : xs.length + k + zs.length = n) :
    overlay (overlay m a n (chars (xs ++ old ++ zs))) b k (chars ys) =
      overlay m a n (chars (xs ++ ys ++ zs)) := by
  subst hb
  rw [overlay_overlay (by omega)]
  apply overlay_congr
  intro j hj
  rw [chars_append, chars_append]
  simp only [List.length_append, hk]
  by_cases hin : xs.length ≤ j ∧ j < xs.length + k
  · rw [overlay_inside (j := j - xs.length) (by omega) (by omega), if_pos (by omega),
      if_neg (by omega)]
  · rw [overlay_outside (by omega), chars_append, chars_append]
    simp only [List.length_append, hold]
    by_cases hlow : j < xs.length
    · rw [if_pos (by omega), if_pos hlow, if_pos (by omega), if_pos hlow]
    · rw [if_neg (by omega), if_neg (by omega)]

theorem replaceFrom_overlay (a n : ℕ) (m : Mem) (f : ℕ → UInt8) :
    replaceFrom a m (overlay (ptr m a) 0 n f) = overlay m a n f := by
  funext i
  by_cases hi : i < a
  · rw [replaceFrom, if_pos hi, overlay_outside (by omega)]
  · rw [replaceFrom, if_neg hi]
    by_cases hn : i < a + n
    · rw [overlay_inside (j := i - a) (by omega) (by omega),
        overlay_inside (j := i - a) (by omega) (by omega)]
    · rw [overlay_outside (by omega), overlay_outside (by omega), ptr_apply]
      congr 1
      omega

/-- A 16-bit field in network byte order. -/
def be16Bytes (v : UInt16) : List UInt8 := [(v / 256).toUInt8, v.toUInt8]

/-- On a host of either kind a field stored with `htons` is in network byte order. -/
theorem store16_htons (order : ByteOrder) (m : Mem) (a : ℕ) (v : UInt16) :
    store16 order m a (htons order v) = overlay m a 2 (chars (be16Bytes v)) := by
  cases order with
  | big => rfl
  | little =>
    have hswap : (htons .little v).toNat = swapBytes v.toNat := toNat_swap16 v
    have hv := v.toNat_lt
    have hlow : (htons .little v).toUInt8 = (v / 256).toUInt8 := by
      apply UInt8.toNat_inj.mp
      show (htons .little v).toNat % 2 ^ 8 = v.toNat / 256 % 2 ^ 8
      rw [hswap]
      unfold swapBytes
      omega
    have hhigh : (htons .little v / 256).toUInt8 = v.toUInt8 := by
      apply UInt8.toNat_inj.mp
      have hdiv : (v.toNat % 256 * 256 + v.toNat / 256) / 256 = v.toNat % 256 := by omega
      show (htons .little v).toNat / 256 % 2 ^ 8 = v.toNat % 2 ^ 8
      rw [hswap, swapBytes, hdiv]
      exact Nat.mod_mod _ _
    show overlay m a 2 (chars [(htons .little v).toUInt8, (htons .little v / 256).toUInt8]) = _
    rw [hlow, hhigh]
    rfl

theorem store16_zero (order : ByteOrder) (m : Mem) (a : ℕ) :
    store16 order m a 0 = overlay m a 2 (chars [0, 0]) := by
  cases order <;> rfl

def macBytes (mac : UInt64) : List UInt8 := (List.range 6).map (macByte mac)

def ethhdrBytes (dst_mac src_mac : UInt64) (ether_type : UInt16) : List UInt8 :=
  macBytes dst_mac ++ macBytes src_mac ++ be16Bytes ether_type

def iphdrBytes (tot_len : UInt16) (src_ip dst_ip : UInt64) : List UInt8 :=
  [0x45, 0] ++ be16Bytes tot_len ++
    ([0, 0] ++ be16Bytes 0x4000 ++ [64, 17] ++ [0, 0] ++ ipBytes src_ip ++ ipBytes dst_ip)

def udphdrBytes (src_port dst_port uh_ulen : UInt16) : List UInt8 :=
  be16Bytes src_port ++ be16Bytes dst_port ++ be16Bytes uh_ulen ++ [0, 0]

theorem iphdrInit_eq (order : ByteOrder) (m : Mem) (src_ip dst_ip : UInt64) :
    hashpipePacketIphdrInit order m src_ip dst_ip =
      overlay m 0 20 (chars (iphdrBytes 20 src_ip dst_ip)) := by
  simp only [hashpipePacketIphdrInit, store16_htons, store16_zero, CHECK_OFFSET]
  rw [overlay_append, overlay_append, overlay_append, overlay_append, overlay_append,
    overlay_append, overlay_append]
  all_goals rfl

theorem udphdrInit_eq (order : ByteOrder) (m : Mem) (src_port dst_port : UInt16) :
    hashpipePacketUdphdrInit order m src_port dst_port =
      overlay m 0 8 (chars (udphdrBytes src_port dst_port 8)) := by
  simp only [hashpipePacketUdphdrInit, store16_htons, store16_zero]
  rw [overlay_append, overlay_append, overlay_append]
  all_goals rfl

theorem ethhdrInit_eq (order : ByteOrder) (m : Mem) (dst_mac src_mac : UInt64)
    (ether_type : UInt16) :
    hashpipePacketEthhdrInit order m dst_mac src_mac ether_type =
      overlay m 0 14 (chars (ethhdrBytes dst_mac src_mac ether_type)) := by
  have hloop : (List.range 6).foldl (fun m i =>
      Function.update (Function.update m i (macByte dst_mac i)) (6 + i) (macByte src_mac i)) m =
      overlay m 0 12 (chars (macBytes dst_mac ++ macBytes src_mac)) := by
    funext i
    by_cases hi : i < 12
    · rw [overlay_inside (j := i) (by omega) hi]
      interval_cases i <;> rfl
    · rw [overlay_outside (by omega)]
      have hne : ∀ j < 12, i ≠ j := by omega
      simp [List.range, List.range.loop, Function.update_of_ne, hne]
  show store16 order _ 12 (htons order ether_type) = _
  rw [hloop, store16_htons, overlay_append]
  all_goals rfl

/-- All three headers, the checksum still zero. -/
def UdpArgs.headerBytes (a : UdpArgs) : List UInt8 :=
  ethhdrBytes a.dst_mac a.src_mac ETH_P_IP ++
    iphdrBytes (20 + 8 + a.payload_length) a.src_ip a.dst_ip ++
    udphdrBytes a.src_port a.dst_port (8 + a.payload_length)

/-- The functions write the three headers, whatever was there, and nothing else. -/
theorem buildUdp_eq (order : ByteOrder) (m : Mem) (a : UdpArgs) :
    buildUdp order m a = overlay m 0 42 (chars a.headerBytes) := by
  simp only [buildUdp, ethhdrInit_eq, iphdrInit_eq, udphdrInit_eq, replaceFrom_overlay,
    hashpipePacketUdppktLength, store16_htons, IPHDR_OFFSET, UDPHDR_OFFSET]
  have hinit : overlay (overlay (overlay m 0 14 (chars (ethhdrBytes a.dst_mac a.src_mac ETH_P_IP)))
      14 20 (chars (iphdrBytes 20 a.src_ip a.dst_ip))) 34 8
      (chars (udphdrBytes a.src_port a.dst_port 8)) =
      overlay m 0 42 (chars (ethhdrBytes a.dst_mac a.src_mac ETH_P_IP ++
        iphdrBytes 20 a.src_ip a.dst_ip ++ udphdrBytes a.src_port a.dst_port 8)) := by
    rw [overlay_append, overlay_append]
    all_goals rfl
  rw [hinit]
  have htot := @overlay_middle m 0 42 16 2
    (ethhdrBytes a.dst_mac a.src_mac ETH_P_IP ++ [0x45, 0]) (be16Bytes (20 + 8 + a.payload_length))
    ([0, 0] ++ be16Bytes 0x4000 ++ [64, 17] ++ [0, 0] ++ ipBytes a.src_ip ++ ipBytes a.dst_ip ++
      udphdrBytes a.src_port a.dst_port 8) (be16Bytes 20) rfl rfl rfl rfl
  have hulen := @overlay_middle m 0 42 38 2
    (ethhdrBytes a.dst_mac a.src_mac ETH_P_IP ++
      iphdrBytes (20 + 8 + a.payload_length) a.src_ip a.dst_ip ++
      (be16Bytes a.src_port ++ be16Bytes a.dst_port)) (be16Bytes (8 + a.payload_length)) [0, 0]
    (be16Bytes 8) rfl rfl rfl rfl
  refine Eq.trans ?_ hulen
  exact congrArg (fun m => overlay m 38 2 (chars (be16Bytes (8 + a.payload_length)))) htot

/-! ### The packet on the wire -/

section Sent

variable {order : ByteOrder} {m packet : Mem} {a : UdpArgs}

theorem built_byte {j : ℕ} (hj : j < 42) : buildUdp order m a j = chars a.headerBytes j := by
  rw [buildUdp_eq]
  exact overlay_inside (Nat.zero_add j).symm hj

theorem built_ihl : ihl (ptr (buildUdp order m a) IPHDR_OFFSET) = 5 := by
  have hfirst : chars a.headerBytes (IPHDR_OFFSET + 0) = 0x45 := rfl
  rw [ihl, ptr_apply, built_byte (by decide), hfirst]
  rfl

/-- A packet can be sent, and it is sent in one way. -/
theorem exists_sent (order : ByteOrder) (m : Mem) (a : UdpArgs) :
    ∃ packet, SentUdp order m a packet :=
  ⟨_, _, _, returns_check order (m := ptr (buildUdp order m a) IPHDR_OFFSET) built_ihl.ge, rfl⟩

/-- The checksum is all that comes after. -/
theorem SentUdp.byte (h : SentUdp order m a packet) {j : ℕ} (hj : j ≠ 24 ∧ j ≠ 25) :
    packet j = buildUdp order m a j := by
  obtain ⟨net, check, hreturns, rfl⟩ := h
  obtain ⟨rfl, -⟩ := hreturns.unique (returns_check order built_ihl.ge)
  rw [replaceFrom, IPHDR_OFFSET]
  by_cases hlow : j < 14
  · rw [if_pos hlow]
  · rw [if_neg hlow, sameButCheck_store16 order _ _ (j - 14) (by omega) (by omega), ptr_apply]
    congr 1
    omega

theorem SentUdp.header (h : SentUdp order m a packet) {j : ℕ} (hj : j < 42 ∧ j ≠ 24 ∧ j ≠ 25) :
    packet j = chars a.headerBytes j := (h.byte hj.2).trans (built_byte hj.1)

theorem SentUdp.payload (h : SentUdp order m a packet) {j : ℕ} (hj : PAYLOAD_OFFSET ≤ j) :
    packet j = m j := by
  have hj' : 42 ≤ j := hj
  rw [h.byte (by omega), buildUdp_eq, overlay_outside (by omega)]

theorem be16_bytes (v : UInt16) : 256 * (v / 256).toUInt8.toNat + v.toUInt8.toNat = v.toNat := by
  have hv := v.toNat_lt
  show 256 * (v.toNat / 256 % 2 ^ 8) + v.toNat % 2 ^ 8 = v.toNat
  omega

/-- A 16-bit field of the headers. -/
theorem SentUdp.be16 (h : SentUdp order m a packet) {j : ℕ} {v : UInt16}
    (hj : j < 41 ∧ j ≠ 24 ∧ j ≠ 25 ∧ j + 1 ≠ 24) (hhigh : chars a.headerBytes j = (v / 256).toUInt8)
    (hlow : chars a.headerBytes (j + 1) = v.toUInt8) : Pktsock.be16 packet j = v.toNat := by
  rw [Pktsock.be16, h.header (by omega), h.header (by omega), hhigh, hlow, be16_bytes]

theorem SentUdp.netBe16 (h : SentUdp order m a packet) {j : ℕ} {v : UInt16}
    (hj : j < 27 ∧ j ≠ 10 ∧ j ≠ 11 ∧ j + 1 ≠ 10)
    (hhigh : chars a.headerBytes (14 + j) = (v / 256).toUInt8)
    (hlow : chars a.headerBytes (14 + j + 1) = v.toUInt8) :
    Pktsock.be16 (ptr packet IPHDR_OFFSET) j = v.toNat :=
  h.be16 (j := 14 + j) (by omega) hhigh hlow

theorem SentUdp.net (h : SentUdp order m a packet) {j : ℕ} (hj : j < 28 ∧ j ≠ 10 ∧ j ≠ 11) :
    ptr packet IPHDR_OFFSET j = chars a.headerBytes (14 + j) :=
  h.header (j := 14 + j) (by omega)

theorem SentUdp.headerLength (h : SentUdp order m a packet) :
    headerLength (ptr packet IPHDR_OFFSET) = 20 := by
  have hfirst : chars a.headerBytes (14 + 0) = 0x45 := rfl
  rw [Pktsock.headerLength, h.net (by decide), hfirst]
  rfl

theorem SentUdp.unfragmented (h : SentUdp order m a packet) :
    fragmentOffset (ptr packet IPHDR_OFFSET) = 0 := by
  rw [fragmentOffset, h.netBe16 (v := 0x4000) (by decide) rfl rfl]
  rfl

theorem SentUdp.protocol (h : SentUdp order m a packet) :
    ptr packet IPHDR_OFFSET 9 = IPPROTO_UDP := h.net (by decide)

theorem SentUdp.ports (h : SentUdp order m a packet) :
    Pktsock.be16 (ptr packet IPHDR_OFFSET) 20 = a.src_port.toNat ∧
      Pktsock.be16 (ptr packet IPHDR_OFFSET) 22 = a.dst_port.toNat :=
  ⟨h.netBe16 (by decide) rfl rfl, h.netBe16 (by decide) rfl rfl⟩

/-- An address is the low 32 bits of the argument. -/
theorem ip_bytes (ip : UInt64) :
    UInt32.ofNat (2 ^ 16 * (256 * (ip >>> (24 : UInt64)).toUInt8.toNat +
        (ip >>> (16 : UInt64)).toUInt8.toNat) +
      (256 * (ip >>> (8 : UInt64)).toUInt8.toNat + ip.toUInt8.toNat)) = ip.toUInt32 := by
  apply UInt32.toNat_inj.mp
  show (2 ^ 16 * (256 * (ip.toNat >>> 24 % 2 ^ 8) + ip.toNat >>> 16 % 2 ^ 8) +
    (256 * (ip.toNat >>> 8 % 2 ^ 8) + ip.toNat % 2 ^ 8)) % 2 ^ 32 = ip.toNat % 2 ^ 32
  simp only [Nat.shiftRight_eq_div_pow]
  omega

theorem SentUdp.addresses (h : SentUdp order m a packet) :
    be32 (ptr packet IPHDR_OFFSET) 12 = a.src_ip.toUInt32 ∧
      be32 (ptr packet IPHDR_OFFSET) 16 = a.dst_ip.toUInt32 := by
  constructor
  · rw [be32, Pktsock.be16, Pktsock.be16, h.net (by decide), h.net (by decide), h.net (by decide),
      h.net (by decide)]
    exact ip_bytes a.src_ip
  · rw [be32, Pktsock.be16, Pktsock.be16, h.net (by decide), h.net (by decide), h.net (by decide),
      h.net (by decide)]
    exact ip_bytes a.dst_ip

theorem SentUdp.macs (h : SentUdp order m a packet) :
    macAt packet 0 = a.packet.dst_mac ∧ macAt packet 6 = a.packet.src_mac := by
  constructor
  · refine congrArg Vector.ofFn (funext fun i => ?_)
    rw [h.header (by omega)]
    fin_cases i <;> rfl
  · refine congrArg Vector.ofFn (funext fun i => ?_)
    rw [h.header (by omega)]
    fin_cases i <;> rfl

/-- **The fields on the wire are those of the arguments.** -/
theorem SentUdp.wirePacket_eq (h : SentUdp order m a packet) : wirePacket packet = a.packet := by
  have htype : Pktsock.be16 packet 12 = 0x0800 := h.be16 (v := ETH_P_IP) (by decide) rfl rfl
  have htransport : wireTransport (ptr packet IPHDR_OFFSET) =
      some ⟨.UDP, a.src_port, a.dst_port⟩ := by
    have hports := h.ports
    rw [wireTransport, if_neg (not_not.mpr h.unfragmented), h.protocol, if_neg (by decide),
      if_pos rfl, h.headerLength, hports.1, hports.2, UInt16.ofNat_toNat, UInt16.ofNat_toNat]
  rw [wirePacket, h.macs.1, h.macs.2, htype, if_pos rfl]
  simp only [h.addresses.1, h.addresses.2, htransport]
  rfl

/-- The IP length is that of the packet as long as it fits into its field. -/
theorem SentUdp.tot_len (h : SentUdp order m a packet) :
    Pktsock.be16 (ptr packet IPHDR_OFFSET) 2 = (28 + a.payload_length.toNat) % 2 ^ 16 := by
  rw [h.netBe16 (v := 20 + 8 + a.payload_length) (by decide) rfl rfl]
  rfl

theorem SentUdp.wellFormed_iff (h : SentUdp order m a packet) :
    WellFormedIpv4 (ptr packet IPHDR_OFFSET) ↔ a.payload_length.toNat ≤ 65507 := by
  have hlen := h.headerLength
  have htot := h.tot_len
  have hpayload := a.payload_length.toNat_lt
  constructor
  · intro hwf
    have hudp := hwf.udp h.protocol h.unfragmented
    omega
  · intro hfits
    have hversion : chars a.headerBytes (14 + 0) = 0x45 := rfl
    refine ⟨?_, hlen.ge, by omega, fun _ _ => by omega⟩
    rw [h.net (by decide), hversion]
    rfl

theorem SentUdp.udp_size (h : SentUdp order m a packet)
    (hfits : a.payload_length.toNat ≤ 65507) :
    pktUdpSize (ptr packet IPHDR_OFFSET) = 8 + a.payload_length.toNat := by
  have hulen : Pktsock.be16 (ptr packet IPHDR_OFFSET) 24 = (8 + a.payload_length).toNat :=
    h.netBe16 (by decide) rfl rfl
  have hlow := (ptr packet IPHDR_OFFSET 0x19).toNat_lt
  have hor : pktUdpSize (ptr packet IPHDR_OFFSET) = Pktsock.be16 (ptr packet IPHDR_OFFSET) 24 := by
    rw [pktUdpSize, ← Nat.shiftLeft_add_eq_or_of_lt (by omega), Nat.shiftLeft_eq, Nat.mul_comm]
    rfl
  have hsum : (8 + a.payload_length).toNat = (8 + a.payload_length.toNat) % 2 ^ 16 := rfl
  rw [hor, hulen, hsum]
  omega

/-- The macros find the payload, as it was. -/
theorem SentUdp.udp_data (h : SentUdp order m a packet) :
    pktUdpData (ptr packet IPHDR_OFFSET) = ptr m PAYLOAD_OFFSET := by
  funext j
  show packet (14 + (28 + j)) = m (42 + j)
  rw [h.payload (by unfold PAYLOAD_OFFSET; omega)]
  congr 1
  omega

/-- A packet socket's filter takes the packet for its destination port. -/
theorem SentUdp.carries_iff (h : SentUdp order m a packet) (dst_port : ℤ) :
    CarriesUdpTo (ptr packet IPHDR_OFFSET) dst_port ↔ (a.dst_port.toNat : ℤ) = dst_port := by
  rw [CarriesUdpTo, h.headerLength, h.ports.2]
  exact ⟨fun hc => hc.2.2, fun hp => ⟨h.protocol, h.unfragmented, hp⟩⟩

theorem SentUdp.portInPlace (h : SentUdp order m a packet) (dst_port : ℤ) :
    PortInPlace (ptr packet IPHDR_OFFSET) dst_port := by
  refine .inr (.inl ⟨h.unfragmented, ?_⟩)
  rw [h.headerLength]

end Sent

/-! ### Its receivers -/

/-- What becomes of a packet that the functions have built. -/
structure Received (m : Mem) (a : UdpArgs) (packet : Mem) : Prop where
  /-- Its length fields hold. -/
  wellFormed : WellFormedIpv4 (ptr packet IPHDR_OFFSET) ↔ a.payload_length.toNat ≤ 65507
  size : a.payload_length.toNat ≤ 65507 →
    pktUdpSize (ptr packet IPHDR_OFFSET) = 8 + a.payload_length.toNat
  data : pktUdpData (ptr packet IPHDR_OFFSET) = ptr m PAYLOAD_OFFSET
  /-- A flow rule takes it if the arguments are what the criteria ask for. -/
  flow : ∀ (mac : Ibverbs.Mac) (port_num : ℕ) (f : Ibverbs.FlowCriteria), f.flow_type ≠ .other →
    ((Ibverbs.flowStruct port_num mac f).Matches (wirePacket packet) ↔
      Ibverbs.Wanted mac f a.packet)
  /-- A packet socket that finds it in a ready frame returns the frame for the port it is sent to
  and gives it back for any other. -/
  socket : ∀ (p : HashpipePktsock) (s : RingState Mem), s.next_idx < p.nframes → s.ready p = true →
    pktNet s (frameAt p s.next_idx) = ptr packet IPHDR_OFFSET → ∀ dst_port : ℤ,
      ExactlyUdp p dst_port s (hashpipePktsockRecvUdpFrameNonblock p dst_port s) ∧
      ((hashpipePktsockRecvUdpFrameNonblock p dst_port s).1 = some (frameAt p s.next_idx) ↔
        (a.dst_port.toNat : ℤ) = dst_port)

/-- **A packet that is built from any arguments, in any memory and on a host of either byte order,
is received as the arguments say**, up to the largest payload of a UDP packet. -/
theorem udpPacket_received (order : ByteOrder) (m : Mem) (a : UdpArgs) :
    ∃ packet, SentUdp order m a packet ∧ Received m a packet := by
  obtain ⟨packet, h⟩ := exists_sent order m a
  refine ⟨packet, h, h.wellFormed_iff, h.udp_size, h.udp_data, fun mac port_num f htype => ?_,
    fun p s hslot hready hnet dst_port => ?_⟩
  · rw [h.wirePacket_eq]
    exact Ibverbs.matches_wanted htype a.packet
  · have hplace : PortInPlace (pktNet s (frameAt p s.next_idx)) dst_port := by
      rw [hnet]
      exact h.portInPlace dst_port
    have hexact := (exactlyUdp_iff hslot hready dst_port).mpr hplace
    refine ⟨hexact, hexact.returned.trans ?_⟩
    rw [hnet]
    exact h.carries_iff dst_port

end Hashpipe.UdpPacket
