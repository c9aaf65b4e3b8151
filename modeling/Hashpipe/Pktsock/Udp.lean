import Hashpipe.Library.ByteMemory
import Hashpipe.Pktsock.Ring

/-!
# Receiving UDP frames

`hashpipe_pktsock_recv_udp_frame` and its `_nonblock` variant receive a frame of the ring,
look at two places of the packet in it and give the frame back unless both are as wanted.
The ring's packets are here the bytes from `PKT_NET` on.

The destination port is looked for where it stands in a packet without IP options, and the
fragment offset is not looked at.  `udpReceive_exact_iff` says for which packets and ports
that is right; what happens to the frame and to the cursor is right for all.
-/

namespace Hashpipe.Pktsock

open ByteMemory StepSystem

def IPPROTO_UDP : UInt8 := 17

/-- `PKT_NET(frame)`: a frame never filled is as `mmap` returned it. -/
def pktNet (s : RingState Mem) (frame : ℕ) : Mem := (s.packet frame).getD fun _ => 0

def pktIsUdp (net : Mem) : Bool := net 0x09 == IPPROTO_UDP

def pktUdpDst (net : Mem) : ℤ := ((net 0x16).toNat <<< 8 ||| (net 0x17).toNat : ℕ)

/-- What follows the receive, in both variants. -/
def udpOrRelease (dst_port : ℤ) (frame : Option ℕ) (s : RingState Mem) :
    Option ℕ × RingState Mem :=
  match frame with
  | none => (none, s)
  | some frame =>
    if pktIsUdp (pktNet s frame) && pktUdpDst (pktNet s frame) == dst_port then (some frame, s)
    else (none, releaseFrame s frame)

/-- The frame returned (`none` for `NULL`) and the ring afterwards. -/
def hashpipePktsockRecvUdpFrameNonblock (p : HashpipePktsock) (dst_port : ℤ) (s : RingState Mem) :
    Option ℕ × RingState Mem :=
  udpOrRelease dst_port (hashpipePktsockRecvFrameNonblock p s.tp_status s.next_idx).1 (receive p s)

/-- `polled` is the ring as it is when `poll` returns, `none` if it times out. -/
def hashpipePktsockRecvUdpFrame (p : HashpipePktsock) (dst_port : ℤ) (s : RingState Mem)
    (polled : Option (RingState Mem)) : Option ℕ × RingState Mem :=
  if s.ready p then hashpipePktsockRecvUdpFrameNonblock p dst_port s
  else match polled with
    | none => (none, s)
    | some s => hashpipePktsockRecvUdpFrameNonblock p dst_port s

/-! ### What a packet is -/

/-- The 16-bit word at `a`, in network byte order. -/
def be16 (net : Mem) (a : ℕ) : ℕ := 256 * (net a).toNat + (net (a + 1)).toNat

def headerLength (net : Mem) : ℕ := 4 * ((net 0).toNat % 16)

/-- In units of 8 bytes: the low 13 bits of the word at 6. -/
def fragmentOffset (net : Mem) : ℕ := be16 net 6 % 2 ^ 13

/-- An IPv4 packet with its header complete and, if there is one, its UDP header too. -/
structure WellFormedIpv4 (net : Mem) : Prop where
  version : (net 0).toNat / 16 = 4
  ihl : 20 ≤ headerLength net
  header : headerLength net ≤ be16 net 2
  udp : net 9 = IPPROTO_UDP → fragmentOffset net = 0 → headerLength net + 8 ≤ be16 net 2

/-- The packet carries a UDP header, right after its IP header, with this destination port. -/
def CarriesUdpTo (net : Mem) (dst_port : ℤ) : Prop :=
  net 9 = IPPROTO_UDP ∧ fragmentOffset net = 0 ∧ (be16 net (headerLength net + 2) : ℤ) = dst_port

/-- The packet is not UDP, or its bytes 22 and 23 are the destination port of its UDP header,
or `dst_port` is neither the one nor the other. -/
def PortInPlace (net : Mem) (dst_port : ℤ) : Prop :=
  net 9 ≠ IPPROTO_UDP ∨ (fragmentOffset net = 0 ∧ be16 net 22 = be16 net (headerLength net + 2)) ∨
    ((be16 net 22 : ℤ) ≠ dst_port ∧
      (fragmentOffset net = 0 → (be16 net (headerLength net + 2) : ℤ) ≠ dst_port))

/-- What a receive is to do with the ready frame at the cursor. -/
structure ExactlyUdp (p : HashpipePktsock) (dst_port : ℤ) (s : RingState Mem)
    (r : Option ℕ × RingState Mem) : Prop where
  returned : r.1 = some (frameAt p s.next_idx) ↔
    CarriesUdpTo (pktNet s (frameAt p s.next_idx)) dst_port
  kept : CarriesUdpTo (pktNet s (frameAt p s.next_idx)) dst_port →
    r.2.tp_status = s.tp_status ∧ r.2.held = frameAt p s.next_idx :: s.held
  givenBack : ¬ CarriesUdpTo (pktNet s (frameAt p s.next_idx)) dst_port →
    r.1 = none ∧ r.2.held = s.held ∧
      r.2.tp_status = Function.update s.tp_status (frameAt p s.next_idx) TP_STATUS_KERNEL
  cursor : r.2.next_idx = (s.next_idx + 1) % p.nframes

theorem pktUdpDst_eq (net : Mem) : pktUdpDst net = be16 net 22 := by
  have hlow := (net 0x17).toNat_lt
  have hor : (net 0x16).toNat <<< 8 ||| (net 0x17).toNat =
      (net 0x16).toNat <<< 8 + (net 0x17).toNat :=
    (Nat.shiftLeft_add_eq_or_of_lt (by omega) _).symm
  rw [pktUdpDst, hor, Nat.shiftLeft_eq, Nat.mul_comm]
  rfl

/-- The macros test the packet as if it had no options and were not a fragment. -/
def macrosMatch (net : Mem) (dst_port : ℤ) : Prop :=
  net 9 = IPPROTO_UDP ∧ (be16 net 22 : ℤ) = dst_port

theorem macrosMatch_iff (net : Mem) (dst_port : ℤ) :
    (pktIsUdp net && pktUdpDst net == dst_port) = true ↔ macrosMatch net dst_port := by
  rw [Bool.and_eq_true, pktUdpDst_eq, beq_iff_eq]
  exact and_congr_left' beq_iff_eq

/-- The macros' test is the right one exactly when the port is where they look for it. -/
theorem macrosMatch_exact_iff (net : Mem) (dst_port : ℤ) :
    (macrosMatch net dst_port ↔ CarriesUdpTo net dst_port) ↔ PortInPlace net dst_port := by
  unfold macrosMatch CarriesUdpTo PortInPlace
  by_cases hudp : net 9 = IPPROTO_UDP
  · simp only [hudp, true_and, not_true_eq_false, ne_eq, false_or]
    by_cases hfrag : fragmentOffset net = 0
    · simp only [hfrag, true_and, forall_const]
      omega
    · simp only [hfrag, false_and, iff_false, false_implies, and_true, false_or]
  · simp only [hudp, false_and, ne_eq, not_false_eq_true, true_or]

/-! ### One receive -/

section Receive

variable {p : HashpipePktsock} {s : RingState Mem}

/-- What a receive of a ready frame leaves. -/
theorem receive_ready (hslot : s.next_idx < p.nframes) (hready : s.ready p = true) :
    receive p s = { s with
      next_idx := (s.next_idx + 1) % p.nframes
      returned := s.returned ++ [(frameAt p s.next_idx, s.packet (frameAt p s.next_idx))]
      held := frameAt p s.next_idx :: s.held } := by
  rw [receive_eq hslot, if_pos hready, frameAt_eq p hslot]

theorem recvFrame_ready (hready : s.ready p = true) :
    (hashpipePktsockRecvFrameNonblock p s.tp_status s.next_idx).1 = some (frameAt p s.next_idx) := by
  unfold RingState.ready hashpipePktsockRecvFrameNonblock at hready
  unfold hashpipePktsockRecvFrameNonblock
  by_cases hstatus : s.tp_status (frameAt p s.next_idx) &&& TP_STATUS_USER = 0
  · simp only [hstatus, if_true] at hready
    cases hready
  · simp only [hstatus, if_false]

theorem recvUdp_nonblock_ready (hready : s.ready p = true) (dst_port : ℤ) :
    hashpipePktsockRecvUdpFrameNonblock p dst_port s =
      udpOrRelease dst_port (some (frameAt p s.next_idx)) (receive p s) := by
  rw [hashpipePktsockRecvUdpFrameNonblock, recvFrame_ready hready]

/-- The packet that the macros match is returned, and its frame stays with the reader. -/
theorem recvUdp_matching (hslot : s.next_idx < p.nframes) (hready : s.ready p = true)
    {dst_port : ℤ} (hmatch : macrosMatch (pktNet s (frameAt p s.next_idx)) dst_port) :
    hashpipePktsockRecvUdpFrameNonblock p dst_port s =
      (some (frameAt p s.next_idx), receive p s) := by
  rw [recvUdp_nonblock_ready hready, receive_ready hslot hready]
  exact if_pos ((macrosMatch_iff _ _).mpr hmatch)

/-- Any other is given back. -/
theorem recvUdp_other (hslot : s.next_idx < p.nframes) (hready : s.ready p = true)
    {dst_port : ℤ} (hmatch : ¬ macrosMatch (pktNet s (frameAt p s.next_idx)) dst_port) :
    hashpipePktsockRecvUdpFrameNonblock p dst_port s =
      (none, releaseFrame (receive p s) (frameAt p s.next_idx)) := by
  rw [recvUdp_nonblock_ready hready, receive_ready hslot hready]
  exact if_neg fun h => hmatch ((macrosMatch_iff _ _).mp h)

/-- To the ring, a UDP receive is a receive that a release may follow. -/
theorem recvUdp_runs (hslot : s.next_idx < p.nframes) (hready : s.ready p = true)
    (hpolling : s.polling = false) (dst_port : ℤ) :
    ∃ actions, run (ringSystem Mem p) s actions =
      some (hashpipePktsockRecvUdpFrameNonblock p dst_port s).2 := by
  have hreceive : (ringSystem Mem p).next s .recvFrameNonblock = some (receive p s) := by
    show (if s.polling then none else some (receive p s)) = _
    rw [hpolling]
    rfl
  by_cases hmatch : macrosMatch (pktNet s (frameAt p s.next_idx)) dst_port
  · refine ⟨[.recvFrameNonblock], ?_⟩
    rw [recvUdp_matching hslot hready hmatch, run, hreceive]
    rfl
  · have hmem : frameAt p s.next_idx ∈ (receive p s).returned.map Prod.fst := by
      rw [receive_ready hslot hready]
      simp
    refine ⟨[.recvFrameNonblock, .releaseFrame (frameAt p s.next_idx)], ?_⟩
    rw [recvUdp_other hslot hready hmatch, run, hreceive]
    show ((if frameAt p s.next_idx ∈ (receive p s).returned.map Prod.fst then _ else none :
      Option (RingState Mem)).bind _) = _
    rw [if_pos hmem]
    rfl

theorem exactlyUdp_iff (hslot : s.next_idx < p.nframes) (hready : s.ready p = true)
    (dst_port : ℤ) :
    ExactlyUdp p dst_port s (hashpipePktsockRecvUdpFrameNonblock p dst_port s) ↔
      PortInPlace (pktNet s (frameAt p s.next_idx)) dst_port := by
  rw [← macrosMatch_exact_iff]
  set net := pktNet s (frameAt p s.next_idx) with hnet
  by_cases hmatch : macrosMatch net dst_port
  · have hrun := recvUdp_matching hslot hready hmatch
    rw [receive_ready hslot hready] at hrun
    rw [hrun]
    constructor
    · intro h
      exact ⟨fun _ => h.returned.mp rfl, fun _ => hmatch⟩
    · intro h
      have hcarries := h.mp hmatch
      exact ⟨⟨fun _ => hcarries, fun _ => rfl⟩, fun _ => ⟨rfl, rfl⟩,
        fun hnot => absurd hcarries hnot, rfl⟩
  · have hrun := recvUdp_other hslot hready hmatch
    rw [receive_ready hslot hready] at hrun
    rw [hrun]
    constructor
    · intro h
      exact ⟨fun hm => absurd hm hmatch, fun hc => absurd (h.returned.mpr hc) (by simp)⟩
    · intro h
      have hcarries : ¬ CarriesUdpTo net dst_port := fun hc => hmatch (h.mpr hc)
      refine ⟨⟨fun hr => absurd hr (by simp), fun hc => absurd hc hcarries⟩,
        fun hc => absurd hc hcarries, fun _ => ⟨rfl, ?_, rfl⟩, rfl⟩
      exact List.erase_cons_head ..

end Receive

/-- For every ready frame and every port, both variants do what they are to do, whether the
frame was ready at once or after the `poll`, exactly when the port is in place. -/
theorem udpReceive_exact_iff (p : HashpipePktsock) (s : RingState Mem) (hslot : s.next_idx < p.nframes)
    (hready : s.ready p = true) (dst_port : ℤ) :
    (ExactlyUdp p dst_port s (hashpipePktsockRecvUdpFrameNonblock p dst_port s) ∧
      (∀ polled, ExactlyUdp p dst_port s (hashpipePktsockRecvUdpFrame p dst_port s polled)) ∧
      ∀ before, before.ready p = false →
        ExactlyUdp p dst_port s (hashpipePktsockRecvUdpFrame p dst_port before (some s))) ↔
      PortInPlace (pktNet s (frameAt p s.next_idx)) dst_port := by
  have hiff := exactlyUdp_iff hslot hready dst_port
  constructor
  · intro h
    exact hiff.mp h.1
  · intro h
    have hexact := hiff.mpr h
    refine ⟨hexact, fun polled => ?_, fun before hbefore => ?_⟩
    · unfold hashpipePktsockRecvUdpFrame
      rw [if_pos hready]
      exact hexact
    · simp only [hashpipePktsockRecvUdpFrame, hbefore, Bool.false_eq_true, if_false]
      exact hexact

/-- A ring of two frames with a packet in the first. -/
def ringWith (packet : List UInt8) : RingState Mem :=
  { tp_status := Function.update (fun _ => TP_STATUS_KERNEL) 0 TP_STATUS_USER
    packet := Function.update (fun _ => none) 0 (some (chars packet))
    head := 1, next_idx := 0, polling := false, stored := [chars packet], returned := []
    held := [] }

/-- UDP to port 4660, from 10.0.0.1 to 10.0.0.2. -/
def plainPacket : List UInt8 :=
  [0x45, 0, 0, 28, 0, 0, 0, 0, 64, 17, 0, 0, 10, 0, 0, 1, 10, 0, 0, 2,
    0, 9, 0x12, 0x34, 0, 8, 0, 0]

/-- The same with four bytes of IP options. -/
def optionsPacket : List UInt8 :=
  [0x46, 0, 0, 32, 0, 0, 0, 0, 64, 17, 0, 0, 10, 0, 0, 1, 10, 0, 0, 2, 1, 1, 1, 0,
    0, 9, 0x12, 0x34, 0, 8, 0, 0]

theorem plainPacket_exact :
    ExactlyUdp (smallRing 2 (by decide) (by decide)) 4660 (ringWith plainPacket)
      (hashpipePktsockRecvUdpFrameNonblock (smallRing 2 (by decide) (by decide)) 4660
        (ringWith plainPacket)) :=
  ((udpReceive_exact_iff (smallRing 2 (by decide) (by decide)) (ringWith plainPacket) (by decide)
    (by decide) 4660).mpr (Or.inr (Or.inl (by decide)))).1

/-- The packet with options is for port 4660 and is given back. -/
theorem optionsPacket_given_back : ¬ ∀ (p : HashpipePktsock) (s : RingState Mem) (dst_port : ℤ),
    s.next_idx < p.nframes → s.ready p = true →
      WellFormedIpv4 (pktNet s (frameAt p s.next_idx)) →
        ExactlyUdp p dst_port s (hashpipePktsockRecvUdpFrameNonblock p dst_port s) := by
  intro h
  have hexact := h (smallRing 2 (by decide) (by decide)) (ringWith optionsPacket) 4660 (by decide)
    (by decide) ⟨by decide, by decide, by decide, fun _ _ => by decide⟩
  exact absurd (hexact.returned.mpr ⟨by decide, by decide, by decide⟩) (by decide)

end Hashpipe.Pktsock
