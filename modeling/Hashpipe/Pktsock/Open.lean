import Hashpipe.Pktsock.Ring

/-!
# Opening and closing a packet socket

`hashpipe_pktsock_open` asks the kernel for a ring of `nblocks` blocks and maps it; the receive
functions then take frame `i` to be at `i * frame_size`, while the kernel counts whole frames in
each block.  The sizes are products of `unsigned int`s, which wrap.

The kernel makes a ring only if the request has as many frames as fit its blocks
(`packetSetRing`).  That rules out a product that has wrapped, so when the open succeeds the
sizes are those that the rest of the model starts from, and the two sides agree on where each
frame is.  A failure after `socket` leaves the descriptor open (`pktsockOpen_ring`).
-/

namespace Hashpipe.Pktsock

/-- `struct tpacket_req`. -/
structure TpacketReq where
  tp_block_size : UInt32
  tp_block_nr : UInt32
  tp_frame_size : UInt32
  tp_frame_nr : UInt32

/-- What the kernel asks of a request, as far as the number of frames goes: blocks that are not
empty, and the number of frames that fit them. -/
def packetSetRing (req : TpacketReq) : Bool :=
  req.tp_block_size ≠ 0 && req.tp_frame_size ≠ 0 &&
    req.tp_block_size.toNat / req.tp_frame_size.toNat * req.tp_block_nr.toNat ==
      req.tp_frame_nr.toNat

/-- Where the kernel has frame `i`: its block, then the frame in it. -/
def kernelFrame (req : TpacketReq) (i : ℕ) : ℕ :=
  let frames_per_block := req.tp_block_size.toNat / req.tp_frame_size.toNat
  i / frames_per_block * req.tp_block_size.toNat +
    i % frames_per_block * req.tp_frame_size.toNat

/-- `struct hashpipe_pktsock`; `p_ring` is `none` for `(void *)-1`. -/
structure PktsockFields where
  frame_size : UInt32
  nframes : UInt32
  nblocks : UInt32
  fd : ℤ
  p_ring : Option ℕ
  next_idx : ℕ

/-- `BLOCK_SIZE`. -/
def PktsockFields.blockSize (p : PktsockFields) : UInt32 := p.frame_size * p.nframes / p.nblocks

def PktsockFields.request (p : PktsockFields) : TpacketReq :=
  ⟨p.blockSize, p.nblocks, p.frame_size, p.nframes⟩

/-- The `size` that is mapped and unmapped. -/
def PktsockFields.size (p : PktsockFields) : ℕ := (p.frame_size * p.nframes).toNat

structure Socket where
  ifindex : Option ℤ
  ring : Option TpacketReq

/-- The open descriptors of the process and what it has mapped: an address and a length. -/
structure SocketState where
  sockets : ℕ → Option Socket
  maps : ℕ → Option ℕ

/-- What the calls come back with; `ifr_ifindex` is what is in the variable where the `ioctl`
fails, which is not looked at. -/
structure OpenCalls where
  socket : Option ℕ
  ioctl : Option ℤ
  ifr_ifindex : ℤ
  bind : ℤ → Bool
  setsockopt : Bool
  mmap : Option ℕ

/-- A new descriptor and a new mapping. -/
structure OpenCalls.Fresh (calls : OpenCalls) (s : SocketState) : Prop where
  socket : ∀ fd, calls.socket = some fd → s.sockets fd = none
  mmap : ∀ a, calls.mmap = some a → s.maps a = none

def SocketState.setSocket (s : SocketState) (fd : ℕ) (sock : Option Socket) : SocketState :=
  { s with sockets := Function.update s.sockets fd sock }

def SocketState.setMap (s : SocketState) (a : ℕ) (size : Option ℕ) : SocketState :=
  { s with maps := Function.update s.maps a size }

/-- `hashpipe_pktsock_open`; `none` if it divides by zero. -/
def hashpipePktsockOpen (pagesize : ℕ) (calls : OpenCalls) (p : PktsockFields) (s : SocketState) :
    Option (ℤ × PktsockFields × SocketState) :=
  if p.nblocks = 0 then none
  else if p.nframes % p.nblocks ≠ 0 ∨ p.blockSize.toNat % pagesize ≠ 0 then some (-1, p, s)
  else
    match calls.socket with
    | none => some (-2, { p with fd := -1 }, s)
    | some fd =>
      let p := { p with fd := fd }
      let sll_ifindex := calls.ioctl.getD calls.ifr_ifindex
      if calls.bind sll_ifindex = false then some (-3, p, s.setSocket fd (some ⟨none, none⟩))
      else if (calls.setsockopt && packetSetRing p.request) = false then
        some (-4, p, s.setSocket fd (some ⟨some sll_ifindex, none⟩))
      else
        let s := s.setSocket fd (some ⟨some sll_ifindex, some p.request⟩)
        match calls.mmap with
        | none => some (-5, { p with p_ring := none }, s)
        | some a => some (0, { p with p_ring := some a, next_idx := 0 }, s.setMap a (some p.size))

/-- What `munmap` and `close` come back with. -/
structure CloseCalls where
  munmap : Bool
  close : Bool

/-- `hashpipe_pktsock_close`. -/
def hashpipePktsockClose (calls : CloseCalls) (p : PktsockFields) (s : SocketState) :
    ℤ × SocketState :=
  match p.p_ring with
  | none => (-1, s)
  | some a =>
    if calls.munmap = false ∨ s.maps a ≠ some p.size then (-1, s)
    else
      let s := s.setMap a none
      if calls.close = false ∨ p.fd < 0 then (-1, s) else (0, s.setSocket p.fd.toNat none)

/-! ### The sizes of a ring that the kernel makes -/

/-- A wrapped product gives blocks that are too small for the frames. -/
theorem product_exact {F N B : ℕ} (h : F * N % 2 ^ 32 / B / F * B = N) :
    F * N < 2 ^ 32 := by
  have hblock : F * N % 2 ^ 32 / B / F * F ≤ F * N % 2 ^ 32 / B := Nat.div_mul_le_self _ _
  have hring : F * N % 2 ^ 32 / B * B ≤ F * N % 2 ^ 32 := Nat.div_mul_le_self _ _
  have hle : F * N ≤ F * N % 2 ^ 32 :=
    calc F * N = F * (F * N % 2 ^ 32 / B / F * B) := by rw [h]
      _ = F * N % 2 ^ 32 / B / F * F * B := by ring
      _ ≤ F * N % 2 ^ 32 / B * B := Nat.mul_le_mul_right B hblock
      _ ≤ F * N % 2 ^ 32 := hring
  exact hle.trans_lt (Nat.mod_lt _ (by decide))

/-- Every block is full. -/
theorem block_full {F N B : ℕ} (hB : 0 < B) (h : F * N / B / F * B = N) :
    F * N / B = F * N / B / F * F := by
  have hdiv : F * N = F * (F * N / B / F) * B := by
    rw [Nat.mul_assoc, h]
  have hblock : F * N / B = F * (F * N / B / F) := by
    conv_lhs => rw [hdiv]
    exact Nat.mul_div_cancel _ hB
  rw [Nat.mul_comm _ F]
  exact hblock

/-- What a ring of these sizes is like. -/
structure RingFits (p : PktsockFields) : Prop where
  frame_size_pos : 0 < p.frame_size.toNat
  nframes_pos : 0 < p.nframes.toNat
  size_eq : p.size = p.frame_size.toNat * p.nframes.toNat
  ring_lt : p.frame_size.toNat * p.nframes.toNat < 2 ^ 32
  blocks : p.blockSize.toNat * p.nblocks.toNat = p.size
  frames : ∀ i, kernelFrame p.request i = i * p.frame_size.toNat

theorem ringFits_of_set {p : PktsockFields} (hblocks : p.nblocks ≠ 0)
    (h : packetSetRing p.request = true) : RingFits p := by
  have hB : 0 < p.nblocks.toNat := by
    refine Nat.pos_of_ne_zero fun hzero => hblocks ?_
    exact UInt32.toNat_inj.mp hzero
  simp only [packetSetRing, PktsockFields.request, Bool.and_eq_true, beq_iff_eq] at h
  obtain ⟨⟨hblock, hframe⟩, hcount⟩ := h
  have hF : 0 < p.frame_size.toNat := by
    refine Nat.pos_of_ne_zero fun hzero => of_decide_eq_true hframe ?_
    exact UInt32.toNat_inj.mp hzero
  have hsize : p.size = p.frame_size.toNat * p.nframes.toNat % 2 ^ 32 := UInt32.toNat_mul _ _
  have hbs : p.blockSize.toNat = p.size / p.nblocks.toNat := UInt32.toNat_div _ _
  rw [hbs, hsize] at hcount
  have hlt := product_exact hcount
  have hexact : p.size = p.frame_size.toNat * p.nframes.toNat := by
    rw [hsize, Nat.mod_eq_of_lt hlt]
  rw [Nat.mod_eq_of_lt hlt] at hcount
  have hfull := block_full hB hcount
  rw [← hexact, ← hbs] at hfull hcount
  refine ⟨hF, ?_, hexact, hlt, ?_, fun i => ?_⟩
  · refine Nat.pos_of_ne_zero fun hzero => of_decide_eq_true hblock ?_
    apply UInt32.toNat_inj.mp
    rw [hbs, hexact, hzero]
    simp
  · rw [hfull, hexact, ← hcount]
    ring
  · show i / (p.blockSize.toNat / p.frame_size.toNat) * p.blockSize.toNat +
      i % (p.blockSize.toNat / p.frame_size.toNat) * p.frame_size.toNat = _
    calc i / (p.blockSize.toNat / p.frame_size.toNat) * p.blockSize.toNat +
          i % (p.blockSize.toNat / p.frame_size.toNat) * p.frame_size.toNat
        = (p.blockSize.toNat / p.frame_size.toNat * (i / (p.blockSize.toNat / p.frame_size.toNat)) +
          i % (p.blockSize.toNat / p.frame_size.toNat)) * p.frame_size.toNat := by
          conv_lhs => rw [hfull]
          rw [Nat.mul_div_cancel _ hF]
          ring
      _ = i * p.frame_size.toNat := by rw [Nat.div_add_mod]

/-- The sizes as the receive functions use them. -/
def RingFits.pktsock {p : PktsockFields} (h : RingFits p) : HashpipePktsock where
  frame_size := p.frame_size.toNat
  nframes := p.nframes.toNat
  frame_size_pos := h.frame_size_pos
  nframes_pos := h.nframes_pos
  ring_lt := h.ring_lt

/-- The reader looks for each frame where the kernel has it, inside of what is mapped. -/
theorem RingFits.frameAt {p : PktsockFields} (h : RingFits p) {i : ℕ}
    (hi : i < h.pktsock.nframes) : Pktsock.frameAt h.pktsock i = kernelFrame p.request i ∧
      Pktsock.frameAt h.pktsock i + h.pktsock.frame_size ≤ p.size := by
  rw [frameAt_eq _ hi, h.frames]
  refine ⟨rfl, ?_⟩
  have hnext : (i + 1) * p.frame_size.toNat ≤ p.nframes.toNat * p.frame_size.toNat :=
    Nat.mul_le_mul_right _ hi
  rw [h.size_eq, Nat.mul_comm p.frame_size.toNat]
  rw [Nat.succ_mul] at hnext
  exact hnext

/-! ### Opening -/

/-- What a successful open leaves. -/
structure Opened (p : PktsockFields) (s : SocketState) (p' : PktsockFields) (s' : SocketState) :
    Prop where
  sizes : p'.frame_size = p.frame_size ∧ p'.nframes = p.nframes ∧ p'.nblocks = p.nblocks
  start : p'.next_idx = 0
  fits : ∃ hfits : RingFits p', ∀ i < hfits.pktsock.nframes,
    frameAt hfits.pktsock i = kernelFrame p'.request i ∧
      frameAt hfits.pktsock i + hfits.pktsock.frame_size ≤ p'.size
  made : ∃ (fd a : ℕ) (ifindex : ℤ), p'.fd = fd ∧ p'.p_ring = some a ∧
    s' = (s.setSocket fd (some ⟨some ifindex, some p'.request⟩)).setMap a (some p'.size)
  /-- A close undoes it. -/
  closes : ∀ calls : CloseCalls, calls.munmap = true → calls.close = true →
    hashpipePktsockClose calls p' s' = (0, s)

/-- What a failed open leaves: an open descriptor, if there was one to be had. -/
structure FailedOpen (calls : OpenCalls) (s : SocketState) (r : ℤ) (s' : SocketState) : Prop where
  maps : s'.maps = s.maps
  before : r = -1 ∨ r = -2 → s' = s
  after : r ≠ -1 → r ≠ -2 → ∃ fd, calls.socket = some fd ∧ (s'.sockets fd).isSome = true ∧
    ∀ other ≠ fd, s'.sockets other = s.sockets other

section Open

variable {pagesize : ℕ} {calls : OpenCalls} {p p' : PktsockFields} {s s' : SocketState} {r : ℤ}

/-- Unmapping and closing gives back what was there before. -/
theorem close_undoes {fd a size : ℕ} {sock : Socket} {cl : CloseCalls}
    (hcl : cl.munmap = true ∧ cl.close = true) (hfd : s.sockets fd = none) (ha : s.maps a = none)
    (hp : p.fd = fd ∧ p.p_ring = some a ∧ p.size = size) :
    hashpipePktsockClose cl p ((s.setSocket fd (some sock)).setMap a (some size)) = (0, s) := by
  obtain ⟨hpfd, hring, rfl⟩ := hp
  have hmaps : Function.update (Function.update s.maps a (some p.size)) a none = s.maps := by
    rw [Function.update_idem, ← ha, Function.update_eq_self]
  have hsockets : Function.update (Function.update s.sockets fd (some sock)) fd none =
      s.sockets := by
    rw [Function.update_idem, ← hfd, Function.update_eq_self]
  rw [hashpipePktsockClose, hring]
  simp only [SocketState.setMap, SocketState.setSocket, hcl.1, hcl.2, hpfd, Function.update_self,
    hmaps, Int.toNat_natCast, hsockets]
  simp

/-- **The outcomes of an open.**  Where it succeeds, the ring that the reader walks is the ring
that the kernel fills, and a close undoes it; where it fails, nothing is mapped, and the
descriptor is left open if there was one. -/
theorem pktsockOpen_ring (hfresh : calls.Fresh s)
    (h : hashpipePktsockOpen pagesize calls p s = some (r, p', s')) :
    (r = 0 → Opened p s p' s') ∧ (r ≠ 0 → FailedOpen calls s r s') := by
  rw [hashpipePktsockOpen] at h
  split at h
  · cases h
  rename_i hblocks
  split at h
  · cases h
    exact ⟨(fun h => by cases h), fun _ => ⟨rfl, fun _ => rfl, fun h => absurd rfl h⟩⟩
  split at h
  · cases h
    exact ⟨(fun h => by cases h), fun _ => ⟨rfl, fun _ => rfl, fun _ h => absurd rfl h⟩⟩
  rename_i fd hsocket
  -- from here on the descriptor is open
  have hleft : ∀ (r : ℤ) (sock : Socket), r ≠ -1 → r ≠ -2 →
      FailedOpen calls s r (s.setSocket fd (some sock)) := by
    intro r sock h1 h2
    refine ⟨rfl, fun h => absurd h (by tauto), fun _ _ => ⟨fd, hsocket, ?_, fun other hne => ?_⟩⟩
    · simp [SocketState.setSocket]
    · exact Function.update_of_ne hne _ _
  simp only at h
  split at h
  · cases h
    exact ⟨(fun h => by cases h), fun _ => hleft _ _ (by decide) (by decide)⟩
  split at h
  · cases h
    exact ⟨(fun h => by cases h), fun _ => hleft _ _ (by decide) (by decide)⟩
  rename_i hset
  split at h
  · cases h
    exact ⟨(fun h => by cases h), fun _ => hleft _ _ (by decide) (by decide)⟩
  rename_i a hmmap
  cases h
  refine ⟨fun _ => ?_, fun h => absurd rfl h⟩
  have hring : packetSetRing p.request = true := by
    have hboth := Bool.not_eq_false _ ▸ hset
    exact (Bool.and_eq_true _ _ ▸ hboth).2
  have hfits : RingFits { p with fd := fd, p_ring := some a, next_idx := 0 } :=
    ringFits_of_set hblocks hring
  exact {
    sizes := ⟨rfl, rfl, rfl⟩
    start := rfl
    fits := ⟨hfits, fun i hi => hfits.frameAt hi⟩
    made := ⟨fd, a, _, rfl, rfl, rfl⟩
    closes := fun cl hmunmap hclose => close_undoes ⟨hmunmap, hclose⟩
      (hfresh.socket fd hsocket) (hfresh.mmap a hmmap) ⟨rfl, rfl, rfl⟩ }

end Open

/-- 64 frames of 2048 bytes in 4 blocks. -/
def smallSocket : PktsockFields := ⟨2048, 64, 4, -1, none, 0⟩

def openSucceeds : OpenCalls := ⟨some 3, some 2, 0, fun _ => true, true, some 4096⟩

def noSockets : SocketState := ⟨fun _ => none, fun _ => none⟩

theorem pktsockOpen_ring_smallSocket : ∃ p' s',
    hashpipePktsockOpen 4096 openSucceeds smallSocket noSockets = some (0, p', s') ∧
      Opened smallSocket noSockets p' s' :=
  ⟨_, _, rfl, (@pktsockOpen_ring 4096 openSucceeds smallSocket _ noSockets _ _
    ⟨fun _ _ => rfl, fun _ _ => rfl⟩ rfl).1 rfl⟩

end Hashpipe.Pktsock
