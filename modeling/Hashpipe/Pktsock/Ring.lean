import Hashpipe.Library.RingWindow
import Hashpipe.Library.StepSystem

/-!
# The packet socket ring

The kernel stores packets into the frames of a ring that it shares with the process, and
`hashpipe_pktsock_recv_frame` hands the frames out in ring order.  The status word of a
frame says whose it is.  The kernel's head, the reader's `next_idx` and the releases, which
may come in any order, are independent of one another.

A frame the reader still holds looks like one just filled.  As long as no receive comes
round to a held frame, the reader gets the packets the kernel stored, in order and once
(`ring_delivers`): the frames not handed out yet are those of the window
`[returned, stored)`, and all others are held or the kernel's.
-/

namespace Hashpipe.Pktsock

open RingWindow StepSystem

/-- The sizing fields of `struct hashpipe_pktsock` once `hashpipe_pktsock_open` has
succeeded: all are `unsigned int`, and the kernel has made `nframes` frames, which it does
only if the size of the ring fits. -/
structure HashpipePktsock where
  frame_size : ℕ
  nframes : ℕ
  frame_size_pos : 0 < frame_size
  nframes_pos : 0 < nframes
  ring_lt : frame_size * nframes < 2 ^ 32

def TP_STATUS_KERNEL : UInt64 := 0
def TP_STATUS_USER : UInt64 := 1

/-- `p_ring + next_idx * frame_size`, as an offset from `p_ring`: the product is one of
`int` and `unsigned int`. -/
def frameAt (p : HashpipePktsock) (next_idx : ℕ) : ℕ := next_idx * p.frame_size % 2 ^ 32

/-- The frame (`none` for `NULL`) and `next_idx` afterwards. -/
def hashpipePktsockRecvFrameNonblock (p : HashpipePktsock) (tp_status : ℕ → UInt64) (next_idx : ℕ) :
    Option ℕ × ℕ :=
  let frame := frameAt p next_idx
  if tp_status frame &&& TP_STATUS_USER = 0 then (none, next_idx)
  else (some frame, if p.nframes ≤ next_idx + 1 then 0 else next_idx + 1)

/-- The ring, the two positions, and as history what was stored, what was returned and
which of the returned frames have not been released. -/
structure RingState (α : Type) where
  tp_status : ℕ → UInt64
  packet : ℕ → Option α
  head : ℕ
  next_idx : ℕ
  /-- In the `poll` of `hashpipe_pktsock_recv_frame`. -/
  polling : Bool
  stored : List α
  returned : List (ℕ × Option α)
  held : List ℕ

inductive RingAction (α : Type)
  /-- A packet arrives; the kernel may set other flags along with `TP_STATUS_USER`. -/
  | arrive (x : α) (flags : UInt64)
  | recvFrameNonblock
  /-- `hashpipe_pktsock_recv_frame` up to its return or its `poll`. -/
  | recvFrame
  /-- The rest of it. -/
  | pollReturns (timeout : Bool)
  | releaseFrame (frame : ℕ)

/-- The kernel fills the frame at its head, or drops the packet. -/
def arrive {α : Type} (p : HashpipePktsock) (s : RingState α) (x : α) (flags : UInt64) : RingState α :=
  let frame := s.head * p.frame_size
  if s.tp_status frame = TP_STATUS_KERNEL then
    { s with
      tp_status := Function.update s.tp_status frame (flags ||| TP_STATUS_USER)
      packet := Function.update s.packet frame (some x)
      head := (s.head + 1) % p.nframes
      stored := s.stored ++ [x] }
  else s

/-- A receive that looks at the ring once. -/
def receive {α : Type} (p : HashpipePktsock) (s : RingState α) : RingState α :=
  let r := hashpipePktsockRecvFrameNonblock p s.tp_status s.next_idx
  match r.1 with
  | none => s
  | some frame =>
    { s with
      next_idx := r.2
      returned := s.returned ++ [(frame, s.packet frame)]
      held := frame :: s.held }

/-- `hashpipe_pktsock_release_frame`. -/
def releaseFrame {α : Type} (s : RingState α) (frame : ℕ) : RingState α :=
  { s with
    tp_status := Function.update s.tp_status frame TP_STATUS_KERNEL
    held := s.held.erase frame }

/-- The frame at `next_idx` is the process's, as far as its status tells. -/
def RingState.ready {α : Type} (p : HashpipePktsock) (s : RingState α) : Bool :=
  (hashpipePktsockRecvFrameNonblock p s.tp_status s.next_idx).1.isSome

def ringNext {α : Type} (p : HashpipePktsock) (s : RingState α) : RingAction α → Option (RingState α)
  | .arrive x flags => some (arrive p s x flags)
  | .recvFrameNonblock => if s.polling then none else some (receive p s)
  | .recvFrame =>
    if s.polling then none
    else some { receive p s with polling := !s.ready p }
  | .pollReturns timeout =>
    if s.polling then
      if timeout then some { s with polling := false }
      else some { receive p s with polling := false }
    else none
  | .releaseFrame frame =>
    if frame ∈ s.returned.map Prod.fst then some (releaseFrame s frame) else none

/-- An empty ring: every frame is the kernel's, whatever bytes it holds. -/
def RingInit {α : Type} (s : RingState α) : Prop :=
  s.tp_status = (fun _ => TP_STATUS_KERNEL) ∧ s.head = 0 ∧ s.next_idx = 0 ∧ s.polling = false ∧
    s.stored = [] ∧ s.returned = [] ∧ s.held = []

def ringSystem (α : Type) (p : HashpipePktsock) : System (RingState α) (RingAction α) where
  init := RingInit
  next := ringNext p

/-- A receive does not come upon a frame that is still held, and a release is not of a frame
that the kernel has filled again since it was released. -/
def inTurn {α : Type} (p : HashpipePktsock) (s : RingState α) : RingAction α → Prop
  | .arrive _ _ => True
  | .recvFrameNonblock => frameAt p s.next_idx ∉ s.held
  | .recvFrame => frameAt p s.next_idx ∉ s.held
  | .pollReturns timeout => timeout = true ∨ frameAt p s.next_idx ∉ s.held
  | .releaseFrame frame => frame ∈ s.held ∨ s.tp_status frame = TP_STATUS_KERNEL

/-- What was returned is what was stored, in order and once, up to where the reader is; a
receive finds no frame only if it has had them all; and no frame is held twice. -/
structure Delivered {α : Type} (p : HashpipePktsock) (s : RingState α) : Prop where
  in_order : s.returned.map Prod.snd = (s.stored.take s.returned.length).map some
  all_seen : s.ready p = false → s.returned.length = s.stored.length
  once : s.held.Nodup

/-! ### Frames of the ring -/

section Frames

variable (p : HashpipePktsock)

/-- The ring is small enough for the 32-bit product to be exact. -/
theorem frameAt_eq {i : ℕ} (hi : i < p.nframes) : frameAt p i = i * p.frame_size := by
  have hlt : i * p.frame_size < p.nframes * p.frame_size :=
    Nat.mul_lt_mul_of_pos_right hi p.frame_size_pos
  have hring := p.ring_lt
  rw [Nat.mul_comm] at hring
  exact Nat.mod_eq_of_lt (hlt.trans hring)

theorem frame_injective {i j : ℕ} (h : i * p.frame_size = j * p.frame_size) : i = j :=
  Nat.eq_of_mul_eq_mul_right p.frame_size_pos h

theorem filled_user (flags : UInt64) : (flags ||| TP_STATUS_USER) &&& TP_STATUS_USER ≠ 0 := by
  intro hzero
  have hbit := congrArg (fun b : BitVec 64 => b.getLsbD 0) (congrArg UInt64.toBitVec hzero)
  simp [TP_STATUS_USER] at hbit

theorem kernel_not_user : TP_STATUS_KERNEL &&& TP_STATUS_USER = 0 := by decide

end Frames

/-! ### The invariant -/

/-- Packet `j` is stored into frame `j % nframes`.  The packets not returned yet are in
their frames, flagged; a frame outside that window is held or the kernel's. -/
structure RingInv {α : Type} (p : HashpipePktsock) (s : RingState α) : Prop where
  head_eq : s.head = s.stored.length % p.nframes
  idx_eq : s.next_idx = s.returned.length % p.nframes
  le_stored : s.returned.length ≤ s.stored.length
  stored_le : s.stored.length ≤ s.returned.length + p.nframes
  filled : ∀ j, s.returned.length ≤ j → j < s.stored.length →
    s.tp_status (j % p.nframes * p.frame_size) &&& TP_STATUS_USER ≠ 0 ∧
      s.packet (j % p.nframes * p.frame_size) = s.stored[j]?
  idle : ∀ i < p.nframes, ¬ Occupied p.nframes s.returned.length s.stored.length i →
    i * p.frame_size ∉ s.held → s.tp_status (i * p.frame_size) = TP_STATUS_KERNEL
  user : ∀ frame ∈ s.held, ∃ i < p.nframes, frame = i * p.frame_size ∧
    ¬ Occupied p.nframes s.returned.length s.stored.length i ∧
      s.tp_status frame &&& TP_STATUS_USER ≠ 0
  in_order : s.returned.map Prod.snd = (s.stored.take s.returned.length).map some
  once : s.held.Nodup

section Invariant

variable {α : Type} {p : HashpipePktsock} {s : RingState α}

theorem RingInit.inv (h : RingInit s) : RingInv p s := by
  obtain ⟨hstatus, hhead, hidx, -, hstored, hreturned, hheld⟩ := h
  refine ⟨by simp [hhead, hstored], by simp [hidx, hreturned], by simp [hreturned],
    by simp [hstored], ?_, ?_, by simp [hheld], by simp [hreturned], by simp [hheld]⟩
  · intro j _ hj
    simp [hstored] at hj
  · intro i _ _ _
    rw [hstatus]

/-- A flagged frame that nobody holds is one of the window. -/
theorem RingInv.occupied_of_user (h : RingInv p s) {i : ℕ} (hi : i < p.nframes)
    (huser : s.tp_status (i * p.frame_size) &&& TP_STATUS_USER ≠ 0)
    (hheld : i * p.frame_size ∉ s.held) :
    Occupied p.nframes s.returned.length s.stored.length i := by
  by_contra hfree
  rw [h.idle i hi hfree hheld] at huser
  exact huser kernel_not_user

/-- A frame of the window is flagged. -/
theorem RingInv.user_of_occupied (h : RingInv p s) {i : ℕ}
    (hocc : Occupied p.nframes s.returned.length s.stored.length i) :
    s.tp_status (i * p.frame_size) &&& TP_STATUS_USER ≠ 0 := by
  obtain ⟨j, hle, hlt, rfl⟩ := hocc
  exact (h.filled j hle hlt).1

theorem RingInv.arrive (h : RingInv p s) (x : α) (flags : UInt64) :
    RingInv p (arrive p s x flags) := by
  unfold Pktsock.arrive
  dsimp only
  split
  case isFalse => exact h
  case isTrue hkernel =>
    rw [h.head_eq] at hkernel ⊢
    set slot := s.stored.length % p.nframes with hslot
    -- the head's frame is outside the window, so the window is not the whole ring
    have hfree : ¬ Occupied p.nframes s.returned.length s.stored.length slot := by
      intro hocc
      have huser := h.user_of_occupied hocc
      rw [hkernel] at huser
      exact huser kernel_not_user
    have hnotfull : s.stored.length < s.returned.length + p.nframes := by
      have hne := (occupied_next p.nframes_pos h.le_stored h.stored_le).not.mp hfree
      have hle := h.stored_le
      omega
    have hnotheld : ∀ frame ∈ s.held, frame ≠ slot * p.frame_size := by
      intro frame hmem heq
      obtain ⟨-, -, -, -, huser⟩ := h.user frame hmem
      rw [heq, hkernel] at huser
      exact huser kernel_not_user
    refine ⟨?_, h.idx_eq, ?_, ?_, ?_, ?_, ?_, ?_, h.once⟩
    · simp [hslot]
    · simpa using h.le_stored.trans (Nat.le_succ _)
    · simpa using hnotfull
    · intro j hle hlt
      rw [List.length_append, List.length_singleton] at hlt
      rcases Nat.lt_succ_iff_lt_or_eq.mp hlt with hold | rfl
      · have hne : j % p.nframes * p.frame_size ≠ slot * p.frame_size := by
          intro heq
          exact hfree ⟨j, hle, hold, frame_injective p heq⟩
        simp only [Function.update_of_ne hne, List.getElem?_append_left hold]
        exact h.filled j hle hold
      · simp only [← hslot, Function.update_self]
        exact ⟨filled_user flags, by simp⟩
    · intro i hi hnot hout
      rw [List.length_append, List.length_singleton, occupied_push h.le_stored, not_or] at hnot
      have hne : i * p.frame_size ≠ slot * p.frame_size := fun heq =>
        hnot.2 (frame_injective p heq)
      simp only [Function.update_of_ne hne]
      exact h.idle i hi hnot.1 hout
    · intro frame hmem
      obtain ⟨i, hi, heq, hout, huser⟩ := h.user frame hmem
      refine ⟨i, hi, heq, ?_, ?_⟩
      · rw [List.length_append, List.length_singleton, occupied_push h.le_stored, not_or]
        refine ⟨hout, fun hi' => hnotheld frame hmem ?_⟩
        rw [heq, hi']
      · simpa only [Function.update_of_ne (hnotheld frame hmem)] using huser
    · rw [h.in_order, List.take_append_of_le_length h.le_stored]

/-- What a receive finds: nothing, after all stored packets have been returned, or the next
of them. -/
theorem RingInv.ready_iff (h : RingInv p s) (hturn : frameAt p s.next_idx ∉ s.held) :
    s.ready p = true ↔ s.returned.length < s.stored.length := by
  have hslot : s.next_idx < p.nframes := by rw [h.idx_eq]; exact Nat.mod_lt _ p.nframes_pos
  have hready : s.ready p = true ↔
      s.tp_status (s.next_idx * p.frame_size) &&& TP_STATUS_USER ≠ 0 := by
    simp only [RingState.ready, hashpipePktsockRecvFrameNonblock, frameAt_eq p hslot]
    split <;> simp_all
  rw [hready]
  constructor
  · intro huser
    rw [frameAt_eq p hslot] at hturn
    obtain ⟨j, hle, hlt, -⟩ := h.occupied_of_user hslot huser hturn
    omega
  · intro hlt
    rw [h.idx_eq]
    exact (h.filled _ le_rfl hlt).1

theorem receive_eq (hslot : s.next_idx < p.nframes) :
    receive p s = if s.ready p = true then
      { s with
        next_idx := (s.next_idx + 1) % p.nframes
        returned := s.returned ++ [(s.next_idx * p.frame_size, s.packet (s.next_idx * p.frame_size))]
        held := s.next_idx * p.frame_size :: s.held }
    else s := by
  have hnext : (if p.nframes ≤ s.next_idx + 1 then 0 else s.next_idx + 1) =
      (s.next_idx + 1) % p.nframes := by
    split
    · rw [show s.next_idx + 1 = p.nframes by omega, Nat.mod_self]
    · exact (Nat.mod_eq_of_lt (by omega)).symm
  by_cases hstatus : s.tp_status (s.next_idx * p.frame_size) &&& TP_STATUS_USER = 0
  · simp [receive, RingState.ready, hashpipePktsockRecvFrameNonblock, frameAt_eq p hslot, hstatus]
  · simp [receive, RingState.ready, hashpipePktsockRecvFrameNonblock, frameAt_eq p hslot, hstatus,
      hnext]

theorem RingInv.receive (h : RingInv p s) (hturn : frameAt p s.next_idx ∉ s.held) :
    RingInv p (receive p s) := by
  have hslot : s.next_idx < p.nframes := by rw [h.idx_eq]; exact Nat.mod_lt _ p.nframes_pos
  rw [receive_eq hslot]
  by_cases hready : s.ready p = true
  case neg =>
    rw [if_neg hready]
    exact h
  rw [if_pos hready]
  have hlt := (h.ready_iff hturn).mp hready
  rw [frameAt_eq p hslot] at hturn
  obtain ⟨huser, hpacket⟩ := h.filled _ le_rfl hlt
  rw [← h.idx_eq] at huser hpacket
  refine ⟨h.head_eq, ?_, ?_, ?_, ?_, ?_, ?_, ?_, ?_⟩
  · simp [h.idx_eq]
  · simpa using hlt
  · have := h.stored_le
    simp only [List.length_append, List.length_singleton]
    omega
  · intro j hle hj
    simp only [List.length_append, List.length_singleton] at hle
    exact h.filled j (by omega) hj
  · intro i hi hnot hout
    rw [List.length_append, List.length_singleton, occupied_pop h.stored_le, ← h.idx_eq] at hnot
    rw [List.mem_cons, not_or] at hout
    refine h.idle i hi (fun hocc => hnot ⟨hocc, fun hi' => hout.1 ?_⟩) hout.2
    rw [hi']
  · intro frame hmem
    rcases List.mem_cons.mp hmem with rfl | hold
    · refine ⟨s.next_idx, hslot, rfl, ?_, huser⟩
      rw [List.length_append, List.length_singleton, occupied_pop h.stored_le, ← h.idx_eq]
      exact fun hocc => hocc.2 rfl
    · obtain ⟨i, hi, heq, hout, hu⟩ := h.user frame hold
      refine ⟨i, hi, heq, ?_, hu⟩
      rw [List.length_append, List.length_singleton, occupied_pop h.stored_le]
      exact fun hocc => hout hocc.1
  · rw [List.map_append, h.in_order, List.length_append, List.length_singleton,
      List.take_add_one, List.map_append, hpacket, List.getElem?_eq_getElem hlt]
    rfl
  · exact List.nodup_cons.mpr ⟨hturn, h.once⟩

theorem RingInv.releaseFrame (h : RingInv p s) {frame : ℕ} (hmem : frame ∈ s.held) :
    RingInv p (releaseFrame s frame) := by
  obtain ⟨i, hi, rfl, hfree, -⟩ := h.user frame hmem
  refine ⟨h.head_eq, h.idx_eq, h.le_stored, h.stored_le, ?_, ?_, ?_, h.in_order,
    h.once.erase _⟩
  · intro j hle hj
    have hne : j % p.nframes * p.frame_size ≠ i * p.frame_size := fun heq =>
      hfree ⟨j, hle, hj, frame_injective p heq⟩
    simp only [Pktsock.releaseFrame, Function.update_of_ne hne]
    exact h.filled j hle hj
  · intro k hk hnot hout
    by_cases hki : k = i
    · subst hki
      exact Function.update_self ..
    · have hne : k * p.frame_size ≠ i * p.frame_size := fun heq => hki (frame_injective p heq)
      simp only [Pktsock.releaseFrame, Function.update_of_ne hne]
      exact h.idle k hk hnot fun hheld => hout ((List.mem_erase_of_ne hne).mpr hheld)
  · intro other hother
    obtain ⟨hne, hheld⟩ := (h.once.mem_erase_iff).mp hother
    obtain ⟨k, hk, heq, hout, huser⟩ := h.user other hheld
    refine ⟨k, hk, heq, hout, ?_⟩
    simpa only [Pktsock.releaseFrame, Function.update_of_ne hne] using huser

/-- A second release of a frame does nothing as long as the kernel has not filled it. -/
theorem RingInv.releaseFrame_kernel (h : RingInv p s) {frame : ℕ}
    (hkernel : s.tp_status frame = TP_STATUS_KERNEL) : Pktsock.releaseFrame s frame = s := by
  have hnot : frame ∉ s.held := by
    intro hmem
    obtain ⟨-, -, -, -, huser⟩ := h.user frame hmem
    rw [hkernel] at huser
    exact huser kernel_not_user
  have hstatus : Function.update s.tp_status frame TP_STATUS_KERNEL = s.tp_status := by
    rw [← hkernel, Function.update_eq_self]
  simp only [Pktsock.releaseFrame, hstatus, List.erase_of_not_mem hnot]

theorem RingInv.polling (h : RingInv p s) (b : Bool) : RingInv p { s with polling := b } :=
  ⟨h.head_eq, h.idx_eq, h.le_stored, h.stored_le, h.filled, h.idle, h.user, h.in_order, h.once⟩

theorem RingInv.next (h : RingInv p s) {a : RingAction α} {t : RingState α} (hturn : inTurn p s a)
    (hnext : ringNext p s a = some t) : RingInv p t := by
  cases a with
  | arrive x flags =>
    obtain rfl : Pktsock.arrive p s x flags = t := by simpa [ringNext] using hnext
    exact h.arrive x flags
  | recvFrameNonblock =>
    simp only [ringNext] at hnext
    split at hnext
    · cases hnext
    · obtain rfl := Option.some.inj hnext
      exact h.receive hturn
  | recvFrame =>
    simp only [ringNext] at hnext
    split at hnext
    · cases hnext
    · obtain rfl := Option.some.inj hnext
      exact (h.receive hturn).polling _
  | pollReturns timeout =>
    simp only [ringNext] at hnext
    split at hnext
    · split at hnext
      · obtain rfl := Option.some.inj hnext
        exact h.polling false
      · rename_i hawake
        obtain rfl := Option.some.inj hnext
        exact (h.receive (hturn.resolve_left hawake)).polling false
    · cases hnext
  | releaseFrame frame =>
    simp only [ringNext] at hnext
    split at hnext
    · obtain rfl := Option.some.inj hnext
      rcases hturn with hheld | hkernel
      · exact h.releaseFrame hheld
      · rw [h.releaseFrame_kernel hkernel]
        exact h
    · cases hnext

theorem RingInv.delivered (h : RingInv p s) : Delivered p s where
  in_order := h.in_order
  all_seen := by
    intro hready
    by_contra hne
    have hlt : s.returned.length < s.stored.length := lt_of_le_of_ne h.le_stored hne
    have hslot : s.next_idx < p.nframes := by rw [h.idx_eq]; exact Nat.mod_lt _ p.nframes_pos
    have huser := (h.filled _ le_rfl hlt).1
    rw [← h.idx_eq] at huser
    simp [RingState.ready, hashpipePktsockRecvFrameNonblock, frameAt_eq p hslot, huser] at hready
  once := h.once

/-- A receive that comes upon a held frame returns it again. -/
theorem RingInv.returned_again (h : RingInv p s) (hheld : frameAt p s.next_idx ∈ s.held) :
    ¬ Delivered p (Pktsock.receive p s) := by
  have hslot : s.next_idx < p.nframes := by rw [h.idx_eq]; exact Nat.mod_lt _ p.nframes_pos
  obtain ⟨-, -, -, -, huser⟩ := h.user _ hheld
  have hready : s.ready p = true := by
    simp [RingState.ready, hashpipePktsockRecvFrameNonblock, huser]
  intro hdelivered
  have hnodup := hdelivered.once
  rw [receive_eq hslot, if_pos hready] at hnodup
  rw [frameAt_eq p hslot] at hheld
  exact (List.nodup_cons.mp hnodup).1 hheld

end Invariant

/-! ### Runs -/

/-- **Ring delivery.**  In every run in which no receive comes upon a held frame and no
release is of a frame that the kernel has filled again, the packets returned are the packets
stored, in order and each once, and no frame is returned again while it is held. -/
theorem ring_delivers {α : Type} {p : HashpipePktsock} {s : RingState α}
    (h : ReachableUnder (ringSystem α p) (inTurn p) s) : Delivered p s :=
  (h.invariant (fun _ hs => RingInit.inv hs) fun _ _ _ hi hturn hn => hi.next hturn hn).delivered

/-- In such a run a receive keeps this exactly if it does not come upon a held frame. -/
theorem receive_delivers_iff {α : Type} {p : HashpipePktsock} {s : RingState α}
    (h : ReachableUnder (ringSystem α p) (inTurn p) s) :
    Delivered p (receive p s) ↔ frameAt p s.next_idx ∉ s.held := by
  have hinv : RingInv p s :=
    h.invariant (fun _ hs => RingInit.inv hs) fun _ _ _ hi hturn hn => hi.next hturn hn
  exact ⟨fun hd hheld => hinv.returned_again hheld hd, fun hturn => (hinv.receive hturn).delivered⟩

instance {α : Type} (p : HashpipePktsock) (s : RingState α) (a : RingAction α) : Decidable (inTurn p s a) :=
  match a with
  | .arrive _ _ => inferInstanceAs (Decidable True)
  | .recvFrameNonblock => inferInstanceAs (Decidable (frameAt p s.next_idx ∉ s.held))
  | .recvFrame => inferInstanceAs (Decidable (frameAt p s.next_idx ∉ s.held))
  | .pollReturns timeout =>
    inferInstanceAs (Decidable (timeout = true ∨ frameAt p s.next_idx ∉ s.held))
  | .releaseFrame frame =>
    inferInstanceAs (Decidable (frame ∈ s.held ∨ s.tp_status frame = TP_STATUS_KERNEL))

def emptyRing : RingState ℕ :=
  ⟨fun _ => TP_STATUS_KERNEL, fun _ => none, 0, 0, false, [], [], []⟩

theorem emptyRing_init : RingInit emptyRing := ⟨rfl, rfl, rfl, rfl, rfl, rfl, rfl⟩

/-- `nframes` frames of 2048 bytes. -/
def smallRing (nframes : ℕ) (hpos : 0 < nframes) (hlt : 2048 * nframes < 2 ^ 32) : HashpipePktsock :=
  ⟨2048, nframes, by decide, hpos, hlt⟩

/-- Three packets go through a ring of two frames, which are released out of order. -/
def twoFrameRun : List (RingAction ℕ) :=
  [.recvFrame, .arrive 10 0, .pollReturns false, .arrive 11 4, .recvFrameNonblock,
    .releaseFrame 2048, .releaseFrame 0, .arrive 12 0, .recvFrame]

def afterTwoFrameRun : RingState ℕ :=
  (runUnder (ringSystem ℕ (smallRing 2 (by decide) (by decide)))
    (inTurn (smallRing 2 (by decide) (by decide))) emptyRing twoFrameRun).getD emptyRing

theorem ring_delivers_twoFrameRun :
    Delivered (smallRing 2 (by decide) (by decide)) afterTwoFrameRun ∧
      afterTwoFrameRun.returned = [(0, some 10), (2048, some 11), (0, some 12)] :=
  ⟨ring_delivers ((ReachableUnder.init emptyRing_init).run_getD twoFrameRun), by decide +kernel⟩

/-- A ring of one frame: a packet is returned, and returned again. -/
theorem held_frame_returned_again :
    ¬ ∀ (p : HashpipePktsock) (s : RingState ℕ), Reachable (ringSystem ℕ p) s → Delivered p s := by
  intro hall
  have hrun := hall (smallRing 1 (by decide) (by decide)) _
    ((Reachable.init emptyRing_init).run_getD [.arrive 10 0, .recvFrameNonblock, .recvFrameNonblock])
  exact absurd hrun.once (by decide +kernel)

end Hashpipe.Pktsock
