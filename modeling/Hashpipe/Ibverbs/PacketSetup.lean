import Mathlib.Tactic

/-!
# Setting up the packets

The loops of `hashpipe_ibv_init` that fill the work requests and scatter/gather elements
and link the work requests.  They are the same for the send and the receive packets, so
each is one definition over a side's two arrays, and `Init` instantiates it for each side.

`setUpPkts_library` says what the first loop leaves when the library manages the buffers.
-/

namespace Hashpipe.Ibverbs

/-- `struct ibv_sge`: a 64-bit address and two 32-bit numbers. -/
structure Sge where
  addr : ℕ
  length : ℕ
  lkey : ℕ
  deriving DecidableEq

/-- What `struct ibv_send_wr` and `struct ibv_recv_wr` have in common.  `sg_list` and `next`
are pointers into the side's arrays, given by their indices. -/
structure WorkRequest where
  wr_id : ℕ
  num_sge : ℕ
  sg_list : ℕ
  next : Option ℕ
  deriving DecidableEq

/-- `send_pkt_buf` and `send_sge_buf`, or `recv_pkt_buf` and `recv_sge_buf`. -/
structure PacketBufs where
  pkt : ℕ → WorkRequest
  sge : ℕ → Sge

/-- The two arrays as `calloc` returns them. -/
def PacketBufs.zeros : PacketBufs := ⟨fun _ => ⟨0, 0, 0, none⟩, fun _ => ⟨0, 0, 0⟩⟩

/-- The scatter/gather elements of packet `i`. -/
def PacketBufs.elements (b : PacketBufs) (i : ℕ) : List Sge :=
  (List.range (b.pkt i).num_sge).map fun j => b.sge ((b.pkt i).sg_list + j)

/-- What the loop over one side's packets reads from the context. -/
structure SetUpArgs where
  user_managed_flag : Bool
  mr_buf : ℕ
  pkt_size_max : ℕ
  lkey : ℕ

/-- `(uint64_t) mr_buf + i * pkt_size_max`: the product is one of `int` and `uint32_t`. -/
def slotAddr (mr_buf pkt_size_max i : ℕ) : ℕ := (mr_buf + i * pkt_size_max % 2 ^ 32) % 2 ^ 64

/-- The loop over a packet's elements. -/
def setLkeys (lkey sg_list num_sge : ℕ) (sge : ℕ → Sge) : ℕ → Sge :=
  (List.range num_sge).foldl
    (fun sge j => Function.update sge (sg_list + j) { sge (sg_list + j) with lkey := lkey }) sge

/-- One iteration of the loop over a side's packets. -/
def setUpPkt (a : SetUpArgs) (b : PacketBufs) (i : ℕ) : PacketBufs :=
  let wr := { b.pkt i with wr_id := i }
  let wr := if a.user_managed_flag then wr else { wr with num_sge := 1 }
  let sge := if a.user_managed_flag then b.sge else Function.update b.sge i
    { b.sge i with addr := slotAddr a.mr_buf a.pkt_size_max i, length := a.pkt_size_max }
  let sg_list := if i = 0 then 0 else (b.pkt (i - 1)).sg_list + (b.pkt (i - 1)).num_sge
  { pkt := Function.update b.pkt i { wr with sg_list := sg_list }
    sge := setLkeys a.lkey sg_list wr.num_sge sge }

def setUpPkts (a : SetUpArgs) (total : ℕ) (b : PacketBufs) : PacketBufs :=
  (List.range total).foldl (setUpPkt a) b

/-- The linking loops: packets `first` to `first + count - 1` become one list. -/
def linkPkts (first count : ℕ) (b : PacketBufs) : PacketBufs :=
  let link := fun (pkt : ℕ → WorkRequest) (i : ℕ) (next : Option ℕ) =>
    Function.update pkt i { pkt i with next := next }
  let linked := (List.range (count - 1)).foldl
    (fun pkt j => link pkt (first + j) (some (first + j + 1))) b.pkt
  { b with pkt := link linked (first + (count - 1)) none }

/-- For user managed work requests, walk the list to get the maximum of `num_sge`. -/
def maxSge (user_managed_flag : Bool) (total : ℕ) (b : PacketBufs) : ℕ :=
  if user_managed_flag then
    (List.range total).foldl
      (fun m i => if m < (b.pkt i).num_sge then (b.pkt i).num_sge else m) 1
  else 1

/-! ### Library managed buffers -/

/-- The element that the set-up gives packet `i`. -/
def slotSge (a : SetUpArgs) (i : ℕ) : Sge :=
  ⟨slotAddr a.mr_buf a.pkt_size_max i, a.pkt_size_max, a.lkey⟩

/-- After `k` iterations the first `k` packets have their number and one element each. -/
def SetUpTo (a : SetUpArgs) (k : ℕ) (b : PacketBufs) : Prop :=
  ∀ i < k, (b.pkt i).wr_id = i ∧ (b.pkt i).num_sge = 1 ∧ (b.pkt i).sg_list = i ∧
    b.sge i = slotSge a i

theorem setUpPkt_library {a : SetUpArgs} (ha : a.user_managed_flag = false) {b : PacketBufs}
    {k : ℕ} (hb : SetUpTo a k b) : SetUpTo a (k + 1) (setUpPkt a b k) := by
  have hlist : (if k = 0 then 0 else (b.pkt (k - 1)).sg_list + (b.pkt (k - 1)).num_sge) = k := by
    rcases Nat.eq_zero_or_pos k with rfl | hk
    · rfl
    · obtain ⟨-, hnum, hsg, -⟩ := hb (k - 1) (by omega)
      rw [if_neg (by omega), hnum, hsg]
      omega
  intro i hi
  rcases Nat.lt_succ_iff_lt_or_eq.mp hi with hlt | rfl
  · obtain ⟨hid, hnum, hsg, hsge⟩ := hb i hlt
    have hne : i ≠ k := hlt.ne
    simp [setUpPkt, ha, hlist, setLkeys, Function.update_of_ne hne, hid, hnum, hsg, hsge]
  · simp [setUpPkt, ha, hlist, setLkeys, slotSge]

theorem setUpPkts_library {a : SetUpArgs} (ha : a.user_managed_flag = false) (b : PacketBufs)
    (total : ℕ) : SetUpTo a total (setUpPkts a total b) := by
  induction total with
  | zero => exact fun i hi => absurd hi (Nat.not_lt_zero i)
  | succ k ih =>
    rw [setUpPkts, List.range_succ, List.foldl_append]
    exact setUpPkt_library ha ih

theorem SetUpTo.elements {a : SetUpArgs} {total : ℕ} {b : PacketBufs} (h : SetUpTo a total b)
    {i : ℕ} (hi : i < total) : b.elements i = [slotSge a i] := by
  obtain ⟨-, hnum, hsg, hsge⟩ := h i hi
  simp [PacketBufs.elements, hnum, hsg, hsge]

/-! ### Linking changes nothing but `next` -/

theorem foldl_link_fields {f : ℕ → ℕ × Option ℕ} (js : List ℕ) (pkt : ℕ → WorkRequest) (i : ℕ) :
    let linked := js.foldl
      (fun pkt j => Function.update pkt (f j).1 { pkt (f j).1 with next := (f j).2 }) pkt
    (linked i).num_sge = (pkt i).num_sge ∧ (linked i).sg_list = (pkt i).sg_list := by
  induction js generalizing pkt with
  | nil => exact ⟨rfl, rfl⟩
  | cons j js ih =>
    obtain ⟨hnum, hsg⟩ := ih (Function.update pkt (f j).1 { pkt (f j).1 with next := (f j).2 })
    rw [List.foldl_cons]
    refine ⟨hnum.trans ?_, hsg.trans ?_⟩ <;> by_cases hij : i = (f j).1 <;> simp [hij]

theorem linkPkts_elements (first count : ℕ) (b : PacketBufs) (i : ℕ) :
    (linkPkts first count b).elements i = b.elements i := by
  obtain ⟨hnum, hsg⟩ := foldl_link_fields (f := fun j => (first + j, some (first + j + 1)))
    (List.range (count - 1)) b.pkt i
  have hfields : ((linkPkts first count b).pkt i).num_sge = (b.pkt i).num_sge ∧
      ((linkPkts first count b).pkt i).sg_list = (b.pkt i).sg_list := by
    by_cases hi : i = first + (count - 1)
    · subst hi
      simpa [linkPkts] using And.intro hnum hsg
    · simpa [linkPkts, Function.update_of_ne hi] using And.intro hnum hsg
  simp only [PacketBufs.elements, hfields.1, hfields.2]
  rfl

end Hashpipe.Ibverbs
