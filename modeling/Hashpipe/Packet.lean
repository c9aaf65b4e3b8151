import Hashpipe.Library.OnesComplement
import Hashpipe.Library.ByteMemory

/-!
# Packet headers

`hashpipe_packet_iphdr_init` and `hashpipe_packet_iphdr_checksum` over the bytes of a header,
on a host of either byte order.  `netWord` reads a header word as the network does.

The checksum is computed from words brought into host order and stored without being brought
back, so the header a receiver sees is valid as it should be on a big-endian host, and on a
little-endian one only where exchanging the two bytes of the checksum makes no difference
(`checksumCorrect_iff`).
-/

namespace Hashpipe.Packet

open ByteMemory OnesComplement

inductive ByteOrder
  | little
  | big
  deriving DecidableEq

/-- A `uint16_t` read through a host pointer. -/
def load16 (order : ByteOrder) (m : Mem) (a : ℕ) : UInt16 :=
  match order with
  | .little => (m a).toUInt16 + 256 * (m (a + 1)).toUInt16
  | .big => 256 * (m a).toUInt16 + (m (a + 1)).toUInt16

def store16 (order : ByteOrder) (m : Mem) (a : ℕ) (v : UInt16) : Mem :=
  match order with
  | .little => overlay m a 2 (chars [v.toUInt8, (v / 256).toUInt8])
  | .big => overlay m a 2 (chars [(v / 256).toUInt8, v.toUInt8])

def ntohs (order : ByteOrder) (x : UInt16) : UInt16 :=
  match order with
  | .little => (x <<< (8 : UInt16)) ||| (x >>> (8 : UInt16))
  | .big => x

def htons (order : ByteOrder) (x : UInt16) : UInt16 := ntohs order x

/-- Offset of `check` in `struct iphdr`. -/
def CHECK_OFFSET : ℕ := 10

/-- `iphdr->ihl`: the low half of the first byte. -/
def ihl (m : Mem) : ℕ := (m 0).toNat % 16

/-- `saddr` and `daddr`, stored as `htonl` of the argument's low 32 bits. -/
def ipBytes (ip : UInt64) : List UInt8 :=
  [(ip >>> (24 : UInt64)).toUInt8, (ip >>> (16 : UInt64)).toUInt8,
    (ip >>> (8 : UInt64)).toUInt8, ip.toUInt8]

/-- `hashpipe_packet_iphdr_init`. -/
def hashpipePacketIphdrInit (order : ByteOrder) (m : Mem) (src_ip dst_ip : UInt64) : Mem :=
  let m := overlay m 0 2 (chars [0x45, 0])
  let m := store16 order m 2 (htons order 20)
  let m := store16 order m 4 0
  let m := store16 order m 6 (htons order 0x4000)
  let m := overlay m 8 2 (chars [64, 17])
  let m := store16 order m CHECK_OFFSET 0
  let m := overlay m 12 4 (chars (ipBytes src_ip))
  overlay m 16 4 (chars (ipBytes dst_ip))

/-- The loop over the header's words, after `n` of them. -/
def sumWords (order : ByteOrder) (m : Mem) (sum32 : UInt32) (n : ℕ) : UInt32 :=
  (List.range n).foldl (fun sum32 i => sum32 + (ntohs order (load16 order m (2 * i))).toUInt32)
    sum32

/-- The `while` loop; `none` when `fuel` tests of its condition were not enough. -/
def foldCarries : ℕ → UInt32 → Option UInt32
  | 0, _ => none
  | fuel + 1, sum32 =>
    if sum32 &&& (0xffff0000 : UInt32) ≠ 0 then
      foldCarries fuel (((sum32 >>> (16 : UInt32)) &&& (0xffff : UInt32)) +
        (sum32 &&& (0xffff : UInt32)))
    else some sum32

/-- `hashpipe_packet_iphdr_checksum`: the header it leaves and the value it returns. -/
def hashpipePacketIphdrChecksum (order : ByteOrder) (fuel : ℕ) (m : Mem) :
    Option (Mem × UInt16) :=
  let sum32 := sumWords order m (-(ntohs order (load16 order m CHECK_OFFSET)).toUInt32)
    (2 * ihl m)
  (foldCarries fuel sum32).map fun sum32 =>
    let check := ~~~(sum32 &&& (0xffff : UInt32)).toUInt16
    (store16 order m CHECK_OFFSET check, check)

/-! ### Words in network byte order -/

/-- Word `i` of a header as a receiver reads it. -/
def netWord (m : Mem) (i : ℕ) : ℕ := 256 * (m (2 * i)).toNat + (m (2 * i + 1)).toNat

def headerWords (m : Mem) : List ℕ := (List.range (2 * ihl m)).map (netWord m)

/-- The sum of the header's words without the checksum. -/
def otherSum (m : Mem) : ℕ := ∑ i ∈ (Finset.range (2 * ihl m)).erase 5, netWord m i

theorem netWord_lt (m : Mem) (i : ℕ) : netWord m i < 2 ^ 16 := by
  have h0 := (m (2 * i)).toNat_lt
  have h1 := (m (2 * i + 1)).toNat_lt
  unfold netWord
  omega

theorem headerWords_lt (m : Mem) : ∀ w ∈ headerWords m, w < 2 ^ 16 := by
  intro w hw
  obtain ⟨i, -, rfl⟩ := List.mem_map.mp hw
  exact netWord_lt m i

theorem toNat_swap16 (x : UInt16) :
    ((x <<< (8 : UInt16)) ||| (x >>> (8 : UInt16))).toNat = swapBytes x.toNat := by
  have hx := x.toNat_lt
  have hor : (x.toNat % 256) <<< 8 ||| x.toNat / 256 = (x.toNat % 256) <<< 8 + x.toNat / 256 :=
    (Nat.shiftLeft_add_eq_or_of_lt (by omega) _).symm
  simp only [UInt16.toNat_or, UInt16.toNat_shiftLeft, UInt16.toNat_shiftRight]
  show x.toNat <<< 8 % 2 ^ 16 ||| x.toNat >>> 8 = swapBytes x.toNat
  have hleft : x.toNat <<< 8 % 2 ^ 16 = (x.toNat % 256) <<< 8 := by
    simp only [Nat.shiftLeft_eq]
    omega
  rw [hleft, Nat.shiftRight_eq_div_pow, hor, Nat.shiftLeft_eq]
  rfl

theorem toNat_ntohs_load16 (order : ByteOrder) (m : Mem) (i : ℕ) :
    (ntohs order (load16 order m (2 * i))).toNat = netWord m i := by
  have h0 := (m (2 * i)).toNat_lt
  have h1 := (m (2 * i + 1)).toNat_lt
  cases order with
  | little =>
    show ((_ <<< (8 : UInt16)) ||| (_ >>> (8 : UInt16)) : UInt16).toNat = _
    rw [toNat_swap16]
    have hload : (load16 .little m (2 * i)).toNat =
        (m (2 * i)).toNat + 256 * (m (2 * i + 1)).toNat := by
      simp only [load16, UInt16.toNat_add, UInt16.toNat_mul, UInt8.toNat_toUInt16]
      show ((m (2 * i)).toNat + 256 * (m (2 * i + 1)).toNat % 2 ^ 16) % 2 ^ 16 = _
      omega
    rw [hload]
    unfold swapBytes netWord
    omega
  | big =>
    simp only [ntohs, load16, UInt16.toNat_add, UInt16.toNat_mul, UInt8.toNat_toUInt16, netWord]
    show (256 * (m (2 * i)).toNat % 2 ^ 16 + (m (2 * i + 1)).toNat) % 2 ^ 16 = _
    omega

/-- The word that a receiver finds where the host stored `v`. -/
def wireValue (order : ByteOrder) (v : UInt16) : ℕ :=
  match order with
  | .little => swapBytes v.toNat
  | .big => v.toNat

theorem netWord_store16 (order : ByteOrder) (m : Mem) (v : UInt16) :
    netWord (store16 order m CHECK_OFFSET v) 5 = wireValue order v := by
  have hv := v.toNat_lt
  have hhigh : (v / 256).toUInt8.toNat = v.toNat / 256 := by
    show v.toNat / 256 % 2 ^ 8 = v.toNat / 256
    omega
  have hlow : v.toUInt8.toNat = v.toNat % 256 := rfl
  cases order with
  | little =>
    show 256 * v.toUInt8.toNat + (v / 256).toUInt8.toNat = swapBytes v.toNat
    rw [hhigh, hlow]
    unfold swapBytes
    omega
  | big =>
    show 256 * (v / 256).toUInt8.toNat + v.toUInt8.toNat = v.toNat
    rw [hhigh, hlow]
    omega

/-- A store into `check` changes these two bytes only. -/
theorem store16_outside (order : ByteOrder) (m : Mem) (v : UInt16) {a : ℕ} (ha : a ≠ 10)
    (ha' : a ≠ 11) : store16 order m CHECK_OFFSET v a = m a := by
  have hout : a < CHECK_OFFSET ∨ CHECK_OFFSET + 2 ≤ a := by
    unfold CHECK_OFFSET
    omega
  cases order with
  | little => exact overlay_outside hout
  | big => exact overlay_outside hout

/-- What `check` held before does not survive the store. -/
theorem store16_congr (order : ByteOrder) {m m' : Mem} (v : UInt16)
    (h : ∀ a, a ≠ 10 → a ≠ 11 → m' a = m a) :
    store16 order m' CHECK_OFFSET v = store16 order m CHECK_OFFSET v := by
  funext a
  by_cases ha : CHECK_OFFSET ≤ a ∧ a < CHECK_OFFSET + 2
  · cases order with
    | little => simp only [store16, overlay, if_pos ha]
    | big => simp only [store16, overlay, if_pos ha]
  · unfold CHECK_OFFSET at ha
    rw [store16_outside order m' v (by omega) (by omega),
      store16_outside order m v (by omega) (by omega)]
    exact h a (by omega) (by omega)

/-- Headers that agree outside `check`. -/
def SameButCheck (m m' : Mem) : Prop := ∀ a, a ≠ 10 → a ≠ 11 → m' a = m a

theorem SameButCheck.ihl_eq {m m' : Mem} (h : SameButCheck m m') : ihl m' = ihl m := by
  unfold ihl
  rw [h 0 (by omega) (by omega)]

theorem SameButCheck.netWord_eq {m m' : Mem} (h : SameButCheck m m') {i : ℕ} (hi : i ≠ 5) :
    netWord m' i = netWord m i := by
  unfold netWord
  rw [h (2 * i) (by omega) (by omega), h (2 * i + 1) (by omega) (by omega)]

/-! ### The sum -/

theorem toNat_sumWords (order : ByteOrder) (m : Mem) (sum32 : UInt32) (n : ℕ) :
    (sumWords order m sum32 n).toNat =
      (sum32.toNat + ((List.range n).map (netWord m)).sum) % 2 ^ 32 := by
  induction n with
  | zero =>
    have hsum := sum32.toNat_lt
    show sum32.toNat = (sum32.toNat + 0) % 2 ^ 32
    omega
  | succ n ih =>
    have hstep : sumWords order m sum32 (n + 1) =
        sumWords order m sum32 n + (ntohs order (load16 order m (2 * n))).toUInt32 := by
      simp only [sumWords, List.range_succ, List.foldl_append, List.foldl_cons, List.foldl_nil]
    rw [hstep, UInt32.toNat_add, ih, UInt16.toNat_toUInt32, toNat_ntohs_load16, List.range_succ,
      List.map_append, List.sum_append]
    show _ = (_ + (_ + (netWord m n + 0))) % 2 ^ 32
    omega

theorem headerWords_sum {m : Mem} (hm : 5 ≤ ihl m) :
    (headerWords m).sum = netWord m 5 + otherSum m := by
  have hmem : 5 ∈ Finset.range (2 * ihl m) := Finset.mem_range.mpr (by omega)
  exact (Finset.add_sum_erase _ (netWord m) hmem).symm

theorem otherSum_lt (m : Mem) : otherSum m < 2 ^ 21 := by
  have hihl : ihl m ≤ 15 := by
    unfold ihl
    omega
  have hcard : ((Finset.range (2 * ihl m)).erase 5).card ≤ 30 := by
    apply (Finset.card_le_card (Finset.erase_subset _ _)).trans
    rw [Finset.card_range]
    omega
  have hsum : otherSum m ≤ ((Finset.range (2 * ihl m)).erase 5).card * 65535 :=
    Finset.sum_le_card_nsmul _ (netWord m) 65535 fun i _ => Nat.le_of_lt_succ (netWord_lt m i)
  omega

theorem SameButCheck.otherSum_eq {m m' : Mem} (h : SameButCheck m m') :
    otherSum m' = otherSum m := by
  unfold otherSum
  rw [h.ihl_eq]
  exact Finset.sum_congr rfl fun i hi => h.netWord_eq (Finset.ne_of_mem_erase hi)

/-- Starting from the inverse of the old checksum cancels it, wrap-around included. -/
theorem toNat_sumWords_header (order : ByteOrder) {m : Mem} (hm : 5 ≤ ihl m) :
    (sumWords order m (-(ntohs order (load16 order m CHECK_OFFSET)).toUInt32)
      (2 * ihl m)).toNat = otherSum m := by
  have hcheck : (ntohs order (load16 order m CHECK_OFFSET)).toNat = netWord m 5 :=
    toNat_ntohs_load16 order m 5
  have hstart : (-(ntohs order (load16 order m CHECK_OFFSET)).toUInt32).toNat =
      (2 ^ 32 - netWord m 5) % 2 ^ 32 := by
    rw [UInt32.toNat_neg, UInt16.toNat_toUInt32, hcheck]
    rfl
  have hword := netWord_lt m 5
  have hother := otherSum_lt m
  rw [toNat_sumWords, hstart]
  show (_ + (headerWords m).sum) % 2 ^ 32 = otherSum m
  rw [headerWords_sum hm]
  omega

/-! ### The carries -/

/-- The sum after the loop, which never takes more than two rounds. -/
def folded (s : ℕ) : ℕ := carryStep (carryStep s)

theorem folded_eq {s : ℕ} (hs : s < 2 ^ 16) : folded s = s := by
  have hone : carryStep s = s := by
    unfold carryStep
    omega
  rw [folded, hone, hone]

theorem toNat_carry (x : UInt32) :
    (((x >>> (16 : UInt32)) &&& (0xffff : UInt32)) + (x &&& (0xffff : UInt32))).toNat =
      carryStep x.toNat := by
  have hx := x.toNat_lt
  have hlow : (x &&& (0xffff : UInt32)).toNat = x.toNat % 2 ^ 16 := by
    rw [UInt32.toNat_and]
    exact Nat.and_two_pow_sub_one_eq_mod x.toNat 16
  have hhigh : ((x >>> (16 : UInt32)) &&& (0xffff : UInt32)).toNat = x.toNat / 2 ^ 16 := by
    rw [UInt32.toNat_and, UInt32.toNat_shiftRight]
    show x.toNat >>> 16 &&& (2 ^ 16 - 1) = x.toNat / 2 ^ 16
    rw [Nat.and_two_pow_sub_one_eq_mod, Nat.shiftRight_eq_div_pow]
    omega
  rw [UInt32.toNat_add, hlow, hhigh]
  unfold carryStep
  omega

theorem and_high_half (n : ℕ) :
    n &&& (2 ^ 16 - 1) <<< 16 = (n / 2 ^ 16 % 2 ^ 16) <<< 16 := by
  apply Nat.eq_of_testBit_eq
  intro i
  rw [Nat.testBit_and, Nat.testBit_shiftLeft, Nat.testBit_shiftLeft, Nat.testBit_mod_two_pow,
    Nat.testBit_div_two_pow, Nat.testBit_two_pow_sub_one]
  by_cases hi : 16 ≤ i
  · simp [hi, Bool.and_comm]
  · simp [hi]

/-- The loop's condition. -/
theorem upper_bits (x : UInt32) : x &&& (0xffff0000 : UInt32) ≠ 0 ↔ 2 ^ 16 ≤ x.toNat := by
  have hx := x.toNat_lt
  have hhigh : (x &&& (0xffff0000 : UInt32)).toNat = x.toNat / 2 ^ 16 * 2 ^ 16 := by
    rw [UInt32.toNat_and]
    show x.toNat &&& (2 ^ 16 - 1) <<< 16 = _
    rw [and_high_half, Nat.shiftLeft_eq]
    omega
  rw [Ne, ← UInt32.toNat_inj, hhigh]
  show ¬ (_ = 0) ↔ _
  omega

theorem foldCarries_stop {x : UInt32} (hx : x.toNat < 2 ^ 16) (fuel : ℕ) :
    foldCarries (fuel + 1) x = some x :=
  if_neg fun h => absurd ((upper_bits x).mp h) (by omega)

theorem foldCarries_go {x : UInt32} (hx : 2 ^ 16 ≤ x.toNat) (fuel : ℕ) :
    foldCarries (fuel + 1) x = foldCarries fuel
      (((x >>> (16 : UInt32)) &&& (0xffff : UInt32)) + (x &&& (0xffff : UInt32))) :=
  if_pos ((upper_bits x).mpr hx)

/-- Three tests of the condition are always enough. -/
theorem foldCarries_eq {fuel : ℕ} (hfuel : 3 ≤ fuel) (x : UInt32) :
    ∃ y : UInt32, foldCarries fuel x = some y ∧ y.toNat = folded x.toNat := by
  obtain ⟨n, rfl⟩ := Nat.exists_eq_add_of_le' hfuel
  rcases Nat.lt_or_ge x.toNat (2 ^ 16) with hx | hx
  · exact ⟨x, foldCarries_stop hx _, (folded_eq hx).symm⟩
  rw [foldCarries_go hx]
  have hcarry := toNat_carry x
  generalize ((x >>> (16 : UInt32)) &&& (0xffff : UInt32)) + (x &&& (0xffff : UInt32)) = y
    at hcarry ⊢
  rcases Nat.lt_or_ge y.toNat (2 ^ 16) with hy | hy
  · refine ⟨y, foldCarries_stop hy _, ?_⟩
    have hone : carryStep y.toNat = y.toNat := by
      unfold carryStep
      omega
    rw [folded, ← hcarry, hone]
  · rw [foldCarries_go hy]
    have hcarry' := toNat_carry y
    rw [hcarry] at hcarry'
    have hlt := carryStep_carryStep_lt x.toNat_lt
    exact ⟨_, foldCarries_stop (hcarry'.trans_lt hlt) _, hcarry'⟩

/-- The checksum that the function computes from the other words. -/
def checkValue (s : ℕ) : ℕ := 65535 - folded s

/-- What the call leaves and returns, in terms of the other words alone. -/
theorem hashpipePacketIphdrChecksum_eq (order : ByteOrder) {fuel : ℕ} (hfuel : 3 ≤ fuel)
    {m : Mem} (hm : 5 ≤ ihl m) :
    hashpipePacketIphdrChecksum order fuel m =
      some (store16 order m CHECK_OFFSET (UInt16.ofNat (checkValue (otherSum m))),
        UInt16.ofNat (checkValue (otherSum m))) := by
  obtain ⟨y, hy, hval⟩ := foldCarries_eq hfuel (sumWords order m
    (-(ntohs order (load16 order m CHECK_OFFSET)).toUInt32) (2 * ihl m))
  rw [toNat_sumWords_header order hm] at hval
  have hlt : y.toNat < 2 ^ 16 := by
    rw [hval]
    exact carryStep_carryStep_lt ((otherSum_lt m).trans (by decide))
  have hcheck : ~~~(y &&& (0xffff : UInt32)).toUInt16 =
      UInt16.ofNat (checkValue (otherSum m)) := by
    have hlow : (y &&& (0xffff : UInt32)).toNat = y.toNat % 2 ^ 16 := by
      rw [UInt32.toNat_and]
      exact Nat.and_two_pow_sub_one_eq_mod y.toNat 16
    apply UInt16.toNat_inj.mp
    rw [UInt16.toNat_not, UInt32.toNat_toUInt16, hlow]
    show 65536 - 1 - y.toNat % 2 ^ 16 % 2 ^ 16 = checkValue (otherSum m) % 2 ^ 16
    rw [checkValue, ← hval]
    omega
  simp only [hashpipePacketIphdrChecksum, hy, Option.map_some, hcheck]

/-! ### What a receiver sees -/

/-- The call on the header `m` returns, with `check`, and leaves `m'`. -/
def Returns (order : ByteOrder) (m m' : Mem) (check : UInt16) : Prop :=
  ∃ enough, ∀ fuel, enough ≤ fuel → hashpipePacketIphdrChecksum order fuel m = some (m', check)

/-- What `hashpipe_packet_iphdr_checksum` is for. -/
structure ChecksumCorrect (order : ByteOrder) (m m' : Mem) (check : UInt16) : Prop where
  returns : Returns order m m' check
  valid : onesSum (headerWords m') = 0xffff
  independent : ∀ old, SameButCheck m old → Returns order old m' check
  again : Returns order m' m' check
  frame : SameButCheck m m'

theorem Returns.unique {order : ByteOrder} {m m₁ m₂ : Mem} {c₁ c₂ : UInt16}
    (h₁ : Returns order m m₁ c₁) (h₂ : Returns order m m₂ c₂) : m₁ = m₂ ∧ c₁ = c₂ := by
  obtain ⟨n₁, h₁⟩ := h₁
  obtain ⟨n₂, h₂⟩ := h₂
  have heq := (h₁ (max n₁ n₂) (le_max_left ..)).symm.trans (h₂ (max n₁ n₂) (le_max_right ..))
  rw [Option.some.injEq, Prod.mk.injEq] at heq
  exact heq

theorem returns_check (order : ByteOrder) {m : Mem} (hm : 5 ≤ ihl m) :
    Returns order m (store16 order m CHECK_OFFSET (UInt16.ofNat (checkValue (otherSum m))))
      (UInt16.ofNat (checkValue (otherSum m))) :=
  ⟨3, fun _ hfuel => hashpipePacketIphdrChecksum_eq order hfuel hm⟩

theorem sameButCheck_store16 (order : ByteOrder) (m : Mem) (v : UInt16) :
    SameButCheck m (store16 order m CHECK_OFFSET v) :=
  fun _ ha ha' => store16_outside order m v ha ha'

/-- All that is asked but validity holds on either kind of host. -/
theorem returns_of_sameButCheck (order : ByteOrder) {m old : Mem} (hm : 5 ≤ ihl m)
    (h : SameButCheck m old) :
    Returns order old (store16 order m CHECK_OFFSET (UInt16.ofNat (checkValue (otherSum m))))
      (UInt16.ofNat (checkValue (otherSum m))) := by
  have hold := returns_check order (h.ihl_eq.symm ▸ hm)
  rw [h.otherSum_eq, store16_congr order _ h] at hold
  exact hold

/-- The stored checksum makes the sum right exactly when the byte order does not matter to it. -/
theorem valid_iff (order : ByteOrder) {m : Mem} (hm : 5 ≤ ihl m) :
    onesSum (headerWords
        (store16 order m CHECK_OFFSET (UInt16.ofNat (checkValue (otherSum m))))) = 0xffff ↔
      order = .big ∨ otherSum m % 257 = 0 := by
  have hsame := sameButCheck_store16 order m (UInt16.ofNat (checkValue (otherSum m)))
  rw [onesSum_eq_ones_iff (headerWords_lt _), headerWords_sum (hsame.ihl_eq.symm ▸ hm),
    hsame.otherSum_eq, netWord_store16]
  have hlt : folded (otherSum m) < 2 ^ 16 :=
    carryStep_carryStep_lt ((otherSum_lt m).trans (by decide))
  have hmod : folded (otherSum m) % 65535 = otherSum m % 65535 :=
    (carryStep_modEq _).trans (carryStep_modEq _)
  have hzero : folded (otherSum m) = 0 ↔ otherSum m = 0 :=
    carryStep_eq_zero.trans carryStep_eq_zero
  have hcheck : (UInt16.ofNat (checkValue (otherSum m))).toNat = 65535 - folded (otherSum m) := by
    show checkValue (otherSum m) % 2 ^ 16 = _
    unfold checkValue
    omega
  generalize otherSum m = s at *
  cases order with
  | big =>
    rw [wireValue, hcheck]
    simp only [true_or, iff_true]
    omega
  | little =>
    rw [wireValue, hcheck]
    simp only [reduceCtorEq, false_or]
    have hswap := swapBytes_modEq (65535 - folded s)
    unfold Nat.ModEq at hswap
    have hval : swapBytes (65535 - folded s) = 0 ↔ folded s = 65535 := by
      unfold swapBytes
      omega
    omega

/-- For a header of any length a call does all it is to do exactly when the host is big-endian
or the words without the checksum sum to a multiple of 257. -/
theorem checksumCorrect_iff (order : ByteOrder) (m : Mem) (hm : 5 ≤ ihl m) :
    (∃ m' check, ChecksumCorrect order m m' check) ↔
      order = .big ∨ otherSum m % 257 = 0 := by
  have hreturns := returns_check order hm
  constructor
  · rintro ⟨m', check, h⟩
    obtain ⟨rfl, rfl⟩ := h.returns.unique hreturns
    exact (valid_iff order hm).mp h.valid
  · intro h
    have hsame := sameButCheck_store16 order m (UInt16.ofNat (checkValue (otherSum m)))
    exact ⟨_, _, {
      returns := hreturns
      valid := (valid_iff order hm).mpr h
      independent := fun _ hold => returns_of_sameButCheck order hm hold
      again := returns_of_sameButCheck order hm hsame
      frame := hsame }⟩

/-- On a little-endian host the header from 192.168.2.1 to 192.168.2.211 comes out valid. -/
theorem checksumCorrect_init : ∃ m' check, ChecksumCorrect .little
    (hashpipePacketIphdrInit .little (fun _ => 0) 0xc0a80201 0xc0a802d3) m' check :=
  (checksumCorrect_iff .little
    (hashpipePacketIphdrInit .little (fun _ => 0) 0xc0a80201 0xc0a802d3) (by decide)).mpr
    (Or.inr (by decide))

/-- The header from 192.168.2.1 to 192.168.2.2 does not. -/
theorem checksum_init_invalid : ¬ ∀ (order : ByteOrder) (m : Mem), 5 ≤ ihl m →
    ∃ m' check, ChecksumCorrect order m m' check := by
  intro h
  obtain ⟨m', check, hc⟩ := h .little
    (hashpipePacketIphdrInit .little (fun _ => 0) 0xc0a80201 0xc0a80202) (by decide)
  have hret := returns_check .little
    (show 5 ≤ ihl (hashpipePacketIphdrInit .little (fun _ => 0) 0xc0a80201 0xc0a80202) by decide)
  obtain ⟨rfl, rfl⟩ := hc.returns.unique hret
  have hvalid := (valid_iff .little (by decide)).mp hc.valid
  revert hvalid
  decide

end Hashpipe.Packet
