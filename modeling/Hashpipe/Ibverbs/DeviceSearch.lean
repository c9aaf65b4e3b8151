import Hashpipe.Library.ByteMemory
import Hashpipe.Library.SearchLoop

/-!
# Finding the device of an interface

`hashpipe_ibv_open_device_for_interface_id` opens the devices one after the other and looks
through the GIDs of their ports for the interface's link-local address.  Each of its three
loops is a search loop, and each tells the next one from where its counter has stopped.

What the calls of the verbs library answer is a parameter.  `retval` counts failed calls; the
model's is a natural number, as it takes 2^31 failures to overflow the `int`.  Words are loaded
as on a little-endian host.  `deviceSearch_correct` is for any answers.
-/

namespace Hashpipe.Ibverbs

open ByteMemory SearchLoop

/-- `struct ibv_device_attr`: the port count and the rest. -/
structure DeviceAttr where
  phys_port_cnt : UInt8
  rest : ℕ
  deriving DecidableEq

/-- What the calls answer; `none` and `false` are failures.  `query_port` gives `gid_tbl_len`. -/
structure DeviceCalls where
  num_devices : ℕ
  open_device : ℕ → Bool
  query_device : ℕ → Option DeviceAttr
  query_port : ℕ → ℕ → Option ℤ
  query_gid : ℕ → ℕ → ℕ → Option Mem
  close_device : ℕ → Bool

inductive DeviceEvent
  | opened (devidx : ℕ)
  | closed (devidx : ℕ)
  deriving DecidableEq

/-- The eight bytes of a 64-bit number, most significant first. -/
def bigEndianBytes (x : UInt64) : List ℕ :=
  (List.range 8).map fun i => x.toNat / 256 ^ (7 - i) % 256

/-- Eight bytes loaded by a little-endian host. -/
def load64 (m : Mem) (a : ℕ) : ℕ :=
  Nat.ofDigits 256 ((List.range 8).map fun i => (m (a + i)).toNat)

def htobe64 (x : UInt64) : ℕ := Nat.ofDigits 256 (bigEndianBytes x)

/-- The comparison with `gid.global`. -/
def gidWanted (interface_id : ℕ) (gid : Mem) : Bool :=
  load64 gid 0 == 0x80fe && load64 gid 8 == interface_id

/-- The body of the loop over a port's GIDs. -/
def gidPass (v : DeviceCalls) (interface_id devidx portidx gididx : ℕ) : Pass DeviceEvent :=
  match v.query_gid devidx portidx gididx with
  | none => ⟨false, 1, []⟩
  | some gid => ⟨gidWanted interface_id gid, 0, []⟩

/-- The body of the loop over a device's ports. -/
def portPass (v : DeviceCalls) (interface_id devidx portidx : ℕ) : Pass DeviceEvent :=
  match v.query_port devidx portidx with
  | none => ⟨false, 1, []⟩
  | some gid_tbl_len =>
    let gids := searchLoop (gidPass v interface_id devidx portidx) gid_tbl_len.toNat 0
    ⟨decide ((gids.idx : ℤ) < gid_tbl_len), gids.failures, []⟩

/-- The loop over a device's ports, which are numbered from 1 on. -/
def portLoop (v : DeviceCalls) (interface_id devidx : ℕ) (attr : DeviceAttr) : Stop DeviceEvent :=
  searchLoop (portPass v interface_id devidx) attr.phys_port_cnt.toNat 1

/-- The body of the loop over the devices. -/
def devicePass (v : DeviceCalls) (interface_id devidx : ℕ) : Pass DeviceEvent :=
  if v.open_device devidx then
    match v.query_device devidx with
    | none => ⟨false, 1, [.opened devidx, .closed devidx]⟩
    | some attr =>
      let ports := portLoop v interface_id devidx attr
      if ports.idx ≤ attr.phys_port_cnt.toNat then ⟨true, ports.failures, [.opened devidx]⟩
      else ⟨false, ports.failures + (if v.close_device devidx then 0 else 1),
        [.opened devidx, .closed devidx]⟩
  else ⟨false, 1, []⟩

/-- What a call returns, what it stores through its pointers (`none` for nothing) and which
devices it has opened and closed. -/
structure DeviceFound where
  retval : ℕ
  found_ctx : Option ℕ
  found_dev_attr : Option DeviceAttr
  found_port : Option ℕ
  log : List DeviceEvent

/-- Which of the pointers are given. -/
structure WantedOutputs where
  found_ctx : Bool
  found_dev_attr : Bool
  found_port : Bool

/-- `hashpipe_ibv_open_device_for_interface_id`, once the device list has been got. -/
def hashpipeIbvOpenDeviceForInterfaceId (v : DeviceCalls) (interface_id : UInt64)
    (out : WantedOutputs) : DeviceFound :=
  if v.num_devices = 0 then ⟨2, none, none, none, []⟩
  else
    let interface_id := htobe64 interface_id
    let devices := searchLoop (devicePass v interface_id) v.num_devices 0
    if devices.idx < v.num_devices then
      -- the attributes and the port are those of the loop's last pass
      let attr := v.query_device devices.idx
      let port := attr.map fun attr => (portLoop v interface_id devices.idx attr).idx
      { retval := 0
        found_ctx := if out.found_ctx then some devices.idx else none
        found_dev_attr := if out.found_dev_attr then attr else none
        found_port := if out.found_port then port else none
        log := if out.found_ctx then devices.log else devices.log ++ [.closed devices.idx] }
    else ⟨1 + devices.failures, none, none, none, devices.log⟩

/-! ### What is looked for -/

/-- `fe80::` followed by the interface id. -/
def LinkLocal (interface_id : UInt64) (gid : Mem) : Prop :=
  (List.range 8).map (fun i => (gid i).toNat) = [0xfe, 0x80, 0, 0, 0, 0, 0, 0] ∧
    (List.range 8).map (fun i => (gid (8 + i)).toNat) = bigEndianBytes interface_id

/-- The port can be queried and has the address in a GID that can be. -/
def PortHas (v : DeviceCalls) (interface_id : UInt64) (devidx portidx : ℕ) : Prop :=
  ∃ (gid_tbl_len : ℤ) (gididx : ℕ) (gid : Mem), v.query_port devidx portidx = some gid_tbl_len ∧
    (gididx : ℤ) < gid_tbl_len ∧ v.query_gid devidx portidx gididx = some gid ∧
      LinkLocal interface_id gid

/-- The device can be opened and queried and has such a port. -/
def DeviceHas (v : DeviceCalls) (interface_id : UInt64) (devidx : ℕ) : Prop :=
  v.open_device devidx = true ∧ ∃ attr portidx, v.query_device devidx = some attr ∧
    1 ≤ portidx ∧ portidx ≤ attr.phys_port_cnt.toNat ∧ PortHas v interface_id devidx portidx

/-- Every call of a search through all devices succeeds. -/
def NoCallFails (v : DeviceCalls) : Prop :=
  ∀ devidx < v.num_devices, v.open_device devidx = true ∧ v.close_device devidx = true ∧
    ∃ attr, v.query_device devidx = some attr ∧
      ∀ portidx, 1 ≤ portidx → portidx ≤ attr.phys_port_cnt.toNat →
        ∃ gid_tbl_len, v.query_port devidx portidx = some gid_tbl_len ∧
          ∀ gididx : ℕ, (gididx : ℤ) < gid_tbl_len → v.query_gid devidx portidx gididx ≠ none

/-- The first device in the order of the list, and its first port. -/
structure FirstFound (v : DeviceCalls) (interface_id : UInt64) (devidx portidx : ℕ)
    (attr : DeviceAttr) : Prop where
  lt : devidx < v.num_devices
  opens : v.open_device devidx = true
  queried : v.query_device devidx = some attr
  port_pos : 1 ≤ portidx
  port_le : portidx ≤ attr.phys_port_cnt.toNat
  has : PortHas v interface_id devidx portidx
  first_device : ∀ d < devidx, ¬ DeviceHas v interface_id d
  first_port : ∀ p, 1 ≤ p → p < portidx → ¬ PortHas v interface_id devidx p

/-- What a call is to return, to store and to leave open. -/
structure SearchCorrect (v : DeviceCalls) (interface_id : UInt64) (out : WantedOutputs)
    (r : DeviceFound) : Prop where
  zero_iff : r.retval = 0 ↔ ∃ devidx < v.num_devices, DeviceHas v interface_id devidx
  found : r.retval = 0 → ∃ devidx portidx attr, FirstFound v interface_id devidx portidx attr ∧
    r.found_ctx = (if out.found_ctx then some devidx else none) ∧
    r.found_dev_attr = (if out.found_dev_attr then some attr else none) ∧
    r.found_port = (if out.found_port then some portidx else none) ∧
    r.log.count (.opened devidx) = 1 ∧
    r.log.count (.closed devidx) = (if out.found_ctx then 0 else 1) ∧
    ∀ d ≠ devidx, r.log.count (.opened d) ≤ 1 ∧
      r.log.count (.closed d) = r.log.count (.opened d)
  notFound : r.retval ≠ 0 → r.found_ctx = none ∧ r.found_dev_attr = none ∧ r.found_port = none ∧
    (∀ d, r.log.count (.opened d) ≤ 1 ∧ r.log.count (.closed d) = r.log.count (.opened d)) ∧
    (r.retval = 1 ↔ NoCallFails v)

/-! ### The passes -/

section Passes

variable {v : DeviceCalls} {interface_id : UInt64}

/-- Two words of eight bytes are equal only byte by byte. -/
theorem ofDigits_eq_iff {a b : List ℕ} (hlen : a.length = b.length) (ha : ∀ d ∈ a, d < 256)
    (hb : ∀ d ∈ b, d < 256) : Nat.ofDigits 256 a = Nat.ofDigits 256 b ↔ a = b :=
  ⟨Nat.ofDigits_inj_of_len_eq (by norm_num) hlen ha hb, fun h => h ▸ rfl⟩

theorem loadedBytes_lt (m : Mem) (a : ℕ) :
    ∀ d ∈ (List.range 8).map (fun i => (m (a + i)).toNat), d < 256 := by
  intro d hd
  obtain ⟨i, -, rfl⟩ := List.mem_map.mp hd
  exact (m (a + i)).toNat_lt

theorem bigEndianBytes_lt (x : UInt64) : ∀ d ∈ bigEndianBytes x, d < 256 := by
  intro d hd
  obtain ⟨i, -, rfl⟩ := List.mem_map.mp hd
  exact Nat.mod_lt _ (by norm_num)

/-- The prefix as a little-endian host loads it. -/
theorem linkLocal_prefix : Nat.ofDigits 256 [0xfe, 0x80, 0, 0, 0, 0, 0, 0] = 0x80fe := by decide

theorem gidWanted_iff (gid : Mem) :
    gidWanted (htobe64 interface_id) gid = true ↔ LinkLocal interface_id gid := by
  rw [gidWanted, Bool.and_eq_true, beq_iff_eq, beq_iff_eq, ← linkLocal_prefix]
  have hprefix : ∀ d ∈ [0xfe, 0x80, 0, 0, 0, 0, 0, 0], d < 256 := by decide
  have hlen : (bigEndianBytes interface_id).length = 8 := by simp [bigEndianBytes]
  unfold load64 htobe64 LinkLocal
  rw [ofDigits_eq_iff (by simp) (loadedBytes_lt gid 0) hprefix,
    ofDigits_eq_iff (by simp [hlen]) (loadedBytes_lt gid 8) (bigEndianBytes_lt interface_id)]
  simp only [Nat.zero_add]

theorem gidPass_found_iff {devidx portidx gididx : ℕ} :
    (gidPass v (htobe64 interface_id) devidx portidx gididx).found = true ↔
      ∃ gid, v.query_gid devidx portidx gididx = some gid ∧ LinkLocal interface_id gid := by
  unfold gidPass
  cases v.query_gid devidx portidx gididx with
  | none => simp
  | some gid => simp [gidWanted_iff]

theorem gidPass_failures_iff {devidx portidx gididx : ℕ} :
    (gidPass v (htobe64 interface_id) devidx portidx gididx).failures = 0 ↔
      v.query_gid devidx portidx gididx ≠ none := by
  unfold gidPass
  cases v.query_gid devidx portidx gididx with
  | none => simp
  | some gid => simp

theorem portPass_found_iff {devidx portidx : ℕ} :
    (portPass v (htobe64 interface_id) devidx portidx).found = true ↔
      PortHas v interface_id devidx portidx := by
  unfold portPass PortHas
  cases v.query_port devidx portidx with
  | none => simp
  | some len =>
    have hstop : ((searchLoop (gidPass v (htobe64 interface_id) devidx portidx) len.toNat 0).idx : ℤ)
        < len ↔ (searchLoop (gidPass v (htobe64 interface_id) devidx portidx) len.toNat 0).idx <
          0 + len.toNat := by omega
    simp only [decide_eq_true_eq, hstop, searchLoop_lt_iff, gidPass_found_iff]
    constructor
    · rintro ⟨gididx, -, hlt, gid, hgid, hlink⟩
      exact ⟨len, gididx, gid, rfl, by omega, hgid, hlink⟩
    · rintro ⟨len', gididx, gid, heq, hlt, hgid, hlink⟩
      obtain rfl := Option.some.inj heq
      exact ⟨gididx, Nat.zero_le _, by omega, gid, hgid, hlink⟩

/-- A port without the address adds no failure exactly if it and all its GIDs are queried. -/
theorem portPass_failures_iff {devidx portidx : ℕ}
    (hnot : (portPass v (htobe64 interface_id) devidx portidx).found = false) :
    (portPass v (htobe64 interface_id) devidx portidx).failures = 0 ↔
      ∃ gid_tbl_len, v.query_port devidx portidx = some gid_tbl_len ∧
        ∀ gididx : ℕ, (gididx : ℤ) < gid_tbl_len → v.query_gid devidx portidx gididx ≠ none := by
  unfold portPass at hnot ⊢
  cases hquery : v.query_port devidx portidx with
  | none => simp
  | some len =>
    simp only [hquery] at hnot
    have hnone : ∀ j, 0 ≤ j → j < 0 + len.toNat →
        (gidPass v (htobe64 interface_id) devidx portidx j).found = false := by
      intro j _ hj
      by_contra hfound
      have hlt := searchLoop_lt_iff.mpr ⟨j, Nat.zero_le _, hj, Bool.eq_true_of_not_eq_false hfound⟩
      have hge := of_decide_eq_false hnot
      omega
    simp only [searchLoop_failures_zero hnone, gidPass_failures_iff, Option.some.injEq,
      exists_eq_left']
    constructor
    · intro h gididx hlt
      exact h gididx (Nat.zero_le _) (by omega)
    · intro h j _ hj
      exact h j (by omega)

/-- Where the loop over the ports stops. -/
theorem portLoop_le_iff {devidx : ℕ} {attr : DeviceAttr} :
    (portLoop v (htobe64 interface_id) devidx attr).idx ≤ attr.phys_port_cnt.toNat ↔
      ∃ portidx, 1 ≤ portidx ∧ portidx ≤ attr.phys_port_cnt.toNat ∧
        PortHas v interface_id devidx portidx := by
  have hstop : (portLoop v (htobe64 interface_id) devidx attr).idx ≤ attr.phys_port_cnt.toNat ↔
      (portLoop v (htobe64 interface_id) devidx attr).idx < 1 + attr.phys_port_cnt.toNat := by omega
  rw [hstop, portLoop, searchLoop_lt_iff]
  simp only [portPass_found_iff]
  constructor
  · rintro ⟨j, hj, hlt, hhas⟩
    exact ⟨j, hj, by omega, hhas⟩
  · rintro ⟨j, hj, hle, hhas⟩
    exact ⟨j, hj, by omega, hhas⟩

theorem devicePass_found_iff {devidx : ℕ} :
    (devicePass v (htobe64 interface_id) devidx).found = true ↔
      DeviceHas v interface_id devidx := by
  unfold devicePass DeviceHas
  cases v.open_device devidx with
  | false => simp
  | true =>
    cases v.query_device devidx with
    | none => simp
    | some attr =>
      simp only [if_true, true_and, Option.some.injEq, exists_and_left, exists_eq_left',
        ← portLoop_le_iff]
      split
      case isTrue h => simp [h]
      case isFalse h => simp [h]

/-- A device without the address adds no failure exactly if every call on it succeeds. -/
theorem devicePass_failures_iff {devidx : ℕ}
    (hnot : (devicePass v (htobe64 interface_id) devidx).found = false) :
    (devicePass v (htobe64 interface_id) devidx).failures = 0 ↔
      v.open_device devidx = true ∧ v.close_device devidx = true ∧
        ∃ attr, v.query_device devidx = some attr ∧
          ∀ portidx, 1 ≤ portidx → portidx ≤ attr.phys_port_cnt.toNat →
            ∃ gid_tbl_len, v.query_port devidx portidx = some gid_tbl_len ∧
              ∀ gididx : ℕ, (gididx : ℤ) < gid_tbl_len →
                v.query_gid devidx portidx gididx ≠ none := by
  unfold devicePass at hnot ⊢
  cases hopen : v.open_device devidx with
  | false => simp
  | true =>
    cases hquery : v.query_device devidx with
    | none => simp
    | some attr =>
      simp only [hopen, hquery, if_true] at hnot ⊢
      split at hnot
      case isTrue => cases hnot
      case isFalse hgt =>
        have hnone : ∀ j, 1 ≤ j → j < 1 + attr.phys_port_cnt.toNat →
            (portPass v (htobe64 interface_id) devidx j).found = false := by
          intro j hj hlt
          by_contra hfound
          exact hgt (portLoop_le_iff.mpr ⟨j, hj, by omega,
            portPass_found_iff.mp (Bool.eq_true_of_not_eq_false hfound)⟩)
        have hports := searchLoop_failures_zero hnone
        rw [if_neg hgt]
        simp only [Nat.add_eq_zero_iff, true_and, Option.some.injEq, exists_eq_left']
        have hclose : (if v.close_device devidx = true then 0 else 1) = 0 ↔
            v.close_device devidx = true := by
          split
          case isTrue h => simp [h]
          case isFalse h => simp [h]
        rw [hclose, portLoop, hports, and_comm]
        refine and_congr_right fun _ => ?_
        constructor
        · intro h p hp hle
          exact (portPass_failures_iff (hnone p hp (by omega))).mp (h p hp (by omega))
        · intro h p hp hlt
          exact (portPass_failures_iff (hnone p hp hlt)).mpr (h p hp (by omega))

/-- What a pass logs: its device opened, and closed again unless the search ends there. -/
theorem devicePass_log (v : DeviceCalls) (interface_id devidx : ℕ) :
    (devicePass v interface_id devidx).log =
      if v.open_device devidx then
        if (devicePass v interface_id devidx).found then [.opened devidx]
        else [.opened devidx, .closed devidx]
      else [] := by
  unfold devicePass
  cases v.open_device devidx with
  | false => rfl
  | true =>
    cases v.query_device devidx with
    | none => rfl
    | some attr =>
      simp only [if_true]
      split
      · rfl
      · rfl

theorem devicePass_log_other {interface_id devidx d : ℕ} (hne : devidx ≠ d) :
    (devicePass v interface_id devidx).log.count (.opened d) = 0 ∧
      (devicePass v interface_id devidx).log.count (.closed d) = 0 := by
  rw [devicePass_log]
  split
  · split
    · simp [hne]
    · simp [hne]
  · simp

theorem devicePass_log_self (interface_id d : ℕ) :
    (devicePass v interface_id d).log.count (.opened d) = (if v.open_device d then 1 else 0) ∧
      (devicePass v interface_id d).log.count (.closed d) =
        if (devicePass v interface_id d).found then 0
        else (devicePass v interface_id d).log.count (.opened d) := by
  rw [devicePass_log]
  cases v.open_device d with
  | false => simp
  | true =>
    cases (devicePass v interface_id d).found with
    | false => simp
    | true => simp

end Passes

/-! ### The search -/

section Search

variable (v : DeviceCalls) (interface_id : UInt64)

/-- The loop over the devices. -/
def deviceLoop : Stop DeviceEvent :=
  searchLoop (devicePass v (htobe64 interface_id)) v.num_devices 0

theorem deviceLoop_opened (d : ℕ) :
    (deviceLoop v interface_id).log.count (.opened d) =
      if d ≤ (deviceLoop v interface_id).idx ∧ d < v.num_devices ∧ v.open_device d then 1
      else 0 := by
  have hcount := @searchLoop_count _ (devicePass v (htobe64 interface_id)) _ (.opened d) d
    v.num_devices 0 fun j hj => (devicePass_log_other hj).1
  rw [deviceLoop, hcount, (devicePass_log_self _ d).1]
  simp only [Nat.zero_le, true_and, Nat.zero_add]
  by_cases hin : d ≤ (searchLoop (devicePass v (htobe64 interface_id)) v.num_devices 0).idx ∧
      d < v.num_devices
  · simp only [hin.1, hin.2, true_and, and_self, if_true]
  · rw [if_neg hin, if_neg fun h => hin ⟨h.1, h.2.1⟩]

/-- A device is closed as often as it is opened, the one where the search ends apart. -/
theorem deviceLoop_closed (d : ℕ) :
    (deviceLoop v interface_id).log.count (.closed d) =
      if d = (deviceLoop v interface_id).idx ∧ d < v.num_devices then 0
      else (deviceLoop v interface_id).log.count (.opened d) := by
  have hcount := @searchLoop_count _ (devicePass v (htobe64 interface_id)) _ (.closed d) d
    v.num_devices 0 fun j hj => (devicePass_log_other hj).2
  have hopened := @searchLoop_count _ (devicePass v (htobe64 interface_id)) _ (.opened d) d
    v.num_devices 0 fun j hj => (devicePass_log_other hj).1
  obtain ⟨-, -, hbefore, hat⟩ :=
    @searchLoop_stops _ (devicePass v (htobe64 interface_id)) v.num_devices 0
  rw [deviceLoop, hcount, hopened, (devicePass_log_self _ d).2]
  by_cases hend : d = (searchLoop (devicePass v (htobe64 interface_id)) v.num_devices 0).idx ∧
      d < v.num_devices
  · have hfound : (devicePass v (htobe64 interface_id) d).found = true := by
      rw [hend.1]
      exact hat (by omega)
    rw [if_pos hend, hfound]
    simp
  · rw [if_neg hend]
    by_cases hin : 0 ≤ d ∧ d ≤ (searchLoop (devicePass v (htobe64 interface_id))
        v.num_devices 0).idx ∧ d < 0 + v.num_devices
    · rw [if_pos hin, if_pos hin, hbefore d hin.1 (by omega)]
      rfl
    · rw [if_neg hin, if_neg hin]

theorem deviceLoop_lt_iff : (deviceLoop v interface_id).idx < v.num_devices ↔
    ∃ devidx < v.num_devices, DeviceHas v interface_id devidx := by
  have hlt := @searchLoop_lt_iff _ (devicePass v (htobe64 interface_id)) v.num_devices 0
  rw [Nat.zero_add] at hlt
  rw [deviceLoop, hlt]
  simp only [devicePass_found_iff, Nat.zero_le, true_and]

/-- Where the loops have stopped is the first device and its first port. -/
theorem deviceLoop_first (hlt : (deviceLoop v interface_id).idx < v.num_devices) :
    ∃ attr, v.query_device (deviceLoop v interface_id).idx = some attr ∧
      FirstFound v interface_id (deviceLoop v interface_id).idx
        (portLoop v (htobe64 interface_id) (deviceLoop v interface_id).idx attr).idx attr := by
  obtain ⟨-, -, hbefore, hat⟩ :=
    @searchLoop_stops _ (devicePass v (htobe64 interface_id)) v.num_devices 0
  set d := (deviceLoop v interface_id).idx with hd
  obtain ⟨hopen, attr, portidx, hquery, hport, hle, hhas⟩ :=
    devicePass_found_iff.mp (hat (by rw [Nat.zero_add]; exact hlt))
  have hportle := portLoop_le_iff.mpr ⟨portidx, hport, hle, hhas⟩
  obtain ⟨hpos, -, hpbefore, hpat⟩ := @searchLoop_stops _
    (portPass v (htobe64 interface_id) d) attr.phys_port_cnt.toNat 1
  refine ⟨attr, hquery, ⟨hlt, hopen, hquery, hpos, hportle, portPass_found_iff.mp (hpat ?_),
    fun e he hdevice => ?_, fun p hp hplt hphas => ?_⟩⟩
  · change (portLoop v (htobe64 interface_id) d attr).idx < _
    have hstop : (portLoop v (htobe64 interface_id) d attr).idx ≤ attr.phys_port_cnt.toNat :=
      hportle
    omega
  · have hnot := hbefore e (Nat.zero_le _) he
    rw [devicePass_found_iff.mpr hdevice] at hnot
    cases hnot
  · have hnot := hpbefore p hp hplt
    rw [portPass_found_iff.mpr hphas] at hnot
    cases hnot

/-- Without a find the loop adds no failure exactly if no call fails. -/
theorem deviceLoop_failures_iff (hge : ¬ (deviceLoop v interface_id).idx < v.num_devices) :
    (deviceLoop v interface_id).failures = 0 ↔ NoCallFails v := by
  have hnone : ∀ d, 0 ≤ d → d < 0 + v.num_devices →
      (devicePass v (htobe64 interface_id) d).found = false := by
    intro d _ hd
    by_contra hfound
    exact hge ((deviceLoop_lt_iff v interface_id).mpr ⟨d, by omega,
      devicePass_found_iff.mp (Bool.eq_true_of_not_eq_false hfound)⟩)
  rw [deviceLoop, searchLoop_failures_zero hnone]
  constructor
  · intro h d hd
    exact (devicePass_failures_iff (hnone d (Nat.zero_le _) (by omega))).mp
      (h d (Nat.zero_le _) (by omega))
  · intro h d hd hlt
    exact (devicePass_failures_iff (hnone d hd hlt)).mpr (h d (by omega))

variable (out : WantedOutputs)

theorem deviceSearch_found (hlt : (deviceLoop v interface_id).idx < v.num_devices) :
    hashpipeIbvOpenDeviceForInterfaceId v interface_id out =
      { retval := 0
        found_ctx := if out.found_ctx then some (deviceLoop v interface_id).idx else none
        found_dev_attr := if out.found_dev_attr then
          v.query_device (deviceLoop v interface_id).idx else none
        found_port := if out.found_port then
          (v.query_device (deviceLoop v interface_id).idx).map fun attr =>
            (portLoop v (htobe64 interface_id) (deviceLoop v interface_id).idx attr).idx else none
        log := if out.found_ctx then (deviceLoop v interface_id).log
          else (deviceLoop v interface_id).log ++ [.closed (deviceLoop v interface_id).idx] } := by
  have hpos : v.num_devices ≠ 0 := by omega
  rw [hashpipeIbvOpenDeviceForInterfaceId, if_neg hpos]
  exact if_pos hlt

theorem deviceSearch_notFound (hpos : 0 < v.num_devices)
    (hge : ¬ (deviceLoop v interface_id).idx < v.num_devices) :
    hashpipeIbvOpenDeviceForInterfaceId v interface_id out =
      ⟨1 + (deviceLoop v interface_id).failures, none, none, none,
        (deviceLoop v interface_id).log⟩ := by
  rw [hashpipeIbvOpenDeviceForInterfaceId, if_neg (by omega)]
  exact if_neg hge

/-- Closing the device found, when its context is not wanted, is the last thing logged. -/
theorem foundLog_opened (log : List DeviceEvent) (kept : Bool) (d e : ℕ) :
    (if kept then log else log ++ [.closed d]).count (.opened e) = log.count (.opened e) := by
  cases kept with
  | true => rfl
  | false => simp

theorem foundLog_closed (log : List DeviceEvent) (kept : Bool) (d e : ℕ) :
    (if kept then log else log ++ [.closed d]).count (.closed e) =
      log.count (.closed e) + if kept = false ∧ d = e then 1 else 0 := by
  cases kept with
  | true => simp
  | false => simp [List.count_singleton]

end Search

/-- **Device search.**  For every non-empty list of devices and any answers of the calls. -/
theorem deviceSearch_correct (v : DeviceCalls) (hdevices : 0 < v.num_devices)
    (interface_id : UInt64) (out : WantedOutputs) :
    SearchCorrect v interface_id out (hashpipeIbvOpenDeviceForInterfaceId v interface_id out) := by
  have hiff := deviceLoop_lt_iff v interface_id
  have hopened := deviceLoop_opened v interface_id
  have hclosed := deviceLoop_closed v interface_id
  by_cases hlt : (deviceLoop v interface_id).idx < v.num_devices
  · obtain ⟨attr, hquery, hfirst⟩ := deviceLoop_first v interface_id hlt
    rw [deviceSearch_found v interface_id out hlt]
    set d := (deviceLoop v interface_id).idx with hd
    refine ⟨⟨fun _ => hiff.mp hlt, fun _ => rfl⟩, fun _ => ⟨d, _, attr, hfirst, rfl, ?_, ?_, ?_, ?_,
      fun e he => ?_⟩, fun h => absurd rfl h⟩
    · rw [hquery]
    · rw [hquery]
      rfl
    · rw [foundLog_opened, hopened, if_pos ⟨le_rfl, hlt, hfirst.opens⟩]
    · rw [foundLog_closed, hclosed, if_pos ⟨rfl, hlt⟩]
      cases out.found_ctx with
      | true => rfl
      | false => simp
    · have hone : (deviceLoop v interface_id).log.count (.opened e) ≤ 1 := by
        rw [hopened]
        split <;> omega
      rw [foundLog_opened, foundLog_closed, hclosed, if_neg fun h => he h.1,
        if_neg fun h => he h.2.symm]
      exact ⟨hone, rfl⟩
  · rw [deviceSearch_notFound v interface_id out hdevices hlt]
    have hne : 1 + (deviceLoop v interface_id).failures ≠ 0 := by omega
    refine ⟨⟨fun h => absurd h hne, fun h => absurd (hiff.mpr h) hlt⟩, fun h => absurd h hne,
      fun _ => ⟨rfl, rfl, rfl, fun d => ⟨?_, ?_⟩, ?_⟩⟩
    · rw [hopened d]
      split <;> omega
    · rw [hclosed d, if_neg]
      omega
    · rw [← deviceLoop_failures_iff v interface_id hlt]
      dsimp only
      omega

/-- Two devices of one port and one GID each: the first cannot be queried, the second has the
address. -/
def secondDevice : DeviceCalls where
  num_devices := 2
  open_device := fun _ => true
  query_device := fun d => if d = 0 then none else some ⟨1, 0⟩
  query_port := fun _ _ => some 1
  query_gid := fun _ _ _ => some (chars [0xfe, 0x80, 0, 0, 0, 0, 0, 0, 2, 0, 0, 0xff, 0xfe, 0, 0, 1])
  close_device := fun _ => true

theorem secondDevice_search :
    SearchCorrect secondDevice 0x020000fffe000001 ⟨true, true, true⟩
      (hashpipeIbvOpenDeviceForInterfaceId secondDevice 0x020000fffe000001 ⟨true, true, true⟩) :=
  deviceSearch_correct secondDevice (by decide) 0x020000fffe000001 ⟨true, true, true⟩

end Hashpipe.Ibverbs
