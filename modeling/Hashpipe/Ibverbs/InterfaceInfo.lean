import Hashpipe.Ibverbs.DeviceSearch
import Hashpipe.Ibverbs.Flow

/-!
# From the name of an interface to its device

`hashpipe_ibv_get_interface_info` asks the kernel for the MAC address of an interface and makes
the interface id of it, in modified EUI-64 format; `hashpipe_ibv_init` passes the id on to
`hashpipe_ibv_open_device_for_interface_id`, which swaps it back and compares it with the GIDs.
`interface_device` is about the bytes: the device that is opened is the first with a port that
has `fe80::` and the EUI-64 of the address in its GID table, and no other interface has that GID.
-/

namespace Hashpipe.Ibverbs

open ByteMemory

/-- `IFNAMSIZ`. -/
def ifNamSiz : ℕ := 16

def eINVAL : ℕ := 22

/-- What the calls answer: the errno of a failure, or their result.  `close` tells the errno it
leaves. -/
structure NetCalls where
  socket : Except ℕ ℕ
  /-- `SIOCGIFHWADDR` for the interface of this name. -/
  ioctl : List UInt8 → Except ℕ Mac
  close : ℕ → ℕ

/-- What a call returns and leaves: `errno`, the open descriptors, and what it has stored through
its pointers. -/
structure InterfaceInfo where
  retval : ℤ
  errno : ℕ
  fds : Finset ℕ
  mac : Option Mac
  interface_id : Option UInt64

/-- On a little-endian host. -/
def be64toh (x : UInt64) : UInt64 := UInt64.ofNat (htobe64 x)

/-- `buf`: the address with the G/L bit toggled and `ff:fe` in its middle. -/
def euiBuf (mac : Mac) : Mem :=
  chars [mac[0] ^^^ 2, mac[1], mac[2], 0xff, 0xfe, mac[3], mac[4], mac[5]]

def hashpipeIbvGetInterfaceInfo (net : NetCalls) (interface_name : Option CString)
    (wantsMac wantsId : Bool) (errno : ℕ) (fds : Finset ℕ) : InterfaceInfo :=
  match interface_name with
  | none => ⟨1, eINVAL, fds, none, none⟩
  | some interface_name =>
    match net.socket with
    | .error errsv => ⟨2, errsv, fds, none, none⟩
    | .ok fd =>
      -- the name as the kernel sees it in `ifr_name`
      match net.ioctl (interface_name.bytes.take (ifNamSiz - 1)) with
      | .error errsv => ⟨3, errsv, (insert fd fds).erase fd, none, none⟩
      | .ok hwaddr =>
        { retval := 0
          errno := net.close errno
          fds := (insert fd fds).erase fd
          mac := if wantsMac then some hwaddr else none
          interface_id := if wantsId then
            some (be64toh (UInt64.ofNat (load64 (euiBuf hwaddr) 0))) else none }

/-- How `hashpipe_ibv_init` finds its device: `none` if it does not get as far as looking. -/
def openInterface (net : NetCalls) (v : DeviceCalls) (interface_name : CString) (errno : ℕ)
    (fds : Finset ℕ) : InterfaceInfo × Option DeviceFound :=
  let info := hashpipeIbvGetInterfaceInfo net (some interface_name) true true errno fds
  (info, if info.retval ≠ 0 then none
    else info.interface_id.map fun id =>
      hashpipeIbvOpenDeviceForInterfaceId v id ⟨true, true, true⟩)

/-! ### The bytes -/

/-- The link-local address of an interface with the MAC address, as it stands in a GID. -/
def linkLocalGid (mac : Mac) : List UInt8 :=
  [0xfe, 0x80, 0, 0, 0, 0, 0, 0,
    mac[0] ^^^ 2, mac[1], mac[2], 0xff, 0xfe, mac[3], mac[4], mac[5]]

/-- A GID table has the address. -/
def PortHasMac (v : DeviceCalls) (mac : Mac) (devidx portidx : ℕ) : Prop :=
  ∃ (gid_tbl_len : ℤ) (gididx : ℕ) (gid : Mem), v.query_port devidx portidx = some gid_tbl_len ∧
    (gididx : ℤ) < gid_tbl_len ∧ v.query_gid devidx portidx gididx = some gid ∧
      (List.range 16).map gid = linkLocalGid mac

/-- The device can be opened and queried, and some port of it has the address. -/
def DeviceHasMac (v : DeviceCalls) (mac : Mac) (devidx : ℕ) : Prop :=
  v.open_device devidx = true ∧ ∃ attr portidx, v.query_device devidx = some attr ∧
    1 ≤ portidx ∧ portidx ≤ attr.phys_port_cnt.toNat ∧ PortHasMac v mac devidx portidx

section Bytes

/-- A digit of a number, counted from the least. -/
theorem ofDigits_digit {l : List ℕ} (hl : ∀ d ∈ l, d < 256) {i : ℕ} (hi : i < l.length) :
    Nat.ofDigits 256 l / 256 ^ i % 256 = l[i] := by
  rw [Nat.ofDigits_div_pow_eq_ofDigits_drop i (by norm_num) l hl, List.drop_eq_getElem_cons hi,
    Nat.ofDigits_cons, Nat.add_mul_mod_self_left]
  exact Nat.mod_eq_of_lt (hl _ (List.getElem_mem hi))

/-- The bytes of a number of eight digits are the digits in the other order. -/
theorem bigEndianBytes_ofDigits {l : List ℕ} (hlen : l.length = 8) (hl : ∀ d ∈ l, d < 256) :
    bigEndianBytes (UInt64.ofNat (Nat.ofDigits 256 l)) = l.reverse := by
  have hlt : Nat.ofDigits 256 l < 2 ^ 64 := by
    have h := Nat.ofDigits_lt_base_pow_length (by norm_num) hl
    rwa [hlen] at h
  rw [bigEndianBytes, UInt64.toNat_ofNat_of_lt' hlt]
  refine List.ext_getElem (by simp [hlen]) fun i hi hi' => ?_
  have h8 : i < 8 := by simpa using hi
  rw [List.getElem_map, List.getElem_range, List.getElem_reverse, ofDigits_digit hl (by omega)]
  congr 1
  omega

/-- Eight bytes loaded from memory. -/
theorem loaded_length (m : Mem) (a : ℕ) :
    ((List.range 8).map fun i => (m (a + i)).toNat).length = 8 := by
  rw [List.length_map, List.length_range]

/-- **Swapped on load, the bytes of the number are those of the memory**, in their order. -/
theorem bigEndianBytes_be64toh (m : Mem) (a : ℕ) :
    bigEndianBytes (be64toh (UInt64.ofNat (load64 m a))) =
      (List.range 8).map fun i => (m (a + i)).toNat := by
  have hbytes := loadedBytes_lt m a
  have hlen := loaded_length m a
  rw [be64toh, htobe64, load64, bigEndianBytes_ofDigits hlen hbytes,
    bigEndianBytes_ofDigits (by rw [List.length_reverse, hlen])
      fun d hd => hbytes d (List.mem_reverse.mp hd), List.reverse_reverse]

/-- The interface id made of the address stands for the GID made of it. -/
theorem linkLocal_iff (mac : Mac) (gid : Mem) :
    LinkLocal (be64toh (UInt64.ofNat (load64 (euiBuf mac) 0))) gid ↔
      (List.range 16).map gid = linkLocalGid mac := by
  have hbuf : (List.range 8).map (fun i => (euiBuf mac (0 + i)).toNat) =
      [(mac[0] ^^^ 2).toNat, mac[1].toNat, mac[2].toNat, 0xff, 0xfe, mac[3].toNat, mac[4].toNat,
        mac[5].toNat] := rfl
  rw [LinkLocal, bigEndianBytes_be64toh, hbuf]
  simp only [List.range, List.range.loop, List.map_cons, List.map_nil, List.cons.injEq, and_true,
    linkLocalGid, ← UInt8.toNat_inj]
  exact and_assoc.symm.trans (by simp only [and_assoc]; rfl)

theorem portHas_iff (v : DeviceCalls) (mac : Mac) (devidx portidx : ℕ) :
    PortHas v (be64toh (UInt64.ofNat (load64 (euiBuf mac) 0))) devidx portidx ↔
      PortHasMac v mac devidx portidx := by
  simp only [PortHas, PortHasMac, linkLocal_iff]

theorem deviceHas_iff (v : DeviceCalls) (mac : Mac) (devidx : ℕ) :
    DeviceHas v (be64toh (UInt64.ofNat (load64 (euiBuf mac) 0))) devidx ↔
      DeviceHasMac v mac devidx := by
  simp only [DeviceHas, DeviceHasMac, portHas_iff]

/-- Toggling a bit twice. -/
theorem toggled_inj {a b : UInt8} (h : a ^^^ 2 = b ^^^ 2) : a = b := by
  have htwice : ∀ c : UInt8, (c ^^^ 2) ^^^ 2 = c := fun c => by
    rw [UInt8.xor_assoc, UInt8.xor_self, UInt8.xor_zero]
  rw [← htwice a, h, htwice b]

/-- No two addresses have one GID. -/
theorem linkLocalGid_injective : Function.Injective linkLocalGid := by
  intro a b h
  simp only [linkLocalGid, List.cons.injEq, true_and, and_true] at h
  obtain ⟨h0, h1, h2, h3, h4, h5⟩ := h
  refine Vector.ext fun i hi => ?_
  match i, hi with
  | 0, _ => exact toggled_inj h0
  | 1, _ => exact h1
  | 2, _ => exact h2
  | 3, _ => exact h3
  | 4, _ => exact h4
  | 5, _ => exact h5

end Bytes

/-! ### The device -/

section Device

variable {net : NetCalls} {v : DeviceCalls} {interface_name : CString} {errno : ℕ} {fds : Finset ℕ}

/-- The kernel gives the address of the interface. -/
def AddressGiven (net : NetCalls) (interface_name : CString) (mac : Mac) : Prop :=
  (∃ fd, net.socket = .ok fd) ∧
    net.ioctl (interface_name.bytes.take (ifNamSiz - 1)) = .ok mac

/-- The address is stored with its interface id, or nothing is; the socket is closed, and a failure
of `ioctl` keeps its errno. -/
theorem interfaceInfo_outcome (hfresh : ∀ fd, net.socket = .ok fd → fd ∉ fds) :
    ∃ info, hashpipeIbvGetInterfaceInfo net (some interface_name) true true errno fds = info ∧
      info.fds = fds ∧
      ((∃ mac, AddressGiven net interface_name mac ∧ info.retval = 0 ∧ info.mac = some mac ∧
        info.interface_id = some (be64toh (UInt64.ofNat (load64 (euiBuf mac) 0)))) ∨
      ((∀ mac, ¬ AddressGiven net interface_name mac) ∧ info.retval ≠ 0 ∧ info.mac = none ∧
        info.interface_id = none ∧
        ∀ fd e, net.socket = .ok fd →
          net.ioctl (interface_name.bytes.take (ifNamSiz - 1)) = .error e → info.errno = e)) := by
  refine ⟨_, rfl, ?_⟩
  rw [hashpipeIbvGetInterfaceInfo]
  cases hsocket : net.socket with
  | error errsv =>
    refine ⟨rfl, .inr ⟨fun mac hgiven => ?_, by simp, rfl, rfl, fun fd e hfd => by cases hfd⟩⟩
    obtain ⟨fd, hfd⟩ := hgiven.1
    rw [hsocket] at hfd
    cases hfd
  | ok fd =>
    have hclosed : (insert fd fds).erase fd = fds := Finset.erase_insert (hfresh fd hsocket)
    dsimp only
    cases hioctl : net.ioctl (interface_name.bytes.take (ifNamSiz - 1)) with
    | error errsv =>
      refine ⟨hclosed, .inr ⟨fun mac hgiven => ?_, by simp, rfl, rfl, fun _ e _ he => ?_⟩⟩
      · have hmac := hgiven.2
        rw [hioctl] at hmac
        cases hmac
      · cases he
        rfl
    | ok mac => exact ⟨hclosed, .inl ⟨mac, ⟨⟨fd, hsocket⟩, hioctl⟩, rfl, rfl, rfl⟩⟩

/-- What a search for the address is to do: it returns 0 exactly if a device has the address, and
then it has stored the first of them, with its first port, and left that device open. -/
structure OpensFirst (v : DeviceCalls) (mac : Mac) (found : DeviceFound) : Prop where
  zero_iff : found.retval = 0 ↔ ∃ devidx < v.num_devices, DeviceHasMac v mac devidx
  first : found.retval = 0 → ∃ devidx portidx attr, found.found_ctx = some devidx ∧
    found.found_port = some portidx ∧ found.found_dev_attr = some attr ∧
    v.query_device devidx = some attr ∧ PortHasMac v mac devidx portidx ∧
    (∀ d < devidx, ¬ DeviceHasMac v mac d) ∧
    (∀ p, 1 ≤ p → p < portidx → ¬ PortHasMac v mac devidx p) ∧
    found.log.count (.opened devidx) = 1 ∧ found.log.count (.closed devidx) = 0
  nothing : found.retval ≠ 0 → found.found_ctx = none ∧ found.found_dev_attr = none ∧
    found.found_port = none

theorem opensFirst (v : DeviceCalls) (mac : Mac) :
    OpensFirst v mac (hashpipeIbvOpenDeviceForInterfaceId v
      (be64toh (UInt64.ofNat (load64 (euiBuf mac) 0))) ⟨true, true, true⟩) := by
  set id := be64toh (UInt64.ofNat (load64 (euiBuf mac) 0)) with hid
  have hiff := deviceLoop_lt_iff v id
  simp only [hid, deviceHas_iff] at hiff
  rw [← hid] at hiff
  by_cases hlt : (deviceLoop v id).idx < v.num_devices
  · obtain ⟨attr, hquery, hfirst⟩ := deviceLoop_first v id hlt
    have hopened := deviceLoop_opened v id (deviceLoop v id).idx
    have hclosed := deviceLoop_closed v id (deviceLoop v id).idx
    rw [deviceSearch_found v id ⟨true, true, true⟩ hlt]
    refine ⟨⟨fun _ => hiff.mp hlt, fun _ => rfl⟩, fun _ => ⟨_, _, attr, rfl, ?_, ?_, hquery,
      (portHas_iff v mac _ _).mp hfirst.has, fun d hd h => ?_, fun p hp hplt h => ?_, ?_, ?_⟩,
      fun h => absurd rfl h⟩
    · show (v.query_device _).map _ = _
      rw [hquery]
      rfl
    · exact hquery
    · exact hfirst.first_device d hd ((deviceHas_iff v mac d).mpr h)
    · exact hfirst.first_port p hp hplt ((portHas_iff v mac _ p).mpr h)
    · exact hopened.trans (if_pos ⟨le_rfl, hlt, hfirst.opens⟩)
    · exact hclosed.trans (if_pos ⟨rfl, hlt⟩)
  · have hnot : (hashpipeIbvOpenDeviceForInterfaceId v id ⟨true, true, true⟩).retval ≠ 0 ∧
        (hashpipeIbvOpenDeviceForInterfaceId v id ⟨true, true, true⟩).found_ctx = none ∧
        (hashpipeIbvOpenDeviceForInterfaceId v id ⟨true, true, true⟩).found_dev_attr = none ∧
        (hashpipeIbvOpenDeviceForInterfaceId v id ⟨true, true, true⟩).found_port = none := by
      by_cases hzero : v.num_devices = 0
      · rw [hashpipeIbvOpenDeviceForInterfaceId, if_pos hzero]
        exact ⟨by decide, rfl, rfl, rfl⟩
      · rw [deviceSearch_notFound v id ⟨true, true, true⟩ (by omega) hlt]
        exact ⟨Nat.ne_of_gt (Nat.add_pos_left Nat.one_pos _), rfl, rfl, rfl⟩
    exact ⟨⟨fun h => absurd h hnot.1, fun h => absurd (hiff.mpr h) hlt⟩, fun h => absurd h hnot.1,
      fun _ => hnot.2⟩

/-- **The device of an interface.**  For any name and any answers of the calls, the socket is
closed again, and whatever `close` does to errno, that of a failed `ioctl` is kept; if the kernel
gives no address the call fails, stores nothing and nothing is looked for, and otherwise the device
that is opened is the first with a port that has, byte by byte, the link-local address made of the
MAC address, which no other MAC address makes. -/
theorem interface_device (hfresh : ∀ fd, net.socket = .ok fd → fd ∉ fds) :
    (openInterface net v interface_name errno fds).1.fds = fds ∧
      (∀ fd e, net.socket = .ok fd →
        net.ioctl (interface_name.bytes.take (ifNamSiz - 1)) = .error e →
          (openInterface net v interface_name errno fds).1.errno = e) ∧
      ((∀ mac, ¬ AddressGiven net interface_name mac) →
        (openInterface net v interface_name errno fds).1.retval ≠ 0 ∧
        (openInterface net v interface_name errno fds).1.mac = none ∧
        (openInterface net v interface_name errno fds).1.interface_id = none ∧
        (openInterface net v interface_name errno fds).2 = none) ∧
      ∀ mac, AddressGiven net interface_name mac →
        (openInterface net v interface_name errno fds).1.mac = some mac ∧
        (∃ found, (openInterface net v interface_name errno fds).2 = some found ∧
          OpensFirst v mac found) ∧
        ∀ mac' devidx portidx gididx gid, v.query_gid devidx portidx gididx = some gid →
          (List.range 16).map gid = linkLocalGid mac →
          (List.range 16).map gid = linkLocalGid mac' → mac' = mac := by
  obtain ⟨info, hinfo, hfds, houtcome⟩ := @interfaceInfo_outcome net interface_name errno fds hfresh
  rw [openInterface, hinfo]
  refine ⟨hfds, fun fd e hfd hioctl => ?_, fun hnone => ?_, fun mac hgiven => ?_⟩
  · rcases houtcome with ⟨mac, hgiven, -⟩ | ⟨-, -, -, -, herrno⟩
    · have hmac := hgiven.2
      rw [hioctl] at hmac
      cases hmac
    · exact herrno fd e hfd hioctl
  · rcases houtcome with ⟨mac, hgiven, -⟩ | ⟨-, hretval, hmac, hid, -⟩
    · exact absurd hgiven (hnone mac)
    · exact ⟨hretval, hmac, hid, if_pos hretval⟩
  · rcases houtcome with ⟨mac', hgiven', hretval, hmac, hid⟩ | ⟨hnone, -⟩
    · obtain rfl : mac' = mac := by
        have heq := hgiven'.2
        rw [hgiven.2] at heq
        exact (Except.ok.inj heq).symm
      refine ⟨hmac, ⟨_, ?_, opensFirst v mac'⟩, fun mac'' _ _ _ gid _ hgid hgid' => ?_⟩
      · show (if info.retval ≠ 0 then none else _) = _
        rw [if_neg (by simp [hretval]), hid]
        rfl
      · exact linkLocalGid_injective (hgid'.symm.trans hgid)
    · exact absurd hgiven (hnone mac)

end Device

/-- An interface `eth`, and a kernel that knows it. -/
def ethCalls : NetCalls where
  socket := .ok 3
  ioctl := fun name => if name = [101, 116, 104] then .ok #v[0, 0, 0, 0, 0, 1] else .error 19
  close := id

def ethName : CString where
  bytes := [101, 116, 104]
  noNul := forall_mem_of_all (by decide)

theorem interface_device_eth :
    (openInterface ethCalls secondDevice ethName 0 {0, 1, 2}).1.fds = {0, 1, 2} ∧
      (∀ fd e, ethCalls.socket = .ok fd →
        ethCalls.ioctl (ethName.bytes.take (ifNamSiz - 1)) = .error e →
          (openInterface ethCalls secondDevice ethName 0 {0, 1, 2}).1.errno = e) ∧
      ((∀ mac, ¬ AddressGiven ethCalls ethName mac) →
        (openInterface ethCalls secondDevice ethName 0 {0, 1, 2}).1.retval ≠ 0 ∧
        (openInterface ethCalls secondDevice ethName 0 {0, 1, 2}).1.mac = none ∧
        (openInterface ethCalls secondDevice ethName 0 {0, 1, 2}).1.interface_id = none ∧
        (openInterface ethCalls secondDevice ethName 0 {0, 1, 2}).2 = none) ∧
      ∀ mac, AddressGiven ethCalls ethName mac →
        (openInterface ethCalls secondDevice ethName 0 {0, 1, 2}).1.mac = some mac ∧
        (∃ found, (openInterface ethCalls secondDevice ethName 0 {0, 1, 2}).2 = some found ∧
          OpensFirst secondDevice mac found) ∧
        ∀ mac' devidx portidx gididx gid, secondDevice.query_gid devidx portidx gididx = some gid →
          (List.range 16).map gid = linkLocalGid mac →
          (List.range 16).map gid = linkLocalGid mac' → mac' = mac :=
  interface_device fun fd hfd => by
    cases hfd
    decide

end Hashpipe.Ibverbs
