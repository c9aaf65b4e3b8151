import Hashpipe.CommandLine

/-!
# The IPC keys of the databufs and the status buffers

`hashpipe_databuf_key` beside `hashpipe_status_key`, and the key at which
`hashpipe_databuf_create` and `hashpipe_databuf_attach` look for a databuf: the base key of the
instance plus the databuf's number less one, in a signed `key_t` and without a mask.

The base keys lie `2 ^ 24` apart, with the bits of the file below, and a databuf's number moves
a key by at most 1023 (`keys_eq_iff`).
-/

namespace Hashpipe.IpcKey

open ByteMemory CNumber Status CommandLine

/-- The variables that the keys are made from. -/
structure KeyEnv extends StatusEnv where
  HASHPIPE_DATABUF_KEY : Option CString

/-- What `ftok` reads of `struct stat`. -/
structure FileStat where
  st_dev : ℕ
  st_ino : ℕ

/-- `ftok`; `stat` has no answer where there is no file. -/
def ftok (stat : CString → Option FileStat) (pathname : CString) (proj_id : ℕ) : Int32 :=
  match stat pathname with
  | none => -1
  | some st => Int32.ofNat
      ((proj_id &&& 0xff) <<< 24 ||| (st.st_dev &&& 0xff) <<< 16 ||| (st.st_ino &&& 0xffff))

/-- `hashpipe_databuf_key`; `strtoul` is cut to a `key_t`. -/
def hashpipeDatabufKey (os : AttachAnswers) (env : KeyEnv) (instance_id : Int32) : Int32 :=
  match env.HASHPIPE_DATABUF_KEY with
  | some databuf_key => Int32.ofNat (strtoull databuf_key.bytes).1
  | none => hashpipeIpckey os env.toStatusEnv (instanceBits instance_id ||| 0x80)

/-- `key + databuf_id - 1`. -/
def databufKey (key : Int32) (databuf_id : ℕ) : Int32 := key + Int32.ofNat databuf_id - 1

def ipcPrivate : Int32 := 0

/-- What a key is used for. -/
inductive KeyUse
  | status (instance_id : Int32)
  | databuf (instance_id : Int32) (databuf_id : ℕ)

/-- The numbers that `main` gives to databufs. -/
def KeyUse.Assigned : KeyUse → Prop
  | .status _ => True
  | .databuf _ databuf_id => databuf_id ≤ maxHashpipeThreads

def KeyUse.key (os : AttachAnswers) (env : KeyEnv) : KeyUse → Int32
  | .status instance_id => hashpipeStatusKey os env.toStatusEnv instance_id
  | .databuf instance_id databuf_id =>
    databufKey (hashpipeDatabufKey os env instance_id) databuf_id

/-- What a key is to stand for: the kind, the instance and the databuf. -/
inductive KeyName
  | status (i : ℤ)
  | databuf (i : ℤ) (databuf_id : ℕ)
  deriving DecidableEq

def KeyUse.name : KeyUse → KeyName
  | .status instance_id => .status (instance_id.toInt % 64)
  | .databuf instance_id databuf_id => .databuf (instance_id.toInt % 64) databuf_id

/-! ### The layout of a key -/

/-- The bits of a key below the project, from the file. -/
def FileStat.low (st : FileStat) : ℕ := st.st_dev % 2 ^ 8 * 2 ^ 16 + st.st_ino % 2 ^ 16

theorem FileStat.low_lt (st : FileStat) : st.low < 2 ^ 24 := by
  unfold FileStat.low
  omega

/-- The three parts of a key do not overlap. -/
theorem ftok_eq {stat : CString → Option FileStat} {pathname : CString} {st : FileStat}
    (h : stat pathname = some st) (proj_id : ℕ) :
    ftok stat pathname proj_id = Int32.ofNat (proj_id % 2 ^ 8 * 2 ^ 24 + st.low) := by
  have hino : st.st_ino % 2 ^ 16 < 2 ^ 16 := Nat.mod_lt _ (by decide)
  have hlow := st.low_lt
  have hfile : (st.st_dev % 2 ^ 8) <<< 16 ||| st.st_ino % 2 ^ 16 = st.low := by
    rw [← Nat.shiftLeft_add_eq_or_of_lt hino, Nat.shiftLeft_eq]
    rfl
  have hmask8 : ∀ n : ℕ, n &&& 0xff = n % 2 ^ 8 := fun n => Nat.and_two_pow_sub_one_eq_mod n 8
  have hmask16 : ∀ n : ℕ, n &&& 0xffff = n % 2 ^ 16 := fun n =>
    Nat.and_two_pow_sub_one_eq_mod n 16
  rw [ftok, h]
  show Int32.ofNat _ = _
  rw [hmask8, hmask8, hmask16, Nat.or_assoc, hfile, ← Nat.shiftLeft_add_eq_or_of_lt hlow,
    Nat.shiftLeft_eq]

/-- The project of a status key has the bits 01XXXXXX, that of a databuf key 10XXXXXX. -/
theorem instanceBits_or (instance_id : Int32) {j : ℕ} (h : 6 ≤ j) :
    (instanceBits instance_id ||| 2 ^ j : ℕ) = 2 ^ j + (instance_id.toInt % 64).toNat := by
  have hlt : instanceBits instance_id < 2 ^ j := by
    have h64 : 2 ^ 6 ≤ 2 ^ j := Nat.pow_le_pow_right (by decide) h
    unfold instanceBits
    omega
  have hadd := Nat.two_pow_add_eq_or_of_lt hlt 1
  rw [Nat.mul_one] at hadd
  rw [Nat.or_comm, ← hadd]
  rfl

/-- Where a key lies in the 32-bit space, before it is cut to that. -/
def KeyUse.place (low : ℕ) : KeyUse → ℤ
  | .status instance_id => (64 + instance_id.toInt % 64) * 2 ^ 24 + low
  | .databuf instance_id databuf_id =>
    (128 + instance_id.toInt % 64) * 2 ^ 24 + low + databuf_id - 1

section Keys

variable {os : AttachAnswers} {stat : CString → Option FileStat} {env : KeyEnv} {st : FileStat}

theorem ipckey_eq (hfile : stat env.keyfile = some st) (hftok : os.ftok = ftok stat)
    (proj_id : ℕ) : hashpipeIpckey os env.toStatusEnv proj_id =
      Int32.ofNat (proj_id % 2 ^ 8 * 2 ^ 24 + st.low) := by
  rw [hashpipeIpckey, hftok]
  exact ftok_eq hfile proj_id

theorem statusKey_eq (hfile : stat env.keyfile = some st) (hftok : os.ftok = ftok stat)
    (hstatus : env.HASHPIPE_STATUS_KEY = none) (instance_id : Int32) :
    hashpipeStatusKey os env.toStatusEnv instance_id =
      Int32.ofInt ((64 + instance_id.toInt % 64) * 2 ^ 24 + st.low) := by
  have hbits := instanceBits_or instance_id (j := 6) (le_refl 6)
  rw [hashpipeStatusKey, hstatus]
  show hashpipeIpckey os env.toStatusEnv (instanceBits instance_id ||| 2 ^ 6) = _
  rw [ipckey_eq hfile hftok, hbits, ← Int32.ofInt_eq_ofNat]
  congr 1
  omega

theorem databufKey_eq (hfile : stat env.keyfile = some st) (hftok : os.ftok = ftok stat)
    (hdatabuf : env.HASHPIPE_DATABUF_KEY = none) (instance_id : Int32) :
    hashpipeDatabufKey os env instance_id =
      Int32.ofInt ((128 + instance_id.toInt % 64) * 2 ^ 24 + st.low) := by
  have hbits := instanceBits_or instance_id (j := 7) (by decide)
  rw [hashpipeDatabufKey, hdatabuf]
  show hashpipeIpckey os env.toStatusEnv (instanceBits instance_id ||| 2 ^ 7) = _
  rw [ipckey_eq hfile hftok, hbits, ← Int32.ofInt_eq_ofNat]
  congr 1
  omega

/-- Every key is its place, cut to 32 bits. -/
theorem KeyUse.key_eq (hfile : stat env.keyfile = some st) (hftok : os.ftok = ftok stat)
    (hdatabuf : env.HASHPIPE_DATABUF_KEY = none) (hstatus : env.HASHPIPE_STATUS_KEY = none)
    (u : KeyUse) : u.key os env = Int32.ofInt (u.place st.low) := by
  cases u with
  | status instance_id => exact statusKey_eq hfile hftok hstatus instance_id
  | databuf instance_id databuf_id =>
    have hbase := databufKey_eq hfile hftok hdatabuf instance_id
    show databufKey (hashpipeDatabufKey os env instance_id) databuf_id = _
    rw [databufKey, hbase, ← Int32.ofInt_eq_ofNat, ← Int32.ofInt_add]
    exact (Int32.ofInt_sub _ 1).symm

end Keys

/-! ### Keys that are distinct -/

/-- No place is as low as 0 or as high as -1, also after a borrow or a carry. -/
theorem KeyUse.place_bounds {low : ℕ} (hlow : low < 2 ^ 24) {u : KeyUse} (hu : u.Assigned) :
    2 ^ 30 ≤ u.place low ∧ u.place low < 2 ^ 32 - 2 ^ 24 := by
  cases u with
  | status instance_id =>
    simp only [KeyUse.place]
    omega
  | databuf instance_id databuf_id =>
    have hid : databuf_id ≤ 1024 := hu
    simp only [KeyUse.place]
    omega

/-- A carry out of the low bits or a borrow from above them does not reach another base. -/
theorem KeyUse.place_eq_iff {low : ℕ} {u v : KeyUse} (hu : u.Assigned) (hv : v.Assigned) :
    u.place low = v.place low ↔ u.name = v.name := by
  cases u with
  | status i =>
    cases v with
    | status j =>
      show (64 + i.toInt % 64) * 2 ^ 24 + (low : ℤ) = (64 + j.toInt % 64) * 2 ^ 24 + low ↔ _
      simp only [KeyUse.name, KeyName.status.injEq]
      omega
    | databuf j n =>
      have hn : n ≤ 1024 := hv
      refine iff_of_false (fun h => ?_) (fun h => by cases h)
      simp only [KeyUse.place] at h
      omega
  | databuf i m =>
    have hm : m ≤ 1024 := hu
    cases v with
    | status j =>
      refine iff_of_false (fun h => ?_) (fun h => by cases h)
      simp only [KeyUse.place] at h
      omega
    | databuf j n =>
      have hn : n ≤ 1024 := hv
      show (128 + i.toInt % 64) * 2 ^ 24 + (low : ℤ) + m - 1 =
        (128 + j.toInt % 64) * 2 ^ 24 + low + n - 1 ↔ _
      simp only [KeyUse.name, KeyName.databuf.injEq]
      omega

/-- Within 32 bits the cut loses nothing. -/
theorem ofInt_eq_iff {a b : ℤ} (ha : 0 ≤ a) (ha' : a < 2 ^ 32) (hb : 0 ≤ b) (hb' : b < 2 ^ 32) :
    Int32.ofInt a = Int32.ofInt b ↔ a = b := by
  constructor
  · intro h
    have hint := congrArg Int32.toInt h
    rw [Int32.toInt_ofInt, Int32.toInt_ofInt] at hint
    have hmod := Int.bmod_eq_bmod_iff_bmod_sub_eq_zero.mp hint
    have hdvd := Int.dvd_of_bmod_eq_zero hmod
    have hsize : ((Int32.size : ℕ) : ℤ) = 2 ^ 32 := rfl
    rw [hsize] at hdvd
    omega
  · intro h
    rw [h]

/-- Keys are equal only for the same kind, instance and databuf, and none is `IPC_PRIVATE` or
`HASHPIPE_KEY_ERROR`. -/
theorem keys_eq_iff {os : AttachAnswers} {stat : CString → Option FileStat} {env : KeyEnv}
    {st : FileStat} (hfile : stat env.keyfile = some st) (hftok : os.ftok = ftok stat)
    (hdatabuf : env.HASHPIPE_DATABUF_KEY = none) (hstatus : env.HASHPIPE_STATUS_KEY = none) :
    (∀ u v : KeyUse, u.Assigned → v.Assigned →
      (u.key os env = v.key os env ↔ u.name = v.name)) ∧
    ∀ u : KeyUse, u.Assigned →
      u.key os env ≠ ipcPrivate ∧ u.key os env ≠ hashpipeKeyError := by
  have hlow := st.low_lt
  have hkey : ∀ u : KeyUse, u.key os env = Int32.ofInt (u.place st.low) :=
    KeyUse.key_eq hfile hftok hdatabuf hstatus
  constructor
  · intro u v hu hv
    have hub := KeyUse.place_bounds hlow hu
    have hvb := KeyUse.place_bounds hlow hv
    rw [hkey u, hkey v, ofInt_eq_iff (by omega) (by omega) (by omega) (by omega)]
    exact KeyUse.place_eq_iff hu hv
  · intro u hu
    have hub := KeyUse.place_bounds hlow hu
    have hprivate : ipcPrivate = Int32.ofInt 0 := by decide
    have herror : hashpipeKeyError = Int32.ofInt (2 ^ 32 - 1) := by decide
    rw [hkey u, hprivate, herror, Ne, Ne,
      ofInt_eq_iff (by omega) (by omega) (by decide) (by decide),
      ofInt_eq_iff (by omega) (by omega) (by decide) (by decide)]
    omega

/-- Every path is the file 2049:131073. -/
def oneFile : CString → Option FileStat := fun _ => some ⟨2049, 131073⟩

def oneFileAnswers : AttachAnswers := ⟨ftok oneFile, fun _ => some 7, fun _ => true, fun _ => true⟩

def homeKeyEnv : KeyEnv := { homeEnv with HASHPIPE_DATABUF_KEY := none }

theorem keys_eq_iff_oneFile :
    (∀ u v : KeyUse, u.Assigned → v.Assigned →
      (u.key oneFileAnswers homeKeyEnv = v.key oneFileAnswers homeKeyEnv ↔ u.name = v.name)) ∧
    ∀ u : KeyUse, u.Assigned → u.key oneFileAnswers homeKeyEnv ≠ ipcPrivate ∧
      u.key oneFileAnswers homeKeyEnv ≠ hashpipeKeyError :=
  @keys_eq_iff oneFileAnswers oneFile homeKeyEnv ⟨2049, 131073⟩ rfl rfl rfl rfl

end Hashpipe.IpcKey
