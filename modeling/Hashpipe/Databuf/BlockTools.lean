import Hashpipe.Databuf.Create

/-!
# The block tools

`hashpipe_dump_databuf` and `hashpipe_write_databuf`, run without `--force`, from the checks of
the options to the bytes handed to `write` and those that `read` overwrites.  The options are
`int`s and the sizes `size_t`s: comparisons are made in `size_t`, where a negative option is
huge, and the default number of bytes is cut to an `int`.

`blockTools_inBounds_iff` says when the bytes lie in the block, or for the dump tool in the
header, that was asked for.
-/

namespace Hashpipe.Databuf

/-- What the tools have once attached and past their options; `db` is an address. -/
structure BlockRequest where
  db : ℕ
  header : Header
  block : ℤ
  skip : ℤ
  num : ℤ
  db_lt : db < 2 ^ 64
  header_size_lt : header.header_size < 2 ^ 64
  block_size_lt : header.block_size < 2 ^ 64
  n_block_int : -2 ^ 31 ≤ header.n_block ∧ header.n_block < 2 ^ 31
  block_int : -2 ^ 31 ≤ block ∧ block < 2 ^ 31
  skip_int : -2 ^ 31 ≤ skip ∧ skip < 2 ^ 31
  num_int : -2 ^ 31 ≤ num ∧ num < 2 ^ 31

/-- The conversion of a `size_t` to `int`. -/
def intOfSize (n : ℕ) : ℤ := if n % 2 ^ 32 < 2 ^ 31 then (n % 2 ^ 32 : ℕ) else (n % 2 ^ 32 : ℕ) - 2 ^ 32

/-- `a - b` in `size_t`. -/
def sizeSub (a b : ℕ) : ℕ := (a + 2 ^ 64 - b) % 2 ^ 64

inductive BlockOutcome
  | stats
  | rejected
  /-- `count` bytes from address `p` on. -/
  | bytes (p count : ℕ)
  deriving DecidableEq

/-- The checks that both tools make: `num` with its default, `none` if the request is refused. -/
def checkRequest (r : BlockRequest) : Option ℤ :=
  if r.header.n_block ≤ r.block then none
  else if r.header.block_size < sizeOfInt r.skip then none
  else if r.num = 0 then some (intOfSize (sizeSub r.header.block_size (sizeOfInt r.skip)))
  else if sizeSub r.header.block_size (sizeOfInt r.skip) < sizeOfInt r.num then none
  else some r.num

/-- The bytes handed to `write`. -/
def hashpipeDumpDatabuf (r : BlockRequest) : BlockOutcome :=
  if r.block ≤ -2 then .stats
  else match checkRequest r with
    | none => .rejected
    | some num =>
      let p := (r.db + sizeOfInt r.skip) % 2 ^ 64
      if r.block = -1 then
        let num := if sizeOfInt num = sizeSub r.header.block_size (sizeOfInt r.skip) then
            intOfSize (sizeSub r.header.header_size (sizeOfInt r.skip))
          else num
        .bytes p (sizeOfInt num)
      else
        .bytes ((p + r.header.header_size + sizeOfInt r.block * r.header.block_size) % 2 ^ 64)
          (sizeOfInt num)

/-- The loop that reads from `/dev/urandom`: how many bytes from `p` on have been overwritten
once `read` has returned these results.  Each `read` starts at `p` again. -/
def readLoop (num : ℤ) : List ℤ → ℕ
  | [] => 0
  | result :: results =>
    if 0 < num then
      let num_read := min result num
      if num_read ≤ 0 then 0 else max num_read.toNat (readLoop (num - num_read) results)
    else 0

def hashpipeWriteDatabuf (r : BlockRequest) (results : List ℤ) : BlockOutcome :=
  match checkRequest r with
  | none => .rejected
  | some num =>
    .bytes ((r.db + r.header.header_size + sizeOfInt r.block * r.header.block_size +
      sizeOfInt r.skip) % 2 ^ 64) (readLoop num results)

/-! ### Staying in bounds -/

/-- Where data block `block` starts and how long it is. -/
def dataBlock (r : BlockRequest) : Option (ℤ × ℤ) :=
  if 0 ≤ r.block ∧ r.block < r.header.n_block then
    some (r.db + r.header.header_size + r.block * r.header.block_size, r.header.block_size)
  else none

/-- The same, with block -1 for the header. -/
def dataBlockOrHeader (r : BlockRequest) : Option (ℤ × ℤ) :=
  if r.block = -1 then some (r.db, r.header.header_size) else dataBlock r

/-- The bytes are `[start + skip, start + skip + count)` and lie in a region of `size` bytes. -/
structure InRegion (start size skip : ℤ) (p count : ℕ) : Prop where
  exact : (p : ℤ) = (start + skip) % 2 ^ 64
  lower : start ≤ start + skip
  upper : start + skip + count ≤ start + size

/-- A request that is not refused touches the selected region only. -/
def StaysInBounds (selected : Option (ℤ × ℤ)) (skip : ℤ) (outcome : BlockOutcome) : Prop :=
  ∀ p count, outcome = .bytes p count →
    ∃ region, selected = some region ∧ InRegion region.1 region.2 skip p count

/-- The tools refuse a block that is not there and more bytes than the block has. -/
def Refused (r : BlockRequest) : Prop :=
  r.header.n_block ≤ r.block ∨ r.header.block_size < sizeOfInt r.skip ∨
    (r.num ≠ 0 ∧ r.header.block_size - sizeOfInt r.skip < sizeOfInt r.num)

/-- The size does not grow when it is cut to an `int` and made a `size_t` again. -/
def FitsInt (n : ℕ) : Prop := n % 2 ^ 32 < 2 ^ 31 ∨ 2 ^ 64 - 2 ^ 31 ≤ n

/-- All that is left of the block was asked for, which the tool takes for the default. -/
def AsksForAll (r : BlockRequest) : Prop :=
  if r.num = 0 then
    r.header.block_size - sizeOfInt r.skip < 2 ^ 31 ∨
      2 ^ 64 - 2 ^ 31 ≤ r.header.block_size - sizeOfInt r.skip
  else sizeOfInt r.num = r.header.block_size - sizeOfInt r.skip

/-- The number of bytes asked for, in `size_t`; the default is cut to an `int`. -/
def asked (r : BlockRequest) : ℕ :=
  if r.num = 0 then sizeOfInt (intOfSize (r.header.block_size - sizeOfInt r.skip))
  else sizeOfInt r.num

/-- The bytes of the header that the dump tool takes are those of the header. -/
def HeaderHolds (r : BlockRequest) : Prop :=
  (AsksForAll r → r.skip ≤ r.header.header_size ∧
    FitsInt (r.header.header_size - sizeOfInt r.skip)) ∧
  (¬ AsksForAll r → sizeOfInt r.skip + asked r ≤ r.header.header_size)

def DumpHolds (r : BlockRequest) : Prop :=
  r.block ≤ -2 ∨ Refused r ∨
    (0 ≤ r.skip ∧ (0 ≤ r.block → r.num = 0 → FitsInt (r.header.block_size - sizeOfInt r.skip)) ∧
      (r.block = -1 → HeaderHolds r))

def WriteHolds (r : BlockRequest) : Prop := Refused r ∨ (0 ≤ r.block ∧ 0 ≤ r.skip)

/-! ### Conversions -/

theorem sizeOfInt_nonneg {n : ℤ} (h : 0 ≤ n) (hlt : n < 2 ^ 31) : (sizeOfInt n : ℤ) = n := by
  unfold sizeOfInt
  omega

theorem sizeSub_eq {a b : ℕ} (h : b ≤ a) (ha : a < 2 ^ 64) : sizeSub a b = a - b := by
  unfold sizeSub
  omega

/-- The cut keeps a small size, and it makes a size with bit 31 set huge. -/
theorem sizeOfInt_intOfSize (n : ℕ) : sizeOfInt (intOfSize n) =
    if n % 2 ^ 32 < 2 ^ 31 then n % 2 ^ 32 else 2 ^ 64 - 2 ^ 32 + n % 2 ^ 32 := by
  unfold intOfSize sizeOfInt
  split <;> omega

theorem sizeOfInt_intOfSize_le_iff {n : ℕ} (hn : n < 2 ^ 64) :
    sizeOfInt (intOfSize n) ≤ n ↔ FitsInt n := by
  rw [sizeOfInt_intOfSize]
  unfold FitsInt
  split <;> omega

theorem sizeOfInt_intOfSize_eq_iff {n : ℕ} (hn : n < 2 ^ 64) :
    sizeOfInt (intOfSize n) = n ↔ n < 2 ^ 31 ∨ 2 ^ 64 - 2 ^ 31 ≤ n := by
  rw [sizeOfInt_intOfSize]
  split <;> omega

/-! ### The checks -/

section Checks

variable {r : BlockRequest}

/-- `num` once the default has been put in. -/
def wanted (r : BlockRequest) : ℤ :=
  if r.num = 0 then intOfSize (r.header.block_size - sizeOfInt r.skip) else r.num

theorem asked_eq : asked r = sizeOfInt (wanted r) := by
  unfold asked wanted
  split <;> rfl

theorem checkRequest_refused (h : Refused r) : checkRequest r = none := by
  have hblock_size := r.block_size_lt
  unfold checkRequest
  by_cases hblock : r.header.n_block ≤ r.block
  · rw [if_pos hblock]
  by_cases hskip : r.header.block_size < sizeOfInt r.skip
  · rw [if_neg hblock, if_pos hskip]
  · obtain ⟨hnum, hlt⟩ := (h.resolve_left hblock).resolve_left hskip
    rw [if_neg hblock, if_neg hskip, if_neg hnum, if_pos]
    rwa [sizeSub_eq (Nat.le_of_not_lt hskip) hblock_size]

theorem checkRequest_accepted (h : ¬ Refused r) : checkRequest r = some (wanted r) := by
  have hblock_size := r.block_size_lt
  unfold Refused at h
  push Not at h
  obtain ⟨hblock, hskip, hnum⟩ := h
  unfold checkRequest wanted
  rw [if_neg (not_le.mpr hblock), if_neg (not_lt.mpr hskip), sizeSub_eq hskip hblock_size]
  by_cases hzero : r.num = 0
  · rw [if_pos hzero, if_pos hzero]
  · rw [if_neg hzero, if_neg hzero, if_neg (not_lt.mpr (hnum hzero))]

theorem asksForAll_iff : AsksForAll r ↔
    asked r = r.header.block_size - sizeOfInt r.skip := by
  have hblock_size := r.block_size_lt
  unfold AsksForAll asked
  split
  · rw [sizeOfInt_intOfSize_eq_iff (by omega)]
  · rfl

instance : Decidable (AsksForAll r) := decidable_of_iff _ asksForAll_iff.symm

/-- A request for a number of bytes is in the block, the default as far as the cut allows. -/
theorem asked_le_iff (h : ¬ Refused r) : asked r ≤ r.header.block_size - sizeOfInt r.skip ↔
    (r.num = 0 → FitsInt (r.header.block_size - sizeOfInt r.skip)) := by
  have hblock_size := r.block_size_lt
  unfold asked
  by_cases hzero : r.num = 0
  · rw [if_pos hzero, sizeOfInt_intOfSize_le_iff (by omega)]
    simp only [hzero, true_implies]
  · rw [if_neg hzero]
    unfold Refused at h
    push Not at h
    simp only [hzero, false_implies, iff_true]
    exact h.2.2 hzero

end Checks

/-! ### The dump tool -/

section Dump

variable {r : BlockRequest}

theorem hashpipeDumpDatabuf_refused (hblock : ¬ r.block ≤ -2) (h : Refused r) :
    hashpipeDumpDatabuf r = .rejected := by
  simp only [hashpipeDumpDatabuf, if_neg hblock, checkRequest_refused h]

theorem hashpipeDumpDatabuf_block (hblock : 0 ≤ r.block) (h : ¬ Refused r) :
    hashpipeDumpDatabuf r =
      .bytes (((r.db + sizeOfInt r.skip) % 2 ^ 64 + r.header.header_size +
        sizeOfInt r.block * r.header.block_size) % 2 ^ 64) (asked r) := by
  have hnot : ¬ r.block ≤ -2 := by omega
  have hne : r.block ≠ -1 := by omega
  simp only [hashpipeDumpDatabuf, if_neg hnot, checkRequest_accepted h, if_neg hne, asked_eq]

theorem hashpipeDumpDatabuf_header (hblock : r.block = -1) (h : ¬ Refused r) :
    hashpipeDumpDatabuf r = .bytes ((r.db + sizeOfInt r.skip) % 2 ^ 64)
      (if AsksForAll r then
        sizeOfInt (intOfSize (sizeSub r.header.header_size (sizeOfInt r.skip)))
      else asked r) := by
  have hnot : ¬ r.block ≤ -2 := by omega
  have hskip : sizeOfInt r.skip ≤ r.header.block_size := by
    unfold Refused at h
    push Not at h
    exact h.2.1
  simp only [hashpipeDumpDatabuf, if_neg hnot, checkRequest_accepted h, if_pos hblock,
    sizeSub_eq hskip r.block_size_lt, asksForAll_iff, asked_eq]
  split <;> rfl

/-- The address is the one meant, negative `skip`s included, in both tools' order of adding. -/
theorem block_address (hblock : 0 ≤ r.block) :
    ((((r.db + sizeOfInt r.skip) % 2 ^ 64 + r.header.header_size +
        sizeOfInt r.block * r.header.block_size) % 2 ^ 64 : ℕ) : ℤ) =
      (r.db + r.header.header_size + r.block * r.header.block_size + r.skip) % 2 ^ 64 := by
  have hskip : (sizeOfInt r.skip : ℤ) = r.skip % 2 ^ 64 := by
    unfold sizeOfInt
    omega
  have hprod : ((sizeOfInt r.block * r.header.block_size : ℕ) : ℤ) =
      r.block * r.header.block_size := by
    rw [Nat.cast_mul, sizeOfInt_nonneg hblock r.block_int.2]
  omega

/-- A nonnegative `skip` that is not refused is one within the block. -/
theorem skip_le (h : ¬ Refused r) : sizeOfInt r.skip ≤ r.header.block_size := by
  unfold Refused at h
  push Not at h
  exact h.2.1

theorem block_lt (h : ¬ Refused r) : r.block < r.header.n_block := by
  unfold Refused at h
  push Not at h
  exact h.1

/-- The dump of a data block. -/
theorem dump_block_iff (hblock : 0 ≤ r.block) (h : ¬ Refused r) :
    StaysInBounds (dataBlockOrHeader r) r.skip (hashpipeDumpDatabuf r) ↔
      0 ≤ r.skip ∧ (r.num = 0 → FitsInt (r.header.block_size - sizeOfInt r.skip)) := by
  have hregion : dataBlockOrHeader r = some
      ((r.db : ℤ) + r.header.header_size + r.block * r.header.block_size,
        (r.header.block_size : ℤ)) := by
    rw [dataBlockOrHeader, if_neg (by omega), dataBlock, if_pos ⟨hblock, block_lt h⟩]
  have hle := skip_le h
  rw [hashpipeDumpDatabuf_block hblock h, hregion, ← asked_le_iff h]
  constructor
  · intro hin
    obtain ⟨region, heq, hregion⟩ := hin _ _ rfl
    obtain rfl := Option.some.inj heq
    have hlower := hregion.lower
    have hupper := hregion.upper
    have hskip := sizeOfInt_nonneg (n := r.skip) (by omega) r.skip_int.2
    dsimp only at hlower hupper
    omega
  · rintro ⟨hnonneg, hcount⟩ p count heq
    obtain ⟨rfl, rfl⟩ := BlockOutcome.bytes.inj heq
    have hskip := sizeOfInt_nonneg hnonneg r.skip_int.2
    refine ⟨_, rfl, block_address hblock, ?_, ?_⟩
    · dsimp only
      omega
    · dsimp only
      omega

/-- How many bytes the dump of the header takes. -/
def headerCount (r : BlockRequest) : ℕ :=
  if AsksForAll r then sizeOfInt (intOfSize (sizeSub r.header.header_size (sizeOfInt r.skip)))
  else asked r

theorem headerCount_le_iff (hskip : 0 ≤ r.skip) :
    sizeOfInt r.skip + headerCount r ≤ r.header.header_size ↔ HeaderHolds r := by
  have hheader_size := r.header_size_lt
  have hcast := sizeOfInt_nonneg hskip r.skip_int.2
  unfold headerCount HeaderHolds
  by_cases hall : AsksForAll r
  · simp only [hall, if_true, true_implies, not_true_eq_false, false_implies, and_true]
    by_cases hle : sizeOfInt r.skip ≤ r.header.header_size
    · rw [sizeSub_eq hle hheader_size, ← sizeOfInt_intOfSize_le_iff (by omega)]
      omega
    · omega
  · simp only [hall, if_false, false_implies, not_false_eq_true, true_implies, true_and]

/-- The dump of the header. -/
theorem dump_header_iff (hblock : r.block = -1) (h : ¬ Refused r) :
    StaysInBounds (dataBlockOrHeader r) r.skip (hashpipeDumpDatabuf r) ↔
      0 ≤ r.skip ∧ HeaderHolds r := by
  have haddress : (((r.db + sizeOfInt r.skip) % 2 ^ 64 : ℕ) : ℤ) = (r.db + r.skip) % 2 ^ 64 := by
    unfold sizeOfInt
    omega
  rw [hashpipeDumpDatabuf_header hblock h, dataBlockOrHeader, if_pos hblock]
  change StaysInBounds _ _ (.bytes _ (headerCount r)) ↔ _
  constructor
  · intro hin
    obtain ⟨region, heq, hregion⟩ := hin _ _ rfl
    obtain rfl := Option.some.inj heq
    have hlower := hregion.lower
    have hupper := hregion.upper
    dsimp only at hlower hupper
    have hnonneg : 0 ≤ r.skip := by omega
    have hskip := sizeOfInt_nonneg hnonneg r.skip_int.2
    exact ⟨hnonneg, (headerCount_le_iff hnonneg).mp (by omega)⟩
  · rintro ⟨hnonneg, hholds⟩ p count heq
    obtain ⟨rfl, rfl⟩ := BlockOutcome.bytes.inj heq
    have hskip := sizeOfInt_nonneg hnonneg r.skip_int.2
    have hcount := (headerCount_le_iff hnonneg).mpr hholds
    refine ⟨_, rfl, haddress, ?_, ?_⟩
    · dsimp only
      omega
    · dsimp only
      omega

theorem dump_inBounds_iff : StaysInBounds (dataBlockOrHeader r) r.skip (hashpipeDumpDatabuf r) ↔
    DumpHolds r := by
  unfold DumpHolds
  by_cases hstats : r.block ≤ -2
  · have hout : hashpipeDumpDatabuf r = .stats := if_pos hstats
    rw [hout]
    simp only [hstats, true_or, iff_true]
    intro p count heq
    cases heq
  by_cases h : Refused r
  · rw [hashpipeDumpDatabuf_refused hstats h]
    simp only [h, true_or, or_true, iff_true]
    intro p count heq
    cases heq
  simp only [hstats, h, false_or]
  by_cases hblock : r.block = -1
  · rw [dump_header_iff hblock h]
    have hneg : ¬ 0 ≤ r.block := by omega
    constructor
    · intro hin
      exact ⟨hin.1, fun hnonneg => absurd hnonneg hneg, fun _ => hin.2⟩
    · intro hin
      exact ⟨hin.1, hin.2.2 hblock⟩
  · rw [dump_block_iff (by omega) h]
    have hnonneg : 0 ≤ r.block := by omega
    simp only [hnonneg, hblock, false_implies, and_true, true_implies]

end Dump

/-! ### The write tool -/

section Write

variable {r : BlockRequest}

/-- The loop never overwrites more than it was told to. -/
theorem readLoop_le (num : ℤ) (results : List ℤ) : readLoop num results ≤ num.toNat := by
  induction results generalizing num with
  | nil => exact Nat.zero_le _
  | cons result results ih =>
    have hrest := ih (num - min result num)
    simp only [readLoop]
    split
    · split
      · exact Nat.zero_le _
      · omega
    · exact Nat.zero_le _

/-- A positive number of bytes is never more than is left of the block. -/
theorem wanted_le (h : ¬ Refused r) :
    (wanted r).toNat ≤ r.header.block_size - sizeOfInt r.skip := by
  unfold wanted
  by_cases hzero : r.num = 0
  · rw [if_pos hzero]
    unfold intOfSize
    split <;> omega
  · have hnum := r.num_int
    have hle : sizeOfInt r.num ≤ r.header.block_size - sizeOfInt r.skip := by
      unfold Refused at h
      push Not at h
      exact h.2.2 hzero
    rw [if_neg hzero]
    unfold sizeOfInt at hle ⊢
    omega

theorem hashpipeWriteDatabuf_accepted (h : ¬ Refused r) (results : List ℤ) :
    hashpipeWriteDatabuf r results =
      .bytes ((r.db + r.header.header_size + sizeOfInt r.block * r.header.block_size +
        sizeOfInt r.skip) % 2 ^ 64) (readLoop (wanted r) results) := by
  simp only [hashpipeWriteDatabuf, checkRequest_accepted h]

theorem write_inBounds_iff :
    (∀ results, StaysInBounds (dataBlock r) r.skip (hashpipeWriteDatabuf r results)) ↔
      WriteHolds r := by
  unfold WriteHolds
  by_cases h : Refused r
  · simp only [h, true_or, iff_true]
    intro results p count heq
    simp only [hashpipeWriteDatabuf, checkRequest_refused h] at heq
    cases heq
  simp only [h, false_or]
  constructor
  · intro hin
    obtain ⟨region, heq, hregion⟩ := hin [] _ _ (hashpipeWriteDatabuf_accepted h [])
    unfold dataBlock at heq
    split at heq
    case isTrue hblock =>
      have hlower := hregion.lower
      exact ⟨hblock.1, by omega⟩
    case isFalse => cases heq
  · rintro ⟨hblock, hnonneg⟩ results p count heq
    rw [hashpipeWriteDatabuf_accepted h] at heq
    obtain ⟨rfl, rfl⟩ := BlockOutcome.bytes.inj heq
    have hskip := sizeOfInt_nonneg hnonneg r.skip_int.2
    have hle := skip_le h
    have hcount := (readLoop_le (wanted r) results).trans (wanted_le h)
    refine ⟨_, if_pos ⟨hblock, block_lt h⟩, ?_, ?_, ?_⟩
    · have hprod : ((sizeOfInt r.block * r.header.block_size : ℕ) : ℤ) =
          r.block * r.header.block_size := by
        rw [Nat.cast_mul, sizeOfInt_nonneg hblock r.block_int.2]
      dsimp only
      omega
    · dsimp only
      omega
    · dsimp only
      omega

end Write

/-- For every header and all options, the two tools stay in bounds exactly under these
conditions. -/
theorem blockTools_inBounds_iff (r : BlockRequest) :
    (StaysInBounds (dataBlockOrHeader r) r.skip (hashpipeDumpDatabuf r) ↔ DumpHolds r) ∧
      ((∀ results, StaysInBounds (dataBlock r) r.skip (hashpipeWriteDatabuf r results)) ↔
        WriteHolds r) :=
  ⟨dump_inBounds_iff, write_inBounds_iff⟩

/-- 16 bytes to block -1 of a databuf whose header and blocks have 4096 bytes each. -/
def blockBeforeFirst : BlockRequest :=
  { db := 0x7f0000000000, header := ⟨"", 4096, 4096, 4, 0, 0⟩, block := -1, skip := 0, num := 16
    db_lt := by decide, header_size_lt := by decide, block_size_lt := by decide
    n_block_int := by decide, block_int := by decide, skip_int := by decide
    num_int := by decide }

/-- The write tool overwrites the header. -/
theorem blockBeforeFirst_overwrites_header :
    ¬ ∀ r : BlockRequest,
      StaysInBounds (dataBlockOrHeader r) r.skip (hashpipeDumpDatabuf r) ∧
        ∀ results, StaysInBounds (dataBlock r) r.skip (hashpipeWriteDatabuf r results) := by
  intro h
  have hout : hashpipeWriteDatabuf blockBeforeFirst [16] = .bytes blockBeforeFirst.db 16 := by
    decide +kernel
  obtain ⟨region, heq, -⟩ := (h blockBeforeFirst).2 [16] _ _ hout
  exact absurd heq (by simp [dataBlock, blockBeforeFirst])

end Hashpipe.Databuf
