import Mathlib.Tactic
import Hashpipe.Status.Get

/-!
# The status buffer

Initialising and clearing the buffer.  `hashpipe_status_chkinit` keeps a buffer in
which some record starts with `END` and only sees to its INSTANCE record;
`hashpipe_status_clear` builds an empty one.  Both lock the buffer around what is
modelled here.

`chkinitChecked` is `hashpipe_status_chkinit` with the reads of its searches: it faults where
one leaves the buffer, or where `hputc` computes from an END line that was not found.
-/

namespace Hashpipe.Status

open ByteMemory

/-- `HASHPIPE_STATUS_TOTAL_SIZE`. -/
def totalSize : ℕ := 2880 * 64

/-- `HASHPIPE_STATUS_RECORD_SIZE`. -/
def recordSize : ℕ := 80

/-- `"INSTANCE"`. -/
def instanceKey : CString where
  bytes := [73, 78, 83, 84, 65, 78, 67, 69]
  noNul := forall_mem_of_all (by decide)

/-- Find a record that starts with `END`. -/
def findEnd (buf : Mem) : Option ℕ :=
  (firstFrom (fun r => (List.range 3).all fun j => buf (recordSize * r + j) == chars endKey j) 0
    (totalSize / recordSize)).map (recordSize * ·)

/-- An empty buffer: one END record, NULs behind it. -/
def emptyBuffer (buf : Mem) : Mem :=
  strncpy (fill (fill buf 0 totalSize 0) 0 recordSize 32) 0 (chars endKey) 3

def hashpipeStatusClear (buf : Mem) (instanceId : Int32) : Except Fault Mem :=
  (hputi4 (emptyBuffer buf) instanceKey instanceId).map (·.2)

def hashpipeStatusChkinit (buf : Mem) (instanceId : Int32) : Except Fault Mem :=
  match findEnd buf with
  | none => (hputi4 (emptyBuffer buf) instanceKey instanceId).map (·.2)
  | some _ =>
    match hgeti4 buf instanceKey with
    | none => (hputi4 buf instanceKey instanceId).map (·.2)
    | some existing =>
      if existing ≠ instanceId then (hputi4 buf instanceKey instanceId).map (·.2) else .ok buf

/-- Some byte of the buffer is NUL. -/
def HasNul (m : Mem) : Prop := ∃ i < totalSize, m i = 0

/-- `hputi4` with the reads of `hputc`: every search scans for the first NUL, `gethlength`
subtracts from the place of END, and `blsearch` looks for a line that is not blank. -/
def hputi4Checked (hstring : Mem) (keyword : CString) (ival : Int32) : Except Fault (ℤ × Mem) :=
  if totalSize ≤ textLength hstring headLimit then .error .scan
  else if ksearch hstring endKey = none then .error .noEnd
  else if ksearch hstring (keyword8 keyword) = none ∧ blsearchUnderruns hstring endKey = true then
    .error .blankLines
  else hputi4 hstring keyword ival

/-- `hashpipe_status_chkinit` with the reads of its searches. -/
def chkinitChecked (buf : Mem) (instanceId : Int32) : Except Fault Mem :=
  match findEnd buf with
  | none => (hputi4Checked (emptyBuffer buf) instanceKey instanceId).map (·.2)
  | some _ =>
    if totalSize ≤ textLength buf headLimit then .error .scan
    else
      match hgeti4 buf instanceKey with
      | none => (hputi4Checked buf instanceKey instanceId).map (·.2)
      | some existing =>
        if existing ≠ instanceId then (hputi4Checked buf instanceKey instanceId).map (·.2)
        else .ok buf

/-! ## The first NUL -/

theorem HasNul.first {m : Mem} (h : HasNul m) :
    ∃ z < totalSize, m z = 0 ∧ ∀ i < z, m i ≠ 0 := by
  classical
  obtain ⟨i, hi, h0⟩ := h
  have hex : ∃ i, m i = 0 := ⟨i, h0⟩
  refine ⟨Nat.find hex, ?_, Nat.find_spec hex, fun j hj => Nat.find_min hex hj⟩
  exact lt_of_le_of_lt (Nat.find_min' hex h0) hi

theorem textLength_of_nul {m : Mem} {z : ℕ} (hz : z < totalSize) (h0 : m z = 0)
    (hbefore : ∀ i < z, m i ≠ 0) : textLength m headLimit = z := by
  have hlimit : totalSize ≤ headLimit := by decide
  refine le_antisymm ?_ (le_textLength.mpr ⟨by omega, hbefore⟩)
  by_contra hlt
  exact (le_textLength.mp (Nat.not_le.mp hlt)).2 z (Nat.lt_succ_self z) h0

/-- The scan for the first NUL ends in the buffer exactly if there is one. -/
theorem hasNul_iff {m : Mem} : HasNul m ↔ textLength m headLimit < totalSize := by
  constructor
  · intro h
    obtain ⟨z, hz, h0, hbefore⟩ := h.first
    rw [textLength_of_nul hz h0 hbefore]
    exact hz
  · intro hlt
    by_contra hno
    have hlong : totalSize ≤ textLength m headLimit :=
      le_textLength.mpr ⟨by decide, fun i hi h0 => hno ⟨i, hi, h0⟩⟩
    omega

/-! ## The three courses of `hashpipe_status_chkinit` -/

theorem chkinit_clears {buf : Mem} (h : findEnd buf = none) (instanceId : Int32) :
    hashpipeStatusChkinit buf instanceId = hashpipeStatusClear buf instanceId := by
  rw [hashpipeStatusChkinit, h]
  rfl

theorem chkinit_keeps {buf : Mem} {e : ℕ} {instanceId : Int32} (h : findEnd buf = some e)
    (hget : hgeti4 buf instanceKey = some instanceId) :
    hashpipeStatusChkinit buf instanceId = .ok buf := by
  simp only [hashpipeStatusChkinit, h, hget, ne_eq, not_true_eq_false, if_false]

theorem chkinit_puts {buf : Mem} {e : ℕ} {instanceId : Int32} (h : findEnd buf = some e)
    (hget : hgeti4 buf instanceKey ≠ some instanceId) :
    hashpipeStatusChkinit buf instanceId = (hputi4 buf instanceKey instanceId).map (·.2) := by
  cases hold : hgeti4 buf instanceKey with
  | none => simp only [hashpipeStatusChkinit, h, hold]
  | some existing =>
    have hne : existing ≠ instanceId := fun heq => hget (by rw [hold, heq])
    simp only [hashpipeStatusChkinit, h, hold, if_pos hne]

end Hashpipe.Status
