import Hashpipe.Databuf.BlockLayout
import Hashpipe.Library.ByteMemory
import Hashpipe.Library.CNumber

/-!
# `hashpipe_check_databuf -c`

The tool hands its options on to `hashpipe_databuf_create` in the order instance, header size,
number of blocks, block size, databuf id, where the function takes instance, databuf id, header
size, block size and number of blocks.  Each value is converted to the type of the argument that it
becomes, so nothing is rejected on the way but by the function's own check of the header size.

`check_databuf_creates` says which databuf there is if one is made, and when it is the one that was
asked for; `check_databuf_needs_nblock` that none is made without `-n`.
-/

namespace Hashpipe.Databuf

open ByteMemory CNumber SysVIpc

inductive CheckOption
  | shmkey (optarg : CString)
  | show_shmkey
  | instance_id (optarg : CString)
  | create
  | quiet
  | databuf (optarg : CString)
  | blksize (optarg : CString)
  | nblock (optarg : CString)
  | hdrsize (optarg : CString)
  /-- `-h`, `-t` and whatever is not an option: the usage, and out. -/
  | help

/-- The variables of `main` that the options set. -/
structure CheckParams where
  quiet : Bool
  instance_id : Int32
  create : Bool
  db_id : Int32
  blocksize : Int32
  nblock : Int32
  show_shmkey : Bool
  header_size : ℕ
  keyfile : Option CString

def checkDefaults : CheckParams where
  quiet := false
  instance_id := 0
  create := false
  db_id := 1
  blocksize := 32
  nblock := 24
  show_shmkey := false
  header_size := sizeofHashpipeDatabufT
  keyfile := none

/-- `atoi(optarg)`. -/
def intArg (optarg : CString) : Int32 := atoi optarg.bytes

/-- One pass of the option loop. -/
def checkOption (p : CheckParams) : CheckOption → Option CheckParams
  | .shmkey optarg => some { p with keyfile := some optarg }
  | .show_shmkey => some { p with show_shmkey := true }
  | .instance_id optarg => some { p with instance_id := intArg optarg }
  | .create => some { p with create := true }
  | .quiet => some { p with quiet := true }
  | .databuf optarg => some { p with db_id := intArg optarg }
  | .blksize optarg => some { p with blocksize := intArg optarg }
  | .nblock optarg => some { p with nblock := intArg optarg }
  | .hdrsize optarg => some { p with header_size := sizeOfInt (intArg optarg).toInt }
  | .help => none

def checkOptions : CheckParams → List CheckOption → Option CheckParams
  | p, [] => some p
  | p, o :: opts => (checkOption p o).bind fun p => checkOptions p opts

/-- A `size_t` made of an `int`. -/
theorem sizeOfInt_lt (n : ℤ) : sizeOfInt n < 2 ^ 64 := by
  unfold sizeOfInt
  omega

/-- `blocksize*1024*1024`, in `int`. -/
def CheckParams.blockBytes (p : CheckParams) : Int32 := p.blocksize * 1024 * 1024

/-- The databuf id that `hashpipe_databuf_create` is called with: the second argument. -/
def CheckParams.databuf_id (p : CheckParams) : Int32 := Int32.ofInt (p.header_size : ℤ)

/-- The sizes that it is called with: the third, the fourth and the fifth argument. -/
def CheckParams.createArgs (p : CheckParams) : CreateArgs where
  header_size := sizeOfInt p.nblock.toInt
  block_size := sizeOfInt p.blockBytes.toInt
  n_block := p.db_id.toInt
  header_size_lt := sizeOfInt_lt _
  block_size_lt := sizeOfInt_lt _
  le_n_block := Int32.le_toInt _
  n_block_lt := Int32.toInt_lt _

/-- The call under `-c`: which databuf it is for, what it returns and leaves at that databuf's
key. -/
def CheckParams.runCreate (p : CheckParams) (heap : ℕ → ℕ) (ans : CreateCall → IpcAnswer)
    (k : Ipc Header) : Int32 × CreatePc × Ipc Header :=
  (p.databuf_id, hashpipeDatabufCreate p.createArgs heap ans k)

/-- The databuf `id` with header `h` is what the options describe. -/
structure CheckParams.Asked (p : CheckParams) (id : Int32) (h : Header) : Prop where
  id : id = p.db_id
  header_size : h.header_size = p.header_size
  block_size : (h.block_size : ℤ) = p.blocksize.toInt * 2 ^ 20
  n_block : h.n_block = p.nblock.toInt

section Create

variable {p : CheckParams} {heap : ℕ → ℕ} {ans : CreateCall → IpcAnswer} {k k' : Ipc Header}

/-- Without `-n` there are 24 blocks. -/
theorem checkOptions_nblock {q : CheckParams} {opts : List CheckOption}
    (h : checkOptions q opts = some p) (hnone : ∀ o ∈ opts, ∀ optarg, o ≠ .nblock optarg) :
    p.nblock = q.nblock := by
  induction opts generalizing q with
  | nil =>
    obtain rfl : q = p := Option.some.inj h
    rfl
  | cons o opts ih =>
    obtain ⟨r, hr, hrest⟩ := Option.bind_eq_some_iff.mp h
    rw [ih hrest fun o' ho' => hnone o' (List.mem_cons_of_mem _ ho')]
    cases o with
    | nblock optarg => exact absurd rfl (hnone _ (List.mem_cons_self ..) optarg)
    | help => cases hr
    | shmkey | show_shmkey | instance_id | create | quiet | databuf | blksize | hdrsize =>
      obtain rfl := Option.some.inj hr
      rfl

/-- A header size that is too small ends the call at once. -/
theorem create_refused {a : CreateArgs} (h : a.header_size < sizeofHashpipeDatabufT) :
    hashpipeDatabufCreate a heap ans k = (.failed, k) := by
  have hstep : createStep a heap k .start (ans .key) = (.failed, k) := if_pos h
  have hstay : ∀ n, createRun a heap ans n .failed k = (.failed, k) := by
    intro n
    induction n with
    | zero => rfl
    | succ n ih => exact ih
  show createRun a heap ans (16 + 1) .start k = _
  rw [createRun]
  show createRun a heap ans 16 (createStep a heap k .start (ans .key)).1
    (createStep a heap k .start (ans .key)).2 = _
  rw [hstep]
  exact hstay 16

theorem sizeOfInt_small {n : ℤ} (h : 0 ≤ n) (hlt : n < sizeofHashpipeDatabufT) :
    sizeOfInt n < sizeofHashpipeDatabufT := by
  unfold sizeofHashpipeDatabufT at *
  unfold sizeOfInt
  omega

/-- `int` is wide enough for less than 2 GiB. -/
theorem blockBytes_toInt (h : 0 ≤ p.blocksize.toInt) (hlt : p.blocksize.toInt < 2048) :
    p.blockBytes.toInt = p.blocksize.toInt * 2 ^ 20 := by
  have h1024 : (1024 : Int32).toInt = 1024 := by decide
  rw [CheckParams.blockBytes, Int32.toInt_mul, Int32.toInt_mul, h1024,
    Int.bmod_eq_of_le (n := p.blocksize.toInt * 1024) (by omega) (by omega),
    Int.bmod_eq_of_le (by omega) (by omega)]
  omega

theorem sizeOfInt_blockBytes (h : 0 ≤ p.blocksize.toInt) (hlt : p.blocksize.toInt < 2048) :
    (sizeOfInt p.blockBytes.toInt : ℤ) = p.blocksize.toInt * 2 ^ 20 := by
  rw [blockBytes_toInt h hlt, sizeOfInt]
  omega

/-- The databuf that is made, in terms of the options. -/
theorem runCreate_sized {path : Path}
    (h : (p.runCreate heap ans k).2 = (.returned path, k')) :
    (p.nblock.toInt < 0 ∨ sizeofHashpipeDatabufT ≤ p.nblock.toInt) ∧ 0 ≤ p.db_id.toInt ∧
      (mapped k').header_size = sizeOfInt p.nblock.toInt ∧
      (mapped k').block_size = sizeOfInt p.blockBytes.toInt ∧
      (mapped k').n_block = p.db_id.toInt := by
  have hsized := hashpipeDatabufCreate_sized h
  have hheader := hsized.header_size (by simp) (by simp) (by simp)
  refine ⟨?_, hsized.counted trivial, ?_, ?_, hsized.sized .n_block rfl⟩
  · by_contra hsmall
    obtain ⟨hge, hlt⟩ := not_or.mp hsmall
    exact absurd (sizeOfInt_small (not_lt.mp hge) (not_le.mp hlt)) (not_lt.mpr hheader)
  · exact Int.ofNat_inj.mp (hsized.sized .header_size rfl)
  · exact Int.ofNat_inj.mp (hsized.sized .block_size rfl)

/-- **What `hashpipe_check_databuf -c` makes**, for any options and whatever the calls of
`hashpipe_databuf_create` answer.  Without `-n` it makes nothing and changes nothing.  A databuf
that it makes has the number of the header size, a header of as many bytes as there were to be
blocks (and no fewer than the function's own header), and as many blocks as the databuf's number;
so it is the one asked for exactly if these three are one number. -/
theorem check_databuf_creates {opts : List CheckOption}
    (hopts : checkOptions checkDefaults opts = some p) (heap : ℕ → ℕ)
    (ans : CreateCall → IpcAnswer) (k : Ipc Header) :
    ((∀ o ∈ opts, ∀ optarg, o ≠ .nblock optarg) → (p.runCreate heap ans k).2 = (.failed, k)) ∧
      ∀ path k', (p.runCreate heap ans k).2 = (.returned path, k') →
        (p.nblock.toInt < 0 ∨ sizeofHashpipeDatabufT ≤ p.nblock.toInt) ∧ 0 ≤ p.db_id.toInt ∧
        (mapped k').header_size = sizeOfInt p.nblock.toInt ∧
        (mapped k').n_block = p.db_id.toInt ∧
        (0 ≤ p.blocksize.toInt → p.blocksize.toInt < 2048 →
          (p.Asked (p.runCreate heap ans k).1 (mapped k') ↔ p.databuf_id = p.db_id ∧
            p.header_size = sizeOfInt p.nblock.toInt ∧ p.nblock = p.db_id)) := by
  refine ⟨fun hnone => ?_, fun path k' hrun => ?_⟩
  · have hnblock : p.nblock = 24 := checkOptions_nblock hopts hnone
    refine create_refused ?_
    show sizeOfInt p.nblock.toInt < sizeofHashpipeDatabufT
    rw [hnblock]
    decide
  · obtain ⟨hheader, hcount, hheader_size, hblock_size, hn_block⟩ := runCreate_sized hrun
    refine ⟨hheader, hcount, hheader_size, hn_block, fun hblk hlt => ⟨fun hasked => ?_, ?_⟩⟩
    · refine ⟨hasked.id, hasked.header_size.symm.trans hheader_size, ?_⟩
      exact Int32.toInt_inj.mp (hasked.n_block.symm.trans hn_block)
    · rintro ⟨hid, hsize, hn⟩
      refine ⟨hid, hheader_size.trans hsize.symm, ?_, ?_⟩
      · rw [hblock_size]
        exact sizeOfInt_blockBytes hblk hlt
      · rw [hn_block, hn]

end Create

/-- `-c -n 128 -d 4`. -/
def fourBlocks : List CheckOption :=
  [.create, .nblock ⟨[49, 50, 56], by simp⟩, .databuf ⟨[52], by simp⟩]

def fourParams : CheckParams := { checkDefaults with create := true, nblock := 128, db_id := 4 }

theorem check_databuf_creates_fourBlocks :
    (fourParams.runCreate (fun _ => 0) (fun _ => .ok 1) ⟨none, none⟩).2.1 = .returned .gb1 ∧
    ((∀ o ∈ fourBlocks, ∀ optarg, o ≠ .nblock optarg) →
        (fourParams.runCreate (fun _ => 0) (fun _ => .ok 1) ⟨none, none⟩).2 =
          (.failed, ⟨none, none⟩)) ∧
      ∀ path k', (fourParams.runCreate (fun _ => 0) (fun _ => .ok 1) ⟨none, none⟩).2 =
          (.returned path, k') →
        (fourParams.nblock.toInt < 0 ∨ sizeofHashpipeDatabufT ≤ fourParams.nblock.toInt) ∧
        0 ≤ fourParams.db_id.toInt ∧
        (mapped k').header_size = sizeOfInt fourParams.nblock.toInt ∧
        (mapped k').n_block = fourParams.db_id.toInt ∧
        (0 ≤ fourParams.blocksize.toInt → fourParams.blocksize.toInt < 2048 →
          (fourParams.Asked
              (fourParams.runCreate (fun _ => 0) (fun _ => .ok 1) ⟨none, none⟩).1 (mapped k') ↔
            fourParams.databuf_id = fourParams.db_id ∧
            fourParams.header_size = sizeOfInt fourParams.nblock.toInt ∧
            fourParams.nblock = fourParams.db_id)) :=
  ⟨by decide, @check_databuf_creates fourParams fourBlocks rfl _ _ _⟩

end Hashpipe.Databuf
