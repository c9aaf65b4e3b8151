import Mathlib.Tactic

/-!
# Return codes

The exit codes of `hashpipe_error.h` that the modelled functions return.
-/

namespace Hashpipe

def hashpipeOk : ℤ := 0
/-- Call timed out. -/
def hashpipeTimeout : ℤ := 1
/-- Super non-informative. -/
def hashpipeErrGen : ℤ := -1
/-- Failed system call. -/
def hashpipeErrSys : ℤ := -2

end Hashpipe
