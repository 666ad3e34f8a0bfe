import Mathlib
/-!
# `sys.c`: what its functions have in common

Ids and the `int`s of a call are numbers of 32 bits. A call returns a value or an error number; a value of the C
functions that is not an error and has no meaning is left out.
-/

namespace Sys

/-- `uid_t` and `gid_t`. -/
abbrev Id := Fin (2 ^ 32)

instance Id.neZero : NeZero (2 ^ 32 : ℕ) := ⟨by decide⟩

/-- An `int`. -/
abbrev CInt := BitVec 32

/-- The error numbers; `other` are those of security modules. -/
inductive Errno
  | EPERM | ESRCH | EAGAIN | ENOMEM | EACCES | EFAULT | EINVAL
  | other (n : ℕ)
  deriving DecidableEq, Repr

end Sys
