import Mathlib.Data.Int.Notation
/-!
# Error numbers

The numbers of `asm-generic/errno-base.h`, as drivers return them, negated.
-/

namespace Errno

def ENOMEM : ℤ := 12

def EBUSY : ℤ := 16

def ENODEV : ℤ := 19

def EINVAL : ℤ := 22

end Errno
