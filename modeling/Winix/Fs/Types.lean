/-
**Constants of the file system.**

`include/fs/*.h`, `include/sys/errno.h`. A `char` of the machine is a word, so all sizes are in
words.
-/

import Winix.Kernel.Proc

namespace Winix.Fs

open Kernel (Word ProcNr)

/-! ### Errors -/

/-- `ENOENT`. -/
def enoent : Int := -2
/-- `ENXIO`. -/
def enxio : Int := -6
/-- `EBADF`. -/
def ebadf : Int := -9
/-- `ENOMEM`. -/
def enomem : Int := -12
/-- `EACCES`. -/
def eacces : Int := -13
/-- `EFAULT`. -/
def efault : Int := -14
/-- `EEXIST`. -/
def eexist : Int := -17
/-- `ENOTDIR`. -/
def enotdir : Int := -20
/-- `EISDIR`. -/
def eisdir : Int := -21
/-- `ENFILE`. -/
def enfile : Int := -23
/-- `EMFILE`. -/
def emfile : Int := -24
/-- `ENOSPC`. -/
def enospc : Int := -28
/-- `EPIPE`. -/
def epipe : Int := -32
/-- `ERANGE`. -/
def erange : Int := -34
/-- `ENAMETOOLONG`. -/
def enametoolong : Int := -36
/-- `ENOSYS`. -/
def enosys : Int := -38

/-! ### Sizes -/

/-- `BLOCK_SIZE`. -/
def blockSize : Nat := 1024

/-- One more than the largest `unsigned int`. -/
def wordSize : Nat := 2 ^ 32

end Winix.Fs
