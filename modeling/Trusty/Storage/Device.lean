import Mathlib.Algebra.Group.Nat.Defs
import Mathlib.Data.Nat.Basic

/-!
Block devices, block ranges and packed block/mac values, shared by every part
of the storage service.

A mac is kept as an opaque number.  The byte packing of `block_mac` is left
out: only the block number, and whether two macs agree, is ever looked at.
-/

namespace Trusty.Storage

/-- Device parameters read by the file system code.  `size_t` is 32 bits wide
in user space, so a block size always fits the 32-bit super block field. -/
structure BlockDevice where
  blockCount : Nat
  blockSize : Nat
  blockNumSize : Nat
  macSize : Nat
  tamperDetecting : Bool
  blockSize_lt : blockSize < 2 ^ 32
deriving DecidableEq

structure BlockMac where
  block : Nat
  mac : Nat
deriving DecidableEq, Repr

namespace BlockMac

def clear : BlockMac := ⟨0, 0⟩

end BlockMac

/-- Blocks `start` to `stop - 1`. -/
structure BlockRange where
  start : Nat
  stop : Nat
deriving DecidableEq, Repr

/-- `sizeof(data_block_t)`. -/
def dataBlockSize : Nat := 8

/-- `sizeof(struct mac)`. -/
def macStructSize : Nat := 16

end Trusty.Storage
