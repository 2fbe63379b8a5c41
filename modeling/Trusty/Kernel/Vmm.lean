import Trusty.Lib.Window

/-!
Words of the machine and `vmm_alloc_physical` of the kernel.

`size_t`, `unsigned long`, `paddr_t` and pointers have 32 or 64 bits.
-/

namespace Trusty.Kernel

open Lib

def noError : Int := 0
def errNoMemory : Int := -5
def errNotValid : Int := -7
def errInvalidArgs : Int := -8
def errNotEnoughBuffer : Int := -9
def errChannelClosed : Int := -15
def errTooBig : Int := -25
def errBadState : Int := -31

def pageSize : Nat := 4096

/-- The width of `size_t`, `unsigned long` and pointers. -/
structure Arch where
  bits : Nat
  is : bits = 32 ∨ bits = 64
deriving DecidableEq

def arm : Arch := ⟨32, .inl rfl⟩

def arm64 : Arch := ⟨64, .inr rfl⟩

abbrev Arch.Word (arch : Arch) := BitVec arch.bits

def roundup {w : Nat} (value size : BitVec w) : BitVec w := (value + (size - 1)) &&& ~~~(size - 1)

/-- A free place in the address space of the kernel. -/
structure Spot (arch : Arch) where
  base : arch.Word
  aligned : base.toNat % pageSize = 0
  nonzero : base ≠ 0

section Vmm

variable {arch : Arch}

/-- `vmm_alloc_physical`, with the place that `alloc_region` finds: what it returns
and what it maps.  For size 0 it returns before it sets the pointer. -/
def vmmAllocPhysical (size paddr : arch.Word) (spot : Option (Spot arch)) :
    Int × Option (Window arch.bits) :=
  if size = 0 then (noError, none)
  else if paddr.toNat % pageSize ≠ 0 ∨ size.toNat % pageSize ≠ 0 then (errInvalidArgs, none)
  else
    match spot with
    | none => (errNoMemory, none)
    | some spot => (noError, some ⟨spot.base, size.toNat, size.isLt⟩)

variable {size paddr : arch.Word} {spot : Option (Spot arch)}

theorem vmmAllocPhysical_ok (ok : (vmmAllocPhysical size paddr spot).1 = noError) :
    (size = 0 ∧ (vmmAllocPhysical size paddr spot).2 = none) ∨
      (size ≠ 0 ∧ ∃ place, spot = some place ∧
        (vmmAllocPhysical size paddr spot).2 = some ⟨place.base, size.toNat, size.isLt⟩) := by
  unfold vmmAllocPhysical at ok ⊢
  split at ok
  case isTrue empty =>
    rw [if_pos empty]
    exact .inl ⟨empty, rfl⟩
  case isFalse nonempty =>
    split at ok
    case isTrue => cases ok
    case isFalse aligned =>
      rw [if_neg nonempty, if_neg aligned]
      cases spot with
      | none => cases ok
      | some place => exact .inr ⟨nonempty, place, rfl, rfl⟩

theorem vmmAllocPhysical_failed (failed : (vmmAllocPhysical size paddr spot).1 ≠ noError) :
    (vmmAllocPhysical size paddr spot).2 = none := by
  unfold vmmAllocPhysical at failed ⊢
  split
  case isTrue => rfl
  case isFalse nonempty =>
    rw [if_neg nonempty] at failed
    split
    case isTrue => rfl
    case isFalse aligned =>
      rw [if_neg aligned] at failed
      cases spot with
      | none => rfl
      | some place => exact absurd rfl failed

end Vmm

/-! ### Words as numbers -/

section Words

variable {arch : Arch}

@[simp]
theorem toNat_setWidth_word (value : BitVec 32) :
    (value.setWidth arch.bits).toNat = value.toNat := by
  obtain ⟨bits, rfl | rfl⟩ := arch
  · simp
  · simp only [BitVec.toNat_setWidth]
    omega

theorem one_mod_word (arch : Arch) : 1 % 2 ^ arch.bits = 1 := by
  obtain ⟨bits, rfl | rfl⟩ := arch <;> rfl

theorem word_cases (arch : Arch) : 2 ^ arch.bits = 2 ^ 32 ∨ 2 ^ arch.bits = 2 ^ 64 := by
  obtain ⟨bits, rfl | rfl⟩ := arch
  · exact .inl rfl
  · exact .inr rfl

theorem mod_word_mod_page (arch : Arch) (value : Nat) :
    value % 2 ^ arch.bits % pageSize = value % pageSize := by
  apply Nat.mod_mod_of_dvd
  obtain ⟨bits, rfl | rfl⟩ := arch
  · exact ⟨2 ^ 20, rfl⟩
  · exact ⟨2 ^ 52, rfl⟩

theorem toNat_roundup_mask {value size : arch.Word} {k : Nat}
    (mask : (size - 1).toNat = 2 ^ k - 1) :
    (roundup value size).toNat = (value.toNat + (2 ^ k - 1)) % 2 ^ arch.bits / 2 ^ k * 2 ^ k := by
  have clear := toNat_and_not (value + (size - 1)) (size - 1)
  rw [BitVec.toNat_add, mask, Nat.and_two_pow_sub_one_eq_mod] at clear
  unfold roundup
  rw [clear]
  have parts := Nat.div_add_mod' ((value.toNat + (2 ^ k - 1)) % 2 ^ arch.bits) (2 ^ k)
  exact Nat.sub_eq_of_eq_add parts.symm

theorem toNat_roundup (value : arch.Word) :
    (roundup value (BitVec.ofNat arch.bits pageSize)).toNat = (value.toNat + (pageSize - 1)) % 2 ^
      arch.bits / pageSize * pageSize := by
  have mask : (BitVec.ofNat arch.bits pageSize - 1).toNat = 2 ^ 12 - 1 := by
    obtain ⟨bits, rfl | rfl⟩ := arch <;> rfl
  exact toNat_roundup_mask mask

end Words

end Trusty.Kernel
