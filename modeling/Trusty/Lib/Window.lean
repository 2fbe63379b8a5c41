import Mathlib.Data.BitVec
import Mathlib.Data.Nat.Bitwise

/-!
Address ranges in machine words.

Addresses are words and wrap around; a range has a base and a length in bytes
that is smaller than the address space.  Rounding to an alignment clears the
bits of a mask.
-/

namespace Trusty.Lib

/-- The addresses from `base` on. -/
structure Window (w : Nat) where
  base : BitVec w
  size : Nat
  size_lt : size < 2 ^ w
deriving DecidableEq

namespace Window

variable {w : Nat}

section

variable (window : Window w) (addr : BitVec w)

def contains : Prop :=
  (addr - window.base).toNat < window.size

/-- All of `len` bytes at `addr` are addresses of the window. -/
def Covers (len : Nat) : Prop :=
  ∀ index < len, window.contains (addr + BitVec.ofNat w index)

theorem covers_iff (len : Nat) :
    window.Covers addr len ↔ len = 0 ∨ (addr - window.base).toNat + len ≤ window.size := by
  have offset (index : Nat) : (addr + BitVec.ofNat w index - window.base).toNat =
      ((addr - window.base).toNat + index) % 2 ^ w := by
    have swap : addr + BitVec.ofNat w index - window.base = addr - window.base + BitVec.ofNat
        w index := by
      rw [BitVec.sub_eq_add_neg, BitVec.sub_eq_add_neg]
      ac_rfl
    rw [swap, BitVec.toNat_add, BitVec.toNat_ofNat, Nat.add_mod_mod]
  have bound := window.size_lt
  constructor
  · intro covered
    by_contra outside
    push Not at outside
    -- the first byte behind the window, or the first byte if that is outside already
    by_cases inside : (addr - window.base).toNat < window.size
    · have missed := covered (window.size - (addr - window.base).toNat) (by omega)
      unfold contains at missed
      rw [offset, Nat.add_sub_cancel' inside.le, Nat.mod_eq_of_lt bound] at missed
      exact Nat.lt_irrefl _ missed
    · have missed := covered 0 (by omega)
      unfold contains at missed
      rw [offset, Nat.add_zero, Nat.mod_eq_of_lt (addr - window.base).isLt] at missed
      exact inside missed
  · rintro (empty | fits) index less
    · omega
    · unfold contains
      rw [offset, Nat.mod_eq_of_lt (by omega)]
      omega

end

theorem Covers.part {window : Window w} {addr : BitVec w} {len offset size : Nat}
    (covered : window.Covers addr len) (within : offset + size ≤ len) :
    window.Covers (addr + BitVec.ofNat w offset) size := by
  intro index less
  have inside := covered (offset + index) (by omega)
  rwa [BitVec.ofNat_add, ← BitVec.add_assoc] at inside

end Window

/-! ### Masks -/

variable {w : Nat}

theorem and_not_eq_sub (word mask : BitVec w) : word &&& ~~~mask = word - (word &&& mask) := by
  have disjoint : (word &&& ~~~mask) &&& (word &&& mask) = 0#w := by
    ext index
    simp only [BitVec.getElem_and, BitVec.getElem_not, BitVec.getElem_zero]
    cases word[index] <;> cases mask[index] <;> rfl
  have join : (word &&& ~~~mask) ||| (word &&& mask) = word := by
    ext index
    simp only [BitVec.getElem_or, BitVec.getElem_and, BitVec.getElem_not]
    cases word[index] <;> cases mask[index] <;> rfl
  rw [BitVec.eq_sub_iff_add_eq, BitVec.add_eq_or_of_and_eq_zero _ _ disjoint, join]

theorem toNat_and_not (word mask : BitVec w) :
    (word &&& ~~~mask).toNat = word.toNat - (word.toNat &&& mask.toNat) := by
  rw [and_not_eq_sub, BitVec.toNat_sub_of_le, BitVec.toNat_and]
  exact Nat.and_le_left

theorem toNat_and_not_le (word mask : BitVec w) :
    (word &&& ~~~mask).toNat ≤ 2 ^ w - 1 - mask.toNat := by
  rw [BitVec.toNat_and, BitVec.toNat_not]
  exact Nat.and_le_right

end Trusty.Lib
