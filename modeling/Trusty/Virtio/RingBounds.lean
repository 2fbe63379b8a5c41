import Mathlib.Tactic.Ring
import Trusty.Virtio.Vring

/-!
Whether a ring lies in the memory that is mapped for it.

`vring_size` aligns the offset of the used ring and `vring_init` its address.  The
two agree on a page-aligned base while the mask of the alignment stays below a page;
otherwise the used ring may be further up than the mapping reaches.
-/

namespace Trusty.Virtio

open Lib Kernel

/-! ### Where the parts of a ring are -/

section Inside

variable {arch : Arch}

/-- The descriptor table, the avail ring and the used ring are in the mapping. -/
def Vring.Inside (ring : Vring arch) (mapping : Option (Window arch.bits)) : Prop :=
  ∃ window, mapping = some window ∧ window.Covers ring.desc (16 * ring.num.toNat) ∧
    window.Covers ring.avail (4 + 2 * ring.num.toNat) ∧
    window.Covers ring.used (4 + 8 * ring.num.toNat)

/-- The end of the avail ring as an offset, before it is aligned. -/
def availEnd (num : Nat) : Nat := 18 * num + 6

/-- By how much the alignment moves the used ring back from `availEnd + align - 1`. -/
def cleared (num align : Nat) : Nat := (availEnd num + (align - 1)) &&& (align - 1)

/-- The offset of the used ring in a ring that starts at address 0. -/
def usedStart (num align : Nat) : Nat := availEnd num + (align - 1) - cleared num align

def ringEnd (num align : Nat) : Nat := usedStart num align + 6 + 8 * num

/-- The condition on `num` and `align`.  The last part says that aligning the address
of the used ring takes it at most to the end of the pages in which the aligned offset
leaves room: always when `align` is at most a page. -/
structure RingFits (arch : Arch) (num align : Nat) : Prop where
  num_pos : 1 ≤ num
  align_pos : 1 ≤ align
  avail_lt : availEnd num + (align - 1) < 2 ^ arch.bits
  end_lt : ringEnd num align < 2 ^ 32
  pages_lt : ringEnd num align + (pageSize - 1) < 2 ^ arch.bits
  agree : cleared num align < pageSize ∨
    (cleared num align < 2 * pageSize ∧ (usedStart num align + 4 + 8 * num) % pageSize = 0)

end Inside

/-! ### The words in numbers -/

section Words

variable {arch : Arch}

variable {align num : BitVec 32}

theorem toNat_align_sub_one (pos : 1 ≤ align.toNat) :
    (align.setWidth arch.bits - 1).toNat = align.toNat - 1 := by
  obtain ⟨bits, rfl | rfl⟩ := arch <;> simp [BitVec.toNat_sub] <;> omega

theorem toNat_availWord (few : num.toNat < 2 ^ 28) (pos : 1 ≤ align.toNat) :
    (16 * num.setWidth arch.bits + 2 * (3 + num).setWidth arch.bits + align.setWidth
      arch.bits - 1).toNat =
      (availEnd num.toNat + (align.toNat - 1)) % 2 ^ arch.bits := by
  have three : (3 + num.toNat) % 2 ^ 32 = 3 + num.toNat := by omega
  have one := one_mod_word arch
  have sum : 2 ^ arch.bits - 1 + (16 * num.toNat + 2 * (3 + num.toNat) + align.toNat) =
      availEnd num.toNat + (align.toNat - 1) + 2 ^ arch.bits := by
    unfold availEnd
    omega
  simp only [BitVec.ofNat_eq_ofNat, BitVec.toNat_sub, BitVec.toNat_add, BitVec.toNat_mul,
    BitVec.toNat_ofNat, toNat_setWidth_word, three, one, Nat.mod_mul_mod, Nat.add_mod_mod,
    Nat.mod_add_mod, sum, Nat.add_mod_right]

theorem toNat_vringSize (few : num.toNat < 2 ^ 28) (pos : 1 ≤ align.toNat) :
    (vringSize num (align.setWidth arch.bits)).toNat =
      ((availEnd num.toNat + (align.toNat - 1)) % 2 ^ arch.bits -
        ((availEnd num.toNat + (align.toNat - 1)) % 2 ^ arch.bits &&& (align.toNat - 1)) + 6 +
          8 * num.toNat) %
        2 ^ arch.bits % 2 ^ 32 := by
  unfold vringSize
  rw [BitVec.toNat_setWidth, BitVec.toNat_add, BitVec.toNat_add, toNat_and_not,
    toNat_availWord few pos, toNat_align_sub_one pos]
  simp

theorem avail_offset (num : BitVec 32) (p align : arch.Word) :
    ((vringInit num p align).avail - p).toNat = num.toNat * 16 % 2 ^ arch.bits := by
  change (p + num.setWidth arch.bits * 16 - p).toNat = _
  rw [BitVec.add_comm, BitVec.add_sub_cancel, BitVec.toNat_mul, toNat_setWidth_word,
    BitVec.ofNat_eq_ofNat, BitVec.toNat_ofNat, Nat.mul_mod_mod]

theorem used_offset (num : BitVec 32) (p : arch.Word) (pos : 1 ≤ align.toNat) :
    ((vringInit num p (align.setWidth arch.bits)).used - p).toNat =
      (availEnd num.toNat + (align.toNat - 1) + (2 ^ arch.bits -
        ((p.toNat + (availEnd num.toNat + (align.toNat - 1))) % 2 ^ arch.bits &&&
          (align.toNat - 1)))) %
        2 ^ arch.bits := by
  have one := one_mod_word arch
  have sum (start : Nat) :
    2 ^ arch.bits - 1 + (start + num.toNat * 16 + 4 + 2 * num.toNat + 2 + align.toNat) =
      start + (availEnd num.toNat + (align.toNat - 1)) + 2 ^ arch.bits := by
    unfold availEnd
    omega
  have before (start : arch.Word) :
    (start + num.setWidth arch.bits * 16 + 4 + 2 * num.setWidth arch.bits + 2 +
      align.setWidth arch.bits - 1).toNat =
        (start.toNat + (availEnd num.toNat + (align.toNat - 1))) % 2 ^ arch.bits := by
    simp [one, sum]
  have zero : (0 : arch.Word).toNat = 0 := BitVec.toNat_zero
  have relative : p + num.setWidth arch.bits * 16 + 4 + 2 * num.setWidth arch.bits + 2 +
      align.setWidth arch.bits - 1 - p =
        0 + num.setWidth arch.bits * 16 + 4 + 2 * num.setWidth arch.bits + 2 + align.setWidth
        arch.bits - 1 := by
    ring
  change (((p + num.setWidth arch.bits * 16 + 4 + 2 * num.setWidth arch.bits + 2 + align.setWidth
    arch.bits - 1) &&&
    ~~~(align.setWidth arch.bits - 1)) - p).toNat = _
  rw [and_not_eq_sub, sub_right_comm, relative, BitVec.toNat_sub, BitVec.toNat_and, before, before,
    toNat_align_sub_one pos, zero, Nat.zero_add, Nat.add_mod_mod, Nat.add_comm]

end Words

/-! ### Pages -/

theorem and_mod_page {first second : Nat} (mask : Nat)
    (same : first % pageSize = second % pageSize) :
    (first &&& mask) % pageSize = (second &&& mask) % pageSize := by
  unfold pageSize at same ⊢
  rw [show 4096 = 2 ^ 12 from rfl] at same ⊢
  rw [Nat.and_mod_two_pow, Nat.and_mod_two_pow, same]

variable {value : Nat}

/-- Only the low bits are left of a value that has none of the pages of the mask. -/
theorem and_lt_page {mask : Nat} (apart : value / pageSize &&& mask / pageSize = 0) :
    value &&& mask < pageSize := by
  unfold pageSize at apart ⊢
  rw [show 4096 = 2 ^ 12 from rfl, ← Nat.and_div_two_pow] at apart
  omega

/-- Both bits are set in words that differ from all ones only below them. -/
theorem le_and_of_high {mask bits : Nat} (low : value / 2 ^ bits = 1)
    (odd : mask / 2 ^ bits % 2 = 1) :
    2 ^ bits ≤ value &&& mask := by
  have quotient : (value &&& mask) / 2 ^ bits = 1 := by
    rw [Nat.and_div_two_pow, low, Nat.one_and_eq_mod_two, odd]
  exact (Nat.le_div_iff_mul_le (Nat.two_pow_pos bits)).mp quotient.ge |>.trans' (by omega)

section Pages

variable {arch : Arch}

def ringPages (arch : Arch) (num align : BitVec 32) : Nat :=
  (roundup ((vringSize num (align.setWidth arch.bits)).setWidth arch.bits)
    (BitVec.ofNat arch.bits pageSize)).toNat

theorem ringPages_eq (num align : BitVec 32) : ringPages arch num align =
    ((vringSize num (align.setWidth arch.bits)).toNat + (pageSize - 1)) % 2 ^ arch.bits /
      pageSize * pageSize := by
  unfold ringPages
  rw [toNat_roundup, toNat_setWidth_word]

section

variable (arch : Arch) (num align : BitVec 32)

theorem ringPages_lt : ringPages arch num align < 2 ^ arch.bits :=
  BitVec.isLt _

theorem ringPages_mod : ringPages arch num align % pageSize = 0 := by
  rw [ringPages_eq, Nat.mul_mod_left]

theorem ringPages_le :
    ringPages arch num align ≤ (vringSize num (align.setWidth arch.bits)).toNat +
      (pageSize - 1) := by
  rw [ringPages_eq]
  exact (Nat.div_mul_le_self _ _).trans (Nat.mod_le _ _)

def Vring.At (base : arch.Word) : Prop :=
  (vringInit num base (align.setWidth arch.bits)).Inside
    (some ⟨base, ringPages arch num align, ringPages_lt arch num align⟩)

end

theorem at_iff {num : BitVec 32} (align : BitVec 32) (base : arch.Word) (pos : 1 ≤ num.toNat) :
    Vring.At arch num align base ↔ 16 * num.toNat ≤ ringPages arch num align ∧
      num.toNat * 16 % 2 ^ arch.bits + (4 + 2 * num.toNat) ≤ ringPages arch num align ∧
      ((vringInit num base (align.setWidth arch.bits)).used - base).toNat + (4 + 8 * num.toNat) ≤
        ringPages arch num align := by
  have desc : ((vringInit num base (align.setWidth arch.bits)).desc - base).toNat = 0 := by
    change (base - base).toNat = 0
    rw [BitVec.sub_self, BitVec.toNat_zero]
  have same : (vringInit num base (align.setWidth arch.bits)).num = num := rfl
  have table : 16 * num.toNat ≠ 0 := by omega
  have availed : 4 + 2 * num.toNat ≠ 0 := by omega
  have used : 4 + 8 * num.toNat ≠ 0 := by omega
  simp only [Vring.At, Vring.Inside, Option.some.injEq, exists_eq_left', Window.covers_iff, same,
    desc, avail_offset, table, availed, used, false_or, Nat.zero_add]

theorem initVring_ok {vq : Vqueue arch} {vring : FwRscVdevVring} {spot : Option (Spot arch)}
    (ok : (initVring vq vring spot).ret = noError) :
    (ringPages arch vring.num vring.align = 0 ∧ (initVring vq vring spot).mapping = none) ∨
      ∃ place, spot = some place ∧ ringPages arch vring.num vring.align ≠ 0 ∧
        (initVring vq vring spot).mapping =
          some ⟨place.base, ringPages arch vring.num vring.align, ringPages_lt _ _ _⟩ ∧
        (initVring vq vring spot).vq.vring = vringInit vring.num place.base
          (vring.align.setWidth arch.bits) := by
  unfold initVring vqueueInit at ok ⊢
  simp only at ok ⊢
  split at ok
  case isTrue failed => exact absurd ok failed
  case isFalse succeeded =>
    rw [not_not] at succeeded
    rw [if_neg (not_not.mpr succeeded)]
    obtain ⟨empty, unmapped⟩ | ⟨nonempty, place, found, mapped⟩ := vmmAllocPhysical_ok succeeded
    · exact .inl ⟨(congrArg BitVec.toNat empty).trans BitVec.toNat_zero, unmapped⟩
    right
    refine ⟨place, found, ?_, mapped, ?_⟩
    · intro zero
      exact nonempty (BitVec.eq_of_toNat_eq (zero.trans BitVec.toNat_zero.symm))
    · rw [mapped]
      rfl

end Pages

/-! ### The condition suffices -/

section Sufficient

variable {arch : Arch} {num align : BitVec 32}

theorem le_usedStart (num align : Nat) : availEnd num ≤ usedStart num align := by
  have masked : cleared num align ≤ align - 1 := Nat.and_le_right
  unfold usedStart
  omega

section

variable (fits : RingFits arch num.toNat align.toNat)

include fits

theorem RingFits.few : num.toNat < 2 ^ 28 := by
  have below := fits.end_lt
  have start := le_usedStart num.toNat align.toNat
  unfold ringEnd at below
  unfold availEnd at start
  omega

theorem RingFits.vringSize_eq :
    (vringSize num (align.setWidth arch.bits)).toNat = ringEnd num.toNat align.toNat := by
  rw [toNat_vringSize fits.few fits.align_pos, Nat.mod_eq_of_lt fits.avail_lt]
  change ringEnd num.toNat align.toNat % 2 ^ arch.bits % 2 ^ 32 = _
  rw [Nat.mod_eq_of_lt (Nat.lt_of_le_of_lt (Nat.le_add_right _ _) fits.pages_lt),
    Nat.mod_eq_of_lt fits.end_lt]

theorem RingFits.ringPages_eq :
    ringPages arch num align = (ringEnd num.toNat align.toNat + (pageSize - 1)) /
      pageSize * pageSize := by
  rw [Virtio.ringPages_eq, fits.vringSize_eq, Nat.mod_eq_of_lt fits.pages_lt]

end

/-- Aligning the address clears the same bits below a page as aligning the offset. -/
theorem cleared_mod_page (arch : Arch) (num align : Nat) {base : Nat}
    (aligned : base % pageSize = 0) :
    ((base + (availEnd num + (align - 1))) % 2 ^ arch.bits &&& (align - 1)) % pageSize =
      cleared num align % pageSize := by
  apply and_mod_page
  rw [mod_word_mod_page, Nat.add_mod, aligned, Nat.zero_add, Nat.mod_mod]

section

variable (fits : RingFits arch num.toNat align.toNat)

include fits

theorem RingFits.used_le (place : Spot arch) :
    ((vringInit num place.base (align.setWidth arch.bits)).used - place.base).toNat +
      (4 + 8 * num.toNat) ≤
      ringPages arch num align := by
  rw [used_offset num place.base fits.align_pos, fits.ringPages_eq]
  have low := cleared_mod_page arch num.toNat align.toNat place.aligned
  have masked : ((place.base.toNat + (availEnd num.toNat + (align.toNat - 1))) % 2 ^ arch.bits &&&
      (align.toNat - 1)) ≤ align.toNat - 1 := Nat.and_le_right
  generalize ((place.base.toNat + (availEnd num.toNat + (align.toNat - 1))) % 2 ^ arch.bits &&&
      (align.toNat - 1)) = back at low masked ⊢
  have below := fits.avail_lt
  have offset : (availEnd num.toNat + (align.toNat - 1) + (2 ^ arch.bits - back)) % 2 ^ arch.bits =
      availEnd num.toNat + (align.toNat - 1) - back := by
    rw [show availEnd num.toNat + (align.toNat - 1) + (2 ^ arch.bits - back) =
      availEnd num.toNat + (align.toNat - 1) - back + 2 ^ arch.bits by omega, Nat.add_mod_right]
    exact Nat.mod_eq_of_lt (by omega)
  have start : usedStart num.toNat align.toNat =
    availEnd num.toNat + (align.toNat - 1) - cleared num.toNat align.toNat := rfl
  have agree := fits.agree
  unfold ringEnd
  unfold pageSize at low agree ⊢
  omega

theorem RingFits.at (place : Spot arch) : Vring.At arch num align place.base := by
  have few := fits.few
  have start := le_usedStart num.toNat align.toNat
  have word := word_cases arch
  have pages : 18 * num.toNat + 4 ≤ ringPages arch num align := by
    rw [fits.ringPages_eq]
    unfold ringEnd
    unfold availEnd at start
    unfold pageSize
    omega
  refine (at_iff align place.base fits.num_pos).mpr ⟨by omega, ?_, fits.used_le place⟩
  rw [Nat.mod_eq_of_lt (by omega)]
  omega

theorem RingFits.ringPages_ne_zero : ringPages arch num align ≠ 0 := by
  rw [fits.ringPages_eq]
  unfold ringEnd pageSize
  omega

end

end Sufficient

/-! ### The condition is necessary -/

/-- A page-aligned base that takes an offset to a chosen address. -/
theorem exists_spot (arch : Arch) {offset target : Nat} (below : target < 2 ^ arch.bits)
    (page : target % pageSize = offset % pageSize) (other : target ≠ offset % 2 ^ arch.bits) :
    ∃ place : Spot arch, (place.base.toNat + offset) % 2 ^ arch.bits = target := by
  have split := Nat.div_add_mod offset (2 ^ arch.bits)
  have reached :
    ((target + (2 ^ arch.bits - offset % 2 ^ arch.bits)) % 2 ^ arch.bits + offset) % 2 ^ arch.bits =
      target := by
    rw [Nat.mod_add_mod, show target + (2 ^ arch.bits - offset % 2 ^ arch.bits) + offset =
      target + 2 ^ arch.bits * (offset / 2 ^ arch.bits + 1) by rw [Nat.mul_add]; omega,
      Nat.add_mul_mod_self_left,
      Nat.mod_eq_of_lt below]
  obtain ⟨base, reached⟩ : ∃ base : arch.Word, (base.toNat + offset) % 2 ^ arch.bits = target := by
    refine ⟨BitVec.ofNat arch.bits (target + (2 ^ arch.bits - offset % 2 ^ arch.bits)), ?_⟩
    rwa [BitVec.toNat_ofNat]
  refine ⟨⟨base, ?_, ?_⟩, reached⟩
  · have low := mod_word_mod_page arch (base.toNat + offset)
    unfold pageSize at low page ⊢
    omega
  · intro zero
    rw [zero, show (0 : arch.Word).toNat = 0 from BitVec.toNat_zero, Nat.zero_add] at reached
    exact other reached.symm

section Necessary

variable {arch : Arch} {num align : BitVec 32}

theorem few_of_at {base : arch.Word} (pos : 1 ≤ num.toNat) (inside : Vring.At arch num align base) :
    18 * num.toNat + 4 ≤ ringPages arch num align ∧ num.toNat < 2 ^ 28 := by
  obtain ⟨table, availed, -⟩ := (at_iff align base pos).mp inside
  have bound := ringPages_lt arch num align
  have size := ringPages_le arch num align
  rw [Nat.mod_eq_of_lt (by omega)] at availed
  unfold pageSize at size
  omega

theorem exists_first_page (arch : Arch) : ∃ place : Spot arch, place.base.toNat = pageSize := by
  have word := word_cases arch
  have below : pageSize < 2 ^ arch.bits := by
    unfold pageSize
    omega
  have page : pageSize % pageSize = 0 % pageSize := by rw [Nat.mod_self, Nat.zero_mod]
  have other : pageSize ≠ 0 % 2 ^ arch.bits := by
    rw [Nat.zero_mod]
    decide
  obtain ⟨place, reached⟩ := exists_spot arch below page other
  exact ⟨place, by rwa [Nat.add_zero, Nat.mod_eq_of_lt place.base.isLt] at reached⟩

/-- An alignment of 0 clears every bit of the address of the used ring. -/
theorem used_zero (num : BitVec 32) (base : arch.Word) :
    (vringInit num base (BitVec.ofNat arch.bits 0)).used = BitVec.ofNat arch.bits 0 := by
  change _ &&& ~~~(BitVec.ofNat arch.bits 0 - BitVec.ofNat arch.bits 1) = BitVec.ofNat arch.bits 0
  rw [BitVec.zero_sub, BitVec.neg_one_eq_allOnes, BitVec.not_allOnes, BitVec.and_zero]

/-- If the sum in `vring_size` wraps around, the ring takes less space than its parts. -/
theorem pages_le_of_wrap (few : num.toNat < 2 ^ 28) (aligned : 1 ≤ align.toNat)
    (word : 2 ^ arch.bits = 2 ^ 32) (wraps : 2 ^ 32 ≤ availEnd num.toNat + (align.toNat - 1)) :
    ringPages arch num align ≤ 17 * num.toNat + 4103 := by
  have size := ringPages_le arch num align
  have rounded := toNat_and_not_le (BitVec.ofNat arch.bits (availEnd num.toNat + (align.toNat - 1)))
    (align.setWidth arch.bits - 1)
  rw [toNat_vringSize few aligned, word] at size
  rw [toNat_and_not, BitVec.toNat_ofNat, toNat_align_sub_one aligned, word] at rounded
  unfold availEnd at wraps size rounded
  have masked : (18 * num.toNat + 6 + (align.toNat - 1)) % 2 ^ 32 -
      ((18 * num.toNat + 6 + (align.toNat - 1)) % 2 ^ 32 &&& (align.toNat - 1)) ≤
        18 * num.toNat + 6 + (align.toNat - 1) - 2 ^ 32 := by omega
  unfold pageSize at size
  omega

/-- Some base takes the end of the avail ring to an address that has none of the pages of
the mask. -/
theorem exists_target (arch : Arch) {offset mask : Nat} (below : offset < 2 ^ arch.bits)
    (less : mask ≤ offset) :
    ∃ target, target < 2 ^ arch.bits ∧ target % pageSize = offset % pageSize ∧
    target ≠ offset % 2 ^ arch.bits ∧
      target / pageSize &&& mask / pageSize = 0 := by
  have word := word_cases arch
  rw [Nat.mod_eq_of_lt below]
  unfold pageSize
  by_cases first : offset < 4096
  · have none : mask / 4096 = 0 := by omega
    exact ⟨4096 + offset, by omega, by omega, by omega, by rw [none, Nat.and_zero]⟩
  · have none : offset % 4096 / 4096 = 0 := by omega
    exact ⟨offset % 4096, by omega, by omega, by omega, by rw [none, Nat.zero_and]⟩

theorem usedStart_even (num align : Nat) : usedStart num align % 2 = 0 := by
  have low : cleared num align % 2 = (align - 1) % 2 := by
    have bit := Nat.and_mod_two_pow (a := availEnd num + (align - 1)) (b := align - 1) (n := 1)
    have same : (availEnd num + (align - 1)) % 2 ^ 1 = (align - 1) % 2 ^ 1 := by
      unfold availEnd
      omega
    rwa [same, Nat.and_self] at bit
  unfold usedStart availEnd
  omega

variable (every : ∀ place : Spot arch, Vring.At arch num align place.base) (pos : 1 ≤ num.toNat)

include every pos

theorem used_le_of_at (aligned : 1 ≤ align.toNat) (target : Nat) (below : target < 2 ^ arch.bits)
    (page : target % pageSize = (availEnd num.toNat + (align.toNat - 1)) % pageSize)
    (other : target ≠ (availEnd num.toNat + (align.toNat - 1)) % 2 ^ arch.bits) :
    (availEnd num.toNat + (align.toNat - 1) + (2 ^ arch.bits - (target &&& (align.toNat - 1)))) %
      2 ^ arch.bits + (4 + 8 * num.toNat) ≤ ringPages arch num align := by
  obtain ⟨place, reached⟩ := exists_spot arch below page other
  have used := ((at_iff align place.base pos).mp (every place)).2.2
  rwa [used_offset num place.base aligned, reached] at used

theorem align_pos_of_at : 1 ≤ align.toNat := by
  by_contra! less
  have zero : align = 0#32 := BitVec.eq_of_toNat_eq (by rw [Nat.lt_one_iff.mp less]; rfl)
  obtain ⟨place, base⟩ := exists_first_page arch
  have used := ((at_iff align place.base pos).mp (every place)).2.2
  have bound := ringPages_lt arch num align
  have whole := ringPages_mod arch num align
  have word := word_cases arch
  generalize ringPages arch num align = pages at used bound whole
  rw [zero, BitVec.setWidth_zero, used_zero, BitVec.toNat_sub, base, BitVec.toNat_ofNat,
    Nat.zero_mod, Nat.add_zero,
    Nat.mod_eq_of_lt (Nat.sub_lt (Nat.two_pow_pos _) (by decide))] at used
  unfold pageSize at used whole
  omega

/-- A ring in which the sum wraps around can be put where the used ring is near the end of
the address space. -/
theorem avail_lt_of_at
    (aligned : 1 ≤ align.toNat)
    (few : 18 * num.toNat + 4 ≤ ringPages arch num align ∧ num.toNat < 2 ^ 28) :
    availEnd num.toNat + (align.toNat - 1) < 2 ^ arch.bits := by
  by_contra! wraps
  have word : 2 ^ arch.bits = 2 ^ 32 := by
    have word := word_cases arch
    unfold availEnd at wraps
    omega
  rw [word] at wraps
  have short := pages_le_of_wrap few.2 aligned word wraps
  have used := used_le_of_at every pos aligned
    (2 ^ 17 + (availEnd num.toNat + (align.toNat - 1)) % pageSize)
  rw [word] at used
  unfold availEnd at wraps used
  unfold pageSize at used
  have high : 2 ^ 17 ≤ (2 ^ 17 + (18 * num.toNat + 6 + (align.toNat - 1)) % 4096) &&&
      (align.toNat - 1) := by
    apply le_and_of_high <;> omega
  have low : (2 ^ 17 + (18 * num.toNat + 6 + (align.toNat - 1)) % 4096) &&&
      (align.toNat - 1) < 2 ^ 17 + 4096 := by
    apply Nat.lt_of_le_of_lt Nat.and_le_left
    omega
  have bound := used (by omega) (by omega) (by omega)
  rw [Nat.mod_eq_sub_mod (by omega), Nat.mod_eq_of_lt (by omega)] at bound
  omega

theorem highest_le_of_at
    (aligned : 1 ≤ align.toNat) (below : availEnd num.toNat + (align.toNat - 1) < 2 ^ arch.bits) :
    availEnd num.toNat + (align.toNat - 1) - cleared num.toNat
      align.toNat % pageSize + (4 + 8 * num.toNat) ≤
      ringPages arch num align := by
  obtain ⟨target, inside, page, other, apart⟩ := exists_target arch below (Nat.le_add_left _ _)
  have used := used_le_of_at every pos aligned target inside page other
  have back : target &&& (align.toNat - 1) = cleared num.toNat align.toNat % pageSize := by
    rw [← Nat.mod_eq_of_lt (and_lt_page apart)]
    exact and_mod_page _ page
  have masked : target &&& (align.toNat - 1) ≤ align.toNat - 1 := Nat.and_le_right
  rw [back] at used masked
  rwa
    [show availEnd
      num.toNat + (align.toNat - 1) + (2 ^ arch.bits - cleared num.toNat align.toNat % pageSize) =
    availEnd num.toNat + (align.toNat - 1) - cleared num.toNat align.toNat % pageSize + 2 ^
    arch.bits by omega,
    Nat.add_mod_right, Nat.mod_eq_of_lt (by omega)] at used

theorem fits_of_at : RingFits arch num.toNat align.toNat := by
  have aligned := align_pos_of_at every pos
  have few := few_of_at pos (every (exists_first_page arch).choose)
  have below := avail_lt_of_at every pos aligned few
  have highest := highest_le_of_at every pos aligned below
  have size : ringPages arch num align =
      (ringEnd num.toNat align.toNat % 2 ^ arch.bits % 2 ^ 32 + (pageSize - 1)) % 2 ^ arch.bits /
        pageSize * pageSize := by
    rw [ringPages_eq, toNat_vringSize few.2 aligned, Nat.mod_eq_of_lt below]
    rfl
  have masked : cleared num.toNat align.toNat ≤ align.toNat - 1 := Nat.and_le_right
  have even := usedStart_even num.toNat align.toNat
  have start : usedStart num.toNat align.toNat =
    availEnd num.toNat + (align.toNat - 1) - cleared num.toNat align.toNat := rfl
  have ended :
      ringEnd num.toNat align.toNat = usedStart num.toNat align.toNat + 6 + 8 * num.toNat := rfl
  have word := word_cases arch
  have end_lt : ringEnd num.toNat align.toNat < 2 ^ 32 := by
    by_contra! wraps
    have less : ringEnd num.toNat align.toNat % 2 ^ arch.bits % 2 ^ 32 ≤ ringEnd num.toNat
        align.toNat - 2 ^ 32 := by
      unfold availEnd at start below
      obtain word | word := word <;> rw [word] at below ⊢ <;> omega
    have short :=
      (Nat.div_mul_le_self
        ((ringEnd num.toNat align.toNat % 2 ^ arch.bits % 2 ^ 32 + (pageSize - 1)) %
      2 ^ arch.bits) pageSize).trans (Nat.mod_le _ _)
    unfold pageSize at *
    omega
  have word_lt : ringEnd num.toNat align.toNat < 2 ^ arch.bits := by omega
  rw [Nat.mod_eq_of_lt word_lt, Nat.mod_eq_of_lt end_lt] at size
  have pages_lt : ringEnd num.toNat align.toNat + (pageSize - 1) < 2 ^ arch.bits := by
    by_contra! wraps
    rw [Nat.mod_eq_sub_mod wraps, Nat.mod_eq_of_lt (by unfold pageSize; omega)] at size
    unfold pageSize at *
    omega
  rw [Nat.mod_eq_of_lt pages_lt] at size
  refine ⟨pos, aligned, below, end_lt, pages_lt, ?_⟩
  unfold pageSize at *
  omega

end Necessary

/-! ### Rings of a descriptor -/

section Descriptor

variable {arch : Arch}

theorem initVring_succeeds (vq : Vqueue arch) (vring : FwRscVdevVring)
    (aligned : vring.da.toNat % pageSize = 0) (place : Spot arch) :
    (initVring vq vring (some place)).ret = noError := by
  have whole := ringPages_mod arch vring.num vring.align
  unfold ringPages at whole
  have mapped :
    (vmmAllocPhysical
      (roundup ((vringSize vring.num (vring.align.setWidth arch.bits)).setWidth arch.bits)
      (BitVec.ofNat arch.bits pageSize)) (vring.da.setWidth arch.bits) (some place)).1 =
      noError := by
    unfold vmmAllocPhysical
    split
    case isTrue => rfl
    case isFalse =>
      rw [if_neg (by rw [toNat_setWidth_word]; omega)]
  unfold initVring vqueueInit
  simp only
  rw [if_neg (not_not.mpr mapped)]

theorem inside_iff_at (vq : Vqueue arch) {vring : FwRscVdevVring} {place : Spot arch}
    (ok : (initVring vq vring (some place)).ret = noError) :
    (initVring vq vring (some place)).vq.vring.Inside (initVring vq vring (some place)).mapping ↔
      ringPages arch vring.num vring.align ≠ 0 ∧
      Vring.At arch vring.num vring.align place.base := by
  obtain ⟨empty, unmapped⟩ | ⟨_, found, nonempty, mapped, ring⟩ := initVring_ok ok
  · rw [unmapped]
    constructor
    · rintro ⟨window, contra, -⟩
      cases contra
    · rintro ⟨nonempty, -⟩
      exact absurd empty nonempty
  · cases found
    rw [mapped, ring]
    exact ⟨fun inside => ⟨nonempty, inside⟩, And.right⟩

def descrOf (num align : BitVec 32) : TipcVdevDescr :=
  { type := rscVdev
    id := virtioIdTipc
    status := virtioConfigSAcknowledge ||| virtioConfigSDriver ||| virtioConfigSDriverOk
    numOfVrings := BitVec.ofNat 8 tipcVqNum
    vrings := fun _ => ⟨0, align, num, 0⟩ }

theorem validateDescr_descrOf (num align : BitVec 32) :
    validateDescr (descrOf num align) = noError := rfl

/-- Whatever ring address the descriptor has and wherever the ring is mapped. -/
theorem ring_inside_iff (num align : BitVec 32) :
    (∀ descr, validateDescr descr = noError → ∀ index, (descr.vrings index).num = num →
      (descr.vrings index).align = align → ∀ (vq : Vqueue arch) (spot : Option (Spot arch)),
        (initVring vq (descr.vrings index) spot).ret = noError →
          1 ≤ num.toNat ∧ (initVring vq (descr.vrings index) spot).vq.vring.Inside
            (initVring vq (descr.vrings index) spot).mapping) ↔
      RingFits arch num.toNat align.toNat := by
  constructor
  · intro inside
    have held (place : Spot arch) : 1 ≤ num.toNat ∧ Vring.At arch num align place.base := by
      have ok := initVring_succeeds Vqueue.zeroed ((descrOf num align).vrings tipcVqTx)
        (Nat.zero_mod _) place
      have found := inside _ (validateDescr_descrOf num align) tipcVqTx rfl rfl Vqueue.zeroed
        (some place) ok
      exact ⟨found.1, ((inside_iff_at Vqueue.zeroed ok).mp found.2).2⟩
    obtain ⟨place, -⟩ := exists_first_page arch
    exact fits_of_at (fun place => (held place).2) (held place).1
  · rintro fits descr - index rfl rfl vq spot ok
    refine ⟨fits.num_pos, ?_⟩
    obtain ⟨empty, -⟩ | ⟨place, rfl, -⟩ := initVring_ok ok
    · exact absurd empty fits.ringPages_ne_zero
    · exact (inside_iff_at vq ok).mpr ⟨fits.ringPages_ne_zero, fits.at place⟩

end Descriptor

def firstPage : Spot arm := ⟨4096, by decide, by decide⟩

/-- The size of a ring with 165191050 entries wraps around to 16 bytes: one page is mapped. -/
theorem ring_outside :
    validateDescr (descrOf 165191050 1) = noError ∧
      (initVring Vqueue.zeroed ((descrOf 165191050 1).vrings tipcVqTx) (some firstPage)).ret =
        noError ∧
      ¬ (initVring Vqueue.zeroed ((descrOf 165191050 1).vrings tipcVqTx)
        (some firstPage)).vq.vring.Inside
        (initVring Vqueue.zeroed ((descrOf 165191050 1).vrings tipcVqTx)
          (some firstPage)).mapping := by
  have ok := initVring_succeeds Vqueue.zeroed ((descrOf 165191050 1).vrings tipcVqTx)
    (Nat.zero_mod _) firstPage
  refine ⟨rfl, ok, ?_⟩
  intro inside
  obtain ⟨-, within⟩ := (inside_iff_at Vqueue.zeroed ok).mp inside
  obtain ⟨table, -⟩ := (at_iff 1 firstPage.base (by decide)).mp within
  exact absurd table (by decide +kernel)

end Trusty.Virtio
