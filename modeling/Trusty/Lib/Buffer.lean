import Mathlib.Data.List.Basic

/-!
Parts of a flat buffer.
-/

namespace Trusty.Lib

open List

variable {α : Type}

def slice (buf : List α) (pos len : Nat) : List α := (buf.drop pos).take len

def overwrite (buf : List α) (pos : Nat) (data : List α) : List α :=
  buf.take pos ++ (data ++ buf.drop (pos + data.length))

section

variable {buf data : List α} {pos len : Nat}

@[simp]
theorem overwrite_nil (buf : List α) (pos : Nat) : overwrite buf pos [] = buf := by
  simp [overwrite]

theorem length_overwrite (fits : pos + data.length ≤ buf.length) :
    (overwrite buf pos data).length = buf.length := by
  simp only [overwrite, length_append, length_take, length_drop]
  omega

theorem length_slice (fits : pos + len ≤ buf.length) : (slice buf pos len).length = len := by
  rw [slice, length_take, length_drop]
  omega

theorem slice_of_prefix_drop (lies : data <+: buf.drop pos) (length : data.length = len) :
    slice buf pos len = data := by
  rw [slice, ← length]
  exact (prefix_iff_eq_take.mp lies).symm

theorem prefix_drop_slice : slice buf pos len <+: buf.drop pos := take_prefix _ _

theorem append_prefix_drop {rest : List α} :
    data ++ rest <+: buf.drop pos ↔
    data <+: buf.drop pos ∧ rest <+: buf.drop (pos + data.length) := by
  constructor
  · rintro ⟨behind, whole⟩
    rw [append_assoc] at whole
    refine ⟨⟨rest ++ behind, whole⟩, behind, ?_⟩
    rw [← drop_drop, ← whole, drop_left]
  · rintro ⟨⟨tail, first⟩, behind, second⟩
    refine ⟨behind, ?_⟩
    rw [← drop_drop, ← first, drop_left] at second
    rw [append_assoc, second, first]

variable {first : Nat}

theorem slice_slice {size : Nat} (within : first + size ≤ len) :
    slice (slice buf pos len) first size = slice buf (pos + first) size := by
  rw [slice, slice, slice, drop_take, take_take, drop_drop, Nat.min_eq_left (by omega)]

section

variable (fits : pos + data.length ≤ buf.length)

include fits

theorem slice_overwrite (short : len ≤ data.length) :
    slice (overwrite buf pos data) pos len = data.take len := by
  have position : (buf.take pos).length = pos := by
    rw [length_take]
    omega
  rw [slice, overwrite, drop_append_of_le_length (Nat.le_of_eq position.symm),
    drop_of_length_le (Nat.le_of_eq position), nil_append, take_append_of_le_length short]

theorem slice_overwrite_before (before : first + len ≤ pos) :
    slice (overwrite buf pos data) first len = slice buf first len := by
  have position : (buf.take pos).length = pos := by
    rw [length_take]
    omega
  rw [slice, slice, overwrite, drop_append_of_le_length (by omega),
    take_append_of_le_length (by rw [length_drop, position]; omega), drop_take,
    take_take, Nat.min_eq_left (by omega)]

theorem slice_overwrite_after (after : pos + data.length ≤ first) :
    slice (overwrite buf pos data) first len = slice buf first len := by
  have position : (buf.take pos).length = pos := by
    rw [length_take]
    omega
  have split : first = (buf.take pos ++ data).length + (first - (pos + data.length)) := by
    rw [length_append, position]
    omega
  rw [slice, slice, overwrite, ← append_assoc]
  conv_lhs => rw [split]
  rw [drop_append, drop_of_length_le (Nat.le_add_right _ _), nil_append,
    Nat.add_sub_cancel_left, drop_drop, Nat.add_sub_of_le after]

end

end

end Trusty.Lib
