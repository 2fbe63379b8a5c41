import Mathlib.SetTheory.Cardinal.Arithmetic

/-!
Key derivation from a keyed hash, by extraction and expansion.

Keys and messages are strings over any alphabet.  A keyed hash with values of one
length can only be injective over an infinite one, so nothing here asks for bytes.
-/

namespace Trusty.Lib

open List

variable {α : Type} {size : Nat}

/-- A keyed hash with values of one length. -/
structure Mac (α : Type) (size : Nat) where
  tag : List α → List α → List α
  length_tag : ∀ key message, (tag key message).length = size

namespace Mac

variable (mac : Mac α size) (counter : Nat → α)

/-- A value belongs to one key and one message. -/
def Injective : Prop :=
  ∀ key message key' message', mac.tag key message = mac.tag key' message' → key = key' ∧
    message = message'

/-- The blocks of the expansion from `index` on, each one a hash over the one before it. -/
def blocks (prk info : List α) : Nat → Nat → List α → List (List α)
  | 0, _, _ => []
  | count + 1, index, last =>
    let next := mac.tag prk (last ++ info ++ [counter index])
    next :: blocks prk info count (index + 1) next

def expand (prk info : List α) (len : Nat) : List α :=
  ((mac.blocks counter prk info ((len + size - 1) / size) 1 []).flatten).take len

def derive (salt ikm info : List α) (len : Nat) : List α :=
  mac.expand counter (mac.tag salt ikm) info len

variable {mac counter} {prk info salt ikm : List α} {len : Nat}

theorem length_flatten_blocks (count index : Nat) (last : List α) :
    (mac.blocks counter prk info count index last).flatten.length = count * size := by
  induction count generalizing index last with
  | zero => simp [blocks]
  | succ count ih =>
    rw [blocks, flatten_cons, length_append, ih, mac.length_tag, Nat.succ_mul, Nat.add_comm]

theorem length_expand (nonempty : 0 < size) : (mac.expand counter prk info len).length = len := by
  rw [expand, length_take, length_flatten_blocks]
  have covers := Nat.lt_mul_div_succ (len + size - 1) nonempty
  rw [Nat.mul_add, Nat.mul_comm size] at covers
  omega

theorem take_expand (nonempty : 0 < size) (wanted : 0 < len) :
    (mac.expand counter prk info len).take size = (mac.tag prk (info ++ [counter 1])).take len := by
  have one : (len + size - 1) / size = (len - 1) / size + 1 := by
    rw [show len + size - 1 = len - 1 + size by omega, Nat.add_div_right _ nonempty]
  rw [expand, one, blocks, flatten_cons, nil_append, take_take, Nat.min_comm, ← take_take,
    take_append_of_le_length (Nat.le_of_eq (mac.length_tag _ _).symm),
    take_of_length_le (Nat.le_of_eq (mac.length_tag _ _))]

theorem expand_of_le (nonempty : 0 < size) (wanted : 0 < len) (short : len ≤ size) :
    mac.expand counter prk info len = (mac.tag prk (info ++ [counter 1])).take len := by
  rw [← take_expand nonempty wanted, take_of_length_le]
  exact (Nat.le_of_eq (length_expand nonempty)).trans short

/-- A whole block of an injective hash tells what it was derived from. -/
theorem derive_injective {salt' ikm' info' : List α} (injective : mac.Injective)
    (nonempty : 0 < size) (whole : size ≤ len)
    (same : mac.derive counter salt ikm info len = mac.derive counter salt' ikm' info' len) :
    salt = salt' ∧ ikm = ikm' ∧ info = info' := by
  have firstBlocks := congrArg (List.take size) same
  simp only [derive, take_expand nonempty (nonempty.trans_le whole)] at firstBlocks
  rw [take_of_length_le (by rw [mac.length_tag]; exact whole),
    take_of_length_le (by rw [mac.length_tag]; exact whole)] at firstBlocks
  obtain ⟨sameKey, sameMessage⟩ := injective _ _ _ _ firstBlocks
  obtain ⟨sameSalt, sameIkm⟩ := injective _ _ _ _ sameKey
  exact ⟨sameSalt, sameIkm, append_cancel_right sameMessage⟩

/-- Over an infinite alphabet there are injective hashes, also such that the values
differ in no place before the last. -/
theorem exists_injective_agreeing [Infinite α] (short : len < size) :
    ∃ mac : Mac α size, mac.Injective ∧
      ∀ key message key' message', (mac.tag key message).take len = (mac.tag key' message').take
        len := by
  have sameCardinal : Cardinal.mk (List α × List α) = Cardinal.mk α := by
    rw [Cardinal.mk_prod, Cardinal.lift_id, Cardinal.mk_list_eq_mk,
      Cardinal.mul_eq_self (Cardinal.aleph0_le_mk α)]
  obtain ⟨code⟩ := Cardinal.eq.mp sameCardinal
  obtain ⟨filler⟩ := (inferInstance : Nonempty α)
  refine ⟨⟨fun key message => List.replicate (size - 1) filler ++ [code (key, message)], ?_⟩,
    ?_, ?_⟩
  · intro key message
    rw [length_append, length_replicate, length_singleton]
    omega
  · intro key message key' message' same
    have sameCode := append_cancel_left same
    rw [singleton_inj] at sameCode
    exact Prod.mk.inj (code.injective sameCode)
  · intro key message key' message'
    have before : len ≤ (List.replicate (size - 1) filler).length := by
      rw [length_replicate]
      omega
    rw [take_append_of_le_length before, take_append_of_le_length before]

end Mac

end Trusty.Lib
