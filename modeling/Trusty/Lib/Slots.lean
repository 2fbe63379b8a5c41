import Mathlib.Data.List.Basic
import Mathlib.Data.List.GetD

/-!
Fixed-size slot arrays whose used entries come first.

An array of `size` slots holding the entries `entries` is `pad zero size
entries`: the entries, then empty slots.  `moveSlots`, `copySlots` and
`clearSlots` are `memmove`, `memcpy` and `memset` counted in slots, and
`shiftSlots` is the insert-or-delete built from them.  The lemmas read each use
of `shiftSlots` on a padded array as an operation on the list of entries.
-/

namespace Trusty.Lib

open List

variable {α : Type}

/-- `memmove(slots + dest, slots + src, count)`. -/
def moveSlots (slots : List α) (dest src count : Nat) : List α :=
  slots.take dest ++ (slots.drop src).take count ++ slots.drop (dest + count)

/-- `memcpy(slots + dest, fresh, length of fresh)`. -/
def copySlots (slots : List α) (dest : Nat) (fresh : List α) : List α :=
  slots.take dest ++ fresh ++ slots.drop (dest + fresh.length)

/-- `memset(slots + start, 0, rest of the array)`. -/
def clearSlots (zero : α) (slots : List α) (start : Nat) : List α :=
  slots.take start ++ List.replicate (slots.length - start) zero

/-- Shift the slots from `src` on to `dest`.  Shifting up (`src < dest`) inserts
the first `dest - src` of `fresh` and returns what left the array at its end,
which is `fresh` itself when it would start past the end.  Shifting down
deletes, and clears the slots that became unused. -/
def shiftSlots (zero : α) (slots : List α) (dest src : Nat) (fresh : List α) :
    List α × List α :=
  let count := slots.length
  if src < dest then
    if src = count then
      (slots, fresh.take (dest - src))
    else
      (copySlots (moveSlots slots dest src (count - max src dest)) src
          (fresh.take (dest - src)),
        slots.drop (count - (dest - src)))
  else if src < count then
    (clearSlots zero (moveSlots slots dest src (count - max src dest))
      (count + dest - src), [])
  else
    (clearSlots zero slots dest, [])

/-- The slot array of length `size` that holds `entries`. -/
def pad (zero : α) (size : Nat) (entries : List α) : List α :=
  entries ++ List.replicate (size - entries.length) zero

/-- The slot array of length `size` that holds as many of `entries` as fit. -/
def fill (zero : α) (size : Nat) (entries : List α) : List α :=
  (pad zero size entries).take size

section Pad

variable {zero : α} {size : Nat}

variable {entries before after : List α}

@[simp]
theorem length_pad (fits : entries.length ≤ size) : (pad zero size entries).length = size := by
  simp only [pad, length_append, length_replicate]
  omega

@[simp]
theorem getD_pad (entries : List α) (index : Nat) :
    (pad zero size entries).getD index zero = entries.getD index zero := by
  simp only [pad, getD_eq_getElem?_getD, List.getElem?_append, List.getElem?_replicate]
  by_cases inside : index < entries.length
  · rw [if_pos inside]
  · rw [if_neg inside, List.getElem?_eq_none (by omega)]
    split <;> rfl

theorem pad_full (full : size ≤ entries.length) : pad zero size entries = entries := by
  simp [pad, Nat.sub_eq_zero_of_le full]

theorem set_pad {index : Nat} (inside : index < entries.length) (value : α) :
    (pad zero size entries).set index value = pad zero size (entries.set index value) := by
  simp [pad, set_append_left _ _ inside]

theorem clearSlots_append (kept junk : List α) :
    clearSlots zero (kept ++ junk) kept.length = kept ++ List.replicate junk.length zero := by
  simp [clearSlots]

/-- Shifting down deletes. -/
theorem shiftSlots_down (slots : List α) (fresh : List α) {dest src : Nat} (below : dest ≤ src) :
    shiftSlots zero slots dest src
      fresh = (pad zero slots.length (slots.take dest ++ slots.drop src), []) := by
  rw [shiftSlots, if_neg (Nat.not_lt.mpr below), Nat.max_eq_left below]
  split
  case isTrue inside =>
    have kept : slots.length + dest - src = (slots.take dest ++ slots.drop src).length := by
      rw [length_append, length_take, length_drop]
      omega
    have rest : (slots.drop (dest + (slots.length - src))).length = 
        slots.length - (slots.take dest ++ slots.drop src).length := by
      rw [length_append, length_take, length_drop, length_drop]
      omega
    have moved : (slots.drop src).take (slots.length - src) = slots.drop src :=
      take_of_length_le (Nat.le_of_eq length_drop)
    rw [moveSlots, moved, kept, clearSlots_append, rest, pad]
  case isFalse outside =>
    have nothing : slots.drop src = [] := drop_eq_nil_of_le (by omega)
    rw [clearSlots, nothing, append_nil, pad, length_take]
    congr 3
    omega

theorem shiftSlots_clear (fits : entries.length ≤ size) {start src : Nat} (outside : size ≤ src)
    (below : start ≤ src) :
    (shiftSlots zero (pad zero size entries) start src []).1 = pad zero size
      (entries.take start) := by
  rw [shiftSlots_down _ _ below, drop_eq_nil_of_le (by rwa [length_pad fits]), append_nil,
    length_pad fits]
  simp only [pad, take_append, length_take, length_append, length_replicate, take_replicate,
    append_assoc, replicate_append_replicate]
  congr 2
  omega

/-- Shifting up inserts, and returns what no longer fits. -/
theorem shiftSlots_up (front back : List α) {fresh : List α}
    (fits : fresh.length = 1 ∨ fresh.length ≤ back.length) (unused : List α) :
    shiftSlots zero (front ++ back) (front.length + fresh.length) front.length (fresh ++ unused) =
      ((front ++ fresh ++ back).take (front ++ back).length,
        (front ++ fresh ++ back).drop (front ++ back).length) := by
  rcases eq_or_ne fresh [] with rfl | some
  · rw [length_nil, Nat.add_zero, shiftSlots_down _ _ (Nat.le_refl _), take_append_drop,
      pad_full (Nat.le_refl _), append_nil, take_length, drop_length]
  have positive := length_pos_of_ne_nil some
  rw [shiftSlots, if_pos (Nat.lt_add_of_pos_right positive), Nat.add_sub_cancel_left, take_left]
  split
  case isTrue full =>
    have empty : back = [] := by simpa using full
    simp [empty]
  case isFalse notFull =>
    have bound : fresh.length ≤ back.length := by
      rw [length_append] at notFull
      omega
    obtain ⟨kept, lost, rfl, size⟩ : ∃ kept lost, back = kept ++ lost ∧
        lost.length = fresh.length :=
      ⟨back.take (back.length - fresh.length), back.drop (back.length - fresh.length),
        (take_append_drop _ _).symm, by rw [length_drop]; omega⟩
    have count :
        (front ++ (kept ++ lost)).length - max front.length (front.length + fresh.length) =
          kept.length := by
      simp only [length_append]
      omega
    have whole : (front ++ (kept ++ lost)).length = (front ++ fresh ++ kept).length := by
      simp only [length_append]
      omega
    have start : (front ++ (kept ++ lost)).length - fresh.length = (front ++ kept).length := by
      simp only [length_append]
      omega
    have opened : (front ++ (kept ++ lost)).take (front.length + fresh.length) =
        front ++ (kept ++ lost).take fresh.length := take_length_add_append _
    have moved : moveSlots (front ++ (kept ++ lost)) (front.length + fresh.length) front.length
      kept.length =
        front ++ (kept ++ lost).take fresh.length ++ kept := by
      rw [moveSlots, opened, drop_left, take_left, drop_eq_nil_of_le, append_nil]
      simp only [length_append]
      omega
    have junk :
        (front ++ (kept ++ lost).take fresh.length).length = front.length + fresh.length := by
      rw [length_append, length_take_of_le bound]
    rw [count, moved, start, whole, ← append_assoc (front ++ fresh), take_left,
      drop_left, ← append_assoc front, drop_left, copySlots, drop_left' junk,
      append_assoc front (take _ _), take_left]

theorem shiftSlots_delete {deleted : List α} (fits : (before ++ (deleted ++ after)).length ≤ size) :
    (shiftSlots zero (pad zero size (before ++ (deleted ++ after))) before.length
      (before.length + deleted.length) []).1 = pad zero size (before ++ after) := by
  have split : pad zero size (before ++ (deleted ++ after)) = before ++ deleted ++
      (after ++ List.replicate (size - (before ++ (deleted ++ after)).length) zero) := by
    simp [pad]
  rw [shiftSlots_down _ _ (Nat.le_add_right _ _), length_pad fits, split,
    drop_left' (by simp), append_assoc, take_left]
  simp only [pad, append_assoc, replicate_append_replicate, length_append,
    length_replicate] at fits ⊢
  congr 3
  omega

theorem shiftSlots_insert (value : α) (fits : (before ++ after).length ≤ size) :
    shiftSlots zero (pad zero size (before ++ after)) (before.length + 1) before.length [value] =
      ((pad zero (size + 1) (before ++ value :: after)).take size,
        (pad zero (size + 1) (before ++ value :: after)).drop size) := by
  have old : pad zero size (before ++ after) =
      before ++ (after ++ List.replicate (size - (before ++ after).length) zero) :=
      append_assoc _ _ _
  have new : pad zero (size + 1) (before ++ value :: after) = before ++ [value] ++
      (after ++ List.replicate (size - (before ++ after).length) zero) := by
    simp only [pad, append_assoc, length_append, length_cons, cons_append, nil_append]
    congr 4
    omega
  have shifted := @shiftSlots_up _ zero before
    (after ++ List.replicate (size - (before ++ after).length) zero) [value] (.inl rfl) []
  rw [← old, length_pad fits, ← new] at shifted
  exact shifted

theorem shiftSlots_append {fresh : List α} {count : Nat} (fits : entries.length + count ≤ size)
    (enough : count ≤ fresh.length) :
    shiftSlots zero (pad zero size entries) (entries.length + count) entries.length fresh =
      (pad zero size (entries ++ fresh.take count), List.replicate count zero) := by
  have whole : (pad zero size entries).length = size := length_pad (by omega)
  have taken : (fresh.take count).length = count := length_take_of_le enough
  have longer : entries ++ fresh.take count ++ List.replicate (size - entries.length) zero =
      pad zero size (entries ++ fresh.take count) ++ List.replicate count zero := by
    rw [pad, append_assoc _ _ (List.replicate count zero), replicate_append_replicate,
      length_append, taken]
    congr 2
    omega
  have shifted := @shiftSlots_up _ zero entries (List.replicate (size - entries.length) zero)
    (fresh.take count) (.inr (by rw [taken, length_replicate]; omega)) (fresh.drop count)
  rw [taken, take_append_drop, longer, ← pad, whole, take_left' (length_pad ?_),
    drop_left' (length_pad ?_)] at shifted
  · exact shifted
  all_goals rw [length_append, taken]; exact fits

section Fill

variable {entries : List α}

@[simp]
theorem length_fill : (fill zero size entries).length = size := by
  simp only [fill, pad, length_take, length_append, length_replicate]
  omega

theorem fill_eq_pad (fits : entries.length ≤ size) :
    fill zero size entries = pad zero size entries :=
  take_of_length_le (Nat.le_of_eq (length_pad fits))

theorem fill_full (full : size ≤ entries.length) :
    fill zero size entries = entries.take size := by
  rw [fill, pad_full full]

theorem fill_nil : fill zero size [] = List.replicate size zero := by
  simp [fill, pad]

variable {value : α} {index : Nat} {before after : List α}

theorem fill_singleton : fill zero (size + 1) [value] = value :: List.replicate size zero := by
  simp [fill, pad]

theorem getD_fill (inside : index < size) :
    (fill zero size entries).getD index zero = entries.getD index zero := by
  have padded : (pad zero size entries).getD index zero = entries.getD index zero :=
    getD_pad entries index
  rw [← padded]
  simp [fill, List.getElem?_take, if_pos inside]

theorem getD_fill_of_length_le (fits : entries.length ≤ size) (index : Nat) :
    (fill zero size entries).getD index zero = entries.getD index zero := by
  rw [fill_eq_pad fits, getD_pad]

theorem fill_set (inside : index < entries.length) :
    (fill zero size entries).set index value = fill zero size (entries.set index value) := by
  rw [fill, fill, ← set_pad inside, take_set]

theorem set_fill_append {old : α} :
    (fill zero size (before ++ old :: after)).set before.length value =
      fill zero size (before ++ value :: after) := by
  rw [fill_set (by simp), set_append_right _ _ (Nat.le_refl _), Nat.sub_self, set_cons_zero]

theorem set_fill_pair (size : Nat) (zero : α) (before after : List α)
    (first second newFirst newSecond : α) :
    ((fill zero size (before ++ first :: second :: after)).set before.length newFirst).set
        (before.length + 1) newSecond =
      fill zero size (before ++ newFirst :: newSecond :: after) := by
  have next : (fill zero size ((before ++ [newFirst]) ++ second :: after)).set
      (before ++ [newFirst]).length newSecond =
      fill zero size ((before ++ [newFirst]) ++ newSecond :: after) := set_fill_append
  rw [set_fill_append]
  simpa using next

theorem take_pad_succ (fits : entries.length ≤ size + 1) :
    (pad zero (size + 1) entries).take size = fill zero size entries := by
  simp only [fill, pad, take_append, take_replicate]
  congr 2
  omega

theorem drop_pad_succ (fits : entries.length ≤ size + 1) :
    (pad zero (size + 1) entries).drop size = [entries.getD size zero] := by
  have whole : (pad zero (size + 1) entries).length = size + 1 := length_pad fits
  have last : (pad zero (size + 1) entries).getD size zero = entries.getD size zero :=
    getD_pad entries size
  have inside : size < (pad zero (size + 1) entries).length := by omega
  rw [← last, drop_eq_getElem_cons inside, drop_eq_nil_of_le (by omega)]
  simp [getD_eq_getElem?_getD, inside]

theorem shiftSlots_fill_insert (zero value : α) (fits : (before ++ after).length ≤ size) :
    shiftSlots zero (fill zero size (before ++ after)) (before.length + 1) before.length [value] =
      (fill zero size (before ++ value :: after),
        [(before ++ value :: after).getD size zero]) := by
  have longer : (before ++ value :: after).length ≤ size + 1 := by
    simp only [length_append, length_cons] at fits ⊢
    omega
  rw [fill_eq_pad fits, shiftSlots_insert value fits, take_pad_succ longer, drop_pad_succ longer]

theorem shiftSlots_fill_room (zero value : α) (room : (before ++ after).length < size) :
    shiftSlots zero (fill zero size (before ++ after)) (before.length + 1) before.length [value] =
      (fill zero size (before ++ value :: after), [zero]) := by
  have nothing : (before ++ value :: after).getD size zero = zero := by
    apply getD_eq_default
    simp only [length_append, length_cons] at room ⊢
    omega
  rw [shiftSlots_fill_insert zero value (Nat.le_of_lt room), nothing]

theorem set_fill_length (room : entries.length < size) :
    (fill zero size entries).set entries.length value = fill zero size (entries ++ [value]) := by
  obtain ⟨unused, unusedEq⟩ : ∃ unused, size - entries.length = unused + 1 :=
    ⟨size - entries.length - 1, by omega⟩
  have padded : fill zero size entries = fill zero size (entries ++ [zero]) := by
    have same : size - (entries ++ [zero]).length = unused := by
      simp only [length_append, length_singleton]
      omega
    rw [fill, fill, pad, pad, unusedEq, same, replicate_succ, append_assoc]
    rfl
  rw [padded, set_fill_append]

theorem shiftSlots_fill_delete (zero value : α) (fits : (before ++ value :: after).length ≤ size) :
    (shiftSlots zero (fill zero size (before ++ value :: after)) before.length
      (before.length + 1) []).1 =
      fill zero size (before ++ after) := by
  have shorter : (before ++ after).length ≤ size := by
    simp only [length_append, length_cons] at fits ⊢
    omega
  rw [fill_eq_pad fits, fill_eq_pad shorter]
  have deleted : (shiftSlots zero (pad zero size (before ++ ([value] ++ after))) before.length
      (before.length + [value].length) []).1 = pad zero size (before ++ after) :=
    shiftSlots_delete fits
  exact deleted

theorem shiftSlots_fill_append (zero : α) {source : Nat} {others : List α}
    (fits : entries.length + others.length ≤ size) (sourceFits : others.length ≤ source) :
    shiftSlots zero (fill zero size entries) (entries.length + others.length) entries.length
        (fill zero source others) =
      (fill zero size (entries ++ others), List.replicate others.length zero) := by
  have taken : (fill zero source others).take others.length = others := by
    rw [fill_eq_pad sourceFits, pad, take_left]
  rw [fill_eq_pad (by omega), shiftSlots_append fits (by simpa using sourceFits), taken,
    fill_eq_pad (by simpa using fits)]

end Fill

end Pad

/-! ### Slots as bytes -/

section Bytes

variable {β : Type} {bytes : α → List β} {size : Nat} (fixed : ∀ value, (bytes value).length = size)

include fixed

theorem length_flatMap_fixed (slots : List α) :
    (slots.flatMap bytes).length = slots.length * size := by
  induction slots with
  | nil => exact (Nat.zero_mul size).symm
  | cons value rest ih =>
    rw [flatMap_cons, length_append, fixed, ih, length_cons, Nat.succ_mul, Nat.add_comm]

theorem take_flatMap (slots : List α) (count : Nat) :
    (slots.flatMap bytes).take (count * size) = (slots.take count).flatMap bytes := by
  rcases Nat.le_total count slots.length with inside | outside
  · have length : ((slots.take count).flatMap bytes).length = count * size := by
      rw [length_flatMap_fixed fixed, length_take_of_le inside]
    conv_lhs => rw [← take_append_drop count slots, flatMap_append, take_left' length]
  · rw [take_of_length_le outside, take_of_length_le]
    rw [length_flatMap_fixed fixed]
    exact Nat.mul_le_mul_right size outside

theorem drop_flatMap (slots : List α) (count : Nat) :
    (slots.flatMap bytes).drop (count * size) = (slots.drop count).flatMap bytes := by
  apply (append_right_inj ((slots.take count).flatMap bytes)).mp
  rw [← flatMap_append, take_append_drop, ← take_flatMap fixed, take_append_drop]

/-- The slots are moved, copied and cleared as the bytes of the array. -/
theorem shiftSlots_flatMap {zero : α} {null : β} (empty : bytes zero = replicate size null)
    (positive : 0 < size) (slots fresh : List α) (dest src : Nat) :
    shiftSlots null (slots.flatMap bytes) (dest * size) (src * size) (fresh.flatMap bytes) =
      Prod.map (·.flatMap bytes) (·.flatMap bytes) (shiftSlots zero slots dest src fresh) := by
  have zeros (count : Nat) :
      replicate (count * size) null = (replicate count zero).flatMap bytes := by
    rw [flatMap_replicate, empty, flatten_replicate_replicate]
  have moved (dest src count : Nat) : moveSlots (slots.flatMap bytes) (dest * size) (src * size)
    (count * size) =
      (moveSlots slots dest src count).flatMap bytes := by
    simp only [moveSlots, flatMap_append, take_flatMap fixed, drop_flatMap fixed, ← Nat.add_mul]
  have copied (slots fresh : List α) (dest : Nat) :
    copySlots (slots.flatMap bytes) (dest * size) (fresh.flatMap bytes) =
      (copySlots slots dest fresh).flatMap bytes := by
    simp only [copySlots, flatMap_append, take_flatMap fixed, drop_flatMap fixed,
      length_flatMap_fixed fixed, ← Nat.add_mul]
  have cleared (slots : List α) (start : Nat) :
    clearSlots null (slots.flatMap bytes) (start * size) =
      (clearSlots zero slots start).flatMap bytes := by
    simp only [clearSlots, flatMap_append, take_flatMap fixed,
      length_flatMap_fixed fixed, ← Nat.sub_mul, zeros]
  simp only [shiftSlots, length_flatMap_fixed fixed, Nat.mul_lt_mul_right positive,
    Nat.mul_left_inj (Nat.ne_of_gt positive), ← Nat.sub_mul, ← Nat.add_mul, Nat.mul_max_mul_right,
    take_flatMap fixed, drop_flatMap fixed, moved, copied, cleared]
  split_ifs <;> rfl

end Bytes

end Trusty.Lib
