import Trusty.Storage.BlockTreeShape

/-!
What the copy-on-write helpers of a tree update do to the path.

Each helper may move the nodes on the path to other blocks; the frames stay the
same up to `Relabel`.
-/

namespace Trusty.Storage

open Lib AllocProgram BTree List

/-- `post` holds of every tree with entries such as `changed` asks for. -/
def Yields (config : TreeConfig) (changed : List (Nat × Nat) → Prop) (post : Tree → Prop) : Prop :=
  ∀ newHeight newTree, Root config newHeight newTree → changed newTree.entries →
    post (newTree.embed config)

/-- `post` holds of every path up the frames, with new blocks for them. -/
def Relabels (config : TreeConfig) (frames : List Frame) (key : Nat)
    (post : List PathEntry → Prop) : Prop :=
  ∀ newFrames newEntries, Relabel frames newFrames → Above config newFrames key newEntries →
    post newEntries

section Dirty

variable {config : TreeConfig} (updatable : config.Updatable) {block key : Nat}
  {frames : List Frame} {entry : PathEntry} {entries : List PathEntry}
  {post : List PathEntry → Prop}

include updatable

theorem blockTreeBlockDirty_ensures {post : Nat → Prop}
    (next : ∀ newBlock, (block ≠ 0 → newBlock ≠ 0) → post newBlock) :
    ensures (blockTreeBlockDirty config block) post := by
  by_cases copying : config.copyOnWrite = true
  · simp only [blockTreeBlockDirty, if_pos copying]
    intro answer
    cases answer with
    | true =>
      -- the node moves to a new block, and the old one is given back
      simp only [if_true, ensures_bind, ensures_require]
      exact ⟨updatable copying, fun newBlock nonzero => next newBlock fun _ => nonzero⟩
    | false => exact next block id
  · simp only [blockTreeBlockDirty, if_neg copying]
    exact next block id

theorem blockTreePathPutDirty_ensures (above : Above config frames key entries)
    (next : Relabels config frames key post) :
    ensures (blockTreePathPutDirty config entries) post := by
  induction frames generalizing key entries post with
  | nil =>
    obtain rfl := above.nil_inv
    exact next [] [] (Relabel.refl _) trivial
  | cons frame frames ih =>
    obtain ⟨entry, entries, rfl⟩ := above.cons_inv
    rcases above with ⟨index, inner, block, keys, slots, prevKey, nextKey, outer⟩
    simp only [blockTreePathPutDirty, ensures_bind]
    apply blockTreeBlockDirty_ensures updatable
    intro newBlock nonzero
    apply ih outer
    intro newFrames newEntries same newOuter
    apply next (⟨newBlock, frame.left, frame.right⟩ :: newFrames)
    · exact List.Forall₂.cons ⟨rfl, rfl, block ▸ nonzero⟩ same
    · exact ⟨index, inner, rfl, keys, slots, prevKey, nextKey, newOuter⟩

theorem blockTreePathPutDirty_entry (outer : Above config frames key entries)
    (next : ∀ block, (entry.node.block ≠ 0 → block ≠ 0) → Relabels config frames key
      fun newEntries =>
        post ({ entry with node := { entry.node with block := block } } :: newEntries)) :
    ensures (blockTreePathPutDirty config (entry :: entries)) post := by
  simp only [blockTreePathPutDirty, ensures_bind]
  apply blockTreeBlockDirty_ensures updatable
  intro block nonzero
  exact blockTreePathPutDirty_ensures updatable outer (next block nonzero)

end Dirty

section UpdateKey

variable {config : TreeConfig}

variable {frame : Frame} {key newKey : Nat}

theorem Frame.getD_keys_left (nonempty : frame.left ≠ []) :
    (frame.keys key).getD (frame.left.length - 1) 0 = key := by
  rcases exists_cons_of_ne_nil nonempty with ⟨child, rest, leftEq⟩
  simp [Frame.keys, leftEq]

theorem Frame.getD_keys_right (frame : Frame) (key : Nat) :
    (frame.keys key).getD frame.left.length 0 = (frame.right.map BTree.firstKey).getD 0 0 := by
  cases leftEq : frame.left with
  | nil => simp [Frame.keys, leftEq]
  | cons child rest =>
    have lengths : (rest.map BTree.firstKey ++ [key]).length = (child :: rest).length := by simp
    simp only [Frame.keys, leftEq]
    rw [← lengths, getD_append_right _ _ _ _ (Nat.le_refl _), Nat.sub_self]

theorem Frame.set_keys_left (nonempty : frame.left ≠ []) :
    (frame.keys key).set (frame.left.length - 1) newKey = frame.keys newKey := by
  rcases exists_cons_of_ne_nil nonempty with ⟨child, rest, leftEq⟩
  simp [Frame.keys, leftEq]

theorem Frame.getD_keys_before (key : Nat) (two : 2 ≤ frame.left.length) :
    ∃ child ∈ frame.left, (frame.keys key).getD (frame.left.length - 2) 0 = child.firstKey := by
  have nonempty : frame.left ≠ [] := ne_nil_of_length_pos (by omega)
  rcases exists_cons_of_ne_nil nonempty with ⟨child, rest, leftEq⟩
  have inside : rest.length - 1 < rest.length := by
    rw [leftEq, length_cons] at two
    omega
  refine ⟨rest[rest.length - 1], by simp [leftEq], ?_⟩
  simp [Frame.keys, leftEq, getD_eq_getElem?_getD, List.getElem?_append, inside]

variable (updatable : config.Updatable) {frames : List Frame} {entries : List PathEntry}
  {post : List PathEntry → Prop}

include updatable

theorem blockTreeUpdateKey_entry {keys : List Nat} {entry : PathEntry}
    (outer : Above config frames key entries)
    (later : entry.index ≠ 0) (keysEq : entry.node.keys = fill 0 (config.keyCount false) keys)
    (keysFit : keys.length ≤ config.keyCount false) (inside : entry.index - 1 < keys.length)
    (low : entry.index = 1 ∨ keys.getD (entry.index - 2) 0 ≤ newKey)
    (high : newKey ≤ keys.getD entry.index 0 ∨ keys.getD entry.index 0 = 0)
    (prevKey : entry.prevKey = keys.getD (entry.index - 1) 0)
    (next : ∀ block, (entry.node.block ≠ 0 → block ≠ 0) →
      Relabels config frames key fun newEntries => post ({ entry with
        node := { entry.node with
          block := block
          keys := fill 0 (config.keyCount false) (keys.set (entry.index - 1) newKey) }
        prevKey := newKey } :: newEntries)) :
    ensures (blockTreeUpdateKey config newKey (entry :: entries)) post := by
  simp only [blockTreeUpdateKey, if_neg later, ensures_bind]
  apply blockTreeBlockDirty_ensures updatable
  intro block nonzero
  simp only [ensures_require, keysEq, getD_fill_of_length_le keysFit, fill_set inside]
  exact ⟨low, high, prevKey, blockTreePathPutDirty_ensures updatable outer (next block nonzero)⟩

theorem blockTreeUpdateKey_ensures {height : Nat} (above : Above config frames key entries)
    (context : Context config height frames) (low : ∀ entry ∈ before frames, entry.1 ≤ newKey)
    (high : ∀ entry ∈ after frames, newKey ≤ entry.1) (next : Relabels config frames newKey post) :
    ensures (blockTreeUpdateKey config newKey entries) post := by
  induction frames generalizing height key entries post with
  | nil =>
    obtain rfl := above.nil_inv
    exact next [] [] (Relabel.refl _) trivial
  | cons frame frames ih =>
    obtain ⟨entry, entries, rfl⟩ := above.cons_inv
    rcases above with ⟨index, inner, block, keys, slots, prevKey, nextKey, outer⟩
    rcases context with ⟨nonzero, siblings, enough, room, outerContext⟩
    by_cases leftmost : frame.left = []
    · -- the separator is further up
      have indexZero : entry.index = 0 := by simp [index, leftmost]
      have keysEq : frame.keys key = frame.keys newKey := by simp [Frame.keys, leftmost]
      have firstEq : ∀ anyKey, frame.firstKey anyKey = anyKey := by
        intro anyKey
        simp [Frame.firstKey, leftmost]
      have lower : ∀ other ∈ before frames, other.1 ≤ newKey := fun other mem =>
        low other (mem_append_left _ mem)
      have upper : ∀ other ∈ after frames, newKey ≤ other.1 := fun other mem =>
        high other (mem_append_right _ mem)
      simp only [blockTreeUpdateKey, if_pos indexZero, ensures_bind]
      apply ih outer outerContext lower upper
      intro newFrames newEntries same newOuter
      apply next (frame :: newFrames)
      · exact List.Forall₂.cons ⟨rfl, rfl, id⟩ same
      · refine ⟨index, inner, block, ?_, slots, ?_, nextKey, ?_⟩
        · rw [keys, keysEq]
        · intro nonempty
          exact (nonempty leftmost).elim
        · rw [firstEq]
          exact newOuter
    have lengthPos : 0 < frame.left.length := length_pos_of_ne_nil leftmost
    have keysFit := (frame.length_keys key).trans_le room
    have indexPos : ¬ entry.index = 0 := by omega
    apply blockTreeUpdateKey_entry updatable outer indexPos keys keysFit
    · rw [index, Frame.length_keys]
      omega
    · -- the child before the hole starts at or before the new key
      rw [index]
      rcases Nat.lt_or_ge frame.left.length 2 with one | two
      · left
        omega
      right
      rcases Frame.getD_keys_before key two with ⟨child, mem, found⟩
      have nonempty := (siblings child (mem_append_left _ mem)).entries_ne_nil
      rcases exists_entry_firstKey nonempty with ⟨other, otherIn, otherKey⟩
      rw [found, ← otherKey]
      exact low other (mem_append_right _ (mem_entriesAll.mpr ⟨child, mem, otherIn⟩))
    · -- and the one after it at or after the new key
      rw [index, Frame.getD_keys_right]
      cases rightEq : frame.right with
      | nil =>
        right
        rfl
      | cons child others =>
        left
        have mem : child ∈ frame.right := by simp [rightEq]
        have nonempty := (siblings child (mem_append_right _ mem)).entries_ne_nil
        rcases exists_entry_firstKey nonempty with ⟨other, otherIn, otherKey⟩
        change newKey ≤ child.firstKey
        rw [← otherKey]
        exact high other (mem_append_left _ (mem_entriesAll.mpr ⟨child, mem, otherIn⟩))
    · rw [index, Frame.getD_keys_left leftmost]
      exact prevKey leftmost
    intro newBlock newNonzero newFrames newEntries same newOuter
    have firstEq : frame.firstKey key = frame.firstKey newKey := by
      rcases exists_cons_of_ne_nil leftmost with ⟨child, others, leftEq⟩
      simp [Frame.firstKey, leftEq]
    apply next (⟨newBlock, frame.left, frame.right⟩ :: newFrames)
    · exact List.Forall₂.cons ⟨rfl, rfl, block ▸ newNonzero⟩ same
    · refine ⟨index, inner, rfl, ?_, slots, fun _ => rfl, nextKey, ?_⟩
      · rw [index, Frame.set_keys_left leftmost]
        rfl
      · change Above config newFrames (frame.firstKey newKey) newEntries
        rw [← firstEq]
        exact newOuter

end UpdateKey

end Trusty.Storage
