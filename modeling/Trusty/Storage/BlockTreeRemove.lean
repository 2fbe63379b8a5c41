import Trusty.Storage.BlockTreeFind
import Trusty.Storage.BlockTreeRebalance

/-!
Removing and changing an entry.

Both operations look for the pair, change it in its leaf, and keep the
separator left of the leaf at the first key of the leaf.  A leaf that has
become too small is repaired by `block_tree_node_merge`.
-/

namespace Trusty.Storage

open Lib AllocProgram BTree List

/-- `new` is `old` without one entry. -/
def Removes (entry : Nat × Nat) (old new : List (Nat × Nat)) : Prop :=
  ∃ front back, old = front ++ entry :: back ∧ new = front ++ back

/-- `new` is `old` with one entry changed. -/
def Replaces (entry newEntry : Nat × Nat) (old new : List (Nat × Nat)) : Prop :=
  ∃ front back, old = front ++ entry :: back ∧ new = front ++ newEntry :: back

section Lists

variable {entry newEntry : Nat × Nat} {old new : List (Nat × Nat)}

theorem Removes.perm (removes : Removes entry old new) : old.Perm (entry :: new) := by
  rcases removes with ⟨front, back, rfl, rfl⟩
  exact perm_middle

theorem Removes.ordered (removes : Removes entry old new) (ordered : Ordered old) :
    Ordered new := by
  rcases removes with ⟨front, back, rfl, rfl⟩
  have sublist : (front ++ back).Sublist (front ++ entry :: back) :=
    List.Sublist.append_left (sublist_cons_self _ _) _
  refine ⟨ordered.sorted.sublist sublist, ?_, ?_⟩
  · exact fun other mem => ordered.key_ne_zero other (sublist.subset mem)
  · exact fun other mem => ordered.data_ne_zero other (sublist.subset mem)

/-- The key lies between the entries around each place of `entry`. -/
def Between (entries : List (Nat × Nat)) (entry : Nat × Nat) (key : Nat) : Prop :=
  ∀ front back, entries = front ++ entry :: back →
    (∀ other ∈ front, other.1 ≤ key) ∧ ∀ other ∈ back, key ≤ other.1

theorem Replaces.ordered (replaces : Replaces entry newEntry old new) (ordered : Ordered old)
    (within : Between old entry newEntry.1) (keyNonzero : newEntry.1 ≠ 0)
    (dataNonzero : newEntry.2 ≠ 0) : Ordered new := by
  rcases replaces with ⟨front, back, rfl, rfl⟩
  have removed : Ordered (front ++ back) := Removes.ordered ⟨front, back, rfl, rfl⟩ ordered
  rcases within front back rfl with ⟨low, high⟩
  exact Inserts.ordered ⟨front, back, rfl, rfl, low, high⟩ removed keyNonzero dataNonzero

end Lists

section Leaf

variable {config : TreeConfig} {height : Nat} {tree : BTree}

variable {entry : Nat × Nat} {front back : List (Nat × Nat)}

theorem shiftDown_leaf (block : Nat)
    (fits : (front ++ entry :: back).length ≤ config.keyCount true) :
    blockTreeNodeShiftDown ((leaf block (front ++ entry :: back)).toNode config) front.length
        (front.length + 1) .leafOrLeftChild = (leaf block (front ++ back)).toNode config := by
  have removed := shiftDown_delete true block entry.1 (.data entry.2) .leafOrLeftChild (by decide)
    (config.keyCount_lt true)
    (show ((leaf block front).slots config).length = (leaf block front).keys.length by
      simp [BTree.slots, BTree.keys])
    (show ((leaf block front).keys ++ entry.1 :: (leaf block back).keys).length ≤
      config.keyCount true by
      simpa [BTree.keys] using fits)
    (show
      ((leaf block front).slots config ++ .data entry.2 :: (leaf block back).slots config).length ≤
      config.slotCount true by simpa [BTree.slots, TreeConfig.slotCount] using fits)
  simp only [BTree.keys, BTree.slots, length_map] at removed
  simp only [toNode, map_append, map_cons]
  exact removed

theorem getD_toNode_leaf (block index : Nat) {entries : List (Nat × Nat)}
    (fits : entries.length ≤ config.keyCount true) :
    ((leaf block entries).toNode config).keys.getD index 0 = (entries.map Prod.fst).getD
      index 0 := by
  apply getD_fill_of_length_le
  rw [length_map]
  exact fits

theorem set_leaf_slot (block newBlock key data newData : Nat) (front back : List (Nat × Nat)) :
    Tree.node true newBlock ((leaf block (front ++ (key, data) :: back)).toNode config).keys
        (((leaf block (front ++ (key, data) :: back)).toNode config).slots.set front.length
          (.data newData)) =
      (leaf newBlock (front ++ (key, newData) :: back)).embed config := by
  have position : front.length = (front.map fun entry => Tree.data entry.2).length := by simp
  simp only [toNode, embed, map_append, map_cons]
  rw [position, set_fill_append]

theorem set_leaf_key (block newBlock key newKey data : Nat) (front back : List (Nat × Nat)) :
    Tree.node true newBlock
        (((leaf block (front ++ (key, data) :: back)).toNode config).keys.set front.length newKey)
        ((leaf block (front ++ (key, data) :: back)).toNode config).slots =
      (leaf newBlock (front ++ (newKey, data) :: back)).embed config := by
  have position : front.length = (front.map Prod.fst).length := by simp
  simp only [toNode, embed, map_append, map_cons]
  rw [position, set_fill_append]

/-- The separator left of a leaf after a removal: the first key of the leaf,
or the old one if the leaf is empty now. -/
theorem exists_separator (block newBlock : Nat) (entry : Nat × Nat)
    (ordered : Ordered (front ++ back)) :
    ∃ other ∈ front ++ entry :: back,
      ((front.length == 0 && (leaf newBlock (front ++ back)).firstKey != 0) = true →
        (leaf newBlock (front ++ back)).firstKey = other.1) ∧
      ((front.length == 0 && (leaf newBlock (front ++ back)).firstKey != 0) = false →
        (leaf block (front ++ entry :: back)).firstKey = other.1) ∧
      (front ++ back ≠ [] → other.1 = (leaf newBlock (front ++ back)).firstKey) := by
  cases front with
  | cons first others => exact ⟨first, by simp [firstKey, BTree.entries]⟩
  | nil =>
    cases back with
    | nil => exact ⟨entry, by simp [firstKey, BTree.entries]⟩
    | cons first others =>
      have nonzero : first.1 ≠ 0 := ordered.key_ne_zero first (by simp)
      exact ⟨first, by simp [firstKey, BTree.entries, nonzero]⟩

end Leaf

section Between

variable {frames : List Frame} {tree : BTree}

variable {entry : Nat × Nat} {newTree : BTree} {newFrames : List Frame} {config : TreeConfig}
  {block : Nat} {front back : List (Nat × Nat)}

theorem Ordered.between (ordered : Ordered (plug tree frames).entries)
    (mem : entry ∈ tree.entries) :
    (∀ other ∈ before frames, other.1 ≤ entry.1) ∧ ∀ other ∈ after frames, entry.1 ≤ other.1 := by
  rw [entries_plug] at ordered
  rcases ordered.append with ⟨inFront, _, frontBelow⟩
  constructor
  · exact fun other inBefore => inFront.append.2.2 other inBefore entry mem
  · exact fun other inAfter =>
      frontBelow entry (mem_append_right _ mem) other inAfter

theorem Removes.plug (removes : Removes entry tree.entries newTree.entries)
    (same : Relabel frames newFrames) :
    Removes entry (plug tree frames).entries (plug newTree newFrames).entries := by
  rcases removes with ⟨front, back, oldEq, newEq⟩
  refine ⟨before frames ++ front, back ++ after frames, ?_, ?_⟩
  · rw [entries_plug, oldEq]
    simp
  · rw [entries_plug, newEq, same.before, same.after]
    simp

theorem Replaces.plug {newEntry : Nat × Nat}
    (replaces : Replaces entry newEntry tree.entries newTree.entries)
    (same : Relabel frames newFrames) :
    Replaces entry newEntry (plug tree frames).entries (plug newTree newFrames).entries := by
  rcases replaces with ⟨front, back, oldEq, newEq⟩
  refine ⟨before frames ++ front, back ++ after frames, ?_, ?_⟩
  · rw [entries_plug, oldEq]
    simp
  · rw [entries_plug, newEq, same.before, same.after]
    simp

/-- Below the root a leaf is emptied only where the minimum is one entry. -/
theorem removal_parent {newBlock : Nat}
    (inner : frames ≠ [] → Sub config 0 (leaf block (front ++ entry :: back)))
    (ordered : Ordered (front ++ back)) :
    pathEntries config (leaf block (front ++ entry :: back)) frames = [] ∨ front.length ≠ 0 ∨
      (leaf newBlock (front ++ back)).firstKey ≠ 0 ∨ config.minKeyCount true = 1 := by
  cases frames with
  | nil => exact .inl rfl
  | cons frame frames =>
    have enough := (inner (cons_ne_nil _ _)).2.1
    have positive := minKeyCount_pos config true
    right
    cases front with
    | cons first others => exact .inl (Nat.succ_ne_zero _)
    | nil =>
      right
      cases back with
      | cons first others => exact .inl (ordered.key_ne_zero first mem_cons_self)
      | nil =>
        right
        rw [nil_append, length_singleton] at enough
        omega

/-- The key that `block_tree_update_block_mac` takes for the one after the
entry. -/
theorem updateNextKey {newKey : Nat}
    (sound :
      Sound config (0 + frames.length) (plug (leaf block (front ++ entry :: back)) frames))
    (fits : (front ++ entry :: back).length ≤ config.keyCount true)
    (high : ∀ other ∈ back ++ after frames, newKey ≤ other.1) {nextKey : Nat} (nextEq : nextKey =
      if ((leaf block (front ++ entry :: back)).toNode config).keys.getD
        (front.length + 1) 0 ≠ 0 then
          ((leaf block (front ++ entry :: back)).toNode config).keys.getD (front.length + 1) 0
      else nextKeyAt frames) : newKey ≤ nextKey ∨ nextKey = 0 := by
  rw [getD_toNode_leaf block _ fits, map_append, map_cons,
    getD_append_right _ _ _ _ (by simp), length_map, Nat.add_sub_cancel_left,
    getD_cons_succ] at nextEq
  split at nextEq
  · rename_i stored
    cases back with
    | nil => exact (stored rfl).elim
    | cons other others =>
      left
      rw [nextEq]
      exact high other mem_cons_self
  · rcases exists_nextKeyAt sound with last | ⟨other, inAfter, otherKey⟩
    · right
      rw [nextEq, last]
    · left
      rw [nextEq, ← otherKey]
      exact high other (mem_append_right _ inAfter)

end Between

section Program

variable {config : TreeConfig} {frames : List Frame} {parents : List PathEntry}

theorem putLeaf_ensures (updatable : config.Updatable) (post : Tree → Prop) {block : Nat}
    {entries : List (Nat × Nat)} (above : Above config frames (leaf block entries).firstKey parents)
    (context : Context config 0 frames) (fits : Root config 0 (leaf block entries))
    (inner : frames ≠ [] → Sub config 0 (leaf block entries))
    (next : ∀ newFrames, Relabel frames newFrames →
      Root config newFrames.length (plug (leaf block entries) newFrames) →
      post ((plug (leaf block entries) newFrames).embed config)) :
    ensures (blockTreePathPutDirty config parents) fun parents =>
      post (rebuild ((leaf block entries).embed config) parents) := by
  apply blockTreePathPutDirty_ensures updatable above
  intro newFrames newParents same newAbove
  have newContext := same.context context
  have newRoot : Root config newFrames.length (plug (leaf block entries) newFrames) := by
    rw [← Nat.zero_add newFrames.length]
    exact newContext.root_plug_of_root fits fun some => inner (same.ne_nil some)
  have rebuilt : rebuild ((leaf block entries).embed config) newParents =
      (plug (leaf block entries) newFrames).embed config := by
    cases newFrames with
    | nil =>
      obtain rfl := newAbove.nil_inv
      rfl
    | cons newFrame upper =>
      exact newAbove.rebuild newContext (inner (same.ne_nil (cons_ne_nil _ _))).entries_ne_nil
  rw [rebuilt]
  exact next newFrames same newRoot

end Program

section RemoveProgram

variable {config : TreeConfig} {height newKey : Nat} {tree : BTree} {post : Tree → Prop}
  (updatable : config.Updatable) (fits : Root config height tree)
  (shallow : height < blockTreeMaxDepth) (ordered : Ordered tree.entries)

include fits shallow ordered in
/-- The pair is found in a leaf, with a path that describes the nodes above it. -/
theorem exists_leaf_of_findPair {key data : Nat} (present : (key, data) ∈ tree.entries) :
    ∃ block front back frames prevKey, frames.length = height ∧
      plug (leaf block (front ++ (key, data) :: back)) frames = tree ∧
      blockTreeFindPair (tree.embed config) key data = some
        (pathAt config (leaf block (front ++ (key, data) :: back)) front.length frames prevKey) ∧
      Context config 0 frames ∧
      (frames ≠ [] → Sub config 0 (leaf block (front ++ (key, data) :: back))) ∧
      Root config 0 (leaf block (front ++ (key, data) :: back)) ∧
      Above config frames (leaf block (front ++ (key, data) :: back)).firstKey
        (pathEntries config (leaf block (front ++ (key, data) :: back)) frames) ∧
      ((leaf block (front ++ (key, data) :: back)).toNode config).keys.getD front.length 0 =
        key := by
  rcases blockTreeFindPair_finds fits shallow ordered present with ⟨path, others, found, on⟩
  rcases on.split with ⟨block, front, back, frames, prevKey, depth, rfl, rfl⟩
  rw [← depth, ← Nat.zero_add frames.length] at fits
  rcases fits.context with ⟨context, inner, leafFits⟩
  refine ⟨block, front, back, frames, prevKey, depth, rfl, found, context, inner, leafFits,
    above_pathEntries fits.sound (by simp [BTree.entries]), ?_⟩
  rw [getD_toNode_leaf block _ leafFits.2]
  simp

include updatable fits shallow ordered in
theorem blockTreeRemove_ensures {key data : Nat} (present : (key, data) ∈ tree.entries)
    (next : Yields config (Removes (key, data) tree.entries) post) :
    ensures (blockTreeRemove config (tree.embed config) key data) post := by
  have keyNonzero : key ≠ 0 := ordered.key_ne_zero _ present
  have dataNonzero : data ≠ 0 := ordered.data_ne_zero _ present
  rcases exists_leaf_of_findPair fits shallow ordered present with
    ⟨block, front, back, frames, prevKey, _, rfl, found, context, inner, leafFits, above, storedKey⟩
  have room : (front ++ (key, data) :: back).length ≤ config.keyCount true := leafFits.2
  have leafOrdered : Ordered (front ++ (key, data) :: back) := ordered.hole frames
  have newOrdered : Ordered (front ++ back) := Removes.ordered ⟨front, back, rfl, rfl⟩ leafOrdered
  have lengths : (front ++ (key, data) :: back).length = (front ++ back).length + 1 := by
    simp [Nat.add_assoc]
  simp only [blockTreeRemove, found, pathAt, ensures_bind, ensures_require]
  refine ⟨fits.toBlock_ne_zero, keyNonzero, dataNonzero, storedKey, ?_⟩
  apply blockTreeBlockDirty_ensures updatable
  intro newBlock newNonzero
  have blockNonzero : newBlock ≠ 0 := newNonzero leafFits.1
  have relabelled : (⟨((leaf block (front ++ (key, data) :: back)).toNode config).isLeaf, newBlock,
      ((leaf block (front ++ (key, data) :: back)).toNode config).keys,
      ((leaf block (front ++ (key, data) :: back)).toNode config).slots⟩ : Node) =
      (leaf newBlock (front ++ (key, data) :: back)).toNode config := rfl
  have newLevel : Level config 0 (leaf newBlock (front ++ back)) := blockNonzero
  have newRoom : (front ++ back).length ≤ config.keyCount true := by omega
  have firstStored : ((leaf newBlock (front ++ back)).toNode config).keys.getD 0 0 =
      (leaf newBlock (front ++ back)).firstKey := by
    rw [getD_toNode_leaf newBlock _ newRoom]
    exact firstKey_eq_getD (show (leaf newBlock (front ++ back)).isLeaf = true from rfl)
  have newKeys : (leaf newBlock (front ++ back)).keys.length = (front ++ back).length := by
    rw [BTree.keys, length_map]
  have below := belowMinFull_iff newLevel newOrdered (newKeys ▸ newRoom)
  have removed : Removes (key, data) (leaf block (front ++ (key, data) :: back)).entries
      (leaf newBlock (front ++ back)).entries := ⟨front, back, rfl, rfl⟩
  rcases exists_separator block newBlock (key, data) newOrdered with
    ⟨other, inLeaf, called, unchanged, firstEq⟩
  rcases ordered.between inLeaf with ⟨low, high⟩
  have otherNonzero : other.1 ≠ 0 := leafOrdered.key_ne_zero other inLeaf
  simp only [relabelled, shiftDown_leaf newBlock room, firstStored]
  refine ⟨?_, ?_⟩
  · exact removal_parent inner newOrdered
  apply updateKeyIf_ensures updatable other.1 called above unchanged context low high
  intro keyFrames keyParents keySame keyAbove
  apply blockTreePathPutDirty_ensures updatable keyAbove
  intro newFrames newParents dirtySame newAbove
  have same : Relabel frames newFrames := keySame.trans dirtySame
  have newContext := same.context context
  have removes := removed.plug same
  have newTreeOrdered := removes.ordered ordered
  have keyLength : keyParents.length = newFrames.length := by rw [keyAbove.length, dirtySame.length]
  cases newFrames with
  | nil =>
    rw [length_nil, length_eq_zero_iff] at keyLength
    obtain rfl := newAbove.nil_inv
    rw [keyLength]
    exact next 0 (leaf newBlock (front ++ back)) ⟨blockNonzero, newRoom⟩ removes
  | cons newFrame upper =>
    have keySome : keyParents.isEmpty = false := by
      rw [← Bool.not_eq_true, isEmpty_iff_length_eq_zero, keyLength]
      exact Nat.succ_ne_zero _
    have enough := (inner (same.ne_nil (cons_ne_nil _ _))).2.1
    simp only [keySome, Bool.not_false, Bool.true_and]
    by_cases isBelow : (front ++ back).length < config.minKeyCount true
    · rw [if_pos (below.mpr (newKeys ▸ isBelow))]
      obtain ⟨newParent, newParents, rfl⟩ := newAbove.cons_inv
      have parentsLength : (newParent :: newParents).length = upper.length + 1 := newAbove.length
      rw [parentsLength]
      refine blockTreeNodeMerge_ensures updatable newLevel ?_ newAbove newContext firstEq
        newTreeOrdered ?_ (blockTreeRemoveInternal_ensures updatable 0 upper.length) otherNonzero
      · rw [newKeys, BTree.isLeaf]
        omega
      · intro newHeight newTree newRoot entriesEq
        exact next newHeight newTree newRoot (entriesEq ▸ removes)
    · have newFits : Sub config 0 (leaf newBlock (front ++ back)) :=
        ⟨blockNonzero, by omega, newRoom⟩
      have nonempty : (leaf newBlock (front ++ back)).entries ≠ [] := newFits.entries_ne_nil
      rw [firstEq nonempty] at newAbove
      rw [if_neg (mt below.mp (newKeys ▸ isBelow)), ensures_pure, toNode_tree,
        newAbove.rebuild newContext nonempty]
      exact next _ _ (newContext.root_plug newFits) removes

include fits shallow ordered in
/-- The key that `block_tree_update_block_mac` takes for the one before the
entry. -/
theorem updatePrevKey {key data : Nat} (present : (key, data) ∈ tree.entries)
    (within : Between tree.entries (key, data) newKey) :
    ∃ path, blockTreeWalk ⟨tree.embed config, none⟩ (key - 1) true = some path ∧
      (if blockTreePathGetKey path = key ∧ path.data.toBlock = data then 0
        else blockTreePathGetKey path) ≤ newKey := by
  rcases blockTreeWalk_max (key - 1) fits.sound shallow ordered with
    ⟨path, skipped, remaining, walked, on, entriesEq, below⟩
  have keyNonzero : key ≠ 0 := ordered.key_ne_zero _ present
  have inRemaining : (key, data) ∈ remaining := by
    rw [entriesEq] at present
    rcases mem_append.mp present with inSkipped | inRemaining
    · have := below _ inSkipped
      omega
    · exact inRemaining
  refine ⟨path, walked, ?_⟩
  rcases exists_cons_of_ne_nil (ne_nil_of_mem inRemaining) with ⟨first, others, rfl⟩
  rw [on.current.1, on.current.2, Tree.toBlock]
  split
  · exact Nat.zero_le _
  rename_i ne
  rcases mem_cons.mp inRemaining with rfl | inOthers
  · exact (ne ⟨rfl, rfl⟩).elim
  · rcases append_of_mem inOthers with ⟨front, back, rfl⟩
    apply (within (skipped ++ first :: front) back (by simp [entriesEq])).1
    simp

variable {oldKey oldData newData : Nat} (present : (oldKey, oldData) ∈ tree.entries)
  (keyFits : newKey < config.keyLimit) (keyNonzero : newKey ≠ 0)
  (dataNonzero : newData ≠ 0) (ne : (oldKey = newKey) ≠ (oldData = newData))
  (within : Between tree.entries (oldKey, oldData) newKey)
  (next : ∀ newTree, Root config height newTree →
    Replaces (oldKey, oldData) (newKey, newData) tree.entries newTree.entries →
    post (newTree.embed config))

include updatable fits shallow ordered present keyFits keyNonzero dataNonzero ne within next

theorem blockTreeUpdate_ensures :
    ensures (blockTreeUpdateBlockMac config (tree.embed config) oldKey oldData newKey newData)
      post := by
  have oldKeyNonzero : oldKey ≠ 0 := ordered.key_ne_zero _ present
  have oldDataNonzero : oldData ≠ 0 := ordered.data_ne_zero _ present
  rcases updatePrevKey fits shallow ordered present within with ⟨pathBefore, walked, prevLow⟩
  rcases exists_leaf_of_findPair fits shallow ordered present with ⟨block, front, back, frames,
    prevKey, depth, rfl, found, context, inner, leafFits, above, storedKey⟩
  rw [← depth, ← Nat.zero_add frames.length] at fits
  have room : (front ++ (oldKey, oldData) :: back).length ≤ config.keyCount true := leafFits.2
  have around := within (before frames ++ front) (back ++ after frames)
    (by rw [entries_plug]; simp [BTree.entries])
  simp only [blockTreeUpdateBlockMac, walked, found, pathAt, ensures_bind,
    ensures_require, head_pathEntries]
  refine ⟨fits.toBlock_ne_zero, ⟨oldKeyNonzero, oldDataNonzero, keyNonzero, dataNonzero⟩, ne, storedKey, ?_⟩
  apply blockTreeBlockDirty_ensures updatable
  intro newBlock newNonzero
  have newFits : Root config 0 (leaf newBlock (front ++ (newKey, newData) :: back)) := by
    refine ⟨newNonzero leafFits.1, ?_⟩
    simpa using room
  have newInner : frames ≠ [] →
      Sub config 0 (leaf newBlock (front ++ (newKey, newData) :: back)) := by
    intro some
    refine ⟨newFits.1, ?_, newFits.2⟩
    simpa using (inner some).2.1
  have replaced : Replaces (oldKey, oldData) (newKey, newData)
      (leaf block (front ++ (oldKey, oldData) :: back)).entries
      (leaf newBlock (front ++ (newKey, newData) :: back)).entries := ⟨front, back, rfl, rfl⟩
  have finish : ∀ newFrames, Relabel frames newFrames → Root config newFrames.length
      (plug (leaf newBlock (front ++ (newKey, newData) :: back)) newFrames) →
      post ((plug (leaf newBlock (front ++ (newKey, newData) :: back)) newFrames).embed config) :=
    fun newFrames same newRoot =>
      next _ (depth ▸ same.length ▸ newRoot) (replaced.plug same)
  by_cases sameKey : oldKey = newKey
  · subst sameKey
    rw [if_pos rfl]
    simp only [ensures_bind, ensures_pure, Node.tree]
    rw [show ((leaf block _).toNode config).isLeaf = true from rfl, set_leaf_slot]
    have firstEq : (leaf block (front ++ (oldKey, oldData) :: back)).firstKey =
        (leaf newBlock (front ++ (oldKey, newData) :: back)).firstKey := by
      cases front <;> rfl
    rw [firstEq] at above
    exact putLeaf_ensures updatable post above context newFits newInner finish
  have sameData : oldData = newData := by
    by_contra otherData
    exact ne (by simp [sameKey, otherData])
  subst sameData
  rw [if_neg sameKey]
  simp only [ensures_bind, ensures_pure, ensures_require, Node.tree,
    Nat.mod_eq_of_lt keyFits]
  rw [show ((leaf block _).toNode config).isLeaf = true from rfl]
  simp only [set_leaf_key]
  refine ⟨⟨prevLow, updateNextKey fits.sound room around.2 rfl⟩, .inr trivial, ?_⟩
  have called : (front.length == 0) = true →
      newKey = (leaf newBlock (front ++ (newKey, oldData) :: back)).firstKey := by
    cases front <;> simp [firstKey, BTree.entries]
  have unchanged : (front.length == 0) = false →
      (leaf block (front ++ (oldKey, oldData) :: back)).firstKey =
        (leaf newBlock (front ++ (newKey, oldData) :: back)).firstKey := by
    cases front <;> simp [firstKey, BTree.entries]
  have newOrdered :=
    (replaced.plug (Relabel.refl frames)).ordered ordered within keyNonzero dataNonzero
  rcases exists_entry_firstKey
    (show (leaf newBlock (front ++ (newKey, oldData) :: back)).entries ≠ [] by
    simp [BTree.entries]) with ⟨other, inLeaf, otherKey⟩
  rcases newOrdered.between inLeaf with ⟨low, high⟩
  rw [otherKey] at low high
  apply updateKeyIf_ensures updatable _ called above unchanged context low high
  intro keyFrames keyParents keySame keyAbove
  apply putLeaf_ensures updatable post keyAbove (keySame.context context) newFits
    (fun some => newInner (keySame.ne_nil some))
  intro newFrames same newRoot
  exact finish newFrames (keySame.trans same) newRoot

end RemoveProgram

end Trusty.Storage
