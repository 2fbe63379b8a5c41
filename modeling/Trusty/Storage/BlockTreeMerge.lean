import Trusty.Storage.BlockTreeInsert
import Trusty.Storage.NodeEditing

/-!
A node with one entry too few, and its sibling.

`block_tree_node_merge` either takes one entry from the sibling or puts both
nodes together.
-/

namespace Trusty.Storage

open Lib AllocProgram BTree List

namespace BTree

def withBlock (block : Nat) : BTree → BTree
  | leaf _ entries => leaf block entries
  | node _ children => node block children

section Level

variable {config : TreeConfig} {height : Nat} {tree : BTree}

variable (level : Level config height tree) (ordered : Ordered tree.entries)
variable (room : tree.keys.length ≤ config.keyCount tree.isLeaf)

include level ordered room

theorem keyCount_toNode : blockTreeNodeGetKeyCount (tree.toNode config) = tree.keys.length := by
  rw [blockTreeNodeGetKeyCount, toNode_keys, takeWhile_fill room (level.key_ne_zero ordered)]

theorem aboveMinFull_iff :
    blockTreeAboveMinFull config (tree.toNode config) = true ↔
      config.minKeyCount tree.isLeaf < tree.keys.length := by
  rw [blockTreeAboveMinFull, toNode_isLeaf, toNode_keys, getD_fill_of_length_le room, bne_iff_ne,
    getD_ne_zero_iff (level.key_ne_zero ordered)]

theorem belowMinFull_iff :
    blockTreeBelowMinFull config (tree.toNode config) = true ↔
      tree.keys.length < config.minKeyCount tree.isLeaf := by
  have positive := minKeyCount_pos config tree.isLeaf
  have found := getD_ne_zero_iff (level.key_ne_zero ordered) (config.minKeyCount tree.isLeaf - 1)
  rw [blockTreeBelowMinFull, toNode_isLeaf, toNode_keys, getD_fill_of_length_le room, beq_iff_eq]
  constructor
  · intro zero
    omega
  · intro short
    exact not_not.mp (mt found.mp (by omega))

end Level

section WithBlock

variable {config : TreeConfig} {height : Nat} {tree : BTree} (block : Nat)

@[simp]
theorem entries_withBlock : (tree.withBlock block).entries = tree.entries := by
  cases tree <;> rfl

@[simp]
theorem keys_withBlock : (tree.withBlock block).keys = tree.keys := by
  cases tree <;> rfl

@[simp]
theorem isLeaf_withBlock : (tree.withBlock block).isLeaf = tree.isLeaf := by
  cases tree <;> rfl

@[simp]
theorem firstKey_withBlock : (tree.withBlock block).firstKey = tree.firstKey := by
  simp [firstKey]

theorem toNode_withBlock :
    { tree.toNode config with block := block } = (tree.withBlock block).toNode config := by
  cases tree <;> rfl

theorem Level.withBlock (level : Level config height tree) {block : Nat} (nonzero : block ≠ 0) :
    Level config height (tree.withBlock block) := by
  cases height <;> cases tree <;>
    first | exact nonzero | exact level.elim | exact ⟨nonzero, level.2⟩

end WithBlock

end BTree

/-! ### Entries of a node -/

section Entries

variable (isLeaf : Bool) {size slotSize : Nat}
variable {keys laterKeys : List Nat} {slots laterSlots : List Tree}

section

variable (block key : Nat) (slot : Tree)

include block key slot

section

variable (mode : ShiftMode) (single : mode ≠ .both) (small : size < 2 ^ 31)
  (aligned : slots.length = mode.child keys.length)

include single small aligned

theorem shift_insert
    (keysFit : (keys ++ laterKeys).length < size)
    (slotsFit : (slots ++ laterSlots).length < slotSize) :
    blockTreeNodeShift
        ⟨isLeaf, block, fill 0 size (keys ++ laterKeys), fill .nil slotSize (slots ++ laterSlots)⟩
        (keys.length + 1) keys.length mode [key] [slot] =
      (⟨isLeaf, block, fill 0 size (keys ++ key :: laterKeys),
        fill .nil slotSize (slots ++ slot :: laterSlots)⟩, [0], [.nil]) := by
  have keysIn := shiftSlots_fill_room 0 key keysFit
  have slotsIn := shiftSlots_fill_room .nil slot slotsFit
  have someIndex : keys.length ≠ noIndex := by
    simp only [length_append, noIndex] at keysFit ⊢
    omega
  cases mode <;> simp_all [blockTreeNodeShift, ShiftMode.child]

theorem shiftDown_delete (keysFit : (keys ++ key :: laterKeys).length ≤ size)
    (slotsFit : (slots ++ slot :: laterSlots).length ≤ slotSize) :
    blockTreeNodeShiftDown
        ⟨isLeaf, block, fill 0 size (keys ++ key :: laterKeys),
          fill .nil slotSize (slots ++ slot :: laterSlots)⟩
        keys.length (keys.length + 1) mode =
      ⟨isLeaf, block, fill 0 size (keys ++ laterKeys),
        fill .nil slotSize (slots ++ laterSlots)⟩ := by
  have keysOut := shiftSlots_fill_delete 0 key keysFit
  have slotsOut := shiftSlots_fill_delete .nil slot slotsFit
  have someIndex : keys.length + 1 ≠ noIndex := by
    simp only [length_append, length_cons, noIndex] at keysFit ⊢
    omega
  cases mode <;> simp_all [blockTreeNodeShiftDown, blockTreeNodeShift, ShiftMode.child]

end

end

end Entries

/-! ### Taking an entry from the sibling -/

section Migrate

variable {config : TreeConfig} {height : Nat} {tree sibling : BTree}

theorem minKeyCount_lt (config : TreeConfig) (isLeaf : Bool) :
    config.minKeyCount isLeaf < config.keyCount isLeaf := by
  have two := config.two_le_keyCount isLeaf
  simp only [TreeConfig.minKeyCount]
  omega

theorem minKeyCount_add_le (config : TreeConfig) (isLeaf : Bool) :
    config.minKeyCount isLeaf + config.minKeyCount isLeaf ≤ config.keyCount isLeaf := by
  simp only [TreeConfig.minKeyCount]
  omega

/-- What is left of the two nodes when one entry has moved. -/
structure Migrated (config : TreeConfig) (height : Nat) (left right newLeft newRight : BTree) :
    Prop where
  left_fits : Sub config height newLeft
  right_fits : Sub config height newRight
  entries : newLeft.entries ++ newRight.entries = left.entries ++ right.entries

variable {keys siblingKeys : List Nat} {slots siblingSlots : List Tree}

theorem migrateNodes_left_eq (isLeaf : Bool) (block siblingBlock outerKey key : Nat) (slot : Tree)
    (aligned : slots.length = keys.length + if isLeaf then 0 else 1)
    (short : keys.length + 1 = config.minKeyCount isLeaf)
    (keysFit : (key :: siblingKeys).length ≤ config.keyCount isLeaf)
    (slotsFit : (slot :: siblingSlots).length ≤ config.slotCount isLeaf) :
    migrateNodes config true
        ⟨isLeaf, block, fill 0 (config.keyCount isLeaf) keys,
          fill .nil (config.slotCount isLeaf) slots⟩
        ⟨isLeaf, siblingBlock, fill 0 (config.keyCount isLeaf) (key :: siblingKeys),
          fill .nil (config.slotCount isLeaf) (slot :: siblingSlots)⟩ outerKey =
      (⟨isLeaf, block, fill 0 (config.keyCount isLeaf) (keys ++ [if isLeaf then key else outerKey]),
          fill .nil (config.slotCount isLeaf) (slots ++ [slot])⟩,
        ⟨isLeaf, siblingBlock, fill 0 (config.keyCount isLeaf) siblingKeys,
          fill .nil (config.slotCount isLeaf) siblingSlots⟩,
        if isLeaf then siblingKeys.getD 0 0 else key, true) := by
  have spare := minKeyCount_lt config isLeaf
  have index : config.minKeyCount isLeaf - 1 = keys.length := by omega
  have keysRoom : (keys ++ []).length < config.keyCount isLeaf := by
    rw [append_nil]
    omega
  have slotsRoom : (slots ++ []).length < config.slotCount isLeaf := by
    rw [append_nil, aligned, TreeConfig.slotCount]
    omega
  have keysFound := @getD_fill_of_length_le _ 0 _ _ keysFit
  have slotsFound := @getD_fill_of_length_le _ Tree.nil _ _ slotsFit
  have removed := @shiftDown_delete isLeaf _ _ [] _ [] _ siblingBlock key slot .leafOrLeftChild
    (by decide) (config.keyCount_lt isLeaf) rfl keysFit slotsFit
  simp only [nil_append, length_nil, Nat.zero_add] at removed
  cases isLeaf with
  | true =>
    have inserted := shift_insert true block key slot .leafOrLeftChild (by decide)
      (config.keyCount_lt true) aligned keysRoom slotsRoom
    rw [append_nil, append_nil] at inserted
    simp only [migrateNodes, index, keysFound, slotsFound, getD_cons_zero, getD_cons_succ, removed,
      inserted, if_true, Bool.and_true, Bool.not_true, Bool.and_false, Bool.false_eq_true, if_false,
      Nat.add_zero, Nat.zero_add, Bool.true_or]
    rfl
  | false =>
    have inserted := shift_insert false block outerKey slot .rightChild (by decide)
      (config.keyCount_lt false) aligned keysRoom slotsRoom
    rw [append_nil, append_nil] at inserted
    simp only [migrateNodes, index, keysFound, slotsFound, getD_cons_zero, removed,
      inserted, if_true, Bool.and_true, Bool.not_true, Bool.and_false, Bool.false_eq_true, if_false,
      Nat.add_zero, Nat.zero_add, Bool.true_or, Bool.not_false]
    rfl

theorem migrateNodes_right_eq (isLeaf : Bool) (block siblingBlock outerKey key : Nat) (slot : Tree)
    (aligned : siblingSlots.length = siblingKeys.length + if isLeaf then 0 else 1)
    (siblingNonzero : ∀ other ∈ siblingKeys ++ [key], other ≠ 0)
    (keysRoom : keys.length < config.keyCount isLeaf)
    (slotsRoom : slots.length < config.slotCount isLeaf)
    (keysFit : (siblingKeys ++ [key]).length ≤ config.keyCount isLeaf)
    (slotsFit : (siblingSlots ++ [slot]).length ≤ config.slotCount isLeaf) :
    migrateNodes config false
        ⟨isLeaf, block, fill 0 (config.keyCount isLeaf) keys,
          fill .nil (config.slotCount isLeaf) slots⟩
        ⟨isLeaf, siblingBlock, fill 0 (config.keyCount isLeaf) (siblingKeys ++ [key]),
          fill .nil (config.slotCount isLeaf) (siblingSlots ++ [slot])⟩ outerKey =
      (⟨isLeaf, block, fill 0 (config.keyCount isLeaf) ((if isLeaf then key else outerKey) :: keys),
          fill .nil (config.slotCount isLeaf) (slot :: slots)⟩,
        ⟨isLeaf, siblingBlock, fill 0 (config.keyCount isLeaf) siblingKeys,
          fill .nil (config.slotCount isLeaf) siblingSlots⟩, key, true) := by
  have count : blockTreeNodeGetKeyCount ⟨isLeaf, siblingBlock,
      fill 0 (config.keyCount isLeaf) (siblingKeys ++ [key]),
      fill .nil (config.slotCount isLeaf) (siblingSlots ++ [slot])⟩ - 1 = siblingKeys.length := by
    rw [blockTreeNodeGetKeyCount, takeWhile_fill keysFit siblingNonzero]
    simp
  have keysFound := @getD_fill_of_length_le _ 0 _ _ keysFit
  have slotsFound := @getD_fill_of_length_le _ Tree.nil _ _ slotsFit
  have lastKey : (siblingKeys ++ [key]).getD siblingKeys.length 0 = key := by simp
  have inserted :=
    fun newKey => @shift_insert isLeaf _ _ [] _ [] _ block newKey slot .leafOrLeftChild (by decide)
      (config.keyCount_lt isLeaf) rfl keysRoom slotsRoom
  simp only [nil_append, length_nil, Nat.zero_add] at inserted
  cases isLeaf with
  | true =>
    have lastSlot : (siblingSlots ++ [slot]).getD siblingKeys.length .nil = slot := by
      change (siblingSlots ++ [slot]).getD (siblingKeys.length + if true then 0 else 1) .nil = slot
      rw [← aligned]
      simp
    have removed := shiftDown_delete true siblingBlock key slot .leafOrLeftChild (by decide)
      (config.keyCount_lt true) aligned keysFit slotsFit
    rw [append_nil, append_nil] at removed
    simp only [migrateNodes, count, keysFound, slotsFound, lastKey, lastSlot, removed,
      inserted, if_true, Bool.and_true, Bool.not_true, Bool.and_false, Bool.false_eq_true, if_false,
      Nat.add_zero, Bool.or_true, Nat.zero_add]
    rfl
  | false =>
    have lastSlot : (siblingSlots ++ [slot]).getD (siblingKeys.length + 1) .nil = slot := by
      change (siblingSlots ++ [slot]).getD (siblingKeys.length + if false then 0 else 1) .nil = slot
      rw [← aligned]
      simp
    have removed := shiftDown_delete false siblingBlock key slot .rightChild (by decide)
      (config.keyCount_lt false) aligned keysFit slotsFit
    rw [append_nil, append_nil] at removed
    simp only [migrateNodes, count, keysFound, slotsFound, lastKey, lastSlot, removed,
      inserted, if_true, Bool.and_true, Bool.and_false, Bool.false_eq_true, if_false, Bool.or_false,
      Bool.not_false, Nat.zero_add]
    rfl

/-- The first entry of a sibling, at the end of the node. -/
theorem BTree.Level.takeFirst (level : Level config height tree)
    (siblingLevel : Level config height sibling) (some : sibling.keys ≠ []) :
    ∃ key slot newTree newSibling, Level config height newTree ∧
      Level config height newSibling ∧ newTree.block = tree.block ∧
      newSibling.block = sibling.block ∧
      newTree.keys = tree.keys ++ [if tree.isLeaf then key else sibling.firstKey] ∧
      newTree.slots config = tree.slots config ++ [slot] ∧
      sibling.keys = key :: newSibling.keys ∧
      sibling.slots config = slot :: newSibling.slots config ∧
      (if tree.isLeaf then newSibling.keys.getD 0 0 else key) = newSibling.firstKey ∧
      newTree.entries ++ newSibling.entries = tree.entries ++ sibling.entries := by
  induction level, siblingLevel using Level.pair with
  | leaves block entries siblingBlock others level siblingLevel =>
    cases others with
    | nil => exact (some rfl).elim
    | cons first rest =>
      refine ⟨first.1, .data first.2, leaf block (entries ++ [first]), leaf siblingBlock rest,
        level, siblingLevel, rfl, rfl, ?_, ?_, rfl, rfl, ?_, ?_⟩
      · simp [BTree.keys, BTree.isLeaf]
      · simp [BTree.slots]
      · exact firstKey_eq_getD rfl
      · simp [BTree.entries]
  | nodes height block children siblingBlock others level siblingLevel =>
    cases others with
    | nil => exact (some rfl).elim
    | cons first others =>
      cases others with
      | nil => exact (some rfl).elim
      | cons second rest =>
        have fits := siblingLevel.2.2
        refine ⟨second.firstKey, first.embed config, node block (children ++ [first]),
          node siblingBlock (second :: rest), ⟨level.1, by simp, ?_⟩,
          ⟨siblingLevel.1, by simp, ?_⟩, rfl, rfl, ?_, ?_, rfl, rfl, ?_, ?_⟩
        · exact forall_mem_append.mpr ⟨level.2.2, by simpa using fits first (by simp)⟩
        · exact fun child mem => fits child (mem_cons_of_mem _ mem)
        · simp only [BTree.keys, separators_append level.2.1]
          rw [firstKey_node (fits first (by simp)).entries_ne_nil]
          rfl
        · simp [BTree.slots]
        · exact (firstKey_node (fits second (by simp)).entries_ne_nil).symm
        · simp [BTree.entries, entriesAll]

/-- The last entry of a sibling, at the front of the node. -/
theorem BTree.Level.takeLast (level : Level config height tree)
    (siblingLevel : Level config height sibling) (some : sibling.keys ≠ []) {outerKey : Nat}
    (outer : tree.entries ≠ [] → outerKey = tree.firstKey) :
    ∃ key slot newTree newSibling, Level config height newTree ∧
      Level config height newSibling ∧ newTree.block = tree.block ∧
      newSibling.block = sibling.block ∧
      newTree.keys = (if tree.isLeaf then key else outerKey) :: tree.keys ∧
      newTree.slots config = slot :: tree.slots config ∧
      sibling.keys = newSibling.keys ++ [key] ∧
      sibling.slots config = newSibling.slots config ++ [slot] ∧ newTree.firstKey = key ∧
      newSibling.entries ++ newTree.entries = sibling.entries ++ tree.entries := by
  induction level, siblingLevel using Level.pair with
  | leaves block entries siblingBlock others level siblingLevel =>
    rcases exists_append_singleton (mt map_eq_nil_iff.mpr some) with ⟨front, last, rfl⟩
    refine ⟨last.1, .data last.2, leaf block (last :: entries), leaf siblingBlock front, level,
      siblingLevel, rfl, rfl, rfl, rfl, ?_, ?_, rfl, ?_⟩
    · simp [BTree.keys]
    · simp [BTree.slots]
    · simp [BTree.entries]
  | nodes height block children siblingBlock others level siblingLevel =>
    rcases exists_append_singleton siblingLevel.2.1 with ⟨front, last, rfl⟩
    obtain ⟨frontFit, lastFits⟩ := forall_mem_append.mp siblingLevel.2.2
    have lastFits := forall_mem_singleton.mp lastFits
    have someFront : front ≠ [] := by
      rintro rfl
      exact some rfl
    rcases exists_cons_of_ne_nil level.2.1 with ⟨first, rest, rfl⟩
    have nonempty := (level.2.2 first mem_cons_self).entries_ne_nil
    rw [outer (by simp [BTree.entries, entriesAll, nonempty]), firstKey_node nonempty]
    refine ⟨last.firstKey, last.embed config, node block (last :: first :: rest),
      node siblingBlock front, ⟨level.1, by simp, forall_mem_cons.mpr ⟨lastFits, level.2.2⟩⟩,
      ⟨siblingLevel.1, someFront, frontFit⟩, rfl, rfl, rfl, rfl, ?_, ?_, ?_, ?_⟩
    · simp [BTree.keys, separators_append someFront]
    · simp [BTree.slots]
    · exact firstKey_node lastFits.entries_ne_nil
    · simp [BTree.entries, entriesAll]

variable (level : Level config height tree) (siblingLevel : Level config height sibling)
  (short : tree.keys.length + 1 = config.minKeyCount tree.isLeaf)
  (spare : config.minKeyCount sibling.isLeaf < sibling.keys.length)
  (room : sibling.keys.length ≤ config.keyCount sibling.isLeaf)

include level siblingLevel short spare room

/-- The node takes the first entry of the sibling on its right. -/
theorem migrateNodes_left :
    ∃ newTree newSibling, migrateNodes config true (tree.toNode config) (sibling.toNode config)
        sibling.firstKey =
      (newTree.toNode config, newSibling.toNode config, newSibling.firstKey, true) ∧
      Migrated config height tree sibling newTree newSibling := by
  have some : sibling.keys ≠ [] := ne_nil_of_length_pos (by omega)
  obtain ⟨key, slot, newTree, newSibling, newLevel, newSiblingLevel, blockEq, siblingBlockEq,
    newKeys, newSlots, keysEq, slotsEq, firstEq, entriesEq⟩ := level.takeFirst siblingLevel some
  have slotsLength := siblingLevel.length_slots
  have newLength := congrArg List.length newKeys
  rw [length_append, length_singleton] at newLength
  rw [keysEq, length_cons, ← level.isLeaf_eq siblingLevel] at spare room slotsLength
  refine ⟨newTree, newSibling, ?_, sub_iff.mpr ⟨newLevel, ?_⟩, sub_iff.mpr ⟨newSiblingLevel, ?_⟩,
    entriesEq⟩
  · rw [toNode_eq tree, toNode_eq sibling, toNode_eq newTree, toNode_eq newSibling, keysEq, slotsEq,
      newKeys, newSlots, blockEq, siblingBlockEq, ← level.isLeaf_eq siblingLevel,
      ← level.isLeaf_eq newLevel, ← level.isLeaf_eq newSiblingLevel, ← firstEq]
    apply migrateNodes_left_eq _ _ _ _ _ _ level.length_slots short room
    rw [← slotsEq, slotsLength, TreeConfig.slotCount]
    omega
  · rw [← level.isLeaf_eq newLevel]
    omega
  · rw [← level.isLeaf_eq newSiblingLevel]
    omega

/-- The node takes the last entry of the sibling on its left. -/
theorem migrateNodes_right (ordered : Ordered sibling.entries) {outerKey : Nat}
    (outer : tree.entries ≠ [] → outerKey = tree.firstKey) :
    ∃ newTree newSibling, migrateNodes config false (tree.toNode config) (sibling.toNode config)
        outerKey =
      (newTree.toNode config, newSibling.toNode config, newTree.firstKey, true) ∧
      Migrated config height sibling tree newSibling newTree := by
  have some : sibling.keys ≠ [] := ne_nil_of_length_pos (by omega)
  obtain ⟨key, slot, newTree, newSibling, newLevel, newSiblingLevel, blockEq, siblingBlockEq,
    newKeys, newSlots, keysEq, slotsEq, firstEq, entriesEq⟩ :=
    level.takeLast siblingLevel some outer
  have slotsLength := siblingLevel.length_slots
  have newLength := congrArg List.length newKeys
  have nonzero := siblingLevel.key_ne_zero ordered
  rw [length_cons] at newLength
  rw [keysEq] at nonzero
  rw [keysEq, length_append, length_singleton, ← level.isLeaf_eq siblingLevel]
    at spare room slotsLength
  refine ⟨newTree, newSibling, ?_, sub_iff.mpr ⟨newSiblingLevel, ?_⟩, sub_iff.mpr ⟨newLevel, ?_⟩,
    entriesEq⟩
  · rw [toNode_eq tree, toNode_eq sibling, toNode_eq newTree, toNode_eq newSibling, keysEq, slotsEq,
      newKeys, newSlots, blockEq, siblingBlockEq, ← level.isLeaf_eq siblingLevel,
      ← level.isLeaf_eq newLevel, ← level.isLeaf_eq newSiblingLevel, firstEq]
    apply migrateNodes_right_eq _ _ _ _ _ _ _ nonzero
    · omega
    · rw [level.length_slots, TreeConfig.slotCount]
      omega
    · rw [length_append, length_singleton]
      exact room
    · rw [← slotsEq, slotsLength, TreeConfig.slotCount]
      omega
    · rw [newSiblingLevel.length_slots, ← level.isLeaf_eq newSiblingLevel]
  · rw [← level.isLeaf_eq newSiblingLevel]
    omega
  · rw [← level.isLeaf_eq newLevel]
    omega

end Migrate

/-! ### Putting two nodes together -/

section Join

variable {config : TreeConfig} {height mergeKey : Nat} {left right : BTree} {keys others : List Nat}
  {slots otherSlots : List Tree}

theorem mergeEntries_eq (isLeaf : Bool) (block otherBlock mergeKey : Nat)
    (aligned : slots.length = keys.length + if isLeaf then 0 else 1)
    (otherAligned : otherSlots.length = others.length + if isLeaf then 0 else 1)
    (room : keys.length + others.length < config.keyCount isLeaf) :
    blockTreeNodeMergeEntries
        ⟨isLeaf, block, fill 0 (config.keyCount isLeaf) keys,
          fill .nil (config.slotCount isLeaf) slots⟩
        ⟨isLeaf, otherBlock, fill 0 (config.keyCount isLeaf) others,
          fill .nil (config.slotCount isLeaf) otherSlots⟩ keys.length others.length mergeKey =
      (⟨isLeaf, block, fill 0 (config.keyCount isLeaf)
          (keys ++ (if isLeaf then [] else [mergeKey]) ++ others),
        fill .nil (config.slotCount isLeaf) (slots ++ otherSlots)⟩,
        List.replicate others.length 0, List.replicate otherSlots.length .nil) := by
  have othersFit : others.length ≤ config.keyCount isLeaf := by omega
  have slotsFit : slots.length + otherSlots.length ≤ config.slotCount isLeaf := by
    rw [aligned, otherAligned, TreeConfig.slotCount]
    split <;> omega
  have slotsIn := shiftSlots_fill_append .nil slotsFit (Nat.le_trans (Nat.le_add_left _ _) slotsFit)
  cases isLeaf with
  | true =>
    have keysIn := shiftSlots_fill_append 0 room.le othersFit
    simp_all [blockTreeNodeMergeEntries, blockTreeNodeShift]
  | false =>
    have keysIn := shiftSlots_fill_append 0
      (show (keys ++ [mergeKey]).length + others.length ≤ config.keyCount false by
        rw [length_append, length_singleton]
        omega) othersFit
    have set := @set_fill_length _ 0 _ _ mergeKey (Nat.lt_of_le_of_lt (Nat.le_add_right _ _) room)
    simp_all [blockTreeNodeMergeEntries, blockTreeNodeShift, Nat.add_assoc]

theorem overflowIsZero_replicate (node : Node) (keyCount slotCount : Nat) :
    overflowIsZero (node, List.replicate keyCount 0, List.replicate slotCount .nil) = true := by
  simp only [overflowIsZero, Bool.and_eq_true, all_eq_true]
  constructor
  · intro key mem
    rw [eq_of_mem_replicate mem]
    rfl
  · intro slot mem
    rw [eq_of_mem_replicate mem]
    rfl

variable (level : Level config height left) (rightLevel : Level config height right)
  {block : Nat} (nonzero : block ≠ 0) (keyEq : right.entries ≠ [] → mergeKey = right.firstKey)

include level rightLevel nonzero keyEq

/-- The entries of two nodes in one. -/
theorem BTree.Level.join :
    ∃ joined, Level config height joined ∧ joined.block = block ∧
      joined.keys = left.keys ++ (if left.isLeaf then [] else [mergeKey]) ++ right.keys ∧
      joined.slots config = left.slots config ++ right.slots config ∧
      joined.entries = left.entries ++ right.entries := by
  induction level, rightLevel using Level.pair with
  | leaves leftBlock entries rightBlock others level rightLevel =>
    refine ⟨leaf block (entries ++ others), nonzero, rfl, ?_, map_append, rfl⟩
    simp [BTree.keys, BTree.isLeaf]
  | nodes height leftBlock children rightBlock others level rightLevel =>
    refine ⟨node block (children ++ others), ⟨nonzero, append_ne_nil_of_left_ne_nil level.2.1 _,
      forall_mem_append.mpr ⟨level.2.2, rightLevel.2.2⟩⟩, rfl, ?_, map_append,
      entriesAll_append _ _⟩
    rcases exists_cons_of_ne_nil rightLevel.2.1 with ⟨first, rest, rfl⟩
    have some := (rightLevel.2.2 first mem_cons_self).entries_ne_nil
    rw [keyEq (by simp [BTree.entries, entriesAll, some]), firstKey_node some]
    simp only [BTree.keys, BTree.isLeaf, separators_append level.2.1]
    simp [separators]

theorem mergeEntries_join (total : left.keys.length + right.keys.length + 1 =
      config.minKeyCount left.isLeaf + config.minKeyCount left.isLeaf) :
    ∃ joined keyCount slotCount,
      blockTreeNodeMergeEntries ((left.withBlock block).toNode config) (right.toNode config)
          left.keys.length right.keys.length mergeKey =
        (joined.toNode config, List.replicate keyCount 0, List.replicate slotCount .nil) ∧
      Sub config height joined ∧ joined.entries = left.entries ++ right.entries := by
  have twice := minKeyCount_add_le config left.isLeaf
  obtain ⟨joined, newLevel, blockEq, newKeys, newSlots, entriesEq⟩ :=
    level.join rightLevel nonzero keyEq
  have newLength := congrArg List.length newKeys
  have room : left.keys.length + right.keys.length < config.keyCount left.isLeaf := by omega
  have rightAligned := rightLevel.length_slots
  rw [← level.isLeaf_eq rightLevel] at rightAligned
  refine ⟨joined, right.keys.length, (right.slots config).length, ?_, sub_iff.mpr ⟨newLevel, ?_⟩,
    entriesEq⟩
  · rw [← toNode_withBlock, toNode_eq left, toNode_eq right, toNode_eq joined, newKeys, newSlots,
      blockEq, ← level.isLeaf_eq rightLevel, ← level.isLeaf_eq newLevel]
    exact mergeEntries_eq _ _ _ _ level.length_slots rightAligned room
  · have most : (if left.isLeaf then [] else [mergeKey]).length ≤ 1 := by split <;> simp
    rw [← level.isLeaf_eq newLevel, newLength, length_append, length_append]
    omega

end Join

end Trusty.Storage
