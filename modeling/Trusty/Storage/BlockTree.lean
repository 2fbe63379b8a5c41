import Mathlib.Algebra.Group.Nat.Defs
import Trusty.Lib.AllocProgram
import Trusty.Lib.Slots

/-!
The copy-on-write B+ trees of `block_tree.c`.

A tree is kept as a value in which every node carries its block number, so that
a changed node is a new value and the tree that contains it is rebuilt along
the path.  Keys and slots are the fixed-size arrays of the on-disk node, a zero
key or an empty slot marking an unused entry.  Operations are programs over the
block allocator.  Reading a block never changes anything, so a read does not
appear in them.

A node keeps `key_size` bytes of a key and `block_num_size` bytes of a block
number, so the keys and data blocks of a caller are cut to them.  The allocator
hands out blocks of the device, whose numbers fit.
-/

namespace Trusty.Storage

open Lib

/-- What a slot of a node refers to: nothing, a data block, or a node. -/
inductive Tree where
  | nil
  | data (block : Nat)
  | node (isLeaf : Bool) (block : Nat) (keys : List Nat) (slots : List Tree)

/-- `struct block_tree_node`, with the block it is stored in. -/
structure Node where
  isLeaf : Bool
  block : Nat
  keys : List Nat
  slots : List Tree

def Node.tree (node : Node) : Tree :=
  .node node.isLeaf node.block node.keys node.slots

namespace Tree

/-- `block_mac_to_block`. -/
def toBlock : Tree → Nat
  | nil => 0
  | data block => block
  | node _ block _ _ => block

def asNode : Tree → Option Node
  | node isLeaf block keys slots => some ⟨isLeaf, block, keys, slots⟩
  | _ => none

mutual

/-- The number of leaf slots, used or not. -/
def leafSlots : Tree → Nat
  | nil => 0
  | data _ => 1
  | node _ _ _ slots => leafSlotsList slots

def leafSlotsList : List Tree → Nat
  | [] => 0
  | tree :: rest => leafSlots tree + leafSlotsList rest

end

end Tree

/-- The `inserting` entry of a tree: the entry that does not fit the full node
in `block` while that node is being split. -/
structure Inserting where
  block : Nat
  key : Nat
  slot : Tree

/-- A tree as a reader finds it, also while it is being updated. -/
structure TreeView where
  root : Tree
  inserting : Option Inserting

/-- The sizes and flags of `struct block_tree` with the block number and mac sizes of
the file system, as `block_tree_max_key_count`, `block_tree_path_put_dirty` and
`block_mac.c` assert them.  A leaf entry has room for a block number. -/
structure TreeConfig where
  blockSize : Nat
  keySize : Nat
  /-- `child_data_size[is_leaf]`. -/
  childDataSize : Bool → Nat
  /-- `key_count[is_leaf]`. -/
  keyCount : Bool → Nat
  blockNumSize : Nat
  macSize : Nat
  copyOnWrite : Bool
  allowCopyOnWrite : Bool
  two_le_keyCount : ∀ isLeaf, 2 ≤ keyCount isLeaf
  keyCount_lt : ∀ isLeaf, keyCount isLeaf < 2 ^ 31
  keys_lt : ∀ isLeaf, keyCount isLeaf * keySize < blockSize
  blockMac_le : blockNumSize + macSize ≤ childDataSize false
  blockNum_le : blockNumSize ≤ childDataSize true
  blockNumSize_mem : 1 ≤ blockNumSize ∧ blockNumSize ≤ 8
  macSize_mem : 1 ≤ macSize ∧ macSize ≤ 16

/-- `sizeof(struct block_tree_node)`: the iv and the leaf flag. -/
def nodeHeaderSize : Nat := 24

theorem keyCount_lt_of_entries {size entrySize : Nat} (fits : size < 2 ^ 32) (two : 2 ≤ entrySize) :
    size / entrySize < 2 ^ 31 := by
  apply Nat.div_lt_of_lt_mul
  omega

/-- The sizes and key counts of `block_tree_set_sizes`, or nothing where it or a use of
them asserts.  Sizes are 32-bit, and the payload of an internal node may wrap. -/
def blockTreeSetSizes (blockSize keySize childSize dataSize blockNumSize macSize : Nat)
    (copyOnWrite allowCopyOnWrite : Bool) : Option TreeConfig :=
  let payloadSize := blockSize - nodeHeaderSize
  let keyCount := fun isLeaf : Bool =>
    if isLeaf then payloadSize / (keySize + dataSize)
    else (payloadSize + (2 ^ 32 - childSize)) % 2 ^ 32 / (keySize + childSize)
  if accepted : (nodeHeaderSize ≤ blockSize ∧ blockSize < 2 ^ 32 ∧ 1 ≤ keySize ∧ keySize ≤ 8 ∧
      keySize ≤ childSize ∧ childSize ≤ 24 ∧ 1 ≤ dataSize ∧ dataSize ≤ 24) ∧
      (∀ isLeaf, 2 ≤ keyCount isLeaf ∧ keyCount isLeaf * keySize < blockSize) ∧
      (blockNumSize + macSize ≤ childSize ∧ blockNumSize ≤ dataSize) ∧
      (1 ≤ blockNumSize ∧ blockNumSize ≤ 8) ∧ 1 ≤ macSize ∧ macSize ≤ 16 then
    some
      { blockSize := blockSize
        keySize := keySize
        childDataSize := fun isLeaf => if isLeaf then dataSize else childSize
        keyCount := keyCount
        blockNumSize := blockNumSize
        macSize := macSize
        copyOnWrite := copyOnWrite
        allowCopyOnWrite := allowCopyOnWrite
        two_le_keyCount := fun isLeaf => (accepted.2.1 isLeaf).1
        keys_lt := fun isLeaf => (accepted.2.1 isLeaf).2
        blockMac_le := accepted.2.2.1.1
        blockNum_le := accepted.2.2.1.2
        blockNumSize_mem := accepted.2.2.2.1
        macSize_mem := accepted.2.2.2.2
        keyCount_lt := by
          intro isLeaf
          cases isLeaf with
          | false => exact keyCount_lt_of_entries (Nat.mod_lt _ (by decide)) (by omega)
          | true => exact keyCount_lt_of_entries (by omega) (by omega) }
  else none

namespace TreeConfig

def minKeyCount (config : TreeConfig) (isLeaf : Bool) : Nat := config.keyCount isLeaf / 2

/-- A committed tree is read-only. -/
def Updatable (config : TreeConfig) : Prop :=
  config.copyOnWrite = true → config.allowCopyOnWrite = true

instance (config : TreeConfig) : Decidable config.Updatable :=
  inferInstanceAs (Decidable (_ → _))

/-- The first key that a node cannot hold. -/
def keyLimit (config : TreeConfig) : Nat := 2 ^ (8 * config.keySize)

/-- The first block number that a node cannot hold. -/
def blockLimit (config : TreeConfig) : Nat := 2 ^ (8 * config.blockNumSize)

/-- The number of slots of a node: internal nodes have one more child than
keys. -/
def slotCount (config : TreeConfig) (isLeaf : Bool) : Nat :=
  config.keyCount isLeaf + if isLeaf then 0 else 1

end TreeConfig

def blockTreeMaxDepth : Nat := 9

/-! ### Node entries -/

inductive ShiftMode where
  | leafOrLeftChild
  | rightChild
  | both
deriving DecidableEq

/-- `~0U`, the source index that clears everything. -/
def noIndex : Nat := 4294967295

/-- `block_tree_node_shift`, returning the node and what was shifted out of its
key and slot arrays. -/
def blockTreeNodeShift (node : Node) (dest src : Nat) (mode : ShiftMode)
    (newKeys : List Nat) (newSlots : List Tree) : Node × List Nat × List Tree :=
  let keys := shiftSlots 0 node.keys dest src newKeys
  let slotSrc := if mode = .rightChild ∧ src ≠ noIndex then src + 1 else src
  let slotDest := if mode = .leafOrLeftChild then dest else dest + 1
  let slots := shiftSlots .nil node.slots slotDest slotSrc newSlots
  ({ node with keys := keys.1, slots := slots.1 }, keys.2, slots.2)

def blockTreeNodeShiftDown (node : Node) (dest src : Nat) (mode : ShiftMode) : Node :=
  (blockTreeNodeShift node dest src mode [] []).1

def blockTreeNodeClearEnd (node : Node) (start : Nat) : Node :=
  blockTreeNodeShiftDown node start noIndex
    (if node.isLeaf then .leafOrLeftChild else .rightChild)

/-- `block_tree_node_insert` with room for the entry that leaves the node. -/
def blockTreeNodeInsert (node : Node) (index : Nat) (mode : ShiftMode) (key : Nat)
    (slot : Tree) : Node × Nat × Tree :=
  let shifted := blockTreeNodeShift node (index + 1) index mode [key] [slot]
  (shifted.1, shifted.2.1.headD 0, shifted.2.2.headD .nil)

/-- `is_zero` on what was shifted out of a node. -/
def overflowIsZero (shifted : Node × List Nat × List Tree) : Bool :=
  shifted.2.1.all (· == 0) && shifted.2.2.all fun slot => slot.toBlock == 0

def blockTreeNodeMergeEntries (node source : Node) (index count mergeKey : Nat) :
    Node × List Nat × List Tree :=
  if node.isLeaf then
    blockTreeNodeShift node (index + count) index .leafOrLeftChild source.keys source.slots
  else
    blockTreeNodeShift { node with keys := node.keys.set index mergeKey }
      (index + 1 + count) (index + 1) .both source.keys source.slots

variable (inserting : Option Inserting)

/-- A key, or nothing where an unused one of the node that is being split is asserted not
to be read. -/
def blockTreeNodeGetKey (node : Node) (index : Nat) : Option Nat :=
  let key := node.keys.getD index 0
  match inserting with
  | none => some key
  | some entry =>
    if key ≠ 0 ∨ node.block ≠ entry.block then some key
    else if index < node.keys.length then none
    else some (if index = node.keys.length then entry.key else key)

/-- `block_tree_node_get_child` and `block_tree_node_get_data`. -/
def blockTreeNodeGetSlot (node : Node) (index : Nat) : Option Tree :=
  let slot := node.slots.getD index .nil
  match inserting with
  | none => some slot
  | some entry =>
    if slot.toBlock ≠ 0 ∨ node.block ≠ entry.block then some slot
    else if index < node.slots.length then none
    else some (if index = node.slots.length then entry.slot else slot)

def blockTreeNodeGetKeyCount (node : Node) : Nat :=
  (node.keys.takeWhile (· != 0)).length

variable (config : TreeConfig)

def blockTreeAboveMinFull (node : Node) : Bool :=
  node.keys.getD (config.minKeyCount node.isLeaf) 0 != 0

def blockTreeBelowMinFull (node : Node) : Bool :=
  node.keys.getD (config.minKeyCount node.isLeaf - 1) 0 == 0

/-- The search loop of `block_tree_node_find_block` from `index` on, over at
most `room` entries: the first entry not below `key` (for an internal node,
above it) and its key, 0 past the last entry. -/
def findIndex (inserting : Option Inserting) (node : Node) (key : Nat) :
    Nat → Nat → Option (Nat × Nat)
  | 0, index => some (index, 0)
  | room + 1, index => do
    let current ← blockTreeNodeGetKey inserting node index
    if current = 0 ∨ key ≤ current - (if node.isLeaf then 0 else 1) then return (index, current)
    else findIndex inserting node key room (index + 1)

/-- `block_tree_node_find_block`: the index, and the key there. -/
def blockTreeNodeFindBlock (node : Node) (key : Nat) (keyIsMax : Bool) : Option (Nat × Nat) := do
  let found ← findIndex inserting node key (node.keys.length + 1) 0
  if keyIsMax ∧ node.isLeaf ∧ 0 < found.1 ∧ (found.2 = 0 ∨ key < found.2) then
    return (found.1 - 1, ← blockTreeNodeGetKey inserting node (found.1 - 1))
  else return found

/-! ### Paths -/

/-- `struct block_tree_path_entry`, with the node it refers to. -/
structure PathEntry where
  node : Node
  index : Nat
  prevKey : Nat
  nextKey : Nat

/-- `struct block_tree_path`.  Entries are listed from the leaf up. -/
structure Path where
  entries : List PathEntry
  data : Tree

def blockTreePathGetKey (path : Path) : Nat :=
  match path.entries with
  | [] => 0
  | entry :: _ => entry.nextKey

/-- What `block_tree_walk` asserts of the keys beside a node and of the ones it found there. -/
def walkKeysOk (parentPrevKey parentNextKey prevKey nextKey : Nat) : Prop :=
  (parentNextKey = 0 ∨ nextKey ≠ 0 ∧ nextKey ≤ parentNextKey) ∧
    (parentPrevKey = 0 ∨ prevKey ≠ 0 ∧ parentPrevKey ≤ prevKey)

instance (parentPrevKey parentNextKey prevKey nextKey : Nat) :
    Decidable (walkKeysOk parentPrevKey parentNextKey prevKey nextKey) :=
  inferInstanceAs (Decidable (_ ∧ _))

/-- The loop of `block_tree_walk` from the node `tree` on.  `room` is the number
of path entries left; the walk asserts that it does not run out. -/
def walkFrom (inserting : Option Inserting) (key : Nat) (keyIsMax : Bool) :
    Nat → Tree → Nat → Nat → List PathEntry → Option Path
  | 0, _, _, _, _ => none
  | room + 1, tree, prevKey, nextKey, above =>
    match tree.asNode with
    | none => none
    | some node => do
      let found ← blockTreeNodeFindBlock inserting node key keyIsMax
      let foundNextKey := if found.2 = 0 then nextKey else found.2
      let foundPrevKey ←
        (if found.1 = 0 then some prevKey else blockTreeNodeGetKey inserting node (found.1 - 1))
      let entries := ⟨node, found.1, foundPrevKey, foundNextKey⟩ :: above
      let slot ← blockTreeNodeGetSlot inserting node found.1
      if ¬ walkKeysOk prevKey nextKey foundPrevKey foundNextKey then none
      else if node.isLeaf then
        if keyIsMax ∧ slot.toBlock = 0 ∧ above ≠ [] then none else some ⟨entries, slot⟩
      else if slot.toBlock = 0 then none
      else walkFrom inserting key keyIsMax room slot foundPrevKey foundNextKey entries

/-- `block_tree_walk`, or nothing where it asserts. -/
def blockTreeWalk (view : TreeView) (key : Nat) (keyIsMax : Bool) : Option Path :=
  if view.root.toBlock = 0 then some ⟨[], .nil⟩
  else walkFrom view.inserting key keyIsMax blockTreeMaxDepth view.root 0 0 []

/-- The key at an entry of a path, and the key and slot after it. -/
def readNext (entry : PathEntry) : Option (Nat × Nat × Tree) := do
  let prevKey ← blockTreeNodeGetKey inserting entry.node entry.index
  let nextKey ← blockTreeNodeGetKey inserting entry.node (entry.index + 1)
  let slot ← blockTreeNodeGetSlot inserting entry.node (entry.index + 1)
  return (prevKey, nextKey, slot)

/-- The climbing loop of `block_tree_path_next` and the descent after it: the
next subtree below the given entries, the key before it, and the entries moved
to it. -/
def nextSubtree (inserting : Option Inserting) :
    List PathEntry → Option (Tree × Nat × List PathEntry)
  | [] => none
  | entry :: above => do
    let next ← (if entry.nextKey = 0 then some (0, 0, .nil) else readNext inserting entry)
    if entry.nextKey ≠ 0 ∧ entry.node.isLeaf then none
    else if next.2.2.toBlock = 0 then
      match nextSubtree inserting above with
      | none => none
      | some (tree, prevKey, moved) =>
        match tree.asNode with
        | none => none
        | some node =>
          let key := node.keys.getD 0 0
          let child := node.slots.getD 0 .nil
          if node.isLeaf ∨ key = 0 ∨ child.toBlock = 0 then none
          else some (child, prevKey, ⟨node, 0, prevKey, key⟩ :: moved)
    else
      let parentNextKey := (above.head?.map PathEntry.nextKey).getD 0
      if next.1 = 0 ∨ next.1 ≠ entry.nextKey then none
      else
        some (next.2.2, next.1,
          ⟨entry.node, entry.index + 1, next.1,
            if next.2.1 = 0 then parentNextKey else next.2.1⟩ :: above)

/-- `block_tree_path_next`, or nothing where it asserts. -/
def blockTreePathNext (path : Path) : Option Path :=
  match path.entries with
  | [] => none
  | entry :: above => do
    let next ← readNext inserting entry
    let parentNextKey := (above.head?.map PathEntry.nextKey).getD 0
    if entry.nextKey = 0 ∨ ¬ entry.node.isLeaf ∨ (entry.nextKey ≠ next.1 ∧ next.1 ≠ 0) then none
    else if next.2.1 ≠ 0 ∨ parentNextKey = 0 then
      if next.2.1 ≠ 0 ∧ next.2.1 < next.1 then none
      else some ⟨⟨entry.node, entry.index + 1, next.1, next.2.1⟩ :: above, next.2.2⟩
    else
      match nextSubtree inserting above with
      | none => none
      | some (tree, prevKey, moved) =>
        match tree.asNode with
        | none => none
        | some leaf =>
          if ¬ leaf.isLeaf ∨ leaf.keys.getD 0 0 = 0 then none
          else some ⟨⟨leaf, 0, prevKey, leaf.keys.getD 0 0⟩ :: moved, leaf.slots.getD 0 .nil⟩

/-- The tree around `tree` when it hangs below the given path entries. -/
def rebuild : Tree → List PathEntry → Tree
  | tree, [] => tree
  | tree, entry :: above =>
    rebuild { entry.node with slots := entry.node.slots.set entry.index tree }.tree above

/-! ### Updates -/

abbrev TreeProgram := AllocProgram TreeView

open AllocProgram

/-- `block_tree_block_dirty`: the block the node is in once it may be changed. -/
def blockTreeBlockDirty (block : Nat) : TreeProgram Nat :=
  if config.copyOnWrite then
    .needCopy block fun copy =>
      if copy then do
        require (config.allowCopyOnWrite = true)
        .alloc fun newBlock => .free block (.write newBlock (.done newBlock))
      else .write block (.done block)
  else .write block (.done block)

/-- `block_tree_path_put_dirty`: the nodes above a changed node change too. -/
def blockTreePathPutDirty (config : TreeConfig) :
    List PathEntry → TreeProgram (List PathEntry)
  | [] => pure []
  | entry :: above => do
    let block ← blockTreeBlockDirty config entry.node.block
    let above ← blockTreePathPutDirty config above
    pure ({ entry with node := { entry.node with block := block } } :: above)

/-- `block_tree_update_key`: the separator left of the path, which is in the
first node where the path is not at the first child. -/
def blockTreeUpdateKey (config : TreeConfig) (newKey : Nat) :
    List PathEntry → TreeProgram (List PathEntry)
  | [] => pure []
  | entry :: above =>
    if entry.index = 0 then do
      let above ← blockTreeUpdateKey config newKey above
      pure (entry :: above)
    else do
      let block ← blockTreeBlockDirty config entry.node.block
      let keys := entry.node.keys
      require (entry.index = 1 ∨ keys.getD (entry.index - 2) 0 ≤ newKey)
      require (newKey ≤ keys.getD entry.index 0 ∨ keys.getD entry.index 0 = 0)
      require (entry.prevKey = keys.getD (entry.index - 1) 0)
      let above ← blockTreePathPutDirty config above
      pure ({ entry with
        node := { entry.node with block := block, keys := keys.set (entry.index - 1) newKey }
        prevKey := newKey } :: above)

/-- The two halves of a full node to which one entry is appended, and the key
between them. -/
def splitNode (node : Node) (leftBlock rightBlock : Nat) (appendKey : Nat) (append : Tree) :
    Node × Node × Nat × Bool :=
  let maxKeyCount := node.keys.length
  let splitIndex := (maxKeyCount + 1) / 2
  let inner := if node.isLeaf then 0 else 1
  let left := { blockTreeNodeClearEnd node splitIndex with block := leftBlock }
  let shifted := blockTreeNodeShift
    { blockTreeNodeShiftDown node 0 (splitIndex + inner) .leafOrLeftChild with block := rightBlock }
    (maxKeyCount - splitIndex - inner + 1) (maxKeyCount - splitIndex - inner)
    (if node.isLeaf then .leafOrLeftChild else .rightChild) [appendKey] [append]
  (left, shifted.1, node.keys.getD splitIndex 0, overflowIsZero shifted)

/-- `block_tree_node_split` on the first `count` entries of the path, the first
of which is full.  A root keeps its block and gets the two halves as its
children. -/
def blockTreeNodeSplit (config : TreeConfig) :
    Nat → List PathEntry → Nat → Tree → TreeProgram Tree
  | count + 1, entry :: parents, appendKey, append => do
    require config.Updatable
    .publish ⟨rebuild entry.node.tree parents, some ⟨entry.node.block, appendKey, append⟩⟩ <|
      .alloc fun right =>
      match parents with
      | [] =>
        .alloc fun left => do
          let block ← blockTreeBlockDirty config entry.node.block
          .write left (pure ())
          .write right (pure ())
          let halves := splitNode entry.node left right appendKey append
          require (halves.2.2.2 = true)
          let root : Node :=
            { isLeaf := false
              block := block
              keys := List.replicate (config.keyCount false) 0
              slots := (List.replicate (config.slotCount false) Tree.nil).set 0 halves.1.tree }
          let inserted :=
            blockTreeNodeInsert root 0 .rightChild halves.2.2.1 halves.2.1.tree
          require (inserted.2.1 = 0)
          pure inserted.1.tree
      | parent :: above => do
        let left ← blockTreeBlockDirty config entry.node.block
        let parentBlock ← blockTreeBlockDirty config parent.node.block
        .write right (pure ())
        let halves := splitNode entry.node left right appendKey append
        require (halves.2.2.2 = true)
        let index := parent.index
        let nextKey := parent.node.keys.getD index 0
        require (nextKey = 0 ∨ halves.2.2.1 < nextKey)
        require (index = 0 ∨ parent.node.keys.getD (index - 1) 0 ≤ halves.2.2.1)
        let filled : Node :=
          { parent.node with
            block := parentBlock
            slots := parent.node.slots.set index halves.1.tree }
        let inserted :=
          blockTreeNodeInsert filled index .rightChild halves.2.2.1 halves.2.1.tree
        let above ← blockTreePathPutDirty config above
        if inserted.2.1 = 0 then pure (rebuild inserted.1.tree above)
        else
          blockTreeNodeSplit config count ({ parent with node := inserted.1 } :: above)
            inserted.2.1 inserted.2.2
  | _, _, _, _ => .abort

/-- `block_tree_update_key` where it is called under a condition. -/
def updateKeyIf (needed : Bool) (newKey : Nat) (path : List PathEntry) :
    TreeProgram (List PathEntry) :=
  if needed then blockTreeUpdateKey config newKey path else pure path

/-- `block_tree_path_set_sibling_block`, as far as the parent's entry goes. -/
def blockTreePathSetSiblingBlock (left : Bool) (parent : PathEntry) : PathEntry :=
  if left then
    { parent with index := parent.index - 1, nextKey := parent.prevKey, prevKey := 0 }
  else
    { parent with index := parent.index + 1, prevKey := parent.nextKey, nextKey := 0 }

def blockTreeSiblingIndex (index : Nat) : Nat :=
  if index = 0 then 1 else index - 1

/-- One entry moved to `node` from the sibling on its right (`nodeIsLeft`) or on
its left, and the key between them afterwards.  `outerKey` is the key between
them before. -/
def migrateNodes (nodeIsLeft : Bool) (node sibling : Node) (outerKey : Nat) :
    Node × Node × Nat × Bool :=
  let srcIndex := if nodeIsLeft then 0 else blockTreeNodeGetKeyCount sibling - 1
  let destIndex := if nodeIsLeft then config.minKeyCount node.isLeaf - 1 else 0
  let siblingKey := sibling.keys.getD srcIndex 0
  let parentKey := if nodeIsLeft && node.isLeaf then sibling.keys.getD 1 0 else siblingKey
  let inserted := blockTreeNodeShift node (destIndex + 1) destIndex
    (if nodeIsLeft && !node.isLeaf then .rightChild else .leafOrLeftChild)
    [if node.isLeaf then siblingKey else outerKey]
    [sibling.slots.getD (srcIndex + if !nodeIsLeft && !node.isLeaf then 1 else 0) .nil]
  let sibling := blockTreeNodeShiftDown sibling srcIndex (srcIndex + 1)
    (if nodeIsLeft || node.isLeaf then .leafOrLeftChild else .rightChild)
  (inserted.1, sibling, parentKey, overflowIsZero inserted)

/-- The branch of `block_tree_node_merge` that takes one entry from a sibling
that can spare it. -/
def migrateEntry (node sibling : Node) (parent : PathEntry) (above : List PathEntry) :
    TreeProgram Tree := do
  let nodeIsLeft : Bool := parent.index == 0
  let siblingBlock ← blockTreeBlockDirty config sibling.block
  .write node.block (pure ())
  let migrated := migrateNodes config nodeIsLeft node { sibling with block := siblingBlock }
    (if nodeIsLeft then parent.nextKey else parent.prevKey)
  require (migrated.2.2.2 = true)
  let path ← updateKeyIf config
    (nodeIsLeft && config.minKeyCount node.isLeaf - 1 == 0 && node.isLeaf)
    (migrated.1.keys.getD 0 0) (parent :: above)
  let moved ← blockTreeUpdateKey config migrated.2.2.1
    (if nodeIsLeft then path.modifyHead (blockTreePathSetSiblingBlock false) else path)
  let moved ← blockTreePathPutDirty config moved
  let moved ← blockTreePathPutDirty config moved
  match moved with
  | [] => .abort
  | moved :: above =>
    let slots := (moved.node.slots.set parent.index migrated.1.tree).set
      (blockTreeSiblingIndex parent.index) migrated.2.1.tree
    pure (rebuild { moved.node with slots := slots }.tree above)

/-- The other branch of `block_tree_node_merge`: the right one of the two nodes
is emptied into the left one and removed from the parent. -/
def mergeSiblings (removeInternal : List PathEntry → TreeProgram Tree)
    (left right : Node) (parent : PathEntry) (above : List PathEntry) : TreeProgram Tree := do
  let leftBlock ← blockTreeBlockDirty config left.block
  let left := { left with block := leftBlock }
  let index := blockTreeNodeGetKeyCount left
  require (left.isLeaf = true ∨ parent.nextKey ≠ 0)
  let merged := blockTreeNodeMergeEntries left right index (blockTreeNodeGetKeyCount right)
    parent.nextKey
  require (overflowIsZero merged = true)
  let path ← updateKeyIf config
    (left.isLeaf && config.minKeyCount left.isLeaf - 1 == 0 && index == 0)
    (merged.1.keys.getD 0 0) (parent :: above)
  let path ← blockTreePathPutDirty config path
  match path with
  | [] => .abort
  | parent :: above =>
    let filled :=
      { parent.node with slots := parent.node.slots.set parent.index merged.1.tree }
    let tree ← removeInternal
      (blockTreePathSetSiblingBlock false { parent with node := filled } :: above)
    .free right.block (pure tree)

/-- `block_tree_node_merge` on a path whose first node has one key too few. -/
def blockTreeNodeMerge (removeInternal : List PathEntry → TreeProgram Tree)
    (node : Node) : List PathEntry → TreeProgram Tree
  | [] => .abort
  | parent :: above =>
    match (parent.node.slots.getD (blockTreeSiblingIndex parent.index) .nil).asNode with
    | none => .abort
    | some sibling => do
      require (blockTreeBelowMinFull config node = true)
      require (blockTreeBelowMinFull config sibling = false)
      if blockTreeAboveMinFull config sibling then
        migrateEntry config node sibling parent above
      else if parent.index = 0 then
        mergeSiblings config removeInternal node sibling parent above
      else
        mergeSiblings config removeInternal sibling node
          (blockTreePathSetSiblingBlock true parent) above

/-- `block_tree_remove_internal` on the first `count` entries of the path. -/
def blockTreeRemoveInternal (config : TreeConfig) : Nat → List PathEntry → TreeProgram Tree
  | count + 1, entry :: above => do
    require (0 < entry.index)
    if above.isEmpty && entry.node.keys.getD 1 0 == 0 then
      require (entry.index = 1)
      let newRoot := entry.node.slots.getD 0 .nil
      require (newRoot.toBlock ≠ 0)
      require config.Updatable
      .free entry.node.block (pure newRoot)
    else
      let block ← blockTreeBlockDirty config entry.node.block
      let node := blockTreeNodeShiftDown { entry.node with block := block }
        (entry.index - 1) entry.index .rightChild
      let needMerge := !above.isEmpty && blockTreeBelowMinFull config node
      let above ← blockTreePathPutDirty config above
      if needMerge then
        blockTreeNodeMerge config (blockTreeRemoveInternal config count) node above
      else pure (rebuild node.tree above)
  | _, _ => .abort

def blockTreeInsertBlockMac (tree : Tree) (key data : Nat) : TreeProgram Tree := do
  require (key ≠ 0)
  require (data ≠ 0)
  let root ←
    if tree.toBlock = 0 then do
      require config.Updatable
      .alloc fun block => .write block (.done (.node true block
        (List.replicate (config.keyCount true) 0) (List.replicate (config.slotCount true) .nil)))
    else pure tree
  match blockTreeWalk ⟨root, none⟩ key false with
  | some ⟨leaf :: parents, _⟩ => do
    require (leaf.index ≠ 0 ∨ leaf.prevKey = 0 ∨ leaf.node.keys.getD leaf.index 0 = key)
    let block ← blockTreeBlockDirty config leaf.node.block
    let inserted := blockTreeNodeInsert { leaf.node with block := block } leaf.index
      .leafOrLeftChild (key % config.keyLimit) (.data data)
    let parents ← blockTreePathPutDirty config parents
    if inserted.2.1 = 0 then pure (rebuild inserted.1.tree parents)
    else
      blockTreeNodeSplit config (parents.length + 1) ({ leaf with node := inserted.1 } :: parents)
        inserted.2.1 inserted.2.2
  | _ => .abort

def blockTreeInsert (tree : Tree) (key dataBlock : Nat) : TreeProgram Tree :=
  blockTreeInsertBlockMac config tree key (dataBlock % config.blockLimit)

/-- The loop that looks for the pair from the given path on. -/
def findPair (key data : Nat) : Nat → Path → Option Path
  | 0, _ => none
  | fuel + 1, path =>
    if path.data.toBlock = data ∧ blockTreePathGetKey path = key then some path
    else if blockTreePathGetKey path = 0 then none
    else
      match blockTreePathNext none path with
      | none => none
      | some path => findPair key data fuel path

/-- The path to a pair, as `block_tree_remove` and `block_tree_update` look for
it. -/
def blockTreeFindPair (tree : Tree) (key data : Nat) : Option Path :=
  match blockTreeWalk ⟨tree, none⟩ key false with
  | none => none
  | some path =>
    if path.data.toBlock = data then some path
    else
      match blockTreeWalk ⟨tree, none⟩ (key - 1) true with
      | none => none
      | some path => findPair key data (tree.leafSlots + 1) path

def blockTreeRemove (tree : Tree) (key data : Nat) : TreeProgram Tree := do
  require (tree.toBlock ≠ 0)
  require (key ≠ 0)
  require (data ≠ 0)
  match blockTreeFindPair tree key data with
  | some ⟨leaf :: parents, _⟩ => do
    let index := leaf.index
    require (leaf.node.keys.getD index 0 = key)
    let block ← blockTreeBlockDirty config leaf.node.block
    let node := blockTreeNodeShiftDown { leaf.node with block := block } index (index + 1)
      .leafOrLeftChild
    let newParentKey := node.keys.getD 0 0
    require (parents = [] ∨ index ≠ 0 ∨ newParentKey ≠ 0 ∨ config.minKeyCount true = 1)
    let parents ← updateKeyIf config (index == 0 && newParentKey != 0) newParentKey parents
    let needMerge := !parents.isEmpty && blockTreeBelowMinFull config node
    let parents ← blockTreePathPutDirty config parents
    if needMerge then
      blockTreeNodeMerge config (blockTreeRemoveInternal config parents.length) node parents
    else pure (rebuild node.tree parents)
  | _ => .abort

def blockTreeUpdateBlockMac (tree : Tree) (oldKey oldData newKey newData : Nat) :
    TreeProgram Tree := do
  require (tree.toBlock ≠ 0)
  require (oldKey ≠ 0 ∧ oldData ≠ 0 ∧ newKey ≠ 0 ∧ newData ≠ 0)
  require ((oldKey = newKey) ≠ (oldData = newData))
  match blockTreeWalk ⟨tree, none⟩ (oldKey - 1) true, blockTreeFindPair tree oldKey oldData with
  | some before, some ⟨leaf :: parents, _⟩ => do
    let prevKey :=
      if blockTreePathGetKey before = oldKey ∧ before.data.toBlock = oldData then 0
      else blockTreePathGetKey before
    let index := leaf.index
    require (leaf.node.keys.getD index 0 = oldKey)
    let leafNextKey := leaf.node.keys.getD (index + 1) 0
    let nextKey :=
      if leafNextKey ≠ 0 then leafNextKey else (parents.head?.map PathEntry.nextKey).getD 0
    let block ← blockTreeBlockDirty config leaf.node.block
    let node := { leaf.node with block := block }
    if oldKey = newKey then
      let parents ← blockTreePathPutDirty config parents
      pure (rebuild { node with slots := node.slots.set index (.data newData) }.tree parents)
    else do
      require (prevKey ≤ newKey ∧ (newKey ≤ nextKey ∨ nextKey = 0))
      let storedKey := newKey % config.keyLimit
      require (index ≠ 0 ∨ newKey = storedKey)
      let parents ← updateKeyIf config (index == 0) newKey parents
      let parents ← blockTreePathPutDirty config parents
      pure (rebuild { node with keys := node.keys.set index storedKey }.tree parents)
  | _, _ => .abort

def blockTreeUpdate (tree : Tree) (oldKey oldDataBlock newKey newDataBlock : Nat) :
    TreeProgram Tree :=
  blockTreeUpdateBlockMac config tree oldKey (oldDataBlock % config.blockLimit) newKey
    (newDataBlock % config.blockLimit)

end Trusty.Storage
