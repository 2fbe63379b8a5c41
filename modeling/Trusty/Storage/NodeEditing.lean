import Mathlib.Order.Nat
import Trusty.Storage.BlockTree

/-!
`block_tree_node_shift` on the lists of keys and children.
-/

namespace Trusty.Storage

open Lib List

/-- The child that is moved with the key at `index`. -/
def ShiftMode.child (mode : ShiftMode) (index : Nat) : Nat :=
  if mode = .rightChild then index + 1 else index

/-- What is asserted of the indices and the mode of a shift. -/
def ShiftAsserts (config : TreeConfig) (isLeaf : Bool) (dest src : Nat) (mode : ShiftMode) : Prop :=
  let slotSrc := if mode = .rightChild ∧ src ≠ noIndex then src + 1 else src
  let slotDest := if mode = .leafOrLeftChild then dest else dest + 1
  dest ≤ config.slotCount isLeaf + 1 ∧ (mode ≠ .leafOrLeftChild → isLeaf = false) ∧
    (src < dest ∨ dest ≤ config.keyCount isLeaf) ∧
    (slotSrc < slotDest ∨ slotDest ≤ config.slotCount isLeaf)

/-- The header, the keys and the children or data of a node take no more than its block. -/
theorem blockTreeSetSizes_layout {blockSize keySize childSize dataSize blockNumSize macSize : Nat}
    {copyOnWrite allowCopyOnWrite : Bool} {config : TreeConfig}
    (made : blockTreeSetSizes blockSize keySize childSize dataSize blockNumSize macSize copyOnWrite
      allowCopyOnWrite = some config) (isLeaf : Bool) :
    0 < config.keySize ∧ nodeHeaderSize + config.keyCount isLeaf * config.keySize +
      config.slotCount isLeaf * config.childDataSize isLeaf ≤ config.blockSize := by
  simp only [blockTreeSetSizes, Option.dite_none_right_eq_some, Option.some.injEq] at made
  obtain ⟨⟨sizes, counts, -⟩, rfl⟩ := made
  refine ⟨sizes.2.2.1, ?_⟩
  have bound := counts isLeaf
  cases isLeaf with
  | true =>
    have fits := Nat.div_mul_le_self (blockSize - nodeHeaderSize) (keySize + dataSize)
    simp only [TreeConfig.slotCount, if_true, Nat.add_zero, Nat.mul_add] at fits ⊢
    omega
  | false =>
    simp only [TreeConfig.slotCount, Bool.false_eq_true, if_false] at bound ⊢
    have fits := Nat.div_mul_le_self ((blockSize - nodeHeaderSize + (2 ^ 32 - childSize)) % 2 ^ 32)
      (keySize + childSize)
    have most := @Nat.lt_div_mul_add ((blockSize - nodeHeaderSize + (2 ^ 32 - childSize)) % 2 ^ 32)
      (keySize + childSize) (by omega)
    generalize (blockSize - nodeHeaderSize + (2 ^ 32 - childSize)) % 2 ^ 32 /
      (keySize + childSize) = count at *
    have few : count ≤ count * keySize := Nat.le_mul_of_pos_right _ (by omega)
    have children : count * childSize ≤ count * 24 := Nat.mul_le_mul_left _ (by omega)
    rw [Nat.mul_add] at fits most
    rw [Nat.add_mul, Nat.one_mul]
    -- a payload that wraps around gives more keys than the size of the block allows
    unfold nodeHeaderSize at *
    omega

/-- How the entries of a node are stored: each in its number of bytes, and an unused one as
zeros. -/
structure EntryBytes (config : TreeConfig) (isLeaf : Bool) where
  key : Nat → List (BitVec 8)
  slot : Tree → List (BitVec 8)
  key_length : ∀ value, (key value).length = config.keySize
  slot_length : ∀ value, (slot value).length = config.childDataSize isLeaf
  key_zero : key 0 = replicate config.keySize 0
  slot_zero : slot .nil = replicate (config.childDataSize isLeaf) 0

section Bytes

variable {config : TreeConfig} {isLeaf : Bool}

/-- The entries of a node in its `data`. -/
def EntryBytes.data (bytes : EntryBytes config isLeaf) (node : Node) : List (BitVec 8) :=
  node.keys.flatMap bytes.key ++ node.slots.flatMap bytes.slot

/-- The two rounds of `block_tree_node_shift` on what follows the header of a node. -/
def shiftBytes (config : TreeConfig) (isLeaf : Bool) (data : List (BitVec 8)) (dest src : Nat)
    (mode : ShiftMode) (newKeys newData : List (BitVec 8)) : List (BitVec 8) :=
  let size := config.childDataSize isLeaf
  let base := config.keyCount isLeaf * config.keySize
  let slotSrc := if mode = .rightChild ∧ src ≠ noIndex then src + 1 else src
  let slotDest := if mode = .leafOrLeftChild then dest else dest + 1
  (shiftSlots 0 (data.take base) (dest * config.keySize) (src * config.keySize) newKeys).1 ++
    (shiftSlots 0 ((data.drop base).take (config.slotCount isLeaf * size)) (slotDest * size)
      (slotSrc * size) newData).1 ++ (data.drop base).drop (config.slotCount isLeaf * size)

theorem shiftBytes_data (positive : 0 < config.keySize) (bytes : EntryBytes config isLeaf)
    {node : Node} (keys : node.keys.length = config.keyCount isLeaf)
    (slots : node.slots.length = config.slotCount isLeaf) (dest src : Nat) (mode : ShiftMode)
    (newKeys : List Nat) (newSlots : List Tree) (rest : List (BitVec 8)) :
    shiftBytes config isLeaf (bytes.data node ++ rest) dest src mode (newKeys.flatMap bytes.key)
        (newSlots.flatMap bytes.slot) =
      bytes.data (blockTreeNodeShift node dest src mode newKeys newSlots).1 ++ rest := by
  have slotSize : 0 < config.childDataSize isLeaf := by
    have child := config.blockMac_le
    have data := config.blockNum_le
    have one := config.blockNumSize_mem.1
    cases isLeaf <;> omega
  have keyArea :
      (node.keys.flatMap bytes.key).length = config.keyCount isLeaf * config.keySize := by
    rw [length_flatMap_fixed bytes.key_length, keys]
  have slotArea :
      (node.slots.flatMap bytes.slot).length = config.slotCount isLeaf * config.childDataSize
        isLeaf := by
    rw [length_flatMap_fixed bytes.slot_length, slots]
  rw [shiftBytes, EntryBytes.data, append_assoc (node.keys.flatMap _), take_left' keyArea,
    drop_left' keyArea, take_left' slotArea, drop_left' slotArea,
    shiftSlots_flatMap bytes.key_length bytes.key_zero positive,
    shiftSlots_flatMap bytes.slot_length bytes.slot_zero slotSize]
  rfl

end Bytes

/-- A shift up inserts the new entries and returns what the arrays have no room for;
a shift down deletes entries and leaves zeros behind the others.  No assertion fails, and
the bytes of the arrays are changed in this way and no others. -/
theorem blockTreeNodeShift_edits (isLeaf : Bool) (block : Nat) :
    (∀ (mode : ShiftMode) (front fresh back unused : List Nat)
        (slotFront freshSlots slotBack unusedSlots : List Tree),
      front.length < noIndex → slotFront.length = mode.child front.length →
      freshSlots.length = (if mode = .both then fresh.length + 1 else fresh.length) →
      (fresh.length = 1 ∨ fresh.length ≤ back.length) →
      (freshSlots.length = 1 ∨ freshSlots.length ≤ slotBack.length) →
      blockTreeNodeShift ⟨isLeaf, block, front ++ back, slotFront ++ slotBack⟩
        (front.length + fresh.length)
          front.length mode (fresh ++ unused) (freshSlots ++ unusedSlots) =
        (⟨isLeaf, block, (front ++ fresh ++ back).take (front ++ back).length,
            (slotFront ++ freshSlots ++ slotBack).take (slotFront ++ slotBack).length⟩,
          (front ++ fresh ++ back).drop (front ++ back).length,
          (slotFront ++ freshSlots ++ slotBack).drop (slotFront ++ slotBack).length) ∧
      ∀ config : TreeConfig, (front ++ back).length = config.keyCount isLeaf →
        (slotFront ++ slotBack).length = config.slotCount isLeaf →
        (mode ≠ .leafOrLeftChild → isLeaf = false) →
        ShiftAsserts config isLeaf (front.length + fresh.length) front.length mode) ∧
    (∀ (mode : ShiftMode) (keys : List Nat) (slots : List Tree) (dest src : Nat), mode ≠ .both →
      dest < src → blockTreeNodeShift ⟨isLeaf, block, keys, slots⟩ dest src mode [] [] =
        (⟨isLeaf, block, pad 0 keys.length (keys.take dest ++ keys.drop src),
            pad .nil slots.length (slots.take (mode.child dest) ++
              slots.drop (if src = noIndex then src else mode.child src))⟩, [], []) ∧
      ∀ config :
      TreeConfig, dest ≤ config.keyCount isLeaf → (mode ≠ .leafOrLeftChild → isLeaf = false) →
        ShiftAsserts config isLeaf dest src mode) ∧
    ∀ (blockSize keySize childSize dataSize blockNumSize macSize : Nat)
    (copyOnWrite allowCopyOnWrite : Bool)
      (config : TreeConfig), blockTreeSetSizes blockSize keySize childSize dataSize blockNumSize
        macSize copyOnWrite
        allowCopyOnWrite = some config →
      nodeHeaderSize + config.keyCount isLeaf * config.keySize +
        config.slotCount isLeaf * config.childDataSize isLeaf ≤ config.blockSize ∧
      ∀ (bytes : EntryBytes config isLeaf) (node : Node) (rest : List (BitVec 8)) (dest src : Nat)
      (mode : ShiftMode)
        (newKeys : List Nat) (newSlots : List Tree), node.keys.length = config.keyCount isLeaf →
        node.slots.length = config.slotCount isLeaf →
        shiftBytes config isLeaf (bytes.data node ++ rest) dest src mode (newKeys.flatMap bytes.key)
            (newSlots.flatMap bytes.slot) =
          bytes.data (blockTreeNodeShift node dest src mode newKeys newSlots).1 ++ rest := by
  refine ⟨?_, ?_, ?_⟩
  · intro mode front fresh back unused slotFront freshSlots slotBack unusedSlots small start count
      fits slotsFit
    have source :
      (if mode = .rightChild ∧ front.length ≠ noIndex then front.length + 1 else front.length) =
        slotFront.length := by
      rw [start, ShiftMode.child]
      simp [small.ne]
    have target : (if mode = .leafOrLeftChild then front.length + fresh.length
        else front.length + fresh.length + 1) = slotFront.length + freshSlots.length := by
      rw [start, count, ShiftMode.child]
      cases mode <;> simp +arith
    constructor
    · rw [blockTreeNodeShift]
      simp only [source, target, shiftSlots_up _ _ fits, shiftSlots_up _ _ slotsFit]
    · intro config keys slots inner
      rw [length_append] at keys slots
      have most : config.keyCount isLeaf ≤ config.slotCount isLeaf := Nat.le_add_right _ _
      rw [ShiftAsserts, source, target]
      exact ⟨by omega, inner, by omega, by omega⟩
  · intro mode keys slots dest src single below
    have source : (if mode = .rightChild ∧ src ≠ noIndex then src + 1 else src) =
        if src = noIndex then src else mode.child src := by
      by_cases last : src = noIndex <;> simp [last, ShiftMode.child]
    have target : (if mode = .leafOrLeftChild then dest else dest + 1) = mode.child dest := by
      cases mode <;> simp_all [ShiftMode.child]
    have slotsBelow : mode.child dest ≤ if src = noIndex then src else mode.child src := by
      unfold ShiftMode.child
      split_ifs <;> omega
    constructor
    · rw [blockTreeNodeShift]
      simp only [source, target, shiftSlots_down _ _ below.le, shiftSlots_down _ _ slotsBelow]
    · intro config inside inner
      have most : mode.child dest ≤ config.slotCount isLeaf := by
        unfold ShiftMode.child TreeConfig.slotCount
        split_ifs with right leaf
        · cases (inner (right ▸ by decide)).symm.trans leaf
        all_goals omega
      rw [ShiftAsserts, target]
      have here : config.keyCount isLeaf ≤ config.slotCount isLeaf := Nat.le_add_right _ _
      exact ⟨by omega, inner, .inr inside, .inr most⟩
  · intro _ _ _ _ _ _ _ _ config made
    obtain ⟨positive, fits⟩ := blockTreeSetSizes_layout made isLeaf
    exact ⟨fits, fun bytes node rest dest src mode newKeys newSlots keys slots =>
      shiftBytes_data positive bytes keys slots dest src mode newKeys newSlots rest⟩

/-- A key and the child right of it in a full internal node, the first entry of a leaf, and a
size of blocks. -/
theorem blockTreeNodeShift_edits_small :
    blockTreeNodeShift ⟨false, 7, [10, 20], [.data 1, .data 2, .data 3]⟩ 2 1 .rightChild
      [15] [.data 9] = (⟨false, 7, [10, 15], [.data 1, .data 2, .data 9]⟩, [20], [.data 3]) ∧
    blockTreeNodeShift ⟨true, 7, [10, 20], [.data 1, .data 2]⟩ 0 1 .leafOrLeftChild [] [] =
      (⟨true, 7, [20, 0], [.data 2, .nil]⟩, [], []) ∧
    ∃ config, blockTreeSetSizes 128 8 16 16 8 8 false true = some config ∧
      nodeHeaderSize + config.keyCount true * config.keySize +
        config.slotCount true * config.childDataSize true ≤ config.blockSize := by
  refine ⟨?_, ?_, ?_⟩
  · exact ((blockTreeNodeShift_edits false 7).1 .rightChild [10] [15] [20] [] [.data 1, .data 2]
      [.data 9] [.data 3] [] (by decide) rfl rfl (.inl rfl) (.inl rfl)).1
  · exact ((blockTreeNodeShift_edits true 7).2.1 .leafOrLeftChild [10, 20] [.data 1, .data 2] 0
      1 (by decide) (by decide)).1
  · obtain ⟨config, made⟩ := Option.isSome_iff_exists.mp
      (show (blockTreeSetSizes 128 8 16 16 8 8 false true).isSome = true by decide)
    exact ⟨config, made, ((blockTreeNodeShift_edits true 7).2.2 _ _ _ _ _ _ _ _ config made).1⟩

end Trusty.Storage
