import Trusty.Storage.BlockTreeDirty
import Trusty.Storage.BlockTreeWalk

/-!
Splitting a full node.

A node that gets one entry too many is split, and its parent gets a separator
and a child, so that the parent may have to be split in turn.  The node with
the extra entry is a `BTree` whose arrays do not hold all of it: `toNode` keeps
what fits, and the entry that does not fit is handed to the split.  `Level` is
what all nodes of a height have in common, whatever the number of their entries;
that number is the length of `keys`.
-/

namespace Trusty.Storage

open Lib AllocProgram BTree

section Arrays

open List

variable {α : Type} {size : Nat} (zero last : α)

variable {entries : List α}

theorem fill_concat (full : entries.length = size) :
    fill zero size (entries ++ [last]) = pad zero size entries := by
  rw [fill_full (by simp [full]), take_left' full, pad_full (by omega)]

theorem shiftSlots_clear_full {start : Nat} (full : entries.length = size) (small : size ≤ noIndex)
    (inside : start ≤ size) :
    (shiftSlots zero (fill zero size (entries ++ [last])) start noIndex []).1 =
      fill zero size ((entries ++ [last]).take start) := by
  have taken : (entries ++ [last]).take start = entries.take start :=
    take_append_of_le_length (by omega)
  have short : (entries.take start).length ≤ size := by
    rw [length_take]
    omega
  rw [fill_concat zero last full, shiftSlots_clear (by omega) small (by omega), taken,
    fill_eq_pad short]

/-- Deleting the first entries of a full array makes room for the entry that
did not fit. -/
theorem shiftSlots_drop_append {count : Nat} (full : entries.length = size) (positive : 0 < count)
    (inside : count ≤ size) :
    shiftSlots zero (shiftSlots zero (fill zero size (entries ++ [last])) 0 count []).1
        (size - count + 1) (size - count) [last] =
      (fill zero size ((entries ++ [last]).drop count), [zero]) := by
  have dropped : (shiftSlots zero (pad zero size entries) 0 count []).1 =
      pad zero size (entries.drop count) := by
    have split : [] ++ (entries.take count ++ entries.drop count) = entries := by simp
    have deleted : (entries.take count).length = count := by
      rw [length_take]
      omega
    have result :
      (shiftSlots zero (pad zero size ([] ++ (entries.take count ++ entries.drop count)))
        ([] : List α).length (([] : List α).length + (entries.take count).length) []).1 =
        pad zero size ([] ++ entries.drop count) :=
      shiftSlots_delete (by rw [split]; omega)
    rw [split, deleted] at result
    simpa using result
  have restLength : (entries.drop count).length = size - count := by
    rw [length_drop, full]
  have appended : (entries ++ [last]).drop count = entries.drop count ++ [last] :=
    drop_append_of_le_length (by omega)
  have inserted : shiftSlots zero (fill zero size (entries.drop count ++ []))
      ((entries.drop count).length + 1) (entries.drop count).length [last] =
      (fill zero size (entries.drop count ++ [last]),
        [(entries.drop count ++ [last]).getD size zero]) :=
    shiftSlots_fill_insert zero last (by simp; omega)
  rw [append_nil, restLength, fill_eq_pad (by omega)] at inserted
  rw [fill_concat zero last full, dropped, inserted, appended]
  congr 2
  exact getD_eq_default _ _ (by simp; omega)

end Arrays

section Split

open List

variable {config : TreeConfig}

variable {keys : List Nat} {slots : List Tree} {inner : Nat}

theorem splitNode_fill (isLeaf : Bool) (block left right : Nat) {size : Nat}
    (innerEq : inner = if isLeaf then 0 else 1) (two : 2 ≤ size) (small : size < 2 ^ 31)
    (keysLong : keys.length = size + 1) (slotsLong : slots.length = size + inner + 1) :
    splitNode ⟨isLeaf, block, fill 0 size keys, fill .nil (size + inner) slots⟩ left right
        (keys.getD size 0) (slots.getD (size + inner) .nil) =
      (⟨isLeaf, left, fill 0 size (keys.take ((size + 1) / 2)),
          fill .nil (size + inner) (slots.take ((size + 1) / 2 + inner))⟩,
        ⟨isLeaf, right, fill 0 size (keys.drop ((size + 1) / 2 + inner)),
          fill .nil (size + inner) (slots.drop ((size + 1) / 2 + inner))⟩,
        keys.getD ((size + 1) / 2) 0, true) := by
  obtain ⟨keys, appendKey, rfl⟩ := exists_append_singleton (ne_nil_of_length_eq_add_one keysLong)
  obtain ⟨slots, append, rfl⟩ := exists_append_singleton (ne_nil_of_length_eq_add_one slotsLong)
  have keysFull : keys.length = size := by simpa using keysLong
  have slotsFull : slots.length = size + inner := by simpa using slotsLong
  have lastKey : (keys ++ [appendKey]).getD size 0 = appendKey := by simp [← keysFull]
  have lastSlot : (slots ++ [append]).getD (size + inner) .nil = append := by simp [← slotsFull]
  rw [lastKey, lastSlot]
  have innerLe : inner ≤ 1 := by
    rw [innerEq]
    split <;> omega
  have tooSmall : size + inner ≤ noIndex := by
    simp only [noIndex]
    omega
  have cutKeys :=
    shiftSlots_clear_full 0 appendKey keysFull (Nat.le_trans (Nat.le_add_right _ _) tooSmall)
      (show (size + 1) / 2 ≤ size by omega)
  have cutSlots := shiftSlots_clear_full .nil append slotsFull tooSmall
    (show (size + 1) / 2 + inner ≤ size + inner by omega)
  have movedKeys := shiftSlots_drop_append 0 appendKey keysFull
    (show 0 < (size + 1) / 2 + inner by omega) (by omega)
  have movedSlots := shiftSlots_drop_append .nil append slotsFull
    (show 0 < (size + 1) / 2 + inner by omega) (by omega)
  have middle : (fill 0 size (keys ++ [appendKey])).getD ((size + 1) / 2) 0 =
      (keys ++ [appendKey]).getD ((size + 1) / 2) 0 := getD_fill (by omega)
  cases isLeaf with
  | true =>
    simp only [if_true] at innerEq
    subst innerEq
    simp only [Nat.add_zero] at *
    simp only [splitNode, length_fill, blockTreeNodeClearEnd, blockTreeNodeShiftDown,
      blockTreeNodeShift, if_true, if_false, reduceCtorEq, false_and, Nat.sub_zero, Nat.add_zero,
      cutKeys, cutSlots, movedKeys, movedSlots, middle, overflowIsZero]
    rfl
  | false =>
    simp only [Bool.false_eq_true, if_false] at innerEq
    subst innerEq
    have keyIndex : size - (size + 1) / 2 - 1 = size - ((size + 1) / 2 + 1) := by omega
    have slotIndex : size + 1 - ((size + 1) / 2 + 1) = size - ((size + 1) / 2 + 1) + 1 := by omega
    have someIndex : size - ((size + 1) / 2 + 1) ≠ noIndex := by
      omega
    rw [slotIndex] at movedSlots
    simp only [splitNode, length_fill, blockTreeNodeClearEnd, blockTreeNodeShiftDown,
      blockTreeNodeShift, Bool.false_eq_true, if_true, if_false, reduceCtorEq, false_and, true_and,
      ne_eq, not_true_eq_false, someIndex, not_false_eq_true, keyIndex, cutKeys,
      cutSlots, movedKeys,
      movedSlots, middle, overflowIsZero]
    rfl

end Split

namespace BTree

/-- A node of height `height`, with any number of keys. -/
def Level (config : TreeConfig) : Nat → BTree → Prop
  | 0, leaf block _ => block ≠ 0
  | height + 1, node block children =>
    block ≠ 0 ∧ children ≠ [] ∧ ∀ child ∈ children, Sub config height child
  | _, _ => False

/-- A node of height `height` with one entry more than fits. -/
def Overfull (config : TreeConfig) (height : Nat) (tree : BTree) : Prop :=
  Level config height tree ∧ tree.keys.length = config.keyCount tree.isLeaf + 1

/-- The key and the slot that do not fit the arrays of the node. -/
def extraKey (config : TreeConfig) (tree : BTree) : Nat :=
  tree.keys.getD (config.keyCount tree.isLeaf) 0

def extraSlot (config : TreeConfig) (tree : BTree) : Tree :=
  (tree.slots config).getD (config.slotCount tree.isLeaf) .nil

open List

section Level

variable {config : TreeConfig} {height : Nat} {tree : BTree}

theorem sub_iff : Sub config height tree ↔ Level config height tree ∧
    config.minKeyCount tree.isLeaf ≤ tree.keys.length ∧
    tree.keys.length ≤ config.keyCount tree.isLeaf := by
  cases height with
  | zero =>
    cases tree with
    | leaf block entries => simp [Sub, Level, BTree.keys, BTree.isLeaf]
    | node block children => simp [Sub, Level]
  | succ height =>
    cases tree with
    | leaf block entries => simp [Sub, Level]
    | node block children =>
      simp only [Sub, Level, BTree.keys, BTree.isLeaf, length_separators]
      have positive := length_pos_iff (l := children)
      constructor
      · rintro ⟨nonzero, enough, room, below⟩
        exact ⟨⟨nonzero, positive.mp (by omega), below⟩, by omega, by omega⟩
      · rintro ⟨⟨nonzero, nonempty, below⟩, enough, room⟩
        have := positive.mpr nonempty
        exact ⟨nonzero, by omega, by omega, below⟩

theorem Level.block_ne_zero (level : Level config height tree) : tree.block ≠ 0 := by
  cases height <;> cases tree <;> first | exact level.1 | exact level | exact level.elim

/-- Two nodes of one height are two leaves or two internal nodes. -/
@[elab_as_elim]
theorem Level.pair
    {motive : ∀ height left right, Level config height left → Level config height right → Prop}
    (leaves :
      ∀ leftBlock entries rightBlock others (level : Level config 0 (leaf leftBlock entries))
      (rightLevel : Level config 0 (leaf rightBlock others)), motive 0 _ _ level rightLevel)
    (nodes : ∀ height leftBlock children rightBlock others
      (level : Level config (height + 1) (node leftBlock children))
      (rightLevel : Level config (height + 1) (node rightBlock others)),
      motive (height + 1) _ _ level rightLevel)
    {height : Nat} {left right : BTree} (level : Level config height left)
    (rightLevel : Level config height right) : motive height left right level rightLevel := by
  cases height <;> cases left <;> cases right <;>
    first
      | exact level.elim
      | exact rightLevel.elim
      | exact leaves _ _ _ _ level rightLevel
      | exact nodes _ _ _ _ _ level rightLevel

theorem Level.isLeaf_eq {other : BTree} (level : Level config height tree)
    (otherLevel : Level config height other) : tree.isLeaf = other.isLeaf := by
  induction level, otherLevel using Level.pair with
  | leaves => rfl
  | nodes => rfl

theorem Level.length_slots (level : Level config height tree) :
    (tree.slots config).length = tree.keys.length + if tree.isLeaf then 0 else 1 := by
  cases tree with
  | leaf block entries => simp [BTree.slots, BTree.keys, BTree.isLeaf]
  | node block children =>
    cases height with
    | zero => exact level.elim
    | succ height =>
      have positive := length_pos_of_ne_nil level.2.1
      simp only [BTree.slots, BTree.keys, BTree.isLeaf, length_map, length_separators,
        Bool.false_eq_true, if_false]
      omega

theorem firstKey_eq_getD (isLeaf : tree.isLeaf = true) : tree.keys.getD 0 0 = tree.firstKey := by
  cases tree with
  | node block children => exact absurd isLeaf Bool.false_ne_true
  | leaf block entries => cases entries <;> rfl

theorem Level.key_ne_zero (level : Level config height tree) (ordered : Ordered tree.entries) :
    ∀ key ∈ tree.keys, key ≠ 0 := by
  cases height with
  | zero =>
    cases tree with
    | leaf block entries => exact forall_mem_map.mpr ordered.key_ne_zero
    | node block children => exact level.elim
  | succ height =>
    cases tree with
    | leaf block entries => exact level.elim
    | node block children =>
      refine forall_mem_map.mpr fun child inTail => ?_
      have inAll : child ∈ children := mem_of_mem_tail inTail
      exact (ordered.child inAll).firstKey_ne_zero (level.2.2 child inAll).entries_ne_nil

theorem toNode_eq (tree : BTree) :
    tree.toNode config = ⟨tree.isLeaf, tree.block, fill 0 (config.keyCount tree.isLeaf) tree.keys,
      fill .nil (config.slotCount tree.isLeaf) (tree.slots config)⟩ := by
  cases tree <;> rfl

theorem toNode_keys (tree : BTree) :
    (tree.toNode config).keys = fill 0 (config.keyCount tree.isLeaf) tree.keys := by
  cases tree <;> rfl

theorem toNode_isLeaf (tree : BTree) : (tree.toNode config).isLeaf = tree.isLeaf := by
  cases tree <;> rfl

end Level

section Overfull

variable {config : TreeConfig} {height : Nat} {tree : BTree}
  (overfull : Overfull config height tree)

include overfull

theorem Overfull.extraKey_ne_zero (ordered : Ordered tree.entries) : tree.extraKey config ≠ 0 := by
  apply (getD_ne_zero_iff (overfull.1.key_ne_zero ordered) _).mpr
  rw [overfull.2]
  exact Nat.lt_succ_self _

variable {left right : Nat} (leftNonzero : left ≠ 0) (rightNonzero : right ≠ 0)

include leftNonzero rightNonzero

theorem Overfull.halve {middle inner : Nat} (half : middle = (config.keyCount tree.isLeaf + 1) / 2)
    (innerEq : inner = if tree.isLeaf then 0 else 1) :
    ∃ first second, Level config height first ∧ Level config height second ∧
      first.block = left ∧ second.block = right ∧ first.keys = tree.keys.take middle ∧
      first.slots config = (tree.slots config).take (middle + inner) ∧
      second.keys = tree.keys.drop (middle + inner) ∧
      second.slots config = (tree.slots config).drop (middle + inner) ∧
      second.firstKey = tree.keys.getD middle 0 ∧
      first.entries ++ second.entries = tree.entries := by
  obtain ⟨level, long⟩ := overfull
  cases height <;> cases tree
  case zero.leaf block entries =>
    subst innerEq
    have inside : middle < entries.length := by
      simp only [BTree.keys, BTree.isLeaf, length_map] at long half
      omega
    refine ⟨leaf left (entries.take middle), leaf right (entries.drop middle), leftNonzero,
      rightNonzero, rfl, rfl, map_take, map_take, map_drop, map_drop, ?_, take_append_drop _ _⟩
    rw [firstKey, BTree.entries, drop_eq_getElem_cons inside, BTree.keys,
      getD_eq_getElem _ _ (by simpa using inside), getElem_map]
  case succ.node height block children =>
    subst innerEq
    have inside : middle + 1 < children.length := by
      simp only [BTree.keys, BTree.isLeaf, length_separators] at long half
      omega
    have nonempty := (level.2.2 _ (getElem_mem inside)).entries_ne_nil
    refine ⟨node left (children.take (middle + 1)), node right (children.drop (middle + 1)),
      ⟨leftNonzero, ?_, fun child mem => level.2.2 child (mem_of_mem_take mem)⟩,
      ⟨rightNonzero, ?_, fun child mem => level.2.2 child (mem_of_mem_drop mem)⟩, rfl, rfl, ?_,
      map_take, ?_, map_drop, ?_, ?_⟩
    · simp [level.2.1]
    · exact ne_nil_of_length_pos (by rw [length_drop]; omega)
    · cases children with
      | nil => exact absurd inside (Nat.not_lt_zero _)
      | cons child rest => simp [BTree.keys, separators, map_take]
    · change ((children.drop (middle + 1)).tail).map _ = (children.tail.map _).drop (middle + 1)
      rw [← map_drop, tail_drop, drop_tail]
    · rw [drop_eq_getElem_cons inside, firstKey_node nonempty, BTree.keys, separators,
        getD_eq_getElem _ _ (by simp; omega), getElem_map, getElem_tail]
    · rw [BTree.entries, BTree.entries, ← entriesAll_append, take_append_drop, BTree.entries]
  all_goals exact level.elim

theorem splitNode_halves :
    ∃ first second, splitNode (tree.toNode config) left right (tree.extraKey config)
        (tree.extraSlot config) =
      (first.toNode config, second.toNode config, second.firstKey, true) ∧
      Sub config height first ∧ Sub config height second ∧
      second.firstKey = tree.keys.getD ((config.keyCount tree.isLeaf + 1) / 2) 0 ∧
      first.entries ++ second.entries = tree.entries := by
  obtain ⟨first, second, firstLevel, secondLevel, firstBlock, secondBlock, firstKeys, firstSlots,
    secondKeys, secondSlots, middle, joined⟩ := overfull.halve leftNonzero rightNonzero rfl rfl
  obtain ⟨level, long⟩ := overfull
  have two := config.two_le_keyCount tree.isLeaf
  have slotsLong := level.length_slots
  rw [long, Nat.add_right_comm] at slotsLong
  refine ⟨first, second, ?_, sub_iff.mpr ⟨firstLevel, ?_⟩, sub_iff.mpr ⟨secondLevel, ?_⟩, middle,
    joined⟩
  · rw [toNode_eq tree, toNode_eq first, toNode_eq second, firstBlock, secondBlock, firstKeys,
      firstSlots, secondKeys, secondSlots, middle, ← level.isLeaf_eq firstLevel,
      ← level.isLeaf_eq secondLevel]
    exact splitNode_fill _ _ _ _ rfl two (config.keyCount_lt _) long slotsLong
  · rw [← level.isLeaf_eq firstLevel, firstKeys, length_take, long, TreeConfig.minKeyCount]
    omega
  · rw [← level.isLeaf_eq secondLevel, secondKeys, length_drop, long, TreeConfig.minKeyCount]
    split <;> omega

end Overfull

section Halves

variable {tree first second : BTree}

theorem firstKey_eq_of_append {newTree : BTree} {others newOthers : List (Nat × Nat)}
    (nonempty : tree.entries ≠ []) (newNonempty : newTree.entries ≠ [])
    (same : newTree.entries ++ newOthers = tree.entries ++ others) :
    newTree.firstKey = tree.firstKey := by
  rcases exists_cons_of_ne_nil nonempty with ⟨first, rest, found⟩
  rcases exists_cons_of_ne_nil newNonempty with ⟨newFirst, newRest, newFound⟩
  rw [found, newFound, cons_append, cons_append, List.cons.injEq] at same
  simp [firstKey, found, newFound, same.1]

theorem firstKey_halves (nonempty : first.entries ≠ []) (someSecond : second.entries ≠ [])
    (joined : first.entries ++ second.entries = tree.entries) (ordered : Ordered tree.entries) :
    first.firstKey = tree.firstKey ∧ tree.firstKey ≤ second.firstKey := by
  rcases exists_cons_of_ne_nil nonempty with ⟨entry, others, firstEq⟩
  rcases exists_entry_firstKey someSecond with ⟨middle, inSecond, middleKey⟩
  have same : first.firstKey = tree.firstKey := by simp [firstKey, ← joined, firstEq]
  refine ⟨same, ?_⟩
  rw [← joined] at ordered
  have below := ordered.append.2.2 entry (by simp [firstEq]) middle inSecond
  rw [← same, ← middleKey]
  simpa [firstKey, firstEq] using below

theorem separators_middle (left right : List BTree) (tree : BTree) :
    separators (left ++ tree :: right) = separators (left ++ [tree]) ++ right.map firstKey := by
  rw [append_cons, separators_append (by simp)]

end Halves

end BTree

/-- The node of a frame with two children in place of the hole. -/
def Frame.grow (frame : Frame) (block : Nat) (first second : BTree) : BTree :=
  node block (frame.left ++ first :: second :: frame.right)

section InsertChild

open List

variable {config : TreeConfig}

theorem blockTreeNodeInsert_child (block key : Nat) (slot : Tree) {size : Nat}
    {keys laterKeys : List Nat} {slots laterSlots : List Tree} (small : size < 2 ^ 31)
    (aligned : slots.length = keys.length + 1) (keysFit : (keys ++ laterKeys).length ≤ size)
    (slotsFit : (slots ++ laterSlots).length ≤ size + 1) :
    blockTreeNodeInsert
        ⟨false, block, fill 0 size (keys ++ laterKeys), fill .nil (size + 1) (slots ++ laterSlots)⟩
        keys.length .rightChild key slot =
      (⟨false, block, fill 0 size (keys ++ key :: laterKeys),
          fill .nil (size + 1) (slots ++ slot :: laterSlots)⟩,
        (keys ++ key :: laterKeys).getD size 0,
        (slots ++ slot :: laterSlots).getD (size + 1) .nil) := by
  have someIndex : keys.length ≠ noIndex := by
    simp only [length_append] at keysFit
    simp only [noIndex]
    omega
  have movedKeys := shiftSlots_fill_insert 0 key keysFit
  have movedSlots := shiftSlots_fill_insert .nil slot slotsFit
  rw [aligned] at movedSlots
  simp [blockTreeNodeInsert, blockTreeNodeShift, movedKeys, movedSlots, someIndex]

theorem Frame.insert_half (frame : Frame) (block : Nat) (first second : BTree)
    (room : frame.left.length + frame.right.length ≤ config.keyCount false) :
    blockTreeNodeInsert ((node block (frame.left ++ first :: frame.right)).toNode config)
        frame.left.length .rightChild second.firstKey (second.embed config) =
      ((frame.grow block first second).toNode config,
        (frame.grow block first second).extraKey config,
        (frame.grow block first second).extraSlot config) := by
  rcases frame with ⟨frameBlock, left, right⟩
  have oldKeys := separators_middle left right first
  have newKeys := separators_middle left (second :: right) first
  rw [map_cons] at newKeys
  have index : left.length = (separators (left ++ [first])).length := by
    rw [length_separators]
    simp
  have oldSlots : (left ++ first :: right).map (embed config) =
      (left ++ [first]).map (embed config) ++ right.map (embed config) := by simp
  have newSlots : (left ++ first :: second :: right).map (embed config) =
      (left ++ [first]).map (embed config) ++ second.embed config :: right.map (embed config) := by
        simp
  have aligned : ((left ++ [first]).map (embed config)).length =
      (separators (left ++ [first])).length + 1 := by
    rw [← index]
    simp
  have keysFit : (separators (left ++ [first]) ++ right.map BTree.firstKey).length ≤
      config.keyCount false := by
    rw [length_append, ← index]
    simpa using room
  have slotsFit : ((left ++ [first]).map (embed config) ++ right.map (embed config)).length ≤
      config.keyCount false + 1 := by
    simp only [length_append, length_map, length_singleton] at room ⊢
    omega
  have inserted := blockTreeNodeInsert_child block second.firstKey (second.embed config)
    (config.keyCount_lt false) aligned keysFit slotsFit
  rw [← index, ← oldKeys, ← newKeys, ← oldSlots, ← newSlots] at inserted
  exact inserted

theorem new_root {block : Nat} {first second : BTree} :
    blockTreeNodeInsert
        { isLeaf := false
          block := block
          keys := List.replicate (config.keyCount false) 0
          slots := (List.replicate (config.slotCount false) Tree.nil).set 0 (first.embed config) }
        0 .rightChild second.firstKey (second.embed config) =
      ((node block [first, second]).toNode config, 0, .nil) := by
  have two := config.two_le_keyCount false
  have start : (⟨false, block, List.replicate (config.keyCount false) 0,
      (List.replicate (config.slotCount false) Tree.nil).set 0 (first.embed config)⟩ : Node) =
      (node block ([] ++ first :: [])).toNode config := by
    rw [toNode, nil_append, map_singleton, TreeConfig.slotCount]
    simp [fill_singleton, replicate_succ, separators, fill_nil]
  rw [start]
  refine (Frame.insert_half ⟨0, [], []⟩ block first second (by simp)).trans ?_
  congr 2
  · apply getD_eq_default
    exact Nat.le_of_succ_le two
  · apply getD_eq_default
    exact Nat.le_succ_of_le two

end InsertChild

/-- No node that has to be split below `frames` sends up a key that equals the
separator after it.  `keys` are the keys of the node in the hole, one too many,
and `key` is its first key. -/
def SplitsClear (config : TreeConfig) : List Frame → Nat → Bool → List Nat → Prop
  | [], _, _, _ => True
  | frame :: frames, key, isLeaf, keys =>
    let middle := keys.getD ((config.keyCount isLeaf + 1) / 2) 0
    (∀ next ∈ frame.right.head?, middle < next.firstKey) ∧
      (config.keyCount false ≤ frame.left.length + frame.right.length →
        SplitsClear config frames (frame.firstKey key) false
          ((frame.keys key).insertIdx frame.left.length middle))

open List

theorem SplitsClear.relabel {config : TreeConfig} {old new : List Frame} {key : Nat} {isLeaf : Bool}
    {keys : List Nat} (same : Relabel old new) (clear : SplitsClear config old key isLeaf keys) :
    SplitsClear config new key isLeaf keys := by
  induction same generalizing key isLeaf keys with
  | nil => exact clear
  | @cons oldFrame newFrame oldFrames newFrames same rest ih =>
    rcases clear with ⟨here, above⟩
    have keysEq : newFrame.keys key = oldFrame.keys key := by
      simp only [Frame.keys, same.1, same.2.1]
    have firstEq : newFrame.firstKey key = oldFrame.firstKey key := by
      simp only [Frame.firstKey, same.1]
    refine ⟨?_, ?_⟩
    · rw [same.2.1]
      exact here
    · rw [same.1, same.2.1, keysEq, firstEq]
      exact fun full => ih (above full)

/-! ### The parent of a split node -/

theorem insertIdx_length_append {α : Type} (front back : List α) (value : α) :
    (front ++ back).insertIdx front.length value = front ++ value :: back := by
  induction front with
  | nil => rfl
  | cons head front ih => exact congrArg (head :: ·) ih

section Grow

variable {config : TreeConfig} {height block : Nat} {frame : Frame} {frames newFrames : List Frame}
variable {first second tree : BTree}

section

variable (frame : Frame) (block : Nat)

theorem Frame.firstKey_grow (second : BTree) (fits : Sub config height first)
    (context : Context config height (frame :: frames)) :
    (frame.grow block first second).firstKey = frame.firstKey first.firstKey := by
  have siblings : ∀ child ∈ frame.left, child.entries ≠ [] := fun child mem =>
    (context.2.1 child (mem_append_left _ mem)).entries_ne_nil
  let grown : Frame := ⟨block, frame.left, second :: frame.right⟩
  have closed : (grown.close first).firstKey = grown.firstKey first.firstKey :=
    Frame.firstKey_close fits.entries_ne_nil siblings
  exact closed

theorem Frame.entries_grow (same : Relabel frames newFrames)
    (joined : first.entries ++ second.entries = tree.entries) :
    (plug (frame.grow block first second) newFrames).entries =
      (plug tree (frame :: frames)).entries := by
  rw [entries_plug, entries_plug, same.before, same.after, before, after, ← joined]
  simp [Frame.grow, BTree.entries, entriesAll]

theorem Frame.keys_grow (first second : BTree) : (frame.grow block first second).keys =
      (frame.keys first.firstKey).insertIdx frame.left.length second.firstKey := by
  have index : (separators (frame.left ++ [first])).length = frame.left.length := by
    rw [length_separators]
    simp
  rw [Frame.keys_eq_separators, separators_middle, ← index, insertIdx_length_append]
  exact separators_middle frame.left (second :: frame.right) first

theorem Frame.extraKey_grow (first second : BTree)
    (room : frame.left.length + frame.right.length < config.keyCount false) :
    (frame.grow block first second).extraKey config = 0 := by
  apply getD_eq_default
  simp only [Frame.grow, BTree.keys, BTree.isLeaf, length_separators, length_append, length_cons]
  omega

end

section

variable (context : Context config height (frame :: frames)) (firstFits : Sub config height first)
  (secondFits : Sub config height second)

include context firstFits secondFits

theorem Context.children_grow :
    ∀ child ∈ frame.left ++ first :: second :: frame.right, Sub config height child := by
  obtain ⟨left, right⟩ := forall_mem_append.mp context.2.1
  exact forall_mem_append.mpr
    ⟨left, forall_mem_cons.mpr ⟨firstFits, forall_mem_cons.mpr ⟨secondFits, right⟩⟩⟩

variable (nonzero : block ≠ 0)

include nonzero

theorem Context.root_grow (same : Relabel frames newFrames)
    (room : frame.left.length + frame.right.length < config.keyCount false) :
    Root config (height + (newFrames.length + 1))
    (plug (frame.grow block first second) newFrames) := by
  have enough := context.2.2.1
  apply (same.context context.2.2.2.2).root_node nonzero
    (context.children_grow firstFits secondFits)
  · simp only [same.eq_nil_iff, length_append, length_cons]
    omega
  · simp only [length_append, length_cons]
    omega

theorem Context.overfull_grow
    (full : config.keyCount false ≤ frame.left.length + frame.right.length) :
    Overfull config (height + 1) (frame.grow block first second) := by
  have room := context.2.2.2.1
  refine ⟨⟨nonzero, by simp, context.children_grow firstFits secondFits⟩, ?_⟩
  simp only [Frame.grow, BTree.keys, BTree.isLeaf, length_separators, length_append, length_cons]
  omega

end

end Grow

section SplitProgram

variable {config : TreeConfig} (updatable : config.Updatable) {height : Nat} {tree : BTree}
  {entry : PathEntry} {post : Tree → Prop}

include updatable

theorem split_root {count : Nat} (overfull : Overfull config height tree)
    (nodeEq : entry.node = tree.toNode config) (next : Yields config (· = tree.entries) post) :
    ensures (blockTreeNodeSplit config (count + 1) [entry] (tree.extraKey config)
      (tree.extraSlot config)) post := by
  have blockEq : entry.node.block = tree.block := by rw [nodeEq, toNode_block]
  have nonzero := overfull.1.block_ne_zero
  simp only [blockTreeNodeSplit, ensures_bind, ensures_require]
  refine ⟨updatable, ?_⟩
  intro right rightNonzero left leftNonzero
  simp only [ensures_bind]
  apply blockTreeBlockDirty_ensures updatable
  intro block blockNonzero
  rcases splitNode_halves overfull leftNonzero rightNonzero with
    ⟨leftHalf, rightHalf, halved, leftFits, rightFits, _, joined⟩
  rw [nodeEq, halved]
  simp only [toNode_tree, new_root, ensures_require, true_and, ensures_pure]
  apply next (height + 1)
  · refine ⟨blockNonzero (blockEq ▸ nonzero), by simp, ?_, ?_⟩
    · have two := config.two_le_keyCount false
      simp only [length_cons, length_nil]
      omega
    · intro child mem
      rcases mem_pair.mp mem with rfl | rfl
      · exact leftFits
      · exact rightFits
  · simp only [BTree.entries, entriesAll, append_nil]
    exact joined

theorem blockTreeNodeSplit_ensures {frames : List Frame} {entries : List PathEntry}
    (overfull : Overfull config height tree) (nodeEq : entry.node = tree.toNode config)
    (above : Above config frames tree.firstKey entries) (context : Context config height frames)
    (ordered : Ordered (plug tree frames).entries)
    (clear : SplitsClear config frames tree.firstKey tree.isLeaf tree.keys)
    (next : Yields config (· = (plug tree frames).entries) post) :
    ensures (blockTreeNodeSplit config (frames.length + 1) (entry :: entries)
      (tree.extraKey config) (tree.extraSlot config)) post := by
  -- the frames above are relabelled on the way up, so the induction is on their number
  obtain ⟨count, size⟩ : ∃ count, frames.length = count := ⟨_, rfl⟩
  rw [size]
  induction count generalizing height tree frames entry entries with
  | zero =>
    rcases length_eq_zero_iff.mp size with rfl
    obtain rfl := above.nil_inv
    exact split_root updatable overfull nodeEq next
  | succ count ih =>
    rcases exists_of_length_succ frames size with ⟨frame, frames, rfl⟩
    obtain ⟨parent, entries, rfl⟩ := above.cons_inv
    have orderedHere := ordered.hole (frame :: frames)
    rw [blockTreeNodeSplit]
    simp only [ensures_bind, ensures_require]
    refine ⟨updatable, ?_⟩
    intro right rightNonzero
    rcases above with ⟨index, inner, block, keys, slots, prevKey, nextKey, outer⟩
    have blockEq : entry.node.block = tree.block := by rw [nodeEq, toNode_block]
    simp only [ensures_bind]
    apply blockTreeBlockDirty_ensures updatable
    intro left leftNonzero
    apply blockTreeBlockDirty_ensures updatable
    intro parentBlock parentNonzero
    have leftHere : left ≠ 0 := leftNonzero (blockEq ▸ overfull.1.block_ne_zero)
    have parentHere : parentBlock ≠ 0 := parentNonzero (block ▸ context.1)
    rcases splitNode_halves overfull leftHere rightNonzero with
      ⟨leftHalf, rightHalf, halved, leftFits, rightFits, middle, joined⟩
    rcases firstKey_halves leftFits.entries_ne_nil rightFits.entries_ne_nil joined orderedHere with
      ⟨firstEq, firstLe⟩
    rw [nodeEq, halved]
    have keysFit := context.length_keys_le tree.firstKey
    have filled : (⟨parent.node.isLeaf, parentBlock, parent.node.keys,
        parent.node.slots.set parent.index (leftHalf.embed config)⟩ : Node) =
        (node parentBlock (frame.left ++ leftHalf :: frame.right)).toNode config := by
      have relabelled : Above config (⟨parentBlock, frame.left, frame.right⟩ :: frames)
          leftHalf.firstKey
          ({ parent with node := { parent.node with block := parentBlock } } :: entries) := by
        rw [firstEq]
        exact ⟨index, inner, rfl, keys, slots, prevKey, nextKey, outer⟩
      exact relabelled.close
    simp only [ensures_require, true_and, toNode_tree, filled]
    simp only [index, frame.insert_half parentBlock leftHalf rightHalf context.2.2.2.1, keys,
      getD_fill_of_length_le keysFit, Frame.getD_keys_right]
    refine ⟨?_, ?_, ?_⟩
    · -- the split asserts that the new separator is below the next one
      cases rightEq : frame.right with
      | nil => exact .inl rfl
      | cons sibling others =>
        right
        rw [middle]
        exact clear.1 sibling (by simp [rightEq])
    · rcases Nat.eq_zero_or_pos frame.left.length with atStart | later
      · exact .inl atStart
      · right
        rw [Frame.getD_keys_left (ne_nil_of_length_pos later)]
        exact firstLe
    apply blockTreePathPutDirty_ensures updatable outer
    intro newFrames newEntries same newOuter
    have grownFirst := frame.firstKey_grow parentBlock rightHalf leftFits context
    have grownEntries := frame.entries_grow parentBlock same joined
    rw [firstEq] at grownFirst
    rw [← grownFirst] at newOuter
    rcases Nat.lt_or_ge (frame.left.length + frame.right.length) (config.keyCount false) with
      room | full
    · have noOverflow := frame.extraKey_grow parentBlock leftHalf rightHalf room
      have grownNonempty : (frame.grow parentBlock leftHalf rightHalf).entries ≠ [] := by
        simp [Frame.grow, BTree.entries, entriesAll, leftFits.entries_ne_nil]
      simp only [noOverflow, if_true, ensures_pure, toNode_tree]
      rw [newOuter.rebuild (same.context context.2.2.2.2) grownNonempty]
      exact next _ _ (context.root_grow leftFits rightFits parentHere same room) grownEntries
    have grownOverfull : Overfull config (height + 1) (frame.grow parentBlock leftHalf rightHalf) :=
      context.overfull_grow leftFits rightFits parentHere full
    have grownOrdered :
        Ordered (plug (frame.grow parentBlock leftHalf rightHalf) newFrames).entries := by
      rw [grownEntries]
      exact ordered
    have overflow := grownOverfull.extraKey_ne_zero (grownOrdered.hole newFrames)
    rw [if_neg overflow]
    apply ih grownOverfull rfl newOuter (same.context context.2.2.2.2) grownOrdered
    · rw [Frame.keys_grow, firstEq, middle, grownFirst]
      exact (clear.2 full).relabel same
    · rw [grownEntries]
      exact next
    · rw [same.length]
      exact Nat.succ.inj size

end SplitProgram

end Trusty.Storage
