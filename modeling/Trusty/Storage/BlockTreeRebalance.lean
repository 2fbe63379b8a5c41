import Trusty.Storage.BlockTreeMerge

/-!
Nodes that have become too small.

`block_tree_node_merge` and `block_tree_remove_internal` call each other: a
merge removes a separator and a child from the parent, which may then be too
small itself.  `RemovesChild` is what a merge needs of the removal above it.
-/

namespace Trusty.Storage

open Lib AllocProgram BTree List

/-- The node of a frame without its hole. -/
def Frame.shut (frame : Frame) (block : Nat) : BTree :=
  node block (frame.left ++ frame.right)

/-- A path entry at the hole of `frame`, with `key` as the separator left of
the hole. -/
structure Describes (config : TreeConfig) (frame : Frame) (key : Nat) (entry : PathEntry) :
    Prop where
  index : entry.index = frame.left.length
  inner : entry.node.isLeaf = false
  block : entry.node.block = frame.block
  keys : entry.node.keys = fill 0 (config.keyCount false) (frame.keys key)
  slots : ∃ hole, entry.node.slots = fill .nil (config.slotCount false)
    (frame.left.map (embed config) ++ hole :: frame.right.map (embed config))

/-- `removeInternal` removes the hole of the innermost frame and the separator
left of it. -/
def RemovesChild (config : TreeConfig) (removeInternal : List PathEntry → TreeProgram Tree)
    (height count : Nat) : Prop :=
  ∀ (frame : Frame) (frames : List Frame) (key : Nat) (entry : PathEntry)
    (above : List PathEntry) (post : Tree → Prop),
    frames.length = count → Context config height (frame :: frames) → frame.left ≠ [] → key ≠ 0 →
    Describes config frame key entry → Above config frames (frame.firstKey key) above →
    Ordered (plug (frame.shut frame.block) frames).entries →
    Yields config (· = (plug (frame.shut frame.block) frames).entries) post →
    ensures (removeInternal (entry :: above)) post

section Rebalance

variable {config : TreeConfig} {height block key : Nat} {tree sibling : BTree} {frame : Frame}
  {frames newFrames : List Frame} {children others more : List BTree} {parent : PathEntry}
  {above : List PathEntry} {post : Tree → Prop}
  {removeInternal : List PathEntry → TreeProgram Tree}

theorem BTree.Level.entries_eq_nil_iff (level : Level config height tree) :
    tree.entries = [] ↔ tree.isLeaf = true ∧ tree.keys = [] := by
  cases tree with
  | leaf block entries =>
    exact ⟨fun empty => ⟨rfl, map_eq_nil_iff.mpr empty⟩, fun none => map_eq_nil_iff.mp none.2⟩
  | node block children =>
    cases height with
    | zero => exact level.elim
    | succ height =>
      rcases exists_cons_of_ne_nil level.2.1 with ⟨first, rest, rfl⟩
      have nonempty := (level.2.2 first mem_cons_self).entries_ne_nil
      simp [BTree.entries, entriesAll, nonempty, BTree.isLeaf]

/-- The one case in which a node is left without entries. -/
theorem BTree.Level.emptied_iff (level : Level config height tree)
    (short : tree.keys.length + 1 = config.minKeyCount tree.isLeaf) :
    (config.minKeyCount tree.isLeaf - 1 == 0 && tree.isLeaf) = true ↔ tree.entries = [] := by
  rw [← short, Nat.add_sub_cancel, Bool.and_eq_true, beq_iff_eq, length_eq_zero_iff,
    level.entries_eq_nil_iff, and_comm]

theorem Relabel.cons_inv (same : Relabel (frame :: frames) newFrames) :
    ∃ newFrame others, newFrames = newFrame :: others ∧ Relabel frames others := by
  cases same with
  | cons head tail => exact ⟨_, _, rfl, tail⟩

theorem Above.rebuild_node {entries : List PathEntry} {first : BTree} {rest : List BTree}
    {newNode : Node} (above : Above config frames first.firstKey entries)
    (context : Context config height frames) (childrenEq : children = first :: rest)
    (nonempty : first.entries ≠ []) (nodeEq : newNode = (node block children).toNode config) :
    Storage.rebuild newNode.tree entries = (plug (node block children) frames).embed config := by
  subst childrenEq
  rw [nodeEq, toNode_tree]
  have closed : (node block (first :: rest)).firstKey = first.firstKey := firstKey_node nonempty
  rw [← closed] at above
  apply above.rebuild context
  simp [BTree.entries, entriesAll, nonempty]

/-- The sibling that helps is the next one for the first child, and the previous
one for any other. -/
theorem Context.exists_sibling (context : Context config height (frame :: frames))
    (path : Above config (frame :: frames) key (parent :: above)) :
    ∃ sibling ∈ frame.left ++ frame.right,
      (parent.node.slots.getD (blockTreeSiblingIndex parent.index) .nil).asNode = some
        (sibling.toNode config) ∧
      ((frame.left = [] ∧ ∃ others, frame.right = sibling :: others) ∨
        ∃ more, frame.left = more ++ [sibling]) := by
  obtain ⟨index, _, _, _, ⟨hole, slots⟩, _⟩ := path
  have room := context.2.2.2.1
  rcases Classical.em (frame.left = []) with leftEq | someLeft
  · have someRight : frame.right ≠ [] := by
      have enough := context.2.2.1
      have positive := minKeyCount_pos config false
      rw [leftEq, length_nil, Nat.zero_add] at enough
      apply ne_nil_of_length_pos
      split at enough <;> omega
    obtain ⟨sibling, others, rightEq⟩ := exists_cons_of_ne_nil someRight
    refine ⟨sibling, by simp [rightEq], ?_, .inl ⟨leftEq, others, rightEq⟩⟩
    have inside : 1 < config.slotCount false := Nat.lt_succ_of_lt (config.two_le_keyCount false)
    rw [slots, index, leftEq, rightEq, length_nil, blockTreeSiblingIndex, if_pos rfl,
      getD_fill inside, ← embed_asNode]
    rfl
  · obtain ⟨more, sibling, leftEq⟩ := exists_append_singleton someLeft
    refine ⟨sibling, by simp [leftEq], ?_, .inr ⟨more, leftEq⟩⟩
    rw [leftEq, length_append, length_singleton] at index room
    have inside : more.length < config.slotCount false := by
      rw [TreeConfig.slotCount]
      omega
    rw [slots, index, leftEq, blockTreeSiblingIndex, if_neg (Nat.succ_ne_zero _),
      Nat.add_sub_cancel, getD_fill inside, ← embed_asNode]
    simp

/-- The separator left of a first child is in a node above its parent. -/
theorem updateKeyIf_cons {needed : Bool} (index : needed = true → parent.index = 0) (newKey : Nat) :
    updateKeyIf config needed newKey (parent :: above) =
      (updateKeyIf config needed newKey above >>= fun above => pure (parent :: above)) := by
  cases needed with
  | true => simp [updateKeyIf, blockTreeUpdateKey, index rfl]
  | false => rfl

variable (updatable : config.Updatable)

include updatable

theorem updateKeyIf_ensures (newKey : Nat) {oldKey calledKey : Nat} {needed : Bool}
    {post : List PathEntry → Prop} (called : needed = true → calledKey = newKey)
    (outer : Above config frames oldKey above) (same : needed = false → oldKey = newKey)
    (context : Context config height frames) (low : ∀ entry ∈ before frames, entry.1 ≤ newKey)
    (high : ∀ entry ∈ after frames, newKey ≤ entry.1) (next : Relabels config frames newKey post) :
    ensures (updateKeyIf config needed calledKey above) post := by
  cases needed with
  | true =>
    rw [updateKeyIf, if_pos rfl, called rfl]
    exact blockTreeUpdateKey_ensures updatable outer context low high next
  | false =>
    rw [same rfl] at outer
    exact next frames above (Relabel.refl _) outer

/-- The right one of two neighbours is emptied into the left one, and its place
in the parent is removed. -/
theorem mergeSiblings_ensures {outerKey : Nat} {left right : BTree}
    (removes : RemovesChild config removeInternal height frames.length)
    (level : Level config height left) (rightLevel : Level config height right)
    (total : left.keys.length + right.keys.length + 1 =
      config.minKeyCount left.isLeaf + config.minKeyCount left.isLeaf)
    (leftShort : left.keys.length ≤ config.minKeyCount left.isLeaf)
    (rightShort : right.keys.length ≤ config.minKeyCount left.isLeaf)
    (index : parent.index = more.length) (inner : parent.node.isLeaf = false)
    (blockEq : parent.node.block = block) (keys : parent.node.keys = fill 0 (config.keyCount false)
      ((⟨block, more ++ [left], others⟩ : Frame).keys key))
    (slots : ∃ hole dead, parent.node.slots = fill .nil (config.slotCount false)
      (more.map (embed config) ++ hole :: dead :: others.map (embed config)))
    (nextKey : parent.nextKey = key) (keyNonzero : key ≠ 0)
    (keyEq : right.entries ≠ [] → key = right.firstKey)
    (outer : Above config frames outerKey above)
    (outerEq : left.entries ≠ [] →
      outerKey = (⟨block, more ++ [left], others⟩ : Frame).firstKey key)
    (onlyFirst : left.entries = [] → more = []) (nonzero : block ≠ 0)
    (fits : ∀ child ∈ more ++ others, Sub config height child)
    (enough :
      (if frames = [] then 1 else config.minKeyCount false) ≤ more.length + 1 + others.length)
    (room : more.length + 1 + others.length ≤ config.keyCount false)
    (context : Context config (height + 1) frames)
    (ordered : Ordered (plug (node block (more ++ left :: right :: others)) frames).entries)
    (next : Yields config
      (· = (plug (node block (more ++ left :: right :: others)) frames).entries) post) :
    ensures
      (mergeSiblings config removeInternal (left.toNode config) (right.toNode config) parent above)
      post := by
  have shorter := minKeyCount_lt config left.isLeaf
  have sameKind := level.isLeaf_eq rightLevel
  have nodeOrdered : Ordered (node block (more ++ left :: right :: others)).entries :=
    Ordered.hole frames ordered
  have leftOrdered : Ordered left.entries := Ordered.child nodeOrdered (by simp)
  have rightOrdered : Ordered right.entries := Ordered.child nodeOrdered (by simp)
  have leftRoom : left.keys.length ≤ config.keyCount left.isLeaf :=
    Nat.le_trans leftShort shorter.le
  have rightRoom : right.keys.length ≤ config.keyCount right.isLeaf := by
    rw [← sameKind]
    exact Nat.le_trans rightShort shorter.le
  simp only [mergeSiblings, ensures_bind, toNode_block]
  apply blockTreeBlockDirty_ensures updatable
  intro leftBlock leftNonzero
  have leftHere : leftBlock ≠ 0 := leftNonzero level.block_ne_zero
  have leftCount :
      blockTreeNodeGetKeyCount ((left.withBlock leftBlock).toNode config) = left.keys.length := by
    rw [keyCount_toNode (level.withBlock leftHere) (by simpa using leftOrdered)
      (by simpa using leftRoom), keys_withBlock]
  have rightCount := keyCount_toNode rightLevel rightOrdered rightRoom
  rcases mergeEntries_join level rightLevel leftHere keyEq total with
    ⟨joined, keyCount, slotCount, mergedEq, joinedFits, joinedEntries⟩
  simp only [toNode_withBlock, leftCount, rightCount, nextKey, mergedEq, overflowIsZero_replicate,
    ensures_require, true_and]
  simp only [toNode_isLeaf]
  refine ⟨.inr keyNonzero, ?_⟩
  have joinedNonempty := joinedFits.entries_ne_nil
  have emptied :
    (left.isLeaf && config.minKeyCount left.isLeaf - 1 == 0 && left.keys.length == 0) = true ↔
      left.entries = [] := by
    rw [Bool.and_eq_true, Bool.and_eq_true, beq_iff_eq, beq_iff_eq, length_eq_zero_iff,
      level.entries_eq_nil_iff]
    constructor
    · rintro ⟨⟨isLeaf, _⟩, noKeys⟩
      exact ⟨isLeaf, noKeys⟩
    · rintro ⟨isLeaf, noKeys⟩
      rw [noKeys, length_nil] at total
      exact ⟨⟨isLeaf, by omega⟩, noKeys⟩
  have joinedFirst : left.entries ≠ [] → joined.firstKey = left.firstKey := fun some =>
    firstKey_eq_of_append some joinedNonempty
      (show joined.entries ++ [] = left.entries ++ right.entries by rw [append_nil, joinedEntries])
  let newNode := node block (more ++ joined :: others)
  have newEntries : newNode.entries = (node block (more ++ left :: right :: others)).entries := by
    simp [newNode, BTree.entries, entriesAll, joinedEntries]
  have newFirst : newNode.firstKey = (⟨block, more ++ [joined], others⟩ : Frame).firstKey key := by
    cases more with
    | nil => exact firstKey_node joinedNonempty
    | cons first rest => exact firstKey_node (fits first (by simp)).entries_ne_nil
  have newNonempty : newNode.entries ≠ [] := by
    simp [newNode, BTree.entries, entriesAll, joinedNonempty]
  rcases exists_entry_firstKey newNonempty with ⟨first, inNew, firstEq⟩
  rw [newEntries] at inNew
  rw [entries_plug] at ordered
  rw [updateKeyIf_cons fun needed => by rw [index, onlyFirst (emptied.mp needed)]; rfl]
  simp only [ensures_bind, ensures_pure]
  refine updateKeyIf_ensures updatable newNode.firstKey ?_ outer ?_ context ?_ ?_ ?_
  · intro needed
    have isLeaf : joined.isLeaf = true := by
      rw [← level.isLeaf_eq (sub_iff.mp joinedFits).1]
      simp only [Bool.and_eq_true] at needed
      exact needed.1.1
    rw [newFirst, toNode_keys, getD_fill_of_length_le (sub_iff.mp joinedFits).2.2,
      firstKey_eq_getD isLeaf]
    simp [Frame.firstKey, onlyFirst (emptied.mp needed)]
  · intro notNeeded
    have someEntries : left.entries ≠ [] := fun empty => by
      rw [emptied.mpr empty] at notNeeded
      exact Bool.noConfusion notNeeded
    rw [outerEq someEntries, newFirst]
    cases more with
    | nil => exact (joinedFirst someEntries).symm
    | cons first rest => rfl
  · intro entry mem
    rw [← firstEq]
    exact ordered.append.1.append.2.2 entry mem first inNew
  · intro entry mem
    rw [← firstEq]
    exact ordered.append.2.2 first (mem_append_right _ inNew) entry mem
  intro upperFrames upperAbove upperSame upperOuter
  apply blockTreePathPutDirty_entry updatable upperOuter
  intro newBlock newNonzero newFrames newAbove newSame newOuter
  have allSame := upperSame.trans newSame
  simp only [ensures_bind, blockTreePathSetSiblingBlock, Bool.false_eq_true, if_false, toNode_tree]
  let newFrame : Frame := ⟨newBlock, more ++ [joined], others⟩
  have shutEntries : (plug (newFrame.shut newFrame.block) newFrames).entries =
      (plug (node block (more ++ left :: right :: others)) frames).entries := by
    rw [entries_plug, entries_plug, allSame.before, allSame.after, ← newEntries]
    simp [newFrame, Frame.shut, newNode, BTree.entries, entriesAll]
  apply removes newFrame newFrames key
  · exact allSame.length
  · refine ⟨newNonzero (blockEq ▸ nonzero), ?_, ?_, ?_, allSame.context context⟩
    · obtain ⟨moreFit, othersFit⟩ := forall_mem_append.mp fits
      exact forall_mem_append.mpr
        ⟨forall_mem_append.mpr ⟨moreFit, forall_mem_singleton.mpr joinedFits⟩, othersFit⟩
    · simp only [allSame.eq_nil_iff, newFrame, length_append, length_singleton]
      exact enough
    · simp only [newFrame, length_append, length_singleton]
      exact room
  · simp [newFrame]
  · exact keyNonzero
  · rcases slots with ⟨hole, dead, slots⟩
    refine ⟨?_, inner, rfl, ?_, dead, ?_⟩
    · simp [index, newFrame]
    · rw [keys]
      cases more with
      | nil => rfl
      | cons head tail =>
        have someEntries : left.entries ≠ [] := fun empty => cons_ne_nil _ _ (onlyFirst empty)
        simp [newFrame, Frame.keys, joinedFirst someEntries]
    · have indexMap : more.length = (more.map (embed config)).length := (length_map _).symm
      simp only [slots, index, newFrame]
      rw [indexMap, set_fill_append]
      simp
  · rw [newFirst] at newOuter
    exact newOuter
  · rw [shutEntries, entries_plug]
    exact ordered
  intro newHeight newTree newRoot entriesEq
  apply next newHeight newTree newRoot
  rw [entriesEq, shutEntries]

/-- The end of `migrateEntry`: the separator between the two neighbours is
replaced, the path is made dirty and the neighbours are put in their slots. -/
theorem putNeighbours_ensures {left right : BTree} {entries : List (Nat × Nat)}
    (nodeIndex siblingIndex : Nat) (nodeTree siblingTree : Tree)
    (childrenEq : children = more ++ left :: right :: others)
    (entriesEq : entries = before frames ++ entriesAll children ++ after frames)
    (index : parent.index = more.length + 1) (inner : parent.node.isLeaf = false)
    (keys : parent.node.keys = fill 0 (config.keyCount false)
      ((⟨frame.block, more ++ [left], others⟩ : Frame).keys parent.prevKey))
    (slots : (parent.node.slots.set nodeIndex nodeTree).set siblingIndex siblingTree =
      fill .nil (config.slotCount false) (children.map (embed config)))
    (outer :
      Above config frames ((⟨frame.block, more ++ [left], others⟩ : Frame).firstKey parent.prevKey)
        above)
    (context : Context config height (frame :: frames)) (nonzero : parent.node.block ≠ 0)
    (count : children.length = frame.left.length + frame.right.length + 1)
    (fits : ∀ child ∈ children, Sub config height child) (ordered : Ordered entries)
    (next : Yields config (· = entries) post)
    {finish : List PathEntry → TreeProgram Tree}
    (finishEq : ∀ moved above, finish (moved :: above) = pure (rebuild { moved.node with
      slots := (moved.node.slots.set nodeIndex nodeTree).set siblingIndex siblingTree }.tree
      above)) :
    ensures (blockTreeUpdateKey config right.firstKey (parent :: above)) fun moved =>
      ensures (blockTreePathPutDirty config moved) fun moved =>
        ensures (blockTreePathPutDirty config moved) fun moved =>
          ensures (finish moved) post := by
  subst childrenEq entriesEq
  let newFrame : Frame := ⟨frame.block, more ++ [left], others⟩
  have someLeft : newFrame.left ≠ [] := append_ne_nil_of_right_ne_nil _ (cons_ne_nil _ _)
  have leftLength : newFrame.left.length = more.length + 1 := length_append
  have nonempty : ∀ child ∈ more ++ left :: right :: others, child.entries ≠ [] :=
    fun child mem => (fits child mem).entries_ne_nil
  have childrenOrdered := ordered.append.1.append.2.1
  have split : entriesAll (more ++ left :: right :: others) =
      entriesAll (more ++ [left]) ++ (right.entries ++ entriesAll others) := by simp [entriesAll]
  rw [split] at childrenOrdered
  rcases exists_entry_firstKey (nonempty right (by simp)) with ⟨entry, inRight, entryKey⟩
  apply blockTreeUpdateKey_entry updatable outer (by omega) keys
  · rw [Frame.length_keys, leftLength]
    have room := context.2.2.2.1
    simp only [length_append, length_cons] at count
    change _ + others.length ≤ _
    omega
  · rw [Frame.length_keys, leftLength]
    omega
  · rcases Nat.eq_zero_or_pos more.length with none | some
    · left
      rw [index, none]
    right
    rcases newFrame.getD_keys_before parent.prevKey
      (by rw [leftLength]; exact Nat.succ_le_succ some) with
      ⟨child, mem, found⟩
    rw [leftLength] at found
    have inside : child ∈ more ++ left :: right :: others := by
      rw [append_cons]
      exact mem_append_left _ mem
    rcases exists_entry_firstKey (nonempty child inside) with ⟨other, inChild, otherKey⟩
    rw [index, found, ← otherKey, ← entryKey]
    exact childrenOrdered.append.2.2 other (mem_entriesAll.mpr ⟨child, mem, inChild⟩) entry
      (mem_append_left _ inRight)
  · rw [index, ← leftLength, newFrame.getD_keys_right]
    cases others with
    | nil => exact .inr rfl
    | cons child others =>
      left
      rcases exists_entry_firstKey (nonempty child (by simp)) with ⟨other, inChild, otherKey⟩
      change right.firstKey ≤ child.firstKey
      rw [← entryKey, ← otherKey]
      exact childrenOrdered.append.2.1.append.2.2 entry inRight other
        (mem_entriesAll.mpr ⟨child, mem_cons_self, inChild⟩)
  · rw [index, ← leftLength, newFrame.getD_keys_left someLeft]
  intro block1 nonzero1 frames1 above1 same1 outer1
  apply blockTreePathPutDirty_entry updatable outer1
  intro block2 nonzero2 frames2 above2 same2 outer2
  apply blockTreePathPutDirty_entry updatable outer2
  intro block3 nonzero3 frames3 above3 same3 outer3
  have same := (same1.trans same2).trans same3
  have nodeEq : (⟨parent.node.isLeaf, block3, fill 0 (config.keyCount false)
      ((newFrame.keys parent.prevKey).set (parent.index - 1) right.firstKey),
      (parent.node.slots.set nodeIndex nodeTree).set siblingIndex siblingTree⟩ : Node) =
      (node block3 (more ++ left :: right :: others)).toNode config := by
    rw [slots, index, ← leftLength, newFrame.set_keys_left someLeft, Frame.keys_eq_separators,
      inner, toNode]
    simp [newFrame]
  have firstChild : ∃ first later, more ++ left :: right :: others = first :: later ∧
      newFrame.firstKey parent.prevKey = first.firstKey := by
    cases more with
    | nil => exact ⟨left, _, rfl, rfl⟩
    | cons first later => exact ⟨first, _, rfl, rfl⟩
  rcases firstChild with ⟨first, later, firstEq, firstKeyEq⟩
  rw [firstKeyEq] at outer3
  rw [finishEq, ensures_pure, outer3.rebuild_node (same.context context.2.2.2.2) firstEq
    (nonempty first (by simp [firstEq])) nodeEq]
  have newRoot := (same.context context.2.2.2.2).root_node
    (nonzero3 (nonzero2 (nonzero1 nonzero))) fits
    (by simpa only [count, same.eq_nil_iff] using Nat.lt_succ_of_le context.2.2.1)
    (by rw [count]; exact Nat.succ_le_succ context.2.2.2.1)
  apply next _ _ newRoot
  rw [entries_plug, same.before, same.after]
  rfl

section Short

variable (level : Level config height tree)
  (short : tree.keys.length + 1 = config.minKeyCount tree.isLeaf)
  (path : Above config (frame :: frames) key (parent :: above))
  (context : Context config height (frame :: frames))
  (keyEq : tree.entries ≠ [] → key = tree.firstKey)
  (ordered : Ordered (plug tree (frame :: frames)).entries)
  (next : Yields config (· = (plug tree (frame :: frames)).entries) post)

include level short path context keyEq ordered next

section

variable (siblingFits : Sub config height sibling)
  (spare : config.minKeyCount sibling.isLeaf < sibling.keys.length)

include siblingFits spare

theorem migrateEntry_left_ensures (leftEq : frame.left = [])
    (rightEq : frame.right = sibling :: others) :
    ensures (migrateEntry config (tree.toNode config) (sibling.toNode config) parent above)
      post := by
  rcases path with ⟨index, inner, blockEq, keys, ⟨hole, slots⟩, _, nextKeyEq, outer⟩
  have nextKey := nextKeyEq sibling others rightEq
  have siblingSub := sub_iff.mp siblingFits
  rw [leftEq, length_nil] at index
  rw [leftEq, rightEq] at slots
  simp only [migrateEntry, ensures_bind, index, beq_self_eq_true, if_true, toNode_block]
  apply blockTreeBlockDirty_ensures updatable
  intro siblingBlock siblingNonzero
  have siblingHere : siblingBlock ≠ 0 := siblingNonzero siblingSub.1.block_ne_zero
  have migratedNodes := migrateNodes_left level (siblingSub.1.withBlock siblingHere) short
    (by simpa using spare) (by simpa using siblingSub.2.2)
  rcases migratedNodes with ⟨newTree, newSibling, migratedEq, migrated⟩
  rw [firstKey_withBlock] at migratedEq
  have newNonempty := migrated.left_fits.entries_ne_nil
  have movedEntries := migrated.entries
  have wholeEntries : (plug tree (frame :: frames)).entries =
      before frames ++ entriesAll (newTree :: newSibling :: others) ++ after frames := by
    rw [entries_plug, before, after, leftEq, rightEq]
    simp only [entriesAll, ← append_assoc, movedEntries]
    simp
  rw [wholeEntries] at ordered next
  rcases exists_entry_firstKey newNonempty with ⟨firstEntry, inNew, firstEntryKey⟩
  have outerEq : frame.firstKey key = key := by simp only [Frame.firstKey, leftEq]
  rw [outerEq] at outer
  have emptied := level.emptied_iff short
  have newKeys : (newTree.toNode config).keys.getD 0 0 = newTree.keys.getD 0 0 := by
    rw [toNode_keys]
    exact getD_fill_of_length_le (sub_iff.mp migrated.left_fits).2.2 0
  simp only [toNode_withBlock, nextKey, migratedEq, ensures_require, true_and]
  simp only [Bool.true_and, toNode_isLeaf, updateKeyIf_cons fun _ => index, ensures_bind,
    ensures_pure]
  apply updateKeyIf_ensures updatable newTree.firstKey _ outer _ context.2.2.2.2
  · intro entry mem
    rw [← firstEntryKey]
    exact ordered.append.1.append.2.2 entry mem firstEntry (by simp [entriesAll, inNew])
  · intro entry mem
    rw [← firstEntryKey]
    exact ordered.append.2.2 firstEntry (by simp [entriesAll, inNew]) entry mem
  · intro upperFrames upperAbove upperSame upperOuter
    simp only [modifyHead_cons, blockTreePathSetSiblingBlock, Bool.false_eq_true, if_false, nextKey,
      index, Nat.zero_add]
    have upperContext : Context config height (frame :: upperFrames) :=
      Relabel.context (.cons ⟨rfl, rfl, id⟩ upperSame) context
    refine putNeighbours_ensures updatable 0 (blockTreeSiblingIndex 0)
      (newTree.toNode config).tree (newSibling.toNode config).tree
      (show newTree :: newSibling :: others = [] ++ newTree :: newSibling :: others from rfl)
      ?_ ?_ ?_ ?_ ?_ upperOuter upperContext ?_ ?_ ?_ ordered next fun _ _ => by rfl
    · rw [upperSame.before, upperSame.after]
    · rfl
    · exact inner
    · rw [keys]
      simp [Frame.keys, leftEq, rightEq]
    · have written := set_fill_pair (config.slotCount false) Tree.nil []
        (others.map (embed config)) hole (sibling.embed config) (newTree.embed config)
        (newSibling.embed config)
      rw [slots, toNode_tree, toNode_tree]
      exact written
    · exact blockEq ▸ context.1
    · rw [leftEq, rightEq]
      simp
    · exact forall_mem_cons.mpr ⟨migrated.left_fits, forall_mem_cons.mpr ⟨migrated.right_fits,
        fun child inOthers => context.2.1 child (by simp [rightEq, inOthers])⟩⟩
  · intro isNeeded
    rw [Bool.and_eq_true] at isNeeded
    rw [newKeys, firstKey_eq_getD]
    have sameKind := level.isLeaf_eq (sub_iff.mp migrated.left_fits).1
    rw [← sameKind]
    exact isNeeded.2
  · intro notNeeded
    have someEntries : tree.entries ≠ [] := fun empty => by
      rw [emptied.mpr empty] at notNeeded
      exact Bool.noConfusion notNeeded
    rw [keyEq someEntries]
    exact (firstKey_eq_of_append someEntries newNonempty movedEntries).symm

theorem migrateEntry_right_ensures (leftEq : frame.left = more ++ [sibling]) :
    ensures (migrateEntry config (tree.toNode config) (sibling.toNode config) parent above)
      post := by
  rcases path with ⟨index, inner, blockEq, keys, ⟨hole, slots⟩, prevKeyEq, _, outer⟩
  have prevKey := prevKeyEq (by simp [leftEq])
  rw [leftEq, length_append, length_singleton] at index
  rw [leftEq] at slots
  have notLeft : (parent.index == 0) = false := beq_eq_false_iff_ne.mpr (by omega)
  have siblingSub := sub_iff.mp siblingFits
  have closedOrdered : Ordered (frame.close tree).entries := Ordered.hole frames ordered
  have siblingOrdered : Ordered sibling.entries :=
    Ordered.child closedOrdered (mem_append_left _ (by simp [leftEq]))
  simp only [migrateEntry, ensures_bind, notLeft, Bool.false_eq_true, if_false, toNode_block]
  apply blockTreeBlockDirty_ensures updatable
  intro siblingBlock siblingNonzero
  have siblingHere : siblingBlock ≠ 0 := siblingNonzero siblingSub.1.block_ne_zero
  have migratedNodes := migrateNodes_right level (siblingSub.1.withBlock siblingHere) short
    (by simpa using spare) (by simpa using siblingSub.2.2) (by simpa using siblingOrdered) keyEq
  rcases migratedNodes with ⟨newTree, newSibling, migratedEq, migrated⟩
  have movedEntries := migrated.entries
  rw [entries_withBlock] at movedEntries
  have siblingFirst := firstKey_eq_of_append siblingFits.entries_ne_nil
    migrated.left_fits.entries_ne_nil movedEntries
  simp only [toNode_withBlock, prevKey, migratedEq, ensures_require, true_and,
    Bool.false_and, updateKeyIf, Bool.false_eq_true, if_false, ensures_pure]
  have wholeEntries : (plug tree (frame :: frames)).entries =
      before frames ++ entriesAll (more ++ newSibling :: newTree :: frame.right) ++
      after frames := by
    rw [entries_plug, before, after, leftEq]
    simp only [entriesAll, entriesAll_append, append_assoc, append_nil]
    rw [← append_assoc sibling.entries, ← movedEntries, append_assoc]
  rw [wholeEntries] at ordered next
  have keysEq :
      (⟨frame.block, more ++ [newSibling], frame.right⟩ : Frame).keys parent.prevKey =
        frame.keys key := by
    cases more <;> simp [prevKey, Frame.keys, leftEq, siblingFirst]
  have firstEq :
      (⟨frame.block, more ++ [newSibling], frame.right⟩ : Frame).firstKey parent.prevKey =
        frame.firstKey key := by
    cases more <;> simp [Frame.firstKey, leftEq, siblingFirst]
  refine putNeighbours_ensures updatable parent.index (blockTreeSiblingIndex parent.index)
    (newTree.toNode config).tree (newSibling.toNode config).tree rfl rfl index inner
    (keysEq ▸ keys) ?_ (firstEq ▸ outer) context (blockEq ▸ context.1) ?_ ?_ ordered next
    fun _ _ => by rfl
  · have written := set_fill_pair (config.slotCount false) Tree.nil (more.map (embed config))
      (frame.right.map (embed config)) (sibling.embed config) hole (newSibling.embed config)
      (newTree.embed config)
    have siblingIndex : blockTreeSiblingIndex (more.length + 1) = more.length := by
      simp [blockTreeSiblingIndex]
    rw [slots, index, siblingIndex, set_comm _ _ (by omega)]
    simpa using written
  · simp only [leftEq, length_append, length_cons, length_nil]
    omega
  · refine forall_mem_append.mpr
      ⟨fun child inMore => context.2.1 child (by simp [leftEq, inMore]), ?_⟩
    exact forall_mem_cons.mpr ⟨migrated.left_fits, forall_mem_cons.mpr ⟨migrated.right_fits,
      fun child inRight => context.2.1 child (by simp [inRight])⟩⟩

end

/-- A node with one key too few is repaired with the help of a sibling. -/
theorem blockTreeNodeMerge_ensures
    (removes : RemovesChild config removeInternal height frames.length)
    (keyNonzero : key ≠ 0) :
    ensures (blockTreeNodeMerge config removeInternal (tree.toNode config) (parent :: above))
      post := by
  have shorter := minKeyCount_lt config tree.isLeaf
  have closedOrdered : Ordered (frame.close tree).entries := Ordered.hole frames ordered
  have treeOrdered : Ordered tree.entries := Ordered.child closedOrdered (by simp)
  have below := (belowMinFull_iff level treeOrdered (by omega)).mpr (by omega)
  obtain ⟨sibling, inside, found, place⟩ := context.exists_sibling path
  have siblingFits := context.2.1 sibling inside
  have siblingSub := sub_iff.mp siblingFits
  have siblingOrdered : Ordered sibling.entries := Ordered.child closedOrdered
    ((sublist_cons_self tree frame.right).append_left frame.left |>.mem inside)
  have siblingAbove := aboveMinFull_iff siblingSub.1 siblingOrdered siblingSub.2.2
  have siblingBelow := belowMinFull_iff siblingSub.1 siblingOrdered siblingSub.2.2
  have sameKind := level.isLeaf_eq siblingSub.1
  have notBelow := Bool.eq_false_iff.mpr (mt siblingBelow.mp (Nat.not_lt.mpr siblingSub.2.1))
  rw [blockTreeNodeMerge, found]
  simp only [ensures_bind, ensures_require, below, notBelow, true_and]
  by_cases spare : config.minKeyCount sibling.isLeaf < sibling.keys.length
  · rw [if_pos (siblingAbove.mpr spare)]
    rcases place with ⟨leftEq, others, rightEq⟩ | ⟨more, leftEq⟩
    · exact migrateEntry_left_ensures updatable level short path context keyEq ordered next
        siblingFits spare leftEq rightEq
    · exact migrateEntry_right_ensures updatable level short path context keyEq ordered next
        siblingFits spare leftEq
  have atMinimum : sibling.keys.length = config.minKeyCount sibling.isLeaf :=
    Nat.le_antisymm (Nat.not_lt.mp spare) siblingSub.2.1
  rw [if_neg (mt siblingAbove.mp spare)]
  rcases path with ⟨index, inner, blockEq, keys, ⟨hole, slots⟩, prevKey, nextKey, outer⟩
  have enough := context.2.2.1
  have room := context.2.2.2.1
  rcases place with ⟨leftEq, others, rightEq⟩ | ⟨more, leftEq⟩
  · have indexZero : parent.index = 0 := by
      rw [index, leftEq]
      rfl
    have closed : plug tree (frame :: frames) =
        plug (node frame.block ([] ++ tree :: sibling :: others)) frames := by
      rw [plug, Frame.close, leftEq, rightEq]
    have outerEq : frame.firstKey key = key := by simp only [Frame.firstKey, leftEq]
    rw [leftEq, rightEq] at enough room
    rw [closed] at ordered next
    rw [outerEq] at outer
    rw [if_pos indexZero]
    refine mergeSiblings_ensures updatable removes level siblingSub.1 ?_ ?_ ?_
      (show parent.index = ([] : List BTree).length from indexZero) inner
      blockEq ?_ ⟨hole, sibling.embed config, ?_⟩ (nextKey sibling others rightEq) ?_
      (fun _ => rfl) outer keyEq (fun _ => rfl) context.1 ?_ ?_ ?_ context.2.2.2.2 ordered next
    · rw [atMinimum, ← sameKind]
      omega
    · omega
    · rw [atMinimum, ← sameKind]
    · rw [keys]
      simp only [Frame.keys, leftEq, rightEq]
      rfl
    · rw [slots, leftEq, rightEq]
      rfl
    · exact siblingOrdered.firstKey_ne_zero siblingFits.entries_ne_nil
    · intro child mem
      rw [nil_append] at mem
      exact context.2.1 child (by simp [rightEq, mem])
    · simpa [Nat.add_comm] using enough
    · simpa [Nat.add_comm] using room
  · have leftLength : frame.left.length = more.length + 1 := by simp [leftEq]
    have indexPos : ¬ parent.index = 0 := by omega
    have slotsHere : parent.node.slots = fill .nil (config.slotCount false)
        (more.map (embed config) ++ sibling.embed config :: hole :: frame.right.map
          (embed config)) := by
      rw [slots, leftEq]
      simp
    have closed : plug tree (frame :: frames) =
        plug (node frame.block (more ++ sibling :: tree :: frame.right)) frames := by
      rw [plug, Frame.close, leftEq, append_assoc]
      rfl
    have leftNonempty : frame.left ≠ [] := by simp [leftEq]
    rw [leftLength] at enough room
    rw [closed] at ordered next
    rw [if_neg indexPos]
    simp only [blockTreePathSetSiblingBlock, if_true, prevKey leftNonempty]
    have frameEq : frame = ⟨frame.block, more ++ [sibling], frame.right⟩ := by rw [← leftEq]
    refine mergeSiblings_ensures updatable removes siblingSub.1 level ?_ ?_ ?_
      (show parent.index - 1 = more.length by omega) inner
      blockEq ?_ ⟨sibling.embed config, hole, slotsHere⟩ rfl keyNonzero keyEq outer
      ?_ ?_ context.1 ?_ enough room context.2.2.2.2 ordered next
    · rw [atMinimum, ← sameKind]
      omega
    · rw [atMinimum]
    · rw [← sameKind]
      omega
    · rw [← frameEq]
      exact keys
    · intro _
      rw [← frameEq]
    · exact fun empty => (siblingFits.entries_ne_nil empty).elim
    · intro child mem
      apply context.2.1 child
      rcases mem_append.mp mem with inMore | inRight
      · simp [leftEq, inMore]
      · simp [inRight]

end Short

omit updatable in
theorem Describes.shut {entry : PathEntry} (describes : Describes config frame key entry)
    (someLeft : frame.left ≠ [])
    (room : frame.left.length + frame.right.length ≤ config.keyCount false) :
    blockTreeNodeShiftDown ⟨entry.node.isLeaf, block, entry.node.keys, entry.node.slots⟩
      (entry.index - 1)
        entry.index .rightChild =
      (frame.shut block).toNode config := by
  rcases describes with ⟨index, inner, _, keys, ⟨hole, slots⟩⟩
  rcases exists_cons_of_ne_nil someLeft with ⟨first, more, leftEq⟩
  have lengths : frame.left.length = more.length + 1 := by simp [leftEq]
  have keysEq :
      frame.keys key = more.map BTree.firstKey ++ key :: frame.right.map BTree.firstKey := by
    simp [Frame.keys, leftEq]
  have separatorsEq : separators (frame.left ++ frame.right) =
      more.map BTree.firstKey ++ frame.right.map BTree.firstKey := by
    simp [separators, leftEq]
  have removed := shiftDown_delete false block key hole .rightChild (by decide)
    (config.keyCount_lt false)
    (show (frame.left.map (embed config)).length = (more.map BTree.firstKey).length + 1 by
      simp [leftEq])
    (show (more.map BTree.firstKey ++ key :: frame.right.map BTree.firstKey).length ≤
        config.keyCount false by
      rw [← keysEq, Frame.length_keys]
      exact room)
    (show (frame.left.map (embed config) ++ hole :: frame.right.map (embed config)).length ≤
        config.slotCount false by
      simp only [length_append, length_map, length_cons, TreeConfig.slotCount,
        Bool.false_eq_true, if_false]
      omega)
  have indexEq : entry.index = (more.map BTree.firstKey).length + 1 := by
    rw [index, lengths, length_map]
  rw [inner, keys, slots, keysEq, indexEq, Nat.add_sub_cancel, removed, Frame.shut, toNode,
    separatorsEq, map_append]

omit updatable in
theorem Frame.keys_ne_zero (context : Context config height (frame :: frames))
    (keyNonzero : key ≠ 0) (ordered : Ordered (entriesAll (frame.left ++ frame.right))) :
    ∀ other ∈ frame.keys key, other ≠ 0 := by
  have children : ∀ child ∈ frame.left ++ frame.right, child.firstKey ≠ 0 := fun child mem =>
    (ordered.child mem).firstKey_ne_zero (context.2.1 child mem).entries_ne_nil
  intro other mem
  rcases mem_append.mp mem with inLeft | inRight
  · cases leftEq : frame.left with
    | nil => simp [leftEq] at inLeft
    | cons first more =>
      simp only [leftEq] at inLeft
      rcases mem_append.mp inLeft with inMore | isKey
      · rcases mem_map.mp inMore with ⟨child, childIn, rfl⟩
        exact children child (by simp [leftEq, childIn])
      · rw [mem_singleton.mp isKey]
        exact keyNonzero
  · rcases mem_map.mp inRight with ⟨child, childIn, rfl⟩
    exact children child (mem_append_right _ childIn)

theorem removeInternal_root (height : Nat) :
    RemovesChild config (blockTreeRemoveInternal config 1) height 0 := by
  intro frame frames key entry above post size context someLeft keyNonzero describes outer ordered
    next
  rcases length_eq_zero_iff.mp size with rfl
  obtain rfl := outer.nil_inv
  have room := context.2.2.2.1
  have leftPositive := length_pos_of_ne_nil someLeft
  have keysFit := (frame.length_keys key).trans_le room
  have secondKey := getD_ne_zero_iff (Frame.keys_ne_zero context keyNonzero ordered) 1
  rw [Frame.length_keys] at secondKey
  have storedKey : entry.node.keys.getD 1 0 = (frame.keys key).getD 1 0 := by
    rw [describes.keys, getD_fill_of_length_le keysFit]
  rw [blockTreeRemoveInternal]
  simp only [ensures_bind, ensures_require, isEmpty_nil, Bool.true_and,
    Bool.not_true, Bool.false_and, Bool.false_eq_true, if_false, beq_iff_eq, storedKey]
  refine ⟨by rw [describes.index]; exact leftPositive, ?_⟩
  by_cases single : (frame.keys key).getD 1 0 = 0
  · -- the only child left becomes the root
    have leftLength : frame.left.length = 1 := by omega
    have rightEq : frame.right = [] := eq_nil_of_length_eq_zero (by omega)
    rcases length_eq_one_iff.mp leftLength with ⟨child, leftEq⟩
    have childFits := context.2.1 child (by simp [leftEq])
    rcases describes.slots with ⟨hole, slots⟩
    have newRoot : entry.node.slots.getD 0 .nil = child.embed config := by
      have inside : 0 < config.slotCount false := Nat.succ_pos _
      rw [slots, leftEq, getD_fill inside]
      rfl
    rw [if_pos single]
    simp only [ensures_bind, ensures_require, newRoot, embed_toBlock]
    refine ⟨by rw [describes.index, leftLength], childFits.root.sound.block_ne_zero, updatable, ?_⟩
    apply next height child childFits.root
    simp [plug, Frame.shut, leftEq, rightEq, BTree.entries, entriesAll]
  · have two := secondKey.mp single
    rw [if_neg single]
    simp only [ensures_bind, blockTreePathPutDirty, ensures_pure]
    apply blockTreeBlockDirty_ensures updatable
    intro newBlock nonzero
    rw [describes.shut someLeft room, toNode_tree, rebuild]
    apply next (height + 1) (frame.shut newBlock)
    · refine ⟨nonzero (describes.block ▸ context.1), ?_, ?_, context.2.1⟩
      · rw [length_append]
        exact two
      · rw [length_append]
        exact Nat.le_succ_of_le room
    · rfl

/-- `block_tree_remove_internal` removes a child and its separator, and repairs
the node if it has become too small. -/
theorem blockTreeRemoveInternal_ensures (height count : Nat) :
    RemovesChild config (blockTreeRemoveInternal config (count + 1)) height count := by
  induction count generalizing height with
  | zero => exact removeInternal_root updatable height
  | succ count ih =>
    intro frame frames key entry above post size context someLeft keyNonzero describes outer
      ordered next
    rcases exists_of_length_succ frames size with ⟨parentFrame, upperFrames, rfl⟩
    obtain ⟨parent, above, rfl⟩ := outer.cons_inv
    have room := context.2.2.2.1
    have leftPositive := length_pos_of_ne_nil someLeft
    rcases exists_cons_of_ne_nil someLeft with ⟨first, more, leftEq⟩
    have firstNonempty := (context.2.1 first (by simp [leftEq])).entries_ne_nil
    rw [blockTreeRemoveInternal]
    simp only [ensures_bind, ensures_require, isEmpty_cons, Bool.false_and,
      Bool.false_eq_true, if_false, Bool.not_false, Bool.true_and]
    refine ⟨by rw [describes.index]; exact leftPositive, ?_⟩
    apply blockTreeBlockDirty_ensures updatable
    intro newBlock nonzero
    have newNonzero : newBlock ≠ 0 := nonzero (describes.block ▸ context.1)
    have shutFirst : (frame.shut newBlock).firstKey = frame.firstKey key := by
      rw [Frame.shut, leftEq, cons_append, firstKey_node firstNonempty]
      simp only [Frame.firstKey, leftEq]
    have shutNonempty : (frame.shut newBlock).entries ≠ [] := by
      simp [Frame.shut, leftEq, BTree.entries, entriesAll, firstNonempty]
    have level : Level config (height + 1) (frame.shut newBlock) :=
      ⟨newNonzero, by simp [leftEq], context.2.1⟩
    have keysLength :
        (frame.shut newBlock).keys.length = frame.left.length + frame.right.length - 1 := by
      rw [Frame.shut, BTree.keys, length_separators, length_append]
    have shutOrdered : Ordered (frame.shut frame.block).entries :=
      Ordered.hole _ ordered
    have below :=
      belowMinFull_iff level shutOrdered
        (by rw [keysLength]; exact Nat.le_trans (Nat.sub_le _ _) room)
    rw [keysLength] at below
    rw [← shutFirst] at outer
    rw [describes.shut someLeft room]
    apply blockTreePathPutDirty_ensures updatable outer
    intro newFrames newAbove same newOuter
    have sameEntries : (plug (frame.shut newBlock) newFrames).entries =
        (plug (frame.shut frame.block) (parentFrame :: upperFrames)).entries := by
      rw [entries_plug, entries_plug, same.before, same.after]
      rfl
    have enough := context.2.2.1
    rw [if_neg (cons_ne_nil _ _)] at enough
    have newContext := same.context context.2.2.2.2
    by_cases isBelow : frame.left.length + frame.right.length - 1 < config.minKeyCount false
    · rw [if_pos (below.mpr isBelow)]
      rcases same.cons_inv with ⟨newParent, newUpper, rfl, upperSame⟩
      obtain ⟨newEntry, newAbove, rfl⟩ := newOuter.cons_inv
      have removes := ih (height + 1)
      rw [← Nat.succ.inj size, ← upperSame.length] at removes ⊢
      refine blockTreeNodeMerge_ensures updatable level ?_ newOuter newContext (fun _ => rfl)
        (sameEntries ▸ ordered) ?_ removes (shutOrdered.firstKey_ne_zero shutNonempty)
      · rw [keysLength]
        simp only [Frame.shut, BTree.isLeaf]
        omega
      · intro newHeight newTree newRoot entriesEq
        exact next newHeight newTree newRoot (entriesEq.trans sameEntries)
    · have fits : Sub config (height + 1) (frame.shut newBlock) := by
        refine ⟨newNonzero, ?_, ?_, context.2.1⟩
        · rw [length_append]
          omega
        · rw [length_append]
          omega
      rw [if_neg (mt below.mp isBelow), ensures_pure, toNode_tree,
        newOuter.rebuild newContext shutNonempty]
      exact next _ _ (newContext.root_plug fits) sameEntries

end Rebalance

end Trusty.Storage
