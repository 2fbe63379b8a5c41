import Mathlib.Data.List.InsertIdx
import Trusty.Storage.BlockTreeSplit

/-!
Inserting an entry.

`block_tree_insert` walks to the place of the key, inserts the entry in the
leaf there, and splits the leaf if it has become too large.  `SplitsClear` on
the path is what the assertion of the split needs: it does not hold for every
tree with equal keys, so it is a condition on the tree before the insertion.
-/

namespace Trusty.Storage

open Lib AllocProgram BTree

/-! ### The condition -/

/-- The keys of a node in use. -/
def Node.liveKeys (node : Node) : List Nat :=
  node.keys.takeWhile (· != 0)

/-- The splits that go up from a node with one key too many, whose keys are
`keys`, each find a separator in the parent that is above the key they send
up. -/
def splitsClear (config : TreeConfig) : List PathEntry → Bool → List Nat → Bool
  | [], _, _ => true
  | parent :: above, isLeaf, keys =>
    let middle := keys.getD ((config.keyCount isLeaf + 1) / 2) 0
    let nextKey := parent.node.keys.getD parent.index 0
    decide (nextKey = 0 ∨ middle < nextKey) &&
      (decide (parent.node.liveKeys.length < config.keyCount false) ||
        splitsClear config above false (parent.node.liveKeys.insertIdx parent.index middle))

/-- An insertion of `key` splits no node at a key equal to the separator after
it. -/
def insertionClear (config : TreeConfig) (tree : Tree) (key : Nat) : Bool :=
  match blockTreeWalk ⟨tree, none⟩ key false with
  | some ⟨entry :: parents, _⟩ =>
    decide (entry.node.liveKeys.length < config.keyCount true) ||
      splitsClear config parents true (entry.node.liveKeys.insertIdx entry.index key)
  | _ => true

open List

section Clear

variable {config : TreeConfig}

variable {keys : List Nat} {height : Nat} {frame : Frame} {frames : List Frame} {tree : BTree}
  {entries : List PathEntry} {isLeaf : Bool}

theorem takeWhile_fill {size : Nat} (fits : keys.length ≤ size) (nonzero : ∀ key ∈ keys, key ≠ 0) :
    (fill 0 size keys).takeWhile (· != 0) = keys := by
  rw [fill_eq_pad fits, pad, takeWhile_append_of_pos]
  · cases size - keys.length with
    | zero => simp
    | succ unused => simp [replicate_succ]
  · intro key mem
    simpa using nonzero key mem

theorem liveKeys_leaf (block : Nat) {entries : List (Nat × Nat)}
    (fits : entries.length ≤ config.keyCount true) (ordered : Ordered entries) :
    ((leaf block entries).toNode config).liveKeys = entries.map Prod.fst :=
  takeWhile_fill (by simpa using fits) (forall_mem_map.mpr ordered.key_ne_zero)

section

variable (context : Context config height (frame :: frames)) (nonempty : tree.entries ≠ [])

include context nonempty

theorem Frame.child_ne_nil {child : BTree} (inside : child ∈ frame.left ++ tree :: frame.right) :
    child.entries ≠ [] := by
  obtain ⟨left, right⟩ := forall_mem_append.mp fun other mem =>
    (context.2.1 other mem).entries_ne_nil
  exact forall_mem_append.mpr ⟨left, forall_mem_cons.mpr ⟨nonempty, right⟩⟩ child inside

theorem Frame.key_ne_zero (ordered : Ordered (frame.close tree).entries) :
    ∀ key ∈ frame.keys tree.firstKey, key ≠ 0 := by
  intro key mem
  rw [Frame.keys_eq_separators] at mem
  rcases mem_map.mp mem with ⟨child, inTail, rfl⟩
  have inAll : child ∈ frame.left ++ tree :: frame.right := mem_of_mem_tail inTail
  exact (ordered.child inAll).firstKey_ne_zero (Frame.child_ne_nil context nonempty inAll)

theorem Above.liveKeys {entry : PathEntry}
    (above : Above config (frame :: frames) tree.firstKey (entry :: entries))
    (ordered : Ordered (frame.close tree).entries) :
    entry.node.liveKeys = frame.keys tree.firstKey := by
  rw [Node.liveKeys, above.2.2.2.1]
  exact takeWhile_fill (context.length_keys_le _) (Frame.key_ne_zero context nonempty ordered)

end

section

variable (context : Context config height frames) (nonempty : tree.entries ≠ [])
  (ordered : Ordered (plug tree frames).entries)

include context nonempty ordered

theorem splitsClear_iff (above : Above config frames tree.firstKey entries) :
    splitsClear config entries isLeaf keys = true ↔
      SplitsClear config frames tree.firstKey isLeaf keys := by
  induction frames generalizing height tree entries isLeaf keys with
  | nil =>
    obtain rfl := above.nil_inv
    simp [splitsClear, SplitsClear]
  | cons frame frames ih =>
    obtain ⟨entry, entries, rfl⟩ := above.cons_inv
    have orderedHere : Ordered (frame.close tree).entries := Ordered.hole frames ordered
    have live := above.liveKeys context nonempty orderedHere
    have keysFit := context.length_keys_le tree.firstKey
    obtain ⟨index, _, _, keysEq, _, _, _, outer⟩ := above
    have first := context.firstKey_close nonempty
    rw [← first] at outer
    rw [splitsClear, keysEq, getD_fill_of_length_le keysFit, index, Frame.getD_keys_right, live,
      Bool.and_eq_true, Bool.or_eq_true, decide_eq_true_eq, decide_eq_true_eq, Frame.length_keys,
      ih context.2.2.2.2 (Frame.close_ne_nil nonempty) ordered outer, SplitsClear, ← first]
    refine and_congr ?_ ?_
    · cases rightEq : frame.right with
      | nil => simp
      | cons child others =>
        have inside : child ∈ frame.left ++ tree :: frame.right := by simp [rightEq]
        have nonzero := (orderedHere.child inside).firstKey_ne_zero
          (Frame.child_ne_nil context nonempty inside)
        simp [nonzero]
    · rw [← Nat.not_lt]
      exact or_iff_not_imp_left

theorem SplitsClear.of_lt
    (strict : (plug tree frames).entries.Pairwise fun first second => first.1 < second.1)
    (low : ∀ key ∈ keys, ∀ entry ∈ after frames, key < entry.1) :
    SplitsClear config frames tree.firstKey isLeaf keys := by
  induction frames generalizing height tree isLeaf keys with
  | nil => trivial
  | cons frame frames ih =>
    have allOrdered := ordered
    rw [entries_plug] at allOrdered
    have middleLow : ∀ other ∈ after (frame :: frames),
        keys.getD ((config.keyCount isLeaf + 1) / 2) 0 < other.1 := by
      intro other behind
      by_cases inside : (config.keyCount isLeaf + 1) / 2 < keys.length
      · rw [getD_eq_getElem _ _ inside]
        exact low _ (getElem_mem inside) other behind
      · rw [getD_eq_default _ _ (Nat.le_of_not_lt inside)]
        exact Nat.pos_of_ne_zero (allOrdered.key_ne_zero other (mem_append_right _ behind))
    refine ⟨?_, fun _ => ?_⟩
    · intro child isHead
      have inRight : child ∈ frame.right := mem_of_mem_head? isHead
      obtain ⟨other, inChild, otherKey⟩ :=
        exists_entry_firstKey (context.2.1 child (mem_append_right _ inRight)).entries_ne_nil
      rw [← otherKey]
      exact middleLow other (mem_append_left _ (mem_entriesAll.mpr ⟨child, inRight, inChild⟩))
    · rw [← context.firstKey_close nonempty]
      apply ih context.2.2.2.2 (Frame.close_ne_nil nonempty) ordered strict
      intro key inKeys other behind
      rcases eq_or_mem_of_mem_insertIdx inKeys with rfl | inFrame
      · exact middleLow other (mem_append_right _ behind)
      rw [Frame.keys_eq_separators] at inFrame
      obtain ⟨child, inTail, rfl⟩ := mem_map.mp inFrame
      have inAll : child ∈ frame.left ++ tree :: frame.right := mem_of_mem_tail inTail
      obtain ⟨own, inChild, ownKey⟩ :=
        exists_entry_firstKey (Frame.child_ne_nil context nonempty inAll)
      rw [← ownKey]
      rw [plug, entries_plug] at strict
      refine (pairwise_append.mp strict).2.2 own (mem_append_right _ ?_) other behind
      exact mem_entriesAll.mpr ⟨child, inAll, inChild⟩

end

theorem insertionClear_of_strict {key : Nat} (fits : Root config height tree)
    (ordered : Ordered tree.entries)
    (strict : tree.entries.Pairwise fun first second => first.1 < second.1) :
    insertionClear config (tree.embed config) key = true := by
  rcases Nat.lt_or_ge height blockTreeMaxDepth with shallow | tooDeep
  swap
  · rw [insertionClear, blockTreeWalk_too_deep key false fits.sound tooDeep]
  obtain ⟨block, passed, others, frames, prevKey, depth, rfl, lands, edge, nonempty, _, walked⟩ :=
    blockTreeWalk_lands key false fits.sound shallow ordered
  rw [← depth, ← Nat.zero_add frames.length] at fits
  obtain ⟨context, inner, leafFits⟩ := fits.context
  have live := liveKeys_leaf block leafFits.2 (ordered.hole frames)
  simp only [insertionClear, walked, pathAt, live, Bool.or_eq_true, decide_eq_true_eq]
  right
  by_cases noFrames : frames = []
  · subst noFrames
    rfl
  have leafNonempty : (leaf block (passed ++ others)).entries ≠ [] := nonempty noFrames
  apply (splitsClear_iff context leafNonempty ordered (above_pathEntries fits.sound
    leafNonempty)).mpr
  apply SplitsClear.of_lt context leafNonempty ordered strict
  intro other inKeys entry behind
  rcases eq_or_mem_of_mem_insertIdx inKeys with rfl | inLeaf
  · exact lands.after entry behind
  · obtain ⟨own, inOwn, rfl⟩ := mem_map.mp inLeaf
    rw [entries_plug] at strict
    exact (pairwise_append.mp strict).2.2 own (mem_append_right _ inOwn) entry behind

end Clear

/-! ### The leaf -/

section Leaf

variable {config : TreeConfig}

theorem blockTreeNodeInsert_leaf (block key data : Nat) {passed rest : List (Nat × Nat)}
    (fits : (passed ++ rest).length ≤ config.keyCount true) :
    blockTreeNodeInsert ((leaf block (passed ++ rest)).toNode config) passed.length
        .leafOrLeftChild key (.data data) =
      ((leaf block (passed ++ (key, data) :: rest)).toNode config,
        (leaf block (passed ++ (key, data) :: rest)).extraKey config,
        (leaf block (passed ++ (key, data) :: rest)).extraSlot config) := by
  have keysFit : (passed.map Prod.fst ++ rest.map Prod.fst).length ≤ config.keyCount true := by
    simpa using fits
  have slotsFit : (passed.map (fun entry => Tree.data entry.2) ++
      rest.map fun entry => Tree.data entry.2).length ≤ config.slotCount true := by
    simpa [TreeConfig.slotCount] using fits
  have keysIn := shiftSlots_fill_insert 0 key keysFit
  have slotsIn := shiftSlots_fill_insert .nil (Tree.data data) slotsFit
  rw [length_map] at keysIn slotsIn
  simp [blockTreeNodeInsert, blockTreeNodeShift, toNode, keysIn, slotsIn, extraKey,
    extraSlot, BTree.keys, BTree.slots, BTree.isLeaf]

theorem Above.of_leftmost {frames : List Frame} {key newKey : Nat} {entries : List PathEntry}
    (leftmost : Leftmost frames) (above : Above config frames key entries) :
    Above config frames newKey entries := by
  induction frames generalizing key newKey entries with
  | nil =>
    obtain rfl := above.nil_inv
    trivial
  | cons frame frames ih =>
    obtain ⟨entry, entries, rfl⟩ := above.cons_inv
    have noLeft : frame.left = [] := leftmost frame mem_cons_self
    have outerLeftmost : Leftmost frames := fun other mem =>
      leftmost other (mem_cons_of_mem _ mem)
    rcases above with ⟨index, inner, block, keys, slots, prevKey, nextKey, outer⟩
    refine ⟨index, inner, block, ?_, slots, ?_, nextKey, ih outerLeftmost outer⟩
    · rw [keys]
      simp only [Frame.keys, noLeft]
    · intro someLeft
      exact (someLeft noLeft).elim

variable {block key : Nat} {passed others : List (Nat × Nat)} {frames : List Frame}

/-- A key that belongs before the first entry of a leaf is that of the
separator left of it, or there is none. -/
theorem Lands.edge (lands : Lands key frames [] others) (nonempty : frames ≠ [] → others ≠ [])
    (edge : prevKeyAt (leaf block others) frames ≤ key) :
    (Leftmost frames ∧ prevKeyAt (leaf block others) frames = 0) ∨
      ∃ first more, others = first :: more ∧ first.1 = key := by
  rcases Classical.em (frames = []) with rfl | someFrames
  · left
    exact ⟨fun frame mem => absurd mem not_mem_nil, rfl⟩
  rcases exists_cons_of_ne_nil (nonempty someFrames) with ⟨first, more, rfl⟩
  have leafNonempty : (leaf block (first :: more)).entries ≠ [] := cons_ne_nil _ _
  rcases prevKeyAt_cases leafNonempty with atEdge | found
  · exact .inl atEdge
  · right
    refine ⟨first, more, rfl, Nat.le_antisymm ?_ (lands.rest first mem_cons_self)⟩
    rw [found] at edge
    exact edge

theorem Lands.above_inserted (lands : Lands key frames passed others)
    (nonempty : frames ≠ [] → passed ++ others ≠ [])
    (edge : prevKeyAt (leaf block (passed ++ others)) frames ≤ key)
    (sound : Sound config (0 + frames.length) (plug (leaf block (passed ++ others)) frames))
    (newBlock data : Nat) :
    Above config frames (leaf newBlock (passed ++ (key, data) :: others)).firstKey
      (pathEntries config (leaf block (passed ++ others)) frames) := by
  rcases Classical.em (frames = []) with rfl | someFrames
  · trivial
  have old : Above config frames (leaf block (passed ++ others)).firstKey
      (pathEntries config (leaf block (passed ++ others)) frames) :=
    above_pathEntries sound (nonempty someFrames)
  cases passed with
  | cons first more => exact old
  | nil =>
    rcases lands.edge nonempty edge with ⟨leftmost, _⟩ | ⟨first, more, rfl, rfl⟩
    · exact old.of_leftmost leftmost
    · exact old

end Leaf

/-! ### The insertion -/

/-- `new` is `old` with one more entry, at a place where its key belongs. -/
def Inserts (entry : Nat × Nat) (old new : List (Nat × Nat)) : Prop :=
  ∃ front back, old = front ++ back ∧ new = front ++ entry :: back ∧
    (∀ other ∈ front, other.1 ≤ entry.1) ∧ ∀ other ∈ back, entry.1 ≤ other.1

section Inserts

variable {entry : Nat × Nat} {old new : List (Nat × Nat)}

theorem Inserts.perm (inserts : Inserts entry old new) : new.Perm (entry :: old) := by
  rcases inserts with ⟨front, back, rfl, rfl, _, _⟩
  exact perm_middle

theorem Inserts.ordered (inserts : Inserts entry old new) (ordered : Ordered old)
    (keyNonzero : entry.1 ≠ 0) (dataNonzero : entry.2 ≠ 0) : Ordered new := by
  rcases inserts with ⟨front, back, rfl, rfl, low, high⟩
  simp only [ordered_iff, pairwise_append, pairwise_cons, forall_mem_append,
    forall_mem_cons] at ordered ⊢
  obtain ⟨⟨frontSorted, backSorted, between⟩, ⟨frontKeys, backKeys⟩, frontData, backData⟩ := ordered
  exact ⟨⟨frontSorted, ⟨high, backSorted⟩, fun first inFront =>
    ⟨low first inFront, between first inFront⟩⟩,
    ⟨frontKeys, keyNonzero, backKeys⟩, frontData, dataNonzero, backData⟩

end Inserts

section InsertProgram

variable {config : TreeConfig} (updatable : config.Updatable) {height key data : Nat}
  {tree : BTree} {post : Tree → Prop}

theorem Context.root_plug_of_root {frames : List Frame} (context : Context config height frames)
    (root : Root config height tree) (inner : frames ≠ [] → Sub config height tree) :
    Root config (height + frames.length) (plug tree frames) := by
  cases frames with
  | nil => exact root
  | cons frame frames => exact context.root_plug (inner (cons_ne_nil _ _))

include updatable

theorem blockTreeInsert_ensures (fits : Root config height tree)
    (shallow : height < blockTreeMaxDepth) (ordered : Ordered tree.entries)
    (keyFits : key < config.keyLimit) (keyNonzero : key ≠ 0) (dataNonzero : data ≠ 0)
    (clear : insertionClear config (tree.embed config) key = true)
    (next : Yields config (Inserts (key, data) tree.entries) post) :
    ensures (blockTreeInsertBlockMac config (tree.embed config) key data) post := by
  rcases blockTreeWalk_lands key false fits.sound shallow ordered with
    ⟨block, passed, others, frames, prevKey, depth, rfl, lands, edge, nonempty, prevEq, walked⟩
  have landing : landingIndex key false passed others = passed.length := by
    simp [landingIndex]
  rw [landing] at prevEq walked
  have notEmpty : (plug (leaf block (passed ++ others)) frames).block ≠ 0 :=
    fits.sound.block_ne_zero
  rw [← depth, ← Nat.zero_add frames.length] at fits
  rcases fits.context with ⟨context, inner, leafFits⟩
  have room : (passed ++ others).length ≤ config.keyCount true := leafFits.2
  have leafOrdered : Ordered (passed ++ others) := ordered.hole frames
  have placed : ∀ newBlock newFrames, Relabel frames newFrames →
      Inserts (key, data) (plug (leaf block (passed ++ others)) frames).entries
        (plug (leaf newBlock (passed ++ (key, data) :: others)) newFrames).entries := by
    intro newBlock newFrames same
    refine ⟨before frames ++ passed, others ++ after frames, ?_, ?_, ?_, ?_⟩
    · rw [entries_plug]
      simp [BTree.entries]
    · rw [entries_plug, same.before, same.after]
      simp [BTree.entries]
    · exact forall_mem_append.mpr
        ⟨lands.before, fun other inPassed => (lands.passed other inPassed).le⟩
    · exact forall_mem_append.mpr ⟨lands.rest, fun other inAfter => (lands.after other inAfter).le⟩
  have atEdge : passed.length ≠ 0 ∨ prevKey = 0 ∨
      ((leaf block (passed ++ others)).toNode config).keys.getD passed.length 0 = key := by
    cases passed with
    | cons first more => exact .inl (Nat.succ_ne_zero _)
    | nil =>
      right
      rcases lands.edge nonempty edge with ⟨_, noKey⟩ | ⟨first, more, rfl, rfl⟩
      · left
        rw [prevEq rfl]
        exact noKey
      · right
        exact getD_fill (Nat.lt_of_lt_of_le Nat.zero_lt_two (config.two_le_keyCount true))
  simp only [insertionClear, walked, pathAt] at clear
  simp only [blockTreeInsertBlockMac, embed_toBlock, notEmpty, if_false, walked, pathAt,
    ensures_bind, Nat.mod_eq_of_lt keyFits, ensures_require, ensures_pure]
  refine ⟨keyNonzero, dataNonzero, atEdge, ?_⟩
  apply blockTreeBlockDirty_ensures updatable
  intro newBlock newNonzero
  have aboveNew := lands.above_inserted nonempty edge fits.sound newBlock data
  have inserted := blockTreeNodeInsert_leaf newBlock key data room
  apply blockTreePathPutDirty_ensures updatable aboveNew
  intro newFrames newEntries same newAbove
  have newContext := same.context context
  have newPlaced := placed newBlock newFrames same
  have newBlockNonzero : newBlock ≠ 0 := newNonzero leafFits.1
  have newOrdered := newPlaced.ordered ordered keyNonzero dataNonzero
  have lengths : (passed ++ (key, data) :: others).length = (passed ++ others).length + 1 := by
    simp [Nat.add_assoc]
  have relabelled : (⟨((leaf block (passed ++ others)).toNode config).isLeaf, newBlock,
      ((leaf block (passed ++ others)).toNode config).keys,
      ((leaf block (passed ++ others)).toNode config).slots⟩ : Node) =
      (leaf newBlock (passed ++ others)).toNode config := rfl
  rw [relabelled, inserted]
  rcases Nat.lt_or_ge (passed ++ others).length (config.keyCount true) with small | full
  · have noExtra : (leaf newBlock (passed ++ (key, data) :: others)).extraKey config = 0 := by
      apply getD_eq_default
      rw [BTree.keys, length_map, lengths]
      exact small
    have newRoot : Root config 0 (leaf newBlock (passed ++ (key, data) :: others)) :=
      ⟨newBlockNonzero, lengths ▸ small⟩
    rw [if_pos noExtra, toNode_tree, newAbove.rebuild newContext (by simp [BTree.entries])]
    apply next _ _ (newContext.root_plug_of_root newRoot _) newPlaced
    intro someFrames
    have old := inner (same.ne_nil someFrames)
    exact ⟨newBlockNonzero, lengths ▸ Nat.le_succ_of_le old.2.1, lengths ▸ small⟩
  have overfull : Overfull config 0 (leaf newBlock (passed ++ (key, data) :: others)) := by
    refine ⟨newBlockNonzero, ?_⟩
    rw [BTree.keys, length_map, lengths, Nat.le_antisymm room full]
    rfl
  have extra := overfull.extraKey_ne_zero (newOrdered.hole newFrames)
  rw [if_neg extra, newAbove.length]
  apply blockTreeNodeSplit_ensures updatable overfull rfl newAbove newContext newOrdered
  rotate_left
  · intro newHeight newTree newFits entriesEq
    rw [← entriesEq] at newPlaced
    exact next newHeight newTree newFits newPlaced
  have live := liveKeys_leaf block room leafOrdered
  have newKeys : (leaf newBlock (passed ++ (key, data) :: others)).keys =
      ((passed ++ others).map Prod.fst).insertIdx passed.length key := by
    have inserted := insertIdx_length_append (passed.map Prod.fst) (others.map Prod.fst) key
    rw [length_map, ← map_append] at inserted
    rw [inserted, BTree.keys, map_append]
    rfl
  have full : ¬ ((passed ++ others).map Prod.fst).length < config.keyCount true := by
    rw [length_map]
    exact Nat.not_lt.mpr full
  rw [live, Bool.or_eq_true, decide_eq_true_eq, ← newKeys] at clear
  have oldOrdered :=
    (placed newBlock frames (Relabel.refl _)).ordered ordered keyNonzero dataNonzero
  exact ((splitsClear_iff context (by simp [BTree.entries]) oldOrdered aboveNew).mp
    (clear.resolve_left full)).relabel same

omit updatable in
theorem embed_empty (block : Nat) : (leaf block []).embed config = .node true block
    (List.replicate (config.keyCount true) 0) (List.replicate (config.slotCount true) .nil) := by
  rw [embed, map_nil, map_nil, fill_nil, fill_nil]

theorem blockTreeInsert_nil_ensures (keyFits : key < config.keyLimit) (keyNonzero : key ≠ 0)
    (dataNonzero : data ≠ 0) (next : Yields config (· = [(key, data)]) post) :
    ensures (blockTreeInsertBlockMac config .nil key data) post := by
  have unfolded : ∀ block, block ≠ 0 → ensures
      (blockTreeInsertBlockMac config ((leaf block []).embed config) key data) post := by
    intro block nonzero
    have fits : Root config 0 (leaf block []) := ⟨nonzero, Nat.zero_le _⟩
    refine blockTreeInsert_ensures updatable fits (by decide) ordered_nil keyFits keyNonzero
      dataNonzero (insertionClear_of_strict fits ordered_nil .nil) ?_
    rintro newHeight newTree fits ⟨front, back, empty, newEq, _⟩
    rw [BTree.entries, eq_comm, append_eq_nil_iff] at empty
    rcases empty with ⟨rfl, rfl⟩
    exact next newHeight newTree fits newEq
  simp only [blockTreeInsertBlockMac, ensures_bind, ensures_require, Tree.toBlock, if_true]
  refine ⟨keyNonzero, dataNonzero, updatable, ?_⟩
  intro block nonzero
  have inserted := unfolded block nonzero
  rw [embed_empty] at inserted
  simp only [blockTreeInsertBlockMac, ensures_bind, ensures_require, Tree.toBlock, nonzero,
    if_false, ensures_pure] at inserted
  exact inserted.2.2

end InsertProgram

end Trusty.Storage
