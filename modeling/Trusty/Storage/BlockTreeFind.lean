import Trusty.Storage.BlockTreeWalk

/-!
Looking for a pair.

A path stands for the entries from its position on, and `block_tree_path_next`
takes it from one entry to the next.  Removal and update look for a pair with
such a path, because several entries can have the same key.
-/

namespace Trusty.Storage

open Lib BTree List

/-- The path is at the first of the entries `remaining` of the tree, or past
the last entry. -/
def PathOn (config : TreeConfig) (height : Nat) (tree : BTree) (path : Path)
    (remaining : List (Nat × Nat)) : Prop :=
  ∃ block entries index frames prevKey, frames.length = height ∧
    plug (leaf block entries) frames = tree ∧
    path = pathAt config (leaf block entries) index frames prevKey ∧
    remaining = entries.drop index ++ after frames ∧ (remaining ≠ [] → index < entries.length)

section PathOn

variable {config : TreeConfig} {height : Nat} {tree : BTree}

variable {frames : List Frame} {remaining : List (Nat × Nat)}

section

variable (sound : Sound config (height + frames.length) (plug tree frames))

include sound

theorem nextKeyAt_eq_zero_iff (ordered : Ordered (plug tree frames).entries) :
    nextKeyAt frames = 0 ↔ after frames = [] := by
  rw [nextKeyAt_eq sound]
  rw [entries_plug] at ordered
  cases afterEq : after frames with
  | nil => simp
  | cons first more =>
    have nonzero : first.1 ≠ 0 := ordered.key_ne_zero first (by simp [afterEq])
    simp [nonzero]

end

variable {path : Path} {entry : Nat × Nat} {rest : List (Nat × Nat)}

theorem PathOn.split (on : PathOn config height tree path (entry :: rest)) :
    ∃ block front back frames prevKey, frames.length = height ∧
      plug (leaf block (front ++ entry :: back)) frames = tree ∧
      path = pathAt config (leaf block (front ++ entry :: back)) front.length frames prevKey := by
  rcases on with ⟨block, entries, index, frames, prevKey, depth, plugged, pathEq, remaining, inside⟩
  obtain ⟨front, value, back, rfl, rfl⟩ := exists_split_at (inside (cons_ne_nil _ _))
  rw [drop_left, cons_append, List.cons.injEq] at remaining
  obtain ⟨rfl, _⟩ := remaining
  exact ⟨block, front, back, frames, prevKey, depth, plugged, pathEq⟩

theorem PathOn.current (on : PathOn config height tree path (entry :: rest)) :
    blockTreePathGetKey path = entry.1 ∧ path.data = .data entry.2 := by
  obtain ⟨block, front, back, frames, prevKey, _, _, rfl⟩ := on.split
  simp [blockTreePathGetKey, pathAt, BTree.entries, BTree.keys, BTree.slots]

section

variable (sound : Sound config height tree) (ordered : Ordered tree.entries)

include sound ordered

theorem PathOn.finished (on : PathOn config height tree path []) :
    blockTreePathGetKey path = 0 ∧ path.data = .nil := by
  rcases on with ⟨block, entries, index, frames, prevKey, depth, rfl, rfl, remaining, _⟩
  rw [eq_comm, append_eq_nil_iff, drop_eq_nil_iff] at remaining
  rw [← depth, ← Nat.zero_add frames.length] at sound
  have past : ¬ index < (leaf block entries).entries.length := Nat.not_lt.mpr remaining.1
  have noMore := (nextKeyAt_eq_zero_iff sound ordered).mpr remaining.2
  constructor
  · simp only [blockTreePathGetKey, pathAt, if_neg past, noMore]
  · apply getD_eq_default
    simpa [BTree.slots] using remaining.1

theorem PathOn.next (on : PathOn config height tree path (entry :: rest)) :
    ∃ newPath, blockTreePathNext none path = some newPath ∧
      PathOn config height tree newPath rest := by
  rcases on with ⟨block, entries, index, frames, prevKey, depth, rfl, rfl, remaining, inside⟩
  have current : index < entries.length := inside (cons_ne_nil _ _)
  rw [drop_eq_getElem_cons current, cons_append, List.cons.injEq] at remaining
  rcases remaining with ⟨_, rfl⟩
  rw [← depth, ← Nat.zero_add frames.length] at sound
  have reads : Reads config (leaf block entries) := (Sound.hole frames sound).reads
  rcases Classical.em (index + 1 < entries.length ∨ nextKeyAt frames = 0) with stays | leaves
  · rcases blockTreePathNext_inside prevKey reads (ordered.hole frames) current stays with
      ⟨newPrevKey, moved⟩
    refine ⟨_, moved, block, entries, index + 1, frames, newPrevKey, depth, rfl, rfl, rfl, ?_⟩
    intro more
    rcases stays with within | last
    · exact within
    · rw [(nextKeyAt_eq_zero_iff sound ordered).mp last, append_nil] at more
      exact Nat.lt_of_not_le fun past => more (drop_eq_nil_of_le past)
  rcases not_or.mp leaves with ⟨last, more⟩
  rw [Nat.not_lt] at last
  rcases blockTreePathNext_leaf prevKey sound ordered last more with
    ⟨newBlock, newEntries, newFrames, newPrevKey, plugged, lengths, beforeEq, nonempty, moved⟩
  refine ⟨_, moved, newBlock, newEntries, 0, newFrames, newPrevKey, lengths.trans depth,
    plugged, rfl, ?_, fun _ => length_pos_of_ne_nil nonempty⟩
  have same := congrArg BTree.entries plugged
  rw [entries_plug, entries_plug, beforeEq] at same
  simp only [BTree.entries, append_assoc, append_cancel_left_eq] at same
  rw [drop_eq_nil_of_le last, drop_zero, same]
  rfl

end

theorem PathOn.suffix (on : PathOn config height tree path remaining) :
    ∃ skipped, tree.entries = skipped ++ remaining := by
  rcases on with ⟨block, entries, index, frames, prevKey, _, rfl, _, rfl, _⟩
  refine ⟨before frames ++ entries.take index, ?_⟩
  rw [entries_plug, BTree.entries, append_assoc, append_assoc,
    ← append_assoc (entries.take index), take_append_drop]

theorem PathOn.key_ne_zero (ordered : Ordered tree.entries)
    (on : PathOn config height tree path (entry :: rest)) : entry.1 ≠ 0 := by
  rcases on.suffix with ⟨skipped, entriesEq⟩
  apply ordered.key_ne_zero entry
  rw [entriesEq]
  exact mem_append_right _ mem_cons_self

theorem findPair_finds (sound : Sound config height tree)
    (ordered : Ordered tree.entries) {key data fuel : Nat}
    (on : PathOn config height tree path remaining) (present : (key, data) ∈ remaining)
    (enough : remaining.length ≤ fuel) :
    ∃ found others, findPair key data fuel path = some found ∧
      PathOn config height tree found ((key, data) :: others) := by
  induction fuel generalizing path remaining with
  | zero =>
    rw [eq_nil_of_length_eq_zero (Nat.le_zero.mp enough)] at present
    exact absurd present not_mem_nil
  | succ fuel ih =>
    cases remaining with
    | nil => exact absurd present not_mem_nil
    | cons entry rest =>
      rcases on.current with ⟨keyEq, dataEq⟩
      rw [findPair, keyEq, dataEq, Tree.toBlock]
      by_cases here : entry.2 = data ∧ entry.1 = key
      · rw [if_pos here]
        rcases here with ⟨rfl, rfl⟩
        exact ⟨path, rest, rfl, on⟩
      have later : (key, data) ∈ rest := by
        rcases mem_cons.mp present with rfl | inRest
        · exact (here ⟨rfl, rfl⟩).elim
        · exact inRest
      have nonzero : entry.1 ≠ 0 := on.key_ne_zero ordered
      rcases on.next sound ordered with ⟨newPath, moved, newOn⟩
      rw [if_neg here, if_neg nonzero, moved]
      exact ih newOn later (Nat.le_of_succ_le_succ enough)

end PathOn

section LeafSlots

variable {config : TreeConfig}

theorem leafSlotsList_append (first second : List Tree) :
    Tree.leafSlotsList (first ++ second) =
      Tree.leafSlotsList first + Tree.leafSlotsList second := by
  induction first with
  | nil => simp [Tree.leafSlotsList]
  | cons tree rest ih =>
    simp [Tree.leafSlotsList, ih, Nat.add_assoc]

theorem leafSlotsList_fill {size : Nat} {trees : List Tree} (fits : trees.length ≤ size) :
    Tree.leafSlotsList (fill .nil size trees) = Tree.leafSlotsList trees := by
  have unused : ∀ count, Tree.leafSlotsList (List.replicate count .nil) = 0 := by
    intro count
    induction count with
    | zero => rfl
    | succ count ih =>
      simp [replicate_succ, Tree.leafSlotsList, Tree.leafSlots, ih]
  rw [fill_eq_pad fits, pad, leafSlotsList_append, unused, Nat.add_zero]

variable {block height : Nat} {tree : BTree}

theorem leafSlots_leaf {entries : List (Nat × Nat)} (fits : entries.length ≤ config.keyCount true) :
    ((leaf block entries).embed config).leafSlots = entries.length := by
  rw [embed, Tree.leafSlots, leafSlotsList_fill (by simpa [TreeConfig.slotCount] using fits)]
  clear fits
  induction entries with
  | nil => rfl
  | cons entry entries ih =>
    simp [Tree.leafSlotsList, Tree.leafSlots, ih, Nat.add_comm]

theorem leafSlots_node {children : List BTree} (fits : children.length ≤ config.keyCount false + 1)
    (below : ∀ child ∈ children, (child.embed config).leafSlots = child.entries.length) :
    ((node block children).embed config).leafSlots = (entriesAll children).length := by
  rw [embed, embedAll_eq, Tree.leafSlots,
    leafSlotsList_fill (by simpa [TreeConfig.slotCount] using fits)]
  clear fits
  induction children with
  | nil => rfl
  | cons child children ih =>
    have first := below child mem_cons_self
    have others := ih fun other mem =>
      below other (mem_cons_of_mem _ mem)
    simp [Tree.leafSlotsList, first, others, entriesAll]

theorem BTree.Root.leafSlots (fits : Root config height tree) :
    (tree.embed config).leafSlots = tree.entries.length := by
  induction fits using Root.induction with
  | leaf block entries fits => exact leafSlots_leaf fits.2
  | node height block children fits ih => exact leafSlots_node fits.2.2.1 ih

end LeafSlots

section FindPair

variable {config : TreeConfig} {height : Nat} {tree : BTree} {key data : Nat}

theorem blockTreeWalk_max (key : Nat)
    (sound : Sound config height tree) (deep : height < blockTreeMaxDepth)
    (ordered : Ordered tree.entries) :
    ∃ path skipped remaining, blockTreeWalk ⟨tree.embed config, none⟩ key true = some path ∧
      PathOn config height tree path remaining ∧ tree.entries = skipped ++ remaining ∧
      ∀ entry ∈ skipped, entry.1 ≤ key := by
  rcases blockTreeWalk_lands key true sound deep ordered with
    ⟨block, passed, rest, frames, prevKey, depth, rfl, lands, _, nonempty, _, walked⟩
  have landing := landingIndex_le key true passed rest
  have inside : passed ++ rest ≠ [] →
      landingIndex key true passed rest < (passed ++ rest).length :=
      fun some => landingIndex_lt some
  generalize landingIndex key true passed rest = index at *
  refine ⟨_, before frames ++ passed.take index, (passed ++ rest).drop index ++ after frames,
    walked, ⟨block, passed ++ rest, index, frames, prevKey, depth, rfl, rfl, rfl, ?_⟩, ?_, ?_⟩
  · intro more
    rcases Classical.em (passed ++ rest = []) with empty | some
    · have noFrames : frames = [] := not_not.mp (mt nonempty (not_not.mpr empty))
      rw [empty, noFrames, drop_nil] at more
      exact (more rfl).elim
    · exact inside some
  · have taken : passed.take index = (passed ++ rest).take index :=
      (take_append_of_le_length landing).symm
    rw [entries_plug, BTree.entries, taken, append_assoc (before frames) (List.take _ _),
      ← append_assoc (List.take _ _), take_append_drop, append_assoc]
  · exact forall_mem_append.mpr
      ⟨lands.before, fun entry inPassed => (lands.passed entry (mem_of_mem_take inPassed)).le⟩

theorem Lands.exists_key {block : Nat} {frames : List Frame} {passed rest : List (Nat × Nat)}
    (lands : Lands key frames passed rest)
    (ordered : Ordered (plug (leaf block (passed ++ rest)) frames).entries)
    (edge : prevKeyAt (leaf block (passed ++ rest)) frames ≤ key)
    (nonempty : frames ≠ [] → passed ++ rest ≠ [])
    (present : ∃ entry ∈ (plug (leaf block (passed ++ rest)) frames).entries, entry.1 = key) :
    ∃ first more, rest = first :: more ∧ first.1 = key := by
  rcases present with ⟨entry, inTree, rfl⟩
  rw [entries_plug] at ordered inTree
  rcases mem_append.mp inTree with inFront | inAfter
  · rcases mem_append.mp inFront with inBefore | inLeaf
    · -- the leaf starts at the key, as the separator left of it is not above it
      have notLeftmost : ¬ Leftmost frames := fun leftmost => by
        rw [leftmost.before_eq_nil] at inBefore
        exact not_mem_nil inBefore
      have someFrames : frames ≠ [] := by
        rintro rfl
        exact not_mem_nil inBefore
      have leafNonempty : (leaf block (passed ++ rest)).entries ≠ [] := nonempty someFrames
      rcases prevKeyAt_cases leafNonempty with ⟨leftmost, _⟩ | found
      · exact (notLeftmost leftmost).elim
      rw [found] at edge
      have notBelow := ordered.append.1.append.2.2 entry inBefore
      cases passed with
      | cons other more =>
        have below := lands.passed other mem_cons_self
        have := notBelow other mem_cons_self
        omega
      | nil =>
        rcases exists_cons_of_ne_nil (nonempty someFrames) with ⟨head, more, restEq⟩
        subst restEq
        exact ⟨head, more, rfl, Nat.le_antisymm edge (notBelow head mem_cons_self)⟩
    · rcases mem_append.mp inLeaf with inPassed | inRest
      · have := lands.passed entry inPassed
        omega
      rcases exists_cons_of_ne_nil (ne_nil_of_mem inRest) with ⟨head, more, rfl⟩
      refine ⟨head, more, rfl, ?_⟩
      have low := lands.rest head mem_cons_self
      have restOrdered := ordered.append.1.append.2.1.append.2.1
      have := restOrdered.head_le entry inRest
      omega
  · have := lands.after entry inAfter
    omega

theorem blockTreeFindPair_finds (fits : Root config height tree) (deep : height < blockTreeMaxDepth)
    (ordered : Ordered tree.entries) (present : (key, data) ∈ tree.entries) :
    ∃ path others, blockTreeFindPair (tree.embed config) key data = some path ∧
      PathOn config height tree path ((key, data) :: others) := by
  have sound := fits.sound
  rcases blockTreeWalk_lands key false sound deep ordered with
    ⟨block, passed, rest, frames, prevKey, depth, rfl, lands, edge, nonempty, _, walked⟩
  have landing : landingIndex key false passed rest = passed.length := by simp [landingIndex]
  rcases lands.exists_key ordered edge nonempty ⟨_, present, rfl⟩ with ⟨first, more, rfl, firstKey⟩
  have on : PathOn config height (plug (leaf block (passed ++ first :: more)) frames)
      (pathAt config (leaf block (passed ++ first :: more)) passed.length frames prevKey)
      (first :: (more ++ after frames)) := by
    refine ⟨block, passed ++ first :: more, passed.length, frames, prevKey, depth, rfl, rfl, ?_, ?_⟩
    · rw [drop_left]
      rfl
    · intro _
      rw [length_append, length_cons]
      omega
  rw [landing] at walked
  rw [blockTreeFindPair, walked]
  simp only [on.current.2, Tree.toBlock]
  by_cases here : first.2 = data
  · rw [if_pos here]
    have same : first = (key, data) := Prod.ext firstKey here
    rw [← same]
    exact ⟨_, _, rfl, on⟩
  have keyNonzero : key ≠ 0 := ordered.key_ne_zero _ present
  rcases blockTreeWalk_max (key - 1) sound deep ordered with
    ⟨path, skipped, remaining, walkedMax, maxOn, entriesEq, low⟩
  have later : (key, data) ∈ remaining := by
    rw [entriesEq] at present
    rcases mem_append.mp present with inSkipped | inRemaining
    · have := low _ inSkipped
      omega
    · exact inRemaining
  rw [if_neg here, walkedMax]
  apply findPair_finds sound ordered maxOn later
  rw [fits.leafSlots, entriesEq, length_append]
  omega

end FindPair

end Trusty.Storage
