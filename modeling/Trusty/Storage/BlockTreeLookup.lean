import Mathlib.Order.Bounds.Basic
import Mathlib.Tactic.Ring
import Trusty.Storage.BlockTreeRuns

/-!
Lookup and iteration in a B+ tree.

A walk ends in a leaf.  `Stands` describes the place: what lies before it, what
follows in the same leaf, and the leaves behind, which the path goes through
next.  Where a walk ends is then a statement about a list of entries cut in two.
Several entries can have the same key, also in different leaves, and a walk to a
key that occurs ends at one of them.
-/

namespace Trusty.Storage

open Lib BTree List

namespace BTree

mutual

def leaves : BTree → List (List (Nat × Nat))
  | leaf _ entries => [entries]
  | node _ children => leavesAll children

def leavesAll : List BTree → List (List (Nat × Nat))
  | [] => []
  | child :: rest => leaves child ++ leavesAll rest

end

end BTree

/-- A B+ tree of `levels` levels with the given leaves. -/
inductive ValidTree (config : TreeConfig) : Nat → Tree → List (List (Nat × Nat)) → Prop where
  | empty : ValidTree config 0 .nil []
  | tree {height : Nat} {tree : BTree} (sound : tree.Sound config height)
      (ordered : Ordered tree.entries) :
      ValidTree config (height + 1) (tree.embed config) tree.leaves

/-- Repeated `block_tree_path_next` visits the entries and then reports key 0. -/
inductive Visits (inserting : Option Inserting) : Path → List (Nat × Nat) → Prop where
  | finished {path : Path} (key : blockTreePathGetKey path = 0) (data : path.data = .nil) :
      Visits inserting path []
  | entry {path next : Path} {entry : Nat × Nat} {rest : List (Nat × Nat)}
      (key : blockTreePathGetKey path = entry.1) (data : path.data = .data entry.2)
      (moved : blockTreePathNext inserting path = some next) (visits : Visits inserting next rest) :
      Visits inserting path (entry :: rest)

/-- The path is in a leaf, before the entries `rest` of it, and the leaves
`back` follow.  Past the last entry of a leaf the slot is empty, and the path
goes on with the next leaf. -/
structure Stands (inserting : Option Inserting) (leaves : List (List (Nat × Nat))) (path : Path)
    (skipped rest : List (Nat × Nat)) (back : List (List (Nat × Nat))) : Prop where
  place : ∃ front, leaves = front ++ back ∧ front.flatten = skipped ++ rest ∧
    rest <:+ front.getLastD []
  key : blockTreePathGetKey path = ((rest ++ back.flatten).head?.map Prod.fst).getD 0
  data : path.data = (rest.head?.map fun entry => Tree.data entry.2).getD .nil
  visits : Visits inserting path (rest ++ back.flatten) ∨
    rest = [] ∧ ∃ next, blockTreePathNext inserting path = some next ∧
    Visits inserting next back.flatten

/-- The cut at an entry with the key, if there is one, and else at the last
entry below it, or the first entry of all. -/
structure NearestUpTo (key : Nat) (skipped remaining : List (Nat × Nat)) : Prop where
  found : (∃ entry ∈ skipped ++ remaining, entry.1 = key) →
    ∃ data more, remaining = (key, data) :: more
  below : (∀ entry ∈ skipped ++ remaining, entry.1 ≠ key) →
    (∃ entry ∈ skipped ++ remaining, entry.1 < key) → ∃ entry more, remaining = entry :: more ∧
    entry.1 < key ∧ ∀ other ∈ more, key < other.1
  above : (∀ entry ∈ skipped ++ remaining, key < entry.1) → skipped = []

/-- The cut at an entry with the key, if there is one, and else where the key
would be inserted. -/
structure InsertPoint (key : Nat) (skipped remaining : List (Nat × Nat)) : Prop where
  found : (∃ entry ∈ skipped ++ remaining, entry.1 = key) →
    ∃ data more, remaining = (key, data) :: more
  absent : (∀ entry ∈ skipped ++ remaining, entry.1 ≠ key) →
    (∀ entry ∈ skipped, entry.1 < key) ∧ ∀ entry ∈ remaining, key < entry.1

/-- With distinct keys, the cut at the last entry up to the key, or at the
first entry of all. -/
structure LastUpTo (key : Nat) (skipped remaining : List (Nat × Nat)) : Prop where
  head_le : skipped ≠ [] → ∃ first more, remaining = first :: more ∧ first.1 ≤ key
  tail_gt : ∀ entry ∈ remaining.tail, key < entry.1

theorem NearestUpTo.lastUpTo {key : Nat} {skipped remaining : List (Nat × Nat)}
    (nearest : NearestUpTo key skipped remaining)
    (strict : (skipped ++ remaining).Pairwise fun first second => first.1 < second.1) :
    LastUpTo key skipped remaining := by
  by_cases present : ∃ entry ∈ skipped ++ remaining, entry.1 = key
  · obtain ⟨data, more, rfl⟩ := nearest.found present
    refine ⟨fun _ => ⟨(key, data), more, rfl, Nat.le_refl key⟩, ?_⟩
    exact (pairwise_cons.mp (pairwise_append.mp strict).2.1).1
  have absent : ∀ entry ∈ skipped ++ remaining, entry.1 ≠ key :=
    fun entry inside same => present ⟨entry, inside, same⟩
  by_cases below : ∃ entry ∈ skipped ++ remaining, entry.1 < key
  · obtain ⟨first, more, rfl, firstBelow, above⟩ := nearest.below absent below
    exact ⟨fun _ => ⟨first, more, rfl, firstBelow.le⟩, above⟩
  have above : ∀ entry ∈ skipped ++ remaining, key < entry.1 := by
    intro entry inside
    have notBelow : ¬ entry.1 < key := fun low => below ⟨entry, inside, low⟩
    have differs := absent entry inside
    omega
  refine ⟨fun some => (some (nearest.above above)).elim, ?_⟩
  exact fun entry inTail => above entry (mem_append_right _ (mem_of_mem_tail inTail))

section Leaves

mutual

theorem flatten_leaves : ∀ tree : BTree, tree.leaves.flatten = tree.entries
  | leaf _ entries => by simp [leaves, BTree.entries]
  | node _ children => by
    rw [leaves, BTree.entries]
    exact flatten_leavesAll children

theorem flatten_leavesAll : ∀ children :
    List BTree, (leavesAll children).flatten = entriesAll children
  | [] => rfl
  | child :: rest => by
    rw [leavesAll, entriesAll, flatten_append, flatten_leaves child, flatten_leavesAll rest]

end

theorem leavesAll_append (first second : List BTree) :
    leavesAll (first ++ second) = leavesAll first ++ leavesAll second := by
  induction first with
  | nil => rfl
  | cons child rest ih => simp [leavesAll, ih]

theorem leaves_plug (tree : BTree) (frames : List Frame) :
    ∃ front back, (plug tree frames).leaves = front ++ tree.leaves ++ back ∧
      front.flatten = before frames ∧ back.flatten = after frames := by
  induction frames generalizing tree with
  | nil => exact ⟨[], [], by simp [plug], rfl, rfl⟩
  | cons frame frames ih =>
    obtain ⟨front, back, split, frontEq, backEq⟩ := ih (frame.close tree)
    refine ⟨front ++ leavesAll frame.left, leavesAll frame.right ++ back, ?_, ?_, ?_⟩
    · rw [plug, split, Frame.close, leaves, leavesAll_append, leavesAll]
      simp
    · rw [flatten_append, frontEq, flatten_leavesAll, before]
    · rw [flatten_append, backEq, flatten_leavesAll, after]

end Leaves

section Sound

variable {config : TreeConfig}

variable {height : Nat} {tree : BTree}

theorem Represents.valid {tree : Tree} (represents : Represents config tree) :
    ∃ leaves, ValidTree config tree.levels tree leaves ∧ leaves.flatten = tree.entries := by
  rcases represents with rfl | ⟨height, abstract, fits, ordered, rfl⟩
  · exact ⟨[], ValidTree.empty, rfl⟩
  · refine ⟨abstract.leaves, ?_, ?_⟩
    · rw [levels_embed fits]
      exact ValidTree.tree fits.sound ordered
    · rw [flatten_leaves, entries_embed fits ordered]

end Sound

section Walks

variable {config : TreeConfig} {height : Nat} {tree : BTree}

theorem PathOn.visits (sound : Sound config height tree)
    (ordered : Ordered tree.entries) {path : Path} {remaining : List (Nat × Nat)}
    (on : PathOn config height tree path remaining) :
    Visits none path remaining := by
  induction remaining generalizing path with
  | nil => exact Visits.finished (on.finished sound ordered).1 (on.finished sound ordered).2
  | cons entry rest ih =>
    obtain ⟨next, moved, nextOn⟩ := on.next sound ordered
    exact Visits.entry on.current.1 on.current.2 moved (ih nextOn)

variable {block : Nat} {entries : List (Nat × Nat)} {frames : List Frame}

section

variable (sound : Sound config frames.length (plug (leaf block entries) frames))
  (ordered : Ordered (plug (leaf block entries) frames).entries)

include sound ordered

/-- A path past the last entry of a leaf reports the first key behind it, and
goes on with the leaf that holds it. -/
theorem pathAt_gap {prevKey : Nat} (more : after frames ≠ []) :
    blockTreePathGetKey (pathAt config (leaf block entries) entries.length frames prevKey) =
        ((after frames).head?.map Prod.fst).getD 0 ∧
      ∃ next, blockTreePathNext none
          (pathAt config (leaf block entries) entries.length frames prevKey) = some next ∧
        Visits none next (after frames) := by
  have soundZero := sound
  rw [← Nat.zero_add frames.length] at soundZero
  have moreKey : nextKeyAt frames ≠ 0 := mt (nextKeyAt_eq_zero_iff soundZero ordered).mp more
  constructor
  · rw [← nextKeyAt_eq soundZero]
    exact if_neg (Nat.lt_irrefl _)
  · obtain ⟨newBlock, newEntries, newFrames, newPrevKey, plugged, lengths, beforeEq,
        nonempty, moved⟩ :=
      blockTreePathNext_leaf prevKey soundZero ordered (Nat.le_succ _) moreKey
    have same := congrArg BTree.entries plugged
    rw [entries_plug, entries_plug, beforeEq] at same
    simp only [BTree.entries, append_assoc, append_cancel_left_eq] at same
    have on : PathOn config frames.length (plug (leaf block entries) frames)
        (pathAt config (leaf newBlock newEntries) 0 newFrames newPrevKey) (after frames) :=
      ⟨newBlock, newEntries, 0, newFrames, newPrevKey, lengths, plugged, rfl, same.symm,
        fun _ => length_pos_of_ne_nil nonempty⟩
    exact ⟨_, moved, on.visits sound ordered⟩

theorem pathAt_stands (prevKey : Nat) {index : Nat} (inside : index ≤ entries.length) :
    ∃ back, back.flatten = after frames ∧
      Stands none (plug (leaf block entries) frames).leaves
        (pathAt config (leaf block entries) index frames prevKey)
        (before frames ++ entries.take index) (entries.drop index) back := by
  obtain ⟨front, back, split, frontEq, backEq⟩ := leaves_plug (leaf block entries) frames
  have place : ∃ front, (plug (leaf block entries) frames).leaves = front ++ back ∧
      front.flatten = (before frames ++ entries.take index) ++ entries.drop index ∧
      entries.drop index <:+ front.getLastD [] := by
    refine ⟨front ++ [entries], split, ?_, ?_⟩
    · simp [frontEq, append_assoc]
    · rw [getLastD_concat]
      exact drop_suffix index entries
  refine ⟨back, backEq, ?_⟩
  rcases Nat.lt_or_eq_of_le inside with current | rfl
  · have on : PathOn config frames.length (plug (leaf block entries) frames)
        (pathAt config (leaf block entries) index frames prevKey)
        (entries.drop index ++ after frames) :=
      ⟨block, entries, index, frames, prevKey, rfl, rfl, rfl, rfl, fun _ => current⟩
    have visits := on.visits sound ordered
    rw [drop_eq_getElem_cons current, cons_append] at on
    refine ⟨place, ?_, ?_, .inl (backEq.symm ▸ visits)⟩
    · rw [on.current.1, drop_eq_getElem_cons current]
      rfl
    · rw [on.current.2, drop_eq_getElem_cons current]
      rfl
  have slot : (pathAt config (leaf block entries) entries.length frames prevKey).data = .nil := by
    apply getD_eq_default
    simp [BTree.slots]
  rw [drop_length] at place ⊢
  by_cases more : after frames = []
  · have on : PathOn config frames.length (plug (leaf block entries) frames)
        (pathAt config (leaf block entries) entries.length frames prevKey) [] :=
      ⟨block, entries, entries.length, frames, prevKey, rfl, rfl, rfl, by simp [more],
        fun contra => (contra rfl).elim⟩
    refine ⟨place, ?_, slot, .inl ?_⟩
    · rw [backEq, more]
      exact (on.finished sound ordered).1
    · rw [backEq, more]
      exact on.visits sound ordered
  · obtain ⟨key, next, moved, visits⟩ := pathAt_gap sound ordered more
    refine ⟨place, ?_, slot, .inr ⟨rfl, next, moved, ?_⟩⟩
    · rw [backEq]
      exact key
    · rw [backEq]
      exact visits

end

end Walks

section Landing

variable {block key : Nat} {frames : List Frame} {passed rest : List (Nat × Nat)}
variable (lands : Lands key frames passed rest)
  (ordered : Ordered (plug (leaf block (passed ++ rest)) frames).entries)
  (edge : prevKeyAt (leaf block (passed ++ rest)) frames ≤ key)
  (nonempty : frames ≠ [] → passed ++ rest ≠ [])

theorem cut_plug (index : Nat) :
    (plug (leaf block (passed ++ rest)) frames).entries =
      (before frames ++ (passed ++ rest).take index) ++
        ((passed ++ rest).drop index ++ after frames) := by
  rw [entries_plug, BTree.entries, append_assoc (before frames) (List.take _ _),
    ← append_assoc (List.take _ _), take_append_drop, append_assoc]

include lands ordered edge nonempty

/-- A walk ends at the start of a leaf only if the key is there or nothing is
before it. -/
theorem before_eq_nil_of_lands (start : passed = [])
    (absent : ∀ entry ∈ (plug (leaf block (passed ++ rest)) frames).entries, entry.1 ≠ key) :
    before frames = [] := by
  by_contra some
  have someFrames : frames ≠ [] := by
    rintro rfl
    exact some rfl
  have leafNonempty : (leaf block (passed ++ rest)).entries ≠ [] := nonempty someFrames
  subst start
  rcases prevKeyAt_cases leafNonempty with ⟨leftmost, _⟩ | found
  · exact some leftmost.before_eq_nil
  obtain ⟨first, more, restEq⟩ := exists_cons_of_ne_nil (nonempty someFrames)
  subst restEq
  rw [found] at edge
  have high := lands.rest first mem_cons_self
  have differs := absent first (by rw [entries_plug]; simp [BTree.entries])
  exact differs (Nat.le_antisymm edge high)

theorem insertPoint_of_lands :
    InsertPoint key (before frames ++ passed) (rest ++ after frames) := by
  have cut : (plug (leaf block (passed ++ rest)) frames).entries =
      (before frames ++ passed) ++ (rest ++ after frames) := by
    rw [cut_plug passed.length, take_left, drop_left]
  constructor
  · intro present
    rw [← cut] at present
    obtain ⟨first, more, rfl, firstKey⟩ := lands.exists_key ordered edge nonempty present
    exact ⟨first.2, more ++ after frames, by rw [← firstKey]; rfl⟩
  · intro absent
    constructor
    · intro entry mem
      have differs := absent entry (mem_append_left _ mem)
      rcases mem_append.mp mem with inBefore | inPassed
      · exact Nat.lt_of_le_of_ne (lands.before entry inBefore) differs
      · exact lands.passed entry inPassed
    · intro entry mem
      have differs := absent entry (mem_append_right _ mem)
      rcases mem_append.mp mem with inRest | inAfter
      · exact Nat.lt_of_le_of_ne (lands.rest entry inRest) differs.symm
      · exact lands.after entry inAfter

theorem nearestUpTo_of_lands :
    NearestUpTo key (before frames ++ (passed ++ rest).take (landingIndex key true passed rest))
      ((passed ++ rest).drop (landingIndex key true passed rest) ++ after frames) := by
  have point := insertPoint_of_lands lands ordered edge nonempty
  have cut : (plug (leaf block (passed ++ rest)) frames).entries =
      (before frames ++ passed) ++ (rest ++ after frames) := by
    rw [cut_plug passed.length, take_left, drop_left]
  unfold landingIndex
  split
  case isTrue back =>
    -- no entry has the key, and the walk steps back to the last one below it
    obtain ⟨_, some, above⟩ := back
    obtain ⟨front, last, rfl⟩ := exists_append_singleton (ne_nil_of_length_pos some)
    have position : (front ++ [last]).length - 1 = front.length := by simp
    have same : (before frames ++ front) ++ (last :: rest ++ after frames) =
        (before frames ++ (front ++ [last])) ++ (rest ++ after frames) := by simp
    have lastBelow : last.1 < key := lands.passed last (by simp)
    rw [position, append_assoc front, take_left, drop_left, singleton_append]
    constructor
    · intro present
      rw [same] at present
      obtain ⟨data, more, restEq⟩ := point.found present
      cases rest with
      | nil =>
        have behind := lands.after (key, data) (by
          rw [nil_append] at restEq
          rw [restEq]
          exact mem_cons_self)
        exact (Nat.lt_irrefl key behind).elim
      | cons first others =>
        rw [cons_append, List.cons.injEq] at restEq
        have firstAbove := above first rfl
        rw [restEq.1] at firstAbove
        exact (Nat.lt_irrefl key firstAbove).elim
    · intro absent _
      rw [same] at absent
      exact ⟨last, rest ++ after frames, rfl, lastBelow, (point.absent absent).2⟩
    · intro allAbove
      have := allAbove last (by simp)
      omega
  case isFalse stays =>
    rw [take_left, drop_left]
    refine ⟨point.found, ?_, ?_⟩
    · intro absent below
      obtain ⟨low, high⟩ := point.absent absent
      have noPassed : passed = [] := by
        by_contra some
        refine stays ⟨rfl, length_pos_of_ne_nil some, ?_⟩
        intro entry isHead
        exact high entry (mem_append_left _ (mem_of_mem_head? isHead))
      rw [← cut] at absent
      obtain ⟨entry, inTree, entryBelow⟩ := below
      rw [before_eq_nil_of_lands lands ordered edge nonempty noPassed absent, noPassed] at inTree
      have := high entry inTree
      omega
    · intro allAbove
      have noPassed : passed = [] := by
        by_contra some
        obtain ⟨first, more, rfl⟩ := exists_cons_of_ne_nil some
        have := lands.passed first mem_cons_self
        have := allAbove first (by simp)
        omega
      rw [← cut] at allAbove
      rw [before_eq_nil_of_lands lands ordered edge nonempty noPassed
        fun entry inside => (allAbove entry inside).ne', noPassed]
      rfl

end Landing

section Lookup

variable {config : TreeConfig} {height : Nat} {tree : BTree}
variable (key : Nat) (sound : Sound config height tree)
  (deep : height < blockTreeMaxDepth) (ordered : Ordered tree.entries)

include sound deep ordered

theorem blockTreeWalk_nearest :
    ∃ path skipped rest back, blockTreeWalk ⟨tree.embed config, none⟩ key true = some path ∧
      Stands none tree.leaves path skipped rest back ∧
      NearestUpTo key skipped (rest ++ back.flatten) ∧ (rest = [] → tree.entries = []) := by
  obtain ⟨block, passed, rest, frames, prevKey, rfl, rfl, lands, edge, nonempty, _, walked⟩ :=
    blockTreeWalk_lands key true sound deep ordered
  have inside : landingIndex key true passed rest ≤ (passed ++ rest).length := by
    have := landingIndex_le key true passed rest
    rw [length_append]
    omega
  obtain ⟨back, backEq, stands⟩ := pathAt_stands sound ordered prevKey inside
  refine ⟨_, _, _, back, walked, stands, ?_, ?_⟩
  · rw [backEq]
    exact nearestUpTo_of_lands lands ordered edge nonempty
  intro atEnd
  have empty : passed ++ rest = [] := by
    by_contra some
    have atEntry : landingIndex key true passed rest < (passed ++ rest).length :=
      landingIndex_lt some
    exact absurd atEntry (Nat.not_lt.mpr (drop_eq_nil_iff.mp atEnd))
  have noFrames : frames = [] := not_not.mp (mt nonempty (not_not.mpr empty))
  rw [noFrames, plug, BTree.entries, empty]

theorem blockTreeWalk_insertPoint :
    ∃ path skipped rest back, blockTreeWalk ⟨tree.embed config, none⟩ key false = some path ∧
      Stands none tree.leaves path skipped rest back ∧
      InsertPoint key skipped (rest ++ back.flatten) := by
  obtain ⟨block, passed, rest, frames, prevKey, rfl, rfl, lands, edge, nonempty, _, walked⟩ :=
    blockTreeWalk_lands key false sound deep ordered
  have inside : passed.length ≤ (passed ++ rest).length := by simp
  obtain ⟨back, backEq, stands⟩ := pathAt_stands sound ordered prevKey inside
  rw [take_left, drop_left] at stands
  refine ⟨_, _, rest, back, walked, stands, ?_⟩
  rw [backEq]
  exact insertPoint_of_lands lands ordered edge nonempty

end Lookup

section Valid

variable {config : TreeConfig} {levels : Nat} {tree : Tree} {leaves : List (List (Nat × Nat))}

variable {path : Path} {skipped rest : List (Nat × Nat)}
  {back : List (List (Nat × Nat))}

theorem Stands.entries_eq (stands : Stands none leaves path skipped rest back) :
    leaves.flatten = skipped ++ (rest ++ back.flatten) := by
  obtain ⟨front, rfl, frontEq, _⟩ := stands.place
  rw [flatten_append, frontEq, append_assoc]

theorem InsertPoint.isLeast {key : Nat} {remaining : List (Nat × Nat)}
    (point : InsertPoint key skipped remaining) (ordered : Ordered (skipped ++ remaining))
    (absent : ∀ entry ∈ skipped ++ remaining, entry.1 ≠ key) :
    ((remaining.head?.map Prod.fst).getD 0 = 0 ∧ ∀ entry ∈ skipped ++ remaining, entry.1 < key) ∨
      IsLeast {other | key < other ∧ other ∈ (skipped ++ remaining).map Prod.fst}
        ((remaining.head?.map Prod.fst).getD 0) := by
  obtain ⟨low, high⟩ := point.absent absent
  cases remaining with
  | nil =>
    refine .inl ⟨rfl, ?_⟩
    rw [append_nil]
    exact low
  | cons first more =>
    refine .inr ⟨⟨high first mem_cons_self, mem_map_of_mem (by simp)⟩, ?_⟩
    rintro other ⟨above, inside⟩
    obtain ⟨entry, mem, rfl⟩ := mem_map.mp inside
    rcases mem_append.mp mem with inSkipped | inRemaining
    · exact absurd above (Nat.lt_asymm (low entry inSkipped))
    · exact ordered.append.2.1.head_le entry inRemaining

theorem stands_empty : Stands none [] ⟨[], .nil⟩ [] [] [] where
  place := ⟨[], rfl, rfl, suffix_refl _⟩
  key := rfl
  data := rfl
  visits := .inl (Visits.finished rfl rfl)

theorem Stands.visits_all (stands : Stands none leaves path skipped rest back)
    (atEntry : rest = [] → leaves.flatten = []) : Visits none path (rest ++ back.flatten) := by
  rcases stands.visits with visits | ⟨rfl, _⟩
  · exact visits
  have nothing := stands.entries_eq
  rw [atEntry rfl, eq_comm, append_eq_nil_iff] at nothing
  have key := stands.key
  rw [nothing.2] at key ⊢
  exact Visits.finished key stands.data

theorem ValidTree.walk_nearest (valid : ValidTree config levels tree leaves)
    (shallow : levels ≤ blockTreeMaxDepth) (key : Nat) :
    ∃ path skipped remaining, blockTreeWalk ⟨tree, none⟩ key true = some path ∧
      leaves.flatten = skipped ++ remaining ∧ Visits none path remaining ∧
      NearestUpTo key skipped remaining := by
  cases valid with
  | empty =>
    exact ⟨⟨[], .nil⟩, [], [], rfl, rfl, Visits.finished rfl rfl, by simp, by simp, fun _ => rfl⟩
  | tree sound ordered =>
    obtain ⟨path, skipped, rest, back, walked, stands, nearest, atEntry⟩ :=
      blockTreeWalk_nearest key sound shallow ordered
    exact ⟨path, skipped, _, walked, stands.entries_eq,
      stands.visits_all fun none => (flatten_leaves _).trans (atEntry none), nearest⟩

theorem ValidTree.ordered (valid : ValidTree config levels tree leaves) :
    Ordered leaves.flatten := by
  cases valid with
  | empty => exact ordered_nil
  | tree sound ordered =>
    rw [flatten_leaves]
    exact ordered

/-- In every tree that is not too deep, a walk to the last entry up to a key
ends at an entry with the key, if there is one, else at the last entry below it
or at the first entry; a walk to an insert point ends at an entry with the key
or at the smallest key above it, in an empty slot if that one is in the next
leaf; and from there the path visits the remaining entries and stops. -/
theorem blockTree_lookup (valid : ValidTree config levels tree leaves)
    (shallow : levels ≤ blockTreeMaxDepth) (key : Nat) :
    (∃ path skipped rest back, blockTreeWalk ⟨tree, none⟩ key true = some path ∧
      Stands none leaves path skipped rest back ∧ NearestUpTo key skipped (rest ++ back.flatten) ∧
      (rest = [] → leaves.flatten = [])) ∧
    ∃ path skipped rest back, blockTreeWalk ⟨tree, none⟩ key false = some path ∧
      Stands none leaves path skipped rest back ∧ InsertPoint key skipped (rest ++ back.flatten) ∧
      ((∀ entry ∈ leaves.flatten, entry.1 ≠ key) →
        (blockTreePathGetKey path = 0 ∧ ∀ entry ∈ leaves.flatten, entry.1 < key) ∨
          IsLeast {other | key < other ∧ other ∈ leaves.flatten.map Prod.fst}
            (blockTreePathGetKey path)) := by
  cases valid with
  | empty =>
    refine ⟨⟨⟨[], .nil⟩, [], [], [], rfl, stands_empty, ⟨by simp, by simp, fun _ => rfl⟩,
      fun _ => rfl⟩, ⟨[], .nil⟩, [], [], [], rfl, stands_empty, ⟨by simp, by simp⟩, ?_⟩
    exact fun _ => .inl ⟨rfl, by simp⟩
  | tree sound ordered =>
    refine ⟨?_, ?_⟩
    · obtain ⟨path, skipped, rest, back, walked, stands, nearest, atEnd⟩ :=
        blockTreeWalk_nearest key sound shallow ordered
      exact ⟨path, skipped, rest, back, walked, stands, nearest,
        fun none => (flatten_leaves _).trans (atEnd none)⟩
    obtain ⟨path, skipped, rest, back, walked, stands, point⟩ :=
      blockTreeWalk_insertPoint key sound shallow ordered
    refine ⟨path, skipped, rest, back, walked, stands, point, ?_⟩
    rw [← flatten_leaves, stands.entries_eq] at ordered
    rw [stands.entries_eq, stands.key]
    exact point.isLeast ordered

end Valid

/-! ### Examples of trees -/

/-- Nodes of two keys and leaves of four, for block numbers and macs of two bytes. -/
def compactConfig : TreeConfig := (blockTreeSetSizes 40 2 4 2 2 2 false false).get (by decide)

def twoLeaves : BTree := .node 3 [.leaf 1 [(3, 1), (5, 2)], .leaf 2 [(8, 3)]]

theorem twoLeaves_sound : twoLeaves.Sound compactConfig 1 := by
  refine ⟨by decide, by decide, by decide, ?_⟩
  intro child inside
  simp only [mem_cons, not_mem_nil, or_false] at inside
  rcases inside with rfl | rfl
  · exact ⟨⟨by decide, by decide⟩, by simp [BTree.entries]⟩
  · exact ⟨⟨by decide, by decide⟩, by simp [BTree.entries]⟩

theorem twoLeaves_ordered : Ordered twoLeaves.entries := ⟨by decide, by decide, by decide⟩

/-- The key 6 belongs in the empty slot behind the first leaf. -/
theorem blockTree_lookup_twoLeaves :
    ∃ path skipped rest back, blockTreeWalk ⟨twoLeaves.embed compactConfig, none⟩ 6
      false = some path ∧
      Stands none [[(3, 1), (5, 2)], [(8, 3)]] path skipped rest back ∧
      InsertPoint 6 skipped (rest ++ back.flatten) ∧
      IsLeast {other | 6 < other ∧ other ∈ [3, 5, 8]} (blockTreePathGetKey path) := by
  obtain ⟨_, path, skipped, rest, back, walked, stands, point, least⟩ :=
    blockTree_lookup (ValidTree.tree twoLeaves_sound twoLeaves_ordered) (by decide) 6
  refine ⟨path, skipped, rest, back, walked, stands, point, ?_⟩
  rcases least (by decide) with ⟨_, below⟩ | least
  · exact absurd (below (8, 3) (by decide)) (by decide)
  · exact least

/-- A binary tree of height `height` whose blocks are numbered from the root at
`block`, with two pairs in each leaf. -/
def tower : Nat → Nat → BTree
  | 0, block => .leaf block [(4 * block + 1, 4 * block + 2), (4 * block + 3, 4 * block + 4)]
  | height + 1, block => .node block [tower height (2 * block), tower height (2 * block + 1)]

section Tower

theorem tower_entries_succ (height block : Nat) :
    (tower (height + 1) block).entries =
      (tower height (2 * block)).entries ++ (tower height (2 * block + 1)).entries := by
  simp [tower, BTree.entries, entriesAll]

variable {height block : Nat}

theorem tower_bounds {entry : Nat × Nat} (inside : entry ∈ (tower height block).entries) :
    4 * (2 ^ height * block) < entry.1 ∧ entry.1 < entry.2 ∧
    entry.2 ≤ 4 * (2 ^ height * (block + 1)) := by
  induction height generalizing block with
  | zero =>
    simp only [tower, BTree.entries, mem_cons, not_mem_nil, or_false] at inside
    rcases inside with rfl | rfl <;> simp only [pow_zero] <;> omega
  | succ height ih =>
    have low : 2 ^ (height + 1) * block = 2 ^ height * (2 * block) := by ring
    have middle : 2 ^ height * (2 * block) ≤ 2 ^ height * (2 * block + 1) :=
      Nat.mul_le_mul_left _ (Nat.le_succ _)
    have high : 2 ^ (height + 1) * (block + 1) = 2 ^ height * (2 * block + 1 + 1) := by ring
    have above : 2 ^ height * (2 * block + 1) ≤ 2 ^ height * (2 * block + 1 + 1) :=
      Nat.mul_le_mul_left _ (Nat.le_succ _)
    rw [tower_entries_succ] at inside
    rcases mem_append.mp inside with inLeft | inRight
    · have := ih inLeft
      omega
    · have := ih inRight
      omega

theorem tower_apart (height block : Nat) :
    (tower height block).entries.Pairwise fun first second => first.2 < second.1 := by
  induction height generalizing block with
  | zero => simp [tower, BTree.entries]
  | succ height ih =>
    rw [tower_entries_succ]
    refine pairwise_append.mpr ⟨ih _, ih _, ?_⟩
    intro first inLeft second inRight
    have left := tower_bounds inLeft
    have right := tower_bounds inRight
    omega

theorem tower_ordered (height block : Nat) : Ordered (tower height block).entries where
  sorted := by
    refine (tower_apart height block).imp_of_mem ?_
    intro first second inFirst _ apart
    have := tower_bounds inFirst
    omega
  key_ne_zero entry inside := by
    have := tower_bounds inside
    omega
  data_ne_zero entry inside := by
    have := tower_bounds inside
    omega

theorem tower_sub (nonzero : block ≠ 0) : Sub compactConfig height (tower height block) := by
  induction height generalizing block with
  | zero =>
    exact ⟨nonzero, show compactConfig.minKeyCount true ≤ 2 by decide,
      show 2 ≤ compactConfig.keyCount true by decide⟩
  | succ height ih =>
    refine ⟨nonzero, show compactConfig.minKeyCount false < 2 by decide,
      show 2 ≤ compactConfig.keyCount false + 1 by decide, ?_⟩
    intro child inside
    simp only [mem_cons, not_mem_nil, or_false] at inside
    rcases inside with rfl | rfl
    · exact ih (by omega)
    · exact ih (by omega)

theorem blockTreeWalk_tower (key : Nat) (keyIsMax : Bool) :
    blockTreeWalk ⟨(tower blockTreeMaxDepth 1).embed compactConfig, none⟩ key keyIsMax = none :=
  blockTreeWalk_too_deep key keyIsMax (tower_sub Nat.one_ne_zero).root.sound le_rfl

end Tower

/-- Of two entries with the key a walk ends at the first, and in a tree of ten
levels it asserts. -/
theorem walk_ends_before_last :
    (∃ levels tree leaves key path last, ValidTree compactConfig levels tree leaves ∧
      blockTreeWalk ⟨tree, none⟩ key true = some path ∧ leaves.flatten.getLast? = some last ∧
      last.1 ≤ key ∧ path.data ≠ .data last.2) ∧
    ∃ levels tree leaves, ValidTree compactConfig levels tree leaves ∧
      ∀ key keyIsMax, blockTreeWalk ⟨tree, none⟩ key keyIsMax = none := by
  constructor
  · have sound : (BTree.leaf 1 [(5, 1), (5, 2)]).Sound compactConfig 0 := ⟨by decide, by decide⟩
    have ordered : Ordered (BTree.leaf 1 [(5, 1), (5, 2)]).entries :=
      ⟨by decide, by decide, by decide⟩
    exact ⟨_, _, _, 5, _, (5, 2), ValidTree.tree sound ordered, rfl, rfl, by decide,
      show Tree.data 1 ≠ Tree.data 2 by simp⟩
  · exact ⟨_, _, _, ValidTree.tree (tower_sub Nat.one_ne_zero).root.sound (tower_ordered _ 1),
      blockTreeWalk_tower⟩

end Trusty.Storage
