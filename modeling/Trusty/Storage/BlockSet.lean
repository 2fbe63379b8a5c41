import Trusty.Lib.Ranges
import Trusty.Storage.BlockTreeLookup
import Trusty.Storage.Device

/-!
Block sets: `block_range.h` and the queries of `block_set.c`.

A set keeps its ranges in a tree, with the start of a range as key and its end
as data.  The set of a new file system has an empty tree and its one range in
`initial_range`.  Nothing stands for a failed assertion, and 0 for no block.
-/

namespace Trusty.Storage

open Lib BTree

/-! ### Ranges -/

def blockRangeClear : BlockRange := ⟨0, 0⟩

def blockRangeEmpty (range : BlockRange) : Option Bool :=
  if range.start ≤ range.stop then some (range.start = range.stop) else none

def blockInRange (range : BlockRange) (block : Nat) : Option Bool :=
  if range.start ≤ range.stop then some (range.start ≤ block ∧ block < range.stop) else none

def blockRangeOverlap (a b : BlockRange) : Option Bool := do
  if ← blockInRange a b.start then pure true else blockInRange b a.start

def blockRangeIsSubRange (range subRange : BlockRange) : Option Bool := do
  if ← blockRangeEmpty subRange then none
  else if ← blockInRange range subRange.start then blockInRange range (subRange.stop - 1)
  else pure false

def blockRangeInitFromPath (path : Path) : Option BlockRange :=
  if path.entries = [] then some blockRangeClear
  else if (path.data.toBlock = 0) = (blockTreePathGetKey path = 0) then
    some ⟨blockTreePathGetKey path, path.data.toBlock⟩
  else none

/-! ### Queries -/

/-- `struct block_set`, between updates of the tree. -/
structure BlockSet where
  root : Tree
  initialRange : BlockRange
  updating : Bool

section

variable (set : BlockSet)

/-- The range that `block_set_find_next_block` looks at: the one that contains
`minBlock`, or the first one behind it. -/
def rangeFrom (minBlock : Nat) : Option BlockRange := do
  let path ← blockTreeWalk ⟨set.root, none⟩ minBlock true
  let range ← blockRangeInitFromPath path
  let range ←
    if (← blockRangeEmpty range) = false ∧ range.stop ≤ minBlock then do
      let path ← blockTreePathNext none path
      blockRangeInitFromPath path
    else pure range
  if ← blockRangeEmpty range then
    pure (if set.initialRange.stop ≤ minBlock then blockRangeClear else set.initialRange)
  else pure range

def blockSetFindNextBlock (minBlock : Nat) (inSet : Bool) : Option Nat := do
  let range ← rangeFrom set minBlock
  let empty ← blockRangeEmpty range
  if empty = true ∧ range.start ≠ 0 then none
  else if (← blockInRange range minBlock) = inSet then pure minBlock
  else if inSet then pure range.start
  else if empty then none
  else pure range.stop

def blockSetFindNextRange (minBlock : Nat) : Option BlockRange := do
  let start ← blockSetFindNextBlock set minBlock true
  if start ≠ 0 then pure ⟨start, ← blockSetFindNextBlock set start false⟩ else pure ⟨start, 0⟩

def blockSetBlockInSet (block : Nat) : Option Bool := do
  pure ((← blockSetFindNextBlock set block true) == block)

def blockSetRangeInSet (range : BlockRange) : Option Bool := do
  if (← blockSetFindNextBlock set range.start true) = range.start then
    pure (range.stop ≤ (← blockSetFindNextBlock set range.start false))
  else pure false

def blockSetRangeNotInSet (range : BlockRange) : Option Bool := do
  let block ← blockSetFindNextBlock set range.start true
  pure (block = 0 ∨ range.stop ≤ block)

end

/-! ### Valid sets -/

/-- A set of the blocks of `ranges`, in a tree of `levels` levels or in the
initial range. -/
inductive ValidSet (config : TreeConfig) : Nat → BlockSet → List (Nat × Nat) → Prop where
  | tree {levels : Nat} {set : BlockSet} {leaves : List (List (Nat × Nat))}
      (valid : ValidTree config levels set.root leaves) (canonical : Canonical leaves.flatten)
      (noInitial : set.initialRange = blockRangeClear) : ValidSet config levels set leaves.flatten
  | initial {set : BlockSet} (noTree : set.root = .nil) (positive : 0 < set.initialRange.start)
      (some : set.initialRange.start < set.initialRange.stop) :
      ValidSet config 0 set [(set.initialRange.start, set.initialRange.stop)]

section Ranges

variable {range : BlockRange} {block : Nat}

@[simp]
theorem blockRangeEmpty_clear : blockRangeEmpty blockRangeClear = some true := rfl

theorem blockRangeEmpty_of_lt (some : range.start < range.stop) :
    blockRangeEmpty range = .some false := by
  simp [blockRangeEmpty, some.le, some.ne]

theorem blockInRange_of_le (ordered : range.start ≤ range.stop) :
    blockInRange range block = some (decide (range.start ≤ block ∧ block < range.stop)) :=
  if_pos ordered

variable {path : Path} {entry : Nat × Nat} {rest : List (Nat × Nat)}

section

variable (visits : Visits none path (entry :: rest)) (keyNonzero : entry.1 ≠ 0)

include visits keyNonzero

theorem Visits.entries_ne_nil : path.entries ≠ [] := by
  intro none
  cases visits with
  | entry key _ _ _ =>
    rw [blockTreePathGetKey, none] at key
    exact keyNonzero key.symm

theorem blockRangeInitFromPath_entry (dataNonzero : entry.2 ≠ 0) :
    blockRangeInitFromPath path = some ⟨entry.1, entry.2⟩ := by
  have counted := visits.entries_ne_nil keyNonzero
  cases visits with
  | entry key data _ _ =>
    simp [blockRangeInitFromPath, counted, key, data, Tree.toBlock, keyNonzero, dataNonzero]

end

theorem blockRangeInitFromPath_finished (visits : Visits none path []) :
    blockRangeInitFromPath path = some blockRangeClear := by
  cases visits with
  | finished key data =>
    rw [blockRangeInitFromPath]
    simp [key, data, Tree.toBlock, blockRangeClear]

end Ranges

section Queries

variable {config : TreeConfig} {levels : Nat} {set : BlockSet} {ranges : List (Nat × Nat)}

/-- The range that a search from `minBlock` on looks at. -/
def FoundFrom (ranges : List (Nat × Nat)) (minBlock : Nat) (range : BlockRange) : Prop :=
  (range = blockRangeClear ∧ ∀ other ∈ ranges, other.2 ≤ minBlock) ∨
    ∃ front back, ranges = front ++ (range.start, range.stop) :: back ∧
      (∀ other ∈ front, other.2 ≤ minBlock) ∧ minBlock < range.stop

theorem ValidSet.canonical (valid : ValidSet config levels set ranges) :
    Canonical ranges ∧ ∀ range ∈ ranges, range.1 ≠ 0 := by
  cases valid with
  | tree valid canonical _ => exact ⟨canonical, valid.ordered.key_ne_zero⟩
  | initial _ positive some =>
    refine ⟨canonical_cons.mpr ⟨some, canonical_nil, by simp⟩, ?_⟩
    exact List.forall_mem_singleton.mpr (Nat.ne_of_gt positive)

theorem ValidSet.member_ne_zero (valid : ValidSet config levels set ranges) {member : Nat}
    (inside : member ∈ points ranges) : member ≠ 0 := by
  obtain ⟨range, inRanges, low, _⟩ := inside
  have := valid.canonical.2 range inRanges
  omega

theorem rangeFrom_initial (minBlock : Nat) (noTree : set.root = .nil) :
    rangeFrom set minBlock =
      some (if set.initialRange.stop ≤ minBlock then blockRangeClear else set.initialRange) := by
  simp [rangeFrom, noTree, blockTreeWalk, Tree.toBlock, blockRangeInitFromPath]

theorem rangeFrom_found (valid : ValidSet config levels set ranges)
    (shallow : levels ≤ blockTreeMaxDepth) (minBlock : Nat) :
    ∃ range, rangeFrom set minBlock = some range ∧ FoundFrom ranges minBlock range := by
  cases valid with
  | initial noTree positive some =>
    refine ⟨_, rangeFrom_initial minBlock noTree, ?_⟩
    by_cases passed : set.initialRange.stop ≤ minBlock
    · rw [if_pos passed]
      exact .inl ⟨rfl, by simpa using passed⟩
    · rw [if_neg passed]
      exact .inr ⟨[], [], rfl, by simp, Nat.lt_of_not_le passed⟩
  | tree valid canonical noInitial =>
    obtain ⟨path, skipped, remaining, walked, cut, visits, nearest⟩ :=
      valid.walk_nearest shallow minBlock
    have nonzero := valid.ordered
    rw [cut] at canonical nonzero ⊢
    have last := nearest.lastUpTo canonical.starts_lt
    cases remaining with
    | nil =>
      have start := blockRangeInitFromPath_finished visits
      refine ⟨blockRangeClear, ?_, .inl ⟨rfl, ?_⟩⟩
      · simp [rangeFrom, walked, start, noInitial]
      by_contra some
      obtain ⟨first, more, contra, _⟩ := last.head_le (by
        rintro rfl
        simp at some)
      cases contra
    | cons entry rest =>
      obtain ⟨_, canonicalRest, behindSkipped⟩ := canonical_append.mp canonical
      obtain ⟨some, _, _⟩ := canonical_cons.mp canonicalRest
      have keyNonzero : entry.1 ≠ 0 := nonzero.key_ne_zero entry (by simp)
      have here := blockRangeInitFromPath_entry visits keyNonzero (by omega)
      have hereSome : blockRangeEmpty ⟨entry.1, entry.2⟩ = .some false := blockRangeEmpty_of_lt some
      by_cases passed : entry.2 ≤ minBlock
      · -- the range ends before the block, and the next one is looked at
        have skippedPassed : ∀ other ∈ skipped ++ [entry], other.2 ≤ minBlock := by
          refine List.forall_mem_append.mpr
            ⟨fun other inSkipped => ?_, List.forall_mem_singleton.mpr passed⟩
          have := behindSkipped other inSkipped entry List.mem_cons_self
          omega
        cases visits with
        | entry _ _ moved visitsRest =>
          cases rest with
          | nil =>
            have next := blockRangeInitFromPath_finished visitsRest
            refine ⟨blockRangeClear, ?_, .inl ⟨rfl, skippedPassed⟩⟩
            simp [rangeFrom, walked, here, hereSome, passed, moved, next, noInitial]
          | cons second more =>
            obtain ⟨_, canonicalMore, _⟩ := canonical_cons.mp canonicalRest
            have secondSome := (canonical_cons.mp canonicalMore).1
            have secondNonzero : second.1 ≠ 0 := nonzero.key_ne_zero second (by simp)
            have next := blockRangeInitFromPath_entry visitsRest secondNonzero (by omega)
            have nextSome : blockRangeEmpty ⟨second.1, second.2⟩ = .some false :=
              blockRangeEmpty_of_lt secondSome
            have above := last.tail_gt second List.mem_cons_self
            refine ⟨⟨second.1, second.2⟩, ?_,
              .inr ⟨skipped ++ [entry], more, by simp, skippedPassed, above.trans secondSome⟩⟩
            simp [rangeFrom, walked, here, hereSome, passed, moved, next, nextSome]
      · refine ⟨⟨entry.1, entry.2⟩, ?_, .inr ⟨skipped, rest, rfl, ?_, Nat.lt_of_not_le passed⟩⟩
        · simp [rangeFrom, walked, here, hereSome, passed]
        intro other inSkipped
        obtain ⟨first, more, same, low⟩ := last.head_le (List.ne_nil_of_mem inSkipped)
        rw [List.cons.injEq] at same
        have := behindSkipped other inSkipped entry List.mem_cons_self
        rw [← same.1] at low
        omega

variable (valid : ValidSet config levels set ranges) (shallow : levels ≤ blockTreeMaxDepth)

include valid shallow

theorem findNextBlock_member (minBlock : Nat) :
    ∃ block, blockSetFindNextBlock set minBlock true = some block ∧
      ((block = 0 ∧ ∀ member ∈ points ranges, member < minBlock) ∨
        IsLeast {member | member ∈ points ranges ∧ minBlock ≤ member} block) := by
  obtain ⟨range, found, place⟩ := rangeFrom_found valid shallow minBlock
  obtain ⟨canonical, nonzero⟩ := valid.canonical
  rcases place with ⟨rfl, passed⟩ | ⟨front, back, rfl, passed, reaches⟩
  · refine ⟨0, ?_, .inl ⟨rfl, fun member inside => lt_of_mem_points_of_le inside passed⟩⟩
    simp [blockSetFindNextBlock, found, blockRangeClear, blockRangeEmpty, blockInRange]
  have some : range.start < range.stop := canonical.nonempty (range.start, range.stop) (by simp)
  have least := canonical.isLeast_point passed reaches
  by_cases inside : range.start ≤ minBlock
  · rw [max_eq_left inside] at least
    refine ⟨minBlock, ?_, .inr least⟩
    simp [blockSetFindNextBlock, found, blockRangeEmpty_of_lt some,
      blockInRange_of_le some.le, inside, reaches]
  · rw [max_eq_right (Nat.le_of_not_le inside)] at least
    refine ⟨range.start, ?_, .inr least⟩
    simp [blockSetFindNextBlock, found, blockRangeEmpty_of_lt some,
      blockInRange_of_le some.le, inside]

theorem findNextBlock_gap (minBlock : Nat) :
    ∃ block, blockSetFindNextBlock set minBlock false = some block ∧
      IsLeast {other | other ∉ points ranges ∧ minBlock ≤ other} block := by
  obtain ⟨range, found, place⟩ := rangeFrom_found valid shallow minBlock
  obtain ⟨canonical, nonzero⟩ := valid.canonical
  rcases place with ⟨rfl, passed⟩ | ⟨front, back, rfl, passed, reaches⟩
  · refine ⟨minBlock, ?_, ⟨fun inside => ?_, Nat.le_refl _⟩, fun other above => above.2⟩
    · simp [blockSetFindNextBlock, found, blockRangeClear, blockRangeEmpty, blockInRange]
    · exact Nat.lt_irrefl _ (lt_of_mem_points_of_le inside passed)
  have some : range.start < range.stop := canonical.nonempty (range.start, range.stop) (by simp)
  by_cases inside : range.start ≤ minBlock
  · refine ⟨range.stop, ?_, canonical.isLeast_gap passed ⟨inside, reaches⟩⟩
    simp [blockSetFindNextBlock, found, blockRangeEmpty_of_lt some,
      blockInRange_of_le some.le, inside, reaches]
  · have missing := canonical.notMem_of_lt passed (Nat.lt_of_not_le inside)
    refine ⟨minBlock, ?_, ⟨missing, Nat.le_refl _⟩, fun other above => above.2⟩
    simp [blockSetFindNextBlock, found, blockRangeEmpty_of_lt some,
      blockInRange_of_le some.le, inside]

theorem findNextRange_run (minBlock : Nat) :
    ∃ range, blockSetFindNextRange set minBlock = some range ∧
      ((range = blockRangeClear ∧ ∀ member ∈ points ranges, member < minBlock) ∨
        IsLeast {member | member ∈ points ranges ∧ minBlock ≤ member} range.start ∧
          IsLeast {other | other ∉ points ranges ∧ range.start ≤ other} range.stop) := by
  obtain ⟨start, foundStart, ⟨rfl, none⟩ | leastStart⟩ :=
    findNextBlock_member valid shallow minBlock
  · refine ⟨blockRangeClear, ?_, .inl ⟨rfl, none⟩⟩
    simp [blockSetFindNextRange, foundStart, blockRangeClear]
  obtain ⟨stop, foundStop, leastStop⟩ := findNextBlock_gap valid shallow start
  refine ⟨⟨start, stop⟩, ?_, .inr ⟨leastStart, leastStop⟩⟩
  have nonzero := valid.member_ne_zero leastStart.1.1
  simp [blockSetFindNextRange, foundStart, foundStop, nonzero]

theorem blockInSet_iff {block : Nat} (positive : 1 ≤ block) :
    ∃ answer, blockSetBlockInSet set block = some answer ∧
    (answer = true ↔ block ∈ points ranges) := by
  obtain ⟨member, found, place⟩ := findNextBlock_member valid shallow block
  refine ⟨member == block, by simp [blockSetBlockInSet, found], beq_iff_eq.trans ?_⟩
  rcases place with ⟨rfl, none⟩ | least
  · exact iff_of_false (Nat.ne_of_lt positive) fun inside => Nat.lt_irrefl _ (none block inside)
  · refine ⟨fun same => same ▸ least.1.1, fun inside => ?_⟩
    exact Nat.le_antisymm (least.2 ⟨inside, Nat.le_refl _⟩) least.1.2

theorem rangeInSet_iff {range : BlockRange} (some : range.start < range.stop) :
    ∃ answer, blockSetRangeInSet set range = .some answer ∧
      (answer = true ↔ Set.Ico range.start range.stop ⊆ points ranges) := by
  obtain ⟨member, foundMember, place⟩ := findNextBlock_member valid shallow range.start
  obtain ⟨gap, foundGap, leastGap⟩ := findNextBlock_gap valid shallow range.start
  by_cases startIn : range.start ∈ points ranges
  · have here : member = range.start := by
      rcases place with ⟨_, none⟩ | least
      · exact absurd (none _ startIn) (Nat.lt_irrefl _)
      · exact Nat.le_antisymm (least.2 ⟨startIn, Nat.le_refl _⟩) least.1.2
    refine ⟨decide (range.stop ≤ gap), ?_, ?_⟩
    · simp [blockSetRangeInSet, foundMember, foundGap, here]
    rw [decide_eq_true_iff]
    constructor
    · intro reaches block inside
      by_contra missing
      have := leastGap.2 ⟨missing, inside.1⟩
      have := inside.2
      omega
    · intro covered
      by_contra early
      exact leastGap.1.1 (covered ⟨leastGap.1.2, Nat.lt_of_not_le early⟩)
  · refine ⟨false, ?_, ?_⟩
    · rcases place with ⟨rfl, none⟩ | least
      · -- the search found nothing, and its 0 can only agree with a range from 0 on
        by_cases zero : range.start = 0
        · have early : ¬ range.stop ≤ gap := by
            have := leastGap.2 ⟨startIn, Nat.le_refl _⟩
            omega
          rw [zero] at foundMember foundGap
          simp [blockSetRangeInSet, zero, foundMember, foundGap, early]
        · simp [blockSetRangeInSet, foundMember, Ne.symm zero]
      · have differs : member ≠ range.start := fun same => startIn (same ▸ least.1.1)
        simp [blockSetRangeInSet, foundMember, differs]
    · simp only [Bool.false_eq_true, false_iff]
      exact fun covered => startIn (covered ⟨Nat.le_refl _, some⟩)

theorem rangeNotInSet_iff (range : BlockRange) :
    ∃ answer, blockSetRangeNotInSet set range = some answer ∧
      (answer = true ↔ Disjoint (Set.Ico range.start range.stop) (points ranges)) := by
  obtain ⟨member, foundMember, place⟩ := findNextBlock_member valid shallow range.start
  refine ⟨decide (member = 0 ∨ range.stop ≤ member), ?_, ?_⟩
  · simp [blockSetRangeNotInSet, foundMember]
  rw [decide_eq_true_iff, Set.disjoint_left]
  rcases place with ⟨rfl, none⟩ | least
  · simp only [true_or, true_iff]
    intro block inside isMember
    have := none block isMember
    have := inside.1
    omega
  have nonzero := valid.member_ne_zero least.1.1
  simp only [nonzero, false_or]
  constructor
  · intro behind block inside isMember
    have := least.2 ⟨isMember, inside.1⟩
    have := inside.2
    omega
  · intro disjoint
    by_contra early
    exact disjoint ⟨least.1.2, Nat.lt_of_not_le early⟩ least.1.1

/-- In every set whose tree is not too deep, the queries give the least member,
the least block that is not a member and the first run of members from a block
on, and tell whether a block is a member, or all or none of the blocks of a range. -/
theorem blockSet_queries :
    (∀ minBlock, 1 ≤ minBlock →
      (∃ block, blockSetFindNextBlock set minBlock true = some block ∧
        ((block = 0 ∧ ∀ member ∈ points ranges, member < minBlock) ∨
          IsLeast {member | member ∈ points ranges ∧ minBlock ≤ member} block)) ∧
      (∃ block, blockSetFindNextBlock set minBlock false = some block ∧
        IsLeast {other | other ∉ points ranges ∧ minBlock ≤ other} block) ∧
      (∃ range, blockSetFindNextRange set minBlock = some range ∧
        ((range = blockRangeClear ∧ ∀ member ∈ points ranges, member < minBlock) ∨
          IsLeast {member | member ∈ points ranges ∧ minBlock ≤ member} range.start ∧
            IsLeast {other | other ∉ points ranges ∧ range.start ≤ other} range.stop)) ∧
      ∃ answer, blockSetBlockInSet set minBlock = some answer ∧
        (answer = true ↔ minBlock ∈ points ranges)) ∧
    ∀ range : BlockRange, range.start < range.stop →
      (∃ answer, blockSetRangeInSet set range = some answer ∧
        (answer = true ↔ Set.Ico range.start range.stop ⊆ points ranges)) ∧
      ∃ answer, blockSetRangeNotInSet set range = some answer ∧
        (answer = true ↔ Disjoint (Set.Ico range.start range.stop) (points ranges)) := by
  refine ⟨fun minBlock positive => ⟨?_, ?_, ?_, ?_⟩, fun range some => ⟨?_, ?_⟩⟩
  · exact findNextBlock_member valid shallow minBlock
  · exact findNextBlock_gap valid shallow minBlock
  · exact findNextRange_run valid shallow minBlock
  · exact blockInSet_iff valid shallow positive
  · exact rangeInSet_iff valid shallow some
  · exact rangeNotInSet_iff valid shallow range

end Queries

section Tower

def towerSet (height : Nat) : BlockSet :=
  ⟨(tower height 1).embed compactConfig, blockRangeClear, false⟩

theorem tower_canonical (height block : Nat) : Canonical (tower height block).entries where
  nonempty _ inside := (tower_bounds inside).2.1
  apart := tower_apart height block

theorem towerSet_valid (height : Nat) :
    ValidSet compactConfig (height + 1) (towerSet height) (tower height 1).entries := by
  have valid : ValidTree compactConfig (height + 1) (towerSet height).root
      (tower height 1).leaves :=
    ValidTree.tree (tower_sub Nat.one_ne_zero).root.sound (tower_ordered height 1)
  rw [← flatten_leaves]
  apply ValidSet.tree valid
  · rw [flatten_leaves]
    exact tower_canonical height 1
  · rfl

/-- A query of the ranges 9, 11, 13 and 15. -/
theorem blockSet_queries_tower :
    ∃ range, blockSetFindNextRange (towerSet 1) 12 = some range ∧
      ((range = blockRangeClear ∧ ∀ member ∈ points (tower 1 1).entries, member < 12) ∨
        IsLeast {member | member ∈ points (tower 1 1).entries ∧ 12 ≤ member} range.start ∧
          IsLeast {other | other ∉ points (tower 1 1).entries ∧ range.start ≤ other} range.stop) :=
  ((blockSet_queries (towerSet_valid 1) (by decide)).1 12 (by decide)).2.2.1

/-- In a tree of ten levels every query asserts. -/
theorem blockSet_query_aborts :
    ∃ levels set ranges, ValidSet compactConfig levels set ranges ∧
      (∀ minBlock inSet, blockSetFindNextBlock set minBlock inSet = none) ∧
      (∀ minBlock, blockSetFindNextRange set minBlock = none) ∧
      ∀ range, blockSetRangeInSet set range = none ∧ blockSetRangeNotInSet set range = none := by
  have walks : ∀ minBlock inSet, blockSetFindNextBlock (towerSet blockTreeMaxDepth) minBlock
      inSet = none := by
    intro minBlock inSet
    have walk : blockTreeWalk ⟨(towerSet blockTreeMaxDepth).root, none⟩ minBlock true = none :=
      blockTreeWalk_tower minBlock true
    simp [blockSetFindNextBlock, rangeFrom, walk]
  refine ⟨_, towerSet blockTreeMaxDepth, _, towerSet_valid blockTreeMaxDepth, walks, ?_, ?_⟩
  · intro minBlock
    simp [blockSetFindNextRange, walks]
  · intro range
    simp [blockSetRangeInSet, blockSetRangeNotInSet, walks]

end Tower

end Trusty.Storage
