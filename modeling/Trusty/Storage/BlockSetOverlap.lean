import Mathlib.Algebra.Order.BigOperators.Group.List
import Trusty.Storage.BlockSet

/-!
The test for a common block of two block sets.

`block_set_overlap` looks for the next run of one set from the start of the
current run of the other.  Up to that start the sets have no common block, and
each round moves it on, so the search ends.
-/

namespace Trusty.Storage

open Lib

/-! ### The search -/

inductive OverlapResult where
  | outOfFuel
  | assertFailed
  | overlap (answer : Bool)
deriving DecidableEq

/-- The body of the loop of `block_set_overlap`: an answer, or the next range of
the second set. -/
def overlapRound (setA setB : BlockSet) (rangeB : BlockRange) : Option (Bool ⊕ BlockRange) := do
  let rangeA ← blockSetFindNextRange setA rangeB.start
  if ← blockRangeEmpty rangeA then pure (.inl false)
  else if ← blockInRange rangeB rangeA.start then pure (.inl true)
  else if rangeA.start < rangeB.start then none
  else
    let rangeB ← blockSetFindNextRange setB rangeA.start
    if ← blockRangeEmpty rangeB then pure (.inl false)
    else if ← blockInRange rangeA rangeB.start then pure (.inl true)
    else if rangeB.start ≤ rangeA.start then none
    else pure (.inr rangeB)

def overlapLoop (setA setB : BlockSet) : Nat → BlockRange → OverlapResult
  | 0, _ => .outOfFuel
  | fuel + 1, rangeB =>
    match overlapRound setA setB rangeB with
    | none => .assertFailed
    | some (.inl answer) => .overlap answer
    | some (.inr rangeB) => overlapLoop setA setB fuel rangeB

def blockSetOverlap (fuel : Nat) (setA setB : BlockSet) : OverlapResult :=
  overlapLoop setA setB fuel blockRangeClear

/-! ### Rounds -/

/-- A run of members that begins with the first one from a block on. -/
structure NextRun (members : Set Nat) (minBlock : Nat) (range : BlockRange) : Prop where
  nonempty : range.start < range.stop
  inside : Set.Ico range.start range.stop ⊆ members
  from_block : minBlock ≤ range.start
  first : ∀ member ∈ members, minBlock ≤ member → range.start ≤ member

theorem NextRun.start_mem {members : Set Nat} {minBlock : Nat} {range : BlockRange}
    (run : NextRun members minBlock range) : range.start ∈ members :=
  run.inside ⟨Nat.le_refl _, run.nonempty⟩

theorem findNextRange_nextRun {config : TreeConfig} {levels : Nat} {set : BlockSet}
    {ranges : List (Nat × Nat)} (valid : ValidSet config levels set ranges)
    (shallow : levels ≤ blockTreeMaxDepth) (minBlock : Nat) :
    (blockSetFindNextRange set minBlock = some blockRangeClear ∧
        ∀ member ∈ points ranges, member < minBlock) ∨
      ∃ range, blockSetFindNextRange set minBlock = some range ∧
      NextRun (points ranges) minBlock range := by
  obtain ⟨range, found, ⟨rfl, none⟩ | ⟨start, stop⟩⟩ := findNextRange_run valid shallow minBlock
  · exact .inl ⟨found, none⟩
  refine .inr ⟨range, found, ?_, ?_, start.1.2, fun member isMember above =>
    start.2 ⟨isMember, above⟩⟩
  · exact Nat.lt_of_le_of_ne stop.1.2 fun same => stop.1.1 (same ▸ start.1.1)
  · intro block inside
    by_contra missing
    exact Nat.not_le.mpr inside.2 (stop.2 ⟨missing, inside.1⟩)

/-- The sets have no common block before the range, which is part of the second
set. -/
structure SearchedUpTo (membersA membersB : Set Nat) (rangeB : BlockRange) : Prop where
  ordered : rangeB.start ≤ rangeB.stop
  inside : Set.Ico rangeB.start rangeB.stop ⊆ membersB
  behind : ∀ block ∈ membersA ∩ membersB, rangeB.start ≤ block

/-- What a round can find. -/
def RoundFinds (membersA membersB : Set Nat) (rangeB : BlockRange) : Bool ⊕ BlockRange → Prop
  | .inl answer => answer = true ↔ (membersA ∩ membersB).Nonempty
  | .inr next =>
    SearchedUpTo membersA membersB next ∧ rangeB.start < next.start ∧ next.start ∈ membersB

section Rounds

variable {configA configB : TreeConfig} {levelsA levelsB : Nat} {setA setB : BlockSet}
variable {rangesA rangesB : List (Nat × Nat)}
variable (validA : ValidSet configA levelsA setA rangesA) (shallowA : levelsA ≤ blockTreeMaxDepth)
  (validB : ValidSet configB levelsB setB rangesB) (shallowB : levelsB ≤ blockTreeMaxDepth)

theorem no_common {membersA membersB : Set Nat} {minBlock : Nat}
    (behind : ∀ block ∈ membersA ∩ membersB, minBlock ≤ block)
    (none : (∀ member ∈ membersA, member < minBlock) ∨ ∀ member ∈ membersB, member < minBlock) :
    false = true ↔ (membersA ∩ membersB).Nonempty := by
  simp only [Bool.false_eq_true, false_iff, Set.not_nonempty_iff_eq_empty]
  refine Set.eq_empty_iff_forall_notMem.mpr fun block common => ?_
  have := behind block common
  rcases none with none | none
  · exact Nat.not_le.mpr (none block common.1) this
  · exact Nat.not_le.mpr (none block common.2) this

include validA shallowA validB shallowB

variable {rangeB : BlockRange}

theorem overlapRound_finds (searched : SearchedUpTo (points rangesA) (points rangesB) rangeB) :
    ∃ outcome, overlapRound setA setB rangeB = some outcome ∧
      RoundFinds (points rangesA) (points rangesB) rangeB outcome := by
  rcases findNextRange_nextRun validA shallowA rangeB.start with
    ⟨found, none⟩ | ⟨rangeA, found, runA⟩
  · refine ⟨.inl false, ?_, no_common searched.behind (.inl none)⟩
    simp [overlapRound, found]
  have emptyA := blockRangeEmpty_of_lt runA.nonempty
  by_cases startIn : rangeA.start ∈ Set.Ico rangeB.start rangeB.stop
  · refine ⟨.inl true, ?_, iff_of_true rfl ⟨rangeA.start, runA.start_mem, searched.inside startIn⟩⟩
    simp [overlapRound, found, emptyA, blockInRange_of_le searched.ordered, startIn.1, startIn.2]
  have outside : ¬ rangeA.start < rangeB.stop := fun before => startIn ⟨runA.from_block, before⟩
  have behind : ∀ block ∈ points rangesA ∩ points rangesB, rangeA.start ≤ block :=
    fun block common => runA.first block common.1 (searched.behind block common)
  rcases findNextRange_nextRun validB shallowB rangeA.start with
    ⟨foundB, none⟩ | ⟨next, foundB, runB⟩
  · refine ⟨.inl false, ?_, no_common behind (.inr none)⟩
    simp [overlapRound, found, emptyA, blockInRange_of_le searched.ordered, outside,
      Nat.not_lt.mpr runA.from_block, foundB]
  have emptyB := blockRangeEmpty_of_lt runB.nonempty
  by_cases nextIn : next.start ∈ Set.Ico rangeA.start rangeA.stop
  · refine ⟨.inl true, ?_, iff_of_true rfl ⟨next.start, runA.inside nextIn, runB.start_mem⟩⟩
    simp [overlapRound, found, emptyA, blockInRange_of_le searched.ordered, outside,
      Nat.not_lt.mpr runA.from_block, foundB, emptyB, blockInRange_of_le runA.nonempty.le,
      nextIn.1, nextIn.2]
  have past : ¬ next.start < rangeA.stop := fun before => nextIn ⟨runB.from_block, before⟩
  have later : rangeA.start < next.start := runA.nonempty.trans_le (Nat.not_lt.mp past)
  refine ⟨.inr next, ?_, ⟨runB.nonempty.le, runB.inside, ?_⟩, runA.from_block.trans_lt later,
    runB.start_mem⟩
  · simp [overlapRound, found, emptyA, blockInRange_of_le searched.ordered, outside,
      Nat.not_lt.mpr runA.from_block, foundB, emptyB, blockInRange_of_le runA.nonempty.le, past,
      Nat.not_le.mpr later]
  · exact fun block common => runB.first block common.2 (behind block common)

theorem overlapLoop_answers {bound fuel : Nat} (bounded : ∀ member ∈ points rangesB, member < bound)
    (searched : SearchedUpTo (points rangesA) (points rangesB) rangeB) (low : rangeB.start ≤ bound)
    (enough : bound < rangeB.start + fuel) :
    ∃ answer, overlapLoop setA setB fuel rangeB = .overlap answer ∧
      (answer = true ↔ (points rangesA ∩ points rangesB).Nonempty) := by
  -- each round but the last moves the range to a later member of the second set
  induction fuel generalizing rangeB with
  | zero => omega
  | succ fuel ih =>
    obtain ⟨outcome, round, finds⟩ := overlapRound_finds validA shallowA validB shallowB searched
    cases outcome with
    | inl answer =>
      refine ⟨answer, ?_, finds⟩
      simp only [overlapLoop, round]
    | inr next =>
      obtain ⟨nextSearched, later, isMember⟩ := finds
      obtain ⟨answer, looped, iff⟩ :=
        ih nextSearched (bounded next.start isMember).le (by omega)
      refine ⟨answer, ?_, iff⟩
      simp only [overlapLoop, round, looped]

theorem blockSetOverlap_answers :
    ∃ bound, ∀ fuel, bound ≤ fuel → ∃ answer, blockSetOverlap fuel setA setB = .overlap answer ∧
      (answer = true ↔ (points rangesA ∩ points rangesB).Nonempty) := by
  have bounded : ∀ member ∈ points rangesB, member < (rangesB.map Prod.snd).sum :=
    fun member inside => lt_of_mem_points_of_le inside fun range inRanges =>
      List.le_sum_of_mem (List.mem_map_of_mem inRanges)
  refine ⟨(rangesB.map Prod.snd).sum + 1, fun fuel enough => ?_⟩
  have searched : SearchedUpTo (points rangesA) (points rangesB) blockRangeClear :=
    ⟨Nat.le_refl _, by simp [blockRangeClear], fun _ _ => Nat.zero_le _⟩
  apply overlapLoop_answers validA shallowA validB shallowB bounded searched (Nat.zero_le _)
  change _ < 0 + fuel
  omega

/-- For any two sets whose trees are not too deep the search ends, tells whether
there is a common block, and does not depend on the order of the sets. -/
theorem blockSet_overlap :
    ∃ answer bound, (answer = true ↔ ∃ block, block ∈ points rangesA ∧ block ∈ points rangesB) ∧
      ∀ fuel, bound ≤ fuel → blockSetOverlap fuel setA setB = .overlap answer ∧
        blockSetOverlap fuel setB setA = .overlap answer := by
  obtain ⟨boundA, answersA⟩ := blockSetOverlap_answers validA shallowA validB shallowB
  obtain ⟨boundB, answersB⟩ := blockSetOverlap_answers validB shallowB validA shallowA
  classical
  refine ⟨decide (points rangesA ∩ points rangesB).Nonempty, max boundA boundB, ?_, ?_⟩
  · rw [decide_eq_true_iff]
    exact Iff.rfl
  intro fuel enough
  obtain ⟨answer, answered, iff⟩ := answersA fuel ((le_max_left _ _).trans enough)
  obtain ⟨swapped, answeredSwapped, iffSwapped⟩ := answersB fuel ((le_max_right _ _).trans enough)
  rw [Set.inter_comm] at iffSwapped
  constructor
  · rw [answered, Bool.eq_iff_iff.mpr (iff.trans decide_eq_true_iff.symm)]
  · rw [answeredSwapped, Bool.eq_iff_iff.mpr (iffSwapped.trans decide_eq_true_iff.symm)]

end Rounds

section Tower

theorem blockSet_overlap_tower :
    ∃ answer bound, (answer = true ↔
        ∃ block, block ∈ points (tower 1 1).entries ∧ block ∈ points (tower 2 1).entries) ∧
      ∀ fuel, bound ≤ fuel → blockSetOverlap fuel (towerSet 1) (towerSet 2) = .overlap answer ∧
        blockSetOverlap fuel (towerSet 2) (towerSet 1) = .overlap answer :=
  blockSet_overlap (towerSet_valid 1) (by decide) (towerSet_valid 2) (by decide)

/-- The search asserts in a tree of ten levels. -/
theorem blockSet_overlap_asserts :
    ∃ levels set ranges, ValidSet compactConfig levels set ranges ∧
      ∀ fuel answer, blockSetOverlap fuel set set ≠ .overlap answer := by
  have asserts :
      overlapRound (towerSet blockTreeMaxDepth) (towerSet blockTreeMaxDepth)
        blockRangeClear = none := by
    have walk : blockTreeWalk ⟨(towerSet blockTreeMaxDepth).root, none⟩ 0 true = none :=
      blockTreeWalk_tower 0 true
    simp [overlapRound, blockSetFindNextRange, blockSetFindNextBlock, rangeFrom,
      blockRangeClear, walk]
  refine ⟨_, towerSet blockTreeMaxDepth, _, towerSet_valid blockTreeMaxDepth, ?_⟩
  intro fuel answer
  cases fuel with
  | zero => simp [blockSetOverlap, overlapLoop]
  | succ fuel => simp [blockSetOverlap, overlapLoop, asserts]

end Tower

end Trusty.Storage
