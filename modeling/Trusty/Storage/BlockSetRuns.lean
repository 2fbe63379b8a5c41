import Trusty.Storage.BlockSetUpdate

/-!
Runs of additions to a block set and removals from it.

Whatever the calls before, the tree of the set holds the one canonical list of
ranges of the set of block numbers that the calls describe.
-/

namespace Trusty.Storage

open Lib AllocProgram BTree

inductive SetOp where
  | add (range : BlockRange)
  | remove (range : BlockRange)

def SetOp.program (config : TreeConfig) (set : BlockSet) : SetOp → TreeProgram BlockSet
  | add range => blockSetAddRange config set range
  | remove range => blockSetRemoveRange config set range

def SetOp.apply (blocks : Set Nat) : SetOp → Set Nat
  | add range => blocks ∪ Set.Ico range.start range.stop
  | remove range => blocks \ Set.Ico range.start range.stop

/-- The call is meant for the range, and no walk is longer than `BLOCK_TREE_MAX_DEPTH`.  The
trees have no key 0, and the end of an added range can be stored. -/
def SetOp.Permitted (config : TreeConfig) (set : BlockSet) : SetOp → Prop
  | add range =>
    range.start < range.stop ∧
      Disjoint (Set.Ico range.start range.stop) (points set.root.entries) ∧
      1 ≤ range.start ∧ range.stop < config.blockLimit ∧ set.root.levels ≤ blockTreeMaxDepth
  | remove range =>
    range.start < range.stop ∧ Set.Ico range.start range.stop ⊆ points set.root.entries ∧
      RemoveRoom config set.root range

/-- Calls from a set on, each with a range that it is permitted for. -/
inductive SetRun (config : TreeConfig) (first : BlockSet) : List SetOp → BlockSet → Prop where
  | start : SetRun config first [] first
  | step {ops : List SetOp} {set newSet : BlockSet} {op : SetOp} (run : SetRun config first ops set)
      (permitted : op.Permitted config set) (returned : Returns (op.program config set) newSet) :
      SetRun config first (ops ++ [op]) newSet

section Runs

variable {config : TreeConfig} {set : BlockSet} {op : SetOp} (updatable : config.Updatable)

include updatable

theorem SetOp.program_ensures (holds : HoldsRanges config set)
    (permitted : op.Permitted config set) :
    ensures (op.program config set) fun newSet => HoldsRanges config newSet ∧
      points newSet.root.entries = op.apply (points set.root.entries) := by
  cases op with
  | add range =>
    obtain ⟨some, disjoint, positive, stored, shallow⟩ := permitted
    exact blockSetAddRange_ensures holds shallow positive some disjoint updatable stored
      fun newSet newHolds same => ⟨newHolds, same⟩
  | remove range =>
    obtain ⟨some, covered, room⟩ := permitted
    exact blockSetRemoveRange_ensures holds some covered room updatable
      fun newSet newHolds same => ⟨newHolds, same⟩

theorem SetRun.holds {first : BlockSet} {ops : List SetOp} (valid : HoldsRanges config first)
    (run : SetRun config first ops set) :
    HoldsRanges config set ∧
      points set.root.entries = ops.foldl SetOp.apply (points first.root.entries) := by
  induction run with
  | start => exact ⟨valid, rfl⟩
  | step run permitted returned ih =>
    obtain ⟨holds, same⟩ := ih
    have changed := (ensures_iff.mp (SetOp.program_ensures updatable holds permitted)).2
    obtain ⟨newHolds, newSame⟩ := changed _ returned
    refine ⟨newHolds, ?_⟩
    rw [newSame, same, List.foldl_append]
    rfl

/-- After any run the tree holds the ranges of the set that the calls describe,
in the only way there is, and the next call returns and does what it is for. -/
theorem blockSet_updates {first : BlockSet} {ops : List SetOp} (valid : HoldsRanges config first)
    (run : SetRun config first ops set) :
    HoldsRanges config set ∧
      points set.root.entries = ops.foldl SetOp.apply (points first.root.entries) ∧
      (∀ ranges, Canonical ranges → points ranges = points set.root.entries →
        ranges = set.root.entries) ∧
      ∀ op : SetOp, op.Permitted config set →
        ¬ Aborts (op.program config set) ∧ (∃ newSet, Returns (op.program config set) newSet) ∧
        ∀ newSet, Returns (op.program config set) newSet → HoldsRanges config newSet ∧
          points newSet.root.entries = op.apply (points set.root.entries) := by
  obtain ⟨holds, same⟩ := run.holds updatable valid
  refine ⟨holds, same, fun ranges canonical equal => canonical.ext holds.canonical equal, ?_⟩
  intro op permitted
  obtain ⟨safe, changed⟩ := ensures_iff.mp (op.program_ensures updatable holds permitted)
  exact ⟨safe, exists_returns safe, changed⟩

end Runs

section Tower

theorem towerSet_holds {height : Nat} (small : height ≤ blockTreeMaxDepth) :
    HoldsRanges compactConfig (towerSet height) := by
  have entries : (towerSet height).root.entries = (tower height 1).entries :=
    entries_embed (tower_sub Nat.one_ne_zero).root (tower_ordered height 1)
  refine ⟨.inr ⟨height, tower height 1, (tower_sub Nat.one_ne_zero).root, tower_ordered height 1,
    rfl⟩, entries ▸ tower_canonical height 1, rfl, rfl, rfl, ?_⟩
  rw [entries]
  rintro block ⟨range, inside, _, high⟩
  have bound : 2 ^ height ≤ 2 ^ blockTreeMaxDepth := Nat.pow_le_pow_right Nat.zero_lt_two small
  have := (tower_bounds inside).2.2
  change block + 1 < 65536
  unfold blockTreeMaxDepth at bound
  omega

/-- Block 6 joins the ranges 5 and 7, and the end of the range can then be removed. -/
theorem blockSet_updates_tower :
    ∃ set, SetRun compactConfig (towerSet 0) [.add ⟨6, 7⟩] set ∧ set.root.entries = [(5, 8)] ∧
      points set.root.entries = points (towerSet 0).root.entries ∪ Set.Ico 6 7 ∧
      ¬ Aborts (blockSetRemoveRange compactConfig set ⟨7, 8⟩) := by
  have before : (towerSet 0).root.entries = [(5, 6), (7, 8)] := by decide
  have permitted : (SetOp.add ⟨6, 7⟩).Permitted compactConfig (towerSet 0) := by
    refine ⟨by decide, Set.disjoint_left.mpr ?_, by decide, by decide, by decide⟩
    rintro block ⟨low, high⟩ inside
    rw [before] at inside
    simp only [mem_points, List.mem_cons, List.not_mem_nil, or_false] at inside
    obtain ⟨range, rfl | rfl, above, below⟩ := inside <;> simp only at low high above below <;>
      omega
  have reached : (runFrom 9 ((SetOp.add ⟨6, 7⟩).program compactConfig (towerSet 0))).map
      (fun result => (result.1.root.entries, result.1.root.levels)) = some ([(5, 8)], 1) := by
    decide +kernel
  obtain ⟨⟨set, next⟩, ran, ends⟩ := Option.map_eq_some_iff.mp reached
  obtain ⟨entries, levels⟩ := Prod.mk.inj ends
  have run := SetRun.start.step permitted (runFrom_returns (by decide) ran).1
  obtain ⟨_, same, _, calls⟩ := blockSet_updates (by decide) (towerSet_holds (Nat.zero_le _)) run
  refine ⟨set, run, entries, same, (calls (.remove ⟨7, 8⟩) ⟨by decide, ?_, ?_, ?_⟩).1⟩
  · rintro block ⟨low, high⟩
    rw [entries]
    exact ⟨(5, 8), by simp, Nat.le_trans (by decide) low, high⟩
  · rw [levels]
    decide
  · rw [entries]
    intro other inside _ behind
    cases List.mem_singleton.mp inside
    exact (Nat.lt_irrefl 8 behind).elim

/-- Block 0 and the last block number cannot be added, and in a tree of ten levels nothing
can be added. -/
theorem blockSet_update_asserts :
    compactConfig.Updatable ∧
      (∃ set, HoldsRanges compactConfig set ∧ points set.root.entries = ∅ ∧
        ∀ newSet, ¬ Returns (blockSetAddRange compactConfig set ⟨0, 1⟩) newSet ∧
          ¬ Returns (blockSetAddRange compactConfig set ⟨65535, 65536⟩) newSet) ∧
      ∃ set, HoldsRanges compactConfig set ∧ Disjoint (Set.Ico 1 2) (points set.root.entries) ∧
        ∀ newSet, ¬ Returns (blockSetAddRange compactConfig set ⟨1, 2⟩) newSet := by
  refine ⟨by decide, ⟨⟨.nil, blockRangeClear, false⟩,
    ⟨.inl rfl, canonical_nil, rfl, rfl, rfl, ?_⟩, ?_, fun newSet => ⟨id, id⟩⟩,
    towerSet blockTreeMaxDepth, towerSet_holds le_rfl, Set.disjoint_left.mpr ?_, fun newSet => id⟩
  · rintro block ⟨range, inside, _⟩
    cases inside
  · exact points_nil
  have entries : (towerSet blockTreeMaxDepth).root.entries = (tower blockTreeMaxDepth 1).entries :=
    entries_embed (tower_sub Nat.one_ne_zero).root (tower_ordered _ 1)
  rintro block ⟨_, high⟩ inside
  rw [entries] at inside
  obtain ⟨range, inRanges, low, _⟩ := inside
  have := tower_bounds inRanges
  omega

end Tower

end Trusty.Storage
