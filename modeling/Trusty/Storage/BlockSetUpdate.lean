import Mathlib.Order.Interval.Set.LinearOrder
import Trusty.Storage.BlockSet

/-!
Adding a range to a block set and removing one.

`block_set_add_range` looks for a range of the set that the new one touches.  It
makes that one longer, and if the gap to the next one is closed the two become
one; or it inserts a range of its own.  `block_set_remove_range` makes the range
that contains the removed one shorter, splits it in two or removes it.  The set
is the set of points of a canonical list before and after.
-/

namespace Trusty.Storage

open Lib AllocProgram BTree List

/-! ### Ranges -/

/-- `block_range_extend`: the range, and whether the added one touches it. -/
def blockRangeExtend (range addRange : BlockRange) : Option (BlockRange × Bool) := do
  if ← blockRangeEmpty addRange then none
  else if ← blockRangeOverlap range addRange then none
  else if ← blockRangeEmpty range then pure (range, false)
  else if addRange.stop = range.start then pure ({ range with start := addRange.start }, true)
  else if addRange.start = range.stop then pure ({ range with stop := addRange.stop }, true)
  else pure (range, false)

/-- `block_range_shrink`: the range, and whether the removed one is at an end of
it. -/
def blockRangeShrink (range removeRange : BlockRange) : Option (BlockRange × Bool) := do
  if (← blockRangeIsSubRange range removeRange) = false then none
  else if removeRange.start = range.start then
    if ← blockRangeEmpty range then none else pure ({ range with start := removeRange.stop }, true)
  else if removeRange.stop = range.stop then
    if ← blockRangeEmpty range then none else pure ({ range with stop := removeRange.start }, true)
  else pure (range, false)

/-! ### Updates -/

/-- `block - 1` as a `data_block_t`. -/
def prevBlock (block : Nat) : Nat := if block = 0 then 2 ^ 64 - 1 else block - 1

/-- The range of the set that `block_set_add_range` tries to extend, the path to
it, and whether the added range ends where that one starts. -/
def addNeighbour (set : BlockSet) (range : BlockRange) : Option (Path × BlockRange × Bool) := do
  let path ← blockTreeWalk ⟨set.root, none⟩ (prevBlock range.start) true
  let treeRange ← blockRangeInitFromPath path
  if (← blockRangeEmpty treeRange) = false ∧ treeRange.stop < range.start then
    let next ← blockTreePathNext none path
    let nextRange ← blockRangeInitFromPath next
    if nextRange.start = range.stop then pure (next, nextRange, true)
    else
      -- rewind
      let path ← blockTreeWalk ⟨set.root, none⟩ (prevBlock range.start) true
      let treeRange ← blockRangeInitFromPath path
      pure (path, treeRange, false)
  else pure (path, treeRange, false)

/-- The update of the tree in which `treeRange`, at `path`, becomes
`newTreeRange`, and the next range goes if the two touch. -/
def extendTreeRange (config : TreeConfig) (root : Tree) (path : Path)
    (treeRange newTreeRange : BlockRange) : TreeProgram Tree := do
  let next ← ofOption (blockTreePathNext none path)
  if blockTreePathGetKey next = newTreeRange.stop then
    require (newTreeRange.stop < next.data.toBlock)
    let root ← blockTreeUpdate config root treeRange.start treeRange.stop newTreeRange.start
      next.data.toBlock
    blockTreeRemove config root (blockTreePathGetKey next) next.data.toBlock
  else
    blockTreeUpdate config root treeRange.start treeRange.stop newTreeRange.start newTreeRange.stop

def blockSetAddRange (config : TreeConfig) (set : BlockSet) (range : BlockRange) :
    TreeProgram BlockSet := do
  require (blockRangeEmpty range = some false)
  require (blockRangeEmpty set.initialRange = some true)
  require (set.updating = false)
  require (blockSetRangeNotInSet set range = some true)
  let (path, treeRange, extendLeft) ← ofOption (addNeighbour set range)
  require (treeRange.stop = 0 ∨ blockRangeOverlap treeRange range = some false)
  let (newTreeRange, extended) ← ofOption (blockRangeExtend treeRange range)
  let root ←
    if extended then extendTreeRange config set.root path treeRange newTreeRange
    else do
      require (extendLeft = false)
      blockTreeInsert config set.root range.start range.stop
  pure { set with root := root }

def blockSetRemoveRange (config : TreeConfig) (set : BlockSet) (range : BlockRange) :
    TreeProgram BlockSet := do
  require (blockRangeEmpty range = some false)
  require (blockRangeEmpty set.initialRange = some true)
  require (blockSetRangeInSet set range = some true)
  require (set.updating = false)
  let path ← ofOption (blockTreeWalk ⟨set.root, none⟩ range.start true)
  let treeRange ← ofOption (blockRangeInitFromPath path)
  require (path.entries ≠ [])
  require (blockRangeIsSubRange treeRange range = some true)
  let (newTreeRange, shrunk) ← ofOption (blockRangeShrink treeRange range)
  let (root, newTreeRange) ←
    if shrunk then pure (set.root, newTreeRange)
    else do
      let root ← blockTreeInsert config set.root range.stop treeRange.stop
      pure (root, { newTreeRange with stop := range.start })
  let empty ← ofOption (blockRangeEmpty newTreeRange)
  let root ←
    if empty then blockTreeRemove config root treeRange.start treeRange.stop
    else
      blockTreeUpdate config root treeRange.start treeRange.stop newTreeRange.start
        newTreeRange.stop
  pure { set with root := root }

/-! ### Trees with distinct keys -/

section Lists

variable {front back : List (Nat × Nat)} {old new : Nat × Nat}

theorem split_unique {otherFront otherBack : List (Nat × Nat)}
    (strict : (front ++ old :: back).Pairwise fun first second => first.1 < second.1)
    (same : front ++ old :: back = otherFront ++ old :: otherBack) :
    front = otherFront ∧ back = otherBack := by
  have nodup : (front ++ old :: back).Nodup := by
    refine strict.imp ?_
    rintro first second less rfl
    exact Nat.lt_irrefl _ less
  obtain ⟨notBefore, notBehind⟩ : old ∉ front ∧ old ∉ back := by
    have := nodup_middle.mp nodup
    rw [nodup_cons, mem_append, not_or] at this
    exact this.1
  obtain ⟨frontEq, _, backEq⟩ := (append_cons_inj_of_notMem notBefore notBehind).mp same
  exact ⟨frontEq, backEq⟩

theorem Inserts.eq_of_gap {all : List (Nat × Nat)} (inserts : Inserts new (front ++ back) all)
    (low : ∀ other ∈ front, other.1 < new.1) (high : ∀ other ∈ back, new.1 < other.1) :
    all = front ++ new :: back := by
  obtain ⟨left, right, same, rfl, lowLeft, highRight⟩ := inserts
  rcases append_eq_append_iff.mp same with ⟨middle, rfl, rfl⟩ | ⟨middle, rfl, rfl⟩
  · cases middle with
    | nil => simp
    | cons first _ => exact absurd (lowLeft first (by simp)) (Nat.not_le.mpr (high first (by simp)))
  · cases middle with
    | nil => simp
    | cons first _ =>
      exact absurd (highRight first (by simp)) (Nat.not_le.mpr (low first (by simp)))

theorem withinNeighbours_of_split
    (strict : (front ++ old :: back).Pairwise fun first second => first.1 < second.1) {key : Nat}
    (low : ∀ other ∈ front, other.1 ≤ key) (high : ∀ other ∈ back, key ≤ other.1) :
    WithinNeighbours (front ++ old :: back) old key := by
  intro index inside found
  obtain ⟨left, value, right, rfl, same⟩ := exists_split_at inside
  rw [← same, getD_append_right _ _ _ _ (Nat.le_refl _), Nat.sub_self, getD_cons_zero] at found
  rw [found] at same
  obtain ⟨rfl, rfl⟩ := split_unique strict same.symm
  constructor
  · rcases eq_nil_or_concat front with rfl | ⟨others, last, rfl⟩
    · exact .inl rfl
    · right
      simpa using low last (by simp)
  · intro more
    cases back with
    | nil => simp at more
    | cons next others => simpa using high next mem_cons_self

end Lists

/-- A tree with distinct keys, which are block numbers, that is not too deep. -/
structure Keyed (config : TreeConfig) (tree : Tree) : Prop where
  represents : Represents config tree
  strict : tree.entries.Pairwise fun first second => first.1 < second.1
  shallow : tree.levels ≤ blockTreeMaxDepth
  sizes : config.keySize = config.blockNumSize

section Keyed

variable {config : TreeConfig} {tree : Tree} {front back : List (Nat × Nat)} {old : Nat × Nat}
  {post : Tree → Prop}

theorem Represents.insertionClear (represents : Represents config tree) (key : Nat)
    (strict : tree.entries.Pairwise fun first second => first.1 < second.1) :
    insertionClear config tree key = true := by
  rcases represents with rfl | ⟨height, abstract, fits, ordered, rfl⟩
  · rfl
  · rw [entries_embed fits ordered] at strict
    exact insertionClear_of_strict fits ordered strict

variable (updatable : config.Updatable) (keyed : Keyed config tree) (new : Nat × Nat)

include updatable keyed

section

variable (nonzero : new.1 ≠ 0) (some : new.1 < new.2) (stored : new.2 < config.blockLimit)

include nonzero some stored

theorem Keyed.insert_ensures
    (next : ∀ newTree, Represents config newTree → Inserts new tree.entries newTree.entries →
      Returns (blockTreeInsert config tree new.1 new.2) newTree → post newTree) :
    ensures (blockTreeInsert config tree new.1 new.2) post := by
  have fits : (TreeOp.insert new.1 new.2).Fits config := by
    refine ⟨?_, stored⟩
    rw [TreeConfig.keyLimit, keyed.sizes]
    exact some.trans stored
  refine ensures_mono ?_ ((TreeOp.insert new.1 new.2).program_done updatable keyed.represents
    ⟨nonzero, by omega⟩ fits ⟨keyed.shallow, keyed.represents.insertionClear new.1 keyed.strict⟩)
  exact fun newTree returned done => next newTree done.represents done.changes returned

theorem Keyed.replace_ensures (split : tree.entries = front ++ old :: back)
    (oldStored : old.2 < config.blockLimit) (ne : (old.1 = new.1) ≠ (old.2 = new.2))
    (low : ∀ other ∈ front, other.1 ≤ new.1) (high : ∀ other ∈ back, new.1 ≤ other.1)
    (next : ∀ newTree, Represents config newTree → newTree.entries = front ++ new :: back →
      newTree.levels = tree.levels → post newTree) :
    ensures (blockTreeUpdate config tree old.1 old.2 new.1 new.2) post := by
  have strict := keyed.strict
  rw [split] at strict
  have valid : (TreeOp.update old.1 old.2 new.1 new.2).Valid tree.entries := by
    rw [split]
    exact ⟨by simp, nonzero, by omega, ne, withinNeighbours_of_split strict low high⟩
  have fits : (TreeOp.update old.1 old.2 new.1 new.2).Fits config := by
    refine ⟨?_, oldStored, stored⟩
    rw [TreeConfig.keyLimit, keyed.sizes]
    exact some.trans stored
  refine ensures_mono ?_ ((TreeOp.update old.1 old.2 new.1 new.2).program_done updatable
    keyed.represents valid fits ⟨keyed.shallow, trivial⟩)
  intro newTree _ done
  obtain ⟨otherFront, otherBack, oldEq, newEq⟩ := done.changes
  rw [split] at oldEq
  obtain ⟨rfl, rfl⟩ := split_unique strict oldEq
  exact next newTree done.represents newEq done.levels

end

omit new in
theorem Keyed.remove_ensures (split : tree.entries = front ++ old :: back)
    (next : ∀ newTree, Represents config newTree → newTree.entries = front ++ back →
      post newTree) :
    ensures (blockTreeRemove config tree old.1 old.2) post := by
  have strict := keyed.strict
  rw [split] at strict
  have valid : (TreeOp.remove old.1 old.2).Valid tree.entries := by
    rw [split]
    exact mem_append_right _ mem_cons_self
  refine ensures_mono ?_ ((TreeOp.remove old.1 old.2).program_done updatable keyed.represents
    valid trivial ⟨keyed.shallow, trivial⟩)
  intro newTree _ done
  obtain ⟨otherFront, otherBack, oldEq, newEq⟩ := done.changes
  rw [split] at oldEq
  obtain ⟨rfl, rfl⟩ := split_unique strict oldEq
  exact next newTree done.represents newEq

end Keyed

/-! ### Sets of ranges -/

/-- A set that keeps its ranges in its tree and is not being updated. -/
structure HoldsRanges (config : TreeConfig) (set : BlockSet) : Prop where
  represents : Represents config set.root
  canonical : Canonical set.root.entries
  noInitial : set.initialRange = blockRangeClear
  idle : set.updating = false
  /-- Keys are block numbers, and the tree can hold the end of every range. -/
  sizes : config.keySize = config.blockNumSize
  stored : ∀ block ∈ points set.root.entries, block + 1 < config.blockLimit

section Holds

variable {config : TreeConfig} {set : BlockSet} {front back : List (Nat × Nat)} {other : Nat × Nat}
  (holds : HoldsRanges config set)

include holds

theorem HoldsRanges.valid : ValidSet config set.root.levels set set.root.entries := by
  obtain ⟨leaves, valid, flat⟩ := holds.represents.valid
  have canonical := holds.canonical
  rw [← flat] at canonical ⊢
  exact ValidSet.tree valid canonical holds.noInitial

theorem HoldsRanges.initialRange_empty : blockRangeEmpty set.initialRange = some true := by
  rw [holds.noInitial]
  rfl

section

variable {entry : Nat × Nat} (inside : entry ∈ set.root.entries)

include inside

theorem HoldsRanges.start_ne_zero : entry.1 ≠ 0 := holds.valid.canonical.2 entry inside

theorem HoldsRanges.stop_lt : entry.2 < config.blockLimit := by
  have some := holds.canonical.nonempty entry inside
  have last := holds.stored (entry.2 - 1) ⟨entry, inside, by omega, by omega⟩
  omega

theorem HoldsRanges.initFromPath {path : Path} {rest : List (Nat × Nat)}
    (visits : Visits none path (entry :: rest)) :
    blockRangeInitFromPath path = some ⟨entry.1, entry.2⟩ ∧
      blockRangeEmpty ⟨entry.1, entry.2⟩ = some false := by
  have some := holds.canonical.nonempty entry inside
  have nonzero := holds.start_ne_zero inside
  exact ⟨blockRangeInitFromPath_entry visits nonzero (by omega), blockRangeEmpty_of_lt some⟩

end

variable (shallow : set.root.levels ≤ blockTreeMaxDepth)

include shallow

theorem HoldsRanges.keyed : Keyed config set.root :=
  ⟨holds.represents, holds.canonical.starts_lt, shallow, holds.sizes⟩

theorem HoldsRanges.walk (key : Nat) :
    ∃ path skipped remaining, blockTreeWalk ⟨set.root, none⟩ key true = some path ∧
      set.root.entries = skipped ++ remaining ∧ Visits none path remaining ∧
      LastUpTo key skipped remaining := by
  obtain ⟨leaves, valid, flat⟩ := holds.represents.valid
  obtain ⟨path, skipped, remaining, walked, cut, visits, nearest⟩ := valid.walk_nearest shallow key
  rw [flat] at cut
  have strict := holds.canonical.starts_lt
  rw [cut] at strict
  exact ⟨path, skipped, remaining, walked, cut, visits, nearest.lastUpTo strict⟩

theorem HoldsRanges.walk_inside (split : set.root.entries = front ++ other :: back) {key : Nat}
    (low : other.1 ≤ key) (high : key < other.2) :
    ∃ path, blockTreeWalk ⟨set.root, none⟩ key true = some path ∧
      Visits none path (other :: back) := by
  obtain ⟨path, skipped, remaining, walked, cut, visits, last⟩ := holds.walk shallow key
  have canonical := holds.canonical
  have strict := canonical.starts_lt
  have inside : other ∈ skipped ++ remaining := by
    rw [← cut, split]
    simp
  rw [split] at strict
  rw [cut] at canonical
  obtain ⟨_, _, between⟩ := canonical_append.mp canonical
  have inRemaining : other ∈ remaining := by
    refine (mem_append.mp inside).resolve_left fun inSkipped => ?_
    obtain ⟨first, more, rfl, firstLow⟩ := last.head_le (ne_nil_of_mem inSkipped)
    have := between other inSkipped first mem_cons_self
    omega
  cases remaining with
  | nil => cases inRemaining
  | cons first more =>
    rcases mem_cons.mp inRemaining with rfl | inMore
    · obtain ⟨_, rfl⟩ := split_unique strict (split.symm.trans cut)
      exact ⟨path, walked, visits⟩
    · have := last.tail_gt other inMore
      omega

end Holds

section Ranges

variable {range : BlockRange} {other : Nat × Nat} (some : range.start < range.stop)

include some

theorem blockRangeExtend_clear (positive : 1 ≤ range.start) :
    blockRangeExtend blockRangeClear range = .some (blockRangeClear, false) := by
  have outside : ¬ range.start ≤ 0 := by omega
  simp [blockRangeExtend, blockRangeOverlap, blockInRange, blockRangeClear, blockRangeEmpty,
    outside, some.le, some.ne]

section

variable (ownSome : other.1 < other.2) (sides : other.2 ≤ range.start ∨ range.stop ≤ other.1)

include ownSome sides

theorem blockRangeOverlap_eq_false :
    blockRangeOverlap ⟨other.1, other.2⟩ range = .some false := by
  have outside : ¬ (other.1 ≤ range.start ∧ range.start < other.2) := by omega
  have outsideToo : ¬ (range.start ≤ other.1 ∧ other.1 < range.stop) := by omega
  simp [blockRangeOverlap, blockInRange, some.le, ownSome.le, outside, outsideToo]

theorem blockRangeExtend_eq : blockRangeExtend ⟨other.1, other.2⟩ range = .some (
      if other.2 = range.start ∨ other.1 = range.stop then
        (⟨min other.1 range.start, max other.2 range.stop⟩, true)
      else (⟨other.1, other.2⟩, false)) := by
  have ownEmpty : blockRangeEmpty ⟨other.1, other.2⟩ = .some false := blockRangeEmpty_of_lt ownSome
  simp only [blockRangeExtend, blockRangeEmpty_of_lt some, ownEmpty,
    blockRangeOverlap_eq_false some ownSome sides, Option.bind_eq_bind, Option.bind_some,
    Bool.false_eq_true, if_false, Option.pure_def]
  grind

end

section

variable (low : other.1 ≤ range.start) (high : range.stop ≤ other.2)

include low high

theorem blockRangeIsSubRange_of_le :
    blockRangeIsSubRange ⟨other.1, other.2⟩ range = .some true := by
  have startIn : other.1 ≤ range.start ∧ range.start < other.2 := by omega
  have stopIn : other.1 ≤ range.stop - 1 ∧ range.stop - 1 < other.2 := by omega
  have ordered : other.1 ≤ other.2 := by omega
  simp [blockRangeIsSubRange, blockRangeEmpty_of_lt some, blockInRange, ordered, startIn, stopIn]

theorem blockRangeShrink_eq :
    blockRangeShrink ⟨other.1, other.2⟩ range = .some (
      if range.start = other.1 then (⟨range.stop, other.2⟩, true)
      else if range.stop = other.2 then (⟨other.1, range.start⟩, true)
      else (⟨other.1, other.2⟩, false)) := by
  have ownEmpty : blockRangeEmpty ⟨other.1, other.2⟩ = .some false :=
    blockRangeEmpty_of_lt (show other.1 < other.2 by omega)
  simp only [blockRangeShrink, blockRangeIsSubRange_of_le some low high, ownEmpty,
    Option.bind_eq_bind, Option.bind_some, Bool.true_eq_false, Bool.false_eq_true, if_false,
    Option.pure_def]
  split <;> [rfl; split <;> rfl]

end

end Ranges

/-! ### Adding a range -/

/-- What the search for a range to extend can find: one that ends where the
added range starts or starts where it ends, or none that touches it. -/
inductive Neighbour (entries : List (Nat × Nat)) (range : BlockRange) (path : Path) :
    BlockRange → Bool → Prop where
  | touching {front back : List (Nat × Nat)} {other : Nat × Nat} {extendLeft : Bool}
      (split : entries = front ++ other :: back)
      (touches : other.2 = range.start ∨ other.1 = range.stop)
      (gap : ∀ earlier ∈ front, earlier.2 < range.start)
      (visits : Visits none path (other :: back)) :
      Neighbour entries range path ⟨other.1, other.2⟩ extendLeft
  | apart {treeRange : BlockRange}
      (found : treeRange = blockRangeClear ∨ (treeRange.start, treeRange.stop) ∈ entries)
      (gap : ∀ other ∈ entries, other.2 < range.start ∨ range.stop < other.1) :
      Neighbour entries range path treeRange false

section Add

variable {config : TreeConfig} {set : BlockSet} {range : BlockRange} {front back : List (Nat × Nat)}
  {other : Nat × Nat}

theorem gap_of_lt (canonical : Canonical (front ++ other :: back))
    (gapFront : ∀ earlier ∈ front, earlier.2 < range.start) (gapBack : range.stop < other.1) :
    ∀ any ∈ front ++ other :: back, any.2 < range.start ∨ range.stop < any.1 := by
  obtain ⟨_, _, some, _, behind⟩ := canonical_middle.mp canonical
  refine forall_mem_append.mpr ⟨fun earlier inFront => .inl (gapFront earlier inFront), ?_⟩
  refine forall_mem_cons.mpr ⟨.inr gapBack, fun later inBack => ?_⟩
  have := behind later inBack
  omega

variable (holds : HoldsRanges config set) (shallow : set.root.levels ≤ blockTreeMaxDepth)
  (positive : 1 ≤ range.start) (some : range.start < range.stop)
  (disjoint : Disjoint (Set.Ico range.start range.stop) (points set.root.entries))

include holds shallow positive some disjoint

theorem addNeighbour_finds :
    ∃ path treeRange extendLeft, addNeighbour set range = .some (path, treeRange, extendLeft) ∧
      Neighbour set.root.entries range path treeRange extendLeft := by
  obtain ⟨path, skipped, remaining, walked, cut, visits, last⟩ :=
    holds.walk shallow (range.start - 1)
  have canonical := holds.canonical
  have sides : ∀ other ∈ set.root.entries, other.2 ≤ range.start ∨ range.stop ≤ other.1 :=
    fun other inside => canonical.before_or_behind some disjoint inside
  have init : ∀ entry ∈ set.root.entries, ∀ {path rest}, Visits none path (entry :: rest) →
      blockRangeInitFromPath path = .some ⟨entry.1, entry.2⟩ ∧
        blockRangeEmpty ⟨entry.1, entry.2⟩ = .some false :=
    fun entry inside _ _ visits => holds.initFromPath inside visits
  have before : prevBlock range.start = range.start - 1 := if_neg (by omega)
  rw [← before] at walked
  rw [cut] at canonical sides init ⊢
  cases remaining with
  | nil =>
    have noneSkipped : skipped = [] := by
      by_contra someSkipped
      obtain ⟨_, _, contra, _⟩ := last.head_le someSkipped
      cases contra
    subst noneSkipped
    refine ⟨path, blockRangeClear, false, ?_, .apart (.inl rfl) (by simp)⟩
    simp [addNeighbour, walked, blockRangeInitFromPath_finished visits]
  | cons entry rest =>
    have inside : entry ∈ skipped ++ entry :: rest := by simp
    obtain ⟨_, _, ownSome, earlier, later⟩ := canonical_middle.mp canonical
    obtain ⟨here, hereSome⟩ := init entry inside visits
    by_cases gap : entry.2 < range.start
    · -- the walk found the last range before the added one
      have gapFront : ∀ other ∈ skipped ++ [entry], other.2 < range.start := by
        refine forall_mem_append.mpr ⟨fun other inSkipped => ?_, forall_mem_singleton.mpr gap⟩
        have := earlier other inSkipped
        omega
      cases visits with
      | entry _ _ moved visitsRest =>
        cases rest with
        | nil =>
          have next := blockRangeInitFromPath_finished visitsRest
          have differs : ¬ blockRangeClear.start = range.stop := (Nat.zero_lt_of_lt some).ne
          refine ⟨path, ⟨entry.1, entry.2⟩, false, ?_, .apart (.inr inside) ?_⟩
          · simp [addNeighbour, walked, here, hereSome, gap, moved, next, differs]
          · exact fun other inFront => .inl (gapFront other inFront)
        | cons second more =>
          obtain ⟨next, _⟩ := init second (by simp) visitsRest
          have split : skipped ++ entry :: second :: more = (skipped ++ [entry]) ++
            second :: more := by simp
          by_cases touches : second.1 = range.stop
          · refine ⟨_, ⟨second.1, second.2⟩, true, ?_, .touching split (.inr touches) gapFront
              visitsRest⟩
            simp [addNeighbour, walked, here, hereSome, gap, moved, next, touches]
          refine ⟨path, ⟨entry.1, entry.2⟩, false, ?_, .apart (.inr inside) ?_⟩
          · simp [addNeighbour, walked, here, hereSome, gap, moved, next, touches]
          have above := last.tail_gt second mem_cons_self
          have secondSome := canonical.nonempty second (by simp)
          have behind := (sides second (by simp)).resolve_left (by omega)
          rw [split] at canonical ⊢
          exact gap_of_lt canonical gapFront (Nat.lt_of_le_of_ne behind (Ne.symm touches))
    · refine ⟨path, ⟨entry.1, entry.2⟩, false, ?_, ?_⟩
      · simp [addNeighbour, walked, here, hereSome, gap]
      by_cases touches : entry.2 = range.start
      · refine .touching rfl (.inl touches) (fun other inSkipped => ?_) visits
        have := earlier other inSkipped
        omega
      -- all ranges are behind the added one, and the walk found the first
      have behind := (sides entry inside).resolve_left (by omega)
      have noneSkipped : skipped = [] := by
        by_contra someSkipped
        obtain ⟨first, more, same, firstLow⟩ := last.head_le someSkipped
        rw [List.cons.injEq] at same
        rw [← same.1] at firstLow
        omega
      subst noneSkipped
      rcases Nat.eq_or_lt_of_le behind with touches | apart
      · exact .touching rfl (.inr touches.symm) (by simp) visits
      · exact .apart (.inr inside) (gap_of_lt canonical (by simp) apart)

variable (updatable : config.Updatable) (stored : range.stop < config.blockLimit)

include updatable stored

/-- The range grows, and the next one goes if the two touch now. -/
theorem extendTreeRange_ensures {path : Path} {post : Tree → Prop}
    (split : set.root.entries = front ++ other :: back)
    (touches : other.2 = range.start ∨ other.1 = range.stop)
    (gap : ∀ earlier ∈ front, earlier.2 < range.start) (visits : Visits none path (other :: back))
    (next : ∀ newTree, Represents config newTree → Canonical newTree.entries →
      points newTree.entries = points set.root.entries ∪ Set.Ico range.start range.stop →
      post newTree) :
    ensures (extendTreeRange config set.root path ⟨other.1, other.2⟩
      ⟨min other.1 range.start, max other.2 range.stop⟩) post := by
  have canonical := holds.canonical
  have keyed := holds.keyed shallow
  have inTree : ∀ entry ∈ front ++ other :: back, entry ∈ set.root.entries := by simp [split]
  have otherNonzero := holds.start_ne_zero (inTree other (by simp))
  have otherStored := holds.stop_lt (inTree other (by simp))
  rw [split] at canonical
  obtain ⟨canonicalFront, canonicalBack, otherSome, earlier, later⟩ := canonical_middle.mp canonical
  have joined : Set.Ico other.1 other.2 ∪ Set.Ico range.start range.stop =
      Set.Ico (min other.1 range.start) (max other.2 range.stop) := by
    apply Set.Ico_union_Ico' <;> omega
  have high : ∀ entry ∈ back, max other.2 range.stop ≤ entry.1 := by
    intro entry inBack
    have := later entry inBack
    have := canonicalBack.nonempty entry inBack
    have := holds.canonical.before_or_behind some disjoint (inTree entry (by simp [inBack]))
    omega
  have low : ∀ entry ∈ front, entry.2 < min other.1 range.start := fun entry inFront =>
    lt_min (earlier entry inFront) (gap entry inFront)
  have lowStarts : ∀ entry ∈ front, entry.1 ≤ min other.1 range.start := fun entry inFront =>
    ((canonicalFront.nonempty entry inFront).trans (low entry inFront)).le
  have newPoints : points set.root.entries ∪ Set.Ico range.start range.stop =
      points front ∪ (Set.Ico (min other.1 range.start) (max other.2 range.stop) ∪
        points back) := by
    rw [split, points_append, points_cons, ← joined]
    ac_rfl
  rw [newPoints] at next
  cases visits with
  | @entry _ nextPath _ _ _ _ moved visitsBack =>
    simp only [extendTreeRange, moved, ensures_bind, ensures_ofOption_some]
    by_cases reached : blockTreePathGetKey nextPath = max other.2 range.stop
    · rw [if_pos reached]
      cases visitsBack with
      | finished key _ => omega
      | @entry _ _ second more key data _ _ =>
        obtain ⟨secondSome, canonicalMore, behindSecond⟩ := canonical_cons.mp canonicalBack
        have beyond := later second mem_cons_self
        have sameStart : min other.1 range.start = other.1 := by omega
        have secondStored := holds.stop_lt (inTree second (by simp))
        rw [sameStart] at next lowStarts low
        simp only [data, Tree.toBlock, key, ensures_bind, ensures_require, sameStart]
        refine ⟨by omega, ?_⟩
        apply keyed.replace_ensures updatable (other.1, second.2) otherNonzero (by simp only; omega)
          secondStored split otherStored _ lowStarts
        · exact fun entry inBack => (otherSome.trans (later entry inBack)).le
        · intro midTree midRepresents midEq midLevels
          have midKeyed : Keyed config midTree := by
            refine ⟨midRepresents, ?_, midLevels ▸ shallow, holds.sizes⟩
            have sameKeys : midTree.entries.map Prod.fst = set.root.entries.map Prod.fst := by
              simp [midEq, split]
            rw [← pairwise_map, sameKeys, pairwise_map]
            exact keyed.strict
          rw [append_cons] at midEq
          apply midKeyed.remove_ensures updatable midEq
          intro newTree newRepresents newEq
          rw [append_assoc, singleton_append] at newEq
          apply next newTree newRepresents
          · rw [newEq]
            exact canonical_middle.mpr
              ⟨canonicalFront, canonicalMore, by simp only; omega, low, behindSecond⟩
          · have whole : Set.Ico other.1 (max other.2 range.stop) ∪ Set.Ico second.1 second.2 =
                Set.Ico other.1 second.2 := by
              rw [← key, reached]
              exact Set.Ico_union_Ico_eq_Ico (by omega) (by omega)
            rw [newEq, points_append, points_cons, points_cons, ← Set.union_assoc (Set.Ico _ _),
              whole]
        · have differs : other.2 ≠ second.2 := by omega
          simp [differs]
    · rw [if_neg reached]
      have apart : ∀ entry ∈ back, max other.2 range.stop < entry.1 := by
        cases visitsBack with
        | finished _ _ => simp
        | @entry _ _ second more key _ _ _ =>
          obtain ⟨secondSome, _, behindSecond⟩ := canonical_cons.mp canonicalBack
          have := high second mem_cons_self
          refine forall_mem_cons.mpr ⟨by omega, fun entry inMore => ?_⟩
          have := behindSecond entry inMore
          omega
      apply keyed.replace_ensures updatable
        (min other.1 range.start, max other.2 range.stop) _ _ _ split otherStored _ lowStarts
      · exact fun entry inBack => ((min_le_left _ _).trans otherSome.le).trans
          ((le_max_left _ _).trans (high entry inBack))
      · intro newTree newRepresents newEq _
        apply next newTree newRepresents
        · rw [newEq]
          exact canonical_middle.mpr
            ⟨canonicalFront, canonicalBack, by simp only; omega, low, apart⟩
        · rw [newEq, points_append, points_cons]
      · omega
      · omega
      · exact max_lt otherStored stored
      · simp only [ne_eq, eq_iff_iff]
        omega

theorem blockSetAddRange_ensures {post : BlockSet → Prop}
    (next : ∀ newSet, HoldsRanges config newSet → points newSet.root.entries =
      points set.root.entries ∪ Set.Ico range.start range.stop → post newSet) :
    ensures (blockSetAddRange config set range) post := by
  have notIn : blockSetRangeNotInSet set range = .some true := by
    obtain ⟨answer, asked, iff⟩ := rangeNotInSet_iff holds.valid shallow range
    rw [asked, iff.mpr disjoint]
  have finish : ∀ newTree, Represents config newTree → Canonical newTree.entries →
      points newTree.entries = points set.root.entries ∪ Set.Ico range.start range.stop →
      post { set with root := newTree } :=
    fun newTree represents canonical same => next _ ⟨represents, canonical, holds.noInitial,
      holds.idle, holds.sizes, fun block inside => (same ▸ inside).elim (holds.stored block)
        fun within => (Nat.succ_le_of_lt within.2).trans_lt stored⟩ same
  obtain ⟨path, treeRange, extendLeft, found, neighbour⟩ :=
    addNeighbour_finds holds shallow positive some disjoint
  have canonical := holds.canonical
  simp only [blockSetAddRange, ensures_bind, ensures_require, found, ensures_ofOption_some]
  refine ⟨blockRangeEmpty_of_lt some, holds.initialRange_empty, holds.idle, notIn, ?_⟩
  cases neighbour with
  | @touching front back other _ split touches gap visits =>
    have inside : other ∈ set.root.entries := by simp [split]
    have otherSome := canonical.nonempty other inside
    have sides := canonical.before_or_behind some disjoint inside
    refine ⟨.inr (blockRangeOverlap_eq_false some otherSome sides), ?_⟩
    rw [blockRangeExtend_eq some otherSome sides, if_pos touches]
    simp only [ensures_ofOption_some, ensures_bind, if_true]
    exact extendTreeRange_ensures holds shallow positive some disjoint updatable stored split
      touches gap visits finish
  | apart treeFound gap =>
    have outcome : (treeRange.stop = 0 ∨ blockRangeOverlap treeRange range = .some false) ∧
        blockRangeExtend treeRange range = .some (treeRange, false) := by
      rcases treeFound with rfl | inside
      · exact ⟨.inl rfl, blockRangeExtend_clear some positive⟩
      have treeSome := canonical.nonempty _ inside
      have sides := canonical.before_or_behind some disjoint inside
      have extended := blockRangeExtend_eq some treeSome sides
      rw [if_neg (by have := gap _ inside; omega)] at extended
      exact ⟨.inr (blockRangeOverlap_eq_false some treeSome sides), extended⟩
    refine ⟨outcome.1, ?_⟩
    simp only [outcome.2, ensures_ofOption_some, ensures_bind, Bool.false_eq_true, if_false,
      ensures_require, true_and]
    apply (holds.keyed shallow).insert_ensures updatable (range.start, range.stop)
      (Nat.ne_of_gt positive) some stored
    rintro newTree represents ⟨front, back, split, newEq, low, high⟩ _
    rw [split] at canonical gap
    obtain ⟨canonicalFront, canonicalBack, _⟩ := canonical_append.mp canonical
    refine finish newTree represents ?_ ?_
    · rw [newEq]
      refine canonical_middle.mpr ⟨canonicalFront, canonicalBack, some, ?_, ?_⟩
      · intro other inFront
        have : other.1 ≤ range.start := low other inFront
        exact (gap other (mem_append_left _ inFront)).resolve_right (by omega)
      · intro other inBack
        have : range.start ≤ other.1 := high other inBack
        have := canonicalBack.nonempty other inBack
        exact (gap other (mem_append_right _ inBack)).resolve_left (by omega)
    · rw [newEq, split]
      simp only [points_append, points_cons]
      ac_rfl

end Add

/-! ### Removing a range -/

/-- The tree is not too deep for the walks of a removal.  The part behind a range
that is cut in two is inserted before the part in front of it is updated. -/
def RemoveRoom (config : TreeConfig) (root : Tree) (range : BlockRange) : Prop :=
  root.levels ≤ blockTreeMaxDepth ∧
    ∀ other ∈ root.entries, other.1 < range.start → range.stop < other.2 →
      ∀ newRoot, Returns (blockTreeInsert config root range.stop other.2) newRoot →
        newRoot.levels ≤ blockTreeMaxDepth

theorem blockSetRemoveRange_ensures {config : TreeConfig} {set : BlockSet} {range : BlockRange}
    (holds : HoldsRanges config set) (some : range.start < range.stop)
    (covered : Set.Ico range.start range.stop ⊆ points set.root.entries)
    (room : RemoveRoom config set.root range) (updatable : config.Updatable)
    {post : BlockSet → Prop}
    (next : ∀ newSet, HoldsRanges config newSet → points newSet.root.entries =
      points set.root.entries \ Set.Ico range.start range.stop → post newSet) :
    ensures (blockSetRemoveRange config set range) post := by
  have isIn : blockSetRangeInSet set range = .some true := by
    obtain ⟨answer, asked, iff⟩ := rangeInSet_iff holds.valid room.1 some
    rw [asked, iff.mpr covered]
  obtain ⟨front, other, back, split, low, high⟩ := holds.canonical.exists_cover some covered
  have canonical := holds.canonical
  have inside : other ∈ set.root.entries := by simp [split]
  have otherNonzero := holds.start_ne_zero inside
  have otherStored := holds.stop_lt inside
  have keyed := holds.keyed room.1
  obtain ⟨path, walked, visits⟩ := holds.walk_inside room.1 split low (some.trans_le high)
  obtain ⟨here, _⟩ := holds.initFromPath inside visits
  rw [split] at canonical
  obtain ⟨canonicalFront, _, otherSome, earlier, later⟩ := canonical_middle.mp canonical
  have finish : ∀ newTree, Represents config newTree →
      newTree.entries = front ++ (cutOut other range.start range.stop ++ back) →
      post { set with root := newTree } := by
    intro newTree represents newEq
    have newCanonical := canonical.cutOut some low high
    have newPoints := canonical.points_cutOut some low high
    rw [← newEq] at newCanonical newPoints
    rw [← split] at newPoints
    exact next _ ⟨represents, newCanonical, holds.noInitial, holds.idle, holds.sizes,
      fun block inside => holds.stored block (newPoints ▸ inside).1⟩ newPoints
  have shrink : ∀ tree newBack (new : Nat × Nat), Keyed config tree →
      tree.entries = front ++ other :: newBack → other.1 ≤ new.1 → new.2 ≤ other.2 →
      new.1 < new.2 → (other.1 = new.1) ≠ (other.2 = new.2) →
      (∀ entry ∈ newBack, new.1 ≤ entry.1) →
      front ++ new :: newBack = front ++ (cutOut other range.start range.stop ++ back) →
      ensures (blockTreeUpdate config tree other.1 other.2 new.1 new.2) fun newTree =>
        post { set with root := newTree } := by
    intro tree newBack new treeKeyed treeSplit startsIn endsIn newSome differs behind newEq
    refine treeKeyed.replace_ensures updatable new (by omega) newSome
      (endsIn.trans_lt otherStored) treeSplit otherStored differs (fun entry inFront => ?_) behind
      fun newTree represents entriesEq _ => finish newTree represents (entriesEq.trans newEq)
    have := earlier entry inFront
    have := canonicalFront.nonempty entry inFront
    omega
  simp only [blockSetRemoveRange, ensures_bind, ensures_require, walked, here,
    ensures_ofOption_some, blockRangeShrink_eq some low high]
  refine ⟨blockRangeEmpty_of_lt some, holds.initialRange_empty, isIn, holds.idle,
    visits.entries_ne_nil otherNonzero, blockRangeIsSubRange_of_le some low high, ?_⟩
  rcases Nat.eq_or_lt_of_le low with sameStart | startsBefore
  · rw [if_pos sameStart.symm]
    simp only [ensures_bind, if_true, ensures_pure]
    rcases Nat.eq_or_lt_of_le high with sameStop | stopsBehind
    · -- the whole range goes
      have empty : blockRangeEmpty ⟨range.stop, other.2⟩ = .some true := by
        simp [blockRangeEmpty, sameStop]
      simp only [empty, ensures_ofOption_some, if_true, ensures_bind, ensures_pure]
      apply keyed.remove_ensures updatable split
      intro newTree represents newEq
      apply finish newTree represents
      simp [newEq, cutOut, sameStart, sameStop]
    · -- the range starts later
      have isSome : blockRangeEmpty ⟨range.stop, other.2⟩ = .some false :=
        blockRangeEmpty_of_lt stopsBehind
      simp only [isSome, ensures_ofOption_some, Bool.false_eq_true, if_false, ensures_bind,
        ensures_pure]
      apply shrink set.root back (range.stop, other.2) keyed split (by simp only; omega) le_rfl
        stopsBehind
      · have differs : other.1 ≠ range.stop := by omega
        simp [differs]
      · exact fun entry inBack => stopsBehind.le.trans (later entry inBack).le
      · simp [cutOut, sameStart, stopsBehind]
  have isSome : blockRangeEmpty ⟨other.1, range.start⟩ = .some false :=
    blockRangeEmpty_of_lt startsBefore
  have differs : other.2 ≠ range.start := by omega
  rw [if_neg (Nat.ne_of_gt startsBefore)]
  rcases Nat.eq_or_lt_of_le high with sameStop | stopsBehind
  · -- the range ends earlier
    rw [if_pos sameStop]
    simp only [ensures_bind, if_true, ensures_pure, isSome, ensures_ofOption_some,
      Bool.false_eq_true, if_false]
    apply shrink set.root back (other.1, range.start) keyed split le_rfl (by simp only; omega)
      startsBefore
    · simp [differs]
    · exact fun entry inBack => (otherSome.trans (later entry inBack)).le
    · simp [cutOut, startsBefore, sameStop]
  · -- the range is cut in two
    rw [if_neg (Nat.ne_of_lt stopsBehind)]
    simp only [ensures_bind, ensures_pure, isSome, ensures_ofOption_some, Bool.false_eq_true,
      if_false]
    apply keyed.insert_ensures updatable (range.stop, other.2) (by simp only; omega) stopsBehind
      otherStored
    intro midTree represents inserts returned
    have pieces : cutOut other range.start range.stop =
        [(other.1, range.start), (range.stop, other.2)] := by
      simp [cutOut, startsBefore, stopsBehind]
    have midEq : midTree.entries = front ++ other :: (range.stop, other.2) :: back := by
      rw [split, append_cons] at inserts
      rw [append_cons]
      refine inserts.eq_of_gap ?_ fun entry inBack => stopsBehind.trans (later entry inBack)
      refine forall_mem_append.mpr ⟨fun entry inFront => ?_, forall_mem_singleton.mpr (by omega)⟩
      have := earlier entry inFront
      have := canonicalFront.nonempty entry inFront
      omega
    have midKeyed : Keyed config midTree := by
      refine ⟨represents, ?_, ?_, holds.sizes⟩
      · have sameKeys : midTree.entries.map Prod.fst =
            (front ++ (cutOut other range.start range.stop ++ back)).map Prod.fst := by
          simp [midEq, pieces]
        rw [← pairwise_map, sameKeys, pairwise_map]
        exact (canonical.cutOut some low high).starts_lt
      · exact room.2 other inside startsBefore stopsBehind midTree returned
    apply shrink midTree _ (other.1, range.start) midKeyed midEq le_rfl (by simp only; omega)
      startsBefore
    · simp [differs]
    · refine forall_mem_cons.mpr ⟨(startsBefore.trans some).le, fun entry inBack => ?_⟩
      exact (otherSome.trans (later entry inBack)).le
    · simp [pieces]

end Trusty.Storage
