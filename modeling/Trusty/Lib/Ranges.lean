import Mathlib.Data.List.Pairwise
import Mathlib.Data.Set.Lattice
import Mathlib.Order.CompletePartialOrder

/-!
Sets kept as lists of ranges.

A range is a pair of its first point and the first point behind it.  In a
`Canonical` list no range is empty, and between one range and the next there is
a point of neither, so that a set of points has at most one such list.
-/

namespace Trusty.Lib

open List

variable {α : Type} [LinearOrder α]

def points (ranges : List (α × α)) : Set α :=
  {point | ∃ range ∈ ranges, point ∈ Set.Ico range.1 range.2}

@[mk_iff]
structure Canonical (ranges : List (α × α)) : Prop where
  nonempty : ∀ range ∈ ranges, range.1 < range.2
  apart : ranges.Pairwise fun first second => first.2 < second.1

section Points

variable {ranges first second : List (α × α)} {range : α × α} {point : α}

theorem mem_points : point ∈ points ranges ↔ ∃ range ∈ ranges, range.1 ≤ point ∧ point < range.2 :=
  Iff.rfl

@[simp]
theorem points_nil : points ([] : List (α × α)) = ∅ := by
  ext point
  simp [mem_points]

@[simp]
theorem points_cons : points (range :: ranges) = Set.Ico range.1 range.2 ∪ points ranges := by
  ext point
  simp [mem_points]

@[simp]
theorem points_append : points (first ++ second) = points first ∪ points second := by
  ext point
  simp [mem_points, or_and_right, exists_or]

end Points

section Canonical

variable {front back ranges : List (α × α)} {range : α × α} {point : α}

theorem canonical_nil : Canonical ([] : List (α × α)) :=
  ⟨by simp, List.Pairwise.nil⟩

theorem canonical_append : Canonical (front ++ back) ↔
    Canonical front ∧ Canonical back ∧ ∀ first ∈ front, ∀ second ∈ back, first.2 < second.1 := by
  simp only [canonical_iff, forall_mem_append, pairwise_append]
  tauto

theorem canonical_cons : Canonical (range :: ranges) ↔
    range.1 < range.2 ∧ Canonical ranges ∧ ∀ other ∈ ranges, range.2 < other.1 := by
  simp only [canonical_iff, forall_mem_cons, pairwise_cons]
  tauto

theorem canonical_middle : Canonical (front ++ range :: back) ↔
    Canonical front ∧ Canonical back ∧ range.1 < range.2 ∧ (∀ other ∈ front, other.2 < range.1) ∧
      ∀ other ∈ back, range.2 < other.1 := by
  rw [canonical_append, canonical_cons]
  constructor
  · rintro ⟨canonicalFront, ⟨some, canonicalBack, behind⟩, between⟩
    exact ⟨canonicalFront, canonicalBack, some, fun other inside =>
      between other inside range mem_cons_self, behind⟩
  · rintro ⟨canonicalFront, canonicalBack, some, before, behind⟩
    exact ⟨canonicalFront, ⟨some, canonicalBack, behind⟩, fun first inFront => forall_mem_cons.mpr
      ⟨before first inFront, fun second inBack =>
        (before first inFront).trans (some.trans (behind second inBack))⟩⟩

theorem Canonical.starts_lt (canonical : Canonical ranges) :
    ranges.Pairwise fun first second => first.1 < second.1 := by
  refine canonical.apart.imp_of_mem ?_
  intro first second inside _ apart
  exact (canonical.nonempty first inside).trans apart

theorem lt_of_mem_points (inside : point ∈ points ranges) {low : α}
    (above : ∀ range ∈ ranges, low < range.1) : low < point := by
  obtain ⟨range, inRanges, start, _⟩ := inside
  exact lt_of_lt_of_le (above range inRanges) start

theorem lt_of_mem_points_of_le (inside : point ∈ points ranges) {high : α}
    (below : ∀ range ∈ ranges, range.2 ≤ high) : point < high := by
  obtain ⟨range, inRanges, _, stop⟩ := inside
  exact lt_of_lt_of_le stop (below range inRanges)

theorem Canonical.before_or_behind (canonical : Canonical ranges) {start stop : α}
    (some : start < stop) (disjoint : Disjoint (Set.Ico start stop) (points ranges))
    (inside : range ∈ ranges) :
    range.2 ≤ start ∨ stop ≤ range.1 := by
  by_contra neither
  rw [not_or, not_le, not_le] at neither
  have ownSome := canonical.nonempty range inside
  have inNew : max range.1 start ∈ Set.Ico start stop := ⟨le_max_right _ _, max_lt neither.2 some⟩
  have inRange : max range.1 start ∈ Set.Ico range.1 range.2 :=
    ⟨le_max_left _ _, max_lt ownSome neither.1⟩
  exact Set.disjoint_left.mp disjoint inNew ⟨range, inside, inRange⟩

theorem Canonical.exists_cover (canonical : Canonical ranges) {start stop : α} (some : start < stop)
    (covered : Set.Ico start stop ⊆ points ranges) :
    ∃ front range back, ranges = front ++ range :: back ∧ range.1 ≤ start ∧ stop ≤ range.2 := by
  obtain ⟨range, inside, low, high⟩ := covered ⟨le_rfl, some⟩
  obtain ⟨front, back, rfl⟩ := append_of_mem inside
  refine ⟨front, range, back, rfl, low, ?_⟩
  by_contra longer
  obtain ⟨_, _, ownSome, before, behind⟩ := canonical_middle.mp canonical
  have endInside := covered ⟨high.le, not_le.mp longer⟩
  rw [points_append, points_cons] at endInside
  rcases endInside with inFront | ⟨_, contra⟩ | inBack
  · have := lt_of_mem_points_of_le inFront fun other mem => (before other mem).le
    exact lt_asymm this ownSome
  · exact lt_irrefl _ contra
  · exact lt_irrefl _ (lt_of_mem_points inBack behind)

/-- The first range starts at the least point and ends at the least point that
is missing from there on. -/
theorem Canonical.head_isLeast (canonical : Canonical (range :: ranges)) :
    IsLeast (points (range :: ranges)) range.1 ∧
      IsLeast {point | range.1 ≤ point ∧ point ∉ points (range :: ranges)} range.2 := by
  obtain ⟨some, _, behind⟩ := canonical_cons.mp canonical
  rw [points_cons]
  refine ⟨⟨.inl ⟨le_rfl, some⟩, ?_⟩, ⟨some.le, ?_⟩, ?_⟩
  · rintro point (⟨start, _⟩ | inside)
    · exact start
    · exact (some.trans (lt_of_mem_points inside behind)).le
  · rintro (⟨_, stop⟩ | inside)
    · exact lt_irrefl _ stop
    · exact lt_irrefl _ (lt_of_mem_points inside behind)
  · rintro point ⟨start, missing⟩
    by_contra before
    exact missing (.inl ⟨start, not_le.mp before⟩)

theorem Canonical.tail_subset (canonical : Canonical (range :: ranges))
    (subset : points (range :: ranges) ⊆ points (range :: back)) : points ranges ⊆ points back := by
  intro point inside
  have past := lt_of_mem_points inside (canonical_cons.mp canonical).2.2
  rw [points_cons, points_cons] at subset
  rcases subset (.inr inside) with ⟨_, stop⟩ | found
  · exact (lt_asymm past stop).elim
  · exact found

/-- A set of points has at most one canonical list of ranges. -/
theorem Canonical.ext {first second : List (α × α)} (canonicalFirst : Canonical first)
    (canonicalSecond : Canonical second) (same : points first = points second) :
    first = second := by
  induction first generalizing second with
  | nil =>
    cases second with
    | nil => rfl
    | cons range ranges =>
      have present : range.1 ∈ points (range :: ranges) := canonicalSecond.head_isLeast.1.1
      rw [← same, points_nil] at present
      exact present.elim
  | cons range ranges ih =>
    cases second with
    | nil =>
      have present : range.1 ∈ points (range :: ranges) := canonicalFirst.head_isLeast.1.1
      rw [same, points_nil] at present
      exact present.elim
    | cons other others =>
      have starts : range.1 = other.1 :=
        canonicalFirst.head_isLeast.1.unique (same ▸ canonicalSecond.head_isLeast.1)
      have stops : range.2 = other.2 := by
        have least := canonicalSecond.head_isLeast.2
        rw [← same, ← starts] at least
        exact canonicalFirst.head_isLeast.2.unique least
      obtain rfl : range = other := Prod.ext starts stops
      rw [ih (canonical_cons.mp canonicalFirst).2.1 (canonical_cons.mp canonicalSecond).2.1]
      exact (canonicalFirst.tail_subset same.subset).antisymm
        (canonicalSecond.tail_subset same.superset)

end Canonical

/-! ### Searching from a point on -/

section Search

variable {front back : List (α × α)} {range : α × α} {start : α}
variable (canonical : Canonical (front ++ range :: back))
  (passed : ∀ other ∈ front, other.2 ≤ start)

include canonical passed

theorem Canonical.mem_points_from {point : α} (from_start : start ≤ point) :
    point ∈ points (front ++ range :: back) ↔
      point ∈ Set.Ico range.1 range.2 ∨ range.2 < point ∧ point ∈ points back := by
  obtain ⟨_, _, _, _, behind⟩ := canonical_middle.mp canonical
  rw [points_append, points_cons]
  constructor
  · rintro (inFront | inRange | inBack)
    · exact absurd from_start (not_le.mpr (lt_of_mem_points_of_le inFront passed))
    · exact .inl inRange
    · exact .inr ⟨lt_of_mem_points inBack behind, inBack⟩
  · rintro (inRange | ⟨_, inBack⟩)
    · exact .inr (.inl inRange)
    · exact .inr (.inr inBack)

theorem Canonical.isLeast_point (reaches : start < range.2) :
    IsLeast {point | point ∈ points (front ++ range :: back) ∧ start ≤ point}
    (max start range.1) := by
  obtain ⟨_, _, some, _⟩ := canonical_middle.mp canonical
  constructor
  · refine ⟨(canonical.mem_points_from passed (le_max_left _ _)).mpr (.inl ?_), le_max_left _ _⟩
    exact ⟨le_max_right _ _, max_lt reaches some⟩
  · rintro point ⟨inside, above⟩
    refine max_le above ?_
    rcases (canonical.mem_points_from passed above).mp inside with ⟨low, _⟩ | ⟨past, _⟩
    · exact low
    · exact (some.trans past).le

theorem Canonical.isLeast_gap (inside : start ∈ Set.Ico range.1 range.2) :
    IsLeast {point | point ∉ points (front ++ range :: back) ∧ start ≤ point} range.2 := by
  refine ⟨⟨?_, inside.2.le⟩, ?_⟩
  · rw [canonical.mem_points_from passed inside.2.le]
    rintro (⟨_, stop⟩ | ⟨past, _⟩)
    · exact lt_irrefl _ stop
    · exact lt_irrefl _ past
  · rintro point ⟨missing, above⟩
    by_contra before
    refine missing ((canonical.mem_points_from passed above).mpr (.inl ?_))
    exact ⟨inside.1.trans above, not_le.mp before⟩

theorem Canonical.notMem_of_lt (before : start < range.1) :
    start ∉ points (front ++ range :: back) := by
  obtain ⟨_, _, some, _⟩ := canonical_middle.mp canonical
  rw [canonical.mem_points_from passed le_rfl]
  rintro (⟨low, _⟩ | ⟨past, _⟩)
  · exact absurd before (not_lt.mpr low)
  · exact absurd (before.trans some) (lt_asymm past)

end Search

section CutOut

/-- What is left of a range without the points from `start` to `stop`. -/
def cutOut (range : α × α) (start stop : α) : List (α × α) :=
  (if range.1 < start then [(range.1, start)] else []) ++ if stop < range.2 then
    [(stop, range.2)] else []

variable {front back : List (α × α)} {range : α × α} {start stop : α}

theorem mem_cutOut {other : α × α} : other ∈ cutOut range start stop ↔
    range.1 < start ∧ other = (range.1, start) ∨ stop < range.2 ∧ other = (stop, range.2) := by
  unfold cutOut
  split <;> split <;> simp_all

theorem canonical_cutOut (some : start < stop) : Canonical (cutOut range start stop) where
  nonempty other inside := by
    rcases mem_cutOut.mp inside with ⟨nonempty, rfl⟩ | ⟨nonempty, rfl⟩
    · exact nonempty
    · exact nonempty
  apart := by
    unfold cutOut
    split <;> split <;> simp [some]

theorem points_cutOut (some : start < stop) (low : range.1 ≤ start) (high : stop ≤ range.2) :
    points (cutOut range start stop) = Set.Ico range.1 range.2 \ Set.Ico start stop := by
  ext point
  constructor
  · rintro ⟨other, inside, above, below⟩
    rcases mem_cutOut.mp inside with ⟨_, rfl⟩ | ⟨_, rfl⟩
    · exact ⟨⟨above, (below.trans some).trans_le high⟩, fun cut => absurd cut.1 (not_le.mpr below)⟩
    · exact ⟨⟨low.trans (some.le.trans above), below⟩, fun cut => absurd cut.2 (not_lt.mpr above)⟩
  · rintro ⟨⟨above, below⟩, outside⟩
    rcases lt_or_ge point start with before | behind
    · exact ⟨(range.1, start), mem_cutOut.mpr (.inl ⟨above.trans_lt before, rfl⟩), above, before⟩
    · have past : stop ≤ point := not_lt.mp fun inside => outside ⟨behind, inside⟩
      exact ⟨(stop, range.2), mem_cutOut.mpr (.inr ⟨past.trans_lt below, rfl⟩), past, below⟩

section

variable (canonical : Canonical (front ++ range :: back)) (some : start < stop)
  (low : range.1 ≤ start) (high : stop ≤ range.2)

include canonical some low high

theorem Canonical.cutOut : Canonical (front ++ (cutOut range start stop ++ back)) := by
  obtain ⟨canonicalFront, canonicalBack, _, before, behind⟩ := canonical_middle.mp canonical
  obtain ⟨_, _, between⟩ := canonical_append.mp canonical
  have within : ∀ other ∈ Lib.cutOut range start stop, range.1 ≤ other.1 ∧ other.2 ≤ range.2 := by
    intro other inside
    rcases mem_cutOut.mp inside with ⟨_, rfl⟩ | ⟨_, rfl⟩
    · exact ⟨le_rfl, some.le.trans high⟩
    · exact ⟨low.trans some.le, le_rfl⟩
  refine canonical_append.mpr ⟨canonicalFront, canonical_append.mpr
    ⟨canonical_cutOut some, canonicalBack, ?_⟩, ?_⟩
  · exact fun first inCut second inBack => (within first inCut).2.trans_lt (behind second inBack)
  · intro first inFront second inside
    rcases mem_append.mp inside with inCut | inBack
    · exact (before first inFront).trans_le (within second inCut).1
    · exact between first inFront second (mem_cons_of_mem _ inBack)

theorem Canonical.points_cutOut :
    points (front ++ (Lib.cutOut range start stop ++ back)) =
      points (front ++ range :: back) \ Set.Ico start stop := by
  obtain ⟨_, _, _, before, behind⟩ := canonical_middle.mp canonical
  have frontOut : Disjoint (points front) (Set.Ico start stop) :=
    Set.disjoint_left.mpr fun point inFront cut =>
    absurd (low.trans cut.1)
      (not_le.mpr (lt_of_mem_points_of_le inFront fun other inside => (before other inside).le))
  have backOut : Disjoint (points back) (Set.Ico start stop) :=
    Set.disjoint_left.mpr fun point inBack cut =>
    lt_asymm (cut.2.trans_le high) (lt_of_mem_points inBack behind)
  rw [points_append, points_append, points_append, points_cons, Lib.points_cutOut some low high,
    Set.union_sdiff_distrib, Set.union_sdiff_distrib, frontOut.sdiff_eq_left, backOut.sdiff_eq_left]

end

end CutOut

end Trusty.Lib
