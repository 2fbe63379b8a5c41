import Trusty.Storage.BlockTreeShape

/-!
Lookups: where `block_tree_walk` lands, and that `block_tree_path_next` visits
the entries in order.

The accessors see the keys and slots of every node of a tree that is `Sound`;
the lemmas about lookups need no more.
-/

namespace Trusty.Storage

open Lib BTree List

namespace BTree

def keys : BTree → List Nat
  | leaf _ entries => entries.map Prod.fst
  | node _ children => separators children

def slots (config : TreeConfig) : BTree → List Tree
  | leaf _ entries => entries.map fun entry => .data entry.2
  | node _ children => children.map (embed config)

def isLeaf : BTree → Bool
  | leaf _ _ => true
  | node _ _ => false

/-- The accessors see the keys and the slots of the root node. -/
structure Reads (config : TreeConfig) (tree : BTree) : Prop where
  key : ∀ index, blockTreeNodeGetKey none (tree.toNode config) index = some
    (tree.keys.getD index 0)
  slot : ∀ index,
    blockTreeNodeGetSlot none (tree.toNode config) index = some
    ((tree.slots config).getD index .nil)
  length : tree.keys.length ≤ (tree.toNode config).keys.length + 1

/-- Uniform depth, nodes that fit, and something in every leaf but the root. -/
def Sound (config : TreeConfig) : Nat → BTree → Prop
  | 0, leaf block entries => block ≠ 0 ∧ entries.length ≤ config.keyCount true
  | height + 1, node block children =>
    block ≠ 0 ∧ 2 ≤ children.length ∧ children.length ≤ config.keyCount false + 1 ∧
      ∀ child ∈ children, Sound config height child ∧ child.entries ≠ []
  | _, _ => False

end BTree

/-- Keys in order, and no zero key or data. -/
@[mk_iff]
structure Ordered (entries : List (Nat × Nat)) : Prop where
  sorted : entries.Pairwise fun first second => first.1 ≤ second.1
  key_ne_zero : ∀ entry ∈ entries, entry.1 ≠ 0
  data_ne_zero : ∀ entry ∈ entries, entry.2 ≠ 0

/-- The key of the separator left of the hole, 0 at the left edge. -/
def prevKeyAt : BTree → List Frame → Nat
  | _, [] => 0
  | tree, frame :: frames =>
    match frame.left with
    | [] => prevKeyAt (frame.close tree) frames
    | _ :: _ => tree.firstKey

/-- The key of the separator right of the hole, 0 at the right edge. -/
def nextKeyAt : List Frame → Nat
  | [] => 0
  | frame :: frames =>
    match frame.right with
    | [] => nextKeyAt frames
    | child :: _ => child.firstKey

/-- The path entries for the nodes above a hole that holds `tree`. -/
def pathEntries (config : TreeConfig) : BTree → List Frame → List PathEntry
  | _, [] => []
  | tree, frame :: frames =>
    ⟨(frame.close tree).toNode config, frame.left.length, prevKeyAt tree (frame :: frames),
      nextKeyAt (frame :: frames)⟩ :: pathEntries config (frame.close tree) frames

/-- The path at entry `index` of the leaf in the hole of `frames`. -/
def pathAt (config : TreeConfig) (leaf : BTree) (index : Nat) (frames : List Frame)
    (prevKey : Nat) : Path :=
  { entries := ⟨leaf.toNode config, index, prevKey,
      if index < leaf.entries.length then leaf.keys.getD index 0 else nextKeyAt frames⟩ ::
        pathEntries config leaf frames
    data := (leaf.slots config).getD index .nil }

/-- A search for `key` ends between `passed` and `rest` in the leaf in the hole
of `frames`. -/
structure Lands (key : Nat) (frames : List Frame) (passed rest : List (Nat × Nat)) : Prop where
  before : ∀ entry ∈ before frames, entry.1 ≤ key
  passed : ∀ entry ∈ passed, entry.1 < key
  rest : ∀ entry ∈ rest, key ≤ entry.1
  after : ∀ entry ∈ after frames, key < entry.1

/-- The index at which a search stops.  A search for the last entry up to `key`
steps back from an entry above it. -/
def landingIndex (key : Nat) (keyIsMax : Bool) (passed rest : List (Nat × Nat)) : Nat :=
  if keyIsMax ∧ 0 < passed.length ∧ ∀ entry ∈ rest.head?, key < entry.1 then passed.length - 1
  else passed.length

section FindIndex

variable {node : Node} {keys : List Nat}

theorem findIndex_split (key : Nat)
    (reads : ∀ index, blockTreeNodeGetKey none node index = some (keys.getD index 0))
    (nonzero : ∀ other ∈ keys, other ≠ 0) {passed rest : List Nat} {room : Nat}
    (split : keys = passed ++ rest) (enough : rest.length ≤ room) :
    ∃ more others, rest = more ++ others ∧
      findIndex none node key room passed.length =
        some (passed.length + more.length, others.headD 0) ∧
      (∀ other ∈ more, ¬ key ≤ other - if node.isLeaf then 0 else 1) ∧
      (∀ other ∈ others.head?, key ≤ other - if node.isLeaf then 0 else 1) := by
  induction room generalizing passed rest with
  | zero =>
    have empty : rest = [] := eq_nil_of_length_eq_zero (by omega)
    exact ⟨[], [], by simp [empty], by simp [findIndex], by simp, by simp⟩
  | succ room ih =>
    cases rest with
    | nil =>
      have outside : keys.getD passed.length 0 = 0 := by simp [split]
      refine ⟨[], [], rfl, ?_, by simp, by simp⟩
      rw [findIndex, reads, outside, Option.bind_eq_bind, Option.bind_some, if_pos (.inl rfl)]
      rfl
    | cons current rest =>
      have found : keys.getD passed.length 0 = current := by simp [split]
      have currentNonzero : current ≠ 0 := nonzero current (by simp [split])
      by_cases stop : key ≤ current - if node.isLeaf then 0 else 1
      · refine ⟨[], current :: rest, rfl, ?_, by simp, ?_⟩
        · rw [findIndex, reads, found, Option.bind_eq_bind, Option.bind_some, if_pos (.inr stop)]
          rfl
        · intro other isHead
          cases isHead
          exact stop
      have splitAgain : keys = (passed ++ [current]) ++ rest := by simp [split]
      rcases ih splitAgain (by simpa using enough) with
        ⟨more, others, restEq, foundLater, below, stopped⟩
      refine ⟨current :: more, others, by simp [restEq], ?_, ?_, stopped⟩
      · rw [length_append, length_singleton] at foundLater
        rw [findIndex, reads, found, Option.bind_eq_bind, Option.bind_some,
          if_neg (not_or.mpr ⟨currentNonzero, stop⟩), foundLater, length_cons, Nat.add_assoc,
          Nat.add_comm 1]
      · exact forall_mem_cons.mpr ⟨stop, below⟩

end FindIndex

section Edge

/-- Nothing is left of the hole. -/
def Leftmost (frames : List Frame) : Prop := ∀ frame ∈ frames, frame.left = []

variable {frames : List Frame}

/-- The separator left of the hole is the first key of the tree in it, unless
nothing is left of the hole. -/
theorem prevKeyAt_cases {tree : BTree} (nonempty : tree.entries ≠ []) :
    (Leftmost frames ∧ prevKeyAt tree frames = 0) ∨ prevKeyAt tree frames = tree.firstKey := by
  induction frames generalizing tree with
  | nil => exact .inl ⟨fun frame mem => absurd mem (not_mem_nil), rfl⟩
  | cons frame frames ih =>
    cases leftEq : frame.left with
    | cons child others =>
      right
      simp only [prevKeyAt, leftEq]
    | nil =>
      have closedNonempty := @Frame.close_ne_nil frame tree nonempty
      have closedFirst : (frame.close tree).firstKey = tree.firstKey := by
        simp only [Frame.close, leftEq, nil_append, firstKey_node nonempty]
      simp only [prevKeyAt, leftEq]
      rcases ih closedNonempty with ⟨leftmost, edge⟩ | found
      · exact .inl ⟨forall_mem_cons.mpr ⟨leftEq, leftmost⟩, edge⟩
      · right
        rw [found, closedFirst]

theorem Leftmost.before_eq_nil (leftmost : Leftmost frames) : before frames = [] := by
  induction frames with
  | nil => rfl
  | cons frame frames ih =>
    have noLeft : frame.left = [] := leftmost frame mem_cons_self
    have outer := ih fun other mem =>
      leftmost other (mem_cons_of_mem _ mem)
    simp [before, noLeft, outer, entriesAll]

end Edge

section Walk

variable {config : TreeConfig}

variable {height block key : Nat} {tree : BTree} {children : List BTree} {frames : List Frame}
  {passed rest : List (Nat × Nat)}

theorem BTree.Sound.hole (frames : List Frame)
    (sound : Sound config (height + frames.length) (plug tree frames)) :
    Sound config height tree := by
  induction frames generalizing height tree with
  | nil => exact sound
  | cons frame frames ih =>
    have outer : Sound config (height + 1) (frame.close tree) := by
      apply ih
      rw [Nat.add_assoc, Nat.add_comm 1]
      exact sound
    exact (outer.2.2.2 tree (by simp)).1

theorem BTree.Sound.reads (sound : Sound config height tree) : Reads config tree := by
  cases height <;> cases tree
  case zero.leaf block entries =>
    refine ⟨fun index => congrArg some (getD_fill_of_length_le ?_ index),
      fun index => congrArg some (getD_fill_of_length_le ?_ index), ?_⟩
    · simpa using sound.2
    · simpa [TreeConfig.slotCount] using sound.2
    · simpa [BTree.keys, toNode] using Nat.le_succ_of_le sound.2
  case succ.node height block children =>
    have room := sound.2.2.1
    refine ⟨fun index => congrArg some (getD_fill_of_length_le ?_ index),
      fun index => congrArg some (getD_fill_of_length_le ?_ index), ?_⟩
    · rw [length_separators]
      omega
    · simpa [TreeConfig.slotCount] using room
    · simp only [BTree.keys, toNode, length_fill, length_separators]
      omega
  all_goals exact sound.elim

theorem BTree.Sound.block_ne_zero (sound : Sound config height tree) :
    tree.block ≠ 0 := by
  cases height <;> cases tree <;> first | exact sound.1 | exact sound.elim

theorem ordered_nil : Ordered [] := ⟨List.Pairwise.nil, by simp, by simp⟩

theorem Ordered.append {first second : List (Nat × Nat)} (ordered : Ordered (first ++ second)) :
    Ordered first ∧ Ordered second ∧
      ∀ left ∈ first, ∀ right ∈ second, left.1 ≤ right.1 := by
  simp only [ordered_iff, forall_mem_append, pairwise_append] at ordered ⊢
  tauto

theorem Ordered.firstKey_ne_zero (ordered : Ordered tree.entries) (nonempty : tree.entries ≠ []) :
    tree.firstKey ≠ 0 := by
  rcases exists_entry_firstKey nonempty with ⟨entry, inside, entryKey⟩
  rw [← entryKey]
  exact ordered.key_ne_zero entry inside

theorem Ordered.child (ordered : Ordered (entriesAll children)) (inside : tree ∈ children) :
    Ordered tree.entries := by
  rcases append_of_mem inside with ⟨front, back, rfl⟩
  rw [entriesAll_append, entriesAll] at ordered
  exact ordered.append.2.1.append.1

theorem BTree.Sound.firstKey_ne_zero
    (sound : Sound config (height + 1) (node block children))
    (ordered : Ordered (entriesAll children)) (inside : tree ∈ children) : tree.firstKey ≠ 0 :=
  (ordered.child inside).firstKey_ne_zero (sound.2.2.2 tree inside).2

theorem exists_cons_cons {α : Type} {values : List α} (two : 2 ≤ values.length) :
    ∃ first second rest, values = first :: second :: rest := by
  match values, two with
  | first :: second :: rest, _ => exact ⟨first, second, rest, rfl⟩

theorem exists_split_at {α : Type} {values : List α} {index : Nat}
    (inside : index < values.length) :
    ∃ front value back, front.length = index ∧ front ++ value :: back = values := by
  refine ⟨values.take index, values[index], values.drop (index + 1), ?_, ?_⟩
  · rw [length_take]
    exact Nat.min_eq_left inside.le
  · rw [← drop_eq_getElem_cons inside, take_append_drop]

theorem exists_append_singleton {α : Type} {values : List α} (nonempty : values ≠ []) :
    ∃ front last, values = front ++ [last] :=
  ⟨_, _, (dropLast_append_getLast nonempty).symm⟩

theorem exists_children_of_sound (sound : Sound config (height + 1) tree) :
    ∃ block first second rest, tree = node block (first :: second :: rest) := by
  cases tree with
  | leaf block entries => exact sound.elim
  | node block children =>
    obtain ⟨first, second, rest, rfl⟩ := exists_cons_cons sound.2.1
    exact ⟨block, first, second, rest, rfl⟩

theorem exists_frame_of_search (key : Nat) (keyIsMax : Bool)
    (sound : Sound config (height + 1) tree) (ordered : Ordered tree.entries) :
    ∃ frame child, tree = Frame.close frame child ∧
      blockTreeNodeFindBlock none (tree.toNode config) key keyIsMax =
        some (frame.left.length, (frame.right.map firstKey).headD 0) ∧
      (frame.left ≠ [] → child.firstKey ≤ key) ∧
      ∀ other ∈ frame.right.head?, key < other.firstKey := by
  obtain ⟨block, first, second, rest, rfl⟩ := exists_children_of_sound sound
  have nonzero : ∀ other ∈ (node block (first :: second :: rest)).keys, other ≠ 0 :=
    forall_mem_map.mpr fun child inRest => sound.firstKey_ne_zero ordered
      (mem_cons_of_mem _ inRest)
  rcases findIndex_split key sound.reads.key nonzero (nil_append _).symm sound.reads.length with
    ⟨more, others, split, found, passed, stopped⟩
  rcases map_eq_append_iff.mp split with ⟨moreChildren, right, restEq, rfl, rfl⟩
  have inner : ((node block (first :: second :: rest)).toNode config).isLeaf = false := rfl
  simp only [inner, Bool.false_eq_true, if_false] at passed stopped
  rw [tail_cons] at restEq
  obtain ⟨left, child, joined⟩ := exists_append_singleton (cons_ne_nil first moreChildren)
  have lengths : left.length = moreChildren.length := by
    simpa using (congrArg List.length joined).symm
  refine ⟨⟨block, left, right⟩, child, ?_, ?_, ?_, ?_⟩
  · rw [restEq, ← cons_append, joined, append_assoc]
    rfl
  · rw [blockTreeNodeFindBlock, ← length_nil, found]
    simp [inner, lengths]
  · intro someLeft
    rcases exists_cons_of_ne_nil someLeft with ⟨head, others, rfl⟩
    rw [cons_append, List.cons.injEq] at joined
    have := passed child.firstKey (mem_map_of_mem (by simp [joined.2]))
    omega
  · intro other isHead
    have := stopped other.firstKey (by
      rw [List.head?_map]
      exact Option.mem_map_of_mem _ isHead)
    have positive : other.firstKey ≠ 0 := by
      have inRight : other ∈ right := mem_of_mem_head? isHead
      exact nonzero _ (mem_map_of_mem (by simp [restEq, inRight]))
    omega

theorem Ordered.head_le {first : Nat × Nat} {others : List (Nat × Nat)}
    (ordered : Ordered (first :: others)) : ∀ entry ∈ first :: others, first.1 ≤ entry.1 :=
  forall_mem_cons.mpr ⟨Nat.le_refl _, (pairwise_cons.mp ordered.sorted).1⟩

theorem Ordered.hole (frames : List Frame) (ordered : Ordered (plug tree frames).entries) :
    Ordered tree.entries := by
  rw [entries_plug] at ordered
  exact ordered.append.1.append.2.1

section

variable (sound : Sound config (height + frames.length) (plug tree frames))

include sound

theorem nextKeyAt_eq : nextKeyAt frames = ((after frames).head?.map Prod.fst).getD 0 := by
  induction frames generalizing height tree with
  | nil => rfl
  | cons frame frames ih =>
    rw [add_length_cons] at sound
    have here : Sound config (height + 1) (frame.close tree) :=
      Sound.hole frames sound
    cases rightEq : frame.right with
    | nil =>
      simp only [nextKeyAt, after, rightEq, entriesAll, nil_append]
      exact ih sound
    | cons child others =>
      have nonempty : child.entries ≠ [] := (here.2.2.2 child (by simp [rightEq])).2
      obtain ⟨first, more, entriesEq⟩ := exists_cons_of_ne_nil nonempty
      simp [nextKeyAt, after, rightEq, entriesAll, firstKey, entriesEq]

theorem exists_nextKeyAt :
    nextKeyAt frames = 0 ∨ ∃ entry ∈ after frames, entry.1 = nextKeyAt frames := by
  rw [nextKeyAt_eq sound]
  cases after frames with
  | nil => exact .inl rfl
  | cons first more => exact .inr ⟨first, mem_cons_self, rfl⟩

theorem between_separators (ordered : Ordered (plug tree frames).entries) {entry : Nat × Nat}
    (inside : entry ∈ tree.entries) :
    prevKeyAt tree frames ≤ entry.1 ∧ (nextKeyAt frames = 0 ∨ entry.1 ≤ nextKeyAt frames) := by
  have orderedHere := ordered.hole frames
  rw [entries_plug] at ordered
  have nonempty : tree.entries ≠ [] := ne_nil_of_mem inside
  constructor
  · rcases prevKeyAt_cases nonempty with ⟨_, edge⟩ | found
    · rw [edge]
      exact Nat.zero_le _
    · rcases exists_cons_of_ne_nil nonempty with ⟨first, others, entriesEq⟩
      rw [found, firstKey, entriesEq]
      rw [entriesEq] at orderedHere inside
      exact orderedHere.head_le entry inside
  · rcases exists_nextKeyAt sound with edge | ⟨behind, inAfter, found⟩
    · exact .inl edge
    · right
      rw [← found]
      exact ordered.append.2.2 entry (mem_append_right _ inside) behind inAfter

end

theorem getD_ne_zero_iff {keys : List Nat} (nonzero : ∀ key ∈ keys, key ≠ 0) (index : Nat) :
    keys.getD index 0 ≠ 0 ↔ index < keys.length := by
  by_cases inside : index < keys.length
  · simp only [inside, iff_true, getD_eq_getElem _ _ inside]
    exact nonzero _ (getElem_mem inside)
  · simp only [inside, iff_false, not_not]
    exact getD_eq_default _ _ (Nat.not_lt.mp inside)

theorem getD_leaf_keys {index : Nat} {entries : List (Nat × Nat)} (ordered : Ordered entries) :
    (leaf block entries).keys.getD index 0 ≠ 0 ↔ index < entries.length := by
  rw [BTree.keys, getD_ne_zero_iff (forall_mem_map.mpr ordered.key_ne_zero), length_map]

theorem leaf_search (key : Nat) (keyIsMax : Bool) {entries : List (Nat × Nat)}
    (reads : Reads config (leaf block entries)) (ordered : Ordered entries) :
    ∃ passed rest, entries = passed ++ rest ∧
      blockTreeNodeFindBlock none ((leaf block entries).toNode config) key keyIsMax =
        some (landingIndex key keyIsMax passed rest,
          (leaf block entries).keys.getD (landingIndex key keyIsMax passed rest) 0) ∧
      (∀ entry ∈ passed, entry.1 < key) ∧ (∀ entry ∈ rest, key ≤ entry.1) := by
  have nonzero : ∀ other ∈ (leaf block entries).keys, other ≠ 0 :=
    forall_mem_map.mpr ordered.key_ne_zero
  rcases findIndex_split key reads.key nonzero (nil_append _).symm reads.length with
    ⟨more, others, split, found, passedOver, stopped⟩
  rcases map_eq_append_iff.mp split with ⟨passed, rest, rfl, rfl, rfl⟩
  have isLeaf : ((leaf block (passed ++ rest)).toNode config).isLeaf = true := rfl
  simp only [isLeaf, if_true, Nat.sub_zero] at passedOver stopped
  rw [length_nil, Nat.zero_add, length_map] at found
  refine ⟨passed, rest, rfl, ?_, ?_, ?_⟩
  · have above : ((rest.map Prod.fst).headD 0 = 0 ∨ key < (rest.map Prod.fst).headD 0) ↔
        ∀ entry ∈ rest.head?, key < entry.1 := by
      cases rest with
      | nil => simp
      | cons first others =>
        have nonzero := ordered.key_ne_zero first (by simp)
        simp [nonzero]
    simp only [blockTreeNodeFindBlock, found, Option.bind_eq_bind, Option.bind_some, isLeaf, above,
      landingIndex, true_and]
    by_cases back : keyIsMax = true ∧ 0 < passed.length ∧ ∀ entry ∈ rest.head?, key < entry.1
    · rw [if_pos back, if_pos back, reads.key]
      rfl
    · rw [if_neg back, if_neg back]
      cases rest <;> simp [BTree.keys]
  · intro entry mem
    have := passedOver entry.1 (mem_map_of_mem mem)
    omega
  cases rest with
  | nil => simp
  | cons first others =>
    have atFirst := stopped first.1 (by simp)
    intro entry mem
    exact Nat.le_trans atFirst (ordered.append.2.1.head_le entry mem)

theorem landingIndex_le (key : Nat) (keyIsMax : Bool) (passed rest : List (Nat × Nat)) :
    landingIndex key keyIsMax passed rest ≤ passed.length := by
  unfold landingIndex
  split
  · exact Nat.sub_le _ _
  · exact Nat.le_refl _

theorem landingIndex_lt (nonempty : passed ++ rest ≠ []) :
    landingIndex key true passed rest < (passed ++ rest).length := by
  have positive := length_pos_of_ne_nil nonempty
  rw [length_append] at positive ⊢
  cases rest with
  | nil =>
    simp only [length_nil, Nat.add_zero] at positive ⊢
    simp only [landingIndex, positive, List.head?_nil, Option.not_mem_none, false_implies,
      implies_true, and_self, if_true]
    omega
  | cons first others =>
    have := landingIndex_le key true passed (first :: others)
    simp only [length_cons]
    omega

/-- The separators around the next node are those around this one, or keys
between them. -/
theorem walkKeysOk.narrow {parentPrev parentNext prev next : Nat}
    (low : prev = parentPrev ∨ prev ≠ 0 ∧ parentPrev ≤ prev)
    (high : next = parentNext ∨ next ≠ 0 ∧ (parentNext = 0 ∨ next ≤ parentNext)) :
    walkKeysOk parentPrev parentNext prev next := by
  unfold walkKeysOk
  omega

theorem walkFrom_leaf {room index : Nat} {keyIsMax : Bool} {entries : List (Nat × Nat)}
    (reads : Reads config (leaf block entries)) (ordered : Ordered entries)
    (between : ∀ entry ∈ entries, prevKeyAt (leaf block entries) frames ≤ entry.1 ∧
      (nextKeyAt frames = 0 ∨ entry.1 ≤ nextKeyAt frames))
    (upTo : index ≤ entries.length)
    (inside : keyIsMax = true → frames ≠ [] → index < entries.length)
    (found : blockTreeNodeFindBlock none ((leaf block entries).toNode config) key keyIsMax =
      some (index, (leaf block entries).keys.getD index 0)) :
    ∃ prevKey, (index = 0 → prevKey = prevKeyAt (leaf block entries) frames) ∧
      walkFrom none key keyIsMax (room + 1) ((leaf block entries).embed config)
        (prevKeyAt (leaf block entries) frames) (nextKeyAt frames)
        (pathEntries config (leaf block entries) frames) =
      some (pathAt config (leaf block entries) index frames prevKey) := by
  have isLeaf : ((leaf block entries).toNode config).isLeaf = true := rfl
  have keyAt : ∀ position < entries.length,
      ∃ entry ∈ entries, (leaf block entries).keys.getD position 0 = entry.1 := by
    intro position inside
    refine ⟨entries[position], getElem_mem inside, ?_⟩
    rw [BTree.keys, getD_eq_getElem _ _ (by simpa using inside), getElem_map]
  have present :
    ¬ (keyIsMax = true ∧ (((leaf block entries).slots config).getD index .nil).toBlock = 0 ∧
      pathEntries config (leaf block entries) frames ≠ []) := by
    rintro ⟨isMax, zero, someAbove⟩
    have inside : index < entries.length := inside isMax (by rintro rfl; exact someAbove rfl)
    rw [BTree.slots, getD_eq_getElem _ _ (by simpa using inside), getElem_map] at zero
    exact ordered.data_ne_zero _ (getElem_mem inside) zero
  have nextEq : (if (leaf block entries).keys.getD index 0 = 0 then nextKeyAt frames
      else (leaf block entries).keys.getD index 0) =
      if index < entries.length then (leaf block entries).keys.getD index 0
      else nextKeyAt frames := by
    rw [← ite_not]
    exact if_congr (getD_leaf_keys ordered) rfl rfl
  refine ⟨if index = 0 then prevKeyAt _ frames else (leaf block entries).keys.getD (index - 1) 0,
    fun atStart => if_pos atStart, ?_⟩
  have keysOk : walkKeysOk (prevKeyAt (leaf block entries) frames) (nextKeyAt frames)
      (if index = 0 then prevKeyAt (leaf block entries) frames else (leaf block entries).keys.getD
        (index - 1) 0)
      (if index < entries.length then (leaf block entries).keys.getD index 0
        else nextKeyAt frames) := by
    apply walkKeysOk.narrow
    · by_cases atStart : index = 0
      · exact .inl (if_pos atStart)
      obtain ⟨entry, inLeaf, keyEq⟩ := keyAt (index - 1) (by omega)
      rw [if_neg atStart, keyEq]
      exact .inr ⟨ordered.key_ne_zero entry inLeaf, (between entry inLeaf).1⟩
    · by_cases inside : index < entries.length
      · obtain ⟨entry, inLeaf, keyEq⟩ := keyAt index inside
        rw [if_pos inside, keyEq]
        exact .inr ⟨ordered.key_ne_zero entry inLeaf, (between entry inLeaf).2⟩
      · exact .inl (if_neg inside)
  simp only [walkFrom, embed_asNode, found, Option.bind_eq_bind, Option.bind_some, isLeaf,
    if_true, reads.key, reads.slot, ← apply_ite, if_neg present, nextEq, keysOk,
    not_true_eq_false, if_false]
  rfl

section

variable {frame : Frame} {child : BTree} {keyIsMax : Bool}
  (sound : Sound config (height + 1 + frames.length)
      (plug (frame.close child) frames))
  (ordered : Ordered (plug (frame.close child) frames).entries)

include sound ordered

theorem walkFrom_node {room : Nat}
    (found : blockTreeNodeFindBlock none ((frame.close child).toNode config) key keyIsMax =
      some (frame.left.length, (frame.right.map firstKey).headD 0)) :
    walkFrom none key keyIsMax (room + 1) ((frame.close child).embed config)
        (prevKeyAt (frame.close child) frames) (nextKeyAt frames)
        (pathEntries config (frame.close child) frames) =
      walkFrom none key keyIsMax room (child.embed config) (prevKeyAt child (frame :: frames))
        (nextKeyAt (frame :: frames)) (pathEntries config child (frame :: frames)) := by
  have here : Sound config (height + 1) (frame.close child) :=
    Sound.hole frames sound
  have reads : Reads config (frame.close child) := here.reads
  have inner : ((frame.close child).toNode config).isLeaf = false := rfl
  have slotEq :
    blockTreeNodeGetSlot none ((frame.close child).toNode config) frame.left.length =
      some (child.embed config) := by
    rw [reads.slot]
    simp [BTree.slots, Frame.close]
  have within : ∀ other ∈ frame.left ++ child :: frame.right, other.firstKey ≠ 0 ∧
      prevKeyAt (frame.close child) frames ≤ other.firstKey ∧
      (nextKeyAt frames = 0 ∨ other.firstKey ≤ nextKeyAt frames) := by
    intro other mem
    rcases exists_entry_firstKey (here.2.2.2 other mem).2 with ⟨entry, inOther, entryKey⟩
    have inNode : entry ∈ (frame.close child).entries := mem_entriesAll.mpr ⟨other, mem, inOther⟩
    rw [← entryKey]
    exact ⟨(ordered.hole frames).key_ne_zero entry inNode,
      between_separators sound ordered inNode⟩
  have nextEq : (if (frame.right.map firstKey).headD 0 = 0 then nextKeyAt frames
      else (frame.right.map firstKey).headD 0) = nextKeyAt (frame :: frames) := by
    cases rightEq : frame.right with
    | nil => simp [nextKeyAt, rightEq]
    | cons other others => simp [nextKeyAt, rightEq, (within other (by simp [rightEq])).1]
  have prevEq : (if frame.left.length = 0 then some (prevKeyAt (frame.close child) frames)
      else blockTreeNodeGetKey none ((frame.close child).toNode config)
      (frame.left.length - 1)) =
      some (prevKeyAt child (frame :: frames)) := by
    rw [reads.key]
    cases leftEq : frame.left with
    | nil => simp [prevKeyAt, leftEq]
    | cons first others => simp [Frame.close, BTree.keys, separators, prevKeyAt, leftEq]
  have keysOk : walkKeysOk (prevKeyAt (frame.close child) frames) (nextKeyAt frames)
      (prevKeyAt child (frame :: frames)) (nextKeyAt (frame :: frames)) := by
    apply walkKeysOk.narrow
    · cases leftEq : frame.left with
      | nil => simp [prevKeyAt, leftEq]
      | cons first others =>
        obtain ⟨nonzero, high, _⟩ := within child (by simp)
        simp [prevKeyAt, leftEq, nonzero, high]
    · cases rightEq : frame.right with
      | nil => simp [nextKeyAt, rightEq]
      | cons other others =>
        obtain ⟨nonzero, _, low⟩ := within other (by simp [rightEq])
        simp [nextKeyAt, rightEq, nonzero, low]
  have childBlock : ¬ (child.embed config).toBlock = 0 := by
    rw [embed_toBlock]
    exact (here.2.2.2 child (by simp)).1.block_ne_zero
  simp only [walkFrom, embed_asNode, found, Option.bind_eq_bind, Option.bind_some, inner,
    Bool.false_eq_true, if_false, slotEq, nextEq, prevEq, keysOk, not_true_eq_false,
    if_neg childBlock]
  rfl

/-- What a search for `key` leaves around the child it goes to. -/
theorem around_child (low : ∀ entry ∈ before frames, entry.1 ≤ key)
    (high : ∀ entry ∈ after frames, key < entry.1)
    (lowChild : frame.left ≠ [] → child.firstKey ≤ key)
    (highChild : ∀ other ∈ frame.right.head?, key < other.firstKey) :
    (∀ entry ∈ before (frame :: frames), entry.1 ≤ key) ∧
    ∀ entry ∈ after (frame :: frames), key < entry.1 := by
  have here : Sound config (height + 1) (frame.close child) :=
    Sound.hole frames sound
  have orderedHere : Ordered (entriesAll (frame.left ++ child :: frame.right)) :=
    ordered.hole frames
  rw [entriesAll_append, entriesAll] at orderedHere
  constructor
  · intro entry mem
    rcases mem_append.mp mem with outside | inLeft
    · exact low entry outside
    have someLeft : frame.left ≠ [] := by
      intro empty
      simp [empty, entriesAll] at inLeft
    rcases exists_entry_firstKey (here.2.2.2 child (by simp)).2 with ⟨first, firstIn, firstEq⟩
    have ordering := orderedHere.append.2.2 entry inLeft first (mem_append_left _ firstIn)
    exact Nat.le_trans (firstEq ▸ ordering) (lowChild someLeft)
  · intro entry mem
    rcases mem_append.mp mem with inRight | outside
    swap
    · exact high entry outside
    have orderedRight := orderedHere.append.2.1.append.2.1
    cases rightEq : frame.right with
    | nil => simp [rightEq, entriesAll] at inRight
    | cons other others =>
      have nonempty := (here.2.2.2 other (by simp [rightEq])).2
      rcases exists_cons_of_ne_nil nonempty with ⟨first, rest, firstEq⟩
      have positive := highChild other (by simp [rightEq])
      simp only [rightEq, entriesAll, firstEq, cons_append] at orderedRight inRight
      simp only [firstKey, firstEq] at positive
      exact Nat.lt_of_lt_of_le positive (orderedRight.head_le entry inRight)

end

theorem plug_append (tree : BTree) (inner outer : List Frame) :
    plug tree (inner ++ outer) = plug (plug tree inner) outer := by
  induction inner generalizing tree with
  | nil => rfl
  | cons frame inner ih => exact ih (frame.close tree)

theorem walkFrom_lands (key : Nat) (keyIsMax : Bool) (frames : List Frame) {room : Nat}
    (sound : Sound config (height + frames.length) (plug tree frames))
    (deep : height < room) (ordered : Ordered (plug tree frames).entries)
    (nonempty : frames ≠ [] → tree.entries ≠ []) (low : ∀ entry ∈ before frames, entry.1 ≤ key)
    (high : ∀ entry ∈ after frames, key < entry.1) (edge : prevKeyAt tree frames ≤ key) :
    ∃ block passed rest inner, inner.length = height ∧
      plug (leaf block (passed ++ rest)) inner = tree ∧
      Lands key (inner ++ frames) passed rest ∧
      prevKeyAt (leaf block (passed ++ rest)) (inner ++ frames) ≤ key ∧
      (inner ++ frames ≠ [] → passed ++ rest ≠ []) ∧
      ∃ prevKey, (landingIndex key keyIsMax passed rest = 0 →
          prevKey = prevKeyAt (leaf block (passed ++ rest)) (inner ++ frames)) ∧
        walkFrom none key keyIsMax room (tree.embed config) (prevKeyAt tree frames)
          (nextKeyAt frames) (pathEntries config tree frames) =
        some (pathAt config (leaf block (passed ++ rest)) (landingIndex key keyIsMax passed rest)
          (inner ++ frames) prevKey) := by
  obtain ⟨room, rfl⟩ := Nat.exists_eq_succ_of_ne_zero (Nat.ne_of_gt (Nat.zero_lt_of_lt deep))
  have here := Sound.hole frames sound
  induction height generalizing room tree frames with
  | zero =>
    cases tree with
    | node block children => exact here.elim
    | leaf block entries =>
      have orderedHere : Ordered entries := ordered.hole frames
      rcases leaf_search key keyIsMax here.reads orderedHere with
        ⟨passed, rest, rfl, found, below, atLeast⟩
      refine ⟨block, passed, rest, [], rfl, rfl, ⟨low, below, atLeast, high⟩, edge, nonempty, ?_⟩
      apply walkFrom_leaf here.reads orderedHere
        (fun entry inside => between_separators sound ordered inside) ?_ ?_ found
      · have := landingIndex_le key keyIsMax passed rest
        rw [length_append]
        omega
      · rintro rfl someFrames
        exact landingIndex_lt (nonempty someFrames)
  | succ height ih =>
    rcases exists_frame_of_search key keyIsMax here (ordered.hole frames) with
      ⟨frame, child, rfl, found, lowChild, highChild⟩
    obtain ⟨lower, upper⟩ := around_child sound ordered low high lowChild highChild
    have edgeChild : prevKeyAt child (frame :: frames) ≤ key := by
      cases leftEq : frame.left with
      | nil => simpa only [prevKeyAt, leftEq] using edge
      | cons first others => simpa only [prevKeyAt, leftEq] using lowChild (by simp [leftEq])
    have belowHere := here.2.2.2 child (by simp)
    have soundChild : Sound config (height + (frame :: frames).length)
        (plug child (frame :: frames)) := by
      rw [add_length_cons]
      exact sound
    obtain ⟨room, rfl⟩ := Nat.exists_eq_succ_of_ne_zero (show room ≠ 0 by omega)
    rcases ih _ soundChild ordered (fun _ => belowHere.2) lower upper edgeChild room
      (Nat.lt_of_succ_lt_succ deep) belowHere.1 with
      ⟨block, passed, rest, innerFrames, depth, plugged, lands, leafEdge, leafNonempty, prevKey,
        atStart, walked⟩
    have regroup : innerFrames ++ [frame] ++ frames = innerFrames ++ frame :: frames := by simp
    refine ⟨block, passed, rest, innerFrames ++ [frame], by simp [depth], ?_, ?_⟩
    · rw [plug_append, plugged]
      rfl
    rw [regroup]
    refine ⟨lands, leafEdge, leafNonempty, prevKey, atStart, ?_⟩
    rw [← walked]
    exact walkFrom_node sound ordered found

end Walk

section Next

variable {config : TreeConfig}

theorem head_pathEntries (tree : BTree) (frames : List Frame) :
    (((pathEntries config tree frames).head?.map PathEntry.nextKey).getD 0) = nextKeyAt frames := by
  cases frames with
  | nil => rfl
  | cons frame frames => rfl

variable {height block : Nat} {tree first : BTree} {rest : List BTree}

theorem BTree.Reads.next (reads : Reads config tree) (index prevKey nextKey : Nat) :
    readNext none ⟨tree.toNode config, index, prevKey, nextKey⟩ =
      some (tree.keys.getD index 0, tree.keys.getD (index + 1) 0,
        (tree.slots config).getD (index + 1) .nil) := by
  rw [readNext, reads.key, reads.key, reads.slot]
  rfl

theorem toNode_first_key {second : BTree} :
    ((node block (first :: second :: rest)).toNode config).keys.getD 0 0 = second.firstKey := by
  have room := config.two_le_keyCount false
  rw [toNode, getD_fill (by omega)]
  rfl

theorem toNode_first_slot :
    ((node block (first :: rest)).toNode config).slots.getD 0 .nil = first.embed config := by
  rfl

/-- The climb of `block_tree_path_next` reaches the subtree after the hole. -/
theorem nextSubtree_moves {frames : List Frame}
    (sound : Sound config (height + frames.length) (plug tree frames))
    (ordered : Ordered (plug tree frames).entries) (more : nextKeyAt frames ≠ 0) :
    ∃ sub newFrames, plug sub newFrames = plug tree frames ∧ newFrames.length = frames.length ∧
      before newFrames = before frames ++ tree.entries ∧ sub.entries ≠ [] ∧
      prevKeyAt sub newFrames = sub.firstKey ∧
      nextSubtree none (pathEntries config tree frames) =
        some (sub.embed config, sub.firstKey, pathEntries config sub newFrames) := by
  induction frames generalizing height tree with
  | nil => exact (more rfl).elim
  | cons frame frames ih =>
    rw [add_length_cons] at sound
    have here : Sound config (height + 1) (frame.close tree) :=
      Sound.hole frames sound
    have reads : Reads config (frame.close tree) := here.reads
    have inner : ¬ (nextKeyAt (frame :: frames) ≠ 0 ∧
        ((frame.close tree).toNode config).isLeaf = true) :=
      fun both => absurd both.2 Bool.false_ne_true
    have slotEq : ((frame.close tree).slots config).getD (frame.left.length + 1) .nil =
        (frame.right.map (embed config)).getD 0 .nil := by
      change (List.map (embed config) (frame.left ++ tree :: frame.right)).getD _ _ = _
      rw [map_append, map_cons, getD_append_right _ _ _ _ (by simp)]
      simp
    cases rightEq : frame.right with
    | nil =>
      -- the hole is in the last child: the subtree is below the next one of the parent
      have moreAbove : nextKeyAt frames ≠ 0 := by
        simpa only [nextKeyAt, rightEq] using more
      rcases ih sound ordered moreAbove with
        ⟨sub, newFrames, plugged, lengths, beforeEq, nonempty, edge, moved⟩
      have soundSub : Sound config (height + 1) sub := by
        apply Sound.hole newFrames
        rw [plugged, lengths]
        exact sound
      rcases exists_children_of_sound soundSub with ⟨block, first, second, rest, rfl⟩
      have nonemptyFirst : first.entries ≠ [] := (soundSub.2.2.2 first (by simp)).2
      have firstEq : (node block (first :: second :: rest)).firstKey = first.firstKey :=
        firstKey_node nonemptyFirst
      refine ⟨first, ⟨block, [], second :: rest⟩ :: newFrames, plugged, by simp [lengths], ?_,
        nonemptyFirst, ?_, ?_⟩
      · have closed : (frame.close tree).entries = entriesAll frame.left ++ tree.entries := by
          simp [Frame.close, BTree.entries, entriesAll, rightEq]
        rw [before, beforeEq, before, closed]
        simp [entriesAll]
      · change prevKeyAt (node block (first :: second :: rest)) newFrames = _
        rw [edge, firstEq]
      have stop :
          (((frame.close tree).slots config).getD (frame.left.length + 1) .nil).toBlock = 0 := by
        rw [slotEq, rightEq]
        rfl
      have orderedSub : Ordered (node block (first :: second :: rest)).entries := by
        apply Ordered.hole newFrames
        rw [plugged]
        exact ordered
      have descends : ¬ (((node block (first :: second :: rest)).toNode config).isLeaf = true ∨
          second.firstKey = 0 ∨ (first.embed config).toBlock = 0) := by
        rw [embed_toBlock]
        rintro (isLeaf | noKey | noBlock)
        · exact Bool.false_ne_true isLeaf
        · exact soundSub.firstKey_ne_zero orderedSub (by simp) noKey
        · exact (soundSub.2.2.2 first (by simp)).1.block_ne_zero noBlock
      simp only [pathEntries, nextSubtree, if_neg more, reads.next, Option.bind_eq_bind,
        Option.bind_some, if_neg inner, if_pos stop, moved, embed_asNode, toNode_first_key,
        toNode_first_slot, if_neg descends, firstEq]
      rw [prevKeyAt, Frame.close, nil_append, edge, firstEq]
      rfl
    | cons next others =>
      have nextIn : next ∈ frame.left ++ tree :: frame.right := by simp [rightEq]
      have soundNext := here.2.2.2 next nextIn
      have orderedHere : Ordered (entriesAll (frame.left ++ tree :: frame.right)) :=
        ordered.hole frames
      have edge : prevKeyAt next (⟨frame.block, frame.left ++ [tree], others⟩ :: frames) =
          next.firstKey := by
        cases leftEq : frame.left <;> simp [prevKeyAt]
      refine ⟨next, ⟨frame.block, frame.left ++ [tree], others⟩ :: frames, ?_, rfl, ?_,
        soundNext.2, edge, ?_⟩
      · simp [plug, Frame.close, rightEq]
      · simp [before, entriesAll]
      have go : ¬ (next.embed config).toBlock = 0 := by
        rw [embed_toBlock]
        exact soundNext.1.block_ne_zero
      have nextKeyEq : nextKeyAt (frame :: frames) = next.firstKey := by
        simp only [nextKeyAt, rightEq]
      have agrees : ¬ (next.firstKey = 0 ∨ next.firstKey ≠ nextKeyAt (frame :: frames)) := by
        rw [nextKeyEq]
        exact not_or.mpr ⟨here.firstKey_ne_zero orderedHere nextIn, not_not.mpr rfl⟩
      have sameNode : (Frame.close ⟨frame.block, frame.left ++ [tree], others⟩ next) =
          frame.close tree := by
        simp [Frame.close, rightEq]
      have prevEq : (frame.close tree).keys.getD frame.left.length 0 = next.firstKey := by
        exact (getD_separators_right frame.left frame.right tree 0).trans (by simp [rightEq])
      have nextEq :
          (frame.close tree).keys.getD (frame.left.length + 1) 0 = (others.map firstKey).getD
            0 0 := by
        exact (getD_separators_right frame.left frame.right tree 1).trans (by simp [rightEq])
      have upper : (if (others.map firstKey).getD 0 0 = 0 then nextKeyAt frames
          else (others.map firstKey).getD 0 0) =
          nextKeyAt (⟨frame.block, frame.left ++ [tree], others⟩ :: frames) := by
        cases others with
        | nil => rfl
        | cons other rest =>
          exact if_neg (here.firstKey_ne_zero orderedHere (by simp [rightEq]))
      simp only [pathEntries, nextSubtree, if_neg more, reads.next, Option.bind_eq_bind,
        Option.bind_some, slotEq, rightEq, head_pathEntries, prevEq, nextEq, sameNode, upper, edge,
        map_cons, getD_cons_zero, length_append,
        length_singleton, if_neg inner, if_neg go, if_neg agrees]

variable (prevKey : Nat) {block index : Nat} {entries : List (Nat × Nat)} {frames : List Frame}

/-- The assertions at the start of `block_tree_path_next`. -/
theorem blockTreePathNext_starts (config : TreeConfig) (ordered : Ordered entries)
    (current : index < entries.length ∨ nextKeyAt frames ≠ 0) :
    ¬ ((if index < (leaf block entries).entries.length then (leaf block entries).keys.getD index 0
          else nextKeyAt frames) = 0 ∨ ¬ ((leaf block entries).toNode config).isLeaf = true ∨
        ((if index < (leaf block entries).entries.length then (leaf block entries).keys.getD index 0
          else nextKeyAt frames) ≠ (leaf block entries).keys.getD index 0 ∧
            (leaf block entries).keys.getD index 0 ≠ 0)) := by
  have here : (leaf block entries).keys.getD index 0 ≠ 0 ↔
      index < entries.length := getD_leaf_keys ordered
  generalize (leaf block entries).keys.getD index 0 = key at here ⊢
  by_cases inside : index < entries.length
  · simp [BTree.entries, toNode, inside, here.mpr inside]
  · simp [BTree.entries, toNode, inside, current.resolve_left inside,
      not_not.mp (mt here.mp inside)]

theorem blockTreePathNext_inside (reads : Reads config (leaf block entries))
    (ordered : Ordered entries) (current : index < entries.length)
    (stays : index + 1 < entries.length ∨ nextKeyAt frames = 0) :
    ∃ newPrevKey, blockTreePathNext none
      (pathAt config (leaf block entries) index frames prevKey) =
      some (pathAt config (leaf block entries) (index + 1) frames newPrevKey) := by
  have moves : (leaf block entries).keys.getD (index + 1) 0 ≠ 0 ∨ nextKeyAt frames = 0 :=
    stays.imp_left (getD_leaf_keys ordered).mpr
  have keyEq : (if index + 1 < (leaf block entries).entries.length then
      (leaf block entries).keys.getD (index + 1) 0 else nextKeyAt frames) =
      (leaf block entries).keys.getD (index + 1) 0 := by
    by_cases inside : index + 1 < entries.length
    · exact if_pos inside
    have none : (leaf block entries).keys.getD (index + 1) 0 = 0 :=
      not_not.mp (mt (getD_leaf_keys ordered).mp inside)
    rw [none, stays.resolve_left inside, ite_self]
  refine ⟨(leaf block entries).keys.getD index 0, ?_⟩
  have starts := @blockTreePathNext_starts block index entries frames config ordered (.inl current)
  have ascends : ¬ ((leaf block entries).keys.getD (index + 1) 0 ≠ 0 ∧
      (leaf block entries).keys.getD (index + 1) 0 < (leaf block entries).keys.getD index 0) := by
    rintro ⟨nextHere, below⟩
    have inside := (getD_leaf_keys ordered).mp nextHere
    have rises := pairwise_iff_getElem.mp ordered.sorted index (index + 1) current inside
      (Nat.lt_succ_self index)
    simp only [BTree.keys, getD_eq_getElem?_getD, List.getElem?_map,
      List.getElem?_eq_getElem current, List.getElem?_eq_getElem inside, Option.map_some,
      Option.getD_some] at below
    omega
  simp only [blockTreePathNext, pathAt, reads.next, Option.bind_eq_bind, Option.bind_some,
    head_pathEntries, if_neg starts, if_pos moves, if_neg ascends]
  rw [keyEq]

theorem blockTreePathNext_leaf
    (sound : Sound config (0 + frames.length) (plug (leaf block entries) frames))
    (ordered : Ordered (plug (leaf block entries) frames).entries)
    (last : entries.length ≤ index + 1) (more : nextKeyAt frames ≠ 0) :
    ∃ newBlock newEntries newFrames newPrevKey,
      plug (leaf newBlock newEntries) newFrames = plug (leaf block entries) frames ∧
      newFrames.length = frames.length ∧ before newFrames = before frames ++ entries ∧
      newEntries ≠ [] ∧
      blockTreePathNext none (pathAt config (leaf block entries) index frames prevKey) =
        some (pathAt config (leaf newBlock newEntries) 0 newFrames newPrevKey) := by
  have here : Sound config 0 (leaf block entries) := Sound.hole frames sound
  have orderedHere : Ordered entries := ordered.hole frames
  rcases nextSubtree_moves sound ordered more with
    ⟨sub, newFrames, plugged, lengths, beforeEq, nonempty, edge, moved⟩
  have soundSub : Sound config 0 sub := by
    apply Sound.hole newFrames
    rw [plugged, lengths]
    exact sound
  cases sub with
  | node newBlock children => exact soundSub.elim
  | leaf newBlock newEntries =>
    have noMore : ¬ ((leaf block entries).keys.getD (index + 1) 0 ≠ 0 ∨ nextKeyAt frames = 0) := by
      rintro (inside | zero)
      · have := (getD_leaf_keys orderedHere).mp inside
        omega
      · exact more zero
    have starts :=
      @blockTreePathNext_starts block index entries frames config orderedHere (.inr more)
    have orderedNew : Ordered newEntries := by
      rw [← plugged] at ordered
      exact ordered.hole newFrames
    have room := config.two_le_keyCount true
    have keyEq : ((leaf newBlock newEntries).toNode config).keys.getD 0 0 =
        (leaf newBlock newEntries).keys.getD 0 0 := by
      rw [toNode, getD_fill (by omega)]
      rfl
    have slotEq : ((leaf newBlock newEntries).toNode config).slots.getD 0 .nil =
        ((leaf newBlock newEntries).slots config).getD 0 .nil := by
      rw [toNode, getD_fill (by simp only [TreeConfig.slotCount]; omega)]
      rfl
    have positive : 0 < (leaf newBlock newEntries).entries.length := length_pos_of_ne_nil nonempty
    have arrives : ¬ (¬ ((leaf newBlock newEntries).toNode config).isLeaf = true ∨
        (leaf newBlock newEntries).keys.getD 0 0 = 0) := by
      rintro (inner | none)
      · exact inner rfl
      · exact (getD_leaf_keys orderedNew).mpr positive none
    refine ⟨newBlock, newEntries, newFrames, (leaf newBlock newEntries).firstKey, plugged, lengths,
      beforeEq, nonempty, ?_⟩
    simp only [blockTreePathNext, pathAt, here.reads.next, Option.bind_eq_bind, Option.bind_some,
      head_pathEntries, if_neg starts, if_neg noMore, moved, embed_asNode, keyEq, slotEq,
      if_pos positive, if_neg arrives]

end Next

/-! ### Whole trees -/

section Whole

variable {config : TreeConfig}

variable {block height : Nat} {tree : BTree} {frames : List Frame}

theorem BTree.Root.sound (fits : Root config height tree) : tree.Sound config height := by
  induction fits using Root.induction with
  | leaf block entries fits => exact fits
  | node height block children fits ih =>
    refine ⟨fits.1, fits.2.1, fits.2.2.1, ?_⟩
    exact fun child inside => ⟨ih child inside, (fits.2.2.2 child inside).entries_ne_nil⟩

theorem BTree.Root.toBlock_ne_zero (fits : Root config height tree) :
    (tree.embed config).toBlock ≠ 0 := by
  rw [embed_toBlock]
  exact fits.sound.block_ne_zero

section

variable (key : Nat) (keyIsMax : Bool) (sound : Sound config height tree)

include sound

theorem blockTreeWalk_lands (deep : height < blockTreeMaxDepth) (ordered : Ordered tree.entries) :
    ∃ block passed rest frames prevKey, frames.length = height ∧
      plug (leaf block (passed ++ rest)) frames = tree ∧ Lands key frames passed rest ∧
      prevKeyAt (leaf block (passed ++ rest)) frames ≤ key ∧
      (frames ≠ [] → passed ++ rest ≠ []) ∧
      (landingIndex key keyIsMax passed rest = 0 →
        prevKey = prevKeyAt (leaf block (passed ++ rest)) frames) ∧
      blockTreeWalk ⟨tree.embed config, none⟩ key keyIsMax =
        some (pathAt config (leaf block (passed ++ rest)) (landingIndex key keyIsMax passed rest)
          frames prevKey) := by
  have walked := walkFrom_lands key keyIsMax [] sound deep ordered
    (fun some => (some rfl).elim) (by simp [before]) (by simp [after]) (Nat.zero_le key)
  simp only [append_nil] at walked
  rcases walked with ⟨block, passed, rest, frames, depth, plugged, lands, edge, nonempty, prevKey,
    atStart, result⟩
  refine ⟨block, passed, rest, frames, prevKey, depth, plugged, lands, edge, nonempty, atStart, ?_⟩
  rw [blockTreeWalk, embed_toBlock, if_neg sound.block_ne_zero]
  exact result

theorem walkFrom_too_deep {room : Nat} (deep : room ≤ height) (prevKey nextKey : Nat)
    (above : List PathEntry) :
    walkFrom none key keyIsMax room (tree.embed config) prevKey nextKey above = none := by
  induction room generalizing height tree prevKey nextKey above with
  | zero => rfl
  | succ room ih =>
    cases height with
    | zero => exact absurd deep (Nat.not_succ_le_zero room)
    | succ height =>
      cases tree with
      | leaf block entries => exact sound.elim
      | node block children =>
        unfold walkFrom
        simp only [embed_asNode, sound.reads.slot]
        refine Option.bind_eq_none_iff.mpr fun found _ => Option.bind_eq_none_iff.mpr
          fun foundPrevKey _ => ?_
        rw [Option.bind_eq_bind, Option.bind_some,
          if_neg
          (show ¬ ((node block children).toNode config).isLeaf = true from Bool.false_ne_true)]
        generalize found.1 = index
        refine ite_eq_left_iff.mpr fun _ => ite_eq_left_iff.mpr fun present => ?_
        by_cases inside : index < children.length
        · have slot : ((node block children).slots config).getD index .nil =
              children[index].embed config := by
            simp [BTree.slots, inside]
          rw [slot]
          exact ih (sound.2.2.2 _ (getElem_mem inside)).1
            (Nat.le_of_succ_le_succ deep) _ _ _
        · have unused : ((node block children).slots config).getD index .nil = .nil :=
            getD_eq_default _ _ (by simpa [BTree.slots] using inside)
          rw [unused] at present
          exact (present rfl).elim

theorem blockTreeWalk_too_deep (deep : blockTreeMaxDepth ≤ height) :
    blockTreeWalk ⟨tree.embed config, none⟩ key keyIsMax = none := by
  rw [blockTreeWalk, embed_toBlock, if_neg sound.block_ne_zero]
  exact walkFrom_too_deep key keyIsMax sound deep 0 0 []

end

theorem above_pathEntries
    (sound : Sound config (height + frames.length) (plug tree frames))
    (nonempty : tree.entries ≠ []) :
    Above config frames tree.firstKey (pathEntries config tree frames) := by
  induction frames generalizing height tree with
  | nil => trivial
  | cons frame frames ih =>
    rw [add_length_cons] at sound
    have here : Sound config (height + 1) (frame.close tree) :=
      Sound.hole frames sound
    have siblings : ∀ child ∈ frame.left, child.entries ≠ [] := fun child mem =>
      (here.2.2.2 child (mem_append_left _ mem)).2
    refine ⟨rfl, rfl, rfl, ?_, ⟨tree.embed config, ?_⟩, ?_, ?_, ?_⟩
    · rw [Frame.keys_eq_separators]
      rfl
    · simp [Frame.close, toNode]
    · intro someLeft
      rcases exists_cons_of_ne_nil someLeft with ⟨first, rest, leftEq⟩
      simp [prevKeyAt, leftEq]
    · intro child rest rightEq
      simp [nextKeyAt, rightEq]
    · rw [← Frame.firstKey_close nonempty siblings]
      exact ih sound (Frame.close_ne_nil nonempty)

theorem BTree.Root.context (fits : Root config (height + frames.length) (plug tree frames)) :
    Context config height frames ∧ (frames ≠ [] → Sub config height tree) ∧
      Root config height tree := by
  induction frames generalizing height tree with
  | nil => exact ⟨trivial, fun some => (some rfl).elim, fits⟩
  | cons frame frames ih =>
    rw [add_length_cons] at fits
    rcases ih fits with ⟨outer, inner, closed⟩
    rcases closed with ⟨nonzero, two, room, below⟩
    simp only [length_append, length_cons] at two room
    have fitsHere : Sub config height tree := below tree (by simp)
    refine ⟨⟨nonzero, ?_, ?_, by omega, outer⟩, fun _ => fitsHere, fitsHere.root⟩
    · obtain ⟨left, rest⟩ := forall_mem_append.mp below
      exact forall_mem_append.mpr ⟨left, (forall_mem_cons.mp rest).2⟩
    · by_cases outermost : frames = []
      · rw [if_pos outermost]
        omega
      · rw [if_neg outermost]
        have enough := (inner outermost).2.1
        simp only [length_append, length_cons] at enough
        omega

end Whole

end Trusty.Storage
