import Mathlib.Algebra.BigOperators.Group.List.Defs
import Mathlib.Data.Multiset.AddSub
import Trusty.Storage.BlockTreeRemove

/-!
Runs of tree operations.

`Layout` says of the node arrays themselves what a tree has to look like, and
`Tree.entries` reads the leaves from left to right.  Every tree that operations
build from the empty tree has that layout, and holds the multiset of pairs that
the same operations give, as long as each operation is `Clear`: the tree is not
deeper than the code allows, and an insertion splits no node at a key equal to
the separator after it.  At such a key `block_tree_node_split` fails an
assertion.
-/

namespace Trusty.Storage

open Lib AllocProgram BTree

namespace Tree

mutual

def entries : Tree → List (Nat × Nat)
  | node true _ keys slots => (keys.takeWhile (· != 0)).zip (slots.map toBlock)
  | node false _ _ slots => entriesAll slots
  | _ => []

def entriesAll : List Tree → List (Nat × Nat)
  | [] => []
  | slot :: rest => entries slot ++ entriesAll rest

end

mutual

/-- The number of nodes on the way to the first leaf. -/
def levels : Tree → Nat
  | node true _ _ _ => 1
  | node false _ _ slots => levelsFirst slots + 1
  | _ => 0

def levelsFirst : List Tree → Nat
  | [] => 0
  | slot :: _ => levels slot

end

end Tree

/-- The arrays of a node with `count` keys between the separators `low` and
`high`, which are 0 where there is none. -/
structure NodeLayout (config : TreeConfig) (inner : Bool) (low high : Nat) (isLeaf : Bool)
    (keys : List Nat) (slots : List Tree) (count : Nat) : Prop where
  keys_length : keys.length = config.keyCount isLeaf
  slots_length : slots.length = config.slotCount isLeaf
  count_le : count ≤ config.keyCount isLeaf
  half_full : inner = true → config.keyCount isLeaf / 2 ≤ count
  used : ∀ index < count, keys.getD index 0 ≠ 0
  unused_keys : ∀ index, count ≤ index → keys.getD index 0 = 0
  unused_slots : ∀ index, (count + if isLeaf then 0 else 1) ≤ index → slots.getD index .nil = .nil
  sorted : (keys.take count).Pairwise (· ≤ ·)
  bounded : ∀ key ∈ keys.take count, low ≤ key ∧ (high = 0 ∨ key ≤ high)

/-- A tree with all leaves `height` levels below its root, whose keys are
between `low` and `high`; an inner node is at least half full. -/
def Layout (config : TreeConfig) : Nat → Bool → Nat → Nat → Tree → Prop
  | 0, inner, low, high, .node true block keys slots =>
    block ≠ 0 ∧ ∃ count, NodeLayout config inner low high true keys slots count ∧
      (∀ index < count, ∃ data, data ≠ 0 ∧ slots.getD index .nil = .data data) ∧
      (low ≠ 0 → keys.getD 0 0 = low)
  | height + 1, inner, low, high, .node false block keys slots =>
    block ≠ 0 ∧ ∃ count, 0 < count ∧ NodeLayout config inner low high false keys slots count ∧
      ∀ index ≤ count, Layout config height true
        (if index = 0 then low else keys.getD (index - 1) 0)
        (if index < count then keys.getD index 0 else high) (slots.getD index .nil)
  | _, _, _, _, _ => False

def Tree.WellFormed (config : TreeConfig) (tree : Tree) : Prop :=
  tree = .nil ∨ ∃ height, Layout config height false 0 0 tree

open List

section Layout

variable {config : TreeConfig} {inner : Bool} {low high : Nat}

theorem NodeLayout.of_fill {isLeaf : Bool} {keys : List Nat} {slots : List Tree}
    (aligned : slots.length = keys.length + if isLeaf then 0 else 1)
    (fits : keys.length ≤ config.keyCount isLeaf)
    (half : inner = true → config.minKeyCount isLeaf ≤ keys.length)
    (nonzero : ∀ key ∈ keys, key ≠ 0) (sorted : keys.Pairwise (· ≤ ·))
    (bounded : ∀ key ∈ keys, low ≤ key ∧ (high = 0 ∨ key ≤ high)) :
    NodeLayout config inner low high isLeaf (fill 0 (config.keyCount isLeaf) keys)
      (fill .nil (config.slotCount isLeaf) slots) keys.length := by
  have slotsFit : slots.length ≤ config.slotCount isLeaf := by
    rw [aligned]
    exact Nat.add_le_add_right fits _
  have taken : (fill 0 (config.keyCount isLeaf) keys).take keys.length = keys := by
    rw [fill_eq_pad fits]
    exact take_left
  constructor
  · exact length_fill
  · exact length_fill
  · exact fits
  · exact half
  · intro index inside
    rw [getD_fill_of_length_le fits, getD_eq_getElem _ _ inside]
    exact nonzero _ (getElem_mem inside)
  · intro index outside
    rw [getD_fill_of_length_le fits]
    exact getD_eq_default _ _ outside
  · intro index outside
    rw [getD_fill_of_length_le slotsFit]
    exact getD_eq_default _ _ (aligned ▸ outside)
  · rw [taken]
    exact sorted
  · rw [taken]
    exact bounded

theorem firstKeys_sorted {children : List BTree} (ordered : Ordered (BTree.entriesAll children))
    (nonempty : ∀ child ∈ children, child.entries ≠ []) :
    (children.map firstKey).Pairwise (· ≤ ·) := by
  induction children with
  | nil => exact List.Pairwise.nil
  | cons child rest ih =>
    obtain ⟨_, restOrdered, between⟩ := ordered.append
    apply pairwise_cons.mpr
    constructor
    · intro key mem
      obtain ⟨other, inRest, rfl⟩ := mem_map.mp mem
      obtain ⟨entry, inChild, entryKey⟩ := exists_entry_firstKey (nonempty child mem_cons_self)
      obtain ⟨otherEntry, inOther, otherKey⟩ :=
        exists_entry_firstKey (nonempty other (mem_cons_of_mem _ inRest))
      rw [← entryKey, ← otherKey]
      exact between entry inChild otherEntry (mem_entriesAll.mpr ⟨other, inRest, inOther⟩)
    · apply ih restOrdered
      exact fun other inRest => nonempty other (mem_cons_of_mem _ inRest)

variable {height block : Nat} {tree : BTree} {trees : List Tree} {entries : List (Nat × Nat)}

theorem BTree.Root.exists_entry (fits : Root config height tree) {key : Nat}
    (inside : key ∈ tree.keys) :
    ∃ entry ∈ tree.entries, entry.1 = key := by
  induction fits using Root.induction with
  | leaf block entries _ => exact mem_map.mp inside
  | node height block children fits _ =>
    obtain ⟨child, inTail, rfl⟩ := mem_map.mp inside
    have inChildren := mem_of_mem_tail inTail
    obtain ⟨entry, inChild, entryKey⟩ :=
      exists_entry_firstKey (fits.2.2.2 child inChildren).entries_ne_nil
    exact ⟨entry, mem_entriesAll.mpr ⟨child, inChildren, inChild⟩, entryKey⟩

theorem BTree.Root.keys_sorted (fits : Root config height tree) (ordered : Ordered tree.entries) :
    tree.keys.Pairwise (· ≤ ·) := by
  induction fits using Root.induction with
  | leaf block entries _ => exact pairwise_map.mpr ordered.sorted
  | node height block children fits _ =>
    have sorted := firstKeys_sorted ordered fun child inside =>
      (fits.2.2.2 child inside).entries_ne_nil
    exact sorted.sublist ((tail_sublist children).map firstKey)

/-- The separators left and right of a tree are its first key and a bound. -/
structure Fenced (low high : Nat) (tree : BTree) : Prop where
  low_eq : low ≠ 0 → tree.firstKey = low
  high_ge : high ≠ 0 → ∀ entry ∈ tree.entries, entry.1 ≤ high

theorem Fenced.bounded (fenced : Fenced low high tree) (fits : Root config height tree)
    (ordered : Ordered tree.entries) : ∀ key ∈ tree.keys, low ≤ key ∧ (high = 0 ∨ key ≤ high) := by
  intro key mem
  obtain ⟨entry, inTree, rfl⟩ := fits.exists_entry mem
  constructor
  · by_cases none : low = 0
    · exact none ▸ Nat.zero_le _
    rw [← fenced.low_eq none]
    obtain ⟨first, others, found⟩ := exists_cons_of_ne_nil (ne_nil_of_mem inTree)
    simp only [firstKey, found]
    rw [found] at inTree ordered
    exact ordered.head_le entry inTree
  · by_cases none : high = 0
    · exact .inl none
    · exact .inr (fenced.high_ge none entry inTree)

theorem Fenced.child {front back : List BTree} {child : BTree}
    (fenced : Fenced low high (node block (front ++ child :: back)))
    (fits : ∀ other ∈ front ++ child :: back, Sub config height other)
    (ordered : Ordered (node block (front ++ child :: back)).entries) :
    Fenced
      (if front.length = 0 then low else
        (separators (front ++ child :: back)).getD (front.length - 1) 0)
      (if front.length < front.length + back.length then
        (separators (front ++ child :: back)).getD front.length 0 else high) child := by
  have nonempty : child.entries ≠ [] := (fits child (by simp)).entries_ne_nil
  constructor
  · intro some
    rcases Classical.em (front = []) with rfl | someFront
    · rw [if_pos length_nil] at some ⊢
      rw [← fenced.low_eq some, nil_append, firstKey_node nonempty]
    obtain ⟨others, previous, rfl⟩ := exists_append_singleton someFront
    have found := getD_separators_right others (child :: back) previous 0
    rw [if_neg (by simp), length_append, length_singleton, Nat.add_sub_cancel]
    rw [Nat.add_zero] at found
    rw [append_assoc, singleton_append, found]
    rfl
  · intro some entry mem
    cases back with
    | nil =>
      rw [if_neg (by simp)] at some ⊢
      exact fenced.high_ge some entry (mem_entriesAll.mpr ⟨child, by simp, mem⟩)
    | cons next others =>
      have found := getD_separators_right front (next :: others) child 0
      have nextNonempty := (fits next (by simp)).entries_ne_nil
      obtain ⟨first, inNext, firstEq⟩ := exists_entry_firstKey nextNonempty
      rw [Nat.add_zero] at found
      rw [if_pos (by simp), found]
      change entry.1 ≤ next.firstKey
      rw [← firstEq]
      simp only [BTree.entries, BTree.entriesAll_append, BTree.entriesAll] at ordered
      exact ordered.append.2.1.append.2.2 entry mem first (mem_append_left _ inNext)

theorem layout_embed (fits : Root config height tree) (half : inner = true → Sub config height tree)
    (ordered : Ordered tree.entries) (fenced : Fenced low high tree) :
    Layout config height inner low high (tree.embed config) := by
  induction fits using Root.induction generalizing inner low high with
  | leaf block entries fits =>
    have bounded := fenced.bounded fits ordered
    have lengths : entries.length = (entries.map Prod.fst).length := by simp
    refine ⟨fits.1, entries.length, ?_, ?_, ?_⟩
    · rw [lengths]
      apply NodeLayout.of_fill
      · simp
      · exact lengths ▸ fits.2
      · intro isInner
        exact lengths ▸ (half isInner).2.1
      · exact forall_mem_map.mpr ordered.key_ne_zero
      · exact fits.keys_sorted ordered
      · exact bounded
    · intro index inside
      refine ⟨entries[index].2, ordered.data_ne_zero _ (getElem_mem inside), ?_⟩
      rw [getD_fill_of_length_le (by simpa [TreeConfig.slotCount] using fits.2),
        getD_eq_getElem _ _ (by simpa using inside), getElem_map]
    · intro some
      rw [← fenced.low_eq some]
      rw [getD_fill_of_length_le (lengths ▸ fits.2)]
      exact firstKey_eq_getD (show (leaf block entries).isLeaf = true from rfl)
  | node height block children fits ih =>
    obtain ⟨nonzero, two, room, below⟩ := id fits
    have lengths : (separators children).length = children.length - 1 := length_separators children
    have keysFit : (separators children).length ≤ config.keyCount false := by omega
    refine ⟨nonzero, (separators children).length, by omega, ?_, ?_⟩
    · rw [embedAll_eq]
      apply NodeLayout.of_fill
      · simp only [length_map, Bool.false_eq_true, if_false]
        omega
      · exact keysFit
      · intro isInner
        have enough := (half isInner).2.1
        omega
      · intro key mem
        obtain ⟨entry, inTree, rfl⟩ := fits.exists_entry mem
        exact ordered.key_ne_zero entry inTree
      · exact fits.keys_sorted ordered
      · exact fenced.bounded fits ordered
    · intro index inside
      obtain ⟨front, child, back, rfl, rfl⟩ : ∃ front child back,
          front.length = index ∧ front ++ child :: back = children :=
        exists_split_at (by omega)
      have childIn : child ∈ front ++ child :: back := by simp
      have count : (separators (front ++ child :: back)).length = front.length + back.length := by
        rw [lengths, length_append, length_cons]
        rfl
      have slot : (fill Tree.nil (config.slotCount false)
          (embedAll config (front ++ child :: back))).getD front.length
          .nil = child.embed config := by
        rw [embedAll_eq, getD_fill_of_length_le (by simpa [TreeConfig.slotCount] using room)]
        simp
      rw [slot, getD_fill_of_length_le keysFit, getD_fill_of_length_le keysFit, count]
      apply ih child childIn (fun _ => below child childIn) (Ordered.child ordered childIn)
      exact fenced.child below ordered

theorem Tree.entriesAll_eq (trees : List Tree) : entriesAll trees = trees.flatMap Tree.entries := by
  induction trees with
  | nil => rfl
  | cons tree rest ih => rw [entriesAll, ih, flatMap_cons]

theorem entriesAll_fill {size : Nat} (fits : trees.length ≤ size) :
    Tree.entriesAll (fill .nil size trees) = trees.flatMap Tree.entries := by
  rw [fill_eq_pad fits, pad, Tree.entriesAll_eq]
  simp [Tree.entries]

theorem entries_embed_leaf (fits : entries.length ≤ config.keyCount true)
    (ordered : Ordered entries) : ((leaf block entries).embed config).entries = entries := by
  have paired : ∀ (extra : List Nat) (pairs : List (Nat × Nat)),
      (pairs.map Prod.fst).zip (pairs.map Prod.snd ++ extra) = pairs := by
    intro extra pairs
    induction pairs with
    | nil => rfl
    | cons pair pairs ih =>
      simp [ih]
  have slotsFit : (entries.map fun entry => Tree.data entry.2).length ≤ config.slotCount true := by
    simpa [TreeConfig.slotCount] using fits
  unfold embed Tree.entries
  rw [takeWhile_fill (by simpa using fits), fill_eq_pad slotsFit, pad, map_append, map_map]
  · exact paired _ entries
  · exact forall_mem_map.mpr ordered.key_ne_zero

theorem entries_embed (fits : Root config height tree) (ordered : Ordered tree.entries) :
    (tree.embed config).entries = tree.entries := by
  induction fits using Root.induction with
  | leaf block entries fits => exact entries_embed_leaf fits.2 ordered
  | node height block children fits ih =>
    have slotsFit : (children.map (embed config)).length ≤ config.slotCount false := by
      simpa [TreeConfig.slotCount] using fits.2.2.1
    rw [embed, embedAll_eq, Tree.entries, entriesAll_fill slotsFit, BTree.entries,
      BTree.entriesAll_eq, flatMap_map]
    exact flatMap_congr fun child inside => ih child inside (Ordered.child ordered inside)

theorem levels_embed (fits : Root config height tree) :
    (tree.embed config).levels = height + 1 := by
  induction fits using Root.induction with
  | leaf block entries _ => simp only [embed, Tree.levels]
  | node height block children fits ih =>
    cases children with
    | nil => exact absurd fits.2.1 (by simp)
    | cons child rest =>
      have slotsFit :
          (embed config child :: rest.map (embed config)).length ≤ config.slotCount false := by
        simpa [TreeConfig.slotCount] using fits.2.2.1
      rw [embed, embedAll_eq, Tree.levels, map_cons, fill_eq_pad slotsFit, pad, cons_append,
        Tree.levelsFirst, ih child mem_cons_self]

end Layout

/-! ### Operations -/

inductive TreeOp where
  | insert (key data : Nat)
  | remove (key data : Nat)
  | update (oldKey oldData newKey newData : Nat)

/-- The key is within the keys before and after each occurrence of the pair. -/
def WithinNeighbours (entries : List (Nat × Nat)) (pair : Nat × Nat) (key : Nat) : Prop :=
  ∀ index < entries.length, entries.getD index (0, 0) = pair →
    (index = 0 ∨ (entries.getD (index - 1) (0, 0)).1 ≤ key) ∧
      (index + 1 < entries.length → key ≤ (entries.getD (index + 1) (0, 0)).1)

instance (entries : List (Nat × Nat)) (pair : Nat × Nat) (key : Nat) :
    Decidable (WithinNeighbours entries pair key) :=
  inferInstanceAs (Decidable (∀ _ < _, _ → _))

namespace TreeOp

def program (config : TreeConfig) (tree : Tree) : TreeOp → TreeProgram Tree
  | insert key data => blockTreeInsert config tree key data
  | remove key data => blockTreeRemove config tree key data
  | update oldKey oldData newKey newData =>
    blockTreeUpdate config tree oldKey oldData newKey newData

def Valid (entries : List (Nat × Nat)) : TreeOp → Prop
  | insert key data => key ≠ 0 ∧ data ≠ 0
  | remove key data => (key, data) ∈ entries
  | update oldKey oldData newKey newData =>
    (oldKey, oldData) ∈ entries ∧ newKey ≠ 0 ∧ newData ≠ 0 ∧
      (oldKey = newKey) ≠ (oldData = newData) ∧
      WithinNeighbours entries (oldKey, oldData) newKey

instance (entries : List (Nat × Nat)) : (op : TreeOp) → Decidable (op.Valid entries)
  | insert _ _ => inferInstanceAs (Decidable (_ ∧ _))
  | remove _ _ => inferInstanceAs (Decidable (_ ∈ _))
  | update _ _ _ _ => inferInstanceAs (Decidable (_ ∧ _))

/-- The keys and data blocks have no more bytes than a node keeps. -/
def Fits (config : TreeConfig) : TreeOp → Prop
  | insert key data => key < config.keyLimit ∧ data < config.blockLimit
  | remove _ _ => True
  | update _ oldData newKey newData =>
    newKey < config.keyLimit ∧ oldData < config.blockLimit ∧ newData < config.blockLimit

instance (config : TreeConfig) : (op : TreeOp) → Decidable (op.Fits config)
  | insert _ _ => inferInstanceAs (Decidable (_ ∧ _))
  | remove _ _ => inferInstanceAs (Decidable True)
  | update _ _ _ _ => inferInstanceAs (Decidable (_ ∧ _))

/-- The tree is not too deep, and an insertion does not split a node at a key
equal to the separator after it. -/
def Clear (config : TreeConfig) (tree : Tree) (op : TreeOp) : Prop :=
  tree.levels ≤ blockTreeMaxDepth ∧
    match op with
    | insert key _ => insertionClear config tree key = true
    | _ => True

instance (config : TreeConfig) (tree : Tree) : (op : TreeOp) → Decidable (op.Clear config tree)
  | insert _ _ => inferInstanceAs (Decidable (_ ∧ _))
  | remove _ _ => inferInstanceAs (Decidable (_ ∧ True))
  | update _ _ _ _ => inferInstanceAs (Decidable (_ ∧ True))

/-- The multiset of pairs after the operation. -/
def apply (contents : Multiset (Nat × Nat)) : TreeOp → Multiset (Nat × Nat)
  | insert key data => (key, data) ::ₘ contents
  | remove key data => contents.erase (key, data)
  | update oldKey oldData newKey newData => (newKey, newData) ::ₘ contents.erase (oldKey, oldData)

/-- The operation changes one entry and leaves the others in their order. -/
def Changes (old new : List (Nat × Nat)) : TreeOp → Prop
  | insert key data => Inserts (key, data) old new
  | remove key data => Removes (key, data) old new
  | update oldKey oldData newKey newData => Replaces (oldKey, oldData) (newKey, newData) old new

end TreeOp

/-- The trees that operations build from the empty tree, each `allowed` in the
tree it starts from. -/
inductive TreeRun (config : TreeConfig) (allowed : Tree → TreeOp → Prop) :
    List TreeOp → Tree → Prop where
  | empty : TreeRun config allowed [] .nil
  | step {ops : List TreeOp} {tree newTree : Tree} {op : TreeOp}
      (run : TreeRun config allowed ops tree) (permitted : allowed tree op)
      (returned : Returns (op.program config tree) newTree) :
      TreeRun config allowed (ops ++ [op]) newTree

/-- The multiset of pairs after the operations, applied to nothing. -/
def contentsAfter (ops : List TreeOp) : Multiset (Nat × Nat) := ops.foldl TreeOp.apply 0

section Steps

variable {config : TreeConfig}

/-- A tree that stands for an abstract one. -/
def Represents (config : TreeConfig) (tree : Tree) : Prop :=
  tree = .nil ∨ ∃ height abstract, Root config height abstract ∧ Ordered abstract.entries ∧
    abstract.embed config = tree

/-- An update does not change the number of levels. -/
def TreeOp.LevelsAfter (old new : Nat) : TreeOp → Prop
  | update _ _ _ _ => new = old
  | _ => True

structure TreeOp.Done (config : TreeConfig) (op : TreeOp) (tree newTree : Tree) : Prop where
  represents : Represents config newTree
  changes : op.Changes tree.entries newTree.entries
  levels : op.LevelsAfter tree.levels newTree.levels

variable {tree : Tree} {op : TreeOp}

theorem Represents.wellFormed (represents : Represents config tree) : tree.WellFormed config := by
  rcases represents with empty | ⟨height, abstract, fits, ordered, rfl⟩
  · exact .inl empty
  right
  refine ⟨height, layout_embed fits ?_ ordered ⟨?_, ?_⟩⟩
  · exact fun contra => Bool.noConfusion contra
  · exact fun contra => (contra rfl).elim
  · exact fun contra => (contra rfl).elim

theorem Represents.ordered (represents : Represents config tree) : Ordered tree.entries := by
  rcases represents with rfl | ⟨height, abstract, fits, ordered, rfl⟩
  · exact ordered_nil
  · rw [entries_embed fits ordered]
    exact ordered

theorem WithinNeighbours.all {entries : List (Nat × Nat)} {pair : Nat × Nat} {key : Nat}
    (within : WithinNeighbours entries pair key) (ordered : Ordered entries) :
    Between entries pair key := by
  rintro front back rfl
  obtain ⟨low, high⟩ := within front.length (by simp) (by simp)
  obtain ⟨frontOrdered, backOrdered, _⟩ := ordered.append
  constructor
  · intro other mem
    obtain ⟨others, last, rfl⟩ := exists_append_singleton (ne_nil_of_mem mem)
    have lastLow : last.1 ≤ key := by simpa using low
    rcases mem_append.mp mem with inOthers | isLast
    · exact Nat.le_trans (frontOrdered.append.2.2 other inOthers last (by simp)) lastLow
    · exact (mem_singleton.mp isLast).symm ▸ lastLow
  · intro other mem
    obtain ⟨next, others, rfl⟩ := exists_cons_of_ne_nil (ne_nil_of_mem mem)
    have nextHigh : key ≤ next.1 := by simpa using high
    have backSorted : Ordered (next :: others) :=
      (show Ordered ([pair] ++ next :: others) from backOrdered).append.2.1
    exact Nat.le_trans nextHigh (backSorted.head_le other mem)

theorem TreeOp.Changes.contents {old new : List (Nat × Nat)} (changes : op.Changes old new) :
    (new : Multiset (Nat × Nat)) = op.apply old := by
  cases op with
  | insert key data => exact Multiset.coe_eq_coe.mpr changes.perm
  | remove key data =>
    have same : (old : Multiset (Nat × Nat)) = (key, data) ::ₘ new :=
      Multiset.coe_eq_coe.mpr changes.perm
    rw [TreeOp.apply, same, Multiset.erase_cons_head]
  | update oldKey oldData newKey newData =>
    obtain ⟨front, back, rfl, rfl⟩ := changes
    have middle : ∀ pair : Nat × Nat,
        ((front ++ pair :: back : List (Nat × Nat)) : Multiset (Nat × Nat)) = pair ::ₘ
        ↑(front ++ back) :=
      fun pair => Multiset.coe_eq_coe.mpr perm_middle
    rw [TreeOp.apply, middle, middle, Multiset.erase_cons_head]

variable (updatable : config.Updatable)

include updatable

section

variable (represents : Represents config tree) (valid : op.Valid tree.entries)
  (stored : op.Fits config) (clear : op.Clear config tree)

include represents valid stored clear

theorem TreeOp.program_done :
    ensures (op.program config tree) (op.Done config tree) := by
  rcases represents with rfl | ⟨height, abstract, fits, ordered, rfl⟩
  · cases op with
    | remove key data => exact (not_mem_nil valid).elim
    | update oldKey oldData newKey newData => exact (not_mem_nil valid.1).elim
    | insert key data =>
      have single : Inserts (key, data) [] [(key, data)] := ⟨[], [], rfl, rfl, by simp, by simp⟩
      simp only [TreeOp.program, blockTreeInsert, Nat.mod_eq_of_lt stored.2]
      apply blockTreeInsert_nil_ensures updatable stored.1 valid.1 valid.2
      intro newHeight newTree newFits entriesEq
      have newOrdered : Ordered newTree.entries := by
        rw [entriesEq]
        exact single.ordered ordered_nil valid.1 valid.2
      refine ⟨.inr ⟨newHeight, newTree, newFits, newOrdered, rfl⟩, ?_, trivial⟩
      rw [entries_embed newFits newOrdered, entriesEq]
      exact single
  have shallow : height < blockTreeMaxDepth := by
    have := clear.1
    rw [levels_embed fits] at this
    exact this
  rw [entries_embed fits ordered] at valid
  have finish : ∀ newHeight newTree, Root config newHeight newTree → Ordered newTree.entries →
      op.Changes abstract.entries newTree.entries →
      op.LevelsAfter (height + 1) (newHeight + 1) →
      op.Done config (abstract.embed config) (newTree.embed config) := by
    intro newHeight newTree newFits newOrdered changes levels
    refine ⟨.inr ⟨newHeight, newTree, newFits, newOrdered, rfl⟩, ?_, ?_⟩
    · rw [entries_embed newFits newOrdered, entries_embed fits ordered]
      exact changes
    · rw [levels_embed newFits, levels_embed fits]
      exact levels
  cases op with
  | insert key data =>
    simp only [TreeOp.program, blockTreeInsert, Nat.mod_eq_of_lt stored.2]
    apply blockTreeInsert_ensures updatable fits shallow ordered stored.1 valid.1 valid.2 clear.2
    intro newHeight newTree newFits inserts
    exact finish newHeight newTree newFits (inserts.ordered ordered valid.1 valid.2) inserts trivial
  | remove key data =>
    refine blockTreeRemove_ensures updatable fits shallow ordered valid ?_
    intro newHeight newTree newFits removes
    exact finish newHeight newTree newFits (removes.ordered ordered) removes trivial
  | update oldKey oldData newKey newData =>
    obtain ⟨present, keyNonzero, dataNonzero, ne, within⟩ := valid
    have around := within.all ordered
    obtain ⟨keyFits, oldFits, newFits⟩ := stored
    simp only [TreeOp.program, blockTreeUpdate, Nat.mod_eq_of_lt oldFits, Nat.mod_eq_of_lt newFits]
    refine blockTreeUpdate_ensures updatable fits shallow ordered present keyFits keyNonzero
      dataNonzero ne around ?_
    intro newTree newFits replaces
    exact finish height newTree newFits
      (replaces.ordered ordered around keyNonzero dataNonzero) replaces rfl

theorem TreeOp.returns_done :
    ¬ Aborts (op.program config tree) ∧
      ∀ newTree, Returns (op.program config tree) newTree → op.Done config tree newTree :=
  ensures_iff.mp (op.program_done updatable represents valid stored clear)

end

/-- Operations that a caller may ask for, on values that can be stored, and that are
clear of a failing split. -/
def ClearRun (config : TreeConfig) : List TreeOp → Tree → Prop :=
  TreeRun config fun tree op => op.Valid tree.entries ∧ op.Fits config ∧ op.Clear config tree

theorem ClearRun.represents {ops : List TreeOp} (run : ClearRun config ops tree) :
    Represents config tree ∧ (tree.entries : Multiset (Nat × Nat)) = contentsAfter ops := by
  induction run with
  | empty => exact ⟨.inl rfl, rfl⟩
  | step run permitted returned ih =>
    obtain ⟨represents, contents⟩ := ih
    obtain ⟨valid, stored, clear⟩ := permitted
    have done := (TreeOp.returns_done updatable represents valid stored clear).2 _ returned
    refine ⟨done.represents, ?_⟩
    rw [done.changes.contents, contents, contentsAfter, contentsAfter, foldl_append]
    rfl

/-- Every run of clear operations leaves a tree with the right layout and the
right entries, and the next one returns and changes nothing but its entry. -/
theorem blockTree_run_correct {ops : List TreeOp} {tree : Tree} (run : ClearRun config ops tree) :
    tree.WellFormed config ∧ tree.entries.Pairwise (fun first second => first.1 ≤ second.1) ∧
      (tree.entries : Multiset (Nat × Nat)) = contentsAfter ops ∧
      ∀ op : TreeOp, op.Valid tree.entries → op.Fits config → op.Clear config tree →
        ¬ Aborts (op.program config tree) ∧ (∃ newTree, Returns (op.program config tree) newTree) ∧
          ∀ newTree, Returns (op.program config tree) newTree →
            op.Changes tree.entries newTree.entries := by
  obtain ⟨represents, contents⟩ := run.represents updatable
  refine ⟨represents.wellFormed, represents.ordered.sorted, contents, ?_⟩
  intro op valid stored clear
  obtain ⟨safe, done⟩ := op.returns_done updatable represents valid stored clear
  exact ⟨safe, exists_returns safe, fun newTree returned => (done newTree returned).changes⟩

end Steps

/-! ### Replaying a run -/

section Replay

variable {config : TreeConfig} {allowed : Tree → TreeOp → Prop} [DecidableRel allowed]

def replay (config : TreeConfig) (allowed : Tree → TreeOp → Prop) [DecidableRel allowed] :
    List TreeOp → Tree → Nat → Option (Tree × Nat)
  | [], tree, next => some (tree, next)
  | op :: ops, tree, next =>
    if allowed tree op then
      match runFrom next (op.program config tree) with
      | none => none
      | some (newTree, next) => replay config allowed ops newTree next
    else none

variable {ops : List TreeOp}

theorem replay_run {before : List TreeOp} {tree finalTree : Tree} {next finalNext : Nat}
    (run : TreeRun config allowed before tree) (positive : 0 < next)
    (replayed : replay config allowed ops tree next = some (finalTree, finalNext)) :
    TreeRun config allowed (before ++ ops) finalTree ∧ 0 < finalNext := by
  induction ops generalizing before tree next with
  | nil =>
    cases replayed
    exact ⟨(append_nil before).symm ▸ run, positive⟩
  | cons op ops ih =>
    unfold replay at replayed
    split at replayed
    · rename_i permitted
      cases ran : runFrom next (op.program config tree) with
      | none =>
        rw [ran] at replayed
        cases replayed
      | some result =>
        rw [ran] at replayed
        obtain ⟨returned, positiveNow⟩ := runFrom_returns positive ran
        have stepped := ih (run.step permitted returned) positiveNow replayed
        rw [append_assoc] at stepped
        exact stepped
    · cases replayed

/-- The replayed run reaches a tree in which the operation is allowed and
aborts. -/
def replayAborts (config : TreeConfig) (allowed : Tree → TreeOp → Prop) [DecidableRel allowed]
    (ops : List TreeOp) (op : TreeOp) : Bool :=
  match replay config allowed ops .nil 1 with
  | none => false
  | some (tree, next) => decide (allowed tree op) && (runFrom next (op.program config tree)).isNone

theorem replayAborts_run {op : TreeOp} (aborted : replayAborts config allowed ops op = true) :
    ∃ tree, TreeRun config allowed ops tree ∧ allowed tree op ∧
    Aborts (op.program config tree) := by
  unfold replayAborts at aborted
  cases replayed : replay config allowed ops .nil 1 with
  | none =>
    rw [replayed] at aborted
    cases aborted
  | some result =>
    simp only [replayed, Bool.and_eq_true, decide_eq_true_eq, Option.isNone_iff_eq_none] at aborted
    obtain ⟨run, positive⟩ := replay_run TreeRun.empty Nat.one_pos replayed
    exact ⟨result.1, run, aborted.1, runFrom_aborts positive aborted.2⟩

end Replay

/-- Four keys in every node, for block numbers and macs of two bytes. -/
def evenConfig : TreeConfig := (blockTreeSetSizes 52 2 4 4 2 2 false false).get (by decide)

/-- A run with a split, a key update and a removal. -/
theorem blockTree_run_small :
    ∃ tree, ClearRun evenConfig [.insert 3 1, .insert 5 2, .insert 7 3, .insert 9 4, .insert 11 5,
        .update 9 4 8 4, .remove 3 1] tree ∧
      tree.WellFormed evenConfig ∧
      (tree.entries : Multiset (Nat × Nat)) = {(5, 2), (7, 3), (8, 4), (11, 5)} := by
  have updatable : evenConfig.Updatable := by decide
  have finished : (replay evenConfig
      (fun tree op => op.Valid tree.entries ∧ op.Fits evenConfig ∧ op.Clear evenConfig tree)
      [.insert 3 1, .insert 5 2, .insert 7 3, .insert 9 4, .insert 11 5,
        .update 9 4 8 4, .remove 3 1]
      .nil 1).isSome = true := by
    decide +kernel
  obtain ⟨result, replayed⟩ := Option.isSome_iff_exists.mp finished
  have run := (replay_run TreeRun.empty Nat.one_pos replayed).1
  obtain ⟨wellFormed, _, contents, _⟩ := blockTree_run_correct updatable run
  exact ⟨result.1, run, wellFormed, contents.trans (by decide)⟩

/-- The first leaf comes to hold 4, 5, 5, 5, and the next one starts at 5: an
insertion of 3 splits the first leaf at a 5. -/
theorem blockTree_run_aborts :
    ∃ (ops : List TreeOp) (tree : Tree) (op : TreeOp),
      TreeRun evenConfig (fun tree op =>
        op.Valid tree.entries ∧ op.Fits evenConfig ∧ tree.levels ≤ blockTreeMaxDepth) ops tree ∧
      op.Valid tree.entries ∧ op.Fits evenConfig ∧ tree.levels ≤ blockTreeMaxDepth ∧
      Aborts (op.program evenConfig tree) := by
  have aborted : replayAborts evenConfig (fun tree op =>
      op.Valid tree.entries ∧ op.Fits evenConfig ∧ tree.levels ≤ blockTreeMaxDepth)
      [.insert 3 1, .insert 5 2, .insert 5 3, .insert 5 4, .insert 5 5, .insert 5 6, .insert 5 7,
        .remove 3 1, .insert 4 8] (.insert 3 9) = true := by
    decide +kernel
  obtain ⟨tree, run, allowed, aborts⟩ := replayAborts_run aborted
  exact ⟨_, tree, _, run, allowed.1, allowed.2.1, allowed.2.2, aborts⟩

end Trusty.Storage
