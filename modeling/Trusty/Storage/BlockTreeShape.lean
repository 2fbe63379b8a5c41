import Mathlib.Data.List.Forall2
import Mathlib.Order.Nat
import Trusty.Storage.BlockTree

/-!
The abstract B+ tree behind a `Tree`.

A `BTree` keeps only what the arrays of a node stand for: the entries of a leaf
and the children of an internal node.  `embed` lays it out in nodes, where the
separators are the first keys of the children after the first, and everything
unused is zero.  A tree that is `embed` of a `BTree` therefore has the
separators and the empty slots that the code relies on, and what is left to say
is `Root`: uniform depth, and the number of entries of each node.

Below the root a path is a list of `Frame`s, from the innermost out.  `Above`
says that path entries describe frames in which the separator left of the hole
is a given key, which need not be the first key of the hole while an update is
going on.
-/

namespace Trusty.Storage

open Lib List

inductive BTree where
  | leaf (block : Nat) (entries : List (Nat × Nat))
  | node (block : Nat) (children : List BTree)

namespace BTree

mutual

def entries : BTree → List (Nat × Nat)
  | leaf _ entries => entries
  | node _ children => entriesAll children

def entriesAll : List BTree → List (Nat × Nat)
  | [] => []
  | child :: rest => entries child ++ entriesAll rest

end

def block : BTree → Nat
  | leaf block _ => block
  | node block _ => block

def firstKey (tree : BTree) : Nat :=
  match tree.entries with
  | [] => 0
  | entry :: _ => entry.1

def separators (children : List BTree) : List Nat :=
  children.tail.map firstKey

mutual

def embed (config : TreeConfig) : BTree → Tree
  | leaf block entries =>
    .node true block (fill 0 (config.keyCount true) (entries.map Prod.fst))
      (fill .nil (config.slotCount true) (entries.map fun entry => .data entry.2))
  | node block children =>
    .node false block (fill 0 (config.keyCount false) (separators children))
      (fill .nil (config.slotCount false) (embedAll config children))

def embedAll (config : TreeConfig) : List BTree → List Tree
  | [] => []
  | child :: rest => embed config child :: embedAll config rest

end

/-- A subtree of height `height` whose nodes hold at least the minimum. -/
def Sub (config : TreeConfig) : Nat → BTree → Prop
  | 0, leaf block entries =>
    block ≠ 0 ∧ config.minKeyCount true ≤ entries.length ∧
      entries.length ≤ config.keyCount true
  | height + 1, node block children =>
    block ≠ 0 ∧ config.minKeyCount false < children.length ∧
      children.length ≤ config.keyCount false + 1 ∧
      ∀ child ∈ children, Sub config height child
  | _, _ => False

/-- A whole tree of height `height`: the root may hold fewer entries. -/
def Root (config : TreeConfig) : Nat → BTree → Prop
  | 0, leaf block entries => block ≠ 0 ∧ entries.length ≤ config.keyCount true
  | height + 1, node block children =>
    block ≠ 0 ∧ 2 ≤ children.length ∧ children.length ≤ config.keyCount false + 1 ∧
      ∀ child ∈ children, Sub config height child
  | _, _ => False

section Lists

variable {config : TreeConfig}

theorem entriesAll_eq (children : List BTree) : entriesAll children = children.flatMap entries := by
  induction children with
  | nil => rfl
  | cons child rest ih => rw [entriesAll, ih, flatMap_cons]

@[simp]
theorem entriesAll_append (first second : List BTree) :
    entriesAll (first ++ second) = entriesAll first ++ entriesAll second := by
  simp [entriesAll_eq]

@[simp]
theorem embedAll_eq (children : List BTree) :
    embedAll config children = children.map (embed config) := by
  induction children with
  | nil => rfl
  | cons child rest ih => simp [embedAll, ih]

theorem mem_entriesAll {children : List BTree} {entry : Nat × Nat} :
    entry ∈ entriesAll children ↔ ∃ child ∈ children, entry ∈ child.entries := by
  rw [entriesAll_eq, mem_flatMap]

end Lists

section Sub

variable {config : TreeConfig}

theorem minKeyCount_pos (config : TreeConfig) (isLeaf : Bool) : 0 < config.minKeyCount isLeaf := by
  have enough := config.two_le_keyCount isLeaf
  simp only [TreeConfig.minKeyCount]
  omega

variable {height : Nat} {tree : BTree}

section

variable (fits : Sub config height tree)

include fits

theorem Sub.entries_ne_nil : tree.entries ≠ [] := by
  induction height generalizing tree with
  | zero =>
    cases tree with
    | leaf block entries =>
      have positive := minKeyCount_pos config true
      exact ne_nil_of_length_pos (Nat.lt_of_lt_of_le positive fits.2.1)
    | node block children => exact fits.elim
  | succ height ih =>
    cases tree with
    | leaf block entries => exact fits.elim
    | node block children =>
      rcases fits with ⟨_, enough, _, below⟩
      cases children with
      | nil => simp at enough
      | cons child rest => simp [entries, entriesAll, ih (below child mem_cons_self)]

theorem Sub.root : Root config height tree := by
  cases height with
  | zero =>
    cases tree with
    | leaf block entries => exact ⟨fits.1, fits.2.2⟩
    | node block children => exact fits.elim
  | succ height =>
    cases tree with
    | leaf block entries => exact fits.elim
    | node block children =>
      have positive := minKeyCount_pos config false
      have := fits.2.1
      exact ⟨fits.1, by omega, fits.2.2.1, fits.2.2.2⟩

end

/-- Induction over a whole tree, in which the children are taken as whole trees. -/
@[elab_as_elim]
theorem Root.induction {motive : ∀ height tree, Root config height tree → Prop}
    (leaf : ∀ block entries (fits : Root config 0 (leaf block entries)), motive 0
      (.leaf block entries) fits)
    (node : ∀ height block children (fits : Root config (height + 1) (node block children)),
      (∀ child (inside : child ∈ children), motive height child (fits.2.2.2 child inside).root) →
        motive (height + 1) (.node block children) fits) (fits : Root config height tree) :
    motive height tree fits := by
  induction height generalizing tree with
  | zero =>
    cases tree with
    | leaf block entries => exact leaf block entries fits
    | node block children => exact fits.elim
  | succ height ih =>
    cases tree with
    | leaf block entries => exact fits.elim
    | node block children => exact node height block children fits fun child _ => ih _

end Sub

section Node

variable {config : TreeConfig}

def toNode (config : TreeConfig) : BTree → Node
  | leaf block entries =>
    ⟨true, block, fill 0 (config.keyCount true) (entries.map Prod.fst),
      fill .nil (config.slotCount true) (entries.map fun entry => .data entry.2)⟩
  | node block children =>
    ⟨false, block, fill 0 (config.keyCount false) (separators children),
      fill .nil (config.slotCount false) (children.map (embed config))⟩

@[simp]
theorem toNode_tree (tree : BTree) : (tree.toNode config).tree = tree.embed config := by
  cases tree with
  | leaf block entries => rw [embed, toNode, Node.tree]
  | node block children => rw [embed, toNode, Node.tree, embedAll_eq]

@[simp]
theorem embed_asNode (tree : BTree) : (tree.embed config).asNode = some (tree.toNode config) := by
  rw [← toNode_tree]
  rfl

@[simp]
theorem embed_toBlock (tree : BTree) : (tree.embed config).toBlock = tree.block := by
  cases tree <;> simp [embed, Tree.toBlock, block]

@[simp]
theorem toNode_block (tree : BTree) : (tree.toNode config).block = tree.block := by
  cases tree <;> rfl

theorem firstKey_node {block : Nat} {child : BTree} {rest : List BTree}
    (nonempty : child.entries ≠ []) : (node block (child :: rest)).firstKey = child.firstKey := by
  rcases exists_cons_of_ne_nil nonempty with ⟨entry, others, found⟩
  simp [firstKey, entries, entriesAll, found]

theorem exists_entry_firstKey {tree : BTree} (nonempty : tree.entries ≠ []) :
    ∃ entry ∈ tree.entries, entry.1 = tree.firstKey := by
  rcases exists_cons_of_ne_nil nonempty with ⟨entry, others, found⟩
  exact ⟨entry, by simp [found], by simp [firstKey, found]⟩

theorem separators_append {left right : List BTree} (nonempty : left ≠ []) :
    separators (left ++ right) = separators left ++ right.map firstKey := by
  rcases exists_cons_of_ne_nil nonempty with ⟨child, rest, rfl⟩
  simp [separators]

theorem getD_separators_right (left right : List BTree) (tree : BTree) (index : Nat) :
    (separators (left ++ tree :: right)).getD (left.length + index) 0 =
      (right.map firstKey).getD index 0 := by
  cases left with
  | nil => simp [separators]
  | cons first rest =>
    have position : (first :: rest).length + index = (rest ++ [tree]).length + index := by simp
    have shape : separators (first :: rest ++ tree :: right) =
        (rest ++ [tree]).map firstKey ++ right.map firstKey := by simp [separators]
    rw [shape, position, getD_append_right _ _ _ _ (by simp)]
    simp

theorem length_separators (children : List BTree) :
    (separators children).length = children.length - 1 := by
  simp [separators]

end Node

end BTree

/-! ### Frames -/

open BTree

/-- An internal node around a hole. -/
structure Frame where
  block : Nat
  left : List BTree
  right : List BTree

namespace Frame

variable {config : TreeConfig}

variable (frame : Frame)

def close (tree : BTree) : BTree :=
  .node frame.block (frame.left ++ tree :: frame.right)

/-- The separators of a frame when `key` is the one left of the hole. -/
def keys (key : Nat) : List Nat :=
  (match frame.left with
    | [] => []
    | _ :: rest => rest.map firstKey ++ [key]) ++ frame.right.map firstKey

/-- The first key of a frame around a hole with first key `key`. -/
def firstKey (key : Nat) : Nat :=
  match frame.left with
  | [] => key
  | child :: _ => child.firstKey

theorem keys_eq_separators (tree : BTree) :
    frame.keys tree.firstKey = separators (frame.left ++ tree :: frame.right) := by
  cases leftEq : frame.left with
  | nil => simp [keys, leftEq, separators]
  | cons child rest => simp [keys, leftEq, separators]

theorem close_ne_nil {frame : Frame} {tree : BTree} (nonempty : tree.entries ≠ []) :
    (frame.close tree).entries ≠ [] := by
  simp [close, BTree.entries, entriesAll, nonempty]

theorem firstKey_close {frame : Frame} {tree : BTree} (nonempty : tree.entries ≠ [])
    (siblings : ∀ child ∈ frame.left, child.entries ≠ []) :
    (frame.close tree).firstKey = frame.firstKey tree.firstKey := by
  cases leftEq : frame.left with
  | nil => simp only [close, leftEq, nil_append, firstKey_node nonempty, firstKey]
  | cons child rest =>
    have first : child.entries ≠ [] := siblings child (by simp [leftEq])
    simp [close, leftEq, firstKey_node first, firstKey]

theorem length_keys (frame : Frame) (key : Nat) :
    (frame.keys key).length = frame.left.length + frame.right.length := by
  cases leftEq : frame.left with
  | nil => simp [keys, leftEq]
  | cons child rest =>
    simp only [keys, leftEq, length_append, length_map, length_cons, length_nil]

end Frame

/-- The tree that has `tree` in the hole of the innermost of `frames`. -/
def plug : BTree → List Frame → BTree
  | tree, [] => tree
  | tree, frame :: frames => plug (frame.close tree) frames

def before : List Frame → List (Nat × Nat)
  | [] => []
  | frame :: frames => before frames ++ entriesAll frame.left

def after : List Frame → List (Nat × Nat)
  | [] => []
  | frame :: frames => entriesAll frame.right ++ after frames

/-- Frames around a hole of height `height`. -/
def Context (config : TreeConfig) : Nat → List Frame → Prop
  | _, [] => True
  | height, frame :: frames =>
    frame.block ≠ 0 ∧
    (∀ child ∈ frame.left ++ frame.right, Sub config height child) ∧
    (if frames = [] then 1 else config.minKeyCount false) ≤
      frame.left.length + frame.right.length ∧
    frame.left.length + frame.right.length ≤ config.keyCount false ∧
    Context config (height + 1) frames

/-- The same frames, perhaps in other blocks. -/
def Relabel : List Frame → List Frame → Prop :=
  List.Forall₂ fun old new => new.left = old.left ∧ new.right = old.right ∧
    (old.block ≠ 0 → new.block ≠ 0)

section Plug

variable {config : TreeConfig}

theorem entries_plug (tree : BTree) (frames : List Frame) :
    (plug tree frames).entries = before frames ++ tree.entries ++ after frames := by
  induction frames generalizing tree with
  | nil => simp [plug, before, after]
  | cons frame frames ih =>
    simp [plug, ih, before, after, Frame.close, BTree.entries, entriesAll]

variable {height : Nat} {frame : Frame} {frames : List Frame} {tree : BTree}

section

variable (context : Context config height (frame :: frames)) (fits : Sub config height tree)

include context fits

theorem Context.children :
    ∀ child ∈ frame.left ++ tree :: frame.right, Sub config height child := by
  obtain ⟨left, right⟩ := forall_mem_append.mp context.2.1
  exact forall_mem_append.mpr ⟨left, forall_mem_cons.mpr ⟨fits, right⟩⟩

theorem Context.close (inner : frames ≠ []) : Sub config (height + 1) (frame.close tree) := by
  have enough := context.2.2.1
  have room := context.2.2.2.1
  rw [if_neg inner] at enough
  refine ⟨context.1, ?_, ?_, context.children fits⟩
  · simp only [length_append, length_cons]
    omega
  · simp only [length_append, length_cons]
    omega

end

theorem add_length_cons (height : Nat) (frame : Frame) (frames : List Frame) :
    height + (frame :: frames).length = height + 1 + frames.length := by
  rw [length_cons]
  omega

theorem Context.length_keys_le (context : Context config height (frame :: frames)) (key : Nat) :
    (frame.keys key).length ≤ config.keyCount false :=
  (frame.length_keys key).trans_le context.2.2.2.1

theorem Context.firstKey_close (context : Context config height (frame :: frames))
    (nonempty : tree.entries ≠ []) : (frame.close tree).firstKey = frame.firstKey tree.firstKey :=
  Frame.firstKey_close nonempty fun child mem =>
    (context.2.1 child (mem_append_left _ mem)).entries_ne_nil

theorem Context.root_close (context : Context config height [frame])
    (fits : Sub config height tree) :
    Root config (height + 1) (frame.close tree) := by
  have enough := context.2.2.1
  have room := context.2.2.2.1
  rw [if_pos rfl] at enough
  refine ⟨context.1, ?_, ?_, context.children fits⟩
  · simp only [length_append, length_cons]
    omega
  · simp only [length_append, length_cons]
    omega

theorem Context.root_plug (context : Context config height frames) (fits : Sub config height tree) :
    Root config (height + frames.length) (plug tree frames) := by
  induction frames generalizing height tree with
  | nil => exact fits.root
  | cons frame frames ih =>
    cases frames with
    | nil => exact context.root_close fits
    | cons outer frames =>
      have closed := context.close fits (by simp)
      have whole := ih context.2.2.2.2 closed
      simpa [plug, Nat.add_assoc, Nat.add_comm 1] using whole

theorem Context.root_node {block : Nat} {children : List BTree}
    (outer : Context config (height + 1) frames) (nonzero : block ≠ 0)
    (fits : ∀ child ∈ children, Sub config height child)
    (enough : (if frames = [] then 1 else config.minKeyCount false) < children.length)
    (room : children.length ≤ config.keyCount false + 1) :
    Root config (height + (frames.length + 1)) (plug (node block children) frames) := by
  cases children with
  | nil => exact absurd enough (Nat.not_lt_zero _)
  | cons first rest =>
    have inside : Context config height (⟨block, [], rest⟩ :: frames) := by
      refine ⟨nonzero, fun child mem => fits child (mem_cons_of_mem _ mem), ?_, ?_, outer⟩
      · simpa [Nat.lt_succ_iff] using enough
      · simpa using room
    exact inside.root_plug (fits first mem_cons_self)

end Plug

section Relabel

variable {config : TreeConfig} {old new : List Frame}

theorem Relabel.refl (frames : List Frame) : Relabel frames frames := by
  apply forall₂_same.mpr
  intro frame _
  exact ⟨rfl, rfl, id⟩

theorem Relabel.trans {third : List Frame} (first : Relabel old new) (second : Relabel new third) :
    Relabel old third := by
  induction first generalizing third with
  | nil => exact second
  | cons same rest ih =>
    cases second with
    | cons same' rest' =>
      refine List.Forall₂.cons ?_ (ih rest')
      exact ⟨same'.1.trans same.1, same'.2.1.trans same.2.1, fun h => same'.2.2 (same.2.2 h)⟩

section

variable (same : Relabel old new)

include same

theorem Relabel.before : before new = before old := by
  induction same with
  | nil => rfl
  | cons same rest ih =>
    simp only [Storage.before, ih, same.1]

theorem Relabel.after : after new = after old := by
  induction same with
  | nil => rfl
  | cons same rest ih =>
    simp only [Storage.after, ih, same.2.1]

theorem Relabel.length : new.length = old.length :=
  (List.Forall₂.length_eq same).symm

theorem Relabel.eq_nil_iff : new = [] ↔ old = [] := by
  rw [← length_eq_zero_iff, same.length, length_eq_zero_iff]

theorem Relabel.ne_nil (nonempty : new ≠ []) : old ≠ [] :=
  mt same.eq_nil_iff.mpr nonempty

end

theorem Relabel.context {height : Nat} (same : Relabel old new)
    (context : Context config height old) : Context config height new := by
  induction same generalizing height with
  | nil => exact context
  | cons same rest ih =>
    rcases context with ⟨nonzero, siblings, enough, room, outer⟩
    refine ⟨same.2.2 nonzero, ?_, ?_, ?_, ih outer⟩
    · rw [same.1, same.2.1]
      exact siblings
    · simp only [same.1, same.2.1, Relabel.eq_nil_iff rest]
      exact enough
    · rw [same.1, same.2.1]
      exact room

end Relabel

/-! ### Path entries -/

/-- Path entries for `frames`, with `key` as the separator left of the hole. -/
def Above (config : TreeConfig) : List Frame → Nat → List PathEntry → Prop
  | [], _, [] => True
  | frame :: frames, key, entry :: entries =>
    entry.index = frame.left.length ∧ entry.node.isLeaf = false ∧
    entry.node.block = frame.block ∧
    entry.node.keys = fill 0 (config.keyCount false) (frame.keys key) ∧
    (∃ hole, entry.node.slots = fill .nil (config.slotCount false)
      (frame.left.map (embed config) ++ hole :: frame.right.map (embed config))) ∧
    (frame.left ≠ [] → entry.prevKey = key) ∧
    (∀ child rest, frame.right = child :: rest → entry.nextKey = child.firstKey) ∧
    Above config frames (frame.firstKey key) entries
  | _, _, _ => False

section Above

variable {config : TreeConfig}

variable {frames : List Frame} {entries : List PathEntry} {tree : BTree}

theorem Above.nil_inv {key : Nat} (above : Above config [] key entries) : entries = [] := by
  cases entries with
  | nil => rfl
  | cons entry entries => exact above.elim

theorem Above.cons_inv {frame : Frame} {key : Nat}
    (above : Above config (frame :: frames) key entries) :
    ∃ entry others, entries = entry :: others := by
  cases entries with
  | nil => exact above.elim
  | cons entry others => exact ⟨entry, others, rfl⟩

theorem Above.length {key : Nat} (above : Above config frames key entries) :
    entries.length = frames.length := by
  induction frames generalizing key entries with
  | nil =>
    obtain rfl := above.nil_inv
    rfl
  | cons frame frames ih =>
    obtain ⟨entry, entries, rfl⟩ := above.cons_inv
    simp [ih above.2.2.2.2.2.2.2]

theorem Above.close {frame : Frame} {entry : PathEntry}
    (above : Above config (frame :: frames) tree.firstKey (entry :: entries)) :
    { entry.node with slots := entry.node.slots.set entry.index (tree.embed config) } =
      (frame.close tree).toNode config := by
  rcases above with ⟨index, inner, block, keys, ⟨hole, slots⟩, _⟩
  rw [Frame.keys_eq_separators] at keys
  have lengths : entry.index = (frame.left.map (embed config)).length := by simp [index]
  rw [slots, lengths, set_fill_append]
  cases nodeEq : entry.node with
  | mk isLeaf nodeBlock nodeKeys nodeSlots =>
    rw [nodeEq] at inner block keys
    subst inner block keys
    simp [Frame.close, toNode]

theorem Above.rebuild {height : Nat} (above : Above config frames tree.firstKey entries)
    (context : Context config height frames) (nonempty : tree.entries ≠ []) :
    rebuild (tree.embed config) entries = (plug tree frames).embed config := by
  induction frames generalizing height entries tree with
  | nil =>
    obtain rfl := above.nil_inv
    rfl
  | cons frame frames ih =>
    obtain ⟨entry, entries, rfl⟩ := above.cons_inv
    have outer := above.2.2.2.2.2.2.2
    rw [← context.firstKey_close nonempty] at outer
    rw [Storage.rebuild, above.close, toNode_tree]
    exact ih outer context.2.2.2.2 (Frame.close_ne_nil nonempty)

end Above

end Trusty.Storage
