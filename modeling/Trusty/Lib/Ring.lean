import Mathlib.Data.List.Rotate

/-!
Circular lists with a pointer in each direction.

A node that is in no list has two null pointers.  An operation that follows a null
pointer has no result.
-/

namespace Trusty.Lib

open Function List

/-- The pointers of all nodes. -/
structure Links (α : Type) where
  next : α → Option α
  prev : α → Option α

namespace Links

variable {α : Type}

/-- The same pointers seen from the other direction. -/
def flip (links : Links α) : Links α := ⟨links.prev, links.next⟩

section Operations

variable [DecidableEq α]

def setNext (links : Links α) (node : α) (target : Option α) : Links α :=
  { links with next := update links.next node target }

def setPrev (links : Links α) (node : α) (target : Option α) : Links α :=
  { links with prev := update links.prev node target }

def addHead (list item : α) (links : Links α) : Option (Links α) := do
  let links := links.setNext item (links.next list)
  let links := links.setPrev item (some list)
  let behind ← links.next list
  let links := links.setPrev behind (some item)
  some (links.setNext list (some item))

def addTail (list item : α) (links : Links α) : Option (Links α) := do
  let links := links.setPrev item (links.prev list)
  let links := links.setNext item (some list)
  let before ← links.prev list
  let links := links.setNext before (some item)
  some (links.setPrev list (some item))

def delete (item : α) (links : Links α) : Option (Links α) := do
  let behind ← links.next item
  let links := links.setPrev behind (links.prev item)
  let before ← links.prev item
  let links := links.setNext before (links.next item)
  some ((links.setPrev item none).setNext item none)

def isEmpty (list : α) (links : Links α) : Bool := decide (links.next list = some list)

theorem addTail_eq_flip (list item : α) (links : Links α) :
    links.addTail list item = (links.flip.addHead list item).map flip := by
  have same :
    ((links.flip.setNext item (links.flip.next list)).setPrev item (some list)).next
      list = ((links.setPrev item (links.prev list)).setNext item (some list)).prev list := rfl
  simp only [addTail, addHead, same]
  cases ((links.setPrev item (links.prev list)).setNext item (some list)).prev list with
  | none => rfl
  | some before => rfl

variable {links : Links α}

theorem addHead_eq {list item behind : α} (pointer : links.next list = some behind)
    (ne : list ≠ item) :
    links.addHead list item = some
      ⟨update (update links.next item (some behind)) list (some item),
        update (update links.prev item (some list)) behind (some item)⟩ := by
  simp [addHead, setNext, setPrev, pointer, update_of_ne ne]

theorem delete_eq {item behind before : α} (pointer : links.next item = some behind)
    (back : links.prev item = some before) (ne : behind ≠ item) :
    links.delete item = some
      ⟨update (update links.next before (some behind)) item none,
        update (update links.prev behind (some before)) item none⟩ := by
  simp [delete, setNext, setPrev, pointer, back, update_of_ne ne.symm]

end Operations

def Linked (links : Links α) (first second : α) : Prop :=
  links.next first = some second ∧ links.prev second = some first

/-- The way from one node to another through the nodes in between. -/
def Path (links : Links α) : α → List α → α → Prop
  | first, [], last => links.Linked first last
  | first, node :: nodes, last => links.Linked first node ∧ Path links node nodes last

/-- The nodes of a circular list in their order; no other node is in a list. -/
structure Ring (links : Links α) (node : α) (nodes : List α) : Prop where
  path : links.Path node nodes node
  nodup : (node :: nodes).Nodup
  outside : ∀ other ∉ node :: nodes, links.next other = none ∧ links.prev other = none

variable {links links' : Links α} {first last node item : α} {nodes more : List α}

theorem path_append :
    links.Path first (nodes ++ node :: more) last ↔
    links.Path first nodes node ∧ links.Path node more last := by
  induction nodes generalizing first with
  | nil => exact Iff.rfl
  | cons head tail ih => simp only [cons_append, Path, ih, and_assoc]

/-- A path has the pointers that leave its nodes but the last, and those that come to
its nodes but the first. -/
theorem Path.frame (path : links.Path first nodes last)
    (nexts : ∀ other ∈ first :: nodes, links'.next other = links.next other)
    (prevs : ∀ other ∈ nodes ++ [last], links'.prev other = links.prev other) :
    links'.Path first nodes last := by
  induction nodes generalizing first with
  | nil =>
    exact ⟨(nexts first (by simp)).trans path.1, (prevs last (by simp)).trans path.2⟩
  | cons head tail ih =>
    refine ⟨⟨(nexts first (by simp)).trans path.1.1, (prevs head (by simp)).trans path.1.2⟩,
      ih path.2 ?_ ?_⟩
    · exact fun other inside => nexts other (mem_cons_of_mem _ inside)
    · exact fun other inside => prevs other (mem_cons_of_mem _ inside)

theorem Path.flip (path : links.Path first nodes last) :
    links.flip.Path last nodes.reverse first := by
  induction nodes generalizing first with
  | nil => exact ⟨path.2, path.1⟩
  | cons head tail ih =>
    rw [reverse_cons, path_append]
    exact ⟨ih path.2, path.1.2, path.1.1⟩

theorem Ring.flip (ring : links.Ring node nodes) : links.flip.Ring node nodes.reverse where
  path := ring.path.flip
  nodup := by
    have nodup := ring.nodup
    rw [nodup_cons] at nodup ⊢
    exact ⟨by simpa using nodup.1, nodup_reverse.mpr nodup.2⟩
  outside other absent := (ring.outside other (by simpa using absent)).symm

theorem Ring.turn (ring : links.Ring first (nodes ++ node :: more)) :
    links.Ring node (more ++ first :: nodes) := by
  have rotated : (first :: (nodes ++ node :: more)).Perm (node :: (more ++ first :: nodes)) := by
    have :=
      (perm_append_comm : (first :: nodes ++ node :: more).Perm (node :: more ++ first :: nodes))
    exact this
  obtain ⟨before, behind⟩ := path_append.mp ring.path
  refine ⟨path_append.mpr ⟨behind, before⟩, rotated.nodup_iff.mp ring.nodup, ?_⟩
  exact fun other absent => ring.outside other fun inside => absent (rotated.mem_iff.mp inside)

section Operations

variable [DecidableEq α]

theorem Ring.addHead (ring : links.Ring node nodes) (absent : item ∉ node :: nodes) :
    ∃ links', links.addHead node item = some links' ∧ links'.Ring node (item :: nodes) := by
  have notNode : node ≠ item := fun same => absent (by simp [same])
  have fresh : (node :: item :: nodes).Nodup := by
    have nodup := ring.nodup
    simp only [nodup_cons, mem_cons, not_or] at nodup absent ⊢
    exact ⟨⟨notNode, nodup.1⟩, absent.2, nodup.2⟩
  cases nodes with
  | nil =>
    refine ⟨_, addHead_eq ring.path.1 notNode, ⟨⟨⟨?_, ?_⟩, ?_, ?_⟩, fresh, ?_⟩⟩
    · simp
    · simp [notNode.symm]
    · simp [notNode.symm]
    · simp
    · intro other out
      simp only [mem_cons, not_or] at out
      simpa [update_of_ne, out.1, out.2.1] using ring.outside other (by simp [out.1])
  | cons behind tail =>
    have notBehind : behind ≠ item := fun same => absent (by simp [same])
    refine ⟨_, addHead_eq ring.path.1.1 notNode,
      ⟨⟨⟨?_, ?_⟩, ⟨?_, ?_⟩, ring.path.2.frame ?_ ?_⟩, fresh, ?_⟩⟩
    · simp
    · simp [notBehind.symm]
    · simp [notNode.symm]
    · simp
    · intro other inside
      have notItem : other ≠ item := fun same => absent (by simp_all)
      have notFirst : other ≠ node := by
        rintro rfl
        exact (nodup_cons.mp ring.nodup).1 inside
      simp [update_of_ne, notItem, notFirst]
    · intro other inside
      have notItem : other ≠ item := fun same => absent (by simp_all)
      have notSecond : other ≠ behind := by
        rintro rfl
        have nodup := ring.nodup
        simp only [nodup_cons, mem_cons, not_or] at nodup
        rcases mem_append.mp inside with inside | inside
        · exact nodup.2.1 inside
        · exact nodup.1.1 (mem_singleton.mp inside).symm
      simp [update_of_ne, notItem, notSecond]
    · intro other out
      simp only [mem_cons, not_or] at out
      simpa [update_of_ne, out.1, out.2.1, out.2.2.1] using
        ring.outside other (by simp [out.1, out.2.2.1, out.2.2.2])

theorem Ring.addTail (ring : links.Ring node nodes) (absent : item ∉ node :: nodes) :
    ∃ links', links.addTail node item = some links' ∧ links'.Ring node (nodes ++ [item]) := by
  have outside : item ∉ node :: nodes.reverse := by simpa using absent
  obtain ⟨flipped, added, result⟩ := ring.flip.addHead outside
  refine ⟨flipped.flip, by rw [addTail_eq_flip, added, Option.map_some], ?_⟩
  have := result.flip
  rwa [reverse_cons, reverse_reverse] at this

theorem Ring.delete (ring : links.Ring node (first :: nodes)) :
    ∃ links', links.delete node = some links' ∧ links'.Ring first nodes := by
  have nodup := ring.nodup
  have notFirst : first ≠ node := fun same => (nodup_cons.mp nodup).1 (by simp [same])
  rcases eq_nil_or_concat' nodes with rfl | ⟨middle, last, rfl⟩
  · refine ⟨_, delete_eq ring.path.1.1 ring.path.2.2 notFirst, ⟨⟨?_, ?_⟩, by simp, ?_⟩⟩
    · simp [update_of_ne, notFirst]
    · simp [update_of_ne, notFirst]
    intro other out
    have notFirst' : other ≠ first := by simpa using out
    by_cases same : other = node
    · simp [same]
    · simpa [update_of_ne, same, notFirst'] using ring.outside other (by simp [same, notFirst'])
  obtain ⟨inner, closing⟩ := path_append.mp ring.path.2
  have lastNode : last ≠ node := fun same => (nodup_cons.mp nodup).1 (by simp [same])
  have lastFirst : last ≠ first := fun same => (nodup_cons.mp (nodup_cons.mp nodup).2).1
    (by simp [same])
  have lastInner : last ∉ middle := by
    have tail := (nodup_cons.mp (nodup_cons.mp nodup).2).2
    exact fun inside => (nodup_append.mp tail).2.2 last inside last (by simp) rfl
  refine ⟨_, delete_eq ring.path.1.1 closing.2 notFirst, ⟨?_, (nodup_cons.mp ring.nodup).2, ?_⟩⟩
  · refine path_append.mpr ⟨inner.frame ?_ ?_, ?_, ?_⟩
    · intro other inside
      have notNode : other ≠ node := fun same => (nodup_cons.mp nodup).1 (by simp_all)
      have notLast : other ≠ last := by
        rintro rfl
        exact (mem_cons.mp inside).elim lastFirst lastInner
      simp [update_of_ne, notNode, notLast]
    · intro other inside
      have notNode : other ≠ node := fun same => (nodup_cons.mp nodup).1 (by simp_all)
      have notHead : other ≠ first := by
        rintro rfl
        exact (nodup_cons.mp (nodup_cons.mp nodup).2).1 inside
      simp [update_of_ne, notNode, notHead]
    · simp [update_of_ne, lastNode]
    · simp [update_of_ne, notFirst]
  · intro other out
    by_cases same : other = node
    · simp [same]
    · have notHead : other ≠ first := fun eq => out (by simp [eq])
      have notLast : other ≠ last := fun eq => out (by simp [eq])
      simpa [update_of_ne, same, notHead, notLast] using ring.outside other (by simp_all)

/-- The head of a list is put behind another of its nodes: the same circular list
begins behind that node. -/
theorem Ring.moveHead {head : α} (ring : links.Ring head (nodes ++ node :: more)) :
    ∃ links₁ links₂, links.delete head = some links₁ ∧ links₁.addHead node head = some links₂ ∧
      links₂.Ring head (more ++ nodes ++ [node]) := by
  have outside : head ∉ node :: (more ++ nodes) := by
    have absent := (nodup_cons.mp ring.nodup).1
    simp only [mem_append, mem_cons] at absent ⊢
    tauto
  have deleted : ∃ links₁, links.delete head = some links₁ ∧ links₁.Ring node (more ++ nodes) := by
    cases nodes with
    | nil =>
      obtain ⟨links₁, result, rest⟩ := ring.delete
      exact ⟨links₁, result, by rwa [append_nil]⟩
    | cons first nodes =>
      obtain ⟨links₁, result, rest⟩ := ring.delete
      exact ⟨links₁, result, rest.turn⟩
  obtain ⟨links₁, result, rest⟩ := deleted
  obtain ⟨links₂, added, circle⟩ := rest.addHead outside
  have turned : links₂.Ring node ([] ++ head :: (more ++ nodes)) := circle
  exact ⟨links₁, links₂, result, added, turned.turn⟩

theorem Ring.deleteNode {head : α} (ring : links.Ring head (nodes ++ node :: more)) :
    ∃ links', links.delete node = some links' ∧ links'.Ring head (nodes ++ more) := by
  have turned := ring.turn
  cases more with
  | nil =>
    obtain ⟨links', result, rest⟩ := turned.delete
    exact ⟨links', result, by rwa [append_nil]⟩
  | cons second more =>
    obtain ⟨links', result, rest⟩ := turned.delete
    exact ⟨links', result, rest.turn⟩

theorem Ring.isEmpty_iff (ring : links.Ring node nodes) :
    links.isEmpty node = true ↔ nodes = [] := by
  cases nodes with
  | nil => simp [isEmpty, ring.path.1]
  | cons head tail =>
    have ne : head ≠ node := fun same => (nodup_cons.mp ring.nodup).1 (by simp [same])
    simp [isEmpty, ring.path.1.1, ne]

end Operations

end Links

end Trusty.Lib
