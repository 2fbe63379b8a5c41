import Mathlib.Data.List.Nodup

/-!
Pointers between two ends, and nodes that know the list they are in.
-/

namespace Trusty.Lib

open Function

section Paired

variable {α : Type}

/-- Both ends of a connection point to each other until one of them lets go. -/
structure Paired (peer : α → Option α) : Prop where
  irrefl : ∀ first, peer first ≠ some first
  injective : ∀ first second target, peer first = some target → peer second = some target →
    first = second
  answered : ∀ first second, peer first = some second → peer second = some first ∨
    peer second = none

variable [DecidableEq α] {peer : α → Option α}

theorem Paired.drop (paired : Paired peer) (side : α) : Paired (update peer side none) := by
  have kept : ∀ first second, update peer side none first = some second →
      first ≠ side ∧ peer first = some second := by
    intro first second pointer
    by_cases same : first = side
    · subst same
      rw [update_self] at pointer
      cases pointer
    · rw [update_of_ne same] at pointer
      exact ⟨same, pointer⟩
  refine ⟨?_, ?_, ?_⟩
  · intro first pointer
    exact paired.irrefl first (kept first first pointer).2
  · intro first second target firstPointer secondPointer
    exact paired.injective first second target (kept _ _ firstPointer).2 (kept _ _ secondPointer).2
  intro first second pointer
  by_cases same : second = side
  · subst same
    exact .inr (update_self _ _ _)
  · rw [update_of_ne same]
    exact paired.answered first second (kept _ _ pointer).2

theorem Paired.connect (paired : Paired peer) {left right : α} (ne : left ≠ right)
    (leftFree : ∀ other, peer other ≠ some left) (rightFree : ∀ other, peer other ≠ some right) :
    Paired (update (update peer left (some right)) right (some left)) := by
  have split : ∀ first second,
      update (update peer left (some right)) right (some left) first = some second →
      (first = left ∧ second = right) ∨ (first = right ∧ second = left) ∨
        (first ≠ left ∧ first ≠ right ∧ second ≠ left ∧ second ≠ right ∧
          peer first = some second) := by
    intro first second pointer
    by_cases isRight : first = right
    · subst isRight
      rw [update_self] at pointer
      cases pointer
      exact .inr (.inl ⟨rfl, rfl⟩)
    rw [update_of_ne isRight] at pointer
    by_cases isLeft : first = left
    · subst isLeft
      rw [update_self] at pointer
      cases pointer
      exact .inl ⟨rfl, rfl⟩
    rw [update_of_ne isLeft] at pointer
    refine .inr (.inr ⟨isLeft, isRight, ?_, ?_, pointer⟩)
    · rintro rfl
      exact leftFree first pointer
    · rintro rfl
      exact rightFree first pointer
  refine ⟨?_, ?_, ?_⟩
  · intro first pointer
    rcases split first first pointer with ⟨rfl, same⟩ | ⟨rfl, same⟩ | ⟨_, _, _, _, old⟩
    · exact ne same
    · exact ne same.symm
    · exact paired.irrefl first old
  · intro first second target firstPointer secondPointer
    rcases split first target firstPointer with
      ⟨rfl, rfl⟩ | ⟨rfl, rfl⟩ | ⟨_, _, notLeft, notRight, old⟩ <;>
      rcases split second _ secondPointer with
        ⟨rfl, same⟩ | ⟨rfl, same⟩ | ⟨_, _, left', right', old'⟩
    · rfl
    · exact same.symm
    · exact (right' rfl).elim
    · exact same.symm
    · rfl
    · exact (left' rfl).elim
    · exact (notRight same).elim
    · exact (notLeft same).elim
    · exact paired.injective first second target old old'
  · intro first second pointer
    rcases split first second pointer with ⟨rfl, rfl⟩ | ⟨rfl, rfl⟩ | ⟨_, _, notLeft, notRight, old⟩
    · exact .inl (update_self _ _ _)
    · rw [update_of_ne ne, update_self]
      exact .inl rfl
    · rw [update_of_ne notRight, update_of_ne notLeft]
      exact paired.answered first second old

omit [DecidableEq α] in
theorem Paired.apart (paired : Paired peer) {left right first second : α}
    (pointer : peer left = some right) (notLeft : first ≠ left) (notRight : first ≠ right)
    (other : peer first = some second) :
    second ≠ left ∧ second ≠ right := by
  constructor
  · rintro rfl
    rcases paired.answered first second other with back | gone
    · rw [back] at pointer
      exact notRight (Option.some.inj pointer)
    · rw [gone] at pointer
      cases pointer
  · rintro rfl
    exact notLeft (paired.injective first left second other pointer)

end Paired

section Homed

variable {Head Node : Type}

/-- Every node is in the list it says it is in, and in no other. -/
structure Homed (lists : Head → List Node) (home : Node → Option Head) : Prop where
  mem_iff : ∀ head node, node ∈ lists head ↔ home node = some head
  nodup : ∀ head, (lists head).Nodup

variable [DecidableEq Head] [DecidableEq Node] {lists : Head → List Node}
  {home : Node → Option Head}

variable {node : Node}

theorem Homed.remove (homed : Homed lists home) {head : Head} (inside : home node = some head) :
    Homed (update lists head ((lists head).erase node)) (update home node none) := by
  refine ⟨?_, ?_⟩
  · intro other member
    by_cases sameHead : other = head
    · subst sameHead
      rw [update_self, (homed.nodup other).mem_erase_iff, homed.mem_iff]
      by_cases sameNode : member = node
      · simp [sameNode]
      · simp [sameNode]
    · rw [update_of_ne sameHead, homed.mem_iff]
      by_cases sameNode : member = node
      · subst sameNode
        rw [inside, update_self]
        simpa using fun same => sameHead same.symm
      · rw [update_of_ne sameNode]
  · intro other
    by_cases sameHead : other = head
    · subst sameHead
      rw [update_self]
      exact (homed.nodup other).erase node
    · rw [update_of_ne sameHead]
      exact homed.nodup other

theorem Homed.append (homed : Homed lists home) (head : Head) (outside : home node = none) :
    Homed (update lists head (lists head ++ [node])) (update home node (some head)) := by
  have absent : ∀ other, node ∉ lists other := by
    intro other
    rw [homed.mem_iff, outside]
    simp
  refine ⟨?_, ?_⟩
  · intro other member
    by_cases sameHead : other = head
    · subst sameHead
      rw [update_self, List.mem_append, homed.mem_iff, List.mem_singleton]
      by_cases sameNode : member = node
      · simp [sameNode]
      · simp [sameNode]
    · rw [update_of_ne sameHead]
      by_cases sameNode : member = node
      · subst sameNode
        simpa [absent other] using fun same => sameHead same.symm
      · rw [update_of_ne sameNode, homed.mem_iff]
  · intro other
    by_cases sameHead : other = head
    · subst sameHead
      rw [update_self]
      exact (homed.nodup other).append (List.nodup_singleton node)
        (List.disjoint_singleton.mpr (absent other))
    · rw [update_of_ne sameHead]
      exact homed.nodup other

end Homed

end Trusty.Lib
