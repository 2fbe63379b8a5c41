import Mathlib.Logic.Basic

/-!
Programs that work on an allocator.

An `AllocProgram` asks for fresh names, gives names back, asks whether a name
has to be copied before it is changed, writes to names, and publishes the state
that others can see while it waits for an answer.  The answers come from
whoever runs it, so a statement about a program holds for every allocator.
-/

namespace Trusty.Lib

/-- A program that returns an `α`.  `abort` is a failed assertion. -/
inductive AllocProgram (View α : Type) where
  | done (value : α)
  | abort
  | alloc (continuation : Nat → AllocProgram View α)
  | free (name : Nat) (continuation : AllocProgram View α)
  | needCopy (name : Nat) (continuation : Bool → AllocProgram View α)
  | write (name : Nat) (continuation : AllocProgram View α)
  | publish (view : View) (continuation : AllocProgram View α)

namespace AllocProgram

variable {View α β : Type}

def bind : AllocProgram View α → (α → AllocProgram View β) → AllocProgram View β
  | done value, next => next value
  | abort, _ => abort
  | alloc continuation, next => alloc fun name => bind (continuation name) next
  | free name continuation, next => free name (bind continuation next)
  | needCopy name continuation, next =>
    needCopy name fun answer => bind (continuation answer) next
  | write name continuation, next => write name (bind continuation next)
  | publish view continuation, next => publish view (bind continuation next)

instance : Monad (AllocProgram View) where
  pure := done
  bind := bind

def require (condition : Prop) [Decidable condition] : AllocProgram View Unit :=
  if condition then done () else abort

/-- A computation without events; nothing is a failed assertion. -/
def ofOption : Option α → AllocProgram View α
  | none => abort
  | some value => done value

/-- Some run of the program returns the value. -/
def Returns : AllocProgram View α → α → Prop
  | done value, result => value = result
  | abort, _ => False
  | alloc continuation, result => ∃ name, name ≠ 0 ∧ Returns (continuation name) result
  | free _ continuation, result => Returns continuation result
  | needCopy _ continuation, result => ∃ answer, Returns (continuation answer) result
  | write _ continuation, result => Returns continuation result
  | publish _ continuation, result => Returns continuation result

/-- Some run of the program ends in a failed assertion. -/
def Aborts : AllocProgram View α → Prop
  | done _ => False
  | abort => True
  | alloc continuation => ∃ name, name ≠ 0 ∧ Aborts (continuation name)
  | free _ continuation => Aborts continuation
  | needCopy _ continuation => ∃ answer, Aborts (continuation answer)
  | write _ continuation => Aborts continuation
  | publish _ continuation => Aborts continuation

/-- The run in which the names from `next` on are handed out and no name needs
a copy, with the first name left.  An abort gives nothing. -/
def runFrom : Nat → AllocProgram View α → Option (α × Nat)
  | next, done value => some (value, next)
  | _, abort => none
  | next, alloc continuation => runFrom (next + 1) (continuation next)
  | next, free _ continuation => runFrom next continuation
  | next, needCopy _ continuation => runFrom next (continuation false)
  | next, write _ continuation => runFrom next continuation
  | next, publish _ continuation => runFrom next continuation

variable {program : AllocProgram View α}

theorem runFrom_returns {next after : Nat} {value : α} (positive : 0 < next)
    (ran : runFrom next program = some (value, after)) : Returns program value ∧ 0 < after := by
  induction program generalizing next with
  | done result =>
    unfold runFrom at ran
    cases ran
    exact ⟨rfl, positive⟩
  | abort => cases ran
  | alloc continuation ih =>
    obtain ⟨returned, left⟩ := ih next (Nat.succ_pos next) ran
    exact ⟨⟨next, Nat.ne_of_gt positive, returned⟩, left⟩
  | free name continuation ih => exact ih positive ran
  | needCopy name continuation ih =>
    obtain ⟨returned, left⟩ := ih false positive ran
    exact ⟨⟨false, returned⟩, left⟩
  | write name continuation ih => exact ih positive ran
  | publish view continuation ih => exact ih positive ran

theorem runFrom_aborts {next : Nat} (positive : 0 < next) (ran : runFrom next program = none) :
    Aborts program := by
  induction program generalizing next with
  | done result => cases ran
  | abort => trivial
  | alloc continuation ih =>
    exact ⟨next, Nat.ne_of_gt positive, ih next (Nat.succ_pos next) ran⟩
  | free name continuation ih => exact ih positive ran
  | needCopy name continuation ih =>
    exact ⟨false, ih false positive ran⟩
  | write name continuation ih => exact ih positive ran
  | publish view continuation ih => exact ih positive ran

theorem exists_returns (safe : ¬ Aborts program) : ∃ value, Returns program value := by
  cases ran : runFrom 1 program with
  | none => exact (safe (runFrom_aborts Nat.one_pos ran)).elim
  | some result => exact ⟨result.1, (runFrom_returns Nat.one_pos ran).1⟩

/-- The weakest precondition: no run ends in a failed assertion, and each returns a value of
`post`. -/
def ensures : AllocProgram View α → (α → Prop) → Prop
  | done value, post => post value
  | abort, _ => False
  | alloc continuation, post => ∀ name, name ≠ 0 → ensures (continuation name) post
  | free _ continuation, post => ensures continuation post
  | needCopy _ continuation, post => ∀ answer, ensures (continuation answer) post
  | write _ continuation, post => ensures continuation post
  | publish _ continuation, post => ensures continuation post

section Ensures

section

variable (value : α) (post : α → Prop)

@[simp]
theorem ensures_pure : ensures (pure value : AllocProgram View α) post ↔ post value :=
  Iff.rfl

@[simp]
theorem ensures_ofOption_some :
    ensures (ofOption (some value) : AllocProgram View α) post ↔ post value :=
  Iff.rfl

end

variable {post : α → Prop}

theorem ensures_iff :
    ensures program post ↔ ¬ Aborts program ∧ ∀ value, Returns program value → post value := by
  induction program with
  | done value => simp [ensures, Aborts, Returns]
  | abort => simp [ensures, Aborts]
  | alloc continuation ih =>
    simp only [ensures, Aborts, Returns, ih]
    grind
  | needCopy name continuation ih =>
    simp only [ensures, Aborts, Returns, ih]
    grind
  | free name continuation ih => exact ih
  | write name continuation ih => exact ih
  | publish view continuation ih => exact ih

/-- What holds of every value that the program returns. -/
theorem ensures_mono {weaker : α → Prop}
    (implied : ∀ value, Returns program value → post value → weaker value)
    (holds : ensures program post) : ensures program weaker := by
  rw [ensures_iff] at holds ⊢
  exact ⟨holds.1, fun value returned => implied value returned (holds.2 value returned)⟩

@[simp]
theorem ensures_bind (program : AllocProgram View α) (next : α → AllocProgram View β)
    (post : β → Prop) :
    ensures (program >>= next) post ↔ ensures program fun value => ensures (next value) post := by
  change ensures (program.bind next) post ↔ _
  induction program with
  | done value => exact Iff.rfl
  | abort => exact Iff.rfl
  | alloc continuation ih => simp only [bind, ensures, ih]
  | free name continuation ih => simp only [bind, ensures, ih]
  | needCopy name continuation ih => simp only [bind, ensures, ih]
  | write name continuation ih => simp only [bind, ensures, ih]
  | publish view continuation ih => simp only [bind, ensures, ih]

@[simp]
theorem ensures_require {condition : Prop} [Decidable condition] {post : Unit → Prop} :
    ensures (require condition : AllocProgram View Unit) post ↔ condition ∧ post () := by
  by_cases met : condition <;> simp [require, met, ensures]

end Ensures

end AllocProgram

end Trusty.Lib
