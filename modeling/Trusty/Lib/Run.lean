import Mathlib.Logic.Basic

/-!
Stateful code that can stop at an assertion.

A `Run` either returns or stops at an assertion, where `ensures` says nothing.
-/

namespace Trusty.Lib

inductive Outcome (σ α : Type) where
  | done (value : α) (state : σ)
  | aborted

def Run (σ α : Type) := σ → Outcome σ α

namespace Run

variable {σ α β : Type}

protected def bind (run : Run σ α) (next : α → Run σ β) : Run σ β := fun state =>
  match run state with
  | .done value state => next value state
  | .aborted => .aborted

instance : Monad (Run σ) where
  pure value := fun state => .done value state
  bind := Run.bind

def read : Run σ σ := fun state => .done state state

def modify (change : σ → σ) : Run σ Unit := fun state => .done () (change state)

def abort : Run σ α := fun _ => .aborted

def require (condition : Prop) [Decidable condition] : Run σ Unit :=
  if condition then pure () else abort

/-- A result that is missing where the code asserts. -/
def ofOption : Option α → Run σ α
  | some value => pure value
  | none => abort

/-- What holds of the value and the state when the run returns. -/
def ensures (run : Run σ α) (state : σ) (post : α → σ → Prop) : Prop :=
  match run state with
  | .done value state => post value state
  | .aborted => True

section Ensures

variable {state : σ} {post : α → σ → Prop}

@[simp]
theorem ensures_pure (value : α) :
    (pure value : Run σ α).ensures state post ↔ post value state :=
  Iff.rfl

@[simp]
theorem ensures_bind (run : Run σ α) (next : α → Run σ β) (post : β → σ → Prop) :
    (run >>= next).ensures state post ↔
      run.ensures state (fun value state => (next value).ensures state post) := by
  change (run.bind next).ensures state post ↔ _
  unfold ensures Run.bind
  cases run state <;> exact Iff.rfl

@[simp]
theorem ensures_read (post : σ → σ → Prop) :
    (read : Run σ σ).ensures state post ↔ post state state :=
  Iff.rfl

@[simp]
theorem ensures_modify (change : σ → σ) (post : Unit → σ → Prop) :
    (modify change).ensures state post ↔ post () (change state) :=
  Iff.rfl

@[simp]
theorem ensures_abort : (abort : Run σ α).ensures state post ↔ True :=
  Iff.rfl

@[simp]
theorem ensures_require (condition : Prop) [Decidable condition] (post : Unit → σ → Prop) :
    (require condition).ensures state post ↔ (condition → post () state) := by
  by_cases met : condition <;> simp [require, met]

@[simp]
theorem ensures_ofOption (value : Option α) :
    (ofOption value).ensures state post ↔ ∀ found, value = some found →
    post found state := by
  cases value <;> simp [ofOption]

variable {run : Run σ α}

theorem ensures_mono {weaker : α → σ → Prop} (holds : run.ensures state post)
    (implied : ∀ value state, post value state → weaker value state) :
    run.ensures state weaker := by
  unfold ensures at holds ⊢
  cases result : run state with
  | done value final =>
    rw [result] at holds
    exact implied value final holds
  | aborted => trivial

theorem ensures_done {value : α} {final : σ} (holds : run.ensures state post)
    (returned : run state = .done value final) : post value final := by
  unfold ensures at holds
  rw [returned] at holds
  exact holds

end Ensures

/-- The run returns, and this holds of the value and the state. -/
def returns (run : Run σ α) (state : σ) (post : α → σ → Prop) : Prop :=
  ∃ value final, run state = .done value final ∧ post value final

section Returns

variable {state : σ} {post : α → σ → Prop}

@[simp]
theorem returns_pure (value : α) :
    (pure value : Run σ α).returns state post ↔ post value state := by
  constructor
  · rintro ⟨_, _, same, holds⟩
    cases same
    exact holds
  · exact fun holds => ⟨value, state, rfl, holds⟩

@[simp]
theorem returns_bind (run : Run σ α) (next : α → Run σ β) (post : β → σ → Prop) :
    (run >>= next).returns state post ↔
    run.returns state fun value state => (next value).returns state post := by
  change (run.bind next).returns state post ↔ _
  unfold returns Run.bind
  cases run state with
  | done value between =>
    constructor
    · exact fun rest => ⟨value, between, rfl, rest⟩
    · rintro ⟨_, _, same, rest⟩
      cases same
      exact rest
  | aborted => simp

@[simp]
theorem returns_read (post : σ → σ → Prop) :
    (read : Run σ σ).returns state post ↔ post state state :=
  returns_pure state

@[simp]
theorem returns_modify (change : σ → σ) (post : Unit → σ → Prop) :
    (modify change).returns state post ↔ post () (change state) := by
  constructor
  · rintro ⟨_, _, same, holds⟩
    cases same
    exact holds
  · exact fun holds => ⟨(), change state, rfl, holds⟩

@[simp]
theorem returns_require (condition : Prop) [Decidable condition] (post : Unit → σ → Prop) :
    (require condition).returns state post ↔ condition ∧ post () state := by
  by_cases met : condition
  · simp [require, met]
  · simp [require, met, returns, abort]

@[simp]
theorem returns_ofOption (value : Option α) :
    (ofOption value).returns state post ↔ ∃ found, value = some found ∧ post found state := by
  cases value with
  | none => simp [ofOption, returns, abort]
  | some found => simp [ofOption]

@[simp]
theorem not_returns_false (run : Run σ α) : ¬run.returns state fun _ _ => False := by
  rintro ⟨_, _, _, contra⟩
  exact contra

variable {run : Run σ α}

theorem ensures_returns {other : α → σ → Prop} (holds : run.ensures state post)
    (returned : run.returns state other) :
    run.returns state fun value final => post value final ∧ other value final := by
  obtain ⟨value, final, result, rest⟩ := returned
  exact ⟨value, final, result, ensures_done holds result, rest⟩

theorem returns_iff_of_final {run : Run σ Unit} {final : σ}
    (result : run.returns state fun _ found => found = final) (post : Unit → σ → Prop) :
    run.returns state post ↔ post () final := by
  obtain ⟨_, _, returned, rfl⟩ := result
  constructor
  · rintro ⟨_, _, again, holds⟩
    rw [returned] at again
    cases again
    exact holds
  · exact fun holds => ⟨(), _, returned, holds⟩

theorem returns_mono {weaker : α → σ → Prop} (holds : run.returns state post)
    (implied : ∀ value state, post value state → weaker value state) :
    run.returns state weaker := by
  obtain ⟨value, final, returned, holds⟩ := holds
  exact ⟨value, final, returned, implied value final holds⟩

end Returns

end Run

end Trusty.Lib
