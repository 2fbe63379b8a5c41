import Mathlib.Tactic.Common

/-!
Programs that work on something others change as well.

A `Dialog` asks for one operation after another and goes on with the answer.  What
may be asked and which answers are possible is a matter of the environment: shared
memory answers a read with any value, an allocator may refuse.  A dialog always comes
to an end; it may also halt.
-/

namespace Trusty.Lib

inductive Dialog (Op : Type) (Ans : Op → Type) (α : Type) where
  | done (value : α)
  | halt
  | ask (op : Op) (next : Ans op → Dialog Op Ans α)

/-- What the operations of a dialog do. -/
structure Env (Op : Type) (Ans : Op → Type) (σ : Type) where
  allowed : σ → Op → Prop
  answers : σ → (op : Op) → Ans op → σ → Prop

inductive Ending (α : Type) where
  | returned (value : α)
  | halted
  /-- An operation was asked for that is not allowed. -/
  | fault

namespace Ending

variable {α : Type}

/-- What is returned has the property, and there was no fault. -/
def meets (ending : Ending α) (post : α → Prop) : Prop :=
  match ending with
  | .returned value => post value
  | .halted => True
  | .fault => False

end Ending

namespace Dialog

variable {Op : Type} {Ans : Op → Type} {α β σ : Type}

protected def bind (prog : Dialog Op Ans α) (next : α → Dialog Op Ans β) : Dialog Op Ans β :=
  match prog with
  | .done value => next value
  | .halt => .halt
  | .ask op rest => .ask op fun answer => (rest answer).bind next

instance : Monad (Dialog Op Ans) where
  pure := Dialog.done
  bind := Dialog.bind

def perform (op : Op) : Dialog Op Ans (Ans op) := .ask op .done

inductive Exec (env : Env Op Ans σ) : Dialog Op Ans α → σ → Ending α → σ → Prop
  | done (value : α) (state : σ) : Exec env (.done value) state (.returned value) state
  | halt (state : σ) : Exec env .halt state .halted state
  | fault {op : Op} (next : Ans op → Dialog Op Ans α) {state : σ}
      (refused : ¬ env.allowed state op) :
      Exec env (.ask op next) state .fault state
  | ask {op : Op} {next : Ans op → Dialog Op Ans α} {state between final : σ} {answer : Ans op}
      {ending : Ending α} (allowed : env.allowed state op)
      (answered : env.answers state op answer between)
      (rest : Exec env (next answer) between ending final) :
      Exec env (.ask op next) state ending final

/-- No execution has a fault, and what is returned has the property. -/
def ensures (env : Env Op Ans σ) (prog : Dialog Op Ans α) (state : σ)
    (post : α → σ → Prop) : Prop :=
  ∀ ending final, Exec env prog state ending final → ending.meets fun value => post value final

section Rules

variable {env : Env Op Ans σ} {state : σ} {post : α → σ → Prop}

@[simp]
theorem ensures_done (value : α) : ensures env (.done value) state post ↔ post value state := by
  constructor
  · exact fun holds => holds _ _ (.done value state)
  · rintro holds _ _ ⟨⟩
    exact holds

@[simp]
theorem ensures_pure (value : α) : ensures env (pure value) state post ↔ post value state :=
  ensures_done value

@[simp]
theorem ensures_halt : ensures env .halt state post := by
  rintro _ _ ⟨⟩
  trivial

@[simp]
theorem ensures_ask (op : Op) (next : Ans op → Dialog Op Ans α) :
    ensures env (.ask op next) state post ↔ env.allowed state op ∧
      ∀ answer between, env.answers state op answer between →
      ensures env (next answer) between post := by
  constructor
  · intro holds
    have allowed : env.allowed state op := by
      by_contra refused
      exact holds _ _ (.fault next refused)
    exact ⟨allowed, fun _ _ answered _ _ rest => holds _ _ (.ask allowed answered rest)⟩
  · rintro ⟨allowed, holds⟩ _ _ run
    cases run with
    | fault _ refused => exact absurd allowed refused
    | ask _ answered rest => exact holds _ _ answered _ _ rest

@[simp]
theorem ensures_perform (op : Op) (post : Ans op → σ → Prop) :
    ensures env (perform op) state post ↔ env.allowed state op ∧
      ∀ answer between, env.answers state op answer between → post answer between := by
  simp [perform]

@[simp]
theorem ensures_bind (prog : Dialog Op Ans α) (next : α → Dialog Op Ans β) (post : β → σ → Prop) :
    ensures env (prog >>= next) state post ↔
      ensures env prog state fun value between => ensures env (next value) between post := by
  change ensures env (prog.bind next) state post ↔ _
  induction prog generalizing state with
  | done value => rw [ensures_done]; rfl
  | halt => exact ⟨fun _ => ensures_halt, fun _ => ensures_halt⟩
  | ask op rest ih =>
    change ensures env (.ask op fun answer => (rest answer).bind next) state post ↔ _
    simp [ih]

variable {prog : Dialog Op Ans α}

theorem ensures_mono {weaker : α → σ → Prop} (holds : ensures env prog state post)
    (implied : ∀ value final, post value final → weaker value final) :
    ensures env prog state weaker := by
  intro ending final run
  have met := holds ending final run
  cases ending with
  | returned value => exact implied value final met
  | halted => trivial
  | fault => exact met

theorem ensures_and {second : α → σ → Prop} (first : ensures env prog state post)
    (other : ensures env prog state second) :
    ensures env prog state fun value final => post value final ∧ second value final := by
  intro ending final run
  have met := first ending final run
  cases ending with
  | returned value => exact ⟨met, other _ _ run⟩
  | halted => trivial
  | fault => exact met

@[simp]
theorem ensures_ite (condition : Prop) [Decidable condition] (first second : Dialog Op Ans α) :
    ensures env (if condition then first else second) state post ↔
      (condition → ensures env first state post) ∧
      (¬ condition → ensures env second state post) := by
  by_cases met : condition <;> simp [met]

/-- If whatever is ensured holds of a result, some execution returns it. -/
theorem exec_of_reaches {value : α} {final : σ} (safe : ensures env prog state post)
    (reaches : ∀ other : α → σ → Prop, ensures env prog state other → other value final) :
    Exec env prog state (.returned value) final := by
  by_contra missing
  refine reaches (fun result after => ¬(result = value ∧ after = final)) ?_ ⟨rfl, rfl⟩
  intro ending after run
  cases ending with
  | returned result =>
    rintro ⟨rfl, rfl⟩
    exact missing run
  | halted => trivial
  | fault => exact safe _ _ run

theorem ensures_forM {ι : Type} (keeps : σ → Prop) {items : List ι} {body : ι → Dialog Op Ans PUnit}
    (round : ∀ item ∈ items, ∀ before, keeps before → ensures env (body item) before
      fun _ final => keeps final)
    (start : keeps state) : ensures env (items.forM body) state fun _ final => keeps final := by
  induction items generalizing state with
  | nil =>
    rw [List.forM, ensures_pure]
    exact start
  | cons item rest ih =>
    rw [List.forM, ensures_bind]
    apply ensures_mono (round item List.mem_cons_self state start)
    intro _ between kept
    exact ih (fun other member => round other (List.mem_cons_of_mem _ member)) kept

/-- Whatever a dialog does, an invariant is kept. -/
def Keeps (env : Env Op Ans σ) (invariant : σ → Prop) (prog : Dialog Op Ans α) : Prop :=
  ∀ before, invariant before → ensures env prog before fun _ final => invariant final

namespace Keeps

variable {invariant : σ → Prop} {prog : Dialog Op Ans α}

theorem pure (value : α) : Keeps env invariant (pure value) :=
  fun _ holds => (ensures_pure value).mpr holds

theorem bind {next : α → Dialog Op Ans β} (first : Keeps env invariant prog)
    (rest : ∀ value, Keeps env invariant (next value)) : Keeps env invariant (prog >>= next) := by
  intro before holds
  rw [ensures_bind]
  exact ensures_mono (first before holds) fun value between kept => rest value between kept

theorem ite {condition : Prop} [Decidable condition] {second : Dialog Op Ans α}
    (yes : Keeps env invariant prog) (no : Keeps env invariant second) :
    Keeps env invariant (if condition then prog else second) := by
  split
  · exact yes
  · exact no

end Keeps

end Rules

/-! ### Answers that are known -/

section Run

variable (handler : (op : Op) → σ → Ans op × σ)

/-- What a dialog returns, unless it halts, and what it leaves, if every operation has
the answer of the handler. -/
def run (prog : Dialog Op Ans α) (state : σ) : Option α × σ :=
  match prog with
  | .done value => (some value, state)
  | .halt => (none, state)
  | .ask op next => (next (handler op state).1).run (handler op state).2

@[simp]
theorem run_pure (value : α) (state : σ) :
    run handler (pure value) state = (some value, state) := rfl

@[simp]
theorem run_bind (prog : Dialog Op Ans α) (next : α → Dialog Op Ans β) (state : σ) :
    run handler (prog >>= next) state =
      match run handler prog state with
      | (some value, between) => run handler (next value) between
      | (none, between) => (none, between) := by
  change run handler (prog.bind next) state = _
  induction prog generalizing state with
  | done value => rfl
  | halt => rfl
  | ask op rest ih => exact ih _ _

theorem run_bind_pure_state (prog : Dialog Op Ans α) (value : α → β) (state : σ) :
    (run handler (prog >>= fun result => pure (value result)) state).2 =
      (run handler prog state).2 := by
  rw [run_bind]
  split <;> simp_all

theorem run_ite (condition : Prop) [Decidable condition] (first second : Dialog Op Ans α)
    (state : σ) :
    run handler (if condition then first else second) state =
      if condition then run handler first state else run handler second state := by
  split <;> rfl

variable {handler} in
theorem run_invariant {invariant : σ → Prop}
    (keeps : ∀ op state, invariant state → invariant (handler op state).2) (prog : Dialog Op Ans α)
    {state : σ} (holds : invariant state) : invariant (run handler prog state).2 := by
  induction prog generalizing state with
  | done value => exact holds
  | halt => exact holds
  | ask op next ih => exact ih _ (keeps op state holds)

end Run

/-! ### A dialog as part of a larger one -/

section Embed

variable {Op' : Type} {Ans' : Op' → Type} (into : Op → Op') (back : ∀ op, Ans' (into op) → Ans op)

/-- The dialog in which every operation is asked for as one of another kind. -/
def embed (prog : Dialog Op Ans α) : Dialog Op' Ans' α :=
  match prog with
  | .done value => .done value
  | .halt => .halt
  | .ask op next => .ask (into op) fun answer => (next (back op answer)).embed

end Embed

end Dialog

/-- What an environment does for the embedded operations. -/
def Env.comap {Op Op' σ : Type} {Ans : Op → Type} {Ans' : Op' → Type} (env : Env Op' Ans' σ)
    (into : Op → Op') (back : ∀ op, Ans' (into op) → Ans op) : Env Op Ans σ where
  allowed state op := env.allowed state (into op)
  answers state op answer final := ∃ raw, env.answers state (into op) raw final ∧
    back op raw = answer

@[simp]
theorem Dialog.ensures_embed {Op Op' σ α : Type} {Ans : Op → Type} {Ans' : Op' → Type}
    {env : Env Op' Ans' σ} (into : Op → Op') (back : ∀ op, Ans' (into op) → Ans op)
    (prog : Dialog Op Ans α) {state : σ} {post : α → σ → Prop} :
    ensures env (prog.embed into back) state post ↔
    ensures (env.comap into back) prog state post := by
  induction prog generalizing state with
  | done value => simp only [embed, ensures_done]
  | halt => exact ⟨fun _ => ensures_halt, fun _ => ensures_halt⟩
  | ask op next ih =>
    simp only [embed, ensures_ask, ih]
    constructor
    · rintro ⟨allowed, rest⟩
      refine ⟨allowed, ?_⟩
      rintro _ between ⟨raw, answered, rfl⟩
      exact rest raw between answered
    · rintro ⟨allowed, rest⟩
      exact ⟨allowed, fun raw between answered => rest _ between ⟨raw, answered, rfl⟩⟩

end Trusty.Lib
