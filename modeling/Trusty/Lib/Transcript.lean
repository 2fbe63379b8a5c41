import Mathlib.Tactic.Common

/-!
Machines that answer one input after another.

`final` is the state a list of inputs leads to and `transcript` what was observed on
the way.  A property of the transcript and the state that every step keeps holds after
every run; if only some steps keep it, it holds after the runs that consist of these.
-/

namespace Trusty.Lib.Transcript

open List

variable {σ ι ε : Type} (step : σ → ι → ε × σ)

def final (state : σ) : List ι → σ
  | [] => state
  | input :: rest => final (step state input).2 rest

def transcript (state : σ) : List ι → List ε
  | [] => []
  | input :: rest => (step state input).1 :: transcript (step state input).2 rest

/-- Every input satisfies the condition in the state that it meets. -/
def Meets (condition : σ → ι → Prop) (state : σ) : List ι → Prop
  | [] => True
  | input :: rest => condition state input ∧ Meets condition (step state input).2 rest

/-- Every input satisfies the condition in the state that it meets, after what was
observed before it. -/
def MeetsAfter (condition : List ε → σ → ι → Prop) (past : List ε) (state : σ) : List ι → Prop
  | [] => True
  | input :: rest =>
    condition past state input ∧ MeetsAfter condition (past ++ [(step state input).1])
    (step state input).2 rest

variable {step} {condition : σ → ι → Prop} {state : σ}

theorem transcript_append (first second : List ι) :
    transcript step state (first ++ second) =
      transcript step state first ++ transcript step (final step state first) second := by
  induction first generalizing state with
  | nil => rfl
  | cons input rest ih => exact congrArg (List.cons _) ih

theorem meets_append (first second : List ι) :
    Meets step condition state (first ++ second) ↔
      Meets step condition state first ∧ Meets step condition (final step state first) second := by
  induction first generalizing state with
  | nil => exact ⟨fun meets => ⟨trivial, meets⟩, And.right⟩
  | cons input rest ih =>
    change _ ∧ Meets _ _ _ (rest ++ second) ↔ (_ ∧ _) ∧ _
    rw [ih, and_assoc]
    rfl

theorem meets_of_forall (always : ∀ state input, condition state input) (inputs : List ι) :
    Meets step condition state inputs := by
  induction inputs generalizing state with
  | nil => trivial
  | cons input rest ih => exact ⟨always state input, ih⟩

theorem exists_input_of_transcript_eq {inputs : List ι} {past future : List ε} {event : ε}
    (split : transcript step state inputs = past ++ event :: future) :
    ∃ before input after, inputs = before ++ input :: after ∧ past = transcript step state before ∧
      event = (step (final step state before) input).1 ∧
      future = transcript step (step (final step state before) input).2 after := by
  induction inputs generalizing state past with
  | nil => simp [transcript] at split
  | cons first rest ih =>
    cases past with
    | nil =>
      obtain ⟨same, later⟩ := List.cons.inj split
      exact ⟨[], first, rest, rfl, rfl, same.symm, later.symm⟩
    | cons earliest past =>
      obtain ⟨same, later⟩ := List.cons.inj split
      obtain ⟨before, input, after, inputsEq, pastEq, eventEq, futureEq⟩ := ih later
      refine ⟨first :: before, input, after, by rw [inputsEq]; rfl, ?_, eventEq, futureEq⟩
      rw [← same, pastEq]
      rfl

theorem invariant_of_meets {invariant : List ε → σ → Prop}
    (keeps : ∀ events state input, condition state input → invariant events state →
      invariant (events ++ [(step state input).1]) (step state input).2)
    (start : invariant [] state) {inputs : List ι} (meets : Meets step condition state inputs) :
    invariant (transcript step state inputs) (final step state inputs) := by
  suffices general : ∀ events, invariant events state →
      invariant (events ++ transcript step state inputs) (final step state inputs) by
    exact general [] start
  clear start
  induction inputs generalizing state with
  | nil =>
    intro events holds
    rw [transcript, append_nil]
    exact holds
  | cons input rest ih =>
    intro events holds
    have later := ih meets.2 _ (keeps events state input meets.1 holds)
    rw [append_assoc] at later
    exact later

theorem invariant {invariant : List ε → σ → Prop}
    (keeps : ∀ events state input, invariant events state →
      invariant (events ++ [(step state input).1]) (step state input).2)
    (start : invariant [] state) (inputs : List ι) :
    invariant (transcript step state inputs) (final step state inputs) :=
  invariant_of_meets (fun events state input (_ : True) => keeps events state input) start
    (meets_of_forall (fun _ _ => trivial) inputs)

/-- A property that holds after every part of a run just if all inputs satisfy a condition:
the condition leads from one point to the next, and without it the property is lost. -/
theorem forall_prefix_iff_meetsAfter {allowed : List ε → σ → ι → Prop}
    {invariant property : List ε → σ → Prop}
    (shows : ∀ past state, invariant past state → property past state)
    (keeps : ∀ past state input, invariant past state → allowed past state input →
      invariant (past ++ [(step state input).1]) (step state input).2)
    (loses : ∀ past state input, invariant past state → ¬allowed past state input →
      ¬property (past ++ [(step state input).1]) (step state input).2)
    {past : List ε} (start : invariant past state) (inputs : List ι) :
    (∀ before, before <+: inputs →
      property (past ++ transcript step state before) (final step state before)) ↔
      MeetsAfter step allowed past state inputs := by
  induction inputs generalizing past state with
  | nil =>
    refine iff_of_true ?_ trivial
    intro before part
    rw [prefix_nil.mp part, transcript, append_nil]
    exact shows past state start
  | cons input rest ih =>
    constructor
    · intro holds
      have lawful : allowed past state input := by
        by_contra unlawful
        exact loses past state input start unlawful (holds [input] (prefix_append [input] rest))
      refine ⟨lawful, (ih (keeps past state input start lawful)).mp fun before part => ?_⟩
      have later := holds (input :: before) (cons_prefix_cons.mpr ⟨rfl, part⟩)
      rw [transcript, ← singleton_append, ← append_assoc] at later
      exact later
    · rintro ⟨lawful, meets⟩ before part
      cases before with
      | nil =>
        rw [transcript, append_nil]
        exact shows past state start
      | cons other before =>
        obtain ⟨rfl, inner⟩ := cons_prefix_cons.mp part
        rw [transcript, ← singleton_append, ← append_assoc]
        exact (ih (keeps past state other start lawful)).mpr meets before inner

end Trusty.Lib.Transcript
