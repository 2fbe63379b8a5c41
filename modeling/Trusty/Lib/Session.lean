import Mathlib.Logic.Basic

/-!
Programs that talk over a channel they do not trust.

A `Session` draws fresh values, sends commands and goes on with whatever comes
back, and leaves notes of what it has concluded.  A `Network` says which values
are fresh and which answers are possible in a state, and how the state moves on
while the answer is awaited.  `Exec` are the runs of a session in a network.
-/

namespace Trusty.Lib

inductive Session (Nonce Command Answer Note α : Type) where
  | done (value : α)
  | draw (continuation : Nonce → Session Nonce Command Answer Note α)
  | send (command : Command) (continuation : Answer → Session Nonce Command Answer Note α)
  | note (event : Note) (continuation : Session Nonce Command Answer Note α)

structure Network (σ Nonce Command Answer : Type) where
  fresh : σ → Nonce → Prop
  exchange : σ → Command → Answer → σ → Prop

namespace Session

variable {σ Nonce Command Answer Note α β : Type}

def bind : Session Nonce Command Answer Note α → (α → Session Nonce Command Answer Note β) →
    Session Nonce Command Answer Note β
  | done value, next => next value
  | draw continuation, next => draw fun nonce => bind (continuation nonce) next
  | send command continuation, next => send command fun answer => bind (continuation answer) next
  | note event continuation, next => note event (bind continuation next)

instance : Monad (Session Nonce Command Answer Note) where
  pure := done
  bind := bind

/-- A run of the session from one state to another, with the value it returns
and the notes it leaves. -/
inductive Exec (network : Network σ Nonce Command Answer) :
    σ → Session Nonce Command Answer Note α → α → List Note → σ → Prop
  | done {state value} : Exec network state (.done value) value [] state
  | draw {state continuation nonce value notes final} :
      network.fresh state nonce → Exec network state (continuation nonce) value notes final →
      Exec network state (.draw continuation) value notes final
  | send {state command continuation answer middle value notes final} :
      network.exchange state command answer middle →
      Exec network middle (continuation answer) value notes final →
      Exec network state (.send command continuation) value notes final
  | note {state event continuation value notes final} :
      Exec network state continuation value notes final →
      Exec network state (.note event continuation) value (event :: notes) final

section Exec

variable {network : Network σ Nonce Command Answer} {state final : σ} {value : α}
  {notes : List Note}

variable {result : α} {session : Session Nonce Command Answer Note α}
  {next : α → Session Nonce Command Answer Note β}

@[simp]
theorem exec_done_iff :
    Exec network state (.done result : Session Nonce Command Answer Note α) value notes final ↔
      value = result ∧ notes = [] ∧ final = state := by
  constructor
  · rintro ⟨⟩
    exact ⟨rfl, rfl, rfl⟩
  · rintro ⟨rfl, rfl, rfl⟩
    exact .done

@[simp]
theorem exec_pure_iff :
    Exec network state (pure result : Session Nonce Command Answer Note α) value notes final ↔
      value = result ∧ notes = [] ∧ final = state :=
  exec_done_iff

@[simp]
theorem exec_draw_iff {continuation : Nonce → Session Nonce Command Answer Note α} :
    Exec network state (.draw continuation) value notes final ↔
      ∃ nonce, network.fresh state nonce ∧
      Exec network state (continuation nonce) value notes final := by
  constructor
  · rintro (_ | ⟨fresh, rest⟩ | _ | _)
    exact ⟨_, fresh, rest⟩
  · rintro ⟨nonce, fresh, rest⟩
    exact .draw fresh rest

@[simp]
theorem exec_send_iff {command : Command}
    {continuation : Answer → Session Nonce Command Answer Note α} :
    Exec network state (.send command continuation) value notes final ↔
      ∃ answer middle, network.exchange state command answer middle ∧
        Exec network middle (continuation answer) value notes final := by
  constructor
  · rintro (_ | _ | ⟨answered, rest⟩ | _)
    exact ⟨_, _, answered, rest⟩
  · rintro ⟨answer, middle, answered, rest⟩
    exact .send answered rest

@[simp]
theorem exec_note_iff {event : Note} {continuation : Session Nonce Command Answer Note α} :
    Exec network state (.note event continuation) value notes final ↔
      ∃ rest, notes = event :: rest ∧ Exec network state continuation value rest final := by
  constructor
  · rintro (_ | _ | _ | rest)
    exact ⟨_, rfl, rest⟩
  · rintro ⟨rest, rfl, run⟩
    exact .note run

@[simp]
theorem exec_bind_iff {value : β} :
    Exec network state (session >>= next) value notes final ↔
      ∃ result before middle after, Exec network state session result before middle ∧
        Exec network middle (next result) value after final ∧ notes = before ++ after := by
  change Exec network state (session.bind next) value notes final ↔ _
  induction session generalizing state notes with
  | done result =>
    simp only [bind, exec_done_iff]
    constructor
    · intro run
      exact ⟨result, [], state, notes, ⟨rfl, rfl, rfl⟩, run, rfl⟩
    · rintro ⟨_, _, _, after, ⟨rfl, rfl, rfl⟩, run, rfl⟩
      exact run
  | draw continuation ih =>
    simp only [bind, exec_draw_iff, ih]
    constructor
    · rintro ⟨nonce, fresh, result, before, middle, after, first, second, rfl⟩
      exact ⟨result, before, middle, after, ⟨nonce, fresh, first⟩, second, rfl⟩
    · rintro ⟨result, before, middle, after, ⟨nonce, fresh, first⟩, second, rfl⟩
      exact ⟨nonce, fresh, result, before, middle, after, first, second, rfl⟩
  | send command continuation ih =>
    simp only [bind, exec_send_iff, ih]
    constructor
    · rintro ⟨answer, reached, answered, result, before, middle, after, first, second, rfl⟩
      exact ⟨result, before, middle, after, ⟨answer, reached, answered, first⟩, second, rfl⟩
    · rintro ⟨result, before, middle, after, ⟨answer, reached, answered, first⟩, second, rfl⟩
      exact ⟨answer, reached, answered, result, before, middle, after, first, second, rfl⟩
  | note event continuation ih =>
    simp only [bind, exec_note_iff, ih]
    constructor
    · rintro ⟨rest, rfl, result, before, middle, after, first, second, rfl⟩
      exact ⟨result, event :: before, middle, after, ⟨before, rfl, first⟩, second, rfl⟩
    · rintro ⟨result, _, middle, after, ⟨before, rfl, first⟩, second, rfl⟩
      exact ⟨_, rfl, result, before, middle, after, first, second, rfl⟩

theorem exists_exec_bind {middle : σ} (first : Exec network state session result notes middle)
    (second : ∃ value after final, Exec network middle (next result) value after final) :
    ∃ value notes final, Exec network state (session >>= next) value notes final := by
  obtain ⟨value, after, final, rest⟩ := second
  exact ⟨value, notes ++ after, final,
    exec_bind_iff.mpr ⟨result, notes, middle, after, first, rest, rfl⟩⟩

end Exec

/-! ### Scripted runs -/

section Play

variable {Reply : Type} (fresh : σ → Nonce → Bool)
  (respond : σ → Command → Reply → Option (Answer × σ))

/-- Run a session with the values it draws and the replies of the other side
given in advance. -/
def play :
    Session Nonce Command Answer Note α → List Nonce → List Reply → σ → Option (α × List Note × σ)
  | .done value, _, _, state => some (value, [], state)
  | .draw _, [], _, _ => none
  | .draw continuation, nonce :: nonces, replies, state =>
    if fresh state nonce then play (continuation nonce) nonces replies state else none
  | .send _ _, _, [], _ => none
  | .send command continuation, nonces, reply :: replies, state =>
    match respond state command reply with
    | none => none
    | some (answer, middle) => play (continuation answer) nonces replies middle
  | .note event continuation, nonces, replies, state =>
    match play continuation nonces replies state with
    | none => none
    | some (value, notes, final) => some (value, event :: notes, final)

theorem exec_of_play {network : Network σ Nonce Command Answer}
    (freshSound : ∀ state nonce, fresh state nonce = true → network.fresh state nonce)
    (respondSound : ∀ state command reply answer middle,
      respond state command reply = some (answer, middle) →
      network.exchange state command answer middle)
    {session : Session Nonce Command Answer Note α} {nonces : List Nonce} {replies : List Reply}
    {state final : σ} {value : α} {notes : List Note}
    (played : play fresh respond session nonces replies state = some (value, notes, final)) :
    Exec network state session value notes final := by
  induction session generalizing nonces replies state notes with
  | done result =>
    cases played
    exact .done
  | draw continuation ih =>
    cases nonces with
    | nil => cases played
    | cons nonce nonces =>
      rw [play] at played
      split at played
      case isTrue isFresh => exact .draw (freshSound _ _ isFresh) (ih nonce played)
      case isFalse => cases played
  | send command continuation ih =>
    cases replies with
    | nil => cases played
    | cons reply replies =>
      rw [play] at played
      split at played
      next => cases played
      next answer middle responded =>
        exact .send (respondSound _ _ _ _ _ responded) (ih answer played)
  | note event continuation ih =>
    rw [play] at played
    split at played
    next => cases played
    next result others reached rest =>
      cases played
      exact .note (ih rest)

end Play

end Session

end Trusty.Lib
