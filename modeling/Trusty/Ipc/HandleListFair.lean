import Trusty.Ipc.HandleListRuns

/-!
Waits on a list take turns.

The head of the list is moved behind the handle that is returned, so that the next
search begins with the handle that follows it.
-/

namespace Trusty.Ipc.ListWait

open Lib List Option

variable {Handle : Type} [DecidableEq Handle]
variable {state next last : ListWait Handle} {order : List Handle} {action : Action Handle}
  {actions : List (Action Handle)}

def returns : List (Action Handle) → ListWait Handle → List (Int × Option Handle)
  | [], _ => []
  | action :: actions, state =>
    match step action state with
    | none => []
    | some next =>
      (if action.ofWaiter && decide (next.pc = .idle) then [(next.ret, next.handlePtr)] else []) ++
        returns actions next

/-- The polls of the waiter find the same handles ready, and the list is not changed. -/
def Steady (ready : Handle → Bool) (state : ListWait Handle) : Action Handle → Prop
  | .waiter answer _ =>
    ∀ prepare handle, state.pc = .ask prepare handle → (answer ≠ 0 ↔ ready handle = true)
  | .add _ | .delete _ | .deleteAll | .other _ => False
  | .call | .timeOut | .notify _ | .singlePrepare _ | .singleFinish _ => True

def SteadyRun (ready : Handle → Bool) : List (Action Handle) → ListWait Handle → Prop
  | [], _ => True
  | action :: actions, state =>
    Steady ready state action ∧ ∀ next, step action state = some next → SteadyRun ready actions next

instance [Fintype Handle] (ready : Handle → Bool) (state : ListWait Handle)
    (action : Action Handle) :
    Decidable (Steady ready state action) := by
  cases action <;> unfold Steady <;> infer_instance

instance decidableSteadyRun [Fintype Handle] (ready : Handle → Bool) :
    ∀ (actions : List (Action Handle))
    (state : ListWait Handle), Decidable (SteadyRun ready actions state)
  | [], _ => .isTrue trivial
  | action :: actions, state =>
    have := decidableSteadyRun ready actions
    inferInstanceAs (Decidable (_ ∧ ∀ next ∈ step action state, SteadyRun ready actions next))

def Answered (ready : Handle → Bool) (state : ListWait Handle) : Prop :=
  ∀ handle event, .polled handle event ∈ state.history → (event ≠ 0 ↔ ready handle = true)

/-! ### What the polls have answered -/

section

variable {prepare : Bool} {lastPrep : Option Handle} {answer : Nat} {junk : Int} {handle : Handle}
  {event : Nat}

omit [DecidableEq Handle]

/-- Nothing is polled, and if the wait is over it has failed. -/
def Quiet (state next : ListWait Handle) : Prop :=
  (∀ handle event, .polled handle event ∈ next.history → .polled handle event ∈ state.history) ∧
    (next.pc = .idle → next.ret < 0)

theorem startFinish_quiet (result : startFinish state = some next) : state.Quiet next := by
  obtain ⟨first, _, result⟩ := bind_eq_some_iff.mp result
  cases result
  exact ⟨fun _ _ => id, nofun⟩

theorem afterPoll_quiet (result : afterPoll prepare state = some next) : state.Quiet next := by
  unfold afterPoll at result
  split at result
  · split at result
    case isTrue failed =>
      cases result
      exact ⟨fun _ _ => id, fun _ => failed⟩
    case isFalse => split at result <;> cases result <;> exact ⟨fun _ _ => id, nofun⟩
  · split at result
    · cases result
      exact ⟨fun _ _ => id, nofun⟩
    · exact startFinish_quiet result

theorem endPoll_quiet (result : endPoll prepare lastPrep state = some next) : state.Quiet next := by
  unfold endPoll at result
  split at result
  · split at result
    · obtain ⟨first, _, result⟩ := bind_eq_some_iff.mp result
      cases result
      exact ⟨fun _ _ => id, nofun⟩
    · exact afterPoll_quiet result
  · exact afterPoll_quiet result

variable [DecidableEq Handle]

theorem startPoll_quiet (result : startPoll prepare state = some next) : state.Quiet next := by
  unfold startPoll at result
  split at result
  · obtain ⟨polled, failed⟩ := afterPoll_quiet result
    exact ⟨fun handle event inside => by simpa using polled handle event inside, failed⟩
  · obtain ⟨first, _, result⟩ := bind_eq_some_iff.mp result
    cases result
    exact ⟨fun _ _ => id, fun idle => by cases idle⟩

/-- Only a step that asks a handle polls, and only the step behind the search succeeds. -/
theorem waiterStep_quiet (result : waiterStep answer junk state = some next) :
    state.Quiet next ∨
      (∃ prepare handle, state.pc = .ask prepare handle ∧
        Quiet { state with history := .polled handle answer :: state.history } next) ∨
      state.pc = .found ∧ next.history = state.history := by
  unfold waiterStep at result
  split at result
  · cases result
  · cases result
  · exact .inl (endPoll_quiet result)
  · obtain ⟨polled, failed⟩ := endPoll_quiet result
    exact .inl ⟨fun handle event inside => by simpa using polled handle event inside, failed⟩
  · split at result
    · simp only at result
      have kept : (prepareWaitHandle .list ‹Handle› state).2.history = state.history := by
        unfold prepareWaitHandle
        split <;> rfl
      split at result
      · obtain ⟨polled, failed⟩ := endPoll_quiet result
        exact .inl ⟨fun handle event inside => by simpa [kept] using polled handle event inside,
          failed⟩
      · cases result
        exact .inl ⟨fun _ _ inside => kept ▸ inside, nofun⟩
    · cases result
      exact .inl ⟨fun _ _ => id, nofun⟩
  · rename_i prepare asked at_
    refine .inr (.inl ⟨prepare, asked, at_, ?_⟩)
    simp only at result
    split at result
    · have quiet := endPoll_quiet result
      exact quiet
    · obtain ⟨cursor, _, result⟩ := bind_eq_some_iff.mp result
      cases result
      exact ⟨fun _ _ => id, nofun⟩
  · exact .inl (afterPoll_quiet result)
  · simp only at result
    split at result
    · have quiet := afterPoll_quiet result
      exact .inl quiet
    · obtain ⟨cursor, _, result⟩ := bind_eq_some_iff.mp result
      cases result
      exact .inl ⟨fun _ _ => id, nofun⟩
  · split at result
    · cases result
      exact .inl ⟨fun _ _ => id, nofun⟩
    · cases result
  · split at result
    · cases result
    · split at result
      · exact .inl (startFinish_quiet result)
      · exact .inl (startPoll_quiet result)
  · cases result
    exact .inl ⟨fun _ _ => id, nofun⟩
  · obtain ⟨cursor, _, result⟩ := bind_eq_some_iff.mp result
    cases result
    exact .inl ⟨fun _ _ => id, nofun⟩
  · rename_i at_
    refine .inr (.inr ⟨at_, ?_⟩)
    split at result
    · split at result
      · cases result
        rfl
      · obtain ⟨links₁, _, result⟩ := bind_eq_some_iff.mp result
        obtain ⟨links₂, _, result⟩ := bind_eq_some_iff.mp result
        cases result
        rfl
    · cases result
      rfl

theorem polled_of_waiterStep (result : waiterStep answer junk state = some next)
    (polled : .polled handle event ∈ next.history) :
    .polled handle event ∈ state.history ∨ event = answer ∧
    ∃ prepare, state.pc = .ask prepare handle := by
  rcases waiterStep_quiet result with quiet | ⟨prepare, asked, at_, quiet⟩ | ⟨_, same⟩
  · exact .inl (quiet.1 _ _ polled)
  · rcases mem_cons.mp (quiet.1 _ _ polled) with new | old
    · cases new
      exact .inr ⟨rfl, prepare, at_⟩
    · exact .inl old
  · exact .inl (same ▸ polled)

theorem Safe.success (safe : state.Safe order)
    (result : ListWait.waiterStep answer junk state = some next) (idle : next.pc = .idle)
    (success : next.ret = 0) :
    ∃ handle before behind, next.handlePtr = some handle ∧ order = before ++ handle :: behind ∧
      Passed next.history before ∧ .polled handle next.eventPtr ∈ next.history ∧ next.eventPtr ≠ 0 ∧
      next.Safe (behind ++ before ++ [handle]) := by
  have at_ : state.pc = .found := by
    rcases waiterStep_quiet result with quiet | ⟨_, _, _, quiet⟩ | ⟨at_, _⟩
    · exact absurd success (Int.ne_of_lt (quiet.2 idle))
    · exact absurd success (Int.ne_of_lt (quiet.2 idle))
    · exact at_
  rcases safe.found result at_ with ⟨_, failed⟩ |
    ⟨handle, before, behind, _, _, stored, split, passed, polled, advanced⟩
  · exact absurd success (failed idle)
  refine ⟨handle, before, behind, stored, split, passed, polled, ?_, advanced.safe⟩
  rcases advanced.outcome idle with returned | ⟨nonzero, _⟩
  · cases returned with
    | ready _ _ _ _ event => exact event
    | notFound code => exact absurd (code.symm.trans success) (by decide)
    | timedOut code => exact absurd (code.symm.trans success) (by decide)
    | refused _ code => exact absurd (code.symm.trans success) (by decide)
  · exact absurd success nonzero

end

/-! ### Turns -/

variable {ready : Handle → Bool}

/-- A wait was successful: the first handle of the list that is ready is now its last. -/
structure Served (ready : Handle → Bool) (order : List Handle) (next : ListWait Handle)
    (order' : List Handle) (handle : Handle) : Prop where
  code : next.ret = 0
  stored : next.handlePtr = some handle
  turned : ∃ before behind, order = before ++ handle :: behind ∧
    order' = behind ++ before ++ [handle] ∧ ∀ other ∈ before, ready other = false
  isReady : ready handle = true

omit [DecidableEq Handle] in
/-- The handle is taken from the front of those that are ready and put at their end. -/
theorem Served.filter {order' : List Handle} {handle : Handle}
    (served : Served ready order next order' handle) :
    ∃ rest, order.filter ready = handle :: rest ∧ order'.filter ready = rest ++ [handle] := by
  obtain ⟨before, behind, split, turned, passed⟩ := served.turned
  have none : before.filter ready = [] :=
    filter_eq_nil_iff.mpr fun other inside => by simp [passed other inside]
  refine ⟨behind.filter ready, ?_, ?_⟩
  · rw [split, filter_append, none, nil_append, filter_cons_of_pos served.isReady]
  · rw [turned, filter_append, filter_append, none, append_nil, filter_cons_of_pos served.isReady,
      filter_nil]

theorem Steady.waiterStep {answer : Nat} {junk : Int} (safe : state.Safe order)
    (answered : state.Answered ready) (steady : Steady ready state (.waiter answer junk))
    (result : ListWait.waiterStep answer junk state = some next) :
    next.Answered ready ∧ ((next.Safe order ∧ (next.pc = .idle → next.ret ≠ 0)) ∨
      next.pc = .idle ∧ ∃ handle order', next.Safe order' ∧
      Served ready order next order' handle) := by
  have answered' : next.Answered ready := by
    intro handle event polled
    rcases polled_of_waiterStep result polled with old | ⟨rfl, prepare, at_⟩
    · exact answered handle event old
    · exact steady prepare handle at_
  refine ⟨answered', ?_⟩
  by_cases success : next.pc = .idle ∧ next.ret = 0
  · obtain ⟨handle, before, behind, stored, split, passed, polled, event, safe'⟩ :=
      safe.success result success.1 success.2
    refine .inr ⟨success.1, handle, _, safe', success.2, stored,
      ⟨before, behind, split, rfl, ?_⟩, ?_⟩
    · intro other inside
      have := answered' other 0 (passed other inside)
      simpa using this
    · exact (answered' handle _ polled).mp event
  · refine .inl ⟨?_, fun idle code => success ⟨idle, code⟩⟩
    by_cases at_ : state.pc = .found
    · rcases safe.found result at_ with ⟨advanced, _⟩ | ⟨handle, before, behind, idle, code, _⟩
      · exact advanced.safe
      · exact absurd ⟨idle, code⟩ success
    · obtain ⟨order', advanced, same⟩ := safe.waiterStep result
      exact same at_ ▸ advanced.safe

section

variable (safe : state.Safe order) (answered : state.pc ≠ .idle → state.Answered ready)

include safe answered

theorem Steady.step (steady : Steady ready state action)
    (result : ListWait.step action state = some next) : (next.pc ≠ .idle → next.Answered ready) ∧
      ((next.Safe order ∧ (action.ofWaiter = true → next.pc = .idle → next.ret ≠ 0)) ∨
        action.ofWaiter = true ∧ next.pc = .idle ∧
          ∃ handle order', next.Safe order' ∧ Served ready order next order' handle) := by
  cases action with
  | call =>
    simp only [ListWait.step] at result
    split at result
    · rename_i guard
      refine ⟨fun _ handle event polled => ?_,
        .inl ⟨(safe.call guard.1 guard.2 result).safe, fun _ idle => ?_⟩⟩
      · cases (startPoll_quiet result).1 handle event polled
      · exact Int.ne_of_lt ((startPoll_quiet result).2 idle)
    · cases result
  | waiter answer junk =>
    have inside : state.pc ≠ .idle := by
      intro idle
      simp only [ListWait.step, ListWait.waiterStep, idle] at result
      cases result
    obtain ⟨answered', same | ⟨idle, served⟩⟩ :=
      Steady.waiterStep safe (answered inside) steady result
    · exact ⟨fun _ => answered', .inl ⟨same.1, fun _ => same.2⟩⟩
    · exact ⟨fun _ => answered', .inr ⟨rfl, idle, served⟩⟩
  | timeOut =>
    simp only [ListWait.step] at result
    split at result
    · rename_i asleep
      cases result
      refine ⟨fun _ handle event polled => answered (by simp [asleep]) handle event
        (by simpa using polled), ?_⟩
      exact .inl ⟨safe.timeOut asleep, fun waiter => by cases waiter⟩
    · cases result
  | add handle => cases steady
  | delete handle => cases steady
  | deleteAll => cases steady
  | other answer => cases steady
  | notify handle =>
    cases result
    refine ⟨?_, .inl ⟨safe.handleNotify, fun waiter => by cases waiter⟩⟩
    unfold handleNotify
    split <;> exact answered
  | singlePrepare handle =>
    cases result
    refine ⟨?_, .inl ⟨safe.prepareWaitHandle_single, fun waiter => by cases waiter⟩⟩
    unfold prepareWaitHandle
    split <;> exact answered
  | singleFinish handle =>
    cases result
    exact ⟨answered, .inl ⟨safe.finishWaitHandle, fun waiter => by cases waiter⟩⟩

/-- Up to the number of handles that are ready, successful waits return them in the
order of the list. -/
theorem returns_take (steady : SteadyRun ready actions state)
    (success : ∀ result ∈ returns actions state, result.1 = 0)
    (bound : (returns actions state).length ≤ (order.filter ready).length) :
    returns actions state =
      ((order.filter ready).take (returns actions state).length).map fun handle =>
        (0, some handle) := by
  induction actions generalizing state order with
  | nil => rfl
  | cons action actions ih =>
    cases stepped : ListWait.step action state with
    | none => simp [returns, stepped]
    | some next =>
      obtain ⟨answered', same | ⟨waiter, idle, handle, order', safe', served⟩⟩ :=
        Steady.step safe answered steady.1 stepped
      · have nothing : returns (action :: actions) state = returns actions next := by
          by_cases returned : action.ofWaiter = true ∧ next.pc = .idle
          · have failed : (next.ret, next.handlePtr) ∈ returns (action :: actions) state := by
              simp [returns, stepped, returned.1, returned.2]
            exact absurd (success _ failed) (same.2 returned.1 returned.2)
          · have silent : ¬ (action.ofWaiter && decide (next.pc = .idle)) = true := by
              simpa using returned
            simp only [returns, stepped, if_neg silent, nil_append]
        rw [nothing] at success bound ⊢
        exact ih same.1 answered' (steady.2 next stepped) success bound
      · have first :
            returns (action :: actions) state = (0, some handle) :: returns actions next := by
          simp [returns, stepped, waiter, idle, served.code, served.stored]
        obtain ⟨rest, front, back⟩ := served.filter
        rw [first] at success bound ⊢
        have short : (returns actions next).length ≤ rest.length := by
          rw [front] at bound
          simpa using bound
        have tail := ih safe' answered' (steady.2 next stepped)
          (fun result inside => success result (mem_cons_of_mem _ inside))
          (by rw [back, length_append]; omega)
        rw [back, take_append_of_le_length short] at tail
        rw [front, length_cons, take_succ_cons, map_cons, ← tail]

end

/-- A successful wait keeps the cyclic order and lets the next search begin behind the
handle it returned.  As many successful waits as there are handles ready return each
of them once. -/
theorem handleListWait_fair {start : ListWait Handle} (reached : run actions init = some start) :
    (∀ action next, step action start = some next → action.ofWaiter = true → next.pc = .idle →
      next.ret = 0 → ∃ handle before behind, next.handlePtr = some handle ∧
      start.Ordered (before ++ handle :: behind) ∧
        next.Ordered (behind ++ before ++ [handle]) ∧
        (before ++ handle :: behind).IsRotated (behind ++ before ++ [handle]) ∧
        next.links.next .head = some (cursorAt (behind ++ before ++ [handle]))) ∧
    (start.pc = .idle → ∃ order, start.Ordered order ∧ order.Nodup ∧
      ∀ ready later, SteadyRun ready later start → (∀ result ∈ returns later start, result.1 = 0) →
      (returns later start).length = (order.filter ready).length →
      returns later start = (order.filter ready).map fun handle => (0, some handle)) := by
  obtain ⟨order, safe⟩ := safe_init.run reached
  refine ⟨?_, ?_⟩
  · intro action next stepped waiter idle code
    cases action with
    | call =>
      simp only [step] at stepped
      split at stepped
      · exact absurd code (Int.ne_of_lt ((startPoll_quiet stepped).2 idle))
      · cases stepped
    | waiter answer junk =>
      obtain ⟨handle, before, behind, stored, split, _, _, _, safe'⟩ :=
        safe.success stepped idle code
      refine ⟨handle, before, behind, stored, split ▸ safe.ordered, safe'.ordered, ?_,
        safe'.ordered.next_head⟩
      refine ⟨(before ++ [handle]).length, ?_⟩
      have parts : before ++ handle :: behind = (before ++ [handle]) ++ behind := by simp
      rw [parts, rotate_append_length_eq, append_assoc]
    | timeOut | add | delete | deleteAll | other | notify | singlePrepare | singleFinish =>
      cases waiter
  · intro idle
    refine ⟨order, safe.ordered, safe.ordered.nodup, fun ready later steady success count => ?_⟩
    have taken := returns_take safe (fun inside => absurd idle inside) steady success
      (Nat.le_of_eq count)
    rwa [count, take_length] at taken

def twoAdded : List (Action Bool) := [.add true, .other 0, .add false, .other 0]

def twoWaits : List (Action Bool) :=
  [.call, .waiter 0 0, .waiter 1 0, .waiter 0 0, .waiter 0 0, .call, .waiter 0 0, .waiter 1 0,
    .waiter 0 0, .waiter 0 0]

theorem handleListWait_fair_two :
    ∃ start, run twoAdded init = some start ∧
    returns twoWaits start = [(0, some true), (0, some false)] := by
  have computed : (run twoAdded init).map (fun start => decide (start.pc = .idle ∧
      start.links.next .head = some (.node true) ∧
      start.links.next (.node true) = some (.node false) ∧
      start.links.next (.node false) = some .head ∧ SteadyRun (fun _ => true) twoWaits start ∧
      (returns twoWaits start).map Prod.fst = [0, 0])) = some true := by
    decide
  obtain ⟨start, reached, facts⟩ := map_eq_some_iff.mp computed
  obtain ⟨idle, first, second, third, steady, codes⟩ := of_decide_eq_true facts
  obtain ⟨order, ordered, _, fair⟩ := (handleListWait_fair reached).2 idle
  have isOrder : order = [true, false] := by
    have head : cursorAt order = .node true := Option.some.inj (ordered.next_head.symm.trans first)
    cases order with
    | nil => cases head
    | cons one others =>
      cases head
      have next : cursorAt others = .node false :=
        Option.some.inj ((@Ordered.next_node _ _ [] _ _ ordered).symm.trans second)
      cases others with
      | nil => cases next
      | cons two rest =>
        cases next
        have last : cursorAt rest = .head :=
          Option.some.inj ((@Ordered.next_node _ _ [true] _ _ ordered).symm.trans third)
        cases rest with
        | nil => rfl
        | cons => cases last
  refine ⟨start, reached, ?_⟩
  rw [fair _ twoWaits steady ?_ ?_, isOrder]
  · rfl
  · intro result inside
    have code : result.1 ∈ (returns twoWaits start).map Prod.fst := mem_map_of_mem inside
    rw [codes] at code
    simpa using code
  · have count := congrArg List.length codes
    rw [isOrder]
    simpa using count

end Trusty.Ipc.ListWait
