import Trusty.Ipc.HandleListSafety

/-!
Waits among the steps of other threads, and what they return.
-/

namespace Trusty.Ipc

open Lib List

namespace ListWait

variable {Handle : Type}
variable {state next : ListWait Handle} {order : List Handle} {handle : Handle}

/-! ### The steps of the other threads -/

section Others

variable {order' : List Handle} {answer : Nat} {other : OtherPc Handle}

theorem place_unlocked {refers : Handle → Prop} {history : List (Happening Handle)}
    {pc : WaitPc Handle} (free : pc.holdsLock = false) :
    Place order refers history other pc ↔ ∀ handle, refers handle →
      pc ≠ .idle ∧ (handle ∈ order ∨ ∃ all, other = .unlinked all handle) := by
  cases pc with
  | idle => exact forall_congr' fun handle => by simp
  | sleep => exact forall_congr' fun handle => by simp
  | relock => exact forall_congr' fun handle => by simp
  | scan | ask | undo | finish | found | crashed => cases free

variable (safe : state.Safe order)

include safe

theorem Safe.elsewhere (free : state.pc.holdsLock = false)
    (same : SameResults state next) (samePc : next.pc = state.pc)
    (sameEvent : next.listEvent = state.listEvent) (ordered : next.Ordered order')
    (added : ∀ handle, next.other = .added handle → handle ∈ order')
    (place : ∀ handle, next.Refers handle →
      state.pc ≠ .idle ∧ (handle ∈ order' ∨ ∃ all, next.other = .unlinked all handle)) :
    next.Safe order' where
  ordered := ordered
  listEvent := by rw [sameEvent, samePc]; exact safe.listEvent
  exclusive holds := by
    rw [samePc, free] at holds
    cases holds
  added := added
  place := by
    rw [samePc]
    exact (place_unlocked free).mpr place
  report := by
    have report := safe.report
    unfold Report at report ⊢
    rw [samePc, same.handlePtr, same.ret, same.history]
    cases pc : state.pc with
    | idle => trivial
    | sleep => rwa [pc] at report
    | relock => rwa [pc] at report
    | scan | ask | undo | finish | found | crashed =>
      rw [pc] at free
      cases free

theorem Safe.events {waitEvent : Handle → Option WaitingFor} {signaled : Bool}
    (fewer : ∀ handle, waitEvent handle = some .list → state.Refers handle) :
    Safe { state with waitEvent := waitEvent, signaled := signaled } order where
  ordered := safe.ordered
  listEvent := safe.listEvent
  exclusive := safe.exclusive
  added := safe.added
  place := safe.place.mono fewer
  report := safe.report.same ⟨rfl, rfl, rfl, rfl⟩ rfl

theorem Safe.free (busy : state.other ≠ .away) : state.pc.holdsLock = false := by
  cases holds : state.pc.holdsLock with
  | false => rfl
  | true => exact absurd (safe.exclusive holds) busy

theorem Safe.proceed (free : state.pc.holdsLock = false)
    (alone : ∀ all target, state.other ≠ .unlinked all target)
    (notAdded : ∀ target, other ≠ .added target) :
    Safe { state with other := other } order := by
  refine safe.elsewhere free ⟨rfl, rfl, rfl, rfl⟩ rfl rfl safe.ordered
    (fun target busy => absurd busy (notAdded target)) ?_
  intro target refers
  obtain ⟨waits, listed | ⟨all, unlinked⟩⟩ := (place_unlocked free).mp safe.place target refers
  · exact ⟨waits, .inl listed⟩
  · exact absurd unlinked (alone all target)

theorem Safe.handleNotify : (handleNotify handle state).Safe order := by
  unfold ListWait.handleNotify
  split
  · exact safe.events fun _ refers => refers
  · exact safe

variable [DecidableEq Handle]

theorem Safe.finishWaitHandle : (finishWaitHandle handle state).Safe order :=
  safe.events fun target refers => ((refers_finishWaitHandle target).mp refers).2

theorem Safe.prepareWaitHandle_single : (prepareWaitHandle .single handle state).2.Safe order := by
  unfold prepareWaitHandle
  split
  · exact safe
  · refine safe.events fun target refers => ?_
    by_cases same : target = handle
    · simp [same] at refers
    · simpa [same, Refers] using refers

theorem Safe.unlink {all : Bool} (free : state.pc.holdsLock = false)
    (inside : handle ∈ order) (alone : ∀ all target, state.other ≠ .unlinked all target)
    (result : unlink all handle state = some next) : next.Safe (order.erase handle) := by
  obtain ⟨before, behind, split⟩ := append_of_mem inside
  have ring := safe.ordered
  rw [split, Ordered, map_append, map_cons] at ring
  obtain ⟨links, deleted, rest⟩ := ring.deleteNode
  rw [ListWait.unlink, deleted] at result
  cases result
  have nodup := safe.ordered.nodup
  have absent : handle ∉ before := by
    intro again
    rw [split] at nodup
    exact (nodup_append.mp nodup).2.2 handle again handle (by simp) rfl
  have removed : order.erase handle = before ++ behind := by
    rw [split, erase_append_right _ absent, erase_cons_head]
  refine safe.elsewhere free ⟨rfl, rfl, rfl, rfl⟩ rfl rfl ?_ ?_ ?_
  · rw [removed, Ordered, map_append]
    exact rest
  · intro target busy
    cases busy
  intro target refers
  obtain ⟨waits, listed | ⟨all, unlinked⟩⟩ := (place_unlocked free).mp safe.place target refers
  · by_cases same : target = handle
    · exact ⟨waits, .inr ⟨all, by rw [same]⟩⟩
    · exact ⟨waits, .inl ((mem_erase_of_ne same).mpr listed)⟩
  · exact absurd unlinked (alone all target)

variable (result : otherStep answer state = some next)

include result

theorem Safe.added_step (at_ : state.other = .added handle) : next.Safe order := by
  have free := safe.free (by simp [at_])
  have alone : ∀ all target, state.other ≠ .unlinked all target := by simp [at_]
  simp only [otherStep, at_] at result
  by_cases waits : state.listEvent = true
  · rw [if_pos waits] at result
    cases result
    refine safe.elsewhere free ?_ ?_ ?_ ?_ (fun target busy => by cases busy) ?_
    · unfold prepareWaitHandle; split <;> exact ⟨rfl, rfl, rfl, rfl⟩
    · unfold prepareWaitHandle; split <;> rfl
    · unfold prepareWaitHandle; split <;> rfl
    · unfold prepareWaitHandle; split <;> exact safe.ordered
    intro target refers
    refine ⟨safe.listEvent.mp waits, .inl ?_⟩
    by_cases same : target = handle
    · exact same ▸ safe.added handle at_
    have old : state.Refers target := by
      unfold prepareWaitHandle at refers
      split at refers
      · exact refers
      · simpa [Refers, same] using refers
    obtain ⟨_, listed | ⟨all, unlinked⟩⟩ := (place_unlocked free).mp safe.place target old
    · exact listed
    · exact absurd unlinked (alone all target)
  · rw [if_neg waits] at result
    cases result
    exact safe.proceed free alone (by simp)

theorem Safe.unlinked_step {all : Bool} (at_ : state.other = .unlinked all handle) :
    next.Safe order := by
  have free := safe.free (by simp [at_])
  simp only [otherStep, at_] at result
  by_cases waits : state.listEvent = true
  · rw [if_pos waits] at result
    cases result
    refine safe.elsewhere free ⟨rfl, rfl, rfl, rfl⟩ rfl rfl safe.ordered
      (fun target busy => by cases busy) ?_
    intro target refers
    obtain ⟨ne, refers⟩ := (refers_finishWaitHandle target).mp refers
    obtain ⟨inside, listed | ⟨all', unlinked⟩⟩ := (place_unlocked free).mp safe.place target refers
    · exact ⟨inside, .inl listed⟩
    · rw [at_] at unlinked
      cases unlinked
      exact absurd rfl ne
  · rw [if_neg waits] at result
    cases result
    have idle : state.pc = .idle := by
      by_contra inside
      exact waits (safe.listEvent.mpr inside)
    refine safe.elsewhere free ⟨rfl, rfl, rfl, rfl⟩ rfl rfl safe.ordered ?_ ?_
    · intro target busy
      cases all <;> cases busy
    · intro target refers
      exact absurd idle ((place_unlocked free).mp safe.place target refers).1

theorem Safe.otherStep : ∃ order', next.Safe order' := by
  cases at_ : state.other with
  | away =>
    simp only [ListWait.otherStep, at_] at result
    cases result
  | added handle => exact ⟨order, safe.added_step result at_⟩
  | unlinked all handle => exact ⟨order, safe.unlinked_step result at_⟩
  | addPoll handle =>
    have free := safe.free (by simp [at_])
    simp only [ListWait.otherStep, at_] at result
    split at result <;> cases result <;> exact ⟨order, safe.proceed free (by simp [at_]) (by simp)⟩
  | addNotify handle =>
    have free := safe.free (by simp [at_])
    simp only [ListWait.otherStep, at_] at result
    cases result
    refine ⟨order, safe.handleNotify.proceed ?_ ?_ (by simp)⟩
    · unfold ListWait.handleNotify; split <;> exact free
    · unfold ListWait.handleNotify; split <;> simp [at_]
  | cleared all =>
    have free := safe.free (by simp [at_])
    simp only [ListWait.otherStep, at_] at result
    cases result
    have woken :
        Safe { state with signaled := state.links.isEmpty .head || state.signaled } order :=
      safe.events fun _ refers => refers
    refine ⟨order, woken.proceed free (by simp [at_]) ?_⟩
    intro target
    cases all <;> simp
  | deleteAll =>
    have free := safe.free (by simp [at_])
    simp only [ListWait.otherStep, at_, safe.ordered.next_head] at result
    cases order with
    | nil =>
      cases result
      exact ⟨[], safe.proceed free (by simp [at_]) (by simp)⟩
    | cons first rest =>
      exact ⟨_, safe.unlink free (by simp) (by simp [at_]) result⟩

end Others

/-! ### Runs -/

theorem Safe.timeOut (safe : state.Safe order) (asleep : state.pc = .sleep) :
    Safe { state with ret := errTimedOut, history := .timedOut :: state.history, pc := .relock }
      order := by
  have place := safe.place
  have nothing := safe.report
  rw [asleep] at place
  rw [Report, asleep] at nothing
  refine ⟨safe.ordered, iff_of_true (safe.listEvent.mpr (by simp [asleep])) (by simp), ?_,
    safe.added, place, ?_⟩
  · simp [WaitPc.holdsLock]
  · exact ⟨nothing, .inr ⟨rfl, by simp⟩⟩

theorem Ordered.next_eq_none (ordered : state.Ordered order) :
    state.links.next (.node handle) = none ↔ handle ∉ order := by
  constructor
  · intro null inside
    obtain ⟨before, behind, split⟩ := append_of_mem inside
    rw [Ordered.next_node (split ▸ ordered)] at null
    cases null
  · intro absent
    exact (Links.Ring.outside ordered (.node handle) (by simpa using absent)).1

variable [DecidableEq Handle]

theorem Safe.call (safe : state.Safe order) (idle : state.pc = .idle) (free : state.unlocked = true)
    (result : handleListWait state = some next) : next.Advanced order := by
  have alone : state.other = .away := by
    simp only [unlocked, Bool.and_eq_true, decide_eq_true_eq] at free
    exact free.2
  have clear := safe.place
  rw [idle] at clear
  let started : ListWait Handle :=
    { state with
      signaled := false, eventPtr := 0, handlePtr := none, listEvent := true, history := [] }
  have held : started.InCall order := ⟨safe.ordered, rfl, alone⟩
  exact held.startPoll rfl (fun handle refers => absurd refers (clear handle))
    (fun _ => clear) result

theorem Safe.add (safe : state.Safe order) (free : state.unlocked = true)
    (absent : state.links.next (.node handle) = none) {links : Links (HandleNode Handle)}
    (result : state.links.addTail .head (.node handle) = some links) :
    Safe { state with links := links, other := .added handle } (order ++ [handle]) := by
  simp only [unlocked, Bool.and_eq_true, decide_eq_true_eq, Bool.not_eq_true'] at free
  have outside : HandleNode.node handle ∉ .head :: order.map .node := by
    simpa using safe.ordered.next_eq_none.mp absent
  obtain ⟨added, eq, ring⟩ := Links.Ring.addTail safe.ordered outside
  rw [result] at eq
  cases eq
  refine safe.elsewhere free.1 ⟨rfl, rfl, rfl, rfl⟩ rfl rfl ?_ ?_ ?_
  · simpa [Ordered] using ring
  · intro target busy
    cases busy
    simp
  · intro target refers
    obtain ⟨waits, listed | ⟨all, unlinked⟩⟩ := (place_unlocked free.1).mp safe.place target refers
    · exact ⟨waits, .inl (mem_append_left _ listed)⟩
    · rw [free.2] at unlinked
      cases unlinked

/-- The action is one of the waiter that can return to its caller. -/
def Action.ofWaiter : Action Handle → Bool
  | .call | .waiter .. => true
  | _ => false

theorem Safe.step {action : Action Handle} (safe : state.Safe order)
    (result : step action state = some next) :
    ∃ order', next.Safe order' ∧
    (action.ofWaiter = true → next.pc = .idle → next.Outcome order') := by
  cases action with
  | call =>
    simp only [ListWait.step] at result
    split at result
    · rename_i guard
      have advanced := safe.call guard.1 guard.2 result
      exact ⟨order, advanced.safe, fun _ => advanced.outcome⟩
    · cases result
  | waiter answer junk =>
    obtain ⟨order', advanced, _⟩ := safe.waiterStep result
    exact ⟨order', advanced.safe, fun _ => advanced.outcome⟩
  | timeOut =>
    simp only [ListWait.step] at result
    split at result
    · rename_i asleep
      cases result
      exact ⟨order, safe.timeOut asleep, fun waiter => by cases waiter⟩
    · cases result
  | add handle =>
    simp only [ListWait.step] at result
    split at result
    · rename_i guard
      cases added : state.links.addTail .head (.node handle) with
      | none =>
        rw [added] at result
        cases result
      | some links =>
        rw [added] at result
        cases result
        exact ⟨_, safe.add guard.1 guard.2 added, fun waiter => by cases waiter⟩
    · cases result
  | delete handle =>
    simp only [ListWait.step] at result
    split at result
    · rename_i guard
      obtain ⟨free, listed⟩ := guard
      simp only [unlocked, Bool.and_eq_true, decide_eq_true_eq, Bool.not_eq_true'] at free
      have inside : handle ∈ order := by
        by_contra absent
        exact listed (safe.ordered.next_eq_none.mpr absent)
      exact ⟨_, safe.unlink free.1 inside (by simp [free.2]) result, fun waiter => by cases waiter⟩
    · cases result
  | deleteAll =>
    simp only [ListWait.step] at result
    split at result
    · rename_i free
      simp only [unlocked, Bool.and_eq_true, decide_eq_true_eq, Bool.not_eq_true'] at free
      cases result
      exact ⟨order, safe.proceed free.1 (by simp [free.2]) (by simp), fun waiter => by cases waiter⟩
    · cases result
  | other answer =>
    obtain ⟨order', safe'⟩ := safe.otherStep result
    exact ⟨order', safe', fun waiter => by cases waiter⟩
  | notify handle =>
    cases result
    exact ⟨order, safe.handleNotify, fun waiter => by cases waiter⟩
  | singlePrepare handle =>
    cases result
    exact ⟨order, safe.prepareWaitHandle_single, fun waiter => by cases waiter⟩
  | singleFinish handle =>
    cases result
    exact ⟨order, safe.finishWaitHandle, fun waiter => by cases waiter⟩

theorem safe_init : (init : ListWait Handle).Safe [] where
  ordered := by
    refine ⟨⟨by simp [init], by simp [init]⟩, by simp, fun other absent => ?_⟩
    have notHead : other ≠ .head := by simpa using absent
    simp [init, notHead]
  listEvent := by simp [init]
  exclusive _ := rfl
  added handle busy := by cases busy
  place handle refers := by cases refers
  report := trivial

theorem Safe.run {actions : List (Action Handle)} (safe : state.Safe order)
    (result : run actions state = some next) :
    ∃ order', next.Safe order' := by
  induction actions generalizing state order with
  | nil =>
    cases result
    exact ⟨order, safe⟩
  | cons action actions ih =>
    obtain ⟨middle, first, rest⟩ := Option.bind_eq_some_iff.mp result
    obtain ⟨order', safe', _⟩ := safe.step first
    exact ih safe' rest

/-- The waiter polls again after it was woken. -/
def Woken (state : ListWait Handle) : Prop :=
  (∃ cursor lastPrep, state.pc = .scan false cursor lastPrep) ∨
    ∃ handle, state.pc = .ask false handle

omit [DecidableEq Handle] in
theorem endPoll_false (lastPrep : Option Handle) (state : ListWait Handle) :
    endPoll false lastPrep state = afterPoll false state := by
  cases lastPrep with
  | none => rfl
  | some last => simp [endPoll]

/-- A woken waiter for which no handle is ready goes on to the end of the list, and
then back to sleep. -/
theorem Woken.step {junk : Int} (woken : state.Woken) (result : waiterStep 0 junk state = some next)
    (zero : ∀ value, .indeterminate value ∈ next.history → value = 0) :
    next.Woken ∨ next.pc = .sleep := by
  rcases woken with ⟨cursor, lastPrep, at_⟩ | ⟨handle, at_⟩
  · cases cursor with
    | head =>
      simp only [waiterStep, at_, endPoll_false] at result
      by_cases junkZero : junk = 0
      · subst junkZero
        cases result
        exact .inr rfl
      · simp only [afterPoll, Bool.false_eq_true, if_false, junkZero] at result
        obtain ⟨first, _, result⟩ := Option.bind_eq_some_iff.mp result
        cases result
        exact absurd (zero junk (by simp)) junkZero
    | node handle =>
      simp only [waiterStep, at_, Bool.false_eq_true, if_false] at result
      cases result
      exact .inl (.inr ⟨handle, rfl⟩)
  · simp only [waiterStep, at_, ne_eq, not_true_eq_false, if_false] at result
    obtain ⟨cursor, _, result⟩ := Option.bind_eq_some_iff.mp result
    cases result
    exact .inl (.inl ⟨cursor, _, rfl⟩)

/-- If its polls answer 0 and the variable without a value reads 0, the waiter comes to
sleep. -/
def Dozes (state : ListWait Handle) : Prop :=
  ∃ count final, run (replicate count (.waiter 0 0)) state = some final ∧ final.pc = .sleep

theorem Dozes.of_step (dozes : next.Dozes) (stepped : step (.waiter 0 0) state = some next) :
    state.Dozes := by
  obtain ⟨count, final, rest, asleep⟩ := dozes
  refine ⟨count + 1, final, ?_, asleep⟩
  rw [replicate_succ, run, stepped]
  exact rest

/-- A round of polls, from any handle on. -/
theorem Ordered.dozes {before behind : List Handle} {lastPrep : Option Handle}
    (ordered : state.Ordered (before ++ behind))
    (at_ : state.pc = .scan false (cursorAt behind) lastPrep) :
    state.Dozes := by
  induction behind generalizing before state lastPrep with
  | nil =>
    have asleep :
        Dozes { state with ret := 0, history := .indeterminate 0 :: state.history, pc := .sleep } :=
      ⟨0, _, rfl, rfl⟩
    exact asleep.of_step
      (by simp [ListWait.step, waiterStep, at_, cursorAt, endPoll_false, afterPoll])
  | cons handle behind ih =>
    have rest : Dozes { state with
        history := .polled handle 0 :: state.history, pc := .scan false (cursorAt behind) none } :=
      @ih _ (before ++ [handle]) none (by simpa [Ordered] using ordered) rfl
    have asks : Dozes { state with pc := .ask false handle } :=
      rest.of_step (by simp [ListWait.step, waiterStep, ordered.next_node])
    exact asks.of_step (by simp [ListWait.step, waiterStep, at_, cursorAt])

theorem Woken.dozes (woken : state.Woken) (safe : state.Safe order) : state.Dozes := by
  have place := safe.place
  rcases woken with ⟨cursor, lastPrep, at_⟩ | ⟨handle, at_⟩
  · rw [at_] at place
    obtain ⟨⟨before, behind, rfl, rfl, _⟩, _⟩ := place
    exact safe.ordered.dozes at_
  · rw [at_] at place
    obtain ⟨⟨before, behind, rfl, _⟩, _⟩ := place
    have rest : Dozes { state with
        history := .polled handle 0 :: state.history, pc := .scan false (cursorAt behind) none } :=
      @Ordered.dozes _ _ _ (before ++ [handle]) behind none
        (by simpa [Ordered] using safe.ordered) rfl
    exact rest.of_step (by simp [ListWait.step, waiterStep, at_, safe.ordered.next_node])

/-- A wait leaves no reference to its event, and sleeps on if it reads 0 and no handle is
ready.  If it never relied on the value of a variable without one, it returns a handle
of the list with an event, or one of the errors. -/
theorem handleListWait_returns {actions : List (Action Handle)} {action : Action Handle}
    (reached : run actions init = some state) (stepped : step action state = some next) :
    (next.pc = .idle → ∀ handle, ¬ next.Refers handle) ∧
      (state.Woken → state.Dozes) ∧
      ((∀ value, .indeterminate value ∈ next.history → value = 0) →
        next.pc ≠ .crashed ∧
        (action.ofWaiter = true → next.pc = .idle → ∃ order, next.Ordered order ∧
          next.Returned order) ∧
        (state.Woken → (∃ junk, action = .waiter 0 junk) → next.Woken ∨ next.pc = .sleep)) := by
  obtain ⟨before, safe⟩ := safe_init.run reached
  obtain ⟨order, safe', outcome⟩ := safe.step stepped
  refine ⟨?_, fun woken => woken.dozes safe, fun zero => ⟨?_, ?_, ?_⟩⟩
  · intro idle
    have clear := safe'.place
    rwa [idle] at clear
  · intro crashed
    have read := safe'.report
    rw [Report, crashed] at read
    exact absurd (zero 1 read) (by decide)
  · intro waiter idle
    rcases outcome waiter idle with returned | ⟨nonzero, read⟩
    · exact ⟨order, safe'.ordered, returned⟩
    · exact absurd (zero _ read) nonzero
  · rintro woken ⟨junk, rfl⟩
    exact woken.step stepped zero

def oneReady : List (Action Unit) :=
  [.add (), .other 0, .call, .waiter 0 0, .waiter 5 0, .waiter 0 0]

theorem handleListWait_returns_ready :
    ∃ state next, run oneReady init = some state ∧ step (.waiter 0 0) state = some next ∧
      ∃ order, next.Ordered order ∧ next.Returned order := by
  have computed :
    ((run oneReady init).bind (step (.waiter 0 0))).map (fun next => (next.pc, next.history)) =
      some (.idle, [.polled () 5]) := by
    decide
  obtain ⟨next, both, eq⟩ := Option.map_eq_some_iff.mp computed
  obtain ⟨state, reached, stepped⟩ := Option.bind_eq_some_iff.mp both
  obtain ⟨idle, history⟩ := Prod.mk.inj eq
  refine ⟨state, next, reached, stepped, ?_⟩
  refine ((handleListWait_returns reached stepped).2.2 ?_).2.1 rfl idle
  simp [history]

/-- A handle is notified, but not ready when it is polled. -/
def wokenInVain (junk : Int) : List (Action Unit) :=
  [.add (), .other 0, .call, .waiter 0 0, .waiter 0 0, .waiter 0 0, .notify (),
    .waiter 0 0, .waiter 0 0, .waiter 0 0, .waiter 0 0, .waiter 0 junk, .waiter 0 0,
    .waiter 0 0, .waiter 0 0]

/-- Then the call can return any other value, or it follows a null pointer. -/
theorem handleListWait_wokenInVain :
    (run (wokenInVain (-1)) init).map
      (fun state => (state.pc, state.ret, state.handlePtr, state.history)) =
        some (.idle, -1, none, [.indeterminate (-1), .polled () 0, .polled () 0]) ∧
      (run (wokenInVain 2) init).map (fun state => (state.pc, state.ret, state.handlePtr)) =
        some (.idle, 2, none) ∧
      (run (wokenInVain 1) init).map (fun state => state.pc) = some .crashed := by
  decide

end ListWait

end Trusty.Ipc
