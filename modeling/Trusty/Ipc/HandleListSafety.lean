import Trusty.Ipc.HandleList

/-!
Which handles refer to the event of the waiter, at every point of a wait.
-/

namespace Trusty.Ipc

open Lib List

/-- The node at which a loop over the list stands that has these handles left. -/
def cursorAt {Handle : Type} : List Handle → HandleNode Handle
  | [] => .head
  | handle :: _ => .node handle

namespace ListWait

variable {Handle : Type}

section

variable (state : ListWait Handle) (order : List Handle)

/-- The handle refers to the event of the waiter on the list. -/
def Refers (handle : Handle) : Prop := state.waitEvent handle = some .list

/-- The handles of the list in their order. -/
def Ordered : Prop :=
  state.links.Ring .head (order.map .node)

def Passed (history : List (Happening Handle)) (handles : List Handle) : Prop :=
  ∀ handle ∈ handles, .polled handle 0 ∈ history

/-- Where the loops stand, and which handles refer to the event there.  While the
waiter has not the lock, a handle that is just taken out of the list still does. -/
def Place (order : List Handle) (refers : Handle → Prop) (history : List (Happening Handle))
    (other : OtherPc Handle) : WaitPc Handle → Prop
  | .idle | .found | .crashed => ∀ handle, ¬ refers handle
  | .scan true cursor lastPrep =>
    ∃ before behind, order = before ++ behind ∧ cursor = cursorAt behind ∧
      Passed history before ∧ lastPrep = before.getLast? ∧ ∀ handle, refers handle → handle ∈ before
  | .ask true next => ∃ before behind, order = before ++ next :: behind ∧ Passed history before ∧
      ∀ handle, refers handle → handle ∈ before ++ [next]
  | .undo cursor last => ∃ before between behind, order = before ++ between ++ behind ∧
      cursor = cursorAt between ∧ between.getLast? = some last ∧ ∀ handle, refers handle →
      handle ∈ between
  | .scan false cursor lastPrep =>
    (∃ before behind, order = before ++ behind ∧ cursor = cursorAt behind ∧ Passed history before) ∧
    lastPrep = none ∧ ∀ handle, refers handle → handle ∈ order
  | .ask false next => (∃ before behind, order = before ++ next :: behind ∧ Passed history before) ∧
      ∀ handle, refers handle → handle ∈ order
  | .sleep | .relock =>
    ∀ handle, refers handle → handle ∈ order ∨ ∃ all, other = .unlinked all handle
  | .finish cursor => ∃ before behind, order = before ++ behind ∧ cursor = cursorAt behind ∧
      ∀ handle, refers handle → handle ∈ behind

/-- What ends a wait, with what is stored for the caller. -/
inductive Verdict : Prop
  | ready (handle : Handle) (before behind : List Handle) (code : state.ret = 1)
      (stored : state.handlePtr = some handle) (split : order = before ++ handle :: behind)
      (passed : Passed state.history before) (event : state.eventPtr ≠ 0)
      (polled : .polled handle state.eventPtr ∈ state.history)
  | notFound (code : state.ret = errNotFound) (stored : state.handlePtr = none) (empty : order = [])
      (found : .empty ∈ state.history)
  | timedOut (code : state.ret = errTimedOut) (stored : state.handlePtr = none)
      (expired : .timedOut ∈ state.history)
  | refused (handle : Handle) (code : state.ret = errAlreadyStarted)
      (stored : state.handlePtr = none) (listed : handle ∈ order)
      (taken : .refused handle ∈ state.history)
  | indeterminate (code : state.ret ≠ 0) (stored : state.handlePtr = none)
      (read : .indeterminate state.ret ∈ state.history)

/-- Nothing is stored until the wait comes to its end. -/
def Report : Prop :=
  match state.pc with
  | .idle => True
  | .crashed => .indeterminate 1 ∈ state.history
  | .scan true cursor lastPrep => state.handlePtr = none ∧ (cursor = .head → lastPrep ≠ none) ∧
      (lastPrep ≠ none → state.ret = 0)
  | .ask true _ => state.handlePtr = none ∧ state.ret = 0
  | .scan false .. | .ask false _ | .sleep => state.handlePtr = none
  | .relock => state.handlePtr = none ∧
      (state.ret = 0 ∨ state.ret = errTimedOut ∧ .timedOut ∈ state.history)
  | .undo .. | .finish .. | .found => state.Verdict order

/-- What a call should return: a handle of the list with what its poll gave, or an error. -/
inductive Returned : Prop
  | ready (handle : Handle) (code : state.ret = 0) (stored : state.handlePtr = some handle)
      (listed : handle ∈ order) (event : state.eventPtr ≠ 0)
      (polled : .polled handle state.eventPtr ∈ state.history)
  | notFound (code : state.ret = errNotFound) (empty : order = [])
  | timedOut (code : state.ret = errTimedOut) (expired : .timedOut ∈ state.history)
  | refused (handle : Handle) (code : state.ret = errAlreadyStarted) (listed : handle ∈ order)
      (taken : .refused handle ∈ state.history)

def Outcome : Prop :=
  state.Returned order ∨ state.ret ≠ 0 ∧ .indeterminate state.ret ∈ state.history

structure Safe : Prop where
  ordered : state.Ordered order
  listEvent : state.listEvent = true ↔ state.pc ≠ .idle
  exclusive : state.pc.holdsLock = true → state.other = .away
  added : ∀ handle, state.other = .added handle → handle ∈ order
  place : Place order state.Refers state.history state.other state.pc
  report : state.Report order

/-- The waiter has taken a step.  If it left the call, it returned a result. -/
structure Advanced : Prop where
  safe : state.Safe order
  outcome : state.pc = .idle → state.Outcome order

/-- The waiter is in the call and has the lock. -/
structure InCall : Prop where
  ordered : state.Ordered order
  listEvent : state.listEvent = true
  alone : state.other = .away

end

variable {state next : ListWait Handle} {order before behind : List Handle} {handle : Handle}

theorem Ordered.next_head (ordered : state.Ordered order) :
    state.links.next .head = some (cursorAt order) := by
  have path := ordered.path
  cases order with
  | nil => exact path.1
  | cons first rest => exact path.1.1

theorem Ordered.next_node (ordered : state.Ordered (before ++ handle :: behind)) :
    state.links.next (.node handle) = some (cursorAt behind) := by
  have path := ordered.path
  rw [map_append, map_cons, Links.path_append] at path
  cases behind with
  | nil => exact path.2.1
  | cons first rest => exact path.2.1.1

theorem Ordered.nodup (ordered : state.Ordered order) : order.Nodup :=
  List.Nodup.of_map _ (nodup_cons.mp (Links.Ring.nodup ordered)).2

theorem Place.mono {refers refers' : Handle → Prop} {history : List (Happening Handle)}
    {other : OtherPc Handle} {pc : WaitPc Handle} (place : Place order refers history other pc)
    (fewer : ∀ handle, refers' handle → refers handle) : Place order refers' history other pc := by
  cases pc with
  | idle | found | crashed | sleep | relock =>
    exact fun handle refers => place handle (fewer handle refers)
  | scan prepare cursor lastPrep =>
    cases prepare with
    | true =>
      obtain ⟨before, behind, split, at_, passed, last, inside⟩ := place
      exact ⟨before, behind, split, at_, passed, last, fun handle refers =>
        inside handle (fewer handle refers)⟩
    | false =>
      exact ⟨place.1, place.2.1, fun handle refers => place.2.2 handle (fewer handle refers)⟩
  | ask prepare next =>
    cases prepare with
    | true =>
      obtain ⟨before, behind, split, passed, inside⟩ := place
      exact ⟨before, behind, split, passed, fun handle refers =>
        inside handle (fewer handle refers)⟩
    | false => exact ⟨place.1, fun handle refers => place.2 handle (fewer handle refers)⟩
  | undo cursor last =>
    obtain ⟨before, between, behind, split, at_, ends, inside⟩ := place
    exact ⟨before, between, behind, split, at_, ends, fun handle refers =>
      inside handle (fewer handle refers)⟩
  | finish cursor =>
    obtain ⟨before, behind, split, at_, inside⟩ := place
    exact ⟨before, behind, split, at_, fun handle refers => inside handle (fewer handle refers)⟩

/-! ### The parts of a wait -/

theorem InCall.errDoPoll (held : state.InCall order) (clear : ∀ handle, ¬ state.Refers handle)
    (outcome : state.Outcome order) : (errDoPoll state).Advanced order where
  safe := {
    ordered := held.ordered
    listEvent := by simp [ListWait.errDoPoll]
    exclusive := fun holds => by cases holds
    added := fun handle busy => by
      rw [ListWait.errDoPoll, held.alone] at busy
      cases busy
    place := clear
    report := trivial }
  outcome _ := by
    refine outcome.imp_left fun returned => ?_
    cases returned with
    | ready handle code stored listed event polled =>
      exact .ready handle code stored listed event polled
    | notFound code empty => exact .notFound code empty
    | timedOut code expired => exact .timedOut code expired
    | refused handle code listed taken => exact .refused handle code listed taken

theorem InCall.continue (held : state.InCall order) {pc : WaitPc Handle} (inside : pc ≠ .idle)
    (place : Place order state.Refers state.history .away pc)
    (report : Report { state with pc := pc } order) :
    Advanced { state with pc := pc } order where
  safe := {
    ordered := held.ordered
    listEvent := iff_of_true held.listEvent inside
    exclusive := fun _ => held.alone
    added := fun handle busy => by
      change state.other = _ at busy
      rw [held.alone] at busy
      cases busy
    place := by
      change Place order state.Refers state.history state.other pc
      rwa [held.alone]
    report := report }
  outcome outside := absurd outside inside

theorem Verdict.ret_ne_zero (verdict : state.Verdict order) : state.ret ≠ 0 := by
  cases verdict with
  | ready handle before behind code => simp [code]
  | notFound code => simp [code, errNotFound]
  | timedOut code => simp [code, errTimedOut]
  | refused handle code => simp [code, errAlreadyStarted]
  | indeterminate code => exact code

theorem Verdict.outcome (verdict : state.Verdict order) (failed : state.ret ≠ 1) :
    state.Outcome order := by
  cases verdict with
  | ready handle before behind code => exact absurd code failed
  | notFound code stored empty => exact .inl (.notFound code empty)
  | timedOut code stored expired => exact .inl (.timedOut code expired)
  | refused handle code stored listed taken => exact .inl (.refused handle code listed taken)
  | indeterminate code stored read => exact .inr ⟨code, read⟩

structure SameResults (state next : ListWait Handle) : Prop where
  ret : next.ret = state.ret
  handlePtr : next.handlePtr = state.handlePtr
  eventPtr : next.eventPtr = state.eventPtr
  history : next.history = state.history

theorem Verdict.same (verdict : state.Verdict order) (same : SameResults state next) :
    next.Verdict order := by
  cases verdict with
  | ready handle before behind code stored split passed event polled =>
    exact .ready handle before behind (same.ret.trans code) (same.handlePtr.trans stored) split
      (same.history ▸ passed) (same.eventPtr ▸ event)
      (by rw [same.eventPtr, same.history]; exact polled)
  | notFound code stored empty found =>
    exact .notFound (same.ret.trans code) (same.handlePtr.trans stored) empty (same.history ▸ found)
  | timedOut code stored expired =>
    exact .timedOut (same.ret.trans code) (same.handlePtr.trans stored) (same.history ▸ expired)
  | refused handle code stored listed taken =>
    exact .refused handle (same.ret.trans code) (same.handlePtr.trans stored) listed
      (same.history ▸ taken)
  | indeterminate code stored read =>
    exact .indeterminate (same.ret ▸ code) (same.handlePtr.trans stored)
      (by rw [same.ret, same.history]; exact read)

theorem Report.same (report : state.Report order) (same : SameResults state next)
    (samePc : next.pc = state.pc) :
    next.Report order := by
  unfold Report at report ⊢
  rw [samePc]
  cases at_ : state.pc with
  | idle => trivial
  | crashed =>
    rw [at_] at report
    simpa only [same.history] using report
  | scan prepare cursor lastPrep =>
    rw [at_] at report
    cases prepare <;> simpa only [same.handlePtr, same.ret] using report
  | ask prepare handle =>
    rw [at_] at report
    cases prepare <;> simpa only [same.handlePtr, same.ret] using report
  | sleep | relock =>
    rw [at_] at report
    simpa only [same.handlePtr, same.ret, same.history] using report
  | undo | finish | found =>
    rw [at_] at report
    exact Verdict.same report same

section

variable (held : state.InCall order) (inside : ∀ handle, state.Refers handle → handle ∈ order)

include held inside

theorem InCall.startFinish (verdict : state.Verdict order)
    (result : startFinish state = some next) :
    next.Advanced order := by
  rw [ListWait.startFinish, held.ordered.next_head] at result
  cases result
  exact held.continue (by simp) ⟨[], order, rfl, rfl, inside⟩ (verdict.same ⟨rfl, rfl, rfl, rfl⟩)

theorem InCall.sleep (nothing : state.handlePtr = none) :
    Advanced { state with pc := .sleep } order :=
  held.continue (by simp) (fun handle refers => .inl (inside handle refers)) nothing

end

variable {prepare : Bool}

theorem InCall.afterPoll (held : state.InCall order)
    (inside : ∀ handle, state.Refers handle → handle ∈ order)
    (undone : prepare = true → state.ret ≠ 0 → ∀ handle, ¬ state.Refers handle)
    (verdict : state.ret ≠ 0 → state.Verdict order) (quiet : state.ret = 0 → state.handlePtr = none)
    (result : afterPoll prepare state = some next) : next.Advanced order := by
  unfold ListWait.afterPoll at result
  cases prepare with
  | true =>
    by_cases failed : state.ret < 0
    · rw [if_pos failed] at result
      cases result
      exact held.errDoPoll (undone rfl (by omega)) ((verdict (by omega)).outcome (by omega))
    rw [if_neg failed] at result
    by_cases nothing : state.ret = 0
    · rw [if_pos nothing] at result
      cases result
      exact held.sleep inside (quiet nothing)
    · rw [if_neg nothing] at result
      cases result
      exact held.continue (by simp) (undone rfl nothing)
        ((verdict nothing).same ⟨rfl, rfl, rfl, rfl⟩)
  | false =>
    rw [if_neg Bool.false_ne_true] at result
    by_cases nothing : state.ret = 0
    · rw [if_pos nothing] at result
      cases result
      exact held.sleep inside (quiet nothing)
    · rw [if_neg nothing] at result
      exact held.startFinish inside (verdict nothing) result

theorem InCall.endPoll_prepare (held : state.InCall order) (split : order = before ++ behind)
    (prepared : ∀ handle, state.Refers handle → handle ∈ before)
    (verdict : state.ret ≠ 0 → state.Verdict order) (quiet : state.ret = 0 → state.handlePtr = none)
    (result : endPoll true before.getLast? state = some next) : next.Advanced order := by
  have inside : ∀ handle, state.Refers handle → handle ∈ order := by
    intro handle refers
    exact split ▸ mem_append_left behind (prepared handle refers)
  unfold ListWait.endPoll at result
  cases last : before.getLast? with
  | none =>
    simp only [last] at result
    have empty : before = [] := List.getLast?_eq_none_iff.mp last
    refine held.afterPoll inside (fun _ _ handle refers => ?_) verdict quiet result
    exact absurd (prepared handle refers) (empty ▸ not_mem_nil)
  | some lastPrep =>
    simp only [last, and_true] at result
    by_cases nothing : state.ret = 0
    · rw [if_neg (by simp [nothing])] at result
      exact held.afterPoll inside (fun _ ready => absurd nothing ready) verdict quiet result
    rw [if_pos nothing, held.ordered.next_head] at result
    cases result
    refine held.continue (by simp) ⟨[], before, behind, by simpa using split, ?_, last, prepared⟩
      ((verdict nothing).same ⟨rfl, rfl, rfl, rfl⟩)
    cases before with
    | nil => cases last
    | cons first rest => rw [split]; rfl

theorem InCall.endPoll_again (held : state.InCall order)
    (inside : ∀ handle, state.Refers handle → handle ∈ order)
    (verdict : state.ret ≠ 0 → state.Verdict order) (quiet : state.ret = 0 → state.handlePtr = none)
    (result : endPoll false none state = some next) : next.Advanced order :=
  held.afterPoll inside (fun prepares => by cases prepares) verdict quiet result

variable [DecidableEq Handle]

theorem Ordered.isEmpty_iff (ordered : state.Ordered order) :
    state.links.isEmpty .head = true ↔ order = [] := by
  rw [Links.Ring.isEmpty_iff ordered, map_eq_nil_iff]

theorem InCall.startPoll (held : state.InCall order) (nothing : state.handlePtr = none)
    (inside : ∀ handle, state.Refers handle → handle ∈ order)
    (fresh : prepare = true → ∀ handle, ¬ state.Refers handle)
    (result : startPoll prepare state = some next) :
    next.Advanced order := by
  unfold ListWait.startPoll at result
  by_cases empty : state.links.isEmpty .head = true
  · rw [if_pos empty] at result
    let failed : ListWait Handle :=
      { state with ret := errNotFound, history := .empty :: state.history }
    have heldFailed : failed.InCall order := ⟨held.ordered, held.listEvent, held.alone⟩
    have verdict : failed.Verdict order :=
      .notFound rfl nothing (held.ordered.isEmpty_iff.mp empty) (by simp [failed])
    exact heldFailed.afterPoll inside (fun prepares _ => fresh prepares) (fun _ => verdict)
      (fun _ => nothing) result
  rw [if_neg empty, held.ordered.next_head] at result
  cases result
  cases prepare with
  | true =>
    refine held.continue (by simp) ⟨[], order, rfl, rfl, by simp [Passed], rfl, ?_⟩
      ⟨nothing, ?_, fun some => absurd rfl some⟩
    · exact fun handle refers => absurd refers (fresh rfl handle)
    · intro atHead
      cases order with
      | nil => exact absurd (held.ordered.isEmpty_iff.mpr rfl) empty
      | cons first rest => cases atHead
  | false =>
    exact held.continue (by simp) ⟨⟨[], order, rfl, rfl, by simp [Passed]⟩, rfl, inside⟩ nothing

theorem refers_finishWaitHandle (target : Handle) :
    (finishWaitHandle handle state).Refers target ↔ target ≠ handle ∧ state.Refers target := by
  by_cases same : target = handle
  · simp [Refers, finishWaitHandle, same]
  · simp [Refers, finishWaitHandle, same]

theorem refers_cleared {rest : List Handle}
    (inside : ∀ target, state.Refers target → target ∈ handle :: rest) (target : Handle)
    (refers : (finishWaitHandle handle state).Refers target) : target ∈ rest := by
  obtain ⟨ne, refers⟩ := (refers_finishWaitHandle target).mp refers
  exact (mem_cons.mp (inside target refers)).resolve_left ne

omit [DecidableEq Handle] in
theorem Safe.inCall (safe : state.Safe order) (holds : state.pc.holdsLock = true) :
    state.InCall order := by
  refine ⟨safe.ordered, safe.listEvent.mpr ?_, safe.exclusive holds⟩
  intro idle
  rw [idle] at holds
  cases holds

/-! ### The steps of the waiter -/

section Waiter

variable {answer : Nat} {junk : Int} {prepare : Bool} {cursor : HandleNode Handle}
  {lastPrep : Option Handle} {last : Handle}

section

variable (safe : state.Safe order) (result : waiterStep answer junk state = some next)

include safe result

theorem Safe.scan (at_ : state.pc = .scan prepare cursor lastPrep) : next.Advanced order := by
  have held := safe.inCall (by rw [at_]; rfl)
  have place := safe.place
  have report := safe.report
  rw [at_] at place
  rw [Report, at_] at report
  cases prepare with
  | false =>
    obtain ⟨⟨before, behind, split, stands, passed⟩, noLast, inside⟩ := place
    cases behind with
    | nil =>
      subst stands noLast
      simp only [waiterStep, at_, cursorAt] at result
      let read : ListWait Handle :=
        { state with ret := junk, history := .indeterminate junk :: state.history }
      have heldRead : read.InCall order := ⟨held.ordered, held.listEvent, held.alone⟩
      refine heldRead.endPoll_again inside (fun nonzero => ?_) (fun _ => report) result
      exact .indeterminate nonzero report (by simp [read])
    | cons handle rest =>
      subst stands
      simp only [waiterStep, at_, cursorAt, Bool.false_eq_true, if_false] at result
      cases result
      exact held.continue (by simp) ⟨⟨before, rest, split, passed⟩, inside⟩ report
  | true =>
    obtain ⟨before, behind, split, stands, passed, isLast, prepared⟩ := place
    obtain ⟨nothing, some, zero⟩ := report
    cases behind with
    | nil =>
      have isZero : state.ret = 0 := zero (some stands)
      subst stands isLast
      simp only [waiterStep, at_, cursorAt] at result
      exact held.endPoll_prepare split prepared (fun nonzero => absurd isZero nonzero)
        (fun _ => nothing) result
    | cons handle rest =>
      subst stands isLast
      simp only [waiterStep, at_, cursorAt, if_true] at result
      by_cases free : state.waitEvent handle = none
      · simp only [prepareWaitHandle, free, ne_eq, not_true_eq_false, if_false] at result
        cases result
        let taken : ListWait Handle :=
          { state with waitEvent := Function.update state.waitEvent handle (.some .list), ret := 0 }
        have heldTaken : taken.InCall order := ⟨held.ordered, held.listEvent, held.alone⟩
        refine heldTaken.continue (by simp) ⟨before, rest, split, passed, ?_⟩ ⟨nothing, rfl⟩
        intro target refers
        by_cases same : target = handle
        · simp [same]
        · have old : state.Refers target := by simpa [Refers, taken, same] using refers
          exact mem_append_left _ (prepared target old)
      · have code : errAlreadyStarted ≠ 0 := by decide
        simp only [prepareWaitHandle, free, ne_eq, not_false_eq_true, if_true, code] at result
        let refused : ListWait Handle :=
          { state with ret := errAlreadyStarted, history := .refused handle :: state.history }
        have heldRefused : refused.InCall order := ⟨held.ordered, held.listEvent, held.alone⟩
        refine heldRefused.endPoll_prepare split prepared (fun _ => ?_) (fun _ => nothing) result
        exact .refused handle rfl nothing (by simp [split]) (by simp [refused])

theorem Safe.ask (at_ : state.pc = .ask prepare handle) : next.Advanced order := by
  have held := safe.inCall (by rw [at_]; rfl)
  have place := safe.place
  have report := safe.report
  rw [at_] at place
  rw [Report, at_] at report
  simp only [waiterStep, at_] at result
  let polled : ListWait Handle := { state with history := .polled handle answer :: state.history }
  have heldPolled : polled.InCall order := ⟨held.ordered, held.listEvent, held.alone⟩
  have stands : ∃ before behind, order = before ++ handle :: behind ∧
      Passed state.history before := by
    cases prepare with
    | true =>
      obtain ⟨before, behind, split, passed, _⟩ := place
      exact ⟨before, behind, split, passed⟩
    | false => exact place.1
  by_cases nonzero : answer ≠ 0
  · rw [if_pos nonzero] at result
    let ready : ListWait Handle :=
      { polled with eventPtr := answer, handlePtr := some handle, ret := 1 }
    have heldReady : ready.InCall order := ⟨held.ordered, held.listEvent, held.alone⟩
    have verdict : ready.Verdict order := by
      obtain ⟨before, behind, split, passed⟩ := stands
      refine .ready handle before behind rfl rfl split ?_ nonzero (by simp [ready, polled])
      exact fun target inside => mem_cons_of_mem _ (passed target inside)
    cases prepare with
    | true =>
      obtain ⟨before, behind, split, passed, prepared⟩ := place
      have parts : order = (before ++ [handle]) ++ behind := by simpa using split
      refine heldReady.endPoll_prepare parts prepared (fun _ => verdict) (by simp [ready]) ?_
      rw [List.getLast?_concat]
      exact result
    | false => exact heldReady.endPoll_again place.2 (fun _ => verdict) (by simp [ready]) result
  · rw [if_neg nonzero] at result
    have more : ∀ before, Passed state.history before →
        Passed polled.history (before ++ [handle]) := by
      intro before passed target inside
      rcases mem_append.mp inside with old | new
      · exact mem_cons_of_mem _ (passed target old)
      · rw [mem_singleton.mp new]
        simp [polled, not_not.mp nonzero]
    cases prepare with
    | true =>
      obtain ⟨before, behind, split, passed, prepared⟩ := place
      rw [Ordered.next_node (split ▸ held.ordered)] at result
      cases result
      exact heldPolled.continue (by simp)
        ⟨before ++ [handle], behind, by simp [split], rfl, more before passed, by simp, prepared⟩
        ⟨report.1, by simp, fun _ => report.2⟩
    | false =>
      obtain ⟨before, behind, split, passed⟩ := stands
      rw [Ordered.next_node (split ▸ held.ordered)] at result
      cases result
      exact heldPolled.continue (by simp)
        ⟨⟨before ++ [handle], behind, by simp [split], rfl, more before passed⟩, rfl, place.2⟩
        report

theorem Safe.undo (at_ : state.pc = .undo cursor last) : next.Advanced order := by
  have held := safe.inCall (by rw [at_]; rfl)
  have place := safe.place
  have verdict := safe.report
  rw [at_] at place
  rw [Report, at_] at verdict
  obtain ⟨before, between, behind, split, stands, ends, inside⟩ := place
  cases between with
  | nil => cases ends
  | cons handle rest =>
    subst stands
    simp only [waiterStep, at_, cursorAt] at result
    have heldCleared : (finishWaitHandle handle state).InCall order :=
      ⟨held.ordered, held.listEvent, held.alone⟩
    have verdictCleared : (finishWaitHandle handle state).Verdict order :=
      verdict.same ⟨rfl, rfl, rfl, rfl⟩
    have left := refers_cleared inside
    by_cases same : handle = last
    · have nodup : (handle :: rest).Nodup := by
        have := held.ordered.nodup
        rw [split, append_assoc] at this
        exact (nodup_append.mp (nodup_append.mp this).2.1).1
      have noRest : rest = [] := by
        rcases eq_nil_or_concat' rest with none | ⟨front, final, more⟩
        · exact none
        · rw [more, ← cons_append, List.getLast?_concat] at ends
          have again : handle ∈ rest := by simp [more, same, Option.some.inj ends]
          exact absurd again (nodup_cons.mp nodup).1
      rw [if_pos same] at result
      have clear : ∀ target, ¬ (finishWaitHandle handle state).Refers target := by
        intro target refers
        exact not_mem_nil (noRest ▸ left target refers)
      exact heldCleared.afterPoll (fun target refers => absurd refers (clear target))
        (fun _ _ => clear) (fun _ => verdictCleared)
        (fun zero => absurd zero verdictCleared.ret_ne_zero) result
    · have next_ : state.links.next (.node handle) = some (cursorAt (rest ++ behind)) := by
        refine Ordered.next_node (?_ : state.Ordered (before ++ handle :: (rest ++ behind)))
        have : order = before ++ handle :: (rest ++ behind) := by simpa using split
        exact this ▸ held.ordered
      have more : rest.getLast? = some last := by
        cases rest with
        | nil => exact absurd (by simpa using ends) same
        | cons second others => simpa using ends
      have stands : cursorAt (rest ++ behind) = cursorAt rest := by
        cases rest with
        | nil => cases more
        | cons second others => rfl
      rw [if_neg same] at result
      change (state.links.next (.node handle)).bind _ = _ at result
      rw [next_] at result
      cases result
      exact heldCleared.continue (by simp) ⟨before ++ [handle], rest, behind, by simp [split],
        stands, more, left⟩
        (verdictCleared.same ⟨rfl, rfl, rfl, rfl⟩)

theorem Safe.sleep (at_ : state.pc = .sleep) : next.Advanced order := by
  have place := safe.place
  have nothing := safe.report
  rw [at_] at place
  rw [Report, at_] at nothing
  simp only [waiterStep, at_] at result
  split at result
  · cases result
    refine ⟨⟨safe.ordered, iff_of_true (safe.listEvent.mpr (by simp [at_])) (by simp), ?_,
      safe.added, place, ?_⟩, ?_⟩
    · simp [WaitPc.holdsLock]
    · exact ⟨nothing, .inl rfl⟩
    · simp
  · cases result

theorem Safe.relock (at_ : state.pc = .relock) : next.Advanced order := by
  have place := safe.place
  have report := safe.report
  rw [at_] at place
  rw [Report, at_] at report
  obtain ⟨nothing, code⟩ := report
  simp only [waiterStep, at_] at result
  by_cases alone : state.other = .away
  · have held : state.InCall order := ⟨safe.ordered, safe.listEvent.mpr (by simp [at_]), alone⟩
    have inside : ∀ handle, state.Refers handle → handle ∈ order := by
      intro handle refers
      rcases place handle refers with inside | ⟨all, unlinked⟩
      · exact inside
      · rw [alone] at unlinked
        cases unlinked
    rw [if_neg (not_not.mpr alone)] at result
    by_cases failed : state.ret < 0
    · rw [if_pos failed] at result
      rcases code with zero | ⟨code, expired⟩
      · exact absurd failed (by omega)
      · exact held.startFinish inside (.timedOut code nothing expired) result
    · rw [if_neg failed] at result
      exact held.startPoll nothing inside (fun prepares => by cases prepares) result
  · rw [if_pos alone] at result
    cases result

theorem Safe.finish (at_ : state.pc = .finish cursor) : next.Advanced order := by
  have held := safe.inCall (by rw [at_]; rfl)
  have place := safe.place
  have verdict := safe.report
  rw [at_] at place
  rw [Report, at_] at verdict
  obtain ⟨before, behind, split, stands, inside⟩ := place
  cases behind with
  | nil =>
    subst stands
    simp only [waiterStep, at_, cursorAt] at result
    cases result
    exact held.continue (by simp) (fun handle refers => not_mem_nil (inside handle refers))
      (verdict.same ⟨rfl, rfl, rfl, rfl⟩)
  | cons handle rest =>
    subst stands
    simp only [waiterStep, at_, cursorAt] at result
    have heldCleared : (finishWaitHandle handle state).InCall order :=
      ⟨held.ordered, held.listEvent, held.alone⟩
    have verdictCleared : (finishWaitHandle handle state).Verdict order :=
      verdict.same ⟨rfl, rfl, rfl, rfl⟩
    have next_ : state.links.next (.node handle) = some (cursorAt rest) :=
      Ordered.next_node (split ▸ held.ordered : state.Ordered (before ++ handle :: rest))
    change (state.links.next (.node handle)).bind _ = _ at result
    rw [next_] at result
    cases result
    exact heldCleared.continue (by simp) ⟨before ++ [handle], rest, by simp [split], rfl,
      refers_cleared inside⟩ (verdictCleared.same ⟨rfl, rfl, rfl, rfl⟩)

/-- The end of a call.  With a handle to return, the list goes on from the handle
behind it. -/
theorem Safe.found (at_ : state.pc = .found) :
    next.Advanced order ∧ (next.pc = .idle → next.ret ≠ 0) ∨
      ∃ handle before behind, next.pc = .idle ∧ next.ret = 0 ∧ next.handlePtr = some handle ∧
        order = before ++ handle :: behind ∧ Passed next.history before ∧
        .polled handle next.eventPtr ∈ next.history ∧
        next.Advanced (behind ++ before ++ [handle]) := by
  have held := safe.inCall (by rw [at_]; rfl)
  have verdict := safe.report
  obtain ⟨links, listEvent, waitEvent, signaled, pc, ret, handlePtr, eventPtr, history, other⟩ :=
    state
  subst at_
  have clear : ∀ handle, waitEvent handle ≠ some .list := safe.place
  change (if ret = 1 then _ else _) = _ at result
  by_cases ready : ret = 1
  · rw [if_pos ready] at result
    cases verdict with
    | ready handle before behind code stored split passed event polled =>
      subst stored
      have ring := held.ordered
      rw [split, Ordered, map_append, map_cons] at ring
      obtain ⟨links₁, links₂, deleted, added, circle⟩ := ring.moveHead
      change (links.delete .head).bind _ = _ at result
      rw [deleted] at result
      change (links₁.addHead (.node handle) .head).bind _ = _ at result
      rw [added] at result
      cases result
      refine .inr ⟨handle, before, behind, rfl, rfl, rfl, split, passed, polled, ?_⟩
      refine InCall.errDoPoll ⟨?_, held.listEvent, held.alone⟩ clear ?_
      · simpa [Ordered] using circle
      · exact .inl (.ready handle rfl rfl (by simp) event polled)
    | notFound code => exact absurd (code.symm.trans ready) (by decide)
    | timedOut code => exact absurd (code.symm.trans ready) (by decide)
    | refused handle code => exact absurd (code.symm.trans ready) (by decide)
    | indeterminate code stored read =>
      subst stored
      cases result
      exact .inl ⟨held.continue (by simp) clear (by rwa [ready] at read), by simp⟩
  · rw [if_neg ready] at result
    cases result
    exact .inl ⟨held.errDoPoll clear (verdict.outcome ready), fun _ => verdict.ret_ne_zero⟩

theorem Safe.waiterStep :
    ∃ order', next.Advanced order' ∧ (state.pc ≠ .found → order' = order) := by
  cases at_ : state.pc with
  | idle =>
    simp only [ListWait.waiterStep, at_] at result
    cases result
  | crashed =>
    simp only [ListWait.waiterStep, at_] at result
    cases result
  | scan prepare cursor lastPrep => exact ⟨order, safe.scan result at_, fun _ => rfl⟩
  | ask prepare handle => exact ⟨order, safe.ask result at_, fun _ => rfl⟩
  | undo cursor last => exact ⟨order, safe.undo result at_, fun _ => rfl⟩
  | sleep => exact ⟨order, safe.sleep result at_, fun _ => rfl⟩
  | relock => exact ⟨order, safe.relock result at_, fun _ => rfl⟩
  | finish cursor => exact ⟨order, safe.finish result at_, fun _ => rfl⟩
  | found =>
    rcases safe.found result at_ with ⟨same, _⟩ | ⟨handle, before, behind, _, _, _, _, _, _, turned⟩
    · exact ⟨order, same, fun _ => rfl⟩
    · exact ⟨_, turned, fun elsewhere => absurd rfl elsewhere⟩

end

end Waiter

end ListWait

end Trusty.Ipc
