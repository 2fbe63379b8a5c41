import Trusty.Lib.CallSlot

/-!
Standard calls of the secure monitor (`sm.c`).

The functions that work on `stdcallstate` do so under its lock and are steps of any
CPU; the stdcall thread waits for the event, runs the handler and takes the lock to
store the result.  The number of a CPU takes the place of -1 when there is none.
-/

namespace Trusty.Sm

open Lib

def smErrInterrupted : Int := -3
def smErrUnexpectedRestart : Int := -4
def smErrBusy : Int := -5
def smErrInternalFailure : Int := -7
def smErrCpuIdle : Int := -13
def smErrNopInterrupted : Int := -14

/-- `SMC_STDCALL_NR(SMC_ENTITY_SECURE_MONITOR, 0)` -/
def smcScRestartLast : BitVec 32 := 0x3c000000

def trustyApiVersionSmp : BitVec 32 := 2

structure Smc32Args where
  smcNr : BitVec 32
  params : Fin 3 → BitVec 32

/-- `struct sm_std_call_state`, with the flag of its event. -/
structure SmStdCallState where
  signalled : Bool
  args : Smc32Args
  ret : Int
  done : Bool
  activeCpu : Option Nat
  initialCpu : Option Nat
  lastCpu : Option Nat
  restartCount : BitVec 32

def stdcallstate : SmStdCallState := ⟨false, ⟨0, fun _ => 0⟩, 0, false, none, none, none, 0⟩

variable (state : SmStdCallState)

def smQueueStdcall (cpu : Nat) (args : Smc32Args) : Int × SmStdCallState :=
  if state.signalled ∨ state.done then
    if args.smcNr = smcScRestartLast ∧ state.activeCpu = none then
      (0, { state with restartCount := state.restartCount + 1, activeCpu := some cpu })
    else (smErrBusy, state)
  else if args.smcNr = smcScRestartLast then (smErrUnexpectedRestart, state)
  else
    (0, { state with
      initialCpu := some cpu
      ret := smErrInternalFailure
      args := args
      restartCount := 0
      signalled := true
      activeCpu := some cpu })

/-- `sm_irq_return_ns`, up to the return to the non-secure side. -/
def smIrqReturnNs (cpu : Nat) : Int × SmStdCallState :=
  if state.activeCpu = some cpu then
    (smErrInterrupted, { state with lastCpu := state.activeCpu, activeCpu := none })
  else (smErrNopInterrupted, state)

/-- `sm_get_stdcall_ret`, with the api version.  The flag tells a result from an error. -/
def smGetStdcallRet (cpu : Nat) (apiVersion : BitVec 32) : (Int × Bool) × SmStdCallState :=
  if state.activeCpu ≠ some cpu then ((smErrInternalFailure, false), state)
  else
    let state := { state with lastCpu := state.activeCpu, activeCpu := none }
    if state.done then ((state.ret, true), { state with done := false })
    else if trustyApiVersionSmp ≤ apiVersion then ((smErrCpuIdle, false), state)
    else if state.restartCount ≠ 0 then ((smErrBusy, false), state)
    else ((smErrInterrupted, false), state)

/-- The end of a round of `sm_stdcall_loop`. -/
def stdcallReturned (ret : Int) : SmStdCallState :=
  { state with ret := ret, done := true, signalled := false }

/-- Where the stdcall thread is. -/
inductive Stdcallthread where
  | waiting
  | running
deriving DecidableEq

structure Monitor where
  state : SmStdCallState
  thread : Stdcallthread

inductive Action where
  | queue (cpu : Nat) (args : Smc32Args)
  | irqReturn (cpu : Nat)
  | getRet (cpu : Nat) (apiVersion : BitVec 32)
  /-- `event_wait` returns in the stdcall thread. -/
  | dispatch
  /-- The handler has returned and the thread stores its result. -/
  | finish (ret : Int)

def effect (monitor : Monitor) : Action → Option (CallSlot.Action Smc32Args Int)
  | .queue cpu args =>
    if (smQueueStdcall monitor.state cpu args).1 = 0 ∧ args.smcNr ≠ smcScRestartLast then
      some (.accept args)
    else none
  | .getRet cpu apiVersion =>
    if (smGetStdcallRet monitor.state cpu apiVersion).1.2 then
      some (.deliver (smGetStdcallRet monitor.state cpu apiVersion).1.1)
    else none
  | .finish ret => some (.finish ret)
  | .irqReturn _ | .dispatch => none

def step (monitor : Monitor) : Action → Option Monitor
  | .queue cpu args => some { monitor with state := (smQueueStdcall monitor.state cpu args).2 }
  | .irqReturn cpu => some { monitor with state := (smIrqReturnNs monitor.state cpu).2 }
  | .getRet cpu apiVersion =>
    some { monitor with state := (smGetStdcallRet monitor.state cpu apiVersion).2 }
  | .dispatch =>
    if monitor.thread = .waiting ∧ monitor.state.signalled then
      some { monitor with thread := .running } else none
  | .finish ret =>
    if monitor.thread = .running then some ⟨stdcallReturned monitor.state ret, .waiting⟩ else none

inductive Reach : Monitor → CallSlot.History Smc32Args Int → Prop
  | init : Reach ⟨stdcallstate, .waiting⟩ .empty
  | step {monitor next : Monitor} {history : CallSlot.History Smc32Args Int} {action : Action}
      (reached : Reach monitor history) (stepped : step monitor action = some next) :
      Reach next ((effect monitor action).elim history history.record)

/-! ### The slot that the flags stand for -/

def slot : CallSlot Smc32Args Int :=
  if state.signalled then .busy state.args else if state.done then .ready state.ret else .free

theorem slot_eq_free_iff : slot state = .free ↔ ¬ (state.signalled ∨ state.done) := by
  unfold slot
  cases state.signalled <;> cases state.done <;> simp

structure Inv (monitor : Monitor) : Prop where
  not_both : ¬ (monitor.state.done ∧ monitor.state.signalled)
  running : monitor.thread = .running → monitor.state.signalled
  active : ∀ cpu, monitor.state.activeCpu = some cpu → monitor.state.signalled ∨ monitor.state.done

/-- What a step may do to the slot. -/
def SlotStep (before : CallSlot Smc32Args Int) (effect : Option (CallSlot.Action Smc32Args Int))
    (after : CallSlot Smc32Args Int) : Prop :=
  match effect with
  | none => after = before
  | some action => CallSlot.Step before action after

variable {monitor next : Monitor} {history : CallSlot.History Smc32Args Int} {action : Action}

theorem smQueueStdcall_cases (cpu : Nat) (args : Smc32Args) :
    ((state.signalled ∨ state.done) ∧ args.smcNr = smcScRestartLast ∧ state.activeCpu = none ∧
        smQueueStdcall state cpu args =
          (0, { state with restartCount := state.restartCount + 1, activeCpu := some cpu })) ∨
      (¬ (state.signalled ∨ state.done) ∧ args.smcNr ≠ smcScRestartLast ∧
        smQueueStdcall state cpu args =
          (0, { state with
            initialCpu := some cpu
            ret := smErrInternalFailure
            args := args
            restartCount := 0
            signalled := true
            activeCpu := some cpu })) ∨
      ((smQueueStdcall state cpu args).1 ≠ 0 ∧ (smQueueStdcall state cpu args).2 = state ∧
        ((state.signalled ∨ state.done) → args.smcNr = smcScRestartLast → state.activeCpu ≠ none) ∧
        (¬ (state.signalled ∨ state.done) → args.smcNr = smcScRestartLast)) := by
  unfold smQueueStdcall
  by_cases pending : state.signalled ∨ state.done
  · rw [if_pos pending]
    by_cases restart : args.smcNr = smcScRestartLast ∧ state.activeCpu = none
    · rw [if_pos restart]
      exact .inl ⟨pending, restart.1, restart.2, rfl⟩
    · rw [if_neg restart]
      exact .inr (.inr
        ⟨show smErrBusy ≠ 0 by decide, rfl, fun _ last idle => restart ⟨last, idle⟩,
          fun no => absurd pending no⟩)
  · rw [if_neg pending]
    by_cases last : args.smcNr = smcScRestartLast
    · rw [if_pos last]
      exact .inr
        (.inr ⟨show smErrUnexpectedRestart ≠ 0 by decide, rfl, fun yes => absurd yes pending,
          fun _ => last⟩)
    · rw [if_neg last]
      exact .inr (.inl ⟨pending, last, rfl⟩)

theorem queue_sim (inv : Inv monitor) (cpu : Nat) (args : Smc32Args)
    (stepped : step monitor (.queue cpu args) = some next) :
    Inv next ∧ SlotStep (slot monitor.state) (effect monitor (.queue cpu args))
    (slot next.state) := by
  cases stepped
  simp only [effect]
  obtain ⟨pending, restart, -, result⟩ | ⟨free, fresh, result⟩ | ⟨refused, same, -⟩ :=
    smQueueStdcall_cases monitor.state cpu args
  · rw [result, if_neg (fun accepted => accepted.2 restart)]
    exact ⟨⟨inv.not_both, inv.running, fun _ _ => pending⟩, rfl⟩
  · rw [result, if_pos ⟨rfl, fresh⟩]
    refine ⟨⟨?_, fun _ => rfl, fun _ _ => .inl rfl⟩, ?_⟩
    · rintro ⟨done, -⟩
      exact free (.inr done)
    · change CallSlot.Step (slot monitor.state) (.accept args) (.busy args)
      rw [(slot_eq_free_iff monitor.state).mpr free]
      exact .accept args
  · rw [same, if_neg (fun accepted => refused accepted.1)]
    exact ⟨inv, rfl⟩

theorem getRet_sim (inv : Inv monitor) (cpu : Nat) (apiVersion : BitVec 32)
    (stepped : step monitor (.getRet cpu apiVersion) = some next) :
    Inv next ∧ SlotStep (slot monitor.state) (effect monitor (.getRet cpu apiVersion))
    (slot next.state) := by
  cases stepped
  simp only [effect]
  unfold smGetStdcallRet
  by_cases other : monitor.state.activeCpu ≠ some cpu
  · rw [if_pos other]
    exact ⟨inv, rfl⟩
  rw [if_neg other]
  have idle : Inv { monitor with
      state := { monitor.state with lastCpu := monitor.state.activeCpu, activeCpu := none } } :=
    ⟨inv.not_both, inv.running, fun _ contra => (by cases contra)⟩
  by_cases done : monitor.state.done = true
  · have unsignalled : monitor.state.signalled = false := by
      cases signalled : monitor.state.signalled with
      | false => rfl
      | true => exact absurd ⟨done, signalled⟩ inv.not_both
    rw [if_pos done, if_pos rfl]
    refine ⟨⟨fun both => (by cases both.1), inv.running, fun _ contra => (by cases contra)⟩, ?_⟩
    have before : slot monitor.state = .ready monitor.state.ret := by
      unfold slot
      rw [unsignalled, done]
      rfl
    have after :
        slot { monitor.state with
          lastCpu := monitor.state.activeCpu, activeCpu := none, done := false } = .free := by
      unfold slot
      rw [unsignalled]
      rfl
    rw [before]
    change CallSlot.Step _ _ (slot _)
    rw [after]
    exact .deliver monitor.state.ret
  · rw [if_neg done]
    split
    · exact ⟨idle, rfl⟩
    · split
      · exact ⟨idle, rfl⟩
      · exact ⟨idle, rfl⟩

theorem step_sim (inv : Inv monitor) (stepped : step monitor action = some next) :
    Inv next ∧ SlotStep (slot monitor.state) (effect monitor action) (slot next.state) := by
  cases action with
  | queue cpu args => exact queue_sim inv cpu args stepped
  | getRet cpu apiVersion => exact getRet_sim inv cpu apiVersion stepped
  | irqReturn cpu =>
    cases stepped
    unfold smIrqReturnNs
    split
    · exact ⟨⟨inv.not_both, inv.running, fun _ contra => (by cases contra)⟩, rfl⟩
    · exact ⟨inv, rfl⟩
  | dispatch =>
    simp only [step] at stepped
    split at stepped
    case isTrue possible =>
      cases stepped
      exact ⟨⟨inv.not_both, fun _ => possible.2, inv.active⟩, rfl⟩
    case isFalse => cases stepped
  | finish ret =>
    simp only [step] at stepped
    split at stepped
    case isTrue running =>
      cases stepped
      refine ⟨⟨fun both => (by cases both.2), fun contra => (by cases contra), fun _ _ => .inr rfl⟩,
        ?_⟩
      have before : slot monitor.state = .busy monitor.state.args := if_pos (inv.running running)
      rw [before]
      exact .finish monitor.state.args ret
    case isFalse => cases stepped

theorem Reach.fits (reached : Reach monitor history) :
    Inv monitor ∧ (slot monitor.state).Fits history := by
  induction reached with
  | init =>
    refine ⟨⟨fun both => (by cases both.1), fun contra => (by cases contra), ?_⟩,
      CallSlot.fits_empty⟩
    exact fun _ contra => (by cases contra)
  | @step monitor next history action _ stepped ih =>
    obtain ⟨inv, fits⟩ := ih
    obtain ⟨kept, slots⟩ := step_sim inv stepped
    refine ⟨kept, ?_⟩
    cases effect : effect monitor action with
    | none =>
      rw [effect] at slots
      rw [show slot next.state = slot monitor.state from slots]
      exact fits
    | some action =>
      rw [effect] at slots
      exact fits.step slots

/-! ### What the non-secure side can rely on -/

structure Ordered (monitor : Monitor) (history : CallSlot.History Smc32Args Int) : Prop where
  /-- Results are returned once, in order, and before the next call is accepted. -/
  delivered_once : history.delivered <+: history.finished ∧
    history.finished.length ≤ history.accepted.length ∧
    history.accepted.length ≤ history.delivered.length + 1
  args_kept : history.finished.length < history.accepted.length →
    history.accepted.getLast? = some monitor.state.args
  not_both : ¬ (monitor.state.done ∧ monitor.state.signalled)
  one_active : ∀ first second, monitor.state.activeCpu = some first →
    monitor.state.activeCpu = some second → first = second

structure StepOrdered (monitor : Monitor) (history : CallSlot.History Smc32Args Int)
    (action : Action) (next : Monitor) : Prop where
  /-- No call changes the arguments while a handler has not returned. -/
  args_kept : history.finished.length < history.accepted.length →
    next.state.args = monitor.state.args
  accepted_iff : ∀ cpu args, action = .queue cpu args → args.smcNr ≠ smcScRestartLast →
    ((smQueueStdcall monitor.state cpu args).1 = 0 ↔
      history.accepted.length = history.delivered.length)
  restarted_iff : ∀ cpu args, action = .queue cpu args → args.smcNr = smcScRestartLast →
    ((smQueueStdcall monitor.state cpu args).1 = 0 ↔
      history.delivered.length < history.accepted.length ∧ monitor.state.activeCpu = none)
  /-- The active CPU, and no other, gets the result that is due. -/
  returned_iff : ∀ cpu apiVersion, action = .getRet cpu apiVersion →
    ((smGetStdcallRet monitor.state cpu apiVersion).1.2 ↔
      monitor.state.activeCpu = some cpu ∧ history.delivered.length < history.finished.length)
  result_eq : ∀ cpu apiVersion, action = .getRet cpu apiVersion →
    (smGetStdcallRet monitor.state cpu apiVersion).1.2 →
      history.finished = history.delivered ++ [(smGetStdcallRet monitor.state cpu apiVersion).1.1]

theorem args_of_fits (fits : (slot monitor.state).Fits history)
    (serving : history.finished.length < history.accepted.length) :
    monitor.state.signalled ∧ history.accepted.getLast? = some monitor.state.args := by
  obtain ⟨request, busy⟩ := fits.busy_iff.mpr serving
  have signalled : monitor.state.signalled = true := by
    unfold slot at busy
    split at busy
    case isTrue found => exact found
    case isFalse =>
      split at busy
      · cases busy
      · cases busy
  have same : request = monitor.state.args := by
    unfold slot at busy
    rw [if_pos signalled] at busy
    cases busy
    rfl
  rw [busy] at fits
  obtain ⟨-, before, accepted, -⟩ := fits
  rw [accepted, List.getLast?_concat, same]
  exact ⟨signalled, rfl⟩

theorem Reach.ordered (reached : Reach monitor history) : Ordered monitor history := by
  obtain ⟨inv, fits⟩ := reached.fits
  refine ⟨fits.delivered, fun serving => (args_of_fits fits serving).2, inv.not_both, ?_⟩
  intro first second isFirst isSecond
  exact Option.some.inj (isFirst.symm.trans isSecond)

theorem pending_iff (fits : (slot monitor.state).Fits history) :
    (monitor.state.signalled ∨ monitor.state.done) ↔
    history.delivered.length < history.accepted.length := by
  have free := (slot_eq_free_iff monitor.state).symm.trans fits.free_iff
  obtain ⟨order, fewer, -⟩ := fits.delivered
  have less := order.length_le
  constructor
  · intro pending
    have : history.accepted.length ≠ history.delivered.length := fun same => free.mpr same pending
    omega
  · intro pending
    by_contra none
    have same := free.mp none
    omega

theorem slot_of_done (inv : Inv monitor) (done : monitor.state.done = true) :
    slot monitor.state = .ready monitor.state.ret := by
  unfold slot
  rw [if_neg (fun signalled => inv.not_both ⟨done, signalled⟩), if_pos done]

theorem done_iff (inv : Inv monitor) (fits : (slot monitor.state).Fits history) :
    monitor.state.done ↔ history.delivered.length < history.finished.length := by
  constructor
  · intro done
    rw [(fits.ready_iff _).mp (slot_of_done inv done), List.length_append]
    exact Nat.lt_succ_self _
  · intro due
    by_contra notDone
    unfold slot at fits
    split at fits
    · rw [fits.1] at due
      exact Nat.lt_irrefl _ due
    · rw [fits.1] at due
      exact Nat.lt_irrefl _ due

theorem smGetStdcallRet_flag (state : SmStdCallState) (cpu : Nat) (apiVersion : BitVec 32) :
    ((smGetStdcallRet state cpu apiVersion).1.2 ↔ state.activeCpu = some cpu ∧ state.done) ∧
      ((smGetStdcallRet state cpu apiVersion).1.2 →
        (smGetStdcallRet state cpu apiVersion).1.1 = state.ret) := by
  unfold smGetStdcallRet
  by_cases other : state.activeCpu ≠ some cpu
  · rw [if_pos other]
    exact ⟨⟨fun contra => (by cases contra), fun both => absurd both.1 other⟩,
      fun contra => (by cases contra)⟩
  rw [if_neg other]
  by_cases done : state.done = true
  · rw [if_pos done]
    exact ⟨⟨fun _ => ⟨not_not.mp other, done⟩, fun _ => rfl⟩, fun _ => rfl⟩
  rw [if_neg done]
  split_ifs
  all_goals
    exact ⟨⟨fun contra => (by cases contra), fun both => absurd both.2 done⟩,
      fun contra => (by cases contra)⟩

theorem args_unchanged (signalled : monitor.state.signalled = true)
    (stepped : step monitor action = some next) :
    next.state.args = monitor.state.args := by
  cases action with
  | queue cpu args =>
    cases stepped
    obtain ⟨-, -, -, result⟩ | ⟨free, -⟩ | ⟨-, same, -⟩ :=
      smQueueStdcall_cases monitor.state cpu args
    · rw [result]
    · exact absurd (.inl signalled) free
    · exact congrArg SmStdCallState.args same
  | irqReturn cpu =>
    cases stepped
    unfold smIrqReturnNs
    split
    · rfl
    · rfl
  | getRet cpu apiVersion =>
    cases stepped
    unfold smGetStdcallRet
    dsimp only
    split_ifs
    all_goals rfl
  | dispatch =>
    simp only [step] at stepped
    split at stepped
    · cases stepped
      rfl
    · cases stepped
  | finish ret =>
    simp only [step] at stepped
    split at stepped
    · cases stepped
      rfl
    · cases stepped

theorem Reach.step_ordered (reached : Reach monitor history)
    (stepped : Sm.step monitor action = some next) :
    StepOrdered monitor history action next := by
  obtain ⟨inv, fits⟩ := reached.fits
  have pending := pending_iff fits
  have free := (slot_eq_free_iff monitor.state).symm.trans fits.free_iff
  refine ⟨fun serving => args_unchanged (args_of_fits fits serving).1 stepped, ?_, ?_, ?_, ?_⟩
  · rintro cpu args rfl fresh
    rw [← free]
    obtain ⟨-, last, -⟩ | ⟨none, -, result⟩ | ⟨refused, -, -, only⟩ :=
      smQueueStdcall_cases monitor.state cpu args
    · exact absurd last fresh
    · rw [result]
      exact ⟨fun _ => none, fun _ => rfl⟩
    · exact ⟨fun zero => absurd zero refused, fun none => absurd (only none) fresh⟩
  · rintro cpu args rfl last
    rw [← pending]
    obtain ⟨some, -, idle, result⟩ | ⟨-, fresh, -⟩ | ⟨refused, -, active, -⟩ :=
      smQueueStdcall_cases monitor.state cpu args
    · rw [result]
      exact ⟨fun _ => ⟨some, idle⟩, fun _ => rfl⟩
    · exact absurd last fresh
    · exact ⟨fun zero => absurd zero refused, fun both => absurd both.2 (active both.1 last)⟩
  · rintro cpu apiVersion rfl
    rw [← done_iff inv fits]
    exact (smGetStdcallRet_flag monitor.state cpu apiVersion).1
  · rintro cpu apiVersion rfl returned
    obtain ⟨flag, value⟩ := smGetStdcallRet_flag monitor.state cpu apiVersion
    rw [value returned]
    exact (fits.ready_iff _).mp (slot_of_done inv (flag.mp returned).2)

/-- Every interleaving of the steps, over any number of CPUs. -/
theorem stdcalls_ordered (reached : Reach monitor history) :
    Ordered monitor history ∧
      ∀ action next, step monitor action = some next → StepOrdered monitor history action next :=
  ⟨reached.ordered, fun _ _ stepped => reached.step_ordered stepped⟩

def someCall : Smc32Args := ⟨0x30000001, fun _ => 7⟩

/-- A call starts on CPU 0, is interrupted there, finishes, and is restarted on CPU 1, which
gets the result. -/
theorem reach_restarted :
    Reach ⟨⟨false, someCall, 5, false, none, some 0, some 1, 1⟩, .waiting⟩
      ⟨[someCall], [5], [5]⟩ := by
  have queued := @Reach.step _ _ _ (.queue 0 someCall) Reach.init rfl
  have dispatched := @Reach.step _ _ _ .dispatch queued rfl
  have interrupted := @Reach.step _ _ _ (.irqReturn 0) dispatched rfl
  have finished := @Reach.step _ _ _ (.finish 5) interrupted rfl
  have restarted := @Reach.step _ _ _ (.queue 1 ⟨smcScRestartLast, fun _ => 0⟩) finished rfl
  exact @Reach.step _ _ _ (.getRet 1 2) restarted rfl

theorem stdcalls_ordered_restarted :
    Ordered ⟨⟨false, someCall, 5, false, none, some 0, some 1, 1⟩, .waiting⟩
      ⟨[someCall], [5], [5]⟩ ∧
      ∀ action next, step ⟨⟨false, someCall, 5, false, none, some 0, some 1, 1⟩, .waiting⟩
        action = some next →
        StepOrdered ⟨⟨false, someCall, 5, false, none, some 0, some 1, 1⟩, .waiting⟩
          ⟨[someCall], [5], [5]⟩ action
          next :=
  stdcalls_ordered reach_restarted

end Trusty.Sm
