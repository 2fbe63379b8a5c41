import Mathlib.Data.Fintype.Defs
import Trusty.Ipc.Iovec
import Trusty.Lib.Ring

/-!
Waiting on a list of handles (`handle_list_wait`) while other threads change the list.

One thread waits.  It takes a step at every point where another thread can see it or
be seen by it: a list is only read under its lock, but the event of a handle has a
lock of its own, and a handle can become ready at any time.  The other threads add
and remove handles under the lock of the list, notify handles, and wait on single
handles (`handle_wait`).
-/

namespace Trusty.Ipc

open Lib

def errAlreadyStarted : Int := -6
def errTimedOut : Int := -13

inductive HandleNode (Handle : Type) where
  | head
  | node (handle : Handle)
deriving DecidableEq

/-- Whose event a handle refers to. -/
inductive WaitingFor where
  | list
  | single
deriving DecidableEq

inductive WaitPc (Handle : Type) where
  /-- outside of the call -/
  | idle
  /-- at the head of the loop of `_hlist_do_poll_locked` -/
  | scan (prepare : Bool) (cursor : HandleNode Handle) (lastPrep : Option Handle)
  /-- about to poll the handle -/
  | ask (prepare : Bool) (handle : Handle)
  /-- in the loop of `_hlist_finish_wait_locked` up to the last handle prepared -/
  | undo (cursor : HandleNode Handle) (last : Handle)
  /-- in `__do_wait`, without the lock -/
  | sleep
  /-- about to take the lock again -/
  | relock
  /-- in the loop of `_hlist_finish_wait_locked` over the whole list -/
  | finish (cursor : HandleNode Handle)
  /-- behind the loop -/
  | found
  /-- a null pointer was followed -/
  | crashed
deriving DecidableEq

def WaitPc.holdsLock {Handle : Type} : WaitPc Handle → Bool
  | .idle | .sleep | .relock => false
  | .scan .. | .ask .. | .undo .. | .finish .. | .found | .crashed => true

/-- Where another thread is in an operation that holds the lock of the list. -/
inductive OtherPc (Handle : Type) where
  | away
  | added (handle : Handle)
  | addPoll (handle : Handle)
  | addNotify (handle : Handle)
  | unlinked (all : Bool) (handle : Handle)
  | cleared (all : Bool)
  | deleteAll
deriving DecidableEq

inductive Happening (Handle : Type) where
  | polled (handle : Handle) (event : Nat)
  | refused (handle : Handle)
  | timedOut
  | empty
  | indeterminate (value : Int)
deriving DecidableEq

/-- A handle list and the threads at work on it.  The results of a call stay in
`ret`, `handlePtr` and `eventPtr`; `history` is what happened since it began. -/
structure ListWait (Handle : Type) where
  links : Links (HandleNode Handle)
  listEvent : Bool
  waitEvent : Handle → Option WaitingFor
  signaled : Bool
  pc : WaitPc Handle
  ret : Int
  handlePtr : Option Handle
  eventPtr : Nat
  history : List (Happening Handle)
  other : OtherPc Handle

namespace ListWait

variable {Handle : Type} [DecidableEq Handle]

/-! ### Handles -/

/-- `_prepare_wait_handle` with the event of the waiter on the list or of another one. -/
def prepareWaitHandle (who : WaitingFor) (handle : Handle) (state : ListWait Handle) :
    Int × ListWait Handle :=
  if state.waitEvent handle ≠ none then (errAlreadyStarted, state)
  else (0, { state with waitEvent := Function.update state.waitEvent handle (some who) })

def finishWaitHandle (handle : Handle) (state : ListWait Handle) : ListWait Handle :=
  { state with waitEvent := Function.update state.waitEvent handle none }

def handleNotify (handle : Handle) (state : ListWait Handle) : ListWait Handle :=
  if state.waitEvent handle = some .list then { state with signaled := true } else state

/-! ### `handle_list_wait` -/

/-- From the label `err_do_poll` on. -/
def errDoPoll (state : ListWait Handle) :
    ListWait Handle := { state with listEvent := false, pc := .idle }

/-- The call of `_hlist_finish_wait_locked` for the whole list. -/
def startFinish (state : ListWait Handle) : Option (ListWait Handle) := do
  let first ← state.links.next .head
  some { state with pc := .finish first }

/-- Behind a call of `_hlist_do_poll_locked`, the first or one in the loop. -/
def afterPoll (prepare : Bool) (state : ListWait Handle) : Option (ListWait Handle) :=
  if prepare then
    if state.ret < 0 then some (errDoPoll state)
    else if state.ret = 0 then some { state with pc := .sleep }
    else some { state with pc := .found }
  else if state.ret = 0 then some { state with pc := .sleep }
  else startFinish state

/-- `_hlist_do_poll_locked` up to its loop. -/
def startPoll (prepare : Bool) (state : ListWait Handle) : Option (ListWait Handle) :=
  if state.links.isEmpty .head then
    afterPoll prepare { state with ret := errNotFound, history := .empty :: state.history }
  else do
    let first ← state.links.next .head
    some { state with pc := .scan prepare first none }

/-- `_hlist_do_poll_locked` behind its loop. -/
def endPoll (prepare : Bool) (lastPrep : Option Handle) (state : ListWait Handle) :
    Option (ListWait Handle) :=
  match lastPrep with
  | some last =>
    if state.ret ≠ 0 ∧ prepare then do
      -- need to undo prepare
      let first ← state.links.next .head
      some { state with pc := .undo first last }
    else afterPoll prepare state
  | none => afterPoll prepare state

/-- `handle_list_wait` up to the first loop. -/
def handleListWait (state : ListWait Handle) : Option (ListWait Handle) :=
  startPoll true
    { state with
      signaled := false, eventPtr := 0, handlePtr := none, listEvent := true, history := [] }

/-- One step of the waiter.  The answer is what a poll returns, and `junk` what is
found in the variable `ret` of `_hlist_do_poll_locked` if nothing was stored there:
only the calls that prepare the handles give it a value before a handle is ready. -/
def waiterStep (answer : Nat) (junk : Int) (state : ListWait Handle) : Option (ListWait Handle) :=
  match state.pc with
  | .idle | .crashed => none
  | .scan true .head lastPrep => endPoll true lastPrep state
  | .scan false .head lastPrep =>
    endPoll false lastPrep { state with
      ret := junk, history := .indeterminate junk :: state.history }
  | .scan prepare (.node next) lastPrep =>
    if prepare then
      let (ret, state) := prepareWaitHandle .list next state
      if ret ≠ 0 then
        endPoll prepare lastPrep { state with
          ret := ret, history := .refused next :: state.history }
      else some { state with ret := ret, pc := .ask prepare next }
    else some { state with pc := .ask prepare next }
  | .ask prepare next =>
    let state := { state with history := .polled next answer :: state.history }
    let lastPrep := if prepare then some next else none
    if answer ≠ 0 then
      endPoll prepare lastPrep { state with eventPtr := answer, handlePtr := some next, ret := 1 }
    else do
      let cursor ← state.links.next (.node next)
      some { state with pc := .scan prepare cursor lastPrep }
  | .undo .head _ => afterPoll true state
  | .undo (.node handle) last =>
    let state := finishWaitHandle handle state
    if handle = last then afterPoll true state
    else do
      let cursor ← state.links.next (.node handle)
      some { state with pc := .undo cursor last }
  | .sleep =>
    -- the event clears itself when it wakes a thread
    if state.signaled then some { state with signaled := false, ret := 0, pc := .relock } else none
  | .relock =>
    if state.other ≠ .away then none
    else if state.ret < 0 then startFinish state
    else startPoll false state
  | .finish .head => some { state with pc := .found }
  | .finish (.node handle) =>
    let state := finishWaitHandle handle state
    do
      let cursor ← state.links.next (.node handle)
      some { state with pc := .finish cursor }
  | .found =>
    if state.ret = 1 then
      match state.handlePtr with
      | none => some { state with pc := .crashed }
      | some handle => do
        -- move list head after item we just found
        let links ← state.links.delete .head
        let links ← links.addHead (.node handle) .head
        some (errDoPoll { state with links := links, ret := 0 })
    else some (errDoPoll state)

/-! ### The other threads -/

def unlocked (state : ListWait Handle) : Bool := !state.pc.holdsLock && decide (state.other = .away)

/-- `list_delete` at the head of `_handle_list_del_locked`. -/
def unlink (all : Bool) (handle : Handle) (state : ListWait Handle) : Option (ListWait Handle) := do
  let links ← state.links.delete (.node handle)
  some { state with links := links, other := .unlinked all handle }

def otherStep (answer : Nat) (state : ListWait Handle) : Option (ListWait Handle) :=
  match state.other with
  | .away => none
  | .added handle =>
    if state.listEvent then
      -- somebody is waiting on list
      some { (prepareWaitHandle .list handle state).2 with other := .addPoll handle }
    else some { state with other := .away }
  | .addPoll handle =>
    if answer ≠ 0 then some { state with other := .addNotify handle }
    else some { state with other := .away }
  | .addNotify handle => some { handleNotify handle state with other := .away }
  | .unlinked all handle =>
    if state.listEvent then some { finishWaitHandle handle state with other := .cleared all }
    else some { state with other := if all then .deleteAll else .away }
  | .cleared all =>
    -- wakeup waiter if list is now empty
    some { state with
      signaled := state.links.isEmpty .head || state.signaled
      other := if all then .deleteAll else .away }
  | .deleteAll =>
    match state.links.next .head with
    | none => none
    | some .head => some { state with other := .away }
    | some (.node handle) => unlink true handle state

inductive Action (Handle : Type) where
  | call
  | waiter (answer : Nat) (junk : Int)
  | timeOut
  | add (handle : Handle)
  | delete (handle : Handle)
  | deleteAll
  | other (answer : Nat)
  | notify (handle : Handle)
  | singlePrepare (handle : Handle)
  | singleFinish (handle : Handle)

/-- The lists are changed as their assertions ask for: a handle is added that is in no
list, and removed from the list it is in. -/
def step (action : Action Handle) (state : ListWait Handle) : Option (ListWait Handle) :=
  match action with
  | .call => if state.pc = .idle ∧ state.unlocked then handleListWait state else none
  | .waiter answer junk => waiterStep answer junk state
  | .timeOut =>
    if state.pc = .sleep then
      some { state with ret := errTimedOut, history := .timedOut :: state.history, pc := .relock }
    else none
  | .add handle =>
    if state.unlocked ∧ state.links.next (.node handle) = none then do
      let links ← state.links.addTail .head (.node handle)
      some { state with links := links, other := .added handle }
    else none
  | .delete handle =>
    if state.unlocked ∧ state.links.next (.node handle) ≠ none then
      unlink false handle state else none
  | .deleteAll => if state.unlocked then some { state with other := .deleteAll } else none
  | .other answer => otherStep answer state
  | .notify handle => some (handleNotify handle state)
  | .singlePrepare handle => some (prepareWaitHandle .single handle state).2
  | .singleFinish handle => some (finishWaitHandle handle state)

def init : ListWait Handle where
  links :=
    ⟨fun node => if node = .head then some .head else none, fun node =>
      if node = .head then some .head else none⟩
  listEvent := false
  waitEvent := fun _ => none
  signaled := false
  pc := .idle
  ret := 0
  handlePtr := none
  eventPtr := 0
  history := []
  other := .away

def run : List (Action Handle) → ListWait Handle → Option (ListWait Handle)
  | [], state => some state
  | action :: actions, state => (step action state).bind (run actions)

end ListWait

end Trusty.Ipc
