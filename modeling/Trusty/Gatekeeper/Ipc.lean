import Trusty.Keymaster.Server

/-!
The messages on a channel of the gatekeeper (`gatekeeper_ipc.cpp`).

The result of `handle_request` is tested for being negative.  Gatekeeper errors are
positive, so a request that failed is answered with what it left in the buffer.
-/

namespace Trusty.Gatekeeper

open Kernel Keymaster

def errNotSupported : Int := -24
def errBadLen : Int := -32

def gatekeeperMaxBufferLength : Nat := 1024
def gkRespBit : BitVec 32 := 1
def gkEnroll : BitVec 32 := 0 <<< 1
def gkVerify : BitVec 32 := 1 <<< 1

/-- What the gatekeeper interface fixes.  `ERROR_NONE` is 0. -/
structure Interface where
  errorInvalid : Int
  errorUnknown : Int
  invalid_pos : 0 < errorInvalid
  unknown_pos : 0 < errorUnknown
  /-- The bytes of a message that has only an error. -/
  serialize : Int → List Byte
  errorField : List Byte → Option Int
  errorField_nil : errorField [] = none

/-- The answers to the calls that are made for one message. -/
structure Answers where
  getMsg : Int
  readMsg : Int
  cmd : BitVec 32
  openSession : Int
  deserialize : Int
  /-- `out_buf` has the size of the response.  These are its bytes after `Serialize`. -/
  outBuf : List Byte
  allocated : Bool
  serialized : Nat
  errorAllocated : Bool
  sendMsg : Int

inductive Effect where
  | send (cmd : BitVec 32) (payload : List Byte)
  | putMsg
  | close
deriving DecidableEq

section Handlers

variable (interface : Interface)

def tipcErrToGatekeeperErr (tipcErr : Int) : Int :=
  if tipcErr = 0 then 0
  else if tipcErr ∈ [errBadLen, errNotValid, errNotImplemented, errNotSupported] then
    interface.errorInvalid
  else interface.errorUnknown

section

variable (answers : Answers)

/-- The result, and `out_buf` up to `out_size`. -/
def execCmd : Int × List Byte :=
  if answers.openSession ≠ 0 then (tipcErrToGatekeeperErr interface answers.openSession, [])
  else if answers.deserialize ≠ 0 then (interface.errorInvalid, [])
  else if gatekeeperMaxBufferLength < answers.outBuf.length then (interface.errorUnknown, [])
  else if answers.allocated = false then (interface.errorUnknown, [])
  else if answers.serialized ≠ answers.outBuf.length then (interface.errorUnknown, answers.outBuf)
  else (0, answers.outBuf)

def handleRequest : Int × List Byte :=
  if answers.cmd = gkEnroll ∨ answers.cmd = gkVerify then execCmd interface answers
  else (interface.errorInvalid, [])

def sendResponse (payload : List Byte) : Int × List Effect :=
  if answers.sendMsg < 0 then (tipcErrToGatekeeperErr interface answers.sendMsg, [])
  else (0, [.send (answers.cmd ||| gkRespBit) payload])

def sendErrorResponse (error : Int) : Int × List Effect :=
  if answers.errorAllocated then sendResponse interface answers (interface.serialize error)
  else (interface.errorUnknown, [])

def handleMsg : Int × List Effect :=
  if answers.getMsg = errNoMsg then (0, [])
  else if answers.getMsg ≠ 0 then (answers.getMsg, [])
  else if answers.readMsg < 0 then (answers.readMsg, [.putMsg])
  else if answers.readMsg < 4 then (interface.errorInvalid, [.putMsg])
  else
    let (rc, outBuf) := handleRequest interface answers
    let (rc, effects) := if rc < 0 then
        sendErrorResponse interface answers (tipcErrToGatekeeperErr interface rc)
      else sendResponse interface answers outBuf
    (rc, effects ++ [.putMsg])

end

structure ChanEvent where
  error : Bool
  ready : Bool
  msg : Bool
  hup : Bool
  answers : Answers

/-- There is no result when the application aborts. -/
def gatekeeperHandleChannel (event : ChanEvent) : Option (List Effect) :=
  if event.error || event.ready then none
  else
    let (rc, effects) := if event.msg then handleMsg interface event.answers else (0, [])
    some (effects ++ (if rc ≠ 0 then [.close] else []) ++ if event.hup then [.close] else [])

/-! ### Failed requests -/

/-- A message was got from the channel and a step of its handling failed. -/
def ChanEvent.Failed (event : ChanEvent) : Prop :=
  let answers := event.answers
  event.msg = true ∧ answers.getMsg = 0 ∧
    (answers.readMsg < 4 ∨ ¬ (answers.cmd = gkEnroll ∨ answers.cmd = gkVerify) ∨
      answers.openSession ≠ 0 ∨ answers.deserialize ≠ 0 ∨
      gatekeeperMaxBufferLength < answers.outBuf.length ∨
      answers.allocated = false ∨ answers.serialized ≠ answers.outBuf.length)

def ShowsError (payload : List Byte) : Prop :=
  ∃ error, interface.errorField payload = some error ∧ error ≠ 0

/-- The client gets an error, or its channel is closed, and it gets nothing else. -/
def FailureReported (event : ChanEvent) : Prop :=
  event.Failed → ∀ effects, gatekeeperHandleChannel interface event = some effects →
    ((∃ cmd payload, .send cmd payload ∈ effects) ∨ .close ∈ effects) ∧
      ∀ cmd payload, .send cmd payload ∈ effects → ShowsError interface payload

/-- The request gets as far as its serialisation, which leaves an error in the
first bytes of the buffer. -/
structure LeavesError (answers : Answers) : Prop where
  known : answers.cmd = gkEnroll ∨ answers.cmd = gkVerify
  opened : answers.openSession = 0
  parsed : answers.deserialize = 0
  fits : answers.outBuf.length ≤ gatekeeperMaxBufferLength
  allocated : answers.allocated = true
  shows : ShowsError interface answers.outBuf

variable {interface} {answers : Answers}

theorem tipcErrToGatekeeperErr_pos {tipcErr : Int} (failed : tipcErr ≠ 0) :
    0 < tipcErrToGatekeeperErr interface tipcErr := by
  rw [tipcErrToGatekeeperErr, if_neg failed]
  split
  · exact interface.invalid_pos
  · exact interface.unknown_pos

theorem handleRequest_nonneg : 0 ≤ (handleRequest interface answers).1 := by
  have invalid := interface.invalid_pos.le
  have unknown := interface.unknown_pos.le
  unfold handleRequest execCmd
  split_ifs with known closed
  case pos => exact (tipcErrToGatekeeperErr_pos closed).le
  all_goals first | exact invalid | exact unknown | exact le_rfl

theorem not_showsError_nil : ¬ ShowsError interface [] := by
  rintro ⟨error, found, _⟩
  rw [interface.errorField_nil] at found
  cases found

theorem showsError_handleRequest :
    ShowsError interface (handleRequest interface answers).2 ↔ LeavesError interface answers := by
  constructor
  · intro shows
    unfold handleRequest execCmd at shows
    split_ifs at shows with known closed unparsed large missing
    all_goals first
      | exact absurd shows not_showsError_nil
      | exact ⟨known, not_not.mp closed, not_not.mp unparsed,
        not_lt.mp large, by simpa using missing, shows⟩
  · rintro ⟨known, opened, parsed, fits, allocated, shows⟩
    rw [handleRequest, if_pos known, execCmd, if_neg (not_not.mpr opened),
      if_neg (not_not.mpr parsed), if_neg (not_lt.mpr fits), if_neg (by simp [allocated])]
    split <;> exact shows

theorem handleMsg_eq (got : answers.getMsg = 0) (long : 4 ≤ answers.readMsg) :
    handleMsg interface answers =
      ((sendResponse interface answers (handleRequest interface answers).2).1,
        (sendResponse interface answers (handleRequest interface answers).2).2 ++ [.putMsg]) := by
  have message : answers.getMsg ≠ errNoMsg := by
    rw [got]
    decide
  have read : ¬ answers.readMsg < 0 := by omega
  rw [handleMsg, if_neg message, if_neg (not_not.mpr got), if_neg read, if_neg (not_lt.mpr long)]
  simp only [if_neg (not_lt.mpr handleRequest_nonneg)]

/-- A message that is too short, and a response that cannot be sent, close the channel. -/
theorem handleMsg_closes (got : answers.getMsg = 0)
    (closes : answers.readMsg < 4 ∨ answers.sendMsg < 0) :
    (handleMsg interface answers).1 ≠ 0 ∧ (handleMsg interface answers).2 = [.putMsg] := by
  rcases lt_or_ge answers.readMsg 4 with short | long
  · have message : answers.getMsg ≠ errNoMsg := by
      rw [got]
      decide
    rw [handleMsg, if_neg message, if_neg (not_not.mpr got), if_pos short]
    split
    case isTrue failed => exact ⟨failed.ne, rfl⟩
    case isFalse => exact ⟨interface.invalid_pos.ne', rfl⟩
  · have failed := closes.resolve_left (not_lt.mpr long)
    rw [handleMsg_eq got long, sendResponse, if_pos failed]
    exact ⟨(tipcErrToGatekeeperErr_pos failed.ne).ne', rfl⟩

end Handlers

/-- A failed request is reported exactly when the message is too short, the
response cannot be sent, or the bytes of the response show an error after all. -/
theorem failureReported_iff (interface : Interface) (event : ChanEvent) :
    FailureReported interface event ↔ (event.Failed → event.error = false → event.ready = false →
      (event.answers.readMsg < 4 ∨ event.answers.sendMsg < 0) ∨
      LeavesError interface event.answers) := by
  refine forall_congr' fun failed => ?_
  obtain ⟨message, got, _⟩ := failed
  cases live : event.error || event.ready with
  | true =>
    refine iff_of_true (fun effects done => ?_) fun noError notReady => ?_
    · rw [gatekeeperHandleChannel, live] at done
      cases done
    · rw [noError, notReady] at live
      cases live
  | false =>
    obtain ⟨noError, notReady⟩ := Bool.or_eq_false_iff.mp live
    have result :
      gatekeeperHandleChannel interface event = some ((handleMsg interface event.answers).2 ++
        (if (handleMsg interface event.answers).1 ≠ 0 then [.close] else []) ++
          if event.hup then [.close] else []) := by
      simp [gatekeeperHandleChannel, live, message]
    simp only [result, noError, notReady, Option.some.injEq, forall_eq', true_implies]
    by_cases closes : event.answers.readMsg < 4 ∨ event.answers.sendMsg < 0
    · obtain ⟨nonzero, effects⟩ := @handleMsg_closes interface _ got closes
      refine iff_of_true ?_ (.inl closes)
      rw [effects, if_pos nonzero]
      cases event.hup <;> simp
    · obtain ⟨long, sent⟩ := not_or.mp closes
      rw [handleMsg_eq got (not_lt.mp long), sendResponse, if_neg sent, or_iff_right closes,
        ← showsError_handleRequest]
      cases event.hup <;> simp

/-- An unknown command is answered with an empty message. -/
theorem unknown_command_answered :
    let interface : Interface :=
      ⟨1, 3, by decide, by decide, fun error => bytes32 (.ofInt 32 error),
      fun payload => if payload.length < 4 then none else some (word32 payload).toNat, rfl⟩
    let event : ChanEvent := ⟨false, false, true, false, ⟨0, 4, 4, 0, 0, [], true, 0, true, 4⟩⟩
    event.Failed ∧ gatekeeperHandleChannel interface event = some [.send 5 [], .putMsg] ∧
      ¬ FailureReported interface event := by
  have failed :
      ChanEvent.Failed ⟨false, false, true, false, ⟨0, 4, 4, 0, 0, [], true, 0, true, 4⟩⟩ :=
    ⟨rfl, rfl, .inr (.inl (by decide))⟩
  refine ⟨failed, rfl, fun reported => ?_⟩
  exact not_showsError_nil ((reported failed _ rfl).2 5 [] (by decide))

end Trusty.Gatekeeper
