import Trusty.Kernel.Vmm

/-!
The services `kmgetboot` and `mtktimer` on one connection.

Both message functions return what `ipc_send_msg` returns for the reply, which
is the number of bytes sent, and both handlers close the channel when that is
not zero.
-/

namespace Trusty.Kernel.ChanServices

def errNotSupported : Int := -24
def errBadLen : Int := -32

/-- The answers of the IPC layer to a message function, the command of the
request that was read, and what the service reads from the hardware. -/
structure MsgAnswers (α : Type) where
  getMsg : Int
  len : Nat
  readMsg : Int
  cmd : BitVec 32
  hardware : α
  /-- The error of `ipc_send_msg`, which else returns the number of bytes sent. -/
  sendError : Option Int

inductive ChanEffect (ρ : Type) where
  | putMsg
  | reply (message : ρ)
  | close
deriving DecidableEq

def ipcSendMsg {α ρ : Type} (answers : MsgAnswers α) (message : ρ) (size : Nat) :
    Int × List (ChanEffect ρ) :=
  match answers.sendError with
  | some code => (code, [])
  | none => (size, [.reply message])

/-! ### kmgetboot -/

structure BootParam where
  osVersion : BitVec 32
  osPatchlevel : BitVec 32
  deviceLocked : BitVec 32
  verifiedBootState : BitVec 32
  verifiedBootKey : List (BitVec 32)
deriving DecidableEq

/-- The size of `struct kmgetboot_msg`. -/
def kmgetbootMsgSize : Nat := 4

def bootParamSize : Nat := 48

/-- The registers that the three calls of the monitor return. -/
structure BootSmc where
  keyLow : Fin 4 → BitVec 32
  keyHigh : Fin 4 → BitVec 32
  state : Fin 4 → BitVec 32

def verifiedBoot (smc : BootSmc) : BootParam :=
  let month := smc.state 2 &&& 0xF
  let year := (smc.state 2 >>> 4 &&& 0x7F) + 2000
  let versionC := smc.state 2 >>> 11 &&& 0x7F
  let versionB := smc.state 2 >>> 18 &&& 0x7F
  let versionA := smc.state 2 >>> 25 &&& 0x7F
  { osVersion := versionA % 100 * 10000 + versionB % 100 * 100 + versionC % 100
    osPatchlevel := year % 10000 * 100 + month % 100
    deviceLocked := smc.state 0
    verifiedBootState := smc.state 1
    verifiedBootKey := List.ofFn smc.keyLow ++ List.ofFn smc.keyHigh }

def getVerifiedBoot (answers : MsgAnswers BootSmc) :
    Int × List (ChanEffect (BitVec 32 × BootParam)) :=
  ipcSendMsg answers (answers.cmd ||| 0xC0000000, verifiedBoot answers.hardware)
    (kmgetbootMsgSize + bootParamSize)

def kmgetbootChanHandleMsg (answers : MsgAnswers BootSmc) :
    Int × List (ChanEffect (BitVec 32 × BootParam)) :=
  if answers.getMsg ≠ 0 then (answers.getMsg, [])
  else if answers.len < kmgetbootMsgSize then (errBadLen, [.putMsg])
  else if answers.readMsg < 0 then (answers.readMsg, [])
  else if answers.readMsg ≠ answers.len then (errTooBig, [])
  else if answers.cmd = 0 then
    ((getVerifiedBoot answers).1, .putMsg :: (getVerifiedBoot answers).2)
  else (errNotSupported, [.putMsg])

/-! ### mtktimer -/

def mtktimerMsgSize : Nat := 16

/-- The words of the counter are those of the last round of the loop, in which
the high word was read twice and was the same. -/
def getMtktimer (answers : MsgAnswers (BitVec 32 × BitVec 32)) :
    Int × List (ChanEffect (BitVec 32 × BitVec 64)) :=
  let (hi, lo) := answers.hardware
  ipcSendMsg answers (1, ((hi.setWidth 64 <<< 32) ||| lo.setWidth 64) / 32) mtktimerMsgSize

def mtktimerChanHandleMsg (answers : MsgAnswers (BitVec 32 × BitVec 32)) :
    Int × List (ChanEffect (BitVec 32 × BitVec 64)) :=
  if answers.getMsg ≠ 0 then (answers.getMsg, [])
  else if answers.len ≠ mtktimerMsgSize then (errBadLen, [])
  else if answers.readMsg < 0 then (answers.readMsg, [])
  else if answers.readMsg ≠ answers.len then (errTooBig, [])
  else if answers.cmd = 0 then ((getMtktimer answers).1, .putMsg :: (getMtktimer answers).2)
  else (errNotSupported, [.putMsg])

/-! ### A connection -/

structure ChanEvent (α : Type) where
  hup : Bool
  msg : Bool
  answers : MsgAnswers α

section Connection

variable {α ρ : Type}

def chanHandler (handleMsg : MsgAnswers α → Int × List (ChanEffect ρ)) (event : ChanEvent α) :
    List (ChanEffect ρ) :=
  if event.hup then [.close]
  else if event.msg then
    let (rc, effects) := handleMsg event.answers
    if rc ≠ 0 then effects ++ [.close] else effects
  else []

/-- The events that the service handles and what it does for each; a closed
channel gives no more events. -/
def handled [DecidableEq ρ] (handleMsg : MsgAnswers α → Int × List (ChanEffect ρ)) :
    List (ChanEvent α) → List (ChanEvent α × List (ChanEffect ρ))
  | [] => []
  | event :: events =>
    let effects := chanHandler handleMsg event
    (event, effects) :: if .close ∈ effects then [] else handled handleMsg events

/-- A request of an accepted length with the one supported command, for which
no call of the IPC layer fails. -/
structure Answerable (accepts : Nat → Prop) (answers : MsgAnswers α) : Prop where
  got : answers.getMsg = 0
  accepted : accepts answers.len
  whole : answers.readMsg = answers.len
  supported : answers.cmd = 0
  sent : answers.sendError = none

def ChanEvent.Request (accepts : Nat → Prop) (event : ChanEvent α) : Prop :=
  event.hup = false ∧ event.msg = true ∧ Answerable accepts event.answers

/-- A hang-up, a malformed or unsupported request or a failed call. -/
def ChanEvent.MayClose (accepts : Nat → Prop) (event : ChanEvent α) : Prop :=
  event.hup = true ∨ event.msg = true ∧ ¬ Answerable accepts event.answers

def ChanEffect.isReply : ChanEffect ρ → Bool
  | reply _ => true
  | _ => false

/-- Each request is answered once and the connection stays open; it is closed
only for a reason, and once. -/
def Serves [DecidableEq ρ] (accepts : Nat → Prop)
    (handleMsg : MsgAnswers α → Int × List (ChanEffect ρ)) (events : List (ChanEvent α)) : Prop :=
  ∀ step ∈ handled handleMsg events,
    (step.1.Request accepts → step.2.countP ChanEffect.isReply = 1 ∧ .close ∉ step.2) ∧
    (.close ∈ step.2 → step.1.MayClose accepts ∧ step.2.count .close = 1)

variable {handleMsg : MsgAnswers α → Int × List (ChanEffect ρ)}

theorem handled_eq [DecidableEq ρ] {events : List (ChanEvent α)}
    {step : ChanEvent α × List (ChanEffect ρ)} (mem : step ∈ handled handleMsg events) :
    step.2 = chanHandler handleMsg step.1 := by
  induction events with
  | nil => cases mem
  | cons event events ih =>
    rcases List.mem_cons.mp mem with rfl | later
    · rfl
    · split at later
      · cases later
      · exact ih later

/-- A service whose message function returns a non-zero result for a request
that it has answered works only as long as there is no request. -/
theorem serves_iff [DecidableEq ρ] {accepts : Nat → Prop}
    (nonzero : ∀ answers, Answerable accepts answers → (handleMsg answers).1 ≠ 0)
    (open_ : ∀ answers, .close ∉ (handleMsg answers).2) (events : List (ChanEvent α)) :
    Serves accepts handleMsg events ↔
    ∀ step ∈ handled handleMsg events, ¬ step.1.Request accepts := by
  constructor
  · intro serves step mem request
    obtain ⟨_, stays⟩ := (serves step mem).1 request
    obtain ⟨live, message, answerable⟩ := request
    apply stays
    rw [handled_eq mem, chanHandler, live, message]
    simp [nonzero _ answerable]
  · intro none step mem
    refine ⟨fun request => absurd request (none step mem), ?_⟩
    rw [handled_eq mem, chanHandler]
    intro closes
    cases hup : step.1.hup with
    | true => exact ⟨.inl hup, by simp⟩
    | false =>
      cases msg : step.1.msg with
      | false => simp [hup, msg] at closes
      | true =>
        simp only [hup, msg, Bool.false_eq_true, if_false, if_true] at closes ⊢
        split at closes
        case isTrue failed =>
          refine ⟨.inr ⟨msg, fun answerable => none step mem ⟨hup, msg, answerable⟩⟩, ?_⟩
          rw [if_pos failed, List.count_append, List.count_eq_zero_of_not_mem (open_ _)]
          simp
        case isFalse => exact absurd closes (open_ _)

end Connection

theorem ipcSendMsg_open {α ρ : Type} (answers : MsgAnswers α) (message : ρ) (size : Nat) :
    .close ∉ (ipcSendMsg answers message size).2 := by
  unfold ipcSendMsg
  split <;> simp

theorem kmgetboot_nonzero {answers : MsgAnswers BootSmc}
    (answerable : Answerable (kmgetbootMsgSize ≤ ·) answers) :
    (kmgetbootChanHandleMsg answers).1 ≠ 0 := by
  obtain ⟨got, accepted, whole, supported, sent⟩ := answerable
  rw [kmgetbootChanHandleMsg, if_neg (not_not.mpr got), if_neg (Nat.not_lt.mpr accepted),
    if_neg (by omega), if_neg (not_not.mpr whole), if_pos supported]
  simp [getVerifiedBoot, ipcSendMsg, sent, kmgetbootMsgSize, bootParamSize]

theorem mtktimer_nonzero {answers : MsgAnswers (BitVec 32 × BitVec 32)}
    (answerable : Answerable (· = mtktimerMsgSize) answers) :
    (mtktimerChanHandleMsg answers).1 ≠ 0 := by
  obtain ⟨got, accepted, whole, supported, sent⟩ := answerable
  rw [mtktimerChanHandleMsg, if_neg (not_not.mpr got), if_neg (not_not.mpr accepted),
    if_neg (by omega), if_neg (not_not.mpr whole), if_pos supported]
  simp [getMtktimer, ipcSendMsg, sent, mtktimerMsgSize]

theorem kmgetboot_open (answers : MsgAnswers BootSmc) :
    .close ∉ (kmgetbootChanHandleMsg answers).2 := by
  unfold kmgetbootChanHandleMsg
  split_ifs <;> simp [getVerifiedBoot, ipcSendMsg_open]

theorem mtktimer_open (answers : MsgAnswers (BitVec 32 × BitVec 32)) :
    .close ∉ (mtktimerChanHandleMsg answers).2 := by
  unfold mtktimerChanHandleMsg
  split_ifs <;> simp [getMtktimer, ipcSendMsg_open]

/-- Both services do what they should exactly as long as they get no request
that they answer. -/
theorem services_answer_iff (boot : List (ChanEvent BootSmc))
    (timer : List (ChanEvent (BitVec 32 × BitVec 32))) :
    (Serves (kmgetbootMsgSize ≤ ·) kmgetbootChanHandleMsg boot ↔
      ∀ step ∈ handled kmgetbootChanHandleMsg boot, ¬ step.1.Request (kmgetbootMsgSize ≤ ·)) ∧
    (Serves (· = mtktimerMsgSize) mtktimerChanHandleMsg timer ↔
      ∀ step ∈ handled mtktimerChanHandleMsg timer, ¬ step.1.Request (· = mtktimerMsgSize)) :=
  ⟨serves_iff (fun _ => kmgetboot_nonzero) kmgetboot_open boot,
    serves_iff (fun _ => mtktimer_nonzero) mtktimer_open timer⟩

/-- The first request is answered with 16 bytes, and the channel is closed. -/
theorem mtktimer_closes :
    let request : ChanEvent (BitVec 32 × BitVec 32) := ⟨false, true, 0, 16, 16, 0, (0, 64), none⟩
    request.Request (· = mtktimerMsgSize) ∧
      handled mtktimerChanHandleMsg [request, request] =
      [(request, [.putMsg, .reply (1, 2), .close])] ∧
      ¬ Serves (· = mtktimerMsgSize) mtktimerChanHandleMsg [request, request] := by
  have request : ChanEvent.Request (· = mtktimerMsgSize)
      (⟨false, true, 0, 16, 16, 0, ((0 : BitVec 32), (64 : BitVec 32)), none⟩ : ChanEvent _) :=
    ⟨rfl, rfl, rfl, rfl, rfl, rfl, rfl⟩
  refine ⟨request, rfl, fun serves => ?_⟩
  exact ((serves _ List.mem_cons_self).1 request).2 (by decide)

end Trusty.Kernel.ChanServices
