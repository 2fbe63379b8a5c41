import Trusty.Keymaster.Server

/-!
The messages of a response (`send_response`): a long one is sent in pieces, and the last
piece has the stop bit.
-/

namespace Trusty.Keymaster

open Lib Kernel Dialog List

section Messages

def msgCmd (message : List Byte) : BitVec 32 := word32 (message.take 4)

def msgPayload (message : List Byte) : List Byte := message.drop 4

theorem msgCmd_message (cmd : BitVec 32) (payload : List Byte) :
    msgCmd (bytes32 cmd ++ payload) = cmd :=
  word32_bytes32 cmd

/-- The messages of a whole response. -/
structure WholeResponse (outBuf : List Byte) (sent : List (List Byte)) : Prop where
  payloads : (sent.map msgPayload).flatten = outBuf
  short : ∀ message ∈ sent, (msgPayload message).length ≤ keymasterMaxBufferLength - 64
  answers : ∀ message ∈ sent, msgCmd message &&& keymasterRespBit ≠ 0
  stops : ∃ front last, sent = front ++ [last] ∧ msgCmd last &&& keymasterStopBit ≠ 0 ∧
    ∀ message ∈ front, msgCmd message &&& keymasterStopBit = 0

variable {cmd : BitVec 32} {payload outBuf : List Byte} {sent : List (List Byte)}

theorem WholeResponse.last (response : cmd &&& keymasterRespBit ≠ 0)
    (short : payload.length ≤ maxMsgSize) :
    WholeResponse payload [bytes32 (cmd ||| keymasterStopBit) ++ payload] where
  payloads := append_nil payload
  short := forall_mem_singleton.mpr short
  answers := by
    rw [forall_mem_singleton, msgCmd_message, BitVec.and_or_distrib_right]
    exact fun none => response (BitVec.or_eq_zero_iff.mp none).1
  stops := by
    refine ⟨[], _, rfl, ?_, fun _ inside => absurd inside not_mem_nil⟩
    rw [msgCmd_message, BitVec.and_or_distrib_right, BitVec.and_self]
    exact fun none => absurd (BitVec.or_eq_zero_iff.mp none).2 (by decide)

theorem WholeResponse.cons (response : cmd &&& keymasterRespBit ≠ 0)
    (going : cmd &&& keymasterStopBit = 0) (short : payload.length ≤ maxMsgSize)
    (rest : WholeResponse outBuf sent) :
    WholeResponse (payload ++ outBuf) ((bytes32 cmd ++ payload) :: sent) where
  payloads := congrArg (payload ++ ·) rest.payloads
  short := forall_mem_cons.mpr ⟨short, rest.short⟩
  answers := forall_mem_cons.mpr ⟨by rwa [msgCmd_message], rest.answers⟩
  stops := by
    obtain ⟨front, last, split, stop, before⟩ := rest.stops
    exact ⟨_ :: front, last, congrArg (_ :: ·) split, stop,
      forall_mem_cons.mpr ⟨by rwa [msgCmd_message], before⟩⟩

end Messages

section Channel

variable {arch : Arch}

/-- The server's end of a channel. -/
structure Line where
  /-- the messages that were put on it -/
  sent : List (List Byte)
  /-- The last wait ended with room for a message. -/
  room : Bool
  /-- A call failed other than for a full queue, or a wait ended without room. -/
  trouble : Bool

namespace Line

def empty : Line := ⟨[], false, false⟩

def tried (line : Line) (message : List Byte) (rc : Int) : Line :=
  if rc < 0 then ⟨line.sent, false, line.trouble || line.room || rc ≠ errNotEnoughBuffer⟩
  else ⟨line.sent ++ [message], false, line.trouble⟩

def waited (line : Line) (answer : Int × BitVec 32) : Line :=
  let room : Bool := 0 ≤ answer.1 ∧ answer.2 &&& ipcHandlePollSendUnblocked ≠ 0
  ⟨line.sent, room, line.trouble || !room⟩

end Line

/-- A wait for the channel ends with the peer gone, a message or room for one: the other
events of `chan_poll` are for the client's end and for a channel that is not set up. -/
def serverChannel (arch : Arch) : Env (ServerOp arch) ServerOp.Ans Line where
  allowed _ _ := True
  answers line op :=
    match op with
    | .sendMsg message => fun rc after => after = line.tried message rc
    | .wait => fun (answer : Int × BitVec 32) after => after = line.waited answer ∧
      (0 ≤ answer.1 →
        answer.2 &&& (ipcHandlePollSendUnblocked ||| (ipcHandlePollMsg ||| ipcHandlePollHup)) ≠ 0)
    | _ => fun _ after => after = line

variable {line : Line} {cmd : BitVec 32}

/-- A message is on the channel, or there was trouble. -/
def SentUnless (line : Line) (message : List Byte) (rc : Int) (after : Line) : Prop :=
  (rc < 0 ∧ after.sent = line.sent ∧ after.trouble = true) ∨
    (0 ≤ rc ∧ after.sent = line.sent ++ [message])

theorem Line.sentUnless_tried {rc : Int} (message : List Byte)
    (last : line.room = true ∨ rc ≠ errNotEnoughBuffer) :
    SentUnless line message rc (line.tried message rc) := by
  unfold tried
  split
  case isTrue failed => exact .inl ⟨failed, rfl, by simpa [or_assoc] using .inr last⟩
  case isFalse done => exact .inr ⟨Int.not_lt.mp done, rfl⟩

/-- A wake-up without room is an error as well. -/
theorem serverChannel_waitToSend (message : List Byte) :
    ensures (serverChannel arch) (waitToSend message) line (SentUnless line message) := by
  simp only [waitToSend, ensures_bind, Ask.ensures_wait]
  refine ⟨trivial, ?_⟩
  rintro ⟨rc, event⟩ _ ⟨rfl, events⟩
  have trouble (no : ¬ (0 ≤ rc ∧ event &&& ipcHandlePollSendUnblocked ≠ 0)) {code : Int}
    (negative : code < 0) :
      SentUnless line message code (line.waited (rc, event)) :=
    .inl ⟨negative, rfl, by simp only [Line.waited, no, decide_false, Bool.not_false, Bool.or_true]⟩
  simp only [ensures_ite, ensures_pure, Ask.ensures_sendMsg]
  refine ⟨fun failed => trouble (by omega) failed, fun waited =>
    ⟨fun free => ⟨trivial, ?_⟩, fun full => ?_⟩⟩
  · rintro rc _ rfl
    exact Line.sentUnless_tried message (.inl (decide_eq_true ⟨Int.not_lt.mp waited, free⟩))
  have none {code : Int} := @trouble (fun room => full room.2) code
  refine ⟨fun _ => none (by decide), fun noMsg => ⟨fun _ => none (by decide), fun noHup => ?_⟩⟩
  refine absurd ?_ (events (Int.not_lt.mp waited))
  rw [BitVec.and_or_distrib_left, BitVec.and_or_distrib_left, not_not.mp full, not_not.mp noMsg,
    not_not.mp noHup]
  rfl

theorem serverChannel_sendChunk (message : List Byte) :
    ensures (serverChannel arch) (sendChunk message) line (SentUnless line message) := by
  simp only [sendChunk, ensures_bind, Ask.ensures_sendMsg]
  refine ⟨trivial, ?_⟩
  rintro (rc : Int) _ rfl
  simp only [ensures_ite, ensures_pure]
  refine ⟨fun full => ?_, fun other => Line.sentUnless_tried message (.inr other)⟩
  subst full
  exact serverChannel_waitToSend message

/-- What `send_response` leaves on the channel. -/
def Responded (outBuf : List Byte) (line : Line) (rc : Int) (after : Line) : Prop :=
  ∃ more, after.sent = line.sent ++ more ∧ ((rc = noError ∧ WholeResponse outBuf more) ∨
    (rc < 0 ∧ after.trouble = true ∧ ∀ message ∈ more, msgCmd message &&& keymasterStopBit = 0))

theorem serverChannel_sendChunks (response : cmd &&& keymasterRespBit ≠ 0) {rest : List Byte}
    (going : cmd &&& keymasterStopBit = 0 ∨ rest.length ≤ maxMsgSize) :
    ensures (serverChannel arch) (sendChunks cmd rest) line (Responded rest line) := by
  have failure {rest : List Byte} {line after : Line} {rc : Int} (failed : rc < 0)
    (same : after.sent = line.sent)
      (trouble : after.trouble = true) : Responded rest line rc after :=
    ⟨[], by rw [same, append_nil],
      .inr ⟨failed, trouble, fun _ inside => absurd inside not_mem_nil⟩⟩
  induction rest using sendChunks.induct generalizing line with
  | case1 rest short =>
    rw [sendChunks, if_pos short]
    simp only [ensures_bind, ensures_pure]
    refine ensures_mono (serverChannel_sendChunk _) ?_
    rintro rc after (⟨failed, same, trouble⟩ | ⟨done, sent⟩)
    · rw [if_pos failed]
      exact failure failed same trouble
    · rw [if_neg (Int.not_lt.mpr done)]
      exact ⟨_, sent, .inl ⟨rfl, .last response short⟩⟩
  | case2 rest long ih =>
    rw [sendChunks, if_neg long]
    simp only [ensures_bind]
    have noStop := going.resolve_right long
    refine ensures_mono (serverChannel_sendChunk _) ?_
    rintro rc after (⟨failed, same, trouble⟩ | ⟨done, sent⟩)
    · rw [if_pos failed, ensures_pure]
      exact failure failed same trouble
    rw [if_neg (Int.not_lt.mpr done)]
    refine ensures_mono (ih (.inl noStop)) ?_
    rintro rc final ⟨more, grown, outcome⟩
    refine ⟨_ :: more, by rw [grown, sent, append_assoc]; rfl, ?_⟩
    obtain ⟨ok, whole⟩ | ⟨failed, trouble, before⟩ := outcome
    · have joined := whole.cons response noStop (length_take_le maxMsgSize rest)
      rw [take_append_drop] at joined
      exact .inl ⟨ok, joined⟩
    · exact .inr ⟨failed, trouble, forall_mem_cons.mpr ⟨by rwa [msgCmd_message], before⟩⟩

theorem serverChannel_sendResponse {outBuf : List Byte}
    (command : cmd &&& keymasterStopBit = 0 ∨ outBuf.length ≤ maxMsgSize) :
    ensures (serverChannel arch) (sendResponse cmd outBuf) line (Responded outBuf line) := by
  apply serverChannel_sendChunks
  · rw [BitVec.and_or_distrib_right, BitVec.and_self]
    exact fun none => absurd (BitVec.or_eq_zero_iff.mp none).2 (by decide)
  · refine command.imp_left fun noStop => ?_
    rw [BitVec.and_or_distrib_right, noStop]
    rfl

/-! ### The secure port -/

/-- A command with the stop bit is none of `enum keymaster_command`. -/
theorem keymasterDispatchSecure_stop (stop : cmd &&& keymasterStopBit ≠ 0) (payloadSize : BitVec 32)
    (msgBuf : arch.Word) :
    keymasterDispatchSecure cmd payloadSize msgBuf = pure (errNotImplemented, []) := by
  have other {command : BitVec 32} (going : command &&& keymasterStopBit = 0) : cmd ≠ command := by
    rintro rfl
    exact stop going
  unfold keymasterDispatchSecure
  rw [if_neg (other rfl), if_neg (other rfl), if_neg (other rfl), if_neg (other rfl)]

/-- The dialog leaves the channel as it is. -/
def Quiet {α : Type} (prog : ServerDialog arch α) : Prop := ∀ line :
    Line, Keeps (serverChannel arch) (· = line) prog

theorem quiet_perform (op : ServerOp arch)
    (same : ∀ line answer after, (serverChannel arch).answers line op answer after → after = line) :
    Quiet (perform op) := by
  rintro _ line rfl
  exact (ensures_perform _ _).mpr ⟨trivial, same line⟩

theorem quiet_errorOut (err : KmError) : Quiet (errorOut err : ServerDialog arch _) := fun line =>
  (quiet_perform (.newOut 4) (fun _ _ _ same => same) line).bind fun created => by
    cases created
    · exact .pure _
    · exact .pure _

theorem quiet_provision {operation : BitVec 32 → List Byte → ServerDialog arch KmError}
    (quiet : ∀ algorithm data, Quiet (operation algorithm data)) (payloadSize : BitVec 32)
    (msgBuf : arch.Word) :
    Quiet (provision operation payloadSize msgBuf) := fun line =>
  have load (offset size : Nat) :=
    quiet_perform (ServerOp.load offset size) (fun _ _ _ same => same) line
  (load 4 4).bind fun _ => (Keeps.ite (.pure _) (load _ _)).bind fun _ =>
    (quiet _ _ line).bind fun err => quiet_errorOut err line

theorem quiet_dispatch (cmd payloadSize : BitVec 32) (msgBuf : arch.Word) :
    Quiet (keymasterDispatchSecure cmd payloadSize msgBuf) := by
  intro line
  unfold keymasterDispatchSecure
  refine .ite ?_ (.ite ?_ (.ite ?_ (.ite ?_ (.pure _))))
  · refine (quiet_perform .getAuthTokenKey (fun _ _ _ same => same) line).bind
      fun (key : Option _) => ?_
    cases key with
    | none => exact .pure _
    | some key =>
      refine .ite (.pure _) ((quiet_perform (.newOut _) (fun _ _ _ same => same) line).bind
        fun (created : Bool) => ?_)
      cases created
      · exact .pure _
      · exact .pure _
  · refine (quiet_perform (.load 4 _) (fun _ _ _ same => same) line).bind fun payload => ?_
    refine (quiet_perform (.setBootParams payload) (fun _ _ _ same => same) line).bind
      fun (err : Option _) => ?_
    cases err with
    | none => exact .pure _
    | some err => exact quiet_errorOut err line
  · exact quiet_provision (fun _ _ => quiet_perform (.setAttestationKey _ _) fun _ _ _ same => same)
      _ _ line
  · exact quiet_provision
      (fun _ _ => quiet_perform (.appendAttestationCertChain _ _) fun _ _ _ same => same) _ _ line

/-- A response is sent as a whole unless there is trouble.  On the secure port a command with
the stop bit is refused, in one message. -/
theorem sendResponse_whole :
    (∀ cmd outBuf, cmd &&& keymasterStopBit = 0 ∨ outBuf.length ≤ maxMsgSize →
      ensures (serverChannel arch) (sendResponse cmd outBuf) .empty (Responded outBuf .empty)) ∧
    ∀ configureError, ensures (serverChannel arch)
    (handleMsg keymasterDispatchSecure configureError) .empty
      fun rc line => line.sent = [] ∨ ∃ outBuf, Responded outBuf .empty rc line := by
  refine ⟨fun _ _ => serverChannel_sendResponse, fun configureError => ?_⟩
  have answered {cmd : BitVec 32} {outBuf : List Byte}
      (command : cmd &&& keymasterStopBit = 0 ∨ outBuf.length ≤ maxMsgSize) :
      ensures (serverChannel arch) (sendResponse cmd outBuf) .empty
        fun rc line => line.sent = [] ∨ ∃ outBuf, Responded outBuf .empty rc line :=
    ensures_mono (serverChannel_sendResponse command) fun _ _ responded => .inr ⟨outBuf, responded⟩
  simp only [handleMsg, ensures_bind, Ask.ensures_getMsg]
  refine ⟨trivial, ?_⟩
  rintro ⟨rc, len⟩ _ rfl
  simp only [ensures_ite, ensures_pure, ensures_bind, Ask.ensures_newMsgBuf]
  refine ⟨fun _ => .inl rfl, fun _ => ⟨fun _ => .inl rfl, fun _ => ⟨trivial, ?_⟩⟩⟩
  rintro (buf : Option arch.Word) _ rfl
  cases buf with
  | none => exact ensures_halt
  | some msgBuf =>
    simp only [ensures_ite, ensures_pure, ensures_bind, Ask.ensures_readMsg]
    refine ⟨trivial, ?_⟩
    rintro (count : Int) _ rfl
    refine ⟨fun _ => .inl rfl, fun _ => ⟨fun _ => .inl rfl, fun _ => ?_⟩⟩
    rw [Ask.ensures_load]
    refine ⟨trivial, ?_⟩
    rintro (header : List Byte) _ rfl
    by_cases stop : word32 header &&& keymasterStopBit = 0
    · refine ensures_mono (quiet_dispatch _ _ msgBuf _ _ rfl) ?_
      rintro ⟨rc, outBuf⟩ _ rfl
      exact ⟨fun _ => answered (.inl stop),
        fun _ => ⟨fun _ => answered (.inl stop), fun _ => answered (.inl stop)⟩⟩
    · rw [keymasterDispatchSecure_stop stop, ensures_pure]
      refine ⟨fun contra => (by cases contra),
        fun _ => ⟨fun _ => answered (.inr (by decide)), fun done => ?_⟩⟩
      exact absurd (by decide) done

/-- A response of two messages, the first of which finds the queue full. -/
theorem sendResponse_whole_long : ∃ front : List Byte, front.length = maxMsgSize ∧
    WholeResponse (front ++ [0]) [bytes32 1 ++ front, bytes32 3 ++ [0]] := by
  obtain ⟨front, length⟩ : ∃ front : List Byte, front.length = maxMsgSize :=
    ⟨replicate _ 0, length_replicate⟩
  have run : Exec (serverChannel arm) (sendResponse kmGetAuthTokenKey (front ++ [0])) .empty
    (.returned noError)
      ⟨[bytes32 1 ++ front, bytes32 3 ++ [0]], false, false⟩ := by
    have long : ¬ (front ++ [0]).length ≤ maxMsgSize := by rw [length_append, length]; decide
    rw [sendResponse, sendChunks, if_neg long, take_left' length, drop_left' length, sendChunks,
      if_pos (by decide)]
    refine @Exec.ask _ _ _ _ _ _ _ _ _ _ errNotEnoughBuffer _ trivial rfl ?_
    refine @Exec.ask _ _ _ _ _ _ _ _ _ _ (noError, ipcHandlePollSendUnblocked) _ trivial
      ⟨rfl, fun _ => by decide⟩ ?_
    refine @Exec.ask _ _ _ _ _ _ _ _ _ _ noError _ trivial rfl ?_
    exact @Exec.ask _ _ _ _ _ _ _ _ _ _ noError _ trivial rfl (.done noError _)
  obtain ⟨more, rfl, ⟨-, whole⟩ | ⟨contra, -⟩⟩ := sendResponse_whole.1 _ _ (.inl rfl) _ _ run
  · exact ⟨front, length, whole⟩
  · cases contra

end Channel

end Trusty.Keymaster
