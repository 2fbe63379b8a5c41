import Trusty.Keymaster.Server

/-!
Delivery of the auth token key: the client library (`keymaster.c`) and the server of the
secure port, with a channel between them that keeps the order.
-/

namespace Trusty.Keymaster

open Lib Kernel Dialog

def errNotFound : Int := -2

def kAuthTokenKeySize : Nat := 32

/-- An auth token key has 32 bytes. -/
abbrev AuthTokenKey := { bytes : List Byte // bytes.length = kAuthTokenKeySize }

/-- The fields of the keymaster context for the auth token key. -/
structure AuthContext where
  authTokenKey : AuthTokenKey
  initialized : Bool

/-- `TrustyKeymasterContext::GetAuthTokenKey`, with what `GenerateRandom` gives. -/
def AuthContext.getAuthTokenKey (context : AuthContext) (random : Option AuthTokenKey) :
    Option AuthTokenKey × AuthContext :=
  if context.initialized then (some context.authTokenKey, context)
  else
    match random with
    | none => (none, context)
    | some key => (some key, ⟨key, true⟩)

theorem AuthContext.getAuthTokenKey_cases (context : AuthContext) (random : Option AuthTokenKey) :
    ((context.initialized = true ∨ random ≠ none) ∧ ∃ after : AuthContext,
      context.getAuthTokenKey random = (some after.authTokenKey, after)) ∨
    (¬ (context.initialized = true ∨ random ≠ none) ∧
      context.getAuthTokenKey random = (none, context)) := by
  unfold getAuthTokenKey
  by_cases initialized : context.initialized = true
  · exact .inl ⟨.inl initialized, context, if_pos initialized⟩
  · rw [if_neg initialized]
    cases random with
    | none => exact .inr ⟨by simp [initialized], rfl⟩
    | some key => exact .inl ⟨.inr (Option.some_ne_none key), ⟨key, true⟩, rfl⟩

/-! ### The server -/

structure ServerGiven (arch : Arch) where
  getMsg : Int
  msgBuf : Option arch.Word
  readMsg : Int
  random : Option AuthTokenKey
  memory : Bool
  send : Int
  wait : Int × BitVec 32
  resend : Int

/-- The context, the messages on the channel to the client, and how often it was sent to. -/
structure ServerState where
  context : AuthContext
  sent : List (List Byte)
  sends : Nat

section Server

variable {arch : Arch}

def request : List Byte := bytes32 kmGetAuthTokenKey

def answer (given : ServerGiven arch) : (op : ServerOp arch) → ServerState → op.Ans × ServerState
  | .getMsg, state => ((given.getMsg, BitVec.ofNat arch.bits request.length), state)
  | .newMsgBuf _, state => (given.msgBuf, state)
  | .readMsg _, state => (given.readMsg, state)
  | .load offset size, state => (((request ++ [0]).drop offset).take size, state)
  | .getAuthTokenKey, state =>
    let (key, context) := state.context.getAuthTokenKey given.random
    (key.map Subtype.val, { state with context := context })
  | .newOut _, state => (given.memory, state)
  | .sendMsg message, state =>
    let rc := if state.sends = 0 then given.send else given.resend
    (rc,
      { state with
        sent := if rc < 0 then state.sent else state.sent ++ [message], sends := state.sends + 1 })
  | .wait, state => (given.wait, state)
  | .setBootParams _, state => (none, state)
  | .setAttestationKey _ _, state => (KmError.unknownError, state)
  | .appendAttestationCertChain _ _, state => (KmError.unknownError, state)

def serve (context : AuthContext) (given : ServerGiven arch) : ServerState :=
  (run (answer given) (handleMsg keymasterDispatchSecure .keymasterNotConfigured)
    ⟨context, [], 0⟩).2

end Server

/-! ### The client -/

/-- What the client finds.  A call that fails returns an error. -/
structure ClientGiven where
  /-- Neither of the pointers for the key and its size is NULL. -/
  pointers : Bool
  sendMsg : Int
  wait : Int
  getMsg : Int
  malloc : Bool
  /-- the error of `read_msg`, if it does not read the message -/
  readMsg : Option Int
  /-- the header if no message was read into it -/
  junk : BitVec 32
  wait_le : wait ≤ noError
  getMsg_le : getMsg ≤ noError
  readMsg_lt : ∀ rc, readMsg = some rc → rc < 0

def sendReq (given : ClientGiven) : Int :=
  if given.sendMsg < 0 then given.sendMsg
  else if given.sendMsg ≠ 4 then errIo
  else noError

/-- `await_response`; without a message there is an error. -/
def awaitResponse (given : ClientGiven) (reply : Option (List Byte)) : Int :=
  if given.wait ≠ noError then given.wait
  else if given.getMsg ≠ noError then given.getMsg
  else if reply = none then errNoMsg
  else noError

/-- `read_response`: what it returns; the data goes into the buffer. -/
def readResponse (given : ClientGiven) (cmd : BitVec 32) (reply : List Byte) : Int :=
  let rc := given.readMsg.getD reply.length
  let header := if given.readMsg = none then word32 (reply.take 4) else given.junk
  if header ≠ cmd ||| keymasterRespBit ||| keymasterStopBit then errNotValid else rc

/-- `keymaster_get_auth_token_key`, with the first message on the channel: what it returns
and the buffer it gives to the caller. -/
def keymasterGetAuthTokenKey (given : ClientGiven) (reply : Option (List Byte)) :
    Int × Option (List Byte) :=
  if ¬ given.pointers then (errNotValid, none)
  else if sendReq given < 0 then (sendReq given, none)
  else if awaitResponse given reply < 0 then (awaitResponse given reply, none)
  else
    let message := reply.getD []
    if message.length ≤ 4 then (errNotFound, none)
    else if ¬ given.malloc then (errNoMemory, none)
    else
      let rc := readResponse given kmGetAuthTokenKey message
      if rc < 0 then (rc, none)
      else if rc ≠ message.length then (errIo, none)
      else (noError, some (message.drop 4))

/-! ### Delivery -/

section Delivery

variable {arch : Arch}

/-- The client and the server together: what the client returns, and the context after
it.  A client whose request is not sent does not look at the channel. -/
def deliver (context : AuthContext) (server : ServerGiven arch) (client : ClientGiven) :
    (Int × Option (List Byte)) × AuthContext :=
  let served := serve context server
  (keymasterGetAuthTokenKey client served.sent.head?, served.context)

/-- The client returns the key of the context, or an error. -/
def Faithful (delivery : (Int × Option (List Byte)) × AuthContext) : Prop :=
  delivery.1 = (noError, some delivery.2.authTokenKey.val) ∨ delivery.1.1 < 0

section

variable (given : ServerGiven arch)

def ServerGiven.Sends : Prop :=
  0 ≤ given.send ∨ (given.send = errNotEnoughBuffer ∧ 0 ≤ given.wait.1 ∧
    given.wait.2 &&& ipcHandlePollSendUnblocked ≠ 0 ∧ 0 ≤ given.resend)

def ServerGiven.Gets : Prop :=
  given.getMsg = noError ∧ given.msgBuf ≠ none ∧ 4 ≤ given.readMsg

def ServerGiven.HasKey (context : AuthContext) : Prop :=
  (context.initialized ∨ given.random ≠ none) ∧ given.memory

end

def ClientGiven.Completes (given : ClientGiven) : Prop :=
  given.pointers ∧ given.sendMsg = 4 ∧ given.wait = noError ∧ given.getMsg = noError ∧
    given.malloc ∧ given.readMsg = none

variable {given : ServerGiven arch} {state : ServerState}

theorem run_sendMsg (message : List Byte) :
    run (answer given) (Ask.sendMsg message) state =
      let rc := if state.sends = 0 then given.send else given.resend
      (some rc,
        ⟨state.context, if rc < 0 then state.sent else state.sent ++ [message], state.sends + 1⟩) :=
        rfl

theorem run_wait : run (answer given) Ask.wait state = (some given.wait, state) := rfl

theorem run_waitToSend (message : List Byte) (again : state.sends ≠ 0) (empty : state.sent = []) :
    (run (answer given) (waitToSend message) state).2.context = state.context ∧
      (run (answer given) (waitToSend message) state).2.sent =
        if 0 ≤ given.wait.1 ∧ given.wait.2 &&& ipcHandlePollSendUnblocked ≠ 0 ∧ 0 ≤ given.resend
        then [message] else [] := by
  simp only [waitToSend, run_bind, run_wait, run_ite, run_pure, run_sendMsg, if_neg again]
  by_cases woken : given.wait.1 < 0
  · rw [if_pos woken, if_neg (by omega)]
    exact ⟨rfl, empty⟩
  have waited : 0 ≤ given.wait.1 := by omega
  by_cases unblocked : given.wait.2 &&& ipcHandlePollSendUnblocked = 0
  · simp only [woken, unblocked, ne_eq, not_true_eq_false, if_false, false_and, and_false]
    split
    · exact ⟨rfl, empty⟩
    · split <;> exact ⟨rfl, empty⟩
  by_cases failed : given.resend < 0
  · have notSent : ¬ 0 ≤ given.resend := by omega
    simp only [woken, unblocked, failed, notSent, empty, ne_eq, not_false_eq_true, and_false,
      if_true, if_false, and_self]
  · have sent : 0 ≤ given.resend := by omega
    simp only [woken, waited, unblocked, failed, sent, empty, ne_eq, not_false_eq_true, and_self,
      if_true, if_false, List.nil_append]

def LeavesOn (given : ServerGiven arch) (context : AuthContext) (message : List Byte)
    (final : ServerState) : Prop :=
  final.context = context ∧ (given.Sends → final.sent = [message]) ∧
    (¬ given.Sends → final.sent = [])

section

variable (context : AuthContext)

theorem run_sendChunk (message : List Byte) :
    LeavesOn given context message (run (answer given) (sendChunk message) ⟨context, [], 0⟩).2 := by
  unfold LeavesOn ServerGiven.Sends
  simp only [sendChunk, run_bind, run_sendMsg, if_true]
  by_cases full : given.send = errNotEnoughBuffer
  · have refused : given.send < 0 := by
      rw [full]
      decide
    simp only [if_pos full, if_pos refused]
    obtain ⟨kept, sent⟩ :=
      @run_waitToSend arch given ⟨context, [], 0 + 1⟩ message Nat.one_ne_zero rfl
    refine ⟨kept, fun sends => ?_, fun fails => ?_⟩
    · rw [sent, if_pos (sends.resolve_left (by omega)).2]
    · rw [sent, if_neg fun woken => fails (.inr ⟨full, woken⟩)]
  · simp only [if_neg full, run_pure]
    by_cases failed : given.send < 0
    · rw [if_pos failed]
      refine ⟨trivial, fun sends => ?_, fun _ => rfl⟩
      obtain sent | ⟨again, _⟩ := sends
      · omega
      · exact absurd again full
    · rw [if_neg failed]
      exact ⟨trivial, fun _ => rfl, fun contra => absurd (.inl (by omega)) contra⟩

theorem run_sendResponse {cmd : BitVec 32} {out : List Byte} (short : out.length ≤ maxMsgSize) :
    LeavesOn given context (bytes32 (cmd ||| keymasterRespBit ||| keymasterStopBit) ++ out)
      (run (answer given) (sendResponse cmd out) ⟨context, [], 0⟩).2 := by
  unfold sendResponse
  rw [sendChunks, if_pos short, run_bind_pure_state]
  exact run_sendChunk context _

theorem run_newOut (size : Nat) :
    run (answer given) (Ask.newOut size) state = (some given.memory, state) := rfl

theorem run_askKey : run (answer given) Ask.getAuthTokenKey ⟨context, [], 0⟩ =
      (some ((context.getAuthTokenKey given.random).1.map Subtype.val),
        ⟨(context.getAuthTokenKey given.random).2, [], 0⟩) := rfl

theorem run_getAuthTokenKey :
    (given.HasKey context ∧ ∃ after :
      AuthContext,
      run (answer given) getAuthTokenKey ⟨context, [], 0⟩ = (some (noError, after.authTokenKey.val),
        ⟨after, [], 0⟩)) ∨
    (¬ given.HasKey context ∧ ∃ rc after, rc < 0 ∧ rc ≠ errNotConfigured ∧
      run (answer given) getAuthTokenKey ⟨context, [], 0⟩ = (some (rc, []), ⟨after, [], 0⟩)) := by
  unfold ServerGiven.HasKey
  simp only [getAuthTokenKey, run_bind, run_askKey]
  obtain ⟨available, after, gotten⟩ | ⟨unavailable, gotten⟩ :=
    context.getAuthTokenKey_cases given.random
  · have short : ¬ keymasterMaxBufferLength < after.authTokenKey.val.length := by
      rw [after.authTokenKey.property]
      decide
    simp only [gotten, Option.map_some, if_neg short, run_bind, run_newOut]
    by_cases memory : given.memory = true
    · left
      exact ⟨⟨available, memory⟩, after, by rw [if_pos memory, run_pure]⟩
    · right
      exact ⟨fun both => memory both.2, errNoMemory,
        after, by decide, by decide, by rw [if_neg memory, run_pure]⟩
  · right
    simp only [gotten, Option.map_none, run_pure]
    exact ⟨fun both => unavailable both.1, errGeneric, context, by decide, by decide, rfl⟩

theorem run_getMsg : run (answer given) Ask.getMsg state =
    (some (given.getMsg, BitVec.ofNat arch.bits request.length), state) := rfl

theorem run_newMsgBuf (size : arch.Word) :
    run (answer given) (Ask.newMsgBuf size) state = (some given.msgBuf, state) := rfl

theorem run_readMsg (len : arch.Word) :
    run (answer given) (Ask.readMsg len) state = (some given.readMsg, state) := rfl

theorem run_header : run (answer given) (Ask.load 0 4) state = (some request, state) := rfl

theorem word32_request : word32 request = kmGetAuthTokenKey := by decide

def replyHeader : List Byte := bytes32 (kmGetAuthTokenKey ||| keymasterRespBit ||| keymasterStopBit)

theorem serve_not_gets (fails : ¬ given.Gets) : (serve context given).sent = [] := by
  unfold serve handleMsg
  simp only [run_bind, run_getMsg, run_ite, run_pure, run_newMsgBuf]
  split
  · rfl
  split
  · rfl
  case isFalse gotten =>
    cases buffer : given.msgBuf with
    | none => rfl
    | some msgBuf =>
      simp only [run_bind, run_readMsg, run_ite, run_pure]
      split
      · rfl
      split
      · rfl
      case isFalse long =>
        refine absurd ⟨not_not.mp gotten, ?_, by omega⟩ fails
        rw [buffer]
        exact Option.some_ne_none _

theorem serve_gets (gets : given.Gets) : serve context given = (run (answer given) (do
      let (rc, outBuf) ← getAuthTokenKey
      if rc = errNotConfigured then sendErrorResponse kmGetAuthTokenKey .keymasterNotConfigured
      else if rc < 0 then sendErrorResponse kmGetAuthTokenKey .unknownError
      else sendResponse kmGetAuthTokenKey outBuf) ⟨context, [], 0⟩).2 := by
  obtain ⟨gotten, buffer, long⟩ := gets
  obtain ⟨msgBuf, buffer⟩ := Option.ne_none_iff_exists'.mp buffer
  have dispatched (size : BitVec 32) :
      keymasterDispatchSecure kmGetAuthTokenKey size msgBuf = getAuthTokenKey :=
    if_pos rfl
  unfold serve handleMsg
  simp only [run_bind, run_getMsg, run_ite, run_newMsgBuf, gotten, buffer, run_readMsg, run_header,
    word32_request, dispatched]
  rw [if_neg (by decide), if_neg (not_not_intro rfl), if_neg (by omega), if_neg (by omega)]

theorem serve_sent (gets : given.Gets) :
    (given.HasKey context ∧ ∃ after, (serve context given).context = after ∧
      LeavesOn given after (replyHeader ++ after.authTokenKey.val) (serve context given)) ∨
    (¬ given.HasKey context ∧ ∃ after,
      LeavesOn given after (replyHeader ++ KmError.unknownError.bytes) (serve context given)) := by
  rw [serve_gets context gets]
  obtain ⟨hasKey, after, gotten⟩ | ⟨noKey, rc, after, failed, other, gotten⟩ :=
    @run_getAuthTokenKey arch given context
  · left
    have short : after.authTokenKey.val.length ≤ maxMsgSize := by
      rw [after.authTokenKey.property]
      decide
    have left := @run_sendResponse arch given after kmGetAuthTokenKey _ short
    simp only [run_bind, gotten]
    exact ⟨hasKey, after, left.1, left⟩
  · right
    simp only [run_bind, gotten]
    rw [if_neg other, if_pos failed]
    exact ⟨noKey, after, run_sendResponse after (by decide)⟩

end

/-! ### What the client makes of it -/

variable {client : ClientGiven}

theorem sendReq_ok (sent : ¬ sendReq client < 0) : client.sendMsg = 4 := by
  unfold sendReq at sent
  split at sent
  · omega
  · split at sent
    · exact absurd (show errIo < 0 by decide) sent
    · omega

theorem awaitResponse_ok {reply : Option (List Byte)} (awaited : ¬ awaitResponse client reply < 0) :
    client.wait = noError ∧ client.getMsg = noError ∧ reply ≠ none := by
  unfold awaitResponse at awaited
  have waitLe := client.wait_le
  have getMsgLe := client.getMsg_le
  unfold noError at *
  split at awaited
  · omega
  split at awaited
  · omega
  split at awaited
  · exact absurd (show errNoMsg < 0 by decide) awaited
  case isFalse waited gotten replied => exact ⟨not_not.mp waited, not_not.mp gotten, replied⟩

theorem readResponse_neg {rc : Int} (failed : client.readMsg = some rc) (cmd : BitVec 32)
    (reply : List Byte) :
    readResponse client cmd reply < 0 := by
  unfold readResponse
  rw [failed, if_neg (Option.some_ne_none rc)]
  dsimp only
  split
  · decide
  · exact client.readMsg_lt rc failed

theorem client_cases (reply : Option (List Byte)) :
    (keymasterGetAuthTokenKey client reply).1 < 0 ∨ (client.Completes ∧ reply ≠ none) := by
  unfold keymasterGetAuthTokenKey ClientGiven.Completes
  split
  · exact .inl (by decide)
  rename_i pointers
  split
  case isTrue failed => exact .inl failed
  case isFalse sent =>
    split
    case isTrue failed => exact .inl failed
    case isFalse awaited =>
      obtain ⟨waited, gotten, replied⟩ := awaitResponse_ok awaited
      dsimp only
      split
      · exact .inl (by decide)
      split
      · exact .inl (by decide)
      case isFalse memory =>
        cases readIs : client.readMsg with
        | none =>
          exact .inr
            ⟨⟨not_not.mp pointers, sendReq_ok sent, waited, gotten, not_not.mp memory, rfl⟩,
              replied⟩
        | some rc =>
          have failed := readResponse_neg readIs kmGetAuthTokenKey (reply.getD [])
          rw [if_pos failed]
          exact .inl failed

/-- A client that completes returns whatever follows the header, a key or an error code. -/
theorem client_returns (completes : client.Completes) {data : List Byte} (nonempty : data ≠ []) :
    keymasterGetAuthTokenKey client (some (replyHeader ++ data)) = (noError, some data) := by
  obtain ⟨pointers, sent, waited, gotten, memory, read⟩ := completes
  have header : word32 ((replyHeader ++ data).take 4) =
      kmGetAuthTokenKey ||| keymasterRespBit ||| keymasterStopBit := by
    rw [List.take_append_of_le_length (by decide)]
    decide
  have length : (replyHeader ++ data).length = 4 + data.length := List.length_append
  have some : 0 < data.length := List.length_pos_iff.mpr nonempty
  have request : sendReq client = noError := by
    unfold sendReq
    rw [sent]
    rfl
  have response : awaitResponse client (Option.some (replyHeader ++ data)) = noError := by
    unfold awaitResponse
    simp [waited, gotten]
  have content :
      readResponse client kmGetAuthTokenKey
        (replyHeader ++ data) = (replyHeader ++ data).length := by
    unfold readResponse
    simp [read, header]
  unfold keymasterGetAuthTokenKey
  rw [if_neg (not_not_intro pointers), request, response, if_neg (by decide), if_neg (by decide)]
  dsimp only [Option.getD_some]
  rw [content, if_neg (by omega), if_neg (not_not_intro memory), if_neg (by omega),
    if_neg (not_not_intro rfl)]
  rfl

/-- The four bytes of an error code are no key. -/
theorem not_faithful_of_error {delivery : (Int × Option (List Byte)) × AuthContext} {err : KmError}
    (returned : delivery.1 = (noError, some err.bytes)) : ¬ Faithful delivery := by
  rintro (same | failed)
  · have size := delivery.2.authTokenKey.property
    rw [returned] at same
    rw [← Option.some.inj (Prod.mk.inj same).2, err.length_bytes] at size
    exact absurd size (by decide)
  · rw [returned] at failed
    exact absurd failed (show ¬ noError < 0 by decide)

/-- The client returns the key of the context or an error just if the server has a key for
it, or no answer gets to the client, or the client fails itself. -/
theorem auth_token_key_delivery_iff (context : AuthContext) (server : ServerGiven arch)
    (client : ClientGiven) :
    Faithful (deliver context server client) ↔
      (server.Gets → server.Sends → client.Completes → server.HasKey context) := by
  have returned : (deliver context server client).1 =
    keymasterGetAuthTokenKey client (serve context server).sent.head? := rfl
  by_cases completes : client.Completes
  case neg =>
    have failed := (client_cases (serve context server).sent.head?).resolve_right fun both =>
      completes both.1
    exact iff_of_true (.inr failed) fun _ _ contra => absurd contra completes
  have unanswered : (keymasterGetAuthTokenKey client none).1 < 0 :=
    (client_cases none).resolve_right fun both => both.2 rfl
  by_cases gets : server.Gets
  case neg =>
    rw [serve_not_gets context gets, List.head?_nil] at returned
    rw [← returned] at unanswered
    exact iff_of_true (.inr unanswered) fun contra => absurd contra gets
  by_cases sends : server.Sends
  case neg =>
    have nothing : (serve context server).sent = [] := by
      obtain ⟨_, _, _, left⟩ | ⟨_, _, left⟩ := serve_sent context gets
      · exact left.2.2 sends
      · exact left.2.2 sends
    rw [nothing, List.head?_nil] at returned
    rw [← returned] at unanswered
    exact iff_of_true (.inr unanswered) fun _ contra => absurd contra sends
  obtain ⟨hasKey, after, held, left⟩ | ⟨noKey, after, left⟩ := serve_sent context gets
  · have nonempty : after.authTokenKey.val ≠ [] := by
      intro empty
      have size := after.authTokenKey.property
      rw [empty] at size
      cases size
    rw [left.2.1 sends, List.head?_cons, client_returns completes nonempty, ← held] at returned
    exact iff_of_true (.inl returned) fun _ _ _ => hasKey
  · rw [left.2.1 sends, List.head?_cons, client_returns completes (by decide)] at returned
    exact iff_of_false (not_faithful_of_error returned) fun condition =>
      noKey (condition gets sends completes)

end Delivery

/-! ### An error code for a key -/

def noRandom : ServerGiven arm := ⟨noError, some 0x1000#32, 4, none, true, 8, (noError, 0), 8⟩

def goodClient : ClientGiven :=
  ⟨true, 4, noError, noError, true, none, 0, by decide, by decide,
    fun _ impossible => by cases impossible⟩

/-- If no random key can be generated, the client returns the four bytes of
`KM_ERROR_UNKNOWN_ERROR` as the key. -/
theorem error_code_as_key :
    (deliver ⟨⟨List.replicate 32 0, rfl⟩, false⟩ noRandom goodClient).1 =
      (noError, some KmError.unknownError.bytes) ∧
      ¬ Faithful (deliver ⟨⟨List.replicate 32 0, rfl⟩, false⟩ noRandom goodClient) := by
  have gets : noRandom.Gets := ⟨rfl, Option.some_ne_none _, by decide⟩
  have sends : noRandom.Sends := .inl (by decide)
  have completes : goodClient.Completes := ⟨rfl, rfl, rfl, rfl, rfl, rfl⟩
  obtain ⟨⟨available, _⟩, _⟩ | ⟨_, after, left⟩ :=
    serve_sent ⟨⟨List.replicate 32 0, rfl⟩, false⟩ gets
  · obtain contra | contra := available
    · cases contra
    · exact absurd rfl contra
  have returned : (deliver ⟨⟨List.replicate 32 0, rfl⟩, false⟩ noRandom goodClient).1 =
      (noError, some KmError.unknownError.bytes) := by
    unfold deliver
    dsimp only
    rw [left.2.1 sends, List.head?_cons, client_returns completes (by decide)]
  exact ⟨returned, not_faithful_of_error returned⟩

end Trusty.Keymaster
