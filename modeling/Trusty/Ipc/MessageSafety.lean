import Trusty.Ipc.Lifecycle

/-!
Which calls on messages follow a null pointer.

`ipc_send_msg` checks the state of the channel first.  The calls of the receiver
only check that the handle is one of a channel, and a channel that waits for a
port has no queue.
-/

namespace Trusty.Ipc

open Lib

variable {α : Type} {state : IpcState} {chan : ChanId} {value : IpcChan} {call : IpcCall}

section

variable (inv : IpcInv ∅ none state) (found : state.chans chan = some value)

include inv found

theorem hasQueue_iff : value.msgQueue ≠ none ↔ value.path = none := by
  have ok := (inv.chan.ok chan value found).2
  cases kind : value.state with
  | disconnecting =>
    rw [kind] at ok
    have queue_iff := ok.2.1
    rw [Ne, ← queue_iff, not_not]
  | _ => simp_all

theorem callQueue_returns (hasQueue : value.msgQueue ≠ none) (call : QueueCall) :
    (callQueue chan call).returns state fun _ final =>
      ∃ mq, final = state.withChan chan (some { value with msgQueue := some mq }) := by
  obtain ⟨mq, queue⟩ := Option.ne_none_iff_exists'.mp hasQueue
  obtain ⟨reply, after, called⟩ :=
    MsgQueue.call_returns ((inv.chan.ok chan value found).1 mq queue).1 call
  simp only [callQueue, Run.returns_bind, returns_getChan, found, Option.some.injEq,
    exists_eq_left', Run.returns_ofOption, returns_setChan, Run.returns_pure]
  exact ⟨mq, queue, (reply, after), called, after, rfl⟩

end

theorem callQueue_not_returns (found : state.chans chan = some value)
    (noQueue : value.msgQueue = none) (call : QueueCall) (post : QueueReply → IpcState → Prop) :
    ¬(callQueue chan call).returns state post := by
  simp [callQueue, found, noQueue]

def IpcCall.messageChan : IpcCall → Option ChanId
  | sendMsg chan _ | getMsg chan _ | readMsg chan _ _ _ | putMsg chan _ => some chan
  | _ => none

def IpcCall.isSend : IpcCall → Bool
  | sendMsg _ _ => true
  | _ => false

/-- The call returns, and follows no null pointer.  On a channel that is not
connected, `send_msg` fails before it follows any. -/
def MessageSafe (state : IpcState) (call : IpcCall) (chan : ChanId) : Prop :=
  call.run.returns state fun reply final => call.isSend = true →
    ∀ value, state.chans chan = some value → value.state ≠ .connected → reply.ret < 0 ∧
    final = state

section

variable (inv : IpcInv ∅ none state) (found : state.chans chan = some value)

include inv found

theorem sendMsg_safe (msg : SendMsg) : MessageSafe state (.sendMsg chan msg) chan := by
  unfold MessageSafe
  simp only [IpcCall.run, ipcSendMsg, checkChannelConnectedLocked, Run.returns_bind,
    returns_getChan, found, Option.some.injEq, exists_eq_left', forall_eq']
  split
  · rename_i connected
    have ok := (inv.chan.ok chan value found).2
    rw [connected] at ok
    obtain ⟨peer, pointer⟩ := Option.ne_none_iff_exists'.mp ok.1
    obtain ⟨peerValue, peerFound⟩ := inv.chan.exists_peer found pointer
    obtain ⟨ne, _⟩ := inv.chan.pointers found peerFound pointer
    have peerQueue : peerValue.msgQueue ≠ none := by
      have linked := (inv.chan.linked chan peer value peerValue found peerFound pointer).2
      have peerOk := (inv.chan.ok peer peerValue peerFound).2
      rw [connected] at linked
      have peerConnected : peerValue.peer = some chan ∧ peerValue.state = .connected := by
        simpa using linked
      rw [peerConnected.2] at peerOk
      exact peerOk.2.2.1
    simp only [Run.returns_bind, Run.returns_require, Run.returns_pure, ne_eq,
      not_true_eq_false, if_false, msgWriteLocked, returns_getChan, found, Option.some.injEq,
      exists_eq_left', Run.returns_ofOption, pointer,
      reduceCtorEq, not_false_eq_true, true_and]
    refine Run.returns_mono (callQueue_returns inv peerFound peerQueue (.send msg)) ?_
    rintro reply _ ⟨mq, rfl⟩
    have chanFound :
        (state.withChan peer (some { peerValue with msgQueue := some mq })).chans
          chan = some value := by
      simp [ne, found]
    split
    · simp only [Run.returns_bind, returns_modifyChan, chanFound, Option.some.injEq,
        exists_eq_left', Run.returns_pure]
      split
      · simp [chanNotify, pointer, Ne.symm ne, connected]
      · simp [connected]
    · rw [Run.returns_pure]
      split
      · simp [chanNotify, pointer, ne, found, connected]
      · simp [connected]
  · split <;> simp [errChannelClosed, errNotReady, IpcReply.code]

theorem putMsg_returns (hasQueue : value.msgQueue ≠ none) (id : Nat) :
    (ipcPutMsg chan id).returns state fun _ _ => True := by
  simp only [ipcPutMsg, Run.returns_bind]
  refine Run.returns_mono (callQueue_returns inv found hasQueue (.put id)) ?_
  rintro reply _ ⟨mq, rfl⟩
  split
  · simp only [unblockPeer, Run.returns_bind, returns_getChan, IpcState.withChan_chans,
      Function.update_self, Option.some.injEq, exists_eq_left']
    cases pointer : value.peer with
    | none => simp
    | some peer =>
      obtain ⟨peerValue, peerFound⟩ := inv.chan.exists_peer found pointer
      obtain ⟨ne, _⟩ := inv.chan.pointers found peerFound pointer
      simp only [Run.returns_bind, returns_getChan, IpcState.withChan_chans,
        Function.update_of_ne (Ne.symm ne), peerFound, Option.some.injEq, exists_eq_left']
      split <;> simp
  · simp

end

theorem receive_safe_iff (call : IpcCall) (found : state.chans chan = some value)
    (queueCall : QueueCall) {rest : QueueReply → IpcRun IpcReply}
    (shape : call.run = callQueue chan queueCall >>= rest) (notSend : call.isSend = false)
    (returns : value.msgQueue ≠ none → call.run.returns state fun _ _ => True) :
    MessageSafe state call chan ↔ value.msgQueue ≠ none := by
  unfold MessageSafe
  constructor
  · intro safe noQueue
    rw [shape, Run.returns_bind] at safe
    exact callQueue_not_returns found noQueue queueCall _ safe
  · intro hasQueue
    refine Run.returns_mono (returns hasQueue) fun _ _ _ isSend => ?_
    rw [notSend] at isSend
    cases isSend

/-- A call on messages is safe unless a receiver calls on a channel that has
found no port. -/
theorem message_safe_iff (reachable : IpcReachable state) (memory : List Bool)
    (isMessage : call.messageChan = some chan) (held : IpcCall.holdsChan state chan = true) :
    MessageSafe { state with memory := memory } call chan ↔
      (call.isSend = true ∨ ∀ value, state.chans chan = some value → value.path = none) := by
  have inv := reachable.inv.memory memory
  obtain ⟨value, found⟩ := found_of_holdsChan held
  have foundNow : (state.withMemory memory).chans chan = some value := found
  have queue_iff := hasQueue_iff inv foundNow
  simp only [found, Option.some.injEq, forall_eq']
  change MessageSafe (state.withMemory memory) call chan ↔ _
  cases call with
  | sendMsg target msg =>
    cases isMessage
    exact iff_of_true (sendMsg_safe inv foundNow msg) (.inl rfl)
  | getMsg target fault =>
    cases isMessage
    rw [receive_safe_iff (.getMsg chan fault) foundNow (.get fault) rfl rfl, queue_iff]
    · simp [IpcCall.isSend]
    · intro hasQueue
      simp only [IpcCall.run, ipcGetMsg, Run.returns_bind, Run.returns_pure]
      exact Run.returns_mono (callQueue_returns inv foundNow hasQueue _) fun _ _ _ => trivial
  | readMsg target id offset msg =>
    cases isMessage
    rw [receive_safe_iff (.readMsg chan id offset msg) foundNow (.read id offset msg) rfl rfl,
      queue_iff]
    · simp [IpcCall.isSend]
    · intro hasQueue
      simp only [IpcCall.run, ipcReadMsg, Run.returns_bind, Run.returns_pure]
      exact Run.returns_mono (callQueue_returns inv foundNow hasQueue _) fun _ _ _ => trivial
  | putMsg target id =>
    cases isMessage
    rw [receive_safe_iff (.putMsg chan id) foundNow (.put id) rfl rfl, queue_iff]
    · simp [IpcCall.isSend]
    · exact fun hasQueue => putMsg_returns inv foundNow hasQueue id
  | _ => cases isMessage

def openConnection : List (IpcCall × List Bool) :=
  [(.portCreate (some (.app 1)) [112] 2 8 1, []), (.portPublish 0, []),
    (.portConnect (some (.app 7)) [112] 64 0, []), (.portAccept 0, [])]

theorem message_safe_connected : ∃ state, ipcPlay openConnection .empty = some state ∧
    MessageSafe { state with memory := [] } (.getMsg 0 false) 0 := by
  have played : (ipcPlay openConnection .empty).map (fun state =>
      (IpcCall.holdsChan state 0, (state.chans 0).map IpcChan.path)) = some (true, some none) := by
    decide +kernel
  obtain ⟨state, played, facts⟩ := Option.map_eq_some_iff.mp played
  simp only [Prod.mk.injEq] at facts
  refine ⟨state, played, ?_⟩
  refine (message_safe_iff (IpcReachable.play openConnection .empty played) [] rfl facts.1).mpr
    (.inr ?_)
  intro value found
  simpa [found] using facts.2

/-- A client that waits for a port asks for a message. -/
theorem getMsg_unsafe :
    ∃ state, ipcPlay [(.portConnect (some (.app 7)) [112] 64 1, [])] .empty = some state ∧
    IpcReachable state ∧ IpcCall.holdsChan state 0 = true ∧
    ¬MessageSafe state (.getMsg 0 false) 0 := by
  have played : (ipcPlay [(.portConnect (some (.app 7)) [112] 64 1, [])] .empty).map (fun state =>
      (IpcCall.holdsChan state 0, (state.chans 0).map fun value => value.msgQueue.isNone)) =
      some (true, some true) := by
    decide +kernel
  obtain ⟨state, played, facts⟩ := Option.map_eq_some_iff.mp played
  simp only [Prod.mk.injEq] at facts
  obtain ⟨value, found, noQueue⟩ := Option.map_eq_some_iff.mp facts.2
  refine ⟨state, played, IpcReachable.play _ .empty played, facts.1, ?_⟩
  intro safe
  simp only [MessageSafe, IpcCall.run, ipcGetMsg, Run.returns_bind] at safe
  exact callQueue_not_returns found (Option.isNone_iff_eq_none.mp noQueue) _ _ safe

end Trusty.Ipc
