import Trusty.Ipc.ChannelPorts

/-!
The calls on messages keep the invariant, and touch one queue.
-/

namespace Trusty.Ipc

open Lib

variable {state : IpcState} {chan peer : ChanId} {value : IpcChan}

/-- The states and queues of all channels. -/
def IpcState.queues (state : IpcState) (chan : ChanId) : Option (ChanState × Option MsgQueue) :=
  (state.chans chan).map fun value => (value.state, value.msgQueue)

theorem queues_eq (found : state.chans chan = some value) :
    state.queues chan = some (value.state, value.msgQueue) := by
  simp [IpcState.queues, found]

theorem queues_withChan (new : IpcChan) :
    (state.withChan chan (some new)).queues = Function.update state.queues chan
      (some (new.state, new.msgQueue)) := by
  funext other
  by_cases same : other = chan
  · subst same
    simp [IpcState.queues]
  · simp [IpcState.queues, same]

structure QueueChange (target : ChanId) (call : QueueCall) (reply : QueueReply)
    (before after : IpcState) : Prop where
  inv : IpcInv ∅ none after
  next : after.nextChan = before.nextChan
  queue : ∃ kind mq new, before.queues target = some (kind, some mq) ∧
    mq.call call = some (reply, new) ∧ after.queues = Function.update before.queues target
    (some (kind, some new))

variable {reply : QueueReply}

theorem QueueChange.touch {target : ChanId} {call : QueueCall} {before after : IpcState}
    (change : QueueChange target call reply before after) (found : after.chans chan = some value)
    {new : IpcChan} (inv : IpcInv ∅ none (after.withChan chan (some new)))
    (kind : new.state = value.state) (queue : new.msgQueue = value.msgQueue) :
    QueueChange target call reply before (after.withChan chan (some new)) := by
  refine ⟨inv, change.next, ?_⟩
  rw [queues_withChan, kind, queue, ← queues_eq found, Function.update_eq_self]
  exact change.queue

theorem callQueue_gives (inv : IpcInv ∅ none state) (call : QueueCall) :
    Gives (callQueue chan call) state fun reply final => QueueChange chan call reply state final ∧
      ∀ other, other ≠ chan → final.chans other = state.chans other := by
  simp only [callQueue, Run.ensures_bind, gives_getChan, Run.ensures_ofOption, gives_setChan,
    Run.ensures_pure]
  rintro value found mq queue ⟨reply, after⟩ called
  have ok := inv.chan.ok chan value found
  have good := ok.1 mq queue
  have refines := MsgQueue.call_refines good.1 called
  refine ⟨⟨?_, rfl, value.state, mq, after, ?_, called, ?_⟩, ?_⟩
  · refine inv.touch found rfl rfl rfl rfl rfl Iff.rfl ⟨?_, ?_⟩
    · rintro other same
      cases same
      exact ⟨refines.partitioned, refines.numItems_eq ▸ good.2⟩
    · have rest := ok.2
      cases kind : value.state <;> simp_all
  · rw [queues_eq found, queue]
  · rw [queues_withChan]
  · intro other ne
    simp [ne]

theorem IpcInv.flags (inv : IpcInv ∅ none state) (found : state.chans chan = some value)
    {new : IpcChan} (same : new = { value with
      sendBlocked := new.sendBlocked, sendUnblocked := new.sendUnblocked
      connectedEvent := new.connectedEvent, notified := new.notified }) :
    IpcInv ∅ none (state.withChan chan (some new)) := by
  rw [same]
  exact inv.touch found rfl rfl rfl rfl rfl Iff.rfl (inv.chan.ok chan value found)

/-! ### The calls -/

/-- The queue that a call is about. -/
def IpcCall.queueCall (state : IpcState) : IpcCall → Option (ChanId × QueueCall)
  | sendMsg chan msg => do
    let value ← state.chans chan
    let peer ← value.peer
    if value.state = .connected then some (peer, .send msg) else none
  | getMsg chan fault => some (chan, .get fault)
  | readMsg chan id offset msg => some (chan, .read id offset msg)
  | putMsg chan id => some (chan, .put id)
  | _ => none

def IpcReply.toQueue (reply : IpcReply) : QueueReply := ⟨reply.ret, reply.info, reply.stored⟩

/-- The channel whose events a call clears. -/
def IpcCall.Clears : IpcCall → ChanId → Prop
  | chanFinalize chan _ _ => fun other => other = chan
  | _ => fun _ => False

def IpcCall.Effect (call : IpcCall) (before : IpcState) (reply : IpcReply)
    (after : IpcState) : Prop :=
  match call.queueCall before with
  | none => IpcInv ∅ none after ∧ before.LaterBut call.Clears after
  | some (target, queueCall) => QueueChange target queueCall reply.toQueue before after

theorem send_reply {mq after : MsgQueue} {msg : SendMsg}
    (called : mq.call (.send msg) = some (reply, after)) :
    reply = ⟨reply.ret, none, []⟩ := by
  simp only [MsgQueue.call] at called
  split at called
  · cases called
    rfl
  · split at called
    · cases called
      rfl
    · cases called

section

variable (inv : IpcInv ∅ none state)

include inv

theorem ipcSendMsg_gives (msg : SendMsg) :
    Gives (ipcSendMsg chan msg) state fun reply final =>
      (IpcCall.sendMsg chan msg).Effect state reply final := by
  simp only [ipcSendMsg, checkChannelConnectedLocked, Run.ensures_bind, gives_getChan]
  intro value found
  split
  · rename_i connected
    simp only [Run.ensures_bind, Run.ensures_require, Run.ensures_pure, ne_eq,
      not_true_eq_false, if_false, msgWriteLocked, gives_getChan, found, Option.some.injEq,
      forall_eq', Run.ensures_ofOption]
    intro _ peer pointer
    have effect : ∀ reply final, (IpcCall.sendMsg chan msg).Effect state reply final ↔
        QueueChange peer (.send msg) reply.toQueue state final := by
      intro reply final
      simp [IpcCall.Effect, IpcCall.queueCall, found, pointer, connected]
    simp only [effect]
    obtain ⟨peerValue, peerFound⟩ := inv.chan.exists_peer found pointer
    obtain ⟨ne, _⟩ := inv.chan.pointers found peerFound pointer
    refine (callQueue_gives inv (.send msg)).mono ?_
    rintro reply between ⟨change, frame⟩
    obtain ⟨kind, mq, new, _, called, _⟩ := change.queue
    have plain := send_reply called
    have chanFound : between.chans chan = some value := by rw [frame chan ne, found]
    have notified : ∀ (current : IpcState) (ret : Int), ret = reply.ret →
      QueueChange peer (.send msg) reply state current →
        Gives (if 0 ≤ ret then do
            let value ← getChan chan
            let peer ← Run.ofOption value.peer
            chanNotify peer
            pure (IpcReply.code ret)
          else pure (.code ret)) current fun reply final =>
            QueueChange peer (.send msg) reply.toQueue state final := by
      rintro current ret rfl change
      rw [plain] at change
      split
      · simp only [Run.ensures_bind, gives_getChan, Run.ensures_ofOption, chanNotify,
          gives_modifyChan, Run.ensures_pure]
        intro _ _ other _ otherValue otherFound
        exact change.touch otherFound (change.inv.flags otherFound rfl) rfl rfl
      · exact Gives.pure change
    split
    · simp only [Run.ensures_bind, gives_modifyChan, chanFound, Option.some.injEq, forall_eq',
        Run.ensures_pure]
      exact notified _ _ rfl (change.touch chanFound (change.inv.flags chanFound rfl) rfl rfl)
    · exact Gives.pure (notified _ _ rfl change)
  · rename_i notConnected
    have none_ : (IpcCall.sendMsg chan msg).queueCall state = none := by
      simp [IpcCall.queueCall, found, notConnected]
    simp only [IpcCall.Effect, none_]
    split
    · exact Gives.pure (Keeps.refl inv state.memory)
    · exact Gives.pure (Keeps.refl inv state.memory)

theorem ipcGetMsg_gives (fault : Bool) :
    Gives (ipcGetMsg chan fault) state fun reply final =>
      (IpcCall.getMsg chan fault).Effect state reply final := by
  refine (callQueue_gives inv (.get fault)).bind ?_
  rintro reply final ⟨change, _⟩
  exact Gives.pure change

theorem ipcReadMsg_gives (id offset : Nat) (msg : ReadMsg) :
    Gives (ipcReadMsg chan id offset msg) state fun reply final =>
      (IpcCall.readMsg chan id offset msg).Effect state reply final := by
  refine (callQueue_gives inv (.read id offset msg)).bind ?_
  rintro reply final ⟨change, _⟩
  exact Gives.pure change

theorem ipcPutMsg_gives (id : Nat) :
    Gives (ipcPutMsg chan id) state fun reply final =>
      (IpcCall.putMsg chan id).Effect state reply final := by
  refine (callQueue_gives inv (.put id)).bind ?_
  rintro reply between ⟨change, _⟩
  split
  · simp only [unblockPeer, Run.ensures_bind, gives_getChan]
    intro value _
    cases value.peer with
    | none => exact Gives.pure (Gives.pure change)
    | some peer =>
      simp only [Run.ensures_bind, gives_getChan]
      intro peerValue peerFound
      split
      · exact change.touch peerFound (change.inv.flags peerFound rfl) rfl rfl
      · exact Gives.pure (Gives.pure change)
  · exact Gives.pure change

end

end Trusty.Ipc
