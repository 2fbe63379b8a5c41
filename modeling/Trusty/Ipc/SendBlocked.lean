import Trusty.Ipc.Lifecycle

/-!
Senders that found no free item at the other end are told when there is one again.

A thread that waits on a channel polls it, and clears the events it returns in a
second critical section (`chan_finalize_event`); other threads send, read and poll
in between.
-/

namespace Trusty.Ipc

open Lib Function

variable {state final : IpcState} {chan peer : ChanId} {value : IpcChan}

/-! ### Queues without a free item -/

namespace MsgQueue

variable {mq new : MsgQueue} {reply : QueueReply}

theorem call_send_full {msg : SendMsg} (called : mq.call (.send msg) = some (reply, new)) :
    (reply.ret = errNotEnoughBuffer ↔ mq.freeList = []) ∧ (mq.freeList = [] → new = mq) := by
  simp only [call] at called
  cases free : mq.freeList with
  | nil =>
    simp only [free, List.head?_nil] at called
    cases called
    simp
  | cons index rest =>
    simp only [free, List.head?_cons] at called
    split at called
    · cases called
      refine ⟨iff_of_false ?_ (by simp), by simp⟩
      simp only [writeItem]
      split
      · exact (by decide : ¬ errNotSupported = errNotEnoughBuffer)
      split
      · rename_i code failed
        have fails : msg.toMembuf mq.itemSz = ((msg.toMembuf mq.itemSz).1, .error code) := by
          rw [← failed]
          rfl
        rcases (SendMsg.toMembuf_error fails).2 with rfl | rfl
        · exact (by decide : ¬ errInvalidArgs = errNotEnoughBuffer)
        · exact (by decide : ¬ errFault = errNotEnoughBuffer)
      · intro contra
        have : (0 : Int) ≤ errNotEnoughBuffer := contra ▸ Int.natCast_nonneg _
        exact absurd this (by decide)
    · cases called

theorem call_get_full {fault : Bool} (called : mq.call (.get fault) = some (reply, new))
    (full : mq.freeList = []) :
    new.freeList = [] := by
  simp only [call] at called
  split at called
  · cases called
    exact full
  split at called
  · cases called
    exact full
  obtain ⟨after, got, eq⟩ := Option.map_eq_some_iff.mp called
  cases eq
  simp only [getFilled] at got
  split at got
  · cases got
  · cases got
    simp [listDelete, setItem, full]

theorem call_read_full {id offset : Nat} {msg : ReadMsg}
    (called : mq.call (.read id offset msg) = some (reply, new)) :
    new = mq := by
  cases called
  rfl

theorem call_put_failed {id : Nat} (called : mq.call (.put id) = some (reply, new))
    (failed : reply.ret ≠ 0) :
    new = mq := by
  simp only [call] at called
  split at called
  · cases called
    rfl
  · cases called
    exact absurd rfl failed

end MsgQueue

/-! ### The calls about messages -/

theorem gives_callQueue (call : QueueCall) (post : QueueReply → IpcState → Prop) :
    Gives (callQueue chan call) state post ↔ ∀ value, state.chans chan = some value →
    ∀ mq, value.msgQueue = some mq →
      ∀ reply new, mq.call call = some (reply, new) →
        post reply (state.withChan chan (some { value with msgQueue := some new })) := by
  simp [callQueue]

structure Passed (target : ChanId) (mq new : MsgQueue) (chan : ChanId) (value after : IpcChan) :
    Prop where
  kind : after.state = value.state
  peer : after.peer = value.peer
  queue : after.msgQueue = if chan = target then some new else value.msgQueue
  kept : value.sendUnblocked = true → after.sendUnblocked = true
  told : value.sendBlocked = true → after.sendBlocked = true ∨ after.sendUnblocked = true
  blocked : after.sendBlocked = true →
    value.sendBlocked = true ∧
    (value.state = .connected → value.peer = some target → mq.freeList = [] → new.freeList = []) ∨
      value.state = .connected ∧ value.peer = some target ∧ new.freeList = []

def Exchange (before after : IpcState) : Prop := after.chans = before.chans ∨
  ∃ target mq new, (∃ value, before.chans target = some value ∧ value.msgQueue = some mq) ∧
    ∀ chan, Option.Rel (Passed target mq new chan) (before.chans chan) (after.chans chan)

theorem rel_right {α β : Type} {relation : α → β → Prop} {first : Option α} {second : β}
    (related : Option.Rel relation first (some second)) :
    ∃ one, first = some one ∧ relation one second := by
  cases related with
  | some holds => exact ⟨_, rfl, holds⟩

theorem rel_left {α β : Type} {relation : α → β → Prop} {first : α} {second : Option β}
    (related : Option.Rel relation (some first) second) :
    ∃ two, second = some two ∧ relation first two := by
  cases related with
  | some holds => exact ⟨_, rfl, holds⟩

theorem Exchange.of_frame (inv : IpcInv ∅ none state) {target : ChanId} {targetValue : IpcChan}
    {mq new : MsgQueue} {notified : Bool} (found : state.chans target = some targetValue)
    (queue : targetValue.msgQueue = some mq)
    (after :
      final.chans target = some { targetValue with msgQueue := some new, notified := notified })
      (others : ∀ chan, chan ≠ target →
        (final.chans chan = state.chans chan ∧ ∀ value, state.chans chan = some value →
          value.state = .connected →
        value.peer = some target → mq.freeList = [] → new.freeList = []) ∨
      ∃ value after, state.chans chan = some value ∧ final.chans chan = some after ∧
        Passed target mq new chan value after) : Exchange state final := by
  refine .inr ⟨target, mq, new, ⟨targetValue, found, queue⟩, fun chan => ?_⟩
  by_cases same : chan = target
  · subst same
    rw [found, after]
    refine .some ⟨rfl, rfl, by rw [if_pos rfl], id, Or.inl, fun blocked =>
      .inl ⟨blocked, fun _ pointer => ?_⟩⟩
    exact absurd rfl (inv.chan.pointers found found pointer).1
  rcases others chan same with ⟨unchanged, kept⟩ | ⟨value, after, valueFound, afterFound, passed⟩
  · rw [unchanged]
    cases valueFound : state.chans chan with
    | none => exact .none
    | some value =>
      exact .some ⟨rfl, rfl, by rw [if_neg same], id, Or.inl, fun blocked =>
        .inl ⟨blocked, kept value valueFound⟩⟩
  · rw [valueFound, afterFound]
    exact .some passed

section

variable (inv : IpcInv ∅ none state)

include inv

theorem IpcInv.back (found : state.chans chan = some value) (connected : value.state = .connected)
    (pointer : value.peer = some peer) {peerValue : IpcChan}
    (peerFound : state.chans peer = some peerValue) :
    peerValue.peer = some chan := by
  obtain ⟨other, otherValue, pointer', otherFound, _, back⟩ :=
    inv.lifecycle.connected chan value found connected
  rw [pointer] at pointer'
  cases pointer'
  rw [peerFound] at otherFound
  cases otherFound
  exact back

theorem ipcSendMsg_exchange (msg : SendMsg) :
    Gives (ipcSendMsg chan msg) state fun reply final => Exchange state final ∧
      (reply.ret = errNotEnoughBuffer → ∃ value, final.chans chan = some value ∧
        value.sendBlocked = true) := by
  simp only [ipcSendMsg, checkChannelConnectedLocked, Run.ensures_bind, gives_getChan]
  intro value found
  by_cases connected : value.state = .connected
  · rw [if_pos connected]
    simp only [Run.ensures_bind, Run.ensures_require, Run.ensures_pure, ne_eq,
      not_true_eq_false, if_false, msgWriteLocked, gives_getChan, found, Option.some.injEq,
      forall_eq', Run.ensures_ofOption, gives_callQueue]
    intro _ peer pointer peerValue peerFound mq queue queueReply new called
    have ne : chan ≠ peer := (inv.chan.pointers found peerFound pointer).1
    obtain ⟨full, same⟩ := MsgQueue.call_send_full called
    have kept : mq.freeList = [] → new.freeList = [] := fun none => (same none).symm ▸ none
    have chanFound : (state.withChan peer (some { peerValue with msgQueue := some new })).chans
      chan = some value := by
      simp [ne, found]
    by_cases failed : queueReply.ret = errNotEnoughBuffer
    · rw [if_pos failed]
      simp only [Run.ensures_bind, gives_modifyChan, chanFound, Option.some.injEq, forall_eq',
        Run.ensures_pure]
      have negative : ¬ 0 ≤ queueReply.ret := by rw [failed]; decide
      have blocked :
          ((state.withChan peer (some { peerValue with msgQueue := some new })).withChan chan
          (some { value with sendBlocked := true })).chans chan = some { value with
          sendBlocked := true } := by simp
      have written :
          ((state.withChan peer (some { peerValue with msgQueue := some new })).withChan chan
          (some { value with sendBlocked := true })).chans peer = some { peerValue with
          msgQueue := some new } := by
        simp [ne.symm]
      rw [if_neg negative]
      refine ⟨.of_frame inv peerFound queue written fun other notPeer => ?_,
        fun _ => ⟨_, blocked, rfl⟩⟩
      by_cases isChan : other = chan
      · subst isChan
        refine .inr ⟨value, _, found, blocked, rfl, rfl, by rw [if_neg notPeer], id,
          fun _ => .inl rfl, fun _ => ?_⟩
        exact .inr ⟨connected, pointer, kept (full.mp failed)⟩
      · exact .inl ⟨by simp [notPeer, isChan], fun _ _ _ _ => kept⟩
    · rw [if_neg failed]
      simp only [Run.ensures_pure]
      split
      · simp only [Run.ensures_bind, gives_getChan, chanFound, Option.some.injEq, forall_eq',
          Run.ensures_ofOption, pointer, chanNotify, gives_modifyChan, IpcState.withChan_chans,
          update_self, Run.ensures_pure,
          IpcState.withChan_withChan]
        refine ⟨.of_frame inv peerFound queue (update_self _ _ _) fun other notPeer => ?_,
          fun again => ?_⟩
        · exact .inl ⟨by simp [notPeer], fun _ _ _ _ => kept⟩
        · exact absurd again failed
      · refine ⟨.of_frame inv peerFound queue (update_self _ _ _) fun other notPeer => ?_,
          fun again => ?_⟩
        · exact .inl ⟨by simp [notPeer], fun _ _ _ _ => kept⟩
        · exact absurd again failed
  · rw [if_neg connected]
    split
    · exact ⟨.inl rfl, fun contra => absurd contra (by decide)⟩
    · exact ⟨.inl rfl, fun contra => absurd contra (by decide)⟩

theorem callQueue_exchange {call : QueueCall}
    (full : ∀ (mq new : MsgQueue) reply, mq.call call = some (reply, new) → mq.freeList = [] →
      new.freeList = []) :
    Gives (callQueue chan call) state fun _ final => Exchange state final := by
  simp only [gives_callQueue]
  intro value found mq queue reply new called
  refine .of_frame inv found queue (update_self _ _ _) fun other ne => ?_
  exact .inl ⟨by simp [ne], fun _ _ _ _ => full mq new reply called⟩

theorem ipcPutMsg_exchange (id : Nat) :
    Gives (ipcPutMsg chan id) state fun _ final => Exchange state final := by
  simp only [ipcPutMsg, Run.ensures_bind, gives_callQueue]
  intro value found mq queue reply new called
  have back : ∀ other otherValue, state.chans other = some otherValue →
    otherValue.state = .connected →
      otherValue.peer = some chan → value.peer = some other :=
    fun _ _ otherFound connected pointer => inv.back otherFound connected pointer found
  obtain ⟨between, between_eq⟩ :
      ∃ between, between = state.withChan chan (some { value with msgQueue := some new }) :=
    ⟨_, rfl⟩
  have written : between.chans chan = some { value with msgQueue := some new } := by
    simp [between_eq]
  have frame : ∀ other, other ≠ chan → between.chans other = state.chans other := by
    intro other ne
    simp [between_eq, ne]
  rw [← between_eq]
  split
  · simp only [unblockPeer, Run.ensures_bind, gives_getChan, written, Option.some.injEq, forall_eq']
    cases pointer : value.peer with
    | none =>
      refine Gives.pure (Gives.pure (.of_frame inv found queue written fun other ne => ?_))
      refine .inl ⟨frame other ne, fun otherValue otherFound connected points => ?_⟩
      rw [back other otherValue otherFound connected points] at pointer
      cases pointer
    | some peer =>
      obtain ⟨peerValue, peerThere⟩ := inv.chan.exists_peer found pointer
      have ne : peer ≠ chan := (inv.chan.pointers found peerThere pointer).1.symm
      have peerFound : between.chans peer = some peerValue := (frame peer ne).trans peerThere
      simp only [Run.ensures_bind, gives_getChan, peerFound, Option.some.injEq, forall_eq']
      have others : ∀ other, other ≠ peer → ∀ otherValue, state.chans other = some otherValue →
          otherValue.state = .connected → otherValue.peer = some chan → mq.freeList = [] →
          new.freeList = [] := by
        intro other notPeer otherValue otherFound connected points
        rw [back other otherValue otherFound connected points] at pointer
        exact absurd (Option.some.inj pointer) notPeer
      split
      · refine .of_frame inv found queue ((update_of_ne ne.symm _ _).trans written)
          fun other notChan => ?_
        by_cases isPeer : other = peer
        · subst isPeer
          refine .inr ⟨peerValue, _, peerThere, update_self _ _ _, rfl, rfl, by rw [if_neg notChan],
            fun _ => rfl, fun _ => .inr rfl, fun contra => by cases contra⟩
        · exact .inl ⟨(update_of_ne isPeer _ _).trans (frame other notChan), others other isPeer⟩
      · rename_i free
        refine Gives.pure (Gives.pure (.of_frame inv found queue written fun other notChan => ?_))
        by_cases isPeer : other = peer
        · subst isPeer
          refine .inr ⟨peerValue, peerValue, peerThere, peerFound, rfl, rfl, by rw [if_neg notChan],
            fun set => set, Or.inl, fun blocked => absurd blocked free⟩
        · exact .inl ⟨frame other notChan, others other isPeer⟩
  · rename_i failed
    refine Gives.pure (.of_frame inv found queue written fun other ne => ?_)
    refine .inl ⟨frame other ne, fun _ _ _ _ => ?_⟩
    rw [MsgQueue.call_put_failed called failed]
    exact fun none => none

end

/-! ### Blocked senders -/

/-- The queue of the other end has no free item. -/
def PeerFull (state : IpcState) (value : IpcChan) : Prop :=
  ∃ peer peerValue mq, value.peer = some peer ∧ state.chans peer = some peerValue ∧
    peerValue.msgQueue = some mq ∧ mq.freeList = []

/-- A blocked sender has a connection, and no place for its messages. -/
def Blocked (state : IpcState) : Prop :=
  ∀ chan value, state.chans chan = some value → value.sendBlocked = true →
    value.state ≠ .disconnecting → value.state = .connected ∧ PeerFull state value

theorem Blocked.later {cleared : ChanId → Prop} (blocked : Blocked state)
    (inv : IpcInv ∅ none final) (later : state.LaterBut cleared final) : Blocked final := by
  intro chan after afterFound isBlocked notShut
  cases found : state.chans chan with
  | none =>
    rw [(later.born chan after found afterFound).2] at isBlocked
    cases isBlocked
  | some value =>
    have onward := later.onward chan value after found afterFound
    obtain ⟨connected, peer, peerValue, mq, pointer, peerFound, queue, full⟩ :=
      blocked chan value found (onward.blocked.symm.trans isBlocked) (mt onward.shut notShut)
    obtain ⟨stays, samePeer⟩ := (onward.linked connected).resolve_right notShut
    obtain ⟨peerAfter, peerAfterFound⟩ := inv.chan.exists_peer afterFound (samePeer.trans pointer)
    refine ⟨stays, peer, peerAfter, mq, samePeer.trans pointer, peerAfterFound, ?_, full⟩
    rcases (later.onward peer peerValue peerAfter peerFound peerAfterFound).queue with
      same | ⟨none, _⟩
    · exact same.trans queue
    · rw [queue] at none
      cases none

variable {after : IpcChan} {call : IpcCall} {reply : IpcReply} {before : WaitState}
  {label : WaitLabel}

theorem Exchange.passed (exchange : Exchange state final)
    (afterFound : final.chans chan = some after) :
    ∃ value, state.chans chan = some value ∧ after.state = value.state ∧
      (value.sendUnblocked = true → after.sendUnblocked = true) ∧
      (value.sendBlocked = true → after.sendBlocked = true ∨ after.sendUnblocked = true) := by
  rcases exchange with same | ⟨target, mq, new, _, all⟩
  · rw [same] at afterFound
    exact ⟨after, afterFound, rfl, id, .inl⟩
  · obtain ⟨value, found, passed⟩ := rel_right (afterFound ▸ all chan)
    exact ⟨value, found, passed.kind, passed.kept, passed.told⟩

theorem Blocked.exchange (blocked : Blocked state) (exchange : Exchange state final) :
    Blocked final := by
  rcases exchange with same | ⟨target, mq, new, ⟨targetValue, targetFound, targetQueue⟩, all⟩
  · unfold Blocked PeerFull
    rw [same]
    exact blocked
  obtain ⟨targetAfter, targetAfterFound, targetPassed⟩ := rel_left (targetFound ▸ all target)
  have targetNew : targetAfter.msgQueue = some new := by rw [targetPassed.queue, if_pos rfl]
  intro chan after afterFound isBlocked notShut
  obtain ⟨value, found, passed⟩ := rel_right (afterFound ▸ all chan)
  rcases passed.blocked isBlocked with ⟨wasBlocked, kept⟩ | ⟨connected, pointer, full⟩
  · obtain ⟨connected, peer, peerValue, peerQueue, pointer, peerFound, queue, full⟩ :=
      blocked chan value found wasBlocked (passed.kind ▸ notShut)
    refine ⟨passed.kind.trans connected, ?_⟩
    by_cases isTarget : peer = target
    · subst isTarget
      rw [targetFound] at peerFound
      cases peerFound
      rw [targetQueue] at queue
      cases queue
      exact ⟨peer, targetAfter, new, passed.peer.trans pointer, targetAfterFound, targetNew,
        kept connected pointer full⟩
    · obtain ⟨peerAfter, peerAfterFound, peerPassed⟩ := rel_left (peerFound ▸ all peer)
      refine ⟨peer, peerAfter, peerQueue, passed.peer.trans pointer, peerAfterFound, ?_, full⟩
      rw [peerPassed.queue, if_neg isTarget, queue]
  · exact ⟨passed.kind.trans connected, target, targetAfter, new, passed.peer.trans pointer,
      targetAfterFound, targetNew, full⟩

theorem IpcCall.exchange {target : ChanId × QueueCall} (inv : IpcInv ∅ none state)
    (asked : call.queueCall state = some target) :
    Gives call.run state fun _ final => Exchange state final := by
  cases call with
  | sendMsg chan msg => exact (ipcSendMsg_exchange inv msg).mono fun _ _ both => both.1
  | getMsg chan fault =>
    exact (callQueue_exchange inv fun _ _ _ => MsgQueue.call_get_full).bind fun _ _ exchange =>
      Gives.pure exchange
  | readMsg chan id offset msg =>
    refine (callQueue_exchange inv fun mq new reply called full => ?_).bind fun _ _ exchange =>
      Gives.pure exchange
    rw [MsgQueue.call_read_full called, full]
  | putMsg chan id => exact ipcPutMsg_exchange inv id
  | _ => cases asked

theorem IpcStep.exchange_or_later (step : IpcStep state call reply final)
    (inv : IpcInv ∅ none state) :
    Exchange state final ∨ state.LaterBut call.Clears final := by
  have effect := step.effect inv
  unfold IpcCall.Effect at effect
  split at effect
  · exact .inr effect.2
  rename_i asked
  obtain ⟨_, memory, returned⟩ := step
  have same : call.queueCall (state.withMemory memory) = call.queueCall state := by
    cases call <;> rfl
  have exchanges := IpcCall.exchange (inv.memory memory) (same.trans asked)
  have exchange := Run.ensures_done exchanges returned
  exact .inl exchange

theorem IpcReachable.blocked (reachable : IpcReachable state) : Blocked state := by
  induction reachable with
  | empty => exact fun _ _ found => by cases found
  | step before step ih =>
    rcases step.exchange_or_later before.inv with exchange | later
    · exact ih.exchange exchange
    · exact ih.later (step.effect before.inv).inv later

/-! ### Threads that wait -/

/-- The bits of `IPC_HANDLE_POLL_*`. -/
structure ChanEvents where
  ready : Bool
  error : Bool
  hup : Bool
  msg : Bool
  sendUnblocked : Bool
deriving DecidableEq

def ChanEvents.none : ChanEvents := ⟨false, false, false, false, false⟩

def chanPoll (value : IpcChan) : ChanEvents :=
  if value.state = .invalid then { ChanEvents.none with error := true }
  else
    { ready := value.connectedEvent
      error := false
      hup := value.state = .disconnecting
      msg := value.msgQueue.any fun mq => !mq.isEmpty
      sendUnblocked := value.sendUnblocked }

/-- The system, and what each thread in `handle_wait` or `handle_list_wait` found in
its last poll. -/
structure WaitState where
  ipc : IpcState
  polled : Nat → Option (ChanId × ChanEvents)

/-- What happens in a step.  A wait returns with the events that it clears. -/
inductive WaitLabel where
  | call (call : IpcCall) (reply : IpcReply)
  | polls (thread : Nat) (chan : ChanId)
  | returns (thread : Nat) (chan : ChanId) (events : ChanEvents)
  | givesUp (thread : Nat)

/-- `chan_finalize_event` is called by waiting threads only. -/
def IpcCall.isFinalize : IpcCall → Bool
  | chanFinalize .. => true
  | _ => false

inductive WaitStep : WaitState → WaitLabel → WaitState → Prop
  | call {state : WaitState} {final : IpcState} {call : IpcCall} {reply : IpcReply}
      (own : call.isFinalize = false) (step : IpcStep state.ipc call reply final) :
      WaitStep state (.call call reply) { state with ipc := final }
  | polls {state : WaitState} {chan : ChanId} {value : IpcChan} (thread : Nat)
      (holds : IpcCall.holdsChan state.ipc chan = true)
      (found : state.ipc.chans chan = some value) :
      WaitStep state (.polls thread chan)
        { state with polled := update state.polled thread (some (chan, chanPoll value)) }
  | returns {state : WaitState} {final : IpcState} {chan : ChanId} {events : ChanEvents}
      {reply : IpcReply} {thread : Nat} (polled : state.polled thread = some (chan, events))
      (some_ : events ≠ .none)
      (step :
        IpcStep state.ipc (.chanFinalize chan events.sendUnblocked events.ready) reply final) :
      WaitStep state (.returns thread chan events)
        { ipc := final, polled := update state.polled thread none }
  | givesUp {state : WaitState} (thread : Nat) :
      WaitStep state (.givesUp thread) { state with polled := update state.polled thread none }

inductive WaitReachable : WaitState → Prop
  | empty : WaitReachable ⟨.empty, fun _ => none⟩
  | step {state final : WaitState} {label : WaitLabel} :
      WaitReachable state → WaitStep state label final →
      WaitReachable final

def Connected (state : WaitState) (chan : ChanId) : Prop :=
  ∃ value, state.ipc.chans chan = some value ∧ value.state = .connected

/-- A run in which the channel stays connected. -/
inductive WaitRun (chan : ChanId) : WaitState → List WaitLabel → WaitState → Prop
  | start {state : WaitState} : Connected state chan → WaitRun chan state [] state
  | step {state before after : WaitState} {labels : List WaitLabel} {label : WaitLabel} :
      WaitRun chan state labels before → WaitStep before label after → Connected after chan →
      WaitRun chan state (labels ++ [label]) after

theorem WaitStep.ipc {after : WaitState} (step : WaitStep before label after)
    (reachable : IpcReachable before.ipc) : IpcReachable after.ipc := by
  cases step with
  | call _ step => exact reachable.step step
  | polls => exact reachable
  | returns _ _ step => exact reachable.step step
  | givesUp => exact reachable

theorem WaitReachable.ipc {state : WaitState} (reachable : WaitReachable state) :
    IpcReachable state.ipc := by
  induction reachable with
  | empty => exact .empty
  | step _ step ih => exact step.ipc ih

/-- A wait on the channel has returned since, and says that there is a free item. -/
def Told (labels : List WaitLabel) (chan : ChanId) : Prop :=
  ∃ thread events, .returns thread chan events ∈ labels ∧ events.sendUnblocked = true

/-- A flag of the channel says that it is blocked or was. -/
def Flagged (state : WaitState) (chan : ChanId) : Prop :=
  ∃ value, state.ipc.chans chan = some value ∧
    (value.sendBlocked = true ∨ value.sendUnblocked = true)

/-- A call that clears no event keeps a flag of a channel that stays. -/
theorem IpcStep.flagged (step : IpcStep state call reply final) (inv : IpcInv ∅ none state)
    (own : call.isFinalize = false) (found : state.chans chan = some value)
    (flagged : value.sendBlocked = true ∨ value.sendUnblocked = true)
    (afterFound : final.chans chan = some after) :
    after.sendBlocked = true ∨ after.sendUnblocked = true := by
  rcases step.exchange_or_later inv with exchange | later
  · obtain ⟨other, otherFound, _, kept, told⟩ := exchange.passed afterFound
    rw [found] at otherFound
    cases otherFound
    rcases flagged with blocked | unblocked
    · exact told blocked
    · exact .inr (kept unblocked)
  · have onward := later.onward chan value after found afterFound
    rcases flagged with blocked | unblocked
    · exact .inl (onward.blocked.trans blocked)
    · refine .inr ((onward.unblocked unblocked).resolve_right fun clears => ?_)
      cases call with
      | chanFinalize => cases own
      | _ => exact clears

/-- The end of a wait clears the event that it returns, and no other. -/
theorem IpcStep.finalized {other : ChanId} {sendUnblocked ready : Bool}
    (step : IpcStep state (.chanFinalize other sendUnblocked ready) reply final)
    (found : state.chans chan = some value) (afterFound : final.chans chan = some after) :
    after.sendBlocked = value.sendBlocked ∧
      (after.sendUnblocked = value.sendUnblocked ∨ chan = other ∧ sendUnblocked = true) := by
  obtain ⟨_, memory, returned⟩ := step
  have gives : Gives (IpcCall.chanFinalize other sendUnblocked ready).run (state.withMemory memory)
    fun _ final =>
      ∃ otherValue, state.chans other = some otherValue ∧
        final.chans = update state.chans other (some { otherValue with
          sendUnblocked := otherValue.sendUnblocked && !sendUnblocked
          connectedEvent := otherValue.connectedEvent && !ready }) := by
    simp only [IpcCall.run, chanFinalizeEvent, Run.ensures_bind, gives_modifyChan, Run.ensures_pure]
    exact fun otherValue otherFound => ⟨otherValue, otherFound, rfl⟩
  obtain ⟨otherValue, otherFound, chans⟩ := Run.ensures_done gives returned
  rw [chans] at afterFound
  by_cases same : chan = other
  · subst same
    rw [found] at otherFound
    cases otherFound
    rw [update_self] at afterFound
    cases afterFound
    cases sendUnblocked <;> simp
  · rw [update_of_ne same, found] at afterFound
    cases afterFound
    exact ⟨rfl, .inl rfl⟩

theorem WaitStep.flagged {after : WaitState} (step : WaitStep before label after)
    (inv : IpcInv ∅ none before.ipc) (flagged : Flagged before chan)
    (connected : Connected after chan) :
    Flagged after chan ∨ Told [label] chan := by
  obtain ⟨value, found, flags⟩ := flagged
  obtain ⟨final, finalFound, _⟩ := connected
  cases step with
  | call own step => exact .inl ⟨final, finalFound, step.flagged inv own found flags finalFound⟩
  | polls => exact .inl ⟨value, found, flags⟩
  | givesUp => exact .inl ⟨value, found, flags⟩
  | @returns _ _ events _ thread _ _ step =>
    obtain ⟨blocked, same | ⟨rfl, cleared⟩⟩ := step.finalized found finalFound
    · exact .inl ⟨final, finalFound, flags.imp blocked.trans same.trans⟩
    · exact .inr ⟨thread, events, List.mem_singleton_self _, cleared⟩

theorem Told.append {first second : List WaitLabel} (told : Told first chan ∨ Told second chan) :
    Told (first ++ second) chan := by
  rcases told with ⟨thread, events, mem, unblocked⟩ | ⟨thread, events, mem, unblocked⟩
  · exact ⟨thread, events, List.mem_append_left _ mem, unblocked⟩
  · exact ⟨thread, events, List.mem_append_right _ mem, unblocked⟩

theorem WaitRun.flagged {start final : WaitState} {labels : List WaitLabel}
    (run : WaitRun chan start labels final) (reachable : IpcReachable start.ipc)
    (flagged : Flagged start chan) :
    IpcReachable final.ipc ∧ (Flagged final chan ∨ Told labels chan) := by
  induction run with
  | start => exact ⟨reachable, .inl flagged⟩
  | step _ step connected ih =>
    obtain ⟨between, flagged | told⟩ := ih
    · exact ⟨step.ipc between, (step.flagged between.inv flagged connected).imp_right fun told =>
        .append (.inr told)⟩
    · exact ⟨step.ipc between, .inr (.append (.inl told))⟩

theorem IpcStep.sendFailed {msg : SendMsg} (step : IpcStep state (.sendMsg chan msg) reply final)
    (inv : IpcInv ∅ none state) (full : reply.ret = errNotEnoughBuffer) :
    ∃ value, final.chans chan = some value ∧ value.sendBlocked = true := by
  obtain ⟨_, memory, returned⟩ := step
  have sends := @ipcSendMsg_exchange _ chan (inv.memory memory) msg
  exact (Run.ensures_done sends returned).2 full

/-- A sender that found no free item is told when there is one. -/
theorem blockedSender_told :
    (∀ state, WaitReachable state → ∀ chan value, state.ipc.chans chan = some value →
      value.state = .connected → value.sendBlocked = true → PeerFull state.ipc value) ∧
    ∀ before start final chan msg reply labels, WaitReachable before →
      WaitStep before (.call (.sendMsg chan msg) reply) start → reply.ret = errNotEnoughBuffer →
      WaitRun chan start labels final → ∃ value, final.ipc.chans chan = some value ∧
        (value.sendBlocked = true ∧ PeerFull final.ipc value ∨ value.sendUnblocked = true ∨
          Told labels chan) := by
  refine ⟨?_, ?_⟩
  · intro state reachable chan value found connected blocked
    exact (reachable.ipc.blocked chan value found blocked (by simp [connected])).2
  intro before start final chan msg reply labels reachable step full run
  have flagged : Flagged start chan := by
    cases step with
    | call _ step =>
      obtain ⟨value, found, blocked⟩ := step.sendFailed reachable.ipc.inv full
      exact ⟨value, found, .inl blocked⟩
  obtain ⟨reached, outcome⟩ := run.flagged (step.ipc reachable.ipc) flagged
  obtain ⟨value, found, connected⟩ : Connected final chan := by
    cases run with
    | start connected => exact connected
    | step _ _ connected => exact connected
  refine ⟨value, found, ?_⟩
  rcases outcome with ⟨other, otherFound, flags⟩ | told
  · rw [found] at otherFound
    cases otherFound
    refine flags.imp (fun blocked => ⟨blocked, ?_⟩) .inl
    exact (reached.blocked chan value found blocked (by simp [connected])).2
  · exact .inr (.inr told)

def fullConnection : List (IpcCall × List Bool) :=
  [(.portCreate (some (.app 1)) [112] 1 8 1, []), (.portPublish 0, []),
    (.portConnect (some (.app 7)) [112] 64 0, []), (.portAccept 0, []),
    (.sendMsg 0 (.kern 0 (some [])), [])]

def ipcAnswer (call : IpcCall) (state : IpcState) : Option (IpcReply × IpcState) :=
  if call.allowed state then
    match call.run { state with memory := [] } with
    | .done reply final => some (reply, final)
    | _ => none
  else none

theorem step_of_ipcAnswer (answered : ipcAnswer call state = some (reply, final)) :
    IpcStep state call reply final := by
  unfold ipcAnswer at answered
  split at answered
  · rename_i allowed
    split at answered
    · cases answered
      exact ⟨allowed, [], by assumption⟩
    · cases answered
  · cases answered

theorem WaitRun.answered {start : WaitState} {labels : List WaitLabel}
    {polled : Nat → Option (ChanId × ChanEvents)} (run : WaitRun chan start labels ⟨state, polled⟩)
    (own : call.isFinalize = false) (answered : ipcAnswer call state = some (reply, final))
    (connected : (final.chans chan).map IpcChan.state = some .connected) :
    WaitRun chan start (labels ++ [.call call reply]) ⟨final, polled⟩ :=
  run.step (.call own (step_of_ipcAnswer answered)) (Option.map_eq_some_iff.mp connected)

/-- A send finds no free item.  The server gets the message before it and puts it back, and
a wait on the client's channel returns. -/
theorem blockedSender_told_full : ∃ before start final reply labels, WaitReachable before ∧
    WaitStep before (.call (.sendMsg 0 (.kern 0 (some []))) reply) start ∧
    reply.ret = errNotEnoughBuffer ∧ WaitRun 0 start labels final ∧ Told labels 0 := by
  have played : ((ipcPlay fullConnection .empty).bind fun state =>
      (ipcAnswer (.sendMsg 0 (.kern 0 (some []))) state).bind fun sent =>
      (ipcAnswer (.getMsg 1 false) sent.2).bind fun got => (ipcAnswer (.putMsg 1 0) got.2).bind
      fun put =>
      (ipcAnswer (.chanFinalize 0 true true) put.2).map fun ended =>
        decide
        (sent.1.ret = errNotEnoughBuffer ∧ (sent.2.chans 0).map IpcChan.state = some .connected ∧
          (got.2.chans 0).map IpcChan.state = some .connected ∧
          (put.2.chans 0).map IpcChan.state = some .connected ∧ IpcCall.holdsChan put.2 0 = true ∧
          (put.2.chans 0).map chanPoll = some ⟨true, false, false, false, true⟩ ∧
          (ended.2.chans 0).map
          (fun value => (value.state, value.sendBlocked, value.sendUnblocked)) =
            some (.connected, false, false))) = some true := by
    decide +kernel
  have own : ∀ entry ∈ fullConnection, entry.1.isFinalize = false := by
    simp [fullConnection, IpcCall.isFinalize]
  have keeps : ∀ entry ∈ fullConnection, ∀ state reply final, IpcStep state entry.1 reply final →
      WaitReachable ⟨state, fun _ => none⟩ → WaitReachable ⟨final, fun _ => none⟩ :=
    fun entry inside _ _ _ step before => before.step (.call (own entry inside) step)
  obtain ⟨state, played, rest⟩ := Option.bind_eq_some_iff.mp played
  obtain ⟨⟨reply, start⟩, sent, rest⟩ := Option.bind_eq_some_iff.mp rest
  obtain ⟨⟨_, got⟩, gets, rest⟩ := Option.bind_eq_some_iff.mp rest
  obtain ⟨⟨_, put⟩, puts, rest⟩ := Option.bind_eq_some_iff.mp rest
  obtain ⟨⟨_, ended⟩, ends, facts⟩ := Option.map_eq_some_iff.mp rest
  obtain ⟨full, atStart, atGet, atPut, holds, polled, atEnd⟩ := of_decide_eq_true facts
  obtain ⟨value, found, events⟩ := Option.map_eq_some_iff.mp polled
  obtain ⟨last, lastFound, flags⟩ := Option.map_eq_some_iff.mp atEnd
  simp only [Prod.mk.injEq] at flags
  have reachable : WaitReachable ⟨state, fun _ => none⟩ :=
    @ipcPlay_keeps _ _ (fun state => WaitReachable ⟨state, fun _ => none⟩) fullConnection keeps
      .empty played
  have step : WaitStep ⟨state, fun _ => none⟩ (.call (.sendMsg 0 (.kern 0 (some []))) reply)
      ⟨start, fun _ => none⟩ :=
    .call rfl (step_of_ipcAnswer sent)
  have run : WaitRun 0 ⟨start, fun _ => none⟩ _ ⟨put, fun _ => none⟩ :=
    ((WaitRun.start (Option.map_eq_some_iff.mp atStart)).answered rfl gets atGet).answered
      rfl puts atPut
  have run := (run.step (.polls 0 holds found) (Option.map_eq_some_iff.mp atPut)).step
    (.returns (update_self _ _ _) (by rw [events]; decide)
      (by rw [events]; exact step_of_ipcAnswer ends))
    ⟨last, lastFound, flags.1⟩
  obtain ⟨other, otherFound, outcome⟩ :=
    blockedSender_told.2 _ _ _ 0 _ reply _ reachable step full run
  obtain rfl : other = last := Option.some.inj (otherFound.symm.trans lastFound)
  simp only [flags, Bool.false_eq_true, false_and, false_or] at outcome
  exact ⟨_, _, _, reply, _, reachable, step, full, run, outcome⟩

end Trusty.Ipc
