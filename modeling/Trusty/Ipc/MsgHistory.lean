import Trusty.Ipc.Lifecycle

/-!
What the users of a queue see, from its first call on.

The replies of earlier calls say which messages wait and which are held, and so
what the next reply has to be.
-/

namespace Trusty.Ipc

open Lib List

/-- What the calls so far and their replies say: all messages that were sent and
all that were got, those that wait, those that are held, and the free items. -/
structure QueueSpec where
  sent : List (List UInt8)
  got : List (List UInt8)
  waiting : List (List UInt8)
  held : Nat → Option (List UInt8)
  free : Nat

namespace QueueSpec

def start (numItems : Nat) : QueueSpec := ⟨[], [], [], fun _ => none, numItems⟩

def observe (itemSz : Nat) (spec : QueueSpec) (event : QueueCall × QueueReply) : QueueSpec :=
  if event.2.ret < 0 then spec
  else
    match event.1, event.2.info, spec.waiting with
    | .send msg, _, waiting =>
      { spec with
        sent := spec.sent ++ [msg.contents.take itemSz]
        waiting := waiting ++ [msg.contents.take itemSz]
        free := spec.free - 1 }
    | .get _, some (_, id), message :: rest =>
      { spec with
        got := spec.got ++ [message]
        waiting := rest
        held := Function.update spec.held id (some message) }
    | .put id, _, _ =>
      { spec with held := Function.update spec.held id none, free := spec.free + 1 }
    | _, _, _ => spec

def Answers (itemSz : Nat) (spec : QueueSpec) (event : QueueCall × QueueReply) : Prop :=
  (event.2.ret < 0 ∧ event.1.MayFail itemSz spec.free spec.waiting spec.held) ∨
    match event.1 with
    | .send msg => 0 < spec.free ∧ event.2 = ⟨(msg.contents.take itemSz).length, none, []⟩
    | .get _ => ∃ id message rest, spec.waiting = message :: rest ∧ spec.held id = none ∧
        event.2 = ⟨0, some (message.length, id), []⟩
    | .read id offset msg => ∃ message, spec.held id = some message ∧ offset ≤ message.length ∧
        event.2 = ⟨((message.drop offset).take msg.rooms.sum).length, none,
          spread msg.rooms (message.drop offset)⟩
    | .put id => spec.held id ≠ none ∧ event.2 = ⟨0, none, []⟩

def replay (itemSz numItems : Nat) (events : List (QueueCall × QueueReply)) : QueueSpec :=
  events.foldl (observe itemSz) (start numItems)

structure Matches (spec : QueueSpec) (queue : AbstractQueue) : Prop where
  waiting : spec.waiting = queue.filled.map Prod.snd
  held : spec.held = queue.reading
  free : spec.free = queue.free
  order : spec.sent = spec.got ++ spec.waiting

variable {spec : QueueSpec} {queue next : AbstractQueue} {call : QueueCall} {reply : QueueReply}
  {itemSz numItems : Nat}

section

variable (agree : spec.Matches queue) (step : AbstractQueue.Step itemSz queue call reply next)

include agree step

theorem Matches.answers
    (separate : ∀ id message, (id, message) ∈ queue.filled → queue.reading id = none) :
    spec.Answers itemSz (call, reply) := by
  unfold Answers
  rw [agree.free, agree.held, agree.waiting]
  cases step with
  | send free _ _ => exact .inr ⟨free, rfl⟩
  | get filled =>
    rename_i id message rest
    refine .inr ⟨id, message, rest.map Prod.snd, by rw [filled]; rfl, ?_, rfl⟩
    exact separate id message (filled ▸ mem_cons_self)
  | read held inside => exact .inr ⟨_, held, inside, rfl⟩
  | put held => exact .inr ⟨by simp [held], rfl⟩
  | failed reason negative => exact .inl ⟨negative, reason⟩

theorem Matches.observe : (spec.observe itemSz (call, reply)).Matches next := by
  cases step with
  | send free _ _ =>
    simp only [QueueSpec.observe, if_neg (not_lt.mpr (Int.natCast_nonneg _))]
    refine ⟨?_, agree.held, ?_, ?_⟩
    · simp [agree.waiting]
    · simp [agree.free]
    · simp [agree.order]
  | get filled =>
    have waiting := agree.waiting
    rw [filled, map_cons] at waiting
    simp only [QueueSpec.observe, lt_irrefl, if_false, waiting]
    refine ⟨rfl, ?_, agree.free, ?_⟩
    · rw [agree.held]
    · simp [agree.order, waiting]
  | read held inside =>
    exact agree
  | put held =>
    simp only [QueueSpec.observe, lt_irrefl, if_false]
    refine ⟨agree.waiting, ?_, ?_, agree.order⟩
    · rw [agree.held]
    · rw [agree.free]
  | failed reason negative =>
    simp only [QueueSpec.observe, negative, if_true]
    exact agree

end

theorem start_matches (numItems itemSz : Nat) :
    (start numItems).Matches (ipcMsgQueueCreate numItems itemSz).abstract := by
  refine ⟨rfl, ?_, ?_, rfl⟩
  · simp [start, MsgQueue.abstract, ipcMsgQueueCreate]
  · simp [start, MsgQueue.abstract, ipcMsgQueueCreate]

/-- All replies so far were right, and the queue is what they say. -/
structure Describes (mq : MsgQueue) (events : List (QueueCall × QueueReply)) : Prop where
  answers : ∀ first event rest, events = first ++ event :: rest →
    (replay mq.itemSz mq.numItems first).Answers mq.itemSz event
  agree : (replay mq.itemSz mq.numItems events).Matches mq.abstract

theorem describes_new (numItems itemSz : Nat) :
    Describes (ipcMsgQueueCreate numItems itemSz) [] := by
  refine ⟨?_, start_matches numItems itemSz⟩
  intro first event rest contra
  simp at contra

theorem Describes.snoc {mq after : MsgQueue} {events : List (QueueCall × QueueReply)}
    (described : Describes mq events) (partitioned : mq.Partitioned)
    (called : mq.call call = some (reply, after)) :
    Describes after (events ++ [(call, reply)]) := by
  have refines := MsgQueue.call_refines partitioned called
  have separate : ∀ id message, (id, message) ∈ mq.abstract.filled →
      mq.abstract.reading id = none := by
    intro id message mem
    simp only [MsgQueue.abstract, mem_map, Prod.mk.injEq] at mem ⊢
    obtain ⟨index, isFilled, rfl, _⟩ := mem
    have state := ((partitioned.filled_iff index).mp isFilled).2
    have notRead : index ∉ mq.readList := by
      rw [partitioned.read_iff, state]
      simp
    simp [notRead]
  constructor
  · rw [refines.itemSz_eq, refines.numItems_eq]
    intro first event rest split
    rcases eq_nil_or_concat rest with rfl | ⟨front, last, rfl⟩
    · obtain ⟨rfl, same⟩ := append_inj' split rfl
      cases same
      exact described.agree.answers refines.step separate
    · have split' : events ++ [(call, reply)] = (first ++ event :: front) ++ [last] := by
        rw [split, concat_eq_append, append_assoc, cons_append]
      obtain ⟨same, _⟩ := append_inj' split' rfl
      exact described.answers first event front same
  · rw [refines.itemSz_eq, refines.numItems_eq]
    unfold replay
    rw [foldl_append]
    exact described.agree.observe refines.step

end QueueSpec

/-! ### Runs -/

inductive IpcTrace : List (IpcState × IpcCall × IpcReply) → IpcState → Prop
  | empty : IpcTrace [] .empty
  | step {trace : List (IpcState × IpcCall × IpcReply)} {state final : IpcState} {call : IpcCall}
      {reply : IpcReply} :
      IpcTrace trace state → IpcStep state call reply final →
      IpcTrace (trace ++ [(state, call, reply)]) final

def queueEvents (chan : ChanId) (trace : List (IpcState × IpcCall × IpcReply)) :
    List (QueueCall × QueueReply) :=
  trace.filterMap fun (state, call, reply) =>
    match call.queueCall state with
    | some (target, queueCall) => if target = chan then some (queueCall, reply.toQueue) else none
    | none => none

variable {trace : List (IpcState × IpcCall × IpcReply)} {state final : IpcState} {call : IpcCall}
  {reply : IpcReply} {chan target : ChanId} {value : IpcChan} {mq : MsgQueue}

theorem IpcTrace.reachable (run : IpcTrace trace final) : IpcReachable final := by
  induction run with
  | empty => exact .empty
  | step _ step ih => exact ih.step step

theorem queueEvents_other (notAsked : ∀ queueCall, call.queueCall state ≠ some (chan, queueCall)) :
    queueEvents chan (trace ++ [(state, call, reply)]) = queueEvents chan trace := by
  unfold queueEvents
  cases asked : call.queueCall state with
  | none => simp [asked]
  | some entry =>
    obtain ⟨target, queueCall⟩ := entry
    have ne : target ≠ chan := by
      rintro rfl
      exact notAsked queueCall asked
    simp [asked, ne]

variable {queueCall : QueueCall}

theorem queueEvents_self (asked : call.queueCall state = some (chan, queueCall)) :
    queueEvents chan (trace ++ [(state, call, reply)]) = queueEvents chan trace ++
      [(queueCall, reply.toQueue)] := by
  unfold queueEvents
  simp [asked]

theorem queues_eq_some_iff {kind : ChanState} {queue : Option MsgQueue} :
    state.queues chan = some (kind, queue) ↔
      ∃ value, state.chans chan = some value ∧ value.state = kind ∧ value.msgQueue = queue := by
  simp [IpcState.queues]

/-- A channel without a queue has seen no call, and a queue is what its calls say. -/
structure Recorded (trace : List (IpcState × IpcCall × IpcReply)) (state : IpcState)
    (chan : ChanId) : Prop where
  unborn : state.nextChan ≤ chan → queueEvents chan trace = []
  silent : ∀ value, state.chans chan = some value → value.msgQueue = none →
    queueEvents chan trace = []
  described : ∀ value mq, state.chans chan = some value → value.msgQueue = some mq →
    QueueSpec.Describes mq (queueEvents chan trace)

theorem NewQueue_described (new : value.NewQueue) (queue : value.msgQueue = some mq) :
    QueueSpec.Describes mq [] := by
  rcases new with none_ | ⟨numItems, itemSz, created⟩
  · rw [none_] at queue
    cases queue
  · rw [created] at queue
    cases queue
    exact QueueSpec.describes_new numItems itemSz

theorem Recorded.later {cleared : ChanId → Prop} (recorded : Recorded trace state chan)
    (later : state.LaterBut cleared final)
    (events : queueEvents chan (trace ++ [(state, call, reply)]) = queueEvents chan trace) :
    Recorded (trace ++ [(state, call, reply)]) final chan := by
  have missing_unborn : ∀ after, state.chans chan = none → final.chans chan = some after →
      state.nextChan ≤ chan := by
    intro after missing afterFound
    by_contra below
    rw [later.gone chan (Nat.lt_of_not_le below) missing] at afterFound
    cases afterFound
  constructor
  · intro above
    rw [events]
    exact recorded.unborn (le_trans later.next above)
  · intro after afterFound noQueue
    rw [events]
    cases found : state.chans chan with
    | none => exact recorded.unborn (missing_unborn after found afterFound)
    | some value =>
      refine recorded.silent value found ?_
      rcases (later.onward chan value after found afterFound).queue with same | ⟨none_, _⟩
      · rw [← same, noQueue]
      · exact none_
  · intro after mq afterFound queue
    rw [events]
    cases found : state.chans chan with
    | none =>
      rw [recorded.unborn (missing_unborn after found afterFound)]
      exact NewQueue_described (later.born chan after found afterFound).1 queue
    | some value =>
      rcases (later.onward chan value after found afterFound).queue with same | ⟨none_, new⟩
      · exact recorded.described value mq found (same ▸ queue)
      · rw [recorded.silent value found none_]
        exact NewQueue_described new queue

theorem Recorded.changed (recorded : Recorded trace state chan) (inv : IpcInv ∅ none state)
    (asked : call.queueCall state = some (target, queueCall))
    (change : QueueChange target queueCall reply.toQueue state final) :
    Recorded (trace ++ [(state, call, reply)]) final chan := by
  obtain ⟨kind, mq, new, before, called, queues⟩ := change.queue
  obtain ⟨targetValue, targetFound, _, targetQueue⟩ := queues_eq_some_iff.mp before
  by_cases same : chan = target
  · subst same
    have now : final.queues chan = some (kind, some new) := by
      rw [queues, Function.update_self]
    obtain ⟨after, afterFound, _, afterQueue⟩ := queues_eq_some_iff.mp now
    have partitioned := ((inv.chan.ok chan targetValue targetFound).1 mq targetQueue).1
    constructor
    · intro above
      rw [change.next] at above
      rw [inv.chan.fresh chan above] at targetFound
      cases targetFound
    · intro other otherFound noQueue
      rw [afterFound] at otherFound
      cases otherFound
      rw [afterQueue] at noQueue
      cases noQueue
    · intro other otherQueue otherFound queue
      rw [afterFound] at otherFound
      cases otherFound
      rw [afterQueue] at queue
      cases queue
      rw [queueEvents_self asked]
      exact (recorded.described targetValue mq targetFound targetQueue).snoc partitioned called
  · have events : queueEvents chan (trace ++ [(state, call, reply)]) = queueEvents chan trace := by
      refine queueEvents_other fun other otherAsked => ?_
      rw [asked] at otherAsked
      cases otherAsked
      exact same rfl
    have unchanged : final.queues chan = state.queues chan := by
      rw [queues, Function.update_of_ne same]
    have found : ∀ after, final.chans chan = some after →
        ∃ value, state.chans chan = some value ∧ value.msgQueue = after.msgQueue := by
      intro after afterFound
      have now := unchanged.symm.trans (queues_eq afterFound)
      obtain ⟨value, valueFound, _, queue⟩ := queues_eq_some_iff.mp now
      exact ⟨value, valueFound, queue⟩
    constructor
    · intro above
      rw [events]
      exact recorded.unborn (change.next ▸ above)
    · intro after afterFound noQueue
      obtain ⟨value, valueFound, queue⟩ := found after afterFound
      rw [events]
      exact recorded.silent value valueFound (queue.trans noQueue)
    · intro after mq afterFound hasQueue
      obtain ⟨value, valueFound, queue⟩ := found after afterFound
      rw [events]
      exact recorded.described value mq valueFound (queue.trans hasQueue)

theorem IpcTrace.recorded (run : IpcTrace trace final) (chan : ChanId) :
    Recorded trace final chan := by
  induction run with
  | empty =>
    refine ⟨fun _ => rfl, ?_, ?_⟩ <;> intro value <;> simp [IpcState.empty]
  | step run step ih =>
    have inv := run.reachable.inv
    have effect := step.effect inv
    unfold IpcCall.Effect at effect
    split at effect
    · rename_i asked
      refine ih.later effect.2 (queueEvents_other ?_)
      simp [asked]
    · rename_i asked
      exact ih.changed inv asked effect

theorem AbstractQueue.Step.of_negative {itemSz : Nat} {queue next : AbstractQueue}
    {queueReply : QueueReply} (step : AbstractQueue.Step itemSz queue queueCall queueReply next)
    (negative : queueReply.ret < 0) :
    next = queue := by
  cases step with
  | send _ _ _ => exact absurd negative (Int.not_lt.mpr (Int.natCast_nonneg _))
  | get _ => simp at negative
  | read _ _ => exact absurd negative (Int.not_lt.mpr (Int.natCast_nonneg _))
  | put _ => simp at negative
  | failed _ _ => rfl

/-- What the users of the queue of a channel see in every run. -/
theorem ipc_messages (run : IpcTrace trace final) (found : final.chans chan = some value)
    (queue : value.msgQueue = some mq) :
    mq.Partitioned ∧
      (∀ first event rest, queueEvents chan trace = first ++ event :: rest →
        (QueueSpec.replay mq.itemSz mq.numItems first).Answers mq.itemSz event) ∧
      (QueueSpec.replay mq.itemSz mq.numItems (queueEvents chan trace)).Matches mq.abstract ∧
      ∀ call reply next queueCall, IpcStep final call reply next →
      call.queueCall final = some (chan, queueCall) →
        reply.ret < 0 → ∃ after new, next.chans chan = some after ∧ after.msgQueue = some new ∧
          new.abstract = mq.abstract := by
  have inv := run.reachable.inv
  have partitioned := ((inv.chan.ok chan value found).1 mq queue).1
  have described := (run.recorded chan).described value mq found queue
  refine ⟨partitioned, described.answers, described.agree, ?_⟩
  intro call reply next queueCall step asked negative
  have effect := step.effect inv
  simp only [IpcCall.Effect, asked] at effect
  obtain ⟨kind, old, new, before, called, queues⟩ := effect.queue
  obtain ⟨_, rfl⟩ : kind = value.state ∧ old = mq := by
    simpa [queues_eq found, queue] using before.symm
  have now : next.queues chan = some (kind, some new) := by
    rw [queues, Function.update_self]
  obtain ⟨after, afterFound, _, afterQueue⟩ := queues_eq_some_iff.mp now
  have refines := MsgQueue.call_refines partitioned called
  exact ⟨after, new, afterFound, afterQueue, refines.step.of_negative negative⟩

theorem IpcTrace.play (calls : List (IpcCall × List Bool)) (run : IpcTrace trace state)
    (played : ipcPlay calls state = some final) :
    ∃ rest, IpcTrace (trace ++ rest) final ∧
    (rest.map fun entry => entry.2.1) = calls.map Prod.fst := by
  induction calls generalizing state trace with
  | nil =>
    cases played
    exact ⟨[], by simpa using run, rfl⟩
  | cons entry rest ih =>
    obtain ⟨call, memory⟩ := entry
    simp only [ipcPlay] at played
    split at played
    · rename_i allowed
      split at played
      · rename_i reply next returned
        obtain ⟨later, laterRun, calls⟩ := ih (run.step ⟨allowed, memory, returned⟩) played
        refine ⟨(state, call, reply) :: later, ?_, ?_⟩
        · simpa using laterRun
        · simp [calls]
      · cases played
    · cases played

/-- The client sends a message of two parts, which is longer than an item, and the
server gets it. -/
def sentMessage : List (IpcCall × List Bool) :=
  [(.portCreate (some (.app 1)) [112] 2 4 1, []), (.portPublish 0, []),
    (.portConnect (some (.app 7)) [112] 64 0, []), (.portAccept 0, []),
    (.sendMsg 0 (.kern 0 (some [(some fun index => UInt8.ofNat index, 3), (some fun _ => 9, 2)])),
      []),
    (.getMsg 1 false, [])]

/-- The server reads what follows the first byte into two buffers. -/
def twoBuffers : ReadMsg := .kern 0 (some [(true, 2), (true, 5)])

theorem twoBuffers_writable (size : Nat) : ¬ twoBuffers.Unwritable size := by
  rintro ⟨front, entry, back, split, -, null, -⟩
  have inside : entry ∈ [(true, 2), (true, 5)] := split ▸ mem_append_right front mem_cons_self
  rw [show entry = (false, entry.2) from Prod.ext null rfl] at inside
  simp at inside

theorem ipc_messages_sent : ∃ trace middle reply state value mq,
    IpcTrace (trace ++ [(middle, .readMsg 1 0 1 twoBuffers, reply)]) state ∧
    (trace.map fun entry => entry.2.1) = sentMessage.map Prod.fst ∧ state.chans 1 = some value ∧
    value.msgQueue = some mq ∧ mq.abstract.reading 0 = some [0, 1, 2, 9] ∧
    (QueueSpec.replay mq.itemSz mq.numItems (queueEvents 1 trace)).held 0 = some [0, 1, 2, 9] ∧
    reply.toQueue = ⟨3, none, [[1, 2], [9]]⟩ := by
  let queueOf (state : IpcState) : Option (Nat × Nat × Option (List UInt8)) :=
    (state.chans 1).bind fun value => value.msgQueue.map fun mq =>
      (mq.itemSz, mq.numItems, mq.abstract.reading 0)
  let full : Option (Nat × Nat × Option (List UInt8)) := some (4, 2, some [0, 1, 2, 9])
  have played : (ipcPlay sentMessage .empty).bind (fun state =>
      (ipcPlay [(.readMsg 1 0 1 twoBuffers, [])] state).map fun final =>
        (queueOf state == full && queueOf final == full)) = some true := by
    decide +kernel
  obtain ⟨middle, sent, played⟩ := Option.bind_eq_some_iff.mp played
  obtain ⟨state, read, facts⟩ := Option.map_eq_some_iff.mp played
  simp only [Bool.and_eq_true, beq_iff_eq] at facts
  obtain ⟨facts, lastFacts⟩ := facts
  obtain ⟨oldValue, oldFound, facts⟩ := Option.bind_eq_some_iff.mp facts
  obtain ⟨old, oldQueue, oldFacts⟩ := Option.map_eq_some_iff.mp facts
  obtain ⟨value, found, lastFacts⟩ := Option.bind_eq_some_iff.mp lastFacts
  obtain ⟨mq, queue, facts⟩ := Option.map_eq_some_iff.mp lastFacts
  simp only [Prod.mk.injEq] at oldFacts facts
  obtain ⟨trace, run, calls⟩ := IpcTrace.play sentMessage .empty sent
  obtain ⟨rest, lastRun, lastCalls⟩ := IpcTrace.play _ run read
  obtain ⟨⟨before, call, reply⟩, rfl, rfl⟩ := map_eq_singleton_iff.mp lastCalls
  have held := (ipc_messages run oldFound oldQueue).2.2.1.held
  obtain ⟨_, answers, -, -⟩ := ipc_messages lastRun found queue
  rw [oldFacts.1, oldFacts.2.1, ← facts.1, ← facts.2.1] at held
  have heldNow := (congrFun held 0).trans oldFacts.2.2
  refine ⟨[] ++ trace, before, reply, state, value, mq, lastRun, calls, found, queue,
    facts.2.2, heldNow, ?_⟩
  have answer := answers _ (.read 0 1 twoBuffers, reply.toQueue) [] (queueEvents_self rfl)
  rcases answer with ⟨-, reason⟩ | ⟨message, same, -, answer⟩
  · rcases reason _ heldNow with short | handles | fault
    · simp at short
    · exact absurd rfl handles
    · exact absurd fault (twoBuffers_writable _)
  · cases heldNow.symm.trans same
    exact answer

end Trusty.Ipc
