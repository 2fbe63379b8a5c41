import Trusty.Ipc.Lifecycle

/-!
Publishing a port that clients wait for.

A client that waited is taken off the list before the port is attached.  If that
fails, `_chan_shutdown_locked` finds it in `WAITING_FOR_PORT` but in no list, and
its assertion fails.
-/

namespace Trusty.Ipc

open Lib Function IpcState

variable {state : IpcState} {extra : Finset (ChanId × ChanRef)} {chan client server : ChanId}
  {port : PortId} {value clientValue serverValue : IpcChan} {portValue : IpcPort}
  {memory : List Bool} {count more : Nat}

/-! ### Allocations -/

def Plenty (memory : List Bool) (count : Nat) : Prop := ∀ answer ∈ memory.take count, answer = true

theorem plenty_zero : Plenty memory 0 := by
  simp [Plenty]

theorem plenty_succ_iff :
    Plenty memory (count + 1) ↔ memory.headD true = true ∧ Plenty memory.tail count := by
  cases memory <;> simp [Plenty]

theorem plenty_add_iff :
    Plenty memory (count + more) ↔ Plenty memory count ∧ Plenty (memory.drop count) more := by
  induction count generalizing memory with
  | zero => simp [plenty_zero]
  | succ count ih =>
    rw [Nat.add_right_comm, plenty_succ_iff, plenty_succ_iff, ih, and_assoc]
    cases memory <;> simp

theorem returns_chanAlloc_iff (isServer : Bool) (uuid : Option Uuid)
    (post : Option ChanId → IpcState → Prop) : (chanAlloc isServer uuid).returns state post ↔
      if state.memory.headD true = true then
        post (some state.nextChan)
        ((state.withMemory state.memory.tail).withNext.withChan state.nextChan
          (some (.fresh isServer uuid)))
      else post none (state.withMemory state.memory.tail) := by
  simp only [chanAlloc, Run.returns_bind, returns_allocate]
  split
  · simp only [Run.returns_bind, Run.returns_read, Run.returns_modify, returns_setChan,
      Run.returns_pure]
    rfl
  · rw [Run.returns_pure]

theorem returns_msgQueueCreate_iff (numItems itemSz : Nat)
    (post : Option MsgQueue → IpcState → Prop) :
    (msgQueueCreate numItems itemSz).returns state post ↔
      if state.memory.headD true = true then
        if state.memory.tail.headD true = true then
          post (some (ipcMsgQueueCreate numItems itemSz)) (state.withMemory state.memory.tail.tail)
        else post none (state.withMemory state.memory.tail.tail)
      else post none (state.withMemory state.memory.tail) := by
  simp only [msgQueueCreate, Run.returns_bind, returns_allocate]
  split
  · simp only [Run.returns_bind, returns_allocate, withMemory_memory, withMemory_withMemory]
    split <;> rw [Run.returns_pure]
  · rw [Run.returns_pure]

/-! ### Attaching -/

structure CanAttach (portValue : IpcPort) (value : IpcChan) (memory : List Bool) : Prop where
  listening : portValue.state = .listening
  allowed : checkAccess portValue value.uuid = 0
  plenty : Plenty memory 5

theorem canAttach_of_zero (portFound : state.ports port = some portValue)
    (clientFound : state.chans client = some clientValue)
    (success : (portAttachClient port client).returns state fun ret _ => ret = 0) :
    CanAttach portValue clientValue state.memory := by
  have noMemory : ¬errNoMemory = 0 := by decide
  have notReady : ¬errNotReady = 0 := by decide
  simp only [portAttachClient, Run.returns_bind, returns_getPort, portFound, Option.some.injEq,
    exists_eq_left'] at success
  split at success
  · simp [notReady] at success
  rename_i listening
  simp only [Run.returns_bind, returns_getChan, clientFound, Option.some.injEq,
    exists_eq_left'] at success
  split at success
  · rename_i denied
    exact (denied (by simpa using success)).elim
  rename_i allowed
  simp only [Run.returns_bind, returns_chanAlloc_iff] at success
  split at success
  swap
  · simp [noMemory] at success
  rename_i first
  simp only [Run.returns_bind, returns_msgQueueCreate_iff, withChan_memory, withNext_memory,
    withMemory_memory] at success
  split at success
  swap
  · simp [noMemory] at success
  rename_i second
  split at success
  swap
  · simp [noMemory] at success
  rename_i third
  simp only [returns_modifyChan, withChan_memory, withMemory_memory] at success
  split at success
  swap
  · simp [noMemory] at success
  rename_i fourth
  split at success
  swap
  · simp [noMemory] at success
  rename_i fifth
  refine ⟨not_not.mp listening, not_not.mp allowed, ?_⟩
  simp only [plenty_succ_iff, plenty_zero, and_true]
  exact ⟨first, second, third, fourth, fifth⟩

variable {post : Unit → IpcState → Prop} {rest : List ChanId} {path : List UInt8} {other : ChanId}
  {after : IpcState}

theorem returns_attachQueues (clientFound : state.chans client = some clientValue)
    (serverFound : state.chans server = some serverValue)
    (portFound : state.ports port = some portValue) (ne : client ≠ server)
    (serverNew : serverValue.refs = {.tmp}) (clientNew : .peer server ∉ clientValue.refs)
    (holds :
      post () (((state.withChan client (some (clientValue.attachedClient server))).withChan server
        (some (serverValue.attachedServer port client))).withPort port
        (some (portValue.attached server)))) :
    (attachQueues port client server).returns state post := by
  have kept : ({.node, .peer client, .tmp} : Finset ChanRef).erase .tmp ≠ ∅ :=
    Finset.ne_empty_of_mem (Finset.mem_erase.mpr ⟨by simp, Finset.mem_insert_self ChanRef.node _⟩)
  have runs : (attachQueues port client server).returns state fun _ _ => True := by
    simp [attachQueues, chanAddRef, addPending, portIncref, chanDelRef, ne, Ne.symm ne,
      clientFound, serverFound, portFound, serverNew, kept, clientNew]
  have gives : Gives (attachQueues port client server) state post := by
    refine gives_attachQueues clientFound serverFound ne fun other otherFound => ?_
    cases portFound.symm.trans otherFound
    exact holds
  exact Run.returns_mono (Run.ensures_returns gives runs) fun _ _ both => both.1

/-- The system after a client was attached. -/
def IpcState.attach (state : IpcState) (port : PortId) (portValue : IpcPort) (client : ChanId)
    (value : IpcChan) :
    IpcState :=
  (((state.withMemory (state.memory.drop 5)).withNext.withChan client
    (some ((value.withQueue portValue.queue).attachedClient state.nextChan))).withChan
    state.nextChan
    (some
      (((IpcChan.fresh true (some portValue.uuid)).withQueue portValue.queue).attachedServer port
        client))).withPort
    port (some (portValue.attached state.nextChan))

theorem portAttachClient_returns (portFound : state.ports port = some portValue)
    (clientFound : state.chans client = some clientValue) (ne : client ≠ state.nextChan)
    (clientNew : .peer state.nextChan ∉ clientValue.refs)
    (can : CanAttach portValue clientValue state.memory) :
    (portAttachClient port client).returns state fun ret final =>
      ret = 0 ∧ final = state.attach port portValue client clientValue := by
  obtain ⟨listening, allowed, plenty⟩ := can
  simp only [plenty_succ_iff, plenty_zero, and_true] at plenty
  obtain ⟨first, second, third, fourth, fifth⟩ := plenty
  simp only [portAttachClient, Run.returns_bind, returns_getPort, portFound, Option.some.injEq,
    exists_eq_left', listening, ne_eq, not_true_eq_false, if_false, returns_getChan, clientFound,
    allowed, returns_chanAlloc_iff, first,
    if_true, returns_msgQueueCreate_iff, withChan_memory, withNext_memory, withMemory_memory,
    second, third, returns_modifyChan, withMemory_withChan, withMemory_withNext,
    withMemory_withMemory, withChan_chans, withNext_chans, withMemory_chans,
    update_of_ne ne, update_of_ne (Ne.symm ne), update_self, fourth, fifth,
    Run.returns_pure, true_and]
  refine @returns_attachQueues _ client state.nextChan port (clientValue.withQueue portValue.queue)
    ((IpcChan.fresh true (some portValue.uuid)).withQueue portValue.queue) portValue _ ?_ ?_ ?_ ne
    rfl clientNew ?_
  · simp only [withChan_chans, update_of_ne ne, update_self]
    rfl
  · exact update_self _ _ _
  · simp [portFound]
  have dropped : state.memory.tail.tail.tail.tail.tail = state.memory.drop 5 := by
    simp [← List.drop_one]
  simp only [attach, withChan, withPort, withNext, withMemory, dropped, mk.injEq, and_true]
  funext other
  by_cases isServer : other = state.nextChan
  · subst isServer
    simp
  · by_cases isClient : other = client
    · subst isClient
      simp [isServer]
    · simp [isServer, isClient]

/-! ### One waiting client -/

theorem returns_chanDelRef {ref : ChanRef} (found : state.chans chan = some value)
    (mem : ref ∈ value.refs) (kept : value.refs.erase ref ≠ ∅) (post : Unit → IpcState → Prop) :
    (chanDelRef chan ref).returns state post ↔
    post () (state.withChan chan (some (value.withoutRef ref))) := by
  simp only [chanDelRef, Run.returns_bind, returns_getChan, found, Option.some.injEq,
    exists_eq_left', Run.returns_require, mem, true_and, returns_setChan, kept, if_false,
    Run.returns_pure]
  rfl

theorem returns_listDelete_waiting (found : state.chans chan = some value)
    (inside : value.node = some .waiting) (post : Unit → IpcState → Prop) :
    (listDelete chan).returns state post ↔
      post ()
      ((state.unlisted chan .waiting).withChan chan (some { value with node := none })) := by
  simp only [listDelete, Run.returns_bind, returns_getChan, found, Option.some.injEq,
    exists_eq_left', Run.returns_ofOption, inside, listRemove, Run.returns_modify,
    returns_modifyChan]
  rfl

structure Waits (state : IpcState) (client : ChanId) (value : IpcChan) : Prop where
  inv : IpcInv ∅ none state
  found : state.chans client = some value
  inside : value.node = some .waiting

namespace Waits

section

variable (waits : Waits state client value)

include waits

theorem proper : value.state = .waitingForPort ∧ value.msgQueue = none ∧
    value.server = false ∧ value.peer = none ∧ value.path ≠ none := by
  have ok := (waits.inv.chan.ok client value waits.found).2
  have inside := waits.inside
  cases kind : value.state <;> simp_all

theorem refs : .tmp ∉ value.refs ∧ .node ∈ value.refs ∧ .peer state.nextChan ∉ value.refs := by
  have refs := waits.inv.chan.refs client value waits.found
  refine ⟨?_, ?_, ?_⟩ <;> rw [refs]
  · simp [Reason]
  · simp [Reason, waits.inside]
  · simp [Reason, peerOf, waits.inv.chan.fresh state.nextChan le_rfl]

theorem detached_refs : .node ∈ value.detached.refs ∧ value.detached.refs.erase .node ≠ ∅ := by
  refine ⟨Finset.mem_insert_of_mem waits.refs.2.1, ?_⟩
  exact Finset.ne_empty_of_mem
    (Finset.mem_erase.mpr ⟨by simp, Finset.mem_insert_self ChanRef.tmp _⟩)

end

end Waits

/-- The system while a waiting client is between the two lists. -/
def IpcState.limbo (state : IpcState) (client : ChanId) (value : IpcChan) : IpcState :=
  (state.unlisted client .waiting).withChan client (some (value.detached.withoutRef .node))

theorem returns_toLimbo (waits : Waits state client value) {α : Type} (rest : IpcRun α)
    (post : α → IpcState → Prop) :
    (do
      modifyChan client fun value => { value with path := none }
      chanAddRef client .tmp
      listDelete client
      chanDelRef client .node
      rest).returns state post ↔ rest.returns (state.limbo client value) post := by
  have noTmp := waits.refs.1
  have there :
      (state.withChan client
        (some { value with path := none, refs := insert .tmp value.refs })).chans client = some
        { value with path := none, refs := insert .tmp value.refs } :=
    update_self _ _ _
  have now : ((state.unlisted client .waiting).withChan client (some value.detached)).chans client =
      some value.detached :=
    update_self _ _ _
  simp only [Run.returns_bind, returns_modifyChan, waits.found, Option.some.injEq,
    exists_eq_left', chanAddRef, returns_getChan, withChan_chans, update_self, Run.returns_require,
    noTmp, not_false_eq_true,
    true_and, returns_setChan, withChan_withChan]
  rw [returns_listDelete_waiting there waits.inside, unlisted_withChan]
  change (chanDelRef client .node).returns
    ((state.unlisted client .waiting).withChan client (some value.detached)) _ ↔ _
  rw [returns_chanDelRef now waits.detached_refs.1 waits.detached_refs.2, withChan_withChan]
  rfl

theorem limbo_inv (waits : Waits state client value) :
    IpcInv {(client, .tmp)} none (state.limbo client value) := by
  obtain ⟨kind, _, isClient, noPeer, _⟩ := waits.proper
  have limbo : value.detached.Ok True := by
    refine ⟨(waits.inv.chan.ok client value waits.found).1, ?_⟩
    simp [kind, isClient, noPeer]
  have detached := waits.inv.detach waits.found waits.inside value.detached ⟨rfl, rfl, rfl, rfl⟩
    rfl rfl limbo
  have now : ((state.unlisted client .waiting).withChan client (some value.detached)).chans client =
      some value.detached :=
    update_self _ _ _
  have returned :=
    (returns_chanDelRef now waits.detached_refs.1 waits.detached_refs.2 fun _ _ => True).mpr trivial
  obtain ⟨_, _, _, ⟨kept, rfl⟩, _⟩ :=
    Run.ensures_returns (dropNode_gives detached now rfl limbo) returned
  rw [withChan_withChan] at kept
  exact kept

/-- `_chan_shutdown_locked` asserts that a waiting channel is in a list. -/
theorem not_returns_chanShutdownLocked (found : state.chans chan = some value)
    (kind : value.state = .waitingForPort) (noNode : value.node = none)
    (post : Unit → IpcState → Prop) : ¬(chanShutdownLocked chan).returns state post := by
  simp [chanShutdownLocked, chanShutdownOne, found, kind, noNode]

def IpcChan.published (value : IpcChan) (mq : MsgQueue) (server : ChanId) : IpcChan :=
  (((value.detached.withoutRef .node).withQueue mq).attachedClient server).withoutRef .tmp

section

variable (waits : Waits state client value) (portFound : state.ports port = some portValue)

include waits portFound

theorem attachOrShutdown_returns (can : CanAttach portValue value state.memory) :
    (do attachOrShutdown port client; chanDelRef client .tmp).returns (state.limbo client value)
      fun _ final =>
      final = ((state.limbo client value).attach port portValue client
        (value.detached.withoutRef .node)).withChan client
        (some (value.published portValue.queue state.nextChan)) := by
  have found : (state.limbo client value).chans client = some (value.detached.withoutRef .node) :=
    update_self _ _ _
  have ne : client ≠ state.nextChan := Nat.ne_of_lt (waits.inv.chan.lt_next waits.found)
  have clientNew : .peer state.nextChan ∉ (value.detached.withoutRef .node).refs := by
    simp [waits.refs.2.2]
  have portThere : (state.limbo client value).ports port = some portValue := portFound
  have attached := portAttachClient_returns portThere found ne clientNew
    ⟨can.listening, can.allowed, can.plenty⟩
  simp only [attachOrShutdown, Run.returns_bind]
  refine Run.returns_mono attached ?_
  rintro ret final ⟨rfl, rfl⟩
  have now :
    ((state.limbo client value).attach port portValue client
      (value.detached.withoutRef .node)).chans client =
      some
        (((value.detached.withoutRef .node).withQueue portValue.queue).attachedClient
          state.nextChan) := by
    simp [attach, limbo, ne]
  rw [if_neg (by simp), Run.returns_pure, returns_chanDelRef now]
  · rfl
  · simp
  · exact Finset.ne_empty_of_mem
      (Finset.mem_erase.mpr ⟨by simp, Finset.mem_insert_self (ChanRef.peer state.nextChan) _⟩)

theorem canAttach_of_returns
    (returned : (do attachOrShutdown port client; chanDelRef client .tmp).returns
      (state.limbo client value) post) :
    CanAttach portValue value state.memory := by
  obtain ⟨kind, noQueue, isClient, _, _⟩ := waits.proper
  have found : (state.limbo client value).chans client = some (value.detached.withoutRef .node) :=
    update_self _ _ _
  simp only [attachOrShutdown, Run.returns_bind] at returned
  obtain ⟨ret, between, result, rest⟩ := returned
  by_cases success : ret = 0
  · have portThere : (state.limbo client value).ports port = some portValue := portFound
    obtain ⟨listening, allowed, plenty⟩ :=
      canAttach_of_zero portThere found ⟨ret, between, result, success⟩
    exact ⟨listening, allowed, plenty⟩
  · have attached :=
      Run.ensures_done (portAttachClient_gives (limbo_inv waits) (quiet_tmp client) found
      ⟨.inr kind, isClient, rfl, rfl⟩ noQueue) result
    rw [if_pos success] at rest
    exact (not_returns_chanShutdownLocked (attached.refused success) kind rfl _ rest).elim

end

/-! ### All waiting clients -/

def IpcState.serve (state : IpcState) (port : PortId) (portValue : IpcPort) (client : ChanId)
    (value : IpcChan) : IpcState :=
  ((state.limbo client value).attach port portValue client
    (value.detached.withoutRef .node)).withChan client
    (some (value.published portValue.queue state.nextChan))

theorem publishLoop_skip (found : state.chans client = some value)
    (portFound : state.ports port = some portValue) (hasPath : value.path = some path)
    (other : path ≠ portValue.path) (post : Unit → IpcState → Prop) :
    (publishLoop port (client :: rest)).returns state post ↔
    (publishLoop port rest).returns state post := by
  simp only [publishLoop, Run.returns_bind, returns_getChan, found, Option.some.injEq,
    exists_eq_left', returns_getPort, portFound, Run.returns_ofOption, hasPath, if_pos other]

section

variable (waits : Waits state client value) (portFound : state.ports port = some portValue)

include waits portFound

theorem publishLoop_serve (samePath : value.path = some portValue.path)
    (post : Unit → IpcState → Prop) : (publishLoop port (client :: rest)).returns state post ↔
      CanAttach portValue value state.memory ∧
        (publishLoop port rest).returns (state.serve port portValue client value) post := by
  have unfolded : (publishLoop port (client :: rest)).returns state post ↔
      (do
        modifyChan client fun value => { value with path := none }
        chanAddRef client .tmp
        listDelete client
        chanDelRef client .node
        attachOrShutdown port client
        chanDelRef client .tmp
        publishLoop port rest).returns state post := by
    rw [publishLoop, Run.returns_bind, returns_getChan]
    simp [waits.found, portFound, samePath]
  rw [unfolded, returns_toLimbo waits]
  have regrouped : ∀ other, (do
      attachOrShutdown port client
      chanDelRef client .tmp
      publishLoop port rest).returns other post ↔
      (do attachOrShutdown port client; chanDelRef client .tmp).returns other fun _ between =>
        (publishLoop port rest).returns between post := by
    intro other
    simp
  rw [regrouped]
  constructor
  · intro returned
    have can := canAttach_of_returns waits portFound returned
    exact ⟨can,
      (Run.returns_iff_of_final (attachOrShutdown_returns waits portFound can) _).mp returned⟩
  · rintro ⟨can, later⟩
    exact (Run.returns_iff_of_final (attachOrShutdown_returns waits portFound can) _).mpr later

theorem serve_inv (can : CanAttach portValue value state.memory) :
    IpcInv ∅ none (state.serve port portValue client value) := by
  obtain ⟨kind, noQueue, isClient, _, _⟩ := waits.proper
  have started : state.Later (state.limbo client value) :=
    .set waits.found rfl rfl (.of_same rfl rfl rfl rfl rfl)
  have gives : Gives (do attachOrShutdown port client; chanDelRef client .tmp)
    (state.limbo client value) fun _ final =>
      Keeps state final :=
    attachOrShutdown_gives waits.inv started (limbo_inv waits) (update_self _ _ _)
      ⟨.inr kind, isClient, rfl, rfl⟩ noQueue kind
  obtain ⟨_, _, _, ⟨kept, _⟩, rfl⟩ :=
    Run.ensures_returns gives (attachOrShutdown_returns waits portFound can)
  exact kept

end

theorem serve_other (notClient : other ≠ client) (notServer : other ≠ state.nextChan) :
    (state.serve port portValue client value).chans other = state.chans other := by
  simp [serve, attach, limbo, notClient, notServer]

theorem serve_server (ne : client ≠ state.nextChan) :
    (state.serve port portValue client value).chans state.nextChan =
      some
        (((IpcChan.fresh true (some portValue.uuid)).withQueue portValue.queue).attachedServer port
          client) := by
  simp [serve, attach, limbo, Ne.symm ne]

def WaitsFor (state : IpcState) (path : List UInt8) (client : ChanId) : Prop :=
  ∃ value, state.chans client = some value ∧ value.path = some path

instance (state : IpcState) (path : List UInt8) (client : ChanId) :
    Decidable (WaitsFor state path client) :=
  decidable_of_iff ((state.chans client).any (fun value => value.path == some path) = true) (by
    unfold WaitsFor
    cases state.chans client <;> simp)

/-- All clients that wait for the path may use the port, and there is memory for
the server channels and the queues. -/
structure Publishable (state : IpcState) (portValue : IpcPort) (clients : List ChanId) : Prop where
  allowed : ∀ client ∈ clients, ∀ value, state.chans client = some value →
    value.path = some portValue.path → checkAccess portValue value.uuid = 0
  plenty :
    Plenty state.memory
      (5 * (clients.filter fun client => WaitsFor state portValue.path client).length)

structure Published (before after : IpcState) (port : PortId) (portValue : IpcPort)
    (clients : List ChanId) : Prop where
  next : before.nextChan ≤ after.nextChan
  grown : ∃ new, after.ports port = some new ∧ new.state = portValue.state ∧
    new.listed = portValue.listed ∧ portValue.pendingList ⊆ new.pendingList
  portList : after.portList = before.portList
  waiting : ∀ other, other ∈ after.waiting ↔
    other ∈ before.waiting ∧ ¬(other ∈ clients ∧ WaitsFor before portValue.path other)
  connecting : ∀ client ∈ clients, WaitsFor before portValue.path client →
    ∃ new server serverValue, after.chans client = some new ∧ new.state = .connecting ∧
    new.peer = some server ∧
      after.chans server = some serverValue ∧ serverValue.state = .accepting ∧
      serverValue.peer = some client ∧
      ∀ portNow, after.ports port = some portNow → server ∈ portNow.pendingList
  untouched : ∀ other, other < before.nextChan →
    ¬(other ∈ clients ∧ WaitsFor before portValue.path other) →
    after.chans other = before.chans other

theorem Published.nil (portFound : state.ports port = some portValue) :
    Published state state port portValue [] := by
  refine ⟨le_rfl, ⟨portValue, portFound, rfl, rfl, fun _ mem => mem⟩, rfl, ?_, ?_, fun _ _ _ =>
    rfl⟩ <;> simp

theorem Published.skip (other : ¬WaitsFor state portValue.path client)
    (published : Published state after port portValue rest) :
    Published state after port portValue (client :: rest) := by
  have same : ∀ chan, (chan ∈ client :: rest ∧ WaitsFor state portValue.path chan) ↔
      (chan ∈ rest ∧ WaitsFor state portValue.path chan) := by
    intro chan
    rw [List.mem_cons]
    constructor
    · rintro ⟨rfl | mem, waits⟩
      · exact (other waits).elim
      · exact ⟨mem, waits⟩
    · rintro ⟨mem, waits⟩
      exact ⟨.inr mem, waits⟩
  refine ⟨published.next, published.grown, published.portList, ?_, ?_, ?_⟩
  · intro chan
    rw [same]
    exact published.waiting chan
  · intro chan mem waits
    exact published.connecting chan ((same chan).mp ⟨mem, waits⟩).1 waits
  · intro chan below notServed
    rw [same] at notServed
    exact published.untouched chan below notServed

theorem waitsFor_serve (notClient : other ≠ client) (notServer : other ≠ state.nextChan) :
    WaitsFor (state.serve port portValue client value) path other ↔ WaitsFor state path other := by
  unfold WaitsFor
  rw [serve_other notClient notServer]

theorem Published.serve (waits : Waits state client value)
    (samePath : value.path = some portValue.path)
    (others : ∀ other ∈ rest, other ≠ client ∧ other < state.nextChan)
    (published : Published (state.serve port portValue client value) after port
      (portValue.attached state.nextChan) rest) :
    Published state after port portValue (client :: rest) := by
  have below : client < state.nextChan := waits.inv.chan.lt_next waits.found
  have ne : client ≠ state.nextChan := Nat.ne_of_lt below
  have matches_ : WaitsFor state portValue.path client := ⟨value, waits.found, samePath⟩
  obtain ⟨portNow, portThere, kind, listed, grown⟩ := published.grown
  refine ⟨Nat.le_of_succ_le published.next, ⟨portNow, portThere, kind, listed, ?_⟩,
    published.portList, ?_, ?_, ?_⟩
  · intro server mem
    exact grown (List.mem_append_left _ mem)
  · intro other
    have erased : (state.serve port portValue client value).waiting = state.waiting.erase client :=
      rfl
    have nodup : state.waiting.Nodup := waits.inv.chan.homed.nodup .waiting
    rw [published.waiting, erased, nodup.mem_erase_iff]
    by_cases same : other = client
    · subst same
      simp [matches_]
    by_cases isServer : other = state.nextChan
    · subst isServer
      have fresh : state.nextChan ∉ state.waiting := by
        rw [mem_waiting_iff waits.inv]
        simp [nodeOf, waits.inv.chan.fresh state.nextChan le_rfl]
      simp [fresh]
    · rw [IpcPort.attached_path, waitsFor_serve same isServer, List.mem_cons]
      simp [same]
  · intro other mem otherWaits
    rcases List.mem_cons.mp mem with rfl | mem
    · have clientKept :
          after.chans other = (state.serve port portValue other value).chans other := by
        refine published.untouched other (Nat.lt_succ_of_lt below) ?_
        exact fun served => (others other served.1).1 rfl
      have serverKept : after.chans state.nextChan =
          (state.serve port portValue other value).chans state.nextChan := by
        refine published.untouched state.nextChan (Nat.lt_succ_self _) ?_
        exact fun served => (Nat.lt_irrefl _ (others state.nextChan served.1).2).elim
      refine ⟨value.published portValue.queue state.nextChan, state.nextChan, _, ?_, rfl, rfl,
        serverKept.trans (serve_server ne), rfl, rfl, ?_⟩
      · rw [clientKept]
        exact update_self _ _ _
      · intro now nowThere
        rw [portThere] at nowThere
        cases nowThere
        exact grown (List.mem_append_right _ (List.mem_singleton_self _))
    · obtain ⟨notClient, otherBelow⟩ := others other mem
      exact published.connecting other mem
        ((waitsFor_serve notClient (Nat.ne_of_lt otherBelow)).mpr otherWaits)
  · intro other otherBelow notServed
    have notClient : other ≠ client := by
      rintro rfl
      exact notServed ⟨List.mem_cons_self, matches_⟩
    have notServer : other ≠ state.nextChan := Nat.ne_of_lt otherBelow
    have kept : (state.serve port portValue client value).chans other = state.chans other :=
      serve_other notClient notServer
    rw [← kept]
    refine published.untouched other (Nat.lt_succ_of_lt otherBelow) ?_
    rintro ⟨mem, otherWaits⟩
    exact notServed ⟨List.mem_cons_of_mem _ mem, (waitsFor_serve notClient notServer).mp otherWaits⟩

theorem publishable_skip_iff (other : ¬WaitsFor state portValue.path client) :
    Publishable state portValue (client :: rest) ↔ Publishable state portValue rest := by
  have filtered : (client :: rest).filter (fun client => WaitsFor state portValue.path client) =
      rest.filter fun client => WaitsFor state portValue.path client := by
    simp [other]
  constructor
  · rintro ⟨allowed, plenty⟩
    rw [filtered] at plenty
    exact ⟨fun chan mem => allowed chan (List.mem_cons_of_mem client mem), plenty⟩
  · rintro ⟨allowed, plenty⟩
    refine ⟨?_, filtered ▸ plenty⟩
    intro chan mem value found samePath
    rcases List.mem_cons.mp mem with rfl | mem
    · exact (other ⟨value, found, samePath⟩).elim
    · exact allowed chan mem value found samePath

theorem publishable_serve_iff (found : state.chans client = some value)
    (listening : portValue.state = .listening) (samePath : value.path = some portValue.path)
    (others : ∀ other ∈ rest, other ≠ client ∧ other < state.nextChan) :
    Publishable state portValue (client :: rest) ↔ CanAttach portValue value state.memory ∧
      Publishable (state.serve port portValue client value)
      (portValue.attached state.nextChan) rest := by
  have same :
      ∀ other ∈ rest, (state.serve port portValue client value).chans other = state.chans other :=
    fun other mem => serve_other (others other mem).1 (Nat.ne_of_lt (others other mem).2)
  have filtered : (client :: rest).filter (fun client => WaitsFor state portValue.path client) =
      client :: rest.filter fun other =>
        WaitsFor (state.serve port portValue client value)
          (portValue.attached state.nextChan).path other := by
    have waits : WaitsFor state portValue.path client := ⟨value, found, samePath⟩
    rw [List.filter_cons_of_pos (by simpa using waits)]
    congr 1
    refine List.filter_congr fun other mem => ?_
    simp [waitsFor_serve (others other mem).1 (Nat.ne_of_lt (others other mem).2)]
  have memory : (state.serve port portValue client value).memory = state.memory.drop 5 := rfl
  constructor
  · rintro ⟨allowed, plenty⟩
    rw [filtered, List.length_cons, Nat.mul_succ, Nat.add_comm, plenty_add_iff] at plenty
    refine ⟨⟨listening, allowed client List.mem_cons_self value found samePath, plenty.1⟩, ?_,
      memory ▸ plenty.2⟩
    intro other mem otherValue otherFound otherPath
    rw [same other mem] at otherFound
    exact allowed other (List.mem_cons_of_mem client mem) otherValue otherFound otherPath
  · rintro ⟨⟨_, clientAllowed, first⟩, allowed, plenty⟩
    refine ⟨?_, ?_⟩
    · intro other mem otherValue otherFound otherPath
      rcases List.mem_cons.mp mem with rfl | mem
      · rw [found] at otherFound
        cases otherFound
        exact clientAllowed
      · exact allowed other mem otherValue ((same other mem).trans otherFound) otherPath
    · rw [filtered, List.length_cons, Nat.mul_succ, Nat.add_comm, plenty_add_iff]
      exact ⟨first, memory ▸ plenty⟩

theorem publishLoop_returns_iff (clients : List ChanId) (inv : IpcInv ∅ none state)
    (portFound : state.ports port = some portValue) (listening : portValue.state = .listening)
    (nodup : clients.Nodup)
    (waiting : ∀ client ∈ clients, nodeOf state.chans client = some .waiting) :
    (Publishable state portValue clients →
      (publishLoop port clients).returns state fun _ final =>
        Published state final port portValue clients) ∧
    (((publishLoop port clients).returns state fun _ _ => True) →
      Publishable state portValue clients) := by
  induction clients generalizing state portValue with
  | nil =>
    refine ⟨fun _ => (Run.returns_pure _).mpr (.nil portFound), fun _ => ⟨?_, ?_⟩⟩
    · simp
    · simp [Plenty]
  | cons client rest ih =>
    obtain ⟨notMem, restNodup⟩ := List.nodup_cons.mp nodup
    obtain ⟨value, found, inside⟩ := Option.bind_eq_some_iff.mp (waiting client List.mem_cons_self)
    have waits : Waits state client value := ⟨inv, found, inside⟩
    obtain ⟨path, hasPath⟩ := Option.ne_none_iff_exists'.mp waits.proper.2.2.2.2
    have restWaiting : ∀ other ∈ rest, nodeOf state.chans other = some .waiting :=
      fun other mem => waiting other (List.mem_cons_of_mem client mem)
    by_cases samePath : path = portValue.path
    · subst samePath
      have others : ∀ other ∈ rest, other ≠ client ∧ other < state.nextChan := by
        intro other mem
        obtain ⟨otherValue, otherFound, _⟩ := Option.bind_eq_some_iff.mp (restWaiting other mem)
        refine ⟨?_, inv.chan.lt_next otherFound⟩
        rintro rfl
        exact notMem mem
      have next : ∀ can : CanAttach portValue value state.memory, _ := fun can =>
        ih (serve_inv waits portFound can) (update_self _ _ _) listening restNodup
          fun other mem => by
          rw [nodeOf, serve_other (others other mem).1 (Nat.ne_of_lt (others other mem).2)]
          exact restWaiting other mem
      simp only [publishLoop_serve waits portFound hasPath]
      constructor
      · intro publishable
        obtain ⟨can, later⟩ := (publishable_serve_iff found listening hasPath others).mp publishable
        exact ⟨can, Run.returns_mono ((next can).1 later) fun _ _ published =>
          published.serve waits hasPath others⟩
      · rintro ⟨can, returned⟩
        exact (publishable_serve_iff found listening hasPath others).mpr
          ⟨can, (next can).2 returned⟩
    · have other : ¬WaitsFor state portValue.path client := by
        rintro ⟨otherValue, otherFound, otherPath⟩
        rw [found] at otherFound
        cases otherFound
        rw [hasPath] at otherPath
        exact samePath (Option.some.inj otherPath)
      simp only [publishLoop_skip found portFound hasPath samePath]
      obtain ⟨forward, backward⟩ := ih inv portFound listening restNodup restWaiting
      constructor
      · intro publishable
        exact Run.returns_mono (forward ((publishable_skip_iff other).mp publishable))
          fun _ _ published =>
          published.skip other
      · exact fun returned => (publishable_skip_iff other).mpr (backward returned)

/-! ### Publishing -/

def ConnectingTo (state : IpcState) (port : PortId) (client : ChanId) : Prop :=
  ∃ value server serverValue portValue, state.chans client = some value ∧
    value.state = .connecting ∧ value.peer = some server ∧ state.chans server = some serverValue ∧
    serverValue.state = .accepting ∧
    serverValue.peer = some client ∧ state.ports port = some portValue ∧
      server ∈ portValue.pendingList

/-- `ipc_port_publish` returns.  Either the path is taken and nothing changes, or
the port is listed, every client that waited for it is connected or hung up, and
the other clients are as before. -/
def PublishCorrect (state : IpcState) (port : PortId) (portValue : IpcPort) : Prop :=
  (ipcPortPublish port).returns state fun reply final =>
    (reply.ret = errAlreadyExists ∧ final = state) ∨
      (reply.ret = 0 ∧ port ∈ final.portList ∧
        (∃ new, final.ports port = some new ∧ new.state = .listening ∧ new.listed = true) ∧
        ∀ client ∈ state.waiting, ∀ value, state.chans client = some value →
          if value.path = some portValue.path then
            (ConnectingTo final port client ∧ checkAccess portValue value.uuid = 0) ∨
              ∃ after, final.chans client = some after ∧ after.state = .disconnecting ∧
              after.notified = true
          else client ∈ final.waiting ∧ final.chans client = some value)

theorem publishLoop_listing_iff (inv : IpcInv ∅ none state)
    (portFound : state.ports port = some portValue) (unlisted : portValue.listed = false)
    (missing : ∀ other otherValue, other ∈ state.portList → state.ports other = some otherValue →
      otherValue.path ≠ portValue.path) :
    (Publishable state portValue state.waiting →
      (publishLoop port state.waiting).returns (state.listing port portValue) fun _ final =>
        Published (state.listing port portValue) final port portValue.listing state.waiting) ∧
    (((publishLoop port state.waiting).returns (state.listing port portValue) fun _ _ => True) →
      Publishable state portValue state.waiting) := by
  have listed : (state.listing port portValue).ports port = some portValue.listing :=
    update_self _ _ _
  obtain ⟨forward, backward⟩ :=
    publishLoop_returns_iff state.waiting (inv.listing portFound unlisted missing) listed rfl
      (inv.chan.homed.nodup .waiting) fun client mem => (mem_waiting_iff inv).mp mem
  refine ⟨fun publishable => forward ⟨publishable.allowed, publishable.plenty⟩, fun returned => ?_⟩
  have publishable := backward returned
  exact ⟨publishable.allowed, publishable.plenty⟩

theorem publish_result (inv : IpcInv ∅ none state)
    {final : IpcState} (publishable : Publishable state portValue state.waiting)
    (published :
      Published (state.listing port portValue) final port portValue.listing state.waiting) :
    port ∈ final.portList ∧
    (∃ new, final.ports port = some new ∧ new.state = .listening ∧ new.listed = true) ∧
      ∀ client ∈ state.waiting, ∀ value, state.chans client = some value →
        if value.path = some portValue.path then
          (ConnectingTo final port client ∧ checkAccess portValue value.uuid = 0) ∨
            ∃ after, final.chans client = some after ∧ after.state = .disconnecting ∧
            after.notified = true
        else client ∈ final.waiting ∧ final.chans client = some value := by
  obtain ⟨portNow, portThere, kind, listed, _⟩ := published.grown
  refine ⟨?_, ⟨portNow, portThere, kind, listed⟩, ?_⟩
  · rw [published.portList]
    exact List.mem_append_right _ (List.mem_singleton_self port)
  intro client mem value found
  have waits_iff : WaitsFor (state.listing port portValue) portValue.listing.path client ↔
      value.path = some portValue.path := by
    simp [WaitsFor, found]
  split
  · rename_i samePath
    left
    obtain ⟨new, server, serverValue, newFound, connecting, pointer, serverFound, accepting,
        back, pending⟩ :=
      published.connecting client mem (waits_iff.mpr samePath)
    exact ⟨⟨new, server, serverValue, portNow, newFound, connecting, pointer, serverFound,
      accepting, back, portThere, pending portNow portThere⟩,
      publishable.allowed client mem value found samePath⟩
  · rename_i otherPath
    have notServed :
        ¬(client ∈ state.waiting ∧
          WaitsFor (state.listing port portValue) portValue.listing.path client) :=
      fun served => otherPath (waits_iff.mp served.2)
    refine ⟨(published.waiting client).mpr ⟨mem, notServed⟩, ?_⟩
    rw [published.untouched client (inv.chan.lt_next found) notServed]
    exact found

/-- A port can be published if its path is taken, or if all clients that wait for
it may use it and no allocation fails. -/
theorem publish_correct_iff (reachable : IpcReachable state) (memory : List Bool)
    (portFound : state.ports port = some portValue) :
    PublishCorrect { state with memory := memory } port portValue ↔
      portValue.listed = false ∧
        ((∃ other otherValue, other ∈ state.portList ∧ state.ports other = some otherValue ∧
          otherValue.path = portValue.path) ∨
          Publishable { state with memory := memory } portValue state.waiting) := by
  have inv := reachable.inv.memory memory
  change PublishCorrect (state.withMemory memory) port portValue ↔ portValue.listed = false ∧
    (_ ∨ Publishable (state.withMemory memory) portValue (state.withMemory memory).waiting)
  have portThere : (state.withMemory memory).ports port = some portValue := portFound
  unfold PublishCorrect
  simp only [ipcPortPublish, portFindLocked, Run.returns_bind, returns_getPort, portThere,
    Option.some.injEq, exists_eq_left', Run.returns_require, Run.returns_read, Run.returns_pure]
  refine and_congr_right fun unlisted => ?_
  split
  · rename_i other taken
    obtain ⟨otherValue, otherFound, samePath⟩ : ∃ otherValue, state.ports other = some otherValue ∧
        otherValue.path = portValue.path := by
      simpa [Option.any_eq_true] using List.find?_some taken
    refine iff_of_true ?_
      (.inl ⟨other, otherValue, List.mem_of_find?_eq_some taken, otherFound, samePath⟩)
    rw [Run.returns_pure]
    exact .inl ⟨rfl, rfl⟩
  rename_i missing
  have ne := portFind_eq_none_iff.mp missing
  obtain ⟨forward, backward⟩ := publishLoop_listing_iff inv portThere unlisted ne
  simp only [Run.returns_bind, returns_modifyPort, Run.returns_modify, portIncref, Run.returns_read,
    portThere, update_self, Option.some.injEq, exists_eq_left', withPort,
    update_idem, Run.returns_pure]
  constructor
  · intro returned
    exact .inr (backward (Run.returns_mono returned fun _ _ _ => trivial))
  · rintro (⟨other, otherValue, mem, otherFound, samePath⟩ | publishable)
    · exact (ne other otherValue mem otherFound samePath).elim
    · refine Run.returns_mono (forward publishable) fun _ final published => .inr ⟨rfl, ?_⟩
      exact publish_result inv publishable published

def waitingClient : List (IpcCall × List Bool) :=
  [(.portConnect (some (.app 7)) [112] 64 1, []), (.portCreate (some (.app 1)) [112] 2 8 1, [])]

theorem publish_correct_waiting : ∃ state portValue, ipcPlay waitingClient .empty = some state ∧
    state.ports 0 = some portValue ∧
    PublishCorrect { state with memory := [true, true] } 0 portValue := by
  have played :
    (ipcPlay waitingClient .empty).map (fun state => ((state.ports 0).map fun portValue =>
      (portValue.listed, decide (∀ client ∈ state.waiting, (state.chans client).all fun value =>
        checkAccess portValue value.uuid == 0)))) = some (some (false, true)) := by
    decide +kernel
  obtain ⟨state, played, facts⟩ := Option.map_eq_some_iff.mp played
  obtain ⟨portValue, portFound, facts⟩ := Option.map_eq_some_iff.mp facts
  simp only [Prod.mk.injEq, decide_eq_true_eq] at facts
  refine ⟨state, portValue, played, portFound, ?_⟩
  refine (publish_correct_iff (IpcReachable.play waitingClient .empty played) _ portFound).mpr
    ⟨facts.1, .inr ⟨?_, ?_⟩⟩
  · intro client mem value found _
    have there : state.chans client = some value := found
    have passes := facts.2 client mem
    rw [there] at passes
    simpa using passes
  · intro answer mem
    have inside := List.mem_of_mem_take mem
    simpa using inside

/-- A client that may not use the port waits for it: publishing the port stops at
an assertion. -/
def deniedClient : List (IpcCall × List Bool) :=
  [(.portConnect (some (.app 7)) [112] 64 1, []), (.portCreate (some (.app 1)) [112] 2 8 0, [])]

theorem publish_denied :
    ∃ state portValue, ipcPlay deniedClient .empty = some state ∧ IpcReachable state ∧
    IpcCall.holdsPort state 0 = true ∧ state.ports 0 = some portValue ∧ portValue.listed = false ∧
    ¬PublishCorrect state 0 portValue := by
  have played : (ipcPlay deniedClient .empty).map (fun state => (IpcCall.holdsPort state 0,
      (state.ports 0).map IpcPort.listed, match ipcPortPublish 0 state with
        | .aborted => true
        | _ => false)) = some (true, some false, true) := by
    decide +kernel
  obtain ⟨state, played, facts⟩ := Option.map_eq_some_iff.mp played
  simp only [Prod.mk.injEq] at facts
  obtain ⟨held, unlisted, stopped⟩ := facts
  obtain ⟨portValue, portFound, unlisted⟩ := Option.map_eq_some_iff.mp unlisted
  refine ⟨state, portValue, played, IpcReachable.play deniedClient .empty played, held, portFound,
    unlisted, ?_⟩
  rintro ⟨reply, final, returned, _⟩
  rw [returned] at stopped
  cases stopped

end Trusty.Ipc
