import Trusty.Ipc.ChannelSteps

/-!
Connecting to a port keeps the invariant.
-/

namespace Trusty.Ipc

open Lib Function IpcState

variable {state : IpcState} {extra : Finset (ChanId × ChanRef)} {owed : Option PortId}
  {chan client server : ChanId} {port : PortId} {value clientValue serverValue : IpcChan}
  {portValue : IpcPort}

/-! ### Connecting -/

@[simps]
def IpcChan.fresh (server : Bool) (uuid : Option Uuid) : IpcChan where
  refs := {.tmp}
  peer := none
  uuid := uuid
  state := .invalid
  server := server
  sendBlocked := false
  sendUnblocked := false
  connectedEvent := false
  handle := none
  notified := false
  node := none
  msgQueue := none
  path := none

@[simps -fullyApplied]
def IpcState.withNext (state : IpcState) : IpcState := { state with nextChan := state.nextChan + 1 }

@[simp]
theorem IpcState.withMemory_withNext (memory : List Bool) :
    state.withNext.withMemory memory = (state.withMemory memory).withNext :=
  rfl

theorem gives_chanAlloc {isServer : Bool} {uuid : Option Uuid}
    {post : Option ChanId → IpcState → Prop}
    (missing : ∀ memory, post none (state.withMemory memory))
    (made : ∀ memory, post (some state.nextChan)
      ((state.withMemory memory).withNext.withChan state.nextChan
        (some (.fresh isServer uuid)))) :
    Gives (chanAlloc isServer uuid) state post := by
  unfold chanAlloc
  refine (Run.ensures_bind _ _ _).mpr (gives_allocate ?_)
  intro answer memory
  cases answer with
  | false => simpa using missing memory
  | true =>
    exact made memory

theorem IpcInv.alloc (inv : IpcInv extra owed state) (memory : List Bool) (isServer : Bool)
    (uuid : Option Uuid) :
    IpcInv (insert (state.nextChan, .tmp) extra) owed
      ((state.withMemory memory).withNext.withChan state.nextChan
        (some (.fresh isServer uuid))) := by
  refine ⟨inv.chan.add rfl rfl rfl rfl ?_, inv.port⟩
  simp [IpcChan.Ok]

theorem gives_msgQueueCreate {numItems itemSz : Nat} {post : Option MsgQueue → IpcState → Prop}
    (missing : ∀ memory, post none (state.withMemory memory))
    (made : ∀ memory, post (some (ipcMsgQueueCreate numItems itemSz)) (state.withMemory memory)) :
    Gives (msgQueueCreate numItems itemSz) state post := by
  unfold msgQueueCreate
  refine (Run.ensures_bind _ _ _).mpr (gives_allocate ?_)
  intro answer memory
  cases answer with
  | false => simpa using missing memory
  | true =>
    refine (Run.ensures_bind _ _ _).mpr (gives_allocate ?_)
    intro answer memory
    cases answer with
    | false => simpa using missing memory
    | true => simpa using made memory

/-- The server channel, the client channel and the port after `port_attach_client`. -/
@[simps]
def IpcChan.attachedServer (value : IpcChan) (port : PortId) (client : ChanId) : IpcChan :=
  { value with
    state := .accepting
    peer := some client
    node := some (.pending port)
    refs := (insert .node (insert (.peer client) value.refs)).erase .tmp }

@[simps]
def IpcChan.attachedClient (value : IpcChan) (server : ChanId) : IpcChan :=
  { value with state := .connecting, peer := some server, refs := insert (.peer server) value.refs }

@[simps]
def IpcPort.attached (value : IpcPort) (server : ChanId) : IpcPort :=
  { value with
    pendingList := value.pendingList ++ [server], refcnt := value.refcnt + 1, notified := true }

theorem gives_attachQueues (clientFound : state.chans client = some clientValue)
    (serverFound : state.chans server = some serverValue) (ne : client ≠ server)
    {post : Unit → IpcState → Prop} (holds : ∀ portValue, state.ports port = some portValue →
      post () (((state.withChan client (some (clientValue.attachedClient server))).withChan server
        (some (serverValue.attachedServer port client))).withPort port
        (some (portValue.attached server)))) :
    Gives (attachQueues port client server) state post := by
  simp only [attachQueues, chanAddRef, addPending, portIncref, chanDelRef, Run.ensures_bind,
    gives_modifyChan, gives_getChan, gives_setChan, gives_modifyPort, Run.ensures_require,
    withChan_chans, withPort_chans,
    withChan_ports, withPort_ports,
    update_self, update_of_ne ne, update_of_ne (Ne.symm ne), clientFound,
    serverFound, Option.some.injEq, forall_eq']
  intro _ _ _ portValue portFound _
  have kept : (insert ChanRef.node (insert (ChanRef.peer client) serverValue.refs)).erase
      .tmp ≠ ∅ := by
    refine Finset.ne_empty_of_mem (a := .node) ?_
    simp
  rw [if_neg kept]
  have reached := holds portValue portFound
  rw [Run.ensures_pure]
  convert reached using 1
  simp only [withChan, withPort, update_idem, mk.injEq, true_and, and_true]
  constructor
  · funext other
    by_cases isServer : other = server
    · subst isServer
      simp [IpcChan.attachedServer]
    · by_cases isClient : other = client
      · subst isClient
        simp [isServer, IpcChan.attachedClient]
      · simp [isServer, isClient]
  · rfl

theorem Quiet.notMem (quiet : Quiet extra) {ref : ChanRef} (notTmp : ref ≠ .tmp) :
    (chan, ref) ∉ extra :=
  fun mem => notTmp (quiet chan ref mem)

theorem Quiet.insert (quiet : Quiet extra) (chan : ChanId) : Quiet (insert (chan, .tmp) extra) := by
  intro other ref mem
  rw [Finset.mem_insert] at mem
  rcases mem with same | mem
  · cases same
    rfl
  · exact quiet other ref mem

structure Attachable (value : IpcChan) : Prop where
  kind : value.state = .invalid ∨ value.state = .waitingForPort
  isClient : value.server = false
  noNode : value.node = none
  noPath : value.path = none

theorem IpcInv.attach (inv : IpcInv extra none state) (quiet : Quiet extra)
    (clientFound : state.chans client = some clientValue)
    (serverFound : state.chans server = some serverValue)
    (portFound : state.ports port = some portValue) (ne : client ≠ server)
    (attachable : Attachable clientValue) (clientQueue : clientValue.msgQueue ≠ none)
    (serverKind : serverValue.state = .invalid) (isServer : serverValue.server = true)
    (serverQueue : serverValue.msgQueue ≠ none) :
    IpcInv (extra.erase (server, .tmp)) none
      (((state.withChan client (some (clientValue.attachedClient server))).withChan server
        (some (serverValue.attachedServer port client))).withPort port
        (some (portValue.attached server))) := by
  have clientAlone := inv.chan.alone clientFound attachable.kind
  have serverAlone := inv.chan.alone serverFound (.inl serverKind)
  have serverOk := inv.chan.ok server serverValue serverFound
  have clientOk := inv.chan.ok client clientValue clientFound
  have serverRest := serverOk.2
  rw [serverKind] at serverRest
  obtain ⟨_, _, serverNode, serverPath⟩ := serverRest
  have clientPeer : clientValue.peer = none := by rw [← peerOf_eq clientFound, clientAlone.1]
  have serverPeer : serverValue.peer = none := by rw [← peerOf_eq serverFound, serverAlone.1]
  refine ⟨?_, ?_⟩
  · simp only [withPort_chans, withChan_chans, withPort_nextChan, withChan_nextChan,
      withPort_waiting, withChan_waiting, withPort_ports, withChan_ports]
    refine inv.chan.update_pair clientFound serverFound ne ?_ (.inl clientPeer) (.inl serverPeer)
      (.inr rfl) (.inr rfl) ?_ ?_ ?_ ?_ ?_ ?_ ?_ ?_ ?_ ?_ ?_
    · exact fun other _ _ => ⟨clientAlone.2 other, serverAlone.2 other⟩
    · exact inv.chan.paired.connect ne clientAlone.2 serverAlone.2
    · rw [listsOf_update]
      have same : update (nodeOf state.chans) client (clientValue.attachedClient server).node =
          nodeOf state.chans := by
        rw [IpcChan.attachedClient_node, ← nodeOf_eq clientFound, update_eq_self]
      rw [same]
      have appended :=
        inv.chan.homed.append (.pending port) ((nodeOf_eq serverFound).trans serverNode)
      rw [listsOf_pending _ portFound] at appended
      exact appended
    · intro other _ notServer ref
      simp [notServer]
    · intro ref
      simp only [IpcChan.attachedClient_refs, Finset.mem_insert,
        inv.chan.refs client clientValue clientFound ref]
      cases ref with
      | tmp => simp [Reason, ne]
      | _ => simp [Reason, quiet.notMem, clientAlone.2]
    · intro ref
      simp only [IpcChan.attachedServer_refs, Finset.mem_erase, Finset.mem_insert,
        inv.chan.refs server serverValue serverFound ref]
      cases ref with
      | tmp => simp
      | _ => simp [Reason, quiet.notMem, serverAlone.2]
    · simp
    · exact Finset.ne_empty_of_mem (a := .node) (by simp)
    · intro _
      refine ⟨by simp [isServer, attachable.isClient], .inr ⟨rfl, .inr (.inl ⟨rfl, rfl⟩)⟩⟩
    · intro _
      refine ⟨by simp [isServer, attachable.isClient], .inr ⟨rfl, .inr (.inr ⟨rfl, rfl⟩)⟩⟩
    · refine ⟨clientOk.1, ?_⟩
      simp [attachable.isClient, attachable.noPath, attachable.noNode, clientQueue]
    · refine ⟨serverOk.1, ?_⟩
      simp [isServer, serverPath, serverQueue]
  · refine inv.port.update_same portFound rfl rfl rfl ?_ (fun _ _ => Iff.rfl)
    have count := inv.port.counted port portValue portFound
    simp only [IpcPort.accounted, IpcPort.attached_refcnt, IpcPort.attached_held,
      IpcPort.attached_listed, IpcPort.attached_pendingList, List.length_append,
      List.length_singleton] at count ⊢
    omega

@[simps]
def IpcChan.withQueue (value : IpcChan) (mq : MsgQueue) : IpcChan :=
  { value with msgQueue := some mq }

theorem IpcInv.queue (inv : IpcInv extra owed state) (found : state.chans chan = some value)
    (kind : value.state = .invalid ∨ value.state = .waitingForPort) (noNode : value.node = none)
    {mq : MsgQueue} (good : mq.Partitioned ∧ mq.numItems ≤ ipcChanMaxBufs) :
    IpcInv extra owed (state.withChan chan (some (value.withQueue mq))) := by
  refine inv.touch found rfl rfl rfl rfl rfl Iff.rfl ⟨?_, ?_⟩
  · intro other same
    cases same
    exact good
  have rest := (inv.chan.ok chan value found).2
  simp only [IpcChan.withQueue_state, IpcChan.withQueue_peer, IpcChan.withQueue_node,
    IpcChan.withQueue_path, IpcChan.withQueue_server]
  rcases kind with same | same <;> rw [same] at rest ⊢
  · exact rest
  refine ⟨rest.1, rest.2.1, .inr ?_⟩
  rcases rest.2.2 with ⟨listed, _⟩ | limbo
  · rw [noNode] at listed
    cases listed
  · exact limbo

theorem IpcInv.memory (inv : IpcInv extra owed state) (memory : List Bool) :
    IpcInv extra owed (state.withMemory memory) :=
  ⟨inv.chan, inv.port⟩

/-- The queues of a connection to the port. -/
def IpcPort.queue (value : IpcPort) : MsgQueue :=
  ipcMsgQueueCreate value.numRecvBufs value.recvBufSize

theorem queue_good (inv : IpcInv extra owed state) (portFound : state.ports port = some portValue) :
    portValue.queue.Partitioned ∧ portValue.queue.numItems ≤ ipcChanMaxBufs := by
  have small := inv.port.sized port portValue portFound
  exact ⟨MsgQueue.create_partitioned _ (le_trans small (by decide)), small⟩

structure AttachResult (extra : Finset (ChanId × ChanRef)) (before : IpcState) (client : ChanId)
    (value : IpcChan) (ret : Int) (after : IpcState) : Prop where
  inv : IpcInv extra none after
  later : before.Later after
  refused : ret ≠ 0 → after.chans client = some value
  attached : ret = 0 → ∃ new, after.chans client = some new ∧ ∀ held : Prop, new.Ok held

section

variable (inv : IpcInv extra none state)

include inv

theorem dropFresh_gives (found : state.chans chan = some value) (fresh : value.refs = {.tmp}) :
    Gives (chanDelRef chan .tmp) state fun _ final =>
      IpcInv (extra.erase (chan, .tmp)) none final ∧ final = state.withChan chan none := by
  refine (chanDelRef_gives inv found id ?_).mono ?_
  · intro kept
    exact (kept (by simp [fresh])).elim
  rintro _ final ⟨kept, new, rfl, only⟩
  cases new with
  | none => exact ⟨kept, rfl⟩
  | some after =>
    have same := only after rfl
    subst same
    refine (kept.chan.kept chan _ (update_self _ _ _) ?_).elim
    simp [fresh]

section

variable (quiet : Quiet extra) (clientFound : state.chans client = some clientValue)
  (attachable : Attachable clientValue) (noQueue : clientValue.msgQueue = none)

include quiet clientFound attachable noQueue

theorem attachQueues_gives (portFound : state.ports port = some portValue) (memory : List Bool) :
    Gives (do attachQueues port client state.nextChan; pure 0)
      ((((state.withMemory memory).withNext.withChan state.nextChan
        (some (.fresh true (some portValue.uuid)))).withChan
        client (some (clientValue.withQueue portValue.queue))).withChan state.nextChan
        (some ((IpcChan.fresh true (some portValue.uuid)).withQueue portValue.queue)))
      fun ret final => AttachResult extra state client clientValue ret final := by
  have ne : client ≠ state.nextChan := Nat.ne_of_lt (inv.chan.lt_next clientFound)
  have newServer : (state.nextChan, .tmp) ∉ extra := by
    intro mem
    exact inv.chan.extraAlive _ _ mem (inv.chan.fresh _ le_rfl)
  have good := queue_good inv portFound
  have allocated := inv.alloc memory true (some portValue.uuid)
  have clientThere : ((state.withMemory memory).withNext.withChan state.nextChan
      (some (.fresh true (some portValue.uuid)))).chans client = some clientValue := by
    simp [ne, clientFound]
  have clientQueued := allocated.queue clientThere attachable.kind attachable.noNode good
  have serverThere : (((state.withMemory memory).withNext.withChan state.nextChan
      (some (.fresh true (some portValue.uuid)))).withChan client
      (some (clientValue.withQueue portValue.queue))).chans
      state.nextChan = some (.fresh true (some portValue.uuid)) := by
    simp [Ne.symm ne]
  have queued := clientQueued.queue serverThere (.inl rfl) rfl good
  -- from here on only what the two channels and the others are matters
  obtain ⟨start, start_eq⟩ :
    ∃ start, start = ((((state.withMemory memory).withNext.withChan state.nextChan
      (some (.fresh true (some portValue.uuid)))).withChan client
      (some (clientValue.withQueue portValue.queue))).withChan state.nextChan
      (some ((IpcChan.fresh true (some portValue.uuid)).withQueue portValue.queue))) := ⟨_, rfl⟩
  rw [← start_eq] at queued ⊢
  have clientNow : start.chans client = some (clientValue.withQueue portValue.queue) := by
    simp [start_eq, ne]
  have serverNow : start.chans state.nextChan =
      some ((IpcChan.fresh true (some portValue.uuid)).withQueue portValue.queue) := by
    simp [start_eq]
  have others : ∀ other, other ≠ client → other ≠ state.nextChan →
      start.chans other = state.chans other := by
    intro other notClient notServer
    simp [start_eq, notClient, notServer]
  have next : start.nextChan = state.nextChan + 1 := by simp [start_eq]
  refine (Run.ensures_bind _ _ _).mpr (gives_attachQueues clientNow serverNow ne ?_)
  intro portNow portThere
  have attached := queued.attach (quiet.insert state.nextChan) clientNow serverNow portThere ne
    ⟨attachable.kind, attachable.isClient, attachable.noNode, attachable.noPath⟩
    (by simp) rfl rfl (by simp)
  rw [Finset.erase_insert newServer] at attached
  refine Gives.pure ⟨attached, ?_, fun contra => (contra rfl).elim, fun _ => ?_⟩
  · refine .of_changed (by simp [next]) fun other => ?_
    by_cases isClient : other = client
    · subst isClient
      refine .inr (.inl ⟨clientValue, clientFound, fun after found => ?_⟩)
      simp only [withPort_chans, withChan_chans, update_of_ne ne, update_self,
        Option.some.injEq] at found
      subst found
      refine ⟨?_, .inr ⟨noQueue, .inr ⟨_, _, rfl⟩⟩, ?_, rfl, .inl⟩ <;>
        rcases attachable.kind with kind | kind <;> simp [kind]
    · by_cases isServer : other = state.nextChan
      · subst isServer
        refine .inr (.inr ⟨le_rfl, inv.chan.fresh _ le_rfl, fun after found => ?_⟩)
        simp only [withPort_chans, withChan_chans, update_self, Option.some.injEq] at found
        subst found
        exact ⟨.inr ⟨_, _, rfl⟩, rfl⟩
      · left
        simp [isClient, isServer, others other isClient isServer]
  · have found : ((((start.withChan client
        (some ((clientValue.withQueue portValue.queue).attachedClient state.nextChan))).withChan
        state.nextChan
        (some
          (((IpcChan.fresh true (some portValue.uuid)).withQueue portValue.queue).attachedServer
            port
          client))).withPort port (some (portNow.attached state.nextChan)))).chans client =
        some ((clientValue.withQueue portValue.queue).attachedClient state.nextChan) := by
      simp [ne]
    exact ⟨_, found, fun _ => attached.chan.ok client _ found⟩

theorem portAttachClient_gives : Gives (portAttachClient port client) state fun ret final =>
      AttachResult extra state client clientValue ret final := by
  have refused : ∀ ret memory, ret ≠ 0 →
      AttachResult extra state client clientValue ret (state.withMemory memory) :=
    fun ret memory failed =>
      ⟨inv.memory memory, .of_same rfl rfl, fun _ => clientFound, fun zero => (failed zero).elim⟩
  have ne : client ≠ state.nextChan := Nat.ne_of_lt (inv.chan.lt_next clientFound)
  have newServer : (state.nextChan, .tmp) ∉ extra := by
    intro mem
    exact inv.chan.extraAlive _ _ mem (inv.chan.fresh _ le_rfl)
  simp only [portAttachClient, Run.ensures_bind, gives_getPort]
  intro portValue portFound
  split
  · exact refused _ state.memory (by decide)
  simp only [Run.ensures_bind, gives_getChan, clientFound, Option.some.injEq, forall_eq']
  split
  · rename_i denied
    exact refused _ state.memory denied
  refine (Run.ensures_bind _ _ _).mpr
    (gives_chanAlloc (fun memory => refused _ memory (by decide)) ?_)
  intro memory
  -- without memory for a queue the server channel goes again
  have dropped : ∀ memory, Gives (do chanDelRef state.nextChan .tmp; pure errNoMemory)
      (((state.withMemory memory).withNext).withChan state.nextChan
        (some (.fresh true (some portValue.uuid))))
      fun ret final => AttachResult extra state client clientValue ret final := by
    intro memory
    refine (dropFresh_gives (inv.alloc memory true (some portValue.uuid))
      (update_self _ _ _) rfl).bind ?_
    rintro _ final ⟨kept, rfl⟩
    rw [Finset.erase_insert newServer] at kept
    refine Gives.pure ⟨kept, ?_, fun _ => ?_, fun contra => absurd contra (by decide)⟩
    · refine .of_changed (by simp) fun other => ?_
      by_cases isServer : other = state.nextChan
      · subst isServer
        exact .inr (.inr ⟨le_rfl, inv.chan.fresh _ le_rfl, by simp⟩)
      · simp [isServer]
    · simp [ne, clientFound]
  refine (Run.ensures_bind _ _ _).mpr (gives_msgQueueCreate (fun memory => dropped memory) ?_)
  intro memory
  simp only [Run.ensures_bind, gives_modifyChan, withMemory_withChan, withMemory_withNext,
    withMemory_withMemory, withChan_chans, withNext_chans, withMemory_chans,
    update_of_ne ne, clientFound, Option.some.injEq, forall_eq']
  refine gives_msgQueueCreate ?_ ?_
  · intro memory
    simp only [withMemory_withChan, withMemory_withNext, withMemory_withMemory,
      gives_modifyChan, Run.ensures_bind, withChan_chans, update_self, Option.some.injEq,
      forall_eq', withChan_withChan]
    have unchanged : ({ clientValue with msgQueue := none } : IpcChan) = clientValue := by
      rw [← noQueue]
    rw [unchanged, withChan_same (by simp [ne, clientFound])]
    exact (Run.ensures_bind _ _ _).mp (dropped memory)
  · intro memory
    simp only [Run.ensures_bind, gives_modifyChan, withMemory_withChan, withMemory_withNext,
      withMemory_withMemory, withChan_chans, update_of_ne (Ne.symm ne),
      update_self, Option.some.injEq, forall_eq']
    exact (Run.ensures_bind _ _ _).mp
      (attachQueues_gives inv quiet clientFound attachable noQueue portFound memory)

end

end

/-- The channel after `chan_handle_init`. -/
@[simps]
def IpcChan.opened (value : IpcChan) : IpcChan :=
  { value with handle := some 1, refs := insert .handle value.refs }

theorem IpcChan.Ok.opened {held : Prop} (ok : value.Ok held) : value.opened.Ok held := ok

theorem chanHandleInit_gives (inv : IpcInv extra owed state)
    (found : state.chans chan = some value) :
    Gives (chanHandleInit chan) state fun _ final =>
      IpcInv extra owed final ∧ final = state.withChan chan (some value.opened) := by
  simp only [chanHandleInit, chanAddRef, Run.ensures_bind, gives_modifyChan, found,
    Option.some.injEq, forall_eq', gives_getChan, Run.ensures_require, gives_setChan,
    withChan_chans, update_self,
    withChan_withChan]
  intro _
  refine ⟨⟨?_, inv.port⟩, rfl⟩
  refine inv.chan.update found rfl rfl (.inl rfl) (homed_same inv found rfl)
    (fun _ _ _ => Iff.rfl) ?_ ?_ ?_
  · intro ref
    rw [Finset.mem_insert, inv.chan.refs chan value found ref]
    cases ref <;> simp [Reason]
  · exact Finset.insert_ne_empty _ _
  · exact (inv.chan.ok chan value found).opened

/-- The client channel that waits for a port. -/
@[simps]
def IpcChan.waits (value : IpcChan) (path : List UInt8) : IpcChan :=
  { value with
    path := some path
    state := .waitingForPort
    node := some .waiting
    refs := insert .node value.refs }

theorem connectWaiting_gives (inv : IpcInv extra none state)
    (found : state.chans client = some clientValue) (kind : clientValue.state = .invalid)
    (isClient : clientValue.server = false) (noQueue : clientValue.msgQueue = none)
    (path : List UInt8) (flags : UInt32) :
    Gives (connectWaiting client path flags) state fun ret final =>
      AttachResult extra state client clientValue ret final := by
  have refused : ∀ ret memory, ret ≠ 0 →
      AttachResult extra state client clientValue ret (state.withMemory memory) :=
    fun ret memory failed =>
      ⟨inv.memory memory, .of_same rfl rfl, fun _ => found, fun zero => (failed zero).elim⟩
  unfold connectWaiting
  split
  · exact refused _ state.memory (by decide)
  refine (Run.ensures_bind _ _ _).mpr (gives_allocate ?_)
  intro answer memory
  cases answer with
  | false => exact refused _ memory (by decide)
  | true =>
    have rest := (inv.chan.ok client clientValue found).2
    rw [kind] at rest
    obtain ⟨_, noPeer, noNode, noPath⟩ := rest
    simp only [if_true, Run.ensures_bind, addWaiting, chanAddRef, gives_modifyChan, gives_getChan,
      gives_setChan, Run.ensures_require, Run.ensures_modify, withChan_chans,
      withMemory_chans, found,
      update_self, Option.some.injEq, forall_eq', withChan_withChan]
    intro _
    have ok : ∀ held : Prop, (clientValue.waits path).Ok held := by
      intro held
      refine ⟨(inv.chan.ok client clientValue found).1, ?_⟩
      simp [isClient, noPeer, noQueue]
    refine Gives.pure ⟨⟨?_, inv.port⟩, ?_, fun contra => (contra rfl).elim, fun _ => ?_⟩
    · simp only [withChan_chans, update_idem]
      refine inv.chan.update found rfl rfl (.inr (inv.chan.alone found (.inl kind))) ?_
        (fun _ _ _ => Iff.rfl) ?_ ?_ (ok _)
      · have appended := inv.chan.homed.append .waiting ((nodeOf_eq found).trans noNode)
        rw [← listsOf_waiting] at appended
        exact appended
      · intro ref
        rw [Finset.mem_insert, inv.chan.refs client clientValue found ref]
        cases ref <;> simp [Reason]
      · exact Finset.insert_ne_empty _ _
    · have onward : clientValue.Onward False (clientValue.waits path) :=
        ⟨fun shut => absurd shut (by simp [kind]), .inl rfl, fun connected =>
          absurd connected (by simp [kind]), rfl, .inl⟩
      refine .set found ?_ rfl onward
      simp only [withChan_chans, update_idem]
      rfl
    · exact ⟨clientValue.waits path, update_self _ _ _, ok⟩

def Keeps (state final : IpcState) : Prop := IpcInv ∅ none final ∧ state.Later final

theorem Keeps.refl (inv : IpcInv ∅ none state) (memory : List Bool) :
    Keeps state (state.withMemory memory) :=
  ⟨inv.memory memory, .of_same rfl rfl⟩

/-- A call gives up its own reference at the end. -/
theorem dropTmp_gives {before : IpcState} (start : IpcInv ∅ none before)
    (later : before.Later state) (inv : IpcInv {(chan, .tmp)} none state)
    (found : state.chans chan = some value) (ok : ∀ held : Prop, value.Ok held) :
    Gives (chanDelRef chan .tmp) state fun _ final => Keeps before final := by
  refine (chanDelRef_gives inv found id fun _ => ok _).mono ?_
  rintro _ final ⟨kept, new, rfl, only⟩
  rw [Finset.erase_singleton] at kept
  refine ⟨kept, later.trans (.update found rfl rfl ?_) start.chan.fresh⟩
  intro after same
  rw [only after same]
  exact .of_same rfl rfl rfl rfl rfl

theorem finishConnect_gives {start between : IpcState} {ret : Int} {cid : Option Uuid}
    (inv : IpcInv ∅ none state) (started : state.Later start)
    (result : AttachResult (insert (client, .tmp) ∅) start client (.fresh false cid) ret between) :
    Gives (if ret = 0 then do
        chanHandleInit client
        chanDelRef client .tmp
        pure (⟨0, some client, none, []⟩ : IpcReply)
      else do
        chanDelRef client .tmp
        pure (IpcReply.code ret)) between fun _ final => Keeps state final := by
  have reached := started.trans result.later inv.chan.fresh
  split
  · rename_i success
    obtain ⟨new, found, ok⟩ := result.attached success
    have opening : between.Later (between.withChan client (some new.opened)) :=
      .set found rfl rfl (.of_same rfl rfl rfl rfl rfl)
    refine (chanHandleInit_gives result.inv found).bind ?_
    rintro _ opened ⟨kept, rfl⟩
    refine (dropTmp_gives inv (reached.trans opening inv.chan.fresh) kept (update_self _ _ _)
      fun held =>
      (ok held).opened).bind ?_
    exact fun _ _ keeps => Gives.pure keeps
  · rename_i failed
    refine (dropFresh_gives result.inv (result.refused failed) rfl).bind ?_
    rintro _ final ⟨kept, rfl⟩
    rw [Finset.erase_insert (Finset.notMem_empty _)] at kept
    refine Gives.pure ⟨kept, reached.trans ?_ inv.chan.fresh⟩
    exact .update (result.refused failed) rfl rfl fun _ contra => by cases contra

theorem ipcPortConnectAsync_gives (inv : IpcInv ∅ none state) (cid : Option Uuid)
    (path : List UInt8) (maxPath : Nat) (flags : UInt32) :
    Gives (ipcPortConnectAsync cid path maxPath flags) state fun _ final => Keeps state final := by
  unfold ipcPortConnectAsync
  split
  · exact Gives.pure (.refl inv state.memory)
  split
  · exact Gives.pure (.refl inv state.memory)
  refine (Run.ensures_bind _ _ _).mpr
    (gives_chanAlloc (fun memory => Gives.pure (.refl inv memory)) ?_)
  intro memory
  have allocated := inv.alloc memory false cid
  obtain ⟨start, start_eq⟩ :
    ∃ start, start = ((state.withMemory memory).withNext.withChan state.nextChan
      (some (.fresh false cid))) := ⟨_, rfl⟩
  have clientFound : start.chans state.nextChan = some (.fresh false cid) := by simp [start_eq]
  have started : state.Later start := by
    refine .of_changed (by simp [start_eq]) fun other => ?_
    by_cases isClient : other = state.nextChan
    · subst isClient
      refine .inr (.inr ⟨le_rfl, inv.chan.fresh _ le_rfl, fun after found => ?_⟩)
      rw [clientFound] at found
      cases found
      exact ⟨.inl rfl, rfl⟩
    · simp [start_eq, isClient]
  have quiet : Quiet (insert (state.nextChan, .tmp) ∅) :=
    Quiet.insert (fun _ _ mem => (Finset.notMem_empty _ mem).elim) _
  rw [← start_eq] at allocated ⊢
  simp only [portFindLocked, Run.ensures_bind, Run.ensures_read, Run.ensures_pure]
  have rest := fun ret between
    (result : AttachResult _ start state.nextChan (.fresh false cid) ret between) =>
    finishConnect_gives inv started result
  split
  · exact (portAttachClient_gives allocated quiet clientFound ⟨.inl rfl, rfl, rfl, rfl⟩ rfl).bind
      rest
  · exact (connectWaiting_gives allocated clientFound rfl rfl rfl path flags).bind rest

end Trusty.Ipc
