import Trusty.Ipc.ChannelConnect

/-!
The calls on ports keep the invariant.
-/

namespace Trusty.Ipc

open Lib Function IpcState

variable {state : IpcState} {extra : Finset (ChanId × ChanRef)} {owed : Option PortId}
  {chan client server : ChanId} {port : PortId} {value clientValue serverValue : IpcChan}
  {portValue : IpcPort}

theorem ipcPortCreate_gives (inv : IpcInv ∅ none state) (sid : Option Uuid) (path : List UInt8)
    (numRecvBufs recvBufSize : Nat) (flags : UInt32) :
    Gives (ipcPortCreate sid path numRecvBufs recvBufSize flags) state fun _ final =>
      Keeps state final := by
  unfold ipcPortCreate
  split
  · exact Gives.pure (.refl inv state.memory)
  split
  · exact Gives.pure (.refl inv state.memory)
  rename_i bounds
  refine (Run.ensures_bind _ _ _).mpr (gives_allocate ?_)
  intro answer memory
  cases answer with
  | false => exact Gives.pure (.refl inv memory)
  | true =>
    simp only [if_true]
    split
    · exact Gives.pure (.refl inv memory)
    split
    · exact Gives.pure (.refl inv memory)
    simp only [Run.ensures_bind, Run.ensures_read, Run.ensures_modify, gives_setPort]
    have missing := inv.port.fresh state.nextPort le_rfl
    refine Gives.pure ⟨⟨?_, ?_⟩, .of_same rfl rfl⟩
    · have empty : listsOf state.waiting state.ports (.pending state.nextPort) = [] := by
        simp [listsOf, missing]
      simp only [withPort_chans, withPort_waiting, withPort_ports,
        withPort_nextChan, withMemory_chans, withMemory_waiting, withMemory_ports,
        withMemory_nextChan, withMemory_nextPort, listsOf_update, Option.elim_some, ← empty,
        update_eq_self]
      exact inv.chan
    · refine inv.port.update (Nat.le_succ _) (Nat.lt_succ_self _) ?_ ?_ ?_ ?_ inv.port.nodup ?_
      · simp [IpcPort.accounted]
      · rintro _ ⟨⟩
        simp only [ipcChanMaxBufs] at bounds ⊢
        omega
      · exact fun _ _ => ⟨Iff.rfl, Iff.rfl⟩
      · change state.nextPort ∈ state.portList ↔ _
        rw [inv.port.mem_iff]
        simp [missing]
      · simp

/-! ### Closing a port -/

theorem portUnlist_gives (inv : IpcInv extra none state) :
    Gives (portUnlist port) state fun _ final => IpcInv extra none final ∧
    final.chans = state.chans ∧
      final.nextChan = state.nextChan := by
  simp only [portUnlist, Run.ensures_bind, gives_getPort]
  intro portValue portFound
  split
  · rename_i listed
    simp only [Run.ensures_bind, Run.ensures_modify, gives_setPort]
    refine (portDecref_gives ⟨?_, ?_⟩).mono fun _ final result => result
    · simp only [withPort_chans, withPort_waiting, withPort_ports, withPort_nextChan]
      rw [listsOf_update_same state.waiting portFound _ rfl]
      exact inv.chan
    refine inv.port.update le_rfl (inv.port.lt_next portFound) ?_ ?_ ?_ ?_
      (inv.port.nodup.erase port) ?_
    · rintro _ ⟨⟩
      have count := inv.port.counted port portValue portFound
      simp only [IpcPort.accounted, listed, reduceCtorEq, if_false, if_true] at count ⊢
      omega
    · rintro _ ⟨⟩
      exact inv.port.sized port portValue portFound
    · intro other ne
      simp [Ne.symm ne, List.mem_erase_of_ne ne]
    · simp [inv.port.nodup.mem_erase_iff]
    · simp
  · exact Gives.pure ⟨inv, rfl, rfl⟩

theorem dropOne_gives (inv : IpcInv ∅ none state) (found : state.chans server = some value)
    (inside : value.node = some (.pending port)) (shut : value.state = .disconnecting) :
    Gives (do listDelete server; chanDelRef server .node; portDecref port) state fun _ final =>
      IpcInv ∅ none final ∧ state.Later final ∧ ∀ other, other ≠ server →
      final.chans other = state.chans other := by
  have ok : ∀ held : Prop, IpcChan.Ok { value with node := none } held := fun _ =>
    (inv.chan.ok server value found).shut (by simp [shut]) (by simp [shut]) shut rfl
      (.inl rfl) rfl (.inr rfl)
  refine (listDelete_gives inv found inside (ok _)).bind ?_
  rintro _ unlinked ⟨kept, rfl⟩
  have nodeless :
      ((state.unlisted server (.pending port)).withChan server
        (some { value with node := none })).chans server = some { value with node := none } := by
    simp
  refine (chanDelRef_gives kept nodeless (by simp [Reason]) fun _ => ok _).bind ?_
  rintro _ dropped ⟨kept, new, rfl, only⟩
  rw [Finset.erase_insert (Finset.notMem_empty _)] at kept
  refine (portDecref_gives kept).mono ?_
  rintro _ final ⟨kept, chans, next⟩
  refine ⟨kept, ?_, ?_⟩
  · have changed : final.chans = update state.chans server new := by
      rw [chans]
      simp
    refine .update found changed ?_ ?_
    · rw [next]
      rfl
    · intro after same
      rw [only after same]
      exact .of_same rfl rfl rfl rfl rfl
  · intro other ne
    simp [chans, ne]

variable {before : IpcState} {head : ListHead}

theorem nodeOf_pending_iff {after : IpcState} (inv : IpcInv extra none before)
    (inv' : IpcInv extra none after) (ports : after.ports = before.ports) (other : ChanId) :
    nodeOf after.chans other = some (.pending port) ↔
    nodeOf before.chans other = some (.pending port) := by
  rw [← inv.chan.homed.mem_iff, ← inv'.chan.homed.mem_iff]
  simp only [listsOf, ports]

theorem dropPending_gives (servers : List ChanId) (inv : IpcInv ∅ none state)
    (nodup : servers.Nodup)
    (pending : ∀ server ∈ servers, nodeOf state.chans server = some (.pending port)) :
    Gives (dropPending port servers) state fun _ final => Keeps state final := by
  induction servers generalizing state with
  | nil => exact Gives.pure ⟨inv, .refl state⟩
  | cons server rest ih =>
    obtain ⟨notMem, nodup⟩ := List.nodup_cons.mp nodup
    obtain ⟨value, found, inside⟩ := Option.bind_eq_some_iff.mp (pending server List.mem_cons_self)
    have ok := (inv.chan.ok server value found).2
    have states : value.state ≠ .invalid ∧ value.state ≠ .waitingForPort := by
      constructor <;> intro kind <;> rw [kind] at ok <;> simp [inside] at ok
    unfold dropPending
    refine (chanShutdownLocked_gives inv (fun _ _ mem => (Finset.notMem_empty _ mem).elim)
      found).bind ?_
    rintro _ shut ⟨kept, later, ports, new, newFound, newShut, newNode⟩
    have still : new.node = some (.pending port) := by rw [newNode states.2, inside]
    have one : Gives (do listDelete server; chanDelRef server .node; portDecref port) shut
      fun _ between =>
        Gives (dropPending port rest) between fun _ final => Keeps state final := by
      refine (dropOne_gives kept newFound still (newShut states.1)).mono ?_
      rintro _ between ⟨keptBetween, laterBetween, frame⟩
      refine (ih keptBetween nodup ?_).mono ?_
      · intro other mem
        have ne : other ≠ server := by
          rintro rfl
          exact notMem mem
        rw [nodeOf, frame other ne]
        exact (nodeOf_pending_iff inv kept ports other).mpr
          (pending other (List.mem_cons_of_mem server mem))
      · rintro _ final ⟨keptFinal, laterFinal⟩
        exact ⟨keptFinal, (later.trans laterBetween inv.chan.fresh).trans laterFinal inv.chan.fresh⟩
    simp only [Run.ensures_bind] at one ⊢
    exact one

theorem portShutdown_gives (inv : IpcInv ∅ none state) :
    Gives (portShutdown port) state fun _ final => Keeps state final := by
  simp only [portShutdown, Run.ensures_bind, gives_modifyPort]
  intro portValue portFound
  have closing :
      IpcInv ∅ none (state.withPort port (some { portValue with state := .closing })) := by
    refine ⟨?_, ?_⟩
    · simp only [withPort_chans, withPort_waiting, withPort_ports, withPort_nextChan]
      rw [listsOf_update_same state.waiting portFound _ rfl]
      exact inv.chan
    · exact inv.port.update_same portFound rfl rfl rfl (inv.port.counted port portValue portFound)
        fun _ _ => Iff.rfl
  refine (portUnlist_gives closing).mono ?_
  rintro _ unlisted ⟨kept, chans, next⟩
  simp only [gives_getPort]
  intro value found
  refine (dropPending_gives value.pendingList kept ?_ ?_).mono ?_
  · have nodup := kept.chan.homed.nodup (.pending port)
    rw [listsOf_pending _ found] at nodup
    exact nodup
  · intro server mem
    rw [← kept.chan.homed.mem_iff, listsOf_pending _ found]
    exact mem
  · rintro _ final ⟨keptFinal, later⟩
    have started : state.Later unlisted := .of_same chans next
    exact ⟨keptFinal, started.trans later inv.chan.fresh⟩

/-! ### Publishing and accepting -/

theorem IpcInv.detach (inv : IpcInv ∅ none state) (found : state.chans chan = some value)
    (inside : value.node = some head) (new : IpcChan)
    (same : new.peer = value.peer ∧ new.server = value.server ∧ new.state = value.state ∧
      new.handle = value.handle)
    (node : new.node = none) (refs : new.refs = insert .tmp value.refs) (ok : new.Ok True) :
    IpcInv {(chan, .tmp), (chan, .node)} head.debt
      ((state.unlisted chan head).withChan chan (some new)) := by
  obtain ⟨peer, server, kind, handle⟩ := same
  have chans : ((state.unlisted chan head).withChan chan (some new)).chans =
      update state.chans chan (some new) := by
    simp
  refine inv.unlink found inside peer server (.inl kind) node ?_ ?_ ?_ ?_ chans ?_ ?_ ?_
  · intro other ne ref
    simp [ne]
  · intro ref
    rw [refs, Finset.mem_insert, inv.chan.refs chan value found ref]
    cases ref <;> simp [Reason, inside, node, handle]
  · rw [refs]
    exact Finset.insert_ne_empty _ _
  · simpa using ok
  · simp
  · exact unlisted_ports inv found inside
  · exact unlisted_lists inv found inside

@[simp]
theorem unlisted_withChan (first second : Option IpcChan) :
    ((state.withChan chan first).unlisted chan head).withChan chan second =
      (state.unlisted chan head).withChan chan second := by
  cases head <;> simp [unlisted, withChan, withPort]

theorem IpcInv.shut_ok (inv : IpcInv extra owed state) (found : state.chans chan = some value)
    (shut : value.state = .disconnecting) (held : Prop) : value.Ok held :=
  (inv.chan.ok chan value found).shut (by simp [shut]) (by simp [shut]) shut rfl
    (.inr rfl) rfl (.inr rfl)

theorem quiet_tmp (chan : ChanId) : Quiet {(chan, .tmp)} := by
  intro other ref mem
  rw [Finset.mem_singleton] at mem
  cases mem
  rfl

theorem dropNode_gives (inv : IpcInv {(chan, .tmp), (chan, .node)} owed state)
    (found : state.chans chan = some value) (node : value.node = none) (ok : value.Ok True) :
    Gives (chanDelRef chan .node) state fun _ final =>
      IpcInv {(chan, .tmp)} owed final ∧
      final = state.withChan chan (some (value.withoutRef .node)) := by
  have rest : ({(chan, .tmp), (chan, .node)} : Finset (ChanId × ChanRef)).erase
      (chan, .node) = {(chan, .tmp)} := by
    ext entry
    simp only [Finset.mem_erase, Finset.mem_insert, Finset.mem_singleton]
    constructor
    · rintro ⟨ne, same | same⟩
      · exact same
      · exact (ne same).elim
    · rintro rfl
      simp
  refine (chanDelRef_gives inv found ?_ ?_).mono ?_
  · simp [Reason, node]
  · intro _
    simpa using ok
  rintro _ final ⟨kept, new, rfl, only⟩
  rw [rest] at kept
  cases new with
  | none =>
    refine (kept.chan.extraAlive chan .tmp (Finset.mem_singleton_self _) ?_).elim
    simp
  | some after =>
    rw [only after rfl] at kept ⊢
    exact ⟨kept, rfl⟩

theorem attachOrShutdown_gives (start : IpcInv ∅ none before) (started : before.Later state)
    (inv : IpcInv {(client, .tmp)} none state) (found : state.chans client = some value)
    (attachable : Attachable value) (noQueue : value.msgQueue = none)
    (kind : value.state = .waitingForPort) :
    Gives (do attachOrShutdown port client; chanDelRef client .tmp) state fun _ final =>
      Keeps before final := by
  simp only [attachOrShutdown, Run.ensures_bind]
  refine (portAttachClient_gives inv (quiet_tmp client) found attachable noQueue).mono ?_
  intro ret between result
  have reached := started.trans result.later start.chan.fresh
  split
  · rename_i failed
    refine (chanShutdownLocked_gives result.inv (quiet_tmp client) (result.refused failed)).mono ?_
    rintro _ shut ⟨kept, later, _, new, newFound, newShut, _⟩
    refine dropTmp_gives start (reached.trans later start.chan.fresh) kept newFound ?_
    exact kept.shut_ok newFound (newShut (by simp [kind]))
  · rename_i success
    obtain ⟨new, newFound, ok⟩ := result.attached (not_not.mp success)
    exact Gives.pure (dropTmp_gives start reached result.inv newFound ok)

/-- A waiting client between the two lists, with a local reference. -/
@[simps]
def IpcChan.detached (value : IpcChan) : IpcChan :=
  { value with path := none, refs := insert .tmp value.refs, node := none }

theorem publishOne_gives (port : PortId) (inv : IpcInv ∅ none state)
    (found : state.chans client = some value) (hasPath : value.path ≠ none) :
    Gives (do
      modifyChan client fun value => { value with path := none }
      chanAddRef client .tmp
      listDelete client
      chanDelRef client .node
      attachOrShutdown port client
      chanDelRef client .tmp) state fun _ final => Keeps state final := by
  have ok := inv.chan.ok client value found
  have cases : (value.state = .waitingForPort ∧ value.node = some .waiting ∧ value.msgQueue = none ∧
      value.server = false ∧ value.peer = none) ∨ value.node = none := by
    have rest := ok.2
    cases kind : value.state <;> simp_all
  simp only [Run.ensures_bind, gives_modifyChan, found, Option.some.injEq, forall_eq', chanAddRef,
    gives_getChan, Run.ensures_require, gives_setChan, withChan_chans, update_self,
    withChan_withChan]
  intro _
  rcases cases with ⟨kind, inside, noQueue, isClient, noPeer⟩ | noNode
  · have there :
        (state.withChan client
          (some { value with path := none, refs := insert .tmp value.refs })).chans client = some
          { value with path := none, refs := insert .tmp value.refs } :=
      update_self _ _ _
    refine gives_listDelete there _ inside ?_
    rw [unlisted_withChan]
    have limbo : value.detached.Ok True := by
      refine ⟨ok.1, ?_⟩
      simp [kind, isClient, noPeer]
    have detached := inv.detach found inside value.detached ⟨rfl, rfl, rfl, rfl⟩ rfl rfl limbo
    refine (dropNode_gives detached (update_self _ _ _) rfl limbo).mono ?_
    rintro _ between ⟨kept, rfl⟩
    rw [withChan_withChan] at kept ⊢
    have started : state.Later ((state.unlisted client .waiting).withChan client
        (some (value.detached.withoutRef .node))) :=
      .set found rfl rfl (.of_same rfl rfl rfl rfl rfl)
    exact (Run.ensures_bind _ _ _).mp (attachOrShutdown_gives inv started kept (update_self _ _ _)
      ⟨.inr kind, isClient, rfl, rfl⟩ noQueue kind)
  · -- a channel that gave up waiting is in no list, and `list_delete` stops the run
    simp [listDelete, noNode]

theorem publishLoop_gives (clients : List ChanId) (inv : IpcInv ∅ none state) :
    Gives (publishLoop port clients) state fun _ final => Keeps state final := by
  induction clients generalizing state with
  | nil => exact Gives.pure ⟨inv, .refl state⟩
  | cons client rest ih =>
    simp only [publishLoop, Run.ensures_bind, gives_getChan, gives_getPort, Run.ensures_ofOption]
    intro value found portValue portFound path hasPath
    split
    · exact ih inv
    have others : ∀ between, Keeps state between →
        Gives (publishLoop port rest) between fun _ final => Keeps state final := by
      rintro between ⟨kept, later⟩
      refine (ih kept).mono ?_
      rintro _ final ⟨keptFinal, laterFinal⟩
      exact ⟨keptFinal, later.trans laterFinal inv.chan.fresh⟩
    have one := (publishOne_gives port inv found (by simp [hasPath])).bind fun _ => others
    simp only [Run.ensures_bind] at one ⊢
    exact one

@[simps]
def IpcPort.listing (value : IpcPort) : IpcPort :=
  { value with state := .listening, listed := true, refcnt := value.refcnt + 1 }

/-- The system before the loop of `ipc_port_publish`. -/
@[simps -fullyApplied]
def IpcState.listing (state : IpcState) (port : PortId) (portValue : IpcPort) : IpcState :=
  { state with
    ports := update state.ports port (some portValue.listing)
    portList := state.portList ++ [port] }

theorem portFind_eq_none_iff {path : List UInt8} :
    (state.portList.find? fun port => (state.ports port).any fun value => value.path == path) =
      none ↔
      ∀ other otherValue, other ∈ state.portList → state.ports other = some otherValue →
      otherValue.path ≠ path := by
  rw [List.find?_eq_none]
  constructor
  · intro noMatch other otherValue mem otherFound samePath
    have here := noMatch other mem
    simp [otherFound, samePath] at here
  · intro ne other mem
    cases otherFound : state.ports other with
    | none => simp
    | some otherValue => simpa using ne other otherValue mem otherFound

theorem IpcInv.listing (inv : IpcInv ∅ none state) (portFound : state.ports port = some portValue)
    (unlisted : portValue.listed = false)
    (missing : ∀ other otherValue, other ∈ state.portList → state.ports other = some otherValue →
      otherValue.path ≠ portValue.path) : IpcInv ∅ none (state.listing port portValue) := by
  have notListed : port ∉ state.portList := by
    rw [inv.port.mem_iff]
    simp [portFound, unlisted]
  constructor
  · simp only [listing_chans, listing_waiting, listing_ports, listing_nextChan]
    rw [listsOf_update_same state.waiting portFound _ rfl]
    exact inv.chan
  · refine inv.port.update le_rfl (inv.port.lt_next portFound) ?_ ?_ ?_ ?_ ?_ ?_
    · rintro _ ⟨⟩
      have count := inv.port.counted port portValue portFound
      simp only [IpcPort.accounted, IpcPort.listing, unlisted, reduceCtorEq, if_false,
        if_true] at count ⊢
      omega
    · rintro _ ⟨⟩
      exact inv.port.sized port portValue portFound
    · intro other ne
      simp [ne]
    · simp
    · exact inv.port.nodup.append (List.nodup_singleton port)
        (List.disjoint_singleton.mpr notListed)
    · rintro _ ⟨⟩ _ other otherValue _ otherFound otherListed
      exact missing other otherValue
        ((inv.port.mem_iff other).mpr ⟨otherValue, otherFound, otherListed⟩) otherFound

theorem ipcPortPublish_gives (inv : IpcInv ∅ none state) :
    Gives (ipcPortPublish port) state fun _ final => Keeps state final := by
  simp only [ipcPortPublish, portFindLocked, Run.ensures_bind, gives_getPort, Run.ensures_require,
    Run.ensures_read, Run.ensures_pure]
  intro portValue portFound unlisted
  split
  · exact Gives.pure (.refl inv state.memory)
  rename_i missing
  simp only [Run.ensures_bind, gives_modifyPort, Run.ensures_modify, portIncref,
    Run.ensures_read, portFound, update_self, Option.some.injEq, forall_eq', withPort, update_idem]
  refine (publishLoop_gives _
    (inv.listing portFound unlisted (portFind_eq_none_iff.mp missing))).mono ?_
  rintro _ final ⟨kept, later⟩
  exact Gives.pure ⟨kept, later.next, later.gone, later.onward, later.born⟩

@[simps]
def IpcChan.accepted (value : IpcChan) : IpcChan :=
  { value with state := .connected, handle := some 1, refs := insert .handle value.refs }

@[simps]
def IpcChan.connects (value : IpcChan) : IpcChan :=
  { value with state := .connected, connectedEvent := true, notified := true }

theorem gives_acceptConnection (serverFound : state.chans server = some serverValue)
    (clientFound : state.chans client = some clientValue) (ne : server ≠ client)
    {post : Unit → IpcState → Prop}
    (holds :
      post ()
      ((state.withChan server (some serverValue.accepted)).withChan client
        (some clientValue.connects))) :
    Gives (acceptConnection server client) state post := by
  simp only [acceptConnection, chanHandleInit, chanAddRef, chanNotify, Run.ensures_bind,
    gives_modifyChan, gives_getChan, gives_setChan, Run.ensures_require,
    withChan_chans, update_self,
    update_of_ne ne, update_of_ne (Ne.symm ne), serverFound, clientFound,
    Option.some.injEq, forall_eq']
  intro _
  convert holds using 1
  simp only [withChan, mk.injEq, and_true]
  funext other
  by_cases isClient : other = client
  · subst isClient
    simp [IpcChan.connects]
  · by_cases isServer : other = server
    · subst isServer
      simp [isClient, IpcChan.accepted]
    · simp [isServer, isClient]

theorem IpcInv.accept (inv : IpcInv {(server, .tmp)} none state)
    (serverFound : state.chans server = some serverValue)
    (clientFound : state.chans client = some clientValue) (pointer : serverValue.peer = some client)
    (serverKind : serverValue.state = .accepting) (noNode : serverValue.node = none) :
    IpcInv {(server, .tmp)} none
      ((state.withChan server (some serverValue.accepted)).withChan client
        (some clientValue.connects)) := by
  obtain ⟨ne, _, closed, toServer, toClient⟩ := inv.chan.pointers serverFound clientFound pointer
  obtain ⟨servers, states⟩ :=
    inv.chan.linked server client serverValue clientValue serverFound clientFound pointer
  rw [serverKind] at states
  obtain ⟨back, clientKind⟩ : clientValue.peer = some server ∧ clientValue.state = .connecting := by
    simpa using states
  have serverOk := inv.chan.ok server serverValue serverFound
  have serverRest := serverOk.2
  rw [serverKind] at serverRest
  obtain ⟨_, _, serverPath, serverQueue, _⟩ := serverRest
  have clientOk := inv.chan.ok client clientValue clientFound
  have clientRest := clientOk.2
  rw [clientKind] at clientRest
  obtain ⟨_, _, clientPath, clientQueue, clientNode⟩ := clientRest
  refine ⟨?_, inv.port⟩
  refine inv.chan.update_pair serverFound clientFound ne closed (.inr pointer) (.inr back)
    (.inr pointer) (.inr back) ?_ ?_ (fun _ _ _ _ => Iff.rfl) ?_ ?_ ?_ ?_ ?_ ?_ ?_ ?_
  · rw [IpcChan.accepted_peer,
      IpcChan.connects_peer, ← peerOf_eq serverFound, ← peerOf_eq clientFound, update_eq_self,
      update_eq_self]
    exact inv.chan.paired
  · rw [IpcChan.accepted_node,
      IpcChan.connects_node, ← nodeOf_eq serverFound, ← nodeOf_eq clientFound, update_eq_self,
      update_eq_self]
    exact inv.chan.homed
  · intro ref
    rw [IpcChan.accepted_refs, Finset.mem_insert, inv.chan.refs server serverValue serverFound ref]
    cases ref <;> simp [Reason, toServer]
  · intro ref
    rw [IpcChan.connects_refs, inv.chan.refs client clientValue clientFound ref]
    cases ref <;> simp [Reason, toClient, pointer]
  · exact Finset.insert_ne_empty _ _
  · exact inv.chan.kept client clientValue clientFound
  · intro _
    exact ⟨servers, .inr ⟨back, .inl ⟨rfl, rfl⟩⟩⟩
  · intro _
    refine ⟨?_, .inr ⟨pointer, .inl ⟨rfl, rfl⟩⟩⟩
    rw [IpcChan.accepted_server, IpcChan.connects_server, servers, Bool.not_not]
  · refine ⟨serverOk.1, ?_⟩
    simp [pointer, serverPath, serverQueue, noNode]
  · refine ⟨clientOk.1, ?_⟩
    simp [back, clientPath, clientQueue, clientNode]

/-- A pending server that `ipc_port_accept` has taken from the list. -/
@[simps]
def IpcChan.taken (value : IpcChan) : IpcChan :=
  { value with node := none, refs := insert .tmp value.refs }

theorem finishAccept_gives (start : IpcInv ∅ none before) (started : before.Later state)
    (inv : IpcInv {(server, .tmp)} none state) (found : state.chans server = some value)
    (noNode : value.node = none) (kind : value.state = .accepting ∨ value.state = .disconnecting) :
    Gives (do
      let alive ← ipcPortAccept.connectionAlive server
      match alive with
      | some client =>
        acceptConnection server client
        chanDelRef server .tmp
        pure (⟨0, some server, none, []⟩ : IpcReply)
      | none =>
        chanShutdownLocked server
        chanDelRef server .tmp
        pure (.code errChannelClosed)) state fun _ final => Keeps before final := by
  have dead : Gives (do
      chanShutdownLocked server
      chanDelRef server .tmp
      pure (IpcReply.code errChannelClosed)) state fun _ final => Keeps before final := by
    refine (chanShutdownLocked_gives inv (quiet_tmp server) found).bind ?_
    rintro _ shut ⟨kept, later, _, new, newFound, newShut, _⟩
    refine (dropTmp_gives start (started.trans later start.chan.fresh) kept newFound ?_).bind
      fun _ _ keeps => Gives.pure keeps
    exact kept.shut_ok newFound (newShut (by rcases kind with kind | kind <;> simp [kind]))
  simp only [ipcPortAccept.connectionAlive, Run.ensures_bind, gives_getChan, found,
    Option.some.injEq, forall_eq']
  cases pointer : value.peer with
  | none => exact Gives.pure dead
  | some client =>
    simp only [Run.ensures_bind, gives_getChan]
    intro clientValue clientFound
    split
    · exact Gives.pure dead
    rename_i alive
    have accepting : value.state = .accepting := by
      simp only [not_or, not_not] at alive
      exact alive.1
    obtain ⟨ne, _⟩ := inv.chan.pointers found clientFound pointer
    have kept := inv.accept found clientFound pointer accepting noNode
    have there : ((state.withChan server (some value.accepted)).withChan client
        (some clientValue.connects)).chans server = some value.accepted := by
      simp [ne]
    have later : state.Later ((state.withChan server (some value.accepted)).withChan client
        (some clientValue.connects)) := by
      have first : state.Later (state.withChan server (some value.accepted)) :=
        .set found rfl rfl ⟨by simp [accepting], .inl rfl, by simp [accepting], rfl, .inl⟩
      simp only [not_or, not_not] at alive
      have reached :
          (state.withChan server (some value.accepted)).chans client = some clientValue := by
        simp [Ne.symm ne, clientFound]
      exact first.trans
        (.set reached rfl rfl ⟨by simp [alive.2], .inl rfl, by simp [alive.2], rfl, .inl⟩)
        inv.chan.fresh
    refine Gives.pure
      ((Run.ensures_bind _ _ _).mpr (gives_acceptConnection found clientFound ne ?_))
    refine (dropTmp_gives start (started.trans later start.chan.fresh) kept there ?_).bind
      fun _ _ keeps => Gives.pure keeps
    exact fun _ => kept.chan.ok server _ there

theorem ipcPortAccept_gives (inv : IpcInv ∅ none state) :
    Gives (ipcPortAccept port) state fun _ final => Keeps state final := by
  simp only [ipcPortAccept, Run.ensures_bind, gives_getPort]
  intro portValue portFound
  split
  · exact Gives.pure (.refl inv state.memory)
  split
  · exact Gives.pure (.refl inv state.memory)
  rename_i server rest pendingList
  have pending : nodeOf state.chans server = some (.pending port) := by
    rw [← inv.chan.homed.mem_iff, listsOf_pending _ portFound, pendingList]
    exact List.mem_cons_self
  obtain ⟨value, found, inside⟩ := Option.bind_eq_some_iff.mp pending
  have ok := inv.chan.ok server value found
  have kind : value.state = .accepting ∨ value.state = .disconnecting := by
    have rest := ok.2
    cases kind : value.state <;> simp_all
  rw [Run.ensures_bind]
  refine gives_listDelete found _ inside ?_
  simp only [Run.ensures_bind, gives_getChan, Run.ensures_require, chanAddRef, gives_setChan,
    withChan_chans, update_self, Option.some.injEq, forall_eq', withChan_withChan]
  intro _ _
  have limbo : value.taken.Ok True := by
    rcases kind with kind | kind
    · refine ⟨ok.1, ?_⟩
      have rest := ok.2
      rw [kind] at rest
      simp [kind, rest.1, rest.2.1, rest.2.2.1, rest.2.2.2.1]
    · exact ok.shut (by simp [kind]) (by simp [kind]) kind rfl (.inl rfl) rfl (.inr rfl)
  have detached := inv.detach found inside value.taken ⟨rfl, rfl, rfl, rfl⟩ rfl rfl limbo
  refine (dropNode_gives detached (update_self _ _ _) rfl limbo).mono ?_
  rintro _ between ⟨kept, rfl⟩
  refine (portDecref_gives kept).mono ?_
  rintro _ paid ⟨keptPaid, chans, next⟩
  have there : paid.chans server = some (value.taken.withoutRef .node) := by
    rw [chans]
    simp
  have started : state.Later paid := by
    have changed :
        paid.chans = update state.chans server (some (value.taken.withoutRef .node)) := by
      rw [chans]
      simp
    refine .set found changed ?_ (.of_same rfl rfl rfl rfl rfl)
    rw [next]
    simp
  exact (Run.ensures_bind _ _ _).mp (finishAccept_gives inv started keptPaid there rfl kind)

end Trusty.Ipc
