import Trusty.Ipc.ChannelMessages

/-!
The life cycle of connections: what holds whenever `ipc_lock` is free.
-/

namespace Trusty.Ipc

open Lib Function IpcState

variable {state final : IpcState} {chan : ChanId} {port : PortId} {value : IpcChan} {call : IpcCall}
  {reply : IpcReply}

/-! ### References of callers -/

theorem found_of_holdsChan (holds : IpcCall.holdsChan state chan = true) :
    ∃ value, state.chans chan = some value := by
  unfold IpcCall.holdsChan at holds
  cases found : state.chans chan with
  | none => simp [found] at holds
  | some value => exact ⟨value, rfl⟩

theorem found_of_holdsPort (holds : IpcCall.holdsPort state port = true) :
    ∃ value, state.ports port = some value ∧ 0 < value.held := by
  unfold IpcCall.holdsPort at holds
  cases found : state.ports port with
  | none => simp [found] at holds
  | some value =>
    rw [found] at holds
    exact ⟨value, rfl, by simpa using holds⟩

section

variable (inv : IpcInv ∅ none state)

include inv

theorem lists_withPort {portValue new : IpcPort} (found : state.ports port = some portValue)
    (pendingList : new.pendingList = portValue.pendingList) :
    ChanInv (state.withPort port (some new)).chans
      (listsOf (state.withPort port (some new)).waiting (state.withPort port (some new)).ports)
      (state.withPort port (some new)).nextChan ∅ := by
  simp only [withPort_chans, withPort_waiting, withPort_ports, withPort_nextChan]
  rw [listsOf_update_same state.waiting found (some new) pendingList]
  exact inv.chan

theorem portIncref_gives :
    Gives (IpcCall.portIncref port).run state fun _ final => Keeps state final := by
  simp only [IpcCall.run, holdPort, portIncref, Run.ensures_bind, gives_modifyPort, withPort_ports,
    update_self, Option.some.injEq, forall_eq', Run.ensures_pure]
  intro portValue found
  refine ⟨⟨?_, ?_⟩, .of_same rfl rfl⟩
  · simp only [withPort_chans, withPort_waiting, withPort_ports, withPort_nextChan, update_idem]
    exact lists_withPort inv found rfl
  simp only [withPort_ports, update_idem]
  refine inv.port.update_same found rfl rfl rfl ?_ fun _ _ => Iff.rfl
  have count := inv.port.counted port portValue found
  simp only [IpcPort.accounted] at count ⊢
  omega

theorem portDecref_call_gives (holds : IpcCall.holdsPort state port = true) :
    Gives (IpcCall.portDecref port).run state fun _ final => Keeps state final := by
  obtain ⟨portValue, found, held⟩ := found_of_holdsPort holds
  simp only [IpcCall.run, holdPort, Run.ensures_bind, gives_modifyPort, found,
    Option.some.injEq, forall_eq']
  have owed :
      IpcInv ∅ (some port)
        (state.withPort port (some { portValue with held := portValue.held - 1 })) := by
    refine ⟨lists_withPort inv found rfl, ?_⟩
    refine inv.port.update_same found rfl rfl rfl ?_ ?_
    · have count := inv.port.counted port portValue found
      simp only [IpcPort.accounted, reduceCtorEq, if_false, if_true] at count ⊢
      omega
    · intro other ne
      simp [Ne.symm ne]
  refine (portDecref_gives owed).mono ?_
  rintro _ final ⟨kept, chans, next⟩
  exact Gives.pure ⟨kept, .of_same chans next⟩

theorem modifyHandle_gives (change : Nat → Nat) :
    Gives (modifyHandle chan change) state fun _ final => Keeps state final := by
  simp only [modifyHandle, gives_modifyChan]
  intro value found
  refine ⟨inv.touch found rfl rfl rfl rfl rfl ?_ (inv.chan.ok chan value found), ?_⟩
  · simp
  · exact .set found rfl rfl (.of_same rfl rfl rfl rfl rfl)

theorem chanHandleDestroy_gives (found : state.chans chan = some value)
    (opened : value.handle ≠ none) :
    Gives (chanHandleDestroy chan) state fun _ final => Keeps state final := by
  have ok := inv.chan.ok chan value found
  have closed :
      IpcInv (insert (chan, .handle) ∅) none
        (state.withChan chan (some { value with handle := none })) := by
    refine ⟨?_, inv.port⟩
    refine inv.chan.update found rfl rfl (.inl rfl) (homed_same inv found rfl) ?_ ?_
      (inv.chan.kept chan value found) ?_
    · intro other ne ref
      simp [ne]
    · intro ref
      rw [inv.chan.refs chan value found ref]
      cases ref <;> simp [Reason, opened]
    · exact ok.mono fun held => Finset.mem_insert_of_mem held
  simp only [chanHandleDestroy, Run.ensures_bind, gives_modifyChan, found,
    Option.some.injEq, forall_eq']
  refine (chanDelRef_gives closed (update_self _ _ _) (by simp [Reason]) ?_).mono ?_
  · intro _
    rw [Finset.erase_insert (Finset.notMem_empty _)]
    exact ok
  rintro _ final ⟨kept, new, rfl, only⟩
  rw [Finset.erase_insert (Finset.notMem_empty _)] at kept
  rw [withChan_withChan] at kept ⊢
  refine ⟨kept, .update found rfl rfl ?_⟩
  intro after same
  rw [only after same]
  exact .of_same rfl rfl rfl rfl rfl

/-! ### Every call -/

theorem IpcCall.run_gives (allowed : call.allowed state = true) :
    Gives call.run state fun reply final => call.Effect state reply final := by
  have quiet : Quiet ∅ := fun _ _ mem => (Finset.notMem_empty _ mem).elim
  cases call with
  | portCreate sid path numRecvBufs recvBufSize flags =>
    exact ipcPortCreate_gives inv sid path numRecvBufs recvBufSize flags
  | portPublish port => exact ipcPortPublish_gives inv
  | portConnect cid path maxPath flags => exact ipcPortConnectAsync_gives inv cid path maxPath flags
  | portAccept port => exact ipcPortAccept_gives inv
  | portShutdown port => exact (portShutdown_gives inv).bind fun _ _ kept => Gives.pure kept
  | portIncref port => exact portIncref_gives inv
  | portDecref port => exact portDecref_call_gives inv allowed
  | chanShutdown chan =>
    obtain ⟨value, found⟩ := found_of_holdsChan allowed
    refine (chanShutdownLocked_gives inv quiet found).bind ?_
    rintro _ final ⟨kept, later, _⟩
    exact Gives.pure ⟨kept, later⟩
  | chanIncref chan => exact (modifyHandle_gives inv _).bind fun _ _ kept => Gives.pure kept
  | chanDecref chan => exact (modifyHandle_gives inv _).bind fun _ _ kept => Gives.pure kept
  | chanDestroy chan =>
    simp only [IpcCall.allowed, Option.any_eq_true, beq_iff_eq] at allowed
    obtain ⟨value, found, unused⟩ := allowed
    exact (chanHandleDestroy_gives inv found (by simp [unused])).bind fun _ _ kept =>
      Gives.pure kept
  | chanFinalize chan sendUnblocked ready =>
    simp only [IpcCall.run, chanFinalizeEvent, Run.ensures_bind, gives_modifyChan, Run.ensures_pure]
    intro value found
    refine ⟨inv.flags found rfl, .update found rfl rfl ?_⟩
    rintro after same
    cases same
    exact ⟨id, .inl rfl, fun connected => .inl ⟨connected, rfl⟩, rfl, fun _ => .inr rfl⟩
  | sendMsg chan msg => exact ipcSendMsg_gives inv msg
  | getMsg chan fault => exact ipcGetMsg_gives inv fault
  | readMsg chan id offset msg => exact ipcReadMsg_gives inv id offset msg
  | putMsg chan id => exact ipcPutMsg_gives inv id

end

theorem IpcStep.effect (step : IpcStep state call reply final) (inv : IpcInv ∅ none state) :
    call.Effect state reply final := by
  obtain ⟨allowed, memory, returned⟩ := step
  have effect := Run.ensures_done (IpcCall.run_gives (inv.memory memory) allowed) returned
  unfold IpcCall.Effect at effect ⊢
  have same : call.queueCall (state.withMemory memory) = call.queueCall state := by
    cases call <;> rfl
  rw [same] at effect
  cases asked : call.queueCall state with
  | none =>
    rw [asked] at effect
    obtain ⟨kept, later⟩ := effect
    exact ⟨kept, later.next, later.gone, later.onward, later.born⟩
  | some target =>
    rw [asked] at effect
    exact ⟨effect.inv, effect.next, effect.queue⟩

theorem IpcCall.Effect.inv (effect : call.Effect state reply final) : IpcInv ∅ none final := by
  unfold IpcCall.Effect at effect
  split at effect
  · exact effect.1
  · exact effect.inv

theorem empty_inv : IpcInv ∅ none .empty := by
  have homed : Homed (listsOf empty.waiting empty.ports) (nodeOf empty.chans) := by
    refine ⟨?_, ?_⟩ <;> rintro (_ | _) <;> simp [empty, nodeOf, listsOf]
  refine ⟨⟨⟨?_, ?_, ?_⟩, homed, ?_, ?_, ?_, ?_, ?_, ?_, ?_⟩, ⟨?_, ?_, ?_, ?_, ?_, ?_⟩⟩ <;>
    simp [empty, peerOf]

theorem IpcReachable.inv (reachable : IpcReachable state) : IpcInv ∅ none state := by
  induction reachable with
  | empty => exact empty_inv
  | step _ step ih => exact (step.effect ih).inv

/-! ### The life cycle -/

/-- The two ends of a connection that was not accepted yet. -/
def Pending (state : IpcState) (client : ChanId) : Prop :=
  ∃ value server serverValue port, state.chans client = some value ∧ value.peer = some server ∧
    state.chans server = some serverValue ∧ serverValue.server = true ∧
    serverValue.state = .accepting ∧
    serverValue.peer = some client ∧
    ∀ other, (∃ portValue, state.ports other = some portValue ∧ server ∈ portValue.pendingList) ↔
      other = port

structure Lifecycle (state : IpcState) : Prop where
  connecting : ∀ chan value, state.chans chan = some value → value.server = false →
    (value.state = .connecting ↔ Pending state chan)
  connected : ∀ chan value, state.chans chan = some value → value.state = .connected →
    ∃ peer peerValue, value.peer = some peer ∧ state.chans peer = some peerValue ∧
      peerValue.state = .connected ∧ peerValue.peer = some chan
  waiting : ∀ chan, chan ∈ state.waiting ↔
    ∃ value, state.chans chan = some value ∧ value.state = .waitingForPort ∧ value.path ≠ none
  listed : ∀ port, port ∈ state.portList ↔ ∃ value, state.ports port = some value ∧
    value.listed = true
  unique : ∀ port other value otherValue, state.ports port = some value →
    state.ports other = some otherValue → port ∈ state.portList → other ∈ state.portList →
    value.path = otherValue.path → port = other
  counted : ∀ port value, state.ports port = some value →
    value.refcnt = value.held + (if port ∈ state.portList then 1 else 0) + value.pendingList.length
  referenced : ∀ chan value, state.chans chan = some value → value.refs ≠ ∅ ∧
    ∀ ref, ref ∈ value.refs ↔ match ref with
    | .handle => value.handle ≠ none
    | .node =>
      chan ∈ state.waiting ∨ ∃ port portValue, state.ports port = some portValue ∧
        chan ∈ portValue.pendingList
    | .peer owner => ∃ ownerValue, state.chans owner = some ownerValue ∧ ownerValue.peer = some chan
    | .tmp => False
  freed : ∀ chan, state.chans chan = none →
    (∀ other value, state.chans other = some value → value.peer ≠ some chan ∧
      ChanRef.peer chan ∉ value.refs) ∧
      chan ∉ state.waiting ∧ ∀ port value, state.ports port = some value → chan ∉ value.pendingList

section

variable (inv : IpcInv ∅ none state)

include inv

theorem mem_waiting_iff : chan ∈ state.waiting ↔ nodeOf state.chans chan = some .waiting :=
  inv.chan.homed.mem_iff .waiting chan

theorem mem_pendingList_iff :
    (∃ portValue, state.ports port = some portValue ∧ chan ∈ portValue.pendingList) ↔
      nodeOf state.chans chan = some (.pending port) := by
  rw [← inv.chan.homed.mem_iff]
  cases found : state.ports port <;> simp [listsOf, found]

theorem IpcInv.pending_iff (found : state.chans chan = some value) :
    value.state = .connecting ↔ Pending state chan := by
  have ok := (inv.chan.ok chan value found).2
  constructor
  · intro kind
    rw [kind] at ok
    obtain ⟨server, pointer⟩ := Option.ne_none_iff_exists'.mp ok.2.1
    obtain ⟨serverValue, serverFound⟩ := inv.chan.exists_peer found pointer
    obtain ⟨servers, states⟩ :=
      inv.chan.linked chan server value serverValue found serverFound pointer
    rw [kind] at states
    obtain ⟨back, accepting⟩ : serverValue.peer = some chan ∧ serverValue.state = .accepting := by
      simpa using states
    have serverOk := (inv.chan.ok server serverValue serverFound).2
    rw [accepting] at serverOk
    obtain ⟨port, inside⟩ : ∃ port, serverValue.node = some (.pending port) := by
      simpa using serverOk.2.2.2.2
    refine ⟨value, server, serverValue, port, found, pointer, serverFound, serverOk.1,
      accepting, back, ?_⟩
    intro other
    rw [mem_pendingList_iff inv, nodeOf_eq serverFound, inside]
    simp [eq_comm]
  · rintro ⟨_, server, serverValue, port, found', pointer, serverFound, _, accepting, _⟩
    rw [found] at found'
    cases found'
    obtain ⟨_, states⟩ := inv.chan.linked chan server value serverValue found serverFound pointer
    rw [accepting] at states
    have both : serverValue.peer = some chan ∧ value.state = .connecting := by
      simpa using states
    exact both.2

theorem IpcInv.waiting_iff : chan ∈ state.waiting ↔
    ∃ value, state.chans chan = some value ∧ value.state = .waitingForPort ∧ value.path ≠ none := by
  rw [mem_waiting_iff inv]
  constructor
  · intro inside
    obtain ⟨value, found, inside⟩ := Option.bind_eq_some_iff.mp inside
    have ok := (inv.chan.ok chan value found).2
    refine ⟨value, found, ?_⟩
    cases kind : value.state <;> simp_all
  · rintro ⟨value, found, kind, hasPath⟩
    have ok := (inv.chan.ok chan value found).2
    rw [kind] at ok
    rw [nodeOf_eq found]
    rcases ok.2.2 with ⟨inside, _⟩ | ⟨_, noPath, _⟩
    · exact inside
    · exact (hasPath noPath).elim

theorem IpcInv.lifecycle : Lifecycle state where
  connecting chan value found _ := inv.pending_iff found
  connected chan value found kind := by
    have ok := (inv.chan.ok chan value found).2
    rw [kind] at ok
    obtain ⟨peer, pointer⟩ := Option.ne_none_iff_exists'.mp ok.1
    obtain ⟨peerValue, peerFound⟩ := inv.chan.exists_peer found pointer
    obtain ⟨_, states⟩ := inv.chan.linked chan peer value peerValue found peerFound pointer
    rw [kind] at states
    obtain ⟨back, peerKind⟩ : peerValue.peer = some chan ∧ peerValue.state = .connected := by
      simpa using states
    exact ⟨peer, peerValue, pointer, peerFound, peerKind, back⟩
  waiting chan := inv.waiting_iff
  listed := inv.port.mem_iff
  unique port other value otherValue found otherFound listed otherListed := by
    obtain ⟨_, found', isListed⟩ := (inv.port.mem_iff port).mp listed
    obtain ⟨_, otherFound', otherIsListed⟩ := (inv.port.mem_iff other).mp otherListed
    rw [found] at found'
    rw [otherFound] at otherFound'
    cases found'
    cases otherFound'
    exact inv.port.unique port other value otherValue found otherFound isListed otherIsListed
  counted port value found := by
    have count := inv.port.counted port value found
    rw [if_neg (by simp)] at count
    simp [inv.port.mem_iff, found, count, IpcPort.accounted]
  referenced chan value found := by
    refine ⟨inv.chan.kept chan value found, ?_⟩
    intro ref
    rw [inv.chan.refs chan value found ref]
    cases ref with
    | handle => simp [Reason]
    | tmp => simp [Reason]
    | peer owner => simp [Reason, peerOf, Option.bind_eq_some_iff]
    | node =>
      simp only [Reason, mem_waiting_iff inv, mem_pendingList_iff inv, nodeOf_eq found]
      cases value.node with
      | none => simp
      | some head => cases head <;> simp
  freed chan missing := by
    have noPointer : ∀ other, peerOf state.chans other ≠ some chan :=
      fun other pointer => inv.chan.peerAlive other chan pointer missing
    have noNode : nodeOf state.chans chan = none := by simp [nodeOf, missing]
    refine ⟨?_, ?_, ?_⟩
    · intro other value found
      refine ⟨?_, ?_⟩
      · rw [← peerOf_eq found]
        exact noPointer other
      · rw [inv.chan.refs other value found]
        simp [Reason, peerOf, missing]
    · rw [mem_waiting_iff inv, noNode]
      simp
    · intro port value found mem
      have inside := (mem_pendingList_iff inv).mp ⟨value, found, mem⟩
      rw [noNode] at inside
      cases inside

end

theorem IpcCall.Effect.stays_shut (effect : call.Effect state reply final) {after : IpcChan}
    (found : state.chans chan = some value) (afterFound : final.chans chan = some after)
    (shut : value.state = .disconnecting) : after.state = .disconnecting := by
  unfold IpcCall.Effect at effect
  split at effect
  · exact (effect.2.onward chan value after found afterFound).shut shut
  rename_i target _ _
  obtain ⟨kind, mq, new, before, _, queues⟩ := effect.queue
  have now := queues_eq afterFound
  rw [queues] at now
  by_cases same : chan = target
  · subst same
    simp only [queues_eq found, Option.some.injEq, Prod.mk.injEq] at before
    simp only [update_self, Option.some.injEq, Prod.mk.injEq] at now
    rw [← now.1, ← before.1, shut]
  · simp only [update_of_ne same, queues_eq found, Option.some.injEq, Prod.mk.injEq] at now
    rw [← now.1, shut]

theorem ipc_lifecycle (reachable : IpcReachable state) :
    Lifecycle state ∧ ∀ call reply final, IpcStep state call reply final → ∀ chan value after,
      state.chans chan = some value → final.chans chan = some after →
      value.state = .disconnecting → after.state = .disconnecting := by
  refine ⟨reachable.inv.lifecycle, ?_⟩
  intro call reply final step chan value after found afterFound shut
  exact (step.effect reachable.inv).stays_shut found afterFound shut

/-- A run, with the results of the allocations of each call. -/
def ipcPlay : List (IpcCall × List Bool) → IpcState → Option IpcState
  | [], state => some state
  | (call, memory) :: rest, state =>
    if call.allowed state then
      match call.run { state with memory := memory } with
      | .done _ final => ipcPlay rest final
      | _ => none
    else none

theorem ipcPlay_keeps {motive : IpcState → Prop} (calls : List (IpcCall × List Bool))
    (keeps : ∀ entry ∈ calls, ∀ state reply final, IpcStep state entry.1 reply final →
      motive state → motive final)
    (holds : motive state) (played : ipcPlay calls state = some final) : motive final := by
  induction calls generalizing state with
  | nil =>
    cases played
    exact holds
  | cons entry rest ih =>
    obtain ⟨call, memory⟩ := entry
    simp only [ipcPlay] at played
    split at played
    · rename_i allowed
      split at played
      · rename_i reply next returned
        have kept := keeps _ List.mem_cons_self state reply next ⟨allowed, memory, returned⟩ holds
        exact ih (fun entry inside => keeps entry (List.mem_cons_of_mem _ inside)) kept played
      · cases played
    · cases played

theorem IpcReachable.play (calls : List (IpcCall × List Bool)) (reachable : IpcReachable state)
    (played : ipcPlay calls state = some final) : IpcReachable final :=
  ipcPlay_keeps calls (fun _ _ _ _ _ step reachable => reachable.step step) reachable played

/-- A client waits for a port, which is published, and its connection is accepted
and closed by the server. -/
def closedConnection : List (IpcCall × List Bool) :=
  [(.portConnect (some (.app 7)) [112] 64 1, []), (.portCreate (some (.app 1)) [112] 2 8 1, []),
    (.portPublish 0, []), (.portAccept 0, []), (.chanShutdown 1, []),
    (.portConnect (some (.app 7)) [112] 64 0, [])]

theorem ipc_lifecycle_closed :
    ∃ state, ipcPlay closedConnection .empty = some state ∧ Lifecycle state ∧
    Pending state 2 ∧ (state.chans 0).map IpcChan.state = some .disconnecting := by
  have played : (ipcPlay closedConnection .empty).map (fun state =>
      ((state.chans 0).map IpcChan.state, (state.chans 2).map fun value =>
        (value.state, value.server))) =
      some (some .disconnecting, some (.connecting, false)) := by
    decide +kernel
  obtain ⟨state, played, facts⟩ := Option.map_eq_some_iff.mp played
  simp only [Prod.mk.injEq] at facts
  obtain ⟨value, found, kind⟩ := Option.map_eq_some_iff.mp facts.2
  simp only [Prod.mk.injEq] at kind
  have cycle := (ipc_lifecycle (IpcReachable.play closedConnection .empty played)).1
  exact ⟨state, played, cycle, (cycle.connecting 2 value found kind.2).mp kind.1, facts.1⟩

/-- The ends of a connection have different roles and are shut together, and no
channel belongs to two connections. -/
theorem ipc_ends_agree (reachable : IpcReachable state) :
    ∀ chan peer, peerOf state.chans chan = some peer →
    ∃ value peerValue, state.chans chan = some value ∧ state.chans peer = some peerValue ∧
      peerValue.server = !value.server ∧
      (value.state = .disconnecting ↔ peerValue.state = .disconnecting) ∧
      ∀ other, peerOf state.chans other = some peer → other = chan := by
  intro chan peer points
  have inv := reachable.inv.chan
  obtain ⟨value, peerValue, found, peerFound, -, roles, states⟩ := inv.linked_of_peerOf points
  refine ⟨value, peerValue, found, peerFound, roles, by grind, ?_⟩
  exact fun other same => inv.paired.injective other chan peer same points

theorem ipc_ends_agree_pending : ∃ state, ipcPlay closedConnection .empty = some state ∧
    ∀ other, peerOf state.chans other = some 2 → other = 3 := by
  have played : (ipcPlay closedConnection .empty).map (peerOf ·.chans 3) = some (some 2) := by
    decide +kernel
  obtain ⟨state, played, points⟩ := Option.map_eq_some_iff.mp played
  obtain ⟨_, _, _, _, _, _, only⟩ :=
    ipc_ends_agree (.play closedConnection .empty played) 3 2 points
  exact ⟨state, played, only⟩

end Trusty.Ipc
