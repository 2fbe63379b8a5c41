import Trusty.Ipc.ChannelInvariant

/-!
The parts of calls that only touch references, lists and handles keep the invariant.
-/

namespace Trusty.Ipc

open Lib Function IpcState

variable {α : Type} {state : IpcState} {extra : Finset (ChanId × ChanRef)} {owed : Option PortId}
  {chan : ChanId} {port : PortId} {value : IpcChan} {portValue : IpcPort}

/-- What holds when a run returns; it may also stop at an assertion. -/
abbrev Gives (run : IpcRun α) (state : IpcState) (post : α → IpcState → Prop) : Prop :=
  run.ensures state post

variable {run : IpcRun α} {post : α → IpcState → Prop} {value new : IpcChan} {final : IpcState}
  {cleared held weaker : Prop} {ref : ChanRef} {peer : ChanId}

theorem Gives.mono {weaker : α → IpcState → Prop} (gives : Gives run state post)
    (implied : ∀ result final, post result final → weaker result final) : Gives run state weaker :=
  Run.ensures_mono gives implied

theorem Gives.pure {result : α} (holds : post result state) : Gives (Pure.pure result) state post :=
  holds

theorem Gives.bind {β : Type} {next : α → IpcRun β} {middle : α → IpcState → Prop}
    {post : β → IpcState → Prop} (first : Gives run state middle)
    (rest : ∀ result between, middle result between → Gives (next result) between post) :
    Gives (run >>= next) state post :=
  (Run.ensures_bind run next post).mpr (first.mono rest)

/-! ### Reading and writing objects -/

@[simps -fullyApplied]
def IpcState.withChan (state : IpcState) (chan : ChanId) (new : Option IpcChan) : IpcState :=
  { state with chans := update state.chans chan new }

@[simps -fullyApplied]
def IpcState.withPort (state : IpcState) (port : PortId) (new : Option IpcPort) : IpcState :=
  { state with ports := update state.ports port new }

@[simps -fullyApplied]
def IpcState.withMemory (state : IpcState) (memory : List Bool) : IpcState :=
  { state with memory := memory }

@[simp]
theorem gives_getChan (post : IpcChan → IpcState → Prop) :
    Gives (getChan chan) state post ↔ ∀ value, state.chans chan = some value →
    post value state := by
  simp [getChan]

@[simp]
theorem gives_getPort (post : IpcPort → IpcState → Prop) :
    Gives (getPort port) state post ↔ ∀ value, state.ports port = some value →
    post value state := by
  simp [getPort]

theorem gives_allocate {post : Bool → IpcState → Prop}
    (all : ∀ answer memory, post answer (state.withMemory memory)) : Gives allocate state post := by
  unfold allocate
  simp only [Run.ensures_bind, Run.ensures_read]
  split
  · exact all true state.memory
  · rename_i answer rest _
    exact all answer rest

@[simp]
theorem returns_getChan (post : IpcChan → IpcState → Prop) :
    (getChan chan).returns state post ↔ ∃ value, state.chans chan = some value ∧
    post value state := by
  simp [getChan]

@[simp]
theorem returns_getPort (post : IpcPort → IpcState → Prop) :
    (getPort port).returns state post ↔ ∃ value, state.ports port = some value ∧
    post value state := by
  simp [getPort]

@[simp]
theorem returns_allocate (post : Bool → IpcState → Prop) :
    allocate.returns state post ↔
    post (state.memory.headD true) (state.withMemory state.memory.tail) := by
  unfold allocate
  simp only [Run.returns_bind, Run.returns_read]
  cases answers : state.memory with
  | nil =>
    have same : state.withMemory [] = state := by rw [← answers]; rfl
    simp [same]
  | cons answer rest => simp [withMemory]

section

variable (post : Unit → IpcState → Prop)

@[simp]
theorem gives_setChan (value : IpcChan) :
    Gives (setChan chan value) state post ↔ post () (state.withChan chan (some value)) := by
  simp [setChan, withChan]

@[simp]
theorem gives_modifyChan (change : IpcChan → IpcChan) :
    Gives (modifyChan chan change) state post ↔ ∀ value, state.chans chan = some value →
      post () (state.withChan chan (some (change value))) := by
  simp [modifyChan]

@[simp]
theorem gives_freeChan : Gives (freeChan chan) state post ↔ post () (state.withChan chan none) := by
  simp [freeChan, withChan]

@[simp]
theorem gives_setPort (value : IpcPort) :
    Gives (setPort port value) state post ↔ post () (state.withPort port (some value)) := by
  simp [setPort, withPort]

@[simp]
theorem gives_modifyPort (change : IpcPort → IpcPort) :
    Gives (modifyPort port change) state post ↔ ∀ value, state.ports port = some value →
      post () (state.withPort port (some (change value))) := by
  simp [modifyPort]

@[simp]
theorem gives_freePort : Gives (freePort port) state post ↔ post () (state.withPort port none) := by
  simp [freePort, withPort]

@[simp]
theorem returns_setChan (value : IpcChan) :
    (setChan chan value).returns state post ↔ post () (state.withChan chan (some value)) := by
  simp [setChan, withChan]

@[simp]
theorem returns_modifyChan (change : IpcChan → IpcChan) :
    (modifyChan chan change).returns state post ↔ ∃ value, state.chans chan = some value ∧
      post () (state.withChan chan (some (change value))) := by
  simp [modifyChan]

@[simp]
theorem returns_modifyPort (change : IpcPort → IpcPort) :
    (modifyPort port change).returns state post ↔ ∃ value, state.ports port = some value ∧
      post () (state.withPort port (some (change value))) := by
  simp [modifyPort, setPort, withPort]

end

/-! ### Later states -/

theorem IpcChan.Onward.of_same {final : IpcChan} (kind : final.state = value.state)
    (peer : final.peer = value.peer) (queue : final.msgQueue = value.msgQueue)
    (blocked : final.sendBlocked = value.sendBlocked)
    (unblocked : final.sendUnblocked = value.sendUnblocked) :
    value.Onward cleared final :=
  ⟨fun shut => kind.trans shut, .inl queue, fun connected => .inl ⟨kind.trans connected, peer⟩,
    blocked, fun set => .inl (unblocked.trans set)⟩

theorem IpcChan.NewQueue.onward {final : IpcChan} (new : value.NewQueue)
    (onward : value.Onward cleared final) :
    final.NewQueue := by
  rcases onward.queue with same | ⟨_, created⟩
  · unfold IpcChan.NewQueue
    rw [same]
    exact new
  · exact created

theorem IpcChan.Onward.trans {first second third : IpcChan} (before : first.Onward False second)
    (after : second.Onward False third) : first.Onward False third := by
  refine ⟨after.shut ∘ before.shut, ?_, ?_, after.blocked.trans before.blocked, ?_⟩
  · rcases before.queue with same | ⟨missing, created⟩
    · rcases after.queue with same' | ⟨missing, created⟩
      · exact .inl (same'.trans same)
      · exact .inr ⟨same ▸ missing, created⟩
    · exact .inr ⟨missing, created.onward after⟩
  · intro connected
    rcases before.linked connected with ⟨still, peer⟩ | shut
    · exact (after.linked still).imp_left fun both => ⟨both.1, both.2.trans peer⟩
    · exact .inr (after.shut shut)
  · exact fun set => after.unblocked ((before.unblocked set).resolve_right id)

theorem IpcState.LaterBut.of_changed {cleared : ChanId → Prop}
    (next : state.nextChan ≤ final.nextChan)
    (changes : ∀ chan, final.chans chan = state.chans chan ∨
      (∃ value, state.chans chan = some value ∧
        ∀ after, final.chans chan = some after → value.Onward (cleared chan) after) ∨
      (state.nextChan ≤ chan ∧ state.chans chan = none ∧
        ∀ after, final.chans chan = some after → after.NewQueue ∧ after.sendBlocked = false)) :
    state.LaterBut cleared final := by
  refine ⟨next, ?_, ?_, ?_⟩
  · intro chan below gone
    rcases changes chan with unchanged | ⟨value, found, _⟩ | ⟨above, _⟩
    · rw [unchanged, gone]
    · rw [gone] at found
      cases found
    · exact absurd below (Nat.not_lt.mpr above)
  · intro chan value after found afterFound
    rcases changes chan with unchanged | ⟨other, otherFound, onward⟩ | ⟨_, missing, _⟩
    · rw [unchanged, found] at afterFound
      cases afterFound
      exact .of_same rfl rfl rfl rfl rfl
    · rw [found] at otherFound
      cases otherFound
      exact onward after afterFound
    · rw [missing] at found
      cases found
  · intro chan after missing afterFound
    rcases changes chan with unchanged | ⟨other, otherFound, _⟩ | ⟨_, _, new⟩
    · rw [unchanged, missing] at afterFound
      cases afterFound
    · rw [missing] at otherFound
      cases otherFound
    · exact new after afterFound

theorem IpcState.LaterBut.update {new : Option IpcChan} {cleared : ChanId → Prop}
    (found : state.chans chan = some value) (chans : final.chans = update state.chans chan new)
    (next : final.nextChan = state.nextChan)
    (onward : ∀ after, new = some after → value.Onward (cleared chan) after) :
    state.LaterBut cleared final := by
  refine .of_changed next.ge fun other => ?_
  rw [chans]
  by_cases same : other = chan
  · subst same
    rw [update_self]
    exact .inr (.inl ⟨value, found, onward⟩)
  · exact .inl (update_of_ne same _ _)

theorem IpcState.Later.set (found : state.chans chan = some value)
    (chans : final.chans = update state.chans chan (some new))
    (next : final.nextChan = state.nextChan) (onward : value.Onward False new) :
    state.Later final :=
  .update found chans next fun _ same => Option.some.inj same ▸ onward

theorem IpcState.Later.of_same (chans : final.chans = state.chans)
    (next : final.nextChan = state.nextChan) :
    state.Later final :=
  .of_changed next.ge fun chan => .inl (congrFun chans chan)

theorem IpcState.Later.refl (state : IpcState) : state.Later state := .of_same rfl rfl

theorem IpcState.Later.trans {before middle after : IpcState} (first : before.Later middle)
    (second : middle.Later after)
    (fresh : ∀ chan, before.nextChan ≤ chan → before.chans chan = none) :
    before.Later after := by
  refine ⟨le_trans first.next second.next, ?_, ?_, ?_⟩
  · intro chan below gone
    exact second.gone chan (lt_of_lt_of_le below first.next) (first.gone chan below gone)
  · intro chan value final found finalFound
    have below : chan < before.nextChan := by
      by_contra above
      rw [fresh chan (Nat.le_of_not_lt above)] at found
      cases found
    cases middleFound : middle.chans chan with
    | none =>
      rw [second.gone chan (lt_of_lt_of_le below first.next) middleFound] at finalFound
      cases finalFound
    | some between =>
      exact (first.onward chan value between found middleFound).trans
        (second.onward chan between final middleFound finalFound)
  · intro chan final missing finalFound
    cases middleFound : middle.chans chan with
    | none => exact second.born chan final middleFound finalFound
    | some between =>
      have born := first.born chan between missing middleFound
      have onward := second.onward chan between final middleFound finalFound
      exact ⟨born.1.onward onward, onward.blocked.trans born.2⟩

/-! ### References -/

theorem IpcChan.Ok.mono (ok : value.Ok held) (implied : held → weaker) : value.Ok weaker := by
  refine ⟨ok.1, ?_⟩
  have rest := ok.2
  revert rest
  cases value.state with
  | invalid => exact fun rest => ⟨implied rest.1, rest.2⟩
  | waitingForPort =>
    exact fun rest =>
      ⟨rest.1, rest.2.1, rest.2.2.imp id fun limbo => ⟨limbo.1, limbo.2.1, implied limbo.2.2⟩⟩
  | accepting =>
    exact fun rest =>
      ⟨rest.1, rest.2.1, rest.2.2.1, rest.2.2.2.1, rest.2.2.2.2.imp id fun limbo =>
        ⟨limbo.1, implied limbo.2⟩⟩
  | _ => exact id

@[simps]
def IpcChan.withoutRef (value : IpcChan) (ref : ChanRef) : IpcChan :=
  { value with refs := value.refs.erase ref }

@[simps]
def IpcChan.withoutPeer (value : IpcChan) : IpcChan := { value with peer := none }

theorem homed_same (inv : IpcInv extra owed state) (found : state.chans chan = some value)
    {node : Option ListHead} (sameNode : node = value.node) :
    Homed (listsOf state.waiting state.ports) (update (nodeOf state.chans) chan node) := by
  rw [sameNode, ← nodeOf_eq found, update_eq_self]
  exact inv.chan.homed

@[simp]
theorem IpcState.withChan_withChan (first second : Option IpcChan) :
    (state.withChan chan first).withChan chan second = state.withChan chan second := by
  simp [withChan]

@[simp]
theorem IpcState.withMemory_withChan (memory : List Bool) (new : Option IpcChan) :
    (state.withChan chan new).withMemory memory = (state.withMemory memory).withChan chan new :=
  rfl

@[simp]
theorem IpcState.withMemory_withMemory (first second : List Bool) :
    (state.withMemory first).withMemory second = state.withMemory second :=
  rfl

section

variable (inv : IpcInv extra owed state) (found : state.chans chan = some value)

include inv found

theorem chanDelRef_gives (dropped : ¬Reason state.chans chan value ref)
    (ok : value.refs.erase ref ≠ ∅ → value.Ok ((chan, .tmp) ∈ extra.erase (chan, ref))) :
    Gives (chanDelRef chan ref) state fun _ final =>
      IpcInv (extra.erase (chan, ref)) owed final ∧
        ∃ new, final = state.withChan chan new ∧
          ∀ after, new = some after → after = value.withoutRef ref := by
  simp only [chanDelRef, Run.ensures_bind, gives_getChan, found, Option.some.injEq, forall_eq',
    Run.ensures_require, gives_setChan]
  intro mem
  split
  · rename_i last
    simp only [chanDestroyRefobj, Run.ensures_bind, gives_getChan, gives_freeChan,
      Run.ensures_require, withChan_chans, update_self, Option.some.injEq, forall_eq',
      withChan_withChan]
    intro noPeer noNode
    exact ⟨⟨inv.chan.free found noPeer noNode last dropped, inv.port⟩, none, rfl,
      fun _ contra => by cases contra⟩
  rename_i kept
  refine ⟨⟨?_, inv.port⟩, some _, rfl, fun after same => (Option.some.inj same).symm⟩
  refine inv.chan.update found rfl rfl (.inl rfl) (homed_same inv found rfl) ?_ ?_ kept (ok kept)
  · intro other ne otherRef
    simp [ne]
  intro otherRef
  have reason : Reason state.chans chan (value.withoutRef ref) otherRef ↔
      Reason state.chans chan value otherRef := by
    cases otherRef <;> exact Iff.rfl
  change otherRef ∈ value.refs.erase ref ↔
    Reason state.chans chan (value.withoutRef ref) otherRef ∨ _
  rw [Finset.mem_erase, inv.chan.refs chan value found otherRef, Finset.mem_erase, reason]
  by_cases same : otherRef = ref
  · simp [same, dropped]
  · simp [same]

theorem IpcInv.touch (refs : new.refs = value.refs) (peer : new.peer = value.peer)
    (server : new.server = value.server) (sameState : new.state = value.state)
    (node : new.node = value.node) (handle : new.handle = none ↔ value.handle = none)
    (ok : new.Ok ((chan, .tmp) ∈ extra)) :
    IpcInv extra owed (state.withChan chan (some new)) := by
  refine ⟨?_, inv.port⟩
  refine inv.chan.update found peer server (.inl sameState) (homed_same inv found node) ?_ ?_ ?_ ok
  · exact fun _ _ _ => Iff.rfl
  · intro ref
    rw [refs, inv.chan.refs chan value found ref]
    cases ref <;> simp [Reason, handle, node]
  · rw [refs]
    exact inv.chan.kept chan value found

end

/-! ### Lists -/

/-- The debt after a channel left a list. -/
def ListHead.debt : ListHead → Option PortId
  | .waiting => none
  | .pending port => some port

theorem IpcInv.unlink (inv : IpcInv extra none state) (found : state.chans chan = some value)
    {head : ListHead} (inside : value.node = some head) (peer : new.peer = value.peer)
    (server : new.server = value.server)
    (sameState : new.state = value.state ∨ Alone state.chans chan) (node : new.node = none)
    {extra' : Finset (ChanId × ChanRef)}
    (extraFrame : ∀ other, other ≠ chan → ∀ ref, (other, ref) ∈ extra' ↔ (other, ref) ∈ extra)
    (refs : ∀ ref, ref ∈ new.refs ↔ Reason state.chans chan new ref ∨ (chan, ref) ∈ extra')
    (kept : new.refs ≠ ∅) (ok : new.Ok ((chan, .tmp) ∈ extra'))
    (chans : final.chans = update state.chans chan (some new))
    (next : final.nextChan = state.nextChan)
    (ports : PortInv final.ports final.portList final.nextPort head.debt)
    (lists : listsOf final.waiting final.ports =
      update (listsOf state.waiting state.ports) head
        ((listsOf state.waiting state.ports head).erase chan)) :
    IpcInv extra' head.debt final := by
  refine ⟨?_, ports⟩
  rw [chans, next, lists]
  refine inv.chan.update found peer server sameState ?_ extraFrame refs kept ok
  rw [node]
  apply inv.chan.homed.remove
  rw [nodeOf_eq found, inside]

/-- The state after `list_delete`, but for the node of the channel. -/
def IpcState.unlisted (state : IpcState) (chan : ChanId) : ListHead → IpcState
  | .waiting => { state with waiting := state.waiting.erase chan }
  | .pending port => state.withPort port
      ((state.ports port).map fun value =>
        { value with pendingList := value.pendingList.erase chan })

theorem gives_listDelete (found : state.chans chan = some value) (post : Unit → IpcState → Prop)
    {head : ListHead} (inside : value.node = some head)
    (holds :
      post () ((state.unlisted chan head).withChan chan (some { value with node := none }))) :
    Gives (listDelete chan) state post := by
  simp only [listDelete, Run.ensures_bind, gives_getChan, found, Option.some.injEq, forall_eq',
    Run.ensures_ofOption, inside]
  cases head with
  | waiting =>
    simp only [listRemove, Run.ensures_modify, gives_modifyChan, found,
      Option.some.injEq, forall_eq']
    exact holds
  | pending port =>
    simp only [listRemove, gives_modifyPort, gives_modifyChan, withPort_chans, found,
      Option.some.injEq, forall_eq']
    intro portValue portFound
    simpa only [unlisted, portFound, Option.map_some] using holds

section Unlisted

variable {head : ListHead}

@[simp]
theorem unlisted_chans : (state.unlisted chan head).chans = state.chans := by
  cases head <;> rfl

@[simp]
theorem unlisted_nextChan : (state.unlisted chan head).nextChan = state.nextChan := by
  cases head <;> rfl

section

variable (inv : IpcInv extra none state) (found : state.chans chan = some value)
  (inside : value.node = some head)

include inv found inside

theorem unlisted_lists :
    listsOf (state.unlisted chan head).waiting (state.unlisted chan head).ports =
      update (listsOf state.waiting state.ports) head
        ((listsOf state.waiting state.ports head).erase chan) := by
  have member : chan ∈ listsOf state.waiting state.ports head := by
    rw [inv.chan.homed.mem_iff, nodeOf_eq found, inside]
  cases head with
  | waiting =>
    exact listsOf_waiting state.waiting _ state.ports
  | pending port =>
    simp only [unlisted, withPort_waiting, withPort_ports]
    rw [listsOf_update]
    cases portFound : state.ports port with
    | none => simp [listsOf, portFound] at member
    | some portValue => simp [listsOf, portFound]

theorem unlisted_ports :
    PortInv (state.unlisted chan head).ports (state.unlisted chan head).portList
      (state.unlisted chan head).nextPort
      head.debt := by
  have member : chan ∈ listsOf state.waiting state.ports head := by
    rw [inv.chan.homed.mem_iff, nodeOf_eq found, inside]
  cases head with
  | waiting => exact inv.port
  | pending port =>
    cases portFound : state.ports port with
    | none => simp [listsOf, portFound] at member
    | some portValue =>
      rw [listsOf_pending _ portFound] at member
      simp only [unlisted, portFound, Option.map_some, ListHead.debt]
      refine inv.port.update_same portFound rfl rfl rfl ?_ ?_
      · have count := inv.port.counted port portValue portFound
        have length := List.length_erase_of_mem member
        have positive := List.length_pos_of_mem member
        simp only [IpcPort.accounted, reduceCtorEq, if_false, if_true] at count ⊢
        omega
      · intro other ne
        simp [Ne.symm ne]

end

end Unlisted

/-- `list_delete` leaves the reference of the node to be dropped. -/
theorem listDelete_gives (inv : IpcInv extra none state) (found : state.chans chan = some value)
    {head : ListHead} (inside : value.node = some head)
    (ok : IpcChan.Ok { value with node := none } ((chan, .tmp) ∈ extra)) :
    Gives (listDelete chan) state fun _ final =>
      IpcInv (insert (chan, .node) extra) head.debt final ∧
        final = (state.unlisted chan head).withChan chan (some { value with node := none }) := by
  refine gives_listDelete found _ inside ⟨?_, rfl⟩
  have chans : ((state.unlisted chan head).withChan chan (some { value with node := none })).chans =
      update state.chans chan (some { value with node := none }) := by
    simp
  refine inv.unlink found inside ?_ ?_ (.inl ?_) ?_ ?_ ?_ ?_ ?_ chans ?_ ?_ ?_
  · rfl
  · rfl
  · rfl
  · rfl
  · intro other ne ref
    simp [ne]
  · intro ref
    rw [inv.chan.refs chan value found ref, Finset.mem_insert]
    cases ref <;> simp [Reason, inside]
  · exact inv.chan.kept chan value found
  · simpa using ok
  · simp
  · exact unlisted_ports inv found inside
  · exact unlisted_lists inv found inside

/-! ### Shutting down -/

theorem IpcChan.Ok.shut (ok : value.Ok held) (notInvalid : value.state ≠ .invalid)
    (notWaiting : value.state ≠ .waitingForPort) (shut : new.state = .disconnecting)
    (queue : new.msgQueue = value.msgQueue) (node : new.node = none ∨ new.node = value.node)
    (path : new.path = value.path) (peer : new.peer = none ∨ new.peer = value.peer) :
    new.Ok weaker := by
  refine ⟨queue ▸ ok.1, ?_⟩
  rw [shut]
  simp only [queue, path]
  have rest := ok.2
  revert rest
  cases state : value.state with
  | invalid => exact (notInvalid state).elim
  | waitingForPort => exact (notWaiting state).elim
  | accepting =>
    rintro ⟨_, _, noPath, hasQueue, (⟨port, pending⟩ | ⟨noNode, _⟩)⟩
    · rcases node with none_ | same <;> simp [*]
    · rcases node with none_ | same <;> simp [*]
  | connecting =>
    rintro ⟨_, _, noPath, hasQueue, noNode⟩
    rcases node with none_ | same <;> simp [*]
  | connected =>
    rintro ⟨_, noPath, hasQueue, noNode⟩
    rcases node with none_ | same <;> simp [*]
  | disconnecting =>
    rintro ⟨notListed, queue_iff, alone⟩
    refine ⟨?_, queue_iff, fun hasPath => ⟨?_, ?_⟩⟩
    · rcases node with none_ | same <;> simp [*]
    · rcases peer with none_ | same <;> simp [*, (alone hasPath).1]
    · rcases node with none_ | same <;> simp [*, (alone hasPath).2]

namespace ChanInv

variable {chans : Chans} {lists : ListHead → List ChanId} {next : ChanId} {peer : ChanId}
  {peerValue new newPeer : IpcChan}

section

variable (inv : ChanInv chans lists next extra) (found : chans chan = some value)
  (peerFound : chans peer = some peerValue) (pointer : value.peer = some peer)

include inv found peerFound pointer

theorem linked_states :
    value.state ≠ .invalid ∧ value.state ≠ .waitingForPort ∧ peerValue.state ≠ .invalid ∧
      peerValue.state ≠ .waitingForPort := by
  obtain ⟨_, states⟩ := inv.linked chan peer value peerValue found peerFound pointer
  rcases states with states | ⟨_, states | states | states⟩ <;> simp [states.1, states.2]

theorem pointers :
    chan ≠ peer ∧ (peerValue.peer = none ∨ peerValue.peer = some chan) ∧
      (∀ other, other ≠ chan → other ≠ peer → peerOf chans other ≠ some chan ∧
        peerOf chans other ≠ some peer) ∧
      (∀ other, peerOf chans other = some chan ↔ other = peer ∧ peerValue.peer = some chan) ∧
      ∀ other, peerOf chans other = some peer ↔ other = chan := by
  have toPeer : peerOf chans chan = some peer := by rw [peerOf_eq found, pointer]
  have ne : chan ≠ peer := by
    rintro rfl
    exact inv.paired.irrefl chan toPeer
  have apart : ∀ other, other ≠ chan → other ≠ peer →
      peerOf chans other ≠ some chan ∧ peerOf chans other ≠ some peer := by
    intro other notChan notPeer
    constructor <;> intro target
    · exact (inv.paired.apart toPeer notChan notPeer target).1 rfl
    · exact (inv.paired.apart toPeer notChan notPeer target).2 rfl
  refine ⟨ne, ?_, apart, ?_, ?_⟩
  · have answer := inv.paired.answered chan peer toPeer
    rw [peerOf_eq peerFound] at answer
    exact answer.symm
  · intro other
    constructor
    · intro target
      by_cases isPeer : other = peer
      · subst isPeer
        rw [peerOf_eq peerFound] at target
        exact ⟨rfl, target⟩
      · by_cases isChan : other = chan
        · subst isChan
          exact (inv.paired.irrefl other target).elim
        · exact ((apart other isChan isPeer).1 target).elim
    · rintro ⟨rfl, target⟩
      rw [peerOf_eq peerFound, target]
  · intro other
    constructor
    · exact fun target => inv.paired.injective other chan peer target toPeer
    · rintro rfl
      exact toPeer

theorem disconnect
    (same : new.refs = value.refs ∧ new.server = value.server ∧ new.handle = value.handle ∧
      new.node = value.node ∧ new.msgQueue = value.msgQueue ∧ new.path = value.path)
    (shut : new.state = .disconnecting) (dropped : new.peer = none)
    (samePeer : newPeer.refs = peerValue.refs ∧ newPeer.server = peerValue.server ∧
      newPeer.handle = peerValue.handle ∧ newPeer.node = peerValue.node ∧
      newPeer.msgQueue = peerValue.msgQueue ∧ newPeer.path = peerValue.path)
    (peerShut : newPeer.state = .disconnecting) (peerKept : newPeer.peer = peerValue.peer) :
    ChanInv (Function.update (Function.update chans chan (some new)) peer (some newPeer)) lists next
      (insert (peer, .peer chan) extra) := by
  obtain ⟨ne, back, closed, toChan, toPeer⟩ := inv.pointers found peerFound pointer
  obtain ⟨notInvalid, notWaiting, peerNotInvalid, peerNotWaiting⟩ :=
    inv.linked_states found peerFound pointer
  obtain ⟨servers, _⟩ := inv.linked chan peer value peerValue found peerFound pointer
  obtain ⟨refs, server, handle, node, queue, path⟩ := same
  obtain ⟨peerRefs, peerServer, peerHandle, peerNode, peerQueue, peerPath⟩ := samePeer
  refine inv.update_pair found peerFound ne closed (.inr pointer) back (.inl dropped)
    (peerKept ▸ back) ?_ ?_ ?_ ?_ ?_ ?_ ?_ ?_ ?_ ?_ ?_
  · rw [dropped, peerKept, ← peerOf_eq peerFound, update_comm ne, update_eq_self]
    exact inv.paired.drop chan
  · rw [node, peerNode, ← nodeOf_eq found, ← nodeOf_eq peerFound, update_eq_self, update_eq_self]
    exact inv.homed
  · intro other _ notPeer ref
    simp [notPeer]
  · intro ref
    rw [refs, inv.refs chan value found ref]
    cases ref <;> simp [Reason, handle, node, toChan, peerKept, ne]
  · intro ref
    rw [peerRefs, inv.refs peer peerValue peerFound ref]
    cases ref <;> simp [Reason, peerHandle, peerNode, toPeer, dropped]
  · rw [refs]
    exact inv.kept chan value found
  · rw [peerRefs]
    exact inv.kept peer peerValue peerFound
  · intro contra
    rw [dropped] at contra
    cases contra
  · intro _
    refine ⟨?_, .inl ⟨peerShut, shut⟩⟩
    rw [server, peerServer, servers, Bool.not_not]
  · exact (inv.ok chan value found).shut notInvalid notWaiting shut queue (.inr node) path
      (.inl dropped)
  · exact (inv.ok peer peerValue peerFound).shut peerNotInvalid peerNotWaiting peerShut peerQueue
      (.inr peerNode) peerPath (.inr peerKept)

end

end ChanInv

/-- What `_chan_shutdown_locked` does to a channel that waits for no port. -/
@[simps]
def IpcChan.shutOne (value : IpcChan) : IpcChan :=
  { value with
    state := if value.state = .invalid then .invalid else .disconnecting
    notified := value.notified || decide (value.state = .connected ∨ value.state = .connecting) }

theorem IpcState.withChan_same (found : state.chans chan = some value) :
    state.withChan chan (some value) = state := by
  simp [withChan, ← found]

theorem gives_chanShutdownOne (found : state.chans chan = some value)
    (notWaiting : value.state ≠ .waitingForPort) {post : Unit → IpcState → Prop}
    (holds : post () (state.withChan chan (some value.shutOne))) :
    Gives (chanShutdownOne chan) state post := by
  simp only [chanShutdownOne, Run.ensures_bind, gives_getChan, found, Option.some.injEq, forall_eq']
  cases kind : value.state with
  | waitingForPort => exact (notWaiting kind).elim
  | invalid | disconnecting =>
    have same : value.shutOne = value := by
      unfold IpcChan.shutOne
      cases value
      simp_all
    rw [same, withChan_same found] at holds
    simpa using holds
  | accepting =>
    simp only [IpcChan.shutOne, kind] at holds
    simpa [found] using holds
  | connected | connecting =>
    simp only [IpcChan.shutOne, kind] at holds
    simpa [found, chanNotify] using holds

theorem gives_chanDelRef_modifyChan (ne : chan ≠ peer) {change : IpcChan → IpcChan}
    {post : Unit → IpcState → Prop} (found : state.chans chan = some value)
    (swapped : Gives (chanDelRef peer ref) (state.withChan chan (some (change value))) post) :
    Gives (do chanDelRef peer ref; modifyChan chan change) state post := by
  simp only [chanDelRef, chanDestroyRefobj, Run.ensures_bind, gives_getChan, gives_setChan,
    Run.ensures_require, withChan_chans, update_of_ne (Ne.symm ne)] at swapped ⊢
  intro peerValue peerFound mem
  have reached := swapped peerValue peerFound mem
  split
  · rename_i last
    simp only [last, if_true, Run.ensures_bind, gives_getChan, gives_freeChan, gives_modifyChan,
      Run.ensures_require, withChan_chans, update_self, update_of_ne ne, found,
      Option.some.injEq, forall_eq', withChan_withChan] at reached ⊢
    intro noPeer noNode
    have done := reached noPeer noNode
    simpa only [withChan, update_comm ne] using done
  · rename_i kept
    simp only [kept, if_false, Run.ensures_pure, gives_modifyChan, withChan_chans,
      update_of_ne ne, found, Option.some.injEq, forall_eq'] at reached ⊢
    simpa only [withChan, update_comm ne] using reached

/-- Only local references are left to be dropped. -/
def Quiet (extra : Finset (ChanId × ChanRef)) : Prop := ∀ chan ref, (chan, ref) ∈ extra → ref = .tmp

theorem chanShutdown_waiting (inv : IpcInv extra none state) (quiet : Quiet extra)
    (found : state.chans chan = some value) (waiting : value.state = .waitingForPort) :
    Gives (chanShutdownLocked chan) state fun _ final => IpcInv extra none final ∧
      ∃ refs, final = (state.unlisted chan .waiting).withChan chan
        (some { value with node := none, refs := refs, state := .disconnecting }) := by
  have ok := (inv.chan.ok chan value found).2
  rw [waiting] at ok
  obtain ⟨client, noPeer, place⟩ := ok
  simp only [chanShutdownLocked, chanShutdownOne, Run.ensures_bind, gives_getChan, found,
    Option.some.injEq, forall_eq', waiting, Run.ensures_require]
  intro hasNode
  rcases place with ⟨inside, hasPath, noQueue⟩ | ⟨noNode, _⟩
  · refine gives_listDelete found _ inside ?_
    simp only [chanDelRef, Run.ensures_bind, gives_getChan, gives_setChan, Run.ensures_require,
      withChan_chans, update_self, Option.some.injEq, forall_eq', withChan_withChan]
    intro mem
    split
    · -- the channel is freed, and the next access to it stops the run
      simp [chanDestroyRefobj]
    rename_i kept
    simp only [Run.ensures_pure, gives_modifyChan, withChan_chans, update_self,
      Option.some.injEq, forall_eq', withChan_withChan, noPeer]
    refine ⟨?_, _, rfl⟩
    have alone := inv.chan.alone found (.inr waiting)
    have chans : ((state.unlisted chan .waiting).withChan chan (some
        { value with
          node := none, refs := value.refs.erase .node
          state := .disconnecting, peer := none })).chans =
        update state.chans chan (some
        { value with
          node := none, refs := value.refs.erase .node
          state := .disconnecting, peer := none }) := by
      simp
    refine inv.unlink found inside ?_ ?_ (.inr alone) ?_ ?_ ?_ ?_ ?_ chans ?_ ?_ ?_
    · exact noPeer.symm
    · rfl
    · rfl
    · exact fun _ _ _ => Iff.rfl
    · intro ref
      rw [Finset.mem_erase, inv.chan.refs chan value found ref]
      cases ref with
      | node => simpa [Reason] using fun mem => by cases quiet chan .node mem
      | _ => simp [Reason]
    · exact kept
    · refine ⟨(inv.chan.ok chan value found).1, ?_⟩
      simp [hasPath, noQueue]
    · rfl
    · exact unlisted_ports inv found inside
    · exact unlisted_lists inv found inside
  · exact (hasNode noNode).elim

theorem Quiet.erase_insert (quiet : Quiet extra) (notTmp : ref ≠ .tmp) :
    (insert (chan, ref) extra).erase (chan, ref) = extra :=
  Finset.erase_insert fun mem => notTmp (quiet chan ref mem)

section

variable (inv : IpcInv extra none state) (quiet : Quiet extra)
  (found : state.chans chan = some value)

include inv quiet found

theorem chanShutdown_linked (pointer : value.peer = some peer) :
    Gives (chanShutdownLocked chan) state fun _ final => IpcInv extra none final ∧
      ∃ peerValue new, chan ≠ peer ∧ state.chans peer = some peerValue ∧
        final = (state.withChan chan (some value.shutOne.withoutPeer)).withChan peer new ∧
          ∀ after, new = some after → after = peerValue.shutOne.withoutRef (.peer chan) := by
  obtain ⟨peerValue, peerFound⟩ := inv.chan.exists_peer found pointer
  obtain ⟨ne, _⟩ := inv.chan.pointers found peerFound pointer
  obtain ⟨notInvalid, notWaiting, peerNotInvalid, peerNotWaiting⟩ :=
    inv.chan.linked_states found peerFound pointer
  unfold chanShutdownLocked
  refine (Run.ensures_bind _ _ _).mpr (gives_chanShutdownOne found notWaiting ?_)
  simp only [Run.ensures_bind, gives_getChan, withChan_chans, update_self, Option.some.injEq,
    forall_eq', IpcChan.shutOne_peer, pointer]
  have peerReached : (state.withChan chan (some value.shutOne)).chans peer = some peerValue := by
    rw [withChan_chans, update_of_ne (Ne.symm ne), peerFound]
  refine gives_chanShutdownOne peerReached peerNotWaiting ?_
  have chanReached :
    ((state.withChan chan (some value.shutOne)).withChan peer (some peerValue.shutOne)).chans chan =
      some value.shutOne := by
    simp [ne]
  refine (Run.ensures_bind _ _ _).mp (gives_chanDelRef_modifyChan ne chanReached ?_)
  have swapped :
    ((state.withChan chan (some value.shutOne)).withChan peer (some peerValue.shutOne)).withChan
      chan (some value.shutOne.withoutPeer) =
      (state.withChan chan (some value.shutOne.withoutPeer)).withChan peer
        (some peerValue.shutOne) := by
    simp [withChan, update_comm (Ne.symm ne)]
  have shut : IpcInv (insert (peer, .peer chan) extra) none
      ((state.withChan chan (some value.shutOne.withoutPeer)).withChan peer
        (some peerValue.shutOne)) := by
    refine ⟨?_, inv.port⟩
    refine inv.chan.disconnect found peerFound pointer ⟨rfl, rfl, rfl, rfl, rfl, rfl⟩ ?_ rfl
      ⟨rfl, rfl, rfl, rfl, rfl, rfl⟩ ?_ rfl
    · simp [notInvalid]
    · simp [peerNotInvalid]
  change Gives (chanDelRef peer (.peer chan))
    (((state.withChan chan (some value.shutOne)).withChan peer (some peerValue.shutOne)).withChan
      chan (some value.shutOne.withoutPeer)) _
  rw [swapped]
  have peerNow : ((state.withChan chan (some value.shutOne.withoutPeer)).withChan peer
      (some peerValue.shutOne)).chans peer = some peerValue.shutOne := by
    simp
  refine (chanDelRef_gives shut peerNow ?_ ?_).mono ?_
  · simp [Reason, peerOf, ne]
  · intro _
    refine (shut.chan.ok peer _ peerNow).shut ?_ ?_ ?_ rfl (.inr rfl) rfl (.inr rfl) <;>
      simp [peerNotInvalid]
  · rintro _ final ⟨kept, new, rfl, only⟩
    rw [quiet.erase_insert (by simp)] at kept
    exact ⟨kept, peerValue, new, ne, peerFound, by rw [withChan_withChan], only⟩

theorem chanShutdownLocked_gives :
    Gives (chanShutdownLocked chan) state fun _ final =>
      IpcInv extra none final ∧ state.Later final ∧ final.ports = state.ports ∧
        ∃ new, final.chans chan = some new ∧ (value.state ≠ .invalid → new.state = .disconnecting) ∧
          (value.state ≠ .waitingForPort → new.node = value.node) := by
  by_cases waiting : value.state = .waitingForPort
  · refine (chanShutdown_waiting inv quiet found waiting).mono ?_
    rintro _ final ⟨kept, refs, rfl⟩
    refine ⟨kept, ?_, ?_, _, update_self _ _ _, fun _ => rfl, fun notWaiting =>
      (notWaiting waiting).elim⟩
    · exact .set found rfl rfl ⟨fun _ => rfl, .inl rfl, fun _ => .inr rfl, rfl, .inl⟩
    · rfl
  cases pointer : value.peer with
  | some peer =>
    refine (chanShutdown_linked inv quiet found pointer).mono ?_
    rintro _ final ⟨kept, peerValue, new, ne, peerFound, rfl, only⟩
    have notInvalid := (inv.chan.linked_states found peerFound pointer).1
    refine ⟨kept, ?_, rfl, value.shutOne.withoutPeer, ?_, ?_, fun _ => rfl⟩
    · have shut : value.shutOne.withoutPeer.state = .disconnecting := by simp [notInvalid]
      have first : state.Later (state.withChan chan (some value.shutOne.withoutPeer)) :=
        .set found rfl rfl ⟨fun _ => shut, .inl rfl, fun _ => .inr shut, rfl, .inl⟩
      refine first.trans ?_ inv.chan.fresh
      have peerReached :
          (state.withChan chan (some value.shutOne.withoutPeer)).chans peer = some peerValue := by
        simp [Ne.symm ne, peerFound]
      refine .update peerReached rfl rfl ?_
      rintro after same
      rw [only after same]
      exact ⟨fun shut => by simp [shut], .inl rfl, fun connected => .inr (by simp [connected]),
        rfl, .inl⟩
    · simp [ne]
    · simp
  | none =>
    have unchanged : value.state = .invalid ∨ value.state = .disconnecting := by
      have ok := (inv.chan.ok chan value found).2
      cases kind : value.state <;> simp_all
    unfold chanShutdownLocked
    refine (Run.ensures_bind _ _ _).mpr (gives_chanShutdownOne found waiting ?_)
    have same : value.shutOne = value := by
      unfold IpcChan.shutOne
      rcases unchanged with kind | kind <;> cases value <;> simp_all
    rw [same, withChan_same found]
    simp only [Run.ensures_bind, gives_getChan, found, Option.some.injEq, forall_eq', pointer,
      Run.ensures_pure]
    exact ⟨inv, .refl state, trivial, value, rfl, fun notInvalid =>
      unchanged.resolve_left notInvalid, fun _ => rfl⟩

end

theorem portDecref_gives (inv : IpcInv extra (some port) state) :
    Gives (portDecref port) state fun _ final => IpcInv extra none final ∧
    final.chans = state.chans ∧
      final.nextChan = state.nextChan := by
  simp only [portDecref, Run.ensures_bind, gives_getPort, gives_setPort]
  intro portValue portFound
  have count := inv.port.counted port portValue portFound
  rw [if_pos rfl] at count
  have others : ∀ other, other ≠ port → (none = some other ↔ some port = some other) := by
    intro other ne
    simp [Ne.symm ne]
  split
  · rename_i last
    simp only [portHandleDestroy, Run.ensures_bind, gives_getPort, gives_freePort,
      Run.ensures_require, withPort_ports, update_self, Option.some.injEq, forall_eq']
    intro noPending unlisted
    refine ⟨⟨?_, ?_⟩, rfl, rfl⟩
    · simp only [withPort_chans, withPort_waiting, withPort_ports, withPort_nextChan, update_idem]
      rw [listsOf_update_same state.waiting portFound none noPending.symm]
      exact inv.chan
    · simp only [withPort_ports, update_idem]
      refine inv.port.update le_rfl (inv.port.lt_next portFound) ?_ ?_
        (fun other ne => ⟨others other ne, Iff.rfl⟩) ?_ inv.port.nodup ?_
      · rintro _ ⟨⟩
      · rintro _ ⟨⟩
      · simp [inv.port.mem_iff, portFound, unlisted]
      · rintro _ ⟨⟩
  · refine ⟨⟨?_, ?_⟩, rfl, rfl⟩
    · simp only [withPort_chans, withPort_waiting, withPort_ports, withPort_nextChan]
      rw [listsOf_update_same state.waiting portFound _ rfl]
      exact inv.chan
    · refine inv.port.update_same portFound rfl rfl rfl ?_ others
      simp only [IpcPort.accounted, reduceCtorEq, if_false] at count ⊢
      omega

end Trusty.Ipc
