import Trusty.Ipc.Channel
import Trusty.Lib.Links

/-!
What holds of all ports and channels.

A call takes and drops references one after another, so the invariant is stated
with the references the running call still has to drop: `extra` of channels, and
`owed` of a port.  Between calls there are none.
-/

namespace Trusty.Ipc

open Lib Function Option

abbrev Chans := ChanId → Option IpcChan

def peerOf (chans : Chans) (chan : ChanId) : Option ChanId := (chans chan).bind IpcChan.peer

def nodeOf (chans : Chans) (chan : ChanId) : Option ListHead := (chans chan).bind IpcChan.node

section Projections

variable {chans : Chans} {chan : ChanId} {value new : IpcChan}

theorem peerOf_eq (found : chans chan = some value) : peerOf chans chan = value.peer := by
  simp [peerOf, found]

theorem nodeOf_eq (found : chans chan = some value) : nodeOf chans chan = value.node := by
  simp [nodeOf, found]

theorem peerOf_update (new : Option IpcChan) :
    peerOf (Function.update chans chan new) = Function.update (peerOf chans) chan
      (new.bind IpcChan.peer) := by
  funext other
  by_cases same : other = chan
  · subst same
    simp [peerOf]
  · simp [peerOf, same]

theorem nodeOf_update (new : Option IpcChan) :
    nodeOf (Function.update chans chan new) = Function.update (nodeOf chans) chan
      (new.bind IpcChan.node) := by
  funext other
  by_cases same : other = chan
  · subst same
    simp [nodeOf]
  · simp [nodeOf, same]

theorem peerOf_update_same (found : chans chan = some value) (samePeer : new.peer = value.peer) :
    peerOf (Function.update chans chan (some new)) = peerOf chans := by
  rw [peerOf_update, bind_some, samePeer, ← peerOf_eq found, update_eq_self]

end Projections

def Reason (chans : Chans) (chan : ChanId) (value : IpcChan) : ChanRef → Prop
  | .handle => value.handle ≠ none
  | .node => value.node ≠ none
  | .peer owner => peerOf chans owner = some chan
  | .tmp => False

/-- What a state says about a channel alone.  `held` says that the running call has
a reference, and may be about to change the state. -/
def IpcChan.Ok (value : IpcChan) (held : Prop) : Prop :=
  (∀ mq, value.msgQueue = some mq → mq.Partitioned ∧ mq.numItems ≤ ipcChanMaxBufs) ∧
    match value.state with
    | .invalid => held ∧ value.peer = none ∧ value.node = none ∧ value.path = none
    | .waitingForPort =>
      value.server = false ∧ value.peer = none ∧
        ((value.node = some .waiting ∧ value.path ≠ none ∧ value.msgQueue = none) ∨
          (value.node = none ∧ value.path = none ∧ held))
    | .accepting =>
      value.server = true ∧ value.peer ≠ none ∧ value.path = none ∧ value.msgQueue ≠ none ∧
        ((∃ port, value.node = some (.pending port)) ∨ (value.node = none ∧ held))
    | .connecting =>
      value.server = false ∧ value.peer ≠ none ∧ value.path = none ∧ value.msgQueue ≠ none ∧
        value.node = none
    | .connected =>
      value.peer ≠ none ∧ value.path = none ∧ value.msgQueue ≠ none ∧ value.node = none
    | .disconnecting =>
      value.node ≠ some .waiting ∧ (value.path ≠ none ↔ value.msgQueue = none) ∧
        (value.path ≠ none → value.peer = none ∧ value.node = none)

/-- What a channel that points to another one says about that one. -/
def Linked (chan : ChanId) (value peer : IpcChan) : Prop :=
  peer.server = !value.server ∧
    ((value.state = .disconnecting ∧ peer.state = .disconnecting) ∨
      (peer.peer = some chan ∧
        ((value.state = .connected ∧ peer.state = .connected) ∨
          (value.state = .connecting ∧ peer.state = .accepting) ∨
          (value.state = .accepting ∧ peer.state = .connecting))))

structure ChanInv (chans : Chans) (lists : ListHead → List ChanId) (next : ChanId)
    (extra : Finset (ChanId × ChanRef)) : Prop where
  paired : Paired (peerOf chans)
  homed : Homed lists (nodeOf chans)
  refs : ∀ chan value, chans chan = some value →
    ∀ ref, ref ∈ value.refs ↔ Reason chans chan value ref ∨ (chan, ref) ∈ extra
  kept : ∀ chan value, chans chan = some value → value.refs ≠ ∅
  extraAlive : ∀ chan ref, (chan, ref) ∈ extra → chans chan ≠ none
  peerAlive : ∀ chan peer, peerOf chans chan = some peer → chans peer ≠ none
  linked : ∀ chan peer value peerValue, chans chan = some value → chans peer = some peerValue →
    value.peer = some peer → Linked chan value peerValue
  ok : ∀ chan value, chans chan = some value → value.Ok ((chan, .tmp) ∈ extra)
  fresh : ∀ chan, next ≤ chan → chans chan = none

/-- Nobody points to the channel, and it points to nobody. -/
def Alone (chans : Chans) (chan : ChanId) : Prop :=
  peerOf chans chan = none ∧ ∀ other, peerOf chans other ≠ some chan

namespace ChanInv

variable {chans : Chans} {lists lists' : ListHead → List ChanId} {next : ChanId}
  {extra extra' : Finset (ChanId × ChanRef)} {chan peer : ChanId}
  {value peerValue new newPeer : IpcChan}

section

variable (inv : ChanInv chans lists next extra)

include inv

theorem linked_of_peerOf (pointer : peerOf chans chan = some peer) :
    ∃ value peerValue, chans chan = some value ∧ chans peer = some peerValue ∧
    value.peer = some peer ∧
      Linked chan value peerValue := by
  obtain ⟨value, found, points⟩ := bind_eq_some_iff.mp pointer
  obtain ⟨peerValue, peerFound⟩ := ne_none_iff_exists'.mp (inv.peerAlive chan peer pointer)
  exact ⟨value, peerValue, found, peerFound, points,
    inv.linked chan peer value peerValue found peerFound points⟩

theorem exists_peer {peer : ChanId} (found : chans chan = some value)
    (pointer : value.peer = some peer) :
    ∃ peerValue, chans peer = some peerValue :=
  ne_none_iff_exists'.mp (inv.peerAlive chan peer (by rw [peerOf_eq found, pointer]))

theorem alone (found : chans chan = some value)
    (state : value.state = .invalid ∨ value.state = .waitingForPort) : Alone chans chan := by
  constructor
  · rw [peerOf_eq found]
    have ok := (inv.ok chan value found).2
    rcases state with state | state <;> rw [state] at ok
    · exact ok.2.1
    · exact ok.2.1
  · intro other pointer
    obtain ⟨otherValue, chanValue, _, chanFound, _, _, states⟩ := inv.linked_of_peerOf pointer
    rw [found] at chanFound
    cases chanFound
    rcases state with state | state <;> rw [state] at states <;> simp at states

theorem change {chans' : Chans} (changed : Finset ChanId)
    (frame : ∀ other, other ∉ changed → chans' other = chans other)
    (extraFrame : ∀ other, other ∉ changed → ∀ ref, (other, ref) ∈ extra' ↔ (other, ref) ∈ extra)
    (pointers : ∀ owner ∈ changed, ∀ other, other ∉ changed →
      (peerOf chans' owner = some other ↔ peerOf chans owner = some other))
    (paired : Paired (peerOf chans')) (homed : Homed lists' (nodeOf chans'))
    (refs : ∀ chan ∈ changed, ∀ value, chans' chan = some value →
      ∀ ref, ref ∈ value.refs ↔ Reason chans' chan value ref ∨ (chan, ref) ∈ extra')
    (kept : ∀ chan ∈ changed, ∀ value, chans' chan = some value → value.refs ≠ ∅)
    (extraAlive : ∀ chan ∈ changed, ∀ ref, (chan, ref) ∈ extra' → chans' chan ≠ none)
    (peerAlive : ∀ owner, ∀ chan ∈ changed, peerOf chans' owner = some chan → chans' chan ≠ none)
    (linked : ∀ chan peer value peerValue, chans' chan = some value → chans' peer = some peerValue →
      value.peer = some peer → chan ∈ changed ∨ peer ∈ changed → Linked chan value peerValue)
    (ok : ∀ chan ∈ changed, ∀ value, chans' chan = some value → value.Ok ((chan, .tmp) ∈ extra'))
    {next' : ChanId} (later : next ≤ next')
    (fresh : ∀ chan ∈ changed, next' ≤ chan → chans' chan = none) :
    ChanInv chans' lists' next' extra' := by
  have samePeer : ∀ other, other ∉ changed → peerOf chans' other = peerOf chans other := by
    intro other outside
    simp only [peerOf, frame other outside]
  have outer : ∀ owner other, other ∉ changed →
      (peerOf chans' owner = some other ↔ peerOf chans owner = some other) := by
    intro owner other outside
    by_cases inside : owner ∈ changed
    · exact pointers owner inside other outside
    · rw [samePeer owner inside]
  refine ⟨paired, homed, ?_, ?_, ?_, ?_, ?_, ?_, ?_⟩
  · intro chan value found ref
    by_cases inside : chan ∈ changed
    · exact refs chan inside value found ref
    rw [frame chan inside] at found
    rw [inv.refs chan value found ref, extraFrame chan inside ref]
    cases ref with
    | peer owner => simp only [Reason, outer owner chan inside]
    | _ => rfl
  · intro chan value found
    by_cases inside : chan ∈ changed
    · exact kept chan inside value found
    · rw [frame chan inside] at found
      exact inv.kept chan value found
  · intro chan ref mem
    by_cases inside : chan ∈ changed
    · exact extraAlive chan inside ref mem
    · rw [frame chan inside]
      exact inv.extraAlive chan ref ((extraFrame chan inside ref).mp mem)
  · intro owner chan pointer
    by_cases inside : chan ∈ changed
    · exact peerAlive owner chan inside pointer
    · rw [frame chan inside]
      exact inv.peerAlive owner chan ((outer owner chan inside).mp pointer)
  · intro chan peer value peerValue found peerFound points
    by_cases inside : chan ∈ changed ∨ peer ∈ changed
    · exact linked chan peer value peerValue found peerFound points inside
    · rw [not_or] at inside
      rw [frame chan inside.1] at found
      rw [frame peer inside.2] at peerFound
      exact inv.linked chan peer value peerValue found peerFound points
  · intro chan value found
    by_cases inside : chan ∈ changed
    · exact ok chan inside value found
    · rw [frame chan inside] at found
      rw [extraFrame chan inside]
      exact inv.ok chan value found
  · intro chan above
    by_cases inside : chan ∈ changed
    · exact fresh chan inside above
    · rw [frame chan inside]
      exact inv.fresh chan (le_trans later above)

theorem lt_next (found : chans chan = some value) : chan < next := by
  by_contra above
  rw [inv.fresh chan (Nat.le_of_not_lt above)] at found
  cases found

theorem update (found : chans chan = some value) (samePeer : new.peer = value.peer)
    (sameServer : new.server = value.server)
    (sameState : new.state = value.state ∨ Alone chans chan)
    (homed : Homed lists' (Function.update (nodeOf chans) chan new.node))
    (extraFrame : ∀ other, other ≠ chan → ∀ ref, (other, ref) ∈ extra' ↔ (other, ref) ∈ extra)
    (refs : ∀ ref, ref ∈ new.refs ↔ Reason chans chan new ref ∨ (chan, ref) ∈ extra')
    (kept : new.refs ≠ ∅) (ok : new.Ok ((chan, .tmp) ∈ extra')) :
    ChanInv (Function.update chans chan (some new)) lists' next extra' := by
  have peers : peerOf (Function.update chans chan (some new)) = peerOf chans :=
    peerOf_update_same found samePeer
  have alone_linked : ∀ owner other, peerOf chans owner = some other → owner = chan ∨ other = chan →
      new.state = value.state := by
    intro owner other pointer involved
    rcases sameState with same | alone
    · exact same
    · rcases involved with rfl | rfl
      · rw [alone.1] at pointer
        cases pointer
      · exact (alone.2 owner pointer).elim
  apply inv.change {chan}
  case frame => exact fun other outside => update_of_ne (by simpa using outside) _ _
  case extraFrame => exact fun other outside => extraFrame other (by simpa using outside)
  case pointers => simp [peers]
  case paired => rw [peers]; exact inv.paired
  case homed => rw [nodeOf_update]; exact homed
  case refs =>
    intro other inside changed changedFound ref
    rw [Finset.mem_singleton] at inside
    subst inside
    rw [update_self] at changedFound
    cases changedFound
    rw [refs ref]
    cases ref <;> simp only [Reason, peers]
  case kept => simpa using kept
  case extraAlive => simp
  case peerAlive => simp
  case linked =>
    intro owner other ownerValue otherValue ownerFound otherFound points inside
    have pointer : peerOf chans owner = some other := by
      rw [← peers, peerOf_eq ownerFound, points]
    have state := alone_linked owner other pointer (by simpa using inside)
    obtain ⟨oldOwner, oldOther, oldFound, oldOtherFound, _, old⟩ := inv.linked_of_peerOf pointer
    have same : ∀ id before after, chans id = some before →
        Function.update chans chan (some new) id = some after →
        after.state = before.state ∧ after.server = before.server ∧ after.peer = before.peer := by
      intro id before after beforeFound afterFound
      by_cases isChan : id = chan
      · subst isChan
        rw [update_self] at afterFound
        cases afterFound
        rw [found] at beforeFound
        cases beforeFound
        exact ⟨state, sameServer, samePeer⟩
      · rw [update_of_ne isChan, beforeFound] at afterFound
        cases afterFound
        exact ⟨rfl, rfl, rfl⟩
    obtain ⟨ownerState, ownerServer, _⟩ := same owner _ _ oldFound ownerFound
    obtain ⟨otherState, otherServer, otherPeer⟩ := same other _ _ oldOtherFound otherFound
    unfold Linked at old ⊢
    rw [ownerState, ownerServer, otherState, otherServer, otherPeer]
    exact old
  case ok => simpa using ok
  case later => exact le_rfl
  case fresh =>
    intro other inside above
    rw [Finset.mem_singleton] at inside
    subst inside
    exact absurd (inv.lt_next found) (Nat.not_lt.mpr above)

theorem free (found : chans chan = some value) (noPeer : value.peer = none)
    (noNode : value.node = none) {ref : ChanRef} (last : value.refs.erase ref = ∅)
    (dropped : ¬Reason chans chan value ref) :
    ChanInv (Function.update chans chan none) lists next (extra.erase (chan, ref)) := by
  have only : ∀ other, other ∈ value.refs → other = ref := by
    intro other mem
    by_contra ne
    have rest := Finset.mem_erase.mpr ⟨ne, mem⟩
    rw [last] at rest
    exact Finset.notMem_empty other rest
  have noPointer : ∀ owner, peerOf chans owner ≠ some chan := by
    intro owner pointer
    have mem := (inv.refs chan value found (.peer owner)).mpr (.inl pointer)
    apply dropped
    rw [← only _ mem]
    exact pointer
  have peers : peerOf (Function.update chans chan none) = peerOf chans := by
    rw [peerOf_update, bind_none, ← noPeer, ← peerOf_eq found, update_eq_self]
  have nodes : nodeOf (Function.update chans chan none) = nodeOf chans := by
    rw [nodeOf_update, bind_none, ← noNode, ← nodeOf_eq found, update_eq_self]
  apply inv.change {chan}
  case frame => exact fun other outside => update_of_ne (by simpa using outside) _ _
  case extraFrame =>
    intro other outside otherRef
    rw [Finset.mem_singleton] at outside
    simp [outside]
  case pointers => simp [peers]
  case paired => rw [peers]; exact inv.paired
  case homed => rw [nodes]; exact inv.homed
  case refs => simp
  case kept => simp
  case extraAlive =>
    intro other inside otherRef mem
    rw [Finset.mem_singleton] at inside
    subst inside
    obtain ⟨ne, mem⟩ := Finset.mem_erase.mp mem
    have same := only otherRef ((inv.refs other value found otherRef).mpr (.inr mem))
    rw [same] at ne
    exact (ne rfl).elim
  case peerAlive =>
    intro owner other inside pointer
    rw [Finset.mem_singleton] at inside
    rw [peers, inside] at pointer
    exact (noPointer owner pointer).elim
  case linked =>
    intro owner other ownerValue otherValue ownerFound otherFound points inside
    have pointer := peerOf_eq ownerFound
    rw [points, peers] at pointer
    rcases inside with inside | inside <;> rw [Finset.mem_singleton] at inside <;> subst inside
    · rw [update_self] at ownerFound
      cases ownerFound
    · exact (noPointer owner pointer).elim
  case ok => simp
  case later => exact le_rfl
  case fresh => simp

theorem add (refs : new.refs = {.tmp}) (noHandle : new.handle = none) (noPeer : new.peer = none)
    (noNode : new.node = none) (ok : new.Ok True) :
    ChanInv (Function.update chans next (some new)) lists (next + 1)
    (insert (next, .tmp) extra) := by
  have missing : chans next = none := inv.fresh next le_rfl
  have noPointer : ∀ owner, peerOf chans owner ≠ some next := by
    intro owner pointer
    exact inv.peerAlive owner next pointer missing
  have noExtra : ∀ ref, (next, ref) ∉ extra := fun ref mem => inv.extraAlive next ref mem missing
  have peers : peerOf (Function.update chans next (some new)) = peerOf chans := by
    have before : peerOf chans next = none := by simp [peerOf, missing]
    rw [peerOf_update, bind_some, noPeer, ← before, update_eq_self]
  have nodes : nodeOf (Function.update chans next (some new)) = nodeOf chans := by
    have before : nodeOf chans next = none := by simp [nodeOf, missing]
    rw [nodeOf_update, bind_some, noNode, ← before, update_eq_self]
  apply inv.change {next}
  case frame => exact fun other outside => update_of_ne (by simpa using outside) _ _
  case extraFrame =>
    intro other outside otherRef
    rw [Finset.mem_singleton] at outside
    simp [outside]
  case pointers => simp [peers]
  case paired => rw [peers]; exact inv.paired
  case homed => rw [nodes]; exact inv.homed
  case refs =>
    intro other inside value found ref
    rw [Finset.mem_singleton] at inside
    subst inside
    rw [update_self] at found
    cases found
    rw [refs, Finset.mem_singleton, Finset.mem_insert]
    cases ref <;> simp [Reason, noHandle, noNode, peers, noPointer, noExtra]
  case kept => simp [refs]
  case extraAlive => simp
  case peerAlive => simp
  case linked =>
    intro owner other ownerValue otherValue ownerFound otherFound points inside
    have pointer := peerOf_eq ownerFound
    rw [points, peers] at pointer
    rcases inside with inside | inside <;> rw [Finset.mem_singleton] at inside <;> subst inside
    · simp [peerOf, missing] at pointer
    · exact (noPointer owner pointer).elim
  case ok => simpa using ok
  case later => exact Nat.le_succ next
  case fresh => simp

theorem update_pair (found : chans chan = some value) (peerFound : chans peer = some peerValue)
    (ne : chan ≠ peer) (closed : ∀ other, other ≠ chan → other ≠ peer →
      peerOf chans other ≠ some chan ∧ peerOf chans other ≠ some peer)
    (oldPeer : value.peer = none ∨ value.peer = some peer)
    (oldBack : peerValue.peer = none ∨ peerValue.peer = some chan)
    (newPointer : new.peer = none ∨ new.peer = some peer)
    (newBack : newPeer.peer = none ∨ newPeer.peer = some chan)
    (paired : Paired (Function.update (Function.update (peerOf chans) chan new.peer)
      peer newPeer.peer))
    (homed : Homed lists' (Function.update (Function.update (nodeOf chans) chan new.node)
      peer newPeer.node))
    (extraFrame : ∀ other, other ≠ chan → other ≠ peer →
      ∀ ref, (other, ref) ∈ extra' ↔ (other, ref) ∈ extra) (refs : ∀ ref, ref ∈ new.refs ↔
      (match ref with
        | .handle => new.handle ≠ none
        | .node => new.node ≠ none
        | .peer owner => owner = peer ∧ newPeer.peer = some chan
        | .tmp => False) ∨ (chan, ref) ∈ extra') (peerRefs : ∀ ref, ref ∈ newPeer.refs ↔
      (match ref with
        | .handle => newPeer.handle ≠ none
        | .node => newPeer.node ≠ none
        | .peer owner => owner = chan ∧ new.peer = some peer
        | .tmp => False) ∨ (peer, ref) ∈ extra') (kept : new.refs ≠ ∅) (peerKept : newPeer.refs ≠ ∅)
    (linked : new.peer = some peer → Linked chan new newPeer)
    (peerLinked : newPeer.peer = some chan → Linked peer newPeer new)
    (ok : new.Ok ((chan, .tmp) ∈ extra'))
    (peerOk : newPeer.Ok ((peer, .tmp) ∈ extra')) :
    ChanInv (Function.update (Function.update chans chan (some new)) peer (some newPeer)) lists'
      next extra' := by
  have peers : peerOf (Function.update (Function.update chans chan (some new))
    peer (some newPeer)) =
      Function.update (Function.update (peerOf chans) chan new.peer) peer newPeer.peer := by
    rw [peerOf_update, peerOf_update, bind_some, bind_some]
  have nodes : nodeOf (Function.update (Function.update chans chan (some new))
    peer (some newPeer)) =
      Function.update (Function.update (nodeOf chans) chan new.node) peer newPeer.node := by
    rw [nodeOf_update, nodeOf_update, bind_some, bind_some]
  have outside_pair : ∀ other, other ∉ ({chan, peer} : Finset ChanId) →
      other ≠ chan ∧ other ≠ peer := by
    intro other outside
    simpa using outside
  have toChan : ∀ owner,
      Function.update (Function.update (peerOf chans) chan new.peer) peer newPeer.peer owner =
      some chan ↔ owner = peer ∧ newPeer.peer = some chan := by
    intro owner
    by_cases isPeer : owner = peer
    · subst isPeer
      simp
    by_cases isChan : owner = chan
    · subst isChan
      rcases newPointer with none_ | some_
      · simp [ne, none_]
      · simp [ne, some_, Ne.symm ne]
    · simp [isPeer, isChan, (closed owner isChan isPeer).1]
  have toPeer : ∀ owner,
      Function.update (Function.update (peerOf chans) chan new.peer) peer newPeer.peer owner =
      some peer ↔ owner = chan ∧ new.peer = some peer := by
    intro owner
    by_cases isPeer : owner = peer
    · subst isPeer
      rcases newBack with none_ | some_
      · simp [Ne.symm ne, none_]
      · simp [Ne.symm ne, some_, ne]
    · by_cases isChan : owner = chan
      · subst isChan
        simp [ne]
      · simp [isPeer, isChan, (closed owner isChan isPeer).2]
  apply inv.change {chan, peer}
  case frame =>
    intro other outside
    obtain ⟨notChan, notPeer⟩ := outside_pair other outside
    rw [update_of_ne notPeer, update_of_ne notChan]
  case extraFrame =>
    exact fun other outside =>
      extraFrame other (outside_pair other outside).1 (outside_pair other outside).2
  case pointers =>
    intro owner inside other outside
    obtain ⟨notChan, notPeer⟩ := outside_pair other outside
    rw [peers]
    rw [Finset.mem_insert, Finset.mem_singleton] at inside
    rcases inside with rfl | rfl
    · rw [update_of_ne ne, update_self, peerOf_eq found]
      rcases oldPeer with old | old <;> rcases newPointer with now | now <;>
        simp [old, now, Ne.symm notPeer]
    · rw [update_self, peerOf_eq peerFound]
      rcases oldBack with old | old <;> rcases newBack with now | now <;>
        simp [old, now, Ne.symm notChan]
  case paired => rw [peers]; exact paired
  case homed => rw [nodes]; exact homed
  case refs =>
    intro other inside changed changedFound ref
    rw [Finset.mem_insert, Finset.mem_singleton] at inside
    rcases inside with rfl | rfl
    · rw [update_of_ne ne, update_self] at changedFound
      cases changedFound
      rw [refs ref]
      cases ref <;> simp only [Reason, peers, toChan]
    · rw [update_self] at changedFound
      cases changedFound
      rw [peerRefs ref]
      cases ref <;> simp only [Reason, peers, toPeer]
  case kept => simp [ne, kept, peerKept]
  case extraAlive => simp [ne]
  case peerAlive => simp [ne]
  case linked =>
    intro owner other ownerValue otherValue ownerFound otherFound points inside
    have pointer := peerOf_eq ownerFound
    rw [points, peers] at pointer
    have both : owner = chan ∧ other = peer ∧ new.peer = some peer ∨
        owner = peer ∧ other = chan ∧ newPeer.peer = some chan := by
      rw [Finset.mem_insert, Finset.mem_singleton, Finset.mem_insert,
        Finset.mem_singleton] at inside
      rcases inside with (rfl | rfl) | rfl | rfl
      · rw [update_of_ne ne, update_self] at pointer
        rcases newPointer with none_ | some_
        · rw [none_] at pointer
          cases pointer
        · rw [some_] at pointer
          cases pointer
          exact .inl ⟨rfl, rfl, some_⟩
      · rw [update_self] at pointer
        rcases newBack with none_ | some_
        · rw [none_] at pointer
          cases pointer
        · rw [some_] at pointer
          cases pointer
          exact .inr ⟨rfl, rfl, some_⟩
      · obtain ⟨same, back⟩ := (toChan owner).mp pointer
        exact .inr ⟨same, rfl, back⟩
      · obtain ⟨same, forth⟩ := (toPeer owner).mp pointer
        exact .inl ⟨same, rfl, forth⟩
    rcases both with ⟨rfl, rfl, forth⟩ | ⟨rfl, rfl, back⟩
    · rw [update_of_ne ne, update_self] at ownerFound
      rw [update_self] at otherFound
      cases ownerFound
      cases otherFound
      exact linked forth
    · rw [update_self] at ownerFound
      rw [update_of_ne ne, update_self] at otherFound
      cases ownerFound
      cases otherFound
      exact peerLinked back
  case ok => simpa [ne] using ⟨ok, peerOk⟩
  case later => exact le_rfl
  case fresh =>
    intro other inside above
    rw [Finset.mem_insert, Finset.mem_singleton] at inside
    rcases inside with rfl | rfl
    · exact absurd (inv.lt_next found) (Nat.not_lt.mpr above)
    · exact absurd (inv.lt_next peerFound) (Nat.not_lt.mpr above)

end

end ChanInv

abbrev Ports := PortId → Option IpcPort

/-- The references to the handle of a port that its own state accounts for. -/
def IpcPort.accounted (value : IpcPort) : Nat :=
  value.held + (if value.listed then 1 else 0) + value.pendingList.length

structure PortInv (ports : Ports) (portList : List PortId) (next : PortId) (owed : Option PortId) :
    Prop where
  counted : ∀ port value, ports port = some value →
    value.refcnt = value.accounted + if owed = some port then 1 else 0
  sized : ∀ port value, ports port = some value → value.numRecvBufs ≤ ipcChanMaxBufs
  mem_iff : ∀ port, port ∈ portList ↔ ∃ value, ports port = some value ∧ value.listed = true
  nodup : portList.Nodup
  unique : ∀ port other value otherValue, ports port = some value → ports other = some otherValue →
    value.listed = true → otherValue.listed = true → value.path = otherValue.path → port = other
  fresh : ∀ port, next ≤ port → ports port = none

namespace PortInv

variable {ports : Ports} {portList portList' : List PortId} {next : PortId}
  {owed owed' : Option PortId} {port : PortId} {value new : IpcPort}

section

variable (inv : PortInv ports portList next owed)

include inv

theorem lt_next (found : ports port = some value) : port < next := by
  by_contra above
  rw [inv.fresh port (Nat.le_of_not_lt above)] at found
  cases found

theorem update {new : Option IpcPort} {next' : PortId} (later : next ≤ next') (below : port < next')
    (counted : ∀ value ∈ new, value.refcnt = value.accounted + if owed' = some port then 1 else 0)
    (sized : ∀ value ∈ new, value.numRecvBufs ≤ ipcChanMaxBufs)
    (others : ∀ other, other ≠ port → (owed' = some other ↔ owed = some other) ∧
      (other ∈ portList' ↔ other ∈ portList))
    (mem_iff : port ∈ portList' ↔ ∃ value ∈ new, value.listed = true) (nodup : portList'.Nodup)
    (unique : ∀ value ∈ new, value.listed = true → ∀ other otherValue, other ≠ port →
      ports other = some otherValue → otherValue.listed = true → otherValue.path ≠ value.path) :
    PortInv (Function.update ports port new) portList' next' owed' := by
  have cases : ∀ other otherValue, Function.update ports port new other = some otherValue →
      (other = port ∧ new = some otherValue) ∨ (other ≠ port ∧ ports other = some otherValue) := by
    intro other otherValue found
    by_cases same : other = port
    · subst same
      rw [update_self] at found
      exact .inl ⟨rfl, found⟩
    · rw [update_of_ne same] at found
      exact .inr ⟨same, found⟩
  refine ⟨?_, ?_, ?_, nodup, ?_, ?_⟩
  · intro other otherValue found
    rcases cases other otherValue found with ⟨rfl, isNew⟩ | ⟨ne, found⟩
    · exact counted otherValue isNew
    · rw [inv.counted other otherValue found]
      simp only [(others other ne).1]
  · intro other otherValue found
    rcases cases other otherValue found with ⟨rfl, isNew⟩ | ⟨_, found⟩
    · exact sized otherValue isNew
    · exact inv.sized other otherValue found
  · intro other
    by_cases same : other = port
    · subst same
      simp [mem_iff]
    · rw [(others other same).2, inv.mem_iff, update_of_ne same]
  · intro first second firstValue secondValue firstFound secondFound firstListed secondListed paths
    rcases cases first firstValue firstFound with ⟨rfl, isFirst⟩ | ⟨firstDifferent, firstOld⟩ <;>
      rcases cases second secondValue secondFound with
      ⟨rfl, isSecond⟩ | ⟨secondDifferent, secondOld⟩
    · rfl
    · exact (unique _ isFirst firstListed second secondValue secondDifferent secondOld secondListed
        paths.symm).elim
    · exact (unique _ isSecond secondListed first firstValue firstDifferent firstOld
        firstListed paths).elim
    · exact inv.unique first second firstValue secondValue firstOld secondOld firstListed
        secondListed paths
  · intro other above
    have ne : other ≠ port := by
      rintro rfl
      exact absurd below (Nat.not_lt.mpr above)
    rw [update_of_ne ne]
    exact inv.fresh other (le_trans later above)

theorem update_same (found : ports port = some value) (sameListed : new.listed = value.listed)
    (samePath : new.path = value.path) (sameSize : new.numRecvBufs = value.numRecvBufs)
    (counted : new.refcnt = new.accounted + if owed' = some port then 1 else 0)
    (others : ∀ other, other ≠ port → (owed' = some other ↔ owed = some other)) :
    PortInv (Function.update ports port (some new)) portList next owed' := by
  apply inv.update le_rfl (inv.lt_next found)
  · rintro _ ⟨⟩
    exact counted
  · rintro _ ⟨⟩
    rw [sameSize]
    exact inv.sized port value found
  · exact fun other ne => ⟨others other ne, Iff.rfl⟩
  · simp [inv.mem_iff, found, sameListed]
  · exact inv.nodup
  · rintro _ ⟨⟩ listed other otherValue ne otherFound otherListed paths
    rw [sameListed] at listed
    rw [samePath] at paths
    exact ne (inv.unique other port otherValue value otherFound found otherListed listed paths)

end

end PortInv

def listsOf (waiting : List ChanId) (ports : Ports) : ListHead → List ChanId
  | .waiting => waiting
  | .pending port => (ports port).elim [] IpcPort.pendingList

variable {ports : Ports} {port : PortId} {value : IpcPort}

theorem listsOf_pending (waiting : List ChanId) (found : ports port = some value) :
    listsOf waiting ports (.pending port) = value.pendingList := by
  simp [listsOf, found]

theorem listsOf_update (waiting : List ChanId) (ports : Ports) (port : PortId)
    (new : Option IpcPort) :
    listsOf waiting (Function.update ports port new) =
      Function.update (listsOf waiting ports) (.pending port)
      (new.elim [] IpcPort.pendingList) := by
  funext head
  cases head with
  | waiting => simp [listsOf]
  | pending other =>
    by_cases same : other = port
    · subst same
      simp [listsOf]
    · simp [listsOf, same]

theorem listsOf_update_same (waiting : List ChanId) (found : ports port = some value)
    (new : Option IpcPort) (sameList : new.elim [] IpcPort.pendingList = value.pendingList) :
    listsOf waiting (Function.update ports port new) = listsOf waiting ports := by
  rw [listsOf_update, sameList, ← listsOf_pending waiting found, update_eq_self]

theorem listsOf_waiting (waiting new : List ChanId) (ports : Ports) :
    listsOf new ports = Function.update (listsOf waiting ports) .waiting new := by
  funext head
  cases head <;> simp [listsOf]

structure IpcInv (extra : Finset (ChanId × ChanRef)) (owed : Option PortId) (state : IpcState) :
    Prop where
  chan : ChanInv state.chans (listsOf state.waiting state.ports) state.nextChan extra
  port : PortInv state.ports state.portList state.nextPort owed

/-- The channel has no queue, or a new one. -/
def IpcChan.NewQueue (value : IpcChan) : Prop :=
  value.msgQueue = none ∨
    ∃ numItems itemSz, value.msgQueue = some (ipcMsgQueueCreate numItems itemSz)

/-- How a channel can change in a call that is not about messages: no transition
leaves `DISCONNECTING`, the queue stays, a connection stays or is shut down, and a
blocked sender stays blocked, or is told if its events are not `cleared`. -/
structure IpcChan.Onward (cleared : Prop) (value final : IpcChan) : Prop where
  shut : value.state = .disconnecting → final.state = .disconnecting
  queue : final.msgQueue = value.msgQueue ∨ (value.msgQueue = none ∧ final.NewQueue)
  linked : value.state = .connected → final.state = .connected ∧ final.peer = value.peer ∨
    final.state = .disconnecting
  blocked : final.sendBlocked = value.sendBlocked
  unblocked : value.sendUnblocked = true → final.sendUnblocked = true ∨ cleared

structure IpcState.LaterBut (cleared : ChanId → Prop) (before after : IpcState) : Prop where
  next : before.nextChan ≤ after.nextChan
  gone : ∀ chan, chan < before.nextChan → before.chans chan = none → after.chans chan = none
  onward : ∀ chan value final, before.chans chan = some value → after.chans chan = some final →
    value.Onward (cleared chan) final
  born : ∀ chan final, before.chans chan = none → after.chans chan = some final →
    final.NewQueue ∧ final.sendBlocked = false

abbrev IpcState.Later (before after : IpcState) : Prop := before.LaterBut (fun _ => False) after

end Trusty.Ipc
