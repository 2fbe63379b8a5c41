import Trusty.Ipc.MsgQueue

/-!
What a message queue is for.

Messages wait in the order they were sent, are got from the front, can be read
while they are held, and are given back in any order.  Every call on a queue is a
step of this, and a call that fails changes nothing.
-/

namespace Trusty.Ipc

open Lib Function List

/-- The messages that wait, those that are held, and the number of free items. -/
structure AbstractQueue where
  filled : List (Nat × List UInt8)
  reading : Nat → Option (List UInt8)
  free : Nat

/-- The calls on a queue.  `fault` says that the place for the message info cannot
be written. -/
inductive QueueCall where
  | send (msg : SendMsg)
  | get (fault : Bool)
  | read (id offset : Nat) (msg : ReadMsg)
  | put (id : Nat)

structure QueueReply where
  ret : Int
  info : Option (Nat × Nat)
  stored : List (List UInt8)

/-- The reasons for which a call may fail, when messages wait, others are held,
and some items are free. -/
def QueueCall.MayFail (itemSz free : Nat) (waiting : List (List UInt8))
    (held : Nat → Option (List UInt8)) :
    QueueCall → Prop
  | send msg => free = 0 ∨ msg.numHandles ≠ 0 ∨ msg.Unreadable itemSz
  | get fault => waiting = [] ∨ fault = true
  | read id offset msg => ∀ message, held id = some message →
      message.length < offset ∨ msg.numHandles ≠ 0 ∨ msg.Unwritable (message.drop offset).length
  | put id => held id = none

/-- The steps of a queue whose items have the given size. -/
inductive AbstractQueue.Step (itemSz : Nat) :
    AbstractQueue → QueueCall → QueueReply → AbstractQueue → Prop
  | send {queue : AbstractQueue} {msg : SendMsg} {id : Nat} : 0 < queue.free →
      (∀ message, (id, message) ∉ queue.filled) → queue.reading id = none →
      Step itemSz queue (.send msg) ⟨(msg.contents.take itemSz).length, none, []⟩
        { queue with
          filled := queue.filled ++ [(id, msg.contents.take itemSz)], free := queue.free - 1 }
  | get {queue : AbstractQueue} {id : Nat} {message : List UInt8} {rest : List (Nat × List UInt8)} :
      queue.filled = (id, message) :: rest →
      Step itemSz queue (.get false) ⟨0, some (message.length, id), []⟩
        { queue with filled := rest, reading := update queue.reading id (some message) }
  | read {queue : AbstractQueue} {id offset : Nat} {message : List UInt8} {msg : ReadMsg} :
      queue.reading id = some message → offset ≤ message.length →
      Step itemSz queue (.read id offset msg)
        ⟨((message.drop offset).take msg.rooms.sum).length, none,
          spread msg.rooms (message.drop offset)⟩ queue
  | put {queue : AbstractQueue} {id : Nat} {message : List UInt8} :
      queue.reading id = some message → Step itemSz queue (.put id) ⟨0, none, []⟩
        { queue with reading := update queue.reading id none, free := queue.free + 1 }
  | failed {queue : AbstractQueue} {call : QueueCall} {reply : QueueReply} :
      call.MayFail itemSz queue.free (queue.filled.map Prod.snd) queue.reading → reply.ret < 0 →
      Step itemSz queue call reply queue

namespace MsgQueue

/-- A call on a queue.  No result means that an assertion failed. -/
def call (mq : MsgQueue) : QueueCall → Option (QueueReply × MsgQueue)
  | .send msg =>
    match mq.freeList.head? with
    | none => some (⟨errNotEnoughBuffer, none, []⟩, mq)
    | some index =>
      if (mq.items index).state = .free then
        let (ret, mq) := mq.writeItem index msg
        some (⟨ret, none, []⟩, mq)
      else none
  | .get fault =>
    match mq.peekNextFilled with
    | none => some (⟨errNoMsg, none, []⟩, mq)
    | some info =>
      if fault then some (⟨errFault, none, []⟩, mq)
      else mq.getFilled.map fun mq => (⟨0, some info, []⟩, mq)
  | .read id offset msg =>
    let (ret, stored) := mq.readItem id offset msg
    some (⟨ret, none, stored⟩, mq)
  | .put id =>
    match mq.putRead id with
    | none => some (⟨errInvalidArgs, none, []⟩, mq)
    | some mq => some (⟨0, none, []⟩, mq)

def abstract (mq : MsgQueue) : AbstractQueue where
  filled := mq.filledList.map fun index => (index, mq.contents index)
  reading id := if id ∈ mq.readList then some (mq.contents id) else none
  free := mq.freeList.length

variable {mq : MsgQueue} {index : Nat}

def moved (mq : MsgQueue) (index : Nat) (item : MsgItem) (buf : List UInt8)
    (freeList filledList readList : List Nat) :
    MsgQueue :=
  { mq with
    freeList := freeList
    filledList := filledList
    readList := readList
    buf := buf
    items := update mq.items index item }

/-- A list of items after one item has been moved: the others are as before, and
the item is in it if it has the state of the list. -/
structure ListMoved (before after : List Nat) (index : Nat) (here : Prop) : Prop where
  mem_iff : ∀ other, other ∈ after ↔ (other ≠ index ∧ other ∈ before) ∨ (other = index ∧ here)
  nodup : after.Nodup

variable {buf data : List UInt8} {freeList filledList readList list rest : List Nat} {here : Prop}
  {item : MsgItem} {reply : QueueReply} {after : MsgQueue}

theorem Partitioned.moved (partitioned : mq.Partitioned) (bound : index < mq.numItems)
    (item : MsgItem) (idEq : item.id.toNat = index) (handlesEq : item.numHandles = 0)
    (lenLe : item.len ≤ mq.itemSz) (bufLength : buf.length = mq.buf.length)
    (free : ListMoved mq.freeList freeList index (item.state = .free))
    (filled : ListMoved mq.filledList filledList index (item.state = .filled))
    (read : ListMoved mq.readList readList index (item.state = .read)) :
    (mq.moved index item buf freeList filledList readList).Partitioned := by
  have lists : ∀ {before after : List Nat} {state : MsgItemState},
      (∀ other, other ∈ before ↔ other < mq.numItems ∧ (mq.items other).state = state) →
      ListMoved before after index (item.state = state) →
      ∀ other, other ∈ after ↔
        other < mq.numItems ∧ (update mq.items index item other).state = state := by
    intro before after state mem change other
    rw [change.mem_iff, mem]
    by_cases same : other = index
    · subst same
      simp [bound]
    · simp [same]
  have items : ∀ property : Nat → MsgItem → Prop, property index item →
      (∀ other < mq.numItems, property other (mq.items other)) →
      ∀ other < mq.numItems, property other (update mq.items index item other) := by
    intro property here others other otherBound
    by_cases same : other = index
    · subst same
      simpa using here
    · simpa [same] using others other otherBound
  exact ⟨lists partitioned.free_iff free, lists partitioned.filled_iff filled,
    lists partitioned.read_iff read, free.nodup, filled.nodup, read.nodup,
    items (fun other item => item.id.toNat = other) idEq partitioned.id_eq,
    items (fun _ item => item.numHandles = 0) handlesEq partitioned.handles_eq,
    items (fun _ item => item.len ≤ mq.itemSz) lenLe partitioned.len_le,
    bufLength.trans partitioned.buf_length⟩

theorem ListMoved.refl (nodup : list.Nodup) (same : index ∈ list ↔ here) :
    ListMoved list list index here := by
  refine ⟨?_, nodup⟩
  intro other
  by_cases equal : other = index
  · subst equal
    simp [same]
  · simp [equal]

theorem ListMoved.erase (nodup : list.Nodup) (gone : ¬ here) :
    ListMoved list (list.erase index) index here := by
  refine ⟨?_, nodup.erase index⟩
  intro other
  rw [nodup.mem_erase_iff]
  simp [gone]

theorem ListMoved.insert (nodup : list.Nodup) (isHere : here) (absent : index ∉ list)
    (order : rest.Perm (index :: list)) : ListMoved list rest index here := by
  refine ⟨?_, ?_⟩
  · intro other
    rw [order.mem_iff, mem_cons]
    by_cases equal : other = index
    · simp [equal, isHere]
    · simp [equal]
  · rw [order.nodup_iff, nodup_cons]
    exact ⟨absent, nodup⟩

theorem contents_moved {other : Nat} (ne : other ≠ index)
    (kept : slice buf (other * mq.itemSz) (mq.items other).len =
      slice mq.buf (other * mq.itemSz) (mq.items other).len) :
    (mq.moved index item buf freeList filledList readList).contents other = mq.contents other := by
  simp only [MsgQueue.moved, contents, update_of_ne ne]
  exact kept

structure Refines (mq : MsgQueue) (call : QueueCall) (reply : QueueReply) (after : MsgQueue) :
    Prop where
  partitioned : after.Partitioned
  numItems_eq : after.numItems = mq.numItems
  itemSz_eq : after.itemSz = mq.itemSz
  step : AbstractQueue.Step mq.itemSz mq.abstract call reply after.abstract

section

variable (partitioned : mq.Partitioned)

include partitioned

theorem abstract_scratch (isFree : index ∈ mq.freeList) (item : MsgItem)
    (short : data.length ≤ mq.itemSz) :
    (mq.moved index item (overwrite mq.buf (index * mq.itemSz) data) mq.freeList mq.filledList
      mq.readList).abstract =
      mq.abstract := by
  obtain ⟨bound, state⟩ := (partitioned.free_iff index).mp isFree
  have others : ∀ other, other < mq.numItems → (mq.items other).state ≠ .free →
      (mq.moved index item (overwrite mq.buf (index * mq.itemSz) data) mq.freeList mq.filledList
        mq.readList).contents other = mq.contents other := by
    intro other otherBound notFree
    have ne : other ≠ index := by
      rintro rfl
      exact notFree state
    exact contents_moved ne
      (partitioned.slice_other bound short ne (partitioned.len_le other otherBound))
  simp only [abstract, AbstractQueue.mk.injEq]
  refine ⟨?_, ?_, rfl⟩
  · apply map_congr_left
    intro other mem
    obtain ⟨otherBound, otherState⟩ := (partitioned.filled_iff other).mp mem
    rw [others other otherBound (by rw [otherState]; decide)]
  funext other
  by_cases mem : other ∈ mq.readList
  · obtain ⟨otherBound, otherState⟩ := (partitioned.read_iff other).mp mem
    rw [← others other otherBound (by rw [otherState]; decide)]
    rfl
  · simp [MsgQueue.moved, mem]

theorem of_free (free : mq.freeList = index :: rest) :
    index ∈ mq.freeList ∧ index < mq.numItems ∧ (mq.items index).state = .free ∧
      index ∉ mq.filledList ∧ index ∉ mq.readList := by
  have isFree : index ∈ mq.freeList := by simp [free]
  obtain ⟨bound, state⟩ := (partitioned.free_iff index).mp isFree
  refine ⟨isFree, bound, state, ?_, ?_⟩
  · rw [partitioned.filled_iff, state]
    simp
  · rw [partitioned.read_iff, state]
    simp

theorem length_contents (bound : index < mq.numItems) :
    (mq.contents index).length = (mq.items index).len :=
  length_slice (partitioned.fits bound (partitioned.len_le index bound))

theorem abstract_written (free : mq.freeList = index :: rest) (short : data.length ≤ mq.itemSz)
    (lenEq : item.len = data.length) :
    (mq.moved index item (overwrite mq.buf (index * mq.itemSz) data) rest (mq.filledList ++ [index])
      mq.readList).abstract =
      { mq.abstract with
        filled := mq.abstract.filled ++ [(index, data)], free := mq.abstract.free - 1 } := by
  obtain ⟨isFree, bound, _⟩ := of_free partitioned free
  have scratch := abstract_scratch partitioned isFree item short
  have written :
    (mq.moved index item (overwrite mq.buf (index * mq.itemSz) data) rest (mq.filledList ++ [index])
      mq.readList).contents index = data := by
    simp only [MsgQueue.moved, contents, update_self, lenEq]
    rw [slice_overwrite (partitioned.fits bound short) (Nat.le_refl _), take_length]
  simp only [abstract, AbstractQueue.mk.injEq] at scratch ⊢
  refine ⟨?_, scratch.2.1, ?_⟩
  · change List.map _ (mq.filledList ++ [index]) = _
    rw [map_append, map_singleton, written]
    exact congrArg (· ++ [(index, data)]) scratch.1
  · rw [free]
    rfl

theorem writeItem_cases (free : mq.freeList = index :: rest) (msg : SendMsg) :
    (∃ data, data.length ≤ mq.itemSz ∧ (mq.writeItem index msg).1 < 0 ∧
      (msg.numHandles ≠ 0 ∨ msg.Unreadable mq.itemSz) ∧
      (mq.writeItem index msg).2 = mq.moved index ⟨(mq.items index).id, .free, 0, 0⟩
        (overwrite mq.buf (index * mq.itemSz) data) mq.freeList mq.filledList mq.readList) ∨
    mq.writeItem index msg = (((msg.contents.take mq.itemSz).length : Int),
      mq.moved index ⟨(mq.items index).id, .filled, 0, (msg.contents.take mq.itemSz).length⟩
        (overwrite mq.buf (index * mq.itemSz) (msg.contents.take mq.itemSz)) rest
          (mq.filledList ++ [index])
        mq.readList) := by
  obtain ⟨_, bound, state, notFilled, notRead⟩ := of_free partitioned free
  have idEq := partitioned.id_eq index bound
  by_cases handles : msg.numHandles = 0
  case neg =>
    refine .inl ⟨[], Nat.zero_le _, ?_, .inl handles, ?_⟩
    · simp only [writeItem, ne_eq, handles, not_false_eq_true, if_true]
      decide
    · simp [writeItem, handles, setItem, MsgQueue.moved, state]
  have bounded := msg.toMembuf_length mq.itemSz
  generalize copied : msg.toMembuf mq.itemSz = result at bounded ⊢
  obtain ⟨written, outcome⟩ := result
  cases outcome with
  | error code =>
    obtain ⟨reason, known⟩ := SendMsg.toMembuf_error copied
    refine .inl ⟨written, bounded, ?_, .inr reason, ?_⟩
    · simp only [writeItem, ne_eq, handles, not_true_eq_false, if_false, setItem, copied]
      exact copyCode_neg known
    · simp [writeItem, handles, setItem, copied, getBuf, MsgQueue.moved, idEq, state]
  | ok count =>
    obtain ⟨rfl, rfl⟩ := SendMsg.toMembuf_ok copied
    right
    simp [writeItem, handles, setItem, copied, getBuf, listDelete, MsgQueue.moved, idEq, free,
      erase_of_not_mem notFilled, erase_of_not_mem notRead]

theorem send_refines {msg : SendMsg} (called : mq.call (.send msg) = some (reply, after)) :
    Refines mq (.send msg) reply after := by
  simp only [call] at called
  cases head : mq.freeList.head? with
  | none =>
    rw [head] at called
    cases called
    refine ⟨partitioned, rfl, rfl, .failed (.inl ?_) (by decide)⟩
    rw [List.head?_eq_none_iff] at head
    simp [abstract, head]
  | some index =>
    obtain ⟨rest, free⟩ := List.head?_eq_some_iff.mp head
    obtain ⟨isFree, bound, state, notFilled, notRead⟩ := of_free partitioned free
    have idEq := partitioned.id_eq index bound
    rw [head] at called
    simp only [state, if_true, Option.some.injEq, Prod.mk.injEq] at called
    obtain ⟨rfl, rfl⟩ := called
    rcases writeItem_cases partitioned free msg with
      ⟨data, short, negative, reason, result⟩ | result
    · rw [result]
      have fits := partitioned.fits bound short
      refine ⟨partitioned.moved bound ⟨(mq.items index).id, .free, 0, 0⟩ idEq rfl (Nat.zero_le _)
        (length_overwrite fits)
        (.refl partitioned.free_nodup (by simp [isFree]))
        (.refl partitioned.filled_nodup (by simp [notFilled]))
        (.refl partitioned.read_nodup (by simp [notRead])), rfl, rfl, ?_⟩
      rw [abstract_scratch partitioned isFree _ short]
      exact .failed (.inr reason) negative
    rw [result]
    have short : (msg.contents.take mq.itemSz).length ≤ mq.itemSz := length_take_le _ _
    have fits := partitioned.fits bound short
    have restEq : rest = mq.freeList.erase index := by
      rw [free, erase_cons_head]
    refine ⟨partitioned.moved bound ⟨(mq.items index).id, .filled, 0, _⟩ idEq rfl short
      (length_overwrite fits) ?_
      (.insert partitioned.filled_nodup rfl notFilled (perm_append_singleton _ _))
      (.refl partitioned.read_nodup (by simp [notRead])), rfl, rfl, ?_⟩
    · rw [restEq]
      exact .erase partitioned.free_nodup (by simp)
    rw [abstract_written partitioned free short rfl]
    refine .send ?_ ?_ ?_
    · simp [abstract, free]
    · intro message mem
      obtain ⟨other, inFilled, same⟩ := mem_map.mp mem
      cases same
      exact notFilled inFilled
    · simp [abstract, notRead]

end

theorem contents_restated {state : MsgItemState} (other : Nat) :
    (mq.moved index { mq.items index with state := state } mq.buf freeList filledList
      readList).contents other =
      mq.contents other := by
  simp only [MsgQueue.moved, contents]
  by_cases same : other = index
  · subst same
    rw [update_self]
  · rw [update_of_ne same]

section

variable (partitioned : mq.Partitioned)

include partitioned

theorem get_refines {fault : Bool} (called : mq.call (.get fault) = some (reply, after)) :
    Refines mq (.get fault) reply after := by
  simp only [call, peekNextFilled] at called
  cases head : mq.filledList.head? with
  | none =>
    rw [head] at called
    cases called
    refine ⟨partitioned, rfl, rfl, .failed (.inl ?_) (by decide)⟩
    rw [List.head?_eq_none_iff] at head
    simp [abstract, head]
  | some index =>
    rw [head] at called
    cases fault with
    | true =>
      cases called
      exact ⟨partitioned, rfl, rfl, .failed (.inr rfl) (by decide)⟩
    | false =>
      obtain ⟨rest, filled⟩ := List.head?_eq_some_iff.mp head
      have isFilled : index ∈ mq.filledList := by
        rw [filled]
        exact mem_cons_self
      obtain ⟨bound, state⟩ := (partitioned.filled_iff index).mp isFilled
      have notFree : index ∉ mq.freeList := by
        rw [partitioned.free_iff, state]
        simp
      have notRead : index ∉ mq.readList := by
        rw [partitioned.read_iff, state]
        simp
      have moves : mq.getFilled = some (mq.moved index { mq.items index with state := .read } mq.buf
          mq.freeList rest (mq.readList ++ [index])) := by
        rw [getFilled, head]
        simp [listDelete, setItem, MsgQueue.moved, erase_of_not_mem notFree,
          erase_of_not_mem notRead, filled]
      simp only [Option.map_some, Bool.false_eq_true, if_false, moves, Option.some.injEq,
        Prod.mk.injEq] at called
      obtain ⟨rfl, rfl⟩ := called
      have restEq : rest = mq.filledList.erase index := by
        rw [filled, erase_cons_head]
      refine ⟨partitioned.moved bound { mq.items index with state := .read }
        (partitioned.id_eq index bound) (partitioned.handles_eq index bound)
        (partitioned.len_le index bound) rfl
        (.refl partitioned.free_nodup (by simp [notFree])) ?_
        (.insert partitioned.read_nodup rfl notRead (perm_append_singleton _ _)), rfl, rfl, ?_⟩
      · rw [restEq]
        exact .erase partitioned.filled_nodup (by simp)
      have idEq := partitioned.id_eq index bound
      have filledEq : mq.abstract.filled = (index, mq.contents index) ::
          rest.map fun other => (other, mq.contents other) := by
        simp [abstract, filled]
      have step : AbstractQueue.Step mq.itemSz mq.abstract (.get false) _ _ := .get filledEq
      rw [length_contents partitioned bound] at step
      rw [idEq]
      convert step using 1
      simp only [abstract, AbstractQueue.mk.injEq, contents_restated]
      refine ⟨rfl, ?_, rfl⟩
      funext other
      by_cases same : other = index
      · subst same
        simp [MsgQueue.moved]
      · simp [MsgQueue.moved, same]

theorem read_refines {id offset : Nat} {msg : ReadMsg}
    (called : mq.call (.read id offset msg) = some (reply, after)) :
    Refines mq (.read id offset msg) reply after := by
  simp only [call, Option.some.injEq, Prod.mk.injEq] at called
  obtain ⟨rfl, rfl⟩ := called
  refine ⟨partitioned, rfl, rfl, ?_⟩
  have codes : errInvalidArgs < 0 ∧ errNotSupported < 0 := by decide
  by_cases held : id ∈ mq.readList
  case neg =>
    have notHeld : mq.abstract.reading id = none := by simp [abstract, held]
    refine .failed ?_ ?_
    · intro message found
      rw [notHeld] at found
      cases found
    rw [partitioned.read_iff] at held
    simp only [readItem, getItem]
    by_cases bound : id < mq.numItems
    · rw [if_pos bound]
      simp only
      rw [if_pos fun isRead => held ⟨bound, isRead⟩]
      exact codes.1
    · rw [if_neg bound]
      exact codes.1
  obtain ⟨bound, state⟩ := (partitioned.read_iff id).mp held
  have found : mq.abstract.reading id = some (mq.contents id) := by simp [abstract, held]
  have lengthEq := length_contents partitioned bound
  have dataEq : slice mq.buf (id * mq.itemSz + offset) ((mq.items id).len - offset) =
      (mq.contents id).drop offset := by
    rw [contents, slice, slice, drop_take, drop_drop]
  simp only [readItem, getItem, if_pos bound, state, ne_eq, not_true_eq_false, if_false,
    partitioned.handles_eq id bound, getBuf, partitioned.id_eq id bound, dataEq]
  by_cases outside : (mq.items id).len < offset
  · rw [if_pos outside]
    refine .failed ?_ codes.1
    intro message same
    cases found.symm.trans same
    exact .inl (by rw [lengthEq]; exact outside)
  rw [if_neg outside]
  by_cases handles : msg.numHandles = 0
  case neg =>
    rw [if_pos handles]
    exact .failed (fun message same => .inr (.inl handles)) codes.2
  rw [if_neg (not_not.mpr handles)]
  generalize copied : msg.fromMembuf ((mq.contents id).drop offset) = result
  obtain ⟨stored, outcome⟩ := result
  cases outcome with
  | error code =>
    obtain ⟨reason, known⟩ := ReadMsg.fromMembuf_error copied
    refine .failed ?_ (copyCode_neg known)
    intro message same
    cases found.symm.trans same
    exact .inr (.inr reason)
  | ok count =>
    obtain ⟨rfl, rfl⟩ := ReadMsg.fromMembuf_ok copied
    rw [flatten_spread]
    exact .read found (by omega)

theorem put_refines {id : Nat} (called : mq.call (.put id) = some (reply, after)) :
    Refines mq (.put id) reply after := by
  simp only [call] at called
  by_cases held : id ∈ mq.readList
  case neg =>
    have refused : mq.putRead id = none := by
      rw [partitioned.read_iff] at held
      simp only [putRead, getItem]
      by_cases bound : id < mq.numItems
      · rw [if_pos bound]
        simp only
        rw [if_pos fun isRead => held ⟨bound, isRead⟩]
      · rw [if_neg bound]
    rw [refused] at called
    cases called
    exact ⟨partitioned, rfl, rfl, .failed (by simp [QueueCall.MayFail, abstract, held]) (by decide)⟩
  obtain ⟨bound, state⟩ := (partitioned.read_iff id).mp held
  have notFree : id ∉ mq.freeList := by
    rw [partitioned.free_iff, state]
    simp
  have notFilled : id ∉ mq.filledList := by
    rw [partitioned.filled_iff, state]
    simp
  have moves :
      mq.putRead id = some
        (mq.moved id { mq.items id with state := .free } mq.buf (id :: mq.freeList)
      mq.filledList (mq.readList.erase id)) := by
    simp [putRead, getItem, if_pos bound, state, listDelete, setItem, MsgQueue.moved,
      erase_of_not_mem notFree, erase_of_not_mem notFilled]
  rw [moves] at called
  cases called
  refine ⟨partitioned.moved bound { mq.items id with state := .free } (partitioned.id_eq id bound)
    (partitioned.handles_eq id bound) (partitioned.len_le id bound) rfl
    (.insert partitioned.free_nodup rfl notFree (.refl _))
    (.refl partitioned.filled_nodup (by simp [notFilled]))
    (.erase partitioned.read_nodup (by simp)), rfl, rfl, ?_⟩
  have found : mq.abstract.reading id = some (mq.contents id) := by simp [abstract, held]
  have step : AbstractQueue.Step mq.itemSz mq.abstract (.put id) _ _ := .put found
  convert step using 1
  simp only [abstract, AbstractQueue.mk.injEq, contents_restated]
  refine ⟨rfl, ?_, rfl⟩
  funext other
  by_cases same : other = id
  · subst same
    simp [MsgQueue.moved, partitioned.read_nodup.mem_erase_iff]
  · simp [MsgQueue.moved, partitioned.read_nodup.mem_erase_iff, same]

theorem call_returns (call : QueueCall) : ∃ reply after, mq.call call = some (reply, after) := by
  cases call with
  | send msg =>
    simp only [MsgQueue.call]
    split
    · exact ⟨_, _, rfl⟩
    · rename_i index head
      have isFree := ((partitioned.free_iff index).mp (mem_of_mem_head? head)).2
      rw [if_pos isFree]
      exact ⟨_, _, rfl⟩
  | get fault =>
    simp only [MsgQueue.call, peekNextFilled, getFilled]
    cases mq.filledList.head? with
    | none => exact ⟨_, _, rfl⟩
    | some index => cases fault <;> exact ⟨_, _, rfl⟩
  | read id offset msg => exact ⟨_, _, rfl⟩
  | put id =>
    simp only [MsgQueue.call]
    cases mq.putRead id <;> exact ⟨_, _, rfl⟩

/-- Every call on a queue is a step of the abstract queue. -/
theorem call_refines {call : QueueCall} (called : mq.call call = some (reply, after)) :
    Refines mq call reply after := by
  cases call with
  | send msg => exact send_refines partitioned called
  | get fault => exact get_refines partitioned called
  | read id offset msg => exact read_refines partitioned called
  | put id => exact put_refines partitioned called

end

end MsgQueue

end Trusty.Ipc
