import Trusty.Ipc.Iovec
import Trusty.Lib.Buffer

/-!
Message queues (`ipc_msg.c`).

A queue has a fixed number of items, each in one of three lists and with its own
part of one buffer.  Lists hold the indices of items.
-/

namespace Trusty.Ipc

open Lib List

inductive MsgItemState where
  | free
  | filled
  | read
deriving DecidableEq

structure MsgItem where
  id : UInt8
  state : MsgItemState
  numHandles : Nat
  len : Nat
deriving DecidableEq

structure MsgQueue where
  freeList : List Nat
  filledList : List Nat
  readList : List Nat
  numItems : Nat
  itemSz : Nat
  buf : List UInt8
  items : Nat → MsgItem

inductive SendMsg where
  | kern (numHandles : Nat) (iov : Option (List (Option (Nat → UInt8) × Nat)))
  | user (numHandles : Nat) (iov : List (Option ((Nat → Option UInt8) × Nat)))

inductive ReadMsg where
  | kern (numHandles : Nat) (iov : Option (List (Bool × Nat)))
  | user (numHandles : Nat) (iov : List (Option (Nat × Nat)))

theorem copyCode_neg {code : Int} (known : code = errInvalidArgs ∨ code = errFault) : code < 0 := by
  rcases known with rfl | rfl
  · decide
  · decide

namespace SendMsg

def numHandles : SendMsg → Nat
  | kern numHandles _ => numHandles
  | user numHandles _ => numHandles

def toMembuf (len : Nat) : SendMsg → List UInt8 × Except Int Nat
  | kern _ iov => kernIovecToMembuf len iov
  | user _ iov => userIovecToMembuf len iov

def contents : SendMsg → List UInt8
  | kern _ iov => (iov.getD []).flatMap fun entry => (kernSource entry.1 entry.2).contents
  | user _ iov => iov.flatMap fun entry => (userSource entry).contents

/-- The bytes to send cannot all be read: the list is null, or an entry with some
of them has no base, or one that is needed is not mapped with all its bytes. -/
def Unreadable (size : Nat) : SendMsg → Prop
  | kern _ none => 0 < size
  | kern _ (some iov) => Reaches Prod.snd (fun entry count => entry.1 = none ∧ 0 < count) size iov
  | user _ iov => Reaches (fun entry => entry.elim 0 Prod.snd)
      (fun entry count => ∀ descriptor ∈ entry, ∃ index < count, descriptor.1 index = none) size iov

theorem toMembuf_length (len : Nat) (msg : SendMsg) : (msg.toMembuf len).1.length ≤ len := by
  cases msg with
  | kern numHandles iov =>
    simp only [toMembuf, kernIovecToMembuf]
    split
    · exact Nat.zero_le _
    · cases iov with
      | none => exact Nat.zero_le _
      | some entries => exact iovecToMembuf_length _ _
  | user numHandles iov =>
    simp only [toMembuf, userIovecToMembuf]
    split
    · exact Nat.zero_le _
    · exact iovecToMembuf_length _ _

variable {len : Nat} {msg : SendMsg} {written : List UInt8}

theorem toMembuf_error {code : Int} (failed : msg.toMembuf len = (written, .error code)) :
    msg.Unreadable len ∧ (code = errInvalidArgs ∨ code = errFault) := by
  cases msg with
  | kern numHandles iov =>
    simp only [toMembuf, kernIovecToMembuf] at failed
    split at failed
    · cases failed
    rename_i nonempty
    cases iov with
    | none =>
      cases failed
      exact ⟨Nat.pos_of_ne_zero nonempty, .inl rfl⟩
    | some iov =>
      simp only [Unreadable]
      refine (iovecToMembuf_error (Nat.pos_of_ne_zero nonempty) ?_ (fun _ _ _ => kernSource_fails)
        failed).imp_right .inl
      rintro entry _ ⟨⟩
      rfl
  | user numHandles iov =>
    simp only [toMembuf, userIovecToMembuf] at failed
    split at failed
    · cases failed
    rename_i nonempty
    simp only [Unreadable]
    refine (iovecToMembuf_error (Nat.pos_of_ne_zero nonempty) ?_ (fun _ _ _ => userSource_fails)
      failed).imp_right .inr
    rintro (_ | entry) _ ⟨⟩
    rfl

theorem toMembuf_ok {count : Nat} (copied : msg.toMembuf len = (written, .ok count)) :
    written = msg.contents.take len ∧ count = written.length := by
  cases msg with
  | kern numHandles iov =>
    simp only [toMembuf, kernIovecToMembuf] at copied
    split at copied
    case isTrue empty =>
      cases copied
      simp [empty]
    case isFalse =>
      cases iov with
      | none => cases copied
      | some entries => simpa [contents, flatMap_map] using iovecToMembuf_ok copied
  | user numHandles iov =>
    simp only [toMembuf, userIovecToMembuf] at copied
    split at copied
    case isTrue empty =>
      cases copied
      simp [empty]
    case isFalse => simpa [contents, flatMap_map] using iovecToMembuf_ok copied

end SendMsg

namespace ReadMsg

def numHandles : ReadMsg → Nat
  | kern numHandles _ => numHandles
  | user numHandles _ => numHandles

def fromMembuf (data : List UInt8) : ReadMsg → List (List UInt8) × Except Int Nat
  | kern _ iov => membufToKernIovec iov data
  | user _ iov => membufToUserIovec iov data

def rooms : ReadMsg → List Nat
  | kern _ iov => (iov.getD []).map fun entry => (kernTarget entry.1 entry.2).room
  | user _ iov => iov.map fun entry => (userTarget entry).room

/-- So many bytes cannot all be stored: the list is null, or an entry for some of
them has no base, or one that is needed cannot be written with all its bytes. -/
def Unwritable (size : Nat) : ReadMsg → Prop
  | kern _ none => 0 < size
  | kern _ (some iov) => Reaches Prod.snd (fun entry count => entry.1 = false ∧ 0 < count) size iov
  | user _ iov => Reaches (fun entry => entry.elim 0 Prod.snd)
      (fun entry count => ∀ descriptor ∈ entry, descriptor.1 < count) size iov

variable {data : List UInt8} {msg : ReadMsg} {stored : List (List UInt8)}

theorem fromMembuf_error {code : Int} (failed : msg.fromMembuf data = (stored, .error code)) :
    msg.Unwritable data.length ∧ (code = errInvalidArgs ∨ code = errFault) := by
  cases msg with
  | kern numHandles iov =>
    simp only [fromMembuf, membufToKernIovec] at failed
    split at failed
    · cases failed
    rename_i nonempty
    cases iov with
    | none =>
      cases failed
      exact ⟨length_pos_iff.mpr nonempty, .inl rfl⟩
    | some iov =>
      simp only [Unwritable]
      refine (membufToIovec_error (length_pos_iff.mpr nonempty) ?_ (fun _ _ _ => kernTarget_fails)
        failed).imp_right .inl
      rintro entry _ ⟨⟩
      rfl
  | user numHandles iov =>
    simp only [fromMembuf, membufToUserIovec] at failed
    split at failed
    · cases failed
    rename_i nonempty
    simp only [Unwritable]
    refine (membufToIovec_error (length_pos_iff.mpr nonempty) ?_ (fun _ _ _ => userTarget_fails)
      failed).imp_right .inr
    rintro (_ | entry) _ ⟨⟩
    rfl

theorem fromMembuf_ok {count : Nat} (copied : msg.fromMembuf data = (stored, .ok count)) :
    stored = spread msg.rooms data ∧ count = stored.flatten.length := by
  have nothing : ∀ rooms, spread rooms [] = [] := by
    intro rooms
    cases rooms <;> simp [spread]
  cases msg with
  | kern numHandles iov =>
    simp only [fromMembuf, membufToKernIovec] at copied
    split at copied
    case isTrue empty =>
      cases copied
      simp [empty, nothing]
    case isFalse nonempty =>
      cases iov with
      | none => cases copied
      | some entries =>
        have result := membufToIovec_ok nonempty copied
        rw [map_map] at result
        exact result
  | user numHandles iov =>
    simp only [fromMembuf, membufToUserIovec] at copied
    split at copied
    case isTrue empty =>
      cases copied
      simp [empty, nothing]
    case isFalse nonempty =>
      have result := membufToIovec_ok nonempty copied
      rw [map_map] at result
      exact result

end ReadMsg

def resultCode : Except Int Nat → Int
  | .ok count => count
  | .error code => code

/-- `ipc_msg_queue_create` when its memory was allocated. -/
def ipcMsgQueueCreate (numItems itemSz : Nat) : MsgQueue where
  freeList := List.range numItems
  filledList := []
  readList := []
  numItems := numItems
  itemSz := itemSz
  buf := List.replicate (numItems * itemSz) 0
  items index := ⟨UInt8.ofNat index, .free, 0, 0⟩

namespace MsgQueue

variable (mq : MsgQueue)

def isEmpty : Bool := mq.filledList.isEmpty

/-- `msg_queue_get_buf`: the place of an item in the buffer. -/
def getBuf (item : MsgItem) : Nat := item.id.toNat * mq.itemSz

def getItem (id : Nat) : Option MsgItem :=
  if id < mq.numItems then some (mq.items id) else none

/-- `list_delete` of the node of an item, which is in at most one list. -/
def listDelete (index : Nat) : MsgQueue :=
  { mq with
    freeList := mq.freeList.erase index
    filledList := mq.filledList.erase index
    readList := mq.readList.erase index }

def setItem (index : Nat) (item : MsgItem) : MsgQueue :=
  { mq with items := Function.update mq.items index item }

/-- `msg_write_locked` once the item at the head of the free list is known: the
result, and the queue. -/
def writeItem (index : Nat) (msg : SendMsg) : Int × MsgQueue :=
  let item := { mq.items index with numHandles := 0, len := 0 }
  let mq := mq.setItem index item
  if msg.numHandles ≠ 0 then (errNotSupported, mq)
  else
    let (written, result) := msg.toMembuf mq.itemSz
    let mq := { mq with buf := overwrite mq.buf (mq.getBuf item) written }
    match result with
    | .error code => (code, mq)
    | .ok len =>
      let mq := mq.listDelete index
      let mq := { mq with filledList := mq.filledList ++ [index] }
      (len, mq.setItem index { item with len := len, state := .filled })

/-- `msg_read_locked`: the result, and what was stored. -/
def readItem (id offset : Nat) (msg : ReadMsg) : Int × List (List UInt8) :=
  match mq.getItem id with
  | none => (errInvalidArgs, [])
  | some item =>
    if item.state ≠ .read then (errInvalidArgs, [])
    else if item.numHandles ≠ 0 then (errNotSupported, [])
    else if item.len < offset then (errInvalidArgs, [])
    else if msg.numHandles ≠ 0 then (errNotSupported, [])
    else
      let data := slice mq.buf (mq.getBuf item + offset) (item.len - offset)
      let (stored, result) := msg.fromMembuf data
      (resultCode result, stored)

/-- `msg_peek_next_filled_locked`: the length and the id of the next message. -/
def peekNextFilled : Option (Nat × Nat) :=
  mq.filledList.head?.map fun index => ((mq.items index).len, (mq.items index).id.toNat)

/-- `msg_get_filled_locked`, which asserts that there is a message. -/
def getFilled : Option MsgQueue :=
  match mq.filledList.head? with
  | none => none
  | some index =>
    let mq := mq.listDelete index
    let mq := { mq with readList := mq.readList ++ [index] }
    some (mq.setItem index { mq.items index with state := .read })

/-- The part of `msg_put_read_locked` that moves the item. -/
def putRead (id : Nat) : Option MsgQueue :=
  match mq.getItem id with
  | none => none
  | some item =>
    if item.state ≠ .read then none
    else
      let mq := mq.listDelete id
      let mq := { mq with freeList := id :: mq.freeList }
      some (mq.setItem id { item with state := .free })

end MsgQueue

/-! ### Items and lists -/

/-- Every item is in the list of its state and has its own part of the buffer. -/
structure MsgQueue.Partitioned (mq : MsgQueue) : Prop where
  free_iff : ∀ index, index ∈ mq.freeList ↔ index < mq.numItems ∧ (mq.items index).state = .free
  filled_iff : ∀ index, index ∈ mq.filledList ↔
    index < mq.numItems ∧ (mq.items index).state = .filled
  read_iff : ∀ index, index ∈ mq.readList ↔ index < mq.numItems ∧ (mq.items index).state = .read
  free_nodup : mq.freeList.Nodup
  filled_nodup : mq.filledList.Nodup
  read_nodup : mq.readList.Nodup
  id_eq : ∀ index < mq.numItems, (mq.items index).id.toNat = index
  handles_eq : ∀ index < mq.numItems, (mq.items index).numHandles = 0
  len_le : ∀ index < mq.numItems, (mq.items index).len ≤ mq.itemSz
  buf_length : mq.buf.length = mq.numItems * mq.itemSz

def MsgQueue.contents (mq : MsgQueue) (index : Nat) : List UInt8 :=
  slice mq.buf (index * mq.itemSz) (mq.items index).len

namespace MsgQueue

variable {mq : MsgQueue} {index : Nat}

theorem create_partitioned {numItems : Nat} (itemSz : Nat) (few : numItems ≤ 2 ^ 8) :
    (ipcMsgQueueCreate numItems itemSz).Partitioned where
  free_iff index := by simp [ipcMsgQueueCreate]
  filled_iff index := by simp [ipcMsgQueueCreate]
  read_iff index := by simp [ipcMsgQueueCreate]
  free_nodup := nodup_range
  filled_nodup := nodup_nil
  read_nodup := nodup_nil
  id_eq index bound := by
    change index < numItems at bound
    simp only [ipcMsgQueueCreate, UInt8.toNat_ofNat']
    omega
  handles_eq _ _ := rfl
  len_le _ _ := Nat.zero_le _
  buf_length := length_replicate

theorem Partitioned.fits (partitioned : mq.Partitioned) (bound : index < mq.numItems) {len : Nat}
    (short : len ≤ mq.itemSz) : index * mq.itemSz + len ≤ mq.buf.length := by
  have product : (index + 1) * mq.itemSz ≤ mq.numItems * mq.itemSz := Nat.mul_le_mul_right _ bound
  rw [Nat.add_mul, Nat.one_mul] at product
  rw [partitioned.buf_length]
  omega

theorem Partitioned.slice_other (partitioned : mq.Partitioned) (bound : index < mq.numItems)
    {data : List UInt8} (short : data.length ≤ mq.itemSz) {other len : Nat} (ne : other ≠ index)
    (otherShort : len ≤ mq.itemSz) :
    slice (overwrite mq.buf (index * mq.itemSz) data) (other * mq.itemSz) len =
      slice mq.buf (other * mq.itemSz) len := by
  have fits := partitioned.fits bound short
  rcases Nat.lt_or_gt_of_ne ne with before | after
  · have product : (other + 1) * mq.itemSz ≤ index * mq.itemSz := Nat.mul_le_mul_right _ before
    rw [Nat.add_mul, Nat.one_mul] at product
    exact slice_overwrite_before fits (by omega)
  · have product : (index + 1) * mq.itemSz ≤ other * mq.itemSz := Nat.mul_le_mul_right _ after
    rw [Nat.add_mul, Nat.one_mul] at product
    exact slice_overwrite_after fits (by omega)

end MsgQueue

end Trusty.Ipc
