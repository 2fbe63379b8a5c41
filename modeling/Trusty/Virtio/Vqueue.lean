import Trusty.Lib.Dialog
import Trusty.Virtio.Vring

/-!
Taking buffers off the avail ring and putting them on the used ring
(`_vqueue_get_avail_buf_locked` and `_vqueue_add_buf_locked` of `vqueue.c`).

The ring is memory that the other side writes at any time, so every single access is
an operation of a dialog and nothing ties the answers of two reads together.
-/

namespace Trusty.Virtio

open Lib Kernel

/-- Accesses to the memory of a ring.  `desc` is no access: it is where the code takes
the address of a descriptor. -/
inductive RingOp where
  | readAvailIdx
  | readAvailRing (slot : Nat)
  | readUsedFlags
  | writeUsedFlags (value : BitVec 16)
  | readUsedIdx
  | writeUsedIdx (value : BitVec 16)
  | writeUsedId (slot : Nat) (value : BitVec 32)
  | writeUsedLen (slot : Nat) (value : BitVec 32)
  | desc (slot : Nat)
  | readDescAddr (slot : Nat)
  | readDescLen (slot : Nat)
  | readDescFlags (slot : Nat)
  | readDescNext (slot : Nat)
deriving DecidableEq

@[reducible]
def RingOp.Ans : RingOp → Type
  | .readAvailIdx | .readAvailRing _ | .readUsedFlags | .readUsedIdx => BitVec 16
  | .readDescFlags _ | .readDescNext _ => BitVec 16
  | .readDescLen _ => BitVec 32
  | .readDescAddr _ => BitVec 64
  | .writeUsedFlags _ | .writeUsedIdx _ | .writeUsedId _ _ | .writeUsedLen _ _ | .desc _ => Unit

def vringUsedFNoNotify : BitVec 16 := 1
def vringDescFNext : BitVec 16 := 1
def vringDescFWrite : BitVec 16 := 2

/-- An entry of a list of `struct vqueue_iovs`, from its arrays `iovs` and `phys`. -/
structure VqueueIov (arch : Arch) where
  base : arch.Word
  len : arch.Word
  phys : arch.Word
deriving DecidableEq

/-- `struct vqueue_iovs`, with the entries that are in use. -/
structure VqueueIovs (arch : Arch) where
  cnt : Nat
  len : arch.Word
  iovs : List (VqueueIov arch)
deriving DecidableEq

structure VqueueBuf (arch : Arch) where
  head : BitVec 16
  inIovs : VqueueIovs arch
  outIovs : VqueueIovs arch
deriving DecidableEq

section Model

variable {arch : Arch}

namespace VqueueIovs

def used (list : VqueueIovs arch) : Nat := list.iovs.length

def clear (list : VqueueIovs arch) : VqueueIovs arch := { list with iovs := [], len := 0 }

/-- An entry and what it adds to the total length. -/
def push (list : VqueueIovs arch) (len : BitVec 32) (addr : BitVec 64) (more : BitVec 32) :
    VqueueIovs arch :=
  { list with
    iovs := list.iovs ++ [⟨0, len.setWidth arch.bits, addr.setWidth arch.bits⟩]
    len := list.len + more.setWidth arch.bits }

end VqueueIovs

namespace VqueueBuf

/-- The list for descriptors that the device writes, or for the others. -/
def select (buf : VqueueBuf arch) (write : Bool) : VqueueIovs arch :=
  if write then buf.outIovs else buf.inIovs

def update (buf : VqueueBuf arch) (write : Bool) (list : VqueueIovs arch) : VqueueBuf arch :=
  if write then { buf with outIovs := list } else { buf with inIovs := list }

def room (buf : VqueueBuf arch) : Nat :=
  (buf.inIovs.cnt - buf.inIovs.used) + (buf.outIovs.cnt - buf.outIovs.used)

theorem room_push {buf : VqueueBuf arch} {write : Bool}
    (free : (buf.select write).used < (buf.select write).cnt) (len : BitVec 32) (addr : BitVec 64)
    (more : BitVec 32) :
    (buf.update write ((buf.select write).push len addr more)).room + 1 = buf.room := by
  cases write
  all_goals
    simp only [select, update, room, VqueueIovs.used, VqueueIovs.push, if_true,
      Bool.false_eq_true, if_false, List.length_append, List.length_singleton] at free ⊢
    omega

end VqueueBuf

abbrev RingDialog := Dialog RingOp RingOp.Ans

def access (op : RingOp) : RingDialog op.Ans := Dialog.perform op

/-- The loop of `_vqueue_get_avail_buf_locked`. -/
def walkChain (num : BitVec 32) (nextIdx : BitVec 16) (buf : VqueueBuf arch) :
    RingDialog (Int × VqueueBuf arch) :=
  if num.toNat ≤ nextIdx.toNat then return (errNotValid, buf)
  else do
    access (.desc nextIdx.toNat)
    let flags ← access (.readDescFlags nextIdx.toNat)
    let write := flags &&& vringDescFWrite != 0
    if _free : (buf.select write).used < (buf.select write).cnt then
      let len ← access (.readDescLen nextIdx.toNat)
      let addr ← access (.readDescAddr nextIdx.toNat)
      let more ← access (.readDescLen nextIdx.toNat)
      let next ← access (.readDescNext nextIdx.toNat)
      let flags ← access (.readDescFlags nextIdx.toNat)
      if flags &&& vringDescFNext ≠ 0 then
        walkChain num next (buf.update write ((buf.select write).push len addr more))
      else return (noError, buf.update write ((buf.select write).push len addr more))
    else return (errTooBig, buf)
termination_by buf.room
decreasing_by exact Nat.lt_of_succ_le (VqueueBuf.room_push _free len addr more).le

structure GetAvailBuf (arch : Arch) where
  ret : Int
  vq : Vqueue arch
  buf : VqueueBuf arch

variable (vq : Vqueue arch) (buf : VqueueBuf arch)

/-- `_vqueue_get_avail_buf_locked` from the point on where a buffer is there. -/
def takeHead : RingDialog (GetAvailBuf arch) := do
  let nextIdx ← access (.readAvailRing (vq.lastAvailIdx.toNat % vq.vring.num.toNat))
  let vq := { vq with lastAvailIdx := vq.lastAvailIdx + 1 }
  -- the first of the panics that stop the system is in the caller, this is the second
  if vq.vring.num.toNat ≤ nextIdx.toNat then .halt
  else
    let (ret, buf) ← walkChain vq.vring.num nextIdx
      { head := nextIdx, inIovs := buf.inIovs.clear, outIovs := buf.outIovs.clear }
    return ⟨ret, vq, buf⟩

def vqueueGetAvailBufLocked : RingDialog (GetAvailBuf arch) := do
  if vq.vringAddr = 0 then return ⟨errChannelClosed, vq, buf⟩
  else
    let idx ← access .readAvailIdx
    if (vq.vring.num.setWidth 16).toNat < (idx - vq.lastAvailIdx).toNat then
      let _ ← access .readAvailIdx
      .halt
    else
      let idx ← access .readAvailIdx
      if vq.lastAvailIdx = idx then
        let vq := { vq with availEvent := false }
        let flags ← access .readUsedFlags
        access (.writeUsedFlags (flags &&& ~~~vringUsedFNoNotify))
        let idx ← access .readAvailIdx
        if vq.lastAvailIdx = idx then return ⟨errNotEnoughBuffer, vq, buf⟩
        else
          let flags ← access .readUsedFlags
          access (.writeUsedFlags (flags ||| vringUsedFNoNotify))
          takeHead { vq with availEvent := true } buf
      else takeHead vq buf

def vqueueAddBufLocked (len : BitVec 32) : RingDialog Int := do
  if vq.vringAddr = 0 then return errChannelClosed
  else if vq.vring.num.toNat ≤ buf.head.toNat then return errNotValid
  else
    let idx ← access .readUsedIdx
    access (.writeUsedId (idx.toNat % vq.vring.num.toNat) (buf.head.setWidth 32))
    access (.writeUsedLen (idx.toNat % vq.vring.num.toNat) len)
    let idx ← access .readUsedIdx
    access (.writeUsedIdx (idx + 1))
    return noError

end Model

end Trusty.Virtio
