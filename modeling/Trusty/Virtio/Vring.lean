import Trusty.Kernel.Vmm

/-!
The rings of a device (`vqueue_init` of `vqueue.c`, `virtio_ring.h`) and the
descriptor they are taken from (`validate_descr` of `tipc_dev.c`).

`size_t`, `unsigned long` and pointers are words of 32 or 64 bits; `vring_size`
returns 32 bits on both.
-/

namespace Trusty.Virtio

open Lib Kernel

structure Vring (arch : Arch) where
  num : BitVec 32
  desc : arch.Word
  avail : arch.Word
  used : arch.Word
deriving DecidableEq

/-- `struct vqueue`, without its lock and callbacks.  `availEvent` tells whether the
event is signalled. -/
structure Vqueue (arch : Arch) where
  id : BitVec 32
  vring : Vring arch
  vringAddr : arch.Word
  vringSz : arch.Word
  lastAvailIdx : BitVec 16
  availEvent : Bool
deriving DecidableEq

section Ring

variable {arch : Arch}

def Vqueue.zeroed : Vqueue arch := ⟨0, ⟨0, 0, 0, 0⟩, 0, 0, 0, false⟩

def vringSize (num : BitVec 32) (align : arch.Word) : BitVec 32 :=
  (((16 * num.setWidth arch.bits + 2 * (3 + num).setWidth arch.bits + align - 1) &&&
    ~~~(align - 1)) +
    2 * 3 + 8 * num.setWidth arch.bits).setWidth 32

def vringInit (num : BitVec 32) (p align : arch.Word) : Vring arch :=
  let avail := p + num.setWidth arch.bits * 16
  { num := num
    desc := p
    avail := avail
    used := (avail + 4 + 2 * num.setWidth arch.bits + 2 + align - 1) &&& ~~~(align - 1) }

structure VqueueInit (arch : Arch) where
  ret : Int
  vq : Vqueue arch
  mapping : Option (Window arch.bits)
  /-- `free(vq)` was called. -/
  freed : Bool

/-- `vqueue_init`, with the place for the mapping. -/
def vqueueInit (vq : Vqueue arch) (id : BitVec 32) (paddr : arch.Word) (num : BitVec 32)
    (align : arch.Word) (spot : Option (Spot arch)) : VqueueInit arch :=
  let vringSz := (vringSize num align).setWidth arch.bits
  match vmmAllocPhysical (roundup vringSz (BitVec.ofNat arch.bits pageSize)) paddr spot with
  | (ret, mapping) =>
    if ret ≠ noError then ⟨ret, { vq with vringSz := vringSz }, none, true⟩
    else
      let vptr := (mapping.map Window.base).getD 0
      ⟨noError,
        { id := id
          vring := vringInit num vptr align
          vringAddr := vptr
          vringSz := vringSz
          lastAvailIdx := vq.lastAvailIdx
          availEvent := false },
        mapping, false⟩

end Ring

/-! ### The descriptor -/

structure FwRscVdevVring where
  da : BitVec 32
  align : BitVec 32
  num : BitVec 32
  notifyid : BitVec 32
deriving DecidableEq

def tipcVqNum : Nat := 2

def tipcVqTx : Fin tipcVqNum := ⟨0, by decide⟩

def tipcVqRx : Fin tipcVqNum := ⟨1, by decide⟩

/-- The fields of `struct tipc_vdev_descr` that are read. -/
structure TipcVdevDescr where
  type : BitVec 32
  id : BitVec 32
  status : BitVec 8
  numOfVrings : BitVec 8
  vrings : Fin tipcVqNum → FwRscVdevVring

def rscVdev : BitVec 32 := 3
def virtioIdTipc : BitVec 32 := 13
def virtioConfigSAcknowledge : BitVec 8 := 1
def virtioConfigSDriver : BitVec 8 := 2
def virtioConfigSDriverOk : BitVec 8 := 4

def validateDescr (descr : TipcVdevDescr) : Int :=
  if descr.type ≠ rscVdev then errInvalidArgs
  else if descr.id ≠ virtioIdTipc then errInvalidArgs
  else if descr.numOfVrings ≠ BitVec.ofNat 8 tipcVqNum then errInvalidArgs
  else if descr.status ≠
    (virtioConfigSAcknowledge ||| virtioConfigSDriver ||| virtioConfigSDriverOk) then
    errInvalidArgs
  else noError

/-- `vqueue_init` for a ring of the descriptor, as `tipc_dev_probe` calls it. -/
def initVring {arch : Arch} (vq : Vqueue arch) (vring : FwRscVdevVring)
    (spot : Option (Spot arch)) :
    VqueueInit arch :=
  vqueueInit vq vring.notifyid (vring.da.setWidth arch.bits) vring.num
    (vring.align.setWidth arch.bits) spot

end Trusty.Virtio
