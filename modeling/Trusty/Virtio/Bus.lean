import Trusty.Virtio.Vring

/-!
The virtio bus and the life of the tipc device on it (`trusty_virtio.c`,
`tipc_dev_probe` and `tipc_dev_reset` of `tipc_dev.c`).

Next to the fields of the code the state has what exists outside of them: the threads
that were created and not joined, the mappings of each ring, and how often `free` was
called with a pointer that no allocation returned.  The calls of the non-secure side
come one after the other.
-/

namespace Trusty.Virtio

open Lib Kernel

inductive VdevState where
  | reset
  | active
deriving DecidableEq

inductive BusState where
  | uninitialized
  | idle
  | activating
  | active
  | deactivating
deriving DecidableEq

/-- `struct tipc_dev`.  Of the pointers to threads it matters whether they are NULL. -/
structure TipcDev (arch : Arch) where
  state : VdevState
  vqs : Fin tipcVqNum → Vqueue arch
  rxThread : Bool
  txThread : Bool

structure System (arch : Arch) where
  bus : BusState
  descrSize : Nat
  dev : TipcDev arch
  rxThreads : Nat
  txThreads : Nat
  maps : Fin tipcVqNum → List (Window arch.bits)
  badFrees : Nat

/-- The size of `struct resource_table` with one offset, and of the device's part. -/
def tableSize : Nat := 20

def devid : BitVec 32 := 0

section Model

variable {arch : Arch}

def System.boot : System arch where
  bus := .uninitialized
  descrSize := 0
  dev := ⟨.reset, fun _ => Vqueue.zeroed, false, false⟩
  rxThreads := 0
  txThreads := 0
  maps _ := []
  badFrees := 0

section

variable (sys : System arch)

def System.setVq (index : Fin tipcVqNum) (vq : Vqueue arch) : System arch :=
  { sys with dev := { sys.dev with vqs := Function.update sys.dev.vqs index vq } }

def System.setMaps (index : Fin tipcVqNum) (windows : List (Window arch.bits)) : System arch :=
  { sys with maps := Function.update sys.maps index windows }

def vqueueDestroy (index : Fin tipcVqNum) : System arch :=
  let vq := sys.dev.vqs index
  (sys.setVq index { vq with vringAddr := 0, vringSz := 0 }).setMaps index
    ((sys.maps index).filter fun window => window.base ≠ vq.vringAddr)

/-- A call of `vqueue_init` for a ring of the device. -/
def System.initRing (index : Fin tipcVqNum) (result : VqueueInit arch) : System arch :=
  { (sys.setVq index result.vq).setMaps index (result.mapping.toList ++ sys.maps index) with
    badFrees := sys.badFrees + result.freed.toNat }

end

/-- The loop of `tipc_dev_probe` over the rings, with those that are initialised already. -/
def initVrings (descr : TipcVdevDescr) (spots : Fin tipcVqNum → Option (Spot arch))
    (ready : List (Fin tipcVqNum)) :
    List (Fin tipcVqNum) → System arch → Int × System arch
  | [], sys => (noError, sys)
  | index :: rest, sys =>
    let result := initVring (sys.dev.vqs index) (descr.vrings index) (spots index)
    let sys := sys.initRing index result
    if result.ret ≠ noError then
      (result.ret, ready.foldr (fun index sys => vqueueDestroy sys index) sys)
    else initVrings descr spots (ready ++ [index]) rest sys

/-- What happens around a probe: places for the mappings, whether the threads can be
created, what sending GO_ONLINE returns and where it leaves the tx ring, and whether the
non-secure side has freshly initialised the rings. -/
structure ProbeAnswers (arch : Arch) where
  spots : Fin tipcVqNum → Option (Spot arch)
  rxThread : Bool
  txThread : Bool
  goOnline : Int
  txIdx : BitVec 16
  fresh : Bool

structure Probe (arch : Arch) where
  ret : Int
  sys : System arch
  /-- The avail index of each ring when the device starts to take buffers. -/
  first : Fin tipcVqNum → BitVec 16

section

variable (sys : System arch)

def createThreads (answers : ProbeAnswers arch) : System arch :=
  { sys with
    dev := { sys.dev with rxThread := answers.rxThread, txThread := answers.txThread }
    rxThreads := sys.rxThreads + answers.rxThread.toNat
    txThreads := sys.txThreads + answers.txThread.toNat }

/-- `_go_online`: without a tx ring there is no buffer to send. -/
def goOnline (answers : ProbeAnswers arch) : Int × System arch :=
  let vq := sys.dev.vqs tipcVqTx
  if vq.vringAddr = 0 then (errChannelClosed, sys)
  else (answers.goOnline, sys.setVq tipcVqTx { vq with lastAvailIdx := answers.txIdx })

def tipcDevProbe (descr : TipcVdevDescr) (answers : ProbeAnswers arch) : Probe arch :=
  let first (sys : System arch) (index : Fin tipcVqNum) := (sys.dev.vqs index).lastAvailIdx
  if sys.dev.state ≠ .reset then ⟨errBadState, sys, first sys⟩
  else if validateDescr descr ≠ noError then ⟨validateDescr descr, sys, first sys⟩
  else
    match initVrings descr answers.spots [] [tipcVqTx, tipcVqRx] sys with
    | (ret, ready) =>
      if ret ≠ noError then ⟨ret, ready, first ready⟩
      else
        match goOnline (createThreads ready answers) answers with
        | (ret, online) =>
          if ret = noError then
            ⟨ret, { online with dev := { online.dev with state := .active } }, first ready⟩
          else ⟨ret, online, first ready⟩

/-- `tipc_dev_reset`, if both threads can be joined.  Otherwise the system stops: in the
panic, or because the thread is NULL. -/
def tipcDevReset (joined : Bool) : Option (System arch) :=
  if sys.dev.state = .reset then some sys
  else if ¬ (joined ∧ sys.dev.rxThread ∧ sys.dev.txThread) then none
  else
    let sys := { sys with
      dev := { sys.dev with rxThread := false, txThread := false }
      rxThreads := sys.rxThreads - 1
      txThreads := sys.txThreads - 1 }
    let sys := vqueueDestroy (vqueueDestroy sys tipcVqRx) tipcVqTx
    some { sys with dev := { sys.dev with state := .reset } }

/-! ### The calls of the non-secure side -/

/-- `map_descr`, with the place for the mapping. -/
def mapDescr (pa : BitVec 64) (size : Nat) (spot : Option (Spot arch)) : Int :=
  if pa = 0 then errInvalidArgs
  else if pa.toNat % pageSize ≠ 0 then errInvalidArgs
  else if arch.bits = 32 ∧ pa.toNat / 2 ^ 32 ≠ 0 then errInvalidArgs
  else (vmmAllocPhysical (roundup (BitVec.ofNat arch.bits size) (BitVec.ofNat arch.bits pageSize))
    (pa.setWidth arch.bits) spot).1

def finalizeVdevRegistery (descrSz : Nat) : System arch :=
  if sys.bus = .uninitialized then { sys with descrSize := tableSize + descrSz, bus := .idle }
  else sys

inductive Call (arch : Arch) where
  | getDescription
  | start (pa : BitVec 64) (size : BitVec 32) (descr : TipcVdevDescr) (memory : Bool)
      (spot : Option (Spot arch)) (answers : ProbeAnswers arch)
  | stop (joined : Bool)
  | deviceReset (id : BitVec 32) (joined : Bool)
  /-- Not a call: the threads work on a ring. -/
  | work (index : Fin tipcVqNum) (idx : BitVec 16)

/-- Whether a start comes with freshly initialised rings. -/
def Call.fresh : Call arch → Bool
  | .start _ _ _ _ _ answers => answers.fresh
  | _ => false

/-- The probe that `virtio_start` makes, if it gets that far. -/
def startProbe : Call arch → Option (Probe arch)
  | .start pa size descr memory spot answers =>
    if sys.bus ≠ .idle then none
    else if size.toNat ≠ sys.descrSize then none
    else if ¬ memory then none
    else if mapDescr pa sys.descrSize spot ≠ noError then none
    else some (tipcDevProbe { sys with bus := .activating } descr answers)
  | _ => none

end

/-- The state after a call, unless the system stops in it. -/
def step (descrSz : Nat) (sys : System arch) (call : Call arch) : Option (System arch) :=
  match call with
  | .getDescription => some (finalizeVdevRegistery sys descrSz)
  | .start _ _ _ _ _ _ =>
    match startProbe sys call with
    | none => some sys
    | some probe => some { probe.sys with bus := .active }
  | .stop joined =>
    if sys.bus ≠ .active then some sys
    else (tipcDevReset { sys with bus := .deactivating } joined).map fun sys =>
      { sys with bus := .idle }
  | .deviceReset id joined =>
    if sys.bus ≠ .active then some sys
    else if id ≠ devid then some sys
    else tipcDevReset sys joined
  | .work index idx =>
    if sys.rxThreads + sys.txThreads = 0 ∨ (sys.dev.vqs index).vringAddr = 0 then some sys
    else some (sys.setVq index { sys.dev.vqs index with lastAvailIdx := idx })

end Model

end Trusty.Virtio
