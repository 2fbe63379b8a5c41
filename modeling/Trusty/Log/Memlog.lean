import Trusty.Kernel.Vmm
import Trusty.Lib.Dialog
import Trusty.Sm.StdCall

/-!
The log that is shared with the non-secure side (`memlog.c`).

The buffer is memory of the non-secure side, which may change its header at any
time: a load from it gives any value.
-/

namespace Trusty.Log

open Lib Kernel Sm

def smErrUndefinedSmc : Int := 0xffffffff
def smErrInvalidParameters : Int := -2

/-- `SMC_STDCALL_NR(SMC_ENTITY_LOGGING, 0)` -/
def smcScSharedLogVersion : BitVec 32 := 0x33000000
def smcScSharedLogAdd : BitVec 32 := 0x33000001
def smcScSharedLogRm : BitVec 32 := 0x33000002

def trustyLogApiVersion : Int := 1

/-- Physical memory from `phys` on, seen at the addresses of the window. -/
structure Mapping (arch : Arch) where
  window : Window arch.bits
  phys : arch.Word

/-- `struct memlog`, with the mapping that `rb` points into. -/
structure Memlog (arch : Arch) where
  rb : arch.Word
  rbSz : arch.Word
  bufPa : arch.Word
  bufSz : arch.Word
  mapping : Option (Mapping arch)

/-- Accesses to the memory of a log. -/
inductive LogOp (arch : Arch) where
  | load32 (log : Memlog arch) (addr : arch.Word)
  | store32 (log : Memlog arch) (addr : arch.Word) (value : BitVec 32)
  | store8 (log : Memlog arch) (addr : arch.Word) (value : BitVec 8)

def LogOp.Ans {arch : Arch} (op : LogOp arch) : Type :=
  match op with
  | .load32 _ _ => BitVec 32
  | .store32 _ _ _ => PUnit
  | .store8 _ _ _ => PUnit

section Memlog

variable {arch : Arch}

abbrev LogDialog (arch : Arch) := Dialog (LogOp arch) LogOp.Ans

/-- The offsets of the fields of `struct log_rb`. -/
def allocField : arch.Word := 0
def putField : arch.Word := 4
def szField : arch.Word := 8
def dataField : arch.Word := 12

section

variable (log : Memlog arch)

def load32 (field : arch.Word) : LogDialog arch (BitVec 32) :=
  Dialog.perform (LogOp.load32 log (log.rb + field))

def store32 (field : arch.Word) (value : BitVec 32) : LogDialog arch PUnit :=
  Dialog.perform (LogOp.store32 log (log.rb + field) value)

def store8 (field : arch.Word) (value : BitVec 8) : LogDialog arch PUnit :=
  Dialog.perform (LogOp.store8 log (log.rb + field) value)

/-- The place of a byte in the data of the ring buffer. -/
def dataOffset (logOffset : BitVec 32) (i : Nat) : BitVec 32 :=
  ((logOffset.setWidth arch.bits + BitVec.ofNat arch.bits i) &&& (log.rbSz - 1)).setWidth 32

/-- `__memlog_write` -/
def memlogWriteChunk (str : List (BitVec 8)) : LogDialog arch PUnit := do
  let logOffset ← load32 log allocField
  let alloc ← load32 log allocField
  store32 log allocField (alloc + BitVec.ofNat 32 str.length)
  str.zipIdx.forM fun (char, i) =>
    store8 log (dataField + (dataOffset log logOffset i).setWidth arch.bits) char
  let put ← load32 log putField
  store32 log putField (put + BitVec.ofNat 32 str.length)

end

def chunkSize : Nat := 128

def memlogWrite (log : Memlog arch) (str : List (BitVec 8)) : LogDialog arch PUnit := do
  (List.range (str.length / chunkSize)).forM fun i =>
    memlogWriteChunk log ((str.drop (i * chunkSize)).take chunkSize)
  let rest := str.drop (str.length / chunkSize * chunkSize)
  if rest.length ≠ 0 then memlogWriteChunk log rest
  else pure ⟨⟩

variable (logs : List (Memlog arch))

def memlogIsMemRegistered (pa sz : arch.Word) : Bool :=
  logs.any fun log => ¬ pa + sz ≤ log.bufPa ∧ ¬ log.bufPa + log.bufSz ≤ pa

/-- `lower_pow2`; `1u << (31 - clz(v))` is the highest bit of `v`.  For 0 the result of
`__builtin_clz` is undefined. -/
def lowerPow2 (v undefined : BitVec 32) : BitVec 32 :=
  if v = 0 then undefined else BitVec.ofNat 32 (2 ^ v.toNat.log2)

def mb : arch.Word := BitVec.ofNat arch.bits (2 ^ 20)

def mapOffset (pa : arch.Word) : arch.Word := pa &&& (mb - 1)

def mapSize (pa sz : arch.Word) : arch.Word := roundup (sz + mapOffset pa) mb

/-- `map_rb`: what it returns, `va` after it and what it maps. -/
def mapRb (pa sz va : arch.Word) (spot : Option (Spot arch)) :
    Int × arch.Word × Option (Mapping arch) :=
  let phys := pa &&& ~~~(mb - 1)
  match vmmAllocPhysical (mapSize pa sz) phys spot with
  | (err, region) =>
    if err ≠ noError then (err, va, none)
    else (err, (region.map Window.base).getD va + mapOffset pa, region.map (⟨·, phys⟩))

/-- What a call finds in the kernel. -/
structure Given (arch : Arch) where
  /-- `malloc` gives memory. -/
  memory : Bool
  spot : Option (Spot arch)
  /-- The value of the variable `va` before it is set. -/
  va : arch.Word
  undefined : BitVec 32
  /-- What `vmm_free_region` returns. -/
  freed : Int

def memlogAdd (pa sz : arch.Word) (given : Given arch) :
    LogDialog arch (Int × List (Memlog arch)) :=
  if memlogIsMemRegistered logs pa sz then pure (smErrInvalidParameters, logs)
  else if ¬ given.memory then pure (smErrInternalFailure, logs)
  else
    match mapRb pa sz given.va given.spot with
    | (result, va, mapping) =>
      if result ≠ noError then pure (smErrInternalFailure, logs)
      else do
        let rbSz := lowerPow2 ((sz - dataField).setWidth 32) given.undefined
        let log : Memlog arch := ⟨va, rbSz.setWidth arch.bits, pa, sz, mapping⟩
        store32 log szField rbSz
        store32 log allocField 0
        store32 log putField 0
        pure (0, log :: logs)

def memlogRm (pa : arch.Word) (given : Given arch) : Int × List (Memlog arch) :=
  match logs.find? fun log => log.bufPa = pa with
  | none => (smErrInvalidParameters, logs)
  | some _ =>
    (if given.freed ≠ noError then smErrInternalFailure else 0, logs.eraseP fun log =>
      log.bufPa = pa)

def argsGetPa (args : Smc32Args) : BitVec 64 :=
  (args.params 1).setWidth 64 <<< 32 ||| (args.params 0).setWidth 64

def argsGetSz (args : Smc32Args) : arch.Word := (args.params 2).setWidth arch.bits

def memlogStdcall (args : Smc32Args) (given : Given arch) :
    LogDialog arch (Int × List (Memlog arch)) :=
  if args.smcNr = smcScSharedLogVersion then pure (trustyLogApiVersion, logs)
  else if args.smcNr = smcScSharedLogAdd then
    memlogAdd logs ((argsGetPa args).setWidth arch.bits) (argsGetSz args) given
  else if args.smcNr = smcScSharedLogRm then
    pure (memlogRm logs ((argsGetPa args).setWidth arch.bits) given)
  else pure (smErrUndefinedSmc, logs)

/-! ### Where the stores go -/

/-- The `size` bytes at `addr` are mapped, to physical addresses from `bufPa` to
`bufPa + bufSz - 1`. -/
def Memlog.Lands (log : Memlog arch) (addr : arch.Word) (size : Nat) : Prop :=
  ∃ mapping, log.mapping = some mapping ∧ mapping.window.Covers addr size ∧
    (Window.mk log.bufPa log.bufSz.toNat log.bufSz.isLt).Covers
    (mapping.phys + (addr - mapping.window.base)) size

/-- The memory of the logs.  Stores have to stay inside the buffer of their log; the
non-secure side decides what is loaded. -/
def memory : Env (LogOp arch) LogOp.Ans PUnit where
  allowed _ op :=
    match op with
    | .load32 _ _ => True
    | .store32 log addr _ => log.Lands addr 4
    | .store8 log addr _ => log.Lands addr 1
  answers _ _ _ _ := True

/-- The buffers of two logs have no address in common. -/
def Apart (first second : Memlog arch) : Prop :=
  first.bufPa.toNat + first.bufSz.toNat ≤ second.bufPa.toNat ∨
    second.bufPa.toNat + second.bufSz.toNat ≤ first.bufPa.toNat

/-- What holds of the registered logs. -/
structure LogsOk (logs : List (Memlog arch)) : Prop where
  stores : ∀ log ∈ logs, ∀ str, Dialog.ensures memory (memlogWrite log str) ⟨⟩ fun _ _ => True
  bounded : ∀ log ∈ logs, log.bufPa.toNat + log.bufSz.toNat ≤ 2 ^ arch.bits
  apart : logs.Pairwise Apart

end Memlog

end Trusty.Log
