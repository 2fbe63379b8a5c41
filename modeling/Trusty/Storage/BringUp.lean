import Mathlib.Data.Finset.Basic

/-!
Bring-up of the storage devices (`block_device_tipc_init`) and the way back.

The steps can fail in any combination.  The state has what the caller can see of
them: the file systems that are mounted, the ports that are open, and the closings
of ports that were not.  The variable `ret` of the code is passed on, since it is
what the labels at the end return.
-/

namespace Trusty.Storage

inductive StoragePort where
  | rpmb
  | rpmbBoot
  | ns
deriving DecidableEq

/-- `struct block_device_tipc`, and what exists outside of it. -/
structure BlockDeviceTipc where
  rpmbState : Bool
  rpmbMounted : Bool
  nsMounted : Bool
  nsFile : Bool
  nsBlockCount : Nat
  openPorts : Finset StoragePort
  strayCloses : List StoragePort
deriving DecidableEq

/-- The memory of a new session is zero. -/
def BlockDeviceTipc.zeroed : BlockDeviceTipc := ⟨false, false, false, false, 0, ∅, []⟩

/-- The build parameters, with the static assertions about them. -/
structure DeviceConfig where
  blockSizeRpmbBlocks : Nat
  blockCountRpmb : Nat
  blockCountMain : Nat
  size_ok : blockSizeRpmbBlocks = 1 ∨ blockSizeRpmbBlocks = 2
  count_ok : blockCountRpmb = 0 ∨ 8 ≤ blockCountRpmb
  main_ok : 8 ≤ blockCountMain

structure PortSteps where
  portCreate : Int
  setCookie : Int
  growMsgBuf : Int

/-- What the steps of the bring-up return.  The file system on the non-secure
device is asked to start empty or not. -/
structure InitSteps where
  rpmbInit : Int
  rpmbCheck : Int
  rpmbSearchSize : Nat
  fsInitRpmb : Int
  portRpmb : PortSteps
  portRpmbBoot : PortSteps
  nsOpenFile : Int
  nsReadPos : Int
  fsInitNs : Bool → Int
  portNs : PortSteps
  init_le : rpmbInit ≤ 0
  check_le : rpmbCheck ≤ 0
  mountRpmb_le : fsInitRpmb ≤ 0
  mountNs_le : ∀ clear, fsInitNs clear ≤ 0

/-- `rpmb_part1_block_count`, `rpmb_part1_base` and `rpmb_part2_base`. -/
def rpmbPart1BlockCount : Nat := 2
def rpmbPart1Base : Nat := 1
def rpmbPart2Base : Nat := rpmbPart1Base + rpmbPart1BlockCount

/-! ### Ports -/

def ipcPortDestroy (port : StoragePort) (state : BlockDeviceTipc) : BlockDeviceTipc :=
  if port ∈ state.openPorts then { state with openPorts := state.openPorts.erase port }
  else { state with strayCloses := state.strayCloses ++ [port] }

/-- `ipc_port_create`, which closes the port again if it cannot be set up. -/
def ipcPortCreate (port : StoragePort) (steps : PortSteps) (state : BlockDeviceTipc) :
    Int × BlockDeviceTipc :=
  if steps.portCreate < 0 then (steps.portCreate, state)
  else
    let state := { state with openPorts := insert port state.openPorts }
    if steps.setCookie < 0 then (steps.setCookie, ipcPortDestroy port state)
    else if steps.growMsgBuf < 0 then (steps.growMsgBuf, ipcPortDestroy port state)
    else (0, state)

def clientCreatePort (port : StoragePort) (steps : PortSteps) (state : BlockDeviceTipc) :
    Int × BlockDeviceTipc :=
  let (ret, state) := ipcPortCreate port steps state
  if ret < 0 then (ret, state) else (0, state)

/-! ### The labels of `block_device_tipc_init` -/

section

variable (ret : Int) (state : BlockDeviceTipc)

def errRpmbInit : Int × BlockDeviceTipc := (ret, state)

def errBadRpmbSize : Int × BlockDeviceTipc := errRpmbInit ret state

def rpmbUninit : BlockDeviceTipc := { state with rpmbState := false }

def errInitTrStateRpmb : Int × BlockDeviceTipc :=
  errBadRpmbSize ret (rpmbUninit state)

def errFsRpmbCreatePort : Int × BlockDeviceTipc :=
  errInitTrStateRpmb ret state

def errFsRpmbBootCreatePort : Int × BlockDeviceTipc :=
  errFsRpmbCreatePort ret (ipcPortDestroy .rpmb state)

def nsCloseFile : BlockDeviceTipc := { state with nsFile := false }

def errInitFsNsTrState : Int × BlockDeviceTipc :=
  errFsRpmbBootCreatePort ret (ipcPortDestroy .rpmbBoot (nsCloseFile state))

def errFsNsCreatePort : Int × BlockDeviceTipc :=
  errInitFsNsTrState ret state

end

/-! ### Bring-up -/

section Init

variable (config : DeviceConfig) (steps : InitSteps) (state : BlockDeviceTipc)

/-- From the opening of the non-secure file on. -/
def initNs : Int × BlockDeviceTipc :=
  let state := { state with nsBlockCount := config.blockCountMain }
  if steps.nsOpenFile < 0 then
    -- RPMB fs only
    (0, { state with nsBlockCount := 0 })
  else
    let state := { state with nsFile := true }
    -- request an empty file system if the file is empty
    let newNsFs := decide (steps.nsReadPos < 1)
    let ret := steps.fsInitNs newNsFs
    if ret < 0 then errInitFsNsTrState ret state
    else
      let (ret, state) := clientCreatePort .ns steps.portNs { state with
        nsMounted := decide (ret = 0) }
      if ret < 0 then errFsNsCreatePort ret state else (0, state)

/-- From the port for the boot partition on. -/
def initRpmbBoot : Int × BlockDeviceTipc :=
  let (ret, state) := clientCreatePort .rpmbBoot steps.portRpmbBoot state
  if ret < 0 then errFsRpmbBootCreatePort ret state else initNs config steps state

/-- From the mount of the RPMB file system on. -/
def initRpmbFs : Int × BlockDeviceTipc :=
  let ret := steps.fsInitRpmb
  if ret < 0 then errInitTrStateRpmb ret state
  else
    let (ret, state) := clientCreatePort .rpmb steps.portRpmb { state with
      rpmbMounted := decide (ret = 0) }
    if ret < 0 then errFsRpmbCreatePort ret state else initRpmbBoot config steps state

def blockDeviceTipcInit : Int × BlockDeviceTipc :=
  let ret := steps.rpmbInit
  if ret < 0 then errRpmbInit ret state
  else
    let state := { state with rpmbState := true }
    if config.blockCountRpmb ≠ 0 then
      let ret := steps.rpmbCheck
      if ret ≠ 0 then errBadRpmbSize ret state
      else if config.blockCountRpmb < rpmbPart2Base then errBadRpmbSize ret state
      else initRpmbFs config steps state
    else
      let rpmbBlockCount := steps.rpmbSearchSize / config.blockSizeRpmbBlocks
      if rpmbBlockCount < rpmbPart2Base then errBadRpmbSize ret state
      else initRpmbFs config steps state

end Init

def blockDeviceTipcUninit (state : BlockDeviceTipc) : BlockDeviceTipc :=
  let state := if state.nsBlockCount ≠ 0 then nsCloseFile (ipcPortDestroy .ns state) else state
  rpmbUninit (ipcPortDestroy .rpmb (ipcPortDestroy .rpmbBoot state))

/-! ### What the bring-up leaves -/

/-- The RPMB file system can be used, and the main one if its file could be
opened; the way back closes the ports that are open. -/
structure BroughtUp (steps : InitSteps) (state : BlockDeviceTipc) : Prop where
  mounted : state.rpmbMounted = true
  ports : .rpmb ∈ state.openPorts ∧ .rpmbBoot ∈ state.openPorts
  main : 0 ≤ steps.nsOpenFile → state.nsMounted = true ∧ .ns ∈ state.openPorts
  uninit : (blockDeviceTipcUninit state).strayCloses = [] ∧
    (blockDeviceTipcUninit state).openPorts = ∅

/-- Nothing is left open, and nothing else was closed. -/
structure CleanedUp (state : BlockDeviceTipc) : Prop where
  ports : state.openPorts = ∅
  strays : state.strayCloses = []

/-- The result tells which of the two it is. -/
def Truthful (steps : InitSteps) (result : Int × BlockDeviceTipc) : Prop :=
  result.1 = 0 ∧ BroughtUp steps result.2 ∨ result.1 < 0 ∧ CleanedUp result.2

section Ports

variable {port : StoragePort} {state : BlockDeviceTipc}

theorem ipcPortDestroy_insert (absent : port ∉ state.openPorts) :
    ipcPortDestroy port { state with openPorts := insert port state.openPorts } = state := by
  simp [ipcPortDestroy, Finset.erase_insert absent]

theorem clientCreatePort_cases (steps : PortSteps) (absent : port ∉ state.openPorts) :
    (∃ ret < 0, clientCreatePort port steps state = (ret, state)) ∨
      clientCreatePort port steps
        state = (0, { state with openPorts := insert port state.openPorts }) := by
  by_cases create : steps.portCreate < 0
  · exact .inl ⟨_, create, by simp [clientCreatePort, ipcPortCreate, create]⟩
  by_cases cookie : steps.setCookie < 0
  · exact .inl ⟨_, cookie, by
      simp [clientCreatePort, ipcPortCreate, create, cookie, ipcPortDestroy_insert absent]⟩
  by_cases grow : steps.growMsgBuf < 0
  · exact .inl ⟨_, grow, by
      simp [clientCreatePort, ipcPortCreate, create, cookie, grow, ipcPortDestroy_insert absent]⟩
  · exact .inr (by simp [clientCreatePort, ipcPortCreate, create, cookie, grow])

end Ports

section Steps

variable {config : DeviceConfig} {steps : InitSteps} {state : BlockDeviceTipc} {ret : Int}

/-- Both ports of the mounted RPMB file system are open, and nothing else. -/
structure RpmbReady (state : BlockDeviceTipc) : Prop where
  mounted : state.rpmbMounted = true
  ports : state.openPorts = {.rpmb, .rpmbBoot}
  strays : state.strayCloses = []

theorem truthful_createPort {port : StoragePort} {portSteps : PortSteps}
    {fail : Int → BlockDeviceTipc → Int × BlockDeviceTipc}
    {go : BlockDeviceTipc → Int × BlockDeviceTipc} (absent : port ∉ state.openPorts)
    (failed : ∀ ret < 0, Truthful steps (fail ret state))
    (created : Truthful steps (go { state with openPorts := insert port state.openPorts })) :
    Truthful steps (
      let (ret, state) := clientCreatePort port portSteps state
      if ret < 0 then fail ret state else go state) := by
  rcases clientCreatePort_cases portSteps absent with ⟨ret, negative, result⟩ | result
  · simp only [result, negative, if_true]
    exact failed ret negative
  · simp only [result, Int.lt_irrefl, if_false]
    exact created

theorem truthful_errFsRpmbBootCreatePort (negative : ret < 0) (ports : state.openPorts = {.rpmb})
    (strays : state.strayCloses = []) : Truthful steps (errFsRpmbBootCreatePort ret state) := by
  refine .inr ⟨negative, ?_, ?_⟩
  · simp [errFsRpmbBootCreatePort, errFsRpmbCreatePort, errInitTrStateRpmb,
      errBadRpmbSize, errRpmbInit, rpmbUninit, ipcPortDestroy, ports]
  · simp [errFsRpmbBootCreatePort, errFsRpmbCreatePort, errInitTrStateRpmb,
      errBadRpmbSize, errRpmbInit, rpmbUninit, ipcPortDestroy, ports, strays]

theorem truthful_errInitFsNsTrState (negative : ret < 0) (ready : RpmbReady state) :
    Truthful steps (errInitFsNsTrState ret state) := by
  apply truthful_errFsRpmbBootCreatePort negative
  · rw [nsCloseFile, ipcPortDestroy, ready.ports]
    rfl
  · rw [nsCloseFile, ipcPortDestroy, ready.ports]
    exact ready.strays

theorem RpmbReady.broughtUp (ready : RpmbReady state) (noFile : steps.nsOpenFile < 0)
    (noNs : state.nsBlockCount = 0) : BroughtUp steps state := by
  refine ⟨ready.mounted, by simp [ready.ports], fun opened => absurd opened (Int.not_le.mpr noFile),
    ?_⟩
  simp only [blockDeviceTipcUninit, noNs, ne_eq, not_true_eq_false, if_false, rpmbUninit,
    ipcPortDestroy, ready.ports]
  exact ⟨ready.strays, rfl⟩

theorem RpmbReady.broughtUp_ns (ready : RpmbReady state) (mounted : state.nsMounted = true)
    (blocks : state.nsBlockCount ≠ 0) :
    BroughtUp steps { state with openPorts := insert .ns state.openPorts } := by
  refine ⟨ready.mounted, by simp [ready.ports], fun _ => ⟨mounted, by simp⟩, ?_⟩
  simp only [blockDeviceTipcUninit, blocks, ne_eq, not_false_eq_true, if_true, rpmbUninit,
    ipcPortDestroy, nsCloseFile, ready.ports]
  exact ⟨ready.strays, rfl⟩

theorem truthful_initNs (ready : RpmbReady state) : Truthful steps (initNs config steps state) := by
  unfold initNs
  by_cases closed : steps.nsOpenFile < 0
  · simp only [closed, if_true]
    refine .inl ⟨rfl, ?_⟩
    exact RpmbReady.broughtUp ⟨ready.mounted, ready.ports, ready.strays⟩ closed rfl
  simp only [closed, if_false]
  have atMost := steps.mountNs_le (decide (steps.nsReadPos < 1))
  by_cases failed : steps.fsInitNs (decide (steps.nsReadPos < 1)) < 0
  · rw [if_pos failed]
    exact truthful_errInitFsNsTrState failed ⟨ready.mounted, ready.ports, ready.strays⟩
  have isZero : steps.fsInitNs (decide (steps.nsReadPos < 1)) = 0 := by omega
  rw [if_neg failed, isZero]
  let mounted : BlockDeviceTipc :=
    { state with nsBlockCount := config.blockCountMain, nsFile := true, nsMounted := true }
  have mountedReady : RpmbReady mounted := ⟨ready.mounted, ready.ports, ready.strays⟩
  have absent : StoragePort.ns ∉ mounted.openPorts := by simp [mounted, ready.ports]
  refine truthful_createPort absent ?_ ?_
  · exact fun ret negative => truthful_errInitFsNsTrState negative mountedReady
  · refine .inl ⟨rfl, mountedReady.broughtUp_ns rfl ?_⟩
    exact Nat.ne_of_gt (Nat.lt_of_lt_of_le (by decide) config.main_ok)

theorem truthful_initRpmbBoot (mounted : state.rpmbMounted = true)
    (ports : state.openPorts = {.rpmb}) (strays : state.strayCloses = []) :
    Truthful steps (initRpmbBoot config steps state) := by
  have absent : StoragePort.rpmbBoot ∉ state.openPorts := by simp [ports]
  refine truthful_createPort absent ?_ ?_
  · exact fun ret negative => truthful_errFsRpmbBootCreatePort negative ports strays
  · refine truthful_initNs ⟨mounted, ?_, strays⟩
    rw [ports]
    exact Finset.pair_comm _ _

theorem truthful_initRpmbFs (ports : state.openPorts = ∅) (strays : state.strayCloses = []) :
    Truthful steps (initRpmbFs config steps state) := by
  unfold initRpmbFs
  have atMost := steps.mountRpmb_le
  by_cases failed : steps.fsInitRpmb < 0
  · simp only [failed, if_true]
    exact .inr ⟨failed, ports, strays⟩
  have isZero : steps.fsInitRpmb = 0 := by omega
  rw [if_neg failed, isZero]
  let mounted : BlockDeviceTipc := { state with rpmbMounted := true }
  have absent : StoragePort.rpmb ∉ mounted.openPorts := by simp [mounted, ports]
  refine truthful_createPort absent ?_ ?_
  · exact fun ret negative => .inr ⟨negative, ports, strays⟩
  · exact truthful_initRpmbBoot rfl (by simp [ports]) strays

/-- The bring-up tells the truth unless it reads the size of the RPMB partition
from the device and finds it too small: then the 0 of `rpmb_init` is returned. -/
theorem bringUp_truthful_iff (config : DeviceConfig) (steps : InitSteps) :
    Truthful steps (blockDeviceTipcInit config steps .zeroed) ↔
      ¬ (steps.rpmbInit = 0 ∧ config.blockCountRpmb = 0 ∧
        steps.rpmbSearchSize / config.blockSizeRpmbBlocks < rpmbPart2Base) := by
  have initLe := steps.init_le
  have checkLe := steps.check_le
  unfold blockDeviceTipcInit
  by_cases noMemory : steps.rpmbInit < 0
  · simp only [noMemory, if_true]
    exact iff_of_true (.inr ⟨noMemory, rfl, rfl⟩) (by omega)
  have isZero : steps.rpmbInit = 0 := by omega
  rw [if_neg noMemory, isZero]
  by_cases fixed : config.blockCountRpmb ≠ 0
  · rw [if_pos fixed]
    refine iff_of_true ?_ fun bad => fixed bad.2.1
    by_cases bad : steps.rpmbCheck ≠ 0
    · have negative : steps.rpmbCheck < 0 := by omega
      rw [if_pos bad]
      exact .inr ⟨negative, rfl, rfl⟩
    have large : ¬ config.blockCountRpmb < rpmbPart2Base := by
      have := config.count_ok
      simp only [rpmbPart2Base, rpmbPart1Base, rpmbPart1BlockCount]
      omega
    rw [if_neg bad, if_neg large]
    exact truthful_initRpmbFs rfl rfl
  · rw [if_neg fixed]
    by_cases small : steps.rpmbSearchSize / config.blockSizeRpmbBlocks < rpmbPart2Base
    · rw [if_pos small]
      refine iff_of_false ?_ (by simp [small, not_not.mp fixed])
      rintro (⟨_, up⟩ | ⟨negative, _⟩)
      · cases up.mounted
      · exact Int.lt_irrefl 0 negative
    · rw [if_neg small]
      exact iff_of_true (truthful_initRpmbFs rfl rfl) (by simp [small])

end Steps

def autoDetect : DeviceConfig := ⟨2, 0, 0x20000000, by decide, by decide, by decide⟩

def portStepsOk : PortSteps := ⟨0, 0, 0⟩

def emptyPartition : InitSteps where
  rpmbInit := 0
  rpmbCheck := 0
  rpmbSearchSize := 0
  fsInitRpmb := 0
  portRpmb := portStepsOk
  portRpmbBoot := portStepsOk
  nsOpenFile := 0
  nsReadPos := 1
  fsInitNs := fun _ => 0
  portNs := portStepsOk
  init_le := by decide
  check_le := by decide
  mountRpmb_le := by decide
  mountNs_le := by decide

/-- The bring-up reports success with nothing mounted, and the way back closes two
ports that do not exist. -/
theorem bringUp_empty_partition :
    (blockDeviceTipcInit autoDetect emptyPartition .zeroed).1 = 0 ∧
      (blockDeviceTipcInit autoDetect emptyPartition .zeroed).2.rpmbMounted = false ∧
      (blockDeviceTipcInit autoDetect emptyPartition .zeroed).2.openPorts = ∅ ∧
      (blockDeviceTipcUninit
        (blockDeviceTipcInit autoDetect emptyPartition .zeroed).2).strayCloses =
        [.rpmbBoot, .rpmb] := by
  decide

end Trusty.Storage
