import Trusty.Storage.Device

/-!
# Super blocks

Two super blocks, at blocks 0 and 1 of the super block device, take turns.
Each carries a two-bit version; its lowest bit is the index of the block it is
stored in.  `fs_init` picks one of the two, and every completed transaction
writes the other one.

The device is a function from block number to content.  Any 128 bytes are a
`SuperBlock`, so an arbitrary value of the structure also stands for a block
that was torn by an interrupted write.
-/

namespace Trusty.Storage

/-- `struct super_block`, less its iv and reserved words. -/
structure SuperBlock where
  magic : Nat
  flags : Nat
  fsVersion : Nat
  blockSize : Nat
  blockNumSize : Nat
  macSize : Nat
  blockCount : Nat
  free : BlockMac
  freeCount : Nat
  files : BlockMac
  flags2 : Nat
deriving DecidableEq, Repr

def superBlockMagic : Nat := 0x0073797473757274

def superBlockFsVersion : Nat := 0

def superBlockSize : Nat := 128

/-- `flags & SUPER_BLOCK_FLAGS_VERSION_MASK`. -/
def flagsVersion (flags : Nat) : Nat := flags % 4

/-- `flags & SUPER_BLOCK_FLAGS_BLOCK_INDEX_MASK`. -/
def flagsBlockIndex (flags : Nat) : Nat := flags % 2

/-- What the super block device returns for each block; `none` is a read that
reports an error. -/
abbrev SuperDisk := Nat → Option SuperBlock

/-- The part of `struct fs` that mounting and committing read and write. -/
structure Fs where
  dev : BlockDevice
  superDev : BlockDevice
  freeRoot : BlockMac
  freeInitialRange : BlockRange
  filesRoot : BlockMac
  superBlockVersion : Nat
  writtenSuperBlockVersion : Nat
  minBlockNum : Nat
  blockNumSize : Nat
  macSize : Nat
  reservedCount : Nat
deriving DecidableEq

/-- Roots handed to `update_super_block` by a completing transaction. -/
structure Roots where
  free : BlockMac
  files : BlockMac
deriving DecidableEq, Repr

/-- `superBlockValid` lets blocks with a newer file system version pass
without looking at the rest: they must be neither mounted nor overwritten. -/
def superBlockValid (dev : BlockDevice) (super : SuperBlock) : Bool :=
  if super.magic != superBlockMagic then false
  else if super.flags != super.flags2 then false
  else if super.fsVersion > superBlockFsVersion then true
  else if super.flags != flagsVersion super.flags then false
  else if super.blockSize != dev.blockSize then false
  else if super.blockNumSize < dev.blockNumSize || super.blockNumSize > dataBlockSize then false
  else if super.macSize < dev.macSize || super.macSize > macStructSize then false
  else if !dev.tamperDetecting && super.macSize != macStructSize then false
  else if super.blockCount > dev.blockCount then false
  else true

/-- `use_new_super`.  The difference of the two flag words is taken modulo
`2 ^ 32` before it is masked. -/
def useNewSuper (dev : BlockDevice) (newSuper : SuperBlock) (newSuperIndex : Nat)
    (oldSuper : Option SuperBlock) : Bool :=
  if !superBlockValid dev newSuper then false
  else if flagsBlockIndex newSuper.flags != newSuperIndex then false
  else
    match oldSuper with
    | none => true
    | some old =>
      let dv := flagsVersion ((newSuper.flags + 2 ^ 32 - old.flags % 2 ^ 32) % 2 ^ 32)
      if dv == 1 then true
      else if dv == 3 then false
      else false

/-- Why `fs_init` does not return 0: it returns -1, or an assertion fails. -/
inductive InitError where
  | invalid
  | assertion
deriving DecidableEq, Repr

/-- The loop of `load_super_block` over `fs->super_block`, with the block that
is the best one so far. -/
def scanSuper (dev : BlockDevice) (disk : SuperDisk) :
    List Nat → Option (Nat × SuperBlock) → Except InitError (Option (Nat × SuperBlock))
  | [], old => .ok old
  | index :: rest, old =>
    match disk index with
    | none => .error .invalid
    | some newSuper =>
      if useNewSuper dev newSuper index (old.map Prod.snd) then
        scanSuper dev disk rest (some (index, newSuper))
      else
        scanSuper dev disk rest old

/-- The sizes `fs_init_from_super` asserts before it returns. -/
def Fs.SizesValid (fs : Fs) : Prop :=
  fs.dev.blockNumSize ≤ fs.blockNumSize ∧ fs.blockNumSize ≤ dataBlockSize ∧
    fs.dev.macSize ≤ fs.macSize ∧ fs.macSize ≤ macStructSize ∧
    (fs.macSize = macStructSize ∨ fs.dev.tamperDetecting = true)

instance (fs : Fs) : Decidable fs.SizesValid :=
  inferInstanceAs (Decidable (_ ∧ _ ∧ _ ∧ _ ∧ _))

/-- The state `fs_init_from_super` builds from the super block it uses, or for
an empty file system.  In the second case `super_block_version` keeps the value
it had before. -/
def Fs.fromSuper (prior : Fs) : Option SuperBlock → Fs
  | some super => { prior with
      blockNumSize := super.blockNumSize
      macSize := super.macSize
      reservedCount := prior.dev.blockCount / 8 * 5
      freeRoot := super.free
      freeInitialRange := ⟨0, 0⟩
      filesRoot := super.files
      superBlockVersion := flagsVersion super.flags }
  | none => { prior with
      blockNumSize := prior.dev.blockNumSize
      macSize := prior.dev.macSize
      reservedCount := prior.dev.blockCount / 8 * 5
      freeRoot := .clear
      freeInitialRange := ⟨prior.minBlockNum, prior.dev.blockCount⟩
      filesRoot := .clear }

/-- `fs_init_from_super`.  `prior` holds the fields of `struct fs` that
`fs_init` has already set, and the version the struct had before the call. -/
def fsInitFromSuper (prior : Fs) (super : Option SuperBlock) (clear : Bool) :
    Except InitError Fs :=
  if super.any (fun block => block.fsVersion > superBlockFsVersion) then .error .invalid
  else
    let fs := prior.fromSuper (if clear then none else super)
    if fs.SizesValid then .ok fs else .error .assertion

/-- `load_super_block`; `block_get_super` asserts that the device detects
tampering. -/
def loadSuperBlock (prior : Fs) (disk : SuperDisk) (clear : Bool) : Except InitError Fs :=
  if prior.superDev.tamperDetecting then
    match scanSuper prior.dev disk [0, 1] none with
    | .error error => .error error
    | .ok super => fsInitFromSuper prior (super.map Prod.snd) clear
  else
    .error .assertion

/-- `struct fs` as `fs_init` hands it to `load_super_block`.  `version` is the
`super_block_version` the struct held before the call, `shared` says that both
devices are the same one. -/
def Fs.unmounted (version : Nat) (dev superDev : BlockDevice) (shared : Bool) : Fs where
  dev := dev
  superDev := superDev
  freeRoot := .clear
  freeInitialRange := ⟨0, 0⟩
  filesRoot := .clear
  superBlockVersion := version
  writtenSuperBlockVersion := 0
  minBlockNum := if shared then 2 else 1
  blockNumSize := 0
  macSize := 0
  reservedCount := 0

def fsInit (version : Nat) (dev superDev : BlockDevice) (shared : Bool)
    (disk : SuperDisk) (clear : Bool) : Except InitError Fs :=
  if superDev.blockSize < superBlockSize then .error .invalid
  else if superDev.blockCount < 2 then .error .invalid
  else loadSuperBlock (.unmounted version dev superDev shared) disk clear

def nextVersion (fs : Fs) : Nat := flagsVersion (fs.superBlockVersion + 1)

def nextSuperIndex (fs : Fs) : Nat := flagsBlockIndex (nextVersion fs)

/-- The content `update_super_block` puts in the cache. -/
def newSuperBlock (fs : Fs) (roots : Roots) : SuperBlock where
  magic := superBlockMagic
  flags := nextVersion fs
  fsVersion := superBlockFsVersion
  blockSize := fs.dev.blockSize % 2 ^ 32
  blockNumSize := fs.blockNumSize % 2 ^ 8
  macSize := fs.macSize % 2 ^ 8
  blockCount := fs.dev.blockCount
  free := roots.free
  freeCount := 0
  files := roots.files
  flags2 := nextVersion fs

/-- `update_super_block`: the new file system state, the block it writes and
what it writes there. -/
def updateSuperBlock (fs : Fs) (roots : Roots) : Fs × Nat × SuperBlock :=
  ({ fs with writtenSuperBlockVersion := nextVersion fs },
    nextSuperIndex fs, newSuperBlock fs roots)

def SuperDisk.write (disk : SuperDisk) (index : Nat) (super : SuperBlock) : SuperDisk :=
  fun block => if block = index then some super else disk block

/-- The end of `transaction_complete`, from `update_super_block` on: the super
block reaches the device and the new roots become the committed ones. -/
def commitRoots (fs : Fs) (disk : SuperDisk) (roots : Roots) : Fs × SuperDisk :=
  let (fs, index, super) := updateSuperBlock fs roots
  ({ fs with
      freeRoot := roots.free
      freeInitialRange := ⟨0, 0⟩
      filesRoot := roots.files
      superBlockVersion := fs.writtenSuperBlockVersion },
    disk.write index super)

end Trusty.Storage
