import Trusty.Storage.Super
import Mathlib.Tactic

/-!
# Recovery from the super blocks

A `Volume` is a mounted file system together with the super block device and
the super block that describes the mounted state.  Recovery is correct when the
next mount selects exactly that block.  The only way it can go wrong is a mount
that clears the file system: it leaves both old super blocks on the device, and
starts to count versions again without regard to theirs.
-/

namespace Trusty.Storage

section

variable (dev : BlockDevice)

/-- The block at `index` would be used if it were the only one. -/
def accepted (disk : SuperDisk) (index : Nat) : Bool :=
  (disk index).any fun super => useNewSuper dev super index none

/-- The block that `load_super_block` ends up with. -/
def selectSuper (disk : SuperDisk) : Except InitError (Option (Nat × SuperBlock)) :=
  scanSuper dev disk [0, 1] none

theorem useNewSuper_none_iff (super : SuperBlock) (index : Nat) :
    useNewSuper dev super index none = true ↔
      superBlockValid dev super = true ∧ super.flags % 2 = index := by
  unfold useNewSuper
  by_cases valid : superBlockValid dev super = true <;>
    simp [valid, flagsBlockIndex]

theorem useNewSuper_some_iff (super old : SuperBlock) (index : Nat) :
    useNewSuper dev super index (some old) = true ↔
      useNewSuper dev super index none = true ∧
        super.flags % 4 = (old.flags + 1) % 4 := by
  unfold useNewSuper
  by_cases valid : superBlockValid dev super = true
  · by_cases matching : super.flags % 2 = index
    · simp only [valid, matching, flagsBlockIndex, flagsVersion]
      simp
      omega
    · simp [valid, matching, flagsBlockIndex]
  · simp [valid]

end

variable {first second super : SuperBlock} {index version : Nat} {shared clear : Bool}

section

variable (dev : BlockDevice) (disk : SuperDisk)

include dev disk

theorem selectSuper_eq (readFirst : disk 0 = some first) (readSecond : disk 1 = some second) :
    selectSuper dev disk = .ok
      (if useNewSuper dev second 1 none = true ∧
          (useNewSuper dev first 0 none = true → second.flags % 4 = (first.flags + 1) % 4) then
        some (1, second)
      else if useNewSuper dev first 0 none = true then some (0, first)
      else none) := by
  by_cases usedFirst : useNewSuper dev first 0 none = true
  · by_cases usedSecond : useNewSuper dev second 1 (some first) = true
    · have parts := (useNewSuper_some_iff dev second first 1).mp usedSecond
      simp [selectSuper, scanSuper, readFirst, readSecond, usedFirst, usedSecond, parts]
    · have parts := mt (useNewSuper_some_iff dev second first 1).mpr usedSecond
      simp [selectSuper, scanSuper, readFirst, readSecond, usedFirst, usedSecond, parts]
  · by_cases usedSecond : useNewSuper dev second 1 none = true <;>
      simp [selectSuper, scanSuper, readFirst, readSecond, usedFirst, usedSecond]

/-- A stored and accepted block is selected exactly when the other block is
rejected or carries the version right before it.  Of two accepted blocks one
has an even and one an odd version, so "not the next" means "the previous". -/
theorem selectSuper_eq_some_iff {other : SuperBlock} (bound : index < 2)
    (stored : disk index = some super) (usable : useNewSuper dev super index none = true)
    (readOther : disk (1 - index) = some other) :
    selectSuper dev disk = .ok (some (index, super)) ↔
      (useNewSuper dev other (1 - index) none = true →
        super.flags % 4 = (other.flags + 1) % 4) := by
  have parity := ((useNewSuper_none_iff dev super index).mp usable).2
  interval_cases index
  · rw [selectSuper_eq dev disk stored readOther]
    by_cases usedOther : useNewSuper dev other 1 none = true
    · have otherParity := ((useNewSuper_none_iff dev other 1).mp usedOther).2
      by_cases following : other.flags % 4 = (super.flags + 1) % 4
      · simp [usable, usedOther, following]
        omega
      · simp [usable, usedOther, following]
        omega
    · simp [usable, usedOther]
  · rw [selectSuper_eq dev disk readOther stored]
    by_cases usedOther : useNewSuper dev other 0 none = true
    · by_cases following : super.flags % 4 = (other.flags + 1) % 4 <;>
        simp [usable, usedOther, following]
    · simp [usable, usedOther]

theorem selectSuper_eq_none_iff (readFirst : disk 0 = some first)
    (readSecond : disk 1 = some second) :
    selectSuper dev disk = .ok none ↔
      accepted dev disk 0 = false ∧ accepted dev disk 1 = false := by
  rw [selectSuper_eq dev disk readFirst readSecond]
  by_cases usedFirst : useNewSuper dev first 0 none = true <;>
    by_cases usedSecond : useNewSuper dev second 1 none = true <;>
      simp [accepted, readFirst, readSecond, usedFirst, usedSecond]
  by_cases following : second.flags % 4 = (first.flags + 1) % 4 <;> simp [following]

theorem selectSuper_reads {result : Option (Nat × SuperBlock)}
    (selected : selectSuper dev disk = .ok result) (index : Nat) (bound : index < 2) :
    ∃ super, disk index = some super := by
  cases readFirst : disk 0 with
  | none => simp [selectSuper, scanSuper, readFirst] at selected
  | some first =>
    cases readSecond : disk 1 with
    | none =>
      by_cases usedFirst : useNewSuper dev first 0 none = true <;>
        simp [selectSuper, scanSuper, readFirst, readSecond, usedFirst] at selected
    | some second =>
      interval_cases index
      · exact ⟨first, readFirst⟩
      · exact ⟨second, readSecond⟩

theorem selectSuper_sound (selected : selectSuper dev disk = .ok (some (index, super))) :
    index < 2 ∧ disk index = some super ∧ useNewSuper dev super index none = true := by
  obtain ⟨first, readFirst⟩ := selectSuper_reads dev disk selected 0 (by decide)
  obtain ⟨second, readSecond⟩ := selectSuper_reads dev disk selected 1 (by decide)
  rw [selectSuper_eq dev disk readFirst readSecond] at selected
  split_ifs at selected with usedSecond usedFirst
  · cases selected
    exact ⟨by decide, readSecond, usedSecond.1⟩
  · cases selected
    exact ⟨by decide, readFirst, usedFirst⟩
  · cases selected

end

/-! ## Volumes and commits -/

/-- A mounted file system, its super block device, and the super block that
describes the mounted state: the one loaded by the mount, then the one written
last.  A file system that was created empty has none. -/
structure Volume where
  fs : Fs
  disk : SuperDisk
  newest : Option (Nat × SuperBlock)

def mount (version : Nat) (dev superDev : BlockDevice) (shared : Bool)
    (disk : SuperDisk) (clear : Bool) : Except InitError Volume :=
  match fsInit version dev superDev shared disk clear, selectSuper dev disk with
  | .ok fs, .ok super => .ok ⟨fs, disk, if clear then none else super⟩
  | .error error, _ => .error error
  | _, .error error => .error error

namespace Volume

def commit (vol : Volume) (roots : Roots) : Volume :=
  let (fs, disk) := commitRoots vol.fs vol.disk roots
  ⟨fs, disk, some (nextSuperIndex vol.fs, newSuperBlock vol.fs roots)⟩

def commitAll (vol : Volume) (commits : List Roots) : Volume := commits.foldl commit vol

def roots (vol : Volume) : Roots := ⟨vol.fs.freeRoot, vol.fs.filesRoot⟩

structure Valid (dev superDev : BlockDevice) (vol : Volume) : Prop where
  dev_eq : vol.fs.dev = dev
  superDev_eq : vol.fs.superDev = superDev
  sizes : vol.fs.SizesValid
  reads : ∀ index < 2, ∃ super, vol.disk index = some super
  stored : ∀ index super, vol.newest = some (index, super) →
    index < 2 ∧ vol.disk index = some super ∧ useNewSuper dev super index none = true
  version : ∀ index super, vol.newest = some (index, super) →
    super.flags % 4 = vol.fs.superBlockVersion % 4
  current : ∀ index super, vol.newest = some (index, super) → super.fsVersion = 0
  loaded : ∀ index super, vol.newest = some (index, super) → vol.roots = ⟨super.free, super.files⟩
  empty : vol.newest = none → vol.roots = ⟨.clear, .clear⟩ ∧
    vol.fs.blockNumSize = dev.blockNumSize ∧ vol.fs.macSize = dev.macSize

/-- The next mount selects the block that describes the volume. -/
def Settled (vol : Volume) : Prop := selectSuper vol.fs.dev vol.disk = .ok vol.newest

end Volume

/-- What `fs_init` requires of the super block device. -/
def SuperDevUsable (superDev : BlockDevice) : Prop :=
  superBlockSize ≤ superDev.blockSize ∧ 2 ≤ superDev.blockCount ∧
    superDev.tamperDetecting = true

theorem fsInit_eq {dev superDev : BlockDevice} {disk : SuperDisk} (usable : SuperDevUsable superDev)
    {selected : Option (Nat × SuperBlock)} (scanned : selectSuper dev disk = .ok selected) :
    fsInit version dev superDev shared disk clear =
      fsInitFromSuper (.unmounted version dev superDev shared) (selected.map Prod.snd) clear := by
  obtain ⟨size, count, tamper⟩ := usable
  have scan : scanSuper (Fs.unmounted version dev superDev shared).dev disk [0, 1] none =
    .ok selected := scanned
  have detects : (Fs.unmounted version dev superDev shared).superDev.tamperDetecting = true :=
    tamper
  simp [fsInit, not_lt.mpr size, not_lt.mpr count, loadSuperBlock, scan, detects]

theorem fsInit_ok {dev superDev : BlockDevice} {disk : SuperDisk} {fs : Fs}
    (done : fsInit version dev superDev shared disk clear = .ok fs) :
    SuperDevUsable superDev ∧ ∃ selected, selectSuper dev disk = .ok selected ∧
      fsInitFromSuper (.unmounted version dev superDev shared)
        (selected.map Prod.snd) clear = .ok fs := by
  have usable : SuperDevUsable superDev := by
    by_contra unusable
    simp only [SuperDevUsable, not_and_or, not_le] at unusable
    rcases unusable with small | few | undetected
    · simp [fsInit, small] at done
    · simp [fsInit, few] at done
    · simp [fsInit, loadSuperBlock, Fs.unmounted, undetected] at done
      split_ifs at done
  cases scanned : selectSuper dev disk with
  | error error =>
    have scan : scanSuper dev disk [0, 1] none = .error error := scanned
    simp only [fsInit, loadSuperBlock, Fs.unmounted, scan] at done
    split_ifs at done
  | ok selected =>
    rw [fsInit_eq usable scanned] at done
    exact ⟨usable, selected, rfl, done⟩

theorem fsInitFromSuper_ok {prior fs : Fs} {super : Option SuperBlock}
    (done : fsInitFromSuper prior super clear = .ok fs) :
    (∀ block, super = some block → block.fsVersion = 0) ∧
      fs = prior.fromSuper (if clear then none else super) ∧ fs.SizesValid := by
  by_cases future : super.any (fun block => block.fsVersion > superBlockFsVersion) = true
  · simp [fsInitFromSuper, future] at done
  by_cases sizes : (prior.fromSuper (if clear then none else super)).SizesValid
  · simp only [fsInitFromSuper, if_neg future, if_pos sizes] at done
    cases done
    refine ⟨?_, rfl, sizes⟩
    intro block equality
    simpa [equality, superBlockFsVersion] using future
  · simp only [fsInitFromSuper, if_neg future, if_neg sizes] at done
    cases done

section

variable {dev superDev : BlockDevice} {disk : SuperDisk} {vol : Volume}
  (mounted : mount version dev superDev shared disk clear = .ok vol)

include mounted

theorem mount_ok :
    ∃ selected, fsInit version dev superDev shared disk clear = .ok vol.fs ∧
      selectSuper dev disk = .ok selected ∧ vol.disk = disk ∧
      vol.newest = if clear then none else selected := by
  unfold mount at mounted
  split at mounted <;> cases mounted
  case h_1 fs selected initialised scanned =>
    exact ⟨selected, initialised, scanned, rfl, rfl⟩

theorem mount_valid :
    vol.Valid dev superDev ∧ vol.disk = disk ∧
      (vol.newest = none → vol.fs.superBlockVersion = version) ∧
      (clear = true → vol.newest = none) ∧ (clear = false → vol.Settled) := by
  obtain ⟨selected, initialised, scanned, diskEq, newestEq⟩ := mount_ok mounted
  obtain ⟨_, selected', scanned', built⟩ := fsInit_ok initialised
  rw [scanned] at scanned'
  cases scanned'
  obtain ⟨current, fsEq, sizes⟩ := fsInitFromSuper_ok built
  have devEq : vol.fs.dev = dev := by
    rw [fsEq]
    cases selected <;> cases clear <;> rfl
  have superDevEq : vol.fs.superDev = superDev := by
    rw [fsEq]
    cases selected <;> cases clear <;> rfl
  have started : vol.fs = Fs.fromSuper (.unmounted version dev superDev shared)
      (vol.newest.map Prod.snd) := by
    rw [fsEq, newestEq]
    cases clear <;> rfl
  have chosen : ∀ index super, vol.newest = some (index, super) →
      selected = some (index, super) := by
    intro index super isNewest
    cases clear with
    | true => simp [newestEq] at isNewest
    | false => simpa [newestEq] using isNewest
  refine ⟨⟨devEq, superDevEq, sizes, ?_, ?_, ?_, ?_, ?_, ?_⟩, diskEq, ?_, ?_, ?_⟩
  · intro index bound
    rw [diskEq]
    exact selectSuper_reads dev disk scanned index bound
  · intro index super isNewest
    rw [diskEq]
    exact selectSuper_sound dev disk (chosen index super isNewest ▸ scanned)
  · intro index super isNewest
    rw [started, isNewest]
    simp [Fs.fromSuper, flagsVersion]
  · intro index super isNewest
    exact current super (by simp [chosen index super isNewest])
  · intro index super isNewest
    rw [Volume.roots, started, isNewest]
    rfl
  · intro isNewest
    rw [Volume.roots, started, isNewest]
    exact ⟨rfl, rfl, rfl⟩
  · intro isNewest
    rw [started, isNewest]
    rfl
  · intro cleared
    simp [newestEq, cleared]
  · intro kept
    simp [Volume.Settled, devEq, diskEq, scanned, newestEq, kept]

end

theorem newSuperBlock_valid (fs : Fs) (roots : Roots) (sizes : fs.SizesValid) :
    superBlockValid fs.dev (newSuperBlock fs roots) = true := by
  obtain ⟨numLow, numHigh, macLow, macHigh, tamper⟩ := sizes
  simp only [dataBlockSize, macStructSize] at *
  have blockSize := Nat.mod_eq_of_lt fs.dev.blockSize_lt
  have numSize : fs.blockNumSize % 2 ^ 8 = fs.blockNumSize := Nat.mod_eq_of_lt (by omega)
  have macSize : fs.macSize % 2 ^ 8 = fs.macSize := Nat.mod_eq_of_lt (by omega)
  have small : nextVersion fs % 4 = nextVersion fs := by
    simp [nextVersion, flagsVersion]
  simp only [superBlockValid, newSuperBlock, flagsVersion, small, blockSize, numSize, macSize,
    dataBlockSize, macStructSize, superBlockFsVersion]
  simp
  exact ⟨⟨numLow, numHigh⟩, ⟨macLow, macHigh⟩, tamper.symm⟩

theorem nextSuperIndex_lt (fs : Fs) : nextSuperIndex fs < 2 := by
  simp only [nextSuperIndex, flagsBlockIndex]
  omega

theorem one_sub_nextSuperIndex (fs : Fs) : 1 - nextSuperIndex fs = fs.superBlockVersion % 2 := by
  simp only [nextSuperIndex, nextVersion, flagsBlockIndex, flagsVersion]
  omega

theorem newSuperBlock_accepted (fs : Fs) (roots : Roots) (sizes : fs.SizesValid) :
    useNewSuper fs.dev (newSuperBlock fs roots) (nextSuperIndex fs) none = true :=
  (useNewSuper_none_iff _ _ _).mpr ⟨newSuperBlock_valid fs roots sizes, rfl⟩

namespace Volume

variable {dev superDev : BlockDevice} {vol : Volume}

theorem commit_disk_self (roots : Roots) :
    (vol.commit roots).disk (nextSuperIndex vol.fs) = some (newSuperBlock vol.fs roots) := by
  simp [commit, commitRoots, updateSuperBlock, SuperDisk.write]

variable {index : Nat} {super : SuperBlock}

theorem commit_disk_other (roots : Roots) (ne : index ≠ nextSuperIndex vol.fs) :
    (vol.commit roots).disk index = vol.disk index := by
  simp [commit, commitRoots, updateSuperBlock, SuperDisk.write, ne]

section

variable (valid : vol.Valid dev superDev)

include valid

theorem Valid.commit (roots : Roots) : (vol.commit roots).Valid dev superDev := by
  have accepts := newSuperBlock_accepted vol.fs roots valid.sizes
  rw [valid.dev_eq] at accepts
  refine ⟨valid.dev_eq, valid.superDev_eq, valid.sizes, ?_, ?_, ?_, ?_, ?_, ?_⟩
  · intro index bound
    by_cases written : index = nextSuperIndex vol.fs
    · exact ⟨_, written ▸ commit_disk_self roots⟩
    · rw [commit_disk_other roots written]
      exact valid.reads index bound
  · rintro index super ⟨⟩
    exact ⟨nextSuperIndex_lt vol.fs, commit_disk_self roots, accepts⟩
  · rintro index super ⟨⟩
    rfl
  · rintro index super ⟨⟩
    rfl
  · rintro index super ⟨⟩
    rfl
  · rintro ⟨⟩

/-- A commit ends in a settled volume exactly when the block it did not write
is rejected or has the version before the new one. -/
theorem commit_settled_iff (roots : Roots) :
    (vol.commit roots).Settled ↔
      ∀ other, vol.disk (1 - nextSuperIndex vol.fs) = some other →
        useNewSuper dev other (1 - nextSuperIndex vol.fs) none = true →
          other.flags % 4 = vol.fs.superBlockVersion % 4 := by
  have after := valid.commit roots
  have bound := nextSuperIndex_lt vol.fs
  obtain ⟨_, stored, accepts⟩ := after.stored _ _ rfl
  have ne : 1 - nextSuperIndex vol.fs ≠ nextSuperIndex vol.fs := by omega
  obtain ⟨other, readOther⟩ := valid.reads (1 - nextSuperIndex vol.fs) (by omega)
  have readAfter : (vol.commit roots).disk (1 - nextSuperIndex vol.fs) = some other := by
    rw [commit_disk_other roots ne, readOther]
  have newest : (vol.commit roots).newest =
      some (nextSuperIndex vol.fs, newSuperBlock vol.fs roots) := rfl
  rw [Settled, after.dev_eq, newest, selectSuper_eq_some_iff dev _ bound stored accepts readAfter]
  have flags : (newSuperBlock vol.fs roots).flags % 4 = (vol.fs.superBlockVersion + 1) % 4 := by
    simp [newSuperBlock, nextVersion, flagsVersion]
  rw [flags, readOther]
  constructor
  · rintro following _ ⟨⟩ usable
    have := following usable
    omega
  · intro harmless usable
    have := harmless other rfl usable
    omega

theorem Valid.newest_index (newest : vol.newest = some (index, super)) :
    index = 1 - nextSuperIndex vol.fs := by
  have parity := ((useNewSuper_none_iff _ _ _).mp (valid.stored index super newest).2.2).2
  have version := valid.version index super newest
  rw [one_sub_nextSuperIndex]
  omega

theorem commit_settled_of_newest (roots : Roots) (newest : vol.newest = some (index, super)) :
    (vol.commit roots).Settled := by
  refine (commit_settled_iff valid roots).mpr ?_
  intro other readOther _
  have stored := (valid.stored index super newest).2.1
  rw [valid.newest_index newest, readOther] at stored
  cases stored
  exact valid.version index super newest

theorem settled_iff_rejected (newest : vol.newest = none) :
    vol.Settled ↔ accepted dev vol.disk 0 = false ∧ accepted dev vol.disk 1 = false := by
  obtain ⟨first, readFirst⟩ := valid.reads 0 (by decide)
  obtain ⟨second, readSecond⟩ := valid.reads 1 (by decide)
  rw [Settled, newest, valid.dev_eq, selectSuper_eq_none_iff dev vol.disk readFirst readSecond]

theorem Settled.rejected (settled : vol.Settled) (newest : vol.newest = none) :
    accepted dev vol.disk (1 - nextSuperIndex vol.fs) = false := by
  have both := (settled_iff_rejected valid newest).mp settled
  have bound := nextSuperIndex_lt vol.fs
  interval_cases nextSuperIndex vol.fs
  · exact both.2
  · exact both.1

end

theorem Settled.commit (settled : vol.Settled) (valid : vol.Valid dev superDev) (roots : Roots) :
    (vol.commit roots).Settled := by
  cases newest : vol.newest with
  | some described => exact commit_settled_of_newest valid roots newest
  | none =>
    refine (commit_settled_iff valid roots).mpr ?_
    intro other readOther usable
    have rejected := settled.rejected valid newest
    simp [accepted, readOther, usable] at rejected

theorem commitAll_valid (valid : vol.Valid dev superDev) (commits : List Roots) :
    (vol.commitAll commits).Valid dev superDev := by
  induction commits generalizing vol with
  | nil => exact valid
  | cons roots rest ih => exact ih (valid.commit roots)

theorem Settled.commitAll (settled : vol.Settled) (valid : vol.Valid dev superDev)
    (commits : List Roots) : (vol.commitAll commits).Settled := by
  induction commits generalizing vol with
  | nil => exact settled
  | cons roots rest ih =>
    exact ih (settled.commit valid roots) (valid.commit roots)

/-- From the second commit on nothing is left of an earlier file system. -/
theorem commitAll_settled_of_two (valid : vol.Valid dev superDev) (first second : Roots)
    (rest : List Roots) : (vol.commitAll (first :: second :: rest)).Settled :=
  (commit_settled_of_newest (valid.commit first) second rfl).commitAll
    ((valid.commit first).commit second) rest

end Volume

/-! ## The next mount -/

/-- `fs_init` without clear, on a struct whose version field is `version`,
uses the super block `described` (none: creates an empty file system), ends with
the given roots, and the commit after it spares the block that was loaded. -/
def Recovers (version : Nat) (dev superDev : BlockDevice) (shared : Bool) (disk : SuperDisk)
    (described : Option (Nat × SuperBlock)) (roots : Roots) : Prop :=
  ∃ fs, fsInit version dev superDev shared disk false = .ok fs ∧
    selectSuper dev disk = .ok described ∧
    fs.freeRoot = roots.free ∧ fs.filesRoot = roots.files ∧
    ∀ index super, described = some (index, super) → nextSuperIndex fs ≠ index

theorem superBlockValid_sizes {dev : BlockDevice} (valid : superBlockValid dev super = true)
    (current : super.fsVersion = 0) :
    dev.blockNumSize ≤ super.blockNumSize ∧ super.blockNumSize ≤ dataBlockSize ∧
      dev.macSize ≤ super.macSize ∧ super.macSize ≤ macStructSize ∧
      (super.macSize = macStructSize ∨ dev.tamperDetecting = true) := by
  simp only [superBlockValid, current, superBlockFsVersion, lt_irrefl, if_false] at valid
  simp at valid
  obtain ⟨_, _, _, _, numSize, macSize, tamper, _⟩ := valid
  exact ⟨numSize.1, numSize.2, macSize.1, macSize.2, tamper.symm⟩

theorem Volume.Valid.recovers_iff {later : Nat} {dev superDev : BlockDevice} {disk : SuperDisk}
    {vol : Volume} (valid : vol.Valid dev superDev) (usable : SuperDevUsable superDev) :
    Recovers later dev superDev shared disk vol.newest vol.roots ↔
      selectSuper dev disk = .ok vol.newest := by
  constructor
  · rintro ⟨_, _, selected, _⟩
    exact selected
  · intro selected
    cases newest : vol.newest with
    | some block =>
      obtain ⟨index, super⟩ := block
      rw [newest] at selected
      have current := valid.current index super newest
      obtain ⟨_, _, accepts⟩ := valid.stored index super newest
      obtain ⟨blockValid, parity⟩ := (useNewSuper_none_iff _ _ _).mp accepts
      rw [valid.loaded index super newest]
      refine ⟨(Fs.unmounted later dev superDev shared).fromSuper (some super), ?_,
        selected, rfl, rfl, ?_⟩
      · rw [fsInit_eq usable selected]
        simp only [fsInitFromSuper, Option.map_some, Option.any_some, current,
          superBlockFsVersion, Bool.false_eq_true, if_false, gt_iff_lt, lt_irrefl, decide_false]
        exact if_pos (superBlockValid_sizes blockValid current)
      · rintro _ _ ⟨⟩
        simp only [Fs.fromSuper, nextSuperIndex, nextVersion, flagsBlockIndex, flagsVersion]
        omega
    | none =>
      rw [newest] at selected
      obtain ⟨roots, numSize, macSize⟩ := valid.empty newest
      have sizes := valid.sizes
      simp only [Fs.SizesValid, numSize, macSize, valid.dev_eq] at sizes
      rw [roots]
      refine ⟨(Fs.unmounted later dev superDev shared).fromSuper none, ?_,
        selected, rfl, rfl, ?_⟩
      · rw [fsInit_eq usable selected]
        exact if_pos sizes
      · rintro _ _ ⟨⟩

/-! ## A stop while the super block is written -/

/-- What a stop during the write of a super block leaves in the target block. -/
inductive Tear (dev : BlockDevice) where
  | old
  | complete
  | rejected (content : SuperBlock) (invalid : superBlockValid dev content = false)

/-- The super block device after the write for `roots` was stopped. -/
def Tear.disk {dev : BlockDevice} (tear : Tear dev) (vol : Volume) (roots : Roots) : SuperDisk :=
  match tear with
  | .old => vol.disk
  | .complete => vol.disk.write (nextSuperIndex vol.fs) (newSuperBlock vol.fs roots)
  | .rejected content _ => vol.disk.write (nextSuperIndex vol.fs) content

/-- The volume that should be found after the stop. -/
def Tear.expected {dev : BlockDevice} (tear : Tear dev) (vol : Volume) (roots : Roots) : Volume :=
  match tear with
  | .complete => vol.commit roots
  | _ => vol

/-- A super block left by a cleared file system, in the block that the first
commit of the new one does not write, whose version is not the one before that
of the first commit. -/
def StaleAhead (dev : BlockDevice) (disk : SuperDisk) (version : Nat) : Prop :=
  ∃ stale, disk (version % 2) = some stale ∧
    useNewSuper dev stale (version % 2) none = true ∧ stale.flags % 4 ≠ version % 4

/-- A super block of the cleared file system is found after the stop, where
`count` commits were completed before it. -/
def StaleWins {dev : BlockDevice} (disk : SuperDisk) (version : Nat) :
    (count : Nat) → Tear dev → Prop
  | 0, .old => accepted dev disk 0 = true ∨ accepted dev disk 1 = true
  | 0, .rejected _ _ => accepted dev disk (version % 2) = true
  | 0, .complete => StaleAhead dev disk version
  | 1, .old => StaleAhead dev disk version
  | _, _ => False

namespace Volume

variable {dev superDev : BlockDevice} {vol : Volume}

section

variable (valid : vol.Valid dev superDev)

include valid

theorem selectSuper_rejected_iff {content : SuperBlock}
    (invalid : superBlockValid dev content = false) :
    selectSuper dev (vol.disk.write (nextSuperIndex vol.fs) content) = .ok vol.newest ↔
      (vol.newest = none → accepted dev vol.disk (1 - nextSuperIndex vol.fs) = false) := by
  have bound := nextSuperIndex_lt vol.fs
  have rejected : useNewSuper dev content (nextSuperIndex vol.fs) none = false := by
    simp [useNewSuper, invalid]
  have ne : 1 - nextSuperIndex vol.fs ≠ nextSuperIndex vol.fs := by omega
  have readOther : vol.disk.write (nextSuperIndex vol.fs) content (1 - nextSuperIndex vol.fs) =
      vol.disk (1 - nextSuperIndex vol.fs) := by
    simp [SuperDisk.write, ne]
  have readTarget : vol.disk.write (nextSuperIndex vol.fs) content (nextSuperIndex vol.fs) =
      some content := by
    simp [SuperDisk.write]
  cases newest : vol.newest with
  | some block =>
    obtain ⟨index, super⟩ := block
    obtain ⟨indexBound, stored, usable⟩ := valid.stored index super newest
    have place := valid.newest_index newest
    have otherIndex : 1 - index = nextSuperIndex vol.fs := by omega
    have readSelf : vol.disk.write (nextSuperIndex vol.fs) content index = some super := by
      rw [place, readOther, ← place, stored]
    have readNext : vol.disk.write (nextSuperIndex vol.fs) content (1 - index) =
        some content := by
      rw [otherIndex, readTarget]
    rw [selectSuper_eq_some_iff dev _ indexBound readSelf usable readNext, otherIndex]
    simp [rejected]
  | none =>
    obtain ⟨other, otherStored⟩ := valid.reads (1 - nextSuperIndex vol.fs) (by omega)
    interval_cases target : nextSuperIndex vol.fs
    · rw [selectSuper_eq_none_iff dev _ readTarget (readOther.trans otherStored)]
      simp [accepted, readTarget, readOther, rejected]
    · rw [selectSuper_eq_none_iff dev _ (readOther.trans otherStored) readTarget]
      simp [accepted, readTarget, readOther, rejected]

/-- After the stop the right block is selected when the volume was settled
before, or is settled by the commit that was interrupted. -/
theorem selectSuper_tear_iff (roots : Roots) (tear : Tear dev) :
    selectSuper dev (tear.disk vol roots) = .ok (tear.expected vol roots).newest ↔
      match tear with
      | .old => vol.Settled
      | .complete => (vol.commit roots).Settled
      | .rejected _ _ =>
        vol.newest = none → accepted dev vol.disk (1 - nextSuperIndex vol.fs) = false := by
  cases tear with
  | old =>
    change _ ↔ vol.Settled
    rw [Settled, valid.dev_eq]
    rfl
  | complete =>
    change _ ↔ (vol.commit roots).Settled
    rw [Settled, (valid.commit roots).dev_eq]
    rfl
  | rejected content invalid => exact selectSuper_rejected_iff valid invalid

theorem tear_expected_valid (roots : Roots) (tear : Tear dev) :
    (tear.expected vol roots).Valid dev superDev := by
  cases tear with
  | complete => exact valid.commit roots
  | old => exact valid
  | rejected content invalid => exact valid

end

theorem Settled.tear (settled : vol.Settled) (valid : vol.Valid dev superDev) (roots : Roots)
    (tear : Tear dev) :
    selectSuper dev (tear.disk vol roots) = .ok (tear.expected vol roots).newest := by
  refine (selectSuper_tear_iff valid roots tear).mpr ?_
  cases tear with
  | old => exact settled
  | complete => exact settled.commit valid roots
  | rejected content invalid => exact settled.rejected valid

/-- The first commit after a clear settles the volume unless a block of the
cleared file system is ahead of it. -/
theorem first_commit_settled_iff (valid : vol.Valid dev superDev) (roots : Roots) :
    (vol.commit roots).Settled ↔
      ¬ StaleAhead dev vol.disk vol.fs.superBlockVersion := by
  rw [commit_settled_iff valid roots, one_sub_nextSuperIndex]
  simp [StaleAhead]

/-- Recovery after a clear, by the number of commits that followed it. -/
theorem cleared_tear_iff (valid : vol.Valid dev superDev) (cleared : vol.newest = none)
    (commits : List Roots) (next : Roots) (tear : Tear dev) :
    selectSuper dev (tear.disk (vol.commitAll commits) next) =
        .ok (tear.expected (vol.commitAll commits) next).newest ↔
      ¬ StaleWins vol.disk vol.fs.superBlockVersion commits.length tear := by
  match commits with
  | [] =>
    refine (selectSuper_tear_iff valid next tear).trans ?_
    cases tear with
    | old =>
      change vol.Settled ↔ _
      rw [settled_iff_rejected valid cleared]
      simp [StaleWins]
    | complete => exact first_commit_settled_iff valid next
    | rejected content invalid => simp [StaleWins, cleared, one_sub_nextSuperIndex]
  | [only] =>
    refine (selectSuper_tear_iff (valid.commit only) next tear).trans ?_
    cases tear with
    | old => exact first_commit_settled_iff valid only
    | complete =>
      simp [commit_settled_of_newest (valid.commit only) next rfl, StaleWins]
    | rejected content invalid =>
      simp [StaleWins, Volume.commit]
  | first :: second :: rest =>
    have settled := commitAll_settled_of_two valid first second rest
    have selected := settled.tear (commitAll_valid valid _) next tear
    cases tear <;> simpa [StaleWins] using selected

end Volume

/-- Any number of commits after any mount, then a stop while the next super
block is written: the next mount finds the last commit, or the interrupted one
if its block is complete, unless the mount had cleared a file system one of
whose super blocks still wins. -/
theorem superBlock_recovery_iff {version later : Nat} {dev superDev : BlockDevice}
    {shared : Bool} {disk : SuperDisk} {clear : Bool} {vol : Volume}
    (mounted : mount version dev superDev shared disk clear = .ok vol)
    (commits : List Roots) (next : Roots) (tear : Tear dev) :
    Recovers later dev superDev shared (tear.disk (vol.commitAll commits) next)
        (tear.expected (vol.commitAll commits) next).newest
        (tear.expected (vol.commitAll commits) next).roots ↔
      ¬ (clear = true ∧ StaleWins disk version commits.length tear) := by
  obtain ⟨_, initialised, _⟩ := mount_ok mounted
  obtain ⟨valid, diskEq, versionEq, clearedEq, settled⟩ := mount_valid mounted
  have usable := (fsInit_ok initialised).1
  have after := Volume.commitAll_valid valid commits
  rw [(Volume.tear_expected_valid after next tear).recovers_iff usable]
  cases clear with
  | false =>
    have selected := ((settled rfl).commitAll valid commits).tear after next tear
    simp [selected]
  | true =>
    have cleared := clearedEq rfl
    rw [Volume.cleared_tear_iff valid cleared commits next tear, diskEq, versionEq cleared]
    simp

/-- Completed commits after a mount that cleared the file system: the next
mount finds the last of them, unless it is the only one and super block 0 of
the cleared file system has version 2. -/
theorem cleared_recovery_iff {later : Nat} {dev superDev : BlockDevice}
    {shared : Bool} {disk : SuperDisk} {vol : Volume}
    (mounted : mount 0 dev superDev shared disk true = .ok vol)
    (commits : List Roots) (committed : commits ≠ []) :
    Recovers later dev superDev shared (vol.commitAll commits).disk
        (vol.commitAll commits).newest (vol.commitAll commits).roots ↔
      ¬ (commits.length = 1 ∧ ∃ stale, disk 0 = some stale ∧
        useNewSuper dev stale 0 none = true ∧ stale.flags % 4 = 2) := by
  obtain ⟨_, initialised, _⟩ := mount_ok mounted
  obtain ⟨valid, diskEq, versionEq, clearedEq, _⟩ := mount_valid mounted
  have after := Volume.commitAll_valid valid commits
  rw [after.recovers_iff (fsInit_ok initialised).1]
  have ahead : StaleAhead dev disk 0 ↔ ∃ stale, disk 0 = some stale ∧
      useNewSuper dev stale 0 none = true ∧ stale.flags % 4 = 2 := by
    refine exists_congr fun stale => and_congr_right fun _ => and_congr_right fun usable => ?_
    have even := ((useNewSuper_none_iff dev stale 0).mp usable).2
    omega
  match commits with
  | [only] =>
    have settled := Volume.first_commit_settled_iff valid only
    rw [Volume.Settled, (valid.commit only).dev_eq, diskEq, versionEq (clearedEq rfl),
      ahead] at settled
    have single : vol.commitAll [only] = vol.commit only := rfl
    simpa only [single, List.length_singleton, true_and] using settled
  | first :: second :: rest =>
    have settled := Volume.commitAll_settled_of_two valid first second rest
    rw [Volume.Settled, after.dev_eq] at settled
    simpa using settled

/-! ## A cleared file system that comes back -/

/-- The main file system: data in a file of the non-secure system, super blocks
in two blocks of the rpmb partition. -/
def nsDevice : BlockDevice := ⟨1024, 2048, 8, 16, false, by decide⟩

def nsSuperDevice : BlockDevice := ⟨2, 512, 2, 2, true, by decide⟩

def blankVolume : Volume :=
  ⟨(Fs.unmounted 0 nsDevice nsSuperDevice false).fromSuper none,
    fun _ => some ⟨0, 0, 0, 0, 0, 0, 0, .clear, 0, .clear, 0⟩, none⟩

def sampleRoots (number : Nat) : Roots := ⟨⟨number, 0⟩, ⟨number + 1, 0⟩⟩

def usedVolume : Volume := blankVolume.commitAll [sampleRoots 10, sampleRoots 20]

def clearedVolume : Volume :=
  ⟨(Fs.unmounted 0 nsDevice nsSuperDevice false).fromSuper none, usedVolume.disk, none⟩

theorem blankVolume_mounts :
    mount 0 nsDevice nsSuperDevice false blankVolume.disk false = .ok blankVolume := rfl

theorem clearedVolume_mounts :
    mount 0 nsDevice nsSuperDevice false usedVolume.disk true = .ok clearedVolume := rfl

theorem superBlock_recovery_kept :
    mount 0 nsDevice nsSuperDevice false blankVolume.disk false = .ok blankVolume ∧
      Recovers 0 nsDevice nsSuperDevice false
        ((Tear.old : Tear nsDevice).disk usedVolume (sampleRoots 30))
        usedVolume.newest usedVolume.roots :=
  ⟨blankVolume_mounts, (superBlock_recovery_iff blankVolume_mounts
    [sampleRoots 10, sampleRoots 20] (sampleRoots 30) Tear.old).mpr (by simp)⟩

theorem cleared_recovery_two_commits :
    mount 0 nsDevice nsSuperDevice false usedVolume.disk true = .ok clearedVolume ∧
      Recovers 0 nsDevice nsSuperDevice false
        (clearedVolume.commitAll [sampleRoots 30, sampleRoots 40]).disk
        (clearedVolume.commitAll [sampleRoots 30, sampleRoots 40]).newest
        (clearedVolume.commitAll [sampleRoots 30, sampleRoots 40]).roots :=
  ⟨clearedVolume_mounts, (cleared_recovery_iff clearedVolume_mounts
    [sampleRoots 30, sampleRoots 40] (by decide)).mpr (by simp)⟩

theorem clearedVolume_not_recovered :
    ¬ Recovers 0 nsDevice nsSuperDevice false (clearedVolume.commitAll [sampleRoots 30]).disk
        (clearedVolume.commitAll [sampleRoots 30]).newest
        (clearedVolume.commitAll [sampleRoots 30]).roots := by
  rintro ⟨_, _, selected, _⟩
  exact absurd (Except.ok.inj selected) (by decide)

theorem cleared_recovery_fails :
    mount 0 nsDevice nsSuperDevice false blankVolume.disk false = .ok blankVolume ∧
      mount 0 nsDevice nsSuperDevice false usedVolume.disk true = .ok clearedVolume ∧
      ¬ Recovers 0 nsDevice nsSuperDevice false (clearedVolume.commitAll [sampleRoots 30]).disk
        (clearedVolume.commitAll [sampleRoots 30]).newest
        (clearedVolume.commitAll [sampleRoots 30]).roots :=
  ⟨blankVolume_mounts, clearedVolume_mounts, clearedVolume_not_recovered⟩

theorem superBlock_recovery_fails :
    mount 0 nsDevice nsSuperDevice false usedVolume.disk true = .ok clearedVolume ∧
      ¬ Recovers 0 nsDevice nsSuperDevice false
        ((Tear.old : Tear nsDevice).disk (clearedVolume.commitAll [sampleRoots 30])
          (sampleRoots 40))
        ((Tear.old : Tear nsDevice).expected (clearedVolume.commitAll [sampleRoots 30])
          (sampleRoots 40)).newest
        ((Tear.old : Tear nsDevice).expected (clearedVolume.commitAll [sampleRoots 30])
          (sampleRoots 40)).roots :=
  ⟨clearedVolume_mounts, clearedVolume_not_recovered⟩

end Trusty.Storage
