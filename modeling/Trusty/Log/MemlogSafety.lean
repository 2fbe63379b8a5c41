import Trusty.Log.Memlog

/-!
Which calls keep the stores of the logs inside their buffers, and the buffers apart.
-/

namespace Trusty.Log

open Lib Kernel Sm Dialog List BitVec

section Mapping

variable {arch : Arch} {pa sz : arch.Word}

theorem toNat_mb_sub_one (arch : Arch) : ((mb : arch.Word) - 1).toNat = 2 ^ 20 - 1 := by
  obtain ⟨bits, rfl | rfl⟩ := arch <;> rfl

theorem toNat_mapOffset (pa : arch.Word) : (mapOffset pa).toNat = pa.toNat % 2 ^ 20 := by
  unfold mapOffset
  rw [toNat_and, toNat_mb_sub_one, Nat.and_two_pow_sub_one_eq_mod]

theorem toNat_phys (pa : arch.Word) : (pa &&& ~~~(mb - 1)).toNat = pa.toNat / 2 ^ 20 * 2 ^ 20 := by
  rw [toNat_and_not, toNat_mb_sub_one, Nat.and_two_pow_sub_one_eq_mod]
  exact Nat.sub_eq_of_eq_add (Nat.div_add_mod' _ _).symm

theorem phys_add_mapOffset (pa : arch.Word) : (pa &&& ~~~(mb - 1)) + mapOffset pa = pa := by
  rw [and_not_eq_sub, mapOffset, BitVec.sub_add_cancel]

theorem toNat_mapSize (pa sz : arch.Word) : (mapSize pa sz).toNat =
    ((sz.toNat + pa.toNat % 2 ^ 20) % 2 ^ arch.bits + (2 ^ 20 - 1)) % 2 ^ arch.bits / 2 ^
      20 * 2 ^ 20 := by
  unfold mapSize
  rw [toNat_roundup_mask (toNat_mb_sub_one arch), toNat_add, toNat_mapOffset]

/-- The size that is mapped does not wrap around. -/
def Rounds (pa sz : arch.Word) : Prop :=
  sz.toNat + pa.toNat % 2 ^ 20 + (2 ^ 20 - 1) < 2 ^ arch.bits

theorem le_mapSize (rounds : Rounds pa sz) :
    sz.toNat + pa.toNat % 2 ^ 20 ≤ (mapSize pa sz).toNat := by
  unfold Rounds at rounds
  rw [toNat_mapSize, Nat.mod_eq_of_lt (show sz.toNat + pa.toNat % 2 ^ 20 < 2 ^ arch.bits by omega),
    Nat.mod_eq_of_lt rounds]
  omega

/-- If it wraps around, at most one megabyte is mapped of almost 4 gigabytes. -/
theorem mapSize_le (wraps : ¬ Rounds pa sz) (small : sz.toNat < 2 ^ 32) :
    (mapSize pa sz).toNat ≤ 2 ^ 20 ∧ 2 ^ 32 - 2 ^ 21 ≤ sz.toNat := by
  unfold Rounds at wraps
  rw [toNat_mapSize]
  obtain ⟨bits, rfl | rfl⟩ := arch
  · dsimp only at wraps ⊢
    omega
  · dsimp only at wraps ⊢
    omega

theorem mapRb_eq (pa sz va : arch.Word) (spot : Option (Spot arch)) :
    mapRb pa sz va spot =
      if mapSize pa sz = 0 then (noError, va + mapOffset pa, none)
      else
        match spot with
        | none => (errNoMemory, va, none)
        | some place => (noError, place.base + mapOffset pa,
            some ⟨⟨place.base, (mapSize pa sz).toNat, (mapSize pa sz).isLt⟩,
              pa &&& ~~~(mb - 1)⟩) := by
  have aligned :
      ¬ ((pa &&& ~~~(mb - 1)).toNat % pageSize ≠ 0 ∨ (mapSize pa sz).toNat % pageSize ≠ 0) := by
    rw [toNat_phys, toNat_mapSize, show pageSize = 2 ^ 12 from rfl]
    omega
  unfold mapRb vmmAllocPhysical
  by_cases empty : mapSize pa sz = 0
  · simp only [if_pos empty]
    rfl
  · simp only [if_neg empty, if_neg aligned]
    cases spot <;> rfl

end Mapping

/-! ### Adding a log -/

section Added

variable {arch : Arch} {logs : List (Memlog arch)} {pa sz : arch.Word} {given : Given arch}

/-- `memlog_add` is not refused: the overlap test lets it pass, there is memory for the
record and, unless nothing is mapped, a place for the mapping. -/
def Registers (logs : List (Memlog arch)) (pa sz : arch.Word) (given : Given arch) : Prop :=
  memlogIsMemRegistered logs pa sz = false ∧ given.memory = true ∧
    (mapSize pa sz = 0 ∨ given.spot ≠ none)

def added (pa sz : arch.Word) (given : Given arch) : Memlog arch :=
  let mapped := mapRb pa sz given.va given.spot
  ⟨mapped.2.1, (lowerPow2 ((sz - dataField).setWidth 32) given.undefined).setWidth arch.bits, pa,
    sz, mapped.2.2⟩

theorem mapRb_ok (room : mapSize pa sz = 0 ∨ given.spot ≠ none) :
    (mapRb pa sz given.va given.spot).1 = noError := by
  rw [mapRb_eq]
  by_cases empty : mapSize pa sz = 0
  · rw [if_pos empty]
  · rw [if_neg empty]
    obtain ⟨place, found⟩ := Option.ne_none_iff_exists'.mp (room.resolve_left empty)
    rw [found]

theorem memlogAdd_registers (registers : Registers logs pa sz given) :
    memlogAdd logs pa sz given = (do
      store32 (added pa sz given) szField (lowerPow2 ((sz - dataField).setWidth 32) given.undefined)
      store32 (added pa sz given) allocField 0
      store32 (added pa sz given) putField 0
      pure (0, added pa sz given :: logs)) := by
  obtain ⟨fresh, room, place⟩ := registers
  unfold memlogAdd
  rw [if_neg (by rw [fresh]; exact Bool.false_ne_true), if_neg (not_not_intro room)]
  dsimp only
  rw [if_neg (not_not_intro (mapRb_ok place))]
  rfl

theorem memlogAdd_refuses (refuses : ¬ Registers logs pa sz given) :
    ∃ code ≠ 0, memlogAdd logs pa sz given = pure (code, logs) := by
  unfold memlogAdd
  by_cases present : memlogIsMemRegistered logs pa sz = true
  · exact ⟨_, by decide, if_pos present⟩
  rw [if_neg present]
  by_cases room : given.memory = true
  · have place : ¬ (mapSize pa sz = 0 ∨ given.spot ≠ none) := by
      intro place
      exact refuses ⟨Bool.eq_false_iff.mpr present, room, place⟩
    push Not at place
    have failed : mapRb pa sz given.va given.spot = (errNoMemory, given.va, none) := by
      rw [mapRb_eq, if_neg place.1, place.2]
    rw [if_neg (not_not_intro room), failed]
    exact ⟨_, by decide, if_pos (by decide)⟩
  · exact ⟨_, by decide, if_pos room⟩

theorem lands_added_iff (room : mapSize pa sz = 0 ∨ given.spot ≠ none)
    (field : arch.Word) {size : Nat} (nonempty : size ≠ 0) :
    (added pa sz given).Lands ((added pa sz given).rb + field) size ↔
      (mapOffset pa + field).toNat + size ≤ (mapSize pa sz).toNat ∧
      field.toNat + size ≤ sz.toNat := by
  unfold Memlog.Lands added
  rw [mapRb_eq]
  by_cases empty : mapSize pa sz = 0
  · rw [if_pos empty, empty]
    constructor
    · rintro ⟨_, contra, _⟩
      cases contra
    · rintro ⟨fits, _⟩
      rw [show (0 : arch.Word).toNat = 0 from toNat_zero] at fits
      omega
  · obtain ⟨place, found⟩ := Option.ne_none_iff_exists'.mp (room.resolve_left empty)
    have inside : place.base + mapOffset pa + field - place.base = mapOffset pa + field := by
      rw [BitVec.add_assoc, BitVec.add_comm, BitVec.add_sub_cancel]
    have seen : (pa &&& ~~~(mb - 1)) + (mapOffset pa + field) - pa = field := by
      rw [← BitVec.add_assoc, phys_add_mapOffset, BitVec.add_comm, BitVec.add_sub_cancel]
    rw [if_neg empty, found]
    simp only [Option.some.injEq, exists_eq_left', Window.covers_iff, inside, seen,
      nonempty, false_or]

theorem lands_added (room : mapSize pa sz = 0 ∨ given.spot ≠ none) (rounds : Rounds pa sz)
    {field : arch.Word} {size : Nat} (nonempty : size ≠ 0)
    (within : field.toNat + size ≤ sz.toNat) :
    (added pa sz given).Lands ((added pa sz given).rb + field) size := by
  rw [lands_added_iff room field nonempty]
  have mapped := le_mapSize rounds
  have sum : (mapOffset pa + field).toNat ≤ pa.toNat % 2 ^ 20 + field.toNat := by
    rw [toNat_add, toNat_mapOffset]
    exact Nat.mod_le _ _
  omega

end Added

/-! ### Writing to a log -/

section Write

variable {arch : Arch} {log : Memlog arch}

theorem toNat_dataField (arch : Arch) : (dataField : arch.Word).toNat = 12 := by
  obtain ⟨bits, rfl | rfl⟩ := arch <;> rfl

theorem toNat_rbSz_sub_one (nonempty : 0 < log.rbSz.toNat) :
    (log.rbSz - 1).toNat = log.rbSz.toNat - 1 := by
  have one : (1 : arch.Word).toNat = 1 := (toNat_ofNat 1 arch.bits).trans (one_mod_word arch)
  have least : 1 ≤ log.rbSz := by
    rw [le_def, one]
    exact nonempty
  rw [toNat_sub_of_le least, one]

theorem toNat_dataOffset_lt (nonempty : 0 < log.rbSz.toNat) (logOffset : BitVec 32) (i : Nat) :
    (dataOffset log logOffset i).toNat < log.rbSz.toNat := by
  have bound : (dataOffset log logOffset i).toNat ≤ (log.rbSz - 1).toNat := by
    unfold dataOffset
    rw [toNat_setWidth, toNat_and]
    exact (Nat.mod_le _ _).trans Nat.and_le_right
  rw [toNat_rbSz_sub_one nonempty] at bound
  omega

/-- The last place of the data can be the first that is written. -/
theorem toNat_dataOffset_self (nonempty : 0 < log.rbSz.toNat) {logOffset : BitVec 32}
    (last : logOffset.toNat = log.rbSz.toNat - 1) :
    (dataOffset log logOffset 0).toNat = logOffset.toNat := by
  unfold dataOffset
  rw [BitVec.add_zero, toNat_setWidth, toNat_and, toNat_setWidth_word,
    toNat_rbSz_sub_one nonempty, ← last, Nat.and_self]
  exact Nat.mod_eq_of_lt logOffset.isLt

theorem toNat_dataField_add {offset : BitVec 32} (small : offset.toNat < 2 ^ 32 - 12) :
    (dataField + offset.setWidth arch.bits : arch.Word).toNat = 12 + offset.toNat := by
  rw [toNat_add, toNat_dataField, toNat_setWidth_word]
  have large := word_cases arch
  exact Nat.mod_eq_of_lt (by omega)

@[simp]
theorem ensures_load32 (field : arch.Word) (state : PUnit) (post : BitVec 32 → PUnit → Prop) :
    ensures memory (load32 log field) state post ↔ ∀ value, post value ⟨⟩ :=
  (@ensures_perform _ LogOp.Ans _ memory state (LogOp.load32 log (log.rb + field)) post).trans
    ⟨fun holds value => holds.2 value ⟨⟩ trivial, fun holds =>
      ⟨trivial, fun value _ _ => holds value⟩⟩

@[simp]
theorem ensures_store32 (field : arch.Word) (value : BitVec 32) (state : PUnit)
    (post : PUnit → PUnit → Prop) :
    ensures memory (store32 log field value) state post ↔
      log.Lands (log.rb + field) 4 ∧ post ⟨⟩ ⟨⟩ :=
  (@ensures_perform _ LogOp.Ans _ memory state
    (LogOp.store32 log (log.rb + field) value) post).trans
    ⟨fun holds => ⟨holds.1, holds.2 ⟨⟩ ⟨⟩ trivial⟩, fun holds => ⟨holds.1, fun _ _ _ => holds.2⟩⟩

@[simp]
theorem ensures_store8 (field : arch.Word) (value : BitVec 8) (state : PUnit)
    (post : PUnit → PUnit → Prop) :
    ensures memory (store8 log field value) state post ↔
      log.Lands (log.rb + field) 1 ∧ post ⟨⟩ ⟨⟩ :=
  (@ensures_perform _ LogOp.Ans _ memory state (LogOp.store8 log (log.rb + field) value) post).trans
    ⟨fun holds => ⟨holds.1, holds.2 ⟨⟩ ⟨⟩ trivial⟩, fun holds => ⟨holds.1, fun _ _ _ => holds.2⟩⟩

theorem exec_store32 {α : Type} {field : arch.Word} {value : BitVec 32}
    {next : PUnit → LogDialog arch α} {ending : Ending α} (lands : log.Lands (log.rb + field) 4)
    (rest : Exec memory (next ⟨⟩) ⟨⟩ ending ⟨⟩) :
    Exec memory (store32 log field value >>= next) ⟨⟩ ending ⟨⟩ :=
  @Exec.ask _ LogOp.Ans _ _ memory (.store32 log (log.rb + field) value) _ ⟨⟩ ⟨⟩ ⟨⟩
    ⟨⟩ ending lands trivial rest

/-- All stores of `__memlog_write` go into the buffer. -/
structure Writable (log : Memlog arch) : Prop where
  alloc : log.Lands (log.rb + allocField) 4
  put : log.Lands (log.rb + putField) 4
  data :
    ∀ logOffset i, log.Lands
      (log.rb + (dataField + (dataOffset log logOffset i).setWidth arch.bits)) 1

theorem Writable.chunk (writable : Writable log) (str : List (BitVec 8)) :
    ensures memory (memlogWriteChunk log str) ⟨⟩ fun _ _ => True := by
  simp only [memlogWriteChunk, ensures_bind, ensures_load32, ensures_store32]
  refine fun logOffset _ => ⟨writable.alloc, ?_⟩
  refine ensures_mono (ensures_forM (fun _ => True) ?_ trivial) fun _ _ _ _ =>
    ⟨writable.put, trivial⟩
  rintro ⟨char, i⟩ _ _ _
  rw [ensures_store8]
  exact ⟨writable.data logOffset i, trivial⟩

theorem Writable.write (writable : Writable log) (str : List (BitVec 8)) :
    ensures memory (memlogWrite log str) ⟨⟩ fun _ _ => True := by
  simp only [memlogWrite, ensures_bind]
  refine ensures_mono (ensures_forM (fun _ => True) (fun i _ _ _ => writable.chunk _) trivial) ?_
  intro _ _ _
  rw [ensures_ite]
  exact ⟨fun _ => writable.chunk _, fun _ => (ensures_pure _).mpr trivial⟩

/-- The non-secure side chooses where in the data the first byte goes. -/
theorem data_lands_of_write {char : BitVec 8}
    (safe : ensures memory (memlogWrite log [char]) ⟨⟩ fun _ _ => True) (logOffset : BitVec 32) :
    log.Lands (log.rb + (dataField + (dataOffset log logOffset 0).setWidth arch.bits)) 1 := by
  have chunk : ensures memory (memlogWriteChunk log [char]) ⟨⟩ fun _ _ => True := by
    simpa [memlogWrite, chunkSize, List.forM] using safe
  simp only [memlogWriteChunk, ensures_bind, ensures_load32, ensures_store32, zipIdx_cons,
    zipIdx_nil, List.forM, ensures_store8] at chunk
  exact (chunk logOffset 0).2.1

end Write

/-! ### Which logs are safe -/

section Sound

variable {arch : Arch} {logs : List (Memlog arch)} {pa sz : arch.Word} {given : Given arch}

theorem toNat_dataSize (data : 13 ≤ sz.toNat) (small : sz.toNat < 2 ^ 32) :
    ((sz - dataField).setWidth 32).toNat = sz.toNat - 12 := by
  have header : dataField ≤ sz := by
    rw [le_def, toNat_dataField]
    omega
  rw [toNat_setWidth, toNat_sub_of_le header, toNat_dataField]
  exact Nat.mod_eq_of_lt (by omega)

theorem toNat_rbSz_added (pa : arch.Word) (given : Given arch) (data : 13 ≤ sz.toNat)
    (small : sz.toNat < 2 ^ 32) : (added pa sz given).rbSz.toNat = 2 ^ (sz.toNat - 12).log2 := by
  have size := toNat_dataSize data small
  have nonzero : (sz - dataField).setWidth 32 ≠ 0 := by
    intro zero
    rw [zero, show (0 : BitVec 32).toNat = 0 from rfl] at size
    omega
  have below : 2 ^ (sz.toNat - 12).log2 ≤ sz.toNat - 12 := Nat.log2_self_le (by omega)
  unfold added lowerPow2
  rw [if_neg nonzero, size, toNat_setWidth_word, toNat_ofNat]
  exact Nat.mod_eq_of_lt (by omega)

section

variable (room : mapSize pa sz = 0 ∨ given.spot ≠ none)

include room

theorem writable_added (rounds : Rounds pa sz) (data : 13 ≤ sz.toNat) (small : sz.toNat < 2 ^ 32) :
    Writable (added pa sz given) := by
  have fields : (allocField : arch.Word).toNat = 0 ∧ (putField : arch.Word).toNat = 4 := by
    obtain ⟨bits, rfl | rfl⟩ := arch <;> exact ⟨rfl, rfl⟩
  constructor
  case alloc => exact lands_added room rounds (by decide) (by omega)
  case put => exact lands_added room rounds (by decide) (by omega)
  case data =>
    intro logOffset i
    apply lands_added room rounds (by decide)
    have ring := toNat_rbSz_added pa given data small
    have below : 2 ^ (sz.toNat - 12).log2 ≤ sz.toNat - 12 := Nat.log2_self_le (by omega)
    have offset := toNat_dataOffset_lt (ring ▸ Nat.two_pow_pos _) logOffset i
    rw [toNat_dataField_add (by omega)]
    omega

/-- The first byte of the data is outside a buffer of 12 bytes. -/
theorem data_of_write
    (safe : ensures memory (memlogWrite (added pa sz given) [0]) ⟨⟩ fun _ _ => True) :
    13 ≤ sz.toNat := by
  have landed := data_lands_of_write safe 0
  have first : dataOffset (added pa sz given) 0 0 = 0 := by
    simp [dataOffset]
  rw [first, lands_added_iff room _ (by decide), toNat_dataField_add (by decide)] at landed
  exact landed.2

/-- The last byte of the data is outside a mapping whose size wrapped around. -/
theorem rounds_of_write (data : 13 ≤ sz.toNat) (small : sz.toNat < 2 ^ 32)
    (safe : ensures memory (memlogWrite (added pa sz given) [0]) ⟨⟩ fun _ _ => True) :
    Rounds pa sz := by
  by_contra wraps
  obtain ⟨little, huge⟩ := mapSize_le wraps small
  have top : (sz.toNat - 12).log2 = 31 := by
    rw [Nat.log2_eq_iff (by omega)]
    omega
  have ring := toNat_rbSz_added pa given data small
  rw [top] at ring
  have landed := data_lands_of_write safe (BitVec.ofNat 32 (2 ^ 31 - 1))
  have last :
      (dataOffset (added pa sz given) (BitVec.ofNat 32 (2 ^ 31 - 1)) 0).toNat = 2 ^ 31 - 1 :=
    toNat_dataOffset_self (by omega) (by rw [ring]; rfl)
  rw [lands_added_iff room _ (by decide), toNat_add, toNat_mapOffset,
    toNat_dataField_add (by omega), last] at landed
  rw [Nat.mod_eq_of_lt (by omega)] at landed
  omega

end

/-- The buffer holds the header and some data, its mapping and its addresses do not wrap
around, and next to a buffer at the top of the address space there is no overlap. -/
structure Sound (logs : List (Memlog arch)) (pa sz : arch.Word) : Prop where
  data : 13 ≤ sz.toNat
  rounds : Rounds pa sz
  bounded : pa.toNat + sz.toNat ≤ 2 ^ arch.bits
  top : ∀ log ∈ logs,
    pa.toNat + sz.toNat = 2 ^ arch.bits ∨ log.bufPa.toNat + log.bufSz.toNat = 2 ^ arch.bits →
      pa.toNat + sz.toNat ≤ log.bufPa.toNat ∨ log.bufPa.toNat + log.bufSz.toNat ≤ pa.toNat

/-- Away from the top of the address space the overlap test is right. -/
theorem Sound.apart (sound : Sound logs pa sz) (ok : LogsOk logs)
    (fresh : memlogIsMemRegistered logs pa sz = false) :
    ∀ log ∈ logs, Apart (added pa sz given) log := by
  intro log member
  by_cases ends : pa.toNat + sz.toNat = 2 ^ arch.bits ∨
    log.bufPa.toNat + log.bufSz.toNat = 2 ^ arch.bits
  · exact sound.top log member ends
  have newEnd := sound.bounded
  have oldEnd := ok.bounded log member
  have newSum : (pa + sz).toNat = pa.toNat + sz.toNat := by
    exact Nat.mod_eq_of_lt (by omega)
  have oldSum : (log.bufPa + log.bufSz).toNat = log.bufPa.toNat + log.bufSz.toNat := by
    exact Nat.mod_eq_of_lt (by omega)
  have passed := any_eq_false.mp fresh log member
  rw [decide_eq_true_eq, le_def, le_def, newSum, oldSum] at passed
  change pa.toNat + sz.toNat ≤ log.bufPa.toNat ∨ log.bufPa.toNat + log.bufSz.toNat ≤ pa.toNat
  omega

theorem logsOk_added (ok : LogsOk logs) (registers : Registers logs pa sz given)
    (sound : Sound logs pa sz) (small : sz.toNat < 2 ^ 32) :
    LogsOk (added pa sz given :: logs) := by
  have writable := writable_added registers.2.2 sound.rounds sound.data small
  constructor
  case stores => exact forall_mem_cons.mpr ⟨writable.write, ok.stores⟩
  case bounded => exact forall_mem_cons.mpr ⟨sound.bounded, ok.bounded⟩
  case apart => exact pairwise_cons.mpr ⟨sound.apart ok registers.1, ok.apart⟩

theorem sound_of_added (room : mapSize pa sz = 0 ∨ given.spot ≠ none) (small : sz.toNat < 2 ^ 32)
    (ok : LogsOk (added pa sz given :: logs)) : Sound logs pa sz := by
  have write := ok.stores _ mem_cons_self [0]
  have data := data_of_write room write
  exact ⟨data, rounds_of_write room data small write, ok.bounded _ mem_cons_self,
    fun log member _ => rel_of_pairwise_cons ok.apart member⟩

theorem sz_lands (room : mapSize pa sz = 0 ∨ given.spot ≠ none) (sound : Sound logs pa sz) :
    (added pa sz given).Lands ((added pa sz given).rb + szField) 4 := by
  apply lands_added room sound.rounds (by decide)
  have field : (szField : arch.Word).toNat = 8 := by
    obtain ⟨bits, rfl | rfl⟩ := arch <;> rfl
  have data := sound.data
  omega

theorem memlogAdd_returns (registers : Registers logs pa sz given) (sound : Sound logs pa sz)
    (small : sz.toNat < 2 ^ 32) :
    Exec memory (memlogAdd logs pa sz given) ⟨⟩ (.returned (0, added pa sz given :: logs)) ⟨⟩ := by
  have writable := writable_added registers.2.2 sound.rounds sound.data small
  rw [memlogAdd_registers registers]
  apply exec_store32 (sz_lands registers.2.2 sound)
  apply exec_store32 writable.alloc
  apply exec_store32 writable.put
  exact .done _ _

/-- The registered logs are as they should be, and a successful `memlog_add` has put one
for the given buffer in front of them. -/
structure AddOk (logs : List (Memlog arch)) (pa sz : arch.Word)
    (result : Int × List (Memlog arch)) : Prop where
  ok : LogsOk result.2
  front : result.1 = 0 → ∃ log, result.2 = log :: logs ∧ log.bufPa = pa ∧ log.bufSz = sz

theorem memlogAdd_safe_iff (ok : LogsOk logs) (small : sz.toNat < 2 ^ 32) :
    ensures memory (memlogAdd logs pa sz given) ⟨⟩ (fun result _ => AddOk logs pa sz result) ↔
      (Registers logs pa sz given → Sound logs pa sz) := by
  by_cases registers : Registers logs pa sz given
  · rw [memlogAdd_registers registers]
    simp only [ensures_bind, ensures_store32, ensures_pure]
    constructor
    · rintro ⟨_, _, _, after⟩ _
      exact sound_of_added registers.2.2 small after.ok
    · intro sound
      have sound := sound registers
      have writable := writable_added registers.2.2 sound.rounds sound.data small
      exact ⟨sz_lands registers.2.2 sound, writable.alloc, writable.put,
        logsOk_added ok registers sound small, fun _ => ⟨_, rfl, rfl, rfl⟩⟩
  · obtain ⟨code, failed, refused⟩ := memlogAdd_refuses registers
    rw [refused, ensures_pure]
    exact ⟨fun _ contra => absurd contra registers, fun _ => ⟨ok, fun zero => absurd zero failed⟩⟩

theorem logsOk_nil : LogsOk ([] : List (Memlog arch)) :=
  ⟨by simp, by simp, .nil⟩

theorem LogsOk.rm (ok : LogsOk logs) (pa : arch.Word) (given : Given arch) :
    LogsOk (memlogRm logs pa given).2 := by
  unfold memlogRm
  split
  · exact ok
  · have fewer : (logs.eraseP fun log => log.bufPa = pa).Sublist logs := eraseP_sublist
    exact ⟨fun log member => ok.stores log (fewer.subset member), fun log member =>
      ok.bounded log (fewer.subset member), ok.apart.sublist fewer⟩

end Sound

/-! ### Runs -/

section Runs

variable {arch : Arch} {logs : List (Memlog arch)}

/-- A call that adds a log, if it is not refused, adds a sound one. -/
def Favourable (logs : List (Memlog arch)) (args : Smc32Args) (given : Given arch) : Prop :=
  args.smcNr = smcScSharedLogAdd →
    Registers logs ((argsGetPa args).setWidth arch.bits) (argsGetSz args) given →
      Sound logs ((argsGetPa args).setWidth arch.bits) (argsGetSz args)

/-- The registered logs after favourable calls. -/
inductive Reach : List (Memlog arch) → Prop
  | boot : Reach []
  | call {logs next : List (Memlog arch)} {args : Smc32Args} {given : Given arch} {code : Int}
      (reach : Reach logs) (favourable : Favourable logs args given)
      (returned : Exec memory (memlogStdcall logs args given) ⟨⟩ (.returned (code, next)) ⟨⟩) :
      Reach next

/-- The registered logs are as they should be after a call, and a successful addition has
put one for the buffer of the call in front of them. -/
def CallOk (logs : List (Memlog arch)) (args : Smc32Args)
    (result : Int × List (Memlog arch)) : Prop :=
  LogsOk result.2 ∧ (args.smcNr = smcScSharedLogAdd →
    AddOk logs ((argsGetPa args).setWidth arch.bits) (argsGetSz args) result)

theorem memlogStdcall_safe_iff (ok : LogsOk logs) (args : Smc32Args) (given : Given arch) :
    ensures memory (memlogStdcall logs args given) ⟨⟩ (fun result _ => CallOk logs args result) ↔
      Favourable logs args given := by
  have small : (argsGetSz args : arch.Word).toNat < 2 ^ 32 := by
    unfold argsGetSz
    rw [toNat_setWidth_word]
    exact (args.params 2).isLt
  unfold Favourable memlogStdcall CallOk
  by_cases add : args.smcNr = smcScSharedLogAdd
  · have other : ¬ args.smcNr = smcScSharedLogVersion := by
      rw [add]
      decide
    simp only [add, true_imp_iff]
    rw [← memlogAdd_safe_iff ok small]
    constructor
    · exact fun safe => ensures_mono safe fun _ _ both => both.2
    · exact fun safe => ensures_mono safe fun _ _ added => ⟨added.ok, added⟩
  · simp only [add, false_imp_iff, and_true, iff_true, if_false, ensures_ite, ensures_pure]
    exact ⟨fun _ => ok, fun _ => ⟨fun _ => ok.rm _ given, fun _ => ok⟩⟩

theorem Reach.logsOk (reach : Reach logs) : LogsOk logs := by
  induction reach with
  | boot => exact logsOk_nil
  | call reach favourable returned ih =>
    exact ((memlogStdcall_safe_iff ih _ _).mpr favourable _ _ returned).1

/-- After favourable calls every store of a registered log goes into its buffer, and the
buffers are apart and do not wrap around; one more call keeps this, with its own stores
inside the buffer, just if it is favourable. -/
theorem shared_logs_safe (reach : Reach logs) :
    LogsOk logs ∧ ∀ args given,
      ensures memory (memlogStdcall logs args given) ⟨⟩ (fun result _ => CallOk logs args result) ↔
        Favourable logs args given :=
  ⟨reach.logsOk, memlogStdcall_safe_iff reach.logsOk⟩

end Runs

/-! ### A log in a run, and one that is too small -/

def addCall (sz : BitVec 32) : Smc32Args :=
  ⟨smcScSharedLogAdd, fun index => if index.val = 2 then sz else 0⟩

def roomy :
    Given arm :=
      ⟨true, some ⟨0x100000#32, rfl, show (0x100000#32 : BitVec 32) ≠ 0 by decide⟩, 0, 0, noError⟩

theorem roomy_registers (sz : BitVec 32) : Registers [] (0 : arm.Word) sz roomy :=
  ⟨rfl, rfl, .inr (Option.some_ne_none _)⟩

theorem page_sound : Sound [] (0 : arm.Word) (0x1000#32 : arm.Word) :=
  ⟨by decide, by unfold Rounds; decide, by decide, fun _ contra => by cases contra⟩

theorem page_reached : Reach [added (0 : arm.Word) (0x1000#32 : arm.Word) roomy] :=
  @Reach.call arm [] _ (addCall 0x1000) roomy 0 .boot (fun _ _ => page_sound)
    (memlogAdd_returns (roomy_registers _) page_sound (by decide))

theorem shared_logs_safe_page : LogsOk [added (0 : arm.Word) (0x1000#32 : arm.Word) roomy] :=
  (shared_logs_safe page_reached).1

/-- A buffer of four bytes does not hold the header that is stored to it. -/
theorem tiny_log_unsafe : ¬ ensures memory (memlogStdcall [] (addCall 4) roomy) ⟨⟩
    fun result _ => CallOk [] (addCall 4) result := by
  intro safe
  have favourable := (memlogStdcall_safe_iff logsOk_nil (addCall 4) roomy).mp safe
  have sound := favourable rfl (roomy_registers 4)
  exact absurd sound.data (by decide)

end Trusty.Log
