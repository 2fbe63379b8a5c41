import Trusty.Log.MemlogSafety

/-!
What stands in the ring buffer of a log as long as the non-secure side only reads it.
-/

namespace Trusty.Log

open Lib Kernel Dialog Function List

section Memory

variable {arch : Arch}

/-- The value of four bytes, the lowest first. -/
def joinBytes (byte : Nat → BitVec 8) : BitVec 32 := byte 3 ++ byte 2 ++ byte 1 ++ byte 0

theorem joinBytes_congr {first second : Nat → BitVec 8}
    (same : ∀ more < 4, first more = second more) :
    joinBytes first = joinBytes second := by
  unfold joinBytes
  rw [same 3 (by decide), same 2 (by decide), same 1 (by decide), same 0 (by decide)]

theorem joinBytes_extractLsb (value : BitVec 32) :
    joinBytes (fun more => value.extractLsb' (8 * more) 8) = value := by
  ext i
  unfold joinBytes
  grind

def loadWord (bytes : arch.Word → BitVec 8) (addr : arch.Word) : BitVec 32 :=
  joinBytes fun more => bytes (addr + BitVec.ofNat arch.bits more)

def storeWord (bytes : arch.Word → BitVec 8) (addr : arch.Word) (value : BitVec 32) :
    arch.Word → BitVec 8 :=
  fun place => if (place - addr).toNat < 4 then value.extractLsb' (8 * (place - addr).toNat) 8
    else bytes place

/-- The memory, and how far `alloc` was ahead of `put` after each store. -/
structure Ram (arch : Arch) where
  bytes : arch.Word → BitVec 8
  gaps : List (BitVec 32)

section

variable (state : Ram arch) (log : Memlog arch)

def Ram.alloc : BitVec 32 := loadWord state.bytes (log.rb + allocField)

def Ram.put : BitVec 32 := loadWord state.bytes (log.rb + putField)

def Ram.data (index : Nat) : BitVec 8 :=
  state.bytes (log.rb + (dataField + BitVec.ofNat arch.bits index))

def Ram.stored (bytes : arch.Word → BitVec 8) : Ram arch :=
  ⟨bytes, state.gaps ++ [loadWord bytes (log.rb + allocField) - loadWord bytes (log.rb + putField)]⟩

end

/-- Memory that nobody else writes. -/
def ram (log : Memlog arch) (op : LogOp arch) (state : Ram arch) : op.Ans × Ram arch :=
  match op with
  | .load32 _ addr => (loadWord state.bytes addr, state)
  | .store32 _ addr value => (⟨⟩, state.stored log (storeWord state.bytes addr value))
  | .store8 _ addr value => (⟨⟩, state.stored log (update state.bytes addr value))

/-! ### The fields of the buffer -/

variable {log : Memlog arch} {bytes : arch.Word → BitVec 8}

/-- The address of a byte of `struct log_rb`. -/
def Memlog.byteAt (log : Memlog arch) (offset : Nat) : arch.Word :=
  log.rb + BitVec.ofNat arch.bits offset

variable {first second : Nat}

theorem byteAt_sub_near (firstSmall : first < 2 ^ 32 - 4) (secondSmall : second < 2 ^ 32 - 4)
    (apart : first < second ∨ second + 4 ≤ first) :
    ¬ (log.byteAt first - log.byteAt second).toNat < 4 := by
  have large := word_cases arch
  unfold Memlog.byteAt
  rw [add_sub_add_left_eq_sub, BitVec.toNat_sub, BitVec.toNat_ofNat, BitVec.toNat_ofNat]
  rcases large with large | large <;> rw [large] <;> omega

theorem byteAt_ne (firstSmall : first < 2 ^ 32) (secondSmall : second < 2 ^ 32)
    (ne : first ≠ second) :
    log.byteAt first ≠ log.byteAt second := by
  have large := word_cases arch
  intro same
  have equal := congrArg BitVec.toNat (add_left_cancel same)
  rw [BitVec.toNat_ofNat, BitVec.toNat_ofNat] at equal
  rcases large with large | large <;> rw [large] at equal <;> omega

theorem loadWord_congr {other : arch.Word → BitVec 8} {offset : Nat}
    (same : ∀ more < 4, bytes (log.byteAt (offset + more)) = other (log.byteAt (offset + more))) :
    loadWord bytes (log.byteAt offset) = loadWord other (log.byteAt offset) := by
  refine joinBytes_congr fun more small => ?_
  rw [Memlog.byteAt, BitVec.add_assoc, ← BitVec.ofNat_add]
  exact same more small

theorem loadWord_storeWord (addr : arch.Word) (value : BitVec 32) :
    loadWord (storeWord bytes addr value) addr = value := by
  have large := word_cases arch
  refine (joinBytes_congr fun more small => ?_).trans (joinBytes_extractLsb value)
  have distance : (addr + BitVec.ofNat arch.bits more - addr).toNat = more := by
    rw [add_sub_cancel_left, BitVec.toNat_ofNat]
    exact Nat.mod_eq_of_lt (by omega)
  rw [storeWord, distance, if_pos small]

end Memory

/-! ### Stores into the buffer -/

section Contents

variable {arch : Arch} {log : Memlog arch} {alloc put : Nat} {text str : List (BitVec 8)}
  {state : Ram arch}

/-- The size of the ring is a power of two, as `lower_pow2` makes it. -/
def Memlog.PowerSized (log : Memlog arch) : Prop := ∃ exponent < 32, log.rbSz.toNat = 2 ^ exponent

/-- The counters, and the end of a text in the ring. -/
structure Holds (log : Memlog arch) (alloc put : Nat) (text : List (BitVec 8)) (state : Ram arch) :
    Prop where
  alloc : state.alloc log = BitVec.ofNat 32 alloc
  put : state.put log = BitVec.ofNat 32 put
  data : ∀ index (inside : index < text.length), text.length ≤ index + log.rbSz.toNat →
    state.data log (index % log.rbSz.toNat) = text[index]
  gaps : ∀ gap ∈ state.gaps, gap.toNat ≤ chunkSize

theorem Memlog.PowerSized.dataOffset (sized : log.PowerSized) (total i : Nat) :
    (dataOffset log (BitVec.ofNat 32 total) i).toNat = (total + i) % log.rbSz.toNat := by
  obtain ⟨exponent, small, size⟩ := sized
  have positive : 0 < log.rbSz.toNat := by
    rw [size]
    exact Nat.two_pow_pos _
  have word : 2 ^ exponent ∣ 2 ^ 32 := Nat.pow_dvd_pow 2 small.le
  have wide : 2 ^ exponent ∣ 2 ^ arch.bits := by
    obtain large | large := word_cases arch <;> rw [large]
    · exact word
    · exact Nat.pow_dvd_pow 2 (by omega)
  unfold Log.dataOffset
  rw [BitVec.toNat_setWidth, BitVec.toNat_and, toNat_rbSz_sub_one positive, size,
    Nat.and_two_pow_sub_one_eq_mod, BitVec.toNat_add, toNat_setWidth_word, BitVec.toNat_ofNat,
    BitVec.toNat_ofNat,
    Nat.mod_mod_of_dvd _ wide, Nat.add_mod, Nat.mod_mod_of_dvd _ word,
    Nat.mod_mod_of_dvd _ wide, ← Nat.add_mod]
  exact Nat.mod_eq_of_lt
    ((Nat.mod_lt _ (Nat.two_pow_pos _)).trans (Nat.pow_lt_pow_right (by decide) small))

theorem Memlog.PowerSized.bounds (sized : log.PowerSized) :
    0 < log.rbSz.toNat ∧ log.rbSz.toNat ≤ 2 ^ 31 := by
  obtain ⟨exponent, small, size⟩ := sized
  rw [size]
  exact ⟨Nat.two_pow_pos _, Nat.pow_le_pow_right (by decide) (Nat.le_of_lt_succ small)⟩

theorem data_eq (state : Ram arch) (index : Nat) :
    state.data log index = state.bytes (log.byteAt (12 + index)) := by
  rw [Memlog.byteAt, BitVec.ofNat_add]
  rfl

theorem gap_le {alloc put : Nat} (ordered : put ≤ alloc) (near : alloc ≤ put + chunkSize) :
    (BitVec.ofNat 32 alloc - BitVec.ofNat 32 put).toNat ≤ chunkSize := by
  unfold chunkSize at near ⊢
  rw [BitVec.toNat_sub, BitVec.toNat_ofNat, BitVec.toNat_ofNat]
  omega

theorem Holds.stored {bytes : arch.Word → BitVec 8} {newAlloc newPut : Nat}
    {newText : List (BitVec 8)} (holds : Holds log alloc put text state)
    (allocEq : loadWord bytes (log.byteAt 0) = BitVec.ofNat 32 newAlloc)
    (putEq : loadWord bytes (log.byteAt 4) = BitVec.ofNat 32 newPut) (ordered : newPut ≤ newAlloc)
    (near : newAlloc ≤ newPut + chunkSize)
    (data : ∀ index (inside : index < newText.length), newText.length ≤ index + log.rbSz.toNat →
      bytes (log.byteAt (12 + index % log.rbSz.toNat)) = newText[index]) :
    Holds log newAlloc newPut newText (state.stored log bytes) where
  alloc := allocEq
  put := putEq
  data index inside recent := (data_eq _ _).trans (data index inside recent)
  gaps gap mem := by
    obtain old | new := mem_append.mp mem
    · exact holds.gaps gap old
    · rw [mem_singleton.mp new]
      exact (congrArg₂ (fun first second => (first - second).toNat) allocEq putEq).trans_le
        (gap_le ordered near)

theorem storeWord_apart {bytes : arch.Word → BitVec 8} {value : BitVec 32} {first second : Nat}
    (firstSmall : first < 2 ^ 32 - 4) (secondSmall : second < 2 ^ 32 - 4)
    (apart : first < second ∨ second + 4 ≤ first) :
    storeWord bytes (log.byteAt second) value (log.byteAt first) = bytes (log.byteAt first) :=
  if_neg (byteAt_sub_near firstSmall secondSmall apart)

section

variable (sized : log.PowerSized) (holds : Holds log alloc put text state)

include sized holds

theorem Holds.data_storeWord {counter : Nat} (header : counter ≤ 4) (value : BitVec 32)
    (index : Nat) (inside : index < text.length) (recent : text.length ≤ index + log.rbSz.toNat) :
    storeWord state.bytes (log.byteAt counter) value (log.byteAt (12 + index % log.rbSz.toNat)) =
      text[index] := by
  have place := Nat.mod_lt index sized.bounds.1
  have most := sized.bounds.2
  rw [storeWord_apart (by omega) (by omega) (by omega), ← data_eq]
  exact holds.data index inside recent

theorem Holds.storeAlloc {new : Nat} (ordered : put ≤ new) (near : new ≤ put + chunkSize) :
    Holds log new put text
      (state.stored log (storeWord state.bytes (log.rb + allocField) (BitVec.ofNat 32 new))) := by
  refine holds.stored (loadWord_storeWord _ _) ?_ ordered near
    (holds.data_storeWord sized (by decide) _)
  refine (loadWord_congr fun more small => ?_).trans holds.put
  exact @storeWord_apart _ _ _ _ _ 0 (by omega) (by decide) (by omega)

theorem Holds.storePut {new : Nat} (ordered : new ≤ alloc) (near : alloc ≤ new + chunkSize) :
    Holds log alloc new text
      (state.stored log (storeWord state.bytes (log.rb + putField) (BitVec.ofNat 32 new))) := by
  refine holds.stored ?_ (loadWord_storeWord _ _) ordered near (holds.data_storeWord sized le_rfl _)
  refine (loadWord_congr fun more small => ?_).trans holds.alloc
  exact @storeWord_apart _ _ _ _ _ 4 (by omega) (by decide) (by omega)

/-- A byte goes after the last one; the one it replaces is a whole ring away. -/
theorem Holds.storeData (char : BitVec 8) (ordered : put ≤ alloc) (near : alloc ≤ put + chunkSize) :
    Holds log alloc put (text ++ [char]) (state.stored log
      (update state.bytes (log.byteAt (12 + text.length % log.rbSz.toNat)) char)) := by
  obtain ⟨positive, most⟩ := sized.bounds
  have place := Nat.mod_lt text.length positive
  refine holds.stored ?_ ?_ ordered near fun index inside recent => ?_
  · refine (loadWord_congr fun more small => ?_).trans holds.alloc
    exact update_of_ne (byteAt_ne (by omega) (by omega) (by omega)) _ _
  · refine (loadWord_congr fun more small => ?_).trans holds.put
    exact update_of_ne (byteAt_ne (by omega) (by omega) (by omega)) _ _
  rw [length_append, length_singleton] at inside recent
  obtain before | rfl := Nat.lt_or_eq_of_le (Nat.le_of_lt_succ inside)
  · have other := Nat.mod_lt index positive
    have ne : index % log.rbSz.toNat ≠ text.length % log.rbSz.toNat := by
      intro same
      have multiple := (Nat.modEq_iff_dvd' before.le).mp same
      have := Nat.le_of_dvd (by omega) multiple
      omega
    rw [update_of_ne (byteAt_ne (by omega) (by omega) (by omega)), ← data_eq,
      getElem_append_left before]
    exact holds.data index before (by omega)
  · rw [update_self, getElem_concat_length rfl]

end

/-! ### Writing -/

/-- The log holds the end of a text and nothing is being written. -/
def Logged (log : Memlog arch) (text : List (BitVec 8)) (state : Ram arch) : Prop :=
  Holds log text.length text.length text state

/-- A program comes to its end and leaves a text after what was there. -/
def Writes (log : Memlog arch) (prog : LogDialog arch PUnit) (str : List (BitVec 8)) : Prop :=
  ∀ text state, Logged log text state →
    ∃ final, run (ram log) prog state = (some ⟨⟩, final) ∧ Logged log (text ++ str) final

theorem Writes.nothing : Writes log (pure ⟨⟩) [] := by
  intro text state logged
  rw [append_nil]
  exact ⟨state, rfl, logged⟩

theorem Writes.bind {first second : LogDialog arch PUnit} {more : List (BitVec 8)}
    (written : Writes log first str) (then_ : Writes log second more) :
    Writes log (first >>= fun _ => second) (str ++ more) := by
  intro text state logged
  obtain ⟨between, firstRun, logged⟩ := written text state logged
  obtain ⟨final, secondRun, logged⟩ := then_ _ between logged
  rw [append_assoc] at logged
  refine ⟨final, ?_, logged⟩
  rw [run_bind, firstRun]
  exact secondRun

theorem Writes.forM {ι : Type} {items : List ι} {body : ι → LogDialog arch PUnit}
    {piece : ι → List (BitVec 8)} (round : ∀ item ∈ items, Writes log (body item) (piece item)) :
    Writes log (items.forM body) (items.flatMap piece) := by
  induction items with
  | nil => exact Writes.nothing
  | cons item rest ih =>
    exact (round item mem_cons_self).bind
      (ih fun other inside => round other (mem_cons_of_mem _ inside))

/-- The loop over the bytes of a chunk. -/
def storeChars (log : Memlog arch) (logOffset : BitVec 32) (chars : List (BitVec 8 × Nat)) :
    LogDialog arch PUnit :=
  chars.forM fun (char, i) =>
    store8 log (dataField + (dataOffset log logOffset i).setWidth arch.bits) char

theorem run_storeChars (sized : log.PowerSized) (total : Nat) (ordered : put ≤ alloc)
    (near : alloc ≤ put + chunkSize) (start : Nat) (length : text.length = total + start)
    (holds : Holds log alloc put text state) :
    ∃ final, run (ram log) (storeChars log (BitVec.ofNat 32 total) (str.zipIdx start)) state =
      (some ⟨⟩, final) ∧ Holds log alloc put (text ++ str) final := by
  induction str generalizing text state start with
  | nil =>
    rw [append_nil]
    exact ⟨state, rfl, holds⟩
  | cons char rest ih =>
    have stored := holds.storeData sized char ordered near
    obtain ⟨final, restRun, after⟩ := ih (start + 1) (by rw [length_append, length]; rfl) stored
    rw [append_assoc] at after
    refine ⟨final, ?_, after⟩
    have place :
      log.rb + (dataField + (dataOffset log (BitVec.ofNat 32 total) start).setWidth arch.bits) =
        log.byteAt (12 + text.length % log.rbSz.toNat) := by
      rw [Memlog.byteAt, BitVec.ofNat_add, length, ← sized.dataOffset, BitVec.ofNat_toNat]
      rfl
    rw [← restRun, ← place]
    rfl

theorem Memlog.PowerSized.writeChunk (sized : log.PowerSized) (short : str.length ≤ chunkSize) :
    Writes log (memlogWriteChunk log str) str := by
  intro text state logged
  have ahead := Holds.storeAlloc sized logged (Nat.le_add_right _ str.length) (by omega)
  obtain ⟨between, chars, written⟩ :=
    @run_storeChars _ _ _ _ _ str _ sized text.length (Nat.le_add_right _ _) (by omega) 0 rfl ahead
  have behind := written.storePut sized le_rfl (Nat.le_add_right _ _)
  rw [← length_append] at behind
  refine ⟨_, ?_, behind⟩
  have allocEq : loadWord state.bytes (log.rb + allocField) = BitVec.ofNat 32 text.length :=
    logged.alloc
  have putEq : loadWord between.bytes (log.rb + putField) = BitVec.ofNat 32 text.length :=
    written.put
  change run (ram log)
    (storeChars log (loadWord state.bytes (log.rb + allocField)) str.zipIdx >>= fun _ =>
    load32 log putField >>= fun put => store32 log putField (put + BitVec.ofNat 32 str.length))
    (state.stored log
      (storeWord state.bytes (log.rb + allocField) (loadWord state.bytes (log.rb + allocField) +
      BitVec.ofNat 32 str.length))) = _
  rw [allocEq, ← BitVec.ofNat_add, run_bind, chars, length_append, BitVec.ofNat_add, ← putEq]
  rfl

theorem flatMap_chunks (str : List (BitVec 8)) (size count : Nat) :
    ((List.range count).flatMap fun i => (str.drop (i * size)).take size) = str.take
      (count * size) := by
  induction count with
  | zero => simp
  | succ count ih =>
    rw [range_succ, flatMap_append, ih, Nat.succ_mul, take_add, flatMap_singleton]

theorem Memlog.PowerSized.write (sized : log.PowerSized) (str : List (BitVec 8)) :
    Writes log (memlogWrite log str) str := by
  have whole : Writes log ((List.range (str.length / chunkSize)).forM fun i =>
      memlogWriteChunk log ((str.drop (i * chunkSize)).take chunkSize))
      (str.take (str.length / chunkSize * chunkSize)) := by
    rw [← flatMap_chunks]
    exact Writes.forM fun i _ => sized.writeChunk (length_take_le _ _)
  have last : Writes log (if (str.drop (str.length / chunkSize * chunkSize)).length ≠ 0
      then memlogWriteChunk log (str.drop (str.length / chunkSize * chunkSize)) else pure ⟨⟩)
      (str.drop (str.length / chunkSize * chunkSize)) := by
    split
    · refine sized.writeChunk ?_
      rw [length_drop, Nat.sub_le_iff_le_add, Nat.add_comm, Nat.mul_comm]
      exact (Nat.lt_mul_div_succ _ (by decide)).le
    · next empty =>
      rw [eq_nil_of_length_eq_zero (not_not.mp empty)]
      exact Writes.nothing
  have both := whole.bind last
  rw [take_append_drop] at both
  exact both

/-- The calls of `memlog_write` from the zeros of `memlog_add` on: the counters are never more than
a chunk apart, and the ring holds the end of what was written, however often the counters wrap
around. -/
theorem memlogWrite_contents (sized : log.PowerSized) (bytes : arch.Word → BitVec 8)
    (allocZero : loadWord bytes (log.rb + allocField) = 0)
    (putZero : loadWord bytes (log.rb + putField) = 0) (strs : List (List (BitVec 8))) :
    ∃ final, run (ram log) (strs.forM (memlogWrite log)) ⟨bytes, []⟩ = (some ⟨⟩, final) ∧
      (∀ gap ∈ final.gaps, gap.toNat ≤ 128) ∧
      final.alloc log = BitVec.ofNat 32 strs.flatten.length ∧
      final.put log = BitVec.ofNat 32 strs.flatten.length ∧
      ∀ index (inside : index < strs.flatten.length),
        strs.flatten.length - min strs.flatten.length log.rbSz.toNat ≤ index →
        final.data log (index % log.rbSz.toNat) = strs.flatten[index] := by
  have start : Logged log [] ⟨bytes, []⟩ := {
    alloc := allocZero
    put := putZero
    data := fun index inside => absurd inside (Nat.not_lt_zero index)
    gaps := fun gap inside => absurd inside not_mem_nil }
  have written : Writes log (strs.forM (memlogWrite log)) (strs.flatMap id) :=
    Writes.forM fun str _ => sized.write str
  obtain ⟨final, ran, logged⟩ := written [] _ start
  rw [flatMap_id, nil_append] at logged
  exact ⟨final, ran, logged.gaps, logged.alloc, logged.put, fun index inside recent =>
    logged.data index inside (by omega)⟩

def tinyLog : Memlog arm := ⟨0, 4, 0, 16, none⟩

theorem memlogWrite_contents_tiny :
    ∃ final, run (ram tinyLog) ([[1, 2, 3], [4, 5, 6]].forM (memlogWrite tinyLog))
      ⟨fun _ => 0, []⟩ =
        (some ⟨⟩, final) ∧ (∀ gap ∈ final.gaps, gap.toNat ≤ 128) ∧ final.alloc tinyLog = 6 ∧
        final.put tinyLog = 6 ∧
      ∀ index (inside : index < [[1, 2, 3], [4, 5, 6]].flatten.length), 2 ≤ index →
        final.data tinyLog (index % 4) = ([[1, 2, 3], [4, 5, 6]] :
          List (List (BitVec 8))).flatten[index] :=
  memlogWrite_contents ⟨2, by decide, rfl⟩ (fun _ => 0) rfl rfl [[1, 2, 3], [4, 5, 6]]

end Contents

end Trusty.Log
