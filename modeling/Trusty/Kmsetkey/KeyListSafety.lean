import Trusty.Kmsetkey.KeyList
import Trusty.Lib.Buffer

/-!
The format of a list of keys, and when `set_key` stays inside the list and the payload.
-/

namespace Trusty.Kmsetkey

open Lib Kernel Keymaster Dialog List

/-! ### The format -/

def encodeItem (data : List Byte) : List Byte := bytes32 (BitVec.ofNat 32 data.length) ++ data

def encodeItems (items : List (List Byte)) : List Byte := items.flatMap encodeItem

structure KeyEntry where
  key : List Byte
  certs : List (List Byte)

def KeyEntry.encode (entry : KeyEntry) : List Byte :=
  encodeItem entry.key ++ (bytes32 (BitVec.ofNat 32 entry.certs.length) ++ encodeItems entry.certs)

/-- All that fits the payload behind the algorithm, and a number of certificates that can
be written down. -/
structure KeyEntry.WellFormed (entry : KeyEntry) : Prop where
  key : 4 + entry.key.length ≤ kmsetkeyMaxMsgSize
  certs : ∀ cert ∈ entry.certs, 4 + cert.length ≤ kmsetkeyMaxMsgSize
  count : entry.certs.length < 2 ^ 32

theorem length_encodeItem (data : List Byte) : (encodeItem data).length = 4 + data.length := by
  rw [encodeItem, length_append]
  rfl

variable {data : List Byte}

theorem encodeItem_eq {length : List Byte} (four : length.length = 4)
    (counts : (word32 length).toNat = data.length) : encodeItem data = length ++ data := by
  rw [encodeItem, ← counts, BitVec.ofNat_toNat, BitVec.setWidth_eq, bytes32_word32 four]

theorem toNat_ofNat_length (fits : 4 + data.length ≤ kmsetkeyMaxMsgSize) :
    (BitVec.ofNat 32 data.length).toNat = data.length := by
  unfold kmsetkeyMaxMsgSize at fits
  rw [BitVec.toNat_ofNat]
  omega

/-! ### The accesses -/

/-- The list, a payload of `MAX_MSG_SIZE` bytes, and what a command may return and leave. -/
def walkEnv {σ : Type} (buf : List Byte) (impl : σ → BitVec 32 → List Byte → Int → σ → Prop) :
    Env SetKeyOp SetKeyOp.Ans σ where
  allowed _
    | .malloc _ => True
    | .load pos => pos + 4 ≤ buf.length
    | .copy pos len => pos + len ≤ buf.length ∧ 4 + len ≤ kmsetkeyMaxMsgSize
    | .setKeyImpl _ payload => payload.length ≤ kmsetkeyMaxMsgSize
  answers state
    | .malloc _, _, after => after = state
    | .load pos, found, after => found = slice buf pos 4 ∧ after = state
    | .copy pos len, found, after => found = slice buf pos len ∧ after = state
    | .setKeyImpl cmd payload, rc, after => impl state cmd payload rc after

/-- Any outcome of a command that `set_key_impl` can return: no positive number. -/
abbrev setKeyEnv (buf : List Byte) :
    Env SetKeyOp SetKeyOp.Ans Unit := walkEnv buf fun _ _ _ rc _ => rc ≤ noError

section Rules

variable {σ : Type} {buf : List Byte} {impl : σ → BitVec 32 → List Byte → Int → σ → Prop}
  {state : σ} {pos len : Nat}

@[simp]
theorem ensures_walkMalloc (post : Bool → σ → Prop) :
    ensures (walkEnv buf impl) (Walk.malloc len) state post ↔ ∀ granted, post granted state := by
  refine (@ensures_perform _ SetKeyOp.Ans _ _ state (.malloc len) post).trans ?_
  constructor
  · exact fun holds granted => holds.2 granted state rfl
  · exact fun holds => ⟨trivial, fun granted _ same => same ▸ holds granted⟩

@[simp]
theorem ensures_walkLoad (post : List Byte → σ → Prop) :
    ensures (walkEnv buf impl) (Walk.load pos) state post ↔
      pos + 4 ≤ buf.length ∧ post (slice buf pos 4) state := by
  refine (@ensures_perform _ SetKeyOp.Ans _ _ state (.load pos) post).trans
    (and_congr_right fun _ => ?_)
  exact ⟨fun holds => holds _ state ⟨rfl, rfl⟩, fun holds _ _ same => same.1 ▸ same.2 ▸ holds⟩

@[simp]
theorem ensures_walkCopy (post : List Byte → σ → Prop) :
    ensures (walkEnv buf impl) (Walk.copy pos len) state post ↔
      (pos + len ≤ buf.length ∧ 4 + len ≤ kmsetkeyMaxMsgSize) ∧ post (slice buf pos len) state := by
  refine (@ensures_perform _ SetKeyOp.Ans _ _ state (.copy pos len) post).trans
    (and_congr_right fun _ => ?_)
  exact ⟨fun holds => holds _ state ⟨rfl, rfl⟩, fun holds _ _ same => same.1 ▸ same.2 ▸ holds⟩

@[simp]
theorem ensures_walkSetKeyImpl {cmd : BitVec 32} {payload : List Byte} (post : Int → σ → Prop) :
    ensures (walkEnv buf impl) (Walk.setKeyImpl cmd payload) state post ↔
      payload.length ≤ kmsetkeyMaxMsgSize ∧ ∀ rc after, impl state cmd payload rc after →
      post rc after :=
  @ensures_perform _ SetKeyOp.Ans _ _ state (.setKeyImpl cmd payload) post

end Rules

/-! ### The walk through a list -/

section Part

variable {σ : Type} {buf : List Byte} {impl : σ → BitVec 32 → List Byte → Int → σ → Prop}
  {state : σ} {ptr : Nat} {following : Nat → σ → Prop}

/-- What is asked of the walk: it returns no positive number, and where it ends without an
error there is a property. -/
def Ends (following : σ → Prop) (rc : Int) (state : σ) : Prop :=
  rc ≤ noError ∧ (rc = noError → following state)

/-- The same of a part of the walk, with the pointer from which it goes on. -/
def Proceeds (following : Nat → σ → Prop) (result : Int × Nat) (state : σ) : Prop :=
  Ends (following result.2) result.1 state

theorem ensures_setItem_at {data : List Byte} (fits : 4 + data.length ≤ kmsetkeyMaxMsgSize)
    (lies : encodeItem data <+: buf.drop ptr) (cmd algorithm : BitVec 32)
    (post : Int × Nat → σ → Prop) :
    ensures (walkEnv buf impl) (setItem cmd algorithm ptr) state post ↔
      ∀ rc after, impl state cmd (bytes32 algorithm ++ data) rc after →
        post (rc, ptr + (encodeItem data).length) after := by
  have counts := toNat_ofNat_length fits
  have inside := lies.length_le
  rw [length_drop, length_encodeItem] at inside
  rw [encodeItem, append_prefix_drop] at lies
  have head : slice buf ptr 4 = bytes32 (BitVec.ofNat 32 data.length) :=
    slice_of_prefix_drop lies.1 rfl
  have body : slice buf (ptr + 4) data.length = data := slice_of_prefix_drop lies.2 rfl
  have within : ptr + 4 + data.length ≤ buf.length := by omega
  have long : (bytes32 algorithm ++ data).length = 4 + data.length := length_append
  -- the length of the payload is computed in 32 bits
  have exactly : (4 + BitVec.ofNat 32 data.length).toNat = 4 + data.length := by
    unfold kmsetkeyMaxMsgSize at fits
    rw [BitVec.toNat_add, counts]
    exact Nat.mod_eq_of_lt (show 4 + data.length < 2 ^ 32 by omega)
  simp only [setItem, ensures_bind, ensures_walkLoad, ensures_walkCopy, ensures_walkSetKeyImpl,
    ensures_pure, head, word32_bytes32, counts, body, exactly, take_of_length_le long.le, long,
    length_encodeItem]
  rw [and_iff_right (by omega), and_iff_right ⟨within, fits⟩, and_iff_right fits]

theorem ensures_setItem (cmd algorithm : BitVec 32) (post : Int × Nat → σ → Prop) :
    ensures (walkEnv buf impl) (setItem cmd algorithm ptr) state post ↔
      ∃ data : List Byte, 4 + data.length ≤ kmsetkeyMaxMsgSize ∧ encodeItem data <+: buf.drop ptr ∧
        ∀ rc after, impl state cmd (bytes32 algorithm ++ data) rc after →
          post (rc, ptr + (encodeItem data).length) after := by
  constructor
  · intro walks
    have accesses := walks
    simp only [setItem, ensures_bind, ensures_walkLoad, ensures_walkCopy] at accesses
    obtain ⟨inside, ⟨covered, room⟩, -⟩ := accesses
    have length := length_slice covered
    have fits :
        4 + (slice buf (ptr + 4) (word32 (slice buf ptr 4)).toNat).length ≤ kmsetkeyMaxMsgSize := by
      rw [length]
      exact room
    have lies :
        encodeItem (slice buf (ptr + 4) (word32 (slice buf ptr 4)).toNat) <+: buf.drop ptr := by
      rw [encodeItem_eq (length_slice inside) length.symm, append_prefix_drop, length_slice inside]
      exact ⟨prefix_drop_slice, prefix_drop_slice⟩
    exact ⟨_, fits, lies, (ensures_setItem_at fits lies cmd algorithm post).mp walks⟩
  · rintro ⟨data, fits, lies, follows⟩
    exact (ensures_setItem_at fits lies cmd algorithm post).mpr follows

theorem ensures_bind_proceeds (part : SetKeyDialog (Int × Nat))
    (next : Nat → SetKeyDialog (Int × Nat)) :
    ensures (walkEnv buf impl)
        (do
          let (rc, ptr) ← part
          if rc ≠ noError then return (rc, ptr) else next ptr) state (Proceeds following) ↔
      ensures (walkEnv buf impl) part state
        (Proceeds fun ptr between => ensures (walkEnv buf impl) (next ptr) between
          (Proceeds following)) := by
  rw [ensures_bind]
  constructor <;> intro holds <;> refine ensures_mono holds ?_
  · rintro ⟨rc, ptr⟩ _ rest
    by_cases failed : rc = noError
    · exact ⟨failed.le, fun _ => by simpa [failed] using rest⟩
    · simp only [ne_eq, failed, not_false_eq_true, if_true, ensures_pure] at rest
      exact ⟨rest.1, fun ok => absurd ok failed⟩
  · rintro ⟨rc, ptr⟩ _ rest
    by_cases failed : rc = noError
    · simpa [failed] using rest.2 failed
    · simp only [ne_eq, failed, not_false_eq_true, if_true, ensures_pure]
      exact ⟨rest.1, fun ok => absurd ok failed⟩

theorem ensures_setAlgorithms_cons (algorithm : BitVec 32) (rest : List (BitVec 32))
    {following : σ → Prop} :
    ensures (walkEnv buf impl) (setAlgorithms (algorithm :: rest) ptr) state (Ends following) ↔
      ensures (walkEnv buf impl) (setAlgorithm algorithm ptr) state (Proceeds fun ptr between =>
        ensures (walkEnv buf impl) (setAlgorithms rest ptr) between (Ends following)) := by
  rw [setAlgorithms, ensures_bind]
  constructor <;> intro holds <;> refine ensures_mono holds ?_ <;> rintro ⟨rc, ptr⟩ _ follows <;>
    by_cases ok : rc = noError <;> simp_all [Proceeds, Ends]

theorem ensures_setKey {post : Int → σ → Prop} (refused : post errNoMemory state) :
    ensures (walkEnv buf impl) setKey state post ↔
      ensures (walkEnv buf impl) (setAlgorithms kmAlgo 4) state fun rc after =>
        post (if rc < 0 then rc else noError) after := by
  rw [setKey, ensures_bind, ensures_walkMalloc, Bool.forall_bool]
  simp only [ensures_bind, if_true, Bool.false_eq_true, if_false, ensures_pure]
  exact and_iff_right refused

end Part

section Parse

variable {buf : List Byte} {ptr : Nat} {following : Nat → Unit → Prop}

theorem ensures_setItem_proceeds (cmd algorithm : BitVec 32) :
    ensures (setKeyEnv buf) (setItem cmd algorithm ptr) () (Proceeds following) ↔
      ∃ data : List Byte, 4 + data.length ≤ kmsetkeyMaxMsgSize ∧ encodeItem data <+: buf.drop ptr ∧
        following (ptr + (encodeItem data).length) () := by
  rw [ensures_setItem]
  refine exists_congr fun data => and_congr_right fun _ => and_congr_right fun _ => ?_
  exact ⟨fun proceeds => (proceeds noError () le_rfl).2 rfl, fun follows rc _ returned =>
    ⟨returned, fun _ => follows⟩⟩

theorem ensures_setCerts (algorithm : BitVec 32) (left : Nat) :
    ensures (setKeyEnv buf) (setCerts algorithm left ptr) () (Proceeds following) ↔
      ∃ certs :
      List (List Byte), certs.length = left ∧
      (∀ cert ∈ certs, 4 + cert.length ≤ kmsetkeyMaxMsgSize) ∧
        encodeItems certs <+: buf.drop ptr ∧ following (ptr + (encodeItems certs).length) () := by
  induction left generalizing ptr with
  | zero =>
    rw [setCerts, ensures_pure]
    constructor
    · exact fun proceeds => ⟨[], rfl, by simp, nil_prefix, proceeds.2 rfl⟩
    · rintro ⟨certs, empty, -, -, follows⟩
      rw [length_eq_zero_iff.mp empty] at follows
      exact ⟨le_rfl, fun _ => follows⟩
  | succ left ih =>
    rw [setCerts, ensures_bind_proceeds, ensures_setItem_proceeds]
    simp only [ih]
    constructor
    · rintro ⟨cert, fits, lies, certs, count, fit, lie, follows⟩
      refine ⟨cert :: certs, by rw [length_cons, count], forall_mem_cons.mpr ⟨fits, fit⟩, ?_, ?_⟩
      · rw [encodeItems, flatMap_cons, append_prefix_drop]
        exact ⟨lies, lie⟩
      · rw [encodeItems, flatMap_cons, length_append, ← Nat.add_assoc]
        exact follows
    · rintro ⟨certs, count, fit, lie, follows⟩
      obtain ⟨cert, certs, rfl⟩ := exists_cons_of_length_eq_add_one count
      rw [encodeItems, flatMap_cons, append_prefix_drop] at lie
      rw [encodeItems, flatMap_cons, length_append, ← Nat.add_assoc] at follows
      obtain ⟨fits, fit⟩ := forall_mem_cons.mp fit
      exact ⟨cert, fits, lie.1, certs, Nat.succ.inj count, fit, lie.2, follows⟩

theorem ensures_setAlgorithm (algorithm : BitVec 32) :
    ensures (setKeyEnv buf) (setAlgorithm algorithm ptr) () (Proceeds following) ↔
      ∃ entry : KeyEntry, entry.WellFormed ∧ entry.encode <+: buf.drop ptr ∧
        following (ptr + entry.encode.length) () := by
  refine (ensures_bind_proceeds _ fun ptr => do
    let certchainLen ← Walk.load ptr
    setCerts algorithm (word32 certchainLen).toNat (ptr + 4)).trans ?_
  rw [ensures_setItem_proceeds]
  simp only [ensures_bind, ensures_walkLoad, ensures_setCerts]
  have assemble (key : List Byte) (certs : List (List Byte)) (start : Nat) :
      start +
        (encodeItem key ++ (bytes32 (BitVec.ofNat 32 certs.length) ++ encodeItems certs)).length =
        start + (encodeItem key).length + 4 + (encodeItems certs).length := by
    simp only [length_append, bytes32, length_cons, length_nil]
    omega
  constructor
  · rintro ⟨key, fits, lies, inside, certs, count, fit, lie, follows⟩
    have four :
        bytes32 (BitVec.ofNat 32 certs.length) = slice buf (ptr + (encodeItem key).length) 4 := by
      rw [count, BitVec.ofNat_toNat, BitVec.setWidth_eq, bytes32_word32 (length_slice inside)]
    refine ⟨⟨key, certs⟩, ⟨fits, fit, ?_⟩, ?_, ?_⟩
    · change certs.length < _
      rw [count]
      exact BitVec.isLt _
    · rw [KeyEntry.encode, append_prefix_drop, append_prefix_drop]
      refine ⟨lies, ?_, lie⟩
      rw [four]
      exact prefix_drop_slice
    · rw [KeyEntry.encode, assemble]
      exact follows
  · rintro ⟨⟨key, certs⟩, ⟨fits, fit, count⟩, lies, follows⟩
    rw [KeyEntry.encode, append_prefix_drop, append_prefix_drop] at lies
    rw [KeyEntry.encode, assemble] at follows
    dsimp only at fits fit count lies follows
    obtain ⟨first, number, last⟩ := lies
    have inside := number.length_le
    rw [length_drop] at inside
    change 4 ≤ _ at inside
    have four :
        slice buf (ptr + (encodeItem key).length) 4 = bytes32 (BitVec.ofNat 32 certs.length) :=
      slice_of_prefix_drop number rfl
    refine ⟨key, fits, first, by omega, certs, ?_, fit, last, follows⟩
    rw [four, word32_bytes32, BitVec.toNat_ofNat, Nat.mod_eq_of_lt count]

def encodeEntries (entries : List KeyEntry) : List Byte := entries.flatMap KeyEntry.encode

theorem ensures_setAlgorithms (algorithms : List (BitVec 32)) :
    ensures (setKeyEnv buf) (setAlgorithms algorithms ptr) () (Ends fun _ => True) ↔
      ∃ entries :
      List KeyEntry, entries.length = algorithms.length ∧ (∀ entry ∈ entries, entry.WellFormed) ∧
        encodeEntries entries <+: buf.drop ptr := by
  induction algorithms generalizing ptr with
  | nil =>
    rw [setAlgorithms, ensures_pure]
    exact iff_of_true ⟨le_rfl, fun _ => trivial⟩ ⟨[], rfl, by simp, nil_prefix⟩
  | cons algorithm rest ih =>
    rw [ensures_setAlgorithms_cons, ensures_setAlgorithm]
    simp only [ih]
    constructor
    · rintro ⟨entry, fits, lies, entries, count, fit, lie⟩
      refine ⟨entry :: entries, by rw [length_cons, count, length_cons],
        forall_mem_cons.mpr ⟨fits, fit⟩, ?_⟩
      rw [encodeEntries, flatMap_cons, append_prefix_drop]
      exact ⟨lies, lie⟩
    · rintro ⟨entries, count, fit, lie⟩
      obtain ⟨entry, entries, rfl⟩ := exists_cons_of_length_eq_add_one count
      rw [encodeEntries, flatMap_cons, append_prefix_drop] at lie
      obtain ⟨fits, fit⟩ := forall_mem_cons.mp fit
      exact ⟨entry, fits, lie.1, entries, Nat.succ.inj count, fit, lie.2⟩

/-- Behind the version there is a well-formed entry for each algorithm. -/
def KeyListFits (buf : List Byte) : Prop :=
  ∃ entries : List KeyEntry, entries.length = kmAlgo.length ∧
    (∀ entry ∈ entries, entry.WellFormed) ∧ encodeEntries entries <+: buf.drop 4

/-- `set_key` makes no access outside the list and the payload, and it refuses a list that
does not fit. -/
def KeyListSafe (buf : List Byte) : Prop :=
  ensures (setKeyEnv buf) setKey () fun rc _ => ¬KeyListFits buf → rc < 0

/-- A list that does not fit is not refused: `set_key` runs out of it. -/
theorem keyListSafe_iff (buf : List Byte) : KeyListSafe buf ↔ KeyListFits buf := by
  rw [KeyListSafe, ensures_setKey fun _ => show errNoMemory < 0 by decide]
  constructor
  · intro safe
    by_contra misfit
    refine misfit ((ensures_setAlgorithms kmAlgo).mp (ensures_mono safe fun rc _ refuses => ?_))
    have negative := refuses misfit
    split at negative
    · exact ⟨le_of_lt ‹_›, fun _ => trivial⟩
    · exact absurd negative (by decide)
  · intro fits
    exact ensures_mono ((ensures_setAlgorithms kmAlgo).mpr fits) fun rc _ _ misfit =>
      absurd fits misfit

def longKeyList : List Byte := bytes32 1 ++ (bytes32 5000 ++ List.replicate 6000 0)

/-- A key that lies in the list may be too long for the payload. -/
theorem long_key_overruns_payload : ¬KeyListSafe longKeyList := by
  rw [KeyListSafe, ensures_setKey fun _ => show errNoMemory < 0 by decide]
  intro walks
  have length : word32 (slice longKeyList 4 4) = 5000 := by decide +kernel
  simp only [ensures_bind, kmAlgo, setAlgorithms, setAlgorithm, setItem, ensures_walkLoad,
    ensures_walkCopy, length] at walks
  exact absurd walks.2.1.2 (by decide)

end Parse

end Trusty.Kmsetkey
