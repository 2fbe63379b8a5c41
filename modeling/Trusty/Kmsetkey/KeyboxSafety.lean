import Trusty.Kmsetkey.Keybox

/-!
When `decrypt_keybox` stays inside its buffers.

The input and the output have the same length, as `handle_key` passes them.  The output
may be read as far as it has been written, and `key_buf` is as long as was asked for.
-/

namespace Trusty.Kmsetkey

open Lib Kernel Keymaster Dialog List

/-- How far the output has been written, and the size of `key_buf`. -/
structure KeyboxMemory where
  written : Nat
  keySize : Nat

def CryptoCall.Fits (input : List Byte) (memory : KeyboxMemory) : CryptoCall → Prop
  | .decryptKkbPub => True
  | .rsaOaepDecode pos len => pos + len ≤ input.length
  | .sha256 pos len => pos + len ≤ input.length
  | .sha256Key len => len ≤ memory.keySize
  | .rsaPssVerify pos len => pos + len ≤ input.length
  | .aesEcb => True
  | .aesCbc pos len => pos + len ≤ input.length ∧ len ≤ input.length

def CryptoCall.after (memory : KeyboxMemory) : CryptoCall → KeyboxMemory
  | .aesCbc _ len => { memory with written := len }
  | _ => memory

/-- The buffers of `decrypt_keybox`; the allocator and the crypto library may answer anything. -/
def keyboxEnv (input : List Byte) : Env KeyboxOp KeyboxOp.Ans KeyboxMemory where
  allowed memory
    | .load pos len => pos + len ≤ input.length
    | .crypto call => call.Fits input memory
    | .malloc meant size => size.toNat = meant
    | .store pos len => pos + len ≤ memory.keySize
    | .copyOut pos len => len ≤ input.length ∧ len ≤ memory.written ∧ pos + len ≤ memory.keySize
  answers memory
    | .load pos len, found, after => found = slice input pos len ∧ after = memory
    | .crypto call, _, after => after = call.after memory
    | .malloc _ size, granted, after =>
      after = bif granted then { memory with keySize := size.toNat } else memory
    | .store _ _, _, after => after = memory
    | .copyOut _ _, _, after => after = memory

section Rules

variable {input : List Byte} {memory : KeyboxMemory} {pos len : Nat}

@[simp]
theorem ensures_load (post : List Byte → KeyboxMemory → Prop) :
    ensures (keyboxEnv input) (Box.load pos len) memory post ↔
      pos + len ≤ input.length ∧ post (slice input pos len) memory := by
  refine (@ensures_perform _ KeyboxOp.Ans _ _ memory (.load pos len) post).trans
    (and_congr_right fun _ => ?_)
  constructor
  · exact fun holds => holds _ _ ⟨rfl, rfl⟩
  · rintro holds _ _ ⟨rfl, rfl⟩
    exact holds

@[simp]
theorem ensures_crypto (call : CryptoCall) (post : Bool → KeyboxMemory → Prop) :
    ensures (keyboxEnv input) (Box.crypto call) memory post ↔
      call.Fits input memory ∧ post true (call.after memory) ∧ post false (call.after memory) := by
  refine (@ensures_perform _ KeyboxOp.Ans _ _ memory (.crypto call) post).trans
    (and_congr_right fun _ => ?_)
  constructor
  · exact fun holds => ⟨holds true _ rfl, holds false _ rfl⟩
  · rintro ⟨onTrue, onFalse⟩ (_ | _) _ rfl
    · exact onFalse
    · exact onTrue

@[simp]
theorem ensures_malloc {size : BitVec 32} (post : Bool → KeyboxMemory → Prop) :
    ensures (keyboxEnv input) (Box.malloc len size) memory post ↔
      size.toNat = len ∧ post true { memory with keySize := size.toNat } ∧ post false memory := by
  refine (@ensures_perform _ KeyboxOp.Ans _ _ memory (.malloc len size) post).trans
    (and_congr_right fun _ => ?_)
  constructor
  · exact fun holds => ⟨holds true _ rfl, holds false _ rfl⟩
  · rintro ⟨onTrue, onFalse⟩ (_ | _) _ rfl
    · exact onFalse
    · exact onTrue

@[simp]
theorem ensures_store (post : Unit → KeyboxMemory → Prop) :
    ensures (keyboxEnv input) (Box.store pos len) memory post ↔
      pos + len ≤ memory.keySize ∧ post () memory := by
  refine (@ensures_perform _ KeyboxOp.Ans _ _ memory (.store pos len) post).trans
    (and_congr_right fun _ => ?_)
  exact ⟨fun holds => holds () _ rfl, fun holds _ _ same => same ▸ holds⟩

@[simp]
theorem ensures_copyOut (post : Unit → KeyboxMemory → Prop) :
    ensures (keyboxEnv input) (Box.copyOut pos len) memory post ↔
      (len ≤ input.length ∧ len ≤ memory.written ∧ pos + len ≤ memory.keySize) ∧
      post () memory := by
  refine (@ensures_perform _ KeyboxOp.Ans _ _ memory (.copyOut pos len) post).trans
    (and_congr_right fun _ => ?_)
  exact ⟨fun holds => holds () _ rfl, fun holds _ _ same => same ▸ holds⟩

@[simp]
theorem ensures_check {α : Type} (call : KeyboxDialog Bool) (failure : α) (rest : KeyboxDialog α)
    (post : α → KeyboxMemory → Prop) :
    ensures (keyboxEnv input) (check call failure rest) memory post ↔
      ensures (keyboxEnv input) call memory fun ok between =>
        if ok then ensures (keyboxEnv input) rest between post else post failure between := by
  unfold check
  rw [ensures_bind]
  constructor <;> intro holds <;> refine ensures_mono holds fun ok between rest => ?_ <;>
    cases ok <;> simpa using rest

end Rules

section Stages

variable {input : List Byte} {memory : KeyboxMemory}

/-- The comparison runs behind the end of an input that ends within the magic number. -/
theorem ensures_matchMagic (expected : List Byte) (pos : Nat) (post : Bool → KeyboxMemory → Prop) :
    ensures (keyboxEnv input) (matchMagic expected pos) memory post ↔
      (expected <+: input.drop pos → post true memory) ∧
        (¬expected <+: input.drop pos → ¬input.drop pos <+: expected ∧ post false memory) := by
  induction expected generalizing pos with
  | nil => simp [matchMagic]
  | cons byte rest ih =>
    rw [matchMagic, ensures_bind, ensures_load]
    cases found : input.drop pos with
    | nil =>
      have short : input.length ≤ pos := drop_eq_nil_iff.mp found
      have outside : ¬pos + 1 ≤ input.length := by omega
      simp [outside]
    | cons first later =>
      have inside : pos + 1 ≤ input.length := by
        by_contra outside
        rw [drop_eq_nil_iff.mpr (by omega)] at found
        cases found
      have next : input.drop (pos + 1) = later := by
        rw [← drop_drop, found, drop_one, tail_cons]
      have read : slice input pos 1 = [first] := by
        rw [slice, found, take_succ_cons, take_zero]
      rw [read, ensures_ite, singleton_inj, cons_prefix_cons, cons_prefix_cons,
        ensures_pure, ih, next]
      by_cases same : first = byte
      · simp [same, inside]
      · simp [same, Ne.symm same, inside]

variable {len : BitVec 32}

theorem toNat_sub_sig (long : szEnckbTotalHeader + szEnckbSig ≤ len.toNat) :
    (len - BitVec.ofNat 32 szEnckbSig).toNat + szEnckbSig = len.toNat := by
  unfold szEnckbTotalHeader szEnckbSig at *
  rw [BitVec.toNat_sub, BitVec.toNat_ofNat]
  omega

theorem ensures_verifyKeybox (whole : len.toNat = input.length)
    (long : szEnckbTotalHeader + szEnckbSig ≤ input.length) (post : Bool → KeyboxMemory → Prop) :
    ensures (keyboxEnv input) (verifyKeybox len) memory post ↔
    post true memory ∧ post false memory := by
  have nonzero : len ≠ 0 := by
    rintro rfl
    unfold szEnckbTotalHeader at long
    change 0 = _ at whole
    omega
  have signature := toNat_sub_sig (whole ▸ long)
  rw [verifyKeybox, if_neg nonzero, ensures_check, ensures_crypto]
  simp only [ensures_crypto, CryptoCall.Fits, CryptoCall.after, if_true,
    Bool.false_eq_true, if_false]
  rw [signature, whole]
  constructor
  · rintro ⟨-, ⟨-, onTrue, onFalse⟩, -⟩
    exact ⟨onTrue, onFalse⟩
  · rintro ⟨onTrue, onFalse⟩
    exact ⟨by omega, ⟨le_rfl, onTrue, onFalse⟩, onFalse⟩

theorem ensures_verifyDrmKey {drmKeySize encDrmKeySize : BitVec 32} (small : input.length < 2 ^ 32)
    (decrypted : memory.written = encDrmKeySize.toNat) :
    ensures (keyboxEnv input) (verifyDrmKey drmKeySize encDrmKeySize) memory
        (fun result _ => result.1 = 0 → result.2.toNat ≤ input.length) ↔
      drmKeySize.toNat ≤ encDrmKeySize.toNat ∧
        szEnckbTotalHeader + drmKeyOffset + encDrmKeySize.toNat + szDrmkeySig ≤ input.length := by
  have bound := drmKeySize.isLt
  have keyLen : (drmKeySize + BitVec.ofNat 32 szDrmkeyId + BitVec.ofNat 32 szDrmkeySize).toNat =
      (drmKeySize.toNat + 8) % 2 ^ 32 := by
    rw [BitVec.toNat_add, BitVec.toNat_add, BitVec.toNat_ofNat, BitVec.toNat_ofNat]
    unfold szDrmkeyId szDrmkeySize
    omega
  simp only [verifyDrmKey, ensures_check, ensures_malloc, ensures_bind, ensures_store,
    ensures_copyOut, verifyKey, if_true, Bool.false_eq_true, if_false, ensures_pure, ensures_ite,
    ensures_crypto,
    CryptoCall.Fits, decrypted, keyLen]
  unfold szEnckbTotalHeader drmKeyOffset szDrmkeySig szDrmkeyId szDrmkeySize at *
  constructor
  · rintro ⟨exact, ⟨-, -, ⟨-, covered, -⟩, -, verified⟩, -⟩
    have nonzero : ¬drmKeySize + BitVec.ofNat 32 4 + BitVec.ofNat 32 4 = 0 := by
      intro zero
      rw [zero] at keyLen
      change 0 = _ at keyLen
      omega
    obtain ⟨-, ⟨signature, -, -⟩, -⟩ := verified nonzero
    exact ⟨covered, signature⟩
  · rintro ⟨covered, signature⟩
    have exact : (drmKeySize.toNat + 8) % 2 ^ 32 = drmKeySize.toNat + 4 + 4 := by omega
    have refused {code : Int} (negative : code ≠ 0) : code = 0 → drmKeySize.toNat ≤ input.length :=
      fun zero => absurd zero negative
    rw [exact]
    refine ⟨rfl, ⟨by omega, by omega, ⟨by omega, covered, by omega⟩, ?_, ?_⟩, refused (by decide)⟩
    · exact fun _ => refused (by decide)
    · exact fun _ =>
        ⟨le_rfl, ⟨signature, fun _ => by omega, refused (by decide)⟩, refused (by decide)⟩

section

variable (input : List Byte)

def boxWord (pos : Nat) : BitVec 32 := word32 (slice input pos 4)

def drmKeySizeOf : BitVec 32 := boxWord input (szEnckbTotalHeader + 8)

def encDrmKeySizeOf : BitVec 32 := boxWord input (szEnckbTotalHeader + 12)

def clearIvOf : List Byte := slice input (szEnckbTotalHeader + 16) szAesIv

/-- The lengths of the encrypted key fit: it is not shorter than the key in it, and its
signature ends before the box does. -/
structure DrmKeyFits : Prop where
  covered : (drmKeySizeOf input).toNat ≤ (encDrmKeySizeOf input).toNat
  signature :
    szEnckbTotalHeader + drmKeyOffset + (encDrmKeySizeOf input).toNat + szDrmkeySig ≤ input.length

end

theorem ensures_decryptDrmKey (arch : Arch) {outLen : BitVec 32} (small : input.length < 2 ^ 32)
    (long : szEnckbTotalHeader + szEnckbSig ≤ input.length) :
    ensures (keyboxEnv input) (decryptDrmKey arch outLen) memory
        (fun result _ => result.1 = 0 → result.2.toNat ≤ input.length) ↔
      (clearIvOf input ≠ List.replicate szAesIv 0 → encDrmKeySizeOf input ≠ 0 →
        DrmKeyFits input) := by
  have size : 80 < sizeofEncryptDrmKey arch ∧ sizeofEncryptDrmKey arch ≤ 96 := by
    unfold sizeofEncryptDrmKey drmKeyOffset
    rcases arch.is with bits | bits <;> rw [bits] <;> decide
  have inside : szEnckbTotalHeader + sizeofEncryptDrmKey arch ≤ input.length := by
    unfold szEnckbTotalHeader szEnckbSig at *
    omega
  have word (pos : Nat) (within : pos + 4 ≤ sizeofEncryptDrmKey arch) :
      word32 (slice (slice input szEnckbTotalHeader (sizeofEncryptDrmKey arch)) pos 4) =
        boxWord input (szEnckbTotalHeader + pos) := by
    rw [slice_slice within, boxWord]
  have iv :
      slice (slice input szEnckbTotalHeader (sizeofEncryptDrmKey arch)) 16
        szAesIv = clearIvOf input :=
    slice_slice (by unfold szAesIv; omega)
  simp only [decryptDrmKey, ensures_bind, ensures_load, inside, true_and, word 8 (by omega),
    word 12 (by omega), iv, ensures_ite, ensures_pure, ensures_check, ensures_crypto,
    CryptoCall.Fits, CryptoCall.after,
    aesCbc, if_true, Bool.false_eq_true, if_false]
  have failed {code : Int} (negative : code ≠ 0) : code = 0 → outLen.toNat ≤ input.length :=
    fun zero => absurd zero negative
  constructor
  · rintro ⟨-, rest⟩ nonzero nonempty
    obtain ⟨⟨-, decrypts⟩, -⟩ := rest nonzero
    obtain ⟨-, verifies, -⟩ := decrypts nonempty
    obtain ⟨covered, signature⟩ := (ensures_verifyDrmKey small rfl).mp verifies
    exact ⟨covered, signature⟩
  · intro fits
    refine ⟨fun _ => failed (by decide), fun nonzero =>
      ⟨⟨fun _ => failed (by decide), fun nonempty => ?_⟩,
      failed (by decide)⟩⟩
    obtain ⟨covered, signature⟩ := fits nonzero nonempty
    refine ⟨⟨?_, ?_⟩, (ensures_verifyDrmKey small rfl).mpr ⟨covered, signature⟩, failed (by decide)⟩
    · exact (Nat.le_add_right _ _).trans signature
    · change (encDrmKeySizeOf input).toNat ≤ _
      omega

/-- A box whose header is accepted. -/
structure Opens (input : List Byte) : Prop where
  magic : magicNumber <+: input
  long : szEnckbTotalHeader + szEnckbSig ≤ input.length
  totalSize : boxWord input offsetEnckbHeaderSize = BitVec.ofNat 32 input.length
  hasEkkb : boxWord input offsetEnckbHeaderHasekkb = 1
  keyCount : boxWord input offsetEnckbHeaderKeycount = 1
  clearIv : clearIvOf input ≠ List.replicate szAesIv 0

/-- The input does not end within the magic number, and the key of a box that is opened
fits. -/
structure KeyboxFits (input : List Byte) : Prop where
  magic : input <+: magicNumber → magicNumber <+: input
  key : Opens input → encDrmKeySizeOf input ≠ 0 → DrmKeyFits input

theorem ensures_opened (arch : Arch) (small : input.length < 2 ^ 32)
    (magic : magicNumber <+: input) :
    ensures (keyboxEnv input)
    (decryptOpened arch (BitVec.ofNat 32 input.length) (BitVec.ofNat 32 input.length))
        memory (fun result _ => result.1 = 0 → result.2.toNat ≤ input.length) ↔
      (Opens input → encDrmKeySizeOf input ≠ 0 → DrmKeyFits input) := by
  have whole : (BitVec.ofNat 32 input.length).toNat = input.length := by
    rw [BitVec.toNat_ofNat, Nat.mod_eq_of_lt small]
  have failed {code : Int} (negative : code ≠ 0) : code = 0 →
      (BitVec.ofNat 32 input.length).toNat ≤ input.length :=
    fun zero => absurd zero negative
  rw [decryptOpened, ensures_ite, whole]
  by_cases long : szEnckbTotalHeader + szEnckbSig ≤ input.length
  · have header (pos : Nat) (before : pos ≤ szEnckbTotalHeader) : pos + 4 ≤ input.length := by
      unfold szEnckbTotalHeader szEnckbSig at *
      omega
    have ekkb : offsetEnckbHeaderEkkb + szEnckbHeaderEkkb ≤ input.length := by
      unfold szEnckbTotalHeader szEnckbSig offsetEnckbHeaderEkkb szEnckbHeaderEkkb at *
      omega
    simp only [Nat.not_lt.mpr long, IsEmpty.forall_iff, not_false_eq_true, true_implies, true_and,
      ensures_bind, ensures_ite, ensures_pure, ensures_load, ensures_check, ensures_crypto,
      CryptoCall.Fits,
      decryptKkb, ensures_verifyKeybox whole long, ensures_decryptDrmKey arch small long, if_true,
      Bool.false_eq_true, if_false, ekkb, header offsetEnckbHeaderSize (by decide),
      header offsetEnckbHeaderHasekkb (by decide), header offsetEnckbHeaderKeycount (by decide)]
    constructor
    · rintro ⟨-, sized⟩ ⟨-, -, totalSize, hasEkkb, keyCount, clearIv⟩ nonempty
      unfold boxWord at totalSize hasEkkb keyCount
      obtain ⟨⟨-, withEkkb⟩, -⟩ := sized (by simp [totalSize])
      obtain ⟨⟨⟨-, oneKey⟩, -⟩, -⟩ := withEkkb (by simp [hasEkkb])
      exact oneKey (by simp [keyCount]) clearIv nonempty
    · intro fits
      refine ⟨fun _ => failed (by decide), fun sized =>
        ⟨⟨fun _ => failed (by decide), fun withEkkb => ?_⟩,
        failed (by decide)⟩⟩
      refine ⟨⟨⟨fun _ => failed (by decide), fun oneKey clearIv => ?_⟩, failed (by decide)⟩,
        failed (by decide)⟩
      rw [or_self, not_not] at sized
      exact fits ⟨magic, long, sized.symm, not_not.mp withEkkb, not_not.mp oneKey, clearIv⟩
  · simp only [Nat.not_le.mp long, not_true_eq_false, IsEmpty.forall_iff, and_true, true_implies,
      ensures_pure]
    exact iff_of_true (failed (by decide)) fun opens => absurd opens.long long

/-- No access of `decrypt_keybox` is outside its buffers or to a byte of the output that
was not written, no size wraps around, and on success `*out_len` is at most what it was. -/
def KeyboxSafe (arch : Arch) (input : List Byte) : Prop :=
  ensures (keyboxEnv input)
    (decryptKeybox arch (BitVec.ofNat 32 input.length) (BitVec.ofNat 32 input.length)) ⟨0, 0⟩
    fun result _ => result.1 = 0 → result.2.toNat ≤ input.length

theorem keyboxSafe_iff_stages {arch : Arch} (nonempty : input ≠ [])
    (small : input.length < 2 ^ 32) :
    KeyboxSafe arch input ↔
      (magicNumber <+: input → Opens input → encDrmKeySizeOf input ≠ 0 → DrmKeyFits input) ∧
        (¬magicNumber <+: input → ¬input <+: magicNumber) := by
  have whole : (BitVec.ofNat 32 input.length).toNat = input.length := by
    rw [BitVec.toNat_ofNat, Nat.mod_eq_of_lt small]
  have nonzero : ¬BitVec.ofNat 32 input.length = 0 := by
    intro zero
    rw [zero] at whole
    exact nonempty (length_eq_zero_iff.mp whole.symm)
  have refused : (-2 : Int) = 0 → (BitVec.ofNat 32 input.length).toNat ≤ input.length :=
    fun zero => absurd zero (by decide)
  rw [KeyboxSafe, decryptKeybox, if_neg nonzero, ensures_check, ensures_matchMagic, drop_zero]
  apply and_congr
  · exact forall_congr' fun magic => ensures_opened arch small magic
  · exact forall_congr' fun _ => and_iff_left refused

/-- `decrypt_keybox` stays inside its buffers exactly for the inputs that fit. -/
theorem keyboxSafe_iff (arch : Arch) (nonempty : input ≠ []) (small : input.length < 2 ^ 32) :
    KeyboxSafe arch input ↔ KeyboxFits input := by
  rw [keyboxSafe_iff_stages nonempty small]
  constructor
  · rintro ⟨opened, other⟩
    exact ⟨fun ends => not_imp_not.mp other ends, fun opens => opened opens.magic opens⟩
  · intro fits
    exact ⟨fun _ => fits.key, not_imp_not.mpr fits.magic⟩

def sampleBox (totalSize drmKeySize encDrmKeySize : BitVec 32) : List Byte :=
  (magicNumber ++ List.replicate 64 0 ++ bytes32 totalSize ++ bytes32 1 ++ bytes32 1 ++
    List.replicate szEnckbHeaderEkkb 0 ++ List.replicate 8 0 ++ bytes32 drmKeySize ++
    bytes32 encDrmKeySize ++
    List.replicate szAesIv 1 ++ List.replicate totalSize.toNat 0).take totalSize.toNat

/-- A box of 688 bytes has room for 16 bytes and the signature. -/
theorem keyboxSafe_iff_sample : KeyboxSafe arm64 (sampleBox 688 16 16) :=
  (keyboxSafe_iff arm64 (by decide +kernel) (by decide +kernel)).mpr
    ⟨fun ends => absurd ends.length_le (by decide +kernel),
      fun _ _ => ⟨by decide +kernel, by decide +kernel⟩⟩

/-- A box of 592 bytes may claim that its key has four gigabytes. -/
theorem oversized_key_leaves_buffer : ¬KeyboxSafe arm64 (sampleBox 592 16 0xffffffff) := by
  rw [keyboxSafe_iff_stages (by decide +kernel) (by decide +kernel)]
  rintro ⟨opened, -⟩
  have opens : Opens (sampleBox 592 16 0xffffffff) :=
    ⟨by decide +kernel, by decide +kernel, by decide +kernel, by decide +kernel, by
      decide +kernel, by decide +kernel⟩
  have fits := (opened opens.magic opens (by decide +kernel)).signature
  revert fits
  decide +kernel

end Stages

end Trusty.Kmsetkey
