import Trusty.Hwkey.Binding

/-!
`hkdf_sha256` against RFC 5869, for bytes and the HMAC of `mt_hkdf.c`.
-/

namespace Trusty.Hwkey

open Lib List

structure Sha256 where
  hash : List (BitVec 8) → List (BitVec 8)
  length_hash : ∀ message, (hash message).length = sha256DigestSize

def sha256BlockSize : Nat := 64

/-- What each of the two hashes has been given so far. -/
structure HmacSha256Ctx where
  ctxInside : List (BitVec 8)
  ctxOutside : List (BitVec 8)

def bytes : Octets (BitVec 8) := ⟨id, Function.injective_id⟩

namespace Sha256

variable (sha : Sha256) (keyTemp : Option (Digest (BitVec 8)))

/-- `hmac_sha256_init`, where `key_temp` keeps what it has if `sha256` gets no memory. -/
def hmacSha256Init (key : List (BitVec 8)) : HmacSha256Ctx :=
  let keyUsed := if sha256BlockSize < key.length then keyTemp.elim (sha.hash key) (·.toList)
    else key
  let fill := sha256BlockSize - keyUsed.length
  ⟨keyUsed.map (· ^^^ 0x36) ++ replicate fill 0x36, keyUsed.map (· ^^^ 0x5c) ++ replicate fill 0x5c⟩

def hmacSha256Update (ctx : HmacSha256Ctx) (message : List (BitVec 8)) : HmacSha256Ctx :=
  { ctx with ctxInside := ctx.ctxInside ++ message }

def hmacSha256Final (ctx : HmacSha256Ctx) : List (BitVec 8) :=
  sha.hash (ctx.ctxOutside ++ sha.hash ctx.ctxInside)

def hmac : Mac (BitVec 8) sha256DigestSize where
  tag key message := sha.hmacSha256Final (hmacSha256Update (sha.hmacSha256Init keyTemp key) message)
  length_tag _ _ := sha.length_hash _

/-- HMAC as the RFC uses it, over a key filled up with zeros. -/
def rfcHmac : Mac (BitVec 8) sha256DigestSize where
  tag key message :=
    let key := if sha256BlockSize < key.length then sha.hash key else key
    let block := key ++ replicate (sha256BlockSize - key.length) 0
    sha.hash (block.map (· ^^^ 0x5c) ++ sha.hash (block.map (· ^^^ 0x36) ++ message))
  length_tag _ _ := sha.length_hash _

def rfcHkdf (salt : Option (List (BitVec 8))) (ikm : List (BitVec 8))
    (info : Option (List (BitVec 8))) (len : Nat) :
    List (BitVec 8) :=
  sha.rfcHmac.derive bytes.counter (salt.getD (replicate sha256DigestSize 0)) ikm (info.getD []) len

/-- The call returns 0 with the key of the RFC, or a negative value. -/
def Derives (salt ikm info : Option (List (BitVec 8))) (okmLen : Nat)
    (result : Int × List (BitVec 8)) : Prop :=
  result.1 < 0 ∨ result.1 = 0 ∧ 1 ≤ okmLen ∧ okmLen ≤ 8160 ∧
    ∃ given ∈ ikm, result.2 = sha.rfcHkdf salt given info okmLen

variable {sha keyTemp}

theorem hmac_tag {key message : List (BitVec 8)}
    (short : keyTemp = none ∨ key.length ≤ sha256BlockSize) :
    (sha.hmac keyTemp).tag key message = sha.rfcHmac.tag key message := by
  have used :
    (if sha256BlockSize < key.length then keyTemp.elim (sha.hash key) (·.toList) else key) =
      if sha256BlockSize < key.length then sha.hash key else key := by
    rcases short with rfl | short
    · rfl
    · rw [if_neg short.not_gt, if_neg short.not_gt]
  simp [hmac, rfcHmac, hmacSha256Init, hmacSha256Update, hmacSha256Final, used]

theorem hmac_expand {prk : List (BitVec 8)} (length : prk.length = sha256DigestSize)
    (info : List (BitVec 8)) (len : Nat) :
    (sha.hmac keyTemp).expand bytes.counter prk info len = sha.rfcHmac.expand bytes.counter prk
      info len := by
  have blocks :
    ∀ count index last, (sha.hmac keyTemp).blocks bytes.counter prk info count index last =
      sha.rfcHmac.blocks bytes.counter prk info count index last := by
    intro count
    induction count with
    | zero => exact fun _ _ => rfl
    | succ count ih =>
      intro index last
      rw [Mac.blocks, Mac.blocks, hmac_tag (.inr (by rw [length]; decide)), ih]
  rw [Mac.expand, Mac.expand, blocks]

end Sha256

theorem hkdfSha256_out_of_range {α : Type} {mac : Mac α sha256DigestSize} {octets : Octets α}
    {platform : Platform α} {salt ikm info : List α} {okmLen : Nat}
    (range : ¬(1 ≤ okmLen ∧ okmLen ≤ 8160)) :
    (hkdfSha256 mac octets platform (some salt) (some ikm) (some info) okmLen).1 = -2 := by
  have refused :
      ∀ memory prk, (hkdfSha256Expand mac octets memory prk (some info) okmLen).1 ≠ 0 := by
    intro memory prk
    rcases Nat.eq_zero_or_pos okmLen with rfl | wanted
    · simp [hkdfSha256Expand]
    have many : 255 < if okmLen % sha256DigestSize ≠ 0 then okmLen / sha256DigestSize + 1
        else okmLen / sha256DigestSize := by
      unfold sha256DigestSize
      split <;> omega
    simp only [hkdfSha256Expand, if_pos many]
    split_ifs <;> simp
  simp [hkdfSha256, hkdfSha256Extract, refused]

/-- In place of SHA-256, a hash that repeats the first byte of its message. -/
def firstByte : Sha256 :=
  ⟨fun message => replicate 32 (message.headD 0), by simp [sha256DigestSize]⟩

theorem hmac_firstByte (keyTemp : Option (Digest (BitVec 8))) (key message : List (BitVec 8)) :
    (firstByte.hmac keyTemp).tag key message =
      replicate 32 ((if sha256BlockSize < key.length then
        keyTemp.elim (firstByte.hash key) (·.toList) else key).headD 0 ^^^ 0x5c) := by
  simp only [Sha256.hmac, Sha256.hmacSha256Final, Sha256.hmacSha256Update, Sha256.hmacSha256Init]
  generalize (if sha256BlockSize < key.length then _ else key) = used
  cases used <;> rfl

/-- With this hash the first byte of the output shows the key of the expansion. -/
theorem expand_firstByte_injective {info : List (BitVec 8)} {okmLen : Nat} (wanted : 1 ≤ okmLen)
    {first second : BitVec 8}
    (same : firstByte.rfcHmac.expand bytes.counter (replicate 32 first) info okmLen =
      firstByte.rfcHmac.expand bytes.counter (replicate 32 second) info okmLen) :
      first = second := by
  have blocks := congrArg (List.take sha256DigestSize) same
  rw [Mac.take_expand (by decide) wanted, Mac.take_expand (by decide) wanted,
    ← Sha256.hmac_tag (.inl rfl), ← Sha256.hmac_tag (.inl rfl), hmac_firstByte,
    hmac_firstByte] at blocks
  have heads := congrArg List.head? blocks
  simp only [length_replicate, sha256BlockSize, Nat.reduceLT, if_false, head?_take,
    Nat.ne_of_gt wanted] at heads
  simpa [replicate] using heads

/-- For every hash and whatever the uninitialised buffers hold, the result is right
exactly if the extraction gets its memory, and the hash of a long salt too, whenever the
expansion goes through. -/
theorem hkdfSha256_derives_iff (memory : KdfMemory) (keyHash : Bool)
    (salt ikm info : Option (List (BitVec 8))) (okmLen : Nat) :
    (∀ (sha : Sha256) (keyTemp : Digest (BitVec 8)) (platform : Platform (BitVec 8)),
        platform.memory = memory →
        sha.Derives salt ikm info okmLen
          (hkdfSha256 (sha.hmac (if keyHash then none else some keyTemp)) bytes platform
            salt ikm info okmLen)) ↔
      (ikm ≠ none → memory.expand = true → 1 ≤ okmLen → okmLen ≤ 8160 →
        memory.extract = true ∧ (keyHash = true ∨ ∀ bytes ∈ salt, bytes.length ≤ 64)) := by
  rcases ikm with _ | given
  · simp [Sha256.Derives, hkdfSha256, hkdfSha256Extract]
  have defaults : ∀ mac platform, hkdfSha256 mac bytes platform salt (some given) info okmLen =
      hkdfSha256 mac bytes platform (some (salt.getD (replicate sha256DigestSize 0))) (some given)
        (some (info.getD [])) okmLen := by
    intro mac platform
    cases salt <;> cases info <;> rfl
  simp only [defaults, ne_eq, reduceCtorEq, not_false_eq_true, true_imp_iff]
  by_cases expand : memory.expand = true
  swap
  · refine iff_of_true ?_ fun granted => absurd granted expand
    rintro sha keyTemp platform rfl
    rw [Sha256.Derives, hkdfSha256_no_memory (by simpa using expand)]
    exact .inl (by decide)
  by_cases range : 1 ≤ okmLen ∧ okmLen ≤ 8160
  swap
  · refine iff_of_true ?_ fun _ wanted limit => absurd ⟨wanted, limit⟩ range
    intro sha keyTemp platform _
    rw [Sha256.Derives, hkdfSha256_out_of_range range]
    exact .inl (by decide)
  have result : ∀ (sha : Sha256) keyTemp
    (platform : Platform (BitVec 8)), platform.memory = memory →
      (sha.Derives salt (some given) info okmLen
        (hkdfSha256 (sha.hmac keyTemp) bytes platform
          (some (salt.getD (replicate sha256DigestSize 0))) (some given)
          (some (info.getD [])) okmLen) ↔
      sha.rfcHmac.expand bytes.counter (hmacSha256 (sha.hmac keyTemp) memory.extract
        (salt.getD (replicate sha256DigestSize 0)) given platform.stackPrk.toList)
        (info.getD []) okmLen =
        sha.rfcHkdf salt given info okmLen) := by
    rintro sha keyTemp platform rfl
    rw [hkdfSha256_eq expand _ _ _ range.1 range.2, Sha256.hmac_expand (length_hmacSha256 _ _)]
    simp [Sha256.Derives, range]
  simp only [expand, range, true_imp_iff]
  constructor
  · intro right
    -- Two contents of the buffer that keeps its old bytes lead to two keys.
    have same : ∀ (keyTemp keyTemp' : Digest (BitVec 8)) (platform platform' : Platform (BitVec 8)),
        platform.memory = memory → platform'.memory = memory → _ :=
      fun keyTemp keyTemp' platform platform' mem mem' =>
        ((result firstByte _ platform mem).mp (right firstByte keyTemp platform mem)).trans
          ((result firstByte _ platform' mem').mp (right firstByte keyTemp' platform' mem')).symm
    let platform (stale : BitVec 8) : Platform (BitVec 8) :=
      ⟨0, .replicate _ 0, memory, .replicate _ stale, 0, []⟩
    have extract : memory.extract = true := by
      by_contra missing
      have equal := same (.replicate _ 0) (.replicate _ 0) (platform 0) (platform 1) rfl rfl
      simp only [hmacSha256, if_neg missing] at equal
      exact absurd (expand_firstByte_injective range.1 equal) (by decide)
    refine ⟨extract, ?_⟩
    by_contra stale
    push Not at stale
    obtain ⟨missing, bytes, rfl, long⟩ := stale
    have equal := same (.replicate _ 0) (.replicate _ 1) (platform 0) (platform 0) rfl rfl
    simp only [hmacSha256, if_pos extract, if_neg missing, hmac_firstByte, Option.getD_some,
      show sha256BlockSize < bytes.length from long, if_true, Option.elim_some] at equal
    exact absurd (expand_firstByte_injective range.1 equal) (by decide)
  · rintro ⟨extract, short⟩ sha keyTemp platform mem
    rw [result sha _ platform mem, hmacSha256, if_pos extract, Sha256.hmac_tag]
    · rfl
    rcases short with granted | short
    · exact .inl (if_pos granted)
    right
    cases salt with
    | none => decide
    | some bytes => exact short bytes rfl

/-- In place of SHA-256, the first bytes of a message. -/
def firstBytes : Sha256 :=
  ⟨fun message => (message ++ replicate 32 0).take 32, by simp [sha256DigestSize]⟩

theorem stale_prk_expanded :
    ¬firstBytes.Derives none (some []) none 1 (hkdfSha256 (firstBytes.hmac none) bytes
      ⟨0, .replicate _ 0, ⟨false, true⟩, .replicate _ 0, 0, []⟩ none (some []) none 1) := by
  rintro (negative | ⟨_, _, _, given, ⟨⟩, okm⟩)
  · exact absurd negative (by decide +kernel)
  · exact absurd okm (by decide +kernel)

end Trusty.Hwkey
