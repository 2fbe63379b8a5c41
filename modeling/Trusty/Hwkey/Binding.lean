import Trusty.Hwkey.Service
import Trusty.Lib.Transcript

/-!
What the keys of the hardware key service depend on.

`derivedKey` is what the pair of extraction and expansion comes to for a request; the
lemma `step_key` says that the service returns it.  The master key is not in it, since
its length is passed as 0, and of the UUID only as much as a pointer is long.
-/

namespace Trusty.Hwkey

open Lib Kernel List

section Derivation

variable {α : Type} {arch : Arch} {mac : Mac α sha256DigestSize} {octets : Octets α}

/-- The counter of the expansion is one byte. -/
def Octets.counter (octets : Octets α) (index : Nat) : α := octets.octet (BitVec.ofNat 8 index)

theorem expandLoop_eq (prk info : List α) (okmLen left i pos : Nat) (T : List α)
    (room : (left - 1) * sha256DigestSize ≤ okmLen - pos) :
    expandLoop mac octets prk info okmLen left i pos T =
      ((mac.blocks octets.counter prk info left i T).flatten).take (okmLen - pos) := by
  induction left generalizing i pos T with
  | zero => simp [expandLoop, Mac.blocks]
  | succ left ih =>
    rw [expandLoop, Mac.blocks, flatten_cons]
    by_cases last : left = 0
    · subst last
      simp [expandLoop, Mac.blocks, Octets.counter]
    have whole : sha256DigestSize ≤ okmLen - pos := by
      refine Nat.le_trans ?_ room
      exact Nat.le_mul_of_pos_left _ (Nat.pos_of_ne_zero last)
    have rest : (left - 1) * sha256DigestSize ≤ okmLen - (pos + sha256DigestSize) := by
      obtain ⟨fewer, rfl⟩ := Nat.exists_eq_succ_of_ne_zero last
      rw [Nat.add_sub_cancel, Nat.succ_mul] at room
      rw [Nat.succ_sub_one]
      omega
    have block := mac.length_tag prk (T ++ info ++ [octets.counter i])
    rw [if_pos last, ih _ _ _ rest, take_append, take_of_length_le (block.le.trans whole),
      block, Nat.sub_sub]
    rfl

variable {platform : Platform α} {okmLen : Nat} {uuid : Uuid α} {payload : List α}

theorem length_hmacSha256 (salt ikm : List α) :
    (hmacSha256 mac platform.memory.extract salt ikm platform.stackPrk.toList).length =
      sha256DigestSize := by
  unfold hmacSha256
  split
  · exact mac.length_tag _ _
  · exact platform.stackPrk.toList_length

theorem hkdfSha256_eq (memory : platform.memory.expand = true) (salt ikm info : List α)
    (wanted : 0 < okmLen) (limit : okmLen ≤ 255 * sha256DigestSize) :
    hkdfSha256 mac octets platform (some salt) (some ikm) (some info) okmLen =
      (0, mac.expand octets.counter
        (hmacSha256 mac platform.memory.extract salt ikm platform.stackPrk.toList) info
          okmLen) := by
  have rounds :
    (if okmLen % sha256DigestSize ≠ 0 then okmLen / sha256DigestSize + 1
      else okmLen / sha256DigestSize) =
      (okmLen + sha256DigestSize - 1) / sha256DigestSize := by
    unfold sha256DigestSize
    split <;> omega
  have few : ¬255 < (okmLen + sha256DigestSize - 1) / sha256DigestSize := by
    unfold sha256DigestSize at limit ⊢
    omega
  have room :
      ((okmLen + sha256DigestSize - 1) / sha256DigestSize - 1) * sha256DigestSize ≤ okmLen - 0 := by
    unfold sha256DigestSize
    omega
  have expanded : ∀ prk : List α, prk.length = sha256DigestSize →
      hkdfSha256Expand mac octets true prk
      (some info) okmLen = (0, mac.expand octets.counter prk info okmLen) := by
    intro prk digest
    rw [hkdfSha256Expand, digest, if_neg (by unfold sha256DigestSize; omega), if_neg (by decide),
      if_neg (lt_irrefl _), rounds, if_neg few, Option.getD_some, expandLoop_eq _ _ _ _ _ _ _ room]
    rfl
  simp [hkdfSha256, hkdfSha256Extract, memory, expanded _ (length_hmacSha256 salt ikm)]

/-- The pseudorandom key that is extracted for a client. -/
def extractedPrk (arch : Arch) (mac : Mac α sha256DigestSize) (platform : Platform α)
    (uuid : Uuid α) : List α :=
  hmacSha256 mac platform.memory.extract [] (uuid.toList.take (arch.bits / 8))
    platform.stackPrk.toList

def derivedKey (arch : Arch) (mac : Mac α sha256DigestSize) (octets : Octets α)
    (platform : Platform α) (uuid : Uuid α) (payload : List α) : List α :=
  mac.expand octets.counter (extractedPrk arch mac platform uuid) payload payload.length

/-- A request for a key of the version that exists, which fits the buffers. -/
structure Derivable (hdr : HwkeyMsg) (payload : List α) : Prop where
  cmd : hdr.cmd = hwkeyDerive
  version : hdr.arg1 = hwkeyKdfVersionBest ∨ hdr.arg1 = hwkeyKdfVersion1
  nonempty : payload ≠ []
  short : payload.length ≤ hwkeyMaxPayloadSize

structure Platform.Willing (platform : Platform α) : Prop where
  masterkey : platform.masterkeyStatus = hwkeyNoError
  memory : platform.memory.expand = true

theorem take_overwrite_derivedKey (keyData : List α) :
    (overwrite keyData 0 (derivedKey arch mac octets platform uuid payload)).take payload.length =
      derivedKey arch mac octets platform uuid payload := by
  have length : (derivedKey arch mac octets platform uuid payload).length = payload.length :=
    Mac.length_expand (by decide)
  rw [overwrite, take_zero, nil_append, ← length, take_left]

theorem deriveKeyV1_willing (willing : platform.Willing) (uuid : Uuid α) (nonempty : payload ≠ [])
    (short : payload.length ≤ hwkeyMaxPayloadSize) (keyData : List α) :
    deriveKeyV1 arch mac octets platform uuid payload keyData 0 =
      (hwkeyNoError, overwrite keyData 0 (derivedKey arch mac octets platform uuid payload),
        payload.length) := by
  have limit : payload.length ≤ 255 * sha256DigestSize := short.trans (by decide)
  rw [deriveKeyV1, if_neg (by simpa using nonempty), if_pos willing.masterkey,
    platHkdfSha256, take_zero,
    hkdfSha256_eq willing.memory _ _ _ (length_pos_of_ne_nil nonempty) limit]
  rfl

theorem hkdfSha256Expand_no_memory {prk info : List α} :
    (hkdfSha256Expand mac octets false prk (some info) okmLen).1 ≠ 0 := by
  unfold hkdfSha256Expand
  split
  · exact (by decide : (-1 : Int) ≠ 0)
  · exact (by decide : (-2 : Int) ≠ 0)

theorem hkdfSha256_no_memory (memory : platform.memory.expand = false) (salt ikm info : List α)
    (okmLen : Nat) :
    (hkdfSha256 mac octets platform (some salt) (some ikm) (some info) okmLen).1 = -2 := by
  simp [hkdfSha256, hkdfSha256Extract, memory, if_pos hkdfSha256Expand_no_memory]

theorem willing_of_deriveKeyV1 {keyData : List α}
    (ok : (deriveKeyV1 arch mac octets platform uuid payload keyData 0).1 = hwkeyNoError) :
    platform.Willing ∧ payload ≠ [] := by
  unfold deriveKeyV1 at ok
  split at ok
  · cases ok
  rename_i nonempty
  split at ok
  · rename_i masterkey
    refine ⟨⟨masterkey, ?_⟩, by simpa using nonempty⟩
    by_contra noMemory
    simp only [platHkdfSha256, hkdfSha256_no_memory (Bool.not_eq_true _ ▸ noMemory)] at ok
    exact absurd ok (by decide)
  · rename_i refused
    exact absurd ok refused

end Derivation

section Requests

variable {α : Type} [DecidableEq α] {arch : Arch} {mac : Mac α sha256DigestSize} {octets : Octets α}

def HwkeyOutput.key : HwkeyOutput α → Option (List α)
  | .sent _ (some (hdr, key)) =>
    if hdr.cmd = hwkeyDerive ||| hwkeyRespBit ∧ hdr.status = hwkeyNoError then some key else none
  | _ => none

def arrives (chan : Nat) (hdr : HwkeyMsg) (payload : List α) (platform : Platform α) :
    HwkeyEvent α :=
  .channel chan false true ⟨0, .full hdr payload, 0, 0, platform⟩

omit [DecidableEq α] in
theorem handleDeriveKeyCmd_key (platform : Platform α) (uuid : Uuid α) (hdr : HwkeyMsg)
    (payload keyData key : List α) (short : payload.length ≤ hwkeyMaxPayloadSize) (chan : Nat) :
    (HwkeyOutput.sent chan
        (some (hwkeyHandleDeriveKeyCmd arch mac octets platform uuid hdr payload keyData).1)).key =
        some key ↔
      (hdr.arg1 = hwkeyKdfVersionBest ∨ hdr.arg1 = hwkeyKdfVersion1) ∧ payload ≠ [] ∧
      platform.Willing ∧
        key = derivedKey arch mac octets platform uuid payload := by
  have version :
    (if hdr.arg1 = hwkeyKdfVersionBest then hwkeyKdfVersion1 else hdr.arg1) = hwkeyKdfVersion1 ↔
      hdr.arg1 = hwkeyKdfVersionBest ∨ hdr.arg1 = hwkeyKdfVersion1 := by
    split <;> simp_all
  by_cases known : hdr.arg1 = hwkeyKdfVersionBest ∨ hdr.arg1 = hwkeyKdfVersion1
  · simp only [hwkeyHandleDeriveKeyCmd, if_pos (version.mpr known), HwkeyOutput.key, true_and]
    constructor
    · intro found
      split at found
      · rename_i ok
        obtain ⟨willing, nonempty⟩ := willing_of_deriveKeyV1 ok
        rw [deriveKeyV1_willing willing uuid nonempty short] at found
        exact ⟨known, nonempty, willing,
          (Option.some.inj found).symm.trans (take_overwrite_derivedKey _)⟩
      · cases found
    · rintro ⟨-, nonempty, willing, rfl⟩
      rw [deriveKeyV1_willing willing uuid nonempty short, if_pos rfl]
      exact congrArg some (take_overwrite_derivedKey _)
  · have refused : ¬hwkeyErrNotImplemented = hwkeyNoError := by decide
    simp only [hwkeyHandleDeriveKeyCmd, if_neg (version.not.mpr known), HwkeyOutput.key, refused,
      and_false, if_false, known, false_and, reduceCtorEq]

theorem step_key {service : HwkeyService α} {chan : Nat} {uuid : Uuid α}
    (opened : service.contexts chan = some uuid) (hdr : HwkeyMsg) (payload : List α)
    (platform : Platform α) (key : List α) :
    (hwkeyStep arch mac octets service (arrives chan hdr payload platform)).1.key = some key ↔
      Derivable hdr payload ∧ platform.Willing ∧
      key = derivedKey arch mac octets platform uuid payload := by
  have read : ¬(0 : Int) < 0 := lt_irrefl 0
  simp only [hwkeyStep, arrives, hwkeyChanHandler, opened, hwkeyChanHandleMsg, Bool.false_eq_true,
    if_false, if_true, ne_eq, not_true_eq_false, read]
  by_cases long : hwkeyMaxPayloadSize < payload.length
  · rw [if_pos long]
    refine iff_of_false (fun contra => ?_) fun holds => absurd holds.1.short (Nat.not_le.mpr long)
    cases contra
  rw [if_neg long]
  by_cases keyslot : hdr.cmd = hwkeyGetKeyslot
  · rw [if_pos keyslot]
    have other : ¬hwkeyGetKeyslot ||| hwkeyRespBit = hwkeyDerive ||| hwkeyRespBit := by decide
    refine iff_of_false (fun contra => ?_) fun holds =>
      absurd (keyslot.symm.trans holds.1.cmd) (by decide)
    simp only [HwkeyOutput.key, hwkeyHandleGetKeyslotCmd, other, false_and, if_false,
      reduceCtorEq] at contra
  rw [if_neg keyslot]
  by_cases derives : hdr.cmd = hwkeyDerive
  · rw [if_pos derives, handleDeriveKeyCmd_key _ _ _ _ _ _ (Nat.not_lt.mp long)]
    constructor
    · rintro ⟨version, nonempty, willing, same⟩
      exact ⟨⟨derives, version, nonempty, Nat.not_lt.mp long⟩, willing, same⟩
    · rintro ⟨derivable, willing, same⟩
      exact ⟨derivable.version, derivable.nonempty, willing, same⟩
  · rw [if_neg derives]
    refine iff_of_false (fun contra => ?_) fun holds => absurd holds.1.cmd derives
    cases contra

end Requests

section Runs

variable {α : Type} {arch : Arch} {mac : Mac α sha256DigestSize} {octets : Octets α}

def HwkeyOutput.updatePeer (chan : Nat) (last : Option (Uuid α)) : HwkeyOutput α → Option (Uuid α)
  | .accepted other peerUuid => if other = chan then some peerUuid else last
  | _ => last

def lastAccepted (chan : Nat) (outputs : List (HwkeyOutput α)) : Option (Uuid α) :=
  outputs.foldl (HwkeyOutput.updatePeer chan) none

theorem lastAccepted_append (chan : Nat) (outputs : List (HwkeyOutput α)) (output : HwkeyOutput α) :
    lastAccepted chan (outputs ++ [output]) = output.updatePeer chan
      (lastAccepted chan outputs) := by
  rw [lastAccepted, foldl_append]
  rfl

def PeersRecorded (outputs : List (HwkeyOutput α)) (service : HwkeyService α) : Prop :=
  ∀ chan uuid, service.contexts chan = some uuid → lastAccepted chan outputs = some uuid

variable {outputs : List (HwkeyOutput α)} {service : HwkeyService α}

section

variable (recorded : PeersRecorded outputs service)

include recorded

theorem PeersRecorded.close (chan : Nat) :
    PeersRecorded outputs (hwkeyCloseChan service chan) := by
  intro other uuid opened
  by_cases same : other = chan
  · subst same
    simp only [hwkeyCloseChan, Function.update_self, reduceCtorEq] at opened
  · simp only [hwkeyCloseChan, Function.update_of_ne same] at opened
    exact recorded other uuid opened

theorem PeersRecorded.quiet {output : HwkeyOutput α}
    (quiet : ∀ chan last, output.updatePeer chan last = last) :
    PeersRecorded (outputs ++ [output]) service := by
  intro chan uuid opened
  rw [lastAccepted_append, quiet]
  exact recorded chan uuid opened

theorem peersRecorded_port (accepted : Option (Nat × Uuid α))
    (memory : Bool) :
    PeersRecorded (outputs ++ [(hwkeyPortHandler service accepted memory).1])
      (hwkeyPortHandler service accepted memory).2 := by
  cases accepted with
  | none => exact recorded.quiet fun _ _ => rfl
  | some pair =>
    obtain ⟨chan, peerUuid⟩ := pair
    cases memory with
    | false => exact recorded.quiet fun _ _ => rfl
    | true =>
      intro other uuid opened
      rw [lastAccepted_append]
      by_cases same : other = chan
      · subst same
        simpa [hwkeyPortHandler, HwkeyOutput.updatePeer] using opened
      · simp only [hwkeyPortHandler, if_true, Function.update_of_ne same] at opened
        have kept := recorded other uuid opened
        simpa [hwkeyPortHandler, HwkeyOutput.updatePeer, Ne.symm same] using kept

variable [DecidableEq α]

theorem peersRecorded_channel (chan : Nat) (hup msg : Bool) (given : ChanGiven α) :
    PeersRecorded (outputs ++ [(hwkeyChanHandler arch mac octets service chan hup msg given).1])
      (hwkeyChanHandler arch mac octets service chan hup msg given).2 := by
  unfold hwkeyChanHandler
  split
  · exact recorded.quiet fun _ _ => rfl
  split
  · exact (recorded.close chan).quiet fun _ _ => rfl
  split
  · refine PeersRecorded.quiet ?_ fun _ _ => rfl
    dsimp only
    split
    · exact recorded.close chan
    · exact recorded
  · exact recorded.quiet fun _ _ => rfl

end

variable [DecidableEq α]

theorem run_peersRecorded (inputs : List (HwkeyEvent α)) :
    PeersRecorded (Transcript.transcript (hwkeyStep arch mac octets) (.fresh octets) inputs)
      (Transcript.final (hwkeyStep arch mac octets) (.fresh octets) inputs) := by
  apply Transcript.invariant
  · intro outputs service input recorded
    cases input with
    | port accepted memory => exact peersRecorded_port recorded accepted memory
    | channel chan hup msg given => exact peersRecorded_channel recorded chan hup msg given
  · intro chan uuid contra
    cases contra

structure Connected (arch : Arch) (mac : Mac α sha256DigestSize) (octets : Octets α)
    (inputs : List (HwkeyEvent α)) (chan : Nat) (peer : Uuid α) : Prop where
  accepted :
    lastAccepted chan (Transcript.transcript (hwkeyStep arch mac octets) (.fresh octets) inputs) =
      some peer
  opened :
    (Transcript.final (hwkeyStep arch mac octets) (.fresh octets) inputs).contexts chan ≠ none

theorem Connected.context {inputs : List (HwkeyEvent α)} {chan : Nat} {peer : Uuid α}
    (connected : Connected arch mac octets inputs chan peer) :
    (Transcript.final (hwkeyStep arch mac octets) (.fresh octets) inputs).contexts
      chan = some peer := by
  obtain ⟨uuid, opened⟩ := Option.ne_none_iff_exists'.mp connected.opened
  have recorded := run_peersRecorded inputs chan uuid opened
  rw [connected.accepted] at recorded
  rw [opened, recorded]

theorem connected_accept (arch : Arch) (mac : Mac α sha256DigestSize)
    (octets : Octets α) (chan : Nat) (peer : Uuid α) :
    Connected arch mac octets [.port (some (chan, peer)) true] chan peer := by
  constructor
  · simp [lastAccepted, Transcript.transcript, hwkeyStep, hwkeyPortHandler, HwkeyOutput.updatePeer]
  · simp [Transcript.final, hwkeyStep, hwkeyPortHandler]

end Runs

section Device

variable {α : Type} [DecidableEq α] (arch : Arch) (mac : Mac α sha256DigestSize) (octets : Octets α)

/-- Different master keys give a client different keys for a request. -/
def BindsToDevice (uuid : Uuid α) (hdr : HwkeyMsg) (payload : List α) : Prop :=
  ∀ (inputs inputs' : List (HwkeyEvent α)) (chan chan' : Nat) (platform platform' : Platform α),
    Connected arch mac octets inputs chan uuid → Connected arch mac octets inputs' chan' uuid →
    platform.masterKey ≠ platform'.masterKey →
    ∀ key key' : List α,
      (hwkeyStep arch mac octets
        (Transcript.final (hwkeyStep arch mac octets) (.fresh octets) inputs)
        (arrives chan hdr payload platform)).1.key = some key →
      (hwkeyStep arch mac octets
        (Transcript.final (hwkeyStep arch mac octets) (.fresh octets) inputs')
        (arrives chan' hdr payload platform')).1.key = some key' → key ≠ key'

def willingPlatform (masterKey : List.Vector α hwkeyDevKeySize) (memory : KdfMemory)
    (stackPrk : Digest α) :
    Platform α where
  masterkeyStatus := hwkeyNoError
  masterKey := masterKey
  memory := memory
  stackPrk := stackPrk
  rpmbStatus := hwkeyErrNotFound
  rpmbKey := []

def uniformPlatform (letter : α) : Platform α :=
  willingPlatform (List.Vector.replicate _ letter) ⟨true, true⟩
    (List.Vector.replicate _ (octets.octet 0))

variable {hdr : HwkeyMsg} {payload : List α}

/-- The key that a client gets which has just connected. -/
theorem key_of_accepted (derivable : Derivable hdr payload) (uuid : Uuid α) {platform : Platform α}
    (willing : platform.Willing) :
    (hwkeyStep arch mac octets
      (Transcript.final (hwkeyStep arch mac octets) (.fresh octets) [.port (some (0, uuid)) true])
      (arrives 0 hdr payload platform)).1.key = some
      (derivedKey arch mac octets platform uuid payload) :=
  (step_key (connected_accept arch mac octets 0 uuid).context hdr payload _ _).mpr
    ⟨derivable, willing, rfl⟩

/-- No key that is returned is bound to the device. -/
theorem bindsToDevice_iff (uuid : Uuid α) (hdr : HwkeyMsg) (payload : List α) :
    BindsToDevice arch mac octets uuid hdr payload ↔ ¬Derivable hdr payload := by
  constructor
  · intro binds derivable
    have differ : (uniformPlatform octets (octets.octet 0)).masterKey ≠
        (uniformPlatform octets (octets.octet 1)).masterKey := by
      intro same
      have heads := congrArg List.Vector.head same
      exact absurd (octets.injective heads) (by decide)
    have connected := connected_accept arch mac octets 0 uuid
    exact binds _ _ 0 0 _ _ connected connected differ _ _
      (key_of_accepted arch mac octets derivable uuid ⟨rfl, rfl⟩)
      (key_of_accepted arch mac octets derivable uuid ⟨rfl, rfl⟩) rfl
  · intro refused inputs inputs' chan chan' platform platform' connected _ _ key key' returned
    exact absurd ((step_key connected.context hdr payload platform key).mp returned).1 refused

def numbers : Octets Nat := ⟨BitVec.toNat, fun _ _ => BitVec.eq_of_toNat_eq⟩

def deriveRequest : HwkeyMsg := ⟨hwkeyDerive, 0, 0, hwkeyKdfVersion1, 0⟩

theorem derivable_deriveRequest : Derivable deriveRequest (List.replicate 32 7) :=
  ⟨rfl, .inr rfl, by decide, by decide⟩

def endingIn (last : Nat) : Uuid Nat := ⟨List.replicate 15 0 ++ [last], rfl⟩

/-- A request for 32 bytes gets the same key for two master keys that have no byte in common. -/
theorem same_key_on_two_devices : ∃ mac : Mac Nat sha256DigestSize, mac.Injective ∧
    (uniformPlatform numbers 0).masterKey ≠ (uniformPlatform numbers 1).masterKey ∧
      ∃ key, ∀ letter : Nat,
        (hwkeyStep arm64 mac numbers
          (Transcript.final (hwkeyStep arm64 mac numbers)
            (.fresh numbers) [.port (some (0, endingIn 0)) true])
          (arrives 0 deriveRequest (List.replicate 32 7) (uniformPlatform numbers letter))).1.key =
          some key := by
  obtain ⟨mac, injective, -⟩ := @Mac.exists_injective_agreeing Nat sha256DigestSize 0 _ (by decide)
  refine ⟨mac, injective, by decide,
    derivedKey arm64 mac numbers (uniformPlatform numbers 0) (endingIn 0) (List.replicate 32 7),
    fun letter => ?_⟩
  exact key_of_accepted arm64 mac numbers derivable_deriveRequest (endingIn 0) ⟨rfl, rfl⟩

end Device

section Applications

variable {α : Type} [DecidableEq α] (arch : Arch) (octets : Octets α)

/-- The two clients get different keys for a request, whatever the master key is and
whatever injective hash is used. -/
def SeparatesApplications (peer peer' : Uuid α) (hdr : HwkeyMsg) (payload : List α)
    (memory memory' : KdfMemory) :
    Prop :=
  ∀ mac : Mac α sha256DigestSize, mac.Injective →
    ∀ (inputs inputs' : List (HwkeyEvent α)) (chan chan' : Nat) (platform platform' : Platform α),
      Connected arch mac octets inputs chan peer → Connected arch mac octets inputs' chan' peer' →
      platform.memory = memory → platform'.memory = memory' →
        platform.masterKey = platform'.masterKey →
      ∀ key key' : List α,
        (hwkeyStep arch mac octets
          (Transcript.final (hwkeyStep arch mac octets) (.fresh octets) inputs)
          (arrives chan hdr payload platform)).1.key = some key →
        (hwkeyStep arch mac octets
          (Transcript.final (hwkeyStep arch mac octets) (.fresh octets) inputs')
          (arrives chan' hdr payload platform')).1.key = some key' → key ≠ key'

/-- What the derivation needs to tell two clients apart. -/
structure ToldApart (peer peer' : Uuid α) (payload : List α) (memory memory' : KdfMemory) :
    Prop where
  uuids : peer.toList.take (arch.bits / 8) ≠ peer'.toList.take (arch.bits / 8)
  whole : sha256DigestSize ≤ payload.length
  extracted : memory.extract = true
  extracted' : memory'.extract = true

variable {arch octets} {peer peer' : Uuid α} {payload : List α} {memory memory' : KdfMemory}

variable {mac : Mac α sha256DigestSize} {platform platform' : Platform α}

omit [DecidableEq α] in
theorem derivedKey_ne (injective : mac.Injective)
    (apart : ToldApart arch peer peer' payload platform.memory platform'.memory) :
    derivedKey arch mac octets platform peer payload ≠ derivedKey arch mac octets platform' peer'
      payload := by
  intro same
  simp only [derivedKey, extractedPrk, hmacSha256, apart.extracted, apart.extracted',
    if_true] at same
  obtain ⟨-, sameUuid, -⟩ := Mac.derive_injective injective (by decide) apart.whole same
  exact apart.uuids sameUuid

omit [DecidableEq α] in
/-- With the same pseudorandom key there is nothing left to tell the clients apart. -/
theorem derivedKey_congr
    (same : extractedPrk arch mac platform peer = extractedPrk arch mac platform' peer') :
    derivedKey arch mac octets platform peer payload = derivedKey arch mac octets platform' peer'
      payload := by
  rw [derivedKey, derivedKey, same]

omit [DecidableEq α] in
/-- A short key is cut from the first block, which may agree up to its last byte. -/
theorem exists_same_key_of_short [Infinite α] (nonempty : payload ≠ [])
    (short : payload.length < sha256DigestSize) :
    ∃ mac : Mac α sha256DigestSize, mac.Injective ∧ ∀ platform platform' : Platform α,
      derivedKey arch mac octets platform peer payload = derivedKey arch mac octets platform' peer'
        payload := by
  obtain ⟨mac, injective, agree⟩ := @Mac.exists_injective_agreeing α _ _ _ short
  refine ⟨mac, injective, fun platform platform' => ?_⟩
  have wanted := length_pos_of_ne_nil nonempty
  rw [derivedKey, derivedKey, Mac.expand_of_le (by decide) wanted short.le,
    Mac.expand_of_le (by decide) wanted short.le]
  exact agree _ _ _ _

/-- The stack may hold the digest of the other client where none is computed. -/
theorem exists_same_prk (arch : Arch) (mac : Mac α sha256DigestSize) (peer peer' : Uuid α)
    (memory memory' : KdfMemory)
    (told :
      ¬(peer.toList.take (arch.bits / 8) ≠ peer'.toList.take (arch.bits / 8) ∧
        memory.extract = true ∧
      memory'.extract = true)) :
    ∃ stack : Digest α, ∀ platform platform' :
    Platform α, platform.memory = memory → platform'.memory = memory' →
      platform.stackPrk = stack → platform'.stackPrk = stack →
      extractedPrk arch mac platform peer = extractedPrk arch mac platform' peer' := by
  let digest (uuid : Uuid α) : Digest α :=
    ⟨mac.tag [] (uuid.toList.take (arch.bits / 8)), mac.length_tag _ _⟩
  refine ⟨if memory.extract then digest peer else digest peer', ?_⟩
  rintro platform platform' rfl rfl stack stack'
  simp only [extractedPrk, hmacSha256, stack, stack']
  cases first : platform.memory.extract <;> cases second : platform'.memory.extract
  · rfl
  · rfl
  · rfl
  · have sameUuid : peer.toList.take (arch.bits / 8) = peer'.toList.take (arch.bits / 8) := by
      by_contra differ
      exact told ⟨differ, first, second⟩
    simp [sameUuid]

theorem not_separates {hdr : HwkeyMsg} (derivable : Derivable hdr payload)
    (expanded : memory.expand = true) (expanded' : memory'.expand = true)
    (injective : mac.Injective) {stack : Digest α} (masterKey : List.Vector α hwkeyDevKeySize)
    (same : derivedKey arch mac octets (willingPlatform masterKey memory stack) peer payload =
      derivedKey arch mac octets (willingPlatform masterKey memory' stack) peer' payload) :
    ¬SeparatesApplications arch octets peer peer' hdr payload memory memory' := by
  intro separates
  have connected := connected_accept arch mac octets 0
  exact separates mac injective _ _ 0 0 (willingPlatform masterKey memory stack)
    (willingPlatform masterKey memory' stack) (connected peer) (connected peer') rfl rfl rfl _ _
    (key_of_accepted arch mac octets derivable peer ⟨rfl, expanded⟩)
    (key_of_accepted arch mac octets derivable peer' ⟨rfl, expanded'⟩) same

/-- Clients are told apart by the start of their UUIDs only, and only by whole digests. -/
theorem separatesApplications_iff [Infinite α] (arch : Arch) (octets : Octets α)
    (peer peer' : Uuid α) (hdr : HwkeyMsg) (payload : List α) (memory memory' : KdfMemory) :
    SeparatesApplications arch octets peer peer' hdr payload memory memory' ↔
      (Derivable hdr payload → memory.expand = true → memory'.expand = true →
        ToldApart arch peer peer' payload memory memory') := by
  constructor
  · intro separates derivable expanded expanded'
    have anyKey : List.Vector α hwkeyDevKeySize := List.Vector.replicate _ (octets.octet 0)
    by_cases short : payload.length < sha256DigestSize
    · obtain ⟨mac, injective, same⟩ := exists_same_key_of_short derivable.nonempty short
      exact absurd separates (not_separates derivable expanded expanded' injective anyKey
        (same (willingPlatform anyKey memory (List.Vector.replicate _ (octets.octet 0))) _))
    obtain ⟨mac, injective, -⟩ := @Mac.exists_injective_agreeing α sha256DigestSize 0 _ (by decide)
    by_contra together
    obtain ⟨stack, same⟩ := exists_same_prk arch mac peer peer' memory memory'
      fun told => together ⟨told.1, Nat.not_lt.mp short, told.2.1, told.2.2⟩
    exact not_separates derivable expanded expanded' injective anyKey
      (derivedKey_congr (same _ _ rfl rfl rfl rfl)) separates
  · intro apart mac injective inputs inputs' chan chan' platform platform' connected connected' rfl
      rfl _ key key' returned returned'
    obtain ⟨derivable, willing, rfl⟩ :=
      (step_key connected.context hdr payload platform key).mp returned
    obtain ⟨-, willing', rfl⟩ :=
      (step_key connected'.context hdr payload platform' key').mp returned'
    exact derivedKey_ne injective (apart derivable willing.memory willing'.memory)

/-- Clients that differ in the first byte get different keys of 32 bytes. -/
theorem separatesApplications_iff_first_byte :
    SeparatesApplications arm64 numbers (endingIn 0) ⟨1 :: List.replicate 15 0, rfl⟩ deriveRequest
      (List.replicate 32 7) ⟨true, true⟩ ⟨true, true⟩ :=
  (separatesApplications_iff _ _ _ _ _ _ _ _).mpr fun _ _ _ => ⟨by decide, by decide, rfl, rfl⟩

/-- Clients that differ in the last byte of the UUID get the same key of 32 bytes. -/
theorem same_key_for_two_applications : endingIn 0 ≠ endingIn 1 ∧ ∃ mac :
    Mac Nat sha256DigestSize, mac.Injective ∧
    ∃ key, ∀ peer ∈ [endingIn 0, endingIn 1],
      (hwkeyStep arm64 mac numbers
        (Transcript.final (hwkeyStep arm64 mac numbers)
          (.fresh numbers) [.port (some (0, peer)) true])
        (arrives 0 deriveRequest (List.replicate 32 7) (uniformPlatform numbers 0))).1.key =
        some key := by
  refine ⟨by decide, ?_⟩
  obtain ⟨mac, injective, -⟩ := @Mac.exists_injective_agreeing Nat sha256DigestSize 0 _ (by decide)
  refine ⟨mac, injective, derivedKey arm64 mac numbers (uniformPlatform numbers 0) (endingIn 0)
    (List.replicate 32 7), ?_⟩
  intro peer listed
  refine (step_key (connected_accept arm64 mac numbers 0 peer).context _ _ _ _).mpr
    ⟨derivable_deriveRequest, ⟨rfl, rfl⟩, derivedKey_congr ?_⟩
  -- of both UUIDs eight zeros enter the extraction
  simp only [mem_cons, not_mem_nil, or_false] at listed
  rcases listed with rfl | rfl <;> rfl

end Applications

end Trusty.Hwkey
