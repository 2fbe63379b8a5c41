import Trusty.Keymaster.AttestationStore

/-!
The key and the certificate chain that an attestation is signed with
(`trusty_keymaster_context.cpp`).

Both are looked up in the slot of the algorithm, one after the other; each has the
built-in one to fall back to.
-/

namespace Trusty.Keymaster

/-- The tables of `soft_attestation_cert.cpp`. -/
structure SoftAttestation where
  getAttestationKey : AttestationKeySlot → List Byte
  getAttestationChain : AttestationKeySlot → List (List Byte)

inductive Credential (α : Type) where
  | stored (slot : AttestationKeySlot) (value : α)
  | software (value : α)
deriving DecidableEq

structure ChainGiven where
  memory : Bool
  start : SecureStorageManager.InstanceGiven
  read : SecureStorageManager.ReadGiven
  copied : Bool

structure KeyGiven where
  start : SecureStorageManager.InstanceGiven
  read : SecureStorageManager.ReadGiven
  copied : Bool
  softCopied : Bool

section Lookup

variable (soft : SoftAttestation) (manager : SecureStorageManager)

def attestationChain (algorithm : BitVec 32) (given : ChainGiven) :
    Except KmError (Credential (List (List Byte))) × SecureStorageManager :=
  if ¬ given.memory then (.error .memoryAllocationFailed, manager)
  else
    match keySlot algorithm with
    | none => (.error .unsupportedAlgorithm, manager)
    | some slot =>
      match manager.getInstance given.start with
      | none => (.error .secureHwCommunicationFailed, manager.closeSession)
      | some manager =>
        match manager.readCertChainFromStorage slot given.read given.copied with
        | (.ok (cert :: rest), manager) => (.ok (.stored slot (cert :: rest)), manager)
        | (_, manager) => (.ok (.software (soft.getAttestationChain slot)), manager)

def attestationKey (algorithm : BitVec 32) (given : KeyGiven) :
    Except KmError (Credential (List Byte)) :=
  match keySlot algorithm with
  | none => .error .unsupportedAlgorithm
  | some slot =>
    match manager.getInstance given.start with
    | none => .error .secureHwCommunicationFailed
    | some manager =>
      match manager.readKeyFromStorage slot given.read given.copied with
      | (.ok key, _) => .ok (.stored slot key)
      | (.error _, _) =>
        if given.softCopied then .ok (.software (soft.getAttestationKey slot))
        else .error .memoryAllocationFailed

structure AttestationGiven where
  chain : ChainGiven
  key : KeyGiven

/-- `GenerateAttestation` for the algorithm of a key, up to the chain and the key that
`generate_attestation` is called with. -/
def generateAttestation (keyAlgorithm : Option (BitVec 32)) (given : AttestationGiven) :
    Except KmError (Credential (List (List Byte)) × Credential (List Byte)) :=
  match keyAlgorithm with
  | none => .error .unknownError
  | some algorithm =>
    if algorithm ≠ kmAlgorithmRsa ∧ algorithm ≠ kmAlgorithmEc then .error .incompatibleAlgorithm
    else
      match attestationChain soft manager algorithm given.chain with
      | (.error err, _) => .error err
      | (.ok chain, manager) =>
        match attestationKey soft manager algorithm given.key with
        | .error err => .error err
        | .ok key => .ok (chain, key)

end Lookup

/-! ### Which lookups find something -/

namespace SecureStorageManager

variable {manager : SecureStorageManager} {slot : AttestationKeySlot} {given : ReadGiven}

def ReadGiven.Succeeds (given : ReadGiven) : Prop :=
  given.memory ∧ given.opened ∧ given.sized ∧ given.decoded

section

variable (manager : SecureStorageManager) (slot : AttestationKeySlot) (given : ReadGiven)
  (copied : Bool)

def ChainReadable : Prop :=
  ∃ record, manager.files slot = some record ∧ record.certs ≠ [] ∧ given.Succeeds ∧ copied

def KeyReadable : Prop :=
  ∃ record, manager.files slot = some record ∧ record.hasKey ∧ given.Succeeds ∧ copied

end

section

variable (opened : manager.session = true)

include opened

theorem readAttestationKey_cases :
    (∃ record, manager.files slot = some record ∧ given.Succeeds ∧
      manager.readAttestationKey slot given = .ok record) ∨
    ((∀ record, manager.files slot = some record → ¬ given.Succeeds) ∧
      (manager.readAttestationKey slot given = .ok .initZero ∨
        ∃ err, manager.readAttestationKey slot given = .error err)) := by
  unfold readAttestationKey decodeFromFile ReadGiven.Succeeds
  obtain ⟨memory, fileOpened, sized, decoded⟩ := given
  cases memory <;> cases fileOpened <;> cases found : manager.files slot <;> cases sized <;>
    cases decoded <;>
    simp [opened]

theorem readCertChainFromStorage_cases (copied : Bool) :
    (∃ record, manager.files slot = some record ∧ record.certs ≠ [] ∧
      manager.ChainReadable slot given copied ∧
      manager.readCertChainFromStorage slot given copied = (.ok record.certs, manager)) ∨
    (¬ manager.ChainReadable slot given copied ∧
      ((manager.readCertChainFromStorage slot given copied).1 = .ok [] ∨
        ∃ err, (manager.readCertChainFromStorage slot given copied).1 = .error err)) := by
  unfold readCertChainFromStorage ChainReadable
  obtain ⟨record, file, succeeds, read⟩ | ⟨unreadable, read⟩ := readAttestationKey_cases opened
  · rw [read]
    by_cases empty : record.certs = []
    · right
      simp [file, empty]
    cases copied
    · right
      simp [empty]
    · left
      exact ⟨record, file, empty, ⟨record, file, empty, succeeds, rfl⟩, by simp [empty]⟩
  · right
    constructor
    · rintro ⟨record, file, _, succeeds, _⟩
      exact unreadable record file succeeds
    · obtain read | ⟨err, read⟩ := read
      · rw [read]
        exact .inl rfl
      · rw [read]
        exact .inr ⟨err, rfl⟩

theorem readKeyFromStorage_cases (copied : Bool) :
    (∃ record, manager.files slot = some record ∧ manager.KeyReadable slot given copied ∧
      (manager.readKeyFromStorage slot given copied).1 = .ok record.key) ∨
    (¬ manager.KeyReadable slot given copied ∧
      ∃ err, (manager.readKeyFromStorage slot given copied).1 = .error err) := by
  unfold readKeyFromStorage KeyReadable
  obtain ⟨record, file, succeeds, read⟩ | ⟨unreadable, read⟩ := readAttestationKey_cases opened
  · rw [read]
    by_cases present : record.hasKey = true
    · cases copied
      · right
        simp [present]
      · left
        exact ⟨record, file, ⟨record, file, present, succeeds, rfl⟩, by simp [present]⟩
    · right
      simp [file, present]
  · right
    constructor
    · rintro ⟨record, file, _, succeeds, _⟩
      exact unreadable record file succeeds
    · obtain read | ⟨err, read⟩ := read
      · rw [read]
        exact ⟨.invalidArgument, rfl⟩
      · rw [read]
        exact ⟨err, rfl⟩

end

theorem readCertChainFromStorage_files (copied : Bool) :
    (manager.readCertChainFromStorage slot given copied).2.files = manager.files := by
  unfold readCertChainFromStorage
  split
  · rfl
  · split
    · rfl
    · split <;> rfl

end SecureStorageManager

/-! ### Pairs -/

section Pairs

variable {soft : SoftAttestation} {manager : SecureStorageManager} {slot : AttestationKeySlot}
  {algorithm : BitVec 32}

theorem attestationChain_cases {given : ChainGiven} {chain : Credential (List (List Byte))}
    {after : SecureStorageManager} (slotOf : keySlot algorithm = some slot)
    (found : attestationChain soft manager algorithm given = (.ok chain, after)) :
    after.files = manager.files ∧
      ((∃ record, manager.files slot = some record ∧
          manager.ChainReadable slot given.read given.copied ∧ chain = .stored slot record.certs) ∨
        (¬ manager.ChainReadable slot given.read given.copied ∧
          chain = .software (soft.getAttestationChain slot))) := by
  unfold attestationChain at found
  split at found
  · cases found
  rw [slotOf] at found
  dsimp only at found
  split at found
  case h_1 => cases found
  case h_2 started startedIs =>
    obtain ⟨opened, files⟩ := SecureStorageManager.getInstance_some startedIs
    have sameChain : started.ChainReadable slot given.read given.copied ↔
        manager.ChainReadable slot given.read given.copied := by
      unfold SecureStorageManager.ChainReadable
      rw [files]
    rw [← files, ← sameChain]
    obtain ⟨record, file, nonempty, readable, read⟩ | ⟨unreadable, read⟩ :=
      @SecureStorageManager.readCertChainFromStorage_cases started slot given.read
        opened given.copied
    · obtain ⟨cert, rest, certs⟩ := List.exists_cons_of_ne_nil nonempty
      rw [read, certs] at found
      cases found
      exact ⟨rfl, .inl ⟨record, file, readable, by rw [certs]⟩⟩
    have kept :=
      @SecureStorageManager.readCertChainFromStorage_files started slot given.read given.copied
    split at found
    case h_1 cert rest next result =>
      rw [result] at read
      obtain contra | ⟨err, contra⟩ := read <;> cases contra
    case h_2 result next _ resultIs =>
      rw [resultIs] at kept
      cases found
      exact ⟨kept, .inr ⟨unreadable, rfl⟩⟩

theorem attestationKey_cases {given : KeyGiven} {key : Credential (List Byte)}
    (slotOf : keySlot algorithm = some slot)
    (found : attestationKey soft manager algorithm given = .ok key) :
    (∃ record, manager.files slot = some record ∧ manager.KeyReadable slot given.read given.copied ∧
        key = .stored slot record.key) ∨
      (¬ manager.KeyReadable slot given.read given.copied ∧
        key = .software (soft.getAttestationKey slot)) := by
  unfold attestationKey at found
  rw [slotOf] at found
  dsimp only at found
  split at found
  case h_1 => cases found
  case h_2 started startedIs =>
    obtain ⟨opened, files⟩ := SecureStorageManager.getInstance_some startedIs
    have sameKey : started.KeyReadable slot given.read given.copied ↔
        manager.KeyReadable slot given.read given.copied := by
      unfold SecureStorageManager.KeyReadable
      rw [files]
    rw [← files, ← sameKey]
    obtain ⟨record, file, readable, read⟩ | ⟨unreadable, err, read⟩ :=
      @SecureStorageManager.readKeyFromStorage_cases started slot given.read opened given.copied
    · split at found
      case h_1 value next result =>
        rw [result] at read
        cases read
        cases found
        exact .inl ⟨record, file, readable, rfl⟩
      case h_2 next result =>
        rw [result] at read
        cases read
    · split at found
      case h_1 value next result =>
        rw [result] at read
        cases read
      case h_2 =>
        split at found
        · cases found
          exact .inr ⟨unreadable, rfl⟩
        · cases found

/-- The chain and the key come from the file of the slot, or both are the built-in ones. -/
def Paired (soft : SoftAttestation) (manager : SecureStorageManager) (slot : AttestationKeySlot)
    (chain : Credential (List (List Byte))) (key : Credential (List Byte)) : Prop :=
  (∃ record, manager.files slot = some record ∧ chain = .stored slot record.certs ∧
    key = .stored slot record.key) ∨
    (chain = .software (soft.getAttestationChain slot) ∧
      key = .software (soft.getAttestationKey slot))

/-- `generate_attestation` is called with a key and a chain that belong together just if
both lookups find something in the slot or neither does. -/
theorem attestation_paired_iff (soft : SoftAttestation) (manager : SecureStorageManager)
    (algorithm : BitVec 32) (given : AttestationGiven) (chain : Credential (List (List Byte)))
    (key : Credential (List Byte))
    (called : generateAttestation soft manager (some algorithm) given = .ok (chain, key)) :
    ∃ slot, keySlot algorithm = some slot ∧
      (Paired soft manager slot chain key ↔
        (manager.ChainReadable slot given.chain.read given.chain.copied ↔
          manager.KeyReadable slot given.key.read given.key.copied)) := by
  unfold generateAttestation at called
  dsimp only at called
  split at called
  · cases called
  case isFalse supported =>
    obtain ⟨slot, slotOf⟩ : ∃ slot, keySlot algorithm = some slot := by
      unfold keySlot
      by_cases rsa : algorithm = kmAlgorithmRsa
      · exact ⟨.kRsa, if_pos rsa⟩
      · have ec : algorithm = kmAlgorithmEc := by
          by_contra other
          exact supported ⟨rsa, other⟩
        exact ⟨.kEcdsa, by rw [if_neg rsa, if_pos ec]⟩
    refine ⟨slot, slotOf, ?_⟩
    split at called
    · cases called
    case h_2 chain' after chainIs =>
      split at called
      · cases called
      case h_2 key' keyIs =>
        cases called
        obtain ⟨files, chainCases⟩ := attestationChain_cases slotOf chainIs
        have keyCases := attestationKey_cases slotOf keyIs
        unfold SecureStorageManager.KeyReadable at keyCases ⊢
        rw [files] at keyCases
        unfold Paired
        obtain ⟨record, file, readable, rfl⟩ | ⟨unreadable, rfl⟩ := chainCases
        · obtain ⟨record', file', readable', rfl⟩ | ⟨unreadable', rfl⟩ := keyCases
          · rw [file] at file'
            cases file'
            exact iff_of_true (.inl ⟨record, file, rfl, rfl⟩) (iff_of_true readable readable')
          · refine iff_of_false ?_ fun same => unreadable' (same.mp readable)
            rintro (⟨_, _, _, contra⟩ | ⟨contra, _⟩) <;> cases contra
        · obtain ⟨record, file, readable, rfl⟩ | ⟨unreadable', rfl⟩ := keyCases
          · refine iff_of_false ?_ fun same => unreadable (same.mpr readable)
            rintro (⟨_, _, contra, _⟩ | ⟨_, contra⟩) <;> cases contra
          · exact iff_of_true (.inr ⟨rfl, rfl⟩) (iff_of_false unreadable unreadable')

end Pairs

/-! ### A key without a chain -/

def noFailures : AttestationGiven :=
  { chain := ⟨true, ⟨true, true⟩, ⟨true, true, true, true⟩, true⟩
    key := ⟨⟨true, true⟩, ⟨true, true, true, true⟩, true, true⟩ }

def tables : SoftAttestation := ⟨fun _ => [1], fun _ => [[2]]⟩

def emptyStorage : SecureStorageManager := ⟨fun _ => none, false⟩

/-- Storage after an RSA key was set, without any failure and before a certificate was
appended. -/
def keyOnly : SecureStorageManager :=
  (setAttestationKey emptyStorage kmAlgorithmRsa [7]
    ⟨⟨true, true⟩, ⟨⟨true, true, true, true⟩, ⟨true, true, true, false⟩⟩⟩).2

/-- Then a certificate was appended. -/
def keyAndChain : SecureStorageManager :=
  let reads := ⟨true, true, true, true⟩
  let update := ⟨reads, ⟨true, true, true, false⟩⟩
  (appendAttestationCertChain keyOnly kmAlgorithmRsa [8]
    ⟨⟨true, true⟩, reads, update, reads, update⟩).2

theorem attestation_paired_iff_stored : ∃ slot, keySlot kmAlgorithmRsa = some slot ∧
    keyAndChain.KeyReadable slot noFailures.key.read noFailures.key.copied ∧
    (Paired tables keyAndChain slot (.stored .kRsa [[8]]) (.stored .kRsa [7]) ↔
      (keyAndChain.ChainReadable slot noFailures.chain.read noFailures.chain.copied ↔
        keyAndChain.KeyReadable slot noFailures.key.read noFailures.key.copied)) := by
  obtain ⟨_, ⟨⟩, paired⟩ := attestation_paired_iff tables keyAndChain kmAlgorithmRsa noFailures
    (.stored .kRsa [[8]]) (.stored .kRsa [7]) rfl
  exact ⟨.kRsa, rfl, ⟨_, rfl, rfl, ⟨rfl, rfl, rfl, rfl⟩, rfl⟩, paired⟩

/-- The key that was set signs, with the built-in chain. -/
theorem stored_key_with_software_chain :
    generateAttestation tables keyOnly (some kmAlgorithmRsa) noFailures =
        .ok (.software [[2]], .stored .kRsa [7]) ∧
      ¬ Paired tables keyOnly .kRsa (.software [[2]]) (.stored .kRsa [7]) := by
  refine ⟨rfl, ?_⟩
  rintro (⟨_, _, contra, _⟩ | ⟨_, contra⟩) <;> cases contra

end Trusty.Keymaster
