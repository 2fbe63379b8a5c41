import Mathlib.Tactic.Common

/-!
Attestation keys and certificate chains in secure storage
(`secure_storage_manager.cpp`, `trusty_keymaster.cpp`).

Every slot has one file with the key and the chain.  Storage is transactional: what a
function writes is seen once its transaction is committed.  What storage and the
allocator answer is given to each function.
-/

namespace Trusty.Keymaster

open List

abbrev Byte := BitVec 8

/-- The errors of `keymaster_error_t` that are used. -/
inductive KmError where
  | ok
  | rootOfTrustAlreadySet
  | unsupportedAlgorithm
  | incompatibleAlgorithm
  | invalidInputLength
  | invalidArgument
  | memoryAllocationFailed
  | secureHwCommunicationFailed
  | keymasterNotConfigured
  | unknownError
deriving DecidableEq

inductive AttestationKeySlot where
  | kRsa
  | kEcdsa
  | kEddsa
  | kEpid
  | kClaimable0
  | kSomRsa
  | kSomEcdsa
  | kSomEddsa
  | kSomEpid
deriving DecidableEq

def kmAlgorithmRsa : BitVec 32 := 1
def kmAlgorithmEc : BitVec 32 := 3

/-- The slot of an algorithm, as all the `switch` statements choose it. -/
def keySlot (algorithm : BitVec 32) : Option AttestationKeySlot :=
  if algorithm = kmAlgorithmRsa then some .kRsa
  else if algorithm = kmAlgorithmEc then some .kEcdsa
  else none

def kKeySizeMax : Nat := 2048
def kCertSizeMax : Nat := 2048
def kMaxCertChainLength : Nat := 3

/-- The message `AttestationKey` of `keymaster_attributes.proto`, with its limits.
`certs_count` is the length of `certs`. -/
structure AttestationKey where
  hasKey : Bool
  key : List Byte
  certs : List (List Byte)
  key_le : key.length ≤ kKeySizeMax
  certs_le : certs.length ≤ kMaxCertChainLength
  cert_le : ∀ cert ∈ certs, cert.length ≤ kCertSizeMax
deriving DecidableEq

namespace AttestationKey

def initZero : AttestationKey := ⟨false, [], [], Nat.zero_le _, Nat.zero_le _, by simp⟩

def withKey (record : AttestationKey) (key : List Byte) (fits : key.length ≤ kKeySizeMax) :
    AttestationKey :=
  { record with hasKey := true, key := key, key_le := fits }

def withoutCerts (record : AttestationKey) : AttestationKey :=
  { record with certs := [], certs_le := Nat.zero_le _, cert_le := by simp }

/-- A certificate at an index up to `certs_count`. -/
def withCert (record : AttestationKey) (cert : List Byte) (index : Nat)
    (fits : cert.length ≤ kCertSizeMax) (below : index < kMaxCertChainLength) : AttestationKey :=
  { record with
    certs := record.certs.take index ++ cert :: record.certs.drop (index + 1)
    certs_le := by
      have limit := record.certs_le
      simp only [length_append, length_take, length_cons, length_drop]
      omega
    cert_le := by
      intro other member
      rw [mem_append, mem_cons] at member
      rcases member with before | rfl | behind
      · exact record.cert_le other (mem_of_mem_take before)
      · exact fits
      · exact record.cert_le other (mem_of_mem_drop behind) }

end AttestationKey

/-- The files in storage and whether the session of the instance is open. -/
structure SecureStorageManager where
  files : AttestationKeySlot → Option AttestationKey
  session : Bool

namespace SecureStorageManager

/-- What `get_instance` is answered: whether the transaction of an open session can be
ended, and whether a session can be opened. -/
structure InstanceGiven where
  ended : Bool
  opened : Bool

def getInstance (manager : SecureStorageManager) (given : InstanceGiven) :
    Option SecureStorageManager :=
  if (manager.session ∧ given.ended) ∨ given.opened then some { manager with session := true }
  else none

theorem getInstance_some {manager : SecureStorageManager} {given : InstanceGiven}
    {started : SecureStorageManager} (found : manager.getInstance given = some started) :
    started.session = true ∧ started.files = manager.files := by
  unfold getInstance at found
  split at found
  · cases found
    exact ⟨rfl, rfl⟩
  · cases found

def closeSession (manager : SecureStorageManager) : SecureStorageManager :=
  { manager with session := false }

structure ReadGiven where
  memory : Bool
  opened : Bool
  sized : Bool
  decoded : Bool

variable (manager : SecureStorageManager) (slot : AttestationKeySlot)

/-- `DecodeFromFile` for a record that is initialised to zero.  A file that does not exist
is no error. -/
def decodeFromFile (given : ReadGiven) : Except KmError AttestationKey :=
  if ¬ (manager.session ∧ given.opened) then .error .secureHwCommunicationFailed
  else
    match manager.files slot with
    | none => .ok .initZero
    | some record =>
      if ¬ given.sized then .error .secureHwCommunicationFailed
      else if ¬ given.decoded then .error .memoryAllocationFailed
      else .ok record

def readAttestationKey (given : ReadGiven) : Except KmError AttestationKey :=
  if ¬ given.memory then .error .memoryAllocationFailed
  else manager.decodeFromFile slot given

/-- What writing a record is answered.  A commit that fails may have taken effect. -/
structure WriteGiven where
  opened : Bool
  encoded : Bool
  committed : Bool
  effective : Bool

def writeAttestationKey (record : AttestationKey) (given : WriteGiven) :
    KmError × SecureStorageManager :=
  let written := { manager with files := Function.update manager.files slot (some record) }
  if ¬ (manager.session ∧ given.opened) then (.secureHwCommunicationFailed, manager)
  else if ¬ given.encoded then (.memoryAllocationFailed, manager)
  else if ¬ given.committed then
    (.secureHwCommunicationFailed, if given.effective then written else manager)
  else (.ok, written)

structure UpdateGiven where
  read : ReadGiven
  write : WriteGiven

/-- The end of the functions that write: the session is closed after an error. -/
def finish (result : KmError × SecureStorageManager) : KmError × SecureStorageManager :=
  if result.1 = .ok then result else (result.1, result.2.closeSession)

def writeKeyToStorage (key : List Byte) (given : UpdateGiven) : KmError × SecureStorageManager :=
  if fits : key.length ≤ kKeySizeMax then
    match manager.readAttestationKey slot given.read with
    | .error err => (err, manager.closeSession)
    | .ok record => finish (manager.writeAttestationKey slot (record.withKey key fits) given.write)
  else (.invalidArgument, manager)

def writeCertToStorage (cert : List Byte) (index : Nat)
    (given : UpdateGiven) : KmError × SecureStorageManager :=
  if fits : cert.length ≤ kCertSizeMax ∧ index < kMaxCertChainLength then
    match manager.readAttestationKey slot given.read with
    | .error err => (err, manager.closeSession)
    | .ok record =>
      if record.certs.length < index then (.invalidArgument, manager)
      else finish
        (manager.writeAttestationKey slot (record.withCert cert index fits.1 fits.2) given.write)
  else (.invalidArgument, manager)

def readCertChainLength (given : ReadGiven) : Except KmError Nat × SecureStorageManager :=
  match manager.readAttestationKey slot given with
  | .error err => (.error err, manager.closeSession)
  | .ok record => (.ok record.certs.length, manager)

def deleteCertChainFromStorage (given : UpdateGiven) : KmError × SecureStorageManager :=
  match manager.readAttestationKey slot given.read with
  | .error err => (err, manager.closeSession)
  | .ok record => finish (manager.writeAttestationKey slot record.withoutCerts given.write)

/-- `ReadKeyFromStorage`, with the answer of the allocator for the copy. -/
def readKeyFromStorage (given : ReadGiven) (copied : Bool) :
    Except KmError (List Byte) × SecureStorageManager :=
  match manager.readAttestationKey slot given with
  | .error err => (.error err, manager.closeSession)
  | .ok record =>
    if ¬ record.hasKey then (.error .invalidArgument, manager)
    else if ¬ copied then (.error .memoryAllocationFailed, manager)
    else (.ok record.key, manager)

/-- `ReadCertChainFromStorage`, with the answer of the allocator for the copies. -/
def readCertChainFromStorage (given : ReadGiven)
    (copied : Bool) : Except KmError (List (List Byte)) × SecureStorageManager :=
  match manager.readAttestationKey slot given with
  | .error err => (.error err, manager.closeSession)
  | .ok record =>
    if record.certs.length = 0 then (.ok [], manager)
    else if ¬ copied then (.error .memoryAllocationFailed, manager)
    else (.ok record.certs, manager)

end SecureStorageManager

/-! ### Requests -/

structure SetGiven where
  start : SecureStorageManager.InstanceGiven
  update : SecureStorageManager.UpdateGiven

def setAttestationKey (manager : SecureStorageManager) (algorithm : BitVec 32) (keyData : List Byte)
    (given : SetGiven) :
    KmError × SecureStorageManager :=
  match manager.getInstance given.start with
  | none => (.secureHwCommunicationFailed, manager.closeSession)
  | some manager =>
    match keySlot algorithm with
    | none => (.unsupportedAlgorithm, manager)
    | some slot =>
      if keyData.length = 0 then (.invalidInputLength, manager)
      else manager.writeKeyToStorage slot keyData given.update

structure AppendGiven where
  start : SecureStorageManager.InstanceGiven
  length : SecureStorageManager.ReadGiven
  deletion : SecureStorageManager.UpdateGiven
  relength : SecureStorageManager.ReadGiven
  update : SecureStorageManager.UpdateGiven

/-- The length of the chain to append to: a chain of the maximal length is deleted first.
If it is still there afterwards, the request ends without an error. -/
def chainLengthToAppend (manager : SecureStorageManager) (slot : AttestationKeySlot)
    (given : AppendGiven) :
    Except KmError Nat × SecureStorageManager :=
  match manager.readCertChainLength slot given.length with
  | (.error _, manager) => (.ok 0, manager)
  | (.ok length, manager) =>
    if length < kMaxCertChainLength then (.ok length, manager)
    else
      match manager.deleteCertChainFromStorage slot given.deletion with
      | (.ok, manager) =>
        match manager.readCertChainLength slot given.relength with
        | (.error err, manager) => (.error err, manager)
        | (.ok length, manager) =>
          if length ≠ 0 then (.error .ok, manager) else (.ok length, manager)
      | (err, manager) => (.error err, manager)

def appendAttestationCertChain (manager : SecureStorageManager) (algorithm : BitVec 32)
    (certData : List Byte) (given : AppendGiven) : KmError × SecureStorageManager :=
  match manager.getInstance given.start with
  | none => (.secureHwCommunicationFailed, manager.closeSession)
  | some manager =>
    match keySlot algorithm with
    | none => (.unsupportedAlgorithm, manager)
    | some slot =>
      if certData.length = 0 then (.invalidInputLength, manager)
      else
        match chainLengthToAppend manager slot given with
        | (.error err, manager) => (err, manager)
        | (.ok length, manager) => manager.writeCertToStorage slot certData length given.update

end Trusty.Keymaster
