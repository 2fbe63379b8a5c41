import Mathlib.Tactic.Common

/-!
The upgrade of a key blob to the versions of the running system
(`trusty_keymaster_context.cpp`).

`SetAuthorizations` puts the OS version into the hardware-enforced set.  When the
running system is unnumbered, `UpgradeKeyBlob` resets it in the software-enforced set.
-/

namespace Trusty.Keymaster.KeyUpgrade

open List

inductive Tag where
  | invalid | bootloaderOnly | nonce | authToken | macLength | associatedData | uniqueId
  | applicationId | applicationData | rootOfTrust | origin | osVersion | osPatchlevel
  | purpose | algorithm | keySize | rsaPublicExponent | blobUsageRequirements | digest | padding
  | blockMode | minSecondsBetweenOps | maxUsesPerBoot | userSecureId | noAuthRequired | authTimeout
  | callerNonce | minMacLength | kdf | ecCurve | eciesSingleHashMode | trustedConfirmationRequired
  | userAuthType | activeDatetime | originationExpireDatetime | usageExpireDatetime | userId
  | allUsers | creationDatetime | includeUniqueId | exportable
  /-- The tags that are ignored in a description and used for nothing else. -/
  | other (tag : BitVec 32)
deriving DecidableEq

/-- `keymaster_key_param_t`, with a number and bytes for the members of its union. -/
structure KeyParam where
  tag : Tag
  integer : BitVec 32
  blob : List (BitVec 8)
deriving DecidableEq

abbrev AuthorizationSet := List KeyParam

inductive Error where
  | invalidKeyBlob
  | invalidArgument
  /-- Another error of a key factory. -/
  | other (error : BitVec 32)
  /-- A method of a null factory is called, so the application crashes. -/
  | crash

inductive KeyFactory where
  | rsa | ec | aes | hmac | tripleDes

def getKeyFactory (algorithm : BitVec 32) : Option KeyFactory :=
  if algorithm = 1 then some .rsa
  else if algorithm = 3 then some .ec
  else if algorithm = 32 then some .aes
  else if algorithm = 128 then some .hmac
  else if algorithm = 33 then some .tripleDes
  else none

structure Context where
  bootOsVersion : BitVec 32
  bootOsPatchlevel : BitVec 32
  /-- The verified boot key, the verified boot state and the lock state. -/
  rootOfTrust : List (List (BitVec 8))

def hwAuthPassword : BitVec 32 := 1

/-- The loop of `SetAuthorizations`: `hw_enforced` and `sw_enforced`. -/
def enforce : AuthorizationSet → Except Error (AuthorizationSet × AuthorizationSet)
  | [] => .ok ([], [])
  | entry :: rest => do
    let (hw, sw) ← enforce rest
    match entry.tag with
    | .invalid | .bootloaderOnly | .nonce | .authToken | .macLength | .associatedData | .uniqueId =>
      .error .invalidKeyBlob
    | .purpose | .algorithm | .keySize | .rsaPublicExponent | .blobUsageRequirements | .digest
    | .padding | .blockMode | .minSecondsBetweenOps | .maxUsesPerBoot | .userSecureId
    | .noAuthRequired | .authTimeout | .callerNonce | .minMacLength | .kdf | .ecCurve
    | .eciesSingleHashMode | .trustedConfirmationRequired => .ok (entry :: hw, sw)
    | .userAuthType => .ok ({ entry with integer := entry.integer &&& hwAuthPassword } :: hw, sw)
    | .activeDatetime | .originationExpireDatetime | .usageExpireDatetime | .userId | .allUsers
    | .creationDatetime | .includeUniqueId | .exportable => .ok (hw, entry :: sw)
    | _ => .ok (hw, sw)

def setAuthorizations (context : Context) (keyDescription : AuthorizationSet) (origin : BitVec 32) :
    Except Error (AuthorizationSet × AuthorizationSet) := do
  let (hw, sw) ← enforce keyDescription
  return (hw ++ [⟨.origin, origin, []⟩] ++ [⟨.osVersion, context.bootOsVersion, []⟩,
    ⟨.osPatchlevel, context.bootOsPatchlevel, []⟩], sw)

def buildHiddenAuthorizations (context : Context) (input : AuthorizationSet) : AuthorizationSet :=
  (input.find? (·.tag = .applicationId)).toList ++
    (input.find? (·.tag = .applicationData)).toList ++ context.rootOfTrust.map
    (⟨.rootOfTrust, 0, ·⟩)

/-- The number of the first parameter with the tag. -/
def find (tag : Tag) (set : AuthorizationSet) : Option (BitVec 32) :=
  (set.find? (·.tag = tag)).map KeyParam.integer

def setInteger (tag : Tag) (value : BitVec 32) : AuthorizationSet → AuthorizationSet
  | [] => []
  | param :: rest =>
    if param.tag = tag then { param with integer := value } :: rest
      else param :: setInteger tag value rest

/-- The set, and whether it has changed. -/
def upgradeIntegerTag (tag : Tag) (value : BitVec 32) (set : AuthorizationSet) :
    Option (AuthorizationSet × Bool) :=
  match find tag set with
  | none => some (set ++ [⟨tag, value, []⟩], true)
  | some integer =>
    if value < integer then none else some (setInteger tag value set, integer != value)

structure Key (Material : Type) where
  keyMaterial : Material
  hwEnforced : AuthorizationSet
  swEnforced : AuthorizationSet

/-- The error of `LoadKey`, if any, for the parameters, the material and the sets.  A key
that is loaded has what it is given. -/
abbrev LoadKey (Material : Type) := KeyFactory → AuthorizationSet → Key Material → Option Error

/-- The encrypted blob of a key, under the hidden authorizations. -/
structure KeyEncryption (Material Nonce Blob : Type) where
  encrypt : Key Material → AuthorizationSet → Nonce → Blob
  decrypt : Blob → AuthorizationSet → Option (Key Material)
  decrypt_encrypt : ∀ key hidden nonce, decrypt (encrypt key hidden nonce) hidden = some key

section Blobs

variable {Material Nonce Blob : Type} (encryption : KeyEncryption Material Nonce Blob)
  (context : Context)

def createKeyBlob (keyDescription : AuthorizationSet) (origin : BitVec 32) (keyMaterial : Material)
    (nonce : Nonce) : Except Error (Blob × Key Material) := do
  let (hw, sw) ← setAuthorizations context keyDescription origin
  let key : Key Material := ⟨keyMaterial, hw, sw⟩
  return (encryption.encrypt key (buildHiddenAuthorizations context keyDescription) nonce, key)

variable (loadKey : LoadKey Material)

def constructKey (additionalParams : AuthorizationSet) (key : Key Material) :
    Except Error (Key Material) :=
  match find .algorithm key.hwEnforced with
  | none => .error .invalidArgument
  | some algorithm =>
    match getKeyFactory algorithm with
    | none => .error .crash
    | some factory => (loadKey factory additionalParams key).elim (.ok key) .error

def parseKeyBlob (blob : Blob) (additionalParams : AuthorizationSet) :
    Except Error (Key Material) :=
  match encryption.decrypt blob (buildHiddenAuthorizations context additionalParams) with
  | none => .error .invalidKeyBlob
  | some key => constructKey loadKey additionalParams key

/-- What `UpgradeKeyBlob` does between parsing and encrypting the key. -/
def upgradeKey (key : Key Material) : Except Error (Option (Key Material)) :=
  let reset := context.bootOsVersion = 0 ∧ (find .osVersion key.swEnforced).any (· ≠ 0)
  let sw := if reset then setInteger .osVersion 0 key.swEnforced else key.swEnforced
  match upgradeIntegerTag .osVersion context.bootOsVersion key.hwEnforced with
  | none => .error .invalidArgument
  | some (hw, newVersion) =>
    match upgradeIntegerTag .osPatchlevel context.bootOsPatchlevel hw with
    | none => .error .invalidArgument
    | some (hw, newLevel) =>
      .ok (if reset || newVersion || newLevel then some ⟨key.keyMaterial, hw, sw⟩ else none)

def upgradeKeyBlob (blob : Blob) (upgradeParams : AuthorizationSet) (nonce : Nonce) :
    Except Error (Option Blob) :=
  (parseKeyBlob encryption context loadKey blob upgradeParams).bind fun key =>
    (upgradeKey context key).map
      (Option.map (encryption.encrypt · (buildHiddenAuthorizations context upgradeParams) nonce))

end Blobs

/-! ### Downgrades -/

def Refused (old new : Context) : Prop :=
  new.bootOsPatchlevel < old.bootOsPatchlevel ∨
    new.bootOsVersion ≠ 0 ∧ new.bootOsVersion < old.bootOsVersion

def AuthorizationSet.withVersions (context : Context) (set : AuthorizationSet) : AuthorizationSet :=
  setInteger .osPatchlevel context.bootOsPatchlevel
    (setInteger .osVersion context.bootOsVersion set)

variable {Material Nonce Blob : Type}

/-- The factory of its algorithm loads the key. -/
def Loads (loadKey : LoadKey Material) (params : AuthorizationSet) (key : Key Material) : Prop :=
  ∃ algorithm factory, find .algorithm key.hwEnforced = some algorithm ∧
    getKeyFactory algorithm = some factory ∧ loadKey factory params key = none

/-- The key has no algorithm, or its factory gives the error of a refused upgrade. -/
def LoadsInvalid (loadKey : LoadKey Material) (params : AuthorizationSet)
    (key : Key Material) : Prop :=
  ∀ algorithm, find .algorithm key.hwEnforced = some algorithm →
    ∃ factory, getKeyFactory algorithm = some factory ∧
      loadKey factory params key = some .invalidArgument

/-- A key is upgraded to later versions and to no version. -/
def UpgradeCorrect (encryption : KeyEncryption Material Nonce Blob)
    (loadKey : LoadKey Material)
    (old new : Context) (key : Key Material) (params : AuthorizationSet)
    (result : Except Error (Option Blob)) : Prop :=
  (result = .error .invalidArgument ↔ Refused old new) ∧
    (¬ Refused old new → ∃ upgraded, result = .ok upgraded ∧
      (upgraded = none ↔
        old.bootOsVersion = new.bootOsVersion ∧ old.bootOsPatchlevel = new.bootOsPatchlevel) ∧
      ∀ blob, upgraded = some blob → parseKeyBlob encryption new loadKey blob params =
        .ok { key with hwEnforced := key.hwEnforced.withVersions new })

section Upgrade

theorem find_setInteger {tag other : Tag} (value : BitVec 32) (set : AuthorizationSet)
    (ne : tag ≠ other) :
    find other (setInteger tag value set) = find other set := by
  induction set with
  | nil => rfl
  | cons param rest ih =>
    simp only [find, setInteger] at ih ⊢
    split
    case isTrue found => simp [found, ne]
    case isFalse => by_cases found : param.tag = other <;> simp [found, ih]

/-- The versions of the description are ignored. -/
theorem enforce_missing {description hw sw : AuthorizationSet}
    (done : enforce description = .ok (hw, sw)) :
    find .osVersion hw = none ∧ find .osPatchlevel hw = none ∧ find .osVersion sw = none := by
  induction description generalizing hw sw with
  | nil =>
    cases done
    exact ⟨rfl, rfl, rfl⟩
  | cons entry rest ih =>
    cases before : enforce rest with
    | error error => simp [enforce, before, bind, Except.bind] at done
    | ok sets =>
      have missing := ih before
      simp only [enforce, before, bind, Except.bind] at done
      split at done <;> cases done <;> simp_all [find]

theorem upgradeKey_eq {old new : Context} {key : Key Material}
    (version : find .osVersion key.hwEnforced = some old.bootOsVersion)
    (level : find .osPatchlevel key.hwEnforced = some old.bootOsPatchlevel)
    (software : find .osVersion key.swEnforced = none) :
    upgradeKey new key =
      if new.bootOsVersion < old.bootOsVersion ∨ new.bootOsPatchlevel < old.bootOsPatchlevel then
        .error .invalidArgument
      else .ok
        (if old.bootOsVersion = new.bootOsVersion ∧
          old.bootOsPatchlevel = new.bootOsPatchlevel then none
        else some { key with hwEnforced := key.hwEnforced.withVersions new }) := by
  have level := (find_setInteger new.bootOsVersion key.hwEnforced
    (show Tag.osVersion ≠ .osPatchlevel by decide)).trans level
  by_cases lower : new.bootOsVersion < old.bootOsVersion
  · simp [upgradeKey, upgradeIntegerTag, version, lower]
  by_cases earlier : new.bootOsPatchlevel < old.bootOsPatchlevel
  · simp [upgradeKey, upgradeIntegerTag, version, lower, level, earlier]
  have result : upgradeKey new key = .ok (if old.bootOsVersion != new.bootOsVersion ||
      old.bootOsPatchlevel != new.bootOsPatchlevel then
      some { key with hwEnforced := key.hwEnforced.withVersions new } else none) := by
    simp [upgradeKey, upgradeIntegerTag, version, lower, level, earlier, software,
      AuthorizationSet.withVersions]
  rw [result, if_neg (not_or.mpr ⟨lower, earlier⟩)]
  grind

variable {encryption : KeyEncryption Material Nonce Blob} {context : Context}
  {description : AuthorizationSet} {key : Key Material} {blob : Blob}

theorem createKeyBlob_key {origin : BitVec 32} {material : Material} {nonce : Nonce}
    (created : createKeyBlob encryption context description origin material nonce = .ok
      (blob, key)) :
    encryption.decrypt blob (buildHiddenAuthorizations context description) = some key ∧
      find .osVersion key.hwEnforced = some context.bootOsVersion ∧
      find .osPatchlevel key.hwEnforced = some context.bootOsPatchlevel ∧
      find .osVersion key.swEnforced = none := by
  cases enforced : enforce description with
  | error error => simp [createKeyBlob, setAuthorizations, enforced, bind, Except.bind] at created
  | ok sets =>
    obtain ⟨noVersion, noLevel, software⟩ := enforce_missing enforced
    simp only [createKeyBlob, setAuthorizations, enforced, bind, Except.bind, pure, Except.pure,
      Except.ok.injEq, Prod.mk.injEq] at created
    obtain ⟨rfl, rfl⟩ := created
    rw [find, Option.map_eq_none_iff] at noVersion noLevel
    refine ⟨encryption.decrypt_encrypt _ _ _, ?_, ?_, software⟩
    · simp [find, noVersion]
    · simp [find, noLevel]

variable {loadKey : LoadKey Material}
  {params : AuthorizationSet}

theorem constructKey_ok_iff {result : Key Material} :
    constructKey loadKey params key = .ok result ↔ result = key ∧ Loads loadKey params key := by
  unfold constructKey Loads
  split
  · simp [*]
  split
  · simp [*]
  cases error : loadKey _ params key <;> simp [*, eq_comm]

theorem constructKey_invalid_iff :
    constructKey loadKey params key = .error .invalidArgument ↔
    LoadsInvalid loadKey params key := by
  unfold constructKey LoadsInvalid
  split
  · simp [*]
  split
  · simp [*]
  cases error : loadKey _ params key <;> simp [*]

end Upgrade

/-- A key made by `CreateKeyBlob` is upgraded as it should be exactly when it should not be
at all and loading it gives no other error, or its version is no later than the new one
and it can be loaded, before and after a change. -/
theorem upgradeCorrect_iff (encryption : KeyEncryption Material Nonce Blob)
    (loadKey : LoadKey Material)
    (old new : Context) (description params : AuthorizationSet) (origin : BitVec 32)
    (material : Material) (nonce newNonce : Nonce) :
    (∀ blob key, createKeyBlob encryption old description origin material nonce = .ok (blob, key) →
      buildHiddenAuthorizations new params = buildHiddenAuthorizations old description →
      UpgradeCorrect encryption loadKey old new key params
        (upgradeKeyBlob encryption new loadKey blob params newNonce)) ↔
    ∀ blob key, createKeyBlob encryption old description origin material nonce = .ok (blob, key) →
      buildHiddenAuthorizations new params = buildHiddenAuthorizations old description →
      Refused old new ∧ (Loads loadKey params key ∨ LoadsInvalid loadKey params key) ∨
        ¬ new.bootOsVersion < old.bootOsVersion ∧ Loads loadKey params key ∧
          (¬ (old.bootOsVersion = new.bootOsVersion ∧
              old.bootOsPatchlevel = new.bootOsPatchlevel) →
            Loads loadKey params { key with hwEnforced := key.hwEnforced.withVersions new }) := by
  refine forall₄_congr fun blob key created same => ?_
  obtain ⟨decrypted, version, level, software⟩ := createKeyBlob_key created
  rw [← same] at decrypted
  simp only [UpgradeCorrect, upgradeKeyBlob, parseKeyBlob, decrypted]
  cases loaded : constructKey loadKey params key with
  | error error =>
    have missing : ¬ Loads loadKey params key := by
      intro loads
      rw [constructKey_ok_iff.mpr ⟨rfl, loads⟩] at loaded
      cases loaded
    rw [← constructKey_invalid_iff, loaded]
    by_cases refused : Refused old new <;> simp [Except.bind, refused, missing]
  | ok parsed =>
    obtain ⟨rfl, loads⟩ := constructKey_ok_iff.mp loaded
    rw [Except.bind, upgradeKey_eq version level software]
    by_cases refused : Refused old new
    · have lower := refused.symm.imp_left And.right
      simp [refused, lower, Except.map, loads]
    by_cases lower : new.bootOsVersion < old.bootOsVersion
    · simp [refused, lower, Except.map]
    rw [if_neg (not_or.mpr ⟨lower, fun earlier => refused (.inl earlier)⟩)]
    -- the new key is parsed with the sets that it was encrypted with
    by_cases versions : old.bootOsVersion = new.bootOsVersion ∧
        old.bootOsPatchlevel = new.bootOsPatchlevel
    · simp [Except.map, refused, loads, versions]
    · simp [Except.map, refused, lower, loads, versions, encryption.decrypt_encrypt,
        constructKey_ok_iff]

/-- A key of version 1 cannot be moved to an unnumbered system. -/
theorem upgrade_to_unnumbered :
    let encryption : KeyEncryption Nat Unit (Key Nat × AuthorizationSet) :=
      ⟨fun key hidden _ => (key, hidden),
        fun blob hidden => if blob.2 = hidden then some blob.1 else none, by simp⟩
    let description : AuthorizationSet := [⟨.algorithm, 32, []⟩]
    let key : Key Nat :=
      ⟨7, [⟨.algorithm, 32, []⟩, ⟨.origin, 0, []⟩, ⟨.osVersion, 1, []⟩, ⟨.osPatchlevel, 5, []⟩], []⟩
    createKeyBlob encryption ⟨1, 5, []⟩ description 0 7 () = .ok ((key, []), key) ∧
      upgradeKeyBlob encryption ⟨0, 5, []⟩ (fun _ _ _ => none) (key, []) description () =
        .error .invalidArgument ∧
      ¬ Refused ⟨1, 5, []⟩ ⟨0, 5, []⟩ :=
  ⟨rfl, rfl, by unfold Refused; decide⟩

end Trusty.Keymaster.KeyUpgrade
