import Trusty.Keymaster.AttestationEffect
import Trusty.Kmsetkey.KeyListSafety

/-!
What `set_key` leaves in the attestation slots.

The commands go to the server of the secure port one at a time, each on a connection of
its own; the client looks at the first message that the server sent.
-/

namespace Trusty.Kmsetkey

open Lib Kernel Keymaster Dialog List

/-! ### One command -/

section Command

variable {arch : Arch} {cmd algorithm : BitVec 32} {payload data : List Byte} {given : ImplGiven}
  {manager after : SecureStorageManager}

theorem setKeyImpl_le (cmd : BitVec 32) (payload : List Byte) (given : ImplGiven)
    (reply : Option (List Byte)) :
    setKeyImpl cmd payload given reply ≤ noError := by
  unfold setKeyImpl noError
  split
  · decide
  split
  · omega
  · dsimp only
    split <;> omega

theorem sendReq_le (given : ImplGiven) (len : Nat) : sendReq given len ≤ noError := by
  unfold sendReq noError
  split
  · omega
  split <;> decide

theorem awaitResponse_le (given : ImplGiven) (reply : Option (List Byte)) :
    awaitResponse given reply ≤ noError := by
  unfold awaitResponse
  split
  · exact given.wait_le
  split
  · exact given.getMsg_le
  split <;> decide

theorem readResponse_le (given : ImplGiven) (reply : List Byte) (len : Nat) :
    readResponse given reply len ≤ noError := by
  unfold readResponse
  split
  case h_1 rc found => exact le_of_lt (given.readMsg_lt rc found)
  · split
    · decide
    split
    · exact given.putMsg_le
    · exact le_rfl

theorem setKeyImpl_ok {reply : Option (List Byte)}
    (ok : setKeyImpl cmd payload given reply = noError) :
    ∃ message, reply = some message ∧ 0 ≤ (word32 (message.drop 4)).toInt := by
  have onlyOk {rc : Int} (final : (if rc < 0 then rc else noError) = noError) : ¬rc < 0 := by
    intro negative
    unfold noError at final
    omega
  unfold setKeyImpl at ok
  split at ok
  · cases ok
  split at ok
  · unfold noError at ok
    omega
  have ended := onlyOk ok
  dsimp only at ended
  split at ended
  case isTrue failed => exact absurd (lt_of_le_of_ne (sendReq_le given _) failed) ended
  split at ended
  case isTrue failed => exact absurd (lt_of_le_of_ne (awaitResponse_le given _) failed) ended
  case isFalse awaited =>
    have replied : reply ≠ none := by
      rintro rfl
      have negative : awaitResponse given none ≠ noError := by
        unfold awaitResponse
        split
        · assumption
        split
        · assumption
        · decide
      exact awaited negative
    obtain ⟨message, rfl⟩ := Option.ne_none_iff_exists'.mp replied
    refine ⟨message, rfl, ?_⟩
    split at ended
    · exact absurd (by decide) ended
    split at ended
    case isTrue failed => exact absurd (lt_of_le_of_ne (readResponse_le given _ _) failed) ended
    split at ended
    · exact absurd (by decide) ended
    · exact Int.not_lt.mp ended

def ImplGiven.Sends (given : ImplGiven) (len : Nat) : Prop :=
  given.malloc ∧ 0 ≤ given.connect ∧ sendReq given len = noError

/-- A command of the client, which is not answered or is served by the secure port. -/
def Command (arch : Arch) (cmd : BitVec 32) (payload : List Byte) (manager : SecureStorageManager)
    (rc : Int) (after : SecureStorageManager) : Prop :=
  ∃ given : ImplGiven, (rc = setKeyImpl cmd payload given none ∧ after = manager) ∨
    (given.Sends (implMessage cmd payload).length ∧
      ∃ (message : Received arch) (configureError : KmError) (result : Int) (final : PortState),
        message.bytes = implMessage cmd payload ∧
        Exec (securePort message) (handleMsg keymasterDispatchSecure configureError) ⟨manager, []⟩
          (.returned result) final ∧
        rc = setKeyImpl cmd payload given final.sent.head? ∧ after = final.manager)

theorem Command.le {rc : Int} (command : Command arch cmd payload manager rc after) :
    rc ≤ noError := by
  obtain ⟨given, ⟨rfl, -⟩ | ⟨-, _, _, _, _, -, -, rfl, -⟩⟩ := command
  · exact setKeyImpl_le _ _ _ _
  · exact setKeyImpl_le _ _ _ _

theorem drop_replyOf (cmd : BitVec 32) (err : KmError) : (replyOf cmd err).drop 4 = err.bytes := rfl

theorem ok_of_toInt_bytes {err : KmError} (ok : 0 ≤ (word32 err.bytes).toInt) : err = .ok := by
  cases err <;> first | rfl | exact absurd ok (by decide)

theorem noError_le : noError ≤ noError := le_rfl

theorem neg_of_none_eq (rc : Int) (contra : none = some rc) : rc < 0 := by cases contra

def ImplGiven.smooth (len : Nat) : ImplGiven :=
  ⟨true, 0, len, noError, noError, none, noError, noError_le, noError_le,
    neg_of_none_eq, noError_le⟩

theorem sendReq_smooth (len : Nat) : sendReq (.smooth len) len = noError := by
  have sent : (ImplGiven.smooth len).sendMsg = len := rfl
  unfold sendReq
  rw [sent, if_neg (by omega), if_neg (not_not_intro rfl)]

theorem setKeyImpl_smooth (cmd : BitVec 32) (payload : List Byte) :
    setKeyImpl cmd payload (.smooth (implMessage cmd payload).length)
    (some (replyOf cmd .ok)) = noError := by
  have header :
      word32 ((replyOf cmd .ok).take 4) = cmd ||| keymasterStopBit ||| keymasterRespBit := by
    rw [replyOf, BitVec.or_assoc, BitVec.or_comm keymasterRespBit, ← BitVec.or_assoc]
    exact word32_bytes32 _
  have sent := sendReq_smooth (implMessage cmd payload).length
  have awaited : awaitResponse (.smooth (implMessage cmd payload).length)
      (some (replyOf cmd .ok)) = noError := rfl
  have read : readResponse (.smooth (implMessage cmd payload).length)
      (replyOf cmd .ok) 8 = noError := rfl
  have code : (word32 ((replyOf cmd .ok).drop 4)).toInt = 0 := by
    rw [drop_replyOf]
    decide
  unfold setKeyImpl
  simp only [sent, awaited, read, header, code, Option.getD_some, ne_eq,
    not_true_eq_false, if_false, show (replyOf cmd KmError.ok).length = 8 from rfl,
    show (ImplGiven.smooth (implMessage cmd payload).length).malloc from rfl,
    show ¬(ImplGiven.smooth (implMessage cmd payload).length).connect < 0 from lt_irrefl 0]
  rfl

theorem command_ok_iff (provisions : Provisions cmd)
    (short : 4 + data.length ≤ kmsetkeyMaxMsgSize) :
    Command arch cmd (bytes32 algorithm ++ data) manager noError after ↔
      Performs cmd manager algorithm data .ok after := by
  have bytes : implMessage cmd (bytes32 algorithm ++ data) = bytes32 cmd ++
      (bytes32 algorithm ++ data) := by
    have long : 4 - (bytes32 algorithm ++ data).length = 0 := by
      rw [length_append]
      exact Nat.sub_eq_zero_of_le (Nat.le_add_right 4 _)
    rw [implMessage, long, replicate_zero, append_nil]
  have length : (implMessage cmd (bytes32 algorithm ++ data)).length = 8 + data.length := by
    rw [bytes, length_append, length_append, ← Nat.add_assoc]
    rfl
  unfold kmsetkeyMaxMsgSize at short
  constructor
  · rintro ⟨given, ⟨ok, -⟩ | ⟨-, message, configureError, result, final, sent, run, ok, rfl⟩⟩
    · obtain ⟨_, contra, -⟩ := setKeyImpl_ok ok.symm
      cases contra
    obtain ⟨reply, first, code⟩ := setKeyImpl_ok ok.symm
    have carries : Carries message cmd algorithm data :=
      ⟨sent.trans bytes, by rw [sent, length]; omega⟩
    have replies := ensures_served provisions carries configureError _ _ run
    obtain ⟨err, rfl, performed⟩ := replies reply (mem_of_mem_head? first)
    exact performed (ok_of_toInt_bytes (drop_replyOf cmd err ▸ code))
  · intro performed
    have fits : (implMessage cmd (bytes32 algorithm ++ data)).length + 1 < 2 ^ arch.bits := by
      rcases arch.is with bits | bits <;> rw [bits] <;> omega
    have carries : Carries (⟨_, fits⟩ : Received arch) cmd algorithm data := by
      refine ⟨bytes, ?_⟩
      change (implMessage cmd (bytes32 algorithm ++ data)).length < _
      omega
    refine ⟨.smooth (implMessage cmd (bytes32 algorithm ++ data)).length,
      .inr ⟨⟨rfl, le_rfl, sendReq_smooth _⟩, ⟨_, fits⟩, .ok, noError, ⟨after, [replyOf cmd .ok]⟩,
        rfl, ?_, ?_, rfl⟩⟩
    · exact exec_of_reaches (ensures_served provisions carries .ok)
        fun _ holds => reaches_served carries performed holds
    · exact (setKeyImpl_smooth cmd _).symm

end Command

/-! ### What the commands leave in a record -/

/-- The chain with a certificate more; a full chain is started anew. -/
def chainAfter (chain : List (List Byte)) (cert : List Byte) : List (List Byte) :=
  if chain.length < kMaxCertChainLength then chain ++ [cert] else [cert]

theorem certs_appendCert (record : AttestationKey) {cert : List Byte}
    (fits : cert.length ≤ kCertSizeMax) :
    (record.appendCert cert fits).certs = chainAfter record.certs cert := by
  unfold AttestationKey.appendCert chainAfter
  split
  · change record.certs.take record.certs.length ++ cert :: record.certs.drop
      (record.certs.length + 1) = _
    rw [take_length, drop_eq_nil_of_le (Nat.le_succ _)]
  · rfl

def appendCerts (record : AttestationKey) :
    (certs : List (List Byte)) → (∀ cert ∈ certs, cert.length ≤ kCertSizeMax) → AttestationKey
  | [], _ => record
  | cert :: rest, fit => appendCerts (record.appendCert cert (fit cert mem_cons_self)) rest
      fun other member => fit other (mem_cons_of_mem _ member)

section

variable (record : AttestationKey) (certs : List (List Byte))
  (fit : ∀ cert ∈ certs, cert.length ≤ kCertSizeMax)

include record certs fit

theorem certs_appendCerts :
    (appendCerts record certs fit).certs = certs.foldl chainAfter record.certs := by
  induction certs generalizing record with
  | nil => rfl
  | cons cert rest ih => rw [appendCerts, ih, certs_appendCert, foldl_cons]

theorem key_appendCerts :
    (appendCerts record certs fit).hasKey = record.hasKey ∧
    (appendCerts record certs fit).key = record.key := by
  induction certs generalizing record with
  | nil => exact ⟨rfl, rfl⟩
  | cons cert rest ih =>
    rw [appendCerts, (ih _ _).1, (ih _ _).2]
    unfold AttestationKey.appendCert
    split <;> exact ⟨rfl, rfl⟩

end

/-- The new certificates are the whole chain only if there was none before, or a full one. -/
theorem foldl_chainAfter_eq_iff {chain certs : List (List Byte)}
    (limit : chain.length ≤ kMaxCertChainLength) (some_certs : 1 ≤ certs.length)
    (few : certs.length ≤ kMaxCertChainLength) :
    certs.foldl chainAfter chain = certs ↔
    chain.length = 0 ∨ chain.length = kMaxCertChainLength := by
  unfold kMaxCertChainLength at limit few
  -- all lengths of both lists
  rcases certs with _ | ⟨first, _ | ⟨second, _ | ⟨third, _ | ⟨fourth, rest⟩⟩⟩⟩ <;>
    rcases chain with _ | ⟨_, _ | ⟨_, _ | ⟨_, _ | ⟨_, old⟩⟩⟩⟩ <;>
    simp only [length_cons, length_nil] at limit some_certs few <;>
    first
    | omega
    | simp [chainAfter, kMaxCertChainLength]

/-! ### The whole list -/

/-- A key and one to three certificates, within the limits of the records. -/
structure KeyEntry.Valid (entry : KeyEntry) : Prop where
  key_ne : entry.key ≠ []
  key_le : entry.key.length ≤ kKeySizeMax
  certs_ge : 1 ≤ entry.certs.length
  certs_le : entry.certs.length ≤ kMaxCertChainLength
  cert_ne : ∀ cert ∈ entry.certs, cert ≠ []
  cert_le : ∀ cert ∈ entry.certs, cert.length ≤ kCertSizeMax

def KeyEntry.installed (entry : KeyEntry) (valid : entry.Valid) (record : AttestationKey) :
    AttestationKey :=
  appendCerts (record.withKey entry.key valid.key_le) entry.certs valid.cert_le

/-- Storage where the commands are served. -/
abbrev provisionEnv (arch : Arch) (buf : List Byte) :
    Env SetKeyOp SetKeyOp.Ans SecureStorageManager :=
  walkEnv buf fun manager cmd payload rc after => Command arch cmd payload manager rc after

section Walk

variable {arch : Arch} {buf : List Byte} {ptr : Nat} {manager : SecureStorageManager}
  {algorithm : BitVec 32} {slot : AttestationKeySlot}
  {following : Nat → SecureStorageManager → Prop}

theorem ensures_setItem_provision {cmd : BitVec 32} {data : List Byte} (provisions : Provisions cmd)
    (fits : 4 + data.length ≤ kmsetkeyMaxMsgSize) (lies : encodeItem data <+: buf.drop ptr) :
    ensures (provisionEnv arch buf) (setItem cmd algorithm ptr) manager (Proceeds following) ↔
      ∀ after, Performs cmd manager algorithm data .ok after →
      following (ptr + (encodeItem data).length) after := by
  rw [ensures_setItem_at fits lies]
  constructor
  · intro holds after performed
    exact (holds noError after ((command_ok_iff provisions fits).mpr performed)).2 rfl
  · intro holds rc after command
    refine ⟨command.le, ?_⟩
    rintro rfl
    exact holds after ((command_ok_iff provisions fits).mp command)

theorem room_of_le {size : Nat} (fits : size ≤ kCertSizeMax) : 4 + size ≤ kmsetkeyMaxMsgSize := by
  unfold kCertSizeMax at fits
  unfold kmsetkeyMaxMsgSize
  omega

section

variable (slotOf : keySlot algorithm = some slot)

include slotOf

theorem ensures_setKey_item {key : List Byte} (nonempty : key ≠ [])
    (fits : key.length ≤ kKeySizeMax) (lies : encodeItem key <+: buf.drop ptr) :
    ensures (provisionEnv arch buf) (setItem kmSetAttestationKey algorithm ptr) manager
      (Proceeds following) ↔
      following (ptr + (encodeItem key).length)
        (manager.committed slot ((manager.stored slot).withKey key fits)) := by
  have performs (after : SecureStorageManager) :
    Performs kmSetAttestationKey manager algorithm key .ok after ↔
      after = manager.committed slot ((manager.stored slot).withKey key fits) := by
    have other : kmSetAttestationKey ≠ kmAppendAttestationCertChain := by decide
    rw [Performs, setAttestationKey_ok_iff slotOf]
    simp [other, nonempty, fits]
  rw [ensures_setItem_provision (.inl rfl) (room_of_le fits) lies]
  simp [performs]

theorem ensures_appendCert_item {cert : List Byte} (nonempty : cert ≠ [])
    (fits : cert.length ≤ kCertSizeMax) (lies : encodeItem cert <+: buf.drop ptr) :
    ensures (provisionEnv arch buf) (setItem kmAppendAttestationCertChain algorithm ptr) manager
        (Proceeds following) ↔
      following (ptr + (encodeItem cert).length)
        (manager.committed slot ((manager.stored slot).appendCert cert fits)) := by
  have performs (after : SecureStorageManager) :
      Performs kmAppendAttestationCertChain manager algorithm cert .ok after ↔
        after = manager.committed slot ((manager.stored slot).appendCert cert fits) := by
    have other : kmAppendAttestationCertChain ≠ kmSetAttestationKey := by decide
    rw [Performs, appendAttestationCertChain_ok_iff slotOf]
    simp [other, nonempty, fits]
  rw [ensures_setItem_provision (.inr rfl) (room_of_le fits) lies]
  simp [performs]

theorem ensures_setCerts_provision {record : AttestationKey} {certs : List (List Byte)}
    (nonempty : ∀ cert ∈ certs, cert ≠ []) (fit : ∀ cert ∈ certs, cert.length ≤ kCertSizeMax)
    (lie : encodeItems certs <+: buf.drop ptr) :
    ensures (provisionEnv arch buf) (setCerts algorithm certs.length ptr)
    (manager.committed slot record)
        (Proceeds following) ↔
      following (ptr + (encodeItems certs).length)
      (manager.committed slot (appendCerts record certs fit)) := by
  induction certs generalizing ptr record with
  | nil =>
    rw [length_nil, setCerts, ensures_pure]
    exact ⟨fun proceeds => proceeds.2 rfl, fun follows => ⟨le_rfl, fun _ => follows⟩⟩
  | cons cert rest ih =>
    rw [encodeItems, flatMap_cons, append_prefix_drop] at lie
    obtain ⟨someCert, nonempty⟩ := forall_mem_cons.mp nonempty
    obtain ⟨fits, fitRest⟩ := forall_mem_cons.mp fit
    rw [length_cons, setCerts, ensures_bind_proceeds,
      ensures_appendCert_item slotOf someCert fits lie.1, SecureStorageManager.stored_committed,
      SecureStorageManager.committed_committed, ih nonempty fitRest lie.2, encodeItems, encodeItems,
      flatMap_cons, length_append, Nat.add_assoc, appendCerts]

theorem ensures_setAlgorithm_provision {entry : KeyEntry} (valid : entry.Valid)
    (lies : entry.encode <+: buf.drop ptr) :
    ensures (provisionEnv arch buf) (setAlgorithm algorithm ptr) manager (Proceeds following) ↔
      following (ptr + entry.encode.length)
        (manager.committed slot (entry.installed valid (manager.stored slot))) := by
  rw [KeyEntry.encode, append_prefix_drop, append_prefix_drop] at lies
  obtain ⟨first, number, last⟩ := lies
  have inside := number.length_le
  rw [length_drop] at inside
  change 4 ≤ _ at inside
  have few : entry.certs.length < 2 ^ 32 := lt_of_le_of_lt valid.certs_le (by decide)
  have count :
      (word32 (slice buf (ptr + (encodeItem entry.key).length) 4)).toNat = entry.certs.length := by
    have four : slice buf (ptr + (encodeItem entry.key).length) 4 = bytes32
        (BitVec.ofNat 32 entry.certs.length) :=
      slice_of_prefix_drop number rfl
    rw [four, word32_bytes32, BitVec.toNat_ofNat, Nat.mod_eq_of_lt few]
  refine (ensures_bind_proceeds _ fun ptr => do
    let certchainLen ← Walk.load ptr
    setCerts algorithm (word32 certchainLen).toNat (ptr + 4)).trans ?_
  rw [ensures_setKey_item slotOf valid.key_ne valid.key_le first, ensures_bind, ensures_walkLoad,
    and_iff_right (by omega), count]
  refine (ensures_setCerts_provision slotOf valid.cert_ne valid.cert_le last).trans ?_
  rw [KeyEntry.installed, KeyEntry.encode, length_append,
    length_append, ← Nat.add_assoc, ← Nat.add_assoc]

end

end Walk

/-! ### The effect of a list -/

def HasEntry (manager : SecureStorageManager) (slot : AttestationKeySlot)
    (entry : KeyEntry) : Prop :=
  (manager.stored slot).hasKey = true ∧ (manager.stored slot).key = entry.key ∧
    (manager.stored slot).certs = entry.certs

/-- When `set_key` returns without an error, both slots have what the list says. -/
def ProvisionsExactly (arch : Arch) (buf : List Byte) (ec rsa : KeyEntry)
    (manager : SecureStorageManager) : Prop :=
  ensures (provisionEnv arch buf) setKey manager fun rc after =>
    rc = noError → HasEntry after .kEcdsa ec ∧ HasEntry after .kRsa rsa

/-- There is no chain in the slot, or a full one. -/
def ChainStartsAnew (manager : SecureStorageManager) (slot : AttestationKeySlot) : Prop :=
  (manager.stored slot).certs.length = 0 ∨ (manager.stored slot).certs.length = kMaxCertChainLength

theorem hasEntry_installed_iff {manager : SecureStorageManager} {slot : AttestationKeySlot}
    {entry : KeyEntry} (valid : entry.Valid) {record : AttestationKey}
    (installed : manager.stored slot = entry.installed valid record) :
    HasEntry manager slot entry ↔
    record.certs.length = 0 ∨ record.certs.length = kMaxCertChainLength := by
  have key := key_appendCerts (record.withKey entry.key valid.key_le) entry.certs valid.cert_le
  rw [HasEntry, installed, KeyEntry.installed, key.1, key.2, certs_appendCerts]
  change true = true ∧ entry.key = entry.key ∧ _ ↔ _
  rw [and_iff_right rfl, and_iff_right rfl]
  exact foldl_chainAfter_eq_iff record.certs_le valid.certs_ge valid.certs_le

section Effect

variable {arch : Arch} {buf : List Byte} {ec rsa : KeyEntry}

section

variable (arch : Arch) (ecValid : ec.Valid) (rsaValid : rsa.Valid)
  (lies : encodeEntries [ec, rsa] <+: buf.drop 4) (manager : SecureStorageManager)
  (following : SecureStorageManager → Prop)

include ecValid rsaValid lies

theorem ensures_setAlgorithms_provision :
    ensures (provisionEnv arch buf) (setAlgorithms kmAlgo 4) manager (Ends following) ↔
      following
        ((manager.committed .kEcdsa (ec.installed ecValid (manager.stored .kEcdsa))).committed .kRsa
        (rsa.installed rsaValid (manager.stored .kRsa))) := by
  have ecSlot : keySlot kmAlgorithmEc = some .kEcdsa := rfl
  have rsaSlot : keySlot kmAlgorithmRsa = some .kRsa := rfl
  have ne : AttestationKeySlot.kRsa ≠ .kEcdsa := by decide
  rw [encodeEntries, flatMap_cons, flatMap_cons, flatMap_nil, append_nil,
    append_prefix_drop] at lies
  rw [kmAlgo, ensures_setAlgorithms_cons, ensures_setAlgorithm_provision ecSlot ecValid lies.1,
    ensures_setAlgorithms_cons, ensures_setAlgorithm_provision rsaSlot rsaValid lies.2,
    setAlgorithms,
    ensures_pure, SecureStorageManager.stored_committed_of_ne ne]
  exact ⟨fun ends => ends.2 rfl, fun follows => ⟨le_rfl, fun _ => follows⟩⟩

theorem ensures_setKey_provision :
    ensures (provisionEnv arch buf) setKey manager
      (fun rc after => rc = noError → following after) ↔
      following
        ((manager.committed .kEcdsa (ec.installed ecValid (manager.stored .kEcdsa))).committed .kRsa
        (rsa.installed rsaValid (manager.stored .kRsa))) := by
  rw [ensures_setKey fun refused => absurd refused (by decide)]
  constructor
  · intro holds
    -- the walk never ends with a positive number, which would be reported as no error
    have ends :=
      (ensures_setAlgorithms_provision arch ecValid rsaValid lies manager fun _ => True).mpr trivial
    refine (ensures_setAlgorithms_provision arch ecValid rsaValid lies manager following).mp
      (ensures_mono (ensures_and ends holds) ?_)
    rintro rc after ⟨⟨limit, -⟩, follows⟩
    refine ⟨limit, ?_⟩
    rintro rfl
    exact follows rfl
  · intro follows
    refine ensures_mono
      ((ensures_setAlgorithms_provision arch ecValid rsaValid lies manager following).mpr follows)
      ?_
    rintro rc after ⟨limit, ends⟩ ok
    split at ok
    case isTrue failed => exact absurd ok failed.ne
    case isFalse good => exact ends (le_antisymm limit (not_lt.mp good))

end

/-- `SetAttestationKey` leaves the old chain, and the new certificates are appended to it. -/
theorem provisionsExactly_iff (ecValid : ec.Valid) (rsaValid : rsa.Valid)
    (lies : encodeEntries [ec, rsa] <+: buf.drop 4) (manager : SecureStorageManager) :
    ProvisionsExactly arch buf ec rsa manager ↔
      ChainStartsAnew manager .kEcdsa ∧ ChainStartsAnew manager .kRsa := by
  have ne : AttestationKeySlot.kEcdsa ≠ .kRsa := by decide
  rw [ProvisionsExactly, ensures_setKey_provision arch ecValid rsaValid lies]
  refine and_congr (hasEntry_installed_iff ecValid ?_) (hasEntry_installed_iff rsaValid ?_)
  · rw [SecureStorageManager.stored_committed_of_ne ne, SecureStorageManager.stored_committed]
  · rw [SecureStorageManager.stored_committed]

def shortEntry : KeyEntry := ⟨[1], [[2]]⟩

theorem shortEntry_valid : shortEntry.Valid :=
  ⟨by decide, by decide, by decide, by decide, by decide, by decide⟩

def shortList : List Byte := bytes32 1 ++ encodeEntries [shortEntry, shortEntry]

/-- Empty slots are filled. -/
theorem provisionsExactly_iff_empty :
    ProvisionsExactly arm64 shortList shortEntry shortEntry ⟨fun _ => none, true⟩ :=
  (provisionsExactly_iff shortEntry_valid shortEntry_valid prefix_rfl ⟨fun _ => none, true⟩).mpr
    ⟨.inl rfl, .inl rfl⟩

def provisioned : SecureStorageManager :=
  ⟨fun _ => some (shortEntry.installed shortEntry_valid .initZero), true⟩

/-- A second list leaves the certificate of the first in the chain. -/
theorem old_certificate_remains :
    ¬ProvisionsExactly arm64 shortList shortEntry shortEntry provisioned := by
  intro exactly
  have ec :=
    ((ensures_setKey_provision arm64 shortEntry_valid shortEntry_valid prefix_rfl provisioned _).mp
    exactly).1
  exact absurd ec.2.2 (by decide)

end Effect

end Trusty.Kmsetkey
