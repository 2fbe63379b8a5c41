import Trusty.Keymaster.SecurePort

/-!
What a command of the secure port does to the attestation slots when it reports no error.
-/

namespace Trusty.Keymaster

open Lib Kernel Dialog

namespace AttestationKey

/-- The record with a certificate more; a chain of the maximal length is started anew. -/
def appendCert (record : AttestationKey) (cert : List Byte) (fits : cert.length ≤ kCertSizeMax) :
    AttestationKey :=
  if below : record.certs.length < kMaxCertChainLength then
    record.withCert cert record.certs.length fits below
  else record.withoutCerts.withCert cert 0 fits (by decide)

end AttestationKey

namespace SecureStorageManager

def stored (manager : SecureStorageManager) (slot : AttestationKeySlot) : AttestationKey :=
  (manager.files slot).getD .initZero

def committed (manager : SecureStorageManager) (slot : AttestationKeySlot)
    (record : AttestationKey) :
    SecureStorageManager :=
  ⟨Function.update manager.files slot (some record), true⟩

variable {manager after : SecureStorageManager} {slot : AttestationKeySlot}
  {record : AttestationKey}

@[simp]
theorem stored_committed : (manager.committed slot record).stored slot = record := by
  simp [stored, committed]

theorem stored_committed_of_ne {other : AttestationKeySlot} (ne : other ≠ slot) :
    (manager.committed slot record).stored other = manager.stored other := by
  simp [stored, committed, ne]

theorem committed_committed {second : AttestationKey} :
    (manager.committed slot record).committed slot second = manager.committed slot second := by
  simp [committed]

theorem readAttestationKey_result (manager : SecureStorageManager) (slot : AttestationKeySlot)
    (given : ReadGiven) : (∃ err, err ≠ .ok ∧ manager.readAttestationKey slot given = .error err) ∨
      manager.session = true ∧ manager.readAttestationKey slot given = .ok
        (manager.stored slot) := by
  unfold readAttestationKey decodeFromFile stored
  obtain ⟨memory, fileOpened, sized, decoded⟩ := given
  cases memory <;> cases fileOpened <;> cases manager.session <;> cases manager.files slot <;>
    cases sized <;>
    cases decoded <;> simp

theorem writeAttestationKey_ok {given : WriteGiven} (opened : manager.session = true)
    (written : finish (manager.writeAttestationKey slot record given) = (.ok, after)) :
    after = manager.committed slot record := by
  have result : manager.writeAttestationKey slot record given = (.ok, after) := by
    unfold finish at written
    split at written
    · exact written
    case isFalse failed => exact absurd (Prod.mk.inj written).1 failed
  unfold writeAttestationKey at result
  split at result
  · cases result
  split at result
  · cases result
  split at result
  · cases result
  · rw [← (Prod.mk.inj result).2, committed, opened]

def ReadGiven.smooth : ReadGiven := ⟨true, true, true, true⟩

def WriteGiven.smooth : WriteGiven := ⟨true, true, true, true⟩

def UpdateGiven.smooth : UpdateGiven := ⟨.smooth, .smooth⟩

theorem readAttestationKey_smooth (opened : manager.session = true) :
    manager.readAttestationKey slot .smooth = .ok (manager.stored slot) := by
  unfold readAttestationKey decodeFromFile stored
  cases found : manager.files slot <;> simp [ReadGiven.smooth, opened]

theorem writeAttestationKey_smooth (opened : manager.session = true) :
    finish (manager.writeAttestationKey slot record .smooth) =
      (.ok, manager.committed slot record) := by
  simp [finish, writeAttestationKey, WriteGiven.smooth, opened, committed]

theorem getInstance_stored {given : InstanceGiven} {started : SecureStorageManager}
    (found : manager.getInstance given = some started) :
    started.session = true ∧ started.stored slot = manager.stored slot ∧
      started.committed slot record = manager.committed slot record := by
  obtain ⟨opened, files⟩ := getInstance_some found
  exact ⟨opened, by rw [stored, stored, files], by rw [committed, committed, files]⟩

theorem getInstance_opened : manager.getInstance ⟨true, true⟩ = some ⟨manager.files, true⟩ :=
  if_pos (.inr rfl)

end SecureStorageManager

section Commands

open SecureStorageManager

variable {manager after : SecureStorageManager} {algorithm : BitVec 32} {slot : AttestationKeySlot}

variable {key cert : List Byte} {given : UpdateGiven} {index : Nat}

theorem writeKeyToStorage_ok (written : manager.writeKeyToStorage slot key given = (.ok, after)) :
    ∃ fits, after = manager.committed slot ((manager.stored slot).withKey key fits) := by
  unfold writeKeyToStorage at written
  split at written
  case isTrue fits =>
    obtain ⟨err, failed, read⟩ | ⟨opened, read⟩ := readAttestationKey_result manager slot given.read
    · rw [read] at written
      exact absurd (Prod.mk.inj written).1 failed
    · rw [read] at written
      exact ⟨fits, writeAttestationKey_ok opened written⟩
  · cases written

/-- A key is stored, and the chain stays as it was. -/
theorem setAttestationKey_ok_iff (slotOf : keySlot algorithm = some slot) :
    (∃ given, setAttestationKey manager algorithm key given = (.ok, after)) ↔
      key ≠ [] ∧ ∃ fits, after = manager.committed slot
        ((manager.stored slot).withKey key fits) := by
  constructor
  · rintro ⟨given, result⟩
    unfold setAttestationKey at result
    split at result
    · cases result
    case h_2 started found =>
      rw [slotOf] at result
      dsimp only at result
      split at result
      · cases result
      case isFalse nonempty =>
        obtain ⟨fits, written⟩ := writeKeyToStorage_ok result
        obtain ⟨-, sameRecord, sameFiles⟩ := getInstance_stored found
        exact ⟨by simpa using nonempty, fits, by rw [written, sameRecord, sameFiles]⟩
  · rintro ⟨nonempty, fits, rfl⟩
    refine ⟨⟨⟨true, true⟩, .smooth⟩, ?_⟩
    have opened : (⟨manager.files, true⟩ : SecureStorageManager).session = true := rfl
    have long : ¬key.length = 0 := by simpa using nonempty
    simp only [setAttestationKey, getInstance_opened, slotOf, if_neg long, writeKeyToStorage,
      dif_pos fits, UpdateGiven.smooth, readAttestationKey_smooth opened,
      writeAttestationKey_smooth opened]
    rfl

theorem writeCertToStorage_ok
    (written : manager.writeCertToStorage slot cert index given = (.ok, after)) :
    manager.session = true ∧ ∃ fits below, index ≤ (manager.stored slot).certs.length ∧
      after = manager.committed slot ((manager.stored slot).withCert cert index fits below) := by
  unfold writeCertToStorage at written
  split at written
  case isTrue fits =>
    obtain ⟨err, failed, read⟩ | ⟨opened, read⟩ := readAttestationKey_result manager slot given.read
    · rw [read] at written
      exact absurd (Prod.mk.inj written).1 failed
    · rw [read] at written
      dsimp only at written
      split at written
      · cases written
      case isFalse within =>
        exact ⟨opened, fits.1, fits.2, Nat.not_lt.mp within, writeAttestationKey_ok opened written⟩
  · cases written

theorem deleteCertChainFromStorage_ok
    (deleted : manager.deleteCertChainFromStorage slot given = (.ok, after)) :
    manager.session = true ∧ after = manager.committed slot (manager.stored slot).withoutCerts := by
  unfold deleteCertChainFromStorage at deleted
  obtain ⟨err, failed, read⟩ | ⟨opened, read⟩ := readAttestationKey_result manager slot given.read
  · rw [read] at deleted
    exact absurd (Prod.mk.inj deleted).1 failed
  · rw [read] at deleted
    exact ⟨opened, writeAttestationKey_ok opened deleted⟩

theorem readCertChainLength_cases (manager : SecureStorageManager) (slot : AttestationKeySlot)
    (given : ReadGiven) :
    (∃ err, err ≠ .ok ∧
      manager.readCertChainLength slot given = (.error err, manager.closeSession)) ∨
      manager.readCertChainLength slot given = (.ok (manager.stored slot).certs.length,
        manager) := by
  unfold readCertChainLength
  obtain ⟨err, failed, read⟩ | ⟨_, read⟩ := readAttestationKey_result manager slot given
  · exact .inl ⟨err, failed, by rw [read]⟩
  · exact .inr (by rw [read])

/-- Where a certificate is appended: behind a chain that is not full, or at the start of a
record whose chain was deleted.  In the other cases there is an error, or a closed session
will lead to one. -/
theorem chainLengthToAppend_cases (manager : SecureStorageManager) (slot : AttestationKeySlot)
    (given : AppendGiven) :
    (∃ length between, chainLengthToAppend manager slot given = (.ok length, between) ∧
      between.session = false) ∨
      (∃ err between, err ≠ .ok ∧ chainLengthToAppend manager slot given = (.error err, between)) ∨
    ((manager.stored slot).certs.length < kMaxCertChainLength ∧
      chainLengthToAppend manager slot given = (.ok (manager.stored slot).certs.length, manager)) ∨
    (¬(manager.stored slot).certs.length < kMaxCertChainLength ∧
      chainLengthToAppend manager slot
        given = (.ok 0, manager.committed slot (manager.stored slot).withoutCerts)) := by
  unfold chainLengthToAppend
  obtain ⟨err, -, read⟩ | read := readCertChainLength_cases manager slot given.length
  · exact .inl ⟨0, manager.closeSession, by rw [read], rfl⟩
  rw [read]
  dsimp only
  by_cases below : (manager.stored slot).certs.length < kMaxCertChainLength
  · exact .inr (.inr (.inl ⟨below, if_pos below⟩))
  rw [if_neg below]
  cases deleted : manager.deleteCertChainFromStorage slot given.deletion with
  | mk err between =>
    by_cases ok : err = .ok
    · subst ok
      obtain ⟨-, rfl⟩ := deleteCertChainFromStorage_ok deleted
      dsimp only
      obtain ⟨err, failed, reread⟩ | reread := readCertChainLength_cases _ slot given.relength
      · exact .inr (.inl ⟨err, _, failed, by rw [reread]⟩)
      · refine .inr (.inr (.inr ⟨below, ?_⟩))
        rw [reread, stored_committed]
        rfl
    · refine .inr (.inl ⟨err, between, ok, ?_⟩)
      cases err <;> first | rfl | exact absurd rfl ok

theorem appended_ok {given : AppendGiven}
    (appended : (match chainLengthToAppend manager slot given with
      | (.error err, manager) => (err, manager)
      | (.ok length, manager) =>
        manager.writeCertToStorage slot cert length given.update) = (.ok, after)) :
    ∃ fits, after = manager.committed slot ((manager.stored slot).appendCert cert fits) := by
  unfold AttestationKey.appendCert
  obtain ⟨length, between, found, closed⟩ | ⟨err, between, failed, found⟩ | ⟨below,
      found⟩ | ⟨full, found⟩ :=
    chainLengthToAppend_cases manager slot given
  · rw [found] at appended
    rw [(writeCertToStorage_ok appended).1] at closed
    cases closed
  · rw [found] at appended
    exact absurd (Prod.mk.inj appended).1 failed
  · rw [found] at appended
    obtain ⟨_, fits, _, _, written⟩ := writeCertToStorage_ok appended
    exact ⟨fits, by rw [written, dif_pos below]⟩
  · rw [found] at appended
    obtain ⟨_, fits, _, _, written⟩ := writeCertToStorage_ok appended
    refine ⟨fits, ?_⟩
    rw [written, dif_neg full, committed_committed]
    simp

def AppendGiven.smooth : AppendGiven := ⟨⟨true, true⟩, .smooth, .smooth, .smooth, .smooth⟩

section

variable (opened : manager.session = true)

include opened

theorem readCertChainLength_smooth :
    manager.readCertChainLength slot .smooth = (.ok (manager.stored slot).certs.length,
      manager) := by
  simp only [readCertChainLength, readAttestationKey_smooth opened]

theorem writeCertToStorage_smooth (fits : cert.length ≤ kCertSizeMax)
    (below : index < kMaxCertChainLength) (within : ¬(manager.stored slot).certs.length < index) :
    manager.writeCertToStorage slot cert index .smooth =
      (.ok, manager.committed slot ((manager.stored slot).withCert cert index fits below)) := by
  simp only [writeCertToStorage, dif_pos (And.intro fits below), UpdateGiven.smooth,
    readAttestationKey_smooth opened, if_neg within, writeAttestationKey_smooth opened]

theorem appended_smooth (fits : cert.length ≤ kCertSizeMax) :
    (match chainLengthToAppend manager slot .smooth with
      | (.error err, manager) => (err, manager)
      | (.ok length, manager) => manager.writeCertToStorage slot cert length .smooth) =
      (.ok, manager.committed slot ((manager.stored slot).appendCert cert fits)) := by
  unfold AttestationKey.appendCert
  by_cases below : (manager.stored slot).certs.length < kMaxCertChainLength
  · simp only [chainLengthToAppend, AppendGiven.smooth, readCertChainLength_smooth opened,
      if_pos below, dif_pos below, writeCertToStorage_smooth opened fits below (lt_irrefl _)]
  have deleted : manager.deleteCertChainFromStorage slot .smooth =
      (.ok, manager.committed slot (manager.stored slot).withoutCerts) := by
    simp only [deleteCertChainFromStorage, UpdateGiven.smooth, readAttestationKey_smooth opened,
      writeAttestationKey_smooth opened]
  have reopened : (manager.committed slot (manager.stored slot).withoutCerts).session = true := rfl
  have emptied : chainLengthToAppend manager slot .smooth =
      (.ok 0, manager.committed slot (manager.stored slot).withoutCerts) := by
    simp only [chainLengthToAppend, AppendGiven.smooth, readCertChainLength_smooth opened,
      if_neg below, deleted, readCertChainLength_smooth reopened, stored_committed]
    rfl
  rw [emptied, dif_neg below]
  dsimp only
  rw [writeCertToStorage_smooth reopened fits (by decide) (Nat.not_lt_zero _), committed_committed]
  simp

end

/-- A certificate is appended, and the key stays as it was. -/
theorem appendAttestationCertChain_ok_iff (slotOf : keySlot algorithm = some slot) :
    (∃ given, appendAttestationCertChain manager algorithm cert given = (.ok, after)) ↔
      cert ≠ [] ∧ ∃ fits, after = manager.committed slot
        ((manager.stored slot).appendCert cert fits) := by
  constructor
  · rintro ⟨given, result⟩
    unfold appendAttestationCertChain at result
    split at result
    · cases result
    case h_2 started found =>
      rw [slotOf] at result
      dsimp only at result
      split at result
      · cases result
      case isFalse nonempty =>
        obtain ⟨fits, appended⟩ := appended_ok result
        obtain ⟨-, sameRecord, sameFiles⟩ := getInstance_stored found
        exact ⟨by simpa using nonempty, fits, by rw [appended, sameRecord, sameFiles]⟩
  · rintro ⟨nonempty, fits, rfl⟩
    have opened : (⟨manager.files, true⟩ : SecureStorageManager).session = true := rfl
    have long : ¬cert.length = 0 := by simpa using nonempty
    refine ⟨.smooth, ?_⟩
    simp only [appendAttestationCertChain, show AppendGiven.smooth.start = ⟨true, true⟩ from rfl,
      getInstance_opened, slotOf, if_neg long]
    exact appended_smooth opened fits

end Commands

section Served

variable {arch : Arch} {message : Received arch} {cmd algorithm : BitVec 32} {data : List Byte}
  {manager after : SecureStorageManager}

/-- The command is done for the algorithm and the data, with this error. -/
def Performs (cmd : BitVec 32) (manager : SecureStorageManager) (algorithm : BitVec 32)
    (data : List Byte) (err : KmError) (after : SecureStorageManager) : Prop :=
  (cmd = kmSetAttestationKey ∧
    ∃ given, setAttestationKey manager algorithm data given = (err, after)) ∨
    (cmd = kmAppendAttestationCertChain ∧ ∃ given, appendAttestationCertChain manager algorithm data
      given = (err, after))

def replyOf (cmd : BitVec 32) (err : KmError) : List Byte :=
  bytes32 (cmd ||| keymasterRespBit ||| keymasterStopBit) ++ err.bytes

/-- A message with a command for the slots. -/
structure Carries (message : Received arch) (cmd algorithm : BitVec 32) (data : List Byte) :
    Prop where
  bytes : message.bytes = bytes32 cmd ++ (bytes32 algorithm ++ data)
  short : message.bytes.length < 2 ^ 32 + 4

namespace Carries

section

variable (carries : Carries message cmd algorithm data)

include carries

theorem cmd_eq : message.cmd = cmd := by
  rw [Received.cmd, carries.bytes, List.take_append_of_le_length (by rfl)]
  exact word32_bytes32 cmd

theorem length_ge : 8 ≤ message.bytes.length := by
  rw [carries.bytes, List.length_append, List.length_append]
  exact Nat.add_le_add_left (Nat.le_add_right 4 _) 4

theorem drop_eq : message.bytes.drop 8 = data := by
  rw [carries.bytes]
  rfl

theorem algorithm_eq : word32 (((message.bytes ++ [0]).drop 4).take 4) = algorithm := by
  rw [carries.bytes]
  exact word32_bytes32 algorithm

end

end Carries

/-- The dispatch has done the command, and has an error code to send unless there was no
memory for it. -/
def DispatchPerforms (cmd : BitVec 32) (manager : SecureStorageManager) (algorithm : BitVec 32)
    (data : List Byte) (result : Int × List Byte) (final : PortState) : Prop :=
  final.sent = [] ∧ (result = (errNoMemory, []) ∨
    ∃ err, result = (noError, err.bytes) ∧ Performs cmd manager algorithm data err final.manager)

variable {operation : BitVec 32 → List Byte → ServerDialog arch KmError} {payloadSize : BitVec 32}
  {msgBuf : arch.Word}

theorem ensures_provision_performs (carries : Carries message cmd algorithm data)
    (performs : ensures (securePort message) (operation algorithm data) ⟨manager, []⟩
      fun err final =>
      final.sent = [] ∧ Performs cmd manager algorithm data err final.manager)
    (placed : msgBuf.toNat + (message.bytes.length + 1) < 2 ^ arch.bits)
    (size : payloadSize.toNat = message.bytes.length - 4) :
    ensures (securePort message) (provision operation payloadSize msgBuf) ⟨manager, []⟩
      (DispatchPerforms cmd manager algorithm data) := by
  have long := carries.length_ge
  simp only [provision, ensures_bind, Ask.ensures_load]
  refine ⟨show 4 + 4 ≤ message.bytes.length + 1 by omega, ?_⟩
  rintro loaded _ ⟨rfl, found⟩
  rw [found, carries.algorithm_eq]
  refine ensures_mono (ensures_reinitializeBuffer placed (by omega) size) ?_
  rintro _ _ ⟨rfl, rfl⟩
  rw [carries.drop_eq]
  refine ensures_mono performs ?_
  rintro err stored ⟨sent, performed⟩
  refine ensures_mono (ensures_errorOut err) ?_
  rintro result _ ⟨rfl, answered⟩
  exact ⟨sent, answered.imp_right fun out => ⟨err, out, performed⟩⟩

section

variable (provisions : Provisions cmd) (carries : Carries message cmd algorithm data)

include provisions carries

theorem ensures_dispatch_performs
    (placed : msgBuf.toNat + (message.bytes.length + 1) < 2 ^ arch.bits)
    (size : payloadSize.toNat = (message.bytes.length - 4) % 2 ^ 32) :
    ensures (securePort message) (keymasterDispatchSecure cmd payloadSize msgBuf) ⟨manager, []⟩
      (DispatchPerforms cmd manager algorithm data) := by
  have short := carries.short
  rw [Nat.mod_eq_of_lt (by omega)] at size
  unfold keymasterDispatchSecure
  obtain rfl | rfl := provisions
  · refine ensures_provision_performs carries ?_ placed size
    rw [Ask.ensures_setAttestationKey]
    refine ⟨carries.drop_eq.symm, ?_⟩
    rintro (err : KmError) final ⟨performed, sent⟩
    exact ⟨sent, .inl ⟨rfl, performed⟩⟩
  · refine ensures_provision_performs carries ?_ placed size
    rw [Ask.ensures_appendAttestationCertChain]
    refine ⟨carries.drop_eq.symm, ?_⟩
    rintro (err : KmError) final ⟨performed, sent⟩
    exact ⟨sent, .inr ⟨rfl, performed⟩⟩

/-- A reply that says that there was no error is true. -/
theorem ensures_served (configureError : KmError) :
    ensures (securePort message) (handleMsg keymasterDispatchSecure configureError) ⟨manager, []⟩
      fun _ final =>
      ∀ reply ∈ final.sent, ∃ err, reply = replyOf cmd err ∧
        (err = .ok → Performs cmd manager algorithm data .ok final.manager) := by
  refine ensures_handleMsg (fun _ _ contra => by cases contra)
    fun payloadSize msgBuf long placed size => ?_
  rw [carries.cmd_eq]
  refine ensures_mono (ensures_dispatch_performs provisions carries placed size) ?_
  -- whatever is sent is the one error code
  have responds (err : KmError) (between : PortState) (sent : between.sent = [])
      (performed : err = .ok → Performs cmd manager algorithm data .ok between.manager) :
      ensures (securePort message) (sendResponse cmd err.bytes) between fun _ final =>
        ∀ reply ∈ final.sent, ∃ err, reply = replyOf cmd err ∧
          (err = .ok → Performs cmd manager algorithm data .ok final.manager) := by
    refine ensures_mono (ensures_sendChunks _ _) ?_
    rintro _ final ⟨kept, atMost⟩ reply member
    obtain before | equal := (atMost (by rw [err.length_bytes]; decide)).2 reply member
    · rw [sent] at before
      cases before
    · exact ⟨err, equal, fun ok => by rw [kept]; exact performed ok⟩
  rintro result between ⟨sent, rfl | ⟨err, rfl, performed⟩⟩
  · exact responds .unknownError between sent fun contra => by cases contra
  · refine responds err between sent ?_
    rintro rfl
    exact performed

end

section

variable (carries : Carries message cmd algorithm data)
  (placed : msgBuf.toNat + (message.bytes.length + 1) < 2 ^ arch.bits)
  (size : payloadSize.toNat = message.bytes.length - 4)

include carries placed size

theorem reaches_reinitializeBuffer {state : PortState} {post : List Byte → PortState → Prop}
    (holds :
      ensures (securePort message)
      (reinitializeBuffer msgBuf 8 (payloadSize.setWidth arch.bits - 4)) state post) :
      post data state := by
  have long := carries.length_ge
  have known := @ensures_reinitializeBuffer arch message state msgBuf payloadSize placed
    (by omega) size
  rw [carries.drop_eq] at known
  simp only [reinitializeBuffer, ensures_ite, ensures_pure, Ask.ensures_load] at known holds
  by_cases wraps : msgBuf + BitVec.ofNat arch.bits 8 + (payloadSize.setWidth arch.bits - 4) <
      msgBuf + BitVec.ofNat arch.bits 8
  · rw [← (known.1 wraps).2]
    exact holds.1 wraps
  · rw [← ((known.2 wraps).2 _ state ⟨rfl, rfl⟩).2]
    exact (holds.2 wraps).2 _ state ⟨rfl, rfl⟩

theorem reaches_provision {post : Int × List Byte → PortState → Prop}
    (performs : ∀ next : KmError → PortState → Prop,
      ensures (securePort message) (operation algorithm data) ⟨manager, []⟩ next →
      next .ok ⟨after, []⟩)
    (holds : ensures (securePort message) (provision operation payloadSize msgBuf)
      ⟨manager, []⟩ post) :
    post (noError, KmError.ok.bytes) ⟨after, []⟩ := by
  simp only [provision, ensures_bind, Ask.ensures_load] at holds
  have holds := holds.2 _ ⟨manager, []⟩ ⟨rfl, rfl⟩
  dsimp only at holds
  rw [carries.algorithm_eq] at holds
  have holds := performs _ (reaches_reinitializeBuffer carries placed size holds)
  simp only [errorOut, ensures_bind, Ask.ensures_newOut] at holds
  exact (ensures_pure _).mp (holds.2 true _ rfl)

end

/-- A command that is done without an error may be answered so. -/
theorem reaches_served {configureError : KmError} {post : Int → PortState → Prop}
    (carries : Carries message cmd algorithm data)
    (performed : Performs cmd manager algorithm data .ok after)
    (holds : ensures (securePort message) (handleMsg keymasterDispatchSecure configureError)
      ⟨manager, []⟩ post) :
    post noError ⟨after, [replyOf cmd .ok]⟩ := by
  have long := carries.length_ge
  have short := carries.short
  have fits := message.fits
  have holds := ensures_dispatch_of_handleMsg (by omega) holds
  rw [carries.cmd_eq] at holds
  have length : (BitVec.ofNat arch.bits message.bytes.length).toNat = message.bytes.length := by
    exact Nat.mod_eq_of_lt (by omega)
  have size := toNat_payloadSize length (by omega)
  rw [Nat.mod_eq_of_lt (by omega)] at size
  have placed : (0 : arch.Word).toNat + (message.bytes.length + 1) < 2 ^ arch.bits := by
    rw [show (0 : arch.Word).toNat = 0 from BitVec.toNat_zero, Nat.zero_add]
    exact fits
  have holds : ensures (securePort message) (respond cmd configureError (noError, KmError.ok.bytes))
      ⟨after, []⟩ post := by
    unfold keymasterDispatchSecure at holds
    obtain ⟨rfl, given, result⟩ | ⟨rfl, given, result⟩ := performed
    · refine reaches_provision carries placed size (fun next ensured => ?_) holds
      rw [Ask.ensures_setAttestationKey] at ensured
      exact ensured.2 KmError.ok ⟨after, []⟩ ⟨⟨given, result⟩, rfl⟩
    · refine reaches_provision carries placed size (fun next ensured => ?_) holds
      rw [Ask.ensures_appendAttestationCertChain] at ensured
      exact ensured.2 KmError.ok ⟨after, []⟩ ⟨⟨given, result⟩, rfl⟩
  unfold respond at holds
  rw [if_neg (by decide), if_neg (by decide), sendResponse, sendChunks, if_pos (by decide)] at holds
  simp only [ensures_bind, ensures_pure, sendChunk, Ask.ensures_sendMsg] at holds
  have holds := holds.2 (8 : Int) ⟨after, [replyOf cmd .ok]⟩ ⟨rfl, rfl⟩
  dsimp only at holds
  rw [if_neg (by decide), ensures_pure, if_neg (by decide)] at holds
  exact holds

end Served

end Trusty.Keymaster
