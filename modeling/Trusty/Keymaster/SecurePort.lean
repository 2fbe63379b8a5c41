import Trusty.Keymaster.Server

/-!
Which messages on the secure port are read within their bounds.
-/

namespace Trusty.Keymaster

open Lib Kernel Dialog List BitVec

/-- A message on a connection; with its terminator it has a place in memory. -/
structure Received (arch : Arch) where
  bytes : List Byte
  fits : bytes.length + 1 < 2 ^ arch.bits

/-- The attestation slots, and what was sent on the connection. -/
structure PortState where
  manager : SecureStorageManager
  sent : List (List Byte)

section Port

variable {arch : Arch}

/-- The secure port with a message.  Reads have to stay inside the message and its
terminator, and a key or certificate has to be what follows the first four bytes of
the payload. -/
def securePort (message : Received arch) : Env (ServerOp arch) ServerOp.Ans PortState where
  allowed _ op :=
    match op with
    | .load offset size => offset + size ≤ message.bytes.length + 1
    | .setAttestationKey _ keyData => keyData = message.bytes.drop 8
    | .appendAttestationCertChain _ certData => certData = message.bytes.drop 8
    | _ => True
  answers state op :=
    match op with
    | .getMsg => fun (answer : Int × arch.Word) after =>
      after = state ∧ (answer.1 = noError → answer.2.toNat = message.bytes.length)
    | .newMsgBuf size => fun (buf : Option arch.Word) after =>
      after = state ∧ ∀ addr, buf = some addr → addr.toNat + size.toNat < 2 ^ arch.bits
    | .readMsg _ => fun (rc : Int) after => after = state ∧ (rc < 0 ∨ rc = message.bytes.length)
    | .load offset size => fun (loaded : List Byte) after =>
      after = state ∧ loaded = ((message.bytes ++ [0]).drop offset).take size
    | .setAttestationKey algorithm keyData => fun (err : KmError) after =>
      (∃ given, setAttestationKey state.manager algorithm keyData given = (err, after.manager)) ∧
        after.sent = state.sent
    | .appendAttestationCertChain algorithm certData => fun (err : KmError) after =>
      (∃ given, appendAttestationCertChain state.manager algorithm certData
        given = (err, after.manager)) ∧
        after.sent = state.sent
    | .sendMsg sent => fun (rc : Int) after =>
      after.manager = state.manager ∧ after.sent = if rc < 0 then state.sent
        else state.sent ++ [sent]
    | _ => fun _ after => after = state

def Received.cmd (message : Received arch) : BitVec 32 := word32 (message.bytes.take 4)

/-- A command with a key or a certificate. -/
def Provisions (cmd : BitVec 32) : Prop :=
  cmd = kmSetAttestationKey ∨ cmd = kmAppendAttestationCertChain

/-- Every reply is an error, and the files are what they were. -/
def Refused (cmd : BitVec 32) (before : SecureStorageManager) (after : PortState) : Prop :=
  after.manager.files = before.files ∧
    ∀ reply ∈ after.sent, ∃ err, err ≠ KmError.ok ∧
      reply = bytes32 (cmd ||| keymasterRespBit ||| keymasterStopBit) ++ err.bytes

/-- The message is read within its bounds, what is passed on is the payload after its
first four bytes, and a payload that is too short for these is refused. -/
def ParsedSafely (message : Received arch) : Prop :=
  ∀ configureError manager,
    ensures (securePort message) (handleMsg keymasterDispatchSecure configureError) ⟨manager, []⟩
      fun _ final => Provisions message.cmd → message.bytes.length < 8 →
      Refused message.cmd manager final

/-! ### Replies -/

variable {message : Received arch} {state : PortState}

def SentAtMost (state : PortState) (reply : List Byte) (final : PortState) : Prop :=
  final.manager = state.manager ∧ ∀ other ∈ final.sent, other ∈ state.sent ∨ other = reply

theorem SentAtMost.refl (state : PortState) (reply : List Byte) : SentAtMost state reply state :=
  ⟨rfl, fun _ member => .inl member⟩

theorem SentAtMost.trans {between final : PortState} {reply : List Byte}
    (first : SentAtMost state reply between) (second : SentAtMost between reply final) :
    SentAtMost state reply final := by
  refine ⟨second.1.trans first.1, fun other member => ?_⟩
  obtain before | equal := second.2 other member
  · exact first.2 other before
  · exact .inr equal

theorem ensures_sendMsg (reply : List Byte) :
    ensures (securePort message) (Ask.sendMsg reply) state fun _ final =>
      SentAtMost state reply final := by
  rw [Ask.ensures_sendMsg]
  refine ⟨trivial, ?_⟩
  rintro (rc : Int) after ⟨manager, sent⟩
  refine ⟨manager, fun other member => ?_⟩
  rw [sent] at member
  split at member
  · exact .inl member
  · rw [mem_append, mem_singleton] at member
    exact member

theorem ensures_waitToSend (reply : List Byte) :
    ensures (securePort message) (waitToSend reply) state fun _ final =>
      SentAtMost state reply final := by
  simp only [waitToSend, ensures_bind, Ask.ensures_wait]
  refine ⟨trivial, ?_⟩
  rintro ⟨rc, event⟩ _ rfl
  simp only [ensures_ite, ensures_pure]
  refine ⟨fun _ => .refl _ _, fun _ => ⟨fun _ => ensures_sendMsg reply, fun _ => ?_⟩⟩
  exact ⟨fun _ => .refl _ _, fun _ => ⟨fun _ => .refl _ _, fun _ => .refl _ _⟩⟩

theorem ensures_sendChunk (reply : List Byte) :
    ensures (securePort message) (sendChunk reply) state fun _ final =>
      SentAtMost state reply final := by
  simp only [sendChunk, ensures_bind]
  refine ensures_mono (ensures_sendMsg reply) ?_
  intro rc after sent
  simp only [ensures_ite, ensures_pure]
  exact ⟨fun _ => ensures_mono (ensures_waitToSend reply) fun _ _ => sent.trans, fun _ => sent⟩

theorem ensures_sendChunks (cmd : BitVec 32) (rest : List Byte) :
    ensures (securePort message) (sendChunks cmd rest) state fun _ final =>
      final.manager = state.manager ∧ (rest.length ≤ maxMsgSize →
        SentAtMost state (bytes32 (cmd ||| keymasterStopBit) ++ rest) final) := by
  induction rest using sendChunks.induct generalizing state with
  | case1 rest short =>
    rw [sendChunks, if_pos short]
    simp only [ensures_bind, ensures_pure]
    exact ensures_mono (ensures_sendChunk _) fun _ _ sent => ⟨sent.1, fun _ => sent⟩
  | case2 rest long ih =>
    rw [sendChunks, if_neg long]
    simp only [ensures_bind]
    refine ensures_mono (ensures_sendChunk _) ?_
    intro rc between sent
    simp only [ensures_ite, ensures_pure]
    refine ⟨fun _ => ⟨sent.1, fun short => absurd short long⟩, fun _ => ?_⟩
    exact ensures_mono ih fun _ _ kept => ⟨kept.1.trans sent.1, fun short => absurd short long⟩

/-! ### The payload -/

theorem toNat_payloadSize {len : arch.Word} (length : len.toNat = message.bytes.length)
    (header : 4 ≤ message.bytes.length) :
    ((len - 4).setWidth 32).toNat = (message.bytes.length - 4) % 2 ^ 32 := by
  have four : (4 : arch.Word).toNat = 4 := by
    obtain ⟨bits, rfl | rfl⟩ := arch <;> rfl
  have least : 4 ≤ len := by
    rw [le_def, four, length]
    exact header
  rw [toNat_setWidth, toNat_sub_of_le least, four, length]

variable {msgBuf : arch.Word} {payloadSize algorithm cmd : BitVec 32}
  {manager after : SecureStorageManager} {err configureError : KmError}
  {operation : BitVec 32 → List Byte → ServerDialog arch KmError} {out : List Byte}
    {post : Int → PortState → Prop}

/-- For a payload of three bytes the end wraps around, and nothing is copied; the fourth
byte of the algorithm is the terminator. -/
theorem ensures_reinitializeBuffer
    (placed : msgBuf.toNat + (message.bytes.length + 1) < 2 ^ arch.bits)
    (long : 7 ≤ message.bytes.length) (size : payloadSize.toNat = message.bytes.length - 4) :
    ensures (securePort message) (reinitializeBuffer msgBuf 8 (payloadSize.setWidth arch.bits - 4))
      state
      fun data final => final = state ∧ data = message.bytes.drop 8 := by
  have four : (4 : arch.Word).toNat = 4 := by
    obtain ⟨bits, rfl | rfl⟩ := arch <;> rfl
  have start : (msgBuf + BitVec.ofNat arch.bits 8).toNat = msgBuf.toNat + 8 := by
    rw [toNat_add, toNat_ofNat, Nat.add_mod_mod]
    exact Nat.mod_eq_of_lt (by omega)
  simp only [reinitializeBuffer, ensures_ite, ensures_pure, lt_def]
  by_cases short : message.bytes.length = 7
  · have wraps : (payloadSize.setWidth arch.bits - 4).toNat = 2 ^ arch.bits - 1 := by
      rw [toNat_sub, four, toNat_setWidth_word, size, short,
        show 2 ^ arch.bits - 4 + (7 - 4) = 2 ^ arch.bits - 1 by omega]
      exact Nat.mod_eq_of_lt (by omega)
    have below :
        (msgBuf + BitVec.ofNat arch.bits 8 + (payloadSize.setWidth arch.bits - 4)).toNat =
          msgBuf.toNat + 7 := by
      rw [toNat_add, start, wraps,
        show msgBuf.toNat + 8 + (2 ^ arch.bits - 1) = msgBuf.toNat + 7 + 2 ^ arch.bits by omega,
        Nat.add_mod_right]
      exact Nat.mod_eq_of_lt (by omega)
    rw [below, start]
    refine ⟨fun _ => ⟨trivial, ?_⟩, fun notBelow => absurd (Nat.lt_succ_self _) notBelow⟩
    exact (drop_eq_nil_of_le (by omega)).symm
  have length : (payloadSize.setWidth arch.bits - 4).toNat = message.bytes.length - 8 := by
    have least : 4 ≤ payloadSize.setWidth arch.bits := by
      rw [le_def, four, toNat_setWidth_word]
      omega
    rw [toNat_sub_of_le least, four, toNat_setWidth_word, size]
    omega
  have above : (msgBuf + BitVec.ofNat arch.bits 8 + (payloadSize.setWidth arch.bits - 4)).toNat =
      msgBuf.toNat + message.bytes.length := by
    rw [toNat_add, start, length,
      show msgBuf.toNat + 8 + (message.bytes.length - 8) = msgBuf.toNat + message.bytes.length by
        omega]
    exact Nat.mod_eq_of_lt (by omega)
  rw [above, start, length, Ask.ensures_load]
  refine ⟨fun contra => by omega, fun _ => ⟨?_, ?_⟩⟩
  · change 8 + (message.bytes.length - 8) ≤ message.bytes.length + 1
    omega
  · rintro loaded _ ⟨rfl, rfl⟩
    refine ⟨rfl, ?_⟩
    rw [drop_append_of_le_length (by omega), take_append_of_le_length (by rw [length_drop])]
    exact take_of_length_le (by rw [length_drop])

/-! ### The commands -/

theorem setAttestationKey_nil {given : SetGiven}
    (result : setAttestationKey manager algorithm [] given = (err, after)) :
    err ≠ .ok ∧ after.files = manager.files := by
  unfold setAttestationKey at result
  split at result
  case h_1 =>
    cases result
    exact ⟨by decide, rfl⟩
  case h_2 started startedIs =>
    have files := (SecureStorageManager.getInstance_some startedIs).2
    split at result <;> cases result <;> exact ⟨by decide, files⟩

theorem appendAttestationCertChain_nil {given : AppendGiven}
    (result : appendAttestationCertChain manager algorithm [] given = (err, after)) :
    err ≠ .ok ∧ after.files = manager.files := by
  unfold appendAttestationCertChain at result
  split at result
  case h_1 =>
    cases result
    exact ⟨by decide, rfl⟩
  case h_2 started startedIs =>
    have files := (SecureStorageManager.getInstance_some startedIs).2
    split at result <;> cases result <;> exact ⟨by decide, files⟩

/-- What a dispatch leaves that refuses: an error to send, and the files as they were. -/
def DispatchRefuses (state : PortState) (result : Int × List Byte) (final : PortState) : Prop :=
  final.manager.files = state.manager.files ∧ final.sent = state.sent ∧
    (result = (errNoMemory, []) ∨ ∃ err, err ≠ KmError.ok ∧ result = (noError, err.bytes))

theorem ensures_errorOut (err : KmError) :
    ensures (securePort message) (errorOut err) state fun result final =>
      final = state ∧ (result = (errNoMemory, []) ∨ result = (noError, err.bytes)) := by
  simp only [errorOut, ensures_bind, Ask.ensures_newOut]
  refine ⟨trivial, ?_⟩
  rintro (memory : Bool) _ rfl
  simp only [ensures_ite, ensures_pure]
  exact ⟨fun _ => ⟨trivial, .inr trivial⟩, fun _ => ⟨trivial, .inl trivial⟩⟩

theorem ensures_getAuthTokenKey :
    ensures (securePort message) getAuthTokenKey state fun _ _ => True := by
  simp only [getAuthTokenKey, ensures_bind, Ask.ensures_getAuthTokenKey]
  refine ⟨trivial, ?_⟩
  rintro (key : Option (List Byte)) _ rfl
  cases key with
  | none => exact (ensures_pure _).mpr trivial
  | some key =>
    simp only [ensures_ite, ensures_pure, ensures_bind, Ask.ensures_newOut]
    exact ⟨fun _ => trivial, fun _ => ⟨trivial, fun _ _ _ => ⟨fun _ => trivial, fun _ => trivial⟩⟩⟩

/-- An operation on the slots that refuses to store nothing. -/
def RefusesEmpty (message : Received arch)
    (operation : BitVec 32 → List Byte → ServerDialog arch KmError) : Prop :=
  ∀ algorithm state, ensures (securePort message) (operation algorithm (message.bytes.drop 8)) state
    fun err final => message.bytes.length < 8 →
      err ≠ .ok ∧ final.manager.files = state.manager.files ∧ final.sent = state.sent

theorem setAttestationKey_refusesEmpty : RefusesEmpty message Ask.setAttestationKey := by
  intro algorithm state
  rw [Ask.ensures_setAttestationKey]
  refine ⟨rfl, ?_⟩
  rintro (err : KmError) after ⟨⟨given, result⟩, sent⟩ short
  rw [drop_eq_nil_of_le (by omega)] at result
  obtain ⟨failed, files⟩ := setAttestationKey_nil result
  exact ⟨failed, files, sent⟩

theorem appendAttestationCertChain_refusesEmpty :
    RefusesEmpty message Ask.appendAttestationCertChain := by
  intro algorithm state
  rw [Ask.ensures_appendAttestationCertChain]
  refine ⟨rfl, ?_⟩
  rintro (err : KmError) after ⟨⟨given, result⟩, sent⟩ short
  rw [drop_eq_nil_of_le (by omega)] at result
  obtain ⟨failed, files⟩ := appendAttestationCertChain_nil result
  exact ⟨failed, files, sent⟩

theorem ensures_provision (refuses : RefusesEmpty message operation)
    (placed : msgBuf.toNat + (message.bytes.length + 1) < 2 ^ arch.bits)
    (long : 7 ≤ message.bytes.length) (size : payloadSize.toNat = message.bytes.length - 4) :
    ensures (securePort message) (provision operation payloadSize msgBuf) state fun result final =>
      message.bytes.length < 8 → DispatchRefuses state result final := by
  simp only [provision, ensures_bind, Ask.ensures_load]
  refine ⟨show 4 + 4 ≤ message.bytes.length + 1 by omega, ?_⟩
  rintro loaded _ ⟨rfl, _⟩
  refine ensures_mono (ensures_reinitializeBuffer placed long size) ?_
  rintro _ _ ⟨rfl, rfl⟩
  refine ensures_mono (refuses (word32 loaded) _) ?_
  intro err stored refused
  refine ensures_mono (ensures_errorOut err) ?_
  rintro result _ ⟨rfl, answered⟩ short
  obtain ⟨failed, files, sent⟩ := refused short
  exact ⟨files, sent, answered.imp_right fun out => ⟨err, failed, out⟩⟩

/-- Every command reads within the message, if a command that provisions has at least
three bytes of payload. -/
theorem ensures_dispatch (placed : msgBuf.toNat + (message.bytes.length + 1) < 2 ^ arch.bits)
    (header : 4 ≤ message.bytes.length)
    (size : payloadSize.toNat = (message.bytes.length - 4) % 2 ^ 32)
    (enough : Provisions cmd → 7 ≤ message.bytes.length ∧ message.bytes.length < 2 ^ 32 + 4) :
    ensures (securePort message) (keymasterDispatchSecure cmd payloadSize msgBuf) state
      fun result final =>
      Provisions cmd → message.bytes.length < 8 → DispatchRefuses state result final := by
  simp only [keymasterDispatchSecure, ensures_ite]
  refine ⟨?key, fun _ => ⟨?boot, fun _ => ⟨?set, fun notSet => ⟨?append, fun notAppend => ?other⟩⟩⟩⟩
  case key =>
    rintro rfl
    refine ensures_mono ensures_getAuthTokenKey ?_
    rintro _ _ _ (contra | contra) <;> exact absurd contra (by decide)
  case boot =>
    rintro rfl
    simp only [ensures_bind, Ask.ensures_load, Ask.ensures_setBootParams]
    constructor
    · change 4 + payloadSize.toNat ≤ message.bytes.length + 1
      omega
    · intro loaded between _
      refine ⟨trivial, ?_⟩
      rintro (err : Option KmError) _ _
      cases err with
      | none =>
        rw [ensures_pure]
        rintro (contra | contra) <;> exact absurd contra (by decide)
      | some err =>
        refine ensures_mono (ensures_errorOut err) ?_
        rintro _ _ _ (contra | contra) <;> exact absurd contra (by decide)
  case set =>
    rintro rfl
    obtain ⟨long, bounded⟩ := enough (.inl rfl)
    rw [Nat.mod_eq_of_lt (by omega)] at size
    exact ensures_mono (ensures_provision setAttestationKey_refusesEmpty placed long size)
      fun _ _ refused _ => refused
  case append =>
    rintro rfl
    obtain ⟨long, bounded⟩ := enough (.inr rfl)
    rw [Nat.mod_eq_of_lt (by omega)] at size
    exact ensures_mono (ensures_provision appendAttestationCertChain_refusesEmpty placed long size)
      fun _ _ refused _ => refused
  case other =>
    rw [ensures_pure]
    rintro (set | append)
    · exact absurd set notSet
    · exact absurd append notAppend

/-! ### Messages -/

theorem refused_self (cmd : BitVec 32) (manager : SecureStorageManager) :
    Refused cmd manager ⟨manager, []⟩ :=
  ⟨rfl, by simp⟩

theorem ensures_sendResponse_refused (failed : err ≠ .ok)
    (files : state.manager.files = manager.files) (sent : state.sent = []) :
    ensures (securePort message) (sendResponse cmd err.bytes) state fun _ final =>
      Refused cmd manager final := by
  refine ensures_mono (ensures_sendChunks _ _) ?_
  rintro _ final ⟨kept, atMost⟩
  refine ⟨by rw [kept, files], fun reply member => ?_⟩
  obtain before | equal := (atMost (by rw [err.length_bytes]; decide)).2 reply member
  · rw [sent] at before
    cases before
  · exact ⟨err, failed, equal⟩

theorem ensures_sendResponse_any :
    ensures (securePort message) (sendResponse cmd out) state fun _ _ => True :=
  ensures_mono (ensures_sendChunks _ _) fun _ _ _ => trivial

theorem header_eq {header : List Byte} (long : 4 ≤ message.bytes.length)
    (loaded : header = ((message.bytes ++ [0]).drop 0).take 4) : word32 header = message.cmd := by
  rw [loaded, drop_zero, take_append_of_le_length long]
  rfl

theorem ensures_response {ret : Int} {before : PortState}
    (files : before.manager.files = manager.files) (sent : before.sent = [])
    (refused : Provisions cmd → message.bytes.length < 8 →
      DispatchRefuses before (ret, out) state) :
    ensures (securePort message)
      (if ret = errNotConfigured then sendErrorResponse cmd configureError
        else if ret < 0 then sendErrorResponse cmd .unknownError
        else sendResponse cmd out) state
      fun _ final => Provisions cmd → message.bytes.length < 8 → Refused cmd manager final := by
  by_cases short : Provisions cmd ∧ message.bytes.length < 8
  · obtain ⟨kept, sentKept, answered⟩ := refused short.1 short.2
    rw [files] at kept
    rw [sent] at sentKept
    have same : ∀ (ret : Int) final, Refused cmd manager final →
        Provisions cmd → message.bytes.length < 8 → Refused cmd manager final :=
        fun _ _ holds _ _ => holds
    obtain answer | ⟨err, failed, answer⟩ := answered
    · cases answer
      exact ensures_mono (ensures_sendResponse_refused (by decide) kept sentKept) same
    · cases answer
      exact ensures_mono (ensures_sendResponse_refused failed kept sentKept) same
  · have vacuous : ∀ (ret : Int) final, True →
        Provisions cmd → message.bytes.length < 8 → Refused cmd manager final :=
      fun _ _ _ provisions length => absurd ⟨provisions, length⟩ short
    simp only [ensures_ite, sendErrorResponse]
    exact ⟨fun _ => ensures_mono ensures_sendResponse_any vacuous,
      fun _ => ⟨fun _ => ensures_mono ensures_sendResponse_any vacuous,
        fun _ => ensures_mono ensures_sendResponse_any vacuous⟩⟩

def respond (cmd : BitVec 32) (configureError : KmError) (result : Int × List Byte) :
    ServerDialog arch Int :=
  if result.1 = errNotConfigured then sendErrorResponse cmd configureError
  else if result.1 < 0 then sendErrorResponse cmd .unknownError
  else sendResponse cmd result.2

/-- What holds if nothing is done, and after whatever the dispatch does, holds after the
message. -/
theorem ensures_handleMsg (start : ∀ rc, post rc ⟨manager, []⟩)
    (dispatches : ∀ (payloadSize : BitVec 32) (msgBuf : arch.Word), 4 ≤ message.bytes.length →
      msgBuf.toNat + (message.bytes.length + 1) < 2 ^ arch.bits →
      payloadSize.toNat = (message.bytes.length - 4) % 2 ^ 32 →
      ensures (securePort message) (keymasterDispatchSecure message.cmd payloadSize msgBuf)
        ⟨manager, []⟩
        fun result between =>
          ensures (securePort message) (respond message.cmd configureError result) between post)
    :
    ensures (securePort message) (handleMsg keymasterDispatchSecure configureError)
      ⟨manager, []⟩ post := by
  simp only [handleMsg, ensures_bind, Ask.ensures_getMsg]
  refine ⟨trivial, ?_⟩
  rintro ⟨rc, len⟩ _ ⟨rfl, lengthOf⟩
  simp only [ensures_ite, ensures_pure, ensures_bind, Ask.ensures_newMsgBuf]
  refine ⟨fun _ => start _, fun _ => ⟨fun _ => start _, fun ok => ⟨trivial, ?_⟩⟩⟩
  have length : len.toNat = message.bytes.length := lengthOf (not_not.mp ok)
  rintro (buf : Option arch.Word) _ ⟨rfl, placed⟩
  cases buf with
  | none => exact ensures_halt
  | some msgBuf =>
    simp only [ensures_ite, ensures_pure, ensures_bind, Ask.ensures_readMsg]
    refine ⟨trivial, ?_⟩
    rintro (count : Int) _ ⟨rfl, counted⟩
    refine ⟨fun _ => start _, fun nonneg => ⟨fun _ => start _, fun long => ?_⟩⟩
    have long : 4 ≤ message.bytes.length := by omega
    rw [Ask.ensures_load]
    refine ⟨show 0 + 4 ≤ message.bytes.length + 1 by omega, ?_⟩
    rintro (header : List Byte) _ ⟨rfl, loaded⟩
    rw [header_eq long loaded]
    have fits := message.fits
    have size : (len + 1).toNat = message.bytes.length + 1 := by
      rw [toNat_add, length, show (1 : arch.Word).toNat = 1 from
        (toNat_ofNat 1 arch.bits).trans (one_mod_word arch)]
      exact Nat.mod_eq_of_lt fits
    refine ensures_mono
      (dispatches _ msgBuf long (size ▸ placed msgBuf rfl) (toNat_payloadSize length long)) ?_
    rintro ⟨ret, out⟩ between responds
    simpa only [respond, ensures_ite] using responds

theorem parsedSafely_of (enough : 4 ≤ message.bytes.length → Provisions message.cmd →
    7 ≤ message.bytes.length ∧ message.bytes.length < 2 ^ 32 + 4) : ParsedSafely message := by
  intro configureError manager
  refine ensures_handleMsg (fun _ _ _ => refused_self _ _)
    fun payloadSize msgBuf long placed size => ?_
  refine ensures_mono (ensures_dispatch placed long size (enough long)) ?_
  rintro ⟨ret, out⟩ final refused
  exact ensures_response rfl rfl refused

theorem ensures_dispatch_of_handleMsg (header : 4 ≤ message.bytes.length)
    (holds : ensures (securePort message) (handleMsg keymasterDispatchSecure configureError)
      ⟨manager, []⟩ post)
    :
    ensures (securePort message)
      (keymasterDispatchSecure message.cmd
        ((BitVec.ofNat arch.bits message.bytes.length - 4).setWidth 32) 0) ⟨manager, []⟩
      fun result between => ensures (securePort message) (respond message.cmd configureError result)
        between post := by
  have fits := message.fits
  have length : (BitVec.ofNat arch.bits message.bytes.length).toNat = message.bytes.length := by
    exact Nat.mod_eq_of_lt (by omega)
  simp only [handleMsg, ensures_bind, Ask.ensures_getMsg] at holds
  have holds := holds.2 (noError, BitVec.ofNat arch.bits message.bytes.length) _
    ⟨rfl, fun _ => length⟩
  dsimp only at holds
  rw [if_neg (show noError ≠ errNoMsg by decide), if_neg (not_not_intro rfl)] at holds
  simp only [ensures_bind, Ask.ensures_newMsgBuf] at holds
  have placed : ∀ addr, some (0 : arch.Word) = some addr →
      addr.toNat + (BitVec.ofNat arch.bits message.bytes.length + 1).toNat < 2 ^ arch.bits := by
    rintro _ ⟨⟩
    rw [show (0 : arch.Word).toNat = 0 from toNat_zero, Nat.zero_add]
    exact BitVec.isLt _
  have holds := holds.2 (some 0) _ ⟨rfl, placed⟩
  simp only [ensures_bind, Ask.ensures_readMsg] at holds
  have holds := holds.2 (message.bytes.length : Int) _ ⟨rfl, .inr rfl⟩
  dsimp only at holds
  rw [if_neg (by omega), if_neg (by omega)] at holds
  simp only [ensures_bind, Ask.ensures_load] at holds
  have holds := holds.2 _ _ ⟨rfl, rfl⟩
  dsimp only at holds
  rw [header_eq header rfl] at holds
  refine ensures_mono holds ?_
  rintro ⟨ret, out⟩ between responds
  simpa only [respond, ensures_ite] using responds

/-- If the data is what follows the first four bytes of the payload, its size was not
truncated. -/
theorem bounds_of_provision {post : Int × List Byte → PortState → Prop}
    (header : 4 ≤ message.bytes.length) (passes : ∀ algorithm data state post,
      ensures (securePort message) (operation algorithm data) state post →
      data = message.bytes.drop 8)
    (safe : ensures (securePort message) (provision operation payloadSize msgBuf) state post) :
    7 ≤ message.bytes.length ∧ message.bytes.length < 2 ^ 32 + 4 := by
  simp only [provision, ensures_bind, Ask.ensures_load] at safe
  obtain ⟨inside, afterLoad⟩ := safe
  have inside : 4 + 4 ≤ message.bytes.length + 1 := inside
  refine ⟨by omega, ?_⟩
  by_contra huge
  have afterLoad := afterLoad _ state ⟨rfl, rfl⟩
  simp only [reinitializeBuffer, ensures_ite, ensures_pure, Ask.ensures_load] at afterLoad
  by_cases wraps : msgBuf + BitVec.ofNat arch.bits 8 + (payloadSize.setWidth arch.bits - 4) <
      msgBuf + BitVec.ofNat arch.bits 8
  · have nothing := passes _ _ _ _ (afterLoad.1 wraps)
    rw [eq_comm, drop_eq_nil_iff] at nothing
    omega
  obtain ⟨copyInside, afterCopy⟩ := afterLoad.2 wraps
  have copied := congrArg List.length (passes _ _ _ _ (afterCopy _ state ⟨rfl, rfl⟩))
  rw [length_take, length_drop, length_drop, length_append, length_singleton] at copied
  have fits := message.fits
  have back : payloadSize.setWidth arch.bits - 4 + 4 = payloadSize.setWidth arch.bits :=
    BitVec.sub_add_cancel _ _
  have total := congrArg BitVec.toNat back
  rw [toNat_add, toNat_setWidth_word, show (4 : arch.Word).toNat = 4 by
    obtain ⟨bits, rfl | rfl⟩ := arch <;> rfl, Nat.mod_eq_of_lt (by omega)] at total
  omega

theorem enough_of_parsedSafely (safe : ParsedSafely message) (header : 4 ≤ message.bytes.length)
    (provisions : Provisions message.cmd) :
    7 ≤ message.bytes.length ∧ message.bytes.length < 2 ^ 32 + 4 := by
  have holds := ensures_dispatch_of_handleMsg header (safe .ok ⟨fun _ => none, false⟩)
  unfold keymasterDispatchSecure at holds
  obtain set | append := provisions
  · rw [set, if_neg (by decide), if_neg (by decide), if_pos rfl] at holds
    exact bounds_of_provision header
      (fun algorithm data _ post passed =>
        ((Ask.ensures_setAttestationKey algorithm data post).mp passed).1) holds
  · rw [append, if_neg (by decide), if_neg (by decide), if_neg (by decide), if_pos rfl] at holds
    exact bounds_of_provision header
      (fun algorithm data _ post passed =>
        ((Ask.ensures_appendAttestationCertChain algorithm data post).mp passed).1) holds

/-- A message on the secure port is parsed safely just if it is no message with a key or
certificate, or has at least three bytes of payload and a payload size of 32 bits. -/
theorem secure_port_parsing_iff (message : Received arch) :
    ParsedSafely message ↔ (4 ≤ message.bytes.length → Provisions message.cmd →
      7 ≤ message.bytes.length ∧ message.bytes.length < 2 ^ 32 + 4) :=
  ⟨enough_of_parsedSafely, parsedSafely_of⟩

end Port

/-- A message that is only the command to set an attestation key. -/
def bareCommand : Received arm := ⟨bytes32 kmSetAttestationKey, by decide⟩

/-- Four bytes are read for the algorithm where only the terminator is left. -/
theorem bare_command_overread : ¬ ParsedSafely bareCommand := by
  intro safe
  have enough := enough_of_parsedSafely safe (by decide) (.inl (by decide))
  exact absurd enough.1 (by decide)

end Trusty.Keymaster
