import Trusty.Kernel.Vmm
import Trusty.Keymaster.AttestationStore
import Trusty.Lib.Dialog

/-!
The server of the keymaster (`keymaster_ipc.cpp`): one message on a connection, and
what is done for it on the secure port.
-/

namespace Trusty.Keymaster

open Lib Kernel Dialog

def errGeneric : Int := -1
def errNoMsg : Int := -4
def errIo : Int := -20
def errNotImplemented : Int := -27
def errBusy : Int := -33
def errNotConfigured : Int := -38

def ipcHandlePollHup : BitVec 32 := 0x4
def ipcHandlePollMsg : BitVec 32 := 0x8
def ipcHandlePollSendUnblocked : BitVec 32 := 0x10

def keymasterMaxBufferLength : Nat := 4096

def keymasterRespBit : BitVec 32 := 1
def keymasterStopBit : BitVec 32 := 2

def kmGetAuthTokenKey : BitVec 32 := 0 <<< 2
def kmSetBootParams : BitVec 32 := 0x1000 <<< 2
def kmSetAttestationKey : BitVec 32 := 0x2000 <<< 2
def kmAppendAttestationCertChain : BitVec 32 := 0x3000 <<< 2

/-! ### Words in messages -/

def bytes32 (value : BitVec 32) : List Byte :=
  [value.extractLsb' 0 8, value.extractLsb' 8 8, value.extractLsb' 16 8, value.extractLsb' 24 8]

def word32 (bytes : List Byte) : BitVec 32 :=
  bytes.getD 3 0 ++ bytes.getD 2 0 ++ bytes.getD 1 0 ++ bytes.getD 0 0

theorem toNat_word32 (a b c d : Byte) :
    (word32 [a, b, c, d]).toNat = ((d.toNat * 256 + c.toNat) * 256 + b.toNat) * 256 + a.toNat := by
  have join {w : Nat} (high : BitVec w) (low : Byte) :
      (high ++ low).toNat = high.toNat * 256 + low.toNat := by
    rw [BitVec.toNat_append, ← Nat.shiftLeft_add_eq_or_of_lt low.isLt, Nat.shiftLeft_eq]
  change (d ++ c ++ b ++ a).toNat = _
  rw [join, join, join]

theorem bytes32_word32 {four : List Byte} (length : four.length = 4) :
    bytes32 (word32 four) = four := by
  match four, length with
  | [a, b, c, d], _ =>
    have value := toNat_word32 a b c d
    simp only [bytes32, List.cons.injEq, and_true]
    refine ⟨?_, ?_, ?_, ?_⟩ <;> apply BitVec.eq_of_toNat_eq <;>
      rw [BitVec.extractLsb'_toNat, value, Nat.shiftRight_eq_div_pow] <;> omega

theorem word32_bytes32 (value : BitVec 32) : word32 (bytes32 value) = value := by
  apply BitVec.eq_of_toNat_eq
  rw [bytes32, toNat_word32]
  simp only [BitVec.extractLsb'_toNat, Nat.shiftRight_eq_div_pow]
  omega
/-- The value of an error in `keymaster_defs.h`. -/
def KmError.code : KmError → Int
  | .ok => 0
  | .rootOfTrustAlreadySet => -1
  | .unsupportedAlgorithm => -4
  | .incompatibleAlgorithm => -5
  | .invalidInputLength => -21
  | .invalidArgument => -38
  | .memoryAllocationFailed => -41
  | .secureHwCommunicationFailed => -49
  | .keymasterNotConfigured => -64
  | .unknownError => -1000

def KmError.bytes (err : KmError) : List Byte := bytes32 (BitVec.ofInt 32 err.code)

theorem KmError.length_bytes (err : KmError) : err.bytes.length = 4 := rfl

/-! ### What the server asks for -/

/-- The system calls, the allocator, the keymaster and the accesses to the buffer of the
message. -/
inductive ServerOp (arch : Arch) where
  | getMsg
  /-- `new` for the buffer of the message -/
  | newMsgBuf (size : arch.Word)
  | readMsg (len : arch.Word)
  /-- a read of the buffer of the message -/
  | load (offset size : Nat)
  | getAuthTokenKey
  /-- `SetBootParams`; there is no error if the request cannot be deserialized -/
  | setBootParams (payload : List Byte)
  | setAttestationKey (algorithm : BitVec 32) (keyData : List Byte)
  | appendAttestationCertChain (algorithm : BitVec 32) (certData : List Byte)
  /-- `new` for what is sent -/
  | newOut (size : Nat)
  | sendMsg (message : List Byte)
  | wait

def ServerOp.Ans {arch : Arch} : ServerOp arch → Type
  | .getMsg => Int × arch.Word
  | .newMsgBuf _ => Option arch.Word
  | .readMsg _ => Int
  | .load _ _ => List Byte
  | .getAuthTokenKey => Option (List Byte)
  | .setBootParams _ => Option KmError
  | .setAttestationKey _ _ => KmError
  | .appendAttestationCertChain _ _ => KmError
  | .newOut _ => Bool
  | .sendMsg _ => Int
  | .wait => Int × BitVec 32

abbrev ServerDialog (arch : Arch) := Dialog (ServerOp arch) ServerOp.Ans

section Server

variable {arch : Arch}

namespace Ask

def getMsg : ServerDialog arch (Int × arch.Word) := perform ServerOp.getMsg

def newMsgBuf (size : arch.Word) :
    ServerDialog arch (Option arch.Word) := perform (ServerOp.newMsgBuf size)

def readMsg (len : arch.Word) : ServerDialog arch Int := perform (ServerOp.readMsg len)

def load (offset size : Nat) : ServerDialog arch (List Byte) := perform (ServerOp.load offset size)

def getAuthTokenKey : ServerDialog arch (Option (List Byte)) := perform ServerOp.getAuthTokenKey

def setBootParams (payload : List Byte) : ServerDialog arch (Option KmError) :=
  perform (ServerOp.setBootParams payload)

def setAttestationKey (algorithm : BitVec 32) (keyData : List Byte) : ServerDialog arch KmError :=
  perform (ServerOp.setAttestationKey algorithm keyData)

def appendAttestationCertChain (algorithm : BitVec 32) (certData : List Byte) :
    ServerDialog arch KmError :=
  perform (ServerOp.appendAttestationCertChain algorithm certData)

def newOut (size : Nat) : ServerDialog arch Bool := perform (ServerOp.newOut size)

def sendMsg (message : List Byte) : ServerDialog arch Int := perform (ServerOp.sendMsg message)

def wait : ServerDialog arch (Int × BitVec 32) := perform ServerOp.wait

end Ask

/-- An operation may be asked for, and whatever is answered the rest is right. -/
def AskEnsures {σ : Type} (env : Env (ServerOp arch) ServerOp.Ans σ) (state : σ)
    (op : ServerOp arch) (post : op.Ans → σ → Prop) : Prop :=
  env.allowed state op ∧ ∀ answer after, env.answers state op answer after → post answer after

namespace Ask

section Rules

variable {σ : Type} {env : Env (ServerOp arch) ServerOp.Ans σ} {state : σ}

@[simp]
theorem ensures_getMsg (post : Int × arch.Word → σ → Prop) :
    ensures env Ask.getMsg state post ↔ AskEnsures env state .getMsg post :=
  @ensures_perform _ ServerOp.Ans _ env state .getMsg post

@[simp]
theorem ensures_newMsgBuf (size : arch.Word) (post : Option arch.Word → σ → Prop) :
    ensures env (Ask.newMsgBuf size) state post ↔ AskEnsures env state (.newMsgBuf size) post :=
  @ensures_perform _ ServerOp.Ans _ env state (.newMsgBuf size) post

@[simp]
theorem ensures_readMsg (len : arch.Word) (post : Int → σ → Prop) :
    ensures env (Ask.readMsg len) state post ↔ AskEnsures env state (.readMsg len) post :=
  @ensures_perform _ ServerOp.Ans _ env state (.readMsg len) post

@[simp]
theorem ensures_load (offset size : Nat) (post : List Byte → σ → Prop) :
    ensures env (Ask.load offset size) state post ↔ AskEnsures env state (.load offset size) post :=
  @ensures_perform _ ServerOp.Ans _ env state (.load offset size) post

@[simp]
theorem ensures_getAuthTokenKey (post : Option (List Byte) → σ → Prop) :
    ensures env Ask.getAuthTokenKey state post ↔ AskEnsures env state .getAuthTokenKey post :=
  @ensures_perform _ ServerOp.Ans _ env state .getAuthTokenKey post

@[simp]
theorem ensures_setBootParams (payload : List Byte) (post : Option KmError → σ → Prop) :
    ensures env (Ask.setBootParams payload) state post ↔
    AskEnsures env state (.setBootParams payload) post :=
  @ensures_perform _ ServerOp.Ans _ env state (.setBootParams payload) post

@[simp]
theorem ensures_setAttestationKey (algorithm : BitVec 32) (keyData : List Byte)
    (post : KmError → σ → Prop) :
    ensures env (Ask.setAttestationKey algorithm keyData) state post ↔
      AskEnsures env state (.setAttestationKey algorithm keyData) post :=
  @ensures_perform _ ServerOp.Ans _ env state (.setAttestationKey algorithm keyData) post

@[simp]
theorem ensures_appendAttestationCertChain (algorithm : BitVec 32) (certData : List Byte)
    (post : KmError → σ → Prop) :
    ensures env (Ask.appendAttestationCertChain algorithm certData) state post ↔
      AskEnsures env state (.appendAttestationCertChain algorithm certData) post :=
  @ensures_perform _ ServerOp.Ans _ env state (.appendAttestationCertChain algorithm certData) post

@[simp]
theorem ensures_newOut (size : Nat) (post : Bool → σ → Prop) :
    ensures env (Ask.newOut size) state post ↔ AskEnsures env state (.newOut size) post :=
  @ensures_perform _ ServerOp.Ans _ env state (.newOut size) post

@[simp]
theorem ensures_sendMsg (message : List Byte) (post : Int → σ → Prop) :
    ensures env (Ask.sendMsg message) state post ↔ AskEnsures env state (.sendMsg message) post :=
  @ensures_perform _ ServerOp.Ans _ env state (.sendMsg message) post

@[simp]
theorem ensures_wait (post : Int × BitVec 32 → σ → Prop) :
    ensures env Ask.wait state post ↔ AskEnsures env state .wait post :=
  @ensures_perform _ ServerOp.Ans _ env state .wait post

end Rules

end Ask

/-! ### Responses -/

def waitToSend (message : List Byte) : ServerDialog arch Int := do
  let (rc, event) ← Ask.wait
  if rc < 0 then return rc
  else if event &&& ipcHandlePollSendUnblocked ≠ 0 then Ask.sendMsg message
  else if event &&& ipcHandlePollMsg ≠ 0 then return errBusy
  else if event &&& ipcHandlePollHup ≠ 0 then return errChannelClosed
  else return rc

def sendChunk (message : List Byte) : ServerDialog arch Int := do
  let rc ← Ask.sendMsg message
  if rc = errNotEnoughBuffer then waitToSend message else return rc

def maxMsgSize : Nat := keymasterMaxBufferLength - 64

def sendChunks (cmd : BitVec 32) (rest : List Byte) : ServerDialog arch Int := do
  if rest.length ≤ maxMsgSize then
    let rc ← sendChunk (bytes32 (cmd ||| keymasterStopBit) ++ rest)
    return if rc < 0 then rc else noError
  else
    let rc ← sendChunk (bytes32 cmd ++ rest.take maxMsgSize)
    if rc < 0 then return rc
    else sendChunks cmd (rest.drop maxMsgSize)
termination_by rest.length
decreasing_by
  rw [List.length_drop]
  unfold maxMsgSize keymasterMaxBufferLength at *
  omega

def sendResponse (cmd : BitVec 32) (outBuf : List Byte) : ServerDialog arch Int :=
  sendChunks (cmd ||| keymasterRespBit) outBuf

def sendErrorResponse (cmd : BitVec 32) (err : KmError) : ServerDialog arch Int :=
  sendResponse cmd err.bytes

/-! ### The secure port -/

/-- `get_auth_token_key`: what it returns and the key. -/
def getAuthTokenKey : ServerDialog arch (Int × List Byte) := do
  let key ← Ask.getAuthTokenKey
  match key with
  | none => return (errGeneric, [])
  | some key =>
    if keymasterMaxBufferLength < key.length then return (errNotEnoughBuffer, [])
    else if ← Ask.newOut key.length then return (noError, key)
    else return (errNoMemory, [])

/-- `Buffer::Reinitialize` with `len` bytes at an offset of the message: nothing is copied
if the end wraps around.  The allocation for the copy is taken to succeed. -/
def reinitializeBuffer (msgBuf : arch.Word) (offset : Nat) (len : arch.Word) :
    ServerDialog arch (List Byte) := do
  let data := msgBuf + BitVec.ofNat arch.bits offset
  if data + len < data then return []
  else Ask.load offset len.toNat

/-- The end of the cases that answer with an error code. -/
def errorOut (err : KmError) : ServerDialog arch (Int × List Byte) := do
  if ← Ask.newOut 4 then return (noError, err.bytes)
  else return (errNoMemory, [])

/-- The cases of `keymaster_dispatch_secure` for a key and for a certificate. -/
def provision (operation : BitVec 32 → List Byte → ServerDialog arch KmError)
    (payloadSize : BitVec 32) (msgBuf : arch.Word) : ServerDialog arch (Int × List Byte) := do
  let algorithm ← Ask.load 4 4
  let data ← reinitializeBuffer msgBuf 8 (payloadSize.setWidth arch.bits - 4)
  let err ← operation (word32 algorithm) data
  errorOut err

def keymasterDispatchSecure (cmd payloadSize : BitVec 32) (msgBuf : arch.Word) :
    ServerDialog arch (Int × List Byte) := do
  if cmd = kmGetAuthTokenKey then getAuthTokenKey
  else if cmd = kmSetBootParams then
    let payload ← Ask.load 4 payloadSize.toNat
    let err ← Ask.setBootParams payload
    match err with
    | none => return (errNotValid, [])
    | some err => errorOut err
  else if cmd = kmSetAttestationKey then provision Ask.setAttestationKey payloadSize msgBuf
  else if cmd = kmAppendAttestationCertChain then
    provision Ask.appendAttestationCertChain payloadSize msgBuf
  else return (errNotImplemented, [])

/-- `handle_msg`, with the dispatch function of the connection and the error of the last
configuration. -/
def handleMsg (dispatch : BitVec 32 → BitVec 32 → arch.Word → ServerDialog arch (Int × List Byte))
    (configureError : KmError) : ServerDialog arch Int := do
  let (rc, len) ← Ask.getMsg
  if rc = errNoMsg then return noError
  else if rc ≠ noError then return rc
  else
    let buf ← Ask.newMsgBuf (len + 1)
    match buf with
    | none => .halt
    | some msgBuf =>
      let rc ← Ask.readMsg len
      if rc < 0 then return rc
      else if rc < 4 then return errNotValid
      else
        let header ← Ask.load 0 4
        let cmd := word32 header
        let (rc, outBuf) ← dispatch cmd ((len - 4).setWidth 32) msgBuf
        if rc = errNotConfigured then sendErrorResponse cmd configureError
        else if rc < 0 then sendErrorResponse cmd .unknownError
        else sendResponse cmd outBuf

end Server

end Trusty.Keymaster
