import Trusty.Keymaster.Server

/-!
Which commands are executed on the two ports (`keymaster_ipc.cpp`), and the root of
trust they find (`trusty_keymaster_context.cpp`), in a build without `KEYMASTER_DEBUG`.

What the calls that leave the keymaster answer is given to each function.
-/

namespace Trusty.Keymaster

open Lib Kernel

/-! ### Commands -/

/-- The commands that are dispatched on one of the ports. -/
inductive KmCommand where
  | generateKey
  | beginOperation
  | updateOperation
  | finishOperation
  | importKey
  | exportKey
  | getVersion
  | addRngEntropy
  | getSupportedAlgorithms
  | getSupportedBlockModes
  | getSupportedPaddingModes
  | getSupportedDigests
  | getSupportedImportFormats
  | getSupportedExportFormats
  | getKeyCharacteristics
  | abortOperation
  | attestKey
  | upgradeKey
  | configure
  | getHmacSharingParameters
  | computeSharedHmac
  | verifyAuthorization
  | importWrappedKey
  | deleteKey
  | deleteAllKeys
  | setBootParams
  | setAttestationKey
  | appendAttestationCertChain
  | atapGetCaRequest
  | atapSetCaResponseBegin
  | atapSetCaResponseUpdate
  | atapSetCaResponseFinish
  | atapReadUuid
  | setProductId
  | getAuthTokenKey
deriving DecidableEq

/-- The value of a command in `enum keymaster_command`.  On the secure port the value of
`KM_GENERATE_KEY` is `KM_GET_AUTH_TOKEN_KEY`. -/
def KmCommand.code : KmCommand → BitVec 32
  | .generateKey => 0 <<< 2
  | .beginOperation => 1 <<< 2
  | .updateOperation => 2 <<< 2
  | .finishOperation => 3 <<< 2
  | .abortOperation => 4 <<< 2
  | .importKey => 5 <<< 2
  | .exportKey => 6 <<< 2
  | .getVersion => 7 <<< 2
  | .addRngEntropy => 8 <<< 2
  | .getSupportedAlgorithms => 9 <<< 2
  | .getSupportedBlockModes => 10 <<< 2
  | .getSupportedPaddingModes => 11 <<< 2
  | .getSupportedDigests => 12 <<< 2
  | .getSupportedImportFormats => 13 <<< 2
  | .getSupportedExportFormats => 14 <<< 2
  | .getKeyCharacteristics => 15 <<< 2
  | .attestKey => 16 <<< 2
  | .upgradeKey => 17 <<< 2
  | .configure => 18 <<< 2
  | .getHmacSharingParameters => 19 <<< 2
  | .computeSharedHmac => 20 <<< 2
  | .verifyAuthorization => 21 <<< 2
  | .deleteKey => 22 <<< 2
  | .deleteAllKeys => 23 <<< 2
  | .importWrappedKey => 25 <<< 2
  | .setBootParams => kmSetBootParams
  | .setAttestationKey => kmSetAttestationKey
  | .appendAttestationCertChain => kmAppendAttestationCertChain
  | .atapGetCaRequest => 0x4000 <<< 2
  | .atapSetCaResponseBegin => 0x5000 <<< 2
  | .atapSetCaResponseUpdate => 0x6000 <<< 2
  | .atapSetCaResponseFinish => 0x7000 <<< 2
  | .atapReadUuid => 0x8000 <<< 2
  | .setProductId => 0x9000 <<< 2
  | .getAuthTokenKey => kmGetAuthTokenKey

/-- The cases of `keymaster_dispatch_non_secure`.  `KM_DESTROY_ATTESTATION_IDS` is not
one of them. -/
def KmCommand.nonSecure : List KmCommand :=
  [.generateKey, .beginOperation, .updateOperation, .finishOperation, .importKey,
    .exportKey, .getVersion, .addRngEntropy, .getSupportedAlgorithms, .getSupportedBlockModes,
    .getSupportedPaddingModes,
    .getSupportedDigests, .getSupportedImportFormats, .getSupportedExportFormats,
    .getKeyCharacteristics,
    .abortOperation, .attestKey, .upgradeKey, .configure, .getHmacSharingParameters,
    .computeSharedHmac,
    .verifyAuthorization, .importWrappedKey, .deleteKey, .deleteAllKeys, .setBootParams,
    .setAttestationKey,
    .appendAttestationCertChain, .atapGetCaRequest, .atapSetCaResponseBegin,
    .atapSetCaResponseUpdate,
    .atapSetCaResponseFinish, .atapReadUuid, .setProductId]

def KmCommand.ofCode (cmd : BitVec 32) :
    Option KmCommand := nonSecure.find? fun command => command.code = cmd

theorem KmCommand.code_of_ofCode {cmd : BitVec 32} {command : KmCommand}
    (found : ofCode cmd = some command) :
    command.code = cmd :=
  of_decide_eq_true
    (List.find?_some (p := fun command : KmCommand => decide (command.code = cmd)) found)

def cmdIsFromBootloader (cmd : BitVec 32) : Bool :=
  cmd = KmCommand.setBootParams.code || cmd = KmCommand.setAttestationKey.code ||
    cmd = KmCommand.appendAttestationCertChain.code || cmd = KmCommand.atapGetCaRequest.code ||
    cmd = KmCommand.atapSetCaResponseBegin.code || cmd = KmCommand.atapSetCaResponseUpdate.code ||
    cmd = KmCommand.atapSetCaResponseFinish.code || cmd = KmCommand.atapReadUuid.code ||
    cmd = KmCommand.setProductId.code

def cmdAllowedBeforeConfigure (cmd : BitVec 32) : Bool :=
  cmd = KmCommand.configure.code || cmd = KmCommand.getVersion.code || cmdIsFromBootloader cmd

/-! ### The root of trust -/

def kmVerifiedBootVerified : BitVec 32 := 0
def kmVerifiedBootSelfSigned : BitVec 32 := 1
def kmVerifiedBootUnverified : BitVec 32 := 2

structure RootOfTrust where
  /-- `root_of_trust_set_` -/
  set : Bool
  verifiedBootKey : List Byte
  verifiedBootState : BitVec 32
  deviceLocked : Bool
  verifiedBootHash : List Byte
deriving DecidableEq

/-- `"Unbound"` -/
def unboundKey : List Byte := [0x55, 0x6e, 0x62, 0x6f, 0x75, 0x6e, 0x64]

def RootOfTrust.initial : RootOfTrust := ⟨false, unboundKey, kmVerifiedBootUnverified, false, []⟩

structure SetBootParamsRequest where
  osVersion : BitVec 32
  osPatchlevel : BitVec 32
  deviceLocked : BitVec 32
  verifiedBootState : BitVec 32
  verifiedBootKey : List Byte
  verifiedBootHash : List Byte

/-- `TrustyKeymasterContext::SetBootParams`. -/
def setBootParams (request : SetBootParamsRequest) (trust : RootOfTrust) : KmError × RootOfTrust :=
  if trust.set then (.rootOfTrustAlreadySet, trust)
  else if request.verifiedBootState = kmVerifiedBootVerified ∨
    request.verifiedBootState = kmVerifiedBootSelfSigned then
    if request.verifiedBootKey.length ≠ 0 then
      (.ok,
        ⟨true, request.verifiedBootKey, request.verifiedBootState, request.deviceLocked ≠ 0,
          request.verifiedBootHash⟩)
    else (.ok, ⟨true, [], kmVerifiedBootUnverified, false, request.verifiedBootHash⟩)
  else (.ok, ⟨true, [], request.verifiedBootState, false, request.verifiedBootHash⟩)

/-! ### Requests -/

def copyUint32FromBuf (buf : List Byte) : Option (BitVec 32 × List Byte) :=
  if buf.length < 4 then none else some (word32 (buf.take 4), buf.drop 4)

/-- `Buffer::Deserialize`; `allocates` tells whether the allocator has space. -/
def deserializeBuffer (allocates : Bool) (buf : List Byte) : Option (List Byte × List Byte) := do
  let (size, rest) ← copyUint32FromBuf buf
  if rest.length < size.toNat then none
  else if size = 0 then some ([], rest)
  else if allocates then some (rest.take size.toNat, rest.drop size.toNat)
  else none

def SetBootParamsRequest.deserialize (allocates : Bool) (payload : List Byte) :
    Option SetBootParamsRequest := do
  let (osVersion, rest) ← copyUint32FromBuf payload
  let (osPatchlevel, rest) ← copyUint32FromBuf rest
  let (deviceLocked, rest) ← copyUint32FromBuf rest
  let (verifiedBootState, rest) ← copyUint32FromBuf rest
  let (verifiedBootKey, rest) ← deserializeBuffer allocates rest
  let (verifiedBootHash, _) ← deserializeBuffer allocates rest
  return ⟨osVersion, osPatchlevel, deviceLocked, verifiedBootState, verifiedBootKey,
    verifiedBootHash⟩

structure ConfigureRequest where
  osVersion : BitVec 32
  osPatchlevel : BitVec 32

def ConfigureRequest.deserialize (payload : List Byte) : Option ConfigureRequest := do
  let (osVersion, rest) ← copyUint32FromBuf payload
  let (osPatchlevel, _) ← copyUint32FromBuf rest
  return ⟨osVersion, osPatchlevel⟩

/-! ### The keymaster -/

/-- The fields of the keymaster and its context that decide what is executed. -/
structure TrustyKeymaster where
  configureError : KmError
  rootOfTrust : RootOfTrust
  versionInfoSet : Bool
  bootOsVersion : BitVec 32
  bootOsPatchlevel : BitVec 32
deriving DecidableEq

namespace TrustyKeymaster

def initial : TrustyKeymaster := ⟨.keymasterNotConfigured, .initial, false, 0, 0⟩

def configureCalled (device : TrustyKeymaster) : Bool :=
  device.configureError ≠ .keymasterNotConfigured

def setSystemVersion (request : ConfigureRequest) (device : TrustyKeymaster) :
    KmError × TrustyKeymaster :=
  if device.versionInfoSet then (.ok, device)
  else
    (.ok, { device with
      versionInfoSet := true
      bootOsVersion := request.osVersion
      bootOsPatchlevel := request.osPatchlevel })

def setBootParams (request : SetBootParamsRequest) (device : TrustyKeymaster) :
    KmError × TrustyKeymaster :=
  let (err, trust) := Keymaster.setBootParams request device.rootOfTrust
  (err, { device with rootOfTrust := trust })

end TrustyKeymaster

/-! ### Boot parameters -/

/-- The boot parameters are fixed on ARMv7 (`KEYMASTER_ARMV7`); otherwise a service has them. -/
inductive Platform where
  | armv7
  | armv8
deriving DecidableEq

structure BootParam where
  osVersion : BitVec 32
  osPatchlevel : BitVec 32
  deviceLocked : BitVec 32
  verifiedBootState : BitVec 32
  verifiedBootKey : List Byte

structure BootAnswers where
  connect : Int
  malloc : Bool
  sendMsg : Int
  wait : Int
  getMsg : Int
  len : Nat
  readMsg : Int
  putMsg : Int
  cmd : BitVec 32
  payload : BootParam

def getVerifiedBoot : BitVec 32 := 0
def respFlag : BitVec 32 := 0x80000000
def doneFlag : BitVec 32 := 0x40000000

def bootMsgSize : Nat := 4
def bootRspSize : Nat := bootMsgSize + 48

def testHash : List Byte :=
  [0x01, 0x12, 0x23, 0x34, 0x45, 0x56, 0x67, 0x78, 0x89, 0x9A, 0xAB, 0xBC, 0xCD, 0xDE, 0xEF, 0xF0,
    0x0F, 0xFE, 0xED, 0xDC, 0xCB, 0xBA, 0xA9, 0x98, 0x87, 0x76, 0x65, 0x54, 0x43, 0x32, 0x21, 0x10]

def kmSendReq (answers : BootAnswers) : Int :=
  if answers.sendMsg < 0 then answers.sendMsg
  else if answers.sendMsg ≠ bootMsgSize then errIo
  else noError

def kmAwaitResponse (answers : BootAnswers) : Int :=
  if answers.wait ≠ noError then answers.wait else answers.getMsg

def kmReadResponse (answers : BootAnswers) : Int :=
  if answers.readMsg < 0 then answers.readMsg
  else if answers.readMsg ≠ bootRspSize then errIo
  else answers.putMsg

/-- `km_get_boot` up to `SetBootParams`: the request, unless one of the calls fails. -/
def bootRequest (platform : Platform) (answers : BootAnswers) : Option SetBootParamsRequest :=
  match platform with
  | .armv7 => some ⟨0, 0, 1, kmVerifiedBootVerified, testHash, []⟩
  | .armv8 =>
    if answers.connect < 0 then none
    else if answers.malloc = false then none
    else if kmSendReq answers ≠ noError then none
    else if kmAwaitResponse answers ≠ noError then none
    else if answers.len ≠ bootRspSize then none
    else if kmReadResponse answers ≠ noError then none
    else if answers.cmd ≠ (getVerifiedBoot ||| respFlag ||| doneFlag) then none
    else
      some ⟨answers.payload.osVersion, answers.payload.osPatchlevel, answers.payload.deviceLocked,
        answers.payload.verifiedBootState, answers.payload.verifiedBootKey, testHash⟩

/-- `km_get_boot`; the error of `SetBootParams` is only logged. -/
def kmGetBoot (platform : Platform) (answers : BootAnswers) (device : TrustyKeymaster) :
    TrustyKeymaster :=
  match bootRequest platform answers with
  | none => device
  | some request => (device.setBootParams request).2

/-! ### Dispatch -/

structure Dispatched where
  rc : Int
  executed : Option (KmCommand × KmError)
  device : TrustyKeymaster
deriving DecidableEq

/-- `do_dispatch`, with the request that was deserialized. -/
def doDispatch {α : Type} (command : KmCommand) (request : Option α)
    (operation : α → TrustyKeymaster → KmError × TrustyKeymaster) (newOut : Bool)
    (device : TrustyKeymaster) :
    Dispatched :=
  match request with
  | none => ⟨errNotValid, none, device⟩
  | some request =>
    let (err, device) := operation request device
    let device := if command = .configure then { device with configureError := err } else device
    ⟨if newOut then noError else errNoMemory, some (command, err), device⟩

/-- A message on a non-secure connection. -/
structure Message where
  cmd : BitVec 32
  payload : List Byte

/-- What is outside of the keymaster while it handles a message on a non-secure connection. -/
structure Surroundings where
  /-- The allocator has space for the data of a request. -/
  allocates : Bool
  /-- The allocator has space for the response. -/
  newOut : Bool
  /-- The request of an operation other than `Configure` and `SetBootParams` can be deserialized. -/
  deserializes : Bool
  /-- The error of such an operation. -/
  error : KmError
  boot : BootAnswers

/-- The checks at the start of `keymaster_dispatch_non_secure`: the error for a command
that is refused. -/
def checkAllowed (device : TrustyKeymaster) (cmd : BitVec 32) : Option Int :=
  if cmd = KmCommand.getVersion.code then none
  else if device.configureCalled = false then
    if cmdAllowedBeforeConfigure cmd then none else some errNotConfigured
  else if device.configureError ≠ .ok then some errNotConfigured
  else if cmdIsFromBootloader cmd then some errNotImplemented
  else none

def otherOperation (error : KmError) (_ : Unit) (device : TrustyKeymaster) :
    KmError × TrustyKeymaster :=
  (error, device)

/-- The `switch` of `keymaster_dispatch_non_secure`. -/
def dispatchCommand (platform : Platform) (device : TrustyKeymaster) (command : KmCommand)
    (payload : List Byte) (given : Surroundings) : Dispatched :=
  match command with
  | .configure =>
    doDispatch .configure (ConfigureRequest.deserialize payload) TrustyKeymaster.setSystemVersion
      given.newOut (if device.configureCalled then device else kmGetBoot platform given.boot device)
  | .setBootParams =>
    doDispatch .setBootParams (SetBootParamsRequest.deserialize given.allocates payload)
      TrustyKeymaster.setBootParams given.newOut device
  -- there is no request
  | .getHmacSharingParameters =>
    doDispatch .getHmacSharingParameters (some ()) (otherOperation given.error) given.newOut device
  | command =>
    doDispatch command (if given.deserializes then some () else none) (otherOperation given.error)
      given.newOut device

def keymasterDispatchNonSecure (platform : Platform) (device : TrustyKeymaster) (message : Message)
    (given : Surroundings) : Dispatched :=
  match checkAllowed device message.cmd with
  | some rc => ⟨rc, none, device⟩
  | none =>
    match KmCommand.ofCode message.cmd with
    | none => ⟨errNotImplemented, none, device⟩
    | some command => dispatchCommand platform device command message.payload given

/-! ### The secure port -/

/-- A message on the secure port, and what is outside of the keymaster while it is
handled. -/
structure SecureMessage (arch : Arch) where
  cmd : BitVec 32
  payloadSize : BitVec 32
  msgBuf : arch.Word
  /-- What is read from the buffer of the message. -/
  load : Nat → Nat → List Byte
  allocates : Bool
  newOut : Bool
  authTokenKey : Option (List Byte)
  /-- The error of the attestation operations. -/
  error : KmError

/-- What has been done for a message on the secure port. -/
structure SecureState where
  executed : Option (KmCommand × KmError)
  device : TrustyKeymaster

section Secure

variable {arch : Arch}

/-- The answers to what the secure port asks for.  The calls of `handle_msg` are not
among them. -/
def SecureMessage.answer (message : SecureMessage arch) :
    (op : ServerOp arch) → SecureState → op.Ans × SecureState
  | .getMsg, state => ((noError, 0), state)
  | .newMsgBuf _, state => (some message.msgBuf, state)
  | .readMsg _, state => ((0 : Int), state)
  | .load offset size, state => (message.load offset size, state)
  | .getAuthTokenKey, state =>
    (message.authTokenKey,
      { state with
        executed :=
        some (.getAuthTokenKey, if message.authTokenKey.isSome then .ok else .unknownError) })
  | .setBootParams payload, state =>
    match SetBootParamsRequest.deserialize message.allocates payload with
    | none => ((none : Option KmError), state)
    | some request =>
      let (err, device) := state.device.setBootParams request
      (some err, ⟨some (.setBootParams, err), device⟩)
  | .setAttestationKey _ _, state =>
    (message.error, { state with executed := some (.setAttestationKey, message.error) })
  | .appendAttestationCertChain _ _, state =>
    (message.error, { state with executed := some (.appendAttestationCertChain, message.error) })
  | .newOut _, state => (message.newOut, state)
  | .sendMsg _, state => ((0 : Int), state)
  | .wait, state => ((0, 0), state)

/-- `keymaster_dispatch_secure` for a message. -/
def serveSecure (device : TrustyKeymaster) (message : SecureMessage arch) : Dispatched :=
  let (ended, state) := Dialog.run message.answer
    (keymasterDispatchSecure message.cmd message.payloadSize message.msgBuf) ⟨none, device⟩
  ⟨(ended.map Prod.fst).getD errGeneric, state.executed, state.device⟩

/-! ### Runs -/

inductive Port where
  | nonSecure
  | secure
deriving DecidableEq

inductive Input (arch : Arch) where
  | nonSecure (connection : Nat) (message : Message) (given : Surroundings)
  | secure (connection : Nat) (message : SecureMessage arch)

structure Event where
  port : Port
  before : TrustyKeymaster
  dispatched : Dispatched
deriving DecidableEq

def serveMessage (platform : Platform) (device : TrustyKeymaster) (input : Input arch) :
    Event × TrustyKeymaster :=
  match input with
  | .nonSecure _ message given =>
    let dispatched := keymasterDispatchNonSecure platform device message given
    (⟨.nonSecure, device, dispatched⟩, dispatched.device)
  | .secure _ message =>
    let dispatched := serveSecure device message
    (⟨.secure, device, dispatched⟩, dispatched.device)

end Secure

end Trusty.Keymaster
