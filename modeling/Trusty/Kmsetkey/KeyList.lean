import Trusty.Keymaster.Server

/-!
The decrypted list of keys and its way to the keymaster (`set_key` of `kmsetkey.c`).

The list has an entry for each algorithm: a key, the number of certificates and the
certificates, each with its length before it.  `set_key` walks it with a pointer.
-/

namespace Trusty.Kmsetkey

open Lib Kernel Keymaster

def kmsetkeyMaxMsgSize : Nat := 4096

def errBadLen : Int := -32

/-! ### One command -/

structure ImplGiven where
  malloc : Bool
  connect : Int
  sendMsg : Int
  wait : Int
  getMsg : Int
  /-- the error of `read_msg`, if it does not read the message -/
  readMsg : Option Int
  putMsg : Int
  wait_le : wait ≤ noError
  getMsg_le : getMsg ≤ noError
  readMsg_lt : ∀ rc, readMsg = some rc → rc < 0
  putMsg_le : putMsg ≤ noError

/-- The message of a command; a payload is never shorter than an error code. -/
def implMessage (cmd : BitVec 32) (payload : List Byte) : List Byte :=
  bytes32 cmd ++ (payload ++ List.replicate (4 - payload.length) 0)

def sendReq (given : ImplGiven) (reqLen : Nat) : Int :=
  if given.sendMsg < 0 then given.sendMsg
  else if given.sendMsg ≠ reqLen then errIo
  else noError

/-- `await_response`; without a message there is an error. -/
def awaitResponse (given : ImplGiven) (reply : Option (List Byte)) : Int :=
  if given.wait ≠ noError then given.wait
  else if given.getMsg ≠ noError then given.getMsg
  else if reply = none then errNoMsg
  else noError

def readResponse (given : ImplGiven) (reply : List Byte) (rspLen : Nat) : Int :=
  match given.readMsg with
  | some rc => rc
  | none =>
    if reply.length ≠ rspLen then errIo
    else if given.putMsg ≠ noError then given.putMsg
    else noError

/-- `set_key_impl`, with the first message on the channel. -/
def setKeyImpl (cmd : BitVec 32) (payload : List Byte) (given : ImplGiven)
    (reply : Option (List Byte)) : Int :=
  if ¬given.malloc then errNoMemory
  else if given.connect < 0 then given.connect
  else
    let sent := sendReq given (implMessage cmd payload).length
    let awaited := awaitResponse given reply
    let message := reply.getD []
    let rc :=
      if sent ≠ noError then sent
      else if awaited ≠ noError then awaited
      else if message.length ≠ 8 then errBadLen
      else
        let read := readResponse given message 8
        if read ≠ noError then read
        else if word32 (message.take 4) ≠ cmd ||| keymasterStopBit ||| keymasterRespBit then
          errNotValid
        else (word32 (message.drop 4)).toInt
    if rc < 0 then rc else noError

/-! ### The walk -/

/-- The allocator, the accesses to the list and to the payload, and the commands. -/
inductive SetKeyOp where
  | malloc (size : Nat)
  /-- a length that is copied to a variable -/
  | load (pos : Nat)
  /-- copies from the list to the payload, behind the algorithm -/
  | copy (pos len : Nat)
  | setKeyImpl (cmd : BitVec 32) (payload : List Byte)

def SetKeyOp.Ans : SetKeyOp → Type
  | .malloc _ => Bool
  | .load _ => List Byte
  | .copy _ _ => List Byte
  | .setKeyImpl _ _ => Int

abbrev SetKeyDialog := Dialog SetKeyOp SetKeyOp.Ans

namespace Walk

def malloc (size : Nat) : SetKeyDialog Bool := Dialog.perform (SetKeyOp.malloc size)

def load (pos : Nat) : SetKeyDialog (List Byte) := Dialog.perform (SetKeyOp.load pos)

def copy (pos len : Nat) : SetKeyDialog (List Byte) := Dialog.perform (SetKeyOp.copy pos len)

def setKeyImpl (cmd : BitVec 32) (payload : List Byte) : SetKeyDialog Int :=
  Dialog.perform (SetKeyOp.setKeyImpl cmd payload)

end Walk

/-- A key or a certificate: the result of the command and the pointer behind it. -/
def setItem (cmd algorithm : BitVec 32) (ptr : Nat) : SetKeyDialog (Int × Nat) := do
  let ptrLen ← Walk.load ptr
  let data ← Walk.copy (ptr + 4) (word32 ptrLen).toNat
  let payloadLen : BitVec 32 := 4 + word32 ptrLen
  let rc ← Walk.setKeyImpl cmd ((bytes32 algorithm ++ data).take payloadLen.toNat)
  return (rc, ptr + (4 + (word32 ptrLen).toNat))

/-- The loop over the certificates, as far as it is left. -/
def setCerts (algorithm : BitVec 32) : Nat → Nat → SetKeyDialog (Int × Nat)
  | 0, ptr => return (noError, ptr)
  | left + 1, ptr => do
    let (rc, ptr) ← setItem kmAppendAttestationCertChain algorithm ptr
    if rc ≠ noError then return (rc, ptr) else setCerts algorithm left ptr

/-- One round of the loop over the algorithms. -/
def setAlgorithm (algorithm : BitVec 32) (ptr : Nat) : SetKeyDialog (Int × Nat) := do
  let (rc, ptr) ← setItem kmSetAttestationKey algorithm ptr
  if rc ≠ noError then return (rc, ptr)
  else
    let certchainLen ← Walk.load ptr
    setCerts algorithm (word32 certchainLen).toNat (ptr + 4)

def setAlgorithms : List (BitVec 32) → Nat → SetKeyDialog Int
  | [], _ => return noError
  | algorithm :: rest, ptr => do
    let (rc, ptr) ← setAlgorithm algorithm ptr
    if rc ≠ noError then return rc else setAlgorithms rest ptr

def kmAlgo : List (BitVec 32) := [kmAlgorithmEc, kmAlgorithmRsa]

/-- `set_key`; the version at the start of the list is skipped. -/
def setKey : SetKeyDialog Int := do
  if ← Walk.malloc kmsetkeyMaxMsgSize then
    let rc ← setAlgorithms kmAlgo 4
    return if rc < 0 then rc else noError
  else return errNoMemory

end Trusty.Kmsetkey
