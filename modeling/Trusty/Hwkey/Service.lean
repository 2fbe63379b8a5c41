import Trusty.Kernel.Vmm
import Trusty.Lib.Buffer
import Trusty.Lib.Hkdf

/-!
The hardware key service of the kernel (`mtcrypto_hwkey.c`) and its key derivation
(`mt_hkdf.c`).

Bytes are of any type and HMAC-SHA256 is a keyed hash over them; only the zeros, the
counter of the expansion and the constants of the key slots are numbers.
-/

namespace Trusty.Hwkey

open Lib Kernel

def errNotSupported : Int := -24
def errBadLen : Int := -32

def hwkeyMaxPayloadSize : Nat := 2048
def hwkeyDevKeySize : Nat := 32
def sha256DigestSize : Nat := 32
def maxStrSize : Nat := 128

def hwkeyKdfVersionBest : BitVec 32 := 0
def hwkeyKdfVersion1 : BitVec 32 := 1

def hwkeyRespBit : BitVec 32 := 1
def hwkeyGetKeyslot : BitVec 32 := 0
def hwkeyDerive : BitVec 32 := 2

def hwkeyNoError : BitVec 32 := 0
def hwkeyErrBadLen : BitVec 32 := 3
def hwkeyErrNotImplemented : BitVec 32 := 4
def hwkeyErrNotFound : BitVec 32 := 5

structure Octets (α : Type) where
  octet : BitVec 8 → α
  injective : Function.Injective octet

abbrev Uuid (α : Type) := List.Vector α 16

abbrev Digest (α : Type) := List.Vector α sha256DigestSize

structure HwkeyMsg where
  cmd : BitVec 32
  opId : BitVec 32
  status : BitVec 32
  arg1 : BitVec 32
  arg2 : BitVec 32
deriving DecidableEq

/-- Which allocations succeed during a derivation. -/
structure KdfMemory where
  extract : Bool
  expand : Bool

/-- What the platform gives while a message is handled: the master key, the memory, what
an uninitialised `prk` holds on the stack, and the key of the key slot. -/
structure Platform (α : Type) where
  masterkeyStatus : BitVec 32
  masterKey : List.Vector α hwkeyDevKeySize
  memory : KdfMemory
  stackPrk : Digest α
  rpmbStatus : BitVec 32
  rpmbKey : List α

section Hkdf

variable {α : Type} (mac : Mac α sha256DigestSize) (octets : Octets α)

/-- `hmac_sha256`, which leaves its output as it is if it gets no memory. -/
def hmacSha256 (memory : Bool) (key message out : List α) : List α :=
  if memory then mac.tag key message else out

def hkdfSha256Extract (memory : Bool) (salt ikm : Option (List α)) (prk : List α) : Int × List α :=
  match ikm with
  | none => (-1, prk)
  | some ikm =>
    let salt := salt.getD (List.replicate sha256DigestSize (octets.octet 0))
    (0, hmacSha256 mac memory salt ikm prk)

/-- The loop of `hkdf_sha256_expand`: what it writes to `okm` from `pos` on in the rounds
that are left. -/
def expandLoop (prk info : List α) (okmLen : Nat) : Nat → Nat → Nat → List α → List α
  | 0, _, _, _ => []
  | left + 1, i, pos, T =>
    let T := mac.tag prk (T ++ info ++ [octets.octet (BitVec.ofNat 8 i)])
    (if left ≠ 0 then T else T.take (okmLen - pos)) ++
      expandLoop prk info okmLen left (i + 1) (pos + sha256DigestSize) T

def hkdfSha256Expand (memory : Bool) (prk : List α) (info : Option (List α)) (okmLen : Nat) :
    Int × List α :=
  if prk.length = 0 ∨ okmLen = 0 then (-1, [])
  else if memory = false then (-2, [])
  else if prk.length < sha256DigestSize then (-3, [])
  else
    let N := if okmLen % sha256DigestSize ≠ 0 then okmLen / sha256DigestSize + 1
      else okmLen / sha256DigestSize
    if 255 < N then (-4, [])
    else (0, expandLoop mac octets prk (info.getD []) okmLen N 1 0 [])

variable (platform : Platform α) (salt ikm info : Option (List α)) (okmLen : Nat)

def hkdfSha256 : Int × List α :=
  let extracted :=
    hkdfSha256Extract mac octets platform.memory.extract salt ikm platform.stackPrk.toList
  if extracted.1 ≠ 0 then (-1, [])
  else
    let expanded := hkdfSha256Expand mac octets platform.memory.expand extracted.2 info okmLen
    if expanded.1 ≠ 0 then (-2, expanded.2) else (0, expanded.2)

def platHkdfSha256 : Int × List α :=
  hkdfSha256 mac octets platform salt ikm info okmLen

end Hkdf

section Service

variable {α : Type} (arch : Arch) (mac : Mac α sha256DigestSize) (octets : Octets α)

variable (platform : Platform α) (uuid : Uuid α)

/-- `derive_key_v1`: the status, the buffer for the key and its length.  The argument
`uuid` is a pointer, and so is what `sizeof` measures. -/
def deriveKeyV1 (ikmData keyData : List α) (keyLen : Nat) : BitVec 32 × List α × Nat :=
  if ikmData.length = 0 then (hwkeyErrBadLen, keyData, keyLen)
  else if platform.masterkeyStatus = hwkeyNoError then
    let derived := platHkdfSha256 mac octets platform (some (platform.masterKey.toList.take keyLen))
      (some (uuid.toList.take (arch.bits / 8))) (some ikmData) ikmData.length
    (BitVec.ofInt 32 derived.1, overwrite keyData 0 derived.2, ikmData.length)
  else (platform.masterkeyStatus, keyData, keyLen)

def hwkeyHandleDeriveKeyCmd (hdr : HwkeyMsg) (ikmData keyData : List α) :
    (HwkeyMsg × List α) × List α :=
  let arg1 := if hdr.arg1 = hwkeyKdfVersionBest then hwkeyKdfVersion1 else hdr.arg1
  let derived :=
    if arg1 = hwkeyKdfVersion1 then deriveKeyV1 arch mac octets platform uuid ikmData keyData 0
    else (hwkeyErrNotImplemented, keyData, 0)
  (({ hdr with arg1 := arg1, status := derived.1, cmd := hwkeyDerive ||| hwkeyRespBit },
    derived.2.1.take derived.2.2), derived.2.1)

def rpmbSsAuthKeyId : List (BitVec 8) :=
  "com.android.trusty.storage_auth.rpmb".toList.map fun letter => BitVec.ofNat 8 letter.toNat

def ssUuid : List.Vector (BitVec 8) 16 :=
  ⟨[0x6d, 0x70, 0xa8, 0xce, 0xb4, 0x6c, 0xf3, 0x49, 0xb9, 0x94, 0x29, 0xe0, 0xe4, 0x78, 0xbd, 0x29],
    rfl⟩

variable [DecidableEq α]

/-- What `strncmp` compares of a string. -/
def compared (string : List α) : List α := (string.takeWhile (· ≠ octets.octet 0)).take maxStrSize

def hwkeyHandleGetKeyslotCmd (hdr : HwkeyMsg) (slotId : List α) : HwkeyMsg × List α :=
  let found :=
    if compared octets (rpmbSsAuthKeyId.map octets.octet) = compared octets slotId ∧
      uuid = ssUuid.map octets.octet then
      (platform.rpmbStatus, platform.rpmbKey)
    else (hwkeyErrNotFound, [])
  ({ hdr with cmd := hwkeyGetKeyslot ||| hwkeyRespBit, status := found.1 }, found.2)

inductive HwkeyRequest (α : Type) where
  | short
  | full (hdr : HwkeyMsg) (payload : List α)

/-- What the kernel answers while a message is handled.  `readMsg` is only looked at if
it is negative: the message is copied as far as the buffers go. -/
structure ChanGiven (α : Type) where
  getMsg : Int
  request : HwkeyRequest α
  readMsg : Int
  sendMsg : Int
  platform : Platform α

structure Handled (α : Type) where
  rc : Int
  sent : Option (HwkeyMsg × List α)
  keyData : List α

def wipe (keyData : List α) (len : Nat) : List α :=
  overwrite keyData 0 (List.replicate len (octets.octet 0))

def hwkeyChanHandleMsg (uuid : Uuid α) (given : ChanGiven α) (keyData : List α) : Handled α :=
  if given.getMsg ≠ 0 then ⟨given.getMsg, none, keyData⟩
  else
    match given.request with
    | .short => ⟨errBadLen, none, keyData⟩
    | .full hdr payload =>
      if given.readMsg < 0 then ⟨given.readMsg, none, keyData⟩
      else if hwkeyMaxPayloadSize < payload.length then ⟨errTooBig, none, keyData⟩
      else if hdr.cmd = hwkeyGetKeyslot then
        ⟨given.sendMsg, some (hwkeyHandleGetKeyslotCmd octets given.platform uuid hdr payload),
          wipe octets keyData payload.length⟩
      else if hdr.cmd = hwkeyDerive then
        let derived :=
          hwkeyHandleDeriveKeyCmd arch mac octets given.platform uuid hdr payload keyData
        ⟨given.sendMsg, some derived.1, wipe octets derived.2 payload.length⟩
      else ⟨errNotSupported, none, wipe octets keyData payload.length⟩

/-- The contexts of the channels, each with the UUID of its client, and the static buffer. -/
structure HwkeyService (α : Type) where
  contexts : Nat → Option (Uuid α)
  keyData : List α

def HwkeyService.fresh : HwkeyService α :=
  ⟨fun _ => none, List.replicate hwkeyMaxPayloadSize (octets.octet 0)⟩

inductive HwkeyEvent (α : Type) where
  | port (accepted : Option (Nat × Uuid α)) (memory : Bool)
  | channel (chan : Nat) (hup msg : Bool) (given : ChanGiven α)

inductive HwkeyOutput (α : Type) where
  | silent
  | accepted (chan : Nat) (peerUuid : Uuid α)
  | sent (chan : Nat) (response : Option (HwkeyMsg × List α))

variable (service : HwkeyService α)

def hwkeyPortHandler (accepted : Option (Nat × Uuid α)) (memory : Bool) :
    HwkeyOutput α × HwkeyService α :=
  match accepted with
  | none => (.silent, service)
  | some (chan, peerUuid) =>
    if memory then
      (.accepted chan peerUuid,
        { service with contexts := Function.update service.contexts chan (some peerUuid) })
    else (.silent, service)

def hwkeyCloseChan (chan : Nat) : HwkeyService α :=
  { service with contexts := Function.update service.contexts chan none }

/-- `hwkey_chan_handler`; a channel without a context is not of this service. -/
def hwkeyChanHandler (chan : Nat) (hup msg : Bool) (given : ChanGiven α) :
    HwkeyOutput α × HwkeyService α :=
  match service.contexts chan with
  | none => (.silent, service)
  | some uuid =>
    if hup then (.silent, hwkeyCloseChan service chan)
    else if msg then
      let handled := hwkeyChanHandleMsg arch mac octets uuid given service.keyData
      let service := { service with keyData := handled.keyData }
      (.sent chan handled.sent, if handled.rc < 0 then hwkeyCloseChan service chan else service)
    else (.silent, service)

def hwkeyStep : HwkeyEvent α → HwkeyOutput α × HwkeyService α
  | .port accepted memory => hwkeyPortHandler service accepted memory
  | .channel chan hup msg given => hwkeyChanHandler arch mac octets service chan hup msg given

end Service

end Trusty.Hwkey
