import Mathlib.Algebra.Group.Nat.Defs
import Mathlib.Logic.Relation
import Trusty.Lib.Session

/-!
The RPMB client of `rpmb.c` and the world it talks to.

`rpmb_send` goes through the non-secure side, so an answer is anything that the
non-secure side can put together.  It can ask the device at any time, repeat and
withhold messages, and invent packets, but it cannot make a message
authentication code: the bytes of a message with a valid code were authenticated
by the client or by the device before (`Unforged`).  The device follows the RPMB
protocol and answers every request with an authenticated response.  A short answer
of `rpmb_send` leaves the rest of the buffer as it was, and counts as an answer
with packets that were made up.
-/

namespace Trusty.Storage

open Lib

/-! ### Packets -/

structure RpmbU16 where
  byte0 : UInt8
  byte1 : UInt8
deriving DecidableEq

structure RpmbU32 where
  byte0 : UInt8
  byte1 : UInt8
  byte2 : UInt8
  byte3 : UInt8
deriving DecidableEq

def rpmbU16 (val : UInt16) : RpmbU16 :=
  ⟨UInt8.ofNat (val.toNat / 2 ^ 8), UInt8.ofNat val.toNat⟩

def rpmbU32 (val : UInt32) : RpmbU32 :=
  ⟨UInt8.ofNat (val.toNat / 2 ^ 24), UInt8.ofNat (val.toNat / 2 ^ 16),
    UInt8.ofNat (val.toNat / 2 ^ 8), UInt8.ofNat val.toNat⟩

def rpmbGetU16 (u16 : RpmbU16) : UInt16 :=
  UInt16.ofNat (u16.byte0.toNat * 2 ^ 8 + u16.byte1.toNat)

def rpmbGetU32 (u32 : RpmbU32) : UInt32 :=
  UInt32.ofNat (((u32.byte0.toNat * 2 ^ 8 + u32.byte1.toNat) * 2 ^ 8 + u32.byte2.toNat) * 2 ^ 8 +
    u32.byte3.toNat)

@[simp]
theorem rpmbGetU16_rpmbU16 (val : UInt16) : rpmbGetU16 (rpmbU16 val) = val := by
  have bound := val.toNat_lt
  apply UInt16.toNat_inj.mp
  simp only [rpmbGetU16, rpmbU16, UInt8.toNat_ofNat', UInt16.toNat_ofNat']
  omega

@[simp]
theorem rpmbGetU32_rpmbU32 (val : UInt32) : rpmbGetU32 (rpmbU32 val) = val := by
  have bound := val.toNat_lt
  apply UInt32.toNat_inj.mp
  simp only [rpmbGetU32, rpmbU32, UInt8.toNat_ofNat', UInt32.toNat_ofNat']
  omega

/-- `struct rpmb_key`, also the type of a code. -/
abbrev RpmbKey := Vector UInt8 32

abbrev RpmbNonce := Vector UInt8 16

/-- The data of a packet, `RPMB_BUF_SIZE` bytes. -/
abbrev RpmbData := Vector UInt8 256

/-- The part of `struct rpmb_packet` from `data` on, which is what the code
covers. -/
structure RpmbBody where
  data : RpmbData
  nonce : RpmbNonce
  writeCounter : RpmbU32
  address : RpmbU16
  blockCount : RpmbU16
  result : RpmbU16
  reqResp : RpmbU16
deriving DecidableEq

structure RpmbPacket where
  keyMac : RpmbKey
  body : RpmbBody
deriving DecidableEq

namespace RpmbBody

def zero : RpmbBody :=
  { data := Vector.replicate 256 0
    nonce := Vector.replicate 16 0
    writeCounter := rpmbU32 0
    address := rpmbU16 0
    blockCount := rpmbU16 0
    result := rpmbU16 0
    reqResp := rpmbU16 0 }

def bytes (body : RpmbBody) : List UInt8 :=
  body.data.toList ++ body.nonce.toList ++
    [body.writeCounter.byte0, body.writeCounter.byte1, body.writeCounter.byte2,
      body.writeCounter.byte3, body.address.byte0, body.address.byte1, body.blockCount.byte0,
      body.blockCount.byte1,
      body.result.byte0, body.result.byte1, body.reqResp.byte0, body.reqResp.byte1]

/-- The bytes of several bodies, as `rpmb_mac` runs over them. -/
def allBytes (bodies : List RpmbBody) : List UInt8 := bodies.flatMap bytes

theorem length_bytes (body : RpmbBody) : body.bytes.length = 284 := by
  simp [bytes]

theorem bytes_injective {first second : RpmbBody} (same : first.bytes = second.bytes) :
    first = second := by
  obtain ⟨front, back⟩ := List.append_inj same (by simp)
  obtain ⟨data, nonce⟩ := List.append_inj front (by simp)
  have dataEq : first.data = second.data := Vector.toList_inj.mp data
  have nonceEq : first.nonce = second.nonce := Vector.toList_inj.mp nonce
  obtain ⟨data2, nonce2, ⟨⟩, ⟨⟩, ⟨⟩, ⟨⟩, ⟨⟩⟩ := second
  obtain ⟨rfl, rfl, rfl, rfl, rfl, rfl, rfl, rfl, rfl, rfl, rfl, rfl, _⟩ := back
  subst dataEq nonceEq
  rfl

/-- Bodies all have the same size, so the bytes of several determine them. -/
theorem allBytes_injective {first second : List RpmbBody}
    (same : allBytes first = allBytes second) :
    first = second := by
  induction first generalizing second with
  | nil =>
    cases second with
    | nil => rfl
    | cons body rest =>
      have := congrArg List.length same
      simp only [allBytes, List.flatMap_nil, List.flatMap_cons, List.length_append, length_bytes,
        List.length_nil] at this
      omega
  | cons body rest ih =>
    cases second with
    | nil =>
      have := congrArg List.length same
      simp only [allBytes, List.flatMap_nil, List.flatMap_cons, List.length_append, length_bytes,
        List.length_nil] at this
      omega
    | cons other others =>
      obtain ⟨head, tail⟩ := List.append_inj same (by rw [length_bytes, length_bytes])
      rw [bytes_injective head, ih tail]

end RpmbBody

/-! ### The client -/

/-- `RPMB_REQ_GET_COUNTER` and the other requests and responses. -/
def rpmbReqGetCounter : UInt16 := 0x0002
def rpmbReqDataWrite : UInt16 := 0x0003
def rpmbReqDataRead : UInt16 := 0x0004
def rpmbReqResultRead : UInt16 := 0x0005
def rpmbRespGetCounter : UInt16 := 0x0200
def rpmbRespDataWrite : UInt16 := 0x0300
def rpmbRespDataRead : UInt16 := 0x0400

/-- `RPMB_RES_OK` and the other results. -/
def rpmbResOk : UInt16 := 0x0000
def rpmbResAuthFailure : UInt16 := 0x0002
def rpmbResCountFailure : UInt16 := 0x0003
def rpmbResAddrFailure : UInt16 := 0x0004
def rpmbResWriteFailureExpired : UInt16 := 0x0085

def enoent : Int := 2

/-- `HMAC` with SHA-256 of a key and bytes. -/
abbrev Hmac := RpmbKey → List UInt8 → RpmbKey

/-- `rpmb_mac`.  If `HMAC` fails the caller returns -1 and has stored nothing, as after an
error of `rpmb_send`. -/
def rpmbMac (hmac : Hmac) (key : RpmbKey) (packets : List RpmbPacket) : RpmbKey :=
  hmac key (RpmbBody.allBytes (packets.map RpmbPacket.body))

/-- The arguments of `rpmb_send` that reach the other side. -/
structure RpmbCommand where
  reliableWrite : List RpmbPacket
  write : List RpmbPacket
  readCount : Nat
  sync : Bool

/-- What `rpmb_send` gives back: a negative error, or the packets in the read
buffer. -/
inductive RpmbAnswer where
  | error (code : Int)
  | packets (res : List RpmbPacket)

/-- What the client has concluded or done. -/
inductive RpmbNote where
  | counterAccepted (nonce : RpmbNonce) (counter : UInt32)
  | counterRejected (counter : UInt32)
  | signed (counter : UInt32)
  | acknowledged (response : RpmbBody)
deriving DecidableEq

abbrev RpmbSession := Session RpmbNonce RpmbCommand RpmbAnswer RpmbNote

/-- `struct rpmb_state`, apart from the key and the transport. -/
structure RpmbState where
  writeCounter : UInt32
deriving DecidableEq

/-- The loop of `rpmb_check_response` over the packets.  Only the last one is
compared with `mac`. -/
def rpmbCheckResponse (responseType : UInt16) (mac : Option RpmbKey) (nonce : Option RpmbNonce)
    (addr : Option UInt16) : List RpmbPacket → Int
  | [] => 0
  | packet :: rest =>
    if rpmbGetU16 packet.body.reqResp ≠ responseType then -1
    else if rpmbGetU16 packet.body.result ≠ rpmbResOk then
      if rpmbGetU16 packet.body.result = rpmbResAddrFailure then -enoent else -1
    else if rest = [] ∧ mac.any (packet.keyMac != ·) then -1
    else if nonce.any (packet.body.nonce != ·) then -1
    else if addr.any (· != rpmbGetU16 packet.body.address) then -1
    else rpmbCheckResponse responseType mac nonce addr rest

section Client

variable (hmac : Hmac) (key : RpmbKey)

/-- `rpmb_read_counter`: the result, and the counter where it was stored.  It is
stored before the response is checked. -/
def rpmbReadCounter (writeCounter : UInt32) : RpmbSession (Int × UInt32) :=
  .draw fun nonce =>
    let cmd : RpmbPacket :=
      ⟨Vector.replicate 32 0,
        { RpmbBody.zero with nonce := nonce, reqResp := rpmbU16 rpmbReqGetCounter }⟩
    .send ⟨[], [cmd], 1, false⟩ fun answer =>
      match answer with
      | .packets [res] =>
        let mac := rpmbMac hmac key [res]
        let counter := rpmbGetU32 res.body.writeCounter
        let ret := rpmbCheckResponse rpmbRespGetCounter (some mac) (some nonce) none [res]
        .note (if ret < 0 then .counterRejected counter else .counterAccepted nonce counter)
          (.done (ret, counter))
      | .packets _ => .done (-1, writeCounter)
      | .error code => .done (code, writeCounter)

/-- `rpmb_read` once it has its nonce: the result, and the data where they were
stored. -/
def rpmbReadWith (addr count : UInt16) (nonce : RpmbNonce) :
    RpmbSession (Int × Option (List RpmbData)) :=
  let cmd : RpmbPacket :=
    ⟨Vector.replicate 32 0, { RpmbBody.zero with
      nonce := nonce
      address := rpmbU16 addr
      reqResp := rpmbU16 rpmbReqDataRead }⟩
  .send ⟨[], [cmd], count.toNat, false⟩ fun answer =>
    match answer with
    | .error code => .done (code, none)
    | .packets res =>
      let mac := rpmbMac hmac key res
      let ret := rpmbCheckResponse rpmbRespDataRead (some mac) (some nonce) (some addr) res
      if ret < 0 then .done (ret, none)
      else .done (0, some (res.map fun packet => packet.body.data))

def rpmbRead (addr count : UInt16) : RpmbSession (Int × Option (List RpmbData)) :=
  .draw (rpmbReadWith hmac key addr count)

/-- The bodies of the packets of a write of `buf`. -/
def writeBodies (writeCounter : UInt32) (buf : List RpmbData) (addr : UInt16) : List RpmbBody :=
  buf.map fun data =>
    { RpmbBody.zero with
      data := data
      writeCounter := rpmbU32 writeCounter
      address := rpmbU16 addr
      blockCount := rpmbU16 (UInt16.ofNat buf.length)
      reqResp := rpmbU16 rpmbReqDataWrite }

/-- The packets of a write: the last one carries the code. -/
def writePackets (writeCounter : UInt32) (buf : List RpmbData) (addr : UInt16) : List RpmbPacket :=
  let packets := (writeBodies writeCounter buf addr).map fun body => ⟨Vector.replicate 32 0, body⟩
  packets.modify (buf.length - 1) fun packet => { packet with keyMac := rpmbMac hmac key packets }

def rpmbWriteData (state : RpmbState) (buf : List RpmbData) (addr : UInt16) (sync : Bool) :
    RpmbSession (Int × RpmbState) :=
  let rescmd : RpmbPacket :=
    ⟨Vector.replicate 32 0, { RpmbBody.zero with reqResp := rpmbU16 rpmbReqResultRead }⟩
  .note (.signed state.writeCounter) <|
    .send ⟨writePackets hmac key state.writeCounter buf addr, [rescmd], 1, sync⟩ fun answer =>
      match answer with
      | .packets [res] =>
        let mac := rpmbMac hmac key [res]
        let ret := rpmbCheckResponse rpmbRespDataWrite (some mac) none (some addr) [res]
        if ret < 0 then
          if rpmbGetU16 res.body.result = rpmbResCountFailure then .done (ret, ⟨0⟩)
          else .done (ret, state)
        else .note (.acknowledged res.body) (.done (0, ⟨state.writeCounter + 1⟩))
      | .packets _ => .done (-1, state)
      | .error code => .done (code, state)

def rpmbWrite (state : RpmbState) (buf : List RpmbData) (addr : UInt16) (sync : Bool) :
    RpmbSession (Int × RpmbState) :=
  if state.writeCounter = 0 then do
    let (ret, counter) ← rpmbReadCounter hmac key state.writeCounter
    if ret < 0 then pure (ret, ⟨counter⟩) else rpmbWriteData hmac key ⟨counter⟩ buf addr sync
  else rpmbWriteData hmac key state buf addr sync

def rpmbCheck (block : UInt16) : RpmbSession Int := do
  let (ret, _) ← rpmbRead hmac key block 1
  pure ret

/-- How `rpmb_search_size` ends. -/
inductive SearchResult where
  | size (count : UInt32)
  | assertFailed
  | outOfFuel
deriving DecidableEq

/-- The loop of `rpmb_search_size`. -/
def rpmbSearchLoop (fuel : Nat) (low : UInt32) (high curr hint : UInt16) :
    RpmbSession SearchResult :=
  if low ≤ high.toUInt32 then
    match fuel with
    | 0 => pure .outOfFuel
    | fuel + 1 => do
      let ret ← rpmbCheck hmac key curr
      if ret ≠ 0 ∧ ret ≠ -enoent then pure (.size 0)
      else
        let low := if ret = 0 then curr.toUInt32 + 1 else low
        let high := if ret = 0 then high else curr - 1
        if ret ≠ 0 ∨ curr ≠ hint then
          let curr := (low + (high.toUInt32 - low) / 2).toUInt16
          rpmbSearchLoop fuel low high curr curr
        else rpmbSearchLoop fuel low high (curr + 1) hint
  else if high.toUInt32 + 1 = low then pure (.size low)
  else pure .assertFailed

def rpmbSearchSize (fuel : Nat) (hint : UInt16) : RpmbSession SearchResult :=
  rpmbSearchLoop hmac key fuel 0 (~~~0) (hint - 1) hint

end Client

/-! ### The device and the non-secure side -/

/-- The state of an RPMB device: its number of blocks, its write counter, and
the contents of its blocks. -/
structure RpmbDevice where
  size : Nat
  counter : UInt32
  memory : Nat → RpmbData

/-- What the device has done, each with the state in which it did it. -/
inductive RpmbEvent where
  | counter (device : RpmbDevice) (nonce : RpmbNonce)
  | read (device : RpmbDevice) (nonce : RpmbNonce) (address : UInt16) (count : Nat)
  | write (device : RpmbDevice) (address : UInt16) (request : List RpmbBody) (result : UInt16)

namespace RpmbDevice

def contents (device : RpmbDevice) (address : UInt16) (count : Nat) : List RpmbData :=
  (List.range count).map fun index => device.memory (address.toNat + index)

/-- The result of a write request: the counter must not be used up, the address
in range, the code valid, and the counter the current one. -/
def verdict (device : RpmbDevice) (valid : Bool) (first : RpmbBody) (count : Nat) : UInt16 :=
  if device.counter.toNat = 2 ^ 32 - 1 then rpmbResWriteFailureExpired
  else if device.size < (rpmbGetU16 first.address).toNat + count then rpmbResAddrFailure
  else if valid = false then rpmbResAuthFailure
  else if rpmbGetU32 first.writeCounter ≠ device.counter then rpmbResCountFailure
  else rpmbResOk

def store (device : RpmbDevice) (address : UInt16) (contents : List RpmbData) : RpmbDevice :=
  { device with
    counter := device.counter + 1
    memory := fun block =>
      if address.toNat ≤ block then contents.getD (block - address.toNat) (device.memory block)
      else device.memory block }

/-- What the device does with a request.  The number of blocks to read is not
part of the packet. -/
def handle (hmac : Hmac) (key : RpmbKey) (device : RpmbDevice) (request : List RpmbPacket)
    (count : Nat) :
    Option (RpmbDevice × RpmbEvent) :=
  match request with
  | [] => none
  | first :: rest =>
    let reqResp := rpmbGetU16 first.body.reqResp
    let address := rpmbGetU16 first.body.address
    if reqResp = rpmbReqGetCounter then some (device, .counter device first.body.nonce)
    else if reqResp = rpmbReqDataRead then
      some (device, .read device first.body.nonce address count)
    else if reqResp = rpmbReqDataWrite then
      let bodies := (first :: rest).map RpmbPacket.body
      let valid := ((first :: rest).getLast (List.cons_ne_nil _ _)).keyMac == rpmbMac hmac key
        (first :: rest)
      let result := device.verdict valid first.body bodies.length
      some (if result = rpmbResOk then device.store address (bodies.map RpmbBody.data) else device,
        .write device address bodies result)
    else none

end RpmbDevice

/-- The authenticated response that belongs to an event. -/
def RpmbEvent.response : RpmbEvent → List RpmbBody
  | .counter device nonce =>
    [{ RpmbBody.zero with
        nonce := nonce
        writeCounter := rpmbU32 device.counter
        reqResp := rpmbU16 rpmbRespGetCounter }]
  | .read device nonce address count =>
    if device.size < address.toNat + count then
      List.replicate count { RpmbBody.zero with
        nonce := nonce
        address := rpmbU16 address
        blockCount := rpmbU16 (UInt16.ofNat count)
        result := rpmbU16 rpmbResAddrFailure
        reqResp := rpmbU16 rpmbRespDataRead }
    else
      (device.contents address count).map fun data => { RpmbBody.zero with
        data := data
        nonce := nonce
        address := rpmbU16 address
        blockCount := rpmbU16 (UInt16.ofNat count)
        reqResp := rpmbU16 rpmbRespDataRead }
  | .write device address _ result =>
    [{ RpmbBody.zero with
        writeCounter := rpmbU32 (if result = rpmbResOk then device.counter + 1 else device.counter)
        address := rpmbU16 address
        result := rpmbU16 result
        reqResp := rpmbU16 rpmbRespDataWrite }]

/-- The device, the write requests that the client has authenticated, and what
the device has done. -/
structure RpmbWorld where
  device : RpmbDevice
  requests : List (List RpmbBody)
  log : List RpmbEvent

/-- The messages that someone with the key has authenticated. -/
def RpmbWorld.authentic (world : RpmbWorld) : List (List RpmbBody) :=
  world.requests ++ world.log.map RpmbEvent.response

section World

variable (hmac : Hmac) (key : RpmbKey)

/-- A message with a valid code is one that was authenticated. -/
def Unforged (world : RpmbWorld) (packets : List RpmbPacket) : Prop :=
  packets.getLast?.map RpmbPacket.keyMac = some (rpmbMac hmac key packets) →
    RpmbBody.allBytes (packets.map RpmbPacket.body) ∈ world.authentic.map RpmbBody.allBytes

instance (world : RpmbWorld) (packets : List RpmbPacket) :
    Decidable (Unforged hmac key world packets) :=
  inferInstanceAs (Decidable (_ → _))

/-- The non-secure side sends a request to the device. -/
inductive RpmbAttack : RpmbWorld → RpmbWorld → Prop
  | request {world : RpmbWorld} {packets : List RpmbPacket} {count : Nat} {device : RpmbDevice}
      {event : RpmbEvent} : Unforged hmac key world packets →
      world.device.handle hmac key packets count = some (device, event) →
      RpmbAttack world { world with device := device, log := world.log ++ [event] }

/-- The client has authenticated the packets of a write command. -/
def RpmbWorld.learn (world : RpmbWorld) (command : RpmbCommand) : RpmbWorld :=
  if command.reliableWrite = [] then world
  else { world with requests := world.requests ++ [command.reliableWrite.map RpmbPacket.body] }

/-- The channel of `rpmb_send`: while the client waits, the non-secure side does
what it likes.  A nonce is fresh if no authenticated message has it. -/
def rpmbNetwork : Network RpmbWorld RpmbNonce RpmbCommand RpmbAnswer where
  fresh world nonce := ∀ message ∈ world.authentic, ∀ body ∈ message, body.nonce ≠ nonce
  exchange world command answer final :=
    Relation.ReflTransGen (RpmbAttack hmac key) (world.learn command) final ∧
      match answer with
      | .error code => code < 0
      | .packets res => res.length = command.readCount ∧ Unforged hmac key final res

/-- The client, the world, and the notes of the client so far. -/
structure RpmbRun where
  host : RpmbState
  world : RpmbWorld
  history : List RpmbNote

/-- A call of the client, a restart of the client (`rpmb_init`), or a request of
the non-secure side to the device. -/
inductive RpmbStep : RpmbRun → RpmbRun → Prop
  | attack {run : RpmbRun} {world : RpmbWorld} : RpmbAttack hmac key run.world world →
      RpmbStep run { run with world := world }
  | init {run : RpmbRun} : RpmbStep run { run with host := ⟨0⟩ }
  | read {run : RpmbRun} {addr count : UInt16} {result : Int × Option (List RpmbData)}
      {notes : List RpmbNote} {world : RpmbWorld} :
      Session.Exec (rpmbNetwork hmac key) run.world (rpmbRead hmac key addr count) result
        notes world →
      RpmbStep run { run with world := world, history := run.history ++ notes }
  | write {run : RpmbRun} {buf : List RpmbData} {addr : UInt16} {sync : Bool} {ret : Int}
      {host : RpmbState} {notes : List RpmbNote} {world : RpmbWorld} :
      buf ≠ [] → buf.length < 2 ^ 16 →
      Session.Exec (rpmbNetwork hmac key) run.world (rpmbWrite hmac key run.host buf addr sync)
        (ret, host) notes world →
      RpmbStep run { host := host, world := world, history := run.history ++ notes }

def RpmbRun.start (device : RpmbDevice) : RpmbRun := ⟨⟨0⟩, ⟨device, [], []⟩, []⟩

def RpmbReachable (run : RpmbRun) : Prop :=
  ∃ device, Relation.ReflTransGen (RpmbStep hmac key) (.start device) run

end World

end Trusty.Storage
