import Mathlib.Tactic.ByContra
import Mathlib.Tactic.SplitIfs
import Trusty.Storage.Rpmb

/-!
What the RPMB client can conclude from a response.

Responses are told apart by type, so a write request that the client
authenticated is never taken for a response and a response never for a request.
A nonce that no authenticated message had before makes a response belong to the
call.  The response to a write carries no nonce, and its counter is not compared.
-/

namespace Trusty.Storage

open Lib Session List

section Response

variable {responseType : UInt16} {mac : Option RpmbKey} {nonce : Option RpmbNonce}
  {addr : Option UInt16}

/-- What holds of each packet of an accepted response. -/
structure Accepted (responseType : UInt16) (nonce : Option RpmbNonce) (addr : Option UInt16)
    (body : RpmbBody) : Prop where
  type_eq : rpmbGetU16 body.reqResp = responseType
  result_eq : rpmbGetU16 body.result = rpmbResOk
  nonce_eq : ∀ expected ∈ nonce, body.nonce = expected
  addr_eq : ∀ expected ∈ addr, rpmbGetU16 body.address = expected

theorem rpmbCheckResponse_accepts {res : List RpmbPacket}
    (passed : ¬ rpmbCheckResponse responseType mac nonce addr res < 0) :
    (∀ packet ∈ res, Accepted responseType nonce addr packet.body) ∧
      ∀ last ∈ res.getLast?, ∀ expected ∈ mac, last.keyMac = expected := by
  induction res with
  | nil => simp
  | cons packet rest ih =>
    unfold rpmbCheckResponse at passed
    by_cases badType : rpmbGetU16 packet.body.reqResp ≠ responseType
    · rw [if_pos badType] at passed
      exact (passed (by decide)).elim
    by_cases badResult : rpmbGetU16 packet.body.result ≠ rpmbResOk
    · rw [if_neg badType, if_pos badResult] at passed
      split at passed <;> exact (passed (by decide)).elim
    by_cases badMac : rest = [] ∧ mac.any (packet.keyMac != ·)
    · rw [if_neg badType, if_neg badResult, if_pos badMac] at passed
      exact (passed (by decide)).elim
    by_cases badNonce : nonce.any (packet.body.nonce != ·)
    · rw [if_neg badType, if_neg badResult, if_neg badMac, if_pos badNonce] at passed
      exact (passed (by decide)).elim
    by_cases badAddr : addr.any (· != rpmbGetU16 packet.body.address)
    · rw [if_neg badType, if_neg badResult, if_neg badMac, if_neg badNonce,
        if_pos badAddr] at passed
      exact (passed (by decide)).elim
    rw [if_neg badType, if_neg badResult, if_neg badMac, if_neg badNonce, if_neg badAddr] at passed
    obtain ⟨others, lastMac⟩ := ih passed
    have here : Accepted responseType nonce addr packet.body := by
      refine ⟨not_not.mp badType, not_not.mp badResult, ?_, ?_⟩
      · intro expected found
        by_contra ne
        exact badNonce ((Option.any_eq_true _ _).mpr ⟨expected, found, bne_iff_ne.mpr ne⟩)
      · intro expected found
        by_contra ne
        exact badAddr
          ((Option.any_eq_true _ _).mpr ⟨expected, found, bne_iff_ne.mpr fun same => ne same.symm⟩)
    constructor
    · exact forall_mem_cons.mpr ⟨here, others⟩
    · cases rest with
      | nil =>
        intro last isLast expected found
        rw [List.getLast?_singleton, Option.mem_some_iff] at isLast
        subst isLast
        by_contra ne
        exact badMac ⟨rfl, (Option.any_eq_true _ _).mpr ⟨expected, found, bne_iff_ne.mpr ne⟩⟩
      | cons next more =>
        intro last isLast expected found
        exact lastMac last (by simpa using isLast) expected found

end Response

/-! ### Messages -/

section Messages

variable {hmac : Hmac} {key : RpmbKey}

def RpmbEvent.responseType : RpmbEvent → UInt16
  | .counter _ _ => rpmbRespGetCounter
  | .read _ _ _ _ => rpmbRespDataRead
  | .write _ _ _ _ => rpmbRespDataWrite

theorem RpmbEvent.responseType_ne (event : RpmbEvent) : event.responseType ≠ rpmbReqDataWrite := by
  have types : rpmbRespGetCounter ≠ rpmbReqDataWrite ∧ rpmbRespDataRead ≠ rpmbReqDataWrite ∧
      rpmbRespDataWrite ≠ rpmbReqDataWrite := by decide
  cases event with
  | counter device nonce => exact types.1
  | read device nonce address count => exact types.2.1
  | write device address request result => exact types.2.2

variable {event : RpmbEvent} {world next : RpmbWorld} {packets : List RpmbPacket} {count : Nat}

theorem RpmbEvent.response_type {body : RpmbBody} (mem : body ∈ event.response) :
    rpmbGetU16 body.reqResp = event.responseType := by
  cases event with
  | counter device nonce =>
    rw [response, mem_singleton] at mem
    subst mem
    exact rpmbGetU16_rpmbU16 _
  | read device nonce address count =>
    rw [response] at mem
    by_cases outside : device.size < address.toNat + count
    · rw [if_pos outside] at mem
      rw [eq_of_mem_replicate mem]
      exact rpmbGetU16_rpmbU16 _
    · rw [if_neg outside] at mem
      obtain ⟨data, _, rfl⟩ := mem_map.mp mem
      exact rpmbGetU16_rpmbU16 _
  | write device address request result =>
    rw [response, mem_singleton] at mem
    subst mem
    exact rpmbGetU16_rpmbU16 _

def RpmbEvent.device : RpmbEvent → RpmbDevice
  | .counter device _ => device
  | .read device _ _ _ => device
  | .write device _ _ _ => device

theorem Unforged.authentic (unforged : Unforged hmac key world packets)
    (valid : packets.getLast?.map RpmbPacket.keyMac = some (rpmbMac hmac key packets)) :
    packets.map RpmbPacket.body ∈ world.authentic := by
  obtain ⟨message, known, same⟩ := mem_map.mp (unforged valid)
  rw [← RpmbBody.allBytes_injective same]
  exact known

def IsWriteRequest (message : List RpmbBody) : Prop :=
  ∃ writeCounter buf addr, buf ≠ [] ∧ message = writeBodies writeCounter buf addr

/-- What is always true of the requests and the writes of the device. -/
structure RpmbWorld.Sane (world : RpmbWorld) : Prop where
  requests : ∀ message ∈ world.requests, IsWriteRequest message
  writes : ∀ device address request, .write device address request rpmbResOk ∈ world.log →
    request ∈ world.requests ∧ ∃ first ∈ request.head?,
      rpmbGetU16 first.address = address ∧ rpmbGetU32 first.writeCounter = device.counter
  counted : ∀ device address request, .write device address request rpmbResOk ∈ world.log →
    device.counter.toNat < world.device.counter.toNat
  sizes : ∀ event ∈ world.log, event.device.size = world.device.size

/-- How the world moves on. -/
structure RpmbWorld.Later (first second : RpmbWorld) : Prop where
  requests : ∀ message ∈ first.requests, message ∈ second.requests
  log : ∃ events, second.log = first.log ++ events ∧ ∀ event ∈ events,
    first.device.counter.toNat ≤ event.device.counter.toNat ∧ event.device.size = first.device.size
  counter : first.device.counter.toNat ≤ second.device.counter.toNat
  size : second.device.size = first.device.size

theorem RpmbWorld.Later.refl (world : RpmbWorld) : world.Later world :=
  ⟨fun _ known => known, ⟨[], by simp⟩, Nat.le_refl _, rfl⟩

theorem RpmbWorld.Later.trans {first second third : RpmbWorld} (early : first.Later second)
    (late : second.Later third) : first.Later third := by
  obtain ⟨earlyRequests, ⟨earlyEvents, earlyLog, earlyBounds⟩, earlyCounter, earlySize⟩ := early
  obtain ⟨lateRequests, ⟨lateEvents, lateLog, lateBounds⟩, lateCounter, lateSize⟩ := late
  refine ⟨fun message known => lateRequests message (earlyRequests message known),
    ⟨earlyEvents ++ lateEvents, ?_, ?_⟩, Nat.le_trans earlyCounter lateCounter,
    lateSize.trans earlySize⟩
  · rw [lateLog, earlyLog, append_assoc]
  intro event mem
  rcases mem_append.mp mem with isEarly | isLate
  · exact earlyBounds event isEarly
  · obtain ⟨counterBound, sameSize⟩ := lateBounds event isLate
    exact ⟨Nat.le_trans earlyCounter counterBound, sameSize.trans earlySize⟩

theorem RpmbDevice.verdict_ok {device : RpmbDevice} {valid : Bool} {first : RpmbBody}
    (accepted : device.verdict valid first count = rpmbResOk) :
    device.counter.toNat ≠ 2 ^ 32 - 1 ∧ valid = true ∧
      rpmbGetU32 first.writeCounter = device.counter := by
  unfold verdict at accepted
  split_ifs at accepted with expired outside invalid mismatch
  · cases accepted
  · cases accepted
  · cases accepted
  · cases accepted
  · exact ⟨expired, by simpa using invalid, not_not.mp mismatch⟩

theorem RpmbDevice.handle_cases {device after : RpmbDevice}
    (handled : device.handle hmac key packets count = some (after, event)) :
    event.device = device ∧ after.size = device.size ∧
      ((after = device ∧ ∀ first address request, event ≠ .write first address request rpmbResOk) ∨
        ∃ first rest, packets = first :: rest ∧ rpmbGetU16 first.body.reqResp = rpmbReqDataWrite ∧
          event = .write device (rpmbGetU16 first.body.address)
          (packets.map RpmbPacket.body) rpmbResOk ∧
          packets.getLast?.map RpmbPacket.keyMac = some (rpmbMac hmac key packets) ∧
          rpmbGetU32 first.body.writeCounter = device.counter ∧
          device.counter.toNat ≠ 2 ^ 32 - 1 ∧ after.counter = device.counter + 1) := by
  cases packets with
  | nil => cases handled
  | cons first rest =>
    simp only [handle] at handled
    split at handled
    · cases handled
      exact ⟨rfl, rfl, .inl ⟨rfl, fun _ _ _ contra => by cases contra⟩⟩
    split at handled
    · cases handled
      exact ⟨rfl, rfl, .inl ⟨rfl, fun _ _ _ contra => by cases contra⟩⟩
    split at handled
    case isFalse => cases handled
    case isTrue isWrite =>
      obtain ⟨rfl, rfl⟩ := handled
      split
      case isTrue executed =>
        obtain ⟨bound, valid, counterEq⟩ := verdict_ok executed
        refine ⟨rfl, rfl, .inr ⟨first, rest, rfl, isWrite, ?_, ?_, counterEq, bound, rfl⟩⟩
        · rw [executed]
        · exact congrArg some (eq_of_beq valid)
      case isFalse refused =>
        refine ⟨rfl, rfl, .inl ⟨rfl, ?_⟩⟩
        intro other otherAddress request same
        rw [RpmbEvent.write.injEq] at same
        exact refused same.2.2.2

theorem RpmbAttack.later (attack : RpmbAttack hmac key world next) : world.Later next := by
  obtain ⟨unforged, handled⟩ := attack
  obtain ⟨deviceEq, sizeEq, outcome⟩ := RpmbDevice.handle_cases handled
  refine ⟨fun _ known => known, ⟨_, rfl, ?_⟩, ?_, sizeEq⟩
  · intro event mem
    rw [mem_singleton.mp mem, deviceEq]
    exact ⟨Nat.le_refl _, rfl⟩
  rcases outcome with ⟨unchanged, _⟩ | ⟨first, rest, _, _, _, _, _, bound, advanced⟩
  · exact Nat.le_of_eq (by rw [unchanged])
  · have small := world.device.counter.toNat_lt
    simp only [advanced, UInt32.toNat_add, UInt32.toNat_one]
    omega

theorem RpmbAttack.sane (attack : RpmbAttack hmac key world next) (sane : world.Sane) :
    next.Sane := by
  have later := attack.later.counter
  obtain ⟨unforged, handled⟩ := attack
  obtain ⟨deviceEq, sizeEq, outcome⟩ := RpmbDevice.handle_cases handled
  refine ⟨sane.requests, ?_, ?_, ?_⟩
  rotate_left
  · intro device address request inLog
    rcases mem_append.mp inLog with before | isNew
    · exact Nat.lt_of_lt_of_le (sane.counted device address request before) later
    rcases outcome with ⟨_, notWrite⟩ | ⟨_, _, _, _, rfl, _, _, bound, advanced⟩
    · exact (notWrite _ _ _ (mem_singleton.mp isNew).symm).elim
    cases mem_singleton.mp isNew
    have small := world.device.counter.toNat_lt
    simp only [advanced, UInt32.toNat_add, UInt32.toNat_one]
    omega
  · refine forall_mem_append.mpr
      ⟨fun event before => (sane.sizes event before).trans sizeEq.symm, ?_⟩
    rw [forall_mem_singleton, deviceEq]
    exact sizeEq.symm
  intro device address request inLog
  rcases mem_append.mp inLog with before | isNew
  · exact sane.writes device address request before
  rcases outcome with ⟨_, notWrite⟩ | ⟨first, rest, rfl, isWrite, rfl, valid, counterEq, _, _⟩
  · exact (notWrite _ _ _ (mem_singleton.mp isNew).symm).elim
  cases mem_singleton.mp isNew
  -- no response has the type of a request, so the request is one of the client
  have known := unforged.authentic valid
  rcases mem_append.mp known with isRequest | isResponse
  · exact ⟨isRequest, first.body, rfl, rfl, counterEq⟩
  obtain ⟨event, _, same⟩ := mem_map.mp isResponse
  have inResponse : first.body ∈ event.response := by
    rw [same]
    simp
  have typed := event.response_type inResponse
  rw [isWrite] at typed
  exact (event.responseType_ne typed.symm).elim

section

variable (attacks : Relation.ReflTransGen (RpmbAttack hmac key) world next)

include attacks

theorem RpmbWorld.Later.of_attacks : world.Later next := by
  induction attacks with
  | refl => exact .refl _
  | tail _ attack ih => exact ih.trans attack.later

/-- Only the client authenticates requests. -/
theorem requests_of_attacks : next.requests = world.requests := by
  induction attacks with
  | refl => rfl
  | tail _ attack ih =>
    obtain ⟨_, _⟩ := attack
    exact ih

end

theorem RpmbWorld.Sane.attacks (sane : world.Sane)
    (attacks : Relation.ReflTransGen (RpmbAttack hmac key) world next) : next.Sane := by
  induction attacks with
  | refl => exact sane
  | tail _ attack ih => exact attack.sane ih

end Messages

/-! ### Calls -/

section Calls

variable {hmac : Hmac} {key : RpmbKey} {world final : RpmbWorld} {notes : List RpmbNote}

variable {addr : UInt16} {writeCounter : UInt32} {buf : List RpmbData} {state : RpmbState}
  {sync : Bool}

theorem rpmbReadWith_exec {count : UInt16} {nonce : RpmbNonce}
    {result : Int × Option (List RpmbData)}
    (run : Exec (rpmbNetwork hmac key) world (rpmbReadWith hmac key addr count nonce) result
      notes final) :
    Relation.ReflTransGen (RpmbAttack hmac key) world final ∧ notes = [] ∧
      ((∃ code < 0, result = (code, none)) ∨
        ∃ res : List RpmbPacket, res.length = count.toNat ∧ Unforged hmac key final res ∧
          ¬ rpmbCheckResponse rpmbRespDataRead (some (rpmbMac hmac key res)) (some nonce)
          (some addr) res < 0 ∧
          result = (0, some (res.map fun packet => packet.body.data))) := by
  simp only [rpmbReadWith, exec_send_iff] at run
  obtain ⟨answer, middle, ⟨attacks, valid⟩, rest⟩ := run
  cases answer with
  | error code =>
    obtain ⟨rfl, rfl, rfl⟩ := exec_done_iff.mp rest
    exact ⟨attacks, rfl, .inl ⟨code, valid, rfl⟩⟩
  | packets res =>
    simp only at rest
    split at rest
    case isTrue failed =>
      obtain ⟨rfl, rfl, rfl⟩ := exec_done_iff.mp rest
      exact ⟨attacks, rfl, .inl ⟨_, failed, rfl⟩⟩
    case isFalse accepted =>
      obtain ⟨rfl, rfl, rfl⟩ := exec_done_iff.mp rest
      exact ⟨attacks, rfl, .inr ⟨res, valid.1, valid.2, accepted, rfl⟩⟩

theorem rpmbReadCounter_exec {result : Int × UInt32}
    (run : Exec (rpmbNetwork hmac key) world (rpmbReadCounter hmac key writeCounter) result
      notes final) :
    ∃ nonce, (rpmbNetwork hmac key).fresh world nonce ∧
      Relation.ReflTransGen (RpmbAttack hmac key) world final ∧
      ((∃ code < 0, result = (code, writeCounter) ∧ notes = []) ∨
        ∃ res : RpmbPacket, Unforged hmac key final [res] ∧
          ∃ ret, rpmbCheckResponse rpmbRespGetCounter (some (rpmbMac hmac key [res]))
          (some nonce) none [res] =
              ret ∧ result = (ret, rpmbGetU32 res.body.writeCounter) ∧
            notes = [if ret < 0 then .counterRejected (rpmbGetU32 res.body.writeCounter)
              else .counterAccepted nonce (rpmbGetU32 res.body.writeCounter)]) := by
  simp only [rpmbReadCounter, exec_draw_iff, exec_send_iff] at run
  obtain ⟨nonce, fresh, answer, middle, ⟨attacks, valid⟩, rest⟩ := run
  have unchanged : ∀ cmd : RpmbPacket, world.learn ⟨[], [cmd], 1, false⟩ = world := fun _ => rfl
  refine ⟨nonce, fresh, ?_⟩
  cases answer with
  | error code =>
    obtain ⟨rfl, rfl, rfl⟩ := exec_done_iff.mp rest
    exact ⟨attacks, .inl ⟨code, valid, rfl, rfl⟩⟩
  | packets packets =>
    obtain ⟨length, unforged⟩ := valid
    obtain ⟨res, rfl⟩ := length_eq_one_iff.mp length
    obtain ⟨others, rfl, done⟩ := exec_note_iff.mp rest
    obtain ⟨rfl, rfl, rfl⟩ := exec_done_iff.mp done
    exact ⟨attacks, .inr ⟨res, unforged, _, rfl, rfl, rfl⟩⟩

theorem writePackets_bodies (writeCounter : UInt32) (buf : List RpmbData) (addr : UInt16) :
    (writePackets hmac key writeCounter buf addr).map RpmbPacket.body = writeBodies writeCounter
      buf addr := by
  have kept : ∀ (packets : List RpmbPacket) (index : Nat) (code : RpmbKey),
      (packets.modify index fun packet => { packet with keyMac := code }).map RpmbPacket.body =
        packets.map RpmbPacket.body := by
    intro packets
    induction packets with
    | nil => simp
    | cons packet rest ih =>
      intro index code
      cases index with
      | zero => simp
      | succ index => simp [ih]
  rw [writePackets, kept, map_map]
  exact map_id _

theorem learn_write (nonempty : buf ≠ []) (rescmd : List RpmbPacket) (sync : Bool) :
    world.learn ⟨writePackets hmac key writeCounter buf addr, rescmd, 1, sync⟩ =
      { world with requests := world.requests ++ [writeBodies writeCounter buf addr] } := by
  have someWrite : writePackets hmac key writeCounter buf addr ≠ [] := by
    intro empty
    have := congrArg (List.map RpmbPacket.body) empty
    rw [writePackets_bodies, writeBodies, map_nil, map_eq_nil_iff] at this
    exact nonempty this
  rw [RpmbWorld.learn, if_neg someWrite, writePackets_bodies]

theorem rpmbWriteData_exec {result : Int × RpmbState} (nonempty : buf ≠ [])
    (run : Exec (rpmbNetwork hmac key) world (rpmbWriteData hmac key state buf addr sync) result
      notes final) :
    Relation.ReflTransGen (RpmbAttack hmac key)
        { world with requests := world.requests ++ [writeBodies state.writeCounter buf addr] }
          final ∧
      ((result.1 < 0 ∧ (result.2 = state ∨ result.2 = ⟨0⟩) ∧ notes = [.signed state.writeCounter]) ∨
        ∃ res : RpmbPacket, Unforged hmac key final [res] ∧
          ¬ rpmbCheckResponse rpmbRespDataWrite (some (rpmbMac hmac key [res])) none
            (some addr) [res] < 0 ∧
          result = (0, ⟨state.writeCounter + 1⟩) ∧
          notes = [.signed state.writeCounter, .acknowledged res.body]) := by
  simp only [rpmbWriteData, exec_note_iff, exec_send_iff] at run
  obtain ⟨others, rfl, answer, middle, ⟨attacks, valid⟩, rest⟩ := run
  rw [learn_write nonempty] at attacks
  cases answer with
  | error code =>
    obtain ⟨rfl, rfl, rfl⟩ := exec_done_iff.mp rest
    exact ⟨attacks, .inl ⟨valid, .inl rfl, rfl⟩⟩
  | packets packets =>
    obtain ⟨length, unforged⟩ := valid
    obtain ⟨res, rfl⟩ := length_eq_one_iff.mp length
    simp only at rest
    split at rest
    case isTrue rejected =>
      split at rest
      · obtain ⟨rfl, rfl, rfl⟩ := exec_done_iff.mp rest
        exact ⟨attacks, .inl ⟨rejected, .inr rfl, rfl⟩⟩
      · obtain ⟨rfl, rfl, rfl⟩ := exec_done_iff.mp rest
        exact ⟨attacks, .inl ⟨rejected, .inl rfl, rfl⟩⟩
    case isFalse accepted =>
      obtain ⟨more, rfl, done⟩ := exec_note_iff.mp rest
      obtain ⟨rfl, rfl, rfl⟩ := exec_done_iff.mp done
      exact ⟨attacks, .inr ⟨res, unforged, accepted, rfl, rfl⟩⟩

/-- A run of `rpmb_write`: it fails to read the counter, or goes on with the one
it has or the one it read. -/
theorem rpmbWrite_exec {host : RpmbState} {ret : Int}
    (run : Exec (rpmbNetwork hmac key) world (rpmbWrite hmac key state buf addr sync)
      (ret, host) notes final) :
    (ret < 0 ∧ Relation.ReflTransGen (RpmbAttack hmac key) world final ∧
        ((host = ⟨0⟩ ∧ notes = []) ∨ notes = [.counterRejected host.writeCounter])) ∨
      ∃ counter before after middle, notes = before ++ after ∧
        Relation.ReflTransGen (RpmbAttack hmac key) world middle ∧
        Exec (rpmbNetwork hmac key) middle (rpmbWriteData hmac key ⟨counter⟩ buf addr sync)
        (ret, host) after
          final ∧
        ((counter = state.writeCounter ∧ counter ≠ 0 ∧ before = []) ∨
          ∃ nonce res, (rpmbNetwork hmac key).fresh world nonce ∧ Unforged hmac key middle [res] ∧
            ¬ rpmbCheckResponse rpmbRespGetCounter (some (rpmbMac hmac key [res]))
            (some nonce) none [res] < 0 ∧
            counter = rpmbGetU32 res.body.writeCounter ∧
            before = [.counterAccepted nonce counter]) := by
  unfold rpmbWrite at run
  by_cases unknown : state.writeCounter = 0
  · rw [if_pos unknown, exec_bind_iff] at run
    obtain ⟨⟨counterRet, counter⟩, before, middle, after, first, second, rfl⟩ := run
    simp only at second
    obtain ⟨nonce, fresh, attacks, outcome⟩ := rpmbReadCounter_exec first
    rcases outcome with ⟨code, negative, same, rfl⟩ | ⟨res, unforged, _, checked, same, rfl⟩
    · cases same
      rw [if_pos negative, exec_pure_iff] at second
      obtain ⟨same, rfl, rfl⟩ := second
      cases same
      exact .inl ⟨negative, attacks, .inl ⟨by rw [unknown], rfl⟩⟩
    cases same
    by_cases rejected : counterRet < 0
    · rw [if_pos rejected, exec_pure_iff] at second
      obtain ⟨same, rfl, rfl⟩ := second
      cases same
      exact .inl ⟨rejected, attacks, .inr (by rw [if_pos rejected]; rfl)⟩
    · rw [if_neg rejected] at second
      refine .inr ⟨_, _, after, middle, rfl, attacks, second,
        .inr ⟨nonce, res, fresh, unforged, ?_, rfl, ?_⟩⟩
      · rw [checked]
        exact rejected
      · rw [if_neg rejected]
  · rw [if_neg unknown] at run
    exact .inr ⟨state.writeCounter, [], notes, world, rfl, .refl, run, .inl ⟨rfl, unknown, rfl⟩⟩

end Calls

/-! ### Runs -/

section Runs

variable {hmac : Hmac} {key : RpmbKey} {world final : RpmbWorld} {notes : List RpmbNote}

variable {message : List RpmbBody} {body : RpmbBody} {buf : List RpmbData} {run : RpmbRun}

theorem IsWriteRequest.type (request : IsWriteRequest message) (mem : body ∈ message) :
    rpmbGetU16 body.reqResp = rpmbReqDataWrite := by
  obtain ⟨writeCounter, buf, addr, _, rfl⟩ := request
  obtain ⟨data, _, rfl⟩ := mem_map.mp mem
  exact rpmbGetU16_rpmbU16 _

/-- An authenticated message that has no packet of a write request is a response of the device. -/
theorem RpmbWorld.Sane.response (sane : world.Sane) (known : message ∈ world.authentic)
    (mem : body ∈ message) (notRequest : rpmbGetU16 body.reqResp ≠ rpmbReqDataWrite) :
    ∃ event ∈ world.log, event.response = message ∧
    event.responseType = rpmbGetU16 body.reqResp := by
  rcases mem_append.mp known with isRequest | isResponse
  · exact (notRequest ((sane.requests message isRequest).type mem)).elim
  · obtain ⟨event, inLog, rfl⟩ := mem_map.mp isResponse
    exact ⟨event, inLog, rfl, (event.response_type mem).symm⟩

theorem RpmbWorld.Sane.learn (sane : world.Sane) {writeCounter : UInt32} (addr : UInt16)
    (nonempty : buf ≠ []) :
    RpmbWorld.Sane { world with
      requests := world.requests ++ [writeBodies writeCounter buf addr] } := by
  refine ⟨?_, ?_, sane.counted, sane.sizes⟩
  · exact forall_mem_append.mpr
      ⟨sane.requests, forall_mem_singleton.mpr ⟨writeCounter, buf, addr, nonempty, rfl⟩⟩
  · intro device address request inLog
    obtain ⟨known, first⟩ := sane.writes device address request inLog
    exact ⟨mem_append_left _ known, first⟩

theorem rpmbWriteData_later {state : RpmbState} {addr : UInt16} {sync : Bool}
    {result : Int × RpmbState} (nonempty : buf ≠ [])
    (run : Exec (rpmbNetwork hmac key) world (rpmbWriteData hmac key state buf addr sync)
      result notes final)
    (sane : world.Sane) : final.Sane ∧ world.Later final := by
  obtain ⟨attacks, _⟩ := rpmbWriteData_exec nonempty run
  refine ⟨(sane.learn addr nonempty).attacks attacks, ?_⟩
  refine RpmbWorld.Later.trans ?_ (.of_attacks attacks)
  exact ⟨fun _ known => mem_append_left _ known, ⟨[], by simp⟩, Nat.le_refl _, rfl⟩

theorem RpmbStep.later {next : RpmbRun} (step : RpmbStep hmac key run next)
    (sane : run.world.Sane) :
    next.world.Sane ∧ run.world.Later next.world := by
  cases step with
  | attack attack => exact ⟨attack.sane sane, attack.later⟩
  | init => exact ⟨sane, .refl _⟩
  | read exec =>
    obtain ⟨nonce, _, rest⟩ := exec_draw_iff.mp exec
    obtain ⟨attacks, _⟩ := rpmbReadWith_exec rest
    exact ⟨sane.attacks attacks, .of_attacks attacks⟩
  | write nonempty _ exec =>
    rcases rpmbWrite_exec exec with
      ⟨_, attacks, _⟩ | ⟨counter, before, after, middle, _, attacks, rest, _⟩
    · exact ⟨sane.attacks attacks, .of_attacks attacks⟩
    · obtain ⟨finalSane, later⟩ := rpmbWriteData_later nonempty rest (sane.attacks attacks)
      exact ⟨finalSane, RpmbWorld.Later.trans (.of_attacks attacks) later⟩

theorem RpmbSteps.later {next : RpmbRun}
    (steps : Relation.ReflTransGen (RpmbStep hmac key) run next) (sane : run.world.Sane) :
    next.world.Sane ∧ run.world.Later next.world := by
  induction steps with
  | refl => exact ⟨sane, .refl _⟩
  | tail _ step ih =>
    obtain ⟨nextSane, later⟩ := step.later ih.1
    exact ⟨nextSane, ih.2.trans later⟩

theorem RpmbReachable.sane (reachable : RpmbReachable hmac key run) : run.world.Sane := by
  obtain ⟨device, steps⟩ := reachable
  refine (RpmbSteps.later steps ⟨?_, ?_, ?_, ?_⟩).1 <;> simp [RpmbRun.start]

end Runs

end Trusty.Storage
