import Mathlib.Data.UInt
import Trusty.Storage.RpmbAttacker

/-!
What the RPMB client guarantees against the non-secure side, and where it does
not.

A successful read and an accepted counter are answers of the device to the call,
because of the nonce.  The response to a write has no nonce, so an old one for the
same address passes.  A counter is stored before its response is checked, and an
out-of-range verdict is returned before it.
-/

namespace Trusty.Storage

open Lib Session List

section Answers

variable {hmac : Hmac} {key : RpmbKey} {world final : RpmbWorld} {notes : List RpmbNote}

variable {responseType : UInt16} {nonce : RpmbNonce} {addr : Option UInt16} {first : RpmbPacket}
  {rest : List RpmbPacket} {body : RpmbBody}

theorem accepted_authentic {nonce : Option RpmbNonce} {res : List RpmbPacket} (nonempty : res ≠ [])
    (unforged : Unforged hmac key world res)
    (accepted : ¬ rpmbCheckResponse responseType (some (rpmbMac hmac key res)) nonce addr res < 0) :
    res.map RpmbPacket.body ∈ world.authentic := by
  apply unforged.authentic
  obtain ⟨_, lastMac⟩ := rpmbCheckResponse_accepts accepted
  have isLast := List.getLast?_eq_some_getLast nonempty
  rw [isLast, Option.map_some]
  exact congrArg some (lastMac _ isLast _ rfl)

theorem accepted_response {nonce : Option RpmbNonce} (sane : world.Sane)
    (isResponse : responseType ≠ rpmbReqDataWrite)
    (unforged : Unforged hmac key world (first :: rest))
    (accepted :
      ¬ rpmbCheckResponse responseType (some (rpmbMac hmac key (first :: rest))) nonce addr
        (first :: rest) < 0) :
    ∃ event ∈ world.log, event.response = (first :: rest).map RpmbPacket.body ∧
      event.responseType = responseType := by
  have known := accepted_authentic (cons_ne_nil _ _) unforged accepted
  obtain ⟨fields, _⟩ := rpmbCheckResponse_accepts accepted
  have typed := (fields first mem_cons_self).type_eq
  have inside : first.body ∈ (first :: rest).map RpmbPacket.body := by simp
  obtain ⟨event, inLog, same, eventType⟩ := sane.response known inside (by rwa [typed])
  exact ⟨event, inLog, same, eventType.trans typed⟩

/-- A message with a fresh nonce was authenticated after the nonce was drawn. -/
theorem RpmbWorld.Later.new_event (later : world.Later final)
    (fresh : (rpmbNetwork hmac key).fresh world nonce) {event : RpmbEvent}
    (inLog : event ∈ final.log) (mem : body ∈ event.response) (sameNonce : body.nonce = nonce) :
    ∃ events, final.log = world.log ++ events ∧ event ∈ events := by
  obtain ⟨events, logEq, _⟩ := later.log
  refine ⟨events, logEq, ?_⟩
  rw [logEq] at inLog
  rcases mem_append.mp inLog with old | new
  · have known : event.response ∈ world.authentic :=
      mem_append_right _ (mem_map_of_mem old)
    exact (fresh _ known body mem sameNonce).elim
  · exact new

theorem read_response_ok {device : RpmbDevice} {address : UInt16} {count : Nat}
    (mem : body ∈ (RpmbEvent.read device nonce address count).response)
    (succeeded : rpmbGetU16 body.result = rpmbResOk) :
    address.toNat + count ≤ device.size ∧ body.nonce = nonce ∧ rpmbGetU16 body.address = address ∧
      (RpmbEvent.read device nonce address count).response.map RpmbBody.data =
        device.contents address count := by
  simp only [RpmbEvent.response] at mem ⊢
  by_cases outside : device.size < address.toNat + count
  · rw [if_pos outside] at mem
    rw [eq_of_mem_replicate mem, rpmbGetU16_rpmbU16] at succeeded
    cases succeeded
  rw [if_neg outside] at mem ⊢
  obtain ⟨data, _, rfl⟩ := mem_map.mp mem
  refine ⟨Nat.le_of_not_lt outside, rfl, rpmbGetU16_rpmbU16 _, ?_⟩
  rw [map_map]
  exact map_id _

theorem accepted_read {addr : UInt16} (sane : world.Sane)
    (unforged : Unforged hmac key world (first :: rest))
    (accepted : ¬ rpmbCheckResponse rpmbRespDataRead (some (rpmbMac hmac key (first :: rest)))
      (some nonce) (some addr) (first :: rest) < 0) :
    ∃ device, .read device nonce addr (rest.length + 1) ∈ world.log ∧
      (RpmbEvent.read device nonce addr (rest.length + 1)).response = (first :: rest).map
        RpmbPacket.body ∧
      addr.toNat + (rest.length + 1) ≤ device.size ∧
      (first :: rest).map (fun packet => packet.body.data) = device.contents addr
        (rest.length + 1) := by
  have isResponse : rpmbRespDataRead ≠ rpmbReqDataWrite := by decide
  obtain ⟨event, inLog, same, eventType⟩ := accepted_response sane isResponse unforged accepted
  cases event with
  | counter device other => cases eventType
  | write device address request result => cases eventType
  | read device other address size =>
    have inside : first.body ∈ (RpmbEvent.read device other address size).response := by
      rw [same]
      simp
    obtain ⟨fields, _⟩ := rpmbCheckResponse_accepts accepted
    have field := fields first mem_cons_self
    obtain ⟨range, sameNonce, sameAddress, contents⟩ := read_response_ok inside field.result_eq
    have nonceEq : other = nonce := sameNonce.symm.trans (field.nonce_eq nonce rfl)
    have addressEq : address = addr := sameAddress.symm.trans (field.addr_eq addr rfl)
    have sizeEq : size = rest.length + 1 := by
      have lengths := congrArg List.length contents
      rw [same, length_map, length_map, length_cons, RpmbDevice.contents, length_map,
        length_range] at lengths
      exact lengths.symm
    subst nonceEq addressEq sizeEq
    refine ⟨device, inLog, same, range, ?_⟩
    rw [← contents, same, map_map]
    rfl

end Answers

/-! ### Reads -/

section Reads

variable {hmac : Hmac} {key : RpmbKey}

/-- Data that `rpmb_read` returns are the contents of the device, answered to the
nonce of the call while the call was made. -/
theorem rpmbRead_authentic {run : RpmbRun} (reachable : RpmbReachable hmac key run)
    {addr count : UInt16} {nonce : RpmbNonce} (fresh : (rpmbNetwork hmac key).fresh run.world nonce)
    {buffer : Option (List RpmbData)} {notes : List RpmbNote} {world : RpmbWorld}
    (exec : Exec (rpmbNetwork hmac key) run.world (rpmbReadWith hmac key addr count nonce)
      (0, buffer) notes world) :
    ∃ data, buffer = some data ∧ data.length = count.toNat ∧
      (0 < count.toNat → ∃ events device, world.log = run.world.log ++ events ∧
        .read device nonce addr count.toNat ∈ events ∧ addr.toNat + count.toNat ≤ device.size ∧
        data = device.contents addr count.toNat) := by
  obtain ⟨attacks, -, ⟨code, negative, same⟩ | ⟨res, length, unforged, accepted, same⟩⟩ :=
    rpmbReadWith_exec exec
  · cases same
    exact (Int.lt_irrefl 0 negative).elim
  cases same
  refine ⟨_, rfl, by rw [length_map, length], ?_⟩
  intro positive
  cases res with
  | nil =>
    rw [← length] at positive
    exact (Nat.lt_irrefl 0 positive).elim
  | cons first rest =>
    obtain ⟨device, inLog, same, range, contents⟩ :=
      accepted_read (reachable.sane.attacks attacks) unforged accepted
    rw [length_cons] at length
    rw [length] at inLog same range contents
    have inside : first.body ∈ (RpmbEvent.read device nonce addr count.toNat).response := by
      rw [same]
      simp
    obtain ⟨fields, _⟩ := rpmbCheckResponse_accepts accepted
    have sameNonce := (fields first mem_cons_self).nonce_eq nonce rfl
    obtain ⟨events, logEq, isNew⟩ :=
      (RpmbWorld.Later.of_attacks attacks).new_event fresh inLog inside sameNonce
    exact ⟨events, device, logEq, isNew, range, contents⟩

def checksum : Hmac := fun key bytes => key.set 0 bytes.sum

def zeroKey : RpmbKey := Vector.replicate 32 0

def nonceOf (value : UInt8) : RpmbNonce := Vector.replicate 16 value

def numberedDevice (size : Nat) (counter : UInt32) : RpmbDevice :=
  ⟨size, counter, fun block => Vector.replicate 256 (UInt8.ofNat block)⟩

theorem rpmbRead_authentic_two_blocks :
    let run := RpmbRun.start (numberedDevice 4 7)
    ∃ buffer notes world, Exec (rpmbNetwork checksum zeroKey) run.world
        (rpmbReadWith checksum zeroKey 1 2 (nonceOf 9)) (0, buffer) notes world ∧
      ∃ data, buffer = some data ∧ data.length = 2 ∧ (0 < 2 → ∃ events device,
        world.log = run.world.log ++ events ∧ .read device (nonceOf 9) 1 2 ∈ events ∧
        1 + 2 ≤ device.size ∧
        data = device.contents 1 2) := by
  intro run
  have succeeds : ((rpmbPlay checksum zeroKey (rpmbReadWith checksum zeroKey 1 2 (nonceOf 9)) []
      [.honest checksum zeroKey] run.world).map fun outcome => outcome.1.1) = some 0 := by
    decide +kernel
  obtain ⟨⟨⟨ret, buffer⟩, notes, world⟩, played, rfl⟩ := Option.map_eq_some_iff.mp succeeds
  have exec := exec_of_rpmbPlay played
  have fresh : (rpmbNetwork checksum zeroKey).fresh run.world (nonceOf 9) := by
    intro message known
    cases known
  exact ⟨buffer, notes, world, exec, rpmbRead_authentic ⟨_, .refl⟩ fresh exec⟩

end Reads

/-! ### Writes -/

section Writes

variable {hmac : Hmac} {key : RpmbKey}

/-- Every write for the address that the client authenticated before has these
data or can no longer be executed. -/
def RpmbWorld.NoOtherWrite (world : RpmbWorld) (buf : List RpmbData) (addr : UInt16) : Prop :=
  ∀ request ∈ world.requests, ∀ first ∈ request.head?, rpmbGetU16 first.address = addr →
    request.map RpmbBody.data = buf ∨ rpmbGetU32 first.writeCounter < world.device.counter

theorem writeBodies_data (writeCounter : UInt32) (buf : List RpmbData) (addr : UInt16) :
    (writeBodies writeCounter buf addr).map RpmbBody.data = buf := by
  rw [writeBodies, map_map]
  exact map_id _

theorem accepted_write {world : RpmbWorld} {res : RpmbPacket} {addr : UInt16} (sane : world.Sane)
    (unforged : Unforged hmac key world [res])
    (accepted : ¬ rpmbCheckResponse rpmbRespDataWrite (some (rpmbMac hmac key [res])) none
      (some addr) [res] < 0) :
    ∃ device request, .write device addr request rpmbResOk ∈ world.log ∧
      (RpmbEvent.write device addr request rpmbResOk).response = [res.body] := by
  have isResponse : rpmbRespDataWrite ≠ rpmbReqDataWrite := by decide
  obtain ⟨event, inLog, same, eventType⟩ := accepted_response sane isResponse unforged accepted
  obtain ⟨fields, _⟩ := rpmbCheckResponse_accepts accepted
  have field := fields res mem_cons_self
  cases event with
  | counter device nonce => cases eventType
  | read device nonce address count => cases eventType
  | write device address request result =>
    have body : _ = res.body := singleton_inj.mp same
    have resultEq : result = rpmbResOk := by
      rw [← field.result_eq, ← body]
      exact (rpmbGetU16_rpmbU16 _).symm
    have addressEq : address = addr := by
      rw [← field.addr_eq addr rfl, ← body]
      exact (rpmbGetU16_rpmbU16 _).symm
    subst resultEq addressEq
    exact ⟨device, request, inLog, same⟩

/-- If the accepted response is not one from before the call and no other write
for the address is still open, then a write that returns 0 was executed by the
device during the call. -/
theorem rpmbWrite_executed {run : RpmbRun} (reachable : RpmbReachable hmac key run)
    {buf : List RpmbData} {addr : UInt16} {sync : Bool} {host : RpmbState} {notes : List RpmbNote}
    {world : RpmbWorld} (nonempty : buf ≠ [])
    (exec : Exec (rpmbNetwork hmac key) run.world (rpmbWrite hmac key run.host buf addr sync)
      (0, host) notes world)
    (notReplayed : ∀ response, .acknowledged response ∈ notes →
      ∀ event ∈ run.world.log, event.response ≠ [response])
    (noOther : run.world.NoOtherWrite buf addr) :
    ∃ events device request, world.log = run.world.log ++ events ∧
      .write device addr request rpmbResOk ∈ events ∧ request.map RpmbBody.data = buf := by
  have sane := reachable.sane
  rcases rpmbWrite_exec exec with
    ⟨negative, _⟩ | ⟨counter, before, after, middle, rfl, attacks, rest, _⟩
  · exact (Int.lt_irrefl 0 negative).elim
  obtain ⟨moreAttacks, outcome⟩ := rpmbWriteData_exec nonempty rest
  rcases outcome with ⟨negative, _⟩ | ⟨res, unforged, accepted, _, rfl⟩
  · exact (Int.lt_irrefl 0 negative).elim
  obtain ⟨finalSane, later⟩ := rpmbWriteData_later nonempty rest (sane.attacks attacks)
  have wholeLater := (RpmbWorld.Later.of_attacks attacks).trans later
  obtain ⟨device, request, inLog, response⟩ := accepted_write finalSane unforged accepted
  obtain ⟨events, logEq, bounds⟩ := wholeLater.log
  have isNew : .write device addr request rpmbResOk ∈ events := by
    rw [logEq] at inLog
    rcases mem_append.mp inLog with old | new
    · exact (notReplayed res.body (by simp) _ old response).elim
    · exact new
  refine ⟨events, device, request, logEq, isNew, ?_⟩
  obtain ⟨known, first, isFirst, addressEq, counterEq⟩ := finalSane.writes device addr request inLog
  rw [requests_of_attacks moreAttacks, requests_of_attacks attacks] at known
  rcases mem_append.mp known with old | new
  · rcases noOther request old first isFirst addressEq with same | used
    · exact same
    · -- the counter of the device never goes back
      obtain ⟨counterBound, _⟩ := bounds _ isNew
      rw [counterEq] at used
      exact (Nat.lt_irrefl _
        (Nat.lt_of_lt_of_le (UInt32.lt_iff_toNat_lt.mp used) counterBound)).elim
  · rw [mem_singleton.mp new, writeBodies_data]

/-- A write that can be played is a step. -/
theorem RpmbReachable.play {run : RpmbRun} (reachable : RpmbReachable hmac key run)
    {buf : List RpmbData} {addr : UInt16} {sync : Bool} {nonces : List RpmbNonce}
    {replies : List RpmbReply} {ret : Int} {host : RpmbState} {notes : List RpmbNote}
    {world : RpmbWorld} (nonempty : buf ≠ []) (bound : buf.length < 2 ^ 16)
    (played :
      rpmbPlay hmac key (rpmbWrite hmac key run.host buf addr sync) nonces replies run.world = some
        ((ret, host), notes, world)) :
    RpmbReachable hmac key ⟨host, world, run.history ++ notes⟩ := by
  obtain ⟨device, steps⟩ := reachable
  exact ⟨device, steps.tail (.write nonempty bound (exec_of_rpmbPlay played))⟩

theorem rpmbWrite_executed_first :
    let run := RpmbRun.start (numberedDevice 4 7)
    ∃ host notes world, Exec (rpmbNetwork checksum zeroKey) run.world
        (rpmbWrite checksum zeroKey run.host [Vector.replicate 256 1] 0 true)
        (0, host) notes world ∧
      ∃ events device request, world.log = run.world.log ++ events ∧
        .write device 0 request rpmbResOk ∈ events ∧
        request.map RpmbBody.data = [Vector.replicate 256 1] := by
  intro run
  have succeeds : ((rpmbPlay checksum zeroKey
      (rpmbWrite checksum zeroKey run.host [Vector.replicate 256 1] 0 true) [nonceOf 9]
      [.honest checksum zeroKey, .honest checksum zeroKey] run.world).map fun outcome =>
        outcome.1.1) =
        some 0 := by
    decide +kernel
  obtain ⟨⟨⟨ret, host⟩, notes, world⟩, played, rfl⟩ := Option.map_eq_some_iff.mp succeeds
  have exec := exec_of_rpmbPlay played
  refine ⟨host, notes, world, exec, rpmbWrite_executed ⟨_, .refl⟩ (cons_ne_nil _ _) exec ?_ ?_⟩
  · intro response _ event old
    cases old
  · intro request known
    cases known

/-- The response to the first write at an address passes for the response to the
second one, which never reaches the device. -/
theorem rpmbWrite_replayed :
    ∃ run buf addr sync host notes world, RpmbReachable checksum zeroKey run ∧ buf ≠ [] ∧
      Exec (rpmbNetwork checksum zeroKey) run.world
        (rpmbWrite checksum zeroKey run.host buf addr sync) (0, host) notes world ∧
      ¬ ∃ events device request, world.log = run.world.log ++ events ∧
        .write device addr request rpmbResOk ∈ events ∧ request.map RpmbBody.data = buf := by
  have succeeds :
      ((rpmbPlay checksum zeroKey (rpmbWrite checksum zeroKey ⟨0⟩ [Vector.replicate 256 1] 0 true)
        [nonceOf 9] [.honest checksum zeroKey, .honest checksum zeroKey]
        (RpmbRun.start (numberedDevice 4 7)).world).bind fun first =>
      (rpmbPlay checksum zeroKey
        (rpmbWrite checksum zeroKey first.1.2 [Vector.replicate 256 2] 0 true) []
        [.withheld (·.responseTo checksum zeroKey 1)] first.2.2).map fun second =>
          (second.1.1, first.2.2.log.length, second.2.2.log.length)) = some (0, 2, 2) := by
    decide +kernel
  obtain ⟨⟨⟨ret, host⟩, notes, world⟩, first, rest⟩ := Option.bind_eq_some_iff.mp succeeds
  obtain ⟨⟨⟨finalRet, finalHost⟩, finalNotes, final⟩, second, result⟩ :=
    Option.map_eq_some_iff.mp rest
  simp only [Prod.mk.injEq] at result
  obtain ⟨rfl, lengthBefore, lengthAfter⟩ := result
  have start : RpmbReachable checksum zeroKey (.start (numberedDevice 4 7)) := ⟨_, .refl⟩
  refine ⟨_, [Vector.replicate 256 2], 0, true, finalHost, finalNotes, final,
    start.play (cons_ne_nil _ _) (by decide) first, cons_ne_nil _ _, exec_of_rpmbPlay second, ?_⟩
  rintro ⟨events, device, request, logEq, executed, _⟩
  have lengths := congrArg List.length logEq
  rw [length_append, lengthBefore, lengthAfter] at lengths
  have empty : events = [] := eq_nil_of_length_eq_zero (Nat.add_left_cancel lengths).symm
  rw [empty] at executed
  cases executed

end Writes

/-! ### The write counter -/

section Counter

variable {hmac : Hmac} {key : RpmbKey}

def RpmbNote.acknowledgement : RpmbNote → Option RpmbBody
  | .acknowledged response => some response
  | _ => none

/-- The responses belong to writes of the device, with one counter after another. -/
def WritesFor (events : List RpmbEvent) (counter : UInt32) (responses : List RpmbBody) : Prop :=
  ∀ index response, responses[index]? = some response → ∃ device address request,
    .write device address request rpmbResOk ∈ events ∧
    device.counter.toNat = counter.toNat + index ∧
    (RpmbEvent.write device address request rpmbResOk).response = [response]

/-- The counter comes from the last counter response that was accepted in the past: one
of the device to a nonce that was fresh when the call was made.  It is advanced by one
for each write that was acknowledged since, and the device has executed as many writes
since, each with the counter of its acknowledgement. -/
def CounterSource (hmac : Hmac) (key : RpmbKey) (run : RpmbRun) (past : List RpmbNote)
    (counter : UInt32) : Prop :=
  ∃ earlier nonce device since events,
    RpmbReachable hmac key earlier ∧ Relation.ReflTransGen (RpmbStep hmac key) earlier run ∧
    (rpmbNetwork hmac key).fresh earlier.world nonce ∧
    run.world.log = earlier.world.log ++ events ∧ .counter device nonce ∈ events ∧
    past = earlier.history ++ .counterAccepted nonce device.counter :: since ∧
    (∀ other value, .counterAccepted other value ∉ since) ∧
    WritesFor events device.counter (since.filterMap RpmbNote.acknowledgement) ∧
    counter.toNat = device.counter.toNat + (since.filterMap RpmbNote.acknowledgement).length

/-- Whatever was signed had a counter from the given source. -/
def EachSigned (source : List RpmbNote → UInt32 → Prop) (history : List RpmbNote) : Prop :=
  ∀ before counter after, history = before ++ .signed counter :: after → source before counter

theorem eachSigned_snoc {source : List RpmbNote → UInt32 → Prop} {history : List RpmbNote}
    (old : EachSigned source history) (note : RpmbNote)
    (new : ∀ counter, note = .signed counter → source history counter) :
    EachSigned source (history ++ [note]) := by
  intro before counter after same
  rcases eq_nil_or_concat after with rfl | ⟨front, last, rfl⟩
  · obtain ⟨rfl, single⟩ := append_inj' same rfl
    exact new counter (singleton_inj.mp single)
  · rw [concat_eq_append, ← cons_append, ← append_assoc] at same
    obtain ⟨rfl, _⟩ := append_inj' same rfl
    exact old before counter front rfl

variable {run next : RpmbRun} {past notes : List RpmbNote} {counter : UInt32} {world : RpmbWorld}
  {addr : UInt16}

theorem CounterSource.step (source : CounterSource hmac key run past counter)
    (step : RpmbStep hmac key run next) (sane : run.world.Sane) :
    CounterSource hmac key next past counter := by
  obtain ⟨earlier, nonce, device, since, events, reachable, steps, fresh, logEq, inLog, pastEq,
    last, writes, counterEq⟩ := source
  obtain ⟨more, moreEq, _⟩ := (step.later sane).2.log
  refine ⟨earlier, nonce, device, since, events ++ more, reachable, steps.tail step, fresh, ?_,
    mem_append_left _ inLog, pastEq, last, ?_, counterEq⟩
  · rw [moreEq, logEq, append_assoc]
  · intro index response found
    obtain ⟨writer, address, request, inEvents, executed⟩ := writes index response found
    exact ⟨writer, address, request, mem_append_left _ inEvents, executed⟩

theorem CounterSource.snoc (source : CounterSource hmac key run past counter) (note : RpmbNote)
    (noCounter : ∀ other value, note ≠ .counterAccepted other value)
    (unacknowledged : note.acknowledgement = none) :
    CounterSource hmac key run (past ++ [note]) counter := by
  obtain ⟨earlier, nonce, device, since, events, reachable, steps, fresh, logEq, inLog, rfl, last,
    writes, counterEq⟩ := source
  have same : (since ++ [note]).filterMap RpmbNote.acknowledgement =
      since.filterMap RpmbNote.acknowledgement := by
    simp [unacknowledged]
  refine ⟨earlier, nonce, device, since ++ [note], events, reachable, steps, fresh, logEq, inLog,
    by simp, ?_, same ▸ writes, same ▸ counterEq⟩
  exact fun other value mem => (mem_append.mp mem).elim (last other value) fun new =>
    noCounter other value (mem_singleton.mp new).symm

/-- A write with the counter is acknowledged. -/
theorem CounterSource.acknowledge (source : CounterSource hmac key run past counter)
    {device : RpmbDevice} {request : List RpmbBody} {response : RpmbBody}
    (executed : .write device addr request rpmbResOk ∈ run.world.log)
    (same : (RpmbEvent.write device addr request rpmbResOk).response = [response])
    (current : rpmbGetU32 response.writeCounter = counter + 1) :
    CounterSource hmac key run (past ++ [.acknowledged response]) (counter + 1) := by
  obtain ⟨earlier, nonce, origin, since, events, reachable, steps, fresh, logEq, inLog, rfl, last,
    writes, counterEq⟩ := source
  obtain ⟨sane, later⟩ := RpmbSteps.later steps reachable.sane
  have deviceCounter : device.counter = counter := by
    have field := congrArg (List.map RpmbBody.writeCounter) same
    simp only [RpmbEvent.response, map_cons, map_nil, if_true, cons.injEq, and_true] at field
    rw [← field, rpmbGetU32_rpmbU32] at current
    simpa using current
  subst deviceCounter
  have bounds :
      ∀ event ∈ events, earlier.world.device.counter.toNat ≤ event.device.counter.toNat := by
    obtain ⟨others, otherEq, bounds⟩ := later.log
    rw [logEq, append_cancel_left_eq] at otherEq
    exact fun event mem => (bounds event (otherEq ▸ mem)).1
  have isNew : .write device addr request rpmbResOk ∈ events := by
    rw [logEq] at executed
    refine (mem_append.mp executed).resolve_left fun old => ?_
    have before := reachable.sane.counted device addr request old
    have := bounds _ inLog
    simp only [RpmbEvent.device] at this
    omega
  have filtered : (since ++ [RpmbNote.acknowledged response]).filterMap RpmbNote.acknowledgement =
      since.filterMap RpmbNote.acknowledgement ++ [response] := by
    simp [RpmbNote.acknowledgement]
  refine ⟨earlier, nonce, origin, since ++ [.acknowledged response], events, reachable, steps,
    fresh, logEq, inLog, by simp, ?_, ?_, ?_⟩
  · simpa using last
  · rw [filtered]
    intro index other found
    rw [getElem?_append] at found
    split at found
    · exact writes index other found
    · rw [getElem?_singleton] at found
      split at found <;> cases found
      exact ⟨device, addr, request, isNew, by omega, same⟩
  · have small := sane.counted device addr request executed
    have limit := run.world.device.counter.toNat_lt
    rw [filtered, length_append, length_singleton, UInt32.toNat_add, UInt32.toNat_one]
    omega

theorem accepted_counter {res : RpmbPacket} {nonce : RpmbNonce} (sane : world.Sane)
    (unforged : Unforged hmac key world [res])
    (accepted : ¬ rpmbCheckResponse rpmbRespGetCounter (some (rpmbMac hmac key [res]))
      (some nonce) none [res] < 0) : ∃ device, .counter device nonce ∈ world.log ∧
      rpmbGetU32 res.body.writeCounter = device.counter := by
  have isResponse : rpmbRespGetCounter ≠ rpmbReqDataWrite := by decide
  obtain ⟨event, inLog, same, eventType⟩ := accepted_response sane isResponse unforged accepted
  obtain ⟨fields, _⟩ := rpmbCheckResponse_accepts accepted
  have sameNonce := (fields res mem_cons_self).nonce_eq nonce rfl
  cases event with
  | read device other address count => cases eventType
  | write device address request result => cases eventType
  | counter device other =>
    have body : _ = res.body := singleton_inj.mp same
    rw [← body] at sameNonce
    change other = nonce at sameNonce
    subst sameNonce
    refine ⟨device, inLog, ?_⟩
    rw [← body]
    exact rpmbGetU32_rpmbU32 _

/-- What has been signed and what is about to be. -/
structure CounterKept (hmac : Hmac) (key : RpmbKey) (run : RpmbRun) : Prop where
  signed : EachSigned (CounterSource hmac key run) run.history
  host : run.host.writeCounter = 0 ∨ CounterSource hmac key run run.history run.host.writeCounter

/-- Rejected counter responses carry 0, and every response to a write that is accepted
carries the counter of the packet that was signed before it, plus one. -/
structure CleanHistory (history : List RpmbNote) : Prop where
  rejected : ∀ counter, .counterRejected counter ∈ history → counter = 0
  acknowledged : ∀ before counter response after,
    history = before ++ .signed counter :: .acknowledged response :: after →
    rpmbGetU32 response.writeCounter = counter + 1

theorem CleanHistory.left (clean : CleanHistory (past ++ notes)) : CleanHistory past where
  rejected counter mem := clean.rejected counter (mem_append_left _ mem)
  acknowledged before counter response after same :=
    clean.acknowledged before counter response (after ++ notes) (by simp [same])

theorem CounterKept.write {host : RpmbState} {buf : List RpmbData} {sync : Bool} {ret : Int}
    (kept : CounterKept hmac key run) (reachable : RpmbReachable hmac key run) (nonempty : buf ≠ [])
    (bound : buf.length < 2 ^ 16)
    (exec : Exec (rpmbNetwork hmac key) run.world (rpmbWrite hmac key run.host buf addr sync)
      (ret, host) notes world) (clean : CleanHistory (run.history ++ notes)) :
    CounterKept hmac key ⟨host, world, run.history ++ notes⟩ := by
  have step : RpmbStep hmac key run ⟨host, world, run.history ++ notes⟩ :=
    .write nonempty bound exec
  have sane := reachable.sane
  have old : EachSigned (CounterSource hmac key ⟨host, world, run.history ++ notes⟩) run.history :=
    fun before counter after same => (kept.signed before counter after same).step step sane
  rcases rpmbWrite_exec exec with ⟨_, _, ⟨rfl, rfl⟩ | rfl⟩ |
    ⟨counter, before, after, middle, rfl, attacks, rest, counterEq⟩
  · rw [append_nil] at old ⊢
    exact ⟨old, .inl rfl⟩
  · refine ⟨eachSigned_snoc old _ (fun _ contra => by cases contra), .inl ?_⟩
    exact clean.rejected _ (by simp)
  -- the counter that is signed is known before the packet is sent
  have known : EachSigned (CounterSource hmac key ⟨host, world, run.history ++ (before ++ after)⟩)
        (run.history ++ before) ∧
      CounterSource hmac key ⟨host, world, run.history ++ (before ++ after)⟩ (run.history ++ before)
        counter := by
    rcases counterEq with ⟨rfl, nonzero, rfl⟩ | ⟨nonce, res, fresh, unforged, accepted, rfl, rfl⟩
    · rw [append_nil]
      exact ⟨old, (kept.host.resolve_left nonzero).step step sane⟩
    refine ⟨eachSigned_snoc old _ (fun _ contra => by cases contra), ?_⟩
    obtain ⟨device, inLog, counterEq⟩ := accepted_counter (sane.attacks attacks) unforged accepted
    obtain ⟨more, moreEq, _⟩ := (rpmbWriteData_later nonempty rest (sane.attacks attacks)).2.log
    have inFinal : .counter device nonce ∈ world.log := by
      rw [moreEq]
      exact mem_append_left _ inLog
    obtain ⟨events, logEq, isNew⟩ :=
      (step.later sane).2.new_event fresh inFinal (mem_singleton.mpr rfl) rfl
    rw [counterEq] at step ⊢
    exact ⟨run, nonce, device, [], events, reachable, .single step, fresh, logEq, isNew, rfl,
      by simp, by simp [WritesFor], rfl⟩
  obtain ⟨signed, source⟩ := known
  have signedHere :=
    eachSigned_snoc signed (.signed counter) (fun _ same => by cases same; exact source)
  have sourceHere := source.snoc (.signed counter) (fun _ _ contra => by cases contra) rfl
  rw [append_assoc] at signedHere sourceHere
  obtain ⟨_, outcome⟩ := rpmbWriteData_exec nonempty rest
  rcases outcome with ⟨_, rfl | rfl, rfl⟩ | ⟨res, unforged, accepted, result, rfl⟩
  · exact ⟨signedHere, .inr sourceHere⟩
  · exact ⟨signedHere, .inl rfl⟩
  cases result
  have signedAfter := eachSigned_snoc signedHere (.acknowledged res.body)
    (fun _ contra => by cases contra)
  obtain ⟨device, request, executed, response⟩ :=
    accepted_write (step.later sane).1 unforged accepted
  have current := clean.acknowledged (run.history ++ before) counter res.body [] (by simp)
  have sourceAfter := sourceHere.acknowledge executed response current
  simp only [append_assoc] at signedAfter sourceAfter
  exact ⟨signedAfter, .inr sourceAfter⟩

theorem CounterKept.step (kept : CounterKept hmac key run) (reachable : RpmbReachable hmac key run)
    (step : RpmbStep hmac key run next) (clean : CleanHistory next.history) :
    CounterKept hmac key next := by
  have sane := reachable.sane
  have old : EachSigned (CounterSource hmac key next) run.history :=
    fun before counter after same => (kept.signed before counter after same).step step sane
  have host : run.host.writeCounter = 0 ∨
      CounterSource hmac key next run.history run.host.writeCounter :=
    kept.host.imp_right fun source => source.step step sane
  cases step with
  | attack attack => exact ⟨old, host⟩
  | init => exact ⟨old, .inl rfl⟩
  | read exec =>
    obtain ⟨nonce, _, rest⟩ := exec_draw_iff.mp exec
    obtain ⟨_, rfl, _⟩ := rpmbReadWith_exec rest
    rw [append_nil] at old host ⊢
    exact ⟨old, host⟩
  | write nonempty bound exec => exact kept.write reachable nonempty bound exec clean

theorem RpmbStep.history (step : RpmbStep hmac key run next) :
    ∃ notes, next.history = run.history ++ notes := by
  cases step with
  | attack => exact ⟨[], (append_nil _).symm⟩
  | init => exact ⟨[], (append_nil _).symm⟩
  | read => exact ⟨_, rfl⟩
  | write => exact ⟨_, rfl⟩

/-- In a run with a clean history, the counter of every packet that was signed has its
source. -/
theorem rpmbWrite_counter_source {run : RpmbRun} (reachable : RpmbReachable hmac key run)
    (clean : CleanHistory run.history) :
    EachSigned (CounterSource hmac key run) run.history := by
  obtain ⟨device, steps⟩ := reachable
  suffices kept : CounterKept hmac key run from kept.signed
  induction steps with
  | refl =>
    refine ⟨?_, .inl rfl⟩
    intro before counter after same
    cases before <;> cases same
  | tail before step ih =>
    obtain ⟨notes, historyEq⟩ := step.history
    exact (ih (historyEq ▸ clean).left).step ⟨device, before⟩ step clean

/-- The counter 7 is read and advanced by one write. -/
theorem rpmbWrite_counter_source_first :
    ∃ run, RpmbReachable checksum zeroKey run ∧ .signed 8 ∈ run.history ∧
      EachSigned (CounterSource checksum zeroKey run) run.history := by
  have succeeds :
      ((rpmbPlay checksum zeroKey (rpmbWrite checksum zeroKey ⟨0⟩ [Vector.replicate 256 1] 0 true)
        [nonceOf 9] [.honest checksum zeroKey, .honest checksum zeroKey]
        (RpmbRun.start (numberedDevice 4 7)).world).bind fun first =>
      (rpmbPlay checksum zeroKey
        (rpmbWrite checksum zeroKey first.1.2 [Vector.replicate 256 2] 0 true) []
        [.withheld fun _ => .error (-1)] first.2.2).map fun second => (first.2.1, second.2.1)) =
          some ([.counterAccepted (nonceOf 9) 7, .signed 7, .acknowledged { RpmbBody.zero with
            writeCounter := rpmbU32 8
            reqResp := rpmbU16 rpmbRespDataWrite }], [.signed 8]) := by
    decide +kernel
  obtain ⟨⟨⟨ret, host⟩, notes, world⟩, first, rest⟩ := Option.bind_eq_some_iff.mp succeeds
  obtain ⟨⟨⟨finalRet, finalHost⟩, finalNotes, final⟩, second, result⟩ :=
    Option.map_eq_some_iff.mp rest
  obtain ⟨rfl, rfl⟩ := result
  have start : RpmbReachable checksum zeroKey (.start (numberedDevice 4 7)) := ⟨_, .refl⟩
  have middle := start.play (cons_ne_nil _ _) (by decide) first
  have reachable := middle.play (cons_ne_nil _ _) (by decide) second
  refine ⟨_, reachable, by simp, rpmbWrite_counter_source reachable ⟨by simp [RpmbRun.start], ?_⟩⟩
  rintro (_ | ⟨_, _ | ⟨_, _ | ⟨_, before⟩⟩⟩) counter response after same
  · cases same
  · cases same
    exact rpmbGetU32_rpmbU32 _
  · cases same
  · have sizes := congrArg length same
    simp only [RpmbRun.start, length_append, length_cons, length_nil] at sizes
    omega

/-- A response without a valid code that claims the given counter. -/
def forgedCounter (counter : UInt32) : RpmbReply :=
  .withheld fun _ => .packets [⟨Vector.replicate 32 1, { RpmbBody.zero with
    writeCounter := rpmbU32 counter
    reqResp := rpmbU16 rpmbRespGetCounter }⟩]

/-- The counter of a rejected response is used for the next packet. -/
theorem rpmbWrite_counter_chosen :
    ∃ run, RpmbReachable checksum zeroKey run ∧
    run.history = [.counterRejected 1234, .signed 1234] ∧
      ¬ EachSigned (CounterSource checksum zeroKey run) run.history := by
  have succeeds :
      ((rpmbPlay checksum zeroKey (rpmbWrite checksum zeroKey ⟨0⟩ [Vector.replicate 256 1] 0 true)
        [nonceOf 9] [forgedCounter 1234] (RpmbRun.start (numberedDevice 4 7)).world).bind
        fun first =>
      (rpmbPlay checksum zeroKey
        (rpmbWrite checksum zeroKey first.1.2 [Vector.replicate 256 1] 0 true) []
        [.withheld fun _ => .error (-1)] first.2.2).map fun second => (first.2.1, second.2.1)) =
          some ([.counterRejected 1234], [.signed 1234]) := by
    decide +kernel
  obtain ⟨⟨⟨ret, host⟩, notes, world⟩, first, rest⟩ := Option.bind_eq_some_iff.mp succeeds
  obtain ⟨⟨⟨finalRet, finalHost⟩, finalNotes, final⟩, second, result⟩ :=
    Option.map_eq_some_iff.mp rest
  obtain ⟨rfl, rfl⟩ := result
  have start : RpmbReachable checksum zeroKey (.start (numberedDevice 4 7)) := ⟨_, .refl⟩
  have middle := start.play (cons_ne_nil _ _) (by decide) first
  refine ⟨_, middle.play (cons_ne_nil _ _) (by decide) second, rfl, ?_⟩
  intro each
  obtain ⟨earlier, nonce, device, since, _, _, _, _, _, _, past, _⟩ :=
    each [.counterRejected 1234] 1234 [] rfl
  have accepted : .counterAccepted nonce device.counter ∈ [RpmbNote.counterRejected 1234] := by
    rw [past]
    simp
  simp at accepted

end Counter

end Trusty.Storage
