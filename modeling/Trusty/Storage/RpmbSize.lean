import Trusty.Storage.RpmbSearch

/-!
The search for the size of the device under attack.

Data are only accepted with a code of the device, but the verdict that a block is out
of range is taken from any answer.  The search is right exactly if such verdicts are
true, or about block 0 of a device that has others.
-/

namespace Trusty.Storage

open Lib Session List

/-- The answer says that a block is out of range: a packet with the verdict of the
device, whatever its code and nonce, or an error of the transport that looks like it. -/
def RpmbAnswer.OutOfRange : RpmbAnswer → Prop
  | .error code => code = -enoent
  | .packets res => ∃ packet ∈ res, rpmbGetU16 packet.body.reqResp = rpmbRespDataRead ∧
      rpmbGetU16 packet.body.result = rpmbResAddrFailure

/-- The channel, if only some blocks are said to be out of range. -/
def sayingNetwork (hmac : Hmac) (key : RpmbKey) (said : UInt16 → Prop) :
    Network RpmbWorld RpmbNonce RpmbCommand RpmbAnswer where
  fresh := (rpmbNetwork hmac key).fresh
  exchange world command answer final :=
    (rpmbNetwork hmac key).exchange world command answer final ∧
      (answer.OutOfRange → ∀ request ∈ command.write, said (rpmbGetU16 request.body.address))

section Probe

variable {hmac : Hmac} {key : RpmbKey} {said : UInt16 → Prop}

theorem rpmbCheckResponse_addrFailure {responseType : UInt16} {mac : Option RpmbKey}
    {nonce : Option RpmbNonce} {addr : Option UInt16} {res : List RpmbPacket}
    (refused : rpmbCheckResponse responseType mac nonce addr res = -enoent) :
    ∃ packet ∈ res, rpmbGetU16 packet.body.reqResp = responseType ∧
      rpmbGetU16 packet.body.result = rpmbResAddrFailure := by
  have ne : (0 : Int) ≠ -enoent ∧ (-1 : Int) ≠ -enoent := by decide
  induction res with
  | nil => exact absurd refused ne.1
  | cons packet rest ih =>
    unfold rpmbCheckResponse at refused
    by_cases badType : rpmbGetU16 packet.body.reqResp ≠ responseType
    · rw [if_pos badType] at refused
      exact absurd refused ne.2
    rw [if_neg badType] at refused
    by_cases isAddr : rpmbGetU16 packet.body.result = rpmbResAddrFailure
    · exact ⟨packet, mem_cons_self, not_not.mp badType, isAddr⟩
    simp only [isAddr, if_false] at refused
    split_ifs at refused
    case neg =>
      obtain ⟨other, inside, refusing⟩ := ih refused
      exact ⟨other, mem_cons_of_mem _ inside, refusing⟩
    all_goals exact absurd refused ne.2

theorem sayingNetwork_probes {size : Nat}
    (right : ∀ block, said block → size ≤ block.toNat ∨ block = 0 ∧ 1 < size) :
    SoundProbes hmac key (sayingNetwork hmac key said) size fun world => world.Sane ∧
    world.device.size = size := by
  rintro world block ret notes final ⟨sane, rfl⟩ probe
  obtain ⟨nonce, answer, -, ⟨⟨attacks, valid⟩, limited⟩, rfl, -⟩ := exec_rpmbCheck_iff.mp probe
  have finalSane := sane.attacks attacks
  have sizeEq : final.device.size = world.device.size := (RpmbWorld.Later.of_attacks attacks).size
  have verdict : answer.OutOfRange → said block := by
    intro missing
    have about := limited missing _ mem_cons_self
    rwa [rpmbGetU16_rpmbU16] at about
  refine ⟨⟨finalSane, sizeEq⟩, fun isZero => ?_, fun missing => right block (verdict ?_)⟩
  · cases answer with
    | error code =>
      change code < 0 at valid
      exact absurd isZero valid.ne
    | packets res =>
      obtain ⟨packet, rfl⟩ := length_eq_one_iff.mp valid.1
      have accepted := Int.not_lt.mpr (min_eq_left_iff.mp isZero)
      obtain ⟨device, inLog, -, range, -⟩ := accepted_read finalSane valid.2 accepted
      have deviceSize : device.size = world.device.size := (finalSane.sizes _ inLog).trans sizeEq
      rw [deviceSize] at range
      exact range
  · cases answer with
    | error code => exact missing
    | packets res =>
      obtain ⟨contra, -⟩ | ⟨refused, -⟩ := min_eq_iff.mp missing
      · exact absurd contra (by decide)
      · exact rpmbCheckResponse_addrFailure refused

end Probe

/-! ### Attacks -/

section Attack

variable {said : UInt16 → Prop} {key : RpmbKey} {world : RpmbWorld}

/-- The answer to a probe is an error of the transport that looks like the verdict. -/
theorem exec_rpmbCheck_missing {hmac : Hmac} {block : UInt16} (fresh : world.authentic = [])
    (missing : said block) :
    Exec (sayingNetwork hmac key said) world (rpmbCheck hmac key block) (-enoent) [] world := by
  refine exec_rpmbCheck_iff.mpr ⟨nonceOf 0, .error (-enoent), ?_, ⟨⟨.refl, ?_⟩, ?_⟩, rfl, rfl⟩
  · intro message known
    rw [fresh] at known
    cases known
  · exact (by decide : -enoent < 0)
  · intro _ request known
    rw [mem_singleton.mp known, rpmbGetU16_rpmbU16]
    exact missing

/-- If every block is said to be out of range, the search goes on until the fuel is gone. -/
theorem exists_searchLoop_outOfFuel {hmac : Hmac} (fresh : world.authentic = [])
    (all : ∀ block, said block) (fuel : Nat) (high curr hint : UInt16) :
    ∃ notes, Exec (sayingNetwork hmac key said) world
      (rpmbSearchLoop hmac key fuel 0 high curr hint) .outOfFuel notes
      world := by
  have order : (0 : UInt32) ≤ high.toUInt32 := UInt32.zero_le
  induction fuel generalizing high curr hint with
  | zero =>
    unfold rpmbSearchLoop
    rw [if_pos order]
    exact ⟨[], .done⟩
  | succ fuel ih =>
    unfold rpmbSearchLoop
    rw [if_pos order]
    obtain ⟨notes, rest⟩ := ih (curr - 1) (0 + ((curr - 1).toUInt32 - 0) / 2).toUInt16
      (0 + ((curr - 1).toUInt32 - 0) / 2).toUInt16 UInt32.zero_le
    refine ⟨_,
      exec_bind_iff.mpr
      ⟨-enoent, [], world, notes, exec_rpmbCheck_missing fresh (all curr), ?_, rfl⟩⟩
    have nonzero : -enoent ≠ 0 := by decide
    simp only [nonzero, ne_eq, not_false_eq_true, not_true_eq_false, and_false, true_or,
      if_true, if_false]
    exact rest

/-- The nonces of all messages that someone with the key has authenticated. -/
def RpmbWorld.nonces (world : RpmbWorld) :
    List RpmbNonce := world.authentic.flatten.map RpmbBody.nonce

def nonceAt (index : Nat) : RpmbNonce :=
  (nonceOf (UInt8.ofNat index)).set 0 (UInt8.ofNat (index / 256))

theorem exists_nonce {used : List RpmbNonce} (few : used.length < 2 ^ 16) :
    ∃ nonce, nonce ∉ used := by
  by_contra all
  push Not at all
  have nodup : ((range (2 ^ 16)).map nonceAt).Nodup := by
    refine nodup_range.map_on ?_
    intro first firstSmall second secondSmall same
    rw [mem_range] at firstSmall secondSmall
    have low := congrArg (fun nonce : RpmbNonce => (nonce[1]).toNat) same
    have high := congrArg (fun nonce : RpmbNonce => (nonce[0]).toNat) same
    simp [nonceAt, nonceOf] at low high
    omega
  have bounded := (nodup.subperm fun nonce _ => all nonce).length_le
  rw [length_map, length_range] at bounded
  omega

/-- Codes that no packet without a code has by chance. -/
def oneMac : Hmac := fun _ _ => Vector.replicate 32 1

/-- The device answers a probe of a block that it has. -/
theorem exists_rpmbCheck_found (said : UInt16 → Prop) (key : RpmbKey) {block : UInt16}
    (inside : block.toNat < world.device.size) (few : world.nonces.length < 2 ^ 16) :
    ∃ final, Exec (sayingNetwork oneMac key said) world (rpmbCheck oneMac key block) 0 [] final ∧
      final.device = world.device ∧ final.nonces.length = world.nonces.length + 1 := by
  obtain ⟨nonce, unused⟩ := exists_nonce few
  let final : RpmbWorld := { world with log := world.log ++ [.read world.device nonce block 1] }
  have attack : RpmbAttack oneMac key world final := by
    have isRead : rpmbReqDataRead ≠ rpmbReqGetCounter := by decide
    refine @RpmbAttack.request oneMac key world (probeCommand nonce block).write 1 _ _ ?_ ?_
    · have differ : (Vector.replicate 32 0 : RpmbKey) ≠ Vector.replicate 32 1 := by decide
      exact fun codes => absurd (Option.some.inj codes) differ
    · simp only [probeCommand, RpmbDevice.handle, rpmbGetU16_rpmbU16, isRead, if_false, if_true]
  have response : (RpmbEvent.read world.device nonce block 1).response =
      [{ RpmbBody.zero with
          data := world.device.memory block.toNat
          nonce := nonce
          address := rpmbU16 block
          blockCount := rpmbU16 1
          reqResp := rpmbU16 rpmbRespDataRead }] := by
    simp [RpmbEvent.response, RpmbDevice.contents, Nat.not_lt.mpr (Nat.succ_le_of_lt inside)]
  refine ⟨final,
    exec_rpmbCheck_iff.mpr ⟨nonce, .packets (probeResponse oneMac key world.device nonce block), ?_,
    ⟨⟨.single attack, ?_, ?_⟩, ?_⟩, ?_, rfl⟩, rfl, ?_⟩
  · intro message known body inside same
    exact unused (same ▸ mem_map_of_mem (mem_flatten_of_mem known inside))
  · simp [probeResponse, authenticate, response, probeCommand]
  · intro _
    refine mem_map_of_mem
      (mem_append_right _ (mem_map.mpr ⟨_, mem_append_right _ mem_cons_self, ?_⟩))
    rw [probeResponse, authenticate, map_map]
    exact (map_id _).symm
  · rintro ⟨packet, known, -, refused⟩
    simp only [probeResponse, authenticate, response, map_cons, map_nil, mem_singleton] at known
    rw [known] at refused
    change rpmbGetU16 RpmbBody.zero.result = rpmbResAddrFailure at refused
    exact absurd refused (by decide)
  · rw [probeResult_probeResponse, if_pos inside]
  · simp [RpmbWorld.nonces, RpmbWorld.authentic, final, response]
    omega

/-- If the only false verdict is about the first block that is probed, and the others are
answered by the device, the search returns that block as the size. -/
theorem exists_searchLoop_found (said : UInt16 → Prop) (key : RpmbKey) (fuel : Nat)
    (hint : UInt16) {size : Nat} {low : UInt32} {high curr : UInt16}
    (bounds : SearchBounds size low high curr) (top : high.toNat + 1 = size)
    (inside : size ≤ world.device.size) (enough : high.toNat + 1 - low.toNat ≤ fuel)
    (few : world.nonces.length + (high.toNat + 1 - low.toNat) < 2 ^ 16) :
    ∃ notes final, Exec (sayingNetwork oneMac key said) world
      (rpmbSearchLoop oneMac key fuel low high curr hint) (.size (UInt32.ofNat size))
        notes final := by
  induction fuel generalizing low curr hint world with
  | zero =>
    have crossed : ¬ low ≤ high.toUInt32 := by
      rw [UInt32.le_iff_toNat_le, UInt16.toNat_toUInt32]
      omega
    rw [bounds.searchLoop_crossed crossed]
    exact ⟨_, _, .done⟩
  | succ fuel ih =>
    by_cases order : low ≤ high.toUInt32
    case neg =>
      rw [bounds.searchLoop_crossed order]
      exact ⟨_, _, .done⟩
    rw [rpmbSearchLoop, if_pos order]
    obtain ⟨aboveLow, belowHigh⟩ := bounds.probe order
    have exists_ : curr.toNat < world.device.size := by omega
    obtain ⟨middle, probe, sameDevice, more⟩ := exists_rpmbCheck_found said key exists_ (by omega)
    obtain ⟨nextEq, middleBounds, stepBounds⟩ := bounds.found (by omega)
    rw [← sameDevice] at inside
    have first : ∃ notes final, Exec (sayingNetwork oneMac key said) middle
        (if (0 : Int) ≠ 0 ∨ curr ≠ hint then
          rpmbSearchLoop oneMac key fuel (curr.toUInt32 + 1) high
            (curr.toUInt32 + 1 + (high.toUInt32 - (curr.toUInt32 + 1)) / 2).toUInt16
            (curr.toUInt32 + 1 + (high.toUInt32 - (curr.toUInt32 + 1)) / 2).toUInt16
        else rpmbSearchLoop oneMac key fuel (curr.toUInt32 + 1) high (curr + 1) hint)
        (.size (UInt32.ofNat size)) notes final := by
      split
      · exact ih _ middleBounds inside (by omega) (by omega)
      · exact ih _ stepBounds inside (by omega) (by omega)
    obtain ⟨notes, final, rest⟩ := first
    exact ⟨_, final, exec_bind_iff.mpr ⟨0, [], middle, notes, probe, rest, rfl⟩⟩

/-- A false verdict about the first block that is probed. -/
theorem exists_searchSize_short (said : UInt16 → Prop) {block : UInt16}
    (fresh : world.authentic = []) (positive : 0 < block.toNat)
    (inside : block.toNat < world.device.size) (missing : said block) (fuel : Nat)
    (enough : block.toNat ≤ fuel) :
    ∃ notes final, Exec (sayingNetwork oneMac key said) world
      (rpmbSearchSize oneMac key (fuel + 1) (block + 1)) (.size (UInt32.ofNat block.toNat))
        notes final := by
  have one : 1 ≤ block := positive
  have previous : (block - 1).toNat + 1 = block.toNat := by
    rw [UInt16.toNat_sub_of_le _ _ one]
    exact Nat.sub_add_cancel positive
  have noNonces : world.nonces.length = 0 := by simp [RpmbWorld.nonces, fresh]
  have bounds :
      SearchBounds block.toNat 0 (block - 1) (0 + ((block - 1).toUInt32 - 0) / 2).toUInt16 :=
    .midpoint (Nat.zero_le _) previous.ge
  have below := block.toNat_lt
  obtain ⟨notes, final, rest⟩ :=
    exists_searchLoop_found said key fuel (0 + ((block - 1).toUInt32 - 0) / 2).toUInt16 bounds
      previous inside.le (by omega) (by omega)
  have first : block + 1 - 1 = block := by simp
  have nonzero : -enoent ≠ 0 := by decide
  refine ⟨notes, final, ?_⟩
  rw [rpmbSearchSize, first, rpmbSearchLoop, if_pos UInt32.zero_le]
  refine exec_bind_iff.mpr
    ⟨-enoent, [], world, notes, exec_rpmbCheck_missing fresh missing, ?_, rfl⟩
  simp only [nonzero, ne_eq, not_false_eq_true, not_true_eq_false, and_false, true_or,
    if_true, if_false]
  exact rest

end Attack

/-! ### The search -/

/-- The search returns 0 or the number of blocks in every run, exactly if the blocks that
exist and are said to be out of range are at most block 0 of a device with more blocks. -/
theorem rpmbSearchSize_right_iff {size : Nat} (nonempty : 0 < size) (addressable : size ≤ 2 ^ 16)
    (said : UInt16 → Prop) :
    (∀ hmac key run, RpmbReachable hmac key run → run.world.device.size = size →
      ∀ fuel hint result notes world, 2 ^ 17 ≤ fuel →
        Exec (sayingNetwork hmac key fun block => size ≤ block.toNat ∨ said block) run.world
          (rpmbSearchSize hmac key fuel hint) result notes world →
        ∃ count, result = .size count ∧ (count = 0 ∨ count.toNat = size)) ↔
      ∀ block, said block → size ≤ block.toNat ∨ block = 0 ∧ 1 < size := by
  have small : 2 ^ 16 < UInt32.size := by decide
  constructor
  · intro right block false_
    by_contra wrong
    push Not at wrong
    have returns := right oneMac zeroKey (.start (numberedDevice size 7)) ⟨_, .refl⟩ rfl (2 ^ 17)
    have fresh : (RpmbRun.start (numberedDevice size 7)).world.authentic = [] := rfl
    by_cases isZero : block = 0
    · subst isZero
      have all : ∀ block : UInt16, size ≤ block.toNat ∨ said block := by
        intro block
        by_cases isZero : block = 0
        · exact .inr (isZero ▸ false_)
        · have positive : block.toNat ≠ 0 := fun same => isZero (UInt16.toNat_inj.mp same)
          have size_le := wrong.2 rfl
          exact .inl (by omega)
      obtain ⟨notes, exec⟩ := exists_searchLoop_outOfFuel fresh all (2 ^ 17) (~~~0) (0 - 1) 0
      obtain ⟨count, contra, -⟩ := returns 0 _ _ _ le_rfl exec
      cases contra
    · have positive : 0 < block.toNat := Nat.pos_of_ne_zero fun same =>
        isZero (UInt16.toNat_inj.mp same)
      have below := block.toNat_lt
      obtain ⟨notes, final, exec⟩ :=
        exists_searchSize_short (fun block => size ≤ block.toNat ∨ said block) fresh positive
          wrong.1 (.inr false_) (2 ^ 17 - 1) (by omega)
      obtain ⟨count, sized, wrongCount⟩ := returns (block + 1) _ _ _ le_rfl exec
      cases sized
      have count : (UInt32.ofNat block.toNat).toNat = block.toNat :=
        UInt32.toNat_ofNat_of_lt' (Nat.lt_trans below small)
      obtain isNone | same := wrongCount
      · rw [isNone] at count
        exact absurd count positive.ne
      · omega
  · rintro right hmac key run reachable rfl fuel hint result notes world enough exec
    have probes := @sayingNetwork_probes hmac key _ run.world.device.size fun block =>
      Or.rec .inl (right block)
    have bounds : SearchBounds run.world.device.size 0 (~~~0) (hint - 1) := by
      refine ⟨Nat.zero_le _, addressable, fun _ => ⟨Nat.zero_le _, ?_⟩⟩
      exact Nat.le_of_lt_succ (hint - 1).toNat_lt
    rcases probes.searchLoop nonempty ⟨reachable.sane, rfl⟩ bounds (.inl enough) exec with
      rfl | ⟨rfl, _⟩
    · exact ⟨_, rfl, .inr (UInt32.toNat_ofNat_of_lt' (Nat.lt_of_le_of_lt addressable small))⟩
    · exact ⟨0, rfl, .inl rfl⟩

/-- With true verdicts only, the size of a device is found, or 0. -/
theorem rpmbSearchSize_right_half :
    let run := RpmbRun.start (numberedDevice (2 ^ 15) 7)
    RpmbReachable checksum zeroKey run ∧
      ∀ fuel hint result notes world, 2 ^ 17 ≤ fuel →
        Exec (sayingNetwork checksum zeroKey fun block => 2 ^ 15 ≤ block.toNat ∨ False) run.world
          (rpmbSearchSize checksum zeroKey fuel hint) result notes world →
        ∃ count, result = .size count ∧ (count = 0 ∨ count.toNat = 2 ^ 15) :=
  ⟨⟨_, .refl⟩, (rpmbSearchSize_right_iff (by decide) (by decide) fun _ => False).mpr
    (fun _ contra => contra.elim) checksum zeroKey _ ⟨_, .refl⟩ rfl⟩

def firstNonces (count : Nat) : List RpmbNonce :=
  (List.range count).map fun index => nonceOf (UInt8.ofNat (index + 1))

/-- An out-of-range verdict without a valid code. -/
def forgedAddrFailure : RpmbReply :=
  .withheld fun _ => .packets [⟨Vector.replicate 32 1, { RpmbBody.zero with
    result := rpmbU16 rpmbResAddrFailure
    reqResp := rpmbU16 rpmbRespDataRead }⟩]

/-- With forged verdicts for all blocks but the first, a device of 512 blocks looks
like one of a single block. -/
theorem rpmbSearchSize_forged :
    let run := RpmbRun.start (numberedDevice 512 7)
    RpmbReachable checksum zeroKey run ∧
      ∃ result notes world, Exec (rpmbNetwork checksum zeroKey) run.world
        (rpmbSearchSize checksum zeroKey (2 ^ 16) 0) result notes world ∧
      ¬ ∃ count, result = .size count ∧ (count = 0 ∨ count.toNat = run.world.device.size) := by
  intro run
  refine ⟨⟨_, .refl⟩, ?_⟩
  have succeeds :
    ((rpmbPlay checksum zeroKey (rpmbSearchSize checksum zeroKey (2 ^ 16) 0) (firstNonces 17)
      (List.replicate 16 forgedAddrFailure ++ [.honest checksum zeroKey]) run.world).map
        fun outcome => outcome.1) = some (.size 1) := by
    decide +kernel
  obtain ⟨⟨result, notes, world⟩, played, rfl⟩ := Option.map_eq_some_iff.mp succeeds
  refine ⟨_, notes, world, exec_of_rpmbPlay played, ?_⟩
  rintro ⟨count, same, wrong⟩
  cases same
  revert wrong
  decide

end Trusty.Storage
