import Trusty.Storage.RpmbSecurity

/-!
The search for the size of the device.

Between two probes `low` blocks are known to exist and blocks from `high + 1` on
are known not to, and the next probe is in between.  Block 0 is the exception: when
it is said to be missing the upper bound wraps, and the search starts again.  On a
device without any block it never ends.  On one with two blocks or more it then
halves the whole range and finds block 1 before it could come to block 0 again.
-/

namespace Trusty.Storage

open Lib Session

/-! ### Bounds -/

/-- The bounds of the search in a device of the given size. -/
structure SearchBounds (size : Nat) (low : UInt32) (high curr : UInt16) : Prop where
  lower : low.toNat ≤ size
  upper : size ≤ high.toNat + 1
  probe : low.toNat ≤ high.toNat → low.toNat ≤ curr.toNat ∧ curr.toNat ≤ high.toNat

variable {low : UInt32} {high curr : UInt16} {size : Nat}

theorem midpoint_toNat (order : low.toNat ≤ high.toNat) :
    (low + (high.toUInt32 - low) / 2).toUInt16.toNat =
      low.toNat + (high.toNat - low.toNat) / 2 := by
  have highBound := high.toNat_lt
  have order32 : low ≤ high.toUInt32 := by
    exact order
  rw [UInt32.toNat_toUInt16, UInt32.toNat_add, UInt32.toNat_div, UInt32.toNat_sub_of_le _ _ order32,
    UInt16.toNat_toUInt32]
  change (low.toNat + (high.toNat - low.toNat) / 2) % 2 ^ 32 % 2 ^ 16 = _
  omega

theorem SearchBounds.midpoint (lower : low.toNat ≤ size) (upper : size ≤ high.toNat + 1) :
    SearchBounds size low high (low + (high.toUInt32 - low) / 2).toUInt16 := by
  refine ⟨lower, upper, ?_⟩
  intro order
  rw [midpoint_toNat order]
  omega

section

variable (bounds : SearchBounds size low high curr)

include bounds

theorem SearchBounds.crossed (crossed : ¬ low ≤ high.toUInt32) :
    high.toUInt32 + 1 = low ∧ low = UInt32.ofNat size := by
  obtain ⟨lower, upper, _⟩ := bounds
  have highBound := high.toNat_lt
  rw [UInt32.le_iff_toNat_le, UInt16.toNat_toUInt32] at crossed
  have sizeEq : low.toNat = size := by omega
  constructor
  · apply UInt32.toNat_inj.mp
    change (high.toNat + 1) % 2 ^ 32 = low.toNat
    omega
  · rw [← sizeEq, UInt32.ofNat_toNat]

theorem SearchBounds.found (inside : curr.toNat < size) :
    (curr.toUInt32 + 1).toNat = curr.toNat + 1 ∧
      SearchBounds size (curr.toUInt32 + 1) high
        (curr.toUInt32 + 1 + (high.toUInt32 - (curr.toUInt32 + 1)) / 2).toUInt16 ∧
      SearchBounds size (curr.toUInt32 + 1) high (curr + 1) := by
  have currBound := curr.toNat_lt
  have nextEq : (curr.toUInt32 + 1).toNat = curr.toNat + 1 := by
    change (curr.toNat + 1) % 2 ^ 32 = curr.toNat + 1
    omega
  have lower : (curr.toUInt32 + 1).toNat ≤ size := by omega
  refine ⟨nextEq, .midpoint lower bounds.upper, lower, bounds.upper, ?_⟩
  intro nextOrder
  have highBound := high.toNat_lt
  have stepEq : (curr + 1).toNat = curr.toNat + 1 := by
    change (curr.toNat + 1) % 2 ^ 16 = curr.toNat + 1
    omega
  omega

/-- The bounds after a probe that did not find the block.  Block 0 exists, so the
new upper bound does not wrap. -/
theorem SearchBounds.missing (nonempty : 0 < size) (outside : size ≤ curr.toNat) :
    (curr - 1).toNat + 1 = curr.toNat ∧
      SearchBounds size low (curr - 1) (low + ((curr - 1).toUInt32 - low) / 2).toUInt16 := by
  have positive : 1 ≤ curr := by
    change 1 ≤ curr.toNat
    omega
  have previousEq : (curr - 1).toNat + 1 = curr.toNat := by
    rw [UInt16.toNat_sub_of_le _ _ positive]
    change curr.toNat - 1 + 1 = curr.toNat
    omega
  exact ⟨previousEq, .midpoint bounds.lower (by omega)⟩

end

/-- The search has found a block, or it halves the whole range.  Block 0 is not next. -/
def Halving (low : UInt32) (curr : UInt16) : Prop :=
  0 < low.toNat ∨ ∃ exponent, curr.toNat + 1 = 2 ^ (exponent + 1)

theorem Halving.missing (halving : Halving low curr) (large : 1 < size)
    (outside : size ≤ curr.toNat) (previous : (curr - 1).toNat + 1 = curr.toNat) :
    Halving low (low + ((curr - 1).toUInt32 - low) / 2).toUInt16 := by
  by_cases found : 0 < low.toNat
  · exact .inl found
  obtain ⟨exponent, power⟩ := halving.resolve_left found
  right
  rw [midpoint_toNat (by omega)]
  cases exponent with
  | zero => omega
  | succ exponent =>
    refine ⟨exponent, ?_⟩
    rw [Nat.pow_succ] at power
    omega

/-- Enough fuel for the search to end, even if it has to start again. -/
def Enough (size fuel : Nat) (low : UInt32) (high curr : UInt16) : Prop :=
  high.toNat + 1 - low.toNat + 2 ^ 16 ≤ fuel ∨
    high.toNat + 1 - low.toNat ≤ fuel ∧ (1 < size → Halving low curr)

/-! ### Probes -/

def probeCommand (nonce : RpmbNonce) (block : UInt16) : RpmbCommand :=
  ⟨[], [⟨Vector.replicate 32 0, { RpmbBody.zero with
    nonce := nonce
    address := rpmbU16 block
    reqResp := rpmbU16 rpmbReqDataRead }⟩], 1, false⟩

section

variable (hmac : Hmac) (key : RpmbKey)

/-- What `rpmb_check` makes of an answer. -/
def probeResult (nonce : RpmbNonce) (block : UInt16) : RpmbAnswer → Int
  | .error code => code
  | .packets res =>
    min 0
      (rpmbCheckResponse rpmbRespDataRead (some (rpmbMac hmac key res)) (some nonce)
        (some block) res)

def probeResponse (device : RpmbDevice) (nonce : RpmbNonce) (block : UInt16) : List RpmbPacket :=
  authenticate hmac key (RpmbEvent.read device nonce block 1).response

end

theorem probeResult_probeResponse {hmac : Hmac} {key : RpmbKey} (device : RpmbDevice)
    (nonce : RpmbNonce) (block : UInt16) :
    probeResult hmac key nonce block (.packets (probeResponse hmac key device nonce block)) =
      if block.toNat < device.size then 0 else -enoent := by
  by_cases inside : block.toNat < device.size
  · have resultOk : rpmbGetU16 RpmbBody.zero.result = rpmbResOk := by decide
    have notPast : ¬ device.size < block.toNat + 1 := by omega
    simp [probeResult, probeResponse, RpmbEvent.response, notPast, inside, authenticate,
      RpmbDevice.contents, rpmbCheckResponse, rpmbGetU16_rpmbU16, rpmbMac, resultOk]
  · have failed : rpmbResAddrFailure ≠ rpmbResOk := by decide
    have past : device.size < block.toNat + 1 := by omega
    have negative : min 0 (-enoent) = -enoent := by decide
    simp [probeResult, probeResponse, RpmbEvent.response, past, inside, authenticate,
      rpmbCheckResponse, rpmbGetU16_rpmbU16, failed, negative]

theorem exec_rpmbCheck_iff {σ : Type} {hmac : Hmac} {key : RpmbKey}
    {network : Network σ RpmbNonce RpmbCommand RpmbAnswer} {state final : σ}
    {block : UInt16} {ret : Int} {notes : List RpmbNote} :
    Exec network state (rpmbCheck hmac key block) ret notes final ↔
      ∃ nonce answer, network.fresh state nonce ∧
      network.exchange state (probeCommand nonce block) answer final ∧
        ret = probeResult hmac key nonce block answer ∧ notes = [] := by
  simp only [rpmbCheck, rpmbRead, exec_bind_iff, exec_draw_iff, rpmbReadWith, exec_send_iff,
    exec_pure_iff]
  constructor
  · rintro ⟨⟨ret, data⟩, _, _, _, ⟨nonce, fresh, answer, reached, exchanged, rest⟩,
      ⟨rfl, rfl, rfl⟩, rfl⟩
    refine ⟨nonce, answer, fresh, ?_⟩
    cases answer with
    | error code =>
      obtain ⟨same, rfl, rfl⟩ := exec_done_iff.mp rest
      exact ⟨exchanged, congrArg Prod.fst same, rfl⟩
    | packets res =>
      simp only at rest
      split at rest
      case isTrue failed =>
        obtain ⟨same, rfl, rfl⟩ := exec_done_iff.mp rest
        exact ⟨exchanged, (congrArg Prod.fst same).trans (min_eq_right failed.le).symm, rfl⟩
      case isFalse accepted =>
        obtain ⟨same, rfl, rfl⟩ := exec_done_iff.mp rest
        exact ⟨exchanged,
          (congrArg Prod.fst same).trans (min_eq_left (Int.not_lt.mp accepted)).symm, rfl⟩
  · rintro ⟨nonce, answer, fresh, exchanged, rfl, rfl⟩
    cases answer with
    | error code =>
      exact ⟨(code, none), [], final, [], ⟨nonce, fresh, _, _, exchanged, .done⟩,
        ⟨rfl, rfl, rfl⟩, rfl⟩
    | packets res =>
      by_cases failed : rpmbCheckResponse rpmbRespDataRead (some (rpmbMac hmac key res))
        (some nonce) (some block) res < 0
      · refine ⟨(_, none), [], final, [], ⟨nonce, fresh, _, _, exchanged, ?_⟩,
          ⟨min_eq_right failed.le, rfl, rfl⟩, rfl⟩
        simp only [if_pos failed]
        exact .done
      · refine ⟨(0, some (res.map fun packet => packet.body.data)), [], final, [],
          ⟨nonce, fresh, _, _, exchanged, ?_⟩, ⟨min_eq_left (Int.not_lt.mp failed), rfl, rfl⟩, rfl⟩
        simp only [if_neg failed]
        exact .done

/-! ### The loop -/

theorem SearchBounds.searchLoop_crossed {hmac : Hmac} {key : RpmbKey} {fuel : Nat} {hint : UInt16}
    (bounds : SearchBounds size low high curr) (crossed : ¬ low ≤ high.toUInt32) :
    rpmbSearchLoop hmac key fuel low high curr hint = pure (.size (UInt32.ofNat size)) := by
  obtain ⟨joined, sizeEq⟩ := bounds.crossed crossed
  unfold rpmbSearchLoop
  rw [if_neg crossed, if_pos joined, sizeEq]

section Loop

variable {σ : Type} {hmac : Hmac} {key : RpmbKey}
  {network : Network σ RpmbNonce RpmbCommand RpmbAnswer}
variable {size : Nat} {state final : σ} {low : UInt32} {high curr hint : UInt16}
  {notes : List RpmbNote}
variable {fuel : Nat} {result : SearchResult}

section

variable (hmac : Hmac) (key : RpmbKey) (network : Network σ RpmbNonce RpmbCommand RpmbAnswer)

/-- What a successful probe and an out-of-range verdict say is true, except that block 0
may be said to be missing if there are others. -/
def SoundProbes (size : Nat) (good : σ → Prop) : Prop :=
  ∀ state block ret notes final, good state →
    Exec network state (rpmbCheck hmac key block) ret notes final → good final ∧
    (ret = 0 → block.toNat < size) ∧
      (ret = -enoent → size ≤ block.toNat ∨ block = 0 ∧ 1 < size)

/-- A probe that is neither answered with data nor refused. -/
def OddProbe (good : σ → Prop) : Prop :=
  ∃ state block ret notes final, good state ∧
    Exec network state (rpmbCheck hmac key block) ret notes final ∧ ret ≠ 0 ∧ ret ≠ -enoent

end

/-- With sound probes the search returns before it has made twice as many probes as
there are addresses, and gives the size unless it gives up. -/
theorem SoundProbes.searchLoop {good : σ → Prop} (probes : SoundProbes hmac key network size good)
    (nonempty : 0 < size) (start : good state) (bounds : SearchBounds size low high curr)
    (enough : Enough size fuel low high curr)
    (exec : Exec network state (rpmbSearchLoop hmac key fuel low high curr hint) result
      notes final) :
    result = .size (UInt32.ofNat size) ∨ result = .size 0 ∧ OddProbe hmac key network good := by
  induction fuel generalizing low high curr hint state notes with
  | zero =>
    have crossed : ¬ low ≤ high.toUInt32 := by
      rw [UInt32.le_iff_toNat_le, UInt16.toNat_toUInt32]
      unfold Enough at enough
      omega
    rw [bounds.searchLoop_crossed crossed, exec_pure_iff] at exec
    exact .inl exec.1
  | succ fuel ih =>
    by_cases order : low ≤ high.toUInt32
    case neg =>
      rw [bounds.searchLoop_crossed order, exec_pure_iff] at exec
      exact .inl exec.1
    rw [rpmbSearchLoop, if_pos order] at exec
    obtain ⟨ret, before, middle, after, probe, rest, rfl⟩ := exec_bind_iff.mp exec
    obtain ⟨middleGood, found, missing⟩ := probes _ _ _ _ _ start probe
    obtain ⟨aboveLow, belowHigh⟩ := bounds.probe order
    by_cases failed : ret ≠ 0 ∧ ret ≠ -enoent
    · rw [if_pos failed, exec_pure_iff] at rest
      exact .inr ⟨rest.1, state, curr, ret, before, middle, start, probe, failed⟩
    rw [if_neg failed] at rest
    by_cases isZero : ret = 0
    · obtain ⟨nextEq, middleBounds, stepBounds⟩ := bounds.found (found isZero)
      have above : 0 < (curr.toUInt32 + 1).toNat := by omega
      simp only [isZero, ne_eq, not_true_eq_false, false_or, if_true] at rest
      split at rest
      · exact ih middleGood middleBounds
          (enough.imp (by omega) fun kept => ⟨by omega, fun _ => .inl above⟩) rest
      · exact ih middleGood stepBounds
          (enough.imp (by omega) fun kept => ⟨by omega, fun _ => .inl above⟩) rest
    · have notFound : ret = -enoent := by
        by_contra other
        exact failed ⟨isZero, other⟩
      simp only [isZero, ne_eq, not_false_eq_true, true_or, if_true, if_false] at rest
      rcases missing notFound with outside | ⟨rfl, large⟩
      · obtain ⟨previousEq, middleBounds⟩ := bounds.missing nonempty outside
        refine ih middleGood middleBounds
          (enough.imp (by omega) fun kept => ⟨by omega, fun large => ?_⟩) rest
        exact (kept.2 large).missing large outside previousEq
      · -- block 0 was said to be missing: the search starts again with the whole range
        have isLow : low.toNat = 0 := Nat.le_zero.mp aboveLow
        refine ih middleGood (.midpoint (by omega) ?_) (.inr ⟨?_, fun _ => .inr ⟨14, ?_⟩⟩) rest
        · exact bounds.upper.trans high.toNat_lt
        · have inRange : 1 ≤ high.toNat + 1 - low.toNat := by omega
          have whole : ((0 : UInt16) - 1).toNat = 2 ^ 16 - 1 := by decide
          rcases enough with spare | ⟨-, halving⟩
          · omega
          · obtain found | ⟨exponent, power⟩ := halving large
            · omega
            · change 0 + 1 = 2 ^ (exponent + 1) at power
              rw [Nat.pow_succ] at power
              omega
        · rw [midpoint_toNat (by omega), isLow]
          decide

/-- A device of `size` blocks whose answers arrive: a probe can always be made,
succeeds for the blocks that exist, and reports `-ENOENT` for the others. -/
structure HonestProbes (hmac : Hmac) (key : RpmbKey)
    (network : Network σ RpmbNonce RpmbCommand RpmbAnswer) (size : Nat) (good : σ → Prop) :
    Prop where
  made : ∀ state block, good state →
    ∃ ret notes final, Exec network state (rpmbCheck hmac key block) ret notes final
  outcome : ∀ state block ret notes final, good state →
    Exec network state (rpmbCheck hmac key block) ret notes final →
      good final ∧ ret = if block.toNat < size then 0 else -enoent

variable {good : σ → Prop} (probes : HonestProbes hmac key network size good)

include probes

theorem HonestProbes.sound : SoundProbes hmac key network size good := by
  intro state block ret notes final start probe
  obtain ⟨finalGood, rfl⟩ := probes.outcome _ _ _ _ _ start probe
  refine ⟨finalGood, fun isZero => ?_, fun missing => .inl ?_⟩
  · by_contra outside
    rw [if_neg outside] at isZero
    exact absurd isZero (by decide)
  · by_contra inside
    rw [if_pos (Nat.lt_of_not_le inside)] at missing
    exact absurd missing (by decide)

theorem HonestProbes.no_oddProbe : ¬ OddProbe hmac key network good := by
  rintro ⟨state, block, ret, notes, final, start, probe, nonzero, known⟩
  obtain ⟨_, rfl⟩ := probes.outcome _ _ _ _ _ start probe
  split at nonzero
  · exact nonzero rfl
  · rename_i outside
    rw [if_neg outside] at known
    exact known rfl

theorem HonestProbes.exists_exec (start : good state) :
    ∃ result notes final,
      Exec network state (rpmbSearchLoop hmac key fuel low high curr hint) result notes final := by
  induction fuel generalizing low high curr hint state with
  | zero =>
    unfold rpmbSearchLoop
    split
    · exact ⟨_, _, _, .done⟩
    · split
      · exact ⟨_, _, _, .done⟩
      · exact ⟨_, _, _, .done⟩
  | succ fuel ih =>
    unfold rpmbSearchLoop
    split
    · obtain ⟨ret, before, middle, probe⟩ := probes.made state curr start
      obtain ⟨middleGood, _⟩ := probes.outcome _ _ _ _ _ start probe
      refine exists_exec_bind probe ?_
      split
      · exact ⟨_, _, _, .done⟩
      · simp only
        split
        · exact ih middleGood
        · exact ih middleGood
    · split
      · exact ⟨_, _, _, .done⟩
      · exact ⟨_, _, _, .done⟩

/-- Without any block no probe succeeds, the lower bound stays 0, and no upper
bound is below it. -/
theorem HonestProbes.searchLoop_empty (empty : size = 0) (start : good state) (isZero : low = 0)
    (exec : Exec network state (rpmbSearchLoop hmac key fuel low high curr hint) result
      notes final) :
    result = .outOfFuel := by
  have order : low ≤ high.toUInt32 := by
    rw [isZero]
    exact UInt32.zero_le
  induction fuel generalizing low high curr hint state notes with
  | zero =>
    unfold rpmbSearchLoop at exec
    rw [if_pos order, exec_pure_iff] at exec
    exact exec.1
  | succ fuel ih =>
    unfold rpmbSearchLoop at exec
    rw [if_pos order] at exec
    obtain ⟨ret, before, middle, after, probe, rest, rfl⟩ := exec_bind_iff.mp exec
    obtain ⟨middleGood, outcome⟩ := probes.outcome _ _ _ _ _ start probe
    have missing : ret = -enoent := by
      rw [outcome, if_neg (by omega)]
    have nonzero : -enoent ≠ 0 := by decide
    simp only [missing, nonzero, ne_eq, not_false_eq_true, not_true_eq_false, and_false,
      true_or, if_true, if_false] at rest
    refine ih middleGood isZero rest ?_
    rw [isZero]
    exact UInt32.zero_le

/-- The search ends with the size of the device exactly when the device has a
block. -/
theorem rpmbSearchSize_honest_iff (start : good state) (addressable : size ≤ 2 ^ 16)
    (hint : UInt16) : (∃ fuel, (∃ result notes final,
        Exec network state (rpmbSearchSize hmac key fuel hint) result notes final) ∧
      ∀ result notes final, Exec network state (rpmbSearchSize hmac key fuel hint) result
        notes final →
        ∃ count, result = .size count ∧ count.toNat = size) ↔ 0 < size := by
  constructor
  · rintro ⟨fuel, ⟨result, notes, final, exec⟩, returns⟩
    by_contra empty
    obtain ⟨count, sized, _⟩ := returns result notes final exec
    have outOfFuel := probes.searchLoop_empty (Nat.eq_zero_of_not_pos empty) start rfl exec
    cases outOfFuel.symm.trans sized
  · intro nonempty
    have bounds : SearchBounds size 0 (~~~0) (hint - 1) := by
      refine ⟨Nat.zero_le _, addressable, fun _ => ⟨Nat.zero_le _, ?_⟩⟩
      exact Nat.le_of_lt_succ (hint - 1).toNat_lt
    refine ⟨2 ^ 17, probes.exists_exec start, ?_⟩
    intro result notes final exec
    rcases probes.sound.searchLoop nonempty start bounds (.inl (by decide)) exec with
      sized | ⟨_, odd⟩
    · have small : 2 ^ 16 < UInt32.size := by decide
      exact ⟨_, sized, UInt32.toNat_ofNat_of_lt' (Nat.lt_of_le_of_lt addressable small)⟩
    · exact (probes.no_oddProbe odd).elim

end Loop

/-! ### An honest device -/

def honestNetwork (hmac : Hmac) (key : RpmbKey) :
    Network RpmbDevice RpmbNonce RpmbCommand RpmbAnswer where
  fresh _ _ := True
  exchange device command answer final :=
    ∃ event, device.handle hmac key
        (if command.reliableWrite = [] then command.write else command.reliableWrite)
        command.readCount =
          some (final, event) ∧
      answer = .packets (authenticate hmac key event.response)

section Honest

variable {hmac : Hmac} {key : RpmbKey}

theorem honestNetwork_exchange_iff {device final : RpmbDevice} {block : UInt16} {nonce : RpmbNonce}
    {answer : RpmbAnswer} :
    (honestNetwork hmac key).exchange device (probeCommand nonce block) answer final ↔
      answer = .packets (probeResponse hmac key device nonce block) ∧ final = device := by
  have isRead : rpmbReqDataRead ≠ rpmbReqGetCounter := by decide
  simp only [honestNetwork, probeCommand, if_true, RpmbDevice.handle, rpmbGetU16_rpmbU16,
    isRead, if_false, Option.some.injEq, Prod.mk.injEq]
  constructor
  · rintro ⟨_, ⟨rfl, rfl⟩, rfl⟩
    exact ⟨rfl, rfl⟩
  · rintro ⟨rfl, rfl⟩
    exact ⟨_, ⟨rfl, rfl⟩, rfl⟩

theorem honestNetwork_probes (device : RpmbDevice) :
    HonestProbes hmac key (honestNetwork hmac key) device.size (· = device) := by
  refine ⟨?_, ?_⟩
  · rintro device block rfl
    exact ⟨_, _, _, exec_rpmbCheck_iff.mpr
      ⟨Vector.replicate 16 0, _, trivial, honestNetwork_exchange_iff.mpr ⟨rfl, rfl⟩, rfl, rfl⟩⟩
  · rintro _ block ret notes final rfl probe
    obtain ⟨nonce, answer, -, exchanged, rfl, -⟩ := exec_rpmbCheck_iff.mp probe
    obtain ⟨rfl, rfl⟩ := honestNetwork_exchange_iff.mp exchanged
    exact ⟨rfl, probeResult_probeResponse _ _ _⟩

theorem rpmbSearchSize_honest_half :
    ∃ fuel, (∃ result notes final, Exec (honestNetwork checksum zeroKey) (numberedDevice (2 ^ 15) 7)
        (rpmbSearchSize checksum zeroKey fuel 0) result notes final) ∧
      ∀ result notes final, Exec (honestNetwork checksum zeroKey) (numberedDevice (2 ^ 15) 7)
        (rpmbSearchSize checksum zeroKey fuel 0) result notes final →
          ∃ count, result = .size count ∧ count.toNat = 2 ^ 15 :=
  (rpmbSearchSize_honest_iff (honestNetwork_probes (numberedDevice (2 ^ 15) 7)) rfl
    (by decide) 0).mpr (by decide)

/-- The search in a device without any block does not end. -/
theorem rpmbSearchSize_empty_device :
    HonestProbes checksum zeroKey (honestNetwork checksum zeroKey) 0 (· = numberedDevice 0 7) ∧
      ∀ fuel hint, (∃ result notes final, Exec (honestNetwork checksum zeroKey) (numberedDevice 0 7)
          (rpmbSearchSize checksum zeroKey fuel hint) result notes final) ∧
        ∀ result notes final, Exec (honestNetwork checksum zeroKey) (numberedDevice 0 7)
          (rpmbSearchSize checksum zeroKey fuel hint) result notes final → result = .outOfFuel := by
  have probes : HonestProbes checksum zeroKey (honestNetwork checksum zeroKey) 0
      (· = numberedDevice 0 7) :=
    honestNetwork_probes (numberedDevice 0 7)
  refine ⟨probes, fun fuel hint => ⟨probes.exists_exec rfl, ?_⟩⟩
  exact fun result notes final exec => probes.searchLoop_empty rfl rfl rfl exec

end Honest

end Trusty.Storage
