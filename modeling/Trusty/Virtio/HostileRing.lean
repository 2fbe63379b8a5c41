import Trusty.Virtio.RingBounds
import Trusty.Virtio.Vqueue

/-!
Rings whose contents the other side chooses, at every single read.
-/

namespace Trusty.Virtio

open Lib Kernel Dialog

/-! ### Which memory an access touches -/

namespace RingOp

variable {arch : Arch}

/-- The slot of one of the three tables. -/
def slot? : RingOp → Option Nat
  | .readAvailRing slot | .writeUsedId slot _ | .writeUsedLen slot _ => some slot
  | .desc slot | .readDescAddr slot | .readDescLen slot | .readDescFlags slot
  | .readDescNext slot => some slot
  | .readAvailIdx | .readUsedFlags | .writeUsedFlags _ | .readUsedIdx | .writeUsedIdx _ => none

/-- The part of the ring, the offset in it and the number of bytes. -/
def place (ring : Vring arch) : RingOp → arch.Word × Nat × Nat
  | .readAvailIdx => (ring.avail, 2, 2)
  | .readAvailRing slot => (ring.avail, 4 + 2 * slot, 2)
  | .readUsedFlags | .writeUsedFlags _ => (ring.used, 0, 2)
  | .readUsedIdx | .writeUsedIdx _ => (ring.used, 2, 2)
  | .writeUsedId slot _ => (ring.used, 4 + 8 * slot, 4)
  | .writeUsedLen slot _ => (ring.used, 8 + 8 * slot, 4)
  | .desc slot => (ring.desc, 16 * slot, 16)
  | .readDescAddr slot => (ring.desc, 16 * slot, 8)
  | .readDescLen slot => (ring.desc, 16 * slot + 8, 4)
  | .readDescFlags slot => (ring.desc, 16 * slot + 12, 2)
  | .readDescNext slot => (ring.desc, 16 * slot + 14, 2)

/-- The access is to slots of the ring and to memory that is mapped for it. -/
def Within (ring : Vring arch) (mapping : Option (Window arch.bits)) (op : RingOp) : Prop :=
  (∀ slot, op.slot? = some slot → slot < ring.num.toNat) ∧
    ∃ window, mapping = some window ∧
      window.Covers ((op.place ring).1 + BitVec.ofNat arch.bits (op.place ring).2.1)
      (op.place ring).2.2

theorem within_of_slot {ring : Vring arch} {mapping : Option (Window arch.bits)}
    (inside : ring.Inside mapping) {op : RingOp}
    (bounded : ∀ slot, op.slot? = some slot → slot < ring.num.toNat) : op.Within ring mapping := by
  refine ⟨bounded, ?_⟩
  obtain ⟨window, mapped, descs, avails, useds⟩ := inside
  refine ⟨window, mapped, ?_⟩
  cases op with
  | readAvailIdx => exact avails.part (by change 2 + 2 ≤ _; omega)
  | readUsedFlags | writeUsedFlags => exact useds.part (by change 0 + 2 ≤ _; omega)
  | readUsedIdx | writeUsedIdx => exact useds.part (by change 2 + 2 ≤ _; omega)
  | readAvailRing slot =>
    have less := bounded slot rfl
    exact avails.part (by change 4 + 2 * slot + 2 ≤ _; omega)
  | writeUsedId slot =>
    have less := bounded slot rfl
    exact useds.part (by change 4 + 8 * slot + 4 ≤ _; omega)
  | writeUsedLen slot =>
    have less := bounded slot rfl
    exact useds.part (by change 8 + 8 * slot + 4 ≤ _; omega)
  | desc slot =>
    have less := bounded slot rfl
    exact descs.part (by change 16 * slot + 16 ≤ _; omega)
  | readDescAddr slot =>
    have less := bounded slot rfl
    exact descs.part (by change 16 * slot + 8 ≤ _; omega)
  | readDescLen slot =>
    have less := bounded slot rfl
    exact descs.part (by change 16 * slot + 8 + 4 ≤ _; omega)
  | readDescFlags slot =>
    have less := bounded slot rfl
    exact descs.part (by change 16 * slot + 12 + 2 ≤ _; omega)
  | readDescNext slot =>
    have less := bounded slot rfl
    exact descs.part (by change 16 * slot + 14 + 2 ≤ _; omega)

def isDesc : RingOp → Bool
  | .desc _ => true
  | _ => false

end RingOp

section Hostile

variable {arch : Arch}

/-- Any answer to any access.  The state is the list of accesses so far. -/
def hostileRing (ring : Vring arch) (mapping : Option (Window arch.bits)) :
    Env RingOp RingOp.Ans (List RingOp) where
  allowed _ op := op.Within ring mapping
  answers log op _ next := next = log ++ [op]

def visits (log : List RingOp) : Nat := log.countP RingOp.isDesc

variable {ring : Vring arch} {mapping : Option (Window arch.bits)} {log : List RingOp}

variable {op : RingOp} {buf : VqueueBuf arch} {vq : Vqueue arch}

theorem ensures_access (inside : ring.Inside mapping)
    (bounded : ∀ slot, op.slot? = some slot → slot < ring.num.toNat)
    {post : op.Ans → List RingOp → Prop} (rest : ∀ answer, post answer (log ++ [op])) :
    ensures (hostileRing ring mapping) (access op) log post := by
  rw [access, ensures_perform]
  refine ⟨RingOp.within_of_slot inside bounded, ?_⟩
  rintro answer _ rfl
  exact rest answer

theorem visits_append (log : List RingOp) (op : RingOp) :
    visits (log ++ [op]) = visits log + op.isDesc.toNat := by
  cases found : op.isDesc <;> simp [visits, found]

/-- What the loop leaves of a buffer it is given. -/
structure FilledFrom (buf filled : VqueueBuf arch) : Prop where
  head : filled.head = buf.head
  in_cnt : filled.inIovs.cnt = buf.inIovs.cnt
  out_cnt : filled.outIovs.cnt = buf.outIovs.cnt
  in_used : filled.inIovs.used ≤ buf.inIovs.cnt
  out_used : filled.outIovs.used ≤ buf.outIovs.cnt

theorem filledFrom_cleared (head : BitVec 16) (buf : VqueueBuf arch) :
    FilledFrom ⟨head, buf.inIovs.clear, buf.outIovs.clear⟩
      ⟨head, buf.inIovs.clear, buf.outIovs.clear⟩ :=
  ⟨rfl, rfl, rfl, Nat.zero_le _, Nat.zero_le _⟩

theorem filledFrom_push (filled : FilledFrom buf buf) {write : Bool}
    (free : (buf.select write).used < (buf.select write).cnt) (len : BitVec 32) (addr : BitVec 64)
    (more : BitVec 32) :
    FilledFrom buf (buf.update write ((buf.select write).push len addr more)) := by
  obtain ⟨-, -, -, ins, outs⟩ := filled
  cases write
  all_goals
    constructor <;>
      simp only [VqueueBuf.select, VqueueBuf.update, VqueueIovs.push, VqueueIovs.used,
        if_true, Bool.false_eq_true, if_false, List.length_append,
        List.length_singleton] at free ins outs ⊢ <;>
      omega

theorem FilledFrom.trans {first second third : VqueueBuf arch} (before : FilledFrom first second)
    (after : FilledFrom second third) : FilledFrom first third where
  head := after.head.trans before.head
  in_cnt := after.in_cnt.trans before.in_cnt
  out_cnt := after.out_cnt.trans before.out_cnt
  in_used := before.in_cnt ▸ after.in_used
  out_used := before.out_cnt ▸ after.out_used

theorem FilledFrom.self {filled : VqueueBuf arch} (found : FilledFrom buf filled) :
    FilledFrom filled filled :=
  ⟨rfl, rfl, rfl, found.in_cnt ▸ found.in_used, found.out_cnt ▸ found.out_used⟩

/-- Each round visits one descriptor and takes one entry, so that a cycle in the chain
ends when the lists are full. -/
theorem ensures_walkChain (inside : ring.Inside mapping) (nextIdx : BitVec 16)
    (buf : VqueueBuf arch) (filled : FilledFrom buf buf) :
    ensures (hostileRing ring mapping) (walkChain ring.num nextIdx buf) log fun result final =>
      FilledFrom buf result.2 ∧ visits final ≤ visits log + buf.room + 1 := by
  induction nextIdx, buf using walkChain.induct ring.num generalizing log with
  | case1 nextIdx buf outside =>
    rw [walkChain, if_pos outside, ensures_pure]
    exact ⟨filled, by omega⟩
  | case2 nextIdx buf bounded ih =>
    have slot {op : RingOp} (at_next : op.slot? = some nextIdx.toNat) :
        ∀ slot, op.slot? = some slot → slot < ring.num.toNat := by
      intro slot found
      cases at_next.symm.trans found
      omega
    rw [walkChain, if_neg bounded]
    simp only [ensures_bind]
    refine ensures_access inside (slot rfl) fun _ => ensures_access inside (slot rfl)
      fun flags => ?_
    by_cases free : (buf.select (flags &&& vringDescFWrite != 0)).used <
        (buf.select (flags &&& vringDescFWrite != 0)).cnt
    · rw [dif_pos free]
      simp only [ensures_bind]
      refine ensures_access inside (slot rfl) fun len => ensures_access inside (slot rfl)
        fun addr =>
        ensures_access inside (slot rfl) fun more => ensures_access inside (slot rfl) fun next =>
        ensures_access inside (slot rfl) fun again => ?_
      have room := VqueueBuf.room_push free len addr more
      have pushed := filledFrom_push filled free len addr more
      have visited (log : List RingOp) :
        visits (log ++ [.desc nextIdx.toNat] ++ [.readDescFlags nextIdx.toNat] ++
          [.readDescLen nextIdx.toNat] ++ [.readDescAddr nextIdx.toNat] ++
          [.readDescLen nextIdx.toNat] ++
          [.readDescNext nextIdx.toNat] ++ [.readDescFlags nextIdx.toNat]) = visits log + 1 := by
        simp only [visits_append, RingOp.isDesc, Bool.toNat_true, Bool.toNat_false, Nat.add_zero]
      split
      · apply ensures_mono (ih flags free len addr more next pushed.self)
        rintro result final ⟨found, counted⟩
        rw [visited] at counted
        exact ⟨pushed.trans found, by omega⟩
      · rw [ensures_pure, visited]
        exact ⟨pushed, by omega⟩
    · rw [dif_neg free, ensures_pure]
      simp only [visits_append, RingOp.isDesc, Bool.toNat_true, Bool.toNat_false, Nat.add_zero]
      exact ⟨filled, by omega⟩

/-- What `_vqueue_get_avail_buf_locked` leaves. -/
structure TakenFrom (vq : Vqueue arch) (buf : VqueueBuf arch) (result : GetAvailBuf arch)
    (log : List RingOp) :
    Prop where
  /-- Nothing was stored, or no more than there are entries. -/
  stored : result.buf = buf ∨
    (result.buf.inIovs.used ≤ buf.inIovs.cnt ∧ result.buf.outIovs.used ≤ buf.outIovs.cnt)
  visited : visits log ≤ buf.inIovs.cnt + buf.outIovs.cnt + 1
  advanced : result.vq.lastAvailIdx = vq.lastAvailIdx ∨ result.vq.lastAvailIdx = vq.lastAvailIdx + 1
  head_lt : result.ret = noError → result.buf.head.toNat < vq.vring.num.toNat

theorem none_bounded {num : Nat} (none : op.slot? = none) :
    ∀ slot, op.slot? = some slot → slot < num := by
  intro slot found
  cases none.symm.trans found

theorem mod_bounded {num value : Nat} (pos : 1 ≤ num) (at_slot : op.slot? = some (value % num)) :
    ∀ slot, op.slot? = some slot → slot < num := by
  intro slot found
  cases at_slot.symm.trans found
  exact Nat.mod_lt _ pos

theorem ensures_takeHead (vq : Vqueue arch) (inside : vq.vring.Inside mapping)
    (pos : 1 ≤ vq.vring.num.toNat) (buf : VqueueBuf arch) (unvisited : visits log = 0) :
    ensures (hostileRing vq.vring mapping) (takeHead vq buf) log (TakenFrom vq buf) := by
  unfold takeHead
  rw [ensures_bind]
  refine ensures_access inside (mod_bounded pos rfl) fun nextIdx => ?_
  dsimp only
  split
  case isTrue => exact ensures_halt
  case isFalse bounded =>
    rw [ensures_bind]
    apply ensures_mono (ensures_walkChain inside nextIdx _ (filledFrom_cleared nextIdx buf))
    rintro ⟨ret, filled⟩ final ⟨found, counted⟩
    simp only [visits_append, RingOp.isDesc, Bool.toNat_false, Nat.add_zero, unvisited] at counted
    rw [ensures_pure]
    refine ⟨.inr ⟨found.in_used, found.out_used⟩, ?_, .inr rfl, fun _ => ?_⟩
    · change visits final ≤ 0 + (buf.inIovs.cnt - 0 + (buf.outIovs.cnt - 0)) + 1 at counted
      omega
    · change filled.head.toNat < _
      rw [found.head]
      exact Nat.lt_of_not_le bounded

section

variable (inside : vq.vring.Inside mapping) (pos : 1 ≤ vq.vring.num.toNat) (buf : VqueueBuf arch)

include inside pos

theorem ensures_vqueueGetAvailBufLocked :
    ensures (hostileRing vq.vring mapping) (vqueueGetAvailBufLocked vq buf) []
    (TakenFrom vq buf) := by
  have untouched (ret : Int) (failed : ret ≠ noError) (event : Bool) (log : List RingOp)
    (unvisited : visits log = 0) :
      TakenFrom vq buf ⟨ret, { vq with availEvent := event }, buf⟩ log :=
    ⟨.inl rfl, by omega, .inl rfl, fun ok => absurd ok failed⟩
  have simple {log : List RingOp} (op : RingOp) (none : op.slot? = none) (other : op.isDesc = false)
      (unvisited : visits log = 0) {post : op.Ans → List RingOp → Prop}
      (rest : ∀ answer log, visits log = 0 → post answer log) :
      ensures (hostileRing vq.vring mapping) (access op) log post := by
    refine ensures_access inside (none_bounded none) fun answer => rest answer _ ?_
    rw [visits_append, unvisited, other]
    rfl
  unfold vqueueGetAvailBufLocked
  split
  case isTrue closed =>
    rw [ensures_pure]
    exact untouched errChannelClosed (by decide) vq.availEvent [] rfl
  case isFalse =>
    simp only [ensures_bind, ensures_ite, ensures_pure]
    refine simple .readAvailIdx rfl rfl rfl fun idx log unvisited => ⟨fun _ => ?_, fun _ => ?_⟩
    · exact simple .readAvailIdx rfl rfl unvisited fun _ _ _ => ensures_halt
    refine simple .readAvailIdx rfl rfl unvisited fun idx log unvisited =>
      ⟨fun _ => ?_, fun _ => ?_⟩
    · refine simple .readUsedFlags rfl rfl unvisited fun flags log unvisited => ?_
      refine simple (.writeUsedFlags _) rfl rfl unvisited fun _ log unvisited => ?_
      refine simple .readAvailIdx rfl rfl unvisited fun idx log unvisited =>
        ⟨fun _ => ?_, fun _ => ?_⟩
      · exact untouched errNotEnoughBuffer (by decide) false log unvisited
      · refine simple .readUsedFlags rfl rfl unvisited fun flags log unvisited => ?_
        refine simple (.writeUsedFlags _) rfl rfl unvisited fun _ log unvisited => ?_
        apply ensures_mono
          (ensures_takeHead { vq with availEvent := true } inside pos buf unvisited)
        exact fun _ _ taken => ⟨taken.stored, taken.visited, taken.advanced, taken.head_lt⟩
    · exact ensures_takeHead vq inside pos buf unvisited

theorem ensures_vqueueAddBufLocked (len : BitVec 32) :
    ensures (hostileRing vq.vring mapping) (vqueueAddBufLocked vq buf len) [] fun _ log =>
      visits log = 0 := by
  unfold vqueueAddBufLocked
  simp only [ensures_bind, ensures_ite, ensures_pure]
  refine ⟨fun _ => rfl, fun _ => ⟨fun _ => rfl, fun _ => ?_⟩⟩
  refine ensures_access inside (none_bounded rfl) fun idx => ?_
  refine ensures_access inside (mod_bounded pos rfl) fun _ =>
    ensures_access inside (mod_bounded pos rfl) fun _ => ?_
  exact ensures_access inside (none_bounded rfl) fun _ => ensures_access inside (none_bounded rfl)
    fun _ => rfl

end

/-- Neither call leaves the ring, whatever is read from it. -/
theorem hostile_ring_bounded (vq : Vqueue arch) (mapping : Option (Window arch.bits))
    (pos : 1 ≤ vq.vring.num.toNat) (inside : vq.vring.Inside mapping) (buf : VqueueBuf arch)
    (len : BitVec 32) :
    ensures (hostileRing vq.vring mapping) (vqueueGetAvailBufLocked vq buf) [] (TakenFrom vq buf) ∧
      ensures (hostileRing vq.vring mapping) (vqueueAddBufLocked vq buf len) [] fun _ log =>
        visits log = 0 :=
  ⟨ensures_vqueueGetAvailBufLocked inside pos buf, ensures_vqueueAddBufLocked inside pos buf len⟩

end Hostile

theorem ringFits_small : RingFits arm (4 : BitVec 32).toNat (4096 : BitVec 32).toNat where
  num_pos := by decide
  align_pos := by decide
  avail_lt := by decide
  end_lt := by decide
  pages_lt := by decide
  agree := by decide

def smallQueue : Vqueue arm :=
  { Vqueue.zeroed with
    vring := vringInit 4 firstPage.base ((4096 : BitVec 32).setWidth arm.bits)
    vringAddr := firstPage.base }

def smallMapping :
    Option (Window arm.bits) := some ⟨firstPage.base, ringPages arm 4 4096, ringPages_lt arm 4 4096⟩

theorem hostile_ring_bounded_small :
    ensures (hostileRing smallQueue.vring smallMapping)
        (vqueueGetAvailBufLocked smallQueue ⟨0, ⟨1, 0, []⟩, ⟨0, 0, []⟩⟩) []
        (TakenFrom smallQueue ⟨0, ⟨1, 0, []⟩, ⟨0, 0, []⟩⟩) ∧
      ensures (hostileRing smallQueue.vring smallMapping)
        (vqueueAddBufLocked smallQueue ⟨0, ⟨1, 0, []⟩, ⟨0, 0, []⟩⟩ 0) [] fun _ log =>
          visits log = 0 :=
  hostile_ring_bounded smallQueue smallMapping (by decide) (ringFits_small.at firstPage)
    ⟨0, ⟨1, 0, []⟩, ⟨0, 0, []⟩⟩ 0

end Trusty.Virtio
