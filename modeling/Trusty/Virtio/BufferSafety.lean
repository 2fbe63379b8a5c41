import Trusty.Virtio.HostileRing
import Trusty.Virtio.TipcDev

/-!
What the device touches of the buffers that the other side publishes.
-/

namespace Trusty.Virtio

open Lib Kernel Dialog List

/-! ### The memory of the other side -/

section Memory

variable {arch : Arch}

/-- A region that is mapped for a buffer, with the length recorded for the buffer. -/
structure Region (arch : Arch) where
  window : Window arch.bits
  len : arch.Word
  readOnly : Bool

/-- The bytes are in the mapping and in the buffer. -/
def Region.Reaches (region : Region arch) (addr : arch.Word) (bytes : Nat) : Prop :=
  region.window.Covers addr bytes ∧
    Window.Covers ⟨region.window.base, region.len.toNat, region.len.isLt⟩ addr bytes

/-- Memory that may change at any time.  The state is what is mapped; the lengths that the
other side publishes in a ring are those of a set. -/
def nsMemory (published : Fin tipcVqNum → BitVec 32 → Prop) :
    Env (TipcOp arch) TipcOp.Ans (List (Region arch)) where
  allowed live op :=
    match op with
    | .unmap base => ∃ region ∈ live, region.window.base = base
    | .read addr bytes | .sendMsg addr bytes => ∃ region ∈ live, region.Reaches addr bytes
    | .write addr bytes _ | .readMsg addr bytes | .memcpy addr bytes =>
      ∃ region ∈ live, region.readOnly = false ∧ region.Reaches addr bytes
    | _ => True
  answers live op :=
    match op with
    | .ring queue (.readDescLen _) => fun len next => published queue len ∧ next = live
    | .map len size paddr readOnly => fun answer next => ∃ spot : Option (Spot arch),
        answer = vmmAllocPhysical size paddr spot ∧
          (∀ place, spot = some place → ∀ region ∈ live, region.window.base ≠ place.base) ∧
          next = (answer.2.elim live fun window => ⟨window, len, readOnly⟩ :: live)
    | .unmap base => fun _ next => next = live.filter fun region => region.window.base ≠ base
    | _ => fun _ next => next = live

/-- Operations that leave the mappings as they are. -/
def TipcOp.steady : TipcOp arch → Bool
  | .map _ _ _ _ | .unmap _ | .ring _ _ => false
  | _ => true

variable {published : Fin tipcVqNum → BitVec 32 → Prop} {live : List (Region arch)}

theorem ensures_steady (operation : TipcOp arch) (steady : operation.steady = true)
    (allowed : (nsMemory published).allowed live operation)
    {post : operation.Ans → List (Region arch) → Prop} (rest : ∀ answer, post answer live) :
    ensures (nsMemory published) (op operation) live post := by
  rw [op, ensures_perform]
  refine ⟨allowed, fun answer next answered => ?_⟩
  have same : next = live := by
    cases operation with
    | map | unmap | ring => cases steady
    | _ => exact answered
  rw [same]
  exact rest answer

variable {region : Region arch} {addr : arch.Word} {len bytes : Nat}

theorem Region.Reaches.part (reached : region.Reaches addr len) (offset : Nat)
    (within : offset + bytes ≤ len) :
    region.Reaches (addr + BitVec.ofNat arch.bits offset) bytes :=
  ⟨Window.Covers.part reached.1 within, Window.Covers.part reached.2 within⟩

theorem Region.Reaches.start (reached : region.Reaches addr len) (within : bytes ≤ len) :
    region.Reaches addr bytes := by
  have first := reached.part 0 ((Nat.zero_add bytes).trans_le within)
  rwa [BitVec.add_zero] at first

theorem Region.reaches_whole (mapped : region.len.toNat ≤ region.window.size) :
    region.Reaches region.window.base region.len.toNat := by
  constructor
  · rw [Window.covers_iff, BitVec.sub_self, BitVec.toNat_zero, Nat.zero_add]
    exact .inr mapped
  · rw [Window.covers_iff, BitVec.sub_self, BitVec.toNat_zero, Nat.zero_add]
    exact .inr le_rfl

/-- The program leaves the mappings as they are. -/
abbrev Stays {α : Type} (published : Fin tipcVqNum → BitVec 32 → Prop) (prog : TipcDialog arch α)
    (live : List (Region arch)) : Prop :=
  ensures (nsMemory published) prog live fun _ final => final = live

theorem ensures_of_stays {α : Type} {prog : TipcDialog arch α} (stays : Stays published prog live)
    {post : α → List (Region arch) → Prop} (rest : ∀ value, post value live) :
    ensures (nsMemory published) prog live post := by
  apply ensures_mono stays
  rintro value _ rfl
  exact rest value

end Memory

/-! ### Taking a buffer -/

section Taking

variable {arch : Arch} {published : Fin tipcVqNum → BitVec 32 → Prop} {live : List (Region arch)}
  {queue : Fin tipcVqNum}

def Lengths (published : BitVec 32 → Prop) (buf : VqueueBuf arch) : Prop :=
  ∀ write, ∀ iov ∈ (buf.select write).iovs, ∃ len, published len ∧ iov.len = len.setWidth arch.bits

theorem lengths_push {published : BitVec 32 → Prop} {buf : VqueueBuf arch}
    (lengths : Lengths published buf) (write : Bool) {len : BitVec 32} (known : published len)
    (addr : BitVec 64) (more : BitVec 32) :
    Lengths published (buf.update write ((buf.select write).push len addr more)) := by
  intro other iov member
  have before := lengths other iov
  cases write <;> cases other <;>
    simp only [VqueueBuf.select, VqueueBuf.update, VqueueIovs.push, if_true,
      Bool.false_eq_true, if_false, mem_append, mem_singleton] at member before
  all_goals first
    | exact before member
    | exact member.elim before fun same => ⟨len, known, by rw [same]⟩

/-- The memory as the code of the ring sees it. -/
abbrev nsRing (published : Fin tipcVqNum → BitVec 32 → Prop) (queue : Fin tipcVqNum) :
    Env RingOp RingOp.Ans (List (Region arch)) :=
  (nsMemory published).comap (TipcOp.ring queue) fun _ answer => answer

theorem ensures_ring (operation : RingOp) {post : operation.Ans → List (Region arch) → Prop}
    (rest : ∀ answer, post answer live) :
    ensures (nsRing published queue) (access operation) live post := by
  rw [access, ensures_perform]
  refine ⟨trivial, ?_⟩
  rintro _ next ⟨answer, answered, rfl⟩
  have same : next = live := by
    cases operation with
    | readDescLen => exact answered.2
    | _ => exact answered
  rw [same]
  exact rest answer

theorem ensures_ring_len (slot : Nat) {post : BitVec 32 → List (Region arch) → Prop}
    (rest : ∀ len, published queue len → post len live) :
    ensures (nsRing published queue) (access (.readDescLen slot)) live post := by
  rw [access, ensures_perform]
  refine ⟨trivial, ?_⟩
  rintro _ _ ⟨len, ⟨known, rfl⟩, rfl⟩
  exact rest len known

theorem ensures_walkChain_lengths (num : BitVec 32) (nextIdx : BitVec 16) (buf : VqueueBuf arch)
    (filled : FilledFrom buf buf) (lengths : Lengths (published queue) buf) :
    ensures (nsRing published queue) (walkChain num nextIdx buf) live fun result final =>
      final = live ∧ FilledFrom buf result.2 ∧ Lengths (published queue) result.2 := by
  induction nextIdx, buf using walkChain.induct num with
  | case1 nextIdx buf outside =>
    rw [walkChain, if_pos outside, ensures_pure]
    exact ⟨rfl, filled, lengths⟩
  | case2 nextIdx buf bounded ih =>
    rw [walkChain, if_neg bounded]
    simp only [ensures_bind]
    refine ensures_ring _ fun _ => ensures_ring _ fun flags => ?_
    by_cases free : (buf.select (flags &&& vringDescFWrite != 0)).used <
        (buf.select (flags &&& vringDescFWrite != 0)).cnt
    · rw [dif_pos free]
      simp only [ensures_bind]
      refine ensures_ring_len _ fun len known => ensures_ring _ fun addr =>
        ensures_ring _ fun more =>
        ensures_ring _ fun next => ensures_ring _ fun again => ?_
      have pushed := filledFrom_push filled free len addr more
      have stored := lengths_push lengths (flags &&& vringDescFWrite != 0) known addr more
      split
      · apply ensures_mono (ih flags free len addr more next pushed.self stored)
        rintro result final ⟨same, found, kept⟩
        exact ⟨same, pushed.trans found, kept⟩
      · rw [ensures_pure]
        exact ⟨rfl, pushed, stored⟩
    · rw [dif_neg free, ensures_pure]
      exact ⟨rfl, filled, lengths⟩

structure Got (published : BitVec 32 → Prop) (buf : VqueueBuf arch) (ret : Int)
    (got : VqueueBuf arch) : Prop where
  in_cnt : got.inIovs.cnt = buf.inIovs.cnt
  out_cnt : got.outIovs.cnt = buf.outIovs.cnt
  filled : ret = noError →
    got.inIovs.used ≤ buf.inIovs.cnt ∧ got.outIovs.used ≤ buf.outIovs.cnt ∧ Lengths published got

theorem got_failed {published : BitVec 32 → Prop} (buf : VqueueBuf arch) {ret : Int}
    (failed : ret ≠ noError) :
    Got published buf ret buf :=
  ⟨rfl, rfl, fun ok => absurd ok failed⟩

theorem ensures_takeHead_lengths (vq : Vqueue arch) (buf : VqueueBuf arch) :
    ensures (nsRing published queue) (takeHead vq buf) live fun result final =>
      final = live ∧ Got (published queue) buf result.ret result.buf := by
  unfold takeHead
  rw [ensures_bind]
  refine ensures_ring _ fun nextIdx => ?_
  dsimp only
  split
  case isTrue => exact ensures_halt
  case isFalse =>
    have empty : Lengths (published queue) ⟨nextIdx, buf.inIovs.clear, buf.outIovs.clear⟩ := by
      intro write iov member
      cases write <;> cases member
    rw [ensures_bind]
    apply ensures_mono
      (ensures_walkChain_lengths vq.vring.num nextIdx _ (filledFrom_cleared nextIdx buf) empty)
    rintro ⟨ret, got⟩ final ⟨rfl, found, lengths⟩
    rw [ensures_pure]
    exact ⟨rfl, found.in_cnt, found.out_cnt, fun _ => ⟨found.in_used, found.out_used, lengths⟩⟩

theorem ensures_vqueueGetAvailBuf (buf : VqueueBuf arch) :
    ensures (nsMemory published) (vqueueGetAvailBuf queue buf) live fun result final =>
      final = live ∧ Got (published queue) buf result.1 result.2 := by
  unfold vqueueGetAvailBuf
  simp only [ensures_bind, ensures_embed]
  refine ensures_steady (.lock queue) rfl trivial fun vq => ?_
  have locked : ensures (nsRing published queue) (vqueueGetAvailBufLocked vq buf) live
    fun result final =>
      final = live ∧ Got (published queue) buf result.ret result.buf := by
    unfold vqueueGetAvailBufLocked
    simp only [ensures_bind, ensures_ite, ensures_pure]
    refine ⟨fun _ => ⟨trivial, got_failed buf (by decide)⟩, fun _ => ensures_ring _ fun idx =>
      ⟨fun _ => ?_, fun _ => ?_⟩⟩
    · exact ensures_ring _ fun _ => ensures_halt
    · refine ensures_ring _ fun idx => ⟨fun _ => ?_, fun _ => ensures_takeHead_lengths vq buf⟩
      refine ensures_ring _ fun flags => ensures_ring _ fun _ => ensures_ring _ fun idx =>
        ⟨fun _ => ?_, fun _ => ?_⟩
      · exact ⟨rfl, got_failed buf (by decide)⟩
      · exact ensures_ring _ fun flags => ensures_ring _ fun _ => ensures_takeHead_lengths _ buf
  apply ensures_mono locked
  rintro result _ ⟨rfl, got⟩
  exact ensures_steady (.unlock queue result.vq) rfl trivial fun _ =>
    (ensures_pure _).mpr ⟨rfl, got⟩

theorem ensures_vqueueAddBuf (buf : VqueueBuf arch) (len : BitVec 32) :
    Stays published (vqueueAddBuf queue buf len) live := by
  unfold vqueueAddBuf
  simp only [ensures_bind, ensures_embed]
  refine ensures_steady (.lock queue) rfl trivial fun vq => ?_
  have locked : ensures (nsRing published queue) (vqueueAddBufLocked vq buf len) live fun _ final =>
      final = live := by
    unfold vqueueAddBufLocked
    simp only [ensures_bind, ensures_ite, ensures_pure]
    refine ⟨fun _ => trivial, fun _ => ⟨fun _ => trivial, fun _ => ?_⟩⟩
    exact ensures_ring _ fun _ => ensures_ring _ fun _ => ensures_ring _ fun _ =>
      ensures_ring _ fun _ =>
      ensures_ring _ fun _ => rfl
  apply ensures_mono locked
  rintro ret _ rfl
  exact ensures_steady (.unlock queue vq) rfl trivial fun _ => (ensures_pure _).mpr rfl

end Taking

/-! ### Mapping a buffer -/

section Mapping

variable {arch : Arch} {published : Fin tipcVqNum → BitVec 32 → Prop} {live : List (Region arch)}

/-- Rounding up to pages gives a size for which something is mapped, at least the length. -/
def Mappable (arch : Arch) (len : Nat) : Prop := 1 ≤ len ∧ len + (pageSize - 1) < 2 ^ arch.bits

theorem roundup_of_mappable {len : arch.Word} (mappable : Mappable arch len.toNat) :
    len.toNat ≤ (roundup len (BitVec.ofNat arch.bits pageSize)).toNat := by
  obtain ⟨pos, small⟩ := mappable
  rw [toNat_roundup, Nat.mod_eq_of_lt small]
  unfold pageSize
  omega

/-- A region for the first entry of a list, in front of the others. -/
structure MappedFor (iov : VqueueIov arch) (readOnly : Bool) (live : List (Region arch))
    (list : List (VqueueIov arch)) (region : Region arch) : Prop where
  list_eq : list = [{ iov with base := region.window.base }]
  len_eq : region.len = iov.len
  readOnly_eq : region.readOnly = readOnly
  enough : region.len.toNat ≤ region.window.size
  fresh : ∀ other ∈ live, other.window.base ≠ region.window.base

variable {list : VqueueIovs arch} {iov : VqueueIov arch}

theorem ensures_vqueueMapIovs (single : list.iovs = [iov]) (mappable : Mappable arch iov.len.toNat)
    (readOnly : Bool) :
    ensures (nsMemory published) (vqueueMapIovs list readOnly) live fun result final =>
      result.2.cnt = list.cnt ∧ ((result.1 ≠ noError ∧ final = live) ∨
        (result.1 = noError ∧ ∃ region, MappedFor iov readOnly live result.2.iovs region ∧
          final = region :: live)) := by
  unfold vqueueMapIovs
  rw [single, mapIovs]
  simp only [ensures_bind, ensures_pure]
  rw [op, ensures_perform]
  refine ⟨trivial, ?_⟩
  rintro answer _ ⟨spot, rfl, fresh, rfl⟩
  have large := roundup_of_mappable mappable
  by_cases failed :
    (vmmAllocPhysical (roundup iov.len (BitVec.ofNat arch.bits pageSize)) iov.phys spot).1 ≠ noError
  · have unmapped := vmmAllocPhysical_failed failed
    rw [if_pos failed, unmapped]
    simp only [ensures_bind, ensures_pure, reverse_nil, unmapIovs]
    exact ⟨trivial, .inl ⟨failed, rfl⟩⟩
  rw [not_not] at failed
  rw [if_neg (not_not.mpr failed)]
  obtain ⟨empty, -⟩ | ⟨-, place, rfl, mapped⟩ := vmmAllocPhysical_ok failed
  · have pos := mappable.1
    rw [empty, show (0 : arch.Word).toNat = 0 from BitVec.toNat_zero] at large
    omega
  · rw [mapIovs, ensures_pure, mapped]
    exact ⟨trivial, .inr ⟨rfl, _, ⟨rfl, rfl, rfl, large, fresh place rfl⟩, rfl⟩⟩

theorem MappedFor.ensures_unmap {readOnly : Bool} {region : Region arch}
    (mapped : MappedFor iov readOnly live list.iovs region) :
    ensures (nsMemory published) (vqueueUnmapIovs list) (region :: live) fun result final =>
      result.cnt = list.cnt ∧ final = live := by
  have rest :
      (region :: live).filter (fun other => other.window.base ≠ region.window.base) = live := by
    rw [filter_cons_of_neg (by simp), filter_eq_self]
    exact fun other member => decide_eq_true (mapped.fresh other member)
  unfold vqueueUnmapIovs
  rw [mapped.list_eq]
  simp only [unmapIovs, ensures_bind, ensures_pure]
  rw [op, ensures_perform]
  refine ⟨⟨region, mem_cons_self, rfl⟩, ?_⟩
  rintro _ _ rfl
  exact ⟨trivial, rest⟩

end Mapping

/-! ### Sending -/

section Sending

variable {arch : Arch} {published : Fin tipcVqNum → BitVec 32 → Prop} {live : List (Region arch)}
  {region : Region arch}

theorem ensures_dataCb (writable : region.readOnly = false) (cb : DataCb)
    {addr : arch.Word} {len : Nat} (reached : region.Reaches addr len) :
    Stays published (cb.call addr len) (region :: live) := by
  cases cb with
  | sendBuf =>
    simp only [DataCb.call, ensures_bind, ensures_pure]
    exact ensures_steady (.memcpy _ _) rfl ⟨region, mem_cons_self, writable, reached⟩ fun _ => rfl
  | txData =>
    exact ensures_steady (.readMsg _ _) rfl ⟨region, mem_cons_self, writable, reached⟩ fun _ => rfl

/-- The data that are asked for when the buffer has a length. -/
def askedFor (len : Nat) (dataLen : BitVec 16) : Nat :=
  if len < tipcHdrSize + dataLen.toNat then len - tipcHdrSize else dataLen.toNat

theorem toNat_askedFor {len : arch.Word} (header : tipcHdrSize ≤ len.toNat) (dataLen : BitVec 16) :
    (if len.toNat < tipcHdrSize + dataLen.toNat then
      (len - BitVec.ofNat arch.bits tipcHdrSize).setWidth 16 else dataLen).toNat = askedFor
      len.toNat dataLen := by
  unfold askedFor
  split
  · have rest : (len - BitVec.ofNat arch.bits tipcHdrSize).toNat = len.toNat - tipcHdrSize := by
      rw [BitVec.toNat_sub_of_le, BitVec.toNat_ofNat, Nat.mod_eq_of_lt (by omega)]
      rw [BitVec.le_def, BitVec.toNat_ofNat, Nat.mod_eq_of_lt (by omega)]
      exact header
    rw [BitVec.toNat_setWidth, rest]
    exact Nat.mod_eq_of_lt (by omega)
  · rfl

theorem askedFor_fits {len : Nat} (header : tipcHdrSize ≤ len) (dataLen : BitVec 16) :
    tipcHdrSize + askedFor len dataLen ≤ len := by
  unfold askedFor
  split <;> omega

theorem ensures_putMsg (mapped : region.len.toNat ≤ region.window.size)
    (writable : region.readOnly = false) (header : tipcHdrSize ≤ region.len.toNat)
    (loc remote : BitVec 32) (cb : DataCb) (dataLen : BitVec 16) (iov : VqueueIov arch)
    (base : iov.base = region.window.base) (len : iov.len = region.len) :
    Stays published (putMsg loc remote cb dataLen iov) (region :: live) := by
  have whole := Region.reaches_whole mapped
  have field (offset bytes : Nat) (value : BitVec (8 * bytes))
    (within : offset + bytes ≤ tipcHdrSize)
      {post : Unit → List (Region arch) → Prop} (rest : post () (region :: live)) :
      ensures (nsMemory published)
        (op (.write (region.window.base + BitVec.ofNat arch.bits offset) bytes value))
        (region :: live) post :=
    ensures_steady (.write _ bytes value) rfl
      ⟨region, mem_cons_self, writable, whole.part offset (by omega)⟩ fun _ => rest
  unfold putMsg
  rw [base, len]
  simp only [ensures_bind, ensures_pure]
  refine ensures_steady (.write _ 4 loc) rfl
    ⟨region, mem_cons_self, writable, whole.start (by unfold tipcHdrSize at header; omega)⟩ fun _ =>
      ?_
  refine field 4 4 remote (by decide) (field 8 4 0#32 (by decide) ?_)
  refine field 12 2 dataLen (by decide) (field 14 2 0#16 (by decide) ?_)
  rw [toNat_askedFor header]
  exact ensures_dataCb writable cb (whole.part _ (askedFor_fits header dataLen))

variable {buf : VqueueBuf arch}

theorem Lengths.single {published : BitVec 32 → Prop} (lengths : Lengths published buf)
    (write : Bool) {first : VqueueIov arch} {rest : List (VqueueIov arch)}
    (few : (buf.select write).used ≤ 1) (found : (buf.select write).iovs = first :: rest) :
    (buf.select write).iovs = [first] ∧ ∃ len, published len ∧ first.len.toNat = len.toNat := by
  constructor
  · unfold VqueueIovs.used at few
    rw [found, length_cons] at few
    have none : rest = [] := length_eq_zero_iff.mp (by omega)
    rw [found, none]
  · obtain ⟨len, known, same⟩ := lengths write first (by rw [found]; exact mem_cons_self)
    exact ⟨len, known, by rw [same, toNat_setWidth_word]⟩

theorem ensures_fillTxBuf
    (fits : ∀ len, published tipcVqTx len → len.toNat + (pageSize - 1) < 2 ^ arch.bits)
    (loc remote : BitVec 32) (cb : DataCb) (dataLen : BitVec 16) (few : buf.outIovs.used ≤ 1)
    (lengths : Lengths (published tipcVqTx) buf) :
    Stays published (fillTxBuf loc remote cb dataLen buf) live := by
  unfold Stays fillTxBuf
  split
  case h_1 => exact (ensures_pure _).mpr rfl
  case h_2 first rest found =>
    rw [ensures_ite]
    refine ⟨fun _ => (ensures_pure _).mpr rfl, fun header => ?_⟩
    obtain ⟨single, len, known, same⟩ := lengths.single true few found
    have mappable : Mappable arch first.len.toNat := by
      have bound := fits len known
      unfold tipcHdrSize at header
      exact ⟨by omega, by omega⟩
    rw [ensures_bind]
    apply ensures_mono (ensures_vqueueMapIovs single mappable false)
    rintro ⟨ret, list⟩ final ⟨-, ⟨failed, rfl⟩ | ⟨ok, region, mapped, rfl⟩⟩
    · dsimp only at failed ⊢
      split
      · exact (ensures_pure _).mpr rfl
      · rw [if_neg failed]
        exact (ensures_pure _).mpr rfl
    dsimp only at ok mapped ⊢
    rw [mapped.list_eq]
    dsimp only
    rw [if_pos ok, ensures_bind]
    have room : tipcHdrSize ≤ region.len.toNat := by
      rw [mapped.len_eq]
      omega
    refine ensures_of_stays
      (ensures_putMsg mapped.enough mapped.readOnly_eq room loc remote cb dataLen
      { first with base := region.window.base } rfl mapped.len_eq.symm) fun ret => ?_
    rw [ensures_bind]
    apply ensures_mono mapped.ensures_unmap
    rintro _ _ ⟨-, rfl⟩
    exact (ensures_pure _).mpr rfl

theorem ensures_getTxBuf (wait : Bool) (rounds : Nat) (buf : VqueueBuf arch)
    (out_cnt : buf.outIovs.cnt = maxTxIovs) :
    ensures (nsMemory published) (getTxBuf wait rounds buf) live fun got final =>
      final = live ∧ ∀ buf, got = .inr buf → buf.outIovs.used ≤ 1 ∧
      Lengths (published tipcVqTx) buf := by
  induction rounds generalizing buf with
  | zero => exact ensures_halt
  | succ rounds ih =>
    rw [getTxBuf, ensures_bind]
    apply ensures_mono (ensures_vqueueGetAvailBuf buf)
    rintro ⟨ret, got⟩ _ ⟨rfl, found⟩
    simp only [ensures_bind, ensures_ite, ensures_pure]
    refine ⟨fun ok => ⟨trivial, ?_⟩, fun _ => ⟨fun _ => ⟨trivial, ?_⟩, fun _ => ?_⟩⟩
    · rintro _ ⟨⟩
      obtain ⟨-, used, lengths⟩ := found.filled ok
      rw [out_cnt] at used
      exact ⟨used, lengths⟩
    · rintro _ ⟨⟩
    · refine ensures_steady (.waitAvail tipcVqTx) rfl trivial fun _ => ?_
      refine ensures_steady .txStop rfl trivial fun stop => ⟨fun _ => ⟨rfl, ?_⟩, fun _ => ?_⟩
      · rintro _ ⟨⟩
      · exact ih got (found.out_cnt.trans out_cnt)

theorem ensures_tipcSendData
    (fits : ∀ len, published tipcVqTx len → len.toNat + (pageSize - 1) < 2 ^ arch.bits)
    (rounds : Nat) (loc remote : BitVec 32) (cb : Option DataCb) (dataLen : BitVec 16)
    (wait : Bool) :
    Stays published (tipcSendData rounds loc remote cb dataLen wait) live := by
  cases cb with
  | none => exact (ensures_pure _).mpr rfl
  | some cb =>
    unfold Stays tipcSendData
    rw [ensures_bind]
    apply ensures_mono (ensures_getTxBuf wait rounds ⟨0, ⟨0, 0, []⟩, ⟨maxTxIovs, 0, []⟩⟩ rfl)
    rintro got _ ⟨rfl, found⟩
    cases got with
    | inl ret => exact (ensures_pure _).mpr rfl
    | inr buf =>
      obtain ⟨used, lengths⟩ := found buf rfl
      rw [ensures_bind]
      refine ensures_of_stays (ensures_fillTxBuf fits loc remote cb dataLen used lengths)
        fun result => ?_
      exact ensures_vqueueAddBuf result.2 (BitVec.ofInt 32 result.1)

end Sending

/-! ### Receiving -/

section Receiving

variable {arch : Arch} {published : Fin tipcVqNum → BitVec 32 → Prop} {live : List (Region arch)}
  {region : Region arch} {addr : arch.Word} {bytes : Nat} {buf : VqueueBuf arch}

theorem ensures_read (reached : region.Reaches addr bytes)
    {post : BitVec (8 * bytes) → List (Region arch) → Prop}
    (rest : ∀ value, post value (region :: live)) :
    ensures (nsMemory published) (op (.read addr bytes)) (region :: live) post :=
  ensures_steady (.read addr bytes) rfl ⟨region, mem_cons_self, reached⟩ rest

theorem ensures_strncpy {count : Nat} (reached : region.Reaches addr count) :
    Stays published (strncpy addr count) (region :: live) := by
  induction count generalizing addr with
  | zero => exact (ensures_pure _).mpr rfl
  | succ count ih =>
    rw [Stays, strncpy, ensures_bind]
    refine ensures_read (reached.start (by omega)) fun byte => ?_
    rw [ensures_ite, ensures_bind]
    refine ⟨fun _ => (ensures_pure _).mpr rfl, fun _ => ?_⟩
    exact ensures_of_stays (ih (reached.part 1 (by omega))) fun _ => (ensures_pure _).mpr rfl

theorem length_check {size : Nat} {rest whole : arch.Word} (short : size + rest.toNat < 2 ^ 32)
    (same : BitVec.ofNat arch.bits size + rest = whole) : whole.toNat = size + rest.toNat := by
  have word := word_cases arch
  rw [← same, BitVec.toNat_add, BitVec.toNat_ofNat, Nat.mod_add_mod, Nat.mod_eq_of_lt (by omega)]

theorem ensures_returnRxBuf (ret : Int) (buf : VqueueBuf arch) :
    ensures (nsMemory published) (returnRxBuf ret buf) live fun result final =>
      final = live ∧ result.2 = buf := by
  unfold returnRxBuf
  rw [ensures_bind]
  refine ensures_of_stays (ensures_vqueueAddBuf buf _) fun ret => ?_
  simp only [ensures_ite, ensures_pure]
  exact ⟨fun _ => ⟨trivial, trivial⟩, fun _ => ⟨fun _ => ensures_halt, fun _ => ⟨trivial, trivial⟩⟩⟩

section

variable (fits : ∀ len, published tipcVqTx len → len.toNat + (pageSize - 1) < 2 ^ arch.bits)
  (rounds : Nat)

include fits

theorem ensures_sendConnRsp : Stays published (sendConnRsp rounds) live :=
  ensures_tipcSendData fits rounds tipcCtrlAddr tipcCtrlAddr (some .sendBuf) connRspSize true

theorem ensures_handleConnReq (remote : BitVec 32)
    (reached : region.Reaches addr tipcMaxSrvNameLen) :
    Stays published (handleConnReq rounds remote addr) (region :: live) := by
  unfold Stays handleConnReq
  rw [ensures_bind]
  refine ensures_of_stays (ensures_strncpy reached) fun name => ?_
  rw [ensures_bind]
  refine ensures_steady (.connect name) rfl trivial fun err => ?_
  simp only [ensures_ite, ensures_bind, ensures_pure]
  refine ⟨fun _ => ?_, fun _ => ensures_sendConnRsp fits rounds⟩
  refine ensures_steady (.allocLocalAddr remote) rfl trivial fun loc => ⟨fun _ => ?_, fun _ => ?_⟩
  · exact ensures_steady .closeChan rfl trivial fun _ => ensures_sendConnRsp fits rounds
  · exact ensures_steady (.addChan loc) rfl trivial fun _ => rfl

theorem ensures_handleCtrlMsg (remote : BitVec 32) (msgLen : arch.Word)
    (reached : region.Reaches addr msgLen.toNat) :
    Stays published (handleCtrlMsg rounds remote addr msgLen) (region :: live) := by
  unfold handleCtrlMsg
  simp only [ensures_ite, ensures_bind, ensures_pure]
  refine ⟨fun _ => trivial, fun header => ?_⟩
  unfold tipcCtrlMsgHdrSize at header
  refine ensures_read (reached.start (by omega)) fun msgType => ?_
  refine ensures_read (reached.part 4 (by omega)) fun bodyLen => ⟨fun _ => rfl, fun whole => ?_⟩
  rw [not_not] at whole
  refine ⟨fun _ => ⟨fun _ => rfl, fun size => ?_⟩,
    fun _ => ⟨fun _ => ⟨fun _ => rfl, fun size => ?_⟩, fun _ => rfl⟩⟩
  · rw [not_not] at size
    have total := length_check (by rw [size]; decide) whole
    exact ensures_handleConnReq fits rounds remote (reached.part _ (by rw [total, size]))
  rw [not_not] at size
  have total := length_check (by rw [size]; decide) whole
  unfold handleDiscReq
  simp only [ensures_bind, ensures_pure]
  refine ensures_read (reached.part _ (by rw [total, size]; rfl)) fun target => ?_
  exact ensures_steady (.disconnect remote target) rfl trivial fun _ => rfl

theorem ensures_handleMapped (iov : VqueueIov arch)
    (reached : region.Reaches iov.base iov.len.toNat) :
    Stays published (handleMapped rounds iov) (region :: live) := by
  unfold handleMapped
  simp only [ensures_ite, ensures_bind, ensures_pure]
  refine ⟨fun _ => trivial, fun header => ?_⟩
  unfold tipcHdrSize at header
  refine ensures_read (reached.part 12 (by omega)) fun len => ?_
  refine ensures_read (reached.start (by omega)) fun srcAddr => ?_
  refine ensures_read (reached.part 4 (by omega)) fun dstAddr => ⟨fun _ => rfl, fun whole => ?_⟩
  rw [not_not] at whole
  have data : region.Reaches (iov.base + BitVec.ofNat arch.bits tipcHdrSize)
      (BitVec.setWidth arch.bits (len : BitVec 16)).toNat := by
    have short := Nat.mod_le (len : BitVec 16).toNat (2 ^ arch.bits)
    rw [← BitVec.toNat_setWidth] at short
    rw [BitVec.add_comm] at whole
    apply reached.part
    rw [length_check (by unfold tipcHdrSize; omega) whole]
  refine ⟨fun _ => ensures_handleCtrlMsg fits rounds srcAddr _ data, fun _ => ?_⟩
  unfold handleChanMsg
  rw [ensures_bind]
  refine ensures_steady (.lookupEpt dstAddr srcAddr) rfl trivial fun found => ?_
  rw [ensures_ite, ensures_pure]
  refine ⟨fun _ => ?_, fun _ => rfl⟩
  exact ensures_steady (.sendMsg _ _) rfl ⟨region, mem_cons_self, data⟩ fun _ => rfl

variable (mappable : ∀ len, published tipcVqRx len → Mappable arch len.toNat)

include mappable

theorem ensures_handleRxMsg (few : buf.inIovs.used ≤ 1)
    (lengths : Lengths (published tipcVqRx) buf) :
    ensures (nsMemory published) (handleRxMsg rounds buf) live fun result final =>
      final = live ∧ result.2.inIovs.cnt = buf.inIovs.cnt := by
  unfold handleRxMsg
  rw [ensures_ite, ensures_pure]
  refine ⟨fun _ => ⟨rfl, rfl⟩, fun some_used => ?_⟩
  obtain ⟨first, rest, found⟩ := exists_cons_of_length_pos (Nat.pos_of_ne_zero some_used)
  obtain ⟨single, len, known, same⟩ := lengths.single false few found
  rw [ensures_bind]
  apply ensures_mono (ensures_vqueueMapIovs single (same ▸ mappable len known) true)
  rintro ⟨ret, list⟩ final ⟨cnt, ⟨failed, rfl⟩ | ⟨ok, region, mapped, rfl⟩⟩
  · dsimp only at failed cnt ⊢
    split
    · exact (ensures_pure _).mpr ⟨rfl, cnt⟩
    · rw [if_pos failed]
      exact (ensures_pure _).mpr ⟨rfl, cnt⟩
  dsimp only at ok mapped cnt ⊢
  rw [mapped.list_eq]
  dsimp only
  rw [if_neg (not_not.mpr ok), ensures_bind]
  have reached : region.Reaches region.window.base first.len.toNat :=
    mapped.len_eq ▸ Region.reaches_whole mapped.enough
  refine ensures_of_stays
    (ensures_handleMapped fits rounds { first with base := region.window.base } reached)
    fun ret => ?_
  rw [ensures_bind]
  apply ensures_mono mapped.ensures_unmap
  rintro unmapped _ ⟨kept, rfl⟩
  exact (ensures_pure _).mpr ⟨rfl, kept.trans cnt⟩

theorem ensures_rxRound (in_cnt : buf.inIovs.cnt = maxRxIovs) :
    ensures (nsMemory published) (rxRound rounds buf) live fun result final =>
      final = live ∧ result.2.inIovs.cnt = maxRxIovs := by
  unfold rxRound
  rw [ensures_bind]
  apply ensures_mono (ensures_vqueueGetAvailBuf buf)
  rintro ⟨ret, got⟩ _ ⟨rfl, found⟩
  have cnt : got.inIovs.cnt = maxRxIovs := found.in_cnt.trans in_cnt
  simp only [ensures_ite, ensures_bind, ensures_pure]
  refine ⟨fun _ => ⟨trivial, cnt⟩,
    fun _ => ⟨fun _ => ⟨trivial, cnt⟩, fun _ => ⟨fun ok => ?_, fun _ => ?_⟩⟩⟩
  · obtain ⟨used, -, lengths⟩ := found.filled ok
    rw [in_cnt] at used
    apply ensures_mono (ensures_handleRxMsg fits rounds mappable used lengths)
    rintro ⟨ret, handled⟩ _ ⟨rfl, kept⟩
    apply ensures_mono (ensures_returnRxBuf ret handled)
    rintro ⟨_, _⟩ _ ⟨rfl, rfl⟩
    exact ⟨rfl, kept.trans cnt⟩
  · apply ensures_mono (ensures_returnRxBuf ret got)
    rintro ⟨_, _⟩ _ ⟨rfl, rfl⟩
    exact ⟨rfl, cnt⟩

theorem ensures_rxThread (more : Nat) (in_cnt : buf.inIovs.cnt = maxRxIovs) :
    Stays published (rxThread rounds more buf) live := by
  induction more generalizing buf with
  | zero => exact ensures_halt
  | succ more ih =>
    rw [rxThread]
    simp only [ensures_ite, ensures_bind, ensures_pure]
    refine ensures_steady .rxStop rfl trivial fun stop => ⟨fun _ => rfl, fun _ => ?_⟩
    refine ensures_steady (.waitAvail tipcVqRx) rfl trivial fun _ => ?_
    apply ensures_mono (ensures_rxRound fits rounds mappable in_cnt)
    rintro ⟨goOn, next⟩ _ ⟨rfl, cnt⟩
    exact ⟨fun _ => ih cnt, fun _ => rfl⟩

end

end Receiving

/-! ### Lengths that are not mapped -/

section Unmapped

variable {arch : Arch} {published : Fin tipcVqNum → BitVec 32 → Prop} {live : List (Region arch)}
  {queue : Fin tipcVqNum}

theorem answer_ring {operation : RingOp} {post : operation.Ans → List (Region arch) → Prop}
    (holds : ensures (nsRing published queue) (access operation) live post) (answer : operation.Ans)
    (steady : ∀ slot, operation ≠ .readDescLen slot) : post answer live := by
  rw [access, ensures_perform] at holds
  apply holds.2 answer live
  cases operation with
  | readDescLen slot => exact absurd rfl (steady slot)
  | _ => exact ⟨answer, rfl, rfl⟩

variable {len : BitVec 32} {buf : VqueueBuf arch}
  {post : Int × VqueueBuf arch → List (Region arch) → Prop}

theorem answer_ring_len {slot : Nat} {post : BitVec 32 → List (Region arch) → Prop}
    (holds : ensures (nsRing published queue) (access (.readDescLen slot)) live post)
    (known : published queue len) : post len live := by
  rw [access, ensures_perform] at holds
  exact holds.2 len live ⟨len, ⟨known, rfl⟩, rfl⟩

def oneSlot : Vqueue arch := { Vqueue.zeroed with vring := ⟨1, 0, 0, 0⟩, vringAddr := 1 }

theorem oneSlot_mapped : (oneSlot : Vqueue arch).vringAddr ≠ 0 := by
  change BitVec.ofNat arch.bits 1 ≠ BitVec.ofNat arch.bits 0
  obtain ⟨bits, rfl | rfl⟩ := arch <;> decide

theorem walkChain_takes {write : Bool} (room : (buf.select write).used < (buf.select write).cnt)
    (known : published queue len)
    (holds : ensures (nsRing published queue) (walkChain 1 0 buf) live post) :
    post (noError, buf.update write ((buf.select write).push len 0 len)) live := by
  rw [walkChain, if_neg (by decide)] at holds
  simp only [ensures_bind] at holds
  have chosen := answer_ring (answer_ring holds () (by simp)) (if write then vringDescFWrite else 0)
    (by simp)
  have select : ((if write then vringDescFWrite else 0) &&& vringDescFWrite != 0) = write := by
    cases write <;> decide
  rw [select, dif_pos room] at chosen
  simp only [ensures_bind] at chosen
  have stored := answer_ring_len (answer_ring (answer_ring_len chosen known) 0#64 (by simp)) known
  have last := answer_ring (answer_ring stored 0#16 (by simp)) 0#16 (by simp)
  rwa [if_neg (by decide), ensures_pure] at last

theorem getAvailBuf_takes
    (holds : ensures (nsMemory published) (vqueueGetAvailBuf queue buf) live post)
    (known : published queue len) (write : Bool) (room : 1 ≤ (buf.select write).cnt) :
    post (noError, VqueueBuf.update ⟨0, buf.inIovs.clear, buf.outIovs.clear⟩ write
      ((buf.select write).clear.push len 0 len)) live := by
  unfold vqueueGetAvailBuf at holds
  simp only [ensures_bind, ensures_embed] at holds
  rw [op, ensures_perform] at holds
  have locked := holds.2 oneSlot live rfl
  have one : (oneSlot : Vqueue arch).vring.num = 1 := rfl
  have zero : (oneSlot : Vqueue arch).lastAvailIdx = 0 := rfl
  rw [vqueueGetAvailBufLocked, if_neg oneSlot_mapped] at locked
  simp only [ensures_bind, one, zero] at locked
  have seen := answer_ring locked 1#16 (by simp)
  rw [if_neg (by decide)] at seen
  simp only [ensures_bind] at seen
  have again := answer_ring seen 1#16 (by simp)
  rw [if_neg (by decide)] at again
  unfold takeHead at again
  simp only [ensures_bind, one] at again
  have head := answer_ring again 0#16 (by simp)
  rw [if_neg (by decide), ensures_bind] at head
  have free : (VqueueBuf.select ⟨0, buf.inIovs.clear, buf.outIovs.clear⟩ write).used <
      (VqueueBuf.select ⟨0, buf.inIovs.clear, buf.outIovs.clear⟩ write).cnt := by
    cases write <;> exact room
  have taken := walkChain_takes free known head
  rw [ensures_pure, op, ensures_perform] at taken
  have unlocked := (ensures_pure _).mp (taken.2 () live rfl)
  cases write <;> exact unlocked

theorem roundup_of_not_mappable {len : arch.Word} (unmappable : ¬ Mappable arch len.toNat) :
    roundup len (BitVec.ofNat arch.bits pageSize) = 0 := by
  have word := word_cases arch
  apply BitVec.eq_of_toNat_eq
  rw [toNat_roundup, show (0 : arch.Word).toNat = 0 from BitVec.toNat_zero]
  unfold Mappable pageSize at unmappable
  unfold pageSize
  by_cases wraps : len.toNat + (4096 - 1) < 2 ^ arch.bits
  · rw [Nat.mod_eq_of_lt wraps]
    omega
  · rw [Nat.mod_eq_sub_mod (by omega), Nat.mod_eq_of_lt (by omega)]
    omega

theorem mapIovs_nothing {list : VqueueIovs arch} {iov : VqueueIov arch} (single : list.iovs = [iov])
    (unmappable : ¬ Mappable arch iov.len.toNat) {readOnly : Bool}
    {post : Int × VqueueIovs arch → List (Region arch) → Prop}
    (holds : ensures (nsMemory published) (vqueueMapIovs list readOnly) live post) :
    post (noError, { list with iovs := [{ iov with base := 0 }] }) live := by
  unfold vqueueMapIovs at holds
  rw [single, mapIovs] at holds
  simp only [ensures_bind, ensures_pure] at holds
  rw [roundup_of_not_mappable unmappable, op, ensures_perform] at holds
  have mapped : vmmAllocPhysical (0 : arch.Word) iov.phys none = (noError, none) := if_pos rfl
  have answered := holds.2 (noError, none) live ⟨none, mapped.symm, by simp, rfl⟩
  rw [if_neg (not_not.mpr rfl), mapIovs, ensures_pure] at answered
  exact answered

theorem handleRxMsg_fault (iov : VqueueIov arch) (single : buf.inIovs.iovs = [iov])
    (unmappable : ¬ Mappable arch iov.len.toNat) :
    ¬ ensures (nsMemory published) (handleRxMsg 0 buf) [] post := by
  intro holds
  have used : buf.inIovs.used ≠ 0 := by
    unfold VqueueIovs.used
    rw [single]
    exact Nat.one_ne_zero
  unfold handleRxMsg at holds
  rw [if_neg used, ensures_bind] at holds
  have mapped := mapIovs_nothing single unmappable holds
  dsimp only at mapped
  rw [if_neg (by decide), ensures_bind] at mapped
  unfold handleMapped at mapped
  rw [ensures_ite] at mapped
  by_cases short : iov.len.toNat < tipcHdrSize
  · -- nothing is mapped and the list is unmapped
    have unmapped := (ensures_pure _).mp (mapped.1 short)
    simp only [vqueueUnmapIovs, unmapIovs, ensures_bind] at unmapped
    rw [op, ensures_perform] at unmapped
    obtain ⟨⟨_, contra, _⟩, _⟩ := unmapped
    cases contra
  · -- nothing is mapped and the header is read
    have header := mapped.2 short
    rw [ensures_bind, op, ensures_perform] at header
    obtain ⟨⟨_, contra, _⟩, _⟩ := header
    cases contra

theorem fillTxBuf_fault {loc remote : BitVec 32} {cb : DataCb} {dataLen : BitVec 16}
    (iov : VqueueIov arch) (single : buf.outIovs.iovs = [iov]) (large : tipcHdrSize ≤ iov.len.toNat)
    (unmappable : ¬ Mappable arch iov.len.toNat) :
    ¬ ensures (nsMemory published) (fillTxBuf loc remote cb dataLen buf) [] post := by
  intro holds
  unfold fillTxBuf at holds
  rw [single] at holds
  dsimp only at holds
  rw [if_neg (by omega), ensures_bind] at holds
  have mapped := mapIovs_nothing single unmappable holds
  dsimp only at mapped
  rw [if_pos rfl, ensures_bind] at mapped
  unfold putMsg at mapped
  rw [ensures_bind, op, ensures_perform] at mapped
  obtain ⟨⟨_, contra, _⟩, _⟩ := mapped
  cases contra

theorem mappable_of_rxThread
    (holds :
      ∀ rounds more, ensures (nsMemory published) (rxThread rounds more (rxBuf : VqueueBuf arch)) []
        fun _ final => final = []) (known : published tipcVqRx len) : Mappable arch len.toNat := by
  by_contra unmappable
  have thread := holds 0 1
  rw [rxThread, ensures_bind, op, ensures_perform] at thread
  have going := thread.2 false [] rfl
  rw [if_neg (by decide), ensures_bind, op, ensures_perform] at going
  have round := going.2 () [] rfl
  rw [ensures_bind, rxRound, ensures_bind] at round
  have taken := getAvailBuf_takes round known false (Nat.le_refl 1)
  dsimp only at taken
  rw [if_neg (by decide), if_neg (by decide), if_pos rfl, ensures_bind] at taken
  apply handleRxMsg_fault ⟨0, len.setWidth arch.bits, BitVec.setWidth arch.bits 0#64⟩ rfl _ taken
  rwa [toNat_setWidth_word]

theorem fits_of_tipcSendData (holds : ∀ rounds, ensures (nsMemory published)
      (tipcSendData rounds 0 0 (some .sendBuf) 0 true : TipcDialog arch Int) []
        fun _ final => final = [])
    (known : published tipcVqTx len) : len.toNat + (pageSize - 1) < 2 ^ arch.bits := by
  by_contra wraps
  have word := word_cases arch
  have send := holds 1
  unfold tipcSendData at send
  rw [ensures_bind, getTxBuf, ensures_bind] at send
  have taken := getAvailBuf_takes send known true (Nat.le_refl 1)
  dsimp only at taken
  rw [if_pos rfl, ensures_pure, ensures_bind] at taken
  apply fillTxBuf_fault ⟨0, len.setWidth arch.bits, BitVec.setWidth arch.bits 0#64⟩ rfl _ _ taken
  · rw [toNat_setWidth_word]
    unfold pageSize at wraps
    unfold tipcHdrSize
    omega
  · rw [toNat_setWidth_word]
    exact fun mappable => wraps mappable.2

end Unmapped

/-- The device stays in the buffers and gives every mapping back exactly if rounding the
published lengths up to pages neither wraps around nor, for received messages, gives 0. -/
theorem buffers_safe_iff {arch : Arch} (published : Fin tipcVqNum → BitVec 32 → Prop) :
    ((∀ rounds more, ensures (nsMemory published) (rxThread rounds more (rxBuf : VqueueBuf arch)) []
        fun _ final => final = []) ∧
      ∀ rounds loc remote cb dataLen wait, ensures (nsMemory published)
        (tipcSendData rounds loc remote cb dataLen wait : TipcDialog arch Int) [] fun _ final =>
          final = []) ↔
      (∀ len, published tipcVqRx len → 1 ≤ len.toNat ∧ len.toNat + (pageSize - 1) < 2 ^ arch.bits) ∧
        ∀ len, published tipcVqTx len → len.toNat + (pageSize - 1) < 2 ^ arch.bits := by
  constructor
  · rintro ⟨received, sent⟩
    exact ⟨fun len known => mappable_of_rxThread received known,
      fun len known =>
        fits_of_tipcSendData (fun rounds => sent rounds 0 0 (some .sendBuf) 0 true) known⟩
  · rintro ⟨mappable, fits⟩
    exact ⟨fun rounds more => ensures_rxThread fits rounds mappable more rfl,
      fun rounds loc remote cb dataLen wait =>
        ensures_tipcSendData fits rounds loc remote cb dataLen wait⟩

/-- A received buffer of 4294963201 bytes: the size rounds up to 0, nothing is mapped, and
the header is read at address 12. -/
theorem rx_header_unmapped :
    Exec (nsMemory fun _ len => len = 0xfffff001#32)
      (handleRxMsg 0 (⟨0, ⟨1, 0xfffff001#32, [⟨0, 0xfffff001#32, 0⟩]⟩, ⟨0, 0, []⟩⟩ : VqueueBuf arm))
      [] .fault [] := by
  have nothing :
    vmmAllocPhysical (roundup 0xfffff001#32 (BitVec.ofNat 32 pageSize) : arm.Word) 0 none =
      (noError, none) := by decide
  have mapped : (nsMemory fun _ len => len = 0xfffff001#32).answers []
      (.map 0xfffff001#32 (roundup 0xfffff001#32 (BitVec.ofNat 32 pageSize)) 0 true : TipcOp arm)
      (noError, none) [] :=
    ⟨none, nothing.symm, by simp, rfl⟩
  refine Exec.ask trivial mapped ?_
  refine Exec.fault _ ?_
  rintro ⟨_, contra, _⟩
  cases contra

end Trusty.Virtio
