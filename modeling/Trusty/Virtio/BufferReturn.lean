import Trusty.Virtio.BufferSafety

/-!
What becomes of the buffers that a thread takes from the avail rings: that it puts each
one back on the used ring, and what stands in the ones it sends.
-/

namespace Trusty.Virtio

open Lib Kernel Dialog List

/-! ### The books of a thread -/

/-- The buffer of a queue that a thread has taken and not yet put back. -/
inductive HeadState where
  | free
  | taken (head : BitVec 16)
  /-- It is in the used ring, which does not yet end behind it. -/
  | entered
deriving DecidableEq

/-- What was done with a buffer of the tx queue: the recorded length, the result of the
mapping and the window that was mapped, the fields of the header by their offsets, and the
offset and size of the data or the error of the callback. -/
structure TxBuf (arch : Arch) where
  mapped : Option (Nat × Int × Option (Window arch.bits))
  header : List (Nat × Nat)
  stored : Option (Nat × Int)
  usedLen : BitVec 32
deriving DecidableEq

/-- A buffer that was taken. -/
def TxBuf.fresh {arch : Arch} : TxBuf arch := ⟨none, [], none, 0⟩

/-- Where the code takes the buffer to be: at its window, or at 0 if nothing was mapped. -/
def windowBase {arch : Arch} (window : Option (Window arch.bits)) : arch.Word :=
  (window.map Window.base).getD 0

structure Books (arch : Arch) where
  heads : Fin tipcVqNum → HeadState
  /-- The ring was seen to be destroyed. -/
  closed : Fin tipcVqNum → Bool
  tx : TxBuf arch
  sent : List (TxBuf arch)

section Books

variable {arch : Arch}

namespace Books

section

variable (books : Books arch) (queue : Fin tipcVqNum)

def setHead (head : HeadState) : Books arch :=
  { books with heads := Function.update books.heads queue head }

def setClosed (closed : Bool) : Books arch :=
  { books with closed := Function.update books.closed queue closed }

def setTx (tx : TxBuf arch) : Books arch := { books with tx := tx }

def take (head : BitVec 16) : Books arch :=
  if queue = tipcVqTx then (books.setHead queue (.taken head)).setTx .fresh
  else books.setHead queue (.taken head)

def setUsedLen (len : BitVec 32) : Books arch :=
  if queue = tipcVqTx then books.setTx { books.tx with usedLen := len } else books

def give : Books arch :=
  if queue = tipcVqTx then { books.setHead queue .free with sent := books.sent ++ [books.tx] }
  else books.setHead queue .free

/-- The offset of an address in the buffer that is mapped. -/
def offset (addr : arch.Word) : Nat :=
  (addr - (books.tx.mapped.elim 0 fun mapping => windowBase mapping.2.2)).toNat

def setStored (addr : arch.Word) (result : Int) : Books arch :=
  books.setTx { books.tx with stored := some (books.offset addr, result) }

/-- The thread has no buffer of the queue, or cannot put it back. -/
def Settled : Prop :=
  books.heads queue = .free ∨ books.closed queue = true

end

theorem closed_setClosed {books : Books arch} {queue : Fin tipcVqNum} {closed : Bool} :
    (books.setClosed queue closed).closed queue = closed := by
  simp [setClosed]

end Books

/-- A thread among others, which may destroy a ring for good.  Only the buffer that was taken
is put back; in the strict books the next one is taken only after that.  The flags of the
buffers to send are those of a set. -/
def bookkeeping (strict : Prop) (num : Fin tipcVqNum → BitVec 32) (flags : BitVec 16 → Prop) :
    Env (TipcOp arch) TipcOp.Ans (Books arch) where
  allowed books op :=
    match op with
    | .ring queue (.readAvailRing _) => strict → books.heads queue = .free
    | .ring queue (.writeUsedId _ value) =>
      ∃ head, books.heads queue = .taken head ∧ value = head.setWidth 32
    | .ring queue (.writeUsedIdx _) => books.heads queue = .entered
    | _ => True
  answers books op :=
    match op with
    | .lock queue =>
      fun vq next => vq.vring.num = num queue ∧ (books.closed queue = true → vq.vringAddr = 0) ∧
        next = books.setClosed queue (vq.vringAddr = 0)
    | .ring queue (.readAvailRing _) => fun head next => next = books.take queue head
    | .ring queue (.writeUsedId _ _) => fun _ next => next = books.setHead queue .entered
    | .ring queue (.writeUsedLen _ len) => fun _ next => next = books.setUsedLen queue len
    | .ring queue (.writeUsedIdx _) => fun _ next => next = books.give queue
    | .ring queue (.readDescFlags _) =>
      fun value next => next = books ∧ (queue = tipcVqTx → flags value)
    | .map len _ _ readOnly => fun answer next => next = if readOnly then books else
        books.setTx { books.tx with mapped := some (len.toNat, answer.1, answer.2) }
    | .write addr _ value => fun _ next =>
        next = books.setTx { books.tx with
          header := books.tx.header ++ [(books.offset addr, value.toNat)] }
    | .memcpy addr len => fun _ next => next = books.setStored addr len
    | .readMsg addr len => fun result next => next = books.setStored addr result ∧ result ≤ len
    | _ => fun _ next => next = books

/-- Operations that leave the books as they are. -/
def TipcOp.quiet : TipcOp arch → Bool
  | .lock _ | .ring _ _ | .write _ _ _ | .memcpy _ _ | .readMsg _ _ => false
  | .map _ _ _ readOnly => readOnly
  | _ => true

def RingOp.quiet : RingOp → Bool
  | .readAvailRing _ | .writeUsedId _ _ | .writeUsedLen _ _ | .writeUsedIdx _ => false
  | _ => true

variable {strict : Prop} {num : Fin tipcVqNum → BitVec 32} {flags : BitVec 16 → Prop}
  {books : Books arch} {queue : Fin tipcVqNum}

theorem keeps_quiet (operation : TipcOp arch) (quiet : operation.quiet = true)
    {post : operation.Ans → Books arch → Prop} (rest : ∀ answer, post answer books) :
    ensures (bookkeeping strict num flags) (op operation) books post := by
  rw [op, ensures_perform]
  cases operation with
  | lock | ring | write | memcpy | readMsg => cases quiet
  | map len size paddr readOnly =>
    refine ⟨trivial, ?_⟩
    rintro answer _ rfl
    rw [if_pos (show readOnly = true from quiet)]
    exact rest answer
  | _ =>
    refine ⟨trivial, ?_⟩
    rintro answer _ rfl
    exact rest answer

abbrev ringBooks (strict : Prop) (num : Fin tipcVqNum → BitVec 32) (flags : BitVec 16 → Prop)
    (queue : Fin tipcVqNum) :
    Env RingOp RingOp.Ans (Books arch) :=
  (bookkeeping strict num flags).comap (TipcOp.ring queue) fun _ answer => answer

theorem keeps_access (operation : RingOp) (quiet : operation.quiet = true)
    {post : operation.Ans → Books arch → Prop} (rest : ∀ answer, post answer books) :
    ensures (ringBooks strict num flags queue) (access operation) books post := by
  rw [access, ensures_perform]
  cases operation with
  | readAvailRing | writeUsedId | writeUsedLen | writeUsedIdx => cases quiet
  | readDescFlags slot =>
    refine ⟨trivial, ?_⟩
    rintro _ _ ⟨answer, ⟨rfl, -⟩, rfl⟩
    exact rest answer
  | _ =>
    refine ⟨trivial, ?_⟩
    rintro _ _ ⟨answer, rfl, rfl⟩
    exact rest answer

/-! ### Taking a buffer and putting it back -/

/-- The results of a walk along a chain. -/
def ChainResult (ret : Int) : Prop := ret = noError ∨ ret = errTooBig ∨ ret = errNotValid

theorem keeps_walkChain (size : BitVec 32) (nextIdx : BitVec 16) (buf : VqueueBuf arch)
    (filled : FilledFrom buf buf) :
    ensures (ringBooks strict num flags queue) (walkChain size nextIdx buf) books
      fun result final =>
      final = books ∧ FilledFrom buf result.2 ∧ ChainResult result.1 := by
  induction nextIdx, buf using walkChain.induct size with
  | case1 nextIdx buf outside =>
    rw [walkChain, if_pos outside, ensures_pure]
    exact ⟨rfl, filled, .inr (.inr rfl)⟩
  | case2 nextIdx buf bounded ih =>
    rw [walkChain, if_neg bounded]
    simp only [ensures_bind]
    refine keeps_access _ rfl fun _ => keeps_access _ rfl fun value => ?_
    by_cases free : (buf.select (value &&& vringDescFWrite != 0)).used <
        (buf.select (value &&& vringDescFWrite != 0)).cnt
    · rw [dif_pos free]
      simp only [ensures_bind, ensures_ite, ensures_pure]
      refine keeps_access _ rfl fun len => keeps_access _ rfl fun addr =>
        keeps_access _ rfl fun more =>
        keeps_access _ rfl fun next => keeps_access _ rfl fun again => ?_
      have pushed := filledFrom_push filled free len addr more
      refine ⟨fun _ => ?_, fun _ => ⟨rfl, pushed, .inl rfl⟩⟩
      refine ensures_mono (ih value free len addr more next pushed.self) ?_
      rintro result final ⟨same, found, ret⟩
      exact ⟨same, pushed.trans found, ret⟩
    · rw [dif_neg free, ensures_pure]
      exact ⟨rfl, filled, .inr (.inl rfl)⟩

/-- A single descriptor that the device writes. -/
def Single (flags : BitVec 16 → Prop) : Prop :=
  ∀ value, flags value → value &&& vringDescFWrite ≠ 0 ∧ value &&& vringDescFNext = 0

theorem flags_access (slot : Nat) {post : BitVec 16 → Books arch → Prop}
    (rest : ∀ value, flags value → post value books) :
    ensures (ringBooks strict num flags tipcVqTx) (access (.readDescFlags slot)) books post := by
  rw [access, ensures_perform]
  refine ⟨trivial, ?_⟩
  rintro _ _ ⟨value, ⟨rfl, known⟩, rfl⟩
  exact rest value (known rfl)

variable {buf : VqueueBuf arch}

theorem keeps_walkChain_single {size : BitVec 32} {nextIdx : BitVec 16}
    (bounded : nextIdx.toNat < size.toNat) (filled : FilledFrom buf buf) :
    ensures (ringBooks strict num flags queue) (walkChain size nextIdx buf) books fun result _ =>
      Single flags → queue = tipcVqTx → buf.outIovs.used < buf.outIovs.cnt →
      result.1 = noError := by
  by_cases well : Single flags ∧ queue = tipcVqTx ∧ buf.outIovs.used < buf.outIovs.cnt
  · obtain ⟨single, rfl, free⟩ := well
    rw [walkChain, if_neg (Nat.not_le.mpr bounded)]
    simp only [ensures_bind]
    refine keeps_access _ rfl fun _ => flags_access _ fun value known => ?_
    have write : (value &&& vringDescFWrite != 0) = true := bne_iff_ne.mpr (single value known).1
    rw [write, dif_pos (show (buf.select true).used < (buf.select true).cnt from free)]
    simp only [ensures_bind, ensures_ite, ensures_pure]
    refine keeps_access _ rfl fun len => keeps_access _ rfl fun addr =>
      keeps_access _ rfl fun more =>
      keeps_access _ rfl fun next => flags_access _ fun again known => ?_
    exact ⟨fun more => absurd (single again known).2 more, fun _ _ _ _ => trivial⟩
  · exact ensures_mono (keeps_walkChain size nextIdx buf filled) fun _ _ _ single tx free =>
      absurd ⟨single, tx, free⟩ well

/-- What `vqueue_get_avail_buf` leaves. -/
inductive Obtained (strict : Prop) (num : Fin tipcVqNum → BitVec 32) (flags : BitVec 16 → Prop)
    (queue : Fin tipcVqNum) (books : Books arch) (buf : VqueueBuf arch) :
    Int × VqueueBuf arch → Books arch → Prop
  | destroyed :
      Obtained strict num flags queue books buf (errChannelClosed, buf) (books.setClosed queue true)
  | empty (idle : strict → books.heads queue = .free) :
      Obtained strict num flags queue books buf (errNotEnoughBuffer, buf)
      (books.setClosed queue false)
  | taken {ret : Int} {got : VqueueBuf arch} (head : got.head.toNat < (num queue).toNat)
      (cnt : got.outIovs.cnt = buf.outIovs.cnt) (used : got.outIovs.used ≤ buf.outIovs.cnt)
      (result : ChainResult ret)
      (single : Single flags → queue = tipcVqTx → 0 < buf.outIovs.cnt → ret = noError) :
      Obtained strict num flags queue books buf (ret, got)
      ((books.setClosed queue false).take queue got.head)

theorem obtained_takeHead (vq : Vqueue arch) (size : vq.vring.num = num queue)
    (buf : VqueueBuf arch) (idle : strict → books.heads queue = .free) :
    ensures (ringBooks strict num flags queue) (takeHead vq buf) (books.setClosed queue false)
      fun result final =>
      Obtained strict num flags queue books buf (result.ret, result.buf) final := by
  unfold takeHead
  rw [ensures_bind, access, ensures_perform]
  refine ⟨idle, ?_⟩
  rintro _ _ ⟨nextIdx, rfl, rfl⟩
  simp only [ensures_bind, ensures_ite, ensures_pure, size]
  refine ⟨fun _ => ensures_halt, fun bounded => ?_⟩
  have start := filledFrom_cleared nextIdx buf
  refine ensures_mono (ensures_and (keeps_walkChain (num queue) nextIdx _ start)
    (keeps_walkChain_single (Nat.not_le.mp bounded) start)) ?_
  rintro ⟨ret, got⟩ final ⟨⟨rfl, filled, result⟩, single⟩
  have head : got.head = nextIdx := filled.head
  rw [← head]
  exact .taken (head ▸ Nat.not_le.mp bounded) filled.out_cnt filled.out_used result single

theorem obtained_vqueueGetAvailBuf (buf : VqueueBuf arch) (settled : strict → books.Settled queue) :
    ensures (bookkeeping strict num flags) (vqueueGetAvailBuf queue buf) books
      (Obtained strict num flags queue books buf) := by
  unfold vqueueGetAvailBuf
  simp only [ensures_bind, ensures_embed]
  rw [op, ensures_perform]
  refine ⟨trivial, ?_⟩
  rintro vq _ ⟨size, stays, rfl⟩
  have locked : ensures (ringBooks strict num flags queue) (vqueueGetAvailBufLocked vq buf)
      (books.setClosed queue (vq.vringAddr = 0)) fun result final =>
        Obtained strict num flags queue books buf (result.ret, result.buf) final := by
    unfold vqueueGetAvailBufLocked
    by_cases destroyed : vq.vringAddr = 0
    · rw [if_pos destroyed, decide_eq_true destroyed, ensures_pure]
      exact .destroyed
    have idle : strict → books.heads queue = .free := fun kept =>
      (settled kept).resolve_right fun closed => destroyed (stays closed)
    rw [if_neg destroyed, decide_eq_false destroyed]
    simp only [ensures_bind, ensures_ite, ensures_pure]
    refine keeps_access _ rfl fun idx =>
      ⟨fun _ => keeps_access _ rfl fun _ => ensures_halt, fun _ => ?_⟩
    refine keeps_access _ rfl fun idx => ⟨fun _ => ?_, fun _ => obtained_takeHead vq size buf idle⟩
    refine keeps_access _ rfl fun _ => keeps_access _ rfl fun _ => keeps_access _ rfl fun idx => ?_
    refine ⟨fun _ => .empty idle, fun _ => keeps_access _ rfl fun _ =>
      keeps_access _ rfl fun _ => ?_⟩
    exact obtained_takeHead { vq with availEvent := true } size buf idle
  refine ensures_mono locked fun result final obtained => ?_
  exact keeps_quiet (.unlock queue result.vq) rfl fun _ => (ensures_pure _).mpr obtained

/-- What `vqueue_add_buf` leaves. -/
inductive PutBack (queue : Fin tipcVqNum) (books : Books arch) (len : BitVec 32) :
    Int → Books arch → Prop
  | destroyed : PutBack queue books len errChannelClosed (books.setClosed queue true)
  | done : PutBack queue books len noError
      ((((books.setClosed queue false).setHead queue .entered).setUsedLen queue len).give queue)

theorem heads_setUsedLen (len : BitVec 32) : (books.setUsedLen queue len).heads = books.heads := by
  unfold Books.setUsedLen
  split <;> rfl

theorem putBack_vqueueAddBuf (holds : books.heads queue = .taken buf.head)
    (head : buf.head.toNat < (num queue).toNat) (len : BitVec 32) :
    ensures (bookkeeping strict num flags) (vqueueAddBuf queue buf len) books
      (PutBack queue books len) := by
  unfold vqueueAddBuf
  simp only [ensures_bind, ensures_embed]
  rw [op, ensures_perform]
  refine ⟨trivial, ?_⟩
  rintro vq _ ⟨size, -, rfl⟩
  have locked : ensures (ringBooks strict num flags queue) (vqueueAddBufLocked vq buf len)
      (books.setClosed queue (vq.vringAddr = 0)) (PutBack queue books len) := by
    unfold vqueueAddBufLocked
    by_cases destroyed : vq.vringAddr = 0
    · rw [if_pos destroyed, decide_eq_true destroyed, ensures_pure]
      exact .destroyed
    rw [if_neg destroyed, decide_eq_false destroyed,
      if_neg (by rw [size]; exact Nat.not_le.mpr head)]
    simp only [ensures_bind, ensures_pure]
    refine keeps_access _ rfl fun idx => ?_
    rw [access, ensures_perform]
    refine ⟨⟨buf.head, holds, rfl⟩, ?_⟩
    rintro _ _ ⟨_, rfl, rfl⟩
    rw [access, ensures_perform]
    refine ⟨trivial, ?_⟩
    rintro _ _ ⟨_, rfl, rfl⟩
    refine keeps_access _ rfl fun idx => ?_
    rw [access, ensures_perform]
    refine ⟨?_, ?_⟩
    · change (Books.setUsedLen _ queue len).heads queue = .entered
      rw [heads_setUsedLen]
      exact Function.update_self ..
    · rintro _ _ ⟨_, rfl, rfl⟩
      exact .done
  refine ensures_mono locked fun ret final put => ?_
  exact keeps_quiet (.unlock queue vq) rfl fun _ => (ensures_pure _).mpr put

end Books

/-! ### Sending -/

section Sending

variable {arch : Arch} {strict : Prop} {num : Fin tipcVqNum → BitVec 32} {flags : BitVec 16 → Prop}
  {books : Books arch}

def headerFields (loc remote : BitVec 32) (dataLen : Nat) : List (Nat × Nat) :=
  [(0, loc.toNat), (4, remote.toNat), (8, 0), (12, dataLen), (14, 0)]

/-- What `tipc_send_data` makes of a buffer, and the length it reports. -/
inductive Filled (loc remote : BitVec 32) (dataLen : BitVec 16) : Int → TxBuf arch → Prop
  | small : Filled loc remote dataLen errNotEnoughBuffer .fresh
  | unmapped {len : Nat} {ret : Int} {window : Option (Window arch.bits)} (failed : ret ≠ noError) :
      Filled loc remote dataLen ret ⟨some (len, ret, window), [], none, 0⟩
  | written {len : Nat} {result : Int} {window : Option (Window arch.bits)}
      (header : tipcHdrSize ≤ len) (most : result ≤ askedFor len dataLen) :
      Filled loc remote dataLen (if 0 ≤ result then result + tipcHdrSize else result)
        ⟨some (len, noError, window), headerFields loc remote dataLen.toNat,
          some (tipcHdrSize, result), 0⟩

variable {tx : TxBuf arch} {ret : Int} {window : Option (Window arch.bits)} {final : Books arch}

theorem offset_add {len : Nat} (mapped : tx.mapped = some (len, ret, window)) {offset : Nat}
    (small : offset ≤ tipcHdrSize) :
    (books.setTx tx).offset (windowBase window + BitVec.ofNat arch.bits offset) = offset := by
  have large := word_cases arch
  unfold tipcHdrSize at small
  change (_ - (tx.mapped.elim 0 fun mapping => windowBase mapping.2.2)).toNat = offset
  rw [mapped]
  change (windowBase window + BitVec.ofNat arch.bits offset - windowBase window).toNat = offset
  rw [add_sub_cancel_left, BitVec.toNat_ofNat]
  exact Nat.mod_eq_of_lt (by omega)

theorem ensures_field {len : Nat} (mapped : tx.mapped = some (len, ret, window)) (offset : Nat)
    {addr : arch.Word} (place : addr = windowBase window + BitVec.ofNat arch.bits offset)
    (small : offset ≤ tipcHdrSize) {bytes : Nat} (value : BitVec (8 * bytes))
    {post : Unit → Books arch → Prop}
    (rest : post () (books.setTx { tx with header := tx.header ++ [(offset, value.toNat)] })) :
    ensures (bookkeeping strict num flags) (op (.write addr bytes value))
      (books.setTx tx) post := by
  rw [op, ensures_perform]
  refine ⟨trivial, ?_⟩
  rintro _ _ rfl
  rw [place, offset_add mapped small]
  exact rest

theorem ensures_callback {len : Nat} (mapped : tx.mapped = some (len, ret, window)) (cb : DataCb)
    (asked : Nat) :
    ensures (bookkeeping strict num flags)
    (cb.call (windowBase window + BitVec.ofNat arch.bits tipcHdrSize) asked)
      (books.setTx tx) fun result final =>
        result ≤ asked ∧ final = books.setTx { tx with stored := some (tipcHdrSize, result) } := by
  cases cb with
  | sendBuf =>
    simp only [DataCb.call, ensures_bind, ensures_pure]
    rw [op, ensures_perform]
    refine ⟨trivial, ?_⟩
    rintro _ _ rfl
    rw [Books.setStored, offset_add mapped le_rfl]
    exact ⟨le_rfl, rfl⟩
  | txData =>
    rw [DataCb.call, op, ensures_perform]
    refine ⟨trivial, ?_⟩
    rintro result _ ⟨rfl, most⟩
    rw [Books.setStored, offset_add mapped le_rfl]
    exact ⟨most, rfl⟩

theorem filled_putMsg (loc remote : BitVec 32) (cb : DataCb) (dataLen : BitVec 16)
    (iov : VqueueIov arch) (header : tipcHdrSize ≤ iov.len.toNat) :
    ensures (bookkeeping strict num flags)
    (putMsg loc remote cb dataLen { iov with base := windowBase window })
      (books.setTx ⟨some (iov.len.toNat, noError, window), [], none, 0⟩) fun ret final =>
        ∃ tx, final = books.setTx tx ∧ Filled loc remote dataLen ret tx := by
  unfold putMsg
  simp only [ensures_bind, ensures_pure]
  refine ensures_field rfl 0 (BitVec.add_zero _).symm (by decide) _ ?_
  refine ensures_field rfl 4 rfl (by decide) _ ?_
  refine ensures_field rfl 8 rfl (by decide) _ ?_
  refine ensures_field rfl 12 rfl (by decide) _ ?_
  refine ensures_field rfl 14 rfl (by decide) _ ?_
  rw [toNat_askedFor header]
  refine ensures_mono (ensures_callback rfl cb _) ?_
  rintro result _ ⟨most, rfl⟩
  exact ⟨_, rfl, .written header most⟩

theorem filled_fillTxBuf (loc remote : BitVec 32) (cb : DataCb) (dataLen : BitVec 16)
    {buf : VqueueBuf arch} (few : buf.outIovs.used ≤ 1) (start : books.tx = .fresh) :
    ensures (bookkeeping strict num flags) (fillTxBuf loc remote cb dataLen buf) books
      fun result final =>
      result.2.head = buf.head ∧ ∃ tx, final = books.setTx tx ∧
      Filled loc remote dataLen result.1 tx := by
  have same : books = books.setTx .fresh := by rw [← start]; rfl
  unfold fillTxBuf
  split
  case h_1 => exact (ensures_pure _).mpr ⟨rfl, _, same, .small⟩
  case h_2 first rest found =>
    simp only [ensures_ite, ensures_bind, ensures_pure]
    refine ⟨fun _ => ⟨trivial, _, same, .small⟩, fun header => ?_⟩
    have single : buf.outIovs.iovs = [first] := by
      unfold VqueueIovs.used at few
      rw [found, length_cons] at few
      rw [found, length_eq_zero_iff.mp (show rest.length = 0 by omega)]
    unfold vqueueMapIovs
    rw [single, mapIovs]
    simp only [ensures_ite, ensures_bind, ensures_pure]
    rw [op, ensures_perform]
    refine ⟨trivial, ?_⟩
    rintro ⟨ret, mapping⟩ _ rfl
    rw [if_neg Bool.false_ne_true, start]
    refine ⟨fun failed => ?_, fun ok => ?_⟩
    · simp only [reverse_nil, unmapIovs, ensures_pure, map_nil, nil_append]
      rw [if_neg failed, ensures_pure]
      exact ⟨rfl, _, rfl, .unmapped failed⟩
    rw [mapIovs, ensures_pure]
    simp only [nil_append, if_pos, ensures_bind, ensures_pure]
    rw [show ret = noError from not_not.mp ok]
    refine ensures_mono (filled_putMsg loc remote cb dataLen first (Nat.not_lt.mp header)) ?_
    rintro ret final filled
    unfold vqueueUnmapIovs unmapIovs unmapIovs
    simp only [ensures_bind, ensures_pure]
    exact keeps_quiet (.unmap _) rfl fun _ => ⟨trivial, filled⟩

/-- Nothing has happened on the other queue. -/
def Books.SameRx (books final : Books arch) : Prop :=
  final.heads tipcVqRx = books.heads tipcVqRx ∧ final.closed tipcVqRx = books.closed tipcVqRx

/-- A buffer to send was taken. -/
structure Holding (num : Fin tipcVqNum → BitVec 32) (buf : VqueueBuf arch) (books : Books arch) :
    Prop where
  holds : books.heads tipcVqTx = .taken buf.head
  head : buf.head.toNat < (num tipcVqTx).toNat
  few : buf.outIovs.used ≤ 1
  start : books.tx = .fresh

/-- What the wait for a buffer ends with. -/
structure TxGot (strict : Prop) (num : Fin tipcVqNum → BitVec 32) (flags : BitVec 16 → Prop)
    (books : Books arch) (got : Int ⊕ VqueueBuf arch) (final : Books arch) : Prop where
  rx : books.SameRx final
  sent : final.sent = books.sent
  refused : ∀ ret, got = .inl ret → ret < 0 ∧ (strict → Single flags → final.Settled tipcVqTx)
  holding : ∀ buf, got = .inr buf → Holding num buf final

theorem TxGot.refuse (rx : books.SameRx final) (sent : final.sent = books.sent) (negative : ret < 0)
    (settled : strict → Single flags → final.Settled tipcVqTx) :
    TxGot strict num flags books (.inl ret) final where
  rx := rx
  sent := sent
  refused := by
    rintro _ ⟨⟩
    exact ⟨negative, settled⟩
  holding := by rintro _ ⟨⟩

theorem txGot_getTxBuf (wait : Bool) (rounds : Nat) (buf : VqueueBuf arch)
    (cnt : buf.outIovs.cnt = maxTxIovs) (settled : strict → books.Settled tipcVqTx) :
    ensures (bookkeeping strict num flags) (getTxBuf wait rounds buf) books
      (TxGot strict num flags books) := by
  induction rounds generalizing buf books with
  | zero => exact ensures_halt
  | succ rounds ih =>
    rw [getTxBuf, ensures_bind]
    refine ensures_mono (obtained_vqueueGetAvailBuf buf settled) ?_
    intro result final obtained
    simp only [ensures_bind, ensures_ite, ensures_pure]
    cases obtained with
    | destroyed =>
      dsimp only
      refine ⟨fun ok => absurd ok (by decide),
        fun _ => ⟨fun _ => ?_, fun again => absurd (.inl (by decide)) again⟩⟩
      exact .refuse ⟨rfl, rfl⟩ rfl (by decide) fun _ _ => .inr Books.closed_setClosed
    | empty idle =>
      dsimp only
      refine ⟨fun ok => absurd ok (by decide), fun _ => ?_⟩
      refine ⟨fun _ => .refuse ⟨rfl, rfl⟩ rfl (by decide) fun kept _ => .inl (idle kept),
        fun _ => ?_⟩
      refine keeps_quiet (.waitAvail tipcVqTx) rfl fun _ => keeps_quiet .txStop rfl fun stop => ?_
      refine ⟨fun _ => .refuse ⟨rfl, rfl⟩ rfl (by decide) fun kept _ => .inl (idle kept),
        fun _ => ?_⟩
      refine ensures_mono (ih buf cnt fun kept => .inl (idle kept)) fun _ _ got => ?_
      exact ⟨got.rx, got.sent, got.refused, got.holding⟩
    | @taken ret got head same used result single =>
      refine ⟨fun _ => ⟨⟨rfl, rfl⟩, rfl, ?_, ?_⟩, fun failed => ?_⟩
      · rintro _ ⟨⟩
      · rintro _ ⟨⟩
        exact ⟨Function.update_self tipcVqTx _ books.heads, head, used.trans cnt.le, rfl⟩
      obtain ⟨negative, other⟩ : ret < 0 ∧ ret ≠ errNotEnoughBuffer := by
        obtain ok | rfl | rfl := result
        · exact absurd ok failed
        · decide
        · decide
      refine ⟨fun _ => .refuse ⟨rfl, rfl⟩ rfl negative fun _ well => ?_, fun again =>
        absurd (.inl other) again⟩
      exact absurd (single well rfl (by rw [cnt]; decide)) failed

/-- What `tipc_send_data` leaves: an error and no buffer, or one buffer with the length that
was reported for it. -/
structure SendEnd (strict : Prop) (flags : BitVec 16 → Prop) (loc remote : BitVec 32)
    (dataLen : BitVec 16) (books : Books arch) (ret : Int) (final : Books arch) : Prop where
  rx : books.SameRx final
  settled : strict → Single flags → final.Settled tipcVqTx
  sent : (ret < 0 ∧ final.sent = books.sent) ∨ ret = noError ∧
    ∃ reported tx, Filled loc remote dataLen reported tx ∧
    final.sent = books.sent ++ [{ tx with usedLen := BitVec.ofInt 32 reported }]

theorem sendEnd_of_putBack {loc remote : BitVec 32} {dataLen : BitVec 16} {got : Books arch}
    {reported : Int} (rx : books.SameRx got) (sent : got.sent = books.sent)
    (filled : Filled loc remote dataLen reported tx)
    (put : PutBack tipcVqTx (got.setTx tx) (BitVec.ofInt 32 reported) ret final) :
    SendEnd strict flags loc remote dataLen books ret final := by
  cases put with
  | destroyed => exact ⟨rx, fun _ _ => .inr Books.closed_setClosed, .inl ⟨by decide, sent⟩⟩
  | done =>
    refine ⟨rx, fun _ _ => .inl rfl, .inr ⟨rfl, reported, tx, filled, ?_⟩⟩
    rw [← sent]
    rfl

theorem sendEnd_tipcSendData (rounds : Nat) (loc remote : BitVec 32) (cb : Option DataCb)
    (dataLen : BitVec 16) (wait : Bool) (settled : strict → books.Settled tipcVqTx) :
    ensures (bookkeeping strict num flags) (tipcSendData rounds loc remote cb dataLen wait) books
      (SendEnd strict flags loc remote dataLen books) := by
  cases cb with
  | none =>
    exact (ensures_pure _).mpr ⟨⟨rfl, rfl⟩, fun kept _ => settled kept, .inl ⟨by decide, rfl⟩⟩
  | some cb =>
    simp only [tipcSendData, ensures_bind]
    refine ensures_mono (txGot_getTxBuf wait rounds _ rfl settled) fun got between found => ?_
    cases got with
    | inl ret =>
      obtain ⟨negative, kept⟩ := found.refused ret rfl
      exact (ensures_pure _).mpr ⟨found.rx, kept, .inl ⟨negative, found.sent⟩⟩
    | inr buf =>
      have holding := found.holding buf rfl
      rw [ensures_bind]
      refine ensures_mono (filled_fillTxBuf loc remote cb dataLen holding.few holding.start) ?_
      rintro ⟨reported, filled⟩ _ ⟨head, tx, rfl, written⟩
      refine ensures_mono (putBack_vqueueAddBuf (head ▸ holding.holds) (head ▸ holding.head) _) ?_
      exact fun ret final put => sendEnd_of_putBack found.rx found.sent written put

/-! ### Whether a message arrives -/

/-- The loop of `handle_tx_msg` over the messages that `ipc_get_msg` finds, by their ids and
sizes: those that are retired, with the result of sending them. -/
def forwardMsgs (rounds : Nat) (remote : BitVec 32) :
    List (BitVec 32 × arch.Word) → TipcDialog arch (List (BitVec 32 × Int))
  | [] => return []
  | msg :: rest => do
    let ret ← tipcSendData rounds 0 remote (some .txData) (msg.2.setWidth 16) true
    let retired ← forwardMsgs rounds remote rest
    return (msg.1, ret) :: retired

/-- `handle_tx_msg`, with the remote address of the endpoint that the cookie gives. -/
def handleTxMsg (rounds : Nat) (ept : Option (BitVec 32)) (msgs : List (BitVec 32 × arch.Word)) :
    TipcDialog arch (List (BitVec 32 × Int)) :=
  match ept with
  | none => return []
  | some remote => forwardMsgs rounds remote msgs

/-- The header and all data are in the memory that was mapped for the buffer, and the used
length covers both. -/
structure TxBuf.Whole (loc remote : BitVec 32) (size : Nat) (buf : TxBuf arch) : Prop where
  inside : ∃ len window, buf.mapped = some (len, noError, some window) ∧
    tipcHdrSize + size ≤ window.size
  header : buf.header = headerFields loc remote size
  stored : buf.stored = some (tipcHdrSize, (size : Int))
  usedLen : buf.usedLen = BitVec.ofNat 32 (tipcHdrSize + size)

/-- The payload that the header announces. -/
def TxBuf.announced (buf : TxBuf arch) : Nat := (buf.header.lookup 12).getD 0

def TxBuf.payload (buf : TxBuf arch) : Int := buf.stored.elim 0 Prod.snd

/-- Success means delivered, given the buffers that were put on the used ring. -/
structure Delivered (loc remote : BitVec 32) (size : Nat) (ret : Int)
    (returned : List (TxBuf arch)) : Prop where
  whole : ret = noError → ∃ buf, returned = [buf] ∧ buf.Whole loc remote size
  failed : ret ≠ noError → ret < 0
  honest : ∀ buf ∈ returned, buf.announced ≤ buf.payload

/-- The buffers are really mapped, they are large enough and the callback gives all data. -/
def Roomy (size : Nat) (returned : List (TxBuf arch)) : Prop :=
  ∀ buf ∈ returned, (∃ len window, buf.mapped = some (len, noError, some window) ∧
      tipcHdrSize + size ≤ min len window.size) ∧ buf.stored.map Prod.snd = some (size : Int)

/-- Each message was sent before it was retired, and success means delivered if there was room. -/
inductive Forwarded (remote : BitVec 32) :
    List (BitVec 32 × arch.Word) → List (BitVec 32 × Int) → List (TxBuf arch) → Prop
  | nil : Forwarded remote [] [] []
  | cons {id : BitVec 32} {len : arch.Word} {ret : Int} {msgs : List (BitVec 32 × arch.Word)}
      {retired : List (BitVec 32 × Int)} {returned more : List (TxBuf arch)}
      (sent : Delivered 0 remote len.toNat ret returned ↔ Roomy len.toNat returned)
      (rest : Forwarded remote msgs retired more) :
      Forwarded remote ((id, len) :: msgs) ((id, ret) :: retired) (returned ++ more)

theorem askedFor_le (len : Nat) (dataLen : BitVec 16) : askedFor len dataLen ≤ dataLen.toNat := by
  unfold askedFor
  split <;> omega

section

variable {loc remote : BitVec 32} {dataLen : BitVec 16} {size : Nat}
  (cut : dataLen.toNat = size % 2 ^ 16)

include cut

theorem whole_iff_roomy {reported : Int} {tx : TxBuf arch}
    (filled : Filled loc remote dataLen reported tx) :
    TxBuf.Whole loc remote size { tx with usedLen := BitVec.ofInt 32 reported } ↔
      Roomy size [{ tx with usedLen := BitVec.ofInt 32 reported }] := by
  unfold Roomy
  simp only [forall_mem_singleton]
  cases filled with
  | small =>
    refine ⟨fun whole => ?_, fun roomy => ?_⟩
    · cases whole.stored
    · cases roomy.2
  | unmapped failed =>
    refine ⟨fun whole => ?_, fun roomy => ?_⟩
    · cases whole.stored
    · cases roomy.2
  | @written len result window header most =>
    have least := askedFor_le len dataLen
    refine ⟨fun whole => ?_, fun roomy => ?_⟩
    · obtain rfl : result = size := congrArg Prod.snd (Option.some.inj whole.stored)
      obtain ⟨_, mapped, ⟨⟩, within⟩ := whole.inside
      refine ⟨⟨len, mapped, rfl, le_min ?_ within⟩, rfl⟩
      unfold askedFor at most
      split at most <;> omega
    · obtain rfl : result = size := Option.some.inj roomy.2
      obtain ⟨_, mapped, ⟨⟩, within⟩ := roomy.1
      have uncut : dataLen.toNat = size := by omega
      refine ⟨⟨_, mapped, rfl, within.trans (Nat.min_le_right _ _)⟩, by rw [uncut], rfl, ?_⟩
      rw [if_pos (Int.natCast_nonneg _), ← Nat.cast_add, Nat.add_comm, BitVec.ofInt_natCast]

theorem delivered_iff_roomy {ret : Int} {final : Books arch}
    (found : SendEnd strict flags loc remote dataLen books ret final) :
    ∃ returned, final.sent = books.sent ++ returned ∧
      (Delivered loc remote size ret returned ↔ Roomy size returned) := by
  obtain ⟨negative, same⟩ | ⟨rfl, reported, tx, filled, sent⟩ := found.sent
  · have failed : ret ≠ noError := negative.ne
    refine ⟨[], by rw [same, append_nil], ?_⟩
    refine iff_of_true ⟨fun ok => absurd ok failed, fun _ => negative, ?_⟩ ?_
    · rintro _ ⟨⟩
    · rintro _ ⟨⟩
  · refine ⟨_, sent, ?_⟩
    rw [← whole_iff_roomy cut filled]
    refine ⟨fun delivered => ?_, fun whole =>
      ⟨fun _ => ⟨_, rfl, whole⟩, fun failed => absurd rfl failed, ?_⟩⟩
    · obtain ⟨buf, same, whole⟩ := delivered.whole rfl
      rwa [← singleton_inj.mp same] at whole
    · rw [forall_mem_singleton, TxBuf.announced, TxBuf.payload, whole.header, whole.stored]
      exact le_rfl

end

theorem forwarded_forwardMsgs (rounds : Nat) (remote : BitVec 32)
    (msgs : List (BitVec 32 × arch.Word)) :
    ensures (bookkeeping False num flags) (forwardMsgs rounds remote msgs) books
      fun retired final =>
      ∃ returned, final.sent = books.sent ++ returned ∧ Forwarded remote msgs retired returned := by
  induction msgs generalizing books with
  | nil => exact (ensures_pure _).mpr ⟨[], (append_nil _).symm, .nil⟩
  | cons msg rest ih =>
    simp only [forwardMsgs, ensures_bind, ensures_pure]
    refine ensures_mono
      (sendEnd_tipcSendData rounds 0 remote (some .txData) (msg.2.setWidth 16) true False.elim) ?_
    intro ret between found
    obtain ⟨returned, sent, whole⟩ := delivered_iff_roomy (BitVec.toNat_setWidth 16 msg.2) found
    refine ensures_mono (@ih between) ?_
    rintro retired final ⟨more, later, forwarded⟩
    exact ⟨returned ++ more, by rw [later, sent, append_assoc], .cons whole forwarded⟩

theorem tipcSendData_delivers_iff (num : Fin tipcVqNum → BitVec 32) (flags : BitVec 16 → Prop)
    (books : Books arch) (rounds : Nat) :
    (∀ loc remote cb dataLen wait, ensures (bookkeeping False num flags)
        (tipcSendData rounds loc remote cb dataLen wait) books fun ret final =>
          ∃ returned, final.sent = books.sent ++ returned ∧
            (Delivered loc remote dataLen.toNat ret returned ↔ Roomy dataLen.toNat returned)) ∧
      ∀ ept msgs, ensures (bookkeeping False num flags) (handleTxMsg rounds ept msgs) books
        fun retired final => ∃ returned, final.sent = books.sent ++ returned ∧
          ∀ remote, ept = some remote → Forwarded remote msgs retired returned := by
  refine ⟨fun loc remote cb dataLen wait => ?_, fun ept msgs => ?_⟩
  · refine ensures_mono (sendEnd_tipcSendData rounds loc remote cb dataLen wait False.elim) ?_
    exact fun ret final found => delivered_iff_roomy (Nat.mod_eq_of_lt dataLen.isLt).symm found
  cases ept with
  | none => exact (ensures_pure _).mpr ⟨[], (append_nil _).symm, by rintro _ ⟨⟩⟩
  | some remote =>
    refine ensures_mono (forwarded_forwardMsgs rounds remote msgs) ?_
    rintro retired final ⟨returned, sent, forwarded⟩
    refine ⟨returned, sent, ?_⟩
    rintro _ ⟨⟩
    exact forwarded

end Sending

/-! ### Receiving -/

section Receiving

variable {arch : Arch} {num : Fin tipcVqNum → BitVec 32} {flags : BitVec 16 → Prop}
  {start books : Books arch}

/-- No buffer to send is held, and nothing has happened on the other queue. -/
structure Steady (start books : Books arch) : Prop where
  rx : start.SameRx books
  tx : books.Settled tipcVqTx

theorem quiet {operation : TipcOp arch} {invariant : Books arch → Prop}
    (quiet : operation.quiet = true) :
    Keeps (bookkeeping True num flags) invariant (op operation) :=
  fun _ kept => keeps_quiet operation quiet fun _ => kept

theorem steady_unmapIovs (iovs : List (VqueueIov arch)) :
    Keeps (bookkeeping True num flags) (Steady start) (unmapIovs iovs) := by
  induction iovs with
  | nil => exact .pure _
  | cons iov rest ih => exact .bind (quiet rfl) fun _ => ih

theorem steady_mapIovs (mapped iovs : List (VqueueIov arch)) :
    Keeps (bookkeeping True num flags) (Steady start) (mapIovs true mapped iovs) := by
  induction iovs generalizing mapped with
  | nil => exact .pure _
  | cons iov rest ih =>
    exact .bind (quiet rfl) fun _ => .ite (.bind (steady_unmapIovs _) fun _ => .pure _) (ih _)

theorem steady_strncpy (addr : arch.Word) (count : Nat) :
    Keeps (bookkeeping True num flags) (Steady start) (strncpy addr count) := by
  induction count generalizing addr with
  | zero => exact .pure _
  | succ count ih => exact .bind (quiet rfl) fun _ => .ite (.pure _) (.bind (ih _) fun _ => .pure _)

section

variable (well : Single flags) (rounds : Nat)

include well rounds

theorem steady_sendConnRsp :
    Keeps (bookkeeping True num flags) (Steady start)
    (sendConnRsp rounds : TipcDialog arch Int) := by
  intro books steady
  refine ensures_mono
    (sendEnd_tipcSendData rounds tipcCtrlAddr tipcCtrlAddr (some .sendBuf) connRspSize true
    fun _ => steady.tx) fun ret final found => ?_
  exact ⟨⟨found.rx.1.trans steady.rx.1, found.rx.2.trans steady.rx.2⟩, found.settled trivial well⟩

theorem steady_handleConnReq (remote : BitVec 32) (nsReq : arch.Word) :
    Keeps (bookkeeping True num flags) (Steady start) (handleConnReq rounds remote nsReq) :=
  have respond := steady_sendConnRsp well rounds
  .bind (steady_strncpy _ _) fun _ => .bind (quiet rfl) fun _ => .ite
    (.bind (quiet rfl) fun _ => .ite (.bind (quiet rfl) fun _ => respond)
      (.bind (quiet rfl) fun _ => .pure _)) respond

theorem steady_handleCtrlMsg (remote : BitVec 32) (nsData msgLen : arch.Word) :
    Keeps (bookkeeping True num flags) (Steady start)
    (handleCtrlMsg rounds remote nsData msgLen) := by
  refine .ite (.pure _) (.bind (quiet rfl) fun _ => .bind (quiet rfl) fun _ =>
    .ite (.pure _) (.ite ?_ (.ite ?_ (.pure _))))
  · exact .ite (.pure _) (steady_handleConnReq well rounds remote _)
  · exact .ite (.pure _) (.bind (quiet rfl) fun _ => .bind (quiet rfl) fun _ => .pure _)

theorem steady_handleMapped (iov : VqueueIov arch) :
    Keeps (bookkeeping True num flags) (Steady start) (handleMapped rounds iov) := by
  refine .ite (.pure _) (.bind (quiet rfl) fun _ => .bind (quiet rfl) fun _ =>
    .bind (quiet rfl) fun _ => ?_)
  refine .ite (.pure _) (.ite (steady_handleCtrlMsg well rounds _ _ _) ?_)
  exact .bind (quiet rfl) fun _ => .ite (quiet rfl) (.pure _)

theorem steady_handleRxMsg {buf : VqueueBuf arch} (steady : Steady start books) :
    ensures (bookkeeping True num flags) (handleRxMsg rounds buf) books fun result final =>
      Steady start final ∧ result.2.head = buf.head := by
  unfold handleRxMsg
  simp only [ensures_ite, ensures_bind, ensures_pure]
  refine ⟨fun _ => ⟨steady, trivial⟩, fun _ => ?_⟩
  unfold vqueueMapIovs
  simp only [ensures_bind, ensures_pure]
  refine ensures_mono (steady_mapIovs [] _ books steady) ?_
  rintro ⟨ret, iovs⟩ between kept
  split
  case h_1 => exact (ensures_pure _).mpr ⟨kept, rfl⟩
  case h_2 =>
    simp only [ensures_ite, ensures_bind, ensures_pure]
    refine ⟨fun _ => ⟨kept, trivial⟩, fun _ => ?_⟩
    refine ensures_mono (steady_handleMapped well rounds _ between kept) fun ret last kept => ?_
    unfold vqueueUnmapIovs
    simp only [ensures_bind, ensures_pure]
    exact ensures_mono (steady_unmapIovs _ last kept) fun _ _ kept => ⟨kept, trivial⟩

end

/-- The thread has put every buffer back that it can. -/
def Books.AllSettled (books : Books arch) : Prop := ∀ queue, books.Settled queue

theorem Books.allSettled_iff :
    books.AllSettled ↔ books.Settled tipcVqRx ∧ books.Settled tipcVqTx := by
  refine ⟨fun all => ⟨all _, all _⟩, fun ⟨rx, tx⟩ queue => ?_⟩
  obtain rfl | rfl : queue = tipcVqTx ∨ queue = tipcVqRx := by revert queue; decide
  · exact tx
  · exact rx

theorem settled_returnRxBuf {buf : VqueueBuf arch} (holds : books.heads tipcVqRx = .taken buf.head)
    (head : buf.head.toNat < (num tipcVqRx).toNat) (tx : books.Settled tipcVqTx) (ret : Int) :
    ensures (bookkeeping True num flags) (returnRxBuf ret buf) books fun _ final =>
      final.AllSettled := by
  unfold returnRxBuf
  simp only [ensures_bind, ensures_ite, ensures_pure]
  refine ensures_mono (putBack_vqueueAddBuf holds head _) fun ret final put => ?_
  have settled : final.AllSettled := by
    rw [Books.allSettled_iff]
    cases put with
    | destroyed => exact ⟨.inr Books.closed_setClosed, tx⟩
    | done => exact ⟨.inl rfl, tx⟩
  exact ⟨fun _ => settled, fun _ => ⟨fun _ => ensures_halt, fun _ => settled⟩⟩

theorem settled_rxRound (well : Single flags) (rounds : Nat) (buf : VqueueBuf arch)
    (settled : books.AllSettled) :
    ensures (bookkeeping True num flags) (rxRound rounds buf) books fun _ final =>
      final.AllSettled := by
  have tx := settled tipcVqTx
  unfold rxRound
  rw [ensures_bind]
  refine ensures_mono (obtained_vqueueGetAvailBuf buf fun _ => settled tipcVqRx)
    fun result final obtained => ?_
  simp only [ensures_ite, ensures_bind, ensures_pure]
  cases obtained with
  | destroyed =>
    have closed : (books.setClosed tipcVqRx true).AllSettled :=
      Books.allSettled_iff.mpr ⟨.inr Books.closed_setClosed, tx⟩
    exact ⟨fun _ => closed, fun other => absurd rfl other⟩
  | empty idle =>
    have free : (books.setClosed tipcVqRx false).AllSettled :=
      Books.allSettled_iff.mpr ⟨.inl (idle trivial), tx⟩
    exact ⟨fun _ => free, fun _ => ⟨fun _ => free, fun other => absurd rfl other⟩⟩
  | @taken ret got head same used result single =>
    have untouched : ((books.setClosed tipcVqRx false).take tipcVqRx got.head).Settled tipcVqTx :=
      tx
    obtain ⟨opened, nonempty⟩ : ret ≠ errChannelClosed ∧ ret ≠ errNotEnoughBuffer := by
      obtain rfl | rfl | rfl := result <;> decide
    refine ⟨fun closed => absurd closed opened,
      fun _ => ⟨fun empty => absurd empty nonempty, fun _ => ⟨fun _ => ?_, ?_⟩⟩⟩
    · refine ensures_mono (steady_handleRxMsg well rounds ⟨⟨rfl, rfl⟩, untouched⟩) ?_
      rintro ⟨ret, handled⟩ between ⟨kept, same⟩
      exact settled_returnRxBuf (kept.rx.1.trans (congrArg _ same.symm)) (same ▸ head) kept.tx ret
    · exact fun _ => settled_returnRxBuf rfl head untouched ret

theorem settled_rxThread (well : Single flags) (rounds more : Nat) (buf : VqueueBuf arch) :
    Keeps (bookkeeping True num flags) Books.AllSettled (rxThread rounds more buf) := by
  induction more generalizing buf with
  | zero => exact fun _ _ => ensures_halt
  | succ more ih =>
    refine .bind (quiet rfl) fun _ => .ite (.pure _) ?_
    refine .bind (quiet rfl) fun _ => ?_
    exact .bind (fun _ kept => settled_rxRound well rounds buf kept) fun _ => .ite (ih _) (.pure _)

/-- A call of `tipc_send_data` by the tx thread or the control path. -/
structure Send where
  rounds : Nat
  loc : BitVec 32
  remote : BitVec 32
  cb : Option DataCb
  dataLen : BitVec 16
  wait : Bool

def Send.call (send : Send) : TipcDialog arch Unit := do
  let _ ← tipcSendData send.rounds send.loc send.remote send.cb send.dataLen send.wait
  return ()

theorem settled_call (well : Single flags) (send : Send) :
    Keeps (bookkeeping True num flags) Books.AllSettled (send.call : TipcDialog arch Unit) := by
  intro books settled
  simp only [Send.call, ensures_bind, ensures_pure]
  refine ensures_mono
    (sendEnd_tipcSendData send.rounds send.loc send.remote send.cb send.dataLen send.wait
    fun _ => settled tipcVqTx) fun _ final found =>
      Books.allSettled_iff.mpr ⟨?_, found.settled trivial well⟩
  unfold Books.Settled
  rw [found.rx.1, found.rx.2]
  exact settled tipcVqRx

end Receiving

/-! ### Chains that are refused -/

section Refused

variable {arch : Arch} {strict : Prop} {num : Fin tipcVqNum → BitVec 32} {flags : BitVec 16 → Prop}
  {books : Books arch} {queue : Fin tipcVqNum} {value : BitVec 16}

theorem answer_access {operation : RingOp} {post : operation.Ans → Books arch → Prop}
    (holds : ensures (ringBooks strict num flags queue) (access operation) books post)
    (quiet : operation.quiet = true) (steady : ∀ slot, operation ≠ .readDescFlags slot)
    (answer : operation.Ans) : post answer books := by
  rw [access, ensures_perform] at holds
  apply holds.2 answer books
  cases operation with
  | readAvailRing | writeUsedId | writeUsedLen | writeUsedIdx => cases quiet
  | readDescFlags slot => exact absurd rfl (steady slot)
  | _ => exact ⟨answer, rfl, rfl⟩

theorem answer_flags {slot : Nat} {post : BitVec 16 → Books arch → Prop}
    (holds :
      ensures (ringBooks strict num flags tipcVqTx) (access (.readDescFlags slot)) books post)
    (known : flags value) : post value books := by
  rw [access, ensures_perform] at holds
  exact holds.2 value books ⟨value, ⟨rfl, fun _ => known⟩, rfl⟩

variable {post : Int × VqueueBuf arch → Books arch → Prop}

/-- The head is taken before the chain turns out to be too long or of the wrong kind. -/
theorem walkChain_refuses
    (holds :
      ensures (ringBooks strict num flags tipcVqTx)
      (walkChain 1 0 ⟨0, ⟨0, 0, []⟩, ⟨1, 0, []⟩⟩) books post)
    (known : flags value) (bad : ¬(value &&& vringDescFWrite ≠ 0 ∧ value &&& vringDescFNext = 0)) :
    ∃ buf, post (errTooBig, buf) books := by
  rw [walkChain, if_neg (by decide)] at holds
  simp only [ensures_bind] at holds
  have chosen := answer_flags (answer_access holds rfl (by simp) ()) known
  by_cases write : value &&& vringDescFWrite = 0
  · have select : (value &&& vringDescFWrite != 0) = false := by simp [write]
    rw [select] at chosen
    split at chosen
    case isTrue free => exact absurd free (Nat.lt_irrefl 0)
    case isFalse => exact ⟨_, (ensures_pure _).mp chosen⟩
  have select : (value &&& vringDescFWrite != 0) = true := bne_iff_ne.mpr write
  have more : value &&& vringDescFNext ≠ 0 := fun last => bad ⟨write, last⟩
  have free : (VqueueBuf.select (⟨0, ⟨0, 0, []⟩, ⟨1, 0, []⟩⟩ : VqueueBuf arch) true).used <
      (VqueueBuf.select (⟨0, ⟨0, 0, []⟩, ⟨1, 0, []⟩⟩ : VqueueBuf arch) true).cnt := Nat.one_pos
  rw [select, dif_pos free] at chosen
  simp only [ensures_bind] at chosen
  have pushed := answer_access (answer_access chosen rfl (by simp) 0#32) rfl (by simp) 0#64
  have next := answer_access (answer_access pushed rfl (by simp) 0#32) rfl (by simp) 0#16
  have again := answer_flags next known
  rw [if_pos more, walkChain, if_neg (by decide)] at again
  simp only [ensures_bind] at again
  have second := answer_flags (answer_access again rfl (by simp) ()) known
  rw [select] at second
  split at second
  case isTrue free => exact absurd free (Nat.lt_irrefl 1)
  case isFalse => exact ⟨_, (ensures_pure _).mp second⟩

/-- Before anything was taken. -/
def Books.blank : Books arch := ⟨fun _ => .free, fun _ => false, .fresh, []⟩

theorem walkChain_of_getAvailBuf (holds : ensures (bookkeeping strict (fun _ => 1) flags)
      (vqueueGetAvailBuf tipcVqTx ⟨0, ⟨0, 0, []⟩, ⟨maxTxIovs, 0, []⟩⟩) .blank post) :
    ensures (ringBooks strict (fun _ => 1) flags tipcVqTx)
    (walkChain 1 0 ⟨0, ⟨0, 0, []⟩, ⟨1, 0, []⟩⟩)
      ((Books.blank.setClosed tipcVqTx false).take tipcVqTx 0) post := by
  unfold vqueueGetAvailBuf at holds
  simp only [ensures_bind, ensures_embed] at holds
  rw [op, ensures_perform] at holds
  have one : (oneSlot : Vqueue arch).vring.num = 1 := rfl
  have zero : (oneSlot : Vqueue arch).lastAvailIdx = 0 := rfl
  have locked := holds.2 oneSlot _ ⟨rfl, fun closed => Bool.noConfusion closed, rfl⟩
  rw [decide_eq_false oneSlot_mapped, vqueueGetAvailBufLocked, if_neg oneSlot_mapped] at locked
  simp only [ensures_bind, one, zero] at locked
  have seen := answer_access locked rfl (by simp) 1#16
  rw [if_neg (by decide)] at seen
  simp only [ensures_bind] at seen
  have again := answer_access seen rfl (by simp) 1#16
  rw [if_neg (by decide)] at again
  unfold takeHead at again
  rw [ensures_bind, access, ensures_perform] at again
  simp only [one] at again
  have head := again.2 0#16 _ ⟨0#16, rfl, rfl⟩
  rw [if_neg (by decide), ensures_bind] at head
  refine ensures_mono head fun result final left => ?_
  rw [ensures_pure, op, ensures_perform] at left
  exact (ensures_pure _).mp (left.2 () _ rfl)

theorem tipcSendData_leaks (known : flags value)
    (bad : ¬(value &&& vringDescFWrite ≠ 0 ∧ value &&& vringDescFNext = 0)) :
    ¬ ensures (bookkeeping True (fun _ => 1) flags)
      (tipcSendData 1 0 0 (some .sendBuf) 0 true : TipcDialog arch Int) .blank fun _ final =>
        final.Settled tipcVqTx := by
  intro holds
  simp only [tipcSendData, ensures_bind] at holds
  rw [getTxBuf, ensures_bind] at holds
  obtain ⟨buf, refused⟩ := walkChain_refuses (walkChain_of_getAvailBuf holds) known bad
  dsimp only at refused
  rw [if_neg (by decide), if_pos (.inl (by decide)), ensures_pure, ensures_pure] at refused
  obtain held | closed := refused
  · cases held
  · cases closed

end Refused

/-- Every buffer is put back before the next one is taken exactly if the buffers to send are
single descriptors that may be written. -/
theorem buffers_returned_iff {arch : Arch} (flags : BitVec 16 → Prop) :
    (∀ num, (∀ rounds more, Keeps (bookkeeping True num flags) Books.AllSettled
          (rxThread rounds more (rxBuf : VqueueBuf arch))) ∧
        ∀ sends : List Send, Keeps (bookkeeping True num flags) Books.AllSettled
          (sends.forM Send.call : TipcDialog arch PUnit)) ↔ Single flags := by
  constructor
  · intro holds value known
    by_contra bad
    apply @tipcSendData_leaks arch flags value known bad
    have sent := (holds fun _ => 1).2 [⟨1, 0, 0, some .sendBuf, 0, true⟩] Books.blank
      fun _ => .inl rfl
    simp only [forM_eq_forM, forM_cons, forM_nil, Send.call, ensures_bind, ensures_pure] at sent
    exact ensures_mono sent fun _ _ settled => settled tipcVqTx
  · intro well num
    refine ⟨fun rounds more => settled_rxThread well rounds more _, fun sends books settled => ?_⟩
    exact ensures_forM Books.AllSettled
      (fun send _ before kept => settled_call well send before kept) settled

/-- A buffer to send that may only be read: its head is gone. -/
theorem tx_head_lost :
    ¬ ensures (bookkeeping True (fun _ => 1) fun value => value = 0)
      (tipcSendData 1 0 0 (some .sendBuf) 0 true : TipcDialog arm Int) .blank fun _ final =>
        final.Settled tipcVqTx :=
  tipcSendData_leaks rfl (by decide)

/-- A buffer to send without room for a header: nothing is sent and nothing is reported. -/
theorem tx_message_lost :
    ¬ ensures (bookkeeping False (fun _ => 1) fun value => value = vringDescFWrite)
      (tipcSendData 1 0 0 (some .sendBuf) 0 true : TipcDialog arm Int) .blank fun ret final =>
        Delivered 0 0 0 ret final.sent := by
  intro holds
  simp only [tipcSendData, ensures_bind] at holds
  rw [getTxBuf, ensures_bind] at holds
  have walked := walkChain_of_getAvailBuf holds
  rw [walkChain, if_neg (by decide)] at walked
  simp only [ensures_bind] at walked
  have chosen := answer_flags (answer_access walked rfl (by simp) ()) rfl
  rw [dif_pos (by decide)] at chosen
  simp only [ensures_bind] at chosen
  have pushed := answer_access (answer_access chosen rfl (by simp) 0#32) rfl (by simp) 0#64
  have next := answer_access (answer_access pushed rfl (by simp) 0#32) rfl (by simp) 0#16
  have last := answer_flags next rfl
  rw [if_neg (by decide), ensures_pure] at last
  rw [if_pos rfl, ensures_pure, ensures_bind] at last
  have short := (ensures_pure _).mp last
  unfold vqueueAddBuf at short
  simp only [ensures_bind, ensures_embed] at short
  rw [op, ensures_perform] at short
  have locked := short.2 oneSlot _ ⟨rfl, fun closed => Bool.noConfusion closed, rfl⟩
  rw [decide_eq_false oneSlot_mapped, vqueueAddBufLocked, if_neg oneSlot_mapped,
    if_neg (by decide)] at locked
  simp only [ensures_bind] at locked
  have entry := answer_access locked rfl (by simp) 0#16
  rw [access, ensures_perform] at entry
  have entered := entry.2 () _ ⟨(), rfl, rfl⟩
  rw [access, ensures_perform] at entered
  have idx := answer_access (entered.2 () _ ⟨(), rfl, rfl⟩) rfl (by simp) 0#16
  rw [access, ensures_perform] at idx
  have given := idx.2 () _ ⟨(), rfl, rfl⟩
  rw [ensures_pure, op, ensures_perform] at given
  obtain ⟨buf, same, whole⟩ := ((ensures_pure _).mp (given.2 () _ rfl)).whole rfl
  cases same
  cases whole.stored

end Trusty.Virtio
