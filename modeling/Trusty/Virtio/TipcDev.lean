import Trusty.Virtio.Vqueue

/-!
Messages in buffers of the other side: `vqueue_map_iovs` and `vqueue_unmap_iovs` of
`vqueue.c`, `handle_rx_msg` with the functions it calls, one round of the rx thread
and `tipc_send_data` of `tipc_dev.c`.

Everything outside these functions is an operation: the memory, `vmm_alloc_physical`
and `vmm_free_region`, the endpoints and the channels behind them.  The lock of a
queue gives its state at that moment, which other threads may have changed.
-/

namespace Trusty.Virtio

open Lib Kernel

inductive TipcOp (arch : Arch) where
  | lock (queue : Fin tipcVqNum)
  | unlock (queue : Fin tipcVqNum) (vq : Vqueue arch)
  | ring (queue : Fin tipcVqNum) (op : RingOp)
  /-- `vmm_alloc_physical` for a buffer of the recorded length. -/
  | map (len size paddr : arch.Word) (readOnly : Bool)
  /-- `vmm_free_region` -/
  | unmap (base : arch.Word)
  | read (addr : arch.Word) (bytes : Nat)
  | write (addr : arch.Word) (bytes : Nat) (value : BitVec (8 * bytes))
  /-- `ipc_send_msg` from the buffer -/
  | sendMsg (addr : arch.Word) (len : Nat)
  /-- `ipc_read_msg` into the buffer -/
  | readMsg (addr : arch.Word) (len : Nat)
  /-- `memcpy` into the buffer -/
  | memcpy (addr : arch.Word) (len : Nat)
  /-- `ipc_port_connect_async` -/
  | connect (name : List (BitVec 8))
  | allocLocalAddr (remote : BitVec 32)
  | closeChan
  | addChan (loc : BitVec 32)
  /-- The rest of `handle_disc_req` -/
  | disconnect (remote target : BitVec 32)
  /-- Whether there is an endpoint with this remote address and a channel. -/
  | lookupEpt (loc remote : BitVec 32)
  /-- `event_wait` for the queue -/
  | waitAvail (queue : Fin tipcVqNum)
  | txStop
  | rxStop

@[reducible]
def TipcOp.Ans {arch : Arch} : TipcOp arch → Type
  | .lock _ => Vqueue arch
  | .ring _ op => op.Ans
  | .map _ _ _ _ => Int × Option (Window arch.bits)
  | .read _ bytes => BitVec (8 * bytes)
  | .sendMsg _ _ | .readMsg _ _ | .connect _ => Int
  | .allocLocalAddr _ => BitVec 32
  | .lookupEpt _ _ | .txStop | .rxStop => Bool
  | .unlock _ _ | .unmap _ | .write _ _ _ | .memcpy _ _ | .closeChan | .addChan _ | .disconnect _ _
  | .waitAvail _ => Unit

abbrev TipcDialog (arch : Arch) := Dialog (TipcOp arch) TipcOp.Ans

def errNotFound : Int := -2

section Buffers

variable {arch : Arch}

def op (operation : TipcOp arch) : TipcDialog arch operation.Ans := Dialog.perform operation

def vqueueGetAvailBuf (queue : Fin tipcVqNum) (buf : VqueueBuf arch) :
    TipcDialog arch (Int × VqueueBuf arch) := do
  let vq ← op (.lock queue)
  let got ← (vqueueGetAvailBufLocked vq buf).embed (TipcOp.ring queue) fun _ answer => answer
  op (.unlock queue got.vq)
  return (got.ret, got.buf)

def vqueueAddBuf (queue : Fin tipcVqNum) (buf : VqueueBuf arch) (len : BitVec 32) :
    TipcDialog arch Int := do
  let vq ← op (.lock queue)
  let ret ← (vqueueAddBufLocked vq buf len).embed (TipcOp.ring queue) fun _ answer => answer
  op (.unlock queue vq)
  return ret

def unmapIovs : List (VqueueIov arch) → TipcDialog arch Unit
  | [] => return ()
  | iov :: rest => do
    op (.unmap iov.base)
    unmapIovs rest

/-- The loop of `vqueue_map_iovs`: the entries that are mapped, and those that are not yet. -/
def mapIovs (readOnly : Bool) (mapped : List (VqueueIov arch)) :
    List (VqueueIov arch) → TipcDialog arch (Int × List (VqueueIov arch))
  | [] => return (noError, mapped)
  | iov :: rest => do
    let (ret, mapping) ← op
      (.map iov.len (roundup iov.len (BitVec.ofNat arch.bits pageSize)) iov.phys readOnly)
    let iov := { iov with base := (mapping.map Window.base).getD 0 }
    if ret ≠ noError then
      unmapIovs mapped.reverse
      return (ret, mapped.map (fun iov => { iov with base := 0 }) ++ iov :: rest)
    else mapIovs readOnly (mapped ++ [iov]) rest

def vqueueMapIovs (list : VqueueIovs arch) (readOnly : Bool) :
    TipcDialog arch (Int × VqueueIovs arch) := do
  let (ret, iovs) ← mapIovs readOnly [] list.iovs
  return (ret, { list with iovs := iovs })

def vqueueUnmapIovs (list : VqueueIovs arch) : TipcDialog arch (VqueueIovs arch) := do
  unmapIovs list.iovs
  return { list with iovs := list.iovs.map fun iov => { iov with base := 0 } }

end Buffers

/-! ### Sending -/

/-- `sizeof(struct tipc_hdr)` -/
def tipcHdrSize : Nat := 16

def maxRxIovs : Nat := 1
def maxTxIovs : Nat := 1

def tipcCtrlAddr : BitVec 32 := 53

/-- The callbacks: `_send_buf` with data of some length, and `tx_data_cb`. -/
inductive DataCb where
  | sendBuf
  | txData

section Send

variable {arch : Arch}

def DataCb.call (cb : DataCb) (addr : arch.Word) (len : Nat) : TipcDialog arch Int :=
  match cb with
  | .sendBuf => do
    op (.memcpy addr len)
    return len
  | .txData => op (.readMsg addr len)

/-- The loop of `tipc_send_data` that waits for a buffer, for at most so many rounds.  The
result is a buffer, or what to return without one. -/
def getTxBuf (wait : Bool) : Nat → VqueueBuf arch → TipcDialog arch (Int ⊕ VqueueBuf arch)
  | 0, _ => .halt
  | rounds + 1, buf => do
    let (ret, buf) ← vqueueGetAvailBuf tipcVqTx buf
    if ret = noError then return .inr buf
    else if ret ≠ errNotEnoughBuffer ∨ !wait then return .inl ret
    else
      op (.waitAvail tipcVqTx)
      let stop ← op .txStop
      if stop then return .inl errChannelClosed
      else getTxBuf wait rounds buf

/-- The header and the data, in a buffer that is mapped. -/
def putMsg (loc remote : BitVec 32) (cb : DataCb) (dataLen : BitVec 16) (iov : VqueueIov arch) :
    TipcDialog arch Int := do
  op (.write iov.base 4 loc)
  op (.write (iov.base + 4) 4 remote)
  op (.write (iov.base + 8) 4 0#32)
  op (.write (iov.base + 12) 2 dataLen)
  op (.write (iov.base + 14) 2 0#16)
  let len := if iov.len.toNat < tipcHdrSize + dataLen.toNat
    then (iov.len - BitVec.ofNat arch.bits tipcHdrSize).setWidth 16 else dataLen
  let ret ← cb.call (iov.base + BitVec.ofNat arch.bits tipcHdrSize) len.toNat
  return if 0 ≤ ret then ret + tipcHdrSize else ret

/-- What `tipc_send_data` does with the buffer it got, up to `done`. -/
def fillTxBuf (loc remote : BitVec 32) (cb : DataCb) (dataLen : BitVec 16) (buf : VqueueBuf arch) :
    TipcDialog arch (Int × VqueueBuf arch) := do
  match buf.outIovs.iovs with
  | [] => return (errNotEnoughBuffer, buf)
  | first :: _ =>
    if first.len.toNat < tipcHdrSize then return (errNotEnoughBuffer, buf)
    else
      let (ret, outIovs) ← vqueueMapIovs buf.outIovs false
      match outIovs.iovs with
      | [] => return (ret, { buf with outIovs := outIovs })
      | first :: _ =>
        if ret = noError then
          let ret ← putMsg loc remote cb dataLen first
          let outIovs ← vqueueUnmapIovs outIovs
          return (ret, { buf with outIovs := outIovs })
        else return (ret, { buf with outIovs := outIovs })

def tipcSendData (rounds : Nat) (loc remote : BitVec 32) (cb : Option DataCb) (dataLen : BitVec 16)
    (wait : Bool) :
    TipcDialog arch Int := do
  match cb with
  | none => return errInvalidArgs
  | some cb =>
    let got ← getTxBuf wait rounds ⟨0, ⟨0, 0, []⟩, ⟨maxTxIovs, 0, []⟩⟩
    match got with
    | .inl ret => return ret
    | .inr buf =>
      let (ret, buf) ← fillTxBuf loc remote cb dataLen buf
      vqueueAddBuf tipcVqTx buf (BitVec.ofInt 32 ret)

def tipcSendBuf (rounds : Nat) (loc remote : BitVec 32) (dataLen : BitVec 16) (wait : Bool) :
    TipcDialog arch Int :=
  tipcSendData rounds loc remote (some .sendBuf) dataLen wait

end Send

/-! ### Receiving -/

/-- `sizeof(struct tipc_ctrl_msg_hdr)` -/
def tipcCtrlMsgHdrSize : Nat := 8

def tipcCtrlMsgtypeConnReq : BitVec 32 := 3
def tipcCtrlMsgtypeDiscReq : BitVec 32 := 5

/-- `sizeof(struct tipc_conn_req_body)` -/
def tipcMaxSrvNameLen : Nat := 256

/-- `sizeof(struct tipc_disc_req_body)` -/
def tipcDiscReqBodySize : Nat := 4

/-- The size of the message in `send_conn_rsp`. -/
def connRspSize : BitVec 16 := 28

section Receive

variable {arch : Arch}

/-- `strncpy`: bytes up to the first zero, at most `count`. -/
def strncpy (addr : arch.Word) : Nat → TipcDialog arch (List (BitVec 8))
  | 0 => return []
  | count + 1 => do
    let byte ← op (.read addr 1)
    if byte = 0#8 then return []
    else
      let rest ← strncpy (addr + 1) count
      return byte :: rest

section

variable (rounds : Nat)

def sendConnRsp : TipcDialog arch Int :=
  tipcSendBuf rounds tipcCtrlAddr tipcCtrlAddr connRspSize true

def handleConnReq (remote : BitVec 32) (nsReq : arch.Word) : TipcDialog arch Int := do
  let name ← strncpy nsReq tipcMaxSrvNameLen
  let err ← op (.connect name)
  if err = noError then
    let loc ← op (.allocLocalAddr remote)
    if loc = 0 then
      op .closeChan
      sendConnRsp rounds
    else
      op (.addChan loc)
      return noError
  else sendConnRsp rounds

def handleDiscReq (remote : BitVec 32) (nsReq : arch.Word) : TipcDialog arch Int := do
  let target ← op (.read nsReq 4)
  op (.disconnect remote target)
  return noError

def handleCtrlMsg (remote : BitVec 32) (nsData : arch.Word) (msgLen : arch.Word) :
    TipcDialog arch Int := do
  if msgLen.toNat < tipcCtrlMsgHdrSize then return errNotValid
  else
    let msgType : BitVec 32 ← op (.read nsData 4)
    let bodyLen : BitVec 32 ← op (.read (nsData + 4) 4)
    let msgBodyLen := bodyLen.setWidth arch.bits
    let nsMsgBody := nsData + BitVec.ofNat arch.bits tipcCtrlMsgHdrSize
    if BitVec.ofNat arch.bits tipcCtrlMsgHdrSize + msgBodyLen ≠ msgLen then return errNotValid
    else if msgType = tipcCtrlMsgtypeConnReq then
      if msgBodyLen.toNat ≠ tipcMaxSrvNameLen then return errNotValid
      else handleConnReq rounds remote nsMsgBody
    else if msgType = tipcCtrlMsgtypeDiscReq then
      if msgBodyLen.toNat ≠ tipcDiscReqBodySize then return errNotValid
      else handleDiscReq remote nsMsgBody
    else return errNotValid

def handleChanMsg (remote loc : BitVec 32) (nsData : arch.Word) (len : arch.Word) :
    TipcDialog arch Int := do
  let found ← op (.lookupEpt loc remote)
  if found then op (.sendMsg nsData len.toNat)
  else return errNotFound

/-- What `handle_rx_msg` does with a buffer that is mapped, up to `done`. -/
def handleMapped (iov : VqueueIov arch) : TipcDialog arch Int := do
  if iov.len.toNat < tipcHdrSize then return errInvalidArgs
  else
    let len : BitVec 16 ← op (.read (iov.base + 12) 2)
    let nsDataLen := len.setWidth arch.bits
    let srcAddr ← op (.read iov.base 4)
    let dstAddr ← op (.read (iov.base + 4) 4)
    let nsData := iov.base + BitVec.ofNat arch.bits tipcHdrSize
    if nsDataLen + BitVec.ofNat arch.bits tipcHdrSize ≠ iov.len then return errInvalidArgs
    else if dstAddr = tipcCtrlAddr then handleCtrlMsg rounds srcAddr nsData nsDataLen
    else handleChanMsg srcAddr dstAddr nsData nsDataLen

def handleRxMsg (buf : VqueueBuf arch) : TipcDialog arch (Int × VqueueBuf arch) := do
  if buf.inIovs.used = 0 then return (errInvalidArgs, buf)
  else
    let (ret, inIovs) ← vqueueMapIovs buf.inIovs true
    match inIovs.iovs with
    | [] => return (ret, { buf with inIovs := inIovs })
    | first :: _ =>
      if ret ≠ noError then return (ret, { buf with inIovs := inIovs })
      else
        let ret ← handleMapped rounds first
        let inIovs ← vqueueUnmapIovs inIovs
        return (ret, { buf with inIovs := inIovs })

/-- The end of a round of `tipc_rx_thread_func`.  The result tells whether the thread
goes on. -/
def returnRxBuf (ret : Int) (buf : VqueueBuf arch) : TipcDialog arch (Bool × VqueueBuf arch) := do
  let ret ← vqueueAddBuf tipcVqRx buf (BitVec.ofInt 32 ret)
  if ret = errChannelClosed then return (false, buf)
  else if ret ≠ noError then .halt
  else return (true, buf)

/-- One round of `tipc_rx_thread_func` after the wait. -/
def rxRound (buf : VqueueBuf arch) : TipcDialog arch (Bool × VqueueBuf arch) := do
  let (ret, buf) ← vqueueGetAvailBuf tipcVqRx buf
  if ret = errChannelClosed then return (false, buf)
  else if ret = errNotEnoughBuffer then return (true, buf)
  else if ret = noError then
    let (ret, buf) ← handleRxMsg rounds buf
    returnRxBuf ret buf
  else returnRxBuf ret buf

end

def rxBuf : VqueueBuf arch := ⟨0, ⟨maxRxIovs, 0, []⟩, ⟨0, 0, []⟩⟩

/-- `tipc_rx_thread_func`, for at most so many rounds. -/
def rxThread (rounds : Nat) : Nat → VqueueBuf arch → TipcDialog arch Unit
  | 0, _ => .halt
  | more + 1, buf => do
    let stop ← op .rxStop
    if stop then return ()
    else
      op (.waitAvail tipcVqRx)
      let (goOn, buf) ← rxRound rounds buf
      if goOn then rxThread rounds more buf else return ()

end Receive

end Trusty.Virtio
