import Mathlib.Data.Finset.Basic
import Trusty.Ipc.MsgQueueRefines
import Trusty.Lib.Run

/-!
Ports and channels (`ipc.c` and the calls of `ipc_msg.c`).

Ports and channels are objects with an address; a freed one is missing, and
following a pointer to it stops the run, as a failed assertion or a null pointer
does.  A list node knows the list it is in.  Every call holds `ipc_lock` from its
first effect to its last, so a call is one step.
-/

namespace Trusty.Ipc

open Lib

abbrev ChanId := Nat

abbrev PortId := Nat

inductive ChanState where
  | invalid
  | accepting
  | connecting
  | connected
  | disconnecting
  | waitingForPort
deriving DecidableEq

inductive PortState where
  | invalid
  | listening
  | closing
deriving DecidableEq

/-- A pointer to a uuid: `zero_uuid`, or that of an app. -/
inductive Uuid where
  | zero
  | app (id : Nat)
deriving DecidableEq

/-- The references that keep a channel: `handle_ref`, `node_ref`, the `peer_ref` of
another channel, and a local one. -/
inductive ChanRef where
  | handle
  | node
  | peer (owner : ChanId)
  | tmp
deriving DecidableEq

/-- The lists in which a channel can be. -/
inductive ListHead where
  | waiting
  | pending (port : PortId)
deriving DecidableEq

/-- `struct ipc_chan`.  `handle` is the reference count of the handle while there
is one, and `notified` says that an event was posted on it. -/
structure IpcChan where
  refs : Finset ChanRef
  peer : Option ChanId
  uuid : Option Uuid
  state : ChanState
  server : Bool
  sendBlocked : Bool
  sendUnblocked : Bool
  connectedEvent : Bool
  handle : Option Nat
  notified : Bool
  node : Option ListHead
  msgQueue : Option MsgQueue
  path : Option (List UInt8)

/-- `struct ipc_port`.  `held` counts the references to its handle that tables,
lists and callers hold. -/
structure IpcPort where
  path : List UInt8
  uuid : Uuid
  state : PortState
  flags : UInt32
  numRecvBufs : Nat
  recvBufSize : Nat
  refcnt : Nat
  held : Nat
  notified : Bool
  pendingList : List ChanId
  listed : Bool

/-- All ports and channels, `waiting_for_port_chan_list`, `ipc_port_list`, and the
results of the next allocations. -/
structure IpcState where
  chans : ChanId → Option IpcChan
  nextChan : ChanId
  ports : PortId → Option IpcPort
  nextPort : PortId
  waiting : List ChanId
  portList : List PortId
  memory : List Bool

abbrev IpcRun := Run IpcState

def ipcPortPathMax : Nat := 64
def ipcChanMaxBufs : Nat := 32
def ipcChanMaxBufSize : Nat := 4096

/-- `IPC_PORT_ALLOW_TA_CONNECT` and `IPC_PORT_ALLOW_NS_CONNECT`. -/
def ipcPortAllowTaConnect : UInt32 := 0x1
def ipcPortAllowNsConnect : UInt32 := 0x2

def ipcConnectWaitForPort : UInt32 := 0x1

/-! ### Memory and lists -/

variable (chan : ChanId) (port : PortId)

def getChan : IpcRun IpcChan := do
  let state ← Run.read
  Run.ofOption (state.chans chan)

def setChan (value : IpcChan) : IpcRun Unit :=
  Run.modify fun state => { state with chans := Function.update state.chans chan (some value) }

def modifyChan (change : IpcChan → IpcChan) : IpcRun Unit := do
  let value ← getChan chan
  setChan chan (change value)

def freeChan : IpcRun Unit :=
  Run.modify fun state => { state with chans := Function.update state.chans chan none }

def getPort : IpcRun IpcPort := do
  let state ← Run.read
  Run.ofOption (state.ports port)

def setPort (value : IpcPort) : IpcRun Unit :=
  Run.modify fun state => { state with ports := Function.update state.ports port (some value) }

def modifyPort (change : IpcPort → IpcPort) : IpcRun Unit := do
  let value ← getPort port
  setPort port (change value)

def freePort : IpcRun Unit :=
  Run.modify fun state => { state with ports := Function.update state.ports port none }

def allocate : IpcRun Bool := do
  let state ← Run.read
  match state.memory with
  | [] => pure true
  | answer :: rest =>
    Run.modify fun state => { state with memory := rest }
    pure answer

def listRemove : ListHead → IpcRun Unit
  | .waiting => Run.modify fun state => { state with waiting := state.waiting.erase chan }
  | .pending port =>
    modifyPort port fun port => { port with pendingList := port.pendingList.erase chan }

/-- `list_delete` of the node of a channel. -/
def listDelete : IpcRun Unit := do
  let value ← getChan chan
  let head ← Run.ofOption value.node
  listRemove chan head
  modifyChan chan fun value => { value with node := none }

/-- `list_add_tail` to `waiting_for_port_chan_list`. -/
def addWaiting : IpcRun Unit := do
  modifyChan chan fun value => { value with node := some .waiting }
  Run.modify fun state => { state with waiting := state.waiting ++ [chan] }

/-- `list_add_tail` to the pending list of a port. -/
def addPending (port : PortId) (chan : ChanId) : IpcRun Unit := do
  modifyChan chan fun value => { value with node := some (.pending port) }
  modifyPort port fun port => { port with pendingList := port.pendingList ++ [chan] }

/-! ### Handles of ports -/

def portIncref : IpcRun Unit :=
  modifyPort port fun value => { value with refcnt := value.refcnt + 1 }

def portHandleDestroy : IpcRun Unit := do
  let value ← getPort port
  Run.require (value.pendingList = [])
  Run.require (value.listed = false)
  freePort port

def portDecref : IpcRun Unit := do
  let value ← getPort port
  setPort port { value with refcnt := value.refcnt - 1 }
  if value.refcnt = 1 then portHandleDestroy port else pure ()

/-! ### Channels -/

def chanNotify : IpcRun Unit :=
  modifyChan chan fun value => { value with notified := true }

def chanDestroyRefobj : IpcRun Unit := do
  let value ← getChan chan
  Run.require (value.peer = none)
  Run.require (value.node = none)
  freeChan chan

def chanAddRef (ref : ChanRef) : IpcRun Unit := do
  let value ← getChan chan
  Run.require (ref ∉ value.refs)
  setChan chan { value with refs := insert ref value.refs }

def chanDelRef (ref : ChanRef) : IpcRun Unit := do
  let value ← getChan chan
  Run.require (ref ∈ value.refs)
  setChan chan { value with refs := value.refs.erase ref }
  if value.refs.erase ref = ∅ then chanDestroyRefobj chan else pure ()

def chanHandleInit : IpcRun Unit := do
  modifyChan chan fun value => { value with handle := some 1 }
  chanAddRef chan .handle

def chanAlloc (server : Bool) (uuid : Option Uuid) : IpcRun (Option ChanId) := do
  if ← allocate then
    let state ← Run.read
    let chan := state.nextChan
    Run.modify fun state => { state with nextChan := chan + 1 }
    setChan chan
      { refs := {.tmp}
        peer := none
        uuid := uuid
        state := .invalid
        server := server
        sendBlocked := false
        sendUnblocked := false
        connectedEvent := false
        handle := none
        notified := false
        node := none
        msgQueue := none
        path := none }
    pure (some chan)
  else pure none

/-- `_chan_shutdown_locked`. -/
def chanShutdownOne : IpcRun Unit := do
  let value ← getChan chan
  match value.state with
  | .connected | .connecting =>
    modifyChan chan fun value => { value with state := .disconnecting }
    chanNotify chan
  | .waitingForPort =>
    Run.require (value.node ≠ none)
    listDelete chan
    chanDelRef chan .node
    modifyChan chan fun value => { value with state := .disconnecting }
  | .accepting => modifyChan chan fun value => { value with state := .disconnecting }
  | .invalid | .disconnecting => pure ()

def chanShutdownLocked : IpcRun Unit := do
  chanShutdownOne chan
  let value ← getChan chan
  match value.peer with
  | none => pure ()
  | some peer =>
    chanShutdownOne peer
    chanDelRef peer (.peer chan)
    modifyChan chan fun value => { value with peer := none }

/-- `chan_handle_destroy`, when the last reference to the handle is gone. -/
def chanHandleDestroy : IpcRun Unit := do
  modifyChan chan fun value => { value with handle := none }
  chanDelRef chan .handle

/-! ### Connecting -/

def portFindLocked (path : List UInt8) : IpcRun (Option PortId) := do
  let state ← Run.read
  pure (state.portList.find? fun port => (state.ports port).any fun value => value.path == path)

def isNsClient (uuid : Uuid) : Bool := uuid == .zero

def checkAccess (port : IpcPort) (uuid : Option Uuid) : Int :=
  match uuid with
  | none => errAccessDenied
  | some uuid =>
    let required := if isNsClient uuid then ipcPortAllowNsConnect else ipcPortAllowTaConnect
    if port.flags &&& required ≠ 0 then 0 else errAccessDenied

def msgQueueCreate (numItems itemSz : Nat) : IpcRun (Option MsgQueue) := do
  if ← allocate then
    if ← allocate then pure (some (ipcMsgQueueCreate numItems itemSz)) else pure none
  else pure none

/-- The last part of `port_attach_client`, when nothing can fail any more. -/
def attachQueues (client server : ChanId) : IpcRun Unit := do
  modifyChan server fun value => { value with state := .accepting }
  modifyChan client fun value => { value with state := .connecting }
  chanAddRef server (.peer client)
  modifyChan client fun value => { value with peer := some server }
  chanAddRef client (.peer server)
  modifyChan server fun value => { value with peer := some client }
  chanAddRef server .node
  addPending port server
  portIncref port
  modifyPort port fun value => { value with notified := true }
  chanDelRef server .tmp

def portAttachClient (client : ChanId) : IpcRun Int := do
  let portValue ← getPort port
  if portValue.state ≠ .listening then pure errNotReady
  else
    let clientValue ← getChan client
    let ret := checkAccess portValue clientValue.uuid
    if ret ≠ 0 then pure ret
    else
      match ← chanAlloc true (some portValue.uuid) with
      | none => pure errNoMemory
      | some server =>
        match ← msgQueueCreate portValue.numRecvBufs portValue.recvBufSize with
        | none =>
          chanDelRef server .tmp
          pure errNoMemory
        | some clientQueue =>
          modifyChan client fun value => { value with msgQueue := some clientQueue }
          match ← msgQueueCreate portValue.numRecvBufs portValue.recvBufSize with
          | none =>
            modifyChan client fun value => { value with msgQueue := none }
            chanDelRef server .tmp
            pure errNoMemory
          | some serverQueue =>
            modifyChan server fun value => { value with msgQueue := some serverQueue }
            attachQueues port client server
            pure 0

/-- The part of `ipc_port_connect_async` for a port that does not exist yet. -/
def connectWaiting (client : ChanId) (path : List UInt8) (flags : UInt32) : IpcRun Int := do
  if flags &&& ipcConnectWaitForPort = 0 then pure errNotFound
  else if ← allocate then
    modifyChan client fun value => { value with path := some path, state := .waitingForPort }
    addWaiting client
    chanAddRef client .node
    pure 0
  else pure errNoMemory

structure IpcReply where
  ret : Int
  handle : Option Nat
  info : Option (Nat × Nat)
  stored : List (List UInt8)

def IpcReply.code (ret : Int) : IpcReply := ⟨ret, none, none, []⟩

def ipcPortConnectAsync (cid : Option Uuid) (path : List UInt8) (maxPath : Nat) (flags : UInt32) :
    IpcRun IpcReply := do
  if cid = none then pure (.code errInvalidArgs)
  else if path = [] ∨ maxPath ≤ path.length then pure (.code errInvalidArgs)
  else
    match ← chanAlloc false cid with
    | none => pure (.code errNoMemory)
    | some client =>
      let found ← portFindLocked path
      let ret ← match found with
        | some port => portAttachClient port client
        | none => connectWaiting client path flags
      if ret = 0 then
        chanHandleInit client
        chanDelRef client .tmp
        pure ⟨0, some client, none, []⟩
      else
        chanDelRef client .tmp
        pure (.code ret)

/-! ### Ports -/

def ipcPortCreate (sid : Option Uuid) (path : List UInt8) (numRecvBufs recvBufSize : Nat)
    (flags : UInt32) :
    IpcRun IpcReply := do
  match sid with
  | none => pure (.code errInvalidArgs)
  | some uuid =>
    if numRecvBufs = 0 ∨ ipcChanMaxBufs < numRecvBufs ∨ recvBufSize = 0 ∨
      ipcChanMaxBufSize < recvBufSize then
      pure (.code errInvalidArgs)
    else if ← allocate then
      if path = [] then pure (.code errInvalidArgs)
      else if ipcPortPathMax ≤ path.length then pure (.code errTooBig)
      else
        let state ← Run.read
        let port := state.nextPort
        Run.modify fun state => { state with nextPort := port + 1 }
        setPort port
          { path := path
            uuid := uuid
            state := .invalid
            flags := flags
            numRecvBufs := numRecvBufs
            recvBufSize := recvBufSize
            refcnt := 1
            held := 1
            notified := false
            pendingList := []
            listed := false }
        pure ⟨0, some port, none, []⟩
    else pure (.code errNoMemory)

/-- `port_shutdown`, one pending connection after another. -/
def dropPending (port : PortId) : List ChanId → IpcRun Unit
  | [] => pure ()
  | server :: rest => do
    chanShutdownLocked server
    listDelete server
    chanDelRef server .node
    portDecref port
    dropPending port rest

/-- The part of `port_shutdown` that takes the port off the list. -/
def portUnlist : IpcRun Unit := do
  let value ← getPort port
  if value.listed then
    Run.modify fun state => { state with portList := state.portList.erase port }
    setPort port { value with listed := false }
    portDecref port
  else pure ()

def portShutdown : IpcRun Unit := do
  modifyPort port fun value => { value with state := .closing }
  portUnlist port
  let value ← getPort port
  dropPending port value.pendingList

/-- The part of `ipc_port_publish` that attaches the port, or closes the channel. -/
def attachOrShutdown (client : ChanId) : IpcRun Unit := do
  let err ← portAttachClient port client
  if err ≠ 0 then chanShutdownLocked client else pure ()

/-- The loop of `ipc_port_publish` over the waiting clients. -/
def publishLoop (port : PortId) : List ChanId → IpcRun Unit
  | [] => pure ()
  | client :: rest => do
    let clientValue ← getChan client
    let portValue ← getPort port
    let path ← Run.ofOption clientValue.path
    if path ≠ portValue.path then publishLoop port rest
    else
      modifyChan client fun value => { value with path := none }
      chanAddRef client .tmp
      listDelete client
      chanDelRef client .node
      attachOrShutdown port client
      chanDelRef client .tmp
      publishLoop port rest

def ipcPortPublish : IpcRun IpcReply := do
  let value ← getPort port
  Run.require (value.listed = false)
  match ← portFindLocked value.path with
  | some _ => pure (.code errAlreadyExists)
  | none =>
    modifyPort port fun value => { value with state := .listening, listed := true }
    Run.modify fun state => { state with portList := state.portList ++ [port] }
    portIncref port
    let state ← Run.read
    publishLoop port state.waiting
    pure (.code 0)

/-- The end of `ipc_port_accept` for a connection that is still there. -/
def acceptConnection (server client : ChanId) : IpcRun Unit := do
  modifyChan server fun value => { value with state := .connected }
  modifyChan client fun value => { value with state := .connected, connectedEvent := true }
  chanHandleInit server
  chanNotify client

def ipcPortAccept : IpcRun IpcReply := do
  let portValue ← getPort port
  if portValue.state ≠ .listening then pure (.code errChannelClosed)
  else
    match portValue.pendingList with
    | [] => pure (.code errNoMsg)
    | server :: _ =>
      listDelete server
      let serverValue ← getChan server
      Run.require (serverValue.server = true)
      chanAddRef server .tmp
      chanDelRef server .node
      portDecref port
      let alive ← connectionAlive server
      match alive with
      | some client =>
        acceptConnection server client
        chanDelRef server .tmp
        pure ⟨0, some server, none, []⟩
      | none =>
        chanShutdownLocked server
        chanDelRef server .tmp
        pure (.code errChannelClosed)
where
  /-- The client, if both ends are in the states they should be in. -/
  connectionAlive (server : ChanId) : IpcRun (Option ChanId) := do
    let serverValue ← getChan server
    match serverValue.peer with
    | none => pure none
    | some client =>
      let clientValue ← getChan client
      if serverValue.state ≠ .accepting ∨ clientValue.state ≠ .connecting then pure none
      else pure (some client)

/-! ### Messages -/

def IpcReply.ofQueue (reply : QueueReply) : IpcReply := ⟨reply.ret, none, reply.info, reply.stored⟩

def checkChannelConnectedLocked : IpcRun Int := do
  let value ← getChan chan
  if value.state = .connected then
    Run.require (value.peer ≠ none)
    pure 0
  else if value.state = .disconnecting then pure errChannelClosed
  else pure errNotReady

/-- A call on the queue of a channel, which follows the pointer to it. -/
def callQueue (call : QueueCall) : IpcRun QueueReply := do
  let value ← getChan chan
  let mq ← Run.ofOption value.msgQueue
  let (reply, mq) ← Run.ofOption (mq.call call)
  setChan chan { value with msgQueue := some mq }
  pure reply

def msgWriteLocked (msg : SendMsg) : IpcRun Int := do
  let value ← getChan chan
  let peer ← Run.ofOption value.peer
  let reply ← callQueue peer (.send msg)
  if reply.ret = errNotEnoughBuffer then
    modifyChan chan fun value => { value with sendBlocked := true }
    pure reply.ret
  else pure reply.ret

/-- `ipc_send_msg` and `sys_send_msg`. -/
def ipcSendMsg (msg : SendMsg) : IpcRun IpcReply := do
  let ret ← checkChannelConnectedLocked chan
  if ret ≠ 0 then pure (.code ret)
  else
    let ret ← msgWriteLocked chan msg
    if 0 ≤ ret then
      let value ← getChan chan
      let peer ← Run.ofOption value.peer
      chanNotify peer
      pure (.code ret)
    else pure (.code ret)

/-- `ipc_get_msg` and `sys_get_msg`; `fault` says that the place for the message
info cannot be written. -/
def ipcGetMsg (fault : Bool) : IpcRun IpcReply := do
  let reply ← callQueue chan (.get fault)
  pure (.ofQueue reply)

/-- `ipc_read_msg` and `sys_read_msg`. -/
def ipcReadMsg (id offset : Nat) (msg : ReadMsg) : IpcRun IpcReply := do
  let reply ← callQueue chan (.read id offset msg)
  pure (.ofQueue reply)

/-- The end of `msg_put_read_locked`. -/
def unblockPeer : IpcRun Unit := do
  let value ← getChan chan
  match value.peer with
  | none => pure ()
  | some peer =>
    let peerValue ← getChan peer
    if peerValue.sendBlocked then
      setChan peer { peerValue with sendBlocked := false, sendUnblocked := true, notified := true }
    else pure ()

/-- `ipc_put_msg` and `sys_put_msg`. -/
def ipcPutMsg (id : Nat) : IpcRun IpcReply := do
  let reply ← callQueue chan (.put id)
  if reply.ret = 0 then
    unblockPeer chan
    pure (.ofQueue reply)
  else pure (.ofQueue reply)

def chanFinalizeEvent (sendUnblocked ready : Bool) : IpcRun Unit :=
  modifyChan chan fun value =>
    { value with
      sendUnblocked := value.sendUnblocked && !sendUnblocked
      connectedEvent := value.connectedEvent && !ready }

/-! ### The system -/

inductive IpcCall where
  | portCreate (sid : Option Uuid) (path : List UInt8) (numRecvBufs recvBufSize : Nat)
      (flags : UInt32)
  | portPublish (port : PortId)
  | portConnect (cid : Option Uuid) (path : List UInt8) (maxPath : Nat) (flags : UInt32)
  | portAccept (port : PortId)
  | portShutdown (port : PortId)
  | portIncref (port : PortId)
  | portDecref (port : PortId)
  | chanShutdown (chan : ChanId)
  | chanIncref (chan : ChanId)
  | chanDecref (chan : ChanId)
  | chanDestroy (chan : ChanId)
  | chanFinalize (chan : ChanId) (sendUnblocked ready : Bool)
  | sendMsg (chan : ChanId) (msg : SendMsg)
  | getMsg (chan : ChanId) (fault : Bool)
  | readMsg (chan : ChanId) (id offset : Nat) (msg : ReadMsg)
  | putMsg (chan : ChanId) (id : Nat)

/-- A reference to the handle of a port that a caller takes or gives back. -/
def holdPort (port : PortId) (change : Nat → Nat) : IpcRun Unit :=
  modifyPort port fun value => { value with held := change value.held }

def modifyHandle (chan : ChanId) (change : Nat → Nat) : IpcRun Unit :=
  modifyChan chan fun value => { value with handle := value.handle.map change }

namespace IpcCall

def run : IpcCall → IpcRun IpcReply
  | portCreate sid path numRecvBufs recvBufSize flags =>
    ipcPortCreate sid path numRecvBufs recvBufSize flags
  | portPublish port => ipcPortPublish port
  | portConnect cid path maxPath flags => ipcPortConnectAsync cid path maxPath flags
  | portAccept port => ipcPortAccept port
  | portShutdown port => do
    Ipc.portShutdown port
    pure (.code 0)
  | portIncref port => do
    holdPort port (· + 1)
    Ipc.portIncref port
    pure (.code 0)
  | portDecref port => do
    holdPort port (· - 1)
    Ipc.portDecref port
    pure (.code 0)
  | chanShutdown chan => do
    chanShutdownLocked chan
    pure (.code 0)
  | chanIncref chan => do
    modifyHandle chan (· + 1)
    pure (.code 0)
  | chanDecref chan => do
    modifyHandle chan (· - 1)
    pure (.code 0)
  | chanDestroy chan => do
    chanHandleDestroy chan
    pure (.code 0)
  | chanFinalize chan sendUnblocked ready => do
    chanFinalizeEvent chan sendUnblocked ready
    pure (.code 0)
  | sendMsg chan msg => ipcSendMsg chan msg
  | getMsg chan fault => ipcGetMsg chan fault
  | readMsg chan id offset msg => ipcReadMsg chan id offset msg
  | putMsg chan id => ipcPutMsg chan id

/-- Some caller holds a reference to the handle of the channel. -/
def holdsChan (state : IpcState) (chan : ChanId) : Bool :=
  (state.chans chan).any fun value => value.handle.any (0 < ·)

def holdsPort (state : IpcState) (port : PortId) : Bool :=
  (state.ports port).any fun value => 0 < value.held

/-- A call on a handle needs a reference to it.  The handle of a channel is
destroyed when the last reference is gone. -/
def allowed (state : IpcState) : IpcCall → Bool
  | portCreate _ _ _ _ _ | portConnect _ _ _ _ => true
  | portPublish port | portAccept port | portShutdown port | portIncref port | portDecref port =>
    holdsPort state port
  | chanShutdown chan | chanIncref chan | chanDecref chan | chanFinalize chan _ _ | sendMsg chan _ |
    getMsg chan _ | readMsg chan _ _ _ | putMsg chan _ => holdsChan state chan
  | chanDestroy chan => (state.chans chan).any fun value => value.handle == some 0

end IpcCall

def IpcState.empty : IpcState where
  chans _ := none
  nextChan := 0
  ports _ := none
  nextPort := 0
  waiting := []
  portList := []
  memory := []

def IpcStep (state : IpcState) (call : IpcCall) (reply : IpcReply) (final : IpcState) : Prop :=
  call.allowed state = true ∧ ∃ memory, call.run { state with memory := memory } = .done reply final

inductive IpcReachable : IpcState → Prop
  | empty : IpcReachable .empty
  | step {state final : IpcState} {call : IpcCall} {reply : IpcReply} : IpcReachable state →
      IpcStep state call reply final → IpcReachable final

end Trusty.Ipc
