/-
# `Driver.ConnectionManager` — the connections that the network driver follows

The driver has a node for each file object of the transport.  A node may have a
`Connection`, which the handlers of the requests allocate and free.  A request
to connect and an accept go on after the handler, with the connection as
context of the routine that is called at their end.

`view` reads the manager as blocks that nodes and contexts refer to, and every
request is one operation on it (`view_next`).  So the rules of `Lib.Ownership`
say when nothing dangles and nothing is lost (`sound_throughout_iff_orderly`).
A handler that goes through a null pointer stops the system: there is no state
after it.
-/
import CaptureHpc.Driver.EventHandlerManager
import CaptureHpc.Lib.Ownership

namespace CaptureHpc.Driver

/-! ## The connections -/

inductive DeviceType where
  | tcpDevice
  | udpDevice
deriving DecidableEq

inductive ConnectionState where
  | tcpStateClosed
  | tcpStateListen
  | tcpStateSynSent
  | tcpStateSynRcvd
  | tcpStateEstablished
  | tcpStateFinWait1
  | tcpStateFinWait2
  | tcpStateClosing
  | tcpStateTimeWait
  | tcpStateCloseWait
  | tcpStateLastAck
  | udpStateClosed
  | udpStateConnect
  | udpStateEstablished
  | udpStateSend
  | udpStateReceive
  | udpStateSendDatagram
  | udpStateReceiveDatagram
deriving DecidableEq

/-- A `TA_ADDRESS`. -/
structure TaAddress where
  addressType : BitVec 16
  address : List (BitVec 8)
deriving DecidableEq

/-- `TDI_ADDRESS_TYPE_IP`. -/
def tdiAddressTypeIp : BitVec 16 := 2

structure Connection where
  localNode : FileObject := 0
  remoteNode : FileObject := 0
  localNodeAddress : TaAddress := ⟨0, []⟩
  remoteNodeAddress : TaAddress := ⟨0, []⟩
  state : ConnectionState := .tcpStateClosed
  processId : BitVec 32 := 0
deriving DecidableEq

/-- The connection is the number of one that was allocated; there may be none. -/
structure ConnectionNode where
  node : FileObject
  connection : Option Nat
deriving DecidableEq

/-- What `SetConnectionState` tells the client. -/
structure ConnectionEvent where
  state : ConnectionState
  localNodeAddress : TaAddress
  remoteNodeAddress : TaAddress
  processId : BitVec 32
deriving DecidableEq

structure ConnectionManager where
  deviceType : DeviceType
  connections : HashMap ConnectionNode := .initialise
  eventHandlerManager : EventHandlerManager := {}
  eventList : List ConnectionEvent := []
  /-- What is at an address of the lookaside list. -/
  connectionsPool : Nat → Option Connection := fun _ => none
  /-- How many connections were allocated; the next address. -/
  allocated : Nat := 0
  /-- How often a connection was freed; nobody reads it. -/
  frees : Nat → Nat := fun _ => 0

/-- What is in the extended attributes of a request to create. -/
inductive FileKind where
  | transportAddress
  | connectionContext
  /-- No attributes, which is a control channel, or others. -/
  | other
deriving DecidableEq

/-- What a handler is given by the system. -/
structure Surroundings where
  /-- The block that the lookaside list has for a connection, as it was left. -/
  block : Option Connection := some {}
  /-- The pools have memory for a connection node and its pair. -/
  node : Bool := true
  /-- The answer to the query for the local address. -/
  localAddress : Option TaAddress := none
  /-- `IoGetRequestorProcessId`. -/
  processId : BitVec 32 := 0
  /-- The completion routine could be set. -/
  completion : Bool := true

namespace ConnectionManager

/-- `GetConnection`. -/
def getConnection (m : ConnectionManager) (node : FileObject) : Option Nat :=
  (m.connections.findValue node).bind ConnectionNode.connection

/-- `CreateConnection`. -/
def createConnection (m : ConnectionManager) (sys : Surroundings) :
    Option Nat × ConnectionManager :=
  match sys.block with
  | none => (none, m)
  | some block =>
      let state := match m.deviceType with
        | .tcpDevice => ConnectionState.tcpStateClosed
        | .udpDevice => ConnectionState.udpStateClosed
      (some m.allocated,
        { m with
          connectionsPool := Function.update m.connectionsPool m.allocated (some { block with state })
          allocated := m.allocated + 1 })

/-- A change of the connection at an address.  What would be done to one that was freed is left out. -/
def write (m : ConnectionManager) (connection : Nat) (f : Connection → Connection) :
    ConnectionManager :=
  { m with
    connectionsPool :=
      Function.update m.connectionsPool connection ((m.connectionsPool connection).map f) }

/-- `connection_node->connection = connection`. -/
def setNodeConnection (m : ConnectionManager) (node : FileObject) (connection : Option Nat) :
    ConnectionManager :=
  { m with connections := m.connections.modify node fun v => { v with connection } }

/-- `ReleaseConnectionNode`, for a node that was found. -/
def releaseConnectionNode (m : ConnectionManager) (connection : Nat) (node : FileObject) :
    ConnectionManager :=
  if node = 0 then m
  else
    (m.write connection fun c =>
      { c with
        localNode := if c.localNode = node then 0 else c.localNode
        remoteNode := if c.remoteNode = node then 0 else c.remoteNode }).setNodeConnection node none

/-- `RemoveConnection`. -/
def removeConnection (m : ConnectionManager) (connection : Nat) : ConnectionManager :=
  { m with
    connectionsPool := Function.update m.connectionsPool connection none
    frees := Function.update m.frees connection (m.frees connection + 1) }

/-- `RemoveConnectionNode`. -/
def removeConnectionNode (m : ConnectionManager) (node : FileObject) : ConnectionManager :=
  match m.connections.findValue node with
  | none => m
  | some v =>
      let m := match v.connection with
        | none => m
        | some connection => m.removeConnection connection
      { m with connections := m.connections.remove node }

/-- `AddConnectionNode`. -/
def addConnectionNode (m : ConnectionManager) (connection : Option Nat) (node : FileObject)
    (sys : Surroundings) : ConnectionManager :=
  match m.connections.findValue node with
  | some _ => m
  | none => { m with connections := m.connections.insert node { node, connection } sys.node }

/-- `GetLocalAddress`, which waits for the answer. -/
def getLocalAddress (m : ConnectionManager) (connection : Nat) (sys : Surroundings) :
    ConnectionManager :=
  match sys.localAddress with
  | none => m
  | some localNodeAddress => m.write connection fun c => { c with localNodeAddress }

/-- `SetRemoteNodeAddress`. -/
def setRemoteNodeAddress (m : ConnectionManager) (connection : Nat) (remoteNodeAddress : TaAddress) :
    ConnectionManager :=
  m.write connection fun c => { c with remoteNodeAddress }

/-- `SetConnectionState`. -/
def setConnectionState (m : ConnectionManager) (connection : Nat) (state : ConnectionState) :
    ConnectionManager :=
  let m := m.write connection fun c => { c with state }
  match m.connectionsPool connection with
  | none => m
  | some c =>
      { m with
        eventList := m.eventList ++
          [⟨state, c.localNodeAddress, c.remoteNodeAddress, c.processId⟩] }

/-! ## The handlers of the requests -/

def tdiCreateHandler (m : ConnectionManager) (node : FileObject) (kind : FileKind)
    (sys : Surroundings) : ConnectionManager :=
  match kind with
  | .transportAddress => m.addConnectionNode none node sys
  | .connectionContext => m.addConnectionNode none node sys
  | .other => m

/-- A connection is created for a node, which is its local node. -/
def createFor (m : ConnectionManager) (node : FileObject) (connectionNode : ConnectionNode)
    (remoteNode : FileObject) (sys : Surroundings) : Option (Nat × ConnectionManager) := do
  let (created, m) := m.createConnection sys
  let connection ← created
  return (connection, (m.write connection fun c =>
    { c with localNode := connectionNode.node, remoteNode, processId := sys.processId }).setNodeConnection
      node (some connection))

/-- The local node is that of the handle, if there is one that can be referenced. -/
def tdiAssociateAddressHandler (m : ConnectionManager) (remoteNode : FileObject)
    (localNode : Option FileObject) (sys : Surroundings) : ConnectionManager :=
  match localNode with
  | none => m
  | some localNode =>
      let remoteConnectionNode := m.connections.findValue remoteNode
      let localConnectionNode := m.connections.findValue localNode
      match m.createConnection sys, remoteConnectionNode, localConnectionNode with
      | (some connection, m), some _, some _ =>
          (m.write connection fun c =>
            { c with localNode, remoteNode, processId := sys.processId }).setNodeConnection
              remoteNode (some connection)
      | (_, m), _, _ => m

def tdiDisassociateAddressHandler (m : ConnectionManager) (node : FileObject) : ConnectionManager :=
  match m.getConnection node with
  | none => m
  | some connection => (m.releaseConnectionNode connection node).removeConnection connection

/-- The rest of `TdiConnectHandler` after a UDP node has got its connection, with the connection
that is the context of the completion routine. -/
def startConnect (m : ConnectionManager) (remoteNode : FileObject) (remoteAddress : Option TaAddress)
    (sys : Surroundings) : Option Nat × ConnectionManager :=
  match m.getConnection remoteNode with
  | none => (none, m)
  | some connection =>
      let m := match remoteAddress with
        | none => m
        | some address =>
            if address.addressType = tdiAddressTypeIp then m.setRemoteNodeAddress connection address
            else m
      let m := m.getLocalAddress connection sys
      (some connection, m.setConnectionState connection (match m.deviceType with
        | .udpDevice => .udpStateConnect
        | .tcpDevice => .tcpStateSynSent))

def tdiConnectHandler (m : ConnectionManager) (remoteNode : FileObject)
    (remoteAddress : Option TaAddress) (sys : Surroundings) :
    Option (Option Nat × ConnectionManager) :=
  match m.connections.findValue remoteNode with
  | none => some (none, m)
  | some connectionNode =>
      match m.deviceType with
      | .tcpDevice => some (m.startConnect remoteNode remoteAddress sys)
      | .udpDevice => (m.createFor remoteNode connectionNode connectionNode.node sys).map fun (_, m) =>
          m.startConnect remoteNode remoteAddress sys

def tdiConnectHandlerComplete (m : ConnectionManager) (connection : Nat) (success : Bool) :
    ConnectionManager :=
  if success then
    match m.deviceType with
    | .tcpDevice => m.setConnectionState connection .tcpStateEstablished
    | .udpDevice => m.setConnectionState connection .udpStateEstablished
  else m

def tdiCloseHandler (m : ConnectionManager) (node : FileObject) : ConnectionManager :=
  m.removeConnectionNode node

/-- The connection of a node, which is created if there is none. -/
def connectionOf (m : ConnectionManager) (node : FileObject) (connectionNode : ConnectionNode)
    (sys : Surroundings) : Option (Nat × ConnectionManager) :=
  match connectionNode.connection with
  | some connection => some (connection, m)
  | none => m.createFor node connectionNode 0 sys

def tdiSendDatagramHandler (m : ConnectionManager) (node : FileObject) (remoteAddress : TaAddress)
    (sys : Surroundings) : Option ConnectionManager :=
  match m.connections.findValue node with
  | none => some m
  | some connectionNode => (m.connectionOf node connectionNode sys).map fun (connection, m) =>
      let m := m.getLocalAddress connection sys
      let m := m.setRemoteNodeAddress connection remoteAddress
      m.setConnectionState connection .udpStateSendDatagram

/-- `SetLocalConnectionNode`. -/
def setLocalConnectionNode (m : ConnectionManager) (connection : Nat) (localNode : FileObject)
    (sys : Surroundings) : ConnectionManager :=
  (m.write connection fun c => { c with localNode }).addConnectionNode (some connection) localNode sys

/-- `SetRemoteConnectionNode`. -/
def setRemoteConnectionNode (m : ConnectionManager) (connection : Nat) (remoteNode : FileObject)
    (sys : Surroundings) : ConnectionManager :=
  (m.write connection fun c => { c with remoteNode }).addConnectionNode (some connection) remoteNode sys

/-- The part for `TDI_EVENT_CONNECT`: the connection of a listening node. -/
def listen (m : ConnectionManager) (node : FileObject) (sys : Surroundings) :
    Option ConnectionManager :=
  let connectionNode := m.connections.findValue node
  match m.createConnection sys with
  | (none, _) => none
  | (some connection, m) =>
      let m := m.setLocalConnectionNode connection node sys
      let m := m.setRemoteConnectionNode connection node sys
      match connectionNode with
      | none => none
      | some _ =>
          let m := m.setNodeConnection node (some connection)
          let m := m.getLocalAddress connection sys
          let m := m.write connection fun c => { c with remoteNodeAddress := c.localNodeAddress }
          some (m.setConnectionState connection .tcpStateListen)

def tdiSetEventHandler (m : ConnectionManager) (node : FileObject) (eventHandler : TdiEventHandler)
    (memory : PoolMemory) (sys : Surroundings) : Option ConnectionManager :=
  let m := { m with
    eventHandlerManager := (m.eventHandlerManager.tdiSetEventHandler node eventHandler memory).2 }
  if eventHandler.eventHandler = 0 ∧ eventHandler.eventContext = 0 then some m
  else if eventHandler.eventType = 0 then m.listen node sys
  else some m

/-- `TdiConnectEventHandler` after the original handler wants to accept on a node; with the
connection that is the context of the completion routine. -/
def tdiConnectEventHandler (m : ConnectionManager) (node : FileObject) (remoteAddress : TaAddress)
    (sys : Surroundings) : Option Nat × ConnectionManager :=
  match m.getConnection node with
  | none => (none, m)
  | some connection =>
      let m := m.getLocalAddress connection sys
      let m := m.setRemoteNodeAddress connection remoteAddress
      (some connection, m.setConnectionState connection .tcpStateSynRcvd)

def tdiConnectEventHandlerComplete (m : ConnectionManager) (connection : Nat) (success : Bool) :
    ConnectionManager :=
  if success then m.setConnectionState connection .tcpStateEstablished
  else m.setConnectionState connection .tcpStateFinWait1

end ConnectionManager

/-! ## The driver -/

/-- A request that is to be completed. -/
inductive CompletionRoutine where
  | tdiConnectHandlerComplete (connection : Nat)
  | tdiConnectEventHandlerComplete (connection : Nat)
deriving DecidableEq

def CompletionRoutine.context : CompletionRoutine → Nat
  | .tdiConnectHandlerComplete connection => connection
  | .tdiConnectEventHandlerComplete connection => connection

structure NetworkDriver where
  manager : ConnectionManager
  pending : List CompletionRoutine := []

inductive TdiAction where
  | create (node : FileObject) (kind : FileKind)
  | associate (node : FileObject) (localNode : Option FileObject)
  | disassociate (node : FileObject)
  | connect (node : FileObject) (remoteAddress : Option TaAddress)
  | sendDatagram (node : FileObject) (remoteAddress : TaAddress)
  | setEventHandler (node : FileObject) (eventHandler : TdiEventHandler) (memory : PoolMemory)
  | close (node : FileObject)
  /-- The handler hooked for connections is called, and the original one accepts on this node. -/
  | accept (node : FileObject) (remoteAddress : TaAddress)
  /-- The pending request with this number is completed. -/
  | complete (i : Nat) (success : Bool)

namespace NetworkDriver

/-- The context is pending, where there is one and the completion routine could be set. -/
def await (s : NetworkDriver) (m : ConnectionManager) (routine : Option CompletionRoutine)
    (sys : Surroundings) : NetworkDriver :=
  match routine with
  | some routine =>
      { manager := m, pending := if sys.completion then s.pending ++ [routine] else s.pending }
  | none => { s with manager := m }

/-- `HandleIrp`, which looks into the file object of an internal request, and the routines that
the transport calls. -/
def next (s : NetworkDriver) : TdiAction × Surroundings → Option NetworkDriver
  | (.create node kind, sys) => some { s with manager := s.manager.tdiCreateHandler node kind sys }
  | (.associate node localNode, sys) =>
      if node = 0 then none
      else some { s with manager := s.manager.tdiAssociateAddressHandler node localNode sys }
  | (.disassociate node, _) =>
      if node = 0 then none
      else some { s with manager := s.manager.tdiDisassociateAddressHandler node }
  | (.connect node remoteAddress, sys) =>
      if node = 0 then none
      else (s.manager.tdiConnectHandler node remoteAddress sys).map fun (context, m) =>
        s.await m (context.map .tdiConnectHandlerComplete) sys
  | (.sendDatagram node remoteAddress, sys) =>
      if node = 0 then none
      else (s.manager.tdiSendDatagramHandler node remoteAddress sys).map fun m => { s with manager := m }
  | (.setEventHandler node eventHandler memory, sys) =>
      if node = 0 then none
      else (s.manager.tdiSetEventHandler node eventHandler memory sys).map fun m =>
        { s with manager := m }
  | (.close node, _) => some { s with manager := s.manager.tdiCloseHandler node }
  | (.accept node remoteAddress, sys) =>
      let (context, m) := s.manager.tdiConnectEventHandler node remoteAddress sys
      some (s.await m (context.map .tdiConnectEventHandlerComplete) sys)
  | (.complete i success, _) =>
      match s.pending[i]? with
      | none => none
      | some (.tdiConnectHandlerComplete connection) =>
          some
            { manager := s.manager.tdiConnectHandlerComplete connection success
              pending := s.pending.eraseIdx i }
      | some (.tdiConnectEventHandlerComplete connection) =>
          some
            { manager := s.manager.tdiConnectEventHandlerComplete connection success
              pending := s.pending.eraseIdx i }

def machine : Machine NetworkDriver (TdiAction × Surroundings) where
  init s := ∃ deviceType, s = { manager := { deviceType } }
  next := next

/-- Each node and each pending context refers to a connection that is there, none was freed twice,
and one that none of them refers to was freed. -/
structure Owned (s : NetworkDriver) : Prop where
  nodes : ∀ node v c, s.manager.connections.findValue node = some v → v.connection = some c →
    (s.manager.connectionsPool c).isSome
  contexts : ∀ r ∈ s.pending, (s.manager.connectionsPool r.context).isSome
  freedOnce : ∀ c, s.manager.frees c ≤ 1
  freed : ∀ c < s.manager.allocated,
    (∀ node v, s.manager.connections.findValue node = some v → v.connection ≠ some c) →
      (∀ r ∈ s.pending, r.context ≠ c) → s.manager.frees c = 1

/-- The node has no connection, or a pending context refers to it as well. -/
def Replaceable (s : NetworkDriver) (node : FileObject) : Prop :=
  ∀ c, s.manager.getConnection node = some c → ∃ r ∈ s.pending, r.context = c

/-- No pending context refers to the connection of the node. -/
def Removable (s : NetworkDriver) (node : FileObject) : Prop :=
  ∀ c, s.manager.getConnection node = some c → ∀ r ∈ s.pending, r.context ≠ c

/-- The order of the requests is one that the driver can cope with. -/
def Orderly (s : NetworkDriver) : TdiAction × Surroundings → Prop
  | (.create _ _, _) => True
  | (.associate node localNode, sys) => ∀ l, localNode = some l → sys.block.isSome →
      (s.manager.connections.findValue node).isSome ∧ (s.manager.connections.findValue l).isSome ∧
        s.Replaceable node
  | (.disassociate node, _) => s.Removable node
  | (.connect node _, _) => s.manager.deviceType = .udpDevice → s.Replaceable node
  | (.sendDatagram _ _, _) => True
  | (.setEventHandler node eventHandler _, _) =>
      ¬(eventHandler.eventHandler = 0 ∧ eventHandler.eventContext = 0) → eventHandler.eventType = 0 →
        s.Replaceable node
  | (.close node, _) => s.Removable node
  | (.accept _ _, _) => True
  | (.complete i _, _) => ∀ r, s.pending[i]? = some r →
      (∃ node, s.manager.getConnection node = some r.context) ∨
        ∃ r' ∈ s.pending.eraseIdx i, r'.context = r.context

end NetworkDriver

/-! ## The handlers as operations on the owners -/

namespace ConnectionManager

variable {m m' m'' : ConnectionManager} {node : FileObject} {sys : Surroundings} {pending : List Nat}

open Ownership

/-- The manager as blocks that nodes and contexts refer to. -/
def owners (m : ConnectionManager) (pending : List Nat) : Ownership FileObject where
  held := m.getConnection
  pending := pending
  allocated := m.allocated
  frees := m.frees

/-- What is at an address is what was allocated there and not freed. -/
def Backed (m : ConnectionManager) : Prop :=
  ∀ c, (m.connectionsPool c).isSome ↔ c < m.allocated ∧ m.frees c = 0

/-- The change of the manager is this operation. -/
structure Performs (op : Op FileObject) (m m' : ConnectionManager) : Prop where
  distinct : m'.connections.Distinct
  backed : m'.Backed
  owners : ∀ pending, m'.owners pending = (m.owners pending).apply op

/-- Nothing was changed but what is in the connections. -/
structure Same (m m' : ConnectionManager) : Prop where
  deviceType : m'.deviceType = m.deviceType
  connections : m'.connections = m.connections
  allocated : m'.allocated = m.allocated
  frees : m'.frees = m.frees
  live : ∀ c, (m'.connectionsPool c).isSome = (m.connectionsPool c).isSome

theorem Same.refl : Same m m := ⟨rfl, rfl, rfl, rfl, fun _ => rfl⟩

theorem Same.trans (h : Same m m') (h' : Same m' m'') : Same m m'' :=
  ⟨h'.deviceType.trans h.deviceType, h'.connections.trans h.connections,
    h'.allocated.trans h.allocated, h'.frees.trans h.frees, fun c => (h'.live c).trans (h.live c)⟩

theorem Same.write (connection : Nat) (f : Connection → Connection) :
    Same m (m.write connection f) where
  deviceType := rfl
  connections := rfl
  allocated := rfl
  frees := rfl
  live c := by
    by_cases hc : c = connection
    · simp [ConnectionManager.write, hc]
    · simp [ConnectionManager.write, hc]

theorem Same.getLocalAddress (connection : Nat) (sys : Surroundings) :
    Same m (m.getLocalAddress connection sys) := by
  rw [ConnectionManager.getLocalAddress]
  cases sys.localAddress with
  | none => exact .refl
  | some _ => exact .write ..

theorem Same.setConnectionState (connection : Nat) (state : ConnectionState) :
    Same m (m.setConnectionState connection state) := by
  have hwrite : Same m (m.write connection fun c => { c with state }) := .write ..
  simp only [ConnectionManager.setConnectionState]
  split
  · exact hwrite
  · exact ⟨hwrite.deviceType, hwrite.connections, hwrite.allocated, hwrite.frees, hwrite.live⟩

theorem Same.getConnection (h : Same m m') : m'.getConnection = m.getConnection := by
  funext node
  rw [ConnectionManager.getConnection, h.connections]
  rfl

theorem Same.owners (h : Same m m') (pending : List Nat) : m'.owners pending = m.owners pending := by
  rw [ConnectionManager.owners, h.getConnection, h.allocated, h.frees]
  rfl

theorem Same.backed (h : Same m m') (hb : m.Backed) : m'.Backed := by
  intro c
  rw [h.live, h.allocated, h.frees]
  exact hb c

theorem Performs.same {op : Op FileObject} (h : Performs op m m') (h' : Same m' m'') :
    Performs op m m'' where
  distinct := h'.connections ▸ h.distinct
  backed := h'.backed h.backed
  owners pending := (h'.owners pending).trans (h.owners pending)

theorem Performs.keep (hd : m.connections.Distinct) (hb : m.Backed) : Performs .keep m m :=
  ⟨hd, hb, fun _ => rfl⟩

theorem Same.performs (h : Same m m') (hd : m.connections.Distinct) (hb : m.Backed) :
    Performs .keep m m' := (Performs.keep hd hb).same h

theorem getConnection_setNodeConnection {v : ConnectionNode} {connection : Option Nat}
    (h : m.connections.findValue node = some v) :
    (m.setNodeConnection node connection).getConnection =
      Function.update m.getConnection node connection := by
  funext node'
  rw [getConnection, setNodeConnection, HashMap.findValue_modify]
  by_cases hn : node' = node
  · subst hn
    simp [h]
  · simp [hn, getConnection]

/-- A connection that was created is the next one. -/
theorem createConnection_some {block : Connection} (h : sys.block = some block) :
    ∃ c, m.createConnection sys = (some m.allocated,
      { m with
        connectionsPool := Function.update m.connectionsPool m.allocated (some c)
        allocated := m.allocated + 1 }) := by
  rw [createConnection, h]
  exact ⟨_, rfl⟩

theorem Backed.create (hb : m.Backed) (hk : (m.owners pending).Kept) (c : Connection) :
    Backed { m with
      connectionsPool := Function.update m.connectionsPool m.allocated (some c)
      allocated := m.allocated + 1 } := by
  intro c'
  by_cases hc : c' = m.allocated
  · subst hc
    have hzero : m.frees m.allocated = 0 := hk.unallocated _ le_rfl
    simp [hzero]
  · simp only [Function.update_of_ne hc, hb c']
    have hlt : c' < m.allocated ↔ c' < m.allocated + 1 := by omega
    rw [hlt]

theorem Performs.leak (hd : m.connections.Distinct) (hb : m.Backed) (hk : (m.owners pending).Kept)
    (c : Connection) : Performs .leak m { m with
      connectionsPool := Function.update m.connectionsPool m.allocated (some c)
      allocated := m.allocated + 1 } :=
  ⟨hd, hb.create hk c, fun _ => rfl⟩

/-- A connection is created, filled in and put into the node. -/
theorem Performs.give (hd : m.connections.Distinct) (hb : m.Backed) (hk : (m.owners pending).Kept)
    {v : ConnectionNode} (h : m.connections.findValue node = some v) {c : Connection}
    (hsame : Same { m with
      connectionsPool := Function.update m.connectionsPool m.allocated (some c)
      allocated := m.allocated + 1 } m') :
    Performs (.give node false) m (m'.setNodeConnection node (some m.allocated)) where
  distinct := by
    have hd' : m'.connections.Distinct := hsame.connections ▸ hd
    exact hd'.modify node fun v => { v with connection := some m.allocated }
  backed := hsame.backed (hb.create hk c)
  owners pending' := by
    have hfind : m'.connections.findValue node = some v := hsame.connections ▸ h
    rw [ConnectionManager.owners, getConnection_setNodeConnection hfind, hsame.getConnection]
    simp only [setNodeConnection, hsame.allocated, hsame.frees]
    rfl

theorem Performs.createFor (hd : m.connections.Distinct) (hb : m.Backed)
    (hk : (m.owners pending).Kept) {v : ConnectionNode} (hfind : m.connections.findValue node = some v)
    {remoteNode : FileObject} {c : Nat} (h : m.createFor node v remoteNode sys = some (c, m')) :
    c = m.allocated ∧ m'.deviceType = m.deviceType ∧ Performs (.give node false) m m' := by
  rw [ConnectionManager.createFor] at h
  cases hblock : sys.block with
  | none => simp [createConnection, hblock] at h
  | some block =>
      obtain ⟨connection, hcreate⟩ := createConnection_some (m := m) hblock
      rw [hcreate] at h
      cases h
      exact ⟨rfl, rfl, Performs.give hd hb hk hfind (.write ..)⟩

/-- What a node has is freed: the connection is gone from the node and from the pool. -/
theorem Performs.drop (hd : m'.connections.Distinct) (hb : m.Backed) {c : Nat}
    (h : m.getConnection node = some c)
    (hpool : ∀ c', (m'.connectionsPool c').isSome = if c' = c then false else (m.connectionsPool c').isSome)
    (hheld : m'.getConnection = Function.update m.getConnection node none)
    (hallocated : m'.allocated = m.allocated)
    (hfrees : m'.frees = Function.update m.frees c (m.frees c + 1)) :
    Performs (.drop node) m m' where
  distinct := hd
  backed c' := by
    rw [hpool, hallocated, hfrees]
    by_cases hc : c' = c
    · simp [hc]
    · rw [if_neg hc, Function.update_of_ne hc]
      exact hb c'
  owners pending' := by
    simp only [ConnectionManager.owners, hheld, hallocated, hfrees, Ownership.apply, h]

theorem Performs.drop_none (hd : m.connections.Distinct) (hb : m.Backed)
    (h : m.getConnection node = none) : Performs (.drop node) m m where
  distinct := hd
  backed := hb
  owners pending := by
    have hheld : (m.owners pending).held node = none := h
    simp only [Ownership.apply, hheld]

theorem performs_create (hd : m.connections.Distinct) (hb : m.Backed) (kind : FileKind) :
    Performs .keep m (m.tdiCreateHandler node kind sys) := by
  have hadd : Performs .keep m (m.addConnectionNode none node sys) := by
    rw [addConnectionNode]
    cases hfind : m.connections.findValue node with
    | some _ => exact .keep hd hb
    | none =>
        refine ⟨hd.insert _ _ hfind, hb, fun pending => ?_⟩
        have hheld : ({ m with
            connections := m.connections.insert node { node, connection := none } sys.node } :
              ConnectionManager).getConnection = m.getConnection := by
          funext node'
          simp only [getConnection]
          by_cases hn : node' = node
          · subst hn
            cases sys.node with
            | false => simp
            | true => simp [HashMap.findValue_insert_self _ hfind, hfind]
          · rw [HashMap.findValue_insert_of_ne _ _ _ hn]
        rw [ConnectionManager.owners, hheld]
        rfl
  cases kind with
  | transportAddress => exact hadd
  | connectionContext => exact hadd
  | other => exact .keep hd hb

theorem performs_associate (hd : m.connections.Distinct) (hb : m.Backed)
    (hk : (m.owners pending).Kept) (localNode : Option FileObject) :
    Performs (match localNode with
        | none => .keep
        | some l =>
            if sys.block.isNone then .keep
            else if (m.connections.findValue node).isSome ∧ (m.connections.findValue l).isSome then
              .give node false
            else .leak) m (m.tdiAssociateAddressHandler node localNode sys) := by
  cases localNode with
  | none => exact .keep hd hb
  | some l =>
      simp only [tdiAssociateAddressHandler]
      cases hblock : sys.block with
      | none =>
          have hnone : m.createConnection sys = (none, m) := by rw [createConnection, hblock]
          simp only [hnone]
          exact .keep hd hb
      | some block =>
          obtain ⟨connection, hcreate⟩ := createConnection_some (m := m) hblock
          simp only [hcreate]
          cases hremote : m.connections.findValue node with
          | none => exact .leak hd hb hk connection
          | some v =>
              cases hlocal : m.connections.findValue l with
              | none => exact .leak hd hb hk connection
              | some _ => exact Performs.give hd hb hk hremote (.write ..)

theorem performs_disassociate (hd : m.connections.Distinct) (hb : m.Backed) (hnode : node ≠ 0) :
    Performs (.drop node) m (m.tdiDisassociateAddressHandler node) := by
  rw [tdiDisassociateAddressHandler]
  cases h : m.getConnection node with
  | none => exact .drop_none hd hb h
  | some c =>
      obtain ⟨v, hfind, hv⟩ := Option.bind_eq_some_iff.mp h
      simp only [releaseConnectionNode, if_neg hnode]
      refine .drop (hd.modify node fun v => { v with connection := none }) hb h ?_ ?_ rfl rfl
      · intro c'
        by_cases hc : c' = c
        · simp [removeConnection, hc]
        · simp [removeConnection, setNodeConnection, ConnectionManager.write, hc]
      · exact getConnection_setNodeConnection hfind

theorem performs_close (hd : m.connections.Distinct) (hb : m.Backed) :
    Performs (.drop node) m (m.tdiCloseHandler node) := by
  have hheld : ({ m with connections := m.connections.remove node } : ConnectionManager).getConnection =
      Function.update m.getConnection node none := by
    funext node'
    simp only [getConnection]
    by_cases hn : node' = node
    · subst hn
      simp [HashMap.findValue_remove_self hd]
    · simp [HashMap.findValue_remove_of_ne _ hn, hn, getConnection]
  rw [tdiCloseHandler, removeConnectionNode]
  cases hfind : m.connections.findValue node with
  | none => exact .drop_none hd hb (by simp [getConnection, hfind])
  | some v =>
      cases hv : v.connection with
      | none =>
          have hnone : m.getConnection node = none := by simp [getConnection, hfind, hv]
          have hsame : Function.update m.getConnection node none = m.getConnection := by
            rw [← hnone, Function.update_eq_self]
          simp only [hv]
          refine ⟨hd.remove node, hb, fun pending => ?_⟩
          have hdrop := (Performs.drop_none hd hb hnone).owners pending
          rw [ConnectionManager.owners, hheld, hsame]
          exact hdrop
      | some c =>
          have hsome : m.getConnection node = some c := by simp [getConnection, hfind, hv]
          simp only [hv]
          refine .drop (hd.remove node) hb hsome ?_ hheld ?_ ?_
          · intro c'
            by_cases hc : c' = c
            · simp [removeConnection, hc]
            · simp [removeConnection, hc]
          · rfl
          · rfl

theorem startConnect_eq (m : ConnectionManager) (node : FileObject) (remoteAddress : Option TaAddress)
    (sys : Surroundings) :
    (m.startConnect node remoteAddress sys).1 = m.getConnection node ∧
      Same m (m.startConnect node remoteAddress sys).2 := by
  rw [startConnect]
  cases m.getConnection node with
  | none => exact ⟨rfl, .refl⟩
  | some c =>
      refine ⟨rfl, Same.trans ?_ (.setConnectionState ..)⟩
      cases remoteAddress with
      | none => exact .getLocalAddress c sys
      | some address =>
          by_cases hip : address.addressType = tdiAddressTypeIp
          · simp only [if_pos hip]
            exact Same.trans (.write ..) (.getLocalAddress c sys)
          · simp only [if_neg hip]
            exact .getLocalAddress c sys

/-- The outcomes of a request to connect. -/
theorem connect_cases (hd : m.connections.Distinct) (hb : m.Backed) (hk : (m.owners pending).Kept)
    {remoteAddress : Option TaAddress} {context : Option Nat}
    (h : m.tdiConnectHandler node remoteAddress sys = some (context, m')) :
    (¬((m.connections.findValue node).isSome ∧ m.deviceType = .udpDevice) ∧
        context = m.getConnection node ∧ Same m m') ∨
      ((m.connections.findValue node).isSome ∧ m.deviceType = .udpDevice ∧
        context = some m.allocated ∧ Performs (.give node false) m m') := by
  rw [tdiConnectHandler] at h
  cases hfind : m.connections.findValue node with
  | none =>
      rw [hfind] at h
      cases h
      exact .inl ⟨by simp, by simp [getConnection, hfind], .refl⟩
  | some v =>
      rw [hfind] at h
      cases hdevice : m.deviceType with
      | tcpDevice =>
          simp only [hdevice, Option.some.injEq] at h
          obtain ⟨hcontext, hsame⟩ := startConnect_eq m node remoteAddress sys
          rw [h] at hcontext hsame
          exact .inl ⟨by simp, hcontext, hsame⟩
      | udpDevice =>
          simp only [hdevice] at h
          obtain ⟨⟨c, m₁⟩, hcreate, hstart⟩ := Option.map_eq_some_iff.mp h
          obtain ⟨rfl, -, hgive⟩ := Performs.createFor hd hb hk hfind hcreate
          obtain ⟨hcontext, hsame⟩ := startConnect_eq m₁ node remoteAddress sys
          simp only [hstart] at hcontext hsame
          have hheld : m₁.getConnection node = some m.allocated := by
            have howners := congrArg (fun o => o.held node) (hgive.owners [])
            simpa [ConnectionManager.owners, Ownership.apply] using howners
          exact .inr ⟨rfl, rfl, hcontext.trans hheld, hgive.same hsame⟩

theorem performs_sendDatagram (hd : m.connections.Distinct) (hb : m.Backed)
    (hk : (m.owners pending).Kept) {remoteAddress : TaAddress}
    (h : m.tdiSendDatagramHandler node remoteAddress sys = some m') :
    Performs (if (m.connections.findValue node).isSome ∧ m.getConnection node = none then
      .give node false else .keep) m m' := by
  rw [tdiSendDatagramHandler] at h
  cases hfind : m.connections.findValue node with
  | none =>
      simp only [hfind] at h
      cases h
      simpa using Performs.keep hd hb
  | some v =>
      simp only [hfind] at h
      obtain ⟨⟨c, m₁⟩, hconnection, hrest⟩ := Option.map_eq_some_iff.mp h
      have hsame : Same m₁ m' := by
        rw [← hrest]
        exact ((Same.getLocalAddress c sys).trans (.write ..)).trans (.setConnectionState ..)
      rw [connectionOf] at hconnection
      cases hv : v.connection with
      | none =>
          rw [hv] at hconnection
          obtain ⟨-, -, hgive⟩ := Performs.createFor hd hb hk hfind hconnection
          have hheld : m.getConnection node = none := by simp [getConnection, hfind, hv]
          simpa [hheld] using hgive.same hsame
      | some c' =>
          rw [hv] at hconnection
          cases hconnection
          have hheld : m.getConnection node ≠ none := by simp [getConnection, hfind, hv]
          simpa [hheld] using hsame.performs hd hb

/-- `AddConnectionNode` does nothing for a node that is known. -/
theorem Same.addConnectionNode {v : ConnectionNode} (h : m.connections.findValue node = some v)
    (c : Option Nat) : Same m (m.addConnectionNode c node sys) := by
  rw [ConnectionManager.addConnectionNode, h]
  exact .refl

theorem Same.setLocalConnectionNode {v : ConnectionNode} (h : m.connections.findValue node = some v)
    (c : Nat) (sys : Surroundings) : Same m (m.setLocalConnectionNode c node sys) := by
  have hfind : (m.write c fun x => { x with localNode := node }).connections.findValue node = some v := h
  exact (Same.write ..).trans (Same.addConnectionNode hfind _)

theorem Same.setRemoteConnectionNode {v : ConnectionNode} (h : m.connections.findValue node = some v)
    (c : Nat) (sys : Surroundings) : Same m (m.setRemoteConnectionNode c node sys) := by
  have hfind : (m.write c fun x => { x with remoteNode := node }).connections.findValue node = some v := h
  exact (Same.write ..).trans (Same.addConnectionNode hfind _)

/-- A node that listens is known before: it would be a null pointer else. -/
theorem performs_listen (hd : m.connections.Distinct) (hb : m.Backed) (hk : (m.owners pending).Kept)
    (h : m.listen node sys = some m') : Performs (.give node false) m m' := by
  rw [listen] at h
  cases hblock : sys.block with
  | none => simp [createConnection, hblock] at h
  | some block =>
      obtain ⟨connection, hcreate⟩ := createConnection_some (m := m) hblock
      cases hfind : m.connections.findValue node with
      | none => simp [hcreate, hfind] at h
      | some v =>
          simp only [hcreate, hfind, Option.some.injEq] at h
          rw [← h]
          refine (Performs.give (c := connection) hd hb hk hfind ?_).same
            (((Same.getLocalAddress _ sys).trans (.write ..)).trans (.setConnectionState ..))
          have hfind' : ({ m with
              connectionsPool := Function.update m.connectionsPool m.allocated (some connection)
              allocated := m.allocated + 1 } : ConnectionManager).connections.findValue node = some v :=
            hfind
          have hlocal := Same.setLocalConnectionNode hfind' m.allocated sys
          rw [← hlocal.connections] at hfind'
          exact hlocal.trans (.setRemoteConnectionNode hfind' m.allocated sys)

theorem performs_setEventHandler (hd : m.connections.Distinct) (hb : m.Backed)
    (hk : (m.owners pending).Kept) {eventHandler : TdiEventHandler} {memory : PoolMemory}
    (h : m.tdiSetEventHandler node eventHandler memory sys = some m') :
    Performs (if ¬(eventHandler.eventHandler = 0 ∧ eventHandler.eventContext = 0) ∧
      eventHandler.eventType = 0 then .give node false else .keep) m m' := by
  have hsame : Same m { m with
      eventHandlerManager :=
        (m.eventHandlerManager.tdiSetEventHandler node eventHandler memory).2 } :=
    ⟨rfl, rfl, rfl, rfl, fun _ => rfl⟩
  rw [tdiSetEventHandler] at h
  by_cases hnull : eventHandler.eventHandler = 0 ∧ eventHandler.eventContext = 0
  · rw [if_pos hnull] at h
    rw [if_neg fun hset => hset.1 hnull]
    cases h
    exact hsame.performs hd hb
  · rw [if_neg hnull] at h
    by_cases htype : eventHandler.eventType = 0
    · rw [if_pos htype] at h
      rw [if_pos ⟨hnull, htype⟩]
      obtain ⟨hd', hb', howners⟩ := performs_listen (m := { m with
        eventHandlerManager :=
          (m.eventHandlerManager.tdiSetEventHandler node eventHandler memory).2 })
        hd (hsame.backed hb) hk h
      exact ⟨hd', hb', howners⟩
    · rw [if_neg htype] at h
      rw [if_neg fun hset => htype hset.2]
      cases h
      exact hsame.performs hd hb

theorem accept_eq (m : ConnectionManager) (node : FileObject) (remoteAddress : TaAddress)
    (sys : Surroundings) :
    (m.tdiConnectEventHandler node remoteAddress sys).1 = m.getConnection node ∧
      Same m (m.tdiConnectEventHandler node remoteAddress sys).2 := by
  rw [tdiConnectEventHandler]
  cases m.getConnection node with
  | none => exact ⟨rfl, .refl⟩
  | some c =>
      exact ⟨rfl, ((Same.getLocalAddress c sys).trans (.write ..)).trans (.setConnectionState ..)⟩

theorem Same.connectComplete (connection : Nat) (success : Bool) :
    Same m (m.tdiConnectHandlerComplete connection success) := by
  rw [tdiConnectHandlerComplete]
  cases success with
  | false => exact .refl
  | true =>
      cases m.deviceType with
      | tcpDevice => exact .setConnectionState ..
      | udpDevice => exact .setConnectionState ..

theorem Same.acceptComplete (connection : Nat) (success : Bool) :
    Same m (m.tdiConnectEventHandlerComplete connection success) := by
  cases success with
  | false => exact .setConnectionState ..
  | true => exact .setConnectionState ..

end ConnectionManager

/-! ## The driver as a machine of owners -/

namespace NetworkDriver

open Ownership ConnectionManager

variable {s s' : NetworkDriver} {a : TdiAction × Surroundings}

/-- The blocks that nodes and contexts refer to. -/
def view (s : NetworkDriver) : Ownership FileObject :=
  s.manager.owners (s.pending.map CompletionRoutine.context)

/-- What a request does to them. -/
def op (s : NetworkDriver) : TdiAction × Surroundings → Op FileObject
  | (.create _ _, _) => .keep
  | (.associate node localNode, sys) =>
      match localNode with
      | none => .keep
      | some l =>
          if sys.block.isNone then .keep
          else if (s.manager.connections.findValue node).isSome ∧
            (s.manager.connections.findValue l).isSome then .give node false
          else .leak
  | (.disassociate node, _) => .drop node
  | (.connect node _, sys) =>
      if (s.manager.connections.findValue node).isSome ∧ s.manager.deviceType = .udpDevice then
        .give node sys.completion
      else if sys.completion then .lend node else .keep
  | (.sendDatagram node _, _) =>
      if (s.manager.connections.findValue node).isSome ∧ s.manager.getConnection node = none then
        .give node false
      else .keep
  | (.setEventHandler node eventHandler _, _) =>
      if ¬(eventHandler.eventHandler = 0 ∧ eventHandler.eventContext = 0) ∧
        eventHandler.eventType = 0 then .give node false
      else .keep
  | (.close node, _) => .drop node
  | (.accept node _, sys) => if sys.completion then .lend node else .keep
  | (.complete i _, _) => .settle i

/-- What is kept besides. -/
structure Stored (s : NetworkDriver) : Prop where
  distinct : s.manager.connections.Distinct
  backed : s.manager.Backed

theorem performed {o : Op FileObject} {m' : ConnectionManager}
    (h : ConnectionManager.Performs o s.manager m') :
    Stored { s with manager := m' } ∧ NetworkDriver.view { s with manager := m' } = s.view.apply o :=
  ⟨⟨h.distinct, h.backed⟩, h.owners _⟩

/-- The context is pending besides. -/
theorem await_eq (s : NetworkDriver) (m' : ConnectionManager) (context : Option Nat)
    {routine : Nat → CompletionRoutine} (hroutine : ∀ c, (routine c).context = c) (sys : Surroundings) :
    (s.await m' (context.map routine) sys).manager = m' ∧
      (s.await m' (context.map routine) sys).pending.map CompletionRoutine.context =
        s.pending.map CompletionRoutine.context ++ (if sys.completion then context.toList else []) := by
  cases context with
  | none => simp [await]
  | some c => cases h : sys.completion <;> simp [await, hroutine, h]

/-- A connection that a node has is lent to a routine. -/
theorem await_lend {m' : ConnectionManager} {node : FileObject} {sys : Surroundings}
    {context : Option Nat} {routine : Nat → CompletionRoutine} (hroutine : ∀ c, (routine c).context = c)
    (hs : s.Stored) (hsame : Same s.manager m') (hcontext : context = s.manager.getConnection node) :
    Stored (s.await m' (context.map routine) sys) ∧
      (s.await m' (context.map routine) sys).view =
        s.view.apply (if sys.completion then .lend node else .keep) := by
  obtain ⟨hmanager, hpending⟩ := s.await_eq m' context hroutine sys
  refine ⟨⟨?_, ?_⟩, ?_⟩
  · rw [hmanager, hsame.connections]
    exact hs.distinct
  · rw [hmanager]
    exact hsame.backed hs.backed
  · rw [view, hmanager, hpending, hsame.owners, hcontext]
    cases sys.completion with
    | false => simp [view, Ownership.apply]
    | true =>
        cases hheld : s.manager.getConnection node <;>
          simp [view, Ownership.apply, ConnectionManager.owners, hheld]

/-- A connection that was created for a node is lent to a routine. -/
theorem await_give {m' : ConnectionManager} {node : FileObject} {sys : Surroundings}
    {routine : Nat → CompletionRoutine} (hroutine : ∀ c, (routine c).context = c)
    (h : Performs (.give node false) s.manager m') :
    Stored (s.await m' ((some s.manager.allocated).map routine) sys) ∧
      (s.await m' ((some s.manager.allocated).map routine) sys).view =
        s.view.apply (.give node sys.completion) := by
  obtain ⟨hmanager, hpending⟩ := s.await_eq m' (some s.manager.allocated) hroutine sys
  refine ⟨⟨?_, ?_⟩, ?_⟩
  · rw [hmanager]
    exact h.distinct
  · rw [hmanager]
    exact h.backed
  · rw [view, hmanager, hpending, h.owners]
    cases sys.completion <;> simp [view, Ownership.apply, ConnectionManager.owners]

/-- A context is not pending any more. -/
theorem settled {m' : ConnectionManager} (hs : s.Stored) (hsame : Same s.manager m') (i : Nat) :
    Stored { manager := m', pending := s.pending.eraseIdx i } ∧
      view { manager := m', pending := s.pending.eraseIdx i } = s.view.apply (.settle i) := by
  refine ⟨⟨?_, hsame.backed hs.backed⟩, ?_⟩
  · rw [hsame.connections]
    exact hs.distinct
  · rw [view, hsame.owners, ← List.eraseIdx_map]
    rfl

/-- **Every step is one operation on the owners.** -/
theorem view_next (hs : s.Stored) (hk : s.view.Kept) (h : s.next a = some s') :
    s'.Stored ∧ s'.view = s.view.apply (s.op a) := by
  obtain ⟨action, sys⟩ := a
  cases action with
  | create node kind =>
      cases h
      exact performed (performs_create hs.distinct hs.backed kind)
  | associate node localNode =>
      simp only [next] at h
      split at h
      · cases h
      · cases h
        exact performed (performs_associate hs.distinct hs.backed hk localNode)
  | disassociate node =>
      simp only [next] at h
      split at h
      · cases h
      · next hnode =>
          cases h
          exact performed (performs_disassociate hs.distinct hs.backed hnode)
  | connect node remoteAddress =>
      simp only [next] at h
      split at h
      · cases h
      · obtain ⟨⟨context, m'⟩, hconnect, rfl⟩ := Option.map_eq_some_iff.mp h
        rcases connect_cases hs.distinct hs.backed hk hconnect with
          ⟨hneither, hcontext, hsame⟩ | ⟨hfind, hdevice, rfl, hgive⟩
        · simp only [op, if_neg hneither]
          exact await_lend (fun _ => rfl) hs hsame hcontext
        · simp only [op, if_pos (And.intro hfind hdevice)]
          exact await_give (fun _ => rfl) hgive
  | sendDatagram node remoteAddress =>
      simp only [next] at h
      split at h
      · cases h
      · obtain ⟨m', hsend, rfl⟩ := Option.map_eq_some_iff.mp h
        exact performed (performs_sendDatagram hs.distinct hs.backed hk hsend)
  | setEventHandler node eventHandler memory =>
      simp only [next] at h
      split at h
      · cases h
      · obtain ⟨m', hset, rfl⟩ := Option.map_eq_some_iff.mp h
        exact performed (performs_setEventHandler hs.distinct hs.backed hk hset)
  | close node =>
      cases h
      exact performed (performs_close hs.distinct hs.backed)
  | accept node remoteAddress =>
      cases h
      obtain ⟨hcontext, hsame⟩ := accept_eq s.manager node remoteAddress sys
      exact await_lend (fun _ => rfl) hs hsame hcontext
  | complete i success =>
      simp only [next] at h
      split at h
      · cases h
      · cases h
        exact settled hs (.connectComplete ..) i
      · cases h
        exact settled hs (.acceptComplete ..) i

theorem owned_iff (hs : s.Stored) : s.Owned ↔ s.view.Sound := by
  have hlive : ∀ c, (s.manager.connectionsPool c).isSome ↔ s.view.Live c := hs.backed
  have hheld : ∀ node c, s.view.held node = some c ↔
      ∃ v, s.manager.connections.findValue node = some v ∧ v.connection = some c := by
    intro node c
    exact Option.bind_eq_some_iff
  have hpending : ∀ c, c ∈ s.view.pending ↔ ∃ r ∈ s.pending, r.context = c := fun c => List.mem_map
  constructor
  · intro h
    refine ⟨fun node c hc => ?_, fun c hc => ?_, h.freedOnce, fun c hc hnone hnot => ?_⟩
    · obtain ⟨v, hfind, hv⟩ := (hheld node c).mp hc
      exact (hlive c).mp (h.nodes node v c hfind hv)
    · obtain ⟨r, hr, rfl⟩ := (hpending c).mp hc
      exact (hlive _).mp (h.contexts r hr)
    · refine h.freed c hc (fun node v hfind hv => ?_) fun r hr hcontext => ?_
      · exact hnone node ((hheld node c).mpr ⟨v, hfind, hv⟩)
      · exact hnot ((hpending c).mpr ⟨r, hr, hcontext⟩)
  · intro h
    refine ⟨fun node v c hfind hv => ?_, fun r hr => ?_, h.freedOnce, fun c hc hnone hnot => ?_⟩
    · exact (hlive c).mpr (h.heldLive node c ((hheld node c).mpr ⟨v, hfind, hv⟩))
    · exact (hlive _).mpr (h.pendingLive _ ((hpending _).mpr ⟨r, hr, rfl⟩))
    · refine h.freed c hc (fun node hc' => ?_) fun hmem => ?_
      · obtain ⟨v, hfind, hv⟩ := (hheld node c).mp hc'
        exact hnone node v hfind hv
      · obtain ⟨r, hr, hcontext⟩ := (hpending c).mp hmem
        exact hnot r hr hcontext

theorem replaceable_iff {node : FileObject} {lent : Bool} :
    s.view.Fits (.give node lent) ↔ s.Replaceable node :=
  forall₂_congr fun _ _ => List.mem_map

theorem removable_iff {node : FileObject} : s.view.Fits (.drop node) ↔ s.Removable node := by
  refine forall₂_congr fun c _ => ?_
  rw [show c ∉ s.view.pending ↔ ¬∃ r ∈ s.pending, r.context = c from not_congr List.mem_map]
  simp

/-- The orders that the driver can cope with are those in which every operation fits. -/
theorem fits_iff : s.view.Fits (s.op a) ↔ s.Orderly a := by
  obtain ⟨action, sys⟩ := a
  cases action with
  | create node kind => exact .rfl
  | associate node localNode =>
      cases localNode with
      | none => exact ⟨fun _ l h => (nomatch h), fun _ => trivial⟩
      | some l =>
          cases hblock : sys.block with
          | none => simp [op, Orderly, hblock, Fits]
          | some block =>
              by_cases hfind : (s.manager.connections.findValue node).isSome ∧
                  (s.manager.connections.findValue l).isSome
              · simp [op, Orderly, hblock, hfind, replaceable_iff]
              · simp only [op, Orderly, hblock, Option.isNone_some, if_neg hfind]
                refine ⟨fun h => (nomatch h), fun h => ?_⟩
                obtain ⟨hnode, hl, -⟩ := h l rfl rfl
                exact absurd ⟨hnode, hl⟩ hfind
  | disassociate node => exact removable_iff
  | connect node remoteAddress =>
      by_cases hudp : (s.manager.connections.findValue node).isSome ∧ s.manager.deviceType = .udpDevice
      · simp only [op, if_pos hudp, Orderly, replaceable_iff]
        exact ⟨fun h _ => h, fun h => h hudp.2⟩
      · have hfits : s.view.Fits (if sys.completion then .lend node else .keep) := by
          cases sys.completion <;> trivial
        simp only [op, if_neg hudp]
        refine ⟨fun _ hdevice c hc => ?_, fun _ => hfits⟩
        obtain ⟨v, hfind, -⟩ := Option.bind_eq_some_iff.mp hc
        exact absurd ⟨by rw [hfind]; rfl, hdevice⟩ hudp
  | sendDatagram node remoteAddress =>
      refine ⟨fun _ => trivial, fun _ => ?_⟩
      by_cases hnone : (s.manager.connections.findValue node).isSome ∧
          s.manager.getConnection node = none
      · simp only [op, if_pos hnone]
        intro c hc
        exact absurd (hnone.2.symm.trans hc) (by simp)
      · simp only [op, if_neg hnone]
        trivial
  | setEventHandler node eventHandler memory =>
      by_cases hlisten : ¬(eventHandler.eventHandler = 0 ∧ eventHandler.eventContext = 0) ∧
          eventHandler.eventType = 0
      · simp only [op, if_pos hlisten, Orderly, replaceable_iff]
        exact ⟨fun h _ _ => h, fun h => h hlisten.1 hlisten.2⟩
      · simp only [op, if_neg hlisten, Orderly]
        exact ⟨fun _ hset htype => absurd ⟨hset, htype⟩ hlisten, fun _ => trivial⟩
  | close node => exact removable_iff
  | accept node remoteAddress =>
      refine ⟨fun _ => trivial, fun _ => ?_⟩
      simp only [op]
      cases sys.completion <;> trivial
  | complete i success =>
      have hpending : s.view.pending[i]? = s.pending[i]?.map CompletionRoutine.context :=
        List.getElem?_map
      have hothers : s.view.pending.eraseIdx i =
          (s.pending.eraseIdx i).map CompletionRoutine.context := (List.eraseIdx_map ..)
      simp only [op, Orderly, Fits, hpending, hothers, List.mem_map, Option.map_eq_some_iff]
      constructor
      · intro h r hr
        exact h r.context ⟨r, hr, rfl⟩
      · rintro h c ⟨r, hr, rfl⟩
        exact h r hr

/-- **Who refers to which connection is right all along just if the requests come in an order that
the driver can cope with.** -/
theorem owned_throughout_iff {actions : List (TdiAction × Surroundings)} (hinit : machine.init s)
    (hrun : machine.run actions s = some s') :
    machine.Throughout Owned actions s ↔ machine.Meets Orderly actions s := by
  obtain ⟨deviceType, rfl⟩ := hinit
  have hstored : Stored { manager := { deviceType } } := by
    refine ⟨HashMap.Distinct.initialise, fun c => ?_⟩
    simp
  have horderly : (fun s a => s.view.Fits (s.op a)) = Orderly := by
    funext s a
    exact propext fits_iff
  rw [← horderly]
  exact Ownership.throughout_iff (fun s hs _ => owned_iff hs)
    (fun s a s' hs hk hnext => view_next hs hk hnext) hstored rfl hrun

/-- Requests with memory and a block of zeros. -/
def requests (actions : List TdiAction) : List (TdiAction × Surroundings) :=
  actions.map fun a => (a, {})

theorem opened_and_closed_owned : machine.Throughout Owned
    (requests [.create 1 .transportAddress, .create 2 .connectionContext, .associate 2 (some 1),
      .connect 2 none, .complete 0 true, .disassociate 2, .close 2, .close 1])
    { manager := { deviceType := .tcpDevice } } := by
  refine (owned_throughout_iff ⟨.tcpDevice, rfl⟩ rfl).mpr
    ⟨trivial, trivial, ?_, ?_, ?_, ?_, ?_, ?_, trivial⟩
  · intro l hl _
    cases hl
    exact ⟨rfl, rfl, fun c hc => nomatch hc⟩
  · intro hdevice
    cases hdevice
  · intro r hr
    cases hr
    exact .inl ⟨2, rfl⟩
  · intro c hc r hr
    cases hr
  · intro c hc
    cases hc
  · intro c hc
    cases hc

/-- The connection is freed while the request to connect is pending, and its routine is called with
it; and the connection of a node that is associated once more is lost. -/
theorem disassociated_early_not_owned :
    (¬machine.Throughout Owned
      (requests [.create 1 .transportAddress, .create 2 .connectionContext, .associate 2 (some 1),
        .connect 2 none, .disassociate 2])
      { manager := { deviceType := .tcpDevice } }) ∧
    ¬machine.Throughout Owned
      (requests [.create 1 .transportAddress, .create 2 .connectionContext, .associate 2 (some 1),
        .associate 2 (some 1)])
      { manager := { deviceType := .tcpDevice } } := by
  constructor
  · rintro ⟨-, -, -, -, -, howned⟩
    exact absurd (Owned.contexts howned (.tdiConnectHandlerComplete 0) (.head _)) (by decide)
  · rintro ⟨-, -, -, -, howned⟩
    have hfreed := Owned.freed howned 0 (by decide) ?_ (fun r hr => nomatch hr)
    · exact absurd hfreed (by decide)
    · intro node v hfind hv
      by_cases hremote : node = 2
      · subst hremote
        cases hfind
        cases hv
      · have hmap : ((((HashMap.initialise.insert 1 ⟨1, none⟩ true).insert 2 ⟨2, none⟩ true).modify 2
            fun v => { v with connection := some 0 }).modify 2
              fun v => { v with connection := some 1 }).findValue node = some v := hfind
        rw [HashMap.findValue_modify, if_neg hremote, HashMap.findValue_modify, if_neg hremote,
          HashMap.findValue_insert_of_ne _ _ _ hremote] at hmap
        by_cases hlocal : node = 1
        · subst hlocal
          cases hmap
          cases hv
        · rw [HashMap.findValue_insert_of_ne _ _ _ hlocal] at hmap
          cases hmap

end NetworkDriver

end CaptureHpc.Driver
