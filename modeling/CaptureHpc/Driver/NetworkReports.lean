/-
# `Driver.NetworkReports` — whose data a network event carries

`CreateConnection` takes a block of the lookaside list as it was left, and sets
the state in it.  The addresses and the process id are set by the handlers, not
by all of them and not always: a query may fail, an address may be of another
type, and for a listening socket nobody sets the process id.  An event is made
of what is in the block, and `AddressToString` leaves its buffer alone where it
does not know the type of an address.

Here blocks are used again, a pointer may be to a block that has become another
connection, and whatever was not set is arbitrary.  What was set for each
connection is recorded beside the blocks (`Assigned`); no function reads it.
`OwnReports` is what is to hold of the events, and `Careful` the condition of
`Driver.OwnReports` under which it does.
-/
import CaptureHpc.Driver.ConnectionManager

namespace CaptureHpc.Driver

/-! ## Addresses as text -/

namespace TaAddress

def IsIp (a : TaAddress) : Prop := a.addressType = tdiAddressTypeIp

instance : DecidablePred IsIp := fun a => inferInstanceAs (Decidable (a.addressType = _))

/-- An IP address with a port and the four bytes of the address. -/
def Whole (a : TaAddress) : Prop := a.IsIp ∧ 6 ≤ a.address.length

def byte (a : TaAddress) (i : Nat) : Nat := (a.address.getD i 0).toNat

/-- The format `%d.%d.%d.%d:%u`; the port comes first and is in network order. -/
def text (a : TaAddress) : String :=
  toString (a.byte 2) ++ "." ++ toString (a.byte 3) ++ "." ++ toString (a.byte 4) ++ "." ++
    toString (a.byte 5) ++ ":" ++ toString (a.byte 0 * 256 + a.byte 1)

end TaAddress

/-- `SetNodeAddress`: what is copied, and after it what was in the buffer before. -/
def setNodeAddress (addressBuffer address : TaAddress) : TaAddress where
  addressType := address.addressType
  address := address.address ++ addressBuffer.address.drop address.address.length

def noAddress : String := "0.0.0.0:-1"

/-- `AddressToString`: what is in the buffer then. -/
def addressToString (address : Option TaAddress) (buffer : String) : String :=
  match address with
  | none => noAddress
  | some address => if address.IsIp then address.text else buffer

namespace NetworkReports

/-! ## The connections in their blocks -/

/-- The address of a block, and which of the connections it was made for.  The driver has the
address. -/
structure ConnectionPointer where
  address : Nat
  connection : Nat
deriving DecidableEq

structure ConnectionNode where
  node : FileObject
  connection : Option ConnectionPointer

/-- What was set for a connection since it was created, the newest first. -/
structure Assigned where
  localNodeAddresses : List TaAddress := []
  remoteNodeAddresses : List TaAddress := []
  processIds : List (BitVec 32) := []

/-- An event, and the connection that it is about. -/
structure Report where
  connection : Nat
  state : ConnectionState
  localAddress : String
  remoteAddress : String
  processId : BitVec 32

/-- What is called later with a connection. -/
inductive Routine where
  | tdiConnectHandlerComplete (connection : ConnectionPointer)
  | tdiConnectEventHandlerComplete (connection : ConnectionPointer)
  /-- The rest of the handler, after the original one. -/
  | tdiDisconnectEventHandler (connection : ConnectionPointer) (disconnectFlags : Nat)
  | getLocalAddressComplete (connection : ConnectionPointer)

def Routine.connection : Routine → ConnectionPointer
  | .tdiConnectHandlerComplete connection => connection
  | .tdiConnectEventHandlerComplete connection => connection
  | .tdiDisconnectEventHandler connection _ => connection
  | .getLocalAddressComplete connection => connection

structure Manager where
  deviceType : DeviceType
  connections : HashMap ConnectionNode := .initialise
  /-- What is in memory where a block may be. -/
  memory : Nat → Connection
  /-- The connection that a block was allocated for. -/
  owner : Nat → Option Nat := fun _ => none
  created : Nat := 0
  assigned : Nat → Assigned := fun _ => {}
  eventList : List Report := []
  pending : List Routine := []

/-- What becomes of the query for the local address. -/
inductive LocalAddress where
  | failed
  | answered (address : TaAddress)
  /-- `GetLocalAddress` is left before the answer. -/
  | late

/-- What a handler is given by the system. -/
structure Surroundings where
  /-- The block that the lookaside list has for a connection. -/
  block : Option Nat := none
  /-- The pools have memory for a connection node and its pair. -/
  node : Bool := true
  localAddress : LocalAddress := .failed
  /-- `IoGetRequestorProcessId`. -/
  processId : BitVec 32 := 0
  /-- The completion routine could be set. -/
  completion : Bool := true
  /-- The text that is in the buffer of `SetConnectionState`. -/
  buffer : String := ""

/-- `TDI_DISCONNECT_ABORT`. -/
def tdiDisconnectAbort : Nat := 2

/-- `TDI_DISCONNECT_RELEASE`. -/
def tdiDisconnectRelease : Nat := 4

namespace Manager

/-- `GetConnection`. -/
def getConnection (m : Manager) (node : FileObject) : Option ConnectionPointer :=
  (m.connections.findValue node).bind ConnectionNode.connection

/-- A write through a pointer. -/
def write (m : Manager) (p : ConnectionPointer) (f : Connection → Connection) : Manager :=
  { m with memory := Function.update m.memory p.address (f (m.memory p.address)) }

def record (m : Manager) (p : ConnectionPointer) (g : Assigned → Assigned) : Manager :=
  { m with assigned := Function.update m.assigned p.connection (g (m.assigned p.connection)) }

/-- A block that is in use is not on the lookaside list. -/
def allocate (m : Manager) (sys : Surroundings) : Option Nat :=
  sys.block.bind fun address => if m.owner address = none then some address else none

/-- `CreateConnection`. -/
def createConnection (m : Manager) (sys : Surroundings) : Option ConnectionPointer × Manager :=
  match m.allocate sys with
  | none => (none, m)
  | some address =>
      let state := match m.deviceType with
        | .tcpDevice => ConnectionState.tcpStateClosed
        | .udpDevice => ConnectionState.udpStateClosed
      let p : ConnectionPointer := ⟨address, m.created⟩
      (some p,
        { m.write p (fun c => { c with state }) with
          owner := Function.update m.owner address (some m.created)
          created := m.created + 1 })

def setLocalNode (m : Manager) (p : ConnectionPointer) (localNode : FileObject) : Manager :=
  m.write p fun c => { c with localNode }

def setRemoteNode (m : Manager) (p : ConnectionPointer) (remoteNode : FileObject) : Manager :=
  m.write p fun c => { c with remoteNode }

/-- `connection->process_id = processId`. -/
def setProcessId (m : Manager) (p : ConnectionPointer) (processId : BitVec 32) : Manager :=
  (m.write p fun c => { c with processId }).record p fun r =>
    { r with processIds := processId :: r.processIds }

def setLocalNodeAddress (m : Manager) (p : ConnectionPointer) (address : TaAddress) : Manager :=
  (m.write p fun c =>
    { c with localNodeAddress := setNodeAddress c.localNodeAddress address }).record p fun r =>
    { r with localNodeAddresses := address :: r.localNodeAddresses }

def setRemoteNodeAddress (m : Manager) (p : ConnectionPointer) (address : TaAddress) : Manager :=
  (m.write p fun c =>
    { c with remoteNodeAddress := setNodeAddress c.remoteNodeAddress address }).record p fun r =>
    { r with remoteNodeAddresses := address :: r.remoteNodeAddresses }

/-- `GetLocalAddress`. -/
def getLocalAddress (m : Manager) (p : ConnectionPointer) (sys : Surroundings) : Manager :=
  match sys.localAddress with
  | .failed => m
  | .answered address => m.setLocalNodeAddress p address
  | .late => { m with pending := m.pending ++ [.getLocalAddressComplete p] }

/-- `connection_node->connection = connection`. -/
def setNodeConnection (m : Manager) (node : FileObject) (connection : Option ConnectionPointer) :
    Manager :=
  { m with connections := m.connections.modify node fun v => { v with connection } }

/-- `ReleaseConnectionNode`, for a node that was found. -/
def releaseConnectionNode (m : Manager) (p : ConnectionPointer) (node : FileObject) : Manager :=
  if node = 0 then m
  else
    (m.write p fun c =>
      { c with
        localNode := if c.localNode = node then 0 else c.localNode
        remoteNode := if c.remoteNode = node then 0 else c.remoteNode }).setNodeConnection node none

/-- `RemoveConnection`. -/
def removeConnection (m : Manager) (p : ConnectionPointer) : Manager :=
  { m with owner := Function.update m.owner p.address none }

/-- `RemoveConnectionNode`. -/
def removeConnectionNode (m : Manager) (node : FileObject) : Manager :=
  match m.connections.findValue node with
  | none => m
  | some v =>
      let m := match v.connection with
        | none => m
        | some p => m.removeConnection p
      { m with connections := m.connections.remove node }

/-- `AddConnectionNode`. -/
def addConnectionNode (m : Manager) (connection : Option ConnectionPointer) (node : FileObject)
    (sys : Surroundings) : Manager :=
  match m.connections.findValue node with
  | some _ => m
  | none => { m with connections := m.connections.insert node { node, connection } sys.node }

/-- `SetLocalConnectionNode`. -/
def setLocalConnectionNode (m : Manager) (p : ConnectionPointer) (localNode : FileObject)
    (sys : Surroundings) : Manager :=
  (m.setLocalNode p localNode).addConnectionNode (some p) localNode sys

/-- `SetRemoteConnectionNode`. -/
def setRemoteConnectionNode (m : Manager) (p : ConnectionPointer) (remoteNode : FileObject)
    (sys : Surroundings) : Manager :=
  (m.setRemoteNode p remoteNode).addConnectionNode (some p) remoteNode sys

/-- The event that `SetConnectionState` makes of a block. -/
def report (m : Manager) (p : ConnectionPointer) (state : ConnectionState) (sys : Surroundings) :
    Report :=
  let c := m.memory p.address
  let localAddress := addressToString (some c.localNodeAddress) sys.buffer
  let remoteAddress := addressToString (some c.remoteNodeAddress) localAddress
  { connection := p.connection, state, localAddress, remoteAddress, processId := c.processId }

/-- `SetConnectionState`. -/
def setConnectionState (m : Manager) (p : ConnectionPointer) (state : ConnectionState)
    (sys : Surroundings) : Manager :=
  { m.write p (fun c => { c with state }) with eventList := m.eventList ++ [m.report p state sys] }

/-! ## The handlers -/

def tdiCreateHandler (m : Manager) (node : FileObject) (kind : FileKind) (sys : Surroundings) :
    Manager :=
  match kind with
  | .transportAddress => m.addConnectionNode none node sys
  | .connectionContext => m.addConnectionNode none node sys
  | .other => m

def tdiAssociateAddressHandler (m : Manager) (remoteNode : FileObject)
    (localNode : Option FileObject) (sys : Surroundings) : Manager :=
  match localNode with
  | none => m
  | some localNode =>
      let remoteConnectionNode := m.connections.findValue remoteNode
      let localConnectionNode := m.connections.findValue localNode
      match m.createConnection sys, remoteConnectionNode, localConnectionNode with
      | (some p, m), some _, some _ =>
          (((m.setLocalNode p localNode).setRemoteNode p remoteNode).setNodeConnection
            remoteNode (some p)).setProcessId p sys.processId
      | (_, m), _, _ => m

def tdiDisassociateAddressHandler (m : Manager) (node : FileObject) : Manager :=
  match m.getConnection node with
  | none => m
  | some p => (m.releaseConnectionNode p node).removeConnection p

/-- A connection is created for a node, which is its local node. -/
def createFor (m : Manager) (node : FileObject) (connectionNode : ConnectionNode)
    (remoteNode : FileObject) (sys : Surroundings) : Option Manager := do
  let (created, m) := m.createConnection sys
  let p ← created
  return ((((m.setLocalNode p connectionNode.node).setRemoteNode p remoteNode).setProcessId p
    sys.processId).setNodeConnection node (some p))

/-- A routine is to be called, where it could be set. -/
def await (m : Manager) (routine : Routine) (sys : Surroundings) : Manager :=
  if sys.completion then { m with pending := m.pending ++ [routine] } else m

/-- What `TdiConnectHandler` does with the remote address. -/
def setRemoteIp (m : Manager) (p : ConnectionPointer) (remoteAddress : Option TaAddress) : Manager :=
  match remoteAddress with
  | none => m
  | some address => if address.IsIp then m.setRemoteNodeAddress p address else m

/-- The rest of `TdiConnectHandler` after a UDP node has got its connection. -/
def startConnect (m : Manager) (remoteNode : FileObject) (remoteAddress : Option TaAddress)
    (sys : Surroundings) : Manager :=
  match m.getConnection remoteNode with
  | none => m
  | some p =>
      let m := m.setRemoteIp p remoteAddress
      let m := m.getLocalAddress p sys
      let m := m.setConnectionState p (match m.deviceType with
        | .udpDevice => .udpStateConnect
        | .tcpDevice => .tcpStateSynSent) sys
      m.await (.tdiConnectHandlerComplete p) sys

def tdiConnectHandler (m : Manager) (remoteNode : FileObject) (remoteAddress : Option TaAddress)
    (sys : Surroundings) : Option Manager :=
  match m.connections.findValue remoteNode with
  | none => some m
  | some connectionNode =>
      match m.deviceType with
      | .tcpDevice => some (m.startConnect remoteNode remoteAddress sys)
      | .udpDevice => (m.createFor remoteNode connectionNode connectionNode.node sys).map fun m =>
          m.startConnect remoteNode remoteAddress sys

def tdiConnectHandlerComplete (m : Manager) (p : ConnectionPointer) (success : Bool)
    (sys : Surroundings) : Manager :=
  if success then
    match m.deviceType with
    | .tcpDevice => m.setConnectionState p .tcpStateEstablished sys
    | .udpDevice => m.setConnectionState p .udpStateEstablished sys
  else m

/-- The state that `TdiDisconnectHandler` sets. -/
def stateToDisconnect (state : ConnectionState) (requestFlags : Nat) : Option ConnectionState :=
  if requestFlags = tdiDisconnectAbort then some .tcpStateClosed
  else if requestFlags = tdiDisconnectRelease ∧ state = .tcpStateCloseWait then
    some .tcpStateLastAck
  else none

def tdiDisconnectHandler (m : Manager) (node : FileObject) (requestFlags : Nat)
    (sys : Surroundings) : Manager :=
  match m.getConnection node with
  | none => m
  | some p =>
      match stateToDisconnect (m.memory p.address).state requestFlags with
      | none => m
      | some state => m.setConnectionState p state sys

def tdiSendHandler (m : Manager) (node : FileObject) (sys : Surroundings) : Manager :=
  match m.getConnection node with
  | none => m
  | some p => m.getLocalAddress p sys

/-- The rest of `TdiSendDatagramHandler` for a node with a connection. -/
def sendDatagram (m : Manager) (node : FileObject) (remoteAddress : TaAddress) (sys : Surroundings) :
    Manager :=
  match m.getConnection node with
  | none => m
  | some p =>
      ((m.getLocalAddress p sys).setRemoteNodeAddress p remoteAddress).setConnectionState p
        .udpStateSendDatagram sys

def tdiSendDatagramHandler (m : Manager) (node : FileObject) (remoteAddress : TaAddress)
    (sys : Surroundings) : Option Manager :=
  match m.connections.findValue node with
  | none => some m
  | some connectionNode =>
      match connectionNode.connection with
      | some _ => some (m.sendDatagram node remoteAddress sys)
      | none => (m.createFor node connectionNode 0 sys).map fun m =>
          m.sendDatagram node remoteAddress sys

/-- The part for `TDI_EVENT_CONNECT`: the connection of a listening node. -/
def listen (m : Manager) (node : FileObject) (sys : Surroundings) : Option Manager :=
  let connectionNode := m.connections.findValue node
  match m.createConnection sys with
  | (none, _) => none
  | (some p, m) =>
      let m := m.setLocalConnectionNode p node sys
      let m := m.setRemoteConnectionNode p node sys
      match connectionNode with
      | none => none
      | some _ =>
          let m := m.setNodeConnection node (some p)
          let m := m.getLocalAddress p sys
          let m := m.setRemoteNodeAddress p (m.memory p.address).localNodeAddress
          some (m.setConnectionState p .tcpStateListen sys)

/-- A handler for connections is set, and not removed. -/
def Listens (eventHandler : TdiEventHandler) : Prop :=
  ¬(eventHandler.eventHandler = 0 ∧ eventHandler.eventContext = 0) ∧ eventHandler.eventType = 0

instance : DecidablePred Listens := fun _ => inferInstanceAs (Decidable (_ ∧ _))

def tdiSetEventHandler (m : Manager) (node : FileObject) (eventHandler : TdiEventHandler)
    (sys : Surroundings) : Option Manager :=
  if Listens eventHandler then m.listen node sys else some m

/-- `TdiConnectEventHandler` after the original handler wants to accept on a node. -/
def tdiConnectEventHandler (m : Manager) (node : FileObject) (remoteAddress : TaAddress)
    (sys : Surroundings) : Manager :=
  match m.getConnection node with
  | none => m
  | some p =>
      (((m.getLocalAddress p sys).setRemoteNodeAddress p remoteAddress).setConnectionState p
        .tcpStateSynRcvd sys).await (.tdiConnectEventHandlerComplete p) sys

def tdiConnectEventHandlerComplete (m : Manager) (p : ConnectionPointer) (success : Bool)
    (sys : Surroundings) : Manager :=
  if success then m.setConnectionState p .tcpStateEstablished sys
  else m.setConnectionState p .tcpStateFinWait1 sys

/-- The state that `TdiDisconnectEventHandler` sets. -/
def stateDisconnected (state : ConnectionState) (disconnectFlags : Nat) : Option ConnectionState :=
  if disconnectFlags = tdiDisconnectRelease then
    if state = .tcpStateFinWait1 then some .tcpStateTimeWait
    else if state = .tcpStateEstablished then some .tcpStateCloseWait
    else none
  else if disconnectFlags = tdiDisconnectAbort then some .tcpStateClosed
  else none

/-- `TdiDisconnectEventHandler` up to the original handler, which is called then. -/
def tdiDisconnectEventHandler (m : Manager) (node : FileObject) (disconnectFlags : Nat) : Manager :=
  match m.getConnection node with
  | none => m
  | some p => { m with pending := m.pending ++ [.tdiDisconnectEventHandler p disconnectFlags] }

def tdiDisconnectEventHandlerRest (m : Manager) (p : ConnectionPointer) (disconnectFlags : Nat)
    (sys : Surroundings) : Manager :=
  match stateDisconnected (m.memory p.address).state disconnectFlags with
  | none => m
  | some state => m.setConnectionState p state sys

def getLocalAddressComplete (m : Manager) (p : ConnectionPointer) (sys : Surroundings) : Manager :=
  match sys.localAddress with
  | .answered address => m.setLocalNodeAddress p address
  | _ => m

def call (m : Manager) (routine : Routine) (success : Bool) (sys : Surroundings) : Manager :=
  match routine with
  | .tdiConnectHandlerComplete p => m.tdiConnectHandlerComplete p success sys
  | .tdiConnectEventHandlerComplete p => m.tdiConnectEventHandlerComplete p success sys
  | .tdiDisconnectEventHandler p disconnectFlags =>
      m.tdiDisconnectEventHandlerRest p disconnectFlags sys
  | .getLocalAddressComplete p => m.getLocalAddressComplete p sys

end Manager

/-! ## The driver -/

inductive Action where
  | create (node : FileObject) (kind : FileKind)
  | associate (node : FileObject) (localNode : Option FileObject)
  | disassociate (node : FileObject)
  | connect (node : FileObject) (remoteAddress : Option TaAddress)
  | disconnect (node : FileObject) (requestFlags : Nat)
  | send (node : FileObject)
  | sendDatagram (node : FileObject) (remoteAddress : TaAddress)
  | setEventHandler (node : FileObject) (eventHandler : TdiEventHandler)
  | close (node : FileObject)
  /-- The handler hooked for connections is called, and the original one accepts on this node. -/
  | accept (node : FileObject) (remoteAddress : TaAddress)
  /-- The handler hooked for disconnections is called. -/
  | disconnected (node : FileObject) (disconnectFlags : Nat)
  /-- The pending routine with this number is called. -/
  | complete (i : Nat) (success : Bool)
  /-- Somebody else writes to memory that is no block of the driver. -/
  | elsewhere (address : Nat) (content : Connection)

/-- `HandleIrp`, which looks into the file object of an internal request, and what the transport
calls. -/
def next (m : Manager) : Action × Surroundings → Option Manager
  | (.create node kind, sys) => some (m.tdiCreateHandler node kind sys)
  | (.associate node localNode, sys) =>
      if node = 0 then none else some (m.tdiAssociateAddressHandler node localNode sys)
  | (.disassociate node, _) => if node = 0 then none else some (m.tdiDisassociateAddressHandler node)
  | (.connect node remoteAddress, sys) =>
      if node = 0 then none else m.tdiConnectHandler node remoteAddress sys
  | (.disconnect node requestFlags, sys) =>
      if node = 0 then none else some (m.tdiDisconnectHandler node requestFlags sys)
  | (.send node, sys) => if node = 0 then none else some (m.tdiSendHandler node sys)
  | (.sendDatagram node remoteAddress, sys) =>
      if node = 0 then none else m.tdiSendDatagramHandler node remoteAddress sys
  | (.setEventHandler node eventHandler, sys) =>
      if node = 0 then none else m.tdiSetEventHandler node eventHandler sys
  | (.close node, _) => some (m.removeConnectionNode node)
  | (.accept node remoteAddress, sys) => some (m.tdiConnectEventHandler node remoteAddress sys)
  | (.disconnected node disconnectFlags, _) => some (m.tdiDisconnectEventHandler node disconnectFlags)
  | (.complete i success, sys) => m.pending[i]?.map fun routine =>
      { m with pending := m.pending.eraseIdx i }.call routine success sys
  | (.elsewhere address content, _) =>
      if m.owner address = none then
        some { m with memory := Function.update m.memory address content }
      else none

def machine : Machine Manager (Action × Surroundings) where
  init m := ∃ deviceType memory, m = { deviceType, memory }
  next := next

/-! ## What is to hold -/

/-- What an event may carry where a value was not set. -/
structure Placeholders where
  localAddress : String
  remoteAddress : String
  processId : BitVec 32

/-- An event carries for each of the three what was set for its connection, or a placeholder. -/
structure Report.Own (placeholders : Placeholders) (r : Report) (set : Assigned) : Prop where
  localAddress : r.localAddress = placeholders.localAddress ∨
    ∃ a ∈ set.localNodeAddresses, r.localAddress = a.text
  remoteAddress : r.remoteAddress = placeholders.remoteAddress ∨
    ∃ a ∈ set.remoteNodeAddresses, r.remoteAddress = a.text
  processId : r.processId = placeholders.processId ∨ r.processId ∈ set.processIds

def OwnReports (placeholders : Placeholders) (m : Manager) : Prop :=
  ∀ r ∈ m.eventList, r.Own placeholders (m.assigned r.connection)

namespace Manager

/-- The block is still that of the connection. -/
def Valid (m : Manager) (p : ConnectionPointer) : Prop := m.owner p.address = some p.connection

/-- The block is not that of another connection. -/
def Harmless (m : Manager) (p : ConnectionPointer) : Prop :=
  ∀ c, m.owner p.address = some c → c = p.connection

/-- The newest of some addresses is a whole IP address. -/
def NewestIsWhole (addresses : List TaAddress) : Prop := ∃ a ∈ addresses.head?, a.Whole

/-- The local address of a connection is known when the query is over. -/
def LocalKnown (m : Manager) (connection : Nat) : LocalAddress → Prop
  | .answered address => address.Whole
  | _ => NewestIsWhole (m.assigned connection).localNodeAddresses

/-- The remote address of a connection is known when this one is set, if there is one. -/
def RemoteKnown (m : Manager) (connection : Nat) : Option TaAddress → Prop
  | some address => address.Whole
  | none => NewestIsWhole (m.assigned connection).remoteNodeAddresses

/-- The connection is still there, and its addresses were set, at last to IP addresses. -/
structure Known (m : Manager) (p : ConnectionPointer) : Prop where
  valid : m.Valid p
  localAddress : m.LocalKnown p.connection .failed
  remoteAddress : m.RemoteKnown p.connection none

/-- The connection that a connect of the node is reported for. -/
def connects (m : Manager) (node : FileObject) : Option Nat :=
  match m.deviceType with
  | .tcpDevice => (m.getConnection node).map ConnectionPointer.connection
  | .udpDevice => (m.connections.findValue node).map fun _ => m.created

/-- The connection that a datagram of the node is reported for. -/
def sends (m : Manager) (node : FileObject) : Option Nat :=
  (m.connections.findValue node).map fun v => match v.connection with
    | some p => p.connection
    | none => m.created

/-- What is called later finds the connection as it needs it. -/
def RoutineCareful (m : Manager) (success : Bool) (sys : Surroundings) : Routine → Prop
  | .tdiConnectHandlerComplete p => success = true → m.Known p
  | .tdiConnectEventHandlerComplete p => m.Known p
  | .tdiDisconnectEventHandler p disconnectFlags =>
      (stateDisconnected (m.memory p.address).state disconnectFlags).isSome → m.Known p
  | .getLocalAddressComplete p => ∀ address, sys.localAddress = .answered address → m.Harmless p

/-- The events of a step have something to carry. -/
def Careful (m : Manager) : Action × Surroundings → Prop
  | (.connect node remoteAddress, sys) => ∀ connection ∈ m.connects node,
      m.LocalKnown connection sys.localAddress ∧
        m.RemoteKnown connection (remoteAddress.filter fun a => a.IsIp)
  | (.disconnect node requestFlags, _) => ∀ p, m.getConnection node = some p →
      (stateToDisconnect (m.memory p.address).state requestFlags).isSome → m.Known p
  | (.sendDatagram node remoteAddress, sys) => ∀ connection ∈ m.sends node,
      m.LocalKnown connection sys.localAddress ∧ m.RemoteKnown connection (some remoteAddress)
  | (.setEventHandler _ eventHandler, _) => ¬Listens eventHandler
  | (.accept node remoteAddress, sys) => ∀ p, m.getConnection node = some p →
      m.LocalKnown p.connection sys.localAddress ∧
        m.RemoteKnown p.connection (some remoteAddress)
  | (.complete i success, sys) => ∀ routine, m.pending[i]? = some routine →
      m.RoutineCareful success sys routine
  | _ => True

end Manager

end NetworkReports

end CaptureHpc.Driver
