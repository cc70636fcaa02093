/-
# `Driver.RegistryMonitor` — registry events from the driver to the client

The registry callback of the driver puts the key, the value's name and its data
into one event and queues it.  The client asks with a buffer of a fixed size,
and `HandleIoctlGetRegEvents` fills it with as many events as fit.

Nothing bounds the data of a value.  `hand_over_fitting` is what holds while every event
fits the buffer; one that does not fit stays at the head for ever (`blocked`).
-/
import CaptureHpc.Driver.FileMonitor

namespace CaptureHpc.Driver

open CLayout

/-! ## The declarations -/

/-- `REGISTRY_EVENT` of the driver. -/
def kernelRegistryEvent : List Field :=
  [ulong "eventType", shorts "time" 8, pointer "processId", ulong "dataType", ulong "dataLengthB",
    ulong "registryPathLengthB", { name := "registryData", size := 0, align := 1 }]

/-- `REGISTRY_EVENT` of the client. -/
def clientRegistryEvent : List Field :=
  [ulong "eventType", shorts "time" 8, ulong "processId", ulong "dataType", ulong "dataLengthB",
    ulong "registryPathLengthB", { name := "registryData", size := 0, align := 1 }]

theorem clientRegistryEvent_eq : clientRegistryEvent = kernelRegistryEvent := rfl

/-- What is in a `REGISTRY_EVENT`: in `registryData` the path with a 0 behind it, then the data. -/
structure RegistryEvent where
  eventType : BitVec 32
  time : List (BitVec 16)
  processId : BitVec 32
  dataType : BitVec 32
  dataLengthB : BitVec 32
  registryPathLengthB : BitVec 32
  registryPath : List (BitVec 16)
  data : List (BitVec 8)
  deriving DecidableEq

/-- The event at an address, by a declaration. -/
def RegistryEvent.read (fields : List Field) (m : Memory) (p : Nat) : RegistryEvent :=
  let dataLengthB := BitVec.ofNat 32 (m.readULong (p + offsetOf fields "dataLengthB"))
  let registryPathLengthB := BitVec.ofNat 32 (m.readULong (p + offsetOf fields "registryPathLengthB"))
  let registryData := p + offsetOf fields "registryData"
  { eventType := BitVec.ofNat 32 (m.readULong (p + offsetOf fields "eventType"))
    time := m.unitsAt (p + offsetOf fields "time") 8
    processId := BitVec.ofNat 32 (m.readULong (p + offsetOf fields "processId"))
    dataType := BitVec.ofNat 32 (m.readULong (p + offsetOf fields "dataType"))
    dataLengthB
    registryPathLengthB
    registryPath := m.unitsAt registryData (registryPathLengthB.toNat / 2)
    data := m.bytesAt (registryData + registryPathLengthB.toNat) dataLengthB.toNat }

/-! ## The callback -/

/-- A key object, as far as its name is asked for. -/
structure RegistryObject where
  /-- `MmIsAddressValid`, and not 0. -/
  valid : Bool
  /-- What `ObQueryNameString` finds. -/
  name : Option (List (BitVec 16))

/-- What the callback is told of: `Argument1`, and the fields of `Argument2` that it reads. -/
inductive RegNotify where
  | preDeleteKey (object : RegistryObject)
  | preSetValueKey (object : RegistryObject) (valueName : List (BitVec 16)) (type : BitVec 32)
      (data : List (BitVec 8))
  | deleteValueKey (object : RegistryObject) (valueName : List (BitVec 16))
  | enumerateKey (object : RegistryObject) (keyInformationClass : BitVec 32)
  | enumerateValueKey (object : RegistryObject) (keyValueInformationClass : BitVec 32)
  | queryKey (object : RegistryObject) (keyInformationClass : BitVec 32)
  | queryValueKey (object : RegistryObject) (valueName : List (BitVec 16))
      (keyValueInformationClass : BitVec 32)
  | postCreateKey (status : BitVec 32) (completeName : Option (List (BitVec 16)))
      (object : RegistryObject)
  | postOpenKey (status : BitVec 32) (completeName : Option (List (BitVec 16)))
      (object : RegistryObject)
  | keyHandleClose (object : RegistryObject)
  /-- Anything else. -/
  | other

/-- The number of a `REG_NOTIFY_CLASS`; nothing is done with that of `other`. -/
def RegNotify.type : RegNotify → BitVec 32
  | .preDeleteKey _ => 0
  | .preSetValueKey _ _ _ _ => 1
  | .deleteValueKey _ _ => 2
  | .enumerateKey _ _ => 5
  | .enumerateValueKey _ _ => 6
  | .queryKey _ _ => 7
  | .queryValueKey _ _ _ => 8
  | .postCreateKey _ _ _ => 11
  | .postOpenKey _ _ _ => 13
  | .keyHandleClose _ => 14
  | .other => 3

/-- `NT_SUCCESS`. -/
def ntSuccess (status : BitVec 32) : Bool := !status.msb

/-- `RtlUnicodeStringCopy` into `registryPath`; what does not fit is cut off. -/
def unicodeStringCopy (source : List (BitVec 16)) : List (BitVec 16) := source.take maxPath

/-- `RtlUnicodeStringCat`. -/
def unicodeStringCat (path source : List (BitVec 16)) : List (BitVec 16) :=
  (path ++ source).take maxPath

/-- `GetRegistryObjectCompleteName`: the path, if it was found. -/
def getRegistryObjectCompleteName (partialPath : Option (List (BitVec 16)))
    (object : RegistryObject) : Option (List (BitVec 16)) :=
  if !object.valid then none
  else
    -- a partial name that begins with a backslash, a percent sign or "TRY" is the complete one
    match partialPath.filter fun p =>
        p.head? = some 92 || p.head? = some 37 || p.take 4 = [84, 82, 89, 92] with
    | some p => some (unicodeStringCopy p)
    | none => object.name.map unicodeStringCopy

/-- What is found out about an operation. -/
structure RegistryFound where
  registryPath : List (BitVec 16)
  registryDataType : BitVec 32 := 0
  registryData : List (BitVec 8) := []

/-- The path of a value: a backslash and its name behind the path of the key. -/
def valuePath (path valueName : List (BitVec 16)) : List (BitVec 16) :=
  unicodeStringCat (unicodeStringCat path [92]) valueName

/-- The switch of `RegistryCallback`; `none` if `registryEventIsValid` is not set. -/
def RegNotify.found : RegNotify → Option RegistryFound
  | .postCreateKey status completeName object | .postOpenKey status completeName object =>
      if ntSuccess status then
        (getRegistryObjectCompleteName completeName object).map fun p => { registryPath := p }
      else none
  | .preDeleteKey object | .keyHandleClose object =>
      (getRegistryObjectCompleteName none object).map fun p => { registryPath := p }
  | .deleteValueKey object valueName =>
      (getRegistryObjectCompleteName none object).map fun p =>
        if valueName ≠ [] then { registryPath := valuePath p valueName } else { registryPath := p }
  | .preSetValueKey object valueName type data =>
      (getRegistryObjectCompleteName none object).map fun p =>
        if valueName ≠ [] then
          { registryPath := valuePath p valueName, registryDataType := type, registryData := data }
        else { registryPath := p }
  | .enumerateKey object type | .enumerateValueKey object type | .queryKey object type =>
      (getRegistryObjectCompleteName none object).map fun p =>
        { registryPath := p, registryDataType := type }
  | .queryValueKey object valueName type =>
      (getRegistryObjectCompleteName none object).map fun p =>
        if valueName ≠ [] then
          { registryPath := valuePath p valueName, registryDataType := type }
        else { registryPath := p }
  | .other => none

/-- A call of `RegistryCallback`. -/
structure RegistryOperation where
  notify : RegNotify
  processId : BitVec 32
  /-- `TIME_FIELDS`: eight numbers. -/
  time : List (BitVec 16)

/-- The bytes of the event: `sizeof(REGISTRY_EVENT)+registryPath.Length+(sizeof(WCHAR))+registryDataLength`. -/
def RegistryFound.eventSize (found : RegistryFound) : Nat :=
  structSize kernelRegistryEvent + (2 * found.registryPath.length + 2) + found.registryData.length

/-- `eventSize` is a number of 32 bits: otherwise the copies would go beyond the block of the
event. -/
def RegistryOperation.WellFormed (op : RegistryOperation) : Prop :=
  op.time.length = 8 ∧ ∀ found ∈ op.notify.found, found.eventSize < 2 ^ 32

instance RegistryOperation.decidableWellFormed (op : RegistryOperation) : Decidable op.WellFormed :=
  inferInstanceAs (Decidable (_ ∧ ∀ found ∈ op.notify.found, _))

/-- The event that the callback fills in, in a block of the pool that was not initialised. -/
def createRegistryEvent (block : Memory) (op : RegistryOperation) (found : RegistryFound) : Memory :=
  let offset := offsetOf kernelRegistryEvent
  let length := 2 * found.registryPath.length
  let m := block.writeULong (offset "registryPathLengthB") (length + 2)
  let m := m.writeULong (offset "dataType") found.registryDataType.toNat
  let m := m.writeULong (offset "dataLengthB") found.registryData.length
  let m := m.write (offset "registryData") (Memory.unitBytes found.registryPath)
  let m := m.writeByte (offset "registryData" + length) 0
  let m := m.writeByte (offset "registryData" + (length + 1)) 0
  let m := m.write (offset "registryData" + (length + 2)) found.registryData
  let m := m.writeULong (offset "processId") op.processId.toNat
  let m := m.write (offset "time") (Memory.unitBytes op.time)
  m.writeULong (offset "eventType") op.notify.type.toNat

/-! ## The client -/

/-- `REGISTRY_EVENTS_BUFFER_SIZE`. -/
def registryEventsBufferSize : Nat := 5 * 65536

/-- The loop over the events in the buffer; an event is not empty, so `dwReturn` rounds are
enough. -/
def decodeRegistryLoop : Nat → Memory → Nat → Nat → List RegistryEvent
  | 0, _, _, _ => []
  | rounds + 1, registryEventsBuffer, offset, dwReturn =>
      let e := RegistryEvent.read clientRegistryEvent registryEventsBuffer offset
      let offset := (offset + (structSize clientRegistryEvent + e.registryPathLengthB.toNat +
        e.dataLengthB.toNat)) % 2 ^ 32
      e :: if offset < dwReturn then decodeRegistryLoop rounds registryEventsBuffer offset dwReturn
        else []

/-- The events of one round of `RegistryMonitor::run`. -/
def decodeRegistryEvents (registryEventsBuffer : Memory) (dwReturn : Nat) : List RegistryEvent :=
  if dwReturn ≥ structSize clientRegistryEvent then
    decodeRegistryLoop dwReturn registryEventsBuffer 0 dwReturn
  else []

/-- `std::wstring(szRegistryPath)`. -/
def szRegistryPath (e : RegistryEvent) : Client.WString :=
  Client.cStr (e.registryPath.map BitVec.toNat)

/-! ## Both -/

/-- What the client got for a request. -/
structure RegistryResponse where
  bufferSpace : Nat
  dwReturn : Nat
  nonEmpty : Bool
  events : List RegistryEvent

structure RegistryManager where
  /-- The packets of `lQueuedRegistryEvents`, with the blocks of their events. -/
  lQueuedRegistryEvents : List Memory := []
  lastContactTime : BitVec 32
  /-- The clock of the driver. -/
  time : BitVec 32
  request : Option Request := none
  /-- The packet that was removed from the head. -/
  removed : Option Memory := none
  /-- The client's buffer. -/
  registryEventsBuffer : Memory
  responses : List RegistryResponse := []
  /-- The events that `QueueRegistryEvent` was given; nobody reads it. -/
  given : List RegistryEvent := []

inductive RegistryAction where
  | clock (time : BitVec 32)
  /-- An operation with the block of its event; whether there is memory for its path and for it. -/
  | registryCallback (op : RegistryOperation) (block : Memory) (allocated : Bool)
  | connectionChecker
  /-- The client sends `IOCTL_CAPTURE_GET_REGEVENTS` with its buffer. -/
  | deviceIoControl
  /-- A step of `HandleIoctlGetRegEvents`. -/
  | handleIoctlGetRegEvents

/-- A response fits the buffer, and there is an event in it if there was one. -/
def RegistryResponse.Good (r : RegistryResponse) : Prop :=
  r.dwReturn ≤ r.bufferSpace ∧ (r.nonEmpty = true → r.events ≠ [])

/-- The event of an operation is no longer than the client's buffer. -/
def RegNotify.Fits (notify : RegNotify) : Prop :=
  ∀ found ∈ notify.found, found.eventSize ≤ registryEventsBufferSize

namespace RegistryManager

/-- The seconds since the last request. -/
def sinceContact (s : RegistryManager) : Nat := (s.time - s.lastContactTime).toNat

/-- `QueueRegistryEvent`; `given` says that it was called. -/
def queueRegistryEvent (s : RegistryManager) (packet : Memory) : RegistryManager :=
  let given := s.given ++ [RegistryEvent.read kernelRegistryEvent packet 0]
  if s.sinceContact ≤ userspaceConnectionTimeout then
    { s with lQueuedRegistryEvents := s.lQueuedRegistryEvents ++ [packet], given }
  else { s with given }

/-- `DeviceIoControl` returns, and the client decodes its buffer. -/
def returned (s : RegistryManager) (r : Request) : RegistryManager :=
  { s with
    request := none
    responses := s.responses ++ [{
      bufferSpace := r.bufferSpace
      dwReturn := r.bufferSpaceUsed
      nonEmpty := r.nonEmpty
      events := decodeRegistryEvents s.registryEventsBuffer r.bufferSpaceUsed }] }

/-- A request of the client, with its buffer; a buffer that is too small comes back empty. -/
def deviceIoControl (s : RegistryManager) (outputBufferLength : Nat) : RegistryManager :=
  let r : Request := { bufferSpace := outputBufferLength, nonEmpty := !s.lQueuedRegistryEvents.isEmpty }
  let s := { s with
    registryEventsBuffer := s.registryEventsBuffer.write 0 (List.replicate outputBufferLength 0)
    lastContactTime := s.time }
  if outputBufferLength ≥ structSize kernelRegistryEvent then { s with request := some r }
  else s.returned r

/-- The loop of `HandleIoctlGetRegEvents`: a packet is removed from the head, and its event copied
or the packet put back. -/
def handleIoctlGetRegEvents (s : RegistryManager) (r : Request) : RegistryManager :=
  match s.removed with
  | none =>
      match s.lQueuedRegistryEvents with
      | packet :: packets =>
          if r.bufferSpaceUsed < r.bufferSpace ∧
              r.bufferSpace - r.bufferSpaceUsed ≥ structSize kernelRegistryEvent then
            { s with lQueuedRegistryEvents := packets, removed := some packet }
          else s.returned r
      | [] => s.returned r
  | some packet =>
      let e := RegistryEvent.read kernelRegistryEvent packet 0
      let registryEventSize := (structSize kernelRegistryEvent + e.registryPathLengthB.toNat +
        e.dataLengthB.toNat) % 2 ^ 32
      if r.bufferSpace - r.bufferSpaceUsed ≥ registryEventSize then
        { s with
          registryEventsBuffer :=
            s.registryEventsBuffer.write r.bufferSpaceUsed (packet.bytesAt 0 registryEventSize)
          request := some { r with bufferSpaceUsed := r.bufferSpaceUsed + registryEventSize }
          removed := none }
      else
        ({ s with
          lQueuedRegistryEvents := packet :: s.lQueuedRegistryEvents
          removed := none } : RegistryManager).returned r

def next (s : RegistryManager) : RegistryAction → Option RegistryManager
  | .clock time => some { s with time }
  | .registryCallback op block allocated =>
      if op.WellFormed then
        match op.notify.found with
        | some found =>
            if allocated then some (s.queueRegistryEvent (createRegistryEvent block op found))
            else some s
        | none => some s
      else none
  | .connectionChecker =>
      if s.sinceContact > userspaceConnectionTimeout + userspaceConnectionTimeout / 2 then
        some { s with lQueuedRegistryEvents := [] }
      else some s
  | .deviceIoControl =>
      if s.request.isNone then some (s.deviceIoControl registryEventsBufferSize) else none
  | .handleIoctlGetRegEvents => s.request.map s.handleIoctlGetRegEvents

/-- The driver begins with no events and the time of its start. -/
def machine : Machine RegistryManager RegistryAction where
  init s := ∃ time registryEventsBuffer, s = { lastContactTime := time, time, registryEventsBuffer }
  next := next

/-! ## What is to hold -/

/-- What the client has decoded. -/
def decoded (s : RegistryManager) : List RegistryEvent := s.responses.flatMap RegistryResponse.events

/-- The events in the buffer of a request that is being served, and the one that was removed. -/
def underWay (s : RegistryManager) : List RegistryEvent :=
  match s.request with
  | some r => decodeRegistryEvents s.registryEventsBuffer r.bufferSpaceUsed ++
      s.removed.toList.map fun packet => RegistryEvent.read kernelRegistryEvent packet 0
  | none => []

/-- The events that are queued. -/
def queued (s : RegistryManager) : List RegistryEvent :=
  s.lQueuedRegistryEvents.map fun packet => RegistryEvent.read kernelRegistryEvent packet 0

/-- Nothing is lost, doubled, changed or out of order, and every response is good. -/
structure Good (s : RegistryManager) : Prop where
  events : s.decoded ++ s.underWay ++ s.queued = s.given
  responses : ∀ r ∈ s.responses, r.Good

/-- The client has polled within the timeout when an event is queued or the queue is looked at. -/
def Polling (s : RegistryManager) : RegistryAction → Prop
  | .registryCallback _ _ _ | .connectionChecker => s.sinceContact ≤ userspaceConnectionTimeout
  | _ => True

/-- The client polls, and the operations are some of a set. -/
def PollingOf (recorded : Set RegistryOperation) (s : RegistryManager) (a : RegistryAction) : Prop :=
  s.Polling a ∧ match a with
    | .registryCallback op _ _ => op ∈ recorded
    | _ => True

end RegistryManager

/-! ## Reading and writing events -/

theorem sizeOf_registryEvent : structSize kernelRegistryEvent = 36 := by decide

/-- The events of the driver, one behind the other. -/
def RegistryEvent.size (e : RegistryEvent) : Nat :=
  36 + e.registryPathLengthB.toNat + e.dataLengthB.toNat

namespace RegistryEvent

theorem offset_eventType : offsetOf kernelRegistryEvent "eventType" = 0 := rfl
theorem offset_time : offsetOf kernelRegistryEvent "time" = 4 := rfl
theorem offset_processId : offsetOf kernelRegistryEvent "processId" = 20 := rfl
theorem offset_dataType : offsetOf kernelRegistryEvent "dataType" = 24 := rfl
theorem offset_dataLengthB : offsetOf kernelRegistryEvent "dataLengthB" = 28 := rfl
theorem offset_registryPathLengthB : offsetOf kernelRegistryEvent "registryPathLengthB" = 32 :=
  rfl
theorem offset_registryData : offsetOf kernelRegistryEvent "registryData" = 36 := rfl

theorem read_eq (m : Memory) (p : Nat) : read kernelRegistryEvent m p =
    { eventType := BitVec.ofNat 32 (m.readULong p)
      time := m.unitsAt (p + 4) 8
      processId := BitVec.ofNat 32 (m.readULong (p + 20))
      dataType := BitVec.ofNat 32 (m.readULong (p + 24))
      dataLengthB := BitVec.ofNat 32 (m.readULong (p + 28))
      registryPathLengthB := BitVec.ofNat 32 (m.readULong (p + 32))
      registryPath := m.unitsAt (p + 36) ((BitVec.ofNat 32 (m.readULong (p + 32))).toNat / 2)
      data := m.bytesAt (p + 36 + (BitVec.ofNat 32 (m.readULong (p + 32))).toNat)
        (BitVec.ofNat 32 (m.readULong (p + 28))).toNat } := by
  unfold read
  rw [offset_eventType, offset_time, offset_processId, offset_dataType, offset_dataLengthB,
    offset_registryPathLengthB, offset_registryData]
  rfl

/-- An event is read the same way wherever its bytes are. -/
theorem read_moved {m m' : Memory} {p q : Nat}
    (h : ∀ d < (read kernelRegistryEvent m p).size, m' (q + d) = m (p + d)) :
    read kernelRegistryEvent m' q = read kernelRegistryEvent m p := by
  have hsize : (read kernelRegistryEvent m p).size =
      36 + (BitVec.ofNat 32 (m.readULong (p + 32))).toNat +
        (BitVec.ofNat 32 (m.readULong (p + 28))).toNat := by
    rw [read_eq]
    rfl
  rw [hsize] at h
  have hulong : ∀ f, f + 4 ≤ 36 → m'.readULong (q + f) = m.readULong (p + f) := by
    intro f hf
    refine Memory.readULong_moved fun d hd => ?_
    rw [Nat.add_assoc, Nat.add_assoc]
    exact h (f + d) (by omega)
  have htype : m'.readULong q = m.readULong p := hulong 0 (by omega)
  have hlength := hulong 28 (by omega)
  have hpathLength := hulong 32 (by omega)
  have htime : m'.unitsAt (q + 4) 8 = m.unitsAt (p + 4) 8 := by
    refine Memory.unitsAt_moved fun d hd => ?_
    rw [Nat.add_assoc, Nat.add_assoc]
    exact h (4 + d) (by omega)
  have hpath := Memory.unitsAt_moved (a := p + 36) (b := q + 36)
    (n := (BitVec.ofNat 32 (m.readULong (p + 32))).toNat / 2) fun d hd => by
      rw [Nat.add_assoc, Nat.add_assoc]
      exact h (36 + d) (by omega)
  have hdata := Memory.bytesAt_moved (a := p + 36 + (BitVec.ofNat 32 (m.readULong (p + 32))).toNat)
    (b := q + 36 + (BitVec.ofNat 32 (m.readULong (p + 32))).toNat)
    (n := (BitVec.ofNat 32 (m.readULong (p + 28))).toNat) fun d hd => by
      simp only [Nat.add_assoc]
      exact h _ (by omega)
  rw [read_eq, read_eq, htype, htime, hulong 20 (by omega), hulong 24 (by omega), hlength,
    hpathLength, hpath, hdata]

end RegistryEvent

/-! ### The event that was created -/

theorem getRegistryObjectCompleteName_le {partialPath : Option (List (BitVec 16))}
    {object : RegistryObject} {path : List (BitVec 16)}
    (h : getRegistryObjectCompleteName partialPath object = some path) : path.length ≤ maxPath := by
  have hcopy : ∀ source, (unicodeStringCopy source).length ≤ maxPath :=
    fun source => List.length_take_le maxPath source
  unfold getRegistryObjectCompleteName at h
  split at h
  · cases h
  · split at h
    · obtain rfl := Option.some.inj h
      exact hcopy _
    · obtain ⟨name, -, rfl⟩ := Option.map_eq_some_iff.mp h
      exact hcopy name

/-- A path is never longer than the string that it was allocated for. -/
theorem RegNotify.registryPath_le {notify : RegNotify} {found : RegistryFound}
    (h : notify.found = some found) : found.registryPath.length ≤ maxPath := by
  have hvalue : ∀ path valueName, (valuePath path valueName).length ≤ maxPath :=
    fun path valueName => List.length_take_le maxPath _
  cases notify with
  | other => cases h
  | postCreateKey status completeName object | postOpenKey status completeName object =>
      rw [RegNotify.found] at h
      split at h
      · obtain ⟨path, hpath, rfl⟩ := Option.map_eq_some_iff.mp h
        exact getRegistryObjectCompleteName_le hpath
      · cases h
  | preDeleteKey object | keyHandleClose object | enumerateKey object type
  | enumerateValueKey object type | queryKey object type =>
      rw [RegNotify.found] at h
      obtain ⟨path, hpath, rfl⟩ := Option.map_eq_some_iff.mp h
      exact getRegistryObjectCompleteName_le hpath
  | deleteValueKey object valueName | preSetValueKey object valueName type data
  | queryValueKey object valueName type =>
      rw [RegNotify.found] at h
      obtain ⟨path, hpath, hfound⟩ := Option.map_eq_some_iff.mp h
      split at hfound
      · rw [← hfound]
        exact hvalue path valueName
      · rw [← hfound]
        exact getRegistryObjectCompleteName_le hpath

/-- **Every field is as it was found out**, and the path has a 0 behind it. -/
theorem createRegistryEvent_spec {op : RegistryOperation} {found : RegistryFound}
    (hop : op.WellFormed) (hfound : op.notify.found = some found) (block : Memory) :
    let e := RegistryEvent.read kernelRegistryEvent (createRegistryEvent block op found) 0
    e.eventType = op.notify.type ∧ e.time = op.time ∧ e.processId = op.processId ∧
      e.dataType = found.registryDataType ∧ e.dataLengthB.toNat = found.registryData.length ∧
      e.registryPathLengthB.toNat = 2 * found.registryPath.length + 2 ∧
      e.registryPath = found.registryPath ++ [0] ∧ e.data = found.registryData := by
  obtain ⟨htime, hdata⟩ := hop
  have hdata : structSize kernelRegistryEvent + _ + found.registryData.length < 2 ^ 32 :=
    hdata found hfound
  have hpath : found.registryPath.length ≤ 32767 := RegNotify.registryPath_le hfound
  have htimeBytes : (Memory.unitBytes op.time).length = 16 := by
    rw [Memory.length_unitBytes, htime]
  have hpathBytes : (Memory.unitBytes found.registryPath).length = 2 * found.registryPath.length :=
    Memory.length_unitBytes _
  have htimeRead : ∀ m : Memory, (m.write 4 (Memory.unitBytes op.time)).unitsAt 4 8 = op.time := by
    intro m
    rw [← htime]
    exact m.unitsAt_write 4 op.time
  have hpathRead : ∀ m : Memory,
      (((m.write 36 (Memory.unitBytes found.registryPath)).writeByte
        (36 + 2 * found.registryPath.length) 0).writeByte
          (36 + (2 * found.registryPath.length + 1)) 0).unitsAt 36 (found.registryPath.length + 1) =
            found.registryPath ++ [0] := by
    intro m
    rw [Memory.unitsAt_concat, Memory.unitsAt_writeByte_other (.inr (by omega)),
      Memory.unitsAt_writeByte_other (.inr (by omega)), Memory.unitsAt_write, Nat.add_assoc 36,
      Memory.writeByte_self, Memory.writeByte_outside (by omega), Memory.writeByte_self]
    rfl
  have hdataRead : ∀ (m : Memory) (a : Nat),
      (m.write a found.registryData).bytesAt a found.registryData.length = found.registryData :=
    fun m a => m.bytesAt_write a _
  have hprocess := op.processId.isLt
  have htype := op.notify.type.isLt
  have hdataType := found.registryDataType.isLt
  rw [RegistryEvent.read_eq]
  unfold createRegistryEvent
  simp (disch := omega) [RegistryEvent.offset_eventType, RegistryEvent.offset_time,
    RegistryEvent.offset_processId, RegistryEvent.offset_dataType, RegistryEvent.offset_dataLengthB,
    RegistryEvent.offset_registryPathLengthB, RegistryEvent.offset_registryData,
    Memory.readULong_writeULong_other, Memory.readULong_writeULong,
    Memory.readULong_writeByte_other, Memory.readULong_write_other, Memory.unitsAt_write_other,
    Memory.unitsAt_writeULong_other, Memory.bytesAt_writeULong_other,
    Memory.bytesAt_write_other, Nat.mod_eq_of_lt, htimeRead, hdataRead]
  exact hpathRead _

theorem createRegistryEvent_size {op : RegistryOperation} {found : RegistryFound}
    (hop : op.WellFormed) (hfound : op.notify.found = some found) (block : Memory) :
    (RegistryEvent.read kernelRegistryEvent (createRegistryEvent block op found) 0).size =
      found.eventSize := by
  obtain ⟨-, -, -, -, hdata, hpath, -⟩ := createRegistryEvent_spec hop hfound block
  rw [RegistryEvent.size, hdata, hpath, RegistryFound.eventSize, sizeOf_registryEvent]

/-! ## The buffer -/

/-- Registry events as records of a buffer. -/
def registryFormat : Requests.Format RegistryEvent where
  read := RegistryEvent.read kernelRegistryEvent
  size := RegistryEvent.size
  header := 36
  positive := by decide
  least e := Nat.le_trans (Nat.le_add_right 36 _) (Nat.le_add_right _ _)
  moved := RegistryEvent.read_moved

/-- The client's loop is the one over records. -/
theorem decodeRegistryLoop_eq (registryEventsBuffer : Memory) (dwReturn : Nat) :
    ∀ rounds offset, decodeRegistryLoop rounds registryEventsBuffer offset dwReturn =
      Requests.unpackLoop registryFormat rounds registryEventsBuffer offset dwReturn := by
  intro rounds
  induction rounds with
  | zero =>
      intro offset
      rfl
  | succ rounds ih =>
      intro offset
      rw [decodeRegistryLoop, Requests.unpackLoop, ih, clientRegistryEvent_eq, sizeOf_registryEvent]
      rfl

theorem decodeRegistryEvents_eq (registryEventsBuffer : Memory) (dwReturn : Nat) :
    decodeRegistryEvents registryEventsBuffer dwReturn =
      Requests.unpack registryFormat registryEventsBuffer dwReturn := by
  rw [decodeRegistryEvents, decodeRegistryLoop_eq, clientRegistryEvent_eq, sizeOf_registryEvent]
  rfl

def RegistryResponse.answer (r : RegistryResponse) : Requests.Answer RegistryEvent :=
  { space := r.bufferSpace, returned := r.dwReturn, nonEmpty := r.nonEmpty, records := r.events }

namespace RegistryManager

variable {s s' : RegistryManager} {a : RegistryAction}

/-- The driver and the client as a queue that is handed over in buffers. -/
def requests (s : RegistryManager) : Requests.State RegistryEvent where
  queue := s.lQueuedRegistryEvents
  request := s.request.map Request.record
  removed := s.removed
  buffer := s.registryEventsBuffer
  answers := s.responses.map RegistryResponse.answer
  given := s.given

/-- What is to hold is what holds of the queue. -/
theorem good_iff : s.Good ↔ s.requests.Good registryFormat := by
  have hdecoded : s.requests.decoded = s.decoded := by
    unfold Requests.State.decoded decoded requests
    rw [List.flatMap_map]
    rfl
  have hunderWay : s.requests.underWay registryFormat = s.underWay := by
    unfold Requests.State.underWay underWay requests
    cases s.request with
    | none => rfl
    | some r =>
        simp only [decodeRegistryEvents_eq]
        rfl
  have hanswers : (∀ a ∈ s.requests.answers, a.Good) ↔ ∀ r ∈ s.responses, r.Good :=
    List.forall_mem_map
  constructor
  · rintro ⟨hevents, hresponses⟩
    refine ⟨?_, hanswers.mpr hresponses⟩
    rw [hdecoded, hunderWay]
    exact hevents
  · rintro ⟨hrecords, hgood⟩
    refine ⟨?_, hanswers.mp hgood⟩
    rw [← hdecoded, ← hunderWay]
    exact hrecords

theorem requests_returned (s : RegistryManager) (r : Request) :
    (s.returned r).requests = s.requests.answer registryFormat r.record := by
  unfold returned requests Requests.State.answer
  rw [List.map_append, decodeRegistryEvents_eq]
  rfl

/-- **A step of the driver** is one of the queue, if the length of the event that was removed is a
number of 32 bits. -/
theorem requests_handleIoctl {r : Request}
    (hshort : ∀ packet, s.removed = some packet → (registryFormat.read packet 0).size < 2 ^ 32) :
    (s.handleIoctlGetRegEvents r).requests = s.requests.serve registryFormat r.record := by
  unfold handleIoctlGetRegEvents Requests.State.serve
  cases hremoved : s.removed with
  | none =>
      have hnone : s.requests.removed = none := hremoved
      simp only [hnone]
      unfold Requests.State.remove
      cases hqueue : s.lQueuedRegistryEvents with
      | nil =>
          have hnil : s.requests.queue = [] := hqueue
          simp only [hnil]
          exact requests_returned s r
      | cons packet packets =>
          have hcons : s.requests.queue = packet :: packets := hqueue
          simp only [hcons, sizeOf_registryEvent]
          split
          · next hroom => exact (if_pos hroom).symm
          · next hroom => exact (requests_returned s r).trans (if_neg hroom).symm
  | some packet =>
      have hsome : s.requests.removed = some packet := hremoved
      have hsize : (structSize kernelRegistryEvent +
          (RegistryEvent.read kernelRegistryEvent packet 0).registryPathLengthB.toNat +
            (RegistryEvent.read kernelRegistryEvent packet 0).dataLengthB.toNat) % 2 ^ 32 =
              registryFormat.size (registryFormat.read packet 0) := by
        rw [sizeOf_registryEvent]
        exact Nat.mod_eq_of_lt (hshort packet hremoved)
      simp only [hsome, hsize]
      unfold Requests.State.place
      simp only
      split
      · next hroom => exact (if_pos hroom).symm
      · next hroom => exact (requests_returned _ r).trans (if_neg hroom).symm

/-- An event is queued, if the client has been in contact. -/
theorem requests_queueRegistryEvent (packet : Memory)
    (hcontact : s.sinceContact ≤ userspaceConnectionTimeout) :
    (s.queueRegistryEvent packet).requests = s.requests.put registryFormat packet := by
  unfold queueRegistryEvent
  rw [if_pos hcontact]
  rfl

theorem next_registryCallback {op : RegistryOperation} {found : RegistryFound} (hop : op.WellFormed)
    (hfound : op.notify.found = some found) (block : Memory) :
    s.next (.registryCallback op block true) =
      some (s.queueRegistryEvent (createRegistryEvent block op found)) := by
  rw [RegistryManager.next, if_pos hop, hfound]
  rfl

/-- The callback queues the event of an operation or does nothing. -/
theorem registryCallback_cases {op : RegistryOperation} {block : Memory} {allocated : Bool}
    (h : s.next (.registryCallback op block allocated) = some s') :
    s' = s ∨ ∃ found, op.WellFormed ∧ op.notify.found = some found ∧
      s' = s.queueRegistryEvent (createRegistryEvent block op found) := by
  rw [RegistryManager.next] at h
  split_ifs at h with hop hallocated
  · cases hfound : op.notify.found with
    | none =>
        simp only [hfound] at h
        exact .inl (Option.some.inj h).symm
    | some found =>
        simp only [hfound] at h
        exact .inr ⟨found, hop, rfl, (Option.some.inj h).symm⟩
  · cases hfound : op.notify.found with
    | none | some found =>
        simp only [hfound] at h
        exact .inl (Option.some.inj h).symm

/-- The driver does not clear the queue of a client that has been in contact. -/
theorem connectionChecker_eq (hcontact : s.sinceContact ≤ userspaceConnectionTimeout)
    (h : s.next .connectionChecker = some s') : s' = s := by
  have hcontact : s.sinceContact ≤ 10 := hcontact
  have hrecent : ¬ s.sinceContact >
      userspaceConnectionTimeout + userspaceConnectionTimeout / 2 := by
    show ¬ s.sinceContact > 15
    omega
  rw [RegistryManager.next, if_neg hrecent] at h
  exact (Option.some.inj h).symm

/-- The buffer of the client is large enough for the driver. -/
theorem deviceIoControl_eq (s : RegistryManager) : s.deviceIoControl registryEventsBufferSize =
    { s with
      registryEventsBuffer :=
        s.registryEventsBuffer.write 0 (List.replicate registryEventsBufferSize 0)
      lastContactTime := s.time
      request := some {
        bufferSpace := registryEventsBufferSize
        nonEmpty := !s.lQueuedRegistryEvents.isEmpty } } := by
  have hsize : registryEventsBufferSize ≥ structSize kernelRegistryEvent := by
    rw [sizeOf_registryEvent]
    decide
  unfold deviceIoControl
  rw [if_pos hsize]

theorem requests_deviceIoControl (s : RegistryManager) :
    (s.deviceIoControl registryEventsBufferSize).requests = s.requests.ask registryEventsBufferSize
      (s.registryEventsBuffer.write 0 (List.replicate registryEventsBufferSize 0)) := by
  rw [deviceIoControl_eq]
  rfl

/-! ## The invariant -/

/-- Every event is short enough for the client's buffer. -/
def Kept (s : RegistryManager) : Prop :=
  s.requests.Kept registryFormat registryEventsBufferSize

theorem Kept.registryCallback (hs : s.Kept) {op : RegistryOperation} {block : Memory}
    {allocated : Bool} (hcontact : s.sinceContact ≤ userspaceConnectionTimeout)
    (hfits : op.WellFormed → op.notify.Fits)
    (h : s.next (.registryCallback op block allocated) = some s') : s'.Kept := by
  obtain rfl | ⟨found, hop, hfound, rfl⟩ := registryCallback_cases h
  · exact hs
  · unfold Kept
    rw [requests_queueRegistryEvent _ hcontact]
    refine Requests.State.Kept.put hs ?_
    show (RegistryEvent.read _ _ 0).size ≤ _
    rw [createRegistryEvent_size hop hfound]
    exact hfits hop found hfound

/-- **One step.** -/
theorem Kept.next {recorded : Set RegistryOperation}
    (hfits : ∀ op ∈ recorded, op.WellFormed → op.notify.Fits) (hs : s.Kept)
    (hok : s.PollingOf recorded a) (h : s.next a = some s') : s'.Kept := by
  cases a with
  | clock time =>
      obtain rfl := Option.some.inj h
      exact hs
  | registryCallback op block allocated => exact hs.registryCallback hok.1 (hfits op hok.2) h
  | connectionChecker =>
      obtain rfl := connectionChecker_eq hok.1 h
      exact hs
  | deviceIoControl =>
      rw [RegistryManager.next] at h
      split_ifs at h with hidle
      obtain rfl := Option.some.inj h
      have hspace : registryEventsBufferSize < 2 ^ 32 := by decide
      unfold Kept
      rw [requests_deviceIoControl]
      refine Requests.State.Kept.ask hs ?_ _ ⟨Nat.le_refl _, hspace⟩
      exact Option.map_eq_none_iff.mpr (Option.isNone_iff_eq_none.mp hidle)
  | handleIoctlGetRegEvents =>
      obtain ⟨r, hr, rfl⟩ := Option.map_eq_some_iff.mp h
      unfold Kept
      rw [requests_handleIoctl]
      · exact Requests.State.Kept.serve hs (congrArg (Option.map _) hr)
      · intro packet hremoved
        have hin : packet ∈ s.removed.toList ++ s.lQueuedRegistryEvents := by
          simp [hremoved]
        have hle : registryFormat.size _ ≤ 327680 := Requests.State.Kept.short hs packet hin
        exact Nat.lt_of_le_of_lt hle (by decide)

/-- While every event fits. -/
theorem good_of_fits {recorded : Set RegistryOperation}
    (hfits : ∀ op ∈ recorded, op.WellFormed → op.notify.Fits)
    (h : machine.Reachable (PollingOf recorded) s) : s.Good := by
  have hkept : s.Kept := by
    refine h.invariant (P := Kept) ?_ fun s a s' hs hok hnext => hs.next hfits hok hnext
    rintro s ⟨time, registryEventsBuffer, rfl⟩
    exact Requests.State.Kept.init registryFormat _ registryEventsBuffer
  exact good_iff.mpr hkept.good

/-! ## An event that does not fit -/

/-- The event at the head is longer than the client's buffer. -/
def Blocked (s : RegistryManager) (e : RegistryEvent) : Prop :=
  s.requests.Stuck registryFormat registryEventsBufferSize e

theorem Blocked.next {e : RegistryEvent} (hs : s.Blocked e) (he : e.size < 2 ^ 32)
    (hok : s.Polling a) (h : s.next a = some s') :
    s'.Blocked e ∧ s'.requests.decoded = s.requests.decoded := by
  cases a with
  | clock time =>
      obtain rfl := Option.some.inj h
      exact ⟨hs, rfl⟩
  | registryCallback op block allocated =>
      obtain rfl | ⟨found, -, -, rfl⟩ := registryCallback_cases h
      · exact ⟨hs, rfl⟩
      · unfold Blocked
        rw [requests_queueRegistryEvent _ hok]
        exact ⟨Requests.State.Stuck.put hs _, rfl⟩
  | connectionChecker =>
      obtain rfl := connectionChecker_eq hok h
      exact ⟨hs, rfl⟩
  | deviceIoControl =>
      rw [RegistryManager.next] at h
      split_ifs at h
      obtain rfl := Option.some.inj h
      unfold Blocked
      rw [requests_deviceIoControl]
      exact ⟨Requests.State.Stuck.ask hs _, rfl⟩
  | handleIoctlGetRegEvents =>
      obtain ⟨r, hr, rfl⟩ := Option.map_eq_some_iff.mp h
      unfold Blocked
      rw [requests_handleIoctl]
      · exact Requests.State.Stuck.serve hs (congrArg (Option.map _) hr)
      · intro packet hremoved
        obtain ⟨block, blocks, hhead, hread⟩ := Requests.State.Stuck.head hs
        have hremoved : s.requests.removed = some packet := hremoved
        rw [hremoved] at hhead
        obtain rfl := (List.cons.inj hhead).1
        rw [hread]
        exact he

/-- **An event that does not fit blocks the queue.**  However the client polls from then on, it gets
no event any more. -/
theorem blocked {e : RegistryEvent} (he : e.size < 2 ^ 32) (hs : s.Blocked e)
    (h : machine.Steps Polling s s') :
    s'.Blocked e ∧ s'.requests.decoded = s.requests.decoded := by
  induction h with
  | refl => exact ⟨hs, rfl⟩
  | step _ hok hnext ih =>
      obtain ⟨hblocked, hdecoded⟩ := ih
      obtain ⟨hblocked', hsame⟩ := hblocked.next he hok hnext
      exact ⟨hblocked', hsame.trans hdecoded⟩

/-- The next request gets nothing, although there is an event. -/
theorem Blocked.next_request (recorded : Set RegistryOperation) {e : RegistryEvent}
    (hs : s.Blocked e) (he : e.size < 2 ^ 32) (hidle : s.request = none)
    (hremoved : s.removed = none) :
    ∃ s', machine.Steps (PollingOf recorded) s s' ∧ ¬ s'.Good := by
  let r : Request :=
    { bufferSpace := registryEventsBufferSize, nonEmpty := !s.lQueuedRegistryEvents.isEmpty }
  let s₁ := s.deviceIoControl registryEventsBufferSize
  obtain ⟨packet, packets, hhead, hread⟩ := Requests.State.Stuck.head hs
  have hnone : s.requests.removed = none := hremoved
  rw [hnone] at hhead
  have hqueue : s.lQueuedRegistryEvents = packet :: packets := hhead
  -- the request, the packet removed and the packet put back
  have hrequest : s₁.request = some r := by
    show (s.deviceIoControl registryEventsBufferSize).request = _
    rw [deviceIoControl_eq]
  have hremoved₁ : s₁.removed = none := by
    show (s.deviceIoControl registryEventsBufferSize).removed = _
    rw [deviceIoControl_eq, hremoved]
  have hqueue₁ : s₁.lQueuedRegistryEvents = packet :: packets := by
    show (s.deviceIoControl registryEventsBufferSize).lQueuedRegistryEvents = _
    rw [deviceIoControl_eq, hqueue]
  have hs₂ : s₁.handleIoctlGetRegEvents r =
      { s₁ with lQueuedRegistryEvents := packets, removed := some packet } := by
    have hroom : r.bufferSpaceUsed < r.bufferSpace ∧
        r.bufferSpace - r.bufferSpaceUsed ≥ structSize kernelRegistryEvent := by
      rw [sizeOf_registryEvent]
      show 0 < 327680 ∧ 327680 - 0 ≥ 36
      decide
    simp only [handleIoctlGetRegEvents, hremoved₁, hqueue₁, if_pos hroom]
  have hrequest₂ : (s₁.handleIoctlGetRegEvents r).request = some r := by
    rw [hs₂]
    exact hrequest
  have hstep : machine.next s .deviceIoControl = some s₁ :=
    if_pos (Option.isNone_iff_eq_none.mpr hidle)
  have hstep₁ : machine.next s₁ .handleIoctlGetRegEvents =
      some (s₁.handleIoctlGetRegEvents r) := congrArg (Option.map _) hrequest
  have hstep₂ : machine.next (s₁.handleIoctlGetRegEvents r) .handleIoctlGetRegEvents =
      some ((s₁.handleIoctlGetRegEvents r).handleIoctlGetRegEvents r) :=
    congrArg (Option.map _) hrequest₂
  have hpolling : ∀ s, PollingOf recorded s .handleIoctlGetRegEvents := fun _ => ⟨trivial, trivial⟩
  have hasked : PollingOf recorded s .deviceIoControl := ⟨trivial, trivial⟩
  have hsteps := (Machine.Steps.refl.step hasked hstep).step (hpolling s₁) hstep₁
  refine ⟨_, hsteps.step (hpolling _) hstep₂, ?_⟩
  have hfirst : (s₁.handleIoctlGetRegEvents r).requests =
      s₁.requests.serve registryFormat r.record :=
    requests_handleIoctl fun p hp => nomatch hremoved₁.symm.trans hp
  have hsecond : ((s₁.handleIoctlGetRegEvents r).handleIoctlGetRegEvents r).requests =
      (s₁.handleIoctlGetRegEvents r).requests.serve registryFormat r.record := by
    refine requests_handleIoctl fun p hp => ?_
    rw [hs₂] at hp
    obtain rfl := Option.some.inj hp
    rw [hread]
    exact he
  intro hgood
  have hgood := good_iff.mp hgood
  rw [hsecond, hfirst, requests_deviceIoControl] at hgood
  exact Requests.State.Stuck.unanswered hs hnone (by decide) _ hgood

/-- An event that does not fit is queued and comes to the head. -/
theorem exists_not_good {recorded : Set RegistryOperation} {op : RegistryOperation}
    {found : RegistryFound} (hrecorded : op ∈ recorded) (hop : op.WellFormed)
    (hfound : op.notify.found = some found) (hlong : registryEventsBufferSize < found.eventSize) :
    ∃ s, machine.Reachable (PollingOf recorded) s ∧ ¬ s.Good := by
  let s₀ : RegistryManager := { lastContactTime := 0, time := 0, registryEventsBuffer := fun _ => 0 }
  let packet := createRegistryEvent (fun _ => 0) op found
  have hcontact : s₀.sinceContact ≤ userspaceConnectionTimeout := by decide
  have hs₁ : s₀.queueRegistryEvent packet = { s₀ with
      lQueuedRegistryEvents := [packet]
      given := [RegistryEvent.read kernelRegistryEvent packet 0] } := if_pos hcontact
  have hinit : machine.init s₀ := ⟨0, fun _ => 0, rfl⟩
  have hmeets : PollingOf recorded s₀ (.registryCallback op (fun _ => 0) true) :=
    ⟨hcontact, hrecorded⟩
  have hqueued : machine.Reachable (PollingOf recorded) (s₀.queueRegistryEvent packet) :=
    (Machine.Reachable.init hinit).step hmeets (next_registryCallback hop hfound _)
  have hsize : (RegistryEvent.read kernelRegistryEvent packet 0).size = found.eventSize :=
    createRegistryEvent_size hop hfound _
  have hblocked : (s₀.queueRegistryEvent packet).Blocked
      (RegistryEvent.read kernelRegistryEvent packet 0) := by
    rw [hs₁]
    refine ⟨?_, ⟨packet, [], rfl, rfl⟩, nofun⟩
    show registryEventsBufferSize < (RegistryEvent.read kernelRegistryEvent packet 0).size
    rw [hsize]
    exact hlong
  have hlt : (RegistryEvent.read kernelRegistryEvent packet 0).size < 2 ^ 32 := by
    rw [hsize]
    exact hop.2 found hfound
  obtain ⟨s, hsteps, hbad⟩ := hblocked.next_request recorded hlt (by rw [hs₁]) (by rw [hs₁])
  exact ⟨s, hqueued.steps hsteps, hbad⟩

/-- **When nothing is lost and every request gets an event.**  The operations of a set can be
recorded in any order, with requests between them, just if none of them has an event that is longer
than the client's buffer. -/
theorem registry_hand_over_iff (recorded : Set RegistryOperation) :
    (∀ s, machine.Reachable (PollingOf recorded) s → s.Good) ↔
      ∀ op ∈ recorded, op.WellFormed → op.notify.Fits := by
  constructor
  · intro hgood op hrecorded hop found hfound
    by_contra hlong
    obtain ⟨s, hs, hbad⟩ := exists_not_good hrecorded hop hfound (Nat.lt_of_not_le hlong)
    exact hbad (hgood s hs)
  · intro hfits s hs
    exact good_of_fits hfits hs

/-- A value whose data alone fill the buffer. -/
def largeValue : RegistryOperation where
  notify := .preSetValueKey { valid := true, name := some [92] } [65] 3 (List.replicate 327680 7)
  processId := 1234
  time := [2007, 11, 12, 10, 30, 0, 0, 1]

/-- The client polls in time and gets nothing, although there is an event. -/
theorem large_value_not_delivered :
    largeValue.WellFormed ∧ ∃ s, machine.Reachable (PollingOf {largeValue}) s ∧ ¬ s.Good := by
  let found : RegistryFound := {
    registryPath := [92, 92, 65]
    registryDataType := 3
    registryData := List.replicate 327680 7 }
  have hfound : largeValue.notify.found = some found := rfl
  have hsize : found.eventSize = 36 + 8 + 327680 := by
    rw [RegistryFound.eventSize, sizeOf_registryEvent]
    show 36 + 8 + (List.replicate 327680 _).length = _
    rw [List.length_replicate]
  have hop : largeValue.WellFormed := by
    refine ⟨rfl, fun x hx => ?_⟩
    obtain rfl : found = x := Option.some.inj (hfound.symm.trans hx)
    rw [hsize]
    decide
  refine ⟨hop, exists_not_good (Set.mem_singleton _) hop hfound ?_⟩
  rw [hsize]
  decide

end RegistryManager

/-- The path that the client sees is the path that was found, if there is no 0 in it. -/
theorem szRegistryPath_eq {op : RegistryOperation} {found : RegistryFound} (hop : op.WellFormed)
    (hfound : op.notify.found = some found) (block : Memory)
    (hzero : (0 : BitVec 16) ∉ found.registryPath) :
    szRegistryPath (RegistryEvent.read kernelRegistryEvent (createRegistryEvent block op found) 0) =
      found.registryPath.map BitVec.toNat := by
  obtain ⟨-, -, -, -, -, -, hpath, -⟩ := createRegistryEvent_spec hop hfound block
  unfold szRegistryPath
  rw [hpath, cStr_terminated hzero]

end CaptureHpc.Driver
