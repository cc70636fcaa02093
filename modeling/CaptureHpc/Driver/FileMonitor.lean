/-
# `Driver.FileMonitor` — file events from the driver to the client

The file monitor driver keeps a queue of events of different lengths.  The
client sends a request with a buffer, and the driver copies events into it, one
behind the other, until the next one does not fit, which it puts back.  The
client goes through the buffer by the lengths.

`hand_over` says that while the client polls nothing is lost: what the client
has decoded, what is on its way and what is queued are the events in order.
-/
import CaptureHpc.Client.Monitor
import CaptureHpc.Driver.EventBuffer
import CaptureHpc.Lib.Requests

namespace CaptureHpc.Driver

open CLayout

/-! ## The declarations -/

def uchar (name : String) : Field := { name, size := 1, align := 1 }

/-- An array of 16-bit numbers. -/
def shorts (name : String) (n : Nat) : Field := { name, size := 2 * n, align := 2 }

/-- `FILE_EVENT` of the driver. -/
def kernelFileEvent : List Field :=
  [uchar "majorFileEventType", uchar "minorFileEventType", ulong "status", ulong "information",
    ulong "flags", shorts "time" 8, pointer "processId", ulong "filePathLength", shorts "filePath" 0]

/-- `FILE_EVENT` of the client. -/
def clientFileEvent : List Field :=
  [uchar "majorFileEventType", uchar "minorFileEventType", ulong "status", ulong "information",
    ulong "flags", shorts "time" 8, ulong "processId", ulong "filePathLength", shorts "filePath" 0]

/-- The two declarations put every field in the same place. -/
theorem clientFileEvent_eq : clientFileEvent = kernelFileEvent := rfl

/-- What is in a `FILE_EVENT`; the path with the 0 behind it. -/
structure FileEvent where
  majorFileEventType : BitVec 8
  minorFileEventType : BitVec 8
  status : BitVec 32
  information : BitVec 32
  flags : BitVec 32
  time : List (BitVec 16)
  processId : BitVec 32
  filePathLength : BitVec 32
  filePath : List (BitVec 16)
  deriving DecidableEq

/-- The event at an address, by a declaration. -/
def FileEvent.read (fields : List Field) (m : Memory) (p : Nat) : FileEvent :=
  let filePathLength := BitVec.ofNat 32 (m.readULong (p + offsetOf fields "filePathLength"))
  { majorFileEventType := m (p + offsetOf fields "majorFileEventType")
    minorFileEventType := m (p + offsetOf fields "minorFileEventType")
    status := BitVec.ofNat 32 (m.readULong (p + offsetOf fields "status"))
    information := BitVec.ofNat 32 (m.readULong (p + offsetOf fields "information"))
    flags := BitVec.ofNat 32 (m.readULong (p + offsetOf fields "flags"))
    time := m.unitsAt (p + offsetOf fields "time") 8
    processId := BitVec.ofNat 32 (m.readULong (p + offsetOf fields "processId"))
    filePathLength
    filePath := m.unitsAt (p + offsetOf fields "filePath") (filePathLength.toNat / 2) }

/-! ## The driver -/

/-- What `PreFileOperationCallback` and `PostFileOperationCallback` find out about an operation. -/
structure FileOperation where
  majorFunction : BitVec 8
  minorFunction : BitVec 8
  /-- The operation marks the file for deletion. -/
  deleteFile : Bool
  /-- `FltObjects->FileObject->Flags`, if there is a file object. -/
  flags : Option (BitVec 32)
  processId : BitVec 32
  /-- `TIME_FIELDS`: eight numbers. -/
  time : List (BitVec 16)
  status : BitVec 32
  information : BitVec 32
  filePath : List (BitVec 16)

/-- `NTSTRSAFE_UNICODE_STRING_MAX_CCH`, which the path was allocated for. -/
def maxPath : Nat := 32767

def FileOperation.WellFormed (op : FileOperation) : Prop :=
  op.time.length = 8 ∧ op.filePath.length ≤ maxPath

instance FileOperation.decidableWellFormed (op : FileOperation) : Decidable op.WellFormed :=
  inferInstanceAs (Decidable (_ ∧ _))

/-- `filePath.Length+sizeof(WCHAR)`. -/
def pathLength (path : List (BitVec 16)) : Nat := 2 * path.length + 2

/-- The event that the callbacks fill in, in a block of the pool that was not initialised. -/
def createFileEvent (block : Memory) (op : FileOperation) : Memory :=
  let offset := offsetOf kernelFileEvent
  let m := block.writeULong (offset "filePathLength") (pathLength op.filePath)
  let m := m.write (offset "filePath") (Memory.unitBytes (op.filePath ++ [0]))
  let m := m.writeByte (offset "majorFileEventType") op.majorFunction
  let m := m.writeByte (offset "minorFileEventType") op.minorFunction
  let m := m.writeULong (offset "processId") 0
  let m := match op.flags with
    | some flags => m.writeULong (offset "flags") flags.toNat
    | none => m
  let m := if op.deleteFile then m.writeByte (offset "majorFileEventType") 0x99 else m
  let m := m.writeULong (offset "processId") op.processId.toNat
  let m := m.write (offset "time") (Memory.unitBytes op.time)
  let m := m.writeULong (offset "status") op.status.toNat
  m.writeULong (offset "information") op.information.toNat

/-- `USERSPACE_CONNECTION_TIMEOUT`, in seconds. -/
def userspaceConnectionTimeout : Nat := 10

/-- A `GetFileEvents` that the driver is serving. -/
structure Request where
  bufferSpace : Nat
  bufferSpaceUsed : Nat := 0
  /-- There was an event when it came; nobody reads it. -/
  nonEmpty : Bool

/-- What the client got for a request. -/
structure Response where
  bufferSpace : Nat
  bytesReturned : Nat
  nonEmpty : Bool
  events : List FileEvent

/-! ## The client -/

/-- The loop over the events in the buffer; an event is not empty, so `bytesReturned` rounds are
enough. -/
def decodeLoop : Nat → Memory → Nat → Nat → List FileEvent
  | 0, _, _, _ => []
  | rounds + 1, fileEvents, offset, bytesReturned =>
      let e := FileEvent.read clientFileEvent fileEvents offset
      let offset := (offset + (structSize clientFileEvent + e.filePathLength.toNat)) % 2 ^ 32
      e :: if offset < bytesReturned then decodeLoop rounds fileEvents offset bytesReturned else []

/-- The events of one round of `FileMonitor::run`. -/
def decode (fileEvents : Memory) (bytesReturned : Nat) : List FileEvent :=
  if bytesReturned ≥ structSize clientFileEvent then
    decodeLoop bytesReturned fileEvents 0 bytesReturned
  else []

/-- `fileEventPath = e->filePath`. -/
def fileEventPath (e : FileEvent) : Client.WString := Client.cStr (e.filePath.map BitVec.toNat)

/-! ## Both -/

structure FileManager where
  /-- The packets of `lQueuedFileEvents`, with the blocks of their events. -/
  lQueuedFileEvents : List Memory := []
  lastContactTime : BitVec 32
  /-- The clock of the driver. -/
  time : BitVec 32
  request : Option Request := none
  /-- The packet that was removed from the head. -/
  removed : Option Memory := none
  /-- The client's buffer. -/
  fileEvents : Memory
  responses : List Response := []
  /-- The events that `QueueFileEvent` was given, with memory for the packet; nobody reads it. -/
  given : List FileEvent := []

inductive FileAction where
  | clock (time : BitVec 32)
  /-- An operation with the block of its event; whether there is memory for the packet. -/
  | queueFileEvent (op : FileOperation) (block : Memory) (allocated : Bool)
  | connectionChecker
  /-- The client sends `GetFileEvents` with a buffer. -/
  | getFileEvents (outputBufferSize : Nat)
  /-- A step of `MessageCallback`. -/
  | messageCallback

namespace FileManager

/-- The seconds since the last request. -/
def sinceContact (s : FileManager) : Nat := (s.time - s.lastContactTime).toNat

/-- `*ReturnOutputBufferLength = bufferSpaceUsed`, and the client decodes its buffer. -/
def returned (s : FileManager) (r : Request) : FileManager :=
  { s with
    request := none
    responses := s.responses ++ [{
      bufferSpace := r.bufferSpace
      bytesReturned := r.bufferSpaceUsed
      nonEmpty := r.nonEmpty
      events := decode s.fileEvents r.bufferSpaceUsed }] }

/-- The loop of `GetFileEvents`: a packet is removed from the head, and its event copied or the
packet put back. -/
def messageCallback (s : FileManager) : Option FileManager := do
  let r ← s.request
  match s.removed with
  | none =>
      match s.lQueuedFileEvents with
      | packet :: packets =>
          if r.bufferSpaceUsed < r.bufferSpace ∧
              r.bufferSpace - r.bufferSpaceUsed ≥ structSize kernelFileEvent then
            some { s with lQueuedFileEvents := packets, removed := some packet }
          else some (s.returned r)
      | [] => some (s.returned r)
  | some packet =>
      let e := FileEvent.read kernelFileEvent packet 0
      let fileEventSize := (structSize kernelFileEvent + e.filePathLength.toNat) % 2 ^ 32
      if r.bufferSpace - r.bufferSpaceUsed ≥ fileEventSize then
        some { s with
          fileEvents := s.fileEvents.write r.bufferSpaceUsed (packet.bytesAt 0 fileEventSize)
          request := some { r with bufferSpaceUsed := r.bufferSpaceUsed + fileEventSize }
          removed := none }
      else
        some ({ s with
          lQueuedFileEvents := packet :: s.lQueuedFileEvents
          removed := none }.returned r)

def next (s : FileManager) : FileAction → Option FileManager
  | .clock time => some { s with time }
  | .queueFileEvent op block allocated =>
      if op.WellFormed then
        let packet := createFileEvent block op
        let given := s.given ++ [FileEvent.read kernelFileEvent packet 0]
        if !allocated then some s
        else if s.sinceContact ≤ userspaceConnectionTimeout then
          some { s with lQueuedFileEvents := s.lQueuedFileEvents ++ [packet], given }
        else some { s with given }
      else none
  | .connectionChecker =>
      if s.sinceContact > userspaceConnectionTimeout + userspaceConnectionTimeout / 2 then
        some { s with lQueuedFileEvents := [] }
      else some s
  | .getFileEvents outputBufferSize =>
      if s.request.isNone then
        some { s with
          fileEvents := s.fileEvents.write 0 (List.replicate outputBufferSize 0)
          lastContactTime := s.time
          request := some {
            bufferSpace := outputBufferSize
            nonEmpty := !s.lQueuedFileEvents.isEmpty } }
      else none
  | .messageCallback => s.messageCallback

/-- The driver begins with no events and the time of its start. -/
def machine : Machine FileManager FileAction where
  init s := ∃ time fileEvents, s = { lastContactTime := time, time, fileEvents }
  next := next

/-! ## What is to hold -/

/-- What the client has decoded. -/
def decoded (s : FileManager) : List FileEvent := s.responses.flatMap Response.events

/-- The events in the buffer of a request that is being served, and the one that was removed. -/
def underWay (s : FileManager) : List FileEvent :=
  match s.request with
  | some r => decode s.fileEvents r.bufferSpaceUsed ++
      s.removed.toList.map fun packet => FileEvent.read kernelFileEvent packet 0
  | none => []

/-- The events that are queued. -/
def queued (s : FileManager) : List FileEvent :=
  s.lQueuedFileEvents.map fun packet => FileEvent.read kernelFileEvent packet 0

/-- A response fits its buffer, and there is an event in it if there was one. -/
def Response.Good (r : Response) : Prop :=
  r.bytesReturned ≤ r.bufferSpace ∧ (r.nonEmpty = true → r.events ≠ [])

/-- Nothing is lost, doubled, changed or out of order, and every response is good. -/
structure Good (s : FileManager) : Prop where
  events : s.decoded ++ s.underWay ++ s.queued = s.given
  responses : ∀ r ∈ s.responses, Response.Good r

/-- The size of an event with the longest path. -/
def maximalEvent : Nat := structSize kernelFileEvent + (2 * maxPath + 2)

/-- The condition on a step: the client has polled within the timeout, and its buffers have room for
any event. -/
def Polling (s : FileManager) : FileAction → Prop
  | .getFileEvents outputBufferSize =>
      maximalEvent ≤ outputBufferSize ∧ outputBufferSize < 2 ^ 32
  | .queueFileEvent _ _ _ | .connectionChecker => s.sinceContact ≤ userspaceConnectionTimeout
  | _ => True

end FileManager

/-! ## Reading and writing events -/

section Offsets

theorem sizeOf_fileEvent : structSize kernelFileEvent = 40 := by decide
theorem offset_major : offsetOf kernelFileEvent "majorFileEventType" = 0 := rfl
theorem offset_minor : offsetOf kernelFileEvent "minorFileEventType" = 1 := rfl
theorem offset_status : offsetOf kernelFileEvent "status" = 4 := rfl
theorem offset_information : offsetOf kernelFileEvent "information" = 8 := rfl
theorem offset_flags : offsetOf kernelFileEvent "flags" = 12 := rfl
theorem offset_time : offsetOf kernelFileEvent "time" = 16 := rfl
theorem offset_processId : offsetOf kernelFileEvent "processId" = 32 := rfl
theorem offset_filePathLength : offsetOf kernelFileEvent "filePathLength" = 36 := rfl
theorem offset_filePath : offsetOf kernelFileEvent "filePath" = 40 := rfl

end Offsets

/-- `sizeof(FILE_EVENT)+filePathLength`. -/
def FileEvent.size (e : FileEvent) : Nat := 40 + e.filePathLength.toNat

theorem read_eq (m : Memory) (p : Nat) : FileEvent.read kernelFileEvent m p =
    { majorFileEventType := m p
      minorFileEventType := m (p + 1)
      status := BitVec.ofNat 32 (m.readULong (p + 4))
      information := BitVec.ofNat 32 (m.readULong (p + 8))
      flags := BitVec.ofNat 32 (m.readULong (p + 12))
      time := m.unitsAt (p + 16) 8
      processId := BitVec.ofNat 32 (m.readULong (p + 32))
      filePathLength := BitVec.ofNat 32 (m.readULong (p + 36))
      filePath := m.unitsAt (p + 40) ((BitVec.ofNat 32 (m.readULong (p + 36))).toNat / 2) } := by
  unfold FileEvent.read
  rw [offset_major, offset_minor, offset_status, offset_information, offset_flags, offset_time,
    offset_processId, offset_filePathLength, offset_filePath]
  rfl

/-- An event is read the same way wherever its bytes are. -/
theorem read_moved {m m' : Memory} {p q : Nat}
    (h : ∀ d < (FileEvent.read kernelFileEvent m p).size, m' (q + d) = m (p + d)) :
    FileEvent.read kernelFileEvent m' q = FileEvent.read kernelFileEvent m p := by
  have hsize : (FileEvent.read kernelFileEvent m p).size =
      40 + (BitVec.ofNat 32 (m.readULong (p + 36))).toNat := by
    rw [read_eq]
    rfl
  rw [hsize] at h
  have hulong : ∀ f, f + 4 ≤ 40 → m'.readULong (q + f) = m.readULong (p + f) := by
    intro f hf
    refine Memory.readULong_moved fun d hd => ?_
    rw [Nat.add_assoc, Nat.add_assoc]
    exact h (f + d) (by omega)
  have hunits : ∀ f n, f + 2 * n ≤ 40 + (BitVec.ofNat 32 (m.readULong (p + 36))).toNat →
      m'.unitsAt (q + f) n = m.unitsAt (p + f) n := by
    intro f n hf
    refine Memory.unitsAt_moved fun d hd => ?_
    rw [Nat.add_assoc, Nat.add_assoc]
    exact h (f + d) (by omega)
  have hmajor : m' q = m p := h 0 (by omega)
  rw [read_eq, read_eq, hmajor, h 1 (by omega), hulong 4 (by omega), hulong 8 (by omega),
    hulong 12 (by omega), hulong 32 (by omega), hulong 36 (by omega), hunits 16 8 (by omega),
    hunits 40 _ (by omega)]

/-! ### The event that was created -/

/-- **Every field is as it was found out**, and the path has a 0 behind it. -/
theorem createFileEvent_spec {op : FileOperation} (hop : op.WellFormed) (block : Memory) :
    let e := FileEvent.read kernelFileEvent (createFileEvent block op) 0
    e.majorFileEventType = (if op.deleteFile then 0x99 else op.majorFunction) ∧
      e.minorFileEventType = op.minorFunction ∧ e.status = op.status ∧
      e.information = op.information ∧ (∀ flags, op.flags = some flags → e.flags = flags) ∧
      e.time = op.time ∧ e.processId = op.processId ∧
      e.filePathLength.toNat = pathLength op.filePath ∧ e.filePath = op.filePath ++ [0] := by
  obtain ⟨htime, hpath⟩ := hop
  have hpath : op.filePath.length ≤ 32767 := hpath
  have htimeBytes : (Memory.unitBytes op.time).length = 16 := by
    rw [Memory.length_unitBytes, htime]
  have hpathBytes : (Memory.unitBytes (op.filePath ++ [0])).length = 2 * op.filePath.length + 2 := by
    rw [Memory.length_unitBytes, List.length_append, List.length_singleton]
    omega
  have hlength : pathLength op.filePath < 2 ^ 32 := by
    unfold pathLength
    omega
  have htimeRead : ∀ m : Memory,
      (m.write 16 (Memory.unitBytes op.time)).unitsAt 16 8 = op.time := by
    intro m
    rw [← htime]
    exact m.unitsAt_write 16 op.time
  have hpathRead : ∀ m : Memory, (m.write 40 (Memory.unitBytes (op.filePath ++ [0]))).unitsAt 40
      (pathLength op.filePath / 2) = op.filePath ++ [0] := by
    intro m
    have hunits : pathLength op.filePath / 2 = (op.filePath ++ [0]).length := by
      rw [List.length_append, List.length_singleton, pathLength]
      omega
    rw [hunits]
    exact m.unitsAt_write 40 _
  have hstatus := op.status.isLt
  have hinformation := op.information.isLt
  have hprocess := op.processId.isLt
  have hflags : ∀ flags : BitVec 32, flags.toNat < 2 ^ 32 := fun flags => flags.isLt
  rw [read_eq]
  unfold createFileEvent
  cases op.flags <;> cases op.deleteFile <;>
    simp (disch := first | omega | exact hflags _) [offset_major, offset_minor, offset_status,
      offset_information, offset_flags, offset_time, offset_processId, offset_filePathLength,
      offset_filePath, Memory.readULong_writeULong_other, Memory.readULong_writeULong,
      Memory.readULong_writeByte_other, Memory.readULong_write_other, Memory.unitsAt_write_other,
      Memory.unitsAt_writeULong_other, Memory.unitsAt_writeByte_other, Memory.writeByte_self,
      Memory.writeByte_outside, Memory.writeULong_outside, Memory.write_outside, htimeRead,
      Nat.mod_eq_of_lt] <;>
    exact hpathRead _

/-! ## The buffer -/

/-- File events as records of a buffer. -/
def fileFormat : Requests.Format FileEvent where
  read := FileEvent.read kernelFileEvent
  size := FileEvent.size
  header := 40
  positive := by decide
  least e := Nat.le_add_right 40 _
  moved := read_moved

/-- The events of a buffer up to an offset. -/
abbrev Packed (fileEvents : Memory) (offset : Nat) (events : List FileEvent) (used : Nat) : Prop :=
  Packing.Packed (FileEvent.read kernelFileEvent) FileEvent.size fileEvents offset events used

/-- The client's loop is the one over records. -/
theorem decodeLoop_eq (fileEvents : Memory) (bytesReturned : Nat) :
    ∀ rounds offset, decodeLoop rounds fileEvents offset bytesReturned =
      Requests.unpackLoop fileFormat rounds fileEvents offset bytesReturned := by
  intro rounds
  induction rounds with
  | zero =>
      intro offset
      rfl
  | succ rounds ih =>
      intro offset
      rw [decodeLoop, Requests.unpackLoop, ih, clientFileEvent_eq, sizeOf_fileEvent]
      rfl

theorem decode_eq (fileEvents : Memory) (bytesReturned : Nat) :
    decode fileEvents bytesReturned = Requests.unpack fileFormat fileEvents bytesReturned := by
  rw [decode, decodeLoop_eq, clientFileEvent_eq, sizeOf_fileEvent]
  rfl

/-- A request, as one for the records of a queue. -/
def Request.record (r : Request) : Requests.Request :=
  { space := r.bufferSpace, used := r.bufferSpaceUsed, nonEmpty := r.nonEmpty }

def Response.answer (r : Response) : Requests.Answer FileEvent :=
  { space := r.bufferSpace, returned := r.bytesReturned, nonEmpty := r.nonEmpty, records := r.events }

/-! ## The invariant -/

namespace FileManager

variable {s s' : FileManager} {a : FileAction}

/-- What is kept of a request: the buffer so far, and what there is to come for it. -/
structure Serving (s : FileManager) (r : Request) : Prop where
  packed : ∃ events, Packed s.fileEvents 0 events r.bufferSpaceUsed
  used : r.bufferSpaceUsed ≤ r.bufferSpace
  space : maximalEvent ≤ r.bufferSpace ∧ r.bufferSpace < 2 ^ 32
  first : r.nonEmpty = true → r.bufferSpaceUsed = 0 →
    s.removed ≠ none ∨ s.lQueuedFileEvents ≠ []

structure Kept (s : FileManager) : Prop where
  short : ∀ packet ∈ s.removed.toList ++ s.lQueuedFileEvents,
    (FileEvent.read kernelFileEvent packet 0).size ≤ maximalEvent
  idle : s.request = none → s.removed = none
  serving : ∀ r, s.request = some r → s.Serving r
  good : s.Good

theorem maximalEvent_eq : maximalEvent = 65576 := by
  unfold maximalEvent
  rw [sizeOf_fileEvent]
  rfl

/-! ### The queue -/

/-- The driver and the client as a queue that is handed over in buffers. -/
def requests (s : FileManager) : Requests.State FileEvent where
  queue := s.lQueuedFileEvents
  request := s.request.map Request.record
  removed := s.removed
  buffer := s.fileEvents
  answers := s.responses.map Response.answer
  given := s.given

/-- What is to hold is what holds of the queue. -/
theorem good_iff : s.Good ↔ s.requests.Good fileFormat := by
  have hdecoded : s.requests.decoded = s.decoded := by
    unfold Requests.State.decoded decoded requests
    rw [List.flatMap_map]
    rfl
  have hunderWay : s.requests.underWay fileFormat = s.underWay := by
    unfold Requests.State.underWay underWay requests
    cases s.request with
    | none => rfl
    | some r =>
        simp only [decode_eq]
        rfl
  have hanswers : (∀ a ∈ s.requests.answers, a.Good) ↔ ∀ r ∈ s.responses, Response.Good r :=
    List.forall_mem_map
  constructor
  · rintro ⟨hevents, hresponses⟩
    refine ⟨?_, hanswers.mpr hresponses⟩
    rw [hdecoded, hunderWay]
    exact hevents
  · rintro ⟨hrecords, hgood⟩
    refine ⟨?_, hanswers.mp hgood⟩
    rw [← hdecoded, ← hunderWay]
    exact hrecords

theorem kept_iff : s.Kept ↔ s.requests.Kept fileFormat maximalEvent := by
  have hidle : (s.requests.request = none → s.requests.removed = none) ↔
      (s.request = none → s.removed = none) :=
    imp_congr_left Option.map_eq_none_iff
  constructor
  · rintro ⟨hshort, hnone, hserving, hgood⟩
    refine ⟨hshort, hidle.mpr hnone, fun r hr => ?_, good_iff.mp hgood⟩
    obtain ⟨r₀, hr₀, rfl⟩ := Option.map_eq_some_iff.mp hr
    obtain ⟨hpacked, hused, hspace, hfirst⟩ := hserving r₀ hr₀
    exact ⟨hpacked, hused, hspace, hfirst⟩
  · rintro ⟨hshort, hnone, hserving, hgood⟩
    refine ⟨hshort, hidle.mp hnone, fun r hr => ?_, good_iff.mpr hgood⟩
    obtain ⟨hpacked, hused, hspace, hfirst⟩ := hserving r.record (congrArg (Option.map _) hr)
    exact ⟨hpacked, hused, hspace, hfirst⟩

theorem requests_returned (s : FileManager) (r : Request) :
    (s.returned r).requests = s.requests.answer fileFormat r.record := by
  unfold returned requests Requests.State.answer
  rw [List.map_append, decode_eq]
  rfl

/-- A step of `MessageCallback` is one of the queue, if the length of the event that was removed is
a number of 32 bits. -/
theorem requests_messageCallback
    (hshort : ∀ packet, s.removed = some packet → (fileFormat.read packet 0).size < 2 ^ 32)
    (h : s.messageCallback = some s') :
    ∃ r, s.requests.request = some r ∧ s'.requests = s.requests.serve fileFormat r := by
  obtain ⟨r, hr, h⟩ := Option.bind_eq_some_iff.mp h
  refine ⟨r.record, congrArg (Option.map _) hr, ?_⟩
  unfold Requests.State.serve
  cases hremoved : s.removed with
  | none =>
      have hnone : s.requests.removed = none := hremoved
      simp only [hnone]
      unfold Requests.State.remove
      rw [hremoved] at h
      cases hqueue : s.lQueuedFileEvents with
      | nil =>
          have hnil : s.requests.queue = [] := hqueue
          simp only [hqueue] at h
          obtain rfl := Option.some.inj h
          simp only [hnil]
          exact requests_returned s r
      | cons packet packets =>
          have hcons : s.requests.queue = packet :: packets := hqueue
          simp only [hqueue, sizeOf_fileEvent] at h
          simp only [hcons]
          split_ifs at h with hroom
          · obtain rfl := Option.some.inj h
            exact (if_pos hroom).symm
          · obtain rfl := Option.some.inj h
            exact (requests_returned s r).trans (if_neg hroom).symm
  | some packet =>
      have hsome : s.requests.removed = some packet := hremoved
      have hsize : (structSize kernelFileEvent +
          (FileEvent.read kernelFileEvent packet 0).filePathLength.toNat) % 2 ^ 32 =
            fileFormat.size (fileFormat.read packet 0) := by
        rw [sizeOf_fileEvent]
        exact Nat.mod_eq_of_lt (hshort packet hremoved)
      rw [hremoved] at h
      simp only [hsize] at h
      simp only [hsome]
      unfold Requests.State.place
      simp only
      split_ifs at h with hroom
      · obtain rfl := Option.some.inj h
        exact (if_pos hroom).symm
      · obtain rfl := Option.some.inj h
        exact (requests_returned _ r).trans (if_neg hroom).symm

/-! ### The steps -/

theorem Kept.messageCallback (hs : s.Kept) (h : s.messageCallback = some s') : s'.Kept := by
  have hrequests := kept_iff.mp hs
  have hshort : ∀ packet, s.removed = some packet → (fileFormat.read packet 0).size < 2 ^ 32 := by
    intro packet hremoved
    have hle : (FileEvent.read kernelFileEvent packet 0).size ≤ maximalEvent :=
      hs.short packet (by simp [hremoved])
    rw [maximalEvent_eq] at hle
    exact Nat.lt_of_le_of_lt hle (by decide)
  obtain ⟨r, hr, hserve⟩ := requests_messageCallback hshort h
  refine kept_iff.mpr ?_
  rw [hserve]
  exact hrequests.serve hr

theorem Kept.queueFileEvent (hs : s.Kept) {op : FileOperation} {block : Memory} {allocated : Bool}
    (hok : s.Polling (.queueFileEvent op block allocated))
    (h : s.next (.queueFileEvent op block allocated) = some s') : s'.Kept := by
  have hcontact : s.sinceContact ≤ userspaceConnectionTimeout := hok
  rw [FileManager.next] at h
  simp only [if_pos hcontact] at h
  split_ifs at h with hop hnone
  · obtain rfl := Option.some.inj h
    exact hs
  · obtain rfl := Option.some.inj h
    obtain ⟨-, -, -, -, -, -, -, hlength, -⟩ := createFileEvent_spec hop block
    have hsize : (FileEvent.read kernelFileEvent (createFileEvent block op) 0).size ≤
        maximalEvent := by
      have hpath : op.filePath.length ≤ 32767 := hop.2
      unfold FileEvent.size
      rw [hlength, maximalEvent_eq, pathLength]
      omega
    exact kept_iff.mpr ((kept_iff.mp hs).put hsize)

theorem Kept.getFileEvents (hs : s.Kept) {outputBufferSize : Nat}
    (hok : s.Polling (.getFileEvents outputBufferSize))
    (h : s.next (.getFileEvents outputBufferSize) = some s') : s'.Kept := by
  rw [FileManager.next] at h
  split_ifs at h with hnone
  have hidle : s.requests.request = none :=
    Option.map_eq_none_iff.mpr (Option.isNone_iff_eq_none.mp hnone)
  obtain rfl := Option.some.inj h
  exact kept_iff.mpr ((kept_iff.mp hs).ask hidle _ hok)

/-- **One step.** -/
theorem Kept.next (hs : s.Kept) (hok : s.Polling a) (h : s.next a = some s') : s'.Kept := by
  cases a with
  | clock time =>
      obtain rfl := Option.some.inj h
      have hrequests := kept_iff.mp hs
      exact kept_iff.mpr hrequests
  | queueFileEvent op block allocated => exact hs.queueFileEvent hok h
  | connectionChecker =>
      -- the client has been in contact
      have hcontact : s.sinceContact ≤ 10 := hok
      have hrecent : ¬ s.sinceContact >
          userspaceConnectionTimeout + userspaceConnectionTimeout / 2 := by
        show ¬ s.sinceContact > 15
        omega
      rw [FileManager.next, if_neg hrecent] at h
      obtain rfl := Option.some.inj h
      exact hs
  | getFileEvents outputBufferSize => exact hs.getFileEvents hok h
  | messageCallback => exact hs.messageCallback h

/-- **Nothing is lost.**  While the client polls, the events that it has decoded, those under way and
those that are queued are the events that there were, in order and field by field; and no request
gets more than its buffer holds, or nothing although there is an event. -/
theorem hand_over (s : FileManager) (h : machine.Reachable Polling s) : s.Good := by
  have hkept : s.Kept := by
    refine h.invariant (P := Kept) ?_ fun s a s' hs hok hnext => hs.next hok hnext
    rintro s ⟨time, fileEvents, rfl⟩
    exact ⟨nofun, fun _ => rfl, nofun, rfl, nofun⟩
  exact hkept.good

instance (s : FileManager) : ∀ a, Decidable (s.Polling a)
  | .getFileEvents _ => inferInstanceAs (Decidable (_ ∧ _))
  | .queueFileEvent _ _ _ => inferInstanceAs (Decidable (s.sinceContact ≤ _))
  | .connectionChecker => inferInstanceAs (Decidable (s.sinceContact ≤ _))
  | .clock _ => .isTrue trivial
  | .messageCallback => .isTrue trivial

/-- A file is opened. -/
def opened : FileOperation where
  majorFunction := 0
  minorFunction := 0
  deleteFile := false
  flags := some 2
  processId := 1234
  time := [2007, 11, 12, 10, 30, 0, 0, 1]
  status := 0
  information := 1
  filePath := [99, 58]

/-- Two events are queued, and a request is served. -/
def oneRequest : List FileAction :=
  [.queueFileEvent opened (fun _ => 7) true, .clock 3, .queueFileEvent opened (fun _ => 9) true,
    .getFileEvents 65576, .messageCallback, .messageCallback, .messageCallback, .messageCallback,
    .messageCallback]

theorem oneRequest_good :
    ∃ s, machine.Reachable Polling s ∧ s.decoded.length = 2 ∧ s.queued = [] ∧ s.Good := by
  have hrun : (machine.run oneRequest
      { lastContactTime := 0, time := 0, fileEvents := fun _ => 0 }).map
        (fun s => (s.decoded.length, s.queued)) = some (2, []) := by
    decide +kernel
  have hmeets : machine.Meets Polling oneRequest
      { lastContactTime := 0, time := 0, fileEvents := fun _ => 0 } := by
    decide +kernel
  obtain ⟨s, hs, hstate⟩ := Option.map_eq_some_iff.mp hrun
  obtain ⟨hlength, hqueued⟩ := Prod.mk.inj hstate
  have hinit : machine.init { lastContactTime := 0, time := 0, fileEvents := fun _ => 0 } :=
    ⟨0, fun _ => 0, rfl⟩
  have hreachable := (Machine.Reachable.init hinit).run hmeets hs
  exact ⟨s, hreachable, hlength, hqueued, hand_over s hreachable⟩

end FileManager

/-- A path with a 0 behind it, up to the 0. -/
theorem cStr_terminated {path : List (BitVec 16)} (hzero : (0 : BitVec 16) ∉ path) :
    Client.cStr ((path ++ [0]).map BitVec.toNat) = path.map BitVec.toNat := by
  rw [List.map_append, Client.cStr]
  refine (List.takeWhile_append_of_pos ?_).trans ?_
  · intro u hu
    obtain ⟨v, hv, rfl⟩ := List.mem_map.mp hu
    rw [decide_eq_true_eq]
    intro hnull
    have hv' : v = 0 := BitVec.eq_of_toNat_eq hnull
    rw [hv'] at hv
    exact hzero hv
  · exact List.append_nil _

/-- The path that the client sees is the path of the operation, if there is no 0 in it. -/
theorem fileEventPath_eq {op : FileOperation} (hop : op.WellFormed) (block : Memory)
    (hzero : (0 : BitVec 16) ∉ op.filePath) :
    fileEventPath (FileEvent.read kernelFileEvent (createFileEvent block op) 0) =
      op.filePath.map BitVec.toNat := by
  obtain ⟨-, -, -, -, -, -, -, -, hpath⟩ := createFileEvent_spec hop block
  unfold fileEventPath
  rw [hpath, cStr_terminated hzero]

end CaptureHpc.Driver
