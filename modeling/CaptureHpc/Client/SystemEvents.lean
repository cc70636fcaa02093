/-
# `Client.SystemEvents` — what a monitor has seen, filed by the server

The analyzer sends a message for each event that a monitor signals.  Every value
is a text: the time field by field, a process id as a number without a sign.
The server reads the time and the ids out of the texts again, and in a bulk
visit of several URLs it files a state change for each message.

Each side has its own range of process ids.  One that is no `int` is -1 for the
server in a process event, and in any other event ends the handling of the
message.
-/
import CaptureHpc.Client.GroupDelivery
import CaptureHpc.Client.XmlMessages
import CaptureHpc.Java.Dates
import CaptureHpc.Server.Verdict

namespace CaptureHpc

open Java Xml

namespace Client

/-! ## What the analyzer sends -/

/-- `TIME_FIELDS`, without the day of the week. -/
structure TimeFields where
  wYear : BitVec 16
  wMonth : BitVec 16
  wDay : BitVec 16
  wHour : BitVec 16
  wMinute : BitVec 16
  wSecond : BitVec 16
  wMilliseconds : BitVec 16

/-- `boost::lexical_cast` of a number without a sign. -/
def lexicalCast {w : Nat} (n : BitVec w) : WString := wide (showInt n.toNat).toList

/-- `Time::timefieldToString`, and `systemtimeToString` as well. -/
def timefieldToString (time : TimeFields) : WString :=
  lexicalCast time.wDay ++ wideLiteral "/" ++ lexicalCast time.wMonth ++ wideLiteral "/" ++
    lexicalCast time.wYear ++ wideLiteral " " ++ lexicalCast time.wHour ++ wideLiteral ":" ++
    lexicalCast time.wMinute ++ wideLiteral ":" ++ lexicalCast time.wSecond ++ wideLiteral "." ++
    lexicalCast time.wMilliseconds

namespace Analyzer

/-- `sendSystemEvent`. -/
def sendSystemEvent (type time : WString) (processId : BitVec 32)
    (process action object1 object2 : WString) : XmlMessage where
  elementName := "system-event"
  vAttributes := [("time", time), ("type", type), ("processId", lexicalCast processId),
    ("process", process), ("action", action), ("object1", object1), ("object2", object2)]

def onProcessEvent (created : Bool) (time : WString) (parentProcessId : BitVec 32)
    (parentProcess : WString) (processId : BitVec 32) (process : WString) : XmlMessage :=
  let processType := if created then wideLiteral "created" else wideLiteral "terminated"
  sendSystemEvent (wideLiteral "process") time parentProcessId parentProcess processType
    (lexicalCast processId) process

/-- The slots for the other monitors, which differ in the type. -/
def onObjectEvent (type : String) (eventType time : WString) (processId : BitVec 32)
    (processPath eventPath : WString) : XmlMessage :=
  sendSystemEvent (wideLiteral type) time processId processPath eventType eventPath
    (wideLiteral "-1")

def onRegistryEvent := onObjectEvent "registry"

def onFileEvent := onObjectEvent "file"

def onConnectionEvent := onObjectEvent "connection"

end Analyzer

/-! ## What was seen -/

/-- The monitors of what a process does to objects. -/
inductive ObjectMonitor
  | registry
  | file
  | connection

namespace ObjectMonitor

def type : ObjectMonitor → String
  | registry => "registry"
  | file => "file"
  | connection => "connection"

/-- The slot of the analyzer that is connected. -/
def slot : ObjectMonitor → WString → WString → BitVec 32 → WString → WString → XmlMessage
  | registry => Analyzer.onRegistryEvent
  | file => Analyzer.onFileEvent
  | connection => Analyzer.onConnectionEvent

end ObjectMonitor

/-- An event that a monitor signals. -/
inductive SystemEvent
  | process (created : Bool) (time : TimeFields) (parentProcessId : BitVec 32)
      (parentProcess : String) (processId : BitVec 32) (path : String)
  | object (monitor : ObjectMonitor) (eventType : String) (time : TimeFields)
      (processId : BitVec 32) (processPath eventPath : String)

/-- The time as a text. -/
def TimeFields.text (t : TimeFields) : String :=
  String.ofList (dateText t.wYear.toNat t.wMonth.toNat t.wDay.toNat t.wHour.toNat t.wMinute.toNat
    t.wSecond.toNat t.wMilliseconds.toNat)

/-- The time as a date. -/
def TimeFields.date (t : TimeFields) : Date :=
  dateOf t.wYear.toNat t.wMonth.toNat t.wDay.toNat t.wHour.toNat t.wMinute.toNat t.wSecond.toNat
    t.wMilliseconds.toNat

/-- What the server takes for the id of a process in a process event. -/
def idOrNone (processId : BitVec 32) : Int :=
  if processId.toNat < 2 ^ 31 then processId.toNat else -1

namespace SystemEvent

/-- What is sent. -/
def message : SystemEvent → XmlMessage
  | process created time parentProcessId parentProcess processId path =>
      Analyzer.onProcessEvent created (timefieldToString time) parentProcessId
        (wide parentProcess.toList) processId (wide path.toList)
  | object monitor eventType time processId processPath eventPath =>
      monitor.slot (wide eventType.toList) (timefieldToString time) processId
        (wide processPath.toList) (wide eventPath.toList)

/-- **What is to be filed** when this is the message with that number. -/
def change (origin : Nat) : SystemEvent → Server.StateChange
  | process created time parentProcessId parentProcess processId path => .inr
      { type := "process", time := time.date
        parentProcessId := idOrNone parentProcessId, parentProcess := some parentProcess
        action := some (if created then "created" else "terminated")
        processId := idOrNone processId, process := some path, origin := some origin }
  | object monitor eventType time processId processPath eventPath => .inl
      { type := monitor.type, time := time.date
        processId := processId.toNat, process := some processPath, action := some eventType
        object1 := some eventPath, object2 := some "-1", origin := some origin }

/-- The texts that are not the client's own arrive. -/
def TextsArrive : SystemEvent → Prop
  | process _ _ _ parentProcess _ path => Arriving parentProcess.toList ∧ Arriving path.toList
  | object _ eventType _ _ processPath eventPath =>
      Arriving eventType.toList ∧ Arriving processPath.toList ∧ Arriving eventPath.toList

/-- **The condition**: where the server needs the process id, it is an `int`. -/
def Readable : SystemEvent → Prop
  | process .. => True
  | object _ _ _ processId _ _ => processId.toNat < 2 ^ 31

instance : DecidablePred Readable := fun e =>
  match e with
  | process .. => inferInstanceAs (Decidable True)
  | object _ _ _ processId _ _ => inferInstanceAs (Decidable (processId.toNat < 2 ^ 31))

/-- The attributes as strings of the server. -/
def attributes : SystemEvent → List (String × String)
  | process created time parentProcessId parentProcess processId path =>
      [("time", time.text), ("type", "process"), ("processId", showInt parentProcessId.toNat),
        ("process", parentProcess), ("action", if created then "created" else "terminated"),
        ("object1", showInt processId.toNat), ("object2", path)]
  | object monitor eventType time processId processPath eventPath =>
      [("time", time.text), ("type", monitor.type), ("processId", showInt processId.toNat),
        ("process", processPath), ("action", eventType), ("object1", eventPath), ("object2", "-1")]

/-- The element that the server makes of it. -/
def element (e : SystemEvent) : Server.Element := (handed ("system-event", e.attributes)).2

end SystemEvent

/-! ## The messages -/

theorem timefieldToString_eq (t : TimeFields) : timefieldToString t = wide t.text.toList := by
  rw [timefieldToString, TimeFields.text, String.toList_ofList, dateText,
    wideLiteral_eq (by decide), wideLiteral_eq (by decide), wideLiteral_eq (by decide),
    wideLiteral_eq (by decide)]
  simp only [lexicalCast, toList_showInt_natCast, ← wide_append]
  simp

theorem SystemEvent.message_eq (e : SystemEvent) :
    e.message = XmlMessage.ofStrings ("system-event", e.attributes) := by
  cases e with
  | process created time parentProcessId parentProcess processId path =>
      have haction : (if created then wideLiteral "created" else wideLiteral "terminated") =
          wide (if created then "created" else "terminated").toList := by
        cases created with
        | true => exact wideLiteral_eq (by decide)
        | false => exact wideLiteral_eq (by decide)
      rw [message, Analyzer.onProcessEvent, haction, timefieldToString_eq,
        wideLiteral_eq (by decide)]
      rfl
  | object monitor eventType time processId processPath eventPath =>
      have hslot : monitor.slot = Analyzer.onObjectEvent monitor.type := by
        cases monitor with
        | registry => rfl
        | file => rfl
        | connection => rfl
      have htype : wideLiteral monitor.type = wide monitor.type.toList := by
        cases monitor with
        | registry => exact wideLiteral_eq (by decide)
        | file => exact wideLiteral_eq (by decide)
        | connection => exact wideLiteral_eq (by decide)
      rw [message, hslot, Analyzer.onObjectEvent, htype, timefieldToString_eq,
        wideLiteral_eq (by decide)]
      rfl

/-- The names are in the source. -/
theorem SystemEvent.wellNamed (e : SystemEvent) :
    (XmlMessage.ofStrings ("system-event", e.attributes)).WellNamed := by
  have hnames : e.attributes.map Prod.fst =
      ["time", "type", "processId", "process", "action", "object1", "object2"] := by
    cases e with
    | process => rfl
    | object => rfl
  have hkept : (XmlMessage.ofStrings ("system-event", e.attributes)).vAttributes.map Prod.fst =
      e.attributes.map Prod.fst := by
    rw [XmlMessage.ofStrings, List.map_map]
    rfl
  have hattributes : ∀ n ∈ ["time", "type", "processId", "process", "action", "object1", "object2"],
      Element.IsAttributeName n := by
    simp only [List.forall_mem_cons, Element.IsAttributeName]
    exact ⟨by decide, by decide, by decide, by decide, by decide, by decide, by decide,
      fun n hn => absurd hn List.not_mem_nil⟩
  refine ⟨(by decide : isName "system-event".toList), fun a ha => hattributes a.1 ?_, ?_⟩
  · rw [← hnames, ← hkept]
    exact List.mem_map_of_mem ha
  · rw [hkept, hnames]
    decide

theorem arriving_of_plain {cs : List Char} (h : cs.all isPlain) : Arriving cs := by
  have hplain : ∀ c ∈ cs, isChar c ∧ (isSpace c → c = ' ') ∧ endsValue c = false := fun c hc =>
    isPlain_iff.mp (List.all_eq_true.mp h c hc)
  refine ⟨fun c hc => ⟨(hplain c hc).1, (hplain c hc).2.1⟩, fun l c r hcs hends => ?_⟩
  rw [(hplain c (by simp [hcs])).2.2] at hends
  cases hends

theorem arriving_showInt (n : Int) : Arriving (showInt n).toList :=
  arriving_of_plain (unescaped_showInt n).1

theorem arriving_text (t : TimeFields) : Arriving t.text.toList := by
  have hprinted (n : Nat) : (printed n).all isPlain = true := by
    rw [← toList_showInt_natCast]
    exact (unescaped_showInt n).1
  refine arriving_of_plain ?_
  simp only [TimeFields.text, String.toList_ofList, dateText, List.all_append, List.all_cons,
    hprinted]
  decide

/-- The client's own texts need no escape. -/
theorem SystemEvent.TextsArrive.arriving {e : SystemEvent} (h : e.TextsArrive) :
    ∀ a ∈ e.attributes, Arriving a.2.toList := by
  cases e with
  | process created time parentProcessId parentProcess processId path =>
      have haction : Arriving (if created then "created" else "terminated").toList := by
        cases created with
        | true => exact arriving_of_plain (by decide)
        | false => exact arriving_of_plain (by decide)
      simp only [SystemEvent.attributes, List.forall_mem_cons]
      exact ⟨arriving_text time, arriving_of_plain (by decide), arriving_showInt _, h.1, haction,
        arriving_showInt _, h.2, fun a ha => absurd ha List.not_mem_nil⟩
  | object monitor eventType time processId processPath eventPath =>
      have htype : Arriving monitor.type.toList := by
        cases monitor with
        | registry => exact arriving_of_plain (by decide)
        | file => exact arriving_of_plain (by decide)
        | connection => exact arriving_of_plain (by decide)
      simp only [SystemEvent.attributes, List.forall_mem_cons]
      exact ⟨arriving_text time, htype, arriving_showInt _, h.2.1, h.1, h.2.2,
        arriving_of_plain (by decide), fun a ha => absurd ha List.not_mem_nil⟩

/-! ## The state changes -/

section Filed
open Server

theorem parseDate_text (t : TimeFields) : parseDate t.text = some t.date := parseDate_dateText ..

theorem getD_parseInt (processId : BitVec 32) :
    ((some (showInt processId.toNat)).bind parseInt).getD (-1) = idOrNone processId := by
  rw [Option.bind_some, parseInt_showInt_natCast, idOrNone]
  split
  · rfl
  · rfl

-- what the client has for a parent process that is gone
example : idOrNone (-1) = -1 := by decide

/-- **The server reads** what was seen, or finds that the id is no number. -/
theorem stateChangeOf_element (e : SystemEvent) (origin : Nat) :
    Server.Client.stateChangeOf e.element origin =
      if e.Readable then .ok (some (e.change origin)) else .error .numberFormat := by
  cases e with
  | process created time parentProcessId parentProcess processId path =>
      have hread : Server.Client.stateChangeOf (SystemEvent.process created time parentProcessId
          parentProcess processId path).element origin =
        .ok ((ProcessStateChange.ofStrings "process" time.text
          (some (showInt parentProcessId.toNat)) (some parentProcess)
          (some (if created then "created" else "terminated")) (some (showInt processId.toNat))
          (some path) (some origin)).map Sum.inr) := rfl
      have hreadable : (SystemEvent.process created time parentProcessId parentProcess processId
        path).Readable := trivial
      rw [hread, if_pos hreadable, ProcessStateChange.ofStrings, parseDate_text, getD_parseInt,
        getD_parseInt]
      rfl
  | object monitor eventType time processId processPath eventPath =>
      have hother : monitor.type ≠ "process" := by
        cases monitor with
        | registry => decide
        | file => decide
        | connection => decide
      have htype : (SystemEvent.object monitor eventType time processId processPath
        eventPath).element.get "type" = some monitor.type := rfl
      have htime : (SystemEvent.object monitor eventType time processId processPath
        eventPath).element.get "time" = some time.text := rfl
      have hid : (SystemEvent.object monitor eventType time processId processPath
        eventPath).element.get "processId" = some (showInt processId.toNat) := rfl
      have hreadable : (SystemEvent.object monitor eventType time processId processPath
        eventPath).Readable ↔ processId.toNat < 2 ^ 31 := Iff.rfl
      simp only [Server.Client.stateChangeOf, htype, htime, hid, if_neg hother, parseDate_text,
        Option.bind_some, parseInt_showInt_natCast]
      by_cases hint : processId.toNat < 2 ^ 31
      · simp only [if_pos hint, if_pos (hreadable.mpr hint)]
        rfl
      · simp only [if_neg hint, if_neg (mt hreadable.mp hint)]

variable {c : ClientRef} {g : GroupRef} {s : ServerState}

/-- In a bulk visit of several URLs the change is kept. -/
theorem run_parseEvent_bulk (hv : Visiting c g "bulk" s) (hmany : 1 < (s.group g).size)
    (element : Server.Element) (origin : Nat) :
    (Server.Client.parseEvent c element origin).run s =
      (Server.Client.keepStateChange c element origin).run s := by
  simp only [Server.Client.parseEvent, Exec.run_gets_bind, hv.clientState, if_true, hv.algorithm,
    Exec.orThrow_some, Exec.pure_bind, hv.visitingUrlGroup, hmany, decide_true, Bool.and_true]

theorem run_parseEvent_element (hv : Visiting c g "bulk" s) (hmany : 1 < (s.group g).size)
    (e : SystemEvent) (origin : Nat) :
    (Server.Client.parseEvent c e.element origin).run s =
      if e.Readable then (.ok (), s.setClient c (file [e.change origin]))
      else (.error .numberFormat, s) := by
  rw [run_parseEvent_bulk hv hmany, Server.Client.keepStateChange, stateChangeOf_element]
  by_cases hreadable : e.Readable
  · rw [if_pos hreadable, if_pos hreadable]
    rfl
  · rw [if_neg hreadable, if_neg hreadable]
    rfl

/-- **Event after event** is filed, up to one with an id that is no number. -/
theorem run_elements : ∀ {events : List (SystemEvent × Nat)} {s : ServerState},
    Visiting c g "bulk" s → 1 < (s.group g).size →
    (((events.map fun e => (e.1.element, e.2)).forM fun d =>
      Server.Client.parseEvent c d.1 d.2).run s =
        (.ok (), s.setClient c (file (events.map fun e => e.1.change e.2))) ↔
      ∀ e ∈ events, e.1.Readable)
  | [], s, _, _ => by
      refine iff_of_true ?_ fun e he => absurd he List.not_mem_nil
      rw [List.map_nil, List.map_nil, setClient_file_nil]
      rfl
  | e :: events, s, hv, hmany => by
      have hstep := run_parseEvent_element hv hmany e.1 e.2
      rw [List.map_cons, List.map_cons, List.forM_eq_forM, List.forM_cons, List.forall_mem_cons]
      by_cases hreadable : e.1.Readable
      · rw [if_pos hreadable] at hstep
        have hnext := @run_elements events (s.setClient c (file [e.1.change e.2]))
          (hv.filed (Std.Refl.refl _)) hmany
        rw [setClient_file_append] at hnext
        rw [Exec.run_bind_ok hstep, and_iff_right hreadable]
        exact hnext
      · rw [if_neg hreadable] at hstep
        rw [Exec.run_bind_error hstep]
        refine iff_of_false (fun h => ?_) fun h => hreadable h.1
        cases congrArg Prod.fst h

variable {other : List Char → Option (Content × List Char)} {deliver : Content → Content}

/-- **All that was seen is filed**, in its order, just if the server can read the ids. -/
theorem observed_filed (hdeliver : ∀ d : Content, d.Split (deliver d))
    {events : List (SystemEvent × Nat)} (harrive : ∀ e ∈ events, e.1.TextsArrive)
    (hv : Visiting c g "bulk" s) (hmany : 1 < (s.group g).size) :
    ∃ text, XmlMessage.stream (events.map fun e => e.1.message) = some text ∧
      (((((ClientEventController.run other deliver (readLines (characters text))).map Prod.snd).zip
          (events.map Prod.snd)).forM fun d => Server.Client.parseEvent c d.1 d.2).run s =
            (.ok (), s.setClient c (file (events.map fun e => e.1.change e.2))) ↔
        ∀ e ∈ events, e.1.Readable) := by
  have hmessages : (events.map fun e => e.1.message) =
      (events.map fun e => ("system-event", e.1.attributes)).map XmlMessage.ofStrings := by
    rw [List.map_map]
    exact List.map_congr_left fun e _ => e.1.message_eq
  refine ⟨_, by rw [hmessages, stream_ofStrings], ?_⟩
  have hrun := (@run_eq_iff other deliver hdeliver
    (events.map fun e => ("system-event", e.1.attributes)) (List.forall_mem_map.mpr fun e _ =>
      e.1.wellNamed)).mpr (List.forall_mem_map.mpr fun e he => (harrive e he).arriving)
  have helements :
      ((events.map fun e => ("system-event", e.1.attributes)).map handed).map Prod.snd =
        events.map fun e => e.1.element := by
    rw [List.map_map, List.map_map]
    rfl
  rw [characters_wide, hrun, helements, List.zip_map']
  exact run_elements hv hmany

/-- A process is created, and writes a file. -/
def startAndWrite : List (SystemEvent × Nat) :=
  let time : TimeFields :=
    { wYear := 2008, wMonth := 4, wDay := 24
      wHour := 16, wMinute := 7, wSecond := 0, wMilliseconds := 140 }
  [(.process true time 231 "C:\\iexplore.exe" 1340 "C:\\A&B\\it's.exe", 1),
    (.object .file "Write" time 1340 "C:\\A&B\\it's.exe" "C:\\b.dll", 2)]

theorem observed_filed_startAndWrite :
    let s := (atVisit [0, 1]).setClient 0 (begun (some "bulk"))
    ∃ text, XmlMessage.stream (startAndWrite.map fun e => e.1.message) = some text ∧
      ((((ClientEventController.run (fun _ => none) id (readLines (characters text))).map
        Prod.snd).zip (startAndWrite.map Prod.snd)).forM fun d =>
          Server.Client.parseEvent 0 d.1 d.2).run s =
            (.ok (), s.setClient 0 (file (startAndWrite.map fun e => e.1.change e.2))) := by
  intro s
  have harrive : ∀ e ∈ startAndWrite, e.1.TextsArrive := by
    simp only [startAndWrite, List.forall_mem_cons, SystemEvent.TextsArrive]
    exact ⟨⟨by decide, by decide⟩, ⟨by decide, by decide, by decide⟩,
      fun e he => absurd he List.not_mem_nil⟩
  obtain ⟨text, htext, hiff⟩ := @observed_filed 0 0 s (fun _ => none) id Content.Split.refl
    startAndWrite harrive ⟨rfl, rfl, rfl⟩ (by decide)
  refine ⟨text, htext, hiff.mpr ?_⟩
  simp only [startAndWrite, List.forall_mem_cons, SystemEvent.Readable]
  exact ⟨trivial, by decide, fun e he => absurd he List.not_mem_nil⟩

end Filed

end Client

end CaptureHpc
