/-
# `Server.Client` — a connected client and its virtual machine

`parseEvent` and `parseVisitEvent` handle the messages of a visit, the retriever
hands a group over with `setVisitingUrlGroup`, and `setClientState` and
`VirtualMachine.setState` call each other: a client that is disconnected sends
its machine to be reverted, and a machine that is to be reverted disconnects
its client.  The second call finds the state already set, so the chain is
short; `setClientStateIn` counts it down, and `setClientState` starts it high
enough (`setClientState_run`).
-/
import CaptureHpc.Server.UrlGroup

namespace CaptureHpc.Server

open Java

/-- An XML element as `ClientEventController` builds it. -/
structure Element where
  name : String
  attributes : List (String × String)
  childElements : List Element := []
  data : String := ""

/-- `attributes.get`. -/
def Element.get (e : Element) (key : String) : Option String := e.attributes.lookup key

/-- The string concatenation of an optional string. -/
abbrev shown := StateChange.shown

/-! ## The virtual machine and the client's state -/

def VirtualMachine.setClient (v : VmRef) (client : Option ClientRef) : Action Unit :=
  updateVm v fun x => { x with client }

/-- `VirtualMachine.setState`.  The notification reaches `VMwareServer`, which only
queues work. -/
def VirtualMachine.setStateIn (setClientState : ClientRef → ClientState → Action Unit) (v : VmRef)
    (newState : VmState) : Action Unit := do
  if (← readVm v).vmState ≠ newState then
    updateVm v fun x => { x with vmState := newState }
    if newState = .waitingToBeReverted then
      match (← readVm v).client with
      | some c =>
          if (← readClient c).clientState ≠ .disconnected then setClientState c .disconnected
      | none => pure ()

namespace Client

/-- `send`, with what the connection does to it; `false` if nothing was sent. -/
def sendIn (setClientState : ClientRef → ClientState → Action Unit) (c : ClientRef) :
    Action Bool := do
  let client ← readClient c
  if client.clientState ≠ .disconnected then
    if client.linkUp && !client.socketClosed then return true
    else
      setClientState c .disconnected
      return false
  else return false

/-- The group part of `disconnect` before the socket is closed. -/
def failVisit (group : Option GroupRef) : Action Unit := do
  match group with
  | some g => UrlGroup.setUrlGroupState g .error
  | none => pure ()

/-- The group part of `disconnect` after it. -/
def failVisitAgain (group : Option GroupRef) : Action Unit := do
  match group with
  | some g =>
      if !(← readGroup g).malicious then UrlGroup.setMalicious g (some "dac") false none
      UrlGroup.setMajorErrorCode g ErrorCode.captureClientConnectionReset.errorCode
      UrlGroup.setUrlGroupState g .error
  | none => pure ()

/-- `disconnect`.  What stands in the `finally` block runs only when nothing was
thrown before the `try`. -/
def disconnectIn (setClientState : ClientRef → ClientState → Action Unit) (c : ClientRef) :
    Action Unit := do
  match (← readClient c).virtualMachine with
  | some v =>
      VirtualMachine.setClient v none
      VirtualMachine.setStateIn setClientState v .waitingToBeReverted
  | none => pure ()
  failVisit (← readClient c).visitingUrlGroup
  updateClient c fun x => { x with socketClosed := true }
  failVisitAgain (← readClient c).visitingUrlGroup
  setClientState c .disconnected

/-- `setClientState`, with the number of calls that may be nested in it. -/
def setClientStateIn : Nat → ClientRef → ClientState → Action Unit
  | 0, _, _ => throw .stackOverflow
  | depth + 1, c, newState => do
      if (← readClient c).clientState ≠ newState then
        updateClient c fun x => { x with clientState := newState }
        match newState with
        | .waiting =>
            let v ← deref (← readClient c).virtualMachine
            VirtualMachine.setStateIn (setClientStateIn depth) v .running
        | .disconnected => disconnectIn (setClientStateIn depth) c
        | .connected =>
            -- three options, then the exclusion lists; the first failure disconnects
            let _ ← sendIn (setClientStateIn depth) c
            let _ ← sendIn (setClientStateIn depth) c
            let _ ← sendIn (setClientStateIn depth) c
        | _ => pure ()

/-- The calls nest no deeper than this. -/
def depth : Nat := 6

def setClientState (c : ClientRef) (newState : ClientState) : Action Unit :=
  setClientStateIn depth c newState

def send (c : ClientRef) : Action Bool := sendIn setClientState c

end Client

def VirtualMachine.setState (v : VmRef) (newState : VmState) : Action Unit :=
  VirtualMachine.setStateIn Client.setClientState v newState

/-! ## The retriever -/

namespace Client

/-- `setVisitingUrlGroup`, first half: the group is stored. -/
def storeVisitingUrlGroup (c : ClientRef) (g : GroupRef) : Action Unit :=
  updateClient c fun x => { x with visitingUrlGroup := some g }

/-- The send, and the line that is printed after it. -/
def sendVisitingUrlGroup (c : ClientRef) : Action Bool := do
  let _ ← deref (← readClient c).visitingUrlGroup
  let success ← send c
  let _ ← deref (← readClient c).virtualMachine
  return success

/-- Second half, for a send that failed. -/
def visitNotSent (c : ClientRef) : Action Unit := do
  let g ← deref (← readClient c).visitingUrlGroup
  UrlGroup.setMajorErrorCode g 0x10000111
  UrlGroup.setUrlGroupState g .error

/-- Second half, for a send that succeeded: the state is assigned past the setter. -/
def awaitVisiting (c : ClientRef) : Action Unit :=
  updateClient c fun x => { x with clientState := .awaitingVisiting }

def setVisitingUrlGroup (c : ClientRef) (g : GroupRef) : Action Unit := do
  storeVisitingUrlGroup c g
  if ← sendVisitingUrlGroup c then awaitVisiting c else visitNotSent c

/-! ## System events -/

/-- The line written to a log for an event. -/
def eventLine (element : Element) : String :=
  "\"" ++ shown (element.get "type") ++ "\",\"" ++ shown (element.get "time") ++
    "\",\"" ++ shown (element.get "process") ++ "\",\"" ++ shown (element.get "action") ++
    "\",\"" ++ shown (element.get "object1") ++ "\",\"" ++ shown (element.get "object2") ++ "\"\n"

/-- The state change of an event; `none` is `ParseException`.  The constructor of a
process change reads the attributes one place on. -/
def stateChangeOf (element : Element) (origin : Nat) : Except JavaException (Option StateChange) :=
  match element.get "type", element.get "time" with
  | some type, some time =>
      if type = "process" then
        .ok ((ProcessStateChange.ofStrings type time (element.get "processId")
          (element.get "process") (element.get "action") (element.get "object1")
          (element.get "object2") (some origin)).map Sum.inr)
      else
        match parseDate time, (element.get "processId").bind parseInt with
        | none, _ => .ok none
        | some _, none => .error .numberFormat
        | some time, some processId =>
            .ok (some (.inl
              { type, time, processId, process := element.get "process"
                action := element.get "action", object1 := element.get "object1"
                object2 := element.get "object2", origin := some origin }))
  | _, _ => .error .nullPointer

/-- The branch of `parseEvent` for a bulk group. -/
def keepStateChange (c : ClientRef) (element : Element) (origin : Nat) : Action Unit := do
  match stateChangeOf element origin with
  | .ok (some sc) =>
      updateClient c fun x =>
        { x with stateChangeHandler := (x.stateChangeHandler.addStateChange sc).1 }
  | .ok none =>
      let _ ← deref (← readClient c).virtualMachine
  | .error e => throw e

/-- The branch for a group that is to be divided. -/
def reportGroup (c : ClientRef) (g : GroupRef) (element : Element) : Action Unit := do
  UrlGroup.setMalicious g (some "dac") true none
  let _ ← deref (← readClient c).virtualMachine
  UrlGroup.writeEventToLog g (eventLine element)
  UrlGroup.setVisitFinishTime g (element.get "time")
  (← readGroup g).urlList.forM fun u => Url.setVisitFinishTime u (element.get "time")
  UrlGroup.setUrlGroupState g .visited
  updateClient c fun x => { x with visitingUrlGroup := none }
  setClientState c .disconnected

/-- The branch for everything else. -/
def reportEvent (c : ClientRef) (g : GroupRef) (algorithm : String) (element : Element) :
    Action Unit := do
  UrlGroup.setMalicious g (some algorithm) true none
  let _ ← deref (← readClient c).virtualMachine
  UrlGroup.writeEventToLog g (eventLine element)

/-- `parseEvent`; `origin` is the number of the message. -/
def parseEvent (c : ClientRef) (element : Element) (origin : Nat) : Action Unit := do
  let client ← readClient c
  if client.clientState = .visiting then
    let algorithm ← deref client.algorithm
    let g ← deref client.visitingUrlGroup
    if algorithm = "bulk" && 1 < (← readGroup g).size then keepStateChange c element origin
    else if algorithm = "dac" && 1 < (← readGroup g).size then reportGroup c g element
    else reportEvent c g algorithm element

/-! ## Visit events -/

def isErrorToRetry (majorErrorCode : String) : Bool :=
  !(majorErrorCode = "268435730" || majorErrorCode = "268435731" ||
    majorErrorCode = "268436224" || majorErrorCode = "268435728")

/-- One item of a start message. -/
def startItem (g : GroupRef) (item : Element) : Action Unit := do
  let url ← UrlGroup.getUrl g (toLowerCase (← deref (item.get "url")))
  Url.setVisitStartTime url (item.get "time")

/-- The error codes of an item, unless its major code is one of `noError`. -/
def storeItemCodes (url : UrlRef) (noError : List String) (item : Element) : Action Unit := do
  let urlMajorErrorCode ← deref (item.get "major-error-code")
  if urlMajorErrorCode ∉ noError then
    Url.setMajorErrorCode url (← Exec.orThrow .numberFormat (parseLong urlMajorErrorCode))
    Url.setMinorErrorCode url
      (← Exec.orThrow .numberFormat ((item.get "minor-error-code").bind parseLong))

/-- One item of a finish or error message: the process id and what it puts into the map. -/
def endItem (c : ClientRef) (g : GroupRef) (noError : List String) (item : Element) :
    Action (Int × String × String) := do
  let url ← UrlGroup.getUrl g (toLowerCase (← deref (item.get "url")))
  let processId ← Exec.orThrow .numberFormat ((item.get "processId").bind parseInt)
  let csv := (← readClient c).stateChangeHandler.getStateChangesCSV processId
  let key := Url.getUrl (← readUrl url)
  Url.setVisitFinishTime url (item.get "time")
  storeItemCodes url noError item
  return (processId, key, csv)

/-- The loop over the items of a finish or error message: the process ids and the map
from URL to state changes, last item first. -/
def endItems (c : ClientRef) (g : GroupRef) (noError : List String) :
    List Element → Action (List Int × StringMap)
  | [] => return ([], [])
  | item :: items => do
      let (processId, url, csv) ← endItem c g noError item
      let (processIds, map) ← endItems c g noError items
      return (processId :: processIds, map ++ [(url, csv)])

/-- The visit is over: the client has no group, and moves on. -/
def leaveGroup (c : ClientRef) (newState : ClientState) : Action Unit := do
  updateClient c fun x => { x with visitingUrlGroup := none }
  setClientState c newState

def parseStart (c : ClientRef) (element : Element) : Action Unit := do
  let client ← readClient c
  let _ ← deref client.virtualMachine
  let g ← deref client.visitingUrlGroup
  UrlGroup.setVisitStartTime g (element.get "time")
  UrlGroup.setAlgorithm g client.algorithm
  element.childElements.forM (startItem g)
  UrlGroup.setUrlGroupState g .visiting
  setClientState c .visiting

/-- The logs of a bulk group that turned out malicious. -/
def flushBulk (g : GroupRef) (algorithm : Option String) (map : StringMap) : Action Unit := do
  if 1 < (← readGroup g).size then
    if (← deref algorithm) = "bulk" then UrlGroup.writeEventsToLog g map

def parseFinish (c : ClientRef) (element : Element) : Action Unit := do
  let client ← readClient c
  let g ← deref client.visitingUrlGroup
  UrlGroup.setVisitFinishTime g (element.get "time")
  let (_, map) ← endItems c g ["0", ""] element.childElements
  let malicious ←
    if (← readGroup g).malicious then pure true
    else do pure ((← deref (element.get "malicious")) == "1")
  let _ ← deref client.virtualMachine
  if malicious then
    flushBulk g client.algorithm map
    UrlGroup.setMalicious g client.algorithm true (some map)
    UrlGroup.setUrlGroupState g .visited
    leaveGroup c .disconnected
  else
    UrlGroup.setMalicious g client.algorithm false (some map)
    UrlGroup.setUrlGroupState g .visited
    leaveGroup c .waiting

/-- The branch of an error message that is retried. -/
def retryError (c : ClientRef) (g : GroupRef) (element : Element) (map : StringMap)
    (major : String) : Action Unit := do
  let client ← readClient c
  if (← readConfig).haltOnRevert then throw (.exit (-20))
  if (← deref (element.get "malicious")) = "1" then
    flushBulk g client.algorithm map
    UrlGroup.setMalicious g client.algorithm true (some map)
  else UrlGroup.setMalicious g client.algorithm false (some map)
  UrlGroup.setMajorErrorCode g (← Exec.orThrow .numberFormat (parseLong major))
  UrlGroup.setUrlGroupState g .error
  leaveGroup c .disconnected

/-- The branch of an error message that stands. -/
def finalError (c : ClientRef) (g : GroupRef) (element : Element) (map : StringMap) :
    Action Unit := do
  let client ← readClient c
  if (← deref (element.get "malicious")) = "1" then
    UrlGroup.writeEventsToLog g map
    UrlGroup.setMalicious g client.algorithm true (some map)
    UrlGroup.setUrlGroupState g .visited
    leaveGroup c .disconnected
  else
    UrlGroup.setMalicious g client.algorithm false (some map)
    UrlGroup.setUrlGroupState g .visited
    leaveGroup c .waiting

def parseError (c : ClientRef) (element : Element) : Action Unit := do
  let client ← readClient c
  let g := client.visitingUrlGroup
  let (_, map) ← match element.childElements with
    | [] => pure ([], [])
    | items => do endItems c (← deref g) [""] items
  let major ← deref (element.get "error-code")
  let _ ← deref client.virtualMachine
  let g ← deref g
  if isErrorToRetry major then retryError c g element map major
  else finalError c g element map

def parseVisitEvent (c : ClientRef) (element : Element) : Action Unit := do
  let type := element.get "type"
  updateClient c fun x => { x with algorithm := element.get "algorithm" }
  let type ← deref type
  if type = "start" then parseStart c element
  else if type = "finish" then parseFinish c element
  else if type = "error" then parseError c element

end Client


/-! ## What changing the state comes to -/

namespace Client

/-- The machine of a client that is lost: it has no client, and is to be reverted. -/
def loseMachine (v : VmRef) : Action Unit :=
  updateVm v fun _ => { client := none, vmState := .waitingToBeReverted }

/-- What `setClientState(DISCONNECTED)` comes to. -/
def drop (c : ClientRef) : Action Unit := do
  if (← readClient c).clientState ≠ .disconnected then
    updateClient c fun x => { x with clientState := .disconnected }
    match (← readClient c).virtualMachine with
    | some v => loseMachine v
    | none => pure ()
    failVisit (← readClient c).visitingUrlGroup
    updateClient c fun x => { x with socketClosed := true }
    failVisitAgain (← readClient c).visitingUrlGroup

theorem run_setStateIn_lost (f : ClientRef → ClientState → Action Unit) (v : VmRef)
    (s : ServerState) :
    (VirtualMachine.setClient v none >>= fun _ =>
      VirtualMachine.setStateIn f v .waitingToBeReverted).run s = (loseMachine v).run s := by
  by_cases h : (s.vm v).vmState = .waitingToBeReverted <;>
    simp [VirtualMachine.setClient, VirtualMachine.setStateIn, loseMachine, ServerState.setVm, h]

theorem run_setClientStateIn_same {depth : Nat} {c : ClientRef} {newState : ClientState}
    {s : ServerState} (h : (s.client c).clientState = newState) :
    (setClientStateIn (depth + 1) c newState).run s = (.ok (), s) := by
  simp [setClientStateIn, h]

instance (group : Option GroupRef) : (failVisit group).Within GroupsOnly := by
  unfold failVisit
  cases group <;> infer_instance

instance (group : Option GroupRef) : (failVisitAgain group).Within GroupsOnly := by
  unfold failVisitAgain
  cases group <;> infer_instance

/-- The call at the end of `disconnect` finds the state set. -/
theorem run_disconnect_tail {depth : Nat} {c : ClientRef} {s : ServerState}
    (h : (s.client c).clientState = .disconnected) :
    (do
      failVisit (← readClient c).visitingUrlGroup
      updateClient c fun x => { x with socketClosed := true }
      failVisitAgain (← readClient c).visitingUrlGroup
      setClientStateIn (depth + 1) c .disconnected : Action Unit).run s =
    (do
      failVisit (← readClient c).visitingUrlGroup
      updateClient c fun x => { x with socketClosed := true }
      failVisitAgain (← readClient c).visitingUrlGroup : Action Unit).run s := by
  simp only [Exec.run_gets_bind]
  rw [Exec.run_bind, Exec.run_bind]
  split
  · next a s₁ he =>
      have hkeep : GroupsOnly s s₁ := Exec.Within.of_run he
      simp only [Exec.run_modify_bind, Exec.run_gets_bind]
      refine Exec.run_bind_idle fun s₂ h₂ => run_setClientStateIn_same ?_
      have hkeep₂ : GroupsOnly _ s₂ := Exec.Within.of_run h₂
      rw [hkeep₂, hkeep]
      simpa [ServerState.setClient] using h
  · next e s₁ he => rfl

theorem setClientStateIn_disconnected (depth : Nat) (c : ClientRef) :
    setClientStateIn (depth + 2) c .disconnected = drop c := by
  ext1
  funext s
  by_cases h : (s.client c).clientState = .disconnected
  · simp [setClientStateIn, drop, h]
  · simp only [setClientStateIn, drop, disconnectIn, Exec.run_gets_bind, h, ne_eq,
      not_false_eq_true, if_true, Exec.run_modify_bind]
    cases hv : (ServerState.setClient c (fun x => { x with clientState := .disconnected }) s).client c
      |>.virtualMachine with
    | none =>
        exact run_disconnect_tail (by simp [ServerState.setClient])
    | some v =>
        simp only
        rw [← bind_assoc, Exec.run_bind, run_setStateIn_lost, Exec.run_bind]
        simp only [loseMachine, Exec.run_modify]
        exact run_disconnect_tail (by simp [ServerState.setClient, ServerState.setVm])

/-- **A disconnected client is dropped.** -/
theorem setClientState_disconnected (c : ClientRef) : setClientState c .disconnected = drop c :=
  setClientStateIn_disconnected 4 c

/-- The server after a client without a group was dropped. -/
def lost (c : ClientRef) (s : ServerState) : ServerState :=
  let s := match (s.client c).virtualMachine with
    | some v => s.setVm v fun _ => { client := none, vmState := .waitingToBeReverted }
    | none => s
  s.setClient c fun x => { x with clientState := .disconnected, socketClosed := true }

/-- Only clients and machines are not as before. -/
theorem lost_rest (c : ClientRef) (s : ServerState) :
    ∃ client vm, lost c s = { s with client, vm } := by
  rw [lost]
  cases (s.client c).virtualMachine with
  | none => exact ⟨_, _, rfl⟩
  | some v => exact ⟨_, _, rfl⟩

/-- A client without a group takes none with it. -/
theorem run_drop_idle {c : ClientRef} {s : ServerState}
    (hg : (s.client c).visitingUrlGroup = none) (hs : (s.client c).clientState ≠ .disconnected) :
    (drop c).run s = (.ok (), lost c s) := by
  cases hv : (s.client c).virtualMachine <;>
    simp [drop, lost, loseMachine, failVisit, failVisitAgain, hg, hs, hv, ServerState.setClient,
      ServerState.setVm]

theorem run_setClientState_visiting (c : ClientRef) (s : ServerState) :
    (setClientState c .visiting).run s =
      (.ok (), s.setClient c fun x => { x with clientState := .visiting }) := by
  by_cases h : (s.client c).clientState = .visiting
  · rw [setClientState, depth, run_setClientStateIn_same h]
    have hsame : { s.client c with clientState := .visiting } = s.client c := by rw [← h]
    rw [ServerState.setClient, hsame, Function.update_eq_self]
  · simp [setClientState, depth, setClientStateIn, h]

theorem run_setClientState_waiting {c : ClientRef} {v : VmRef} {s : ServerState}
    (hv : (s.client c).virtualMachine = some v) (h : (s.client c).clientState ≠ .waiting) :
    (setClientState c .waiting).run s =
      (.ok (), (s.setClient c fun x => { x with clientState := .waiting }).setVm v
        fun x => { x with vmState := .running }) := by
  have hvm : (s.setClient c fun x => { x with clientState := .waiting }).vm = s.vm := rfl
  by_cases hr : (s.vm v).vmState = .running
  · have hsame : { s.vm v with vmState := .running } = s.vm v := by rw [← hr]
    simp [setClientState, depth, setClientStateIn, h, hv, hr, VirtualMachine.setStateIn,
      ServerState.setVm, ServerState.setClient, hsame]
  · simp [setClientState, depth, setClientStateIn, h, hv, hr, VirtualMachine.setStateIn,
      ServerState.setVm, ServerState.setClient]

end Client

/-- A machine that is to be reverted drops its client. -/
theorem VirtualMachine.setState_waitingToBeReverted (v : VmRef) :
    VirtualMachine.setState v .waitingToBeReverted = (do
      if (← readVm v).vmState ≠ .waitingToBeReverted then
        updateVm v fun x => { x with vmState := .waitingToBeReverted }
        match (← readVm v).client with
        | some c => if (← readClient c).clientState ≠ .disconnected then Client.drop c
        | none => pure ()) := by
  unfold VirtualMachine.setState VirtualMachine.setStateIn
  simp only [Client.setClientState_disconnected, if_true]

end CaptureHpc.Server
