/-
# `Server.Url` — what the methods of `Url` do

`setUrlState` is the observable part: it logs the transition, closes the event
log of the URL, tells the database, and notifies `UrlsController`.  It may
throw on the way: a URL that enters VISITING needs its start time, one that
enters VISITED needs both times for the statistics, and with a database every
transition that is stored needs the start time.
-/
import CaptureHpc.Java.UrlCodec
import CaptureHpc.Server.State

namespace CaptureHpc.Server

open Java

/-- The fields of a string between `","`, as `split` returns them: without the
empty ones at the end. -/
def splitFields : List Char → List Char → List (List Char)
  | [], field => [field]
  | '"' :: ',' :: '"' :: rest, field => field :: splitFields rest []
  | c :: rest, field => splitFields rest (field ++ [c])

/-- `event.split("\",\"")[1]`. -/
def secondField (event : String) : Option String :=
  let fields := (splitFields event.toList []).reverse.dropWhile List.isEmpty
  fields.reverse[1]?.map String.ofList

namespace Url

def setVisitStartTime (u : UrlRef) (time : Option String) : Action Unit :=
  storeTime (fun date => updateVisit u fun x => { x with visitStartTime := some date }) time

def setVisitFinishTime (u : UrlRef) (time : Option String) : Action Unit :=
  storeTime (fun date => updateVisit u fun x => { x with visitFinishTime := some date }) time

/-- `getVisitStartTime`: a null date cannot be formatted. -/
def getVisitStartTime (u : UrlRef) : Action String := do
  return formatDate (← deref (← readVisit u).visitStartTime)

def setMalicious (u : UrlRef) (malicious : Bool) : Action Unit :=
  updateVisit u fun x => { x with malicious := some malicious }

def setMajorErrorCode (u : UrlRef) (majorErrorCode : Int) : Action Unit :=
  updateVisit u fun x => { x with majorErrorCode := ErrorCode.ofNumber majorErrorCode }

def setMinorErrorCode (u : UrlRef) (minorErrorCode : Int) : Action Unit :=
  updateVisit u fun x => { x with minorErrorCode }

def getUrl (x : Url) : String := toLowerCase x.url

def getEscapedUrl (x : Url) : String := toLowerCase (urlEncode x.url)

/-! ## The event log -/

/-- The log file, opened if it is not yet; `false` is an `IOException`. -/
def openLog (u : UrlRef) : Action Bool := do
  if (← readVisit u).logFile.isNone then
    let _ ← deref (← readVisit u).visitStartTime
    if (← readConfig).canOpenLog then
      updateVisit u fun x => { x with logFile := some [] }
      return true
    else return false
  else return true

/-- The time of the first event, if it is not known yet; `false` is a `ParseException`. -/
def noteFirstStateChange (u : UrlRef) (event : String) : Action Bool := do
  if (← readVisit u).firstStateChange.isNone then
    let text ← Exec.orThrow .arrayIndexOutOfBounds (secondField event)
    match parseDate text with
    | some date =>
        updateVisit u fun x => { x with firstStateChange := some date }
        return true
    | none => return false
  else return true

/-- The write itself and the record in the database.  A write to the closed file
fails, and then nothing is stored. -/
def appendToLog (u : UrlRef) (event : String) : Action Unit := do
  if !(← readVisit u).logClosed then
    updateVisit u fun x => { x with logFile := x.logFile.map (· ++ [event]) }
    if (← readConfig).database then
      callDatabase (.storeEvent (← readUrl u).id event)

/-- `writeEventToLog`.  The URL becomes malicious before the line is written. -/
def writeEventToLog (u : UrlRef) (event : String) : Action Unit := do
  if ← openLog u then
    if ← noteFirstStateChange u event then
      setMalicious u true
      appendToLog u event

def closeEventLog (u : UrlRef) : Action Unit :=
  updateVisit u fun x => { x with logClosed := x.logClosed || x.logFile.isSome }

/-! ## State transitions -/

/-- The branch of `setUrlState` for VISITING. -/
def enterVisiting (u : UrlRef) : Action (Option String) := do
  let _ ← getVisitStartTime u
  writeLog (.visiting u)
  return none

/-- The branch for VISITED. -/
def enterVisited (u : UrlRef) : Action (Option String) := do
  writeLog (.visited u)
  -- Stats.addUrlVisitingTime
  let _ ← deref (← readVisit u).visitFinishTime
  let _ ← deref (← readVisit u).visitStartTime
  match (← readVisit u).malicious with
  | some true =>
      writeLog (.malicious u)
      closeEventLog u
      return some "malicious"
  | some false =>
      writeLog (.safe u)
      closeEventLog u
      return some "benign"
  | none =>
      closeEventLog u
      return none

/-- The error goes to the database. -/
def storeError (u : UrlRef) (x : UrlVisit) : Action Unit := do
  if (← readConfig).database then
    callDatabase (.storeErrorUrl (← readUrl u).id x.majorErrorCode x.minorErrorCode)

/-- The branch for ERROR. -/
def enterError (u : UrlRef) : Action (Option String) := do
  let x ← readVisit u
  match x.malicious with
  | some malicious =>
      if malicious then writeLog (.malicious u)
      writeLog (.progressError u x.majorErrorCode x.minorErrorCode)
      storeError u x
      closeEventLog u
      return some (if malicious then "malicious" else "error")
  | none =>
      closeEventLog u
      return some "error"

/-- The status goes to the database, with the start time. -/
def storeStatus (u : UrlRef) (status : Option String) : Action Unit := do
  if (← readConfig).database then
    match status with
    | some status => callDatabase (.setStatus (← readUrl u).id status (← getVisitStartTime u))
    | none => pure ()

end Url

/-- `UrlsController.update`: the error log, once for each URL. -/
def UrlsController.update (u : UrlRef) : Action Unit := do
  let x ← readVisit u
  if x.urlState = .error then
    if !(← Exec.gets fun s => s.store.errorUrlList.contains u) then
      writeLog (.error u x.majorErrorCode x.minorErrorCode)
      Exec.modify fun s =>
        { s with store := { s.store with errorUrlList := s.store.errorUrlList ++ [u] } }

namespace Url

def setUrlState (u : UrlRef) (newState : UrlState) : Action Unit := do
  if (← readVisit u).urlState ≠ newState then
    updateVisit u fun x => { x with urlState := newState }
    let status ← match newState with
      | .visiting => enterVisiting u
      | .visited => enterVisited u
      | .error => enterError u
      | _ => pure none
    storeStatus u status
    UrlsController.update u

/-! ## Frames -/

instance (u : UrlRef) (f : UrlVisit → UrlVisit) :
    (Exec.modify (ServerState.setVisit u f) : Action Unit).Within StoreOnly := ⟨fun _ => rfl⟩

instance (line : LogLine) :
    (Exec.modify (ServerState.writeLog line) : Action Unit).Within StoreOnly := ⟨fun _ => rfl⟩

instance (call : DatabaseCall) :
    (Exec.modify (ServerState.callDatabase call) : Action Unit).Within StoreOnly := ⟨fun _ => rfl⟩

instance (u : UrlRef) (time : Option String) : (setVisitStartTime u time).Within StoreOnly := by
  unfold setVisitStartTime
  infer_instance

instance (u : UrlRef) (time : Option String) : (setVisitFinishTime u time).Within StoreOnly := by
  unfold setVisitFinishTime
  infer_instance

instance (u : UrlRef) : (openLog u).Within StoreOnly := by
  unfold openLog
  infer_instance

instance (u : UrlRef) (event : String) : (noteFirstStateChange u event).Within StoreOnly := by
  unfold noteFirstStateChange
  have h : ∀ text, (match parseDate text with
      | some date => do
        updateVisit u fun x => { x with firstStateChange := some date }
        return true
      | none => return false : Action Bool).Within StoreOnly := by
    intro text
    cases parseDate text <;> infer_instance
  infer_instance

instance (u : UrlRef) (malicious : Bool) : (setMalicious u malicious).Within StoreOnly := by
  unfold setMalicious
  infer_instance

instance (u : UrlRef) (n : Int) : (setMajorErrorCode u n).Within StoreOnly := by
  unfold setMajorErrorCode
  infer_instance

instance (u : UrlRef) (n : Int) : (setMinorErrorCode u n).Within StoreOnly := by
  unfold setMinorErrorCode
  infer_instance

instance (u : UrlRef) (event : String) : (appendToLog u event).Within StoreOnly := by
  unfold appendToLog
  infer_instance

instance (u : UrlRef) (event : String) : (writeEventToLog u event).Within StoreOnly := by
  unfold writeEventToLog
  infer_instance

instance (u : UrlRef) : (getVisitStartTime u).Within StoreOnly := by
  unfold getVisitStartTime
  infer_instance

instance (u : UrlRef) : (closeEventLog u).Within StoreOnly := by
  unfold closeEventLog
  infer_instance

/-! What respects the log and the database respects the branches of `setUrlState`. -/

section Branches
variable {R : ServerState → ServerState → Prop} [Std.Refl R] [IsTrans ServerState R] (u : UrlRef)

instance [(writeLog (.visiting u)).Within R] : (enterVisiting u).Within R := by
  unfold enterVisiting getVisitStartTime
  infer_instance

instance [(writeLog (.visited u)).Within R] [(writeLog (.malicious u)).Within R]
    [(writeLog (.safe u)).Within R] [(closeEventLog u).Within R] : (enterVisited u).Within R := by
  unfold enterVisited
  refine Exec.Within.bind inferInstance fun _ => ?_
  refine Exec.Within.bind inferInstance fun _ => ?_
  refine Exec.Within.bind inferInstance fun _ => ?_
  refine Exec.Within.bind inferInstance fun _ => ?_
  refine Exec.Within.bind inferInstance fun _ => ?_
  refine Exec.Within.bind inferInstance fun x => ?_
  cases x.malicious with
  | none => infer_instance
  | some b => cases b <;> infer_instance

instance [∀ call, (callDatabase call).Within R] (x : UrlVisit) : (storeError u x).Within R := by
  unfold storeError
  infer_instance

instance [∀ line, (writeLog line).Within R] [∀ x, (storeError u x).Within R]
    [(closeEventLog u).Within R] : (enterError u).Within R := by
  unfold enterError
  refine Exec.Within.bind inferInstance fun x => ?_
  cases x.malicious <;> infer_instance

instance [∀ call, (callDatabase call).Within R] (status : Option String) :
    (storeStatus u status).Within R := by
  unfold storeStatus getVisitStartTime
  cases status <;> infer_instance

end Branches

instance (u : UrlRef) : (UrlsController.update u).Within StoreOnly := by
  have h : (Exec.modify fun s : ServerState => { s with store :=
      { s.store with errorUrlList := s.store.errorUrlList ++ [u] } } : Action Unit).Within StoreOnly :=
    ⟨fun _ => rfl⟩
  unfold UrlsController.update
  infer_instance

instance (u : UrlRef) (newState : UrlState) : (setUrlState u newState).Within StoreOnly := by
  unfold setUrlState
  cases newState <;> infer_instance

end Url

end CaptureHpc.Server
