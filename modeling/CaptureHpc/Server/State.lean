/-
# `Server.State` — the objects of the server and the code that changes them

The server is one Java program.  Its methods change objects on the heap and
throw; what they did before the exception stays done.  So a method is an
`Action`: `Exec` over the heap, the queues and the logs.

Objects are referred to by number.  `UrlStore` holds all that the methods of
`Url` write, and the rest of the server is beside it: a method of `Url` runs
`Within StoreOnly`.

Not modelled: the identifiers and dates printed in log lines, the counters of
`Stats`, contact times (a timeout is an input of the state checker), lists
that are only ever written.
-/
import Mathlib.Logic.Function.Basic
import CaptureHpc.Lib.Exec
import CaptureHpc.Server.StateChangeHandler

namespace CaptureHpc.Server

open Java

abbrev UrlRef := Nat
abbrev GroupRef := Nat
abbrev ClientRef := Nat
abbrev VmRef := Nat

/-! ## Enumerations -/

inductive UrlState where
  | none | queued | visiting | visited | error
deriving DecidableEq, Repr

inductive UrlGroupState where
  | none | queued | visiting | visited | error
deriving DecidableEq, Repr

inductive ClientState where
  | connecting | connected | waiting | awaitingVisiting | visiting | disconnected
deriving DecidableEq, Repr

inductive VmState where
  | reverting | waitingToBeReverted | running | stopped | saving | waitingToBeSaved | error
deriving DecidableEq, Repr

inductive ErrorCode where
  | ok | prestart | start | finish | postfinish | networkError | processError | timeoutError
  | visitationUnableToStartClient | visitationMultipleErrors | visitationException
  | visitationWarning | captureClientInactivity | vmStalled | captureClientConnectionReset
  | socketError | invalidUrl | peProcessTerminatedForcefully | peProcessAlreadyTerminated
  | peProcessPathNotFound | peSentUrlToDisconnectedClient | neCantDownloadTempFile
  | invalidErrorCodeFromClient
deriving DecidableEq, Repr

namespace ErrorCode

def errorCode : ErrorCode → Int
  | ok => 0x00000000
  | prestart => 0x10000101
  | start => 0x10000102
  | finish => 0x10000103
  | postfinish => 0x10000104
  | networkError => 0x10000110
  | processError => 0x10000111
  | timeoutError => 0x10000112
  | visitationUnableToStartClient => 0x10000114
  | visitationMultipleErrors => 0x10000113
  | visitationException => 0x10000200
  | visitationWarning => 0x10000300
  | captureClientInactivity => 0x10004000
  | vmStalled => 0x10004100
  | captureClientConnectionReset => 0x10004200
  | socketError => 0x10004300
  | invalidUrl => 0x10007000
  | peProcessTerminatedForcefully => 0x10005000
  | peProcessAlreadyTerminated => 0x10005001
  | peProcessPathNotFound => 0x10005002
  | peSentUrlToDisconnectedClient => 0x10005003
  | neCantDownloadTempFile => 0x10005000
  | invalidErrorCodeFromClient => 0x10006000

/-- The constants in order of declaration. -/
def values : List ErrorCode :=
  [ok, prestart, start, finish, postfinish, networkError, processError, timeoutError,
    visitationUnableToStartClient, visitationMultipleErrors, visitationException,
    visitationWarning, captureClientInactivity, vmStalled, captureClientConnectionReset,
    socketError, invalidUrl, peProcessTerminatedForcefully, peProcessAlreadyTerminated,
    peProcessPathNotFound, peSentUrlToDisconnectedClient, neCantDownloadTempFile,
    invalidErrorCodeFromClient]

/-- The loop of `setMajorErrorCode`: the last constant with the number. -/
def ofNumber (n : Int) : ErrorCode :=
  ((values.filter fun e => e.errorCode == n).getLast?).getD invalidErrorCodeFromClient

end ErrorCode

/-- The exceptions that are thrown, and `System.exit`. -/
inductive JavaException where
  | nullPointer | numberFormat | arrayIndexOutOfBounds | illegalArgument | invalidParameter
  | stackOverflow
  | exit (status : Int)
deriving DecidableEq, Repr

/-! ## Objects -/

/-- The fields of `Url` that only its constructor sets. -/
structure Url where
  id : String
  url : String
  clientProgram : String
  visitTime : Int
deriving DecidableEq, Repr

/-- The other fields of `Url`: what is known of its visit. -/
structure UrlVisit where
  majorErrorCode : ErrorCode := .ok
  minorErrorCode : Int := 0
  malicious : Option Bool := none
  urlState : UrlState := .none
  visitStartTime : Option Date := none
  visitFinishTime : Option Date := none
  firstStateChange : Option Date := none
  logFile : Option (List String) := none
  logClosed : Bool := false
deriving DecidableEq, Repr

structure UrlGroup where
  urlGroupState : UrlGroupState := .none
  urlList : List UrlRef
  clientProgram : String
  visitTime : Int
  errorCount : Nat := 0
  malicious : Bool := false
  majorErrorCode : ErrorCode := .ok
  visitStartTime : Option Date := none
  visitFinishTime : Option Date := none
  algorithm : Option String := some ""
  logFile : Option (List String) := none
deriving DecidableEq, Repr

structure Client where
  clientState : ClientState := .connecting
  visitingUrlGroup : Option GroupRef := none
  virtualMachine : Option VmRef := none
  algorithm : Option String := none
  stateChangeHandler : StateChangeHandler := {}
  socketClosed : Bool := false
  /-- Whether a write to the socket goes through. -/
  linkUp : Bool := true

structure VirtualMachine where
  vmState : VmState := .stopped
  client : Option ClientRef := none
deriving DecidableEq, Repr

/-- A line of the progress, malicious, safe or error log. -/
inductive LogLine where
  | visiting (u : UrlRef)
  | visited (u : UrlRef)
  | progressError (u : UrlRef) (major : ErrorCode) (minor : Int)
  | malicious (u : UrlRef)
  | safe (u : UrlRef)
  | error (u : UrlRef) (major : ErrorCode) (minor : Int)
deriving DecidableEq, Repr

/-- A call of `Database` on behalf of a URL. -/
inductive DatabaseCall where
  | storeEvent (id event : String)
  | storeErrorUrl (id : String) (major : ErrorCode) (minor : Int)
  | setStatus (id status visitStartTime : String)
deriving DecidableEq, Repr

/-- The options that are read. -/
structure Config where
  groupSize : Int := 1
  haltOnRevert : Bool := false
  /-- `database-url` is set. -/
  database : Bool := false
  /-- Whether the log file of a URL, or of a group, can be created. -/
  canOpenLog : Bool := true
deriving DecidableEq, Repr

/-- What the methods of `Url` write. -/
structure UrlStore where
  visit : UrlRef → UrlVisit
  errorUrlList : List UrlRef := []
  log : List LogLine := []
  database : List DatabaseCall := []

structure ServerState where
  config : Config
  url : UrlRef → Url
  store : UrlStore
  group : GroupRef → UrlGroup
  /-- Groups from here on are not created yet. -/
  nextGroup : GroupRef
  client : ClientRef → Client
  vm : VmRef → VirtualMachine
  urlQueue : List UrlRef
  /-- The deque; `push` and `pop` work at the head. -/
  urlGroupQueue : List GroupRef
  visitingList : List GroupRef

/-- A method of the server. -/
abbrev Action := Exec ServerState JavaException

/-! ## Reading and writing objects -/

namespace ServerState

def visit (s : ServerState) (u : UrlRef) : UrlVisit := s.store.visit u

def setVisit (u : UrlRef) (f : UrlVisit → UrlVisit) (s : ServerState) : ServerState :=
  { s with store :=
      { s.store with visit := Function.update s.store.visit u (f (s.store.visit u)) } }

def setGroup (g : GroupRef) (f : UrlGroup → UrlGroup) (s : ServerState) : ServerState :=
  { s with group := Function.update s.group g (f (s.group g)) }

def setClient (c : ClientRef) (f : Client → Client) (s : ServerState) : ServerState :=
  { s with client := Function.update s.client c (f (s.client c)) }

def setVm (v : VmRef) (f : VirtualMachine → VirtualMachine) (s : ServerState) : ServerState :=
  { s with vm := Function.update s.vm v (f (s.vm v)) }

def writeLog (line : LogLine) (s : ServerState) : ServerState :=
  { s with store := { s.store with log := s.store.log ++ [line] } }

def callDatabase (call : DatabaseCall) (s : ServerState) : ServerState :=
  { s with store := { s.store with database := s.store.database ++ [call] } }

theorem group_setGroup (g : GroupRef) (f : UrlGroup → UrlGroup) (s : ServerState) :
    (s.setGroup g f).group g = f (s.group g) := Function.update_self ..

theorem client_setClient (c : ClientRef) (f : Client → Client) (s : ServerState) :
    (s.setClient c f).client c = f (s.client c) := Function.update_self ..

theorem visit_setVisit (u : UrlRef) (f : UrlVisit → UrlVisit) (s : ServerState) :
    (s.setVisit u f).visit u = f (s.visit u) := Function.update_self ..

end ServerState

abbrev readUrl (u : UrlRef) : Action Url := Exec.gets fun s => s.url u
abbrev readVisit (u : UrlRef) : Action UrlVisit := Exec.gets fun s => s.visit u
abbrev readGroup (g : GroupRef) : Action UrlGroup := Exec.gets fun s => s.group g
abbrev readClient (c : ClientRef) : Action Client := Exec.gets fun s => s.client c
abbrev readVm (v : VmRef) : Action VirtualMachine := Exec.gets fun s => s.vm v
abbrev readConfig : Action Config := Exec.gets ServerState.config

abbrev updateVisit (u : UrlRef) (f : UrlVisit → UrlVisit) : Action Unit :=
  Exec.modify (ServerState.setVisit u f)
abbrev updateGroup (g : GroupRef) (f : UrlGroup → UrlGroup) : Action Unit :=
  Exec.modify (ServerState.setGroup g f)
abbrev updateClient (c : ClientRef) (f : Client → Client) : Action Unit :=
  Exec.modify (ServerState.setClient c f)
abbrev updateVm (v : VmRef) (f : VirtualMachine → VirtualMachine) : Action Unit :=
  Exec.modify (ServerState.setVm v f)
abbrev writeLog (line : LogLine) : Action Unit := Exec.modify (ServerState.writeLog line)
abbrev callDatabase (call : DatabaseCall) : Action Unit :=
  Exec.modify (ServerState.callDatabase call)

/-- A reference that is followed; `NullPointerException` if it is null. -/
abbrev deref {α : Type} (o : Option α) : Action α := Exec.orThrow .nullPointer o

theorem of_run_deref_bind {α β : Type} {o : Option α} {f : α → Action β} {s s' : ServerState}
    {b : β} (h : (deref o >>= f).run s = (.ok b, s')) :
    ∃ a, o = some a ∧ (f a).run s = (.ok b, s') :=
  Exec.of_run_orThrow_bind h

/-- `setVisitStartTime` and `setVisitFinishTime`, of a URL or a group: the time is
parsed and stored, and a `ParseException` is only printed. -/
def storeTime (store : Date → Action Unit) (time : Option String) : Action Unit := do
  match parseDate (← deref time) with
  | some date => store date
  | none => pure ()

/-! ## Frames -/

instance {R : ServerState → ServerState → Prop} [Std.Refl R] [IsTrans ServerState R]
    {store : Date → Action Unit} [h : ∀ date, (store date).Within R] (time : Option String) :
    (storeTime store time).Within R := by
  refine (Exec.Within.orThrow _ time).bind fun text => ?_
  cases parseDate text with
  | some date => exact h date
  | none => exact Exec.Within.pure ()

/-- Only the store changed. -/
def StoreOnly (s s' : ServerState) : Prop := s' = { s with store := s'.store }

instance : Std.Refl StoreOnly := ⟨fun _ => rfl⟩

instance : IsTrans ServerState StoreOnly :=
  ⟨fun _ _ s'' h h' => h'.trans (congrArg (fun t => { t with store := s''.store }) h)⟩

/-- Only the store, the groups and the queue of groups changed. -/
def GroupsOnly (s s' : ServerState) : Prop :=
  s' = { s with store := s'.store, group := s'.group, nextGroup := s'.nextGroup
                urlGroupQueue := s'.urlGroupQueue, visitingList := s'.visitingList }

instance : Std.Refl GroupsOnly := ⟨fun _ => rfl⟩

instance : IsTrans ServerState GroupsOnly :=
  ⟨fun _ _ s'' h h' => h'.trans (congrArg (fun t => { t with
      store := s''.store, group := s''.group, nextGroup := s''.nextGroup
      urlGroupQueue := s''.urlGroupQueue, visitingList := s''.visitingList }) h)⟩

theorem StoreOnly.groupsOnly {s s' : ServerState} (h : StoreOnly s s') : GroupsOnly s s' := by
  rw [StoreOnly] at h
  rw [GroupsOnly, h]

end CaptureHpc.Server
