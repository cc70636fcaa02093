/-
# `Client.ProcessCreation` — how often a creation is reported

A lookup that does not find a path opens the process and tells the process
monitor of a creation.  The driver has its own record of that creation, and the
loop of the process monitor hands it to the same handler, which looks the path
up first.  The loop drops a record that repeats the one before it, and nothing
else is dropped.

`Client.ProcessManager` takes a lookup as one step.  Here each thread has a stack
of what it has still to do, and a step is one access to the map, to the system or
to the exclusions, so that the threads may change places between a miss and the
entry that is made for it.  `getProcessPath_alone` and `handleInfo_alone` say
that a thread that is left alone does what is said there.
-/
import CaptureHpc.Client.ProcessManager

namespace CaptureHpc.Client

open ProcessManager

/-- A process that can be opened, with the number of its creation, which nobody reads. -/
structure NumberedProcess extends RunningProcess where
  creation : Nat

/-- What the driver has queued, with the number of the creation of the process. -/
structure QueuedProcessInfo extends ProcessInfo where
  creation : Nat

/-- The threads that ask for paths; the last one is the loop of the process monitor. -/
inductive MonitorThread where
  | file
  | registry
  | network
  | process
  deriving DecidableEq

/-- What `ProcessMonitor::onProcessEvent` is called with, and the creation it is called for. -/
structure ProcessCall where
  create : Bool
  processId : Nat
  parentProcessId : Nat
  creation : Nat

/-- The event, once everything is looked up. -/
def ProcessCall.event (call : ProcessCall) (processPath processModuleName parentProcessModuleName
    parentProcessPath : WString) : ProcessEvent :=
  { create := call.create, parentProcessId := call.parentProcessId, parentProcessPath
    parentProcessModuleName, processId := call.processId, processPath, processModuleName }

/-- Something that a thread has still to do. -/
inductive Frame where
  /-- In the loop of `getProcessPath`. -/
  | lookup (processId retryCount : Nat)
  | openProcess (processId : Nat)
  | insertProcess (process : NumberedProcess)
  | tellMonitor (process : NumberedProcess)
  /-- The monitor has been told, and `getProcessPath` is to return. -/
  | told (process : NumberedProcess)
  /-- In `ProcessMonitor::onProcessEvent`, which waits for the path. -/
  | processPath (call : ProcessCall)
  | onManagerEvent (call : ProcessCall) (processPath : WString)
  | processModuleName (call : ProcessCall) (processPath : WString)
  | parentProcessModuleName (call : ProcessCall) (processPath processModuleName : WString)
  | parentProcessPath (call : ProcessCall)
      (processPath processModuleName parentProcessModuleName : WString)
  | isEventAllowed (call : ProcessCall)
      (processPath processModuleName parentProcessModuleName parentProcessPath : WString)
  /-- The loop of the process monitor is to keep what it has handled. -/
  | handled (p : ProcessInfo)

/-- The client, the driver and the system. -/
structure ProcessThreads where
  manager : ProcessState
  /-- The processes that run. -/
  running : List NumberedProcess
  /-- The number of the next creation. -/
  creations : Nat
  lQueuedProcessEvents : List QueuedProcessInfo := []
  /-- What each thread has still to do, innermost first. -/
  frames : MonitorThread → List Frame := fun _ => []
  /-- The creations of the created events that were signalled; nobody reads it. -/
  reported : List Nat := []

/-- A step of the system or of a thread. -/
inductive ThreadAction where
  /-- A process starts; the driver may have no memory for its record. -/
  | create (process : RunningProcess) (recorded : Bool)
  | terminate (processId : Nat) (recorded : Bool)
  | setProcessMonitor
  /-- A monitor has an event of a process. -/
  | lookup (thread : MonitorThread) (processId : Nat)
  /-- The loop of the process monitor takes a record. -/
  | getProcInfo
  | run (thread : MonitorThread)
  /-- The process cannot be opened or has no image file name. -/
  | refuse (thread : MonitorThread)

namespace ProcessThreads

/-! ## The threads -/

/-- `getProcessPath` returns to what has called it. -/
def receive (path : WString) : List Frame → List Frame
  | .processPath call :: rest => .onManagerEvent call path :: rest
  | .processModuleName call processPath :: rest =>
      .lookup call.parentProcessId 10 ::
        .parentProcessModuleName call processPath (moduleName path) :: rest
  | .parentProcessModuleName call processPath processModuleName :: rest =>
      .lookup call.parentProcessId 10 ::
        .parentProcessPath call processPath processModuleName (moduleName path) :: rest
  | .parentProcessPath call processPath processModuleName parentProcessModuleName :: rest =>
      .isEventAllowed call processPath processModuleName parentProcessModuleName path :: rest
  | rest => rest

def setFrames (s : ProcessThreads) (thread : MonitorThread) (frames : List Frame) : ProcessThreads :=
  { s with frames := Function.update s.frames thread frames }

/-- The process with an id. -/
def find (s : ProcessThreads) (processId : Nat) : Option NumberedProcess :=
  s.running.find? fun process => process.processId = processId

/-- `getParentProcessId`: -1 where the process does not run any more. -/
def getParentProcessId (s : ProcessThreads) (processId : Nat) : Nat :=
  ((s.find processId).map fun process => process.parentId).getD (2 ^ 32 - 1)

section Steps
variable (w : Windows) (allowed : WString → WString → WString → Bool)

/-- A thread goes on with the innermost thing it has to do. -/
def runFrame (s : ProcessThreads) (thread : MonitorThread) (rest : List Frame) :
    Frame → Option ProcessThreads
  | .lookup processId retryCount =>
      if processId = 4 then some (s.setFrames thread (receive (wideLiteral "System") rest))
      else
        match s.manager.processMap processId with
        | some path => some (s.setFrames thread (receive path rest))
        | none =>
            if retryCount - 1 ≠ 0 then
              some (s.setFrames thread (.lookup processId (retryCount - 1) :: rest))
            else some (s.setFrames thread (.openProcess processId :: rest))
  | .openProcess processId =>
      match s.find processId with
      | none => some (s.setFrames thread (receive (wideLiteral "UNKNOWN") rest))
      | some process => some (s.setFrames thread (.insertProcess process :: rest))
  | .insertProcess process => do
      let manager ← insertProcess w s.manager process.processId process.image
      return { s with manager }.setFrames thread (.tellMonitor process :: rest)
  | .tellMonitor process =>
      if s.manager.processMonitor then
        some (s.setFrames thread (.lookup process.processId 10 ::
          .processPath
            { create := true, processId := process.processId
              parentProcessId := s.getParentProcessId process.processId
              creation := process.creation } :: .told process :: rest))
      else some (s.setFrames thread (.told process :: rest))
  | .told process => do
      let processPath ← convertFileObjectPathToDOSPath w process.image
      return s.setFrames thread (receive processPath rest)
  | .onManagerEvent call processPath => do
      let manager ← onManagerEvent w s.manager call.create call.processId processPath
      return { s with manager }.setFrames thread
        (.lookup call.processId 10 :: .processModuleName call processPath :: rest)
  | .isEventAllowed call processPath processModuleName parentProcessModuleName parentProcessPath =>
      some ({ s with
        manager := report allowed s.manager (call.event processPath processModuleName
          parentProcessModuleName parentProcessPath)
        reported :=
          if call.create ∧ ¬ allowed processModuleName parentProcessModuleName processPath then
            s.reported ++ [call.creation]
          else s.reported }.setFrames thread rest)
  | .handled p =>
      some ({ s with
        manager := { s.manager with tempP := (p.bCreate, p.parentId, p.processId) } }.setFrames
          thread rest)
  -- these wait for a path
  | .processPath _ | .processModuleName _ _ | .parentProcessModuleName _ _ _
  | .parentProcessPath _ _ _ _ => none

/-- The record is not the one that was handled last. -/
def Differs (s : ProcessThreads) (p : ProcessInfo) : Prop :=
  (p.bCreate, p.parentId, p.processId) ≠ s.manager.tempP

instance (s : ProcessThreads) (p : ProcessInfo) : Decidable (s.Differs p) :=
  inferInstanceAs (Decidable (_ ≠ _))

def next (s : ProcessThreads) : ThreadAction → Option ProcessThreads
  | .create process recorded =>
      if (s.find process.processId).isSome then none
      else some { s with
        running := s.running ++ [{ process with creation := s.creations }]
        creations := s.creations + 1
        lQueuedProcessEvents :=
          if recorded then
            s.lQueuedProcessEvents ++ [{ parentId := process.parentId
                                         processId := process.processId, bCreate := true
                                         processPath := process.image, creation := s.creations }]
          else s.lQueuedProcessEvents }
  | .terminate processId recorded =>
      (s.find processId).map fun process => { s with
        running := s.running.filter fun process => process.processId ≠ processId
        lQueuedProcessEvents :=
          if recorded then
            s.lQueuedProcessEvents ++ [{ parentId := process.parentId, processId, bCreate := false
                                         processPath := process.image
                                         creation := process.creation }]
          else s.lQueuedProcessEvents }
  | .setProcessMonitor => some { s with manager := { s.manager with processMonitor := true } }
  | .lookup thread processId =>
      if thread ≠ .process ∧ (s.frames thread).isEmpty then
        some (s.setFrames thread [.lookup processId 10])
      else none
  | .getProcInfo =>
      if (s.frames .process).isEmpty then
        match s.lQueuedProcessEvents with
        | [] => none
        | p :: lQueuedProcessEvents =>
            if s.Differs p.toProcessInfo then
              some ({ s with lQueuedProcessEvents }.setFrames .process
                [.lookup p.processId 10,
                  .processPath { create := p.bCreate, processId := p.processId
                                 parentProcessId := p.parentId, creation := p.creation },
                  .handled p.toProcessInfo])
            else some { s with lQueuedProcessEvents }
      else none
  | .run thread =>
      match s.frames thread with
      | [] => none
      | frame :: rest => runFrame w allowed s thread rest frame
  | .refuse thread =>
      match s.frames thread with
      | .openProcess _ :: rest => some (s.setFrames thread (receive (wideLiteral "UNKNOWN") rest))
      | _ => none

/-- The start: the map is made, no thread has begun, and each process has its own id and number. -/
structure Start (s : ProcessThreads) : Prop where
  manager : ∃ processes, initialiseProcessMap w { processMonitor := false } processes = some s.manager
  idle : s.frames = fun _ => []
  queue : s.lQueuedProcessEvents = []
  reported : s.reported = []
  ids : (s.running.map fun process => process.processId).Nodup
  numbers : (s.running.map fun process => process.creation).Nodup
  below : ∀ process ∈ s.running, process.creation < s.creations

def machine : Machine ProcessThreads ThreadAction where
  init := Start w
  next := next w allowed

end Steps

/-! ## What is to hold -/

/-- For each creation at most one created event was signalled. -/
def ReportedOnce (s : ProcessThreads) : Prop := ∀ creation, s.reported.count creation ≤ 1

/-- The creation that a frame is to report. -/
def creates : Frame → Option Nat
  | .processPath call | .onManagerEvent call _ | .processModuleName call _
  | .parentProcessModuleName call _ _ | .parentProcessPath call _ _ _
  | .isEventAllowed call _ _ _ _ => if call.create then some call.creation else none
  | .lookup _ _ | .openProcess _ | .insertProcess _ | .tellMonitor _ | .told _ | .handled _ => none

def underWay (creation : Nat) (frames : List Frame) : Nat :=
  frames.countP fun frame => creates frame = some creation

/-- The created events of a creation that are under way or were signalled. -/
def events (s : ProcessThreads) (creation : Nat) : Nat :=
  underWay creation (s.frames .file) + underWay creation (s.frames .registry) +
    underWay creation (s.frames .network) + underWay creation (s.frames .process) +
    s.reported.count creation

/-- The creation of which a lookup that has opened the process tells the monitor. -/
def tells (s : ProcessThreads) : Frame → Option Nat
  | .tellMonitor process => if s.manager.processMonitor then some process.creation else none
  | _ => none

/-- The creation of which the monitor is told in a step, by its loop or by a lookup. -/
def raises (s : ProcessThreads) : ThreadAction → Option Nat
  | .getProcInfo =>
      s.lQueuedProcessEvents.head?.bind fun p =>
        if s.Differs p.toProcessInfo ∧ p.bCreate then some p.creation else none
  | .run thread => (s.frames thread).head?.bind s.tells
  | _ => none

/-- **The condition on a step**: when the monitor is told of a creation, no created event of it is
under way or was signalled. -/
def ToldOnce (s : ProcessThreads) (a : ThreadAction) : Prop :=
  ∀ creation ∈ s.raises a, s.events creation = 0

instance (s : ProcessThreads) (a : ThreadAction) : Decidable (s.ToldOnce a) :=
  inferInstanceAs (Decidable (∀ creation ∈ s.raises a, s.events creation = 0))

/-- No thread has anything to do. -/
def AtRest (s : ProcessThreads) : Prop := ∀ thread, s.frames thread = []

/-- Every event that was checked was signalled. -/
def NothingExcluded (s : ProcessThreads) : Prop := s.manager.signalled = s.manager.checked

instance (s : ProcessThreads) : Decidable s.NothingExcluded :=
  inferInstanceAs (Decidable (_ = _))

/-! ### Counting -/

variable {w : Windows} {allowed : WString → WString → WString → Bool} {s s' : ProcessThreads}

theorem underWay_cons (creation : Nat) (frame : Frame) (rest : List Frame) :
    underWay creation (frame :: rest) =
      underWay creation rest + if creates frame = some creation then 1 else 0 := by
  simp [underWay, List.countP_cons]

/-- The frame that a path is returned to is for the same creation. -/
theorem underWay_receive (creation : Nat) (path : WString) (rest : List Frame) :
    underWay creation (receive path rest) = underWay creation rest := by
  cases rest with
  | nil => rfl
  | cons frame rest => cases frame <;> simp [receive, underWay_cons, creates]

theorem events_setFrames (s : ProcessThreads) (thread : MonitorThread) (frames : List Frame)
    (creation : Nat) : (s.setFrames thread frames).events creation +
      underWay creation (s.frames thread) = s.events creation + underWay creation frames := by
  cases thread <;> simp [events, setFrames, Function.update] <;> omega

/-- What a step may do to the created events of a creation: one more if the monitor is told of it,
and one less only if an event was excluded. -/
structure Counts (raised : Option Nat) (s s' : ProcessThreads) : Prop where
  events : ∀ creation, ∃ excluded, s'.events creation + excluded =
      s.events creation + (if raised = some creation then 1 else 0) ∧
    excluded + s.manager.checked.length + s'.manager.signalled.length ≤
      s'.manager.checked.length + s.manager.signalled.length
  reported : s'.reported.length + s.manager.signalled.countP (·.create) =
    s.reported.length + s'.manager.signalled.countP (·.create)

/-- A step that leaves the threads and the events as they are. -/
theorem Counts.same (hframes : s'.frames = s.frames) (hreported : s'.reported = s.reported)
    (hchecked : s'.manager.checked = s.manager.checked)
    (hsignalled : s'.manager.signalled = s.manager.signalled) : Counts none s s' := by
  constructor
  · intro creation
    refine ⟨0, ?_, ?_⟩
    · simp [ProcessThreads.events, hframes, hreported]
    · simp [hchecked, hsignalled]
  · rw [hreported, hsignalled]

/-- A step of one thread that changes nothing else of this. -/
theorem Counts.thread {raised : Option Nat} {thread : MonitorThread} {frames : List Frame}
    (hsame : Counts none s s') (hframes : s'.frames = s.frames)
    (h : ∀ creation, underWay creation frames =
      underWay creation (s.frames thread) + if raised = some creation then 1 else 0) :
    Counts raised s (s'.setFrames thread frames) := by
  constructor
  · intro creation
    obtain ⟨excluded, hcount, hbound⟩ := hsame.events creation
    have hevents := events_setFrames s' thread frames creation
    rw [hframes, h creation] at hevents
    simp only [reduceCtorEq, if_false] at hcount
    exact ⟨excluded, by omega, hbound⟩
  · exact hsame.reported

theorem Counts.rest {raised : Option Nat} {thread : MonitorThread} {frames : List Frame}
    (h : ∀ creation, underWay creation frames =
      underWay creation (s.frames thread) + if raised = some creation then 1 else 0) :
    Counts raised s (s.setFrames thread frames) :=
  .thread (.same rfl rfl rfl rfl) rfl h

theorem insertProcess_events {manager manager' : ProcessState} {processId : Nat} {path : WString}
    (h : insertProcess w manager processId path = some manager') :
    manager'.checked = manager.checked ∧ manager'.signalled = manager.signalled := by
  obtain ⟨complete, -, rfl⟩ := insertProcess_cases h
  exact ⟨rfl, rfl⟩

theorem onManagerEvent_events {manager manager' : ProcessState} {create : Bool} {processId : Nat}
    {path : WString} (h : onManagerEvent w manager create processId path = some manager') :
    manager'.checked = manager.checked ∧ manager'.signalled = manager.signalled := by
  cases create with
  | false =>
      obtain rfl := Option.some.inj h
      exact ⟨rfl, rfl⟩
  | true =>
      obtain ⟨process, -, h⟩ := Option.bind_eq_some_iff.mp h
      exact insertProcess_events h

theorem events_reported (s : ProcessThreads) (manager : ProcessState) (reported : List Nat)
    (thread : MonitorThread) (frames : List Frame) (creation : Nat) :
    ({ s with manager, reported }.setFrames thread frames).events creation +
      s.reported.count creation =
    (s.setFrames thread frames).events creation + reported.count creation := by
  simp only [events, setFrames]
  omega

/-- A check ends an event: it is signalled, or else excluded. -/
theorem isEventAllowed_counts {thread : MonitorThread} {rest : List Frame} {call : ProcessCall}
    {processPath name parentName parentPath : WString}
    (hframes : s.frames thread = .isEventAllowed call processPath name parentName parentPath :: rest)
    (h : runFrame w allowed s thread rest
      (.isEventAllowed call processPath name parentName parentPath) = some s') :
    Counts none s s' := by
  have hevents := fun creation => events_setFrames s thread rest creation
  simp only [hframes, underWay_cons] at hevents
  rw [runFrame] at h
  obtain rfl := Option.some.inj h
  have hreported := fun reported creation => events_reported s (report allowed s.manager
    (call.event processPath name parentName parentPath)) reported thread rest creation
  cases hallowed : allowed name parentName processPath with
  | true =>
      have hreported := hreported s.reported
      constructor
      · intro creation
        refine ⟨if creates (.isEventAllowed call processPath name parentName parentPath) =
          some creation then 1 else 0, ?_, ?_⟩
        · have hevents := hevents creation
          have hreported := hreported creation
          simp only [not_true, and_false, if_false, reduceCtorEq]
          omega
        · simp only [setFrames, report, ProcessCall.event, hallowed, if_true, List.length_append,
            List.length_singleton]
          split_ifs <;> omega
      · simp [setFrames, report, ProcessCall.event, hallowed]
  | false =>
      constructor
      · intro creation
        have hevents := hevents creation
        refine ⟨0, ?_, ?_⟩
        · cases hcreate : call.create with
          | false =>
              have hreported := hreported s.reported creation
              simp only [creates, hcreate, Bool.false_eq_true, if_false, reduceCtorEq] at hevents
              simp only [Bool.false_eq_true, false_and, if_false, reduceCtorEq]
              omega
          | true =>
              have hreported := hreported (s.reported ++ [call.creation]) creation
              rw [List.count_append, List.count_singleton] at hreported
              simp only [beq_iff_eq] at hreported
              simp only [creates, hcreate, if_true, Option.some.injEq] at hevents
              simp only [Bool.false_eq_true, not_false_eq_true, and_self, if_true, if_false,
                reduceCtorEq]
              omega
        · simp only [setFrames, report, ProcessCall.event, hallowed, Bool.false_eq_true, if_false,
            List.length_append, List.length_singleton]
          omega
      · cases hcreate : call.create with
        | false => simp [setFrames, report, ProcessCall.event, hallowed, hcreate]
        | true =>
            simp [setFrames, report, ProcessCall.event, hallowed, hcreate]
            omega

/-- **A step of a thread.**  It leaves the driver and the system as they are. -/
theorem runFrame_counts {thread : MonitorThread} {rest : List Frame} {frame : Frame}
    (hframes : s.frames thread = frame :: rest)
    (h : runFrame w allowed s thread rest frame = some s') : Counts (s.tells frame) s s' ∧
      s'.lQueuedProcessEvents = s.lQueuedProcessEvents ∧ s'.running = s.running ∧
      s'.creations = s.creations := by
  cases frame with
  | lookup processId retryCount =>
      rw [runFrame] at h
      split at h
      · obtain rfl := Option.some.inj h
        refine ⟨.rest fun creation => ?_, rfl, rfl, rfl⟩
        simp [hframes, underWay_receive, underWay_cons, creates, tells]
      · split at h
        · obtain rfl := Option.some.inj h
          refine ⟨.rest fun creation => ?_, rfl, rfl, rfl⟩
          simp [hframes, underWay_receive, underWay_cons, creates, tells]
        · split at h
          · obtain rfl := Option.some.inj h
            refine ⟨.rest fun creation => ?_, rfl, rfl, rfl⟩
            simp [hframes, underWay_cons, creates, tells]
          · obtain rfl := Option.some.inj h
            refine ⟨.rest fun creation => ?_, rfl, rfl, rfl⟩
            simp [hframes, underWay_cons, creates, tells]
  | openProcess processId =>
      rw [runFrame] at h
      split at h
      · obtain rfl := Option.some.inj h
        refine ⟨.rest fun creation => ?_, rfl, rfl, rfl⟩
        simp [hframes, underWay_receive, underWay_cons, creates, tells]
      · obtain rfl := Option.some.inj h
        refine ⟨.rest fun creation => ?_, rfl, rfl, rfl⟩
        simp [hframes, underWay_cons, creates, tells]
  | insertProcess process =>
      obtain ⟨manager, hmanager, h⟩ := Option.bind_eq_some_iff.mp h
      obtain rfl := Option.some.inj h
      obtain ⟨hchecked, hsignalled⟩ := insertProcess_events hmanager
      refine ⟨.thread (.same rfl rfl hchecked hsignalled) rfl fun creation => ?_, rfl, rfl, rfl⟩
      simp [hframes, underWay_cons, creates, tells]
  | tellMonitor process =>
      rw [runFrame] at h
      split at h
      · rename_i hmonitor
        obtain rfl := Option.some.inj h
        refine ⟨.rest fun creation => ?_, rfl, rfl, rfl⟩
        simp [hframes, underWay_cons, creates, tells, hmonitor]
      · rename_i hmonitor
        obtain rfl := Option.some.inj h
        refine ⟨.rest fun creation => ?_, rfl, rfl, rfl⟩
        simp [hframes, underWay_cons, creates, tells, hmonitor]
  | told process =>
      obtain ⟨path, -, h⟩ := Option.bind_eq_some_iff.mp h
      obtain rfl := Option.some.inj h
      refine ⟨.rest fun creation => ?_, rfl, rfl, rfl⟩
      simp [hframes, underWay_receive, underWay_cons, creates, tells]
  | processPath call => cases h
  | onManagerEvent call processPath =>
      obtain ⟨manager, hmanager, h⟩ := Option.bind_eq_some_iff.mp h
      obtain rfl := Option.some.inj h
      obtain ⟨hchecked, hsignalled⟩ := onManagerEvent_events hmanager
      refine ⟨.thread (.same rfl rfl hchecked hsignalled) rfl fun creation => ?_, rfl, rfl, rfl⟩
      simp [hframes, underWay_cons, creates, tells]
  | processModuleName call processPath => cases h
  | parentProcessModuleName call processPath processModuleName => cases h
  | parentProcessPath call processPath processModuleName parentProcessModuleName => cases h
  | isEventAllowed call processPath name parentName parentPath =>
      have hcounts : Counts none s s' := isEventAllowed_counts hframes h
      rw [runFrame] at h
      obtain rfl := Option.some.inj h
      exact ⟨hcounts, rfl, rfl, rfl⟩
  | handled p =>
      obtain rfl := Option.some.inj h
      refine ⟨.thread (.same rfl rfl rfl rfl) rfl fun creation => ?_, rfl, rfl, rfl⟩
      simp [hframes, underWay_cons, creates, tells]

/-- **A step**, whatever takes it. -/
theorem next_counts {a : ThreadAction} (h : next w allowed s a = some s') :
    Counts (s.raises a) s s' := by
  cases a with
  | create process recorded =>
      simp only [next] at h
      split at h
      · cases h
      · obtain rfl := Option.some.inj h
        exact .same rfl rfl rfl rfl
  | terminate processId recorded =>
      obtain ⟨process, -, rfl⟩ := Option.map_eq_some_iff.mp h
      exact .same rfl rfl rfl rfl
  | setProcessMonitor =>
      obtain rfl := Option.some.inj h
      exact .same rfl rfl rfl rfl
  | lookup thread processId =>
      simp only [next] at h
      split at h
      · rename_i hidle
        obtain rfl := Option.some.inj h
        refine .rest fun creation => ?_
        rw [List.isEmpty_iff.mp hidle.2]
        simp [underWay_cons, creates, raises]
      · cases h
  | getProcInfo =>
      simp only [next] at h
      split at h
      · rename_i hidle
        have hframes : s.frames .process = [] := List.isEmpty_iff.mp hidle
        split at h
        · cases h
        · rename_i p lQueuedProcessEvents hqueue
          split at h
          · rename_i hdiffers
            obtain rfl := Option.some.inj h
            refine .thread (.same rfl rfl rfl rfl) rfl fun creation => ?_
            simp [hframes, underWay_cons, creates, raises, hqueue, hdiffers]
          · rename_i hdiffers
            obtain rfl := Option.some.inj h
            have hraises : s.raises .getProcInfo = none := by simp [raises, hqueue, hdiffers]
            rw [hraises]
            exact .same rfl rfl rfl rfl
      · cases h
  | run thread =>
      simp only [next] at h
      split at h
      · cases h
      · rename_i frame rest hframes
        have hraises : s.raises (.run thread) = s.tells frame := by simp [raises, hframes]
        rw [hraises]
        exact (runFrame_counts hframes h).1
  | refuse thread =>
      simp only [next] at h
      split at h
      · rename_i processId rest hframes
        obtain rfl := Option.some.inj h
        refine .rest fun creation => ?_
        simp [hframes, underWay_receive, underWay_cons, creates, raises]
      · cases h

/-! ### Runs -/

/-- At most one created event of each creation is under way or was signalled. -/
def Once (s : ProcessThreads) : Prop := ∀ creation, s.events creation ≤ 1

theorem Once.reportedOnce (h : s.Once) : s.ReportedOnce := by
  intro creation
  have hcount := h creation
  unfold events at hcount
  omega

theorem once_iff_of_atRest (h : s.AtRest) : s.Once ↔ s.ReportedOnce := by
  refine forall_congr' fun creation => ?_
  simp [events, underWay, h .file, h .registry, h .network, h .process]

/-- A step that tells the monitor of nothing, or of a creation that has no event, keeps `Once`. -/
theorem Once.next {a : ThreadAction} (hs : s.Once) (hok : s.ToldOnce a)
    (h : next w allowed s a = some s') : s'.Once := by
  intro creation
  obtain ⟨excluded, hcount, -⟩ := (next_counts h).events creation
  have hone := hs creation
  by_cases hraised : s.raises a = some creation
  · have hnone := hok creation hraised
    rw [if_pos hraised] at hcount
    omega
  · rw [if_neg hraised] at hcount
    omega

/-- Where nothing is excluded, no other step does. -/
theorem once_next_iff {a : ThreadAction} (h : next w allowed s a = some s')
    (hlength : s.manager.signalled.length ≤ s.manager.checked.length)
    (hall : s'.manager.checked.length ≤ s'.manager.signalled.length) :
    s'.Once ↔ s.Once ∧ s.ToldOnce a := by
  refine ⟨fun hs' => ⟨fun creation => ?_, fun creation hraised => ?_⟩, fun hs => hs.1.next hs.2 h⟩
  · obtain ⟨excluded, hcount, hbound⟩ := (next_counts h).events creation
    have hone := hs' creation
    omega
  · obtain ⟨excluded, hcount, hbound⟩ := (next_counts h).events creation
    have hone := hs' creation
    rw [if_pos (Option.mem_def.mp hraised)] at hcount
    omega

/-- What was excluded stays so. -/
theorem next_lengths {a : ThreadAction} (h : next w allowed s a = some s') :
    s.manager.checked.length + s'.manager.signalled.length ≤
      s'.manager.checked.length + s.manager.signalled.length := by
  obtain ⟨excluded, -, hbound⟩ := (next_counts h).events 0
  omega

theorem run_lengths {as : List ThreadAction} : ∀ {s : ProcessThreads},
    (machine w allowed).run as s = some s' →
      s.manager.checked.length + s'.manager.signalled.length ≤
        s'.manager.checked.length + s.manager.signalled.length := by
  induction as with
  | nil =>
      intro s hrun
      obtain rfl := Option.some.inj hrun
      exact Nat.le_refl _
  | cons a as ih =>
      intro s hrun
      obtain ⟨s₁, hnext, hrest⟩ := Option.bind_eq_some_iff.mp hrun
      have hone := next_lengths hnext
      have hmore := ih hrest
      omega

/-- Where nothing is excluded in a run, it keeps `Once` just if its steps meet the condition. -/
theorem once_run_iff {as : List ThreadAction} : ∀ {s : ProcessThreads},
    (machine w allowed).run as s = some s' →
      s.manager.signalled.length ≤ s.manager.checked.length →
      s'.manager.checked.length ≤ s'.manager.signalled.length →
      (s'.Once ↔ s.Once ∧ (machine w allowed).Meets ToldOnce as s) := by
  induction as with
  | nil =>
      intro s hrun _ _
      obtain rfl := Option.some.inj hrun
      exact ⟨fun h => ⟨h, trivial⟩, fun h => h.1⟩
  | cons a as ih =>
      intro s hrun hlength hall
      obtain ⟨s₁, hnext, hrest⟩ := Option.bind_eq_some_iff.mp hrun
      have hone := next_lengths hnext
      have hmore := run_lengths hrest
      have hmeets : (machine w allowed).Meets ToldOnce (a :: as) s ↔
          s.ToldOnce a ∧ (machine w allowed).Meets ToldOnce as s₁ := by
        rw [Machine.Meets, hnext]
      rw [ih hrest (by omega) hall, once_next_iff hnext hlength (by omega), hmeets, and_assoc]

theorem initialise_events : ∀ {processes : List (Nat × Option WString)} {manager manager' : ProcessState},
    initialiseProcessMap w manager processes = some manager' →
      manager'.checked = manager.checked ∧ manager'.signalled = manager.signalled
  | [], manager, manager', h => by
      obtain rfl := Option.some.inj h
      exact ⟨rfl, rfl⟩
  | (processId, image) :: processes, manager, manager', h => by
      rw [initialiseProcessMap] at h
      split_ifs at h with hzero
      · exact initialise_events h
      · obtain ⟨manager₁, hinsert, h⟩ := Option.bind_eq_some_iff.mp h
        obtain ⟨hchecked, hsignalled⟩ := insertProcess_events hinsert
        obtain ⟨hchecked', hsignalled'⟩ := initialise_events h
        exact ⟨hchecked'.trans hchecked, hsignalled'.trans hsignalled⟩

theorem Start.once (h : Start w s) : s.Once := by
  intro creation
  simp [events, h.idle, h.reported, underWay]

/-- **Created events.**  In every run in which the monitor is only told of creations of which there
is no created event yet, each creation is reported at most once all along.  Where a run excludes
nothing and ends with no thread at work, no other run does so. -/
theorem reported_once_iff (w : Windows) (allowed : WString → WString → WString → Bool)
    (as : List ThreadAction) (s₀ : ProcessThreads) (hstart : (machine w allowed).init s₀) :
    ((machine w allowed).Meets ToldOnce as s₀ →
      (machine w allowed).Throughout ReportedOnce as s₀) ∧
    ∀ s, (machine w allowed).run as s₀ = some s → s.AtRest → s.NothingExcluded →
      (s.ReportedOnce ↔ (machine w allowed).Meets ToldOnce as s₀) := by
  have hstart : Start w s₀ := hstart
  constructor
  · exact Machine.throughout_of_meets (fun _ hs => hs.reportedOnce)
      (fun _ _ _ hs hok hnext => hs.next hok hnext) hstart.once
  · intro s hrun hrest hall
    obtain ⟨processes, hprocesses⟩ := hstart.manager
    obtain ⟨hchecked, hsignalled⟩ := initialise_events hprocesses
    have hlength : s₀.manager.signalled.length ≤ s₀.manager.checked.length := by
      rw [hchecked, hsignalled]
    have hfull : s.manager.checked.length ≤ s.manager.signalled.length := by
      rw [show s.manager.signalled = s.manager.checked from hall]
    rw [← once_iff_of_atRest hrest, once_run_iff hrun hlength hfull]
    exact and_iff_right hstart.once

/-- There is an entry for each created event that was signalled. -/
theorem reported_length {as : List ThreadAction} {s₀ : ProcessThreads} (hstart : Start w s₀)
    (hrun : (machine w allowed).run as s₀ = some s) :
    s.reported.length = s.manager.signalled.countP (·.create) := by
  have hreachable : (machine w allowed).Reachable Machine.AnyStep s :=
    Machine.reachable_of_run hstart hrun
  refine Machine.Reachable.invariant (P := fun s : ProcessThreads =>
    s.reported.length = s.manager.signalled.countP (·.create)) ?_ ?_ hreachable
  · intro s hs
    have hs : Start w s := hs
    obtain ⟨processes, hprocesses⟩ := hs.manager
    rw [hs.reported, (initialise_events hprocesses).2]
    rfl
  · intro s a s' hs _ hnext
    have hreported := (next_counts hnext).reported
    omega

/-! ### The records by themselves -/

/-- No lookup tells the monitor of anything. -/
def OnlyRecords (s : ProcessThreads) (a : ThreadAction) : Prop := a ≠ .getProcInfo → s.raises a = none

/-- The driver has at most one record of a creation, and keeps it until it is handled. -/
structure Recorded (s : ProcessThreads) : Prop where
  once : s.Once
  distinct : s.lQueuedProcessEvents.Pairwise fun p q =>
    p.bCreate = true → q.bCreate = true → p.creation ≠ q.creation
  unreported : ∀ p ∈ s.lQueuedProcessEvents, p.bCreate = true → s.events p.creation = 0
  below : ∀ p ∈ s.lQueuedProcessEvents, p.creation < s.creations
  running : ∀ process ∈ s.running, process.creation < s.creations
  later : ∀ creation, s.creations ≤ creation → s.events creation = 0

theorem Start.recorded (h : Start w s) : s.Recorded := by
  have hnone : ∀ creation, s.events creation = 0 := by
    intro creation
    simp [events, h.idle, h.reported, underWay]
  refine ⟨h.once, ?_, ?_, ?_, h.below, fun creation _ => hnone creation⟩
  · rw [h.queue]
    exact List.Pairwise.nil
  · exact fun p _ _ => hnone p.creation
  · rw [h.queue]
    exact fun p hp => absurd hp List.not_mem_nil

/-- A step that adds at most one record, and one of a new creation if it is of a creation. -/
theorem Recorded.queue (hs : s.Recorded) (hevents : ∀ creation, s'.events creation ≤ s.events creation)
    (hcreations : s.creations ≤ s'.creations)
    (hrunning : ∀ process ∈ s'.running, process.creation < s'.creations)
    (hqueue : s'.lQueuedProcessEvents = s.lQueuedProcessEvents ∨
      ∃ p, s'.lQueuedProcessEvents = s.lQueuedProcessEvents ++ [p] ∧ p.creation < s'.creations ∧
        (p.bCreate = true → s.creations ≤ p.creation)) : s'.Recorded := by
  have honce : s'.Once := fun creation => (hevents creation).trans (hs.once creation)
  have hlater : ∀ creation, s'.creations ≤ creation → s'.events creation = 0 := by
    intro creation hle
    exact Nat.le_zero.mp ((hevents creation).trans_eq (hs.later creation (hcreations.trans hle)))
  have hunreported : ∀ p ∈ s.lQueuedProcessEvents, p.bCreate = true → s'.events p.creation = 0 := by
    intro p hp hcreate
    exact Nat.le_zero.mp ((hevents _).trans_eq (hs.unreported p hp hcreate))
  have hbelow : ∀ p ∈ s.lQueuedProcessEvents, p.creation < s'.creations :=
    fun p hp => (hs.below p hp).trans_le hcreations
  rcases hqueue with hsame | ⟨p, hadd, hless, hnew⟩
  · refine ⟨honce, ?_, ?_, ?_, hrunning, hlater⟩
    · rw [hsame]
      exact hs.distinct
    · rw [hsame]
      exact hunreported
    · rw [hsame]
      exact hbelow
  · refine ⟨honce, ?_, ?_, ?_, hrunning, hlater⟩
    · rw [hadd, List.pairwise_append]
      refine ⟨hs.distinct, List.pairwise_singleton .., fun q hq p' hp' _ hcreate => ?_⟩
      obtain rfl := List.mem_singleton.mp hp'
      exact ((hs.below q hq).trans_le (hnew hcreate)).ne
    · rw [hadd]
      intro q hq hcreate
      rcases List.mem_append.mp hq with hold | hnewest
      · exact hunreported q hold hcreate
      · obtain rfl := List.mem_singleton.mp hnewest
        exact Nat.le_zero.mp ((hevents _).trans_eq (hs.later _ (hnew hcreate)))
    · rw [hadd]
      intro q hq
      rcases List.mem_append.mp hq with hold | hnewest
      · exact hbelow q hold
      · obtain rfl := List.mem_singleton.mp hnewest
        exact hless

theorem Recorded.keep (hs : s.Recorded) (hevents : ∀ creation, s'.events creation ≤ s.events creation)
    (hkeeps : s'.lQueuedProcessEvents = s.lQueuedProcessEvents ∧ s'.running = s.running ∧
      s'.creations = s.creations) : s'.Recorded := by
  obtain ⟨hqueue, hrunning, hcreations⟩ := hkeeps
  refine hs.queue hevents hcreations.ge ?_ (.inl hqueue)
  rw [hrunning, hcreations]
  exact hs.running

/-- The loop takes a record, and tells the monitor at most of its creation. -/
theorem getProcInfo_takes (h : next w allowed s .getProcInfo = some s') : ∃ p queue,
    s.lQueuedProcessEvents = p :: queue ∧ s'.lQueuedProcessEvents = queue ∧
      s'.running = s.running ∧ s'.creations = s.creations ∧
      ∀ creation ∈ s.raises .getProcInfo, p.bCreate = true ∧ p.creation = creation := by
  simp only [next] at h
  split at h
  · split at h
    · cases h
    · rename_i p queue hqueue
      have hraises : ∀ creation ∈ s.raises .getProcInfo, p.bCreate = true ∧ p.creation = creation := by
        intro creation hcreation
        have hcreation : s.raises .getProcInfo = some creation := hcreation
        rw [raises, hqueue, List.head?_cons, Option.bind_some] at hcreation
        split at hcreation
        · rename_i htells
          exact ⟨htells.2, Option.some.inj hcreation⟩
        · cases hcreation
      split at h
      · obtain rfl := Option.some.inj h
        exact ⟨p, queue, hqueue, rfl, rfl, rfl, hraises⟩
      · obtain rfl := Option.some.inj h
        exact ⟨p, queue, hqueue, rfl, rfl, rfl, hraises⟩
  · cases h

theorem Recorded.getProcInfo (hs : s.Recorded)
    (h : ProcessThreads.next w allowed s .getProcInfo = some s') : s'.Recorded := by
  have hcounts := next_counts h
  obtain ⟨p, queue, hqueue, hafter, hrunning, hcreations, hraises⟩ := getProcInfo_takes h
  have hmem : p ∈ s.lQueuedProcessEvents := by
    rw [hqueue]
    exact List.mem_cons_self
  have hdistinct := hs.distinct
  rw [hqueue, List.pairwise_cons] at hdistinct
  -- only the creation of the record may have an event more
  have hother : ∀ creation, creation ∉ s.raises .getProcInfo → s'.events creation ≤ s.events creation := by
    intro creation hnot
    have hnot : s.raises .getProcInfo ≠ some creation := hnot
    obtain ⟨excluded, hcount, -⟩ := hcounts.events creation
    rw [if_neg hnot] at hcount
    omega
  refine ⟨fun creation => ?_, ?_, ?_, ?_, ?_, ?_⟩
  · by_cases hraised : creation ∈ s.raises .getProcInfo
    · obtain ⟨hcreate, rfl⟩ := hraises creation hraised
      obtain ⟨excluded, hcount, -⟩ := hcounts.events p.creation
      rw [if_pos (Option.mem_def.mp hraised), hs.unreported p hmem hcreate] at hcount
      omega
    · exact (hother creation hraised).trans (hs.once creation)
  · rw [hafter]
    exact hdistinct.2
  · rw [hafter]
    intro q hq hcreate
    have hnot : q.creation ∉ s.raises .getProcInfo := by
      intro hraised
      obtain ⟨hp, hsame⟩ := hraises _ hraised
      exact hdistinct.1 q hq hp hcreate hsame
    have hq : q ∈ s.lQueuedProcessEvents := by
      rw [hqueue]
      exact List.mem_cons_of_mem p hq
    exact Nat.le_zero.mp ((hother _ hnot).trans_eq (hs.unreported q hq hcreate))
  · rw [hafter, hcreations]
    intro q hq
    refine hs.below q ?_
    rw [hqueue]
    exact List.mem_cons_of_mem p hq
  · rw [hrunning, hcreations]
    exact hs.running
  · rw [hcreations]
    intro creation hlater
    have hnot : creation ∉ s.raises .getProcInfo := by
      intro hraised
      obtain ⟨-, rfl⟩ := hraises creation hraised
      exact absurd (hs.below p hmem) (Nat.not_lt.mpr hlater)
    exact Nat.le_zero.mp ((hother _ hnot).trans_eq (hs.later creation hlater))

/-- A step in which no lookup tells the monitor. -/
theorem Recorded.next {a : ThreadAction} (hs : s.Recorded) (hok : s.OnlyRecords a)
    (h : next w allowed s a = some s') : s'.Recorded := by
  have hcounts := next_counts h
  -- where nothing is told, no creation has more events
  have hevents : s.raises a = none → ∀ creation, s'.events creation ≤ s.events creation := by
    intro hraises creation
    obtain ⟨excluded, hcount, -⟩ := hcounts.events creation
    rw [hraises] at hcount
    simp only [reduceCtorEq, if_false] at hcount
    omega
  cases a with
  | create process recorded =>
      have hevents := hevents rfl
      simp only [ProcessThreads.next] at h
      split at h
      · cases h
      · obtain rfl := Option.some.inj h
        refine hs.queue hevents (Nat.le_succ _) (fun process hprocess => ?_) ?_
        · rcases List.mem_append.mp hprocess with hold | hnew
          · exact Nat.lt_succ_of_lt (hs.running process hold)
          · obtain rfl := List.mem_singleton.mp hnew
            exact Nat.lt_succ_self _
        · cases recorded with
          | false => exact .inl rfl
          | true => exact .inr ⟨_, rfl, Nat.lt_succ_self _, fun _ => Nat.le_refl _⟩
  | terminate processId recorded =>
      have hevents := hevents rfl
      obtain ⟨process, hprocess, rfl⟩ := Option.map_eq_some_iff.mp h
      have hmem : process ∈ s.running := List.mem_of_find?_eq_some hprocess
      refine hs.queue hevents (Nat.le_refl _) (fun process hprocess => ?_) ?_
      · exact hs.running process (List.mem_of_mem_filter hprocess)
      · cases recorded with
        | false => exact .inl rfl
        | true => exact .inr ⟨_, rfl, hs.running process hmem, fun hcreate => Bool.noConfusion hcreate⟩
  | setProcessMonitor =>
      obtain rfl := Option.some.inj h
      exact hs.keep (hevents rfl) ⟨rfl, rfl, rfl⟩
  | lookup thread processId =>
      have hevents := hevents rfl
      simp only [ProcessThreads.next] at h
      split at h
      · obtain rfl := Option.some.inj h
        exact hs.keep hevents ⟨rfl, rfl, rfl⟩
      · cases h
  | getProcInfo => exact hs.getProcInfo h
  | run thread =>
      have hevents := hevents (hok (by simp))
      simp only [ProcessThreads.next] at h
      split at h
      · cases h
      · rename_i frame rest hframes
        exact hs.keep hevents (runFrame_counts hframes h).2
  | refuse thread =>
      have hevents := hevents rfl
      simp only [ProcessThreads.next] at h
      split at h
      · obtain rfl := Option.some.inj h
        exact hs.keep hevents ⟨rfl, rfl, rfl⟩
      · cases h

/-- **The records by themselves** report each creation at most once: it takes a lookup that tells
the monitor for a second event. -/
theorem records_report_once (w : Windows) (allowed : WString → WString → WString → Bool)
    (as : List ThreadAction) (s₀ : ProcessThreads) (hstart : Start w s₀)
    (hmeets : (machine w allowed).Meets OnlyRecords as s₀) :
    (machine w allowed).Throughout ReportedOnce as s₀ :=
  Machine.throughout_of_meets (fun _ hs => hs.once.reportedOnce)
    (fun _ _ _ hs hok hnext => hs.next hok hnext) hstart.recorded hmeets

/-! ### A thread that is left alone -/

/-- One thread goes on alone until it has `frames` to do, with what it makes of the manager. -/
structure Alone (w : Windows) (allowed : WString → WString → WString → Bool)
    (thread : MonitorThread) (s : ProcessThreads) (manager : ProcessState) (frames : List Frame)
    (s' : ProcessThreads) : Prop where
  steps : (machine w allowed).Steps (fun _ a => a = .run thread) s s'
  manager : s'.manager = manager
  frames : s'.frames = Function.update s.frames thread frames
  running : s'.running = s.running

section Alone
variable {thread : MonitorThread} {manager manager₁ : ProcessState} {frame : Frame}
  {frames frames₁ rest : List Frame} {s₁ s₂ : ProcessThreads}

theorem Alone.frames_self (h : Alone w allowed thread s manager frames s') :
    s'.frames thread = frames := by
  rw [h.frames, Function.update_self]

theorem Alone.trans (h : Alone w allowed thread s manager₁ frames₁ s₁)
    (h' : Alone w allowed thread s₁ manager frames s₂) :
    Alone w allowed thread s manager frames s₂ where
  steps := h.steps.trans h'.steps
  manager := h'.manager
  frames := by rw [h'.frames, h.frames, Function.update_idem]
  running := h'.running.trans h.running

/-- One step. -/
theorem Alone.one (hframes : s.frames thread = frame :: rest)
    (hrun : runFrame w allowed s thread rest frame = some s₁)
    (hafter : s₁.frames = Function.update s.frames thread frames) (hrunning : s₁.running = s.running) :
    Alone w allowed thread s s₁.manager frames s₁ := by
  refine ⟨?_, rfl, hafter, hrunning⟩
  have hnext : (machine w allowed).next s (.run thread) = some s₁ := by
    show next w allowed s (.run thread) = some s₁
    rw [next, hframes]
    exact hrun
  exact Machine.Steps.refl.step rfl hnext

theorem Alone.set (hframes : s.frames thread = frame :: rest)
    (hrun : runFrame w allowed s thread rest frame = some (s.setFrames thread frames)) :
    Alone w allowed thread s s.manager frames (s.setFrames thread frames) :=
  .one hframes hrun rfl rfl

theorem Alone.then_set (h : Alone w allowed thread s manager (frame :: rest) s₁)
    (hrun : runFrame w allowed s₁ thread rest frame = some (s₁.setFrames thread frames)) :
    Alone w allowed thread s manager frames (s₁.setFrames thread frames) := by
  have hset := Alone.set h.frames_self hrun
  rw [h.manager] at hset
  exact h.trans hset

/-- Round after round the path is not found. -/
theorem lookup_missing (w : Windows) (allowed : WString → WString → WString → Bool) {processId : Nat}
    (hsystem : processId ≠ 4) (retryCount : Nat) : ∀ {s : ProcessThreads}, s.manager.processMap processId = none →
      s.frames thread = .lookup processId (retryCount + 1) :: rest →
        ∃ s', Alone w allowed thread s s.manager (.openProcess processId :: rest) s' := by
  induction retryCount with
  | zero =>
      intro s hmissing hframes
      refine ⟨_, .set hframes ?_⟩
      simp [runFrame, hsystem, hmissing]
  | succ retryCount ih =>
      intro s hmissing hframes
      have hone : Alone w allowed thread s s.manager (.lookup processId (retryCount + 1) :: rest)
          (s.setFrames thread (.lookup processId (retryCount + 1) :: rest)) := by
        refine .set hframes ?_
        simp [runFrame, hsystem, hmissing]
      obtain ⟨s', hrest⟩ := ih (s := s.setFrames thread (.lookup processId (retryCount + 1) :: rest))
        hmissing hone.frames_self
      exact ⟨s', hone.trans hrest⟩

/-- What the model of the manager says of the processes that run. -/
def processes (s : ProcessThreads) : List RunningProcess := s.running.map (·.toRunningProcess)

theorem find_processes (s : ProcessThreads) (processId : Nat) :
    (s.processes.find? fun process => process.processId = processId) =
      (s.find processId).map (·.toRunningProcess) := by
  rw [processes, List.find?_map]
  rfl

/-- A function that looks paths up does what a thread does that looks one up. -/
def Refines (w : Windows) (allowed : WString → WString → WString → Bool)
    (running : List NumberedProcess)
    (getProcessPath : ProcessState → Nat → Option (ProcessState × WString)) : Prop :=
  ∀ (thread : MonitorThread) (s : ProcessThreads) (processId : Nat) (manager : ProcessState)
    (path : WString) (rest : List Frame), s.running = running →
    getProcessPath s.manager processId = some (manager, path) →
    s.frames thread = .lookup processId 10 :: rest →
      ∃ s', Alone w allowed thread s manager (receive path rest) s'

theorem isEventAllowed_alone {call : ProcessCall} {processPath name parentName parentPath : WString}
    (hframes : s.frames thread =
      .isEventAllowed call processPath name parentName parentPath :: rest) :
    ∃ s', Alone w allowed thread s
      (report allowed s.manager (call.event processPath name parentName parentPath)) rest s' := by
  obtain ⟨s', hrun, hmanager, hafter, hrunning⟩ : ∃ s', runFrame w allowed s thread rest
      (.isEventAllowed call processPath name parentName parentPath) = some s' ∧
      s'.manager = report allowed s.manager (call.event processPath name parentName parentPath) ∧
      s'.frames = Function.update s.frames thread rest ∧ s'.running = s.running :=
    ⟨_, rfl, rfl, rfl, rfl⟩
  rw [← hmanager]
  exact ⟨s', Alone.one hframes hrun hafter hrunning⟩

/-- **The handler**, by a thread that is left alone. -/
theorem onProcessEvent_alone {getProcessPath : ProcessState → Nat → Option (ProcessState × WString)}
    (hpath : Refines w allowed s.running getProcessPath) {call : ProcessCall}
    (h : onProcessEvent w allowed getProcessPath s.manager call.create call.processId
      call.parentProcessId = some manager)
    (hframes : s.frames thread = .lookup call.processId 10 :: .processPath call :: rest) :
    ∃ s', Alone w allowed thread s manager rest s' := by
  obtain ⟨m₁, path, m₂, m₃, namePath, m₄, parentNamePath, m₅, parentPath, h₁, h₂, h₃, h₄, h₅, rfl⟩ :=
    onProcessEvent_cases h
  obtain ⟨s₁, alone₁⟩ := hpath thread s _ _ _ _ rfl h₁ hframes
  -- the manager is told
  let s₂ : ProcessThreads := { s₁ with manager := m₂ }.setFrames thread
    (.lookup call.processId 10 :: .processModuleName call path :: rest)
  have alone₂ : Alone w allowed thread s₁ m₂
      (.lookup call.processId 10 :: .processModuleName call path :: rest) s₂ := by
    have hrun : runFrame w allowed s₁ thread rest (.onManagerEvent call path) = some s₂ := by
      rw [runFrame, alone₁.manager, h₂]
      rfl
    exact Alone.one alone₁.frames_self hrun rfl rfl
  have hto₂ := alone₁.trans alone₂
  obtain ⟨s₃, alone₃⟩ := hpath thread s₂ _ _ _ _ hto₂.running h₃ alone₂.frames_self
  have hto₃ := hto₂.trans alone₃
  have h₄ : getProcessPath s₃.manager call.parentProcessId = some (m₄, parentNamePath) := by
    rw [alone₃.manager]
    exact h₄
  obtain ⟨s₄, alone₄⟩ := hpath thread s₃ _ _ _ _ hto₃.running h₄ alone₃.frames_self
  have hto₄ := hto₃.trans alone₄
  have h₅ : getProcessPath s₄.manager call.parentProcessId = some (m₅, parentPath) := by
    rw [alone₄.manager]
    exact h₅
  obtain ⟨s₅, alone₅⟩ := hpath thread s₄ _ _ _ _ hto₄.running h₅ alone₄.frames_self
  have hto₅ := hto₄.trans alone₅
  -- the event is checked
  have hcheck : ∃ s', Alone w allowed thread s₅ (report allowed s₅.manager (call.event path
      (moduleName namePath) (moduleName parentNamePath) parentPath)) rest s' :=
    isEventAllowed_alone alone₅.frames_self
  obtain ⟨s₆, alone₆⟩ := hcheck
  rw [alone₅.manager] at alone₆
  exact ⟨s₆, hto₅.trans alone₆⟩

/-- The monitor is told of a process that runs. -/
theorem tellMonitor_alone {getProcessPath : ProcessState → Nat → Option (ProcessState × WString)}
    {process : NumberedProcess} (hpath : Refines w allowed s.running getProcessPath)
    (hprocess : s.find process.processId = some process)
    (h : tellMonitor w allowed getProcessPath s.manager process.toRunningProcess process.processId =
      some manager)
    (hframes : s.frames thread = .tellMonitor process :: rest) :
    ∃ s', Alone w allowed thread s manager (.told process :: rest) s' := by
  unfold ProcessManager.tellMonitor at h
  split at h
  · rename_i hmonitor
    let call : ProcessCall :=
      { create := true, processId := process.processId
        parentProcessId := s.getParentProcessId process.processId, creation := process.creation }
    have hcall : Alone w allowed thread s s.manager
        (.lookup process.processId 10 :: .processPath call :: .told process :: rest)
        (s.setFrames thread
          (.lookup process.processId 10 :: .processPath call :: .told process :: rest)) := by
      refine .set hframes ?_
      rw [runFrame, if_pos hmonitor]
    have hparent : call.parentProcessId = process.parentId := by
      show s.getParentProcessId process.processId = process.parentId
      rw [getParentProcessId, hprocess]
      rfl
    have h : onProcessEvent w allowed getProcessPath s.manager call.create call.processId
        call.parentProcessId = some manager := by
      rw [hparent]
      exact h
    have hhandler : ∃ s', Alone w allowed thread (s.setFrames thread
        (.lookup process.processId 10 :: .processPath call :: .told process :: rest)) manager
        (.told process :: rest) s' :=
      onProcessEvent_alone hpath h hcall.frames_self
    obtain ⟨s', hs'⟩ := hhandler
    exact ⟨s', hcall.trans hs'⟩
  · rename_i hmonitor
    obtain rfl := Option.some.inj h
    refine ⟨_, .set hframes ?_⟩
    rw [runFrame, if_neg hmonitor]

/-- A process that was not found is opened, put in and told of. -/
theorem openProcess_alone {getProcessPath : ProcessState → Nat → Option (ProcessState × WString)}
    {processId : Nat} {process : NumberedProcess} {path : WString}
    (hpath : Refines w allowed s.running getProcessPath) (hprocess : s.find processId = some process)
    (h : (do
      let manager ← insertProcess w s.manager processId process.image
      let manager ← tellMonitor w allowed getProcessPath manager process.toRunningProcess processId
      let path ← convertFileObjectPathToDOSPath w process.image
      return (manager, path)) = some (manager, path))
    (hframes : s.frames thread = .openProcess processId :: rest) :
    ∃ s', Alone w allowed thread s manager (receive path rest) s' := by
  obtain rfl : process.processId = processId := by
    simpa using List.find?_some hprocess
  obtain ⟨m₁, h₁, h⟩ := Option.bind_eq_some_iff.mp h
  obtain ⟨m₂, h₂, h⟩ := Option.bind_eq_some_iff.mp h
  obtain ⟨path', hconvert, h⟩ := Option.bind_eq_some_iff.mp h
  obtain ⟨rfl, rfl⟩ := Prod.mk.inj (Option.some.inj h)
  have alone₁ : Alone w allowed thread s s.manager (.insertProcess process :: rest)
      (s.setFrames thread (.insertProcess process :: rest)) := by
    refine .set hframes ?_
    rw [runFrame, hprocess]
  let s₁ := s.setFrames thread (.insertProcess process :: rest)
  let s₂ : ProcessThreads := { s₁ with manager := m₁ }.setFrames thread (.tellMonitor process :: rest)
  have hinsert : runFrame w allowed s₁ thread rest (.insertProcess process) = some s₂ := by
    rw [runFrame]
    show (insertProcess w s.manager process.processId process.image).bind _ = _
    rw [h₁]
    rfl
  have alone₂ : Alone w allowed thread s₁ m₁ (.tellMonitor process :: rest) s₂ :=
    Alone.one alone₁.frames_self hinsert rfl rfl
  have htell : ∃ s₃, Alone w allowed thread s₂ m₂ (.told process :: rest) s₃ :=
    tellMonitor_alone hpath hprocess h₂ alone₂.frames_self
  obtain ⟨s₃, alone₃⟩ := htell
  refine ⟨_, ((alone₁.trans alone₂).trans alone₃).then_set ?_⟩
  rw [runFrame, hconvert]
  rfl

/-- **A lookup**: a thread that is left alone does what `getProcessPath` does at once. -/
theorem getProcessPath_alone (w : Windows) (allowed : WString → WString → WString → Bool)
    (running : List NumberedProcess) (fuel : Nat) :
    Refines w allowed running
      (getProcessPath w allowed (running.map (·.toRunningProcess)) fuel) := by
  induction fuel with
  | zero =>
      intro thread s processId manager path rest _ h
      cases h
  | succ fuel ih =>
      intro thread s processId manager path rest hrunning h hframes
      subst hrunning
      rw [getProcessPath] at h
      split_ifs at h with hsystem
      · obtain ⟨rfl, rfl⟩ := Prod.mk.inj (Option.some.inj h)
        refine ⟨_, .set hframes ?_⟩
        rw [runFrame, if_pos hsystem]
      · cases hknown : s.manager.processMap processId with
        | some known =>
            rw [hknown] at h
            obtain ⟨rfl, rfl⟩ := Prod.mk.inj (Option.some.inj h)
            refine ⟨_, .set hframes ?_⟩
            rw [runFrame, if_neg hsystem, hknown]
        | none =>
            rw [hknown] at h
            obtain ⟨s₁, alone₁⟩ := lookup_missing w allowed hsystem 9 hknown hframes
            have hfind : s₁.find processId = s.find processId := by
              rw [find, alone₁.running, find]
            have hprocesses := s.find_processes processId
            rw [processes] at hprocesses
            cases hprocess : s.find processId with
            | none =>
                rw [hprocesses, hprocess] at h
                obtain ⟨rfl, rfl⟩ := Prod.mk.inj (Option.some.inj h)
                refine ⟨_, alone₁.then_set ?_⟩
                rw [runFrame, hfind, hprocess]
            | some process =>
                rw [hprocesses, hprocess] at h
                rw [hprocess] at hfind
                rw [← alone₁.manager] at h
                have hpath : Refines w allowed s₁.running
                    (getProcessPath w allowed (s.running.map (·.toRunningProcess)) fuel) := by
                  rw [alone₁.running]
                  exact ih
                obtain ⟨s₂, alone₂⟩ := openProcess_alone hpath hfind h alone₁.frames_self
                exact ⟨s₂, alone₁.trans alone₂⟩

/-- **A round of the loop**, where the other threads do nothing meanwhile, is that of `handleInfo`. -/
theorem handleInfo_alone {p : QueuedProcessInfo} {queue : List QueuedProcessInfo}
    (hidle : s.frames .process = []) (hqueue : s.lQueuedProcessEvents = p :: queue)
    (h : handleInfo w allowed s.processes s.manager p.toProcessInfo = some manager) :
    ∃ s₁ s', next w allowed s .getProcInfo = some s₁ ∧ Alone w allowed .process s₁ manager [] s' := by
  unfold handleInfo at h
  split at h
  · rename_i hdiffers
    have hdiffers : s.Differs p.toProcessInfo := hdiffers
    obtain ⟨m₁, h₁, h⟩ := Option.bind_eq_some_iff.mp h
    obtain rfl := Option.some.inj h
    let call : ProcessCall :=
      { create := p.bCreate, processId := p.processId, parentProcessId := p.parentId
        creation := p.creation }
    let s₁ : ProcessThreads := { s with lQueuedProcessEvents := queue }.setFrames .process
      [.lookup p.processId 10, .processPath call, .handled p.toProcessInfo]
    have hnext : next w allowed s .getProcInfo = some s₁ := by
      simp [next, hidle, hqueue, hdiffers, s₁, call]
    have hpath : Refines w allowed s₁.running (processPath w allowed s.processes) :=
      getProcessPath_alone w allowed s.running _
    have h₁ : onProcessEvent w allowed (processPath w allowed s.processes) s₁.manager call.create
        call.processId call.parentProcessId = some m₁ := h₁
    have hframes : s₁.frames .process =
        [.lookup call.processId 10, .processPath call, .handled p.toProcessInfo] := rfl
    obtain ⟨s₂, alone₂⟩ := onProcessEvent_alone hpath h₁ hframes
    obtain ⟨s', hrun, hmanager, hafter, hrunning⟩ : ∃ s', runFrame w allowed s₂ .process []
        (.handled p.toProcessInfo) = some s' ∧
        s'.manager = { s₂.manager with tempP := (p.bCreate, p.parentId, p.processId) } ∧
        s'.frames = Function.update s₂.frames .process [] ∧ s'.running = s₂.running :=
      ⟨_, rfl, rfl, rfl, rfl⟩
    have alone' := Alone.one alone₂.frames_self hrun hafter hrunning
    rw [hmanager, alone₂.manager] at alone'
    exact ⟨s₁, s', hnext, alone₂.trans alone'⟩
  · rename_i hdiffers
    have hdiffers : ¬ s.Differs p.toProcessInfo := hdiffers
    obtain rfl := Option.some.inj h
    have hnext : next w allowed s .getProcInfo = some { s with lQueuedProcessEvents := queue } := by
      simp [next, hidle, hqueue, hdiffers]
    refine ⟨_, _, hnext, .refl, rfl, ?_, rfl⟩
    rw [← hidle, Function.update_eq_self]

end Alone

/-! ### A process that is looked up before its record is handled -/

/-- The client while one process runs, with no exclusions. -/
def explorer : ProcessThreads where
  manager := { processMonitor := false
               processMap := Function.update (fun _ => none) 8 (some (wideLiteral "C:\\explorer.exe")) }
  running := [{ processId := 8, parentId := 4, image := image "explorer.exe", creation := 0 }]
  creations := 1

/-- The process that it starts. -/
def word : RunningProcess where
  processId := 100
  parentId := 8
  image := image "word.exe"

theorem start_explorer : Start oneVolume explorer where
  manager := ⟨[(8, some (image "explorer.exe"))], rfl⟩
  idle := rfl
  queue := rfl
  reported := rfl
  ids := by decide
  numbers := by decide
  below := by decide

/-- The file monitor looks the path up before the manager is told of the process monitor. -/
def wordOnce : List ThreadAction :=
  [ThreadAction.create word true, ThreadAction.lookup .file 100] ++
    List.replicate 14 (ThreadAction.run .file) ++
    [ThreadAction.setProcessMonitor, ThreadAction.getProcInfo] ++
    List.replicate 7 (ThreadAction.run .process)

/-- The file monitor looks the path up, and then the record is handled. -/
def wordTwice : List ThreadAction :=
  [ThreadAction.setProcessMonitor, ThreadAction.create word true, ThreadAction.lookup .file 100] ++
    List.replicate 20 (ThreadAction.run .file) ++ [ThreadAction.getProcInfo] ++
    List.replicate 7 (ThreadAction.run .process)

theorem word_reported_once :
    (machine oneVolume fun _ _ _ => false).Throughout ReportedOnce wordOnce explorer ∧
      ∃ s, (machine oneVolume fun _ _ _ => false).run wordOnce explorer = some s ∧
        s.reported = [1] ∧ s.ReportedOnce := by
  have hrun : ((machine oneVolume fun _ _ _ => false).run wordOnce explorer).map
      (fun s => (s.reported, decide s.NothingExcluded,
        [MonitorThread.file, .registry, .network, .process].map fun t => (s.frames t).isEmpty)) =
      some ([1], true, [true, true, true, true]) := by
    decide
  have hmeets : (machine oneVolume fun _ _ _ => false).Meets ToldOnce wordOnce explorer := by decide
  obtain ⟨s, hs, hend⟩ := Option.map_eq_some_iff.mp hrun
  simp only [Prod.mk.injEq, List.map_cons, List.map_nil, List.cons.injEq, List.isEmpty_iff,
    decide_eq_true_eq, and_true] at hend
  obtain ⟨hreported, hall, hfile, hregistry, hnetwork, hprocess⟩ := hend
  have hrest : s.AtRest := by
    intro thread
    cases thread with
    | file => exact hfile
    | registry => exact hregistry
    | network => exact hnetwork
    | process => exact hprocess
  have hword := reported_once_iff oneVolume (fun _ _ _ => false) wordOnce explorer start_explorer
  exact ⟨hword.1 hmeets, s, hs, hreported, (hword.2 s hs hrest hall).mpr hmeets⟩

theorem word_reported_twice :
    ¬ ∀ (as : List ThreadAction) (s₀ : ProcessThreads),
      (machine oneVolume fun _ _ _ => false).init s₀ →
        (machine oneVolume fun _ _ _ => false).Throughout ReportedOnce as s₀ := by
  intro hall
  have hrun : ((machine oneVolume fun _ _ _ => false).run wordTwice explorer).map
      (fun s => s.reported) = some [1, 1] := by
    decide
  obtain ⟨s, hs, hreported⟩ := Option.map_eq_some_iff.mp hrun
  have htwice := (hall wordTwice explorer start_explorer).run hs 1
  rw [hreported] at htwice
  exact absurd htwice (by decide)

end ProcessThreads

end CaptureHpc.Client
