/-
# `Server.UrlGroup` — groups of URLs and the controller that queues them

A group that changes its state first changes the state of its URLs and then
notifies `UrlGroupsController`.  The controller keeps the list of groups being
visited, cuts a malicious group of the divide-and-conquer algorithm in two, and
puts a failed group back on the queue for one more visit.

The URLs may throw, and then the controller hears nothing.  Otherwise what
becomes of the groups and queues does not depend on the URLs:
`run_setUrlGroupState` says that one of the two happens.
-/
import CaptureHpc.Server.Url

namespace CaptureHpc.Server

open Java

/-- A `TreeMap<String, String>`; a later `put` hides an earlier one. -/
abbrev StringMap := List (String × String)

namespace UrlGroup

def setVisitStartTime (g : GroupRef) (time : Option String) : Action Unit :=
  storeTime (fun date => updateGroup g fun x => { x with visitStartTime := some date }) time

def setVisitFinishTime (g : GroupRef) (time : Option String) : Action Unit :=
  storeTime (fun date => updateGroup g fun x => { x with visitFinishTime := some date }) time

def setMajorErrorCode (g : GroupRef) (majorErrorCode : Int) : Action Unit :=
  updateGroup g fun x => { x with majorErrorCode := ErrorCode.ofNumber majorErrorCode }

def setAlgorithm (g : GroupRef) (algorithm : Option String) : Action Unit :=
  updateGroup g fun x => { x with algorithm }

def size (x : UrlGroup) : Nat := x.urlList.length

/-- The constructor. -/
def new (urlList : List UrlRef) : Action GroupRef := do
  match urlList with
  | [] => throw .invalidParameter
  | firstUrl :: _ =>
      let first ← readUrl firstUrl
      let g ← Exec.gets ServerState.nextGroup
      Exec.modify fun s => { s with nextGroup := g + 1 }
      updateGroup g fun _ =>
        { urlList, clientProgram := first.clientProgram, visitTime := first.visitTime }
      return g

/-- `getUrl`: the first URL of the group whose escaped form is the given one, decoded and
encoded again. -/
def getUrl (g : GroupRef) (uri : String) : Action UrlRef := do
  let decodedURI ← Exec.orThrow .illegalArgument (urlDecode uri)
  let encodedURI := urlEncode decodedURI
  let group ← readGroup g
  let url ← Exec.gets ServerState.url
  deref (group.urlList.find? fun u => equalsIgnoreCase (Url.getEscapedUrl (url u)) encodedURI)

/-- `writeEventToLog(Map)`. -/
def writeEventsToLog (g : GroupRef) (urlCSVMap : StringMap) : Action Unit := do
  (← readGroup g).urlList.forM fun u => do
    match urlCSVMap.lookup (Url.getUrl (← readUrl u)) with
    | some csv => if csv ≠ "" then Url.writeEventToLog u csv
    | none => pure ()

/-- The log of a group that is larger than one. -/
def appendToLog (g : GroupRef) (event : String) : Action Unit :=
  updateGroup g fun x => { x with logFile := some (x.logFile.getD [] ++ [event]) }

/-- `writeEventToLog(String)`. -/
def writeEventToLog (g : GroupRef) (event : String) : Action Unit := do
  let group ← readGroup g
  match group.urlList with
  | [u] => Url.writeEventToLog u event
  | _ =>
      if group.logFile.isNone then
        let _ ← deref group.visitStartTime
        if (← readConfig).canOpenLog then appendToLog g event
      else appendToLog g event

/-- The verdict of one URL of a bulk group. -/
def setMaliciousFromMap (malicious : Bool) (urlMaliciousMap : Option StringMap) (u : UrlRef) :
    Action Unit := do
  match urlMaliciousMap with
  | none => Url.setMalicious u malicious
  | some map =>
      let stateChanges ← deref (map.lookup (Url.getUrl (← readUrl u)))
      Url.setMalicious u (stateChanges ≠ "")

def setMalicious (g : GroupRef) (algorithm : Option String) (malicious : Bool)
    (urlMaliciousMap : Option StringMap) : Action Unit := do
  updateGroup g fun x => { x with malicious }
  let algorithm ← deref algorithm
  let urlList := (← readGroup g).urlList
  if algorithm ≠ "bulk" then
    if malicious then
      match urlList with
      | [u] => Url.setMalicious u true
      | _ => pure ()
    else urlList.forM fun u => Url.setMalicious u false
  else urlList.forM (setMaliciousFromMap malicious urlMaliciousMap)

end UrlGroup

/-! ## The controller -/

namespace UrlGroupsController

/-- Whether the controller cuts the group in two. -/
def divides (group : UrlGroup) : Action Bool := do
  let algorithm ← deref group.algorithm
  return algorithm = "dac" && group.malicious && 1 < group.size

/-- `urlGroupQueue.push`. -/
def push (g : GroupRef) : Action Unit :=
  Exec.modify fun s => { s with urlGroupQueue := g :: s.urlGroupQueue }

/-- The first half and the rest become groups of their own. -/
def split (urls : List UrlRef) : Action Unit := do
  let b := urls.length / 2
  push (← UrlGroup.new (urls.take b))
  push (← UrlGroup.new (urls.drop b))

/-- Whether an error is one that is retried.  `networkReset` starts out true in the
source, so that every error is. -/
def retry (group : UrlGroup) : Bool :=
  let networkReset := true
  networkReset || group.majorErrorCode = .vmStalled ||
    group.majorErrorCode = .captureClientInactivity ||
    group.majorErrorCode = .captureClientConnectionReset

/-- One URL of a failed group. -/
def failUrl (group : UrlGroup) (u : UrlRef) : Action Unit := do
  Url.setMajorErrorCode u group.majorErrorCode.errorCode
  Url.setUrlState u .error

def update (g : GroupRef) : Action Unit := do
  let group ← readGroup g
  match group.urlGroupState with
  | .visiting => Exec.modify fun s => { s with visitingList := s.visitingList ++ [g] }
  | .visited =>
      Exec.modify fun s => { s with visitingList := s.visitingList.erase g }
      if ← divides group then split group.urlList
  | .error =>
      Exec.modify fun s => { s with visitingList := s.visitingList.erase g }
      let divided ← divides group
      if divided then split group.urlList
      group.urlList.forM (failUrl group)
      if !divided && retry group && group.errorCount ≤ 1 then push g
  | _ => pure ()

/-- How many URLs an initial group takes from the queue. -/
def initialUrlGroupSize (groupSize : Int) (queueSize : Nat) : Int :=
  let size := if (queueSize : Int) < groupSize then (queueSize : Int) else groupSize
  if size = 0 then 1 else size

/-- `takeUrlGroup`, when the URL queue holds what it takes; otherwise the source blocks. -/
def takeUrlGroup : Action GroupRef := do
  match ← Exec.gets ServerState.urlGroupQueue with
  | g :: rest =>
      Exec.modify fun s => { s with urlGroupQueue := rest }
      return g
  | [] =>
      let queue ← Exec.gets ServerState.urlQueue
      let size := (initialUrlGroupSize (← readConfig).groupSize queue.length).toNat
      Exec.modify fun s => { s with urlQueue := queue.drop size }
      UrlGroup.new (queue.take size)

end UrlGroupsController

namespace UrlGroup

/-- What `setUrlGroupState` does to one URL. -/
def passOn (g : GroupRef) (newState : UrlGroupState) (u : UrlRef) : Action Unit := do
  match newState with
  | .visiting => Url.setUrlState u .visiting
  | .visited =>
      if (← readVisit u).majorErrorCode = .ok then Url.setUrlState u .visited
      else Url.setUrlState u .error
  | .error =>
      if (← readVisit u).majorErrorCode = .ok then
        Url.setMajorErrorCode u (← readGroup g).majorErrorCode.errorCode
      Url.setUrlState u .error
  | _ => pure ()

/-- The group in its new state. -/
def enter (newState : UrlGroupState) (x : UrlGroup) : UrlGroup :=
  { x with
    urlGroupState := newState
    errorCount := if newState = .error then x.errorCount + 1 else x.errorCount }

def setUrlGroupState (g : GroupRef) (newState : UrlGroupState) : Action Unit := do
  updateGroup g (enter newState)
  (← readGroup g).urlList.forM (passOn g newState)
  UrlGroupsController.update g

end UrlGroup

/-! ## Frames -/

section Frames
variable (g : GroupRef)

open UrlGroup UrlGroupsController

instance (f : UrlGroup → UrlGroup) :
    (Exec.modify (ServerState.setGroup g f) : Action Unit).Within GroupsOnly := ⟨fun _ => rfl⟩

instance (priority := low) {α : Type} {x : Action α} [h : x.Within StoreOnly] :
    x.Within GroupsOnly := Exec.Within.mono (fun _ _ => StoreOnly.groupsOnly) h

instance (time : Option String) : (UrlGroup.setVisitStartTime g time).Within GroupsOnly := by
  unfold UrlGroup.setVisitStartTime
  infer_instance

instance (time : Option String) : (UrlGroup.setVisitFinishTime g time).Within GroupsOnly := by
  unfold UrlGroup.setVisitFinishTime
  infer_instance

instance (n : Int) : (UrlGroup.setMajorErrorCode g n).Within GroupsOnly := by
  unfold UrlGroup.setMajorErrorCode
  infer_instance

instance (algorithm : Option String) : (setAlgorithm g algorithm).Within GroupsOnly := by
  unfold setAlgorithm
  infer_instance

instance (urlList : List UrlRef) : (UrlGroup.new urlList).Within GroupsOnly := by
  have h : ∀ n, (Exec.modify fun s : ServerState => { s with nextGroup := n } :
      Action Unit).Within GroupsOnly := fun _ => ⟨fun _ => rfl⟩
  unfold UrlGroup.new
  cases urlList <;> infer_instance

instance (uri : String) : (UrlGroup.getUrl g uri).Within StoreOnly := by
  unfold UrlGroup.getUrl
  infer_instance

instance (map : StringMap) : (writeEventsToLog g map).Within StoreOnly := by
  unfold writeEventsToLog
  refine Exec.Within.bind inferInstance fun group => Exec.Within.forM _ fun u _ => ?_
  refine Exec.Within.bind inferInstance fun x => ?_
  cases map.lookup (Url.getUrl x) <;> infer_instance

instance (event : String) : (appendToLog g event).Within GroupsOnly := by
  unfold appendToLog
  infer_instance

instance (event : String) : (writeEventToLog g event).Within GroupsOnly := by
  unfold writeEventToLog
  refine Exec.Within.bind inferInstance fun group => ?_
  split <;> infer_instance

instance (malicious : Bool) (map : Option StringMap) (u : UrlRef) :
    (setMaliciousFromMap malicious map u).Within StoreOnly := by
  unfold setMaliciousFromMap
  cases map <;> infer_instance

instance (algorithm : Option String) (malicious : Bool) (map : Option StringMap) :
    (setMalicious g algorithm malicious map).Within GroupsOnly := by
  have h : ∀ urlList : List UrlRef, (match urlList with
      | [u] => Url.setMalicious u true
      | _ => pure () : Action Unit).Within GroupsOnly := by
    intro urlList
    split <;> infer_instance
  unfold setMalicious
  infer_instance

instance : (push g).Within GroupsOnly := ⟨fun _ => rfl⟩

instance (group : UrlGroup) : (divides group).Within StoreOnly := by
  unfold divides
  infer_instance

instance (urls : List UrlRef) : (split urls).Within GroupsOnly := by
  unfold split
  infer_instance

instance (group : UrlGroup) (u : UrlRef) : (failUrl group u).Within StoreOnly := by
  unfold failUrl
  infer_instance

instance : (update g).Within GroupsOnly := by
  have h : ∀ f : List GroupRef → List GroupRef, (Exec.modify fun s : ServerState =>
      { s with visitingList := f s.visitingList } : Action Unit).Within GroupsOnly :=
    fun _ => ⟨fun _ => rfl⟩
  unfold update
  refine Exec.Within.bind inferInstance fun group => ?_
  cases group.urlGroupState with
  | visiting => exact h fun l => l ++ [g]
  | visited => exact (h fun l => l.erase g).bind fun _ => inferInstance
  | error => exact (h fun l => l.erase g).bind fun _ => inferInstance
  | none => infer_instance
  | queued => infer_instance

instance (newState : UrlGroupState) (u : UrlRef) : (passOn g newState u).Within StoreOnly := by
  unfold passOn
  cases newState <;> infer_instance

instance (newState : UrlGroupState) : (setUrlGroupState g newState).Within GroupsOnly := by
  unfold setUrlGroupState
  infer_instance

end Frames

/-! ## The two outcomes of a transition -/

/-- The URLs threw, or the controller was notified. -/
theorem run_setUrlGroupState (g : GroupRef) (newState : UrlGroupState) (s : ServerState) :
    ∃ s₁, StoreOnly (s.setGroup g (UrlGroup.enter newState)) s₁ ∧
      ((∃ e, (UrlGroup.setUrlGroupState g newState).run s = (.error e, s₁)) ∨
        (UrlGroup.setUrlGroupState g newState).run s = (UrlGroupsController.update g).run s₁) := by
  rw [UrlGroup.setUrlGroupState]
  simp only [Exec.run_modify_bind, Exec.run_gets_bind]
  cases hloop : (List.forM ((s.setGroup g (UrlGroup.enter newState)).group g).urlList
      (UrlGroup.passOn g newState)).run (s.setGroup g (UrlGroup.enter newState)) with
  | mk r s₁ =>
      refine ⟨s₁, Exec.Within.of_run hloop, ?_⟩
      cases r with
      | ok a => exact .inr (Exec.run_bind_ok hloop)
      | error e => exact .inl ⟨e, Exec.run_bind_error hloop⟩

theorem run_update_visiting {g : GroupRef} {s : ServerState}
    (h : (s.group g).urlGroupState = .visiting) :
    (UrlGroupsController.update g).run s =
      (.ok (), { s with visitingList := s.visitingList ++ [g] }) := by
  simp only [UrlGroupsController.update, Exec.run_gets_bind, h, Exec.run_modify]

/-- A group that is being visited makes no other group. -/
theorem of_run_setUrlGroupState_visiting {g : GroupRef} {s s' : ServerState}
    {r : Except JavaException Unit}
    (h : (UrlGroup.setUrlGroupState g .visiting).run s = (r, s')) :
    s'.group = (s.setGroup g (UrlGroup.enter .visiting)).group ∧ s'.nextGroup = s.nextGroup ∧
      s'.urlGroupQueue = s.urlGroupQueue := by
  obtain ⟨s₁, hstore, ⟨e, he⟩ | he⟩ := run_setUrlGroupState g .visiting s
  · obtain rfl : s' = s₁ := congrArg Prod.snd (h.symm.trans he)
    rw [hstore]
    exact ⟨rfl, rfl, rfl⟩
  · have hvisiting : (s₁.group g).urlGroupState = .visiting := by
      rw [hstore]
      simp [ServerState.setGroup, UrlGroup.enter]
    rw [run_update_visiting hvisiting] at he
    obtain rfl := congrArg Prod.snd (h.symm.trans he)
    rw [hstore]
    exact ⟨rfl, rfl, rfl⟩

end CaptureHpc.Server
