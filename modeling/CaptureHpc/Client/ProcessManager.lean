/-
# `Client.ProcessManager` — the path of a process

The manager keeps the path of each process id.  A termination does not remove
it: events of the process may still come.  The comment on `onProcessEvent` says
that a process which is created with the same id takes its place, but the
handler of the creation asks the manager for the path, and puts in what it has
just read from there.

A path that is not in the map is asked of the system, and then the process
monitor is told of the process, which may ask for its parent, and so on up.
`getProcessPath_isSome` says that this ends.
-/
import CaptureHpc.Client.Monitor
import CaptureHpc.Lib.Machine

namespace CaptureHpc.Client

/-- What the system says of drives and names. -/
structure Windows where
  /-- The device of a drive letter. -/
  queryDosDevice : Nat → Option WString
  getLongPathName : WString → Option WString

/-- A process that can be opened, with its image file name. -/
structure RunningProcess where
  processId : Nat
  parentId : Nat
  image : WString

/-- What the driver says of a process that was created or has terminated. -/
structure ProcessInfo where
  parentId : Nat
  processId : Nat
  bCreate : Bool
  processPath : WString

/-- An event, as it is checked and reported. -/
structure ProcessEvent where
  create : Bool
  parentProcessId : Nat
  parentProcessPath : WString
  parentProcessModuleName : WString
  processId : Nat
  processPath : WString
  processModuleName : WString
  deriving DecidableEq

/-- The manager and the monitor. -/
structure ProcessState where
  processMap : Nat → Option WString := fun _ => none
  /-- Whether the manager has been told of the monitor. -/
  processMonitor : Bool := true
  /-- The last event that was handled: whether it was a creation, the parent and the process. -/
  tempP : Bool × Nat × Nat := (false, 0, 0)
  /-- The events that were checked against the exclusions. -/
  checked : List ProcessEvent := []
  /-- Those of them that were reported. -/
  signalled : List ProcessEvent := []

namespace ProcessManager

/-! ## Paths -/

def backslash : Nat := 92

/-- `find(L'\\', start)`; `none` is `npos`. -/
def find (path : WString) (start : Nat) : Option Nat :=
  ((path.drop start).findIdx? (· = backslash)).map (· + start)

section Paths
variable (w : Windows)

def convertDevicePathToDOSDrive (devicePath : WString) : WString :=
  match ((List.range 26).map (· + 65)).find? fun drive =>
      (w.queryDosDevice drive).map cStr = some (cStr devicePath) with
  | some drive => [drive, 58]
  | none => wideLiteral "?:"

/-- `none` is the exception of `substr`. -/
def convertFileObjectPathToDOSPath (fileObjectPath : WString) : Option WString :=
  if fileObjectPath.head? = some backslash ∧ 23 < fileObjectPath.length then do
    let pathOffset ← find fileObjectPath (((find fileObjectPath 1).map (· + 1)).getD 0)
    let dosDrive := convertDevicePathToDOSDrive w (fileObjectPath.take pathOffset)
    let dosPath := dosDrive ++ fileObjectPath.drop pathOffset
    return (w.getLongPathName (cStr dosPath)).getD dosPath
  else some fileObjectPath

/-- What follows the last backslash. -/
def moduleName (processPath : WString) : WString :=
  if backslash ∈ processPath then (processPath.reverse.takeWhile (· ≠ backslash)).reverse
  else wideLiteral "UNKNOWN"

/-! ## The map -/

def insertProcess (s : ProcessState) (processId : Nat) (processPath : WString) :
    Option ProcessState := do
  let processCompletePath ← convertFileObjectPathToDOSPath w processPath
  return { s with processMap := Function.update s.processMap processId processCompletePath }

/-- `ProcessManager::onProcessEvent`. -/
def onManagerEvent (s : ProcessState) (created : Bool) (processId : Nat) (process : WString) :
    Option ProcessState :=
  if created then do
    let process ← convertFileObjectPathToDOSPath w process
    insertProcess w s processId process
  else some s

/-- `initialiseProcessMap`, for the ids with the image file name of those that can be opened. -/
def initialiseProcessMap (s : ProcessState) : List (Nat × Option WString) → Option ProcessState
  | [] => some s
  | (processId, image) :: processes =>
      if processId = 0 then initialiseProcessMap s processes
      else do
        let s ← insertProcess w s processId (image.getD (wideLiteral "<unknown>"))
        initialiseProcessMap s processes

/-! ## Looking up a path -/

variable (allowed : WString → WString → WString → Bool) (running : List RunningProcess)

/-- An event that is not excluded is reported. -/
def report (s : ProcessState) (event : ProcessEvent) : ProcessState :=
  if allowed event.processModuleName event.parentProcessModuleName event.processPath then
    { s with checked := s.checked ++ [event] }
  else { s with checked := s.checked ++ [event], signalled := s.signalled ++ [event] }

/-- `ProcessMonitor::onProcessEvent`. -/
def onProcessEvent (getProcessPath : ProcessState → Nat → Option (ProcessState × WString))
    (s : ProcessState) (create : Bool) (processId parentProcessId : Nat) : Option ProcessState := do
  let (s, processPath) ← getProcessPath s processId
  let s ← onManagerEvent w s create processId processPath
  let (s, namePath) ← getProcessPath s processId
  let (s, parentNamePath) ← getProcessPath s parentProcessId
  let (s, parentProcessPath) ← getProcessPath s parentProcessId
  return report allowed s
    { create, parentProcessId, parentProcessPath, processId, processPath
      parentProcessModuleName := moduleName parentNamePath
      processModuleName := moduleName namePath }

/-- The monitor is told of a process that the manager has found itself. -/
def tellMonitor (getProcessPath : ProcessState → Nat → Option (ProcessState × WString))
    (s : ProcessState) (process : RunningProcess) (processId : Nat) : Option ProcessState :=
  if s.processMonitor then onProcessEvent w allowed getProcessPath s true processId process.parentId
  else some s

/-- `getProcessPath`.  The first argument bounds how many processes are looked up inside one
another. -/
def getProcessPath : Nat → ProcessState → Nat → Option (ProcessState × WString)
  | 0, _, _ => none
  | fuel + 1, s, processId =>
      if processId = 4 then some (s, wideLiteral "System")
      else
        match s.processMap processId with
        | some processPath => some (s, processPath)
        | none =>
            match running.find? fun process => process.processId = processId with
            | none => some (s, wideLiteral "UNKNOWN")
            | some process => do
                let s ← insertProcess w s processId process.image
                let s ← tellMonitor w allowed (getProcessPath fuel) s process processId
                let processPath ← convertFileObjectPathToDOSPath w process.image
                return (s, processPath)

/-- The path, looked up with room for every process that runs. -/
def processPath (s : ProcessState) (processId : Nat) : Option (ProcessState × WString) :=
  getProcessPath w allowed running (running.length + 1) s processId

/-- One round of the loop in `ProcessMonitor::run`. -/
def handleInfo (s : ProcessState) (p : ProcessInfo) : Option ProcessState :=
  if (p.bCreate, p.parentId, p.processId) ≠ s.tempP then do
    let s ← onProcessEvent w allowed (processPath w allowed running) s p.bCreate p.processId p.parentId
    return { s with tempP := (p.bCreate, p.parentId, p.processId) }
  else some s

/-! ## Paths that are converted -/

/-- A long path begins like the path it is made for. -/
def LongPaths : Prop := ∀ path long, w.getLongPathName path = some long →
  path.head? ≠ some backslash → long.head? ≠ some backslash

/-- All paths in the map are converted. -/
def Converted (s : ProcessState) : Prop := ∀ processId path, s.processMap processId = some path →
  convertFileObjectPathToDOSPath w path = some path

variable {w} {allowed} {running} {s s' : ProcessState} {path : WString}

theorem convert_of_head (h : path.head? ≠ some backslash) :
    convertFileObjectPathToDOSPath w path = some path := by
  rw [convertFileObjectPathToDOSPath, if_neg fun hconvert => h hconvert.1]

theorem drive_head (w : Windows) (devicePath rest : WString) : ∃ drive,
    (convertDevicePathToDOSDrive w devicePath ++ rest).head? = some drive ∧
      drive ≠ backslash ∧ drive ≠ 0 := by
  unfold convertDevicePathToDOSDrive
  split
  · rename_i drive hdrive
    have hmem := List.mem_of_find?_eq_some hdrive
    obtain ⟨n, hn, rfl⟩ := List.mem_map.mp hmem
    have hn := List.mem_range.mp hn
    refine ⟨n + 65, rfl, ?_, by omega⟩
    unfold backslash
    omega
  · exact ⟨63, rfl, by decide, by decide⟩

theorem convert_idem (hlong : LongPaths w) {fileObjectPath : WString}
    (h : convertFileObjectPathToDOSPath w fileObjectPath = some path) :
    convertFileObjectPathToDOSPath w path = some path := by
  unfold convertFileObjectPathToDOSPath at h
  split_ifs at h with hconvert
  · obtain ⟨offset, -, hpath⟩ := Option.bind_eq_some_iff.mp h
    obtain ⟨drive, hhead, hslash, hzero⟩ := drive_head w (fileObjectPath.take offset)
      (fileObjectPath.drop offset)
    refine convert_of_head ?_
    obtain rfl := Option.some.inj hpath
    cases hlongPath : w.getLongPathName (cStr (convertDevicePathToDOSDrive w
        (fileObjectPath.take offset) ++ fileObjectPath.drop offset)) with
    | none =>
        rw [Option.getD_none, hhead]
        exact fun heq => hslash (Option.some.inj heq)
    | some long =>
        refine hlong _ _ hlongPath ?_
        obtain ⟨rest, hrest⟩ := List.head?_eq_some_iff.mp hhead
        rw [hrest, cStr, List.takeWhile_cons_of_pos (by simpa using hzero)]
        exact fun heq => hslash (Option.some.inj heq)
  · obtain rfl := Option.some.inj h
    rw [convertFileObjectPathToDOSPath, if_neg hconvert]

/-! ## What a lookup does -/

/-- No entry is lost or changed, apart from that of one process. -/
def Keeps (but : Nat → Prop) (s s' : ProcessState) : Prop :=
  ∀ q path, ¬ but q → s.processMap q = some path → s'.processMap q = some path

/-- What is found of a process. -/
def Found (w : Windows) (running : List RunningProcess) (s : ProcessState) (processId : Nat)
    (path : WString) : Prop :=
  if processId = 4 then path = wideLiteral "System"
  else
    match s.processMap processId with
    | some known => path = known
    | none =>
        match running.find? fun process => process.processId = processId with
        | none => path = wideLiteral "UNKNOWN"
        | some process => convertFileObjectPathToDOSPath w process.image = some path

instance (w : Windows) (running : List RunningProcess) (s : ProcessState) (processId : Nat)
    (path : WString) : Decidable (Found w running s processId path) :=
  if hsystem : processId = 4 then
    decidable_of_iff (path = wideLiteral "System") (by rw [Found, if_pos hsystem])
  else
    match hknown : s.processMap processId with
    | some known => decidable_of_iff (path = known) (by rw [Found, if_neg hsystem, hknown])
    | none =>
        match hprocess : running.find? fun process => process.processId = processId with
        | none => decidable_of_iff (path = wideLiteral "UNKNOWN")
            (by rw [Found, if_neg hsystem, hknown, hprocess])
        | some process =>
            decidable_of_iff (convertFileObjectPathToDOSPath w process.image = some path)
              (by rw [Found, if_neg hsystem, hknown, hprocess])

/-- A lookup finds the path and keeps what is known. -/
structure LooksUp (w : Windows) (running : List RunningProcess) (s : ProcessState) (processId : Nat)
    (s' : ProcessState) (path : WString) : Prop where
  found : Found w running s processId path
  path : convertFileObjectPathToDOSPath w path = some path
  converted : Converted w s'
  keeps : Keeps (fun _ => False) s s'
  tempP : s'.tempP = s.tempP

theorem Keeps.trans {but : Nat → Prop} {s₁ s₂ s₃ : ProcessState} (h : Keeps but s₁ s₂)
    (h' : Keeps but s₂ s₃) : Keeps but s₁ s₃ :=
  fun q path hq hpath => h' q path hq (h q path hq hpath)

theorem Keeps.but {but : Nat → Prop} {s₁ s₂ : ProcessState} (h : Keeps (fun _ => False) s₁ s₂) :
    Keeps but s₁ s₂ :=
  fun q path _ hpath => h q path id hpath

theorem report_processMap (s : ProcessState) (event : ProcessEvent) :
    (report allowed s event).processMap = s.processMap := by
  unfold report
  split <;> rfl

theorem report_tempP (s : ProcessState) (event : ProcessEvent) :
    (report allowed s event).tempP = s.tempP := by
  unfold report
  split <;> rfl

theorem report_checked (s : ProcessState) (event : ProcessEvent) :
    (report allowed s event).checked = s.checked ++ [event] := by
  unfold report
  split <;> rfl

/-- The steps of the handler. -/
theorem onProcessEvent_cases {g : ProcessState → Nat → Option (ProcessState × WString)}
    {create : Bool} {processId parentId : Nat}
    (h : onProcessEvent w allowed g s create processId parentId = some s') :
    ∃ s₁ path s₂ s₃ namePath s₄ parentNamePath s₅ parentPath, g s processId = some (s₁, path) ∧
      onManagerEvent w s₁ create processId path = some s₂ ∧ g s₂ processId = some (s₃, namePath) ∧
      g s₃ parentId = some (s₄, parentNamePath) ∧ g s₄ parentId = some (s₅, parentPath) ∧
      s' = report allowed s₅
        { create, parentProcessId := parentId, parentProcessPath := parentPath, processId
          processPath := path, parentProcessModuleName := moduleName parentNamePath
          processModuleName := moduleName namePath } := by
  obtain ⟨⟨s₁, path⟩, h₁, h⟩ := Option.bind_eq_some_iff.mp h
  obtain ⟨s₂, h₂, h⟩ := Option.bind_eq_some_iff.mp h
  obtain ⟨⟨s₃, namePath⟩, h₃, h⟩ := Option.bind_eq_some_iff.mp h
  obtain ⟨⟨s₄, parentNamePath⟩, h₄, h⟩ := Option.bind_eq_some_iff.mp h
  obtain ⟨⟨s₅, parentPath⟩, h₅, h⟩ := Option.bind_eq_some_iff.mp h
  exact ⟨s₁, path, s₂, s₃, namePath, s₄, parentNamePath, s₅, parentPath, h₁, h₂, h₃, h₄, h₅,
    (Option.some.inj h).symm⟩

theorem insertProcess_cases {processId : Nat} (h : insertProcess w s processId path = some s') :
    ∃ complete, convertFileObjectPathToDOSPath w path = some complete ∧
      s' = { s with processMap := Function.update s.processMap processId complete } := by
  obtain ⟨complete, hcomplete, h⟩ := Option.bind_eq_some_iff.mp h
  exact ⟨complete, hcomplete, (Option.some.inj h).symm⟩

theorem Converted.update (hs : Converted w s) {processId : Nat}
    (hpath : convertFileObjectPathToDOSPath w path = some path) :
    Converted w { s with processMap := Function.update s.processMap processId path } := by
  intro q known hknown
  by_cases hq : q = processId
  · subst hq
    have hknown : Function.update s.processMap q (some path) q = some known := hknown
    rw [Function.update_self] at hknown
    obtain rfl := Option.some.inj hknown
    exact hpath
  · have hknown : Function.update s.processMap processId (some path) q = some known := hknown
    rw [Function.update_of_ne hq] at hknown
    exact hs q known hknown

theorem keeps_update {processId : Nat} {entry : Option WString} :
    Keeps (· = processId) s { s with processMap := Function.update s.processMap processId entry } := by
  intro q known hq hknown
  show Function.update s.processMap processId entry q = some known
  rw [Function.update_of_ne hq]
  exact hknown

/-- The manager puts in the path that it is given. -/
theorem onManagerEvent_cases {create : Bool} {processId : Nat}
    (hpath : convertFileObjectPathToDOSPath w path = some path)
    (h : onManagerEvent w s create processId path = some s') :
    (create = false ∧ s' = s) ∨ (create = true ∧
      s' = { s with processMap := Function.update s.processMap processId path }) := by
  cases create with
  | false => exact .inl ⟨rfl, (Option.some.inj h).symm⟩
  | true =>
      obtain ⟨process, hprocess, h⟩ := Option.bind_eq_some_iff.mp h
      obtain rfl := Option.some.inj (hpath.symm.trans hprocess)
      obtain ⟨complete, hcomplete, rfl⟩ := insertProcess_cases h
      obtain rfl := Option.some.inj (hpath.symm.trans hcomplete)
      exact .inr ⟨rfl, rfl⟩

/-- What the handler does, by the path it finds first. -/
structure Handled (w : Windows) (s : ProcessState) (create : Bool) (processId : Nat)
    (path : WString) (s' : ProcessState) : Prop where
  converted : Converted w s'
  keeps : Keeps (fun q => create = true ∧ q = processId) s s'
  entry : create = true → s'.processMap processId = some path
  tempP : s'.tempP = s.tempP
  event : ∃ event, s'.checked.getLast? = some event ∧ event.processPath = path ∧
    (create = true → event.processModuleName = moduleName path)

/-- **The handler**, whatever function looks the paths up. -/
theorem onProcessEvent_handled {g : ProcessState → Nat → Option (ProcessState × WString)}
    (hg : ∀ s processId s' path, Converted w s → g s processId = some (s', path) →
      LooksUp w running s processId s' path)
    (hs : Converted w s) {create : Bool} {processId parentId : Nat}
    (h : onProcessEvent w allowed g s create processId parentId = some s') :
    ∃ s₁ path, g s processId = some (s₁, path) ∧ Handled w s create processId path s' := by
  obtain ⟨s₁, path, s₂, s₃, namePath, s₄, parentNamePath, s₅, parentPath, h₁, h₂, h₃, h₄, h₅, rfl⟩ :=
    onProcessEvent_cases h
  have hfirst := hg _ _ _ _ hs h₁
  refine ⟨s₁, path, h₁, ?_⟩
  -- the map after the manager has been told
  have hmanager : Converted w s₂ ∧ Keeps (fun q => create = true ∧ q = processId) s₁ s₂ ∧
      (create = true → s₂.processMap processId = some path) ∧ s₂.tempP = s₁.tempP := by
    obtain ⟨rfl, rfl⟩ | ⟨rfl, rfl⟩ := onManagerEvent_cases hfirst.path h₂
    · exact ⟨hfirst.converted, fun _ _ _ h => h, nofun, rfl⟩
    · refine ⟨hfirst.converted.update hfirst.path, fun q known hq => ?_, fun _ => ?_, rfl⟩
      · exact keeps_update q known fun heq => hq ⟨rfl, heq⟩
      · exact Function.update_self ..
  obtain ⟨hconverted, hkeeps, hentry, htempP⟩ := hmanager
  have hname := hg _ _ _ _ hconverted h₃
  have hparentName := hg _ _ _ _ hname.converted h₄
  have hparent := hg _ _ _ _ hparentName.converted h₅
  have hafter : Keeps (fun _ => False) s₂ s₅ := (hname.keeps.trans hparentName.keeps).trans hparent.keeps
  constructor
  · intro q known hknown
    rw [report_processMap] at hknown
    exact hparent.converted q known hknown
  · intro q known hq hknown
    rw [report_processMap]
    exact hafter q known id (hkeeps q known hq (hfirst.keeps q known id hknown))
  · intro hcreate
    rw [report_processMap]
    exact hafter processId path id (hentry hcreate)
  · rw [report_tempP, hparent.tempP, hparentName.tempP, hname.tempP, htempP, hfirst.tempP]
  · refine ⟨_, by rw [report_checked, List.getLast?_concat], rfl, fun hcreate => ?_⟩
    -- the module name is that of the entry, and for the system that of its own path
    have hfound := hname.found
    unfold Found at hfound
    show moduleName namePath = moduleName path
    by_cases hsystem : processId = 4
    · have hsame := hfirst.found
      unfold Found at hsame
      rw [if_pos hsystem] at hfound hsame
      rw [hfound, hsame]
    · rw [if_neg hsystem, hentry hcreate] at hfound
      rw [hfound]

/-- **A lookup** finds the path and keeps what is known. -/
theorem getProcessPath_looksUp (hlong : LongPaths w) (fuel : Nat) :
    ∀ s processId s' path, Converted w s →
      getProcessPath w allowed running fuel s processId = some (s', path) →
      LooksUp w running s processId s' path := by
  induction fuel with
  | zero =>
      intro s processId s' path _ h
      cases h
  | succ fuel ih =>
      intro s processId s' path hs h
      rw [getProcessPath] at h
      split_ifs at h with hsystem
      · obtain ⟨rfl, rfl⟩ := Prod.mk.inj (Option.some.inj h)
        exact ⟨by rw [Found, if_pos hsystem], rfl, hs, fun _ _ _ h => h, rfl⟩
      · cases hknown : s.processMap processId with
        | some known =>
            rw [hknown] at h
            obtain ⟨rfl, rfl⟩ := Prod.mk.inj (Option.some.inj h)
            exact ⟨by rw [Found, if_neg hsystem, hknown], hs _ _ hknown, hs, fun _ _ _ h => h, rfl⟩
        | none =>
            rw [hknown] at h
            cases hprocess : running.find? fun process => process.processId = processId with
            | none =>
                rw [hprocess] at h
                obtain ⟨rfl, rfl⟩ := Prod.mk.inj (Option.some.inj h)
                exact ⟨by rw [Found, if_neg hsystem, hknown, hprocess], rfl, hs, fun _ _ _ h => h, rfl⟩
            | some process =>
                rw [hprocess] at h
                obtain ⟨s₁, h₁, h⟩ := Option.bind_eq_some_iff.mp h
                obtain ⟨s₂, h₂, h⟩ := Option.bind_eq_some_iff.mp h
                obtain ⟨path', hpath', h⟩ := Option.bind_eq_some_iff.mp h
                obtain ⟨rfl, rfl⟩ := Prod.mk.inj (Option.some.inj h)
                obtain ⟨complete, hcomplete, rfl⟩ := insertProcess_cases h₁
                obtain rfl := Option.some.inj (hpath'.symm.trans hcomplete)
                have hpath := convert_idem hlong hpath'
                have hfound : Found w running s processId path' := by
                  rw [Found, if_neg hsystem, hknown, hprocess]
                  exact hpath'
                have hs₁ : Converted w { s with
                    processMap := Function.update s.processMap processId path' } := hs.update hpath
                have hinsert : Keeps (fun _ => False) s { s with
                    processMap := Function.update s.processMap processId path' } := by
                  intro q known _ hq
                  refine keeps_update q known (fun heq => ?_) hq
                  rw [heq, hknown] at hq
                  cases hq
                unfold tellMonitor at h₂
                split_ifs at h₂
                · obtain ⟨s₃, path₃, -, handled⟩ := onProcessEvent_handled ih hs₁ h₂
                  refine ⟨hfound, hpath, handled.converted, fun q known _ hq => ?_, handled.tempP⟩
                  by_cases hsame : q = processId
                  · subst hsame
                    rw [hknown] at hq
                    cases hq
                  · exact handled.keeps q known (fun h => hsame h.2) (hinsert q known id hq)
                · obtain rfl := Option.some.inj h₂
                  exact ⟨hfound, hpath, hs₁, hinsert, rfl⟩

/-! ### The lookup ends -/

/-- The processes that a lookup may ask the system for. -/
def missing (running : List RunningProcess) (processMap : Nat → Option WString) : Nat :=
  running.countP fun process => processMap process.processId = none

/-- All image names can be converted. -/
def Convertible (w : Windows) (running : List RunningProcess) : Prop :=
  ∀ process ∈ running, (convertFileObjectPathToDOSPath w process.image).isSome

theorem missing_le {m m' : Nat → Option WString} (h : ∀ q, (m q).isSome → (m' q).isSome)
    (running : List RunningProcess) : missing running m' ≤ missing running m := by
  refine List.countP_mono_left fun process _ hmissing => ?_
  have hmissing : m' process.processId = none := by simpa using hmissing
  cases hknown : m process.processId with
  | none => simp
  | some known =>
      have hsome := h process.processId (by rw [hknown]; rfl)
      rw [hmissing] at hsome
      cases hsome

theorem Keeps.isSome (h : Keeps (fun _ => False) s s') (q : Nat) (hq : (s.processMap q).isSome) :
    (s'.processMap q).isSome := by
  obtain ⟨known, hknown⟩ := Option.isSome_iff_exists.mp hq
  rw [h q known id hknown]
  rfl

theorem update_isSome (m : Nat → Option WString) (processId : Nat) (path : WString) (q : Nat)
    (hq : (m q).isSome) : (Function.update m processId (some path) q).isSome := by
  by_cases hsame : q = processId
  · rw [hsame, Function.update_self]
    rfl
  · rw [Function.update_of_ne hsame]
    exact hq

theorem missing_lt {m : Nat → Option WString} {process : RunningProcess} (hmem : process ∈ running)
    (hknown : m process.processId = none) (path : WString) :
    missing running (Function.update m process.processId (some path)) < missing running m := by
  obtain ⟨before, after, rfl⟩ := List.append_of_mem hmem
  have hupdate := update_isSome m process.processId path
  have hbefore := missing_le hupdate before
  have hafter := missing_le hupdate after
  have hself : Function.update m process.processId (some path) process.processId ≠ none := by
    rw [Function.update_self]
    exact nofun
  unfold missing at hbefore hafter ⊢
  rw [List.countP_append, List.countP_append, List.countP_cons_of_neg (by simp),
    List.countP_cons_of_pos (by simpa using hknown)]
  omega

theorem onManagerEvent_isSome (hpath : convertFileObjectPathToDOSPath w path = some path)
    (s : ProcessState) (create : Bool) (processId : Nat) :
    (onManagerEvent w s create processId path).isSome := by
  cases create with
  | false => rfl
  | true => simp [onManagerEvent, insertProcess, hpath]

/-- The handler ends if the lookups do that it makes. -/
theorem onProcessEvent_isSome {g : ProcessState → Nat → Option (ProcessState × WString)} {bound : Nat}
    (hg : ∀ s processId s' path, Converted w s → g s processId = some (s', path) →
      LooksUp w running s processId s' path)
    (hends : ∀ s processId, Converted w s → missing running s.processMap < bound → (g s processId).isSome)
    (hs : Converted w s) (hbound : missing running s.processMap < bound) (create : Bool)
    (processId parentId : Nat) :
    (onProcessEvent w allowed g s create processId parentId).isSome := by
  obtain ⟨⟨s₁, path⟩, h₁⟩ := Option.isSome_iff_exists.mp (hends s processId hs hbound)
  have first := hg _ _ _ _ hs h₁
  obtain ⟨s₂, h₂⟩ :=
    Option.isSome_iff_exists.mp (onManagerEvent_isSome first.path s₁ create processId)
  have hmanager : Converted w s₂ ∧ ∀ q, (s₁.processMap q).isSome → (s₂.processMap q).isSome := by
    obtain ⟨-, rfl⟩ | ⟨-, rfl⟩ := onManagerEvent_cases first.path h₂
    · exact ⟨first.converted, fun _ h => h⟩
    · exact ⟨first.converted.update first.path, update_isSome s₁.processMap processId path⟩
  have hbound₁ := (missing_le first.keeps.isSome running).trans_lt hbound
  have hbound₂ := (missing_le hmanager.2 running).trans_lt hbound₁
  obtain ⟨⟨s₃, namePath⟩, h₃⟩ := Option.isSome_iff_exists.mp (hends s₂ processId hmanager.1 hbound₂)
  have name := hg _ _ _ _ hmanager.1 h₃
  have hbound₃ := (missing_le name.keeps.isSome running).trans_lt hbound₂
  obtain ⟨⟨s₄, parentNamePath⟩, h₄⟩ :=
    Option.isSome_iff_exists.mp (hends s₃ parentId name.converted hbound₃)
  have parentName := hg _ _ _ _ name.converted h₄
  have hbound₄ := (missing_le parentName.keeps.isSome running).trans_lt hbound₃
  obtain ⟨⟨s₅, parentPath⟩, h₅⟩ :=
    Option.isSome_iff_exists.mp (hends s₄ parentId parentName.converted hbound₄)
  simp [onProcessEvent, h₁, h₂, h₃, h₄, h₅]

/-- **A lookup ends**: each process that the system is asked for has an entry before the monitor is
told of it. -/
theorem getProcessPath_isSome (hlong : LongPaths w) (hrunning : Convertible w running) (fuel : Nat) :
    ∀ s processId, Converted w s → missing running s.processMap < fuel →
      (getProcessPath w allowed running fuel s processId).isSome := by
  induction fuel with
  | zero =>
      intro s processId _ hfuel
      exact absurd hfuel (Nat.not_lt_zero _)
  | succ fuel ih =>
      intro s processId hs hfuel
      rw [getProcessPath]
      split_ifs with hsystem
      · rfl
      · cases hknown : s.processMap processId with
        | some known => rfl
        | none =>
            cases hprocess : running.find? fun process => process.processId = processId with
            | none => rfl
            | some process =>
                have hmem := List.mem_of_find?_eq_some hprocess
                have hid : process.processId = processId := by
                  simpa using List.find?_some hprocess
                obtain ⟨path, hpath⟩ := Option.isSome_iff_exists.mp (hrunning process hmem)
                have hs₁ : Converted w { s with
                    processMap := Function.update s.processMap processId (some path) } :=
                  hs.update (convert_idem hlong hpath)
                have hless := missing_lt hmem (hid ▸ hknown) path
                rw [hid] at hless
                have htell : (tellMonitor w allowed (getProcessPath w allowed running fuel)
                    { s with processMap := Function.update s.processMap processId path } process
                    processId).isSome := by
                  unfold tellMonitor
                  split_ifs
                  · exact onProcessEvent_isSome (getProcessPath_looksUp hlong fuel) ih hs₁
                      (hless.trans_le (Nat.le_of_lt_succ hfuel)) true processId process.parentId
                  · rfl
                obtain ⟨s₂, h₂⟩ := Option.isSome_iff_exists.mp htell
                simp [insertProcess, hpath, h₂]

/-! ## Runs -/

end Paths

/-- An event of the driver, a monitor that asks for a path, and the manager being told of the
monitor; `running` are the processes that run meanwhile. -/
inductive Action where
  | deliver (running : List RunningProcess) (p : ProcessInfo)
  | lookup (running : List RunningProcess) (processId : Nat)
  | setProcessMonitor

/-- The processes that run during a step. -/
def Action.running : Action → List RunningProcess
  | .deliver running _ => running
  | .lookup running _ => running
  | .setProcessMonitor => []

/-- A creation that was handled: the image of the process, the event that was checked, and the path
that is looked up afterwards. -/
structure Creation where
  image : WString
  event : Option ProcessEvent
  path : Option WString

section Runs
variable (w : Windows) (allowed : WString → WString → WString → Bool)

def next (s : ProcessState) : Action → Option ProcessState
  | .deliver running p => handleInfo w allowed running s p
  | .lookup running processId => (processPath w allowed running s processId).map Prod.fst
  | .setProcessMonitor => some { s with processMonitor := true }

/-- The client from the start on. -/
def machine : Machine ProcessState Action where
  init s := ∃ processes, initialiseProcessMap w { processMonitor := false } processes = some s
  next := next w allowed

/-- The event is handled and is a creation. -/
def Creates (s : ProcessState) (p : ProcessInfo) : Prop :=
  p.bCreate = true ∧ (p.bCreate, p.parentId, p.processId) ≠ s.tempP

instance (s : ProcessState) (p : ProcessInfo) : Decidable (Creates s p) :=
  inferInstanceAs (Decidable (_ ∧ _))

def record (creations : List Creation) (s : ProcessState) (a : Action) (s' : ProcessState) :
    List Creation :=
  match a with
  | .deliver running p =>
      if Creates s p then
        { image := p.processPath, event := s'.checked.getLast?
          path := (processPath w allowed running s' p.processId).map Prod.snd } :: creations
      else creations
  | _ => creations

/-- The machine with the creations that were handled. -/
def creationsMachine : Machine (ProcessState × List Creation) Action :=
  (machine w allowed).recording [] (record w allowed)

/-- The path that is checked and reported, and that is looked up afterwards, is that of the image. -/
def Creation.Fresh (c : Creation) : Prop :=
  ∃ path, convertFileObjectPathToDOSPath w c.image = some path ∧ c.path = some path ∧
    ∃ event, c.event = some event ∧ event.processPath = path ∧
      event.processModuleName = moduleName path

/-- **The condition on a step**: what is known of the id of a new process, in the map or else to the
system, is its own image. -/
def KnowsImage (x : ProcessState × List Creation) : Action → Prop
  | .deliver running p => Creates x.1 p → ∃ path,
      convertFileObjectPathToDOSPath w p.processPath = some path ∧ Found w running x.1 p.processId path
  | _ => True

instance (x : ProcessState × List Creation) (a : Action) : Decidable (KnowsImage w x a) :=
  match a with
  | .deliver running p =>
      match hpath : convertFileObjectPathToDOSPath w p.processPath with
      | none => decidable_of_iff (¬ Creates x.1 p)
          ⟨fun hnot hcreate => absurd hcreate hnot, fun h hcreate => by
            obtain ⟨path, hsome, -⟩ := h hcreate
            exact nomatch hpath.symm.trans hsome⟩
      | some path => decidable_of_iff (Creates x.1 p → Found w running x.1 p.processId path)
          ⟨fun h hcreate => ⟨path, hpath, h hcreate⟩, fun h hcreate => by
            obtain ⟨path', hsome, hfound⟩ := h hcreate
            obtain rfl := Option.some.inj (hpath.symm.trans hsome)
            exact hfound⟩
  | .lookup _ _ => .isTrue trivial
  | .setProcessMonitor => .isTrue trivial

variable {w} {allowed} {running : List RunningProcess} {s s' : ProcessState}

theorem Found.unique {processId : Nat} {path path' : WString} (h : Found w running s processId path)
    (h' : Found w running s processId path') : path = path' := by
  unfold Found at h h'
  split_ifs at h h' with hsystem
  · rw [h, h']
  · cases hknown : s.processMap processId with
    | some known =>
        rw [hknown] at h h'
        exact h.trans h'.symm
    | none =>
        rw [hknown] at h h'
        cases hprocess : running.find? fun process => process.processId = processId with
        | none =>
            rw [hprocess] at h h'
            exact h.trans h'.symm
        | some process =>
            rw [hprocess] at h h'
            exact Option.some.inj (h.symm.trans h')

theorem converted_initialise : ∀ {processes : List (Nat × Option WString)} {s : ProcessState},
    LongPaths w → Converted w s → initialiseProcessMap w s processes = some s' → Converted w s'
  | [], s, _, hs, h => by
      obtain rfl := Option.some.inj h
      exact hs
  | (processId, image) :: processes, s, hlong, hs, h => by
      rw [initialiseProcessMap] at h
      split_ifs at h with hzero
      · exact converted_initialise hlong hs h
      · obtain ⟨s₁, h₁, h⟩ := Option.bind_eq_some_iff.mp h
        obtain ⟨complete, hcomplete, rfl⟩ := insertProcess_cases h₁
        exact converted_initialise hlong (hs.update (convert_idem hlong hcomplete)) h

/-- A creation that is handled is fresh just if what was known of its id is its image. -/
theorem fresh_iff (hlong : LongPaths w) (hs : Converted w s) {p : ProcessInfo}
    (hcreate : Creates s p) (h : handleInfo w allowed running s p = some s') :
    Creation.Fresh w
      { image := p.processPath, event := s'.checked.getLast?
        path := (processPath w allowed running s' p.processId).map Prod.snd } ↔
    ∃ path, convertFileObjectPathToDOSPath w p.processPath = some path ∧
      Found w running s p.processId path := by
  rw [handleInfo, if_pos hcreate.2] at h
  obtain ⟨s₂, h₂, h⟩ := Option.bind_eq_some_iff.mp h
  obtain rfl := Option.some.inj h
  obtain ⟨s₁, path, h₁, handled⟩ := onProcessEvent_handled (getProcessPath_looksUp hlong _) hs h₂
  have first := getProcessPath_looksUp hlong _ _ _ _ _ hs h₁
  obtain ⟨event, hlast, hevent, hname⟩ := handled.event
  have hafter : (processPath w allowed running
      { s₂ with tempP := (p.bCreate, p.parentId, p.processId) } p.processId).map Prod.snd =
        some path := by
    have hentry : s₂.processMap p.processId = some path := handled.entry hcreate.1
    rw [processPath, getProcessPath]
    split_ifs with hsystem
    · have hfound := first.found
      rw [Found, if_pos hsystem] at hfound
      rw [hfound]
      rfl
    · simp only [hentry]
      rfl
  constructor
  · rintro ⟨path', hpath', hlooked, -⟩
    obtain rfl := Option.some.inj (hafter.symm.trans hlooked)
    exact ⟨path, hpath', first.found⟩
  · rintro ⟨path', hpath', hfound⟩
    obtain rfl := first.found.unique hfound
    exact ⟨path, hpath', hafter, event, hlast, hevent, hname hcreate.1⟩

theorem converted_next (hlong : LongPaths w) (hs : Converted w s) {a : Action}
    (h : next w allowed s a = some s') : Converted w s' := by
  cases a with
  | deliver running p =>
      have h : handleInfo w allowed running s p = some s' := h
      unfold handleInfo at h
      split_ifs at h with hrepeat
      · obtain ⟨s₂, h₂, h⟩ := Option.bind_eq_some_iff.mp h
        obtain rfl := Option.some.inj h
        obtain ⟨s₁, path, -, handled⟩ := onProcessEvent_handled (getProcessPath_looksUp hlong _) hs h₂
        exact handled.converted
      · obtain rfl := Option.some.inj h
        exact hs
  | lookup running processId =>
      obtain ⟨⟨s₁, path⟩, h₁, rfl⟩ := Option.map_eq_some_iff.mp h
      exact (getProcessPath_looksUp hlong _ _ _ _ _ hs h₁).converted
  | setProcessMonitor =>
      obtain rfl := Option.some.inj h
      exact hs

/-- Every step can be taken. -/
theorem next_isSome (hlong : LongPaths w) (hs : Converted w s) {a : Action}
    (hrunning : Convertible w a.running) : (next w allowed s a).isSome := by
  have hends : ∀ (running : List RunningProcess), Convertible w running → ∀ s processId,
      Converted w s → missing running s.processMap < running.length + 1 →
        (getProcessPath w allowed running (running.length + 1) s processId).isSome :=
    fun running hrunning => getProcessPath_isSome hlong hrunning _
  have hbound : ∀ running s, missing running s < running.length + 1 :=
    fun running s => Nat.lt_succ_of_le List.countP_le_length
  cases a with
  | deliver running p =>
      show (handleInfo w allowed running s p).isSome
      unfold handleInfo
      split_ifs with hrepeat
      · have hevent : (onProcessEvent w allowed (processPath w allowed running) s p.bCreate
            p.processId p.parentId).isSome :=
          onProcessEvent_isSome (getProcessPath_looksUp hlong _) (hends running hrunning) hs
            (hbound running _) p.bCreate p.processId p.parentId
        obtain ⟨s', hs'⟩ := Option.isSome_iff_exists.mp hevent
        rw [hs']
        rfl
      · rfl
  | lookup running processId =>
      have hlookup := hends running hrunning s processId hs (hbound running _)
      simpa [next, processPath] using hlookup
  | setProcessMonitor => rfl

/-- **Process ids that are used again.**  In every run, all creations are fresh just if at each of
them what was known of the id was the image. -/
theorem creations_fresh_iff (w : Windows) (allowed : WString → WString → WString → Bool)
    (hlong : LongPaths w) (as : List Action) (s₀ : ProcessState)
    (hinit : (machine w allowed).init s₀) (x : ProcessState × List Creation)
    (hrun : (creationsMachine w allowed).run as (s₀, []) = some x) :
    (∀ c ∈ x.2, c.Fresh w) ↔ (creationsMachine w allowed).Meets (KnowsImage w) as (s₀, []) := by
  have hstep : ∀ (x : ProcessState × List Creation) (a : Action) x', Converted w x.1 →
      (creationsMachine w allowed).next x a = some x' → Converted w x'.1 ∧
        ((∀ c ∈ x'.2, c.Fresh w) ↔ (∀ c ∈ x.2, c.Fresh w) ∧ KnowsImage w x a) := by
    intro x a x' hx hnext
    obtain ⟨hs, hrecord⟩ := Machine.of_recording_next hnext
    refine ⟨converted_next hlong hx hs, ?_⟩
    rw [hrecord]
    cases a with
    | deliver running p =>
        simp only [record, KnowsImage]
        by_cases hcreate : Creates x.1 p
        · rw [if_pos hcreate, List.forall_mem_cons, fresh_iff hlong hx hcreate hs]
          simp only [hcreate, true_implies]
          exact and_comm
        · simp [hcreate]
    | lookup running processId => simp [record, KnowsImage]
    | setProcessMonitor => simp [record, KnowsImage]
  obtain ⟨processes, hprocesses⟩ := hinit
  have hempty : Converted w { processMonitor := false } := fun _ path h =>
    nomatch (show none = some path from h)
  have hconverted : Converted w s₀ := converted_initialise hlong hempty hprocesses
  rw [Machine.run_meets_iff hstep hconverted hrun]
  simp

/-- One volume, and names that are long already. -/
def oneVolume : Windows where
  queryDosDevice drive :=
    if drive = 67 then some (wideLiteral "\\Device\\HarddiskVolume1") else none
  getLongPathName := some

def image (name : String) : WString :=
  wideLiteral ("\\Device\\HarddiskVolume1\\" ++ name)

/-- A process that is created or has terminated, and runs or does not run any more. -/
def created (processId : Nat) (name : String) : Action :=
  .deliver [{ processId, parentId := 8, image := image name }]
    { parentId := 8, processId, bCreate := true, processPath := image name }

def terminated (processId : Nat) (name : String) : Action :=
  .deliver [] { parentId := 8, processId, bCreate := false, processPath := image name }

theorem longPaths_oneVolume : LongPaths oneVolume := by
  intro path long hpath hhead
  obtain rfl : path = long := Option.some.inj hpath
  exact hhead

/-- Two processes with ids of their own, and the first once more. -/
theorem own_ids_fresh :
    ∃ x, (creationsMachine oneVolume fun _ _ _ => false).run
        [created 100 "word.exe", created 104 "calc.exe", terminated 100 "word.exe",
          created 100 "word.exe"] ({ processMonitor := false }, []) = some x ∧
      x.2.length = 3 ∧ ∀ c ∈ x.2, c.Fresh oneVolume := by
  have hrun : ((creationsMachine oneVolume fun _ _ _ => false).run
      [created 100 "word.exe", created 104 "calc.exe", terminated 100 "word.exe",
        created 100 "word.exe"] ({ processMonitor := false }, [])).map (fun x => x.2.length) =
      some 3 := by
    decide +kernel
  have hmeets : (creationsMachine oneVolume fun _ _ _ => false).Meets (KnowsImage oneVolume)
      [created 100 "word.exe", created 104 "calc.exe", terminated 100 "word.exe",
        created 100 "word.exe"] ({ processMonitor := false }, []) := by
    decide +kernel
  obtain ⟨x, hx, hlength⟩ := Option.map_eq_some_iff.mp hrun
  exact ⟨x, hx, hlength,
    (creations_fresh_iff oneVolume _ longPaths_oneVolume _ _ ⟨[], rfl⟩ x hx).mpr hmeets⟩

/-- An id is used again for another image. -/
theorem old_path_reported :
    ¬ ∀ (as : List Action) (s₀ : ProcessState),
      (machine oneVolume fun _ _ _ => false).init s₀ → ∀ x : ProcessState × List Creation,
        (creationsMachine oneVolume fun _ _ _ => false).run as (s₀, []) = some x →
          ∀ c ∈ x.2, c.Fresh oneVolume := by
  intro hall
  have hrun : ((creationsMachine oneVolume fun _ _ _ => false).run
      [created 100 "word.exe", terminated 100 "word.exe", created 100 "calc.exe"]
      ({ processMonitor := false }, [])).map (fun x => x.2.head?.map fun c => (c.image, c.path)) =
        some (some (image "calc.exe", some (wideLiteral "C:\\word.exe"))) := by
    decide +kernel
  obtain ⟨x, hx, hhead⟩ := Option.map_eq_some_iff.mp hrun
  obtain ⟨c, hc, hboth⟩ := Option.map_eq_some_iff.mp hhead
  obtain ⟨himage, hpath⟩ := Prod.mk.inj hboth
  obtain ⟨path, hconvert, hlooked, -⟩ :=
    hall _ _ ⟨[], rfl⟩ x hx c (List.mem_of_mem_head? hc)
  rw [hpath] at hlooked
  rw [himage, ← Option.some.inj hlooked] at hconvert
  exact absurd hconvert (by decide +kernel)

end Runs

end ProcessManager

end CaptureHpc.Client
