/-
# `Driver.MessageCallback` — commands that fail half-way

`MessageCallback` of the file monitor driver reads a command from the client's
buffer, and copies events to it or reads a setup from it.  Every access of the
client's memory may fault, and the driver returns the exception as its status.

An error should leave the manager as it was.  It does not where the events that
were copied before the fault are already freed, and a setup is applied as it is
read.  A setup that was read to its end is an error too: its case has no `break`
and goes on into the one for commands that there are not.  `atomic_iff` says
which commands are atomic all the same.
-/
import CaptureHpc.Driver.FileMonitor

namespace CaptureHpc.Driver

open CLayout

/-! ## What the client sends -/

/-- `FILEMONITOR_SETUP` -/
def fileMonitorSetup : List Field :=
  [uchar "bCollectDeletedFiles", ulong "nLogDirectorySize", shorts "wszLogDirectory" 1024]

/-- The commands that there are. -/
inductive FileMonitorCommand where
  | getFileEvents
  | setupMonitor

/-- The number of a command in the message. -/
def FileMonitorCommand.ofNumber (command : BitVec 32) : Option FileMonitorCommand :=
  if command = 0 then some .getFileEvents else if command = 1 then some .setupMonitor else none

abbrev ExceptionCode := BitVec 32

/-- What reading the setup finds, in the order in which it is read. -/
structure SetupRead where
  bCollectDeletedFiles : Except ExceptionCode (BitVec 8)
  nLogDirectorySize : Except ExceptionCode (BitVec 32)
  /-- `bCollectDeletedFiles` once more -/
  collectAgain : Except ExceptionCode (BitVec 8)
  /-- up to the 0; where it faults, what was appended before -/
  wszLogDirectory : Except (ExceptionCode × List (BitVec 16)) (List (BitVec 16))

/-- A message with its buffers, and what becomes of the accesses. -/
structure Message where
  /-- 0 if there is no input buffer -/
  inputBufferSize : Nat
  command : Except ExceptionCode (BitVec 32)
  outputBufferSize : BitVec 32
  /-- the exception when an event is copied, by its place in the queue -/
  copyFault : Nat → Option ExceptionCode
  setup : SetupRead
  /-- There is memory for the log directory. -/
  allocated : Bool

/-! ## The driver -/

inductive NtStatus where
  | success
  | invalidParameter
  | exception (code : ExceptionCode)
deriving DecidableEq

/-- `logDirectory`; its text, if there is a buffer. -/
structure LogDirectory where
  maximumLength : BitVec 16
  buffer : Option (List (BitVec 16))
deriving DecidableEq

/-- `fileManager`, as far as the commands use it. -/
structure FileMonitor where
  lQueuedFileEvents : List Memory
  bCollectDeletedFiles : BitVec 8
  logDirectory : LogDirectory
  lastContactTime : BitVec 32
  time : BitVec 32

structure Reply where
  status : NtStatus
  returnOutputBufferLength : Option Nat := none
  fileManager : FileMonitor

/-- `sizeof(FILE_EVENT)+filePathLength` of a packet. -/
def fileEventSize (packet : Memory) : Nat :=
  (structSize kernelFileEvent +
    (FileEvent.read kernelFileEvent packet 0).filePathLength.toNat) % 2 ^ 32

/-- The loop of `GetFileEvents`: what it returns, and the packets that it leaves. -/
def copyEvents (copyFault : Nat → Option ExceptionCode) (bufferSpace : Nat) :
    Nat → Nat → List Memory → Except ExceptionCode Nat × List Memory
  | _, bufferSpaceUsed, [] => (.ok bufferSpaceUsed, [])
  | i, bufferSpaceUsed, packet :: packets =>
      if bufferSpaceUsed < bufferSpace ∧
          bufferSpace - bufferSpaceUsed ≥ structSize kernelFileEvent then
        if bufferSpace - bufferSpaceUsed ≥ fileEventSize packet then
          match copyFault i with
          | some code => (.error code, packet :: packets)
          | none =>
              -- the packet is freed
              copyEvents copyFault bufferSpace (i + 1) (bufferSpaceUsed + fileEventSize packet) packets
        else (.ok bufferSpaceUsed, packet :: packets)
      else (.ok bufferSpaceUsed, packet :: packets)

/-- The text `\??\`. -/
def kernelPath : List (BitVec 16) := [92, 63, 63, 92]

/-- `logDirectorySize`: the text with its 0, the path, and 2. -/
def logDirectorySize (nLogDirectorySize : BitVec 32) : BitVec 16 :=
  10 + nLogDirectorySize.setWidth 16 + 2

namespace FileMonitor

section Callback
/- The text of a string of a maximum length when a text was appended. -/
variable (stringCat : BitVec 16 → List (BitVec 16) → List (BitVec 16) → List (BitVec 16))

/-- The `try` block of `SetupMonitor`, with the exception that leaves it. -/
def setupMonitor (m : Message) (s : FileMonitor) : Option ExceptionCode × FileMonitor :=
  match m.setup.bCollectDeletedFiles with
  | .error code => (some code, s)
  | .ok collect =>
      if collect ≠ 0 then
        match m.setup.nLogDirectorySize with
        | .error code => (some code, s)
        | .ok nLogDirectorySize =>
            let maximumLength := logDirectorySize nLogDirectorySize
            if m.allocated then
              let s := { s with logDirectory := { maximumLength, buffer := some [] } }
              match m.setup.collectAgain with
              | .error code => (some code, s)
              | .ok bCollectDeletedFiles =>
                  let text := stringCat maximumLength [] kernelPath
                  match m.setup.wszLogDirectory with
                  | .error (code, path) =>
                      let buffer := some (stringCat maximumLength text path)
                      (some code,
                        { s with bCollectDeletedFiles, logDirectory := { maximumLength, buffer } })
                  | .ok path =>
                      let buffer := some (stringCat maximumLength text path)
                      (none,
                        { s with bCollectDeletedFiles, logDirectory := { maximumLength, buffer } })
            else (none, { s with logDirectory := { s.logDirectory with buffer := none } })
      else
        (none, { s with
          bCollectDeletedFiles := 0
          logDirectory := { s.logDirectory with buffer := none } })

def messageCallback (m : Message) (s : FileMonitor) : Reply :=
  if m.inputBufferSize ≥ 4 then
    match m.command with
    | .error code => { status := .exception code, fileManager := s }
    | .ok command =>
        match FileMonitorCommand.ofNumber command with
        | some .getFileEvents =>
            let s := { s with lastContactTime := s.time }
            match copyEvents m.copyFault m.outputBufferSize.toNat 0 0 s.lQueuedFileEvents with
            | (.error code, packets) =>
                { status := .exception code, fileManager := { s with lQueuedFileEvents := packets } }
            | (.ok bufferSpaceUsed, packets) =>
                { status := .success
                  returnOutputBufferLength := some bufferSpaceUsed
                  fileManager := { s with lQueuedFileEvents := packets } }
        | some .setupMonitor =>
            if m.outputBufferSize.toNat = structSize fileMonitorSetup then
              match s.setupMonitor stringCat m with
              | (some code, s) => { status := .exception code, fileManager := s }
              -- `status` is set to `STATUS_SUCCESS`, and then in the case below
              | (none, s) => { status := .invalidParameter, fileManager := s }
            else { status := .invalidParameter, fileManager := s }
        | none => { status := .invalidParameter, fileManager := s }
  else { status := .invalidParameter, fileManager := s }

end Callback

end FileMonitor

/-! ## The loop that copies events -/

/-- How many events fit, one behind the other. -/
def fitting (bufferSpace : Nat) : Nat → List Memory → Nat
  | _, [] => 0
  | bufferSpaceUsed, packet :: packets =>
      if (bufferSpaceUsed < bufferSpace ∧
          bufferSpace - bufferSpaceUsed ≥ structSize kernelFileEvent) ∧
          bufferSpace - bufferSpaceUsed ≥ fileEventSize packet then
        fitting bufferSpace (bufferSpaceUsed + fileEventSize packet) packets + 1
      else 0

theorem fitting_le (bufferSpace : Nat) : ∀ (packets : List Memory) (bufferSpaceUsed : Nat),
    fitting bufferSpace bufferSpaceUsed packets ≤ packets.length := by
  intro packets
  induction packets with
  | nil => exact fun _ => Nat.le_refl 0
  | cons packet packets ih =>
      intro bufferSpaceUsed
      rw [fitting]
      split
      · exact Nat.succ_le_succ (ih _)
      · exact Nat.zero_le _

section Loop
variable {copyFault : Nat → Option ExceptionCode} {bufferSpace : Nat}

/-- The loop copies what fits, up to the first fault. -/
inductive Copied (copyFault : Nat → Option ExceptionCode) (i n : Nat) (packets : List Memory) :
    Except ExceptionCode Nat × List Memory → Prop
  | all {bufferSpaceUsed : Nat} : (∀ j < n, copyFault (i + j) = none) →
      Copied copyFault i n packets (.ok bufferSpaceUsed, packets.drop n)
  | fault {j : Nat} {code : ExceptionCode} : j < n → (∀ k < j, copyFault (i + k) = none) →
      copyFault (i + j) = some code → Copied copyFault i n packets (.error code, packets.drop j)

/-- An event more was copied in front. -/
theorem Copied.cons {i n : Nat} {packets : List Memory} {x : Except ExceptionCode Nat × List Memory}
    (packet : Memory) (hnone : copyFault i = none) (h : Copied copyFault (i + 1) n packets x) :
    Copied copyFault i (n + 1) (packet :: packets) x := by
  have hshift {m : Nat} (hm : ∀ j < m, copyFault (i + 1 + j) = none) :
      ∀ j < m + 1, copyFault (i + j) = none := by
    intro j hj
    cases j with
    | zero => exact hnone
    | succ j =>
        have hnext := hm j (Nat.lt_of_succ_lt_succ hj)
        rw [Nat.add_right_comm] at hnext
        exact hnext
  cases h with
  | all hall => exact .all (hshift hall)
  | fault hj hbefore hcode =>
      rw [Nat.add_right_comm] at hcode
      exact .fault (Nat.succ_lt_succ hj) (hshift hbefore) hcode

/-- **The loop.** -/
theorem copyEvents_copied (packets : List Memory) : ∀ i bufferSpaceUsed : Nat,
    Copied copyFault i (fitting bufferSpace bufferSpaceUsed packets) packets
      (copyEvents copyFault bufferSpace i bufferSpaceUsed packets) := by
  induction packets with
  | nil => exact fun i _ => .all fun j hj => absurd hj (Nat.not_lt_zero j)
  | cons packet packets ih =>
      intro i bufferSpaceUsed
      have hnone {used : Nat} : Copied copyFault i 0 (packet :: packets)
          (.ok used, packet :: packets) := .all fun j hj => absurd hj (Nat.not_lt_zero j)
      rw [copyEvents, fitting]
      by_cases hroom : bufferSpaceUsed < bufferSpace ∧
          bufferSpace - bufferSpaceUsed ≥ structSize kernelFileEvent
      · rw [if_pos hroom]
        by_cases hfits : bufferSpace - bufferSpaceUsed ≥ fileEventSize packet
        · rw [if_pos hfits, if_pos ⟨hroom, hfits⟩]
          cases hfault : copyFault i with
          | none => exact (ih _ _).cons packet hfault
          | some code =>
              exact .fault (Nat.succ_pos _) (fun k hk => absurd hk (Nat.not_lt_zero k)) hfault
        · rw [if_neg hfits, if_neg fun h => hfits h.2]
          exact hnone
      · rw [if_neg hroom, if_neg fun h => hroom h.1]
        exact hnone

/-- The packets are as they were just if nothing was copied. -/
theorem drop_eq_self_iff {n : Nat} {packets : List Memory} (hn : n ≤ packets.length) :
    packets.drop n = packets ↔ n = 0 := by
  constructor
  · intro h
    have hlength := congrArg List.length h
    rw [List.length_drop] at hlength
    omega
  · rintro rfl
    rfl

/-- A fault leaves the packets as they were just if it is the first event that faults. -/
theorem Copied.unchanged_iff {n : Nat} {packets : List Memory}
    {x : Except ExceptionCode Nat × List Memory} (hn : n ≤ packets.length)
    (h : Copied copyFault 0 n packets x) :
    (x.1.isOk = false → x.2 = packets) ↔ copyFault 0 ≠ none ∨ ∀ i < n, copyFault i = none := by
  cases h with
  | all hall =>
      refine ⟨fun _ => .inr fun i hi => ?_, fun _ hok => by cases hok⟩
      rw [← Nat.zero_add i]
      exact hall i hi
  | @fault j code hj hbefore hcode =>
      rw [Nat.zero_add] at hcode
      have hdrop : packets.drop j = packets ↔ j = 0 :=
        drop_eq_self_iff (Nat.le_trans (Nat.le_of_lt hj) hn)
      constructor
      · intro hsame
        obtain rfl : j = 0 := hdrop.mp (hsame rfl)
        exact .inl (by rw [hcode]; exact Option.some_ne_none code)
      · rintro (hfirst | hnone) -
        · refine hdrop.mpr (Nat.eq_zero_of_not_pos fun hpos => hfirst ?_)
          exact hbefore 0 hpos
        · rw [hnone j hj] at hcode
          cases hcode

end Loop

/-! ## Which commands are atomic -/

/-- The command that was received, if one was. -/
def Message.received (m : Message) : Option FileMonitorCommand :=
  if m.inputBufferSize ≥ 4 then
    match m.command with
    | .ok command => FileMonitorCommand.ofNumber command
    | .error _ => none
  else none

/-- The setup is read to its end, and there is memory for the log directory if it needs one. -/
def SetupRead.Complete (setup : SetupRead) (allocated : Bool) : Prop :=
  ∃ collect, setup.bCollectDeletedFiles = .ok collect ∧ (collect ≠ 0 → allocated = true ∧
    setup.nLogDirectorySize.isOk ∧ setup.collectAgain.isOk ∧ setup.wszLogDirectory.isOk)

/-- The message is a setup command that is applied. -/
def Message.Applied (m : Message) : Prop :=
  m.received = some .setupMonitor ∧ m.outputBufferSize.toNat = structSize fileMonitorSetup ∧
    m.setup.Complete m.allocated

namespace FileMonitor

section Atomicity
variable (stringCat : BitVec 16 → List (BitVec 16) → List (BitVec 16) → List (BitVec 16))

/-- The log directory, the collect flag and the event queue are the same. -/
def Same (s s' : FileMonitor) : Prop :=
  s'.logDirectory = s.logDirectory ∧ s'.bCollectDeletedFiles = s.bCollectDeletedFiles ∧
    s'.lQueuedFileEvents = s.lQueuedFileEvents

/-- An error leaves the manager as it was, and a setup that is applied is no error. -/
def Atomic (m : Message) (s : FileMonitor) : Prop :=
  let reply := s.messageCallback stringCat m
  (reply.status ≠ .success → s.Same reply.fileManager) ∧ (m.Applied → reply.status = .success)

/-- A setup that is not applied and changes nothing.  It ends before anything is changed; or there
is no memory and there was no log directory; or it ends later and everything was so before. -/
def SetupHarmless (m : Message) (s : FileMonitor) : Prop :=
  match m.setup.bCollectDeletedFiles with
  | .error _ => True
  | .ok collect =>
      collect ≠ 0 ∧ match m.setup.nLogDirectorySize with
        | .error _ => True
        | .ok nLogDirectorySize =>
            let maximumLength := logDirectorySize nLogDirectorySize
            if m.allocated then
              match m.setup.collectAgain, m.setup.wszLogDirectory with
              | .error _, _ => s.logDirectory = { maximumLength, buffer := some [] }
              | .ok again, .error (_, path) =>
                  let text := stringCat maximumLength [] kernelPath
                  s.bCollectDeletedFiles = again ∧
                    s.logDirectory = { maximumLength, buffer := some (stringCat maximumLength text path) }
              | .ok _, .ok _ => False
            else s.logDirectory.buffer = none

/-- Events are copied, and only the first one faults if any does; or a setup is harmless. -/
def Harmless (m : Message) (s : FileMonitor) : Prop :=
  match m.received with
  | none => True
  | some .getFileEvents =>
      m.copyFault 0 ≠ none ∨
        ∀ i < fitting m.outputBufferSize.toNat 0 s.lQueuedFileEvents, m.copyFault i = none
  | some .setupMonitor =>
      m.outputBufferSize.toNat = structSize fileMonitorSetup → s.SetupHarmless stringCat m

variable {m : Message} (s : FileMonitor)

theorem Same.refl : s.Same s := ⟨rfl, rfl, rfl⟩

/-- What is no command changes nothing. -/
theorem messageCallback_none (h : m.received = none) :
    (s.messageCallback stringCat m).status ≠ .success ∧
      (s.messageCallback stringCat m).fileManager = s := by
  rw [Message.received] at h
  rw [messageCallback]
  split
  · rename_i hsize
    rw [if_pos hsize] at h
    cases hcommand : m.command with
    | error code => exact ⟨by simp, rfl⟩
    | ok command =>
        rw [hcommand] at h
        simp only [h]
        exact ⟨by simp, trivial⟩
  · exact ⟨by simp, rfl⟩

/-- The message has a command in it. -/
theorem command_of_received {command : FileMonitorCommand} (h : m.received = some command) :
    m.inputBufferSize ≥ 4 ∧ ∃ number, m.command = .ok number ∧
      FileMonitorCommand.ofNumber number = some command := by
  rw [Message.received] at h
  split at h
  · rename_i hsize
    refine ⟨hsize, ?_⟩
    cases hnumber : m.command with
    | error code =>
        rw [hnumber] at h
        cases h
    | ok number =>
        rw [hnumber] at h
        exact ⟨number, rfl, h⟩
  · cases h

theorem messageCallback_getFileEvents (h : m.received = some .getFileEvents) :
    let x := copyEvents m.copyFault m.outputBufferSize.toNat 0 0 s.lQueuedFileEvents
    let reply := s.messageCallback stringCat m
    (reply.status = .success ↔ x.1.isOk = true) ∧ reply.fileManager =
      { s with lastContactTime := s.time, lQueuedFileEvents := x.2 } := by
  obtain ⟨hsize, number, hnumber, hcommand⟩ := command_of_received h
  intro x reply
  have hreply : reply = match x with
      | (.error code, packets) =>
          { status := .exception code
            fileManager := { s with lastContactTime := s.time, lQueuedFileEvents := packets } }
      | (.ok bufferSpaceUsed, packets) =>
          { status := .success
            returnOutputBufferLength := some bufferSpaceUsed
            fileManager := { s with lastContactTime := s.time, lQueuedFileEvents := packets } } := by
    show s.messageCallback stringCat m = _
    rw [messageCallback, if_pos hsize]
    simp only [hnumber, hcommand]
    rfl
  rw [hreply]
  rcases x with ⟨code | used, packets⟩
  · refine ⟨⟨?_, ?_⟩, rfl⟩
    · intro hsuccess
      cases hsuccess
    · intro hok
      cases hok
  · exact ⟨⟨fun _ => rfl, fun _ => rfl⟩, rfl⟩

theorem messageCallback_setupMonitor (h : m.received = some .setupMonitor) :
    (s.messageCallback stringCat m).status ≠ .success ∧
      (s.messageCallback stringCat m).fileManager =
        if m.outputBufferSize.toNat = structSize fileMonitorSetup then
          (s.setupMonitor stringCat m).2
        else s := by
  obtain ⟨hsize, number, hnumber, hcommand⟩ := command_of_received h
  rw [messageCallback, if_pos hsize]
  simp only [hnumber, hcommand]
  split
  · rcases s.setupMonitor stringCat m with ⟨_ | code, s'⟩
    · exact ⟨by simp, rfl⟩
    · exact ⟨by simp, rfl⟩
  · exact ⟨by simp, rfl⟩

theorem noBuffer_iff {logDirectory : LogDirectory} :
    { logDirectory with buffer := none } = logDirectory ↔ logDirectory.buffer = none := by
  constructor
  · intro h
    rw [← h]
  · intro h
    rw [← h]

/-- **A setup** that is not applied, and what it leaves. -/
theorem setupMonitor_same_iff :
    s.Same (s.setupMonitor stringCat m).2 ∧ ¬m.setup.Complete m.allocated ↔
      s.SetupHarmless stringCat m := by
  rw [setupMonitor, SetupHarmless, SetupRead.Complete]
  cases hcollect : m.setup.bCollectDeletedFiles with
  | error code => simp [Same]
  | ok collect =>
      by_cases hzero : collect = 0
      · simp [hzero]
      · have hcomplete (P : Prop) : (∃ c, Except.ok collect = (Except.ok c : Except ExceptionCode _) ∧
            (c ≠ 0 → P)) ↔ P := by
          constructor
          · rintro ⟨c, hc, hP⟩
            obtain rfl := Except.ok.inj hc
            exact hP hzero
          · exact fun hP => ⟨collect, rfl, fun _ => hP⟩
        simp only [hcomplete, ne_eq, hzero, not_false_eq_true, if_true, true_and]
        cases m.setup.nLogDirectorySize with
        | error code =>
            exact ⟨fun _ => trivial, fun _ => ⟨Same.refl s, fun h => Bool.false_ne_true h.2.1⟩⟩
        | ok nLogDirectorySize =>
            cases m.allocated with
            | false =>
                rw [and_iff_left fun h => Bool.false_ne_true h.1]
                exact (and_iff_left ⟨rfl, rfl⟩).trans noBuffer_iff
            | true =>
                cases m.setup.collectAgain with
                | error code =>
                    rw [and_iff_left fun h => Bool.false_ne_true h.2.2.1]
                    exact (and_iff_left ⟨rfl, rfl⟩).trans eq_comm
                | ok again =>
                    cases m.setup.wszLogDirectory with
                    | error e =>
                        rw [and_iff_left fun h => Bool.false_ne_true h.2.2.2]
                        exact ⟨fun h => ⟨h.2.1.symm, h.1.symm⟩, fun h => ⟨h.2.symm, h.1.symm, rfl⟩⟩
                    | ok path =>
                        exact ⟨fun h => h.2 ⟨rfl, rfl, rfl, rfl⟩, False.elim⟩

/-- **Atomicity** of a command, for all that may fault. -/
theorem atomic_iff (stringCat : BitVec 16 → List (BitVec 16) → List (BitVec 16) → List (BitVec 16))
    (m : Message) (s : FileMonitor) : s.Atomic stringCat m ↔ s.Harmless stringCat m := by
  rw [Atomic, Harmless]
  cases hreceived : m.received with
  | none =>
      obtain ⟨-, hsame⟩ := messageCallback_none stringCat s hreceived
      refine ⟨fun _ => trivial, fun _ => ⟨fun _ => ?_, fun happlied => ?_⟩⟩
      · rw [hsame]
        exact Same.refl s
      · rw [Message.Applied, hreceived] at happlied
        cases happlied.1
  | some command =>
      cases command with
      | getFileEvents =>
          obtain ⟨hstatus, hafter⟩ :=
            messageCallback_getFileEvents stringCat s hreceived
          have happlied : ¬m.Applied := by
            rintro ⟨hsetup, -⟩
            rw [hreceived] at hsetup
            cases hsetup
          rw [and_iff_left fun h => absurd h happlied, hafter, Ne, hstatus, Bool.not_eq_true]
          refine Iff.trans ?_ ((copyEvents_copied s.lQueuedFileEvents 0 0).unchanged_iff
            (fitting_le _ _ _))
          exact imp_congr_right fun _ => ⟨fun h => h.2.2, fun h => ⟨rfl, rfl, h⟩⟩
      | setupMonitor =>
          obtain ⟨hstatus, hafter⟩ :=
            messageCallback_setupMonitor stringCat s hreceived
          rw [hafter]
          by_cases hsize : m.outputBufferSize.toNat = structSize fileMonitorSetup
          · have happlied : m.Applied ↔ m.setup.Complete m.allocated :=
              ⟨fun h => h.2.2, fun h => ⟨hreceived, hsize, h⟩⟩
            rw [if_pos hsize, happlied]
            refine Iff.trans ?_ ((setupMonitor_same_iff stringCat s).trans ⟨fun h _ => h, fun h => h hsize⟩)
            exact and_congr ⟨fun h => h hstatus, fun h _ => h⟩
              ⟨fun h hcomplete => hstatus (h hcomplete), fun h hcomplete => absurd hcomplete h⟩
          · rw [if_neg hsize]
            exact ⟨fun _ h => absurd h hsize,
              fun _ => ⟨fun _ => Same.refl s, fun h => absurd h.2.1 hsize⟩⟩

end Atomicity

/-! ## The loop and its steps -/

theorem run_step {s s₁ s' : FileManager} {k : Nat} (h : s.messageCallback = some s₁)
    (hrest : FileManager.machine.run (List.replicate k .messageCallback) s₁ = some s') :
    FileManager.machine.run (List.replicate (k + 1) .messageCallback) s = some s' := by
  have hnext : FileManager.machine.next s .messageCallback = some s₁ := h
  rw [List.replicate_succ, Machine.run, hnext, Option.bind_some, hrest]

/-- **The loop** does what its steps do one by one where nothing faults. -/
theorem served (packets : List Memory) : ∀ (s : FileManager) (r : Request) (i : Nat),
    s.lQueuedFileEvents = packets → s.removed = none → s.request = some r →
      ∃ k s', FileManager.machine.run (List.replicate k .messageCallback) s = some s' ∧
        s'.removed = none ∧ s'.request = none ∧
        ∃ response, s'.responses = s.responses ++ [response] ∧
          copyEvents (fun _ => none) r.bufferSpace i r.bufferSpaceUsed packets =
            (.ok response.bytesReturned, s'.lQueuedFileEvents) := by
  induction packets with
  | nil =>
      intro s r i hqueue hremoved hrequest
      have hstep : s.messageCallback = some (s.returned r) := by
        simp only [FileManager.messageCallback, hrequest, hremoved, hqueue]
        rfl
      refine ⟨1, _, run_step hstep rfl, hremoved, rfl, _, rfl, ?_⟩
      rw [copyEvents, FileManager.returned, hqueue]
  | cons packet packets ih =>
      intro s r i hqueue hremoved hrequest
      rw [copyEvents]
      by_cases hroom : r.bufferSpaceUsed < r.bufferSpace ∧
          r.bufferSpace - r.bufferSpaceUsed ≥ structSize kernelFileEvent
      · have hremove : s.messageCallback =
            some { s with lQueuedFileEvents := packets, removed := some packet } := by
          simp only [FileManager.messageCallback, hrequest, hremoved, hqueue]
          exact if_pos hroom
        rw [if_pos hroom]
        by_cases hfits : r.bufferSpace - r.bufferSpaceUsed ≥ fileEventSize packet
        · let s₁ : FileManager := { s with
            lQueuedFileEvents := packets
            fileEvents := s.fileEvents.write r.bufferSpaceUsed
              (packet.bytesAt 0 (fileEventSize packet))
            request := some { r with bufferSpaceUsed := r.bufferSpaceUsed + fileEventSize packet } }
          have hcopy : FileManager.messageCallback
              { s with lQueuedFileEvents := packets, removed := some packet } = some s₁ := by
            simp only [FileManager.messageCallback, hrequest]
            refine (if_pos hfits).trans ?_
            rw [← hremoved]
            rfl
          obtain ⟨k, s', hrun, hnone, hdone, response, hresponses, hloop⟩ :=
            ih s₁ _ (i + 1) rfl hremoved rfl
          rw [if_pos hfits]
          exact ⟨k + 2, s', run_step hremove (run_step hcopy hrun), hnone, hdone, response,
            hresponses, hloop⟩
        · have hback : FileManager.messageCallback
              { s with lQueuedFileEvents := packets, removed := some packet } =
                some (s.returned r) := by
            have hsame : { s with
                lQueuedFileEvents := packet :: packets
                removed := none
                request := some r } = s := by
              rw [← hqueue, ← hremoved, ← hrequest]
            simp only [FileManager.messageCallback, hrequest]
            exact (if_neg hfits).trans (congrArg (fun s => some (FileManager.returned s r)) hsame)
          refine ⟨2, _, run_step hremove (run_step hback rfl), hremoved, rfl, _, rfl, ?_⟩
          rw [if_neg hfits, FileManager.returned, hqueue]
      · have hstep : s.messageCallback = some (s.returned r) := by
          simp only [FileManager.messageCallback, hrequest, hremoved, hqueue]
          exact if_neg hroom
        refine ⟨1, _, run_step hstep rfl, hremoved, rfl, _, rfl, ?_⟩
        rw [if_neg hroom, FileManager.returned, hqueue]

/-! ## Two commands that are not atomic -/

/-- A buffer for events; the access of the second one faults. -/
def secondFaults : Message where
  inputBufferSize := 4
  command := .ok 0
  outputBufferSize := 65536
  copyFault i := if i = 1 then some 0xC0000005 else none
  setup := ⟨.ok 0, .ok 0, .ok 0, .ok []⟩
  allocated := true

/-- Deleted files are not to be collected. -/
def collectNothing : Message :=
  { secondFaults with command := .ok 1, outputBufferSize := 2056 }

def twoEvents : FileMonitor where
  lQueuedFileEvents := [fun _ => 0, fun _ => 0]
  bCollectDeletedFiles := 1
  logDirectory := { maximumLength := 40, buffer := some (kernelPath ++ [67, 58]) }
  lastContactTime := 0
  time := 3

/-- What does not fit is cut off. -/
def cutOff (maximumLength : BitVec 16) (text appended : List (BitVec 16)) : List (BitVec 16) :=
  (text ++ appended).take (maximumLength.toNat / 2)

/-- The first event is gone with the error; the setup is applied, and reports a failure. -/
theorem errors_change_the_manager :
    let polled := twoEvents.messageCallback cutOff secondFaults
    let setUp := twoEvents.messageCallback cutOff collectNothing
    (polled.status = .exception 0xC0000005 ∧ polled.fileManager.lQueuedFileEvents.length = 1) ∧
      collectNothing.Applied ∧ setUp.status = .invalidParameter ∧
        setUp.fileManager.bCollectDeletedFiles = 0 ∧
          setUp.fileManager.logDirectory.buffer = none := by
  have happlied : collectNothing.Applied := by
    refine ⟨rfl, by decide, 0, rfl, fun h => absurd rfl h⟩
  exact ⟨⟨by decide, by decide⟩, happlied, by decide, by decide, by decide⟩

end FileMonitor

end CaptureHpc.Driver
