/-
# `Client.ProcessEvents` — waking up for process events

The driver queues a process event and pulses a notification event: it sets it
and clears it at once.  The client waits for the event a second at a time, and
fetches one process event when it wakes up.  The driver pulses again when it has
handed one out and more are queued, but then the client is in its request, and
does not wait.

A pulse wakes the client if it waits when the event is set, or begins to wait
before it is cleared.  `unseen` counts the pulses of callbacks that have not
done so yet.  As long as no such pulse is over, every event in the queue has a
pulse to come or a fetch to come (`Announced`).
-/
import CaptureHpc.Lib.Machine
import Mathlib.Data.List.Basic

namespace CaptureHpc.Client

/-- `PROCESS_EVENT`, without the path, which the client does not read. -/
structure QueuedProcessEvent where
  /-- The eight fields of the time. -/
  time : BitVec 128 := 0
  parentId : BitVec 32 := 0
  processId : BitVec 32 := 0
  bCreate : Bool := false
deriving DecidableEq

/-- Where `ProcessMonitor::run` is. -/
inductive ProcessMonitorThread where
  /-- About to call `WaitForSingleObject`. -/
  | looping
  | waiting
  /-- Woken up; `DeviceIoControl` is to take an event. -/
  | requesting
  /-- The driver has taken the event and is to count it. -/
  | removed (p : QueuedProcessEvent)
  /-- The driver is to pulse if there are more. -/
  | counted (p : QueuedProcessEvent)
  /-- The driver has set the event and is to clear it. -/
  | pulsing (p : QueuedProcessEvent)
  /-- `DeviceIoControl` has returned. -/
  | dispatching (p : QueuedProcessEvent)

structure ProcessEvents where
  lQueuedProcessEvents : List QueuedProcessEvent := []
  nQueuedProcessEvents : BitVec 32 := 0
  eNewProcessEvent : Bool := false
  /-- Callbacks that have queued their event and are to count it. -/
  inserted : Nat := 0
  /-- Callbacks that are to set the event. -/
  setting : Nat := 0
  /-- Callbacks that are to clear the event. -/
  clearing : Nat := 0
  monitor : ProcessMonitorThread := .looping
  /-- The last event that was dispatched. -/
  tempP : QueuedProcessEvent := {}
  /-- What `onProcessEvent` was called for. -/
  dispatched : List QueuedProcessEvent := []
  /-- Pulses of callbacks that have woken nobody yet; nobody reads it. -/
  unseen : Nat := 0

inductive ProcessAction where
  /-- `ProcessCallback`, up to the count. -/
  | processCallback (p : QueuedProcessEvent)
  | count
  | setEvent
  | clearEvent
  /-- A step of the client. -/
  | run
  /-- The wait ends without the event. -/
  | timeout

namespace ProcessEvents

/-- `KeSetEvent`: a thread that waits is released. -/
def keSetEvent (s : ProcessEvents) : ProcessEvents :=
  { s with
    eNewProcessEvent := true
    monitor := match s.monitor with
      | .waiting => .requesting
      | monitor => monitor }

def keClearEvent (s : ProcessEvents) : ProcessEvents := { s with eNewProcessEvent := false }

/-- An event that repeats the one before is passed over. -/
def dispatch (s : ProcessEvents) (p : QueuedProcessEvent) : ProcessEvents :=
  if p.bCreate ≠ s.tempP.bCreate ∨ p.parentId ≠ s.tempP.parentId ∨
      p.processId ≠ s.tempP.processId then
    { s with dispatched := s.dispatched ++ [p], tempP := p, monitor := .looping }
  else { s with monitor := .looping }

/-- `ProcessMonitor::run`, and `KDispatchIoctl` within it. -/
def runStep (s : ProcessEvents) : Option ProcessEvents :=
  match s.monitor with
  | .looping =>
      if s.eNewProcessEvent then some { s with monitor := .requesting, unseen := s.unseen - 1 }
      else some { s with monitor := .waiting }
  | .waiting => none
  | .requesting =>
      match s.lQueuedProcessEvents with
      | [] => some { s with monitor := .looping }
      | p :: lQueuedProcessEvents => some { s with lQueuedProcessEvents, monitor := .removed p }
  | .removed p =>
      some { s with nQueuedProcessEvents := s.nQueuedProcessEvents - 1, monitor := .counted p }
  | .counted p =>
      if s.nQueuedProcessEvents ≠ 0 then some { s.keSetEvent with monitor := .pulsing p }
      else some { s with monitor := .dispatching p }
  | .pulsing p => some { s.keClearEvent with monitor := .dispatching p }
  | .dispatching p => some (s.dispatch p)

/-- The set of a callback; the pulse is unseen unless the client waits. -/
def pulse (s : ProcessEvents) : ProcessEvents :=
  { s.keSetEvent with
    setting := s.setting - 1
    clearing := s.clearing + 1
    unseen := match s.monitor with
      | .waiting => s.unseen
      | _ => s.unseen + 1 }

def next (s : ProcessEvents) : ProcessAction → Option ProcessEvents
  | .processCallback p => some { s with
      lQueuedProcessEvents := s.lQueuedProcessEvents ++ [p], inserted := s.inserted + 1 }
  | .count =>
      if s.inserted = 0 then none
      else some { s with
        nQueuedProcessEvents := s.nQueuedProcessEvents + 1
        inserted := s.inserted - 1, setting := s.setting + 1 }
  | .setEvent => if s.setting = 0 then none else some s.pulse
  | .clearEvent =>
      if s.clearing = 0 then none else some { s.keClearEvent with clearing := s.clearing - 1 }
  | .run => s.runStep
  | .timeout =>
      match s.monitor with
      | .waiting => some { s with monitor := .looping }
      | _ => none

def machine : Machine ProcessEvents ProcessAction where
  init s := s = {}
  next := next

/-! ## What is to hold -/

/-- The client waits, there is nothing to wake it up, and there is an event. -/
structure Stranded (s : ProcessEvents) : Prop where
  waiting : s.monitor = .waiting
  noSignal : s.eNewProcessEvent = false
  noCallback : s.inserted = 0 ∧ s.setting = 0 ∧ s.clearing = 0
  event : s.lQueuedProcessEvents ≠ []

/-- **The condition on a step**: when a callback clears the event, its pulse has been seen. -/
def Seen (s : ProcessEvents) : ProcessAction → Prop
  | .clearEvent => s.unseen < s.clearing
  | _ => True

instance (s : ProcessEvents) : ∀ a, Decidable (s.Seen a)
  | .clearEvent => inferInstanceAs (Decidable (s.unseen < s.clearing))
  | .processCallback _ | .count | .setEvent | .run | .timeout => .isTrue trivial

/-! ## The events and their pulses -/

/-- The client is about to fetch an event. -/
def fetching (s : ProcessEvents) : Nat :=
  match s.monitor with
  | .requesting => 1
  | _ => 0

/-- Every event in the queue has a pulse to come, a pulse that goes on, or a fetch to come. -/
structure Announced (s : ProcessEvents) : Prop where
  events : s.lQueuedProcessEvents.length ≤ s.inserted + s.setting + s.unseen + s.fetching
  unseen : s.unseen ≤ s.clearing

variable {s s' : ProcessEvents} {a : ProcessAction}

theorem Announced.pulse (h : s.Announced) : s.pulse.Announced := by
  have hevents := h.events
  have hunseen := h.unseen
  cases hmonitor : s.monitor with
  | waiting =>
      have hfetching : s.fetching = 0 := by rw [fetching, hmonitor]
      rw [hfetching] at hevents
      constructor
      · simp only [ProcessEvents.pulse, keSetEvent, hmonitor, fetching]
        omega
      · simp only [ProcessEvents.pulse, keSetEvent, hmonitor]
        omega
  | looping | requesting | removed _ | counted _ | pulsing _ | dispatching _ =>
      have hfetching : s.pulse.fetching = s.fetching := by
        simp only [ProcessEvents.pulse, keSetEvent, fetching, hmonitor]
      constructor
      · rw [hfetching]
        simp only [ProcessEvents.pulse, keSetEvent, hmonitor]
        omega
      · simp only [ProcessEvents.pulse, keSetEvent, hmonitor]
        omega

theorem Announced.runStep (h : s.Announced) (hrun : s.runStep = some s') : s'.Announced := by
  have hevents := h.events
  have hunseen := h.unseen
  unfold ProcessEvents.runStep at hrun
  cases hmonitor : s.monitor with
  | looping =>
      have hfetching : s.fetching = 0 := by rw [fetching, hmonitor]
      simp only [hmonitor] at hrun
      split_ifs at hrun
      · obtain rfl := Option.some.inj hrun
        constructor
        · simp only [fetching]
          omega
        · show s.unseen - 1 ≤ s.clearing
          omega
      · obtain rfl := Option.some.inj hrun
        constructor
        · simp only [fetching]
          omega
        · exact hunseen
  | waiting =>
      simp only [hmonitor] at hrun
      cases hrun
  | requesting =>
      have hfetching : s.fetching = 1 := by rw [fetching, hmonitor]
      simp only [hmonitor] at hrun
      split at hrun
      · next hempty =>
          obtain rfl := Option.some.inj hrun
          refine ⟨?_, hunseen⟩
          simp only [hempty, List.length_nil]
          exact Nat.zero_le _
      · next hqueue =>
          obtain rfl := Option.some.inj hrun
          refine ⟨?_, hunseen⟩
          rw [hqueue, List.length_cons, hfetching] at hevents
          simp only [fetching]
          omega
  | removed p =>
      have hfetching : s.fetching = 0 := by rw [fetching, hmonitor]
      simp only [hmonitor] at hrun
      obtain rfl := Option.some.inj hrun
      refine ⟨?_, hunseen⟩
      simp only [fetching]
      omega
  | counted p =>
      have hfetching : s.fetching = 0 := by rw [fetching, hmonitor]
      simp only [hmonitor] at hrun
      split_ifs at hrun
      · obtain rfl := Option.some.inj hrun
        refine ⟨?_, hunseen⟩
        simp only [keSetEvent, fetching]
        omega
      · obtain rfl := Option.some.inj hrun
        refine ⟨?_, hunseen⟩
        simp only [fetching]
        omega
  | pulsing p =>
      have hfetching : s.fetching = 0 := by rw [fetching, hmonitor]
      simp only [hmonitor] at hrun
      obtain rfl := Option.some.inj hrun
      refine ⟨?_, hunseen⟩
      simp only [keClearEvent, fetching]
      omega
  | dispatching p =>
      have hfetching : s.fetching = 0 := by rw [fetching, hmonitor]
      simp only [hmonitor] at hrun
      obtain rfl := Option.some.inj hrun
      unfold dispatch
      split_ifs
      · refine ⟨?_, hunseen⟩
        simp only [fetching]
        omega
      · refine ⟨?_, hunseen⟩
        simp only [fetching]
        omega

theorem Announced.next (h : s.Announced) (hok : s.Seen a) (hnext : s.next a = some s') :
    s'.Announced := by
  have hevents := h.events
  have hunseen := h.unseen
  cases a with
  | processCallback p =>
      obtain rfl := Option.some.inj hnext
      refine ⟨?_, hunseen⟩
      show (s.lQueuedProcessEvents ++ [p]).length ≤ s.inserted + 1 + s.setting + s.unseen + s.fetching
      rw [List.length_append, List.length_singleton]
      omega
  | count =>
      rw [ProcessEvents.next] at hnext
      split_ifs at hnext with hinserted
      obtain rfl := Option.some.inj hnext
      refine ⟨?_, hunseen⟩
      show s.lQueuedProcessEvents.length ≤ s.inserted - 1 + (s.setting + 1) + s.unseen + s.fetching
      omega
  | setEvent =>
      rw [ProcessEvents.next] at hnext
      split_ifs at hnext
      obtain rfl := Option.some.inj hnext
      exact h.pulse
  | clearEvent =>
      have hseen : s.unseen < s.clearing := hok
      rw [ProcessEvents.next] at hnext
      split_ifs at hnext
      obtain rfl := Option.some.inj hnext
      refine ⟨hevents, ?_⟩
      show s.unseen ≤ s.clearing - 1
      omega
  | run => exact h.runStep hnext
  | timeout =>
      cases hmonitor : s.monitor with
      | waiting =>
          have hfetching : s.fetching = 0 := by rw [fetching, hmonitor]
          simp only [ProcessEvents.next, hmonitor] at hnext
          obtain rfl := Option.some.inj hnext
          refine ⟨?_, hunseen⟩
          simp only [fetching]
          omega
      | looping | requesting | removed _ | counted _ | pulsing _ | dispatching _ =>
          simp only [ProcessEvents.next, hmonitor] at hnext
          cases hnext

/-- **No event is stranded** in a run in which every pulse of a callback is seen before it is over. -/
theorem no_process_event_stranded (s : ProcessEvents) (h : machine.Reachable Seen s) : ¬ s.Stranded := by
  have hannounced : s.Announced := by
    refine h.invariant ?_ fun s a s' hs hok hnext => hs.next hok hnext
    rintro s rfl
    exact ⟨Nat.zero_le _, Nat.zero_le _⟩
  rintro ⟨hwaiting, -, ⟨hinserted, hsetting, hclearing⟩, hevent⟩
  have hevents := hannounced.events
  have hunseen := hannounced.unseen
  have hfetching : s.fetching = 0 := by rw [fetching, hwaiting]
  exact hevent (List.length_eq_zero_iff.mp (by omega))

/-- One event that comes while the client waits. -/
theorem awaited_not_stranded :
    ∃ s : ProcessEvents, machine.Reachable Seen s ∧ s.lQueuedProcessEvents = [] ∧ ¬ s.Stranded := by
  have hrun : (machine.run [.run, .processCallback { processId := 231, bCreate := true }, .count,
      .setEvent, .clearEvent, .run, .run, .run, .run] {}).map (fun s => s.lQueuedProcessEvents) =
        some [] := by
    decide
  have hmeets : machine.Meets Seen [.run, .processCallback { processId := 231, bCreate := true },
      .count, .setEvent, .clearEvent, .run, .run, .run, .run] {} := by
    decide
  obtain ⟨s, hs, hqueue⟩ := Option.map_eq_some_iff.mp hrun
  have hreachable := (Machine.Reachable.init rfl).run hmeets hs
  exact ⟨s, hreachable, hqueue, no_process_event_stranded s hreachable⟩

/-- One event that comes while the client is about to wait. -/
theorem early_pulse_stranded :
    ¬ ∀ s : ProcessEvents, machine.Reachable Machine.AnyStep s → ¬ s.Stranded := by
  intro hall
  have hrun : (machine.run [.processCallback { processId := 231, bCreate := true }, .count,
      .setEvent, .clearEvent, .run] {}).map (fun s =>
        (match s.monitor with | .waiting => true | _ => false, s.eNewProcessEvent,
          (s.inserted, s.setting, s.clearing), s.lQueuedProcessEvents.length)) =
        some (true, false, (0, 0, 0), 1) := by
    decide
  obtain ⟨s, hs, hstate⟩ := Option.map_eq_some_iff.mp hrun
  obtain ⟨hmonitor, hsignal, hcallback, hlength⟩ := by simpa only [Prod.mk.injEq] using hstate
  refine hall s (Machine.reachable_of_run rfl hs) ⟨?_, hsignal, hcallback, ?_⟩
  · cases hm : s.monitor with
    | waiting => rfl
    | looping | requesting | removed _ | counted _ | pulsing _ | dispatching _ =>
        simp [hm] at hmonitor
  · intro hempty
    rw [hempty] at hlength
    cases hlength

end ProcessEvents

end CaptureHpc.Client
