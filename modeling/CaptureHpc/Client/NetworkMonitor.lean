/-
# `Client.NetworkMonitor` — waking up for network events

The TCP and the UDP device each have a list of events and a semaphore that the
client made.  The driver releases the semaphore after it has inserted an event,
once the client has registered it.  The client waits for either semaphore, and
takes an event from each list when it wakes up.

The lists are taken to be in order here.  A wake-up may take an event more than
it was for, so a count is never too low for its list, except for the events
whose insertion found no semaphore (`Counted`): an event that was inserted
before the registration is left where it is until another one comes.
-/
import CaptureHpc.Lib.Machine
import Mathlib.Data.List.Basic

namespace CaptureHpc.Client

inductive Device where
  | tcp
  | udp
  deriving DecidableEq

/-- Where `NetworkMonitor::run` is. -/
inductive Monitoring where
  /-- `DeviceIoControl` for this device is to be called. -/
  | ioctl (device : Device)
  /-- In `WaitForMultipleObjects`. -/
  | waiting
  /-- The wait has ended with a count of the first device; the list of the second is to be
  processed. -/
  | processing (status device : Device)
  | ended
  deriving DecidableEq

/-- The driver's and the client's side of one device. -/
structure EventSource (α : Type) where
  /-- The event list, which is in order. -/
  list : List α := []
  /-- `shared_event_list->semaphore` is there. -/
  semaphore : Bool := false
  /-- A thread of the driver holds the lock and has inserted its event. -/
  inserting : Bool := false
  /-- The buffer is mapped into the client. -/
  mapped : Bool := false
  /-- The count of the semaphore in `event_count`. -/
  eventCount : Nat := 0
  /-- How many insertions found no semaphore; nobody reads it. -/
  uncounted : Nat := 0

structure NetworkMonitor (α : Type) where
  source : Device → EventSource α
  monitor : Monitoring := .ioctl .tcp
  running : Bool := true

inductive NetworkAction (α : Type) where
  /-- `InsertEvent`, up to the semaphore. -/
  | insertEvent (device : Device) (event : α)
  /-- The driver looks whether there is a semaphore, and releases it and the lock. -/
  | releaseSemaphore (device : Device)
  /-- A step of the client; whether its request can be served. -/
  | run (success : Bool)
  /-- Another thread of the client sets `running` to false. -/
  | stop

namespace NetworkMonitor

variable {α : Type}

/-- The maximum of `CreateSemaphore`. -/
def maximumCount : Nat := 65355

def update (s : NetworkMonitor α) (device : Device) (f : EventSource α → EventSource α) :
    NetworkMonitor α :=
  { s with source := fun d => if d = device then f (s.source d) else s.source d }

/-- `while(running)`. -/
def again (s : NetworkMonitor α) : NetworkMonitor α :=
  { s with monitor := if s.running then .waiting else .ended }

/-- `GetSharedEventListIoctlHandler`; the buffer is mapped once. -/
def getSharedEventList (s : NetworkMonitor α) (device : Device) (success : Bool) :
    NetworkMonitor α :=
  if success && !(s.source device).mapped then
    s.update device fun e => { e with mapped := true, semaphore := true }
  else s

/-- The event at the head is taken, if there is one: `processTcpEvents` and `processUdpEvents`. -/
def processEvents (s : NetworkMonitor α) (device : Device) : NetworkMonitor α :=
  s.update device fun e => { e with list := e.list.tail }

/-- The wait takes one count from the first semaphore that has one, or times out. -/
def wait (s : NetworkMonitor α) : NetworkMonitor α :=
  if (s.source .tcp).eventCount ≠ 0 then
    { s.update .tcp fun e => { e with eventCount := e.eventCount - 1 } with
      monitor := .processing .tcp .tcp }
  else if (s.source .udp).eventCount ≠ 0 then
    { s.update .udp fun e => { e with eventCount := e.eventCount - 1 } with
      monitor := .processing .udp .tcp }
  else s.again

/-- `NetworkMonitor::run`, one step. -/
def runStep (s : NetworkMonitor α) (success : Bool) : Option (NetworkMonitor α) :=
  match s.monitor with
  | .ioctl .tcp => some { s.getSharedEventList .tcp success with monitor := .ioctl .udp }
  | .ioctl .udp =>
      let s := s.getSharedEventList .udp success
      let running := s.running && (s.source .tcp).mapped && (s.source .udp).mapped
      some { s with running }.again
  | .waiting => some s.wait
  | .processing status .tcp =>
      some { s.processEvents .tcp with monitor := .processing status .udp }
  | .processing _ .udp => some (s.processEvents .udp).again
  | .ended => none

/-- The lock is held from an insertion to the release.  A semaphore that is released at its maximum
raises an exception, and nothing goes on. -/
def next (s : NetworkMonitor α) : NetworkAction α → Option (NetworkMonitor α)
  | .insertEvent device event =>
      if (s.source device).inserting then none
      else some (s.update device fun e => { e with list := e.list ++ [event], inserting := true })
  | .releaseSemaphore device =>
      if !(s.source device).inserting then none
      else if (s.source device).semaphore then
        if (s.source device).eventCount < maximumCount then
          some (s.update device fun e =>
            { e with eventCount := e.eventCount + 1, inserting := false })
        else none
      else
        some (s.update device fun e => { e with uncounted := e.uncounted + 1, inserting := false })
  | .run success => s.runStep success
  | .stop => some { s with running := false }

/-- The driver is loaded before the client begins to monitor. -/
def machine : Machine (NetworkMonitor α) (NetworkAction α) where
  init s := s = { source := fun _ => {} }
  next := next

/-! ## What is to hold -/

/-- The client waits, there is nothing to wake it up, and there is an event. -/
structure Stranded (s : NetworkMonitor α) : Prop where
  waiting : s.monitor = .waiting
  noCount : ∀ device, (s.source device).eventCount = 0
  noInsertion : ∀ device, (s.source device).inserting = false
  event : ∃ device, (s.source device).list ≠ []

/-- **The condition on a step**: an insertion finds the semaphore. -/
def Registered (s : NetworkMonitor α) : NetworkAction α → Prop
  | .releaseSemaphore device => (s.source device).semaphore = true
  | _ => True

instance (s : NetworkMonitor α) : ∀ a, Decidable (s.Registered a)
  | .releaseSemaphore device => inferInstanceAs (Decidable ((s.source device).semaphore = true))
  | .insertEvent _ _ => .isTrue trivial
  | .run _ => .isTrue trivial
  | .stop => .isTrue trivial

/-! ## The count -/

/-- The count that the wait has taken for an event of this device that is still in the list. -/
def taken (s : NetworkMonitor α) (device : Device) : Nat :=
  match s.monitor with
  | .processing status now => if status = device ∧ (now = .tcp ∨ device = .udp) then 1 else 0
  | _ => 0

/-- An insertion that has still to be counted. -/
def uncountedYet (e : EventSource α) : Nat := if e.inserting then 1 else 0

/-- Every event in a list has been counted, is being counted, is about to be taken, or found no
semaphore. -/
def Counted (s : NetworkMonitor α) : Prop :=
  ∀ device, (s.source device).list.length ≤ (s.source device).eventCount +
    uncountedYet (s.source device) + s.taken device + (s.source device).uncounted

variable {s s' : NetworkMonitor α} {a : NetworkAction α}

/-- A step of the driver. -/
theorem Counted.update (h : s.Counted) (device : Device) {f : EventSource α → EventSource α}
    (hf : ∀ e : EventSource α, e = s.source device → ∀ t,
      e.list.length ≤ e.eventCount + uncountedYet e + t + e.uncounted →
        (f e).list.length ≤ (f e).eventCount + uncountedYet (f e) + t + (f e).uncounted) :
    (s.update device f).Counted := by
  intro d
  have hd := h d
  by_cases hsame : d = device
  · subst hsame
    have hsource : (s.update d f).source d = f (s.source d) := if_pos rfl
    rw [hsource]
    exact hf _ rfl _ hd
  · have hsource : (s.update device f).source d = s.source d := if_neg hsame
    rw [hsource]
    exact hd

/-- The client has moved on, but not past an event that it was woken up for. -/
theorem Counted.moved (h : s.Counted) (hsource : s'.source = s.source)
    (htaken : ∀ device, s.taken device ≤ s'.taken device) : s'.Counted := by
  intro device
  have hdevice := h device
  have hmore := htaken device
  rw [hsource]
  omega

theorem taken_le (s : NetworkMonitor α) (device : Device) : s.taken device ≤ 1 := by
  unfold taken
  split
  · split <;> omega
  · omega

/-- An event is taken, and the count that the client was woken up with may have been for it. -/
theorem Counted.processEvents (h : s.Counted) (device : Device)
    (hsource : s'.source = (s.processEvents device).source)
    (htaken : ∀ d, d ≠ device → s.taken d ≤ s'.taken d) : s'.Counted := by
  intro d
  have hd := h d
  rw [hsource]
  by_cases hsame : d = device
  · subst hsame
    have htail : (s.processEvents d).source d =
        { s.source d with list := (s.source d).list.tail } := if_pos rfl
    have hone := taken_le s d
    have huncounted : uncountedYet { s.source d with list := (s.source d).list.tail } =
        uncountedYet (s.source d) := rfl
    rw [htail, huncounted, List.length_tail]
    show (s.source d).list.length - 1 ≤ (s.source d).eventCount + uncountedYet (s.source d) +
      s'.taken d + (s.source d).uncounted
    omega
  · have hsource : (s.processEvents device).source d = s.source d := if_neg hsame
    have hmore := htaken d hsame
    rw [hsource]
    omega

theorem Counted.again (h : s.Counted) (hnone : ∀ device, s.taken device = 0) : s.again.Counted :=
  h.moved rfl fun device => by
    rw [hnone device]
    exact Nat.zero_le _

theorem Counted.getSharedEventList (h : s.Counted) (device : Device) (success : Bool) :
    (s.getSharedEventList device success).Counted := by
  unfold NetworkMonitor.getSharedEventList
  split
  · exact h.update device fun _ _ _ hcount => hcount
  · exact h

theorem monitor_getSharedEventList (s : NetworkMonitor α) (device : Device) (success : Bool) :
    (s.getSharedEventList device success).monitor = s.monitor := by
  unfold NetworkMonitor.getSharedEventList
  split <;> rfl

/-- The wait takes a count for an event that is still in its list. -/
theorem Counted.wait (h : s.Counted) (hnone : ∀ device, s.taken device = 0) : s.wait.Counted := by
  unfold NetworkMonitor.wait
  split_ifs with htcp hudp
  · intro device
    have hdevice := h device
    rw [hnone] at hdevice
    cases device with
    | tcp =>
        show (s.source .tcp).list.length ≤ (s.source .tcp).eventCount - 1 +
          uncountedYet (s.source .tcp) + 1 + (s.source .tcp).uncounted
        omega
    | udp => exact hdevice
  · intro device
    have hdevice := h device
    rw [hnone] at hdevice
    cases device with
    | tcp => exact hdevice
    | udp =>
        show (s.source .udp).list.length ≤ (s.source .udp).eventCount - 1 +
          uncountedYet (s.source .udp) + 1 + (s.source .udp).uncounted
        omega
  · exact h.again hnone

theorem Counted.runStep (h : s.Counted) {success : Bool} (hrun : s.runStep success = some s') :
    s'.Counted := by
  cases hmonitor : s.monitor with
  | ioctl device =>
      have hnone : ∀ d, (s.getSharedEventList device success).taken d = 0 := by
        intro d
        unfold taken
        rw [monitor_getSharedEventList, hmonitor]
      have hcounted := h.getSharedEventList device success
      cases device with
      | tcp =>
          simp only [NetworkMonitor.runStep, hmonitor] at hrun
          obtain rfl := Option.some.inj hrun
          exact hcounted.moved rfl fun d => by rw [hnone d]; exact Nat.zero_le _
      | udp =>
          simp only [NetworkMonitor.runStep, hmonitor] at hrun
          obtain rfl := Option.some.inj hrun
          exact hcounted.moved rfl fun d => by rw [hnone d]; exact Nat.zero_le _
  | waiting =>
      simp only [NetworkMonitor.runStep, hmonitor] at hrun
      obtain rfl := Option.some.inj hrun
      exact h.wait fun d => by rw [taken, hmonitor]
  | processing status device =>
      cases device with
      | tcp =>
          simp only [NetworkMonitor.runStep, hmonitor] at hrun
          obtain rfl := Option.some.inj hrun
          refine h.processEvents .tcp rfl fun d hd => ?_
          cases d with
          | tcp => exact absurd rfl hd
          | udp => simp [taken, hmonitor]
      | udp =>
          simp only [NetworkMonitor.runStep, hmonitor] at hrun
          obtain rfl := Option.some.inj hrun
          refine h.processEvents .udp rfl fun d hd => ?_
          cases d with
          | tcp => simp [taken, hmonitor]
          | udp => exact absurd rfl hd
  | ended =>
      simp only [NetworkMonitor.runStep, hmonitor] at hrun
      cases hrun

/-- **Every event is counted**, whatever the order of the steps. -/
theorem Counted.next (h : s.Counted) (hnext : s.next a = some s') : s'.Counted := by
  cases a with
  | insertEvent device event =>
      rw [NetworkMonitor.next] at hnext
      split_ifs at hnext with hfree
      obtain rfl := Option.some.inj hnext
      refine h.update device ?_
      rintro e rfl t hcount
      have hone : uncountedYet { s.source device with
          list := (s.source device).list ++ [event], inserting := true } = 1 := rfl
      rw [hone, List.length_append, List.length_singleton]
      have hzero : uncountedYet (s.source device) = 0 := if_neg hfree
      show (s.source device).list.length + 1 ≤ (s.source device).eventCount + 1 + t +
        (s.source device).uncounted
      omega
  | releaseSemaphore device =>
      rw [NetworkMonitor.next] at hnext
      split_ifs at hnext with hfree hsemaphore hmaximum
      · obtain rfl := Option.some.inj hnext
        refine h.update device ?_
        rintro e rfl t hcount
        have hone : uncountedYet (s.source device) = 1 := if_pos (by simpa using hfree)
        show (s.source device).list.length ≤ (s.source device).eventCount + 1 + 0 + t +
          (s.source device).uncounted
        omega
      · obtain rfl := Option.some.inj hnext
        refine h.update device ?_
        rintro e rfl t hcount
        have hone : uncountedYet (s.source device) = 1 := if_pos (by simpa using hfree)
        show (s.source device).list.length ≤ (s.source device).eventCount + 0 + t +
          ((s.source device).uncounted + 1)
        omega
  | run success => exact h.runStep hnext
  | stop =>
      obtain rfl := Option.some.inj hnext
      exact h.moved rfl fun _ => Nat.le_refl _

/-- While the client waits for nothing, the events in a list are fewer than those that found no
semaphore, or as many. -/
theorem length_le_of_waiting (h : s.Counted) (hwaiting : s.monitor = .waiting)
    (hnoCount : ∀ device, (s.source device).eventCount = 0)
    (hnoInsertion : ∀ device, (s.source device).inserting = false) (device : Device) :
    (s.source device).list.length ≤ (s.source device).uncounted := by
  have hdevice := h device
  have htaken : s.taken device = 0 := by rw [taken, hwaiting]
  have hyet : uncountedYet (s.source device) = 0 := by
    unfold uncountedYet
    rw [hnoInsertion device]
    rfl
  rw [hnoCount, htaken, hyet] at hdevice
  omega

/-! ## Runs in which every insertion finds its semaphore -/

/-- Every insertion so far has found its semaphore. -/
def AllCounted (s : NetworkMonitor α) : Prop := ∀ device, (s.source device).uncounted = 0

theorem AllCounted.update (h : s.AllCounted) (device : Device) {f : EventSource α → EventSource α}
    (hf : ∀ e : EventSource α, (f e).uncounted = e.uncounted) : (s.update device f).AllCounted := by
  intro d
  by_cases hsame : d = device
  · have hsource : (s.update device f).source d = f (s.source d) := if_pos hsame
    rw [hsource, hf]
    exact h d
  · have hsource : (s.update device f).source d = s.source d := if_neg hsame
    rw [hsource]
    exact h d

theorem AllCounted.getSharedEventList (h : s.AllCounted) (device : Device) (success : Bool) :
    (s.getSharedEventList device success).AllCounted := by
  unfold NetworkMonitor.getSharedEventList
  split
  · exact h.update device fun _ => rfl
  · exact h

theorem AllCounted.processEvents (h : s.AllCounted) (device : Device) :
    (s.processEvents device).AllCounted :=
  h.update device fun _ => rfl

theorem AllCounted.wait (h : s.AllCounted) : s.wait.AllCounted := by
  unfold NetworkMonitor.wait
  split_ifs
  · exact h.update .tcp (f := fun e => { e with eventCount := e.eventCount - 1 }) fun _ => rfl
  · exact h.update .udp (f := fun e => { e with eventCount := e.eventCount - 1 }) fun _ => rfl
  · exact h

theorem AllCounted.runStep (h : s.AllCounted) {success : Bool}
    (hrun : s.runStep success = some s') : s'.AllCounted := by
  rw [NetworkMonitor.runStep] at hrun
  split at hrun
  · obtain rfl := Option.some.inj hrun
    exact h.getSharedEventList .tcp success
  · obtain rfl := Option.some.inj hrun
    exact h.getSharedEventList .udp success
  · obtain rfl := Option.some.inj hrun
    exact h.wait
  · obtain rfl := Option.some.inj hrun
    exact h.processEvents .tcp
  · obtain rfl := Option.some.inj hrun
    exact h.processEvents .udp
  · cases hrun

theorem AllCounted.next (h : s.AllCounted) (hok : s.Registered a) (hnext : s.next a = some s') :
    s'.AllCounted := by
  cases a with
  | insertEvent device event =>
      rw [NetworkMonitor.next] at hnext
      split_ifs at hnext
      obtain rfl := Option.some.inj hnext
      exact h.update device fun _ => rfl
  | releaseSemaphore device =>
      have hsemaphore : (s.source device).semaphore = true := hok
      rw [NetworkMonitor.next, if_pos hsemaphore] at hnext
      split_ifs at hnext
      obtain rfl := Option.some.inj hnext
      exact h.update device fun _ => rfl
  | run success => exact h.runStep hnext
  | stop =>
      obtain rfl := Option.some.inj hnext
      exact h

/-- **No event is stranded** in a run in which every insertion finds the semaphore of its device. -/
theorem no_event_stranded (s : NetworkMonitor α) (h : machine.Reachable Registered s) :
    ¬ s.Stranded := by
  have hboth : s.Counted ∧ s.AllCounted := by
    refine h.invariant (P := fun s => s.Counted ∧ s.AllCounted) ?_ ?_
    · rintro s rfl
      exact ⟨fun _ => Nat.zero_le _, fun _ => rfl⟩
    · intro s a s' ⟨hcounted, hall⟩ hok hnext
      exact ⟨hcounted.next hnext, hall.next hok hnext⟩
  rintro ⟨hwaiting, hnoCount, hnoInsertion, device, hevent⟩
  have hlength := length_le_of_waiting hboth.1 hwaiting hnoCount hnoInsertion device
  rw [hboth.2 device] at hlength
  exact hevent (List.length_eq_zero_iff.mp (Nat.le_zero.mp hlength))

/-- An event is inserted after the registration, and taken. -/
theorem inserted_not_stranded :
    ∃ s : NetworkMonitor Nat, machine.Reachable Registered s ∧ s.monitor = .waiting ∧
      (s.source .tcp).list = [] ∧ ¬ s.Stranded := by
  have hrun : (machine.run [.run true, .run true, .insertEvent .tcp 7, .releaseSemaphore .tcp,
      .run true, .run true, .run true] { source := fun _ => ({} : EventSource Nat) }).map
        (fun s => (s.monitor, (s.source .tcp).list)) = some (.waiting, []) := by
    decide
  have hmeets : machine.Meets Registered [.run true, .run true, .insertEvent .tcp 7,
      .releaseSemaphore .tcp, .run true, .run true, .run true]
        { source := fun _ => ({} : EventSource Nat) } := by
    decide
  obtain ⟨s, hs, hstate⟩ := Option.map_eq_some_iff.mp hrun
  obtain ⟨hwaiting, hlist⟩ := Prod.mk.inj hstate
  have hreachable := (Machine.Reachable.init rfl).run hmeets hs
  exact ⟨s, hreachable, hwaiting, hlist, no_event_stranded s hreachable⟩

/-- An event is inserted before the registration, and stays. -/
theorem early_event_stranded :
    ¬ ∀ s : NetworkMonitor Nat, machine.Reachable Machine.AnyStep s → ¬ s.Stranded := by
  intro hall
  have hrun : (machine.run [.insertEvent .tcp 7, .releaseSemaphore .tcp, .run true, .run true]
      { source := fun _ => ({} : EventSource Nat) }).map (fun s => (s.monitor,
        [(s.source .tcp).eventCount, (s.source .udp).eventCount],
        [(s.source .tcp).inserting, (s.source .udp).inserting], (s.source .tcp).list)) =
          some (.waiting, [0, 0], [false, false], [7]) := by
    decide
  obtain ⟨s, hs, hstate⟩ := Option.map_eq_some_iff.mp hrun
  simp only [Prod.mk.injEq, List.cons.injEq, and_true] at hstate
  obtain ⟨hwaiting, ⟨htcp, hudp⟩, ⟨htcp', hudp'⟩, hlist⟩ := hstate
  refine hall s (Machine.reachable_of_run rfl hs) ⟨hwaiting, ?_, ?_, .tcp, ?_⟩
  · intro device
    cases device with
    | tcp => exact htcp
    | udp => exact hudp
  · intro device
    cases device with
    | tcp => exact htcp'
    | udp => exact hudp'
  · rw [hlist]
    exact List.cons_ne_nil _ _

end NetworkMonitor

end CaptureHpc.Client
