/-
# `Client.VisitWindow` — which events are sent as part of a visit

A driver queues the events of its kind.  A monitor thread fetches what is there
every few tens of milliseconds and signals one event after the other, and the
analyzer listens from the pre-start of a visit to its finish.  The visitor thread
connects and disconnects it, and nothing empties the queue at either end: an
event may be older than the visit in which it is signalled, and one that is not
signalled in time is lost.

`Flushed` is the condition that this does not matter, and `window_safe` says that
then every finish message comes after the events of its visit and no others.
-/
import CaptureHpc.Lib.Machine

namespace CaptureHpc.Client.VisitWindow

/-! ## The two threads -/

/-- How far `FileMonitor::run` got, with the rest of the buffer.  An event has its number in the
order of the driver, which no thread reads. -/
inductive MonitorStep (α : Type) where
  /-- `Sleep` -/
  | sleeping
  | dispatching (batch : List (Nat × α))
  /-- in `onFileEvent`: the slot was called -/
  | called (event : Nat × α) (batch : List (Nat × α))
  /-- `malicious` was set, the event not sent yet -/
  | flagged (event : Nat × α) (batch : List (Nat × α))

/-- The type of a message that ends a visit. -/
inductive EndType where
  | finish
  | error
deriving DecidableEq

/-- How far `Visitor::run` got, with the notifications that are to come. -/
inductive VisitorStep where
  /-- waits for a visit -/
  | waiting
  /-- in `Analyzer::start`: `malicious` was cleared -/
  | cleared
  /-- the slots are connected; the start message is next -/
  | connected
  /-- in `visitGroup` -/
  | visiting
  | returned (todo : List EndType)
  /-- in `Analyzer::update`, after `stop` -/
  | stopped (todo : List EndType)
  /-- `malicious` was read for the message -/
  | reporting (malicious : Bool) (todo : List EndType)

inductive Message (α : Type) where
  /-- The flag in a start message plays no part. -/
  | start
  | systemEvent (event : Nat × α)
  | ended (type : EndType) (malicious : Bool)

structure State (α : Type) where
  /-- The number of events that the driver has queued. -/
  queued : Nat := 0
  /-- The queue of the driver. -/
  queue : List (Nat × α) := []
  monitor : MonitorStep α := .sleeping
  visitor : VisitorStep := .waiting
  /-- Whether the slot of the analyzer is connected. -/
  connected : Bool := false
  malicious : Bool
  /-- What was sent to the server, the last message first. -/
  sent : List (Message α) := []

inductive Action (α : Type) where
  | queue (e : α)
  /-- The monitor wakes up and fetches; this many events fit into its buffer. -/
  | fetch (n : Nat)
  | monitor
  /-- The visitor goes on.  If it is the plugin that returns: whether it threw, and whether there
  were errors. -/
  | visitor (threw isError : Bool)

/-- What is notified when the plugin has returned. -/
def notifications (threw isError : Bool) : List EndType :=
  (if threw then [.error] else []) ++ [if isError then .error else .finish]

variable {α : Type}

/-- One step of the monitor after a fetch.  A signal without a slot does nothing. -/
def monitorStep (excluded : α → Bool) (s : State α) : Option (State α) :=
  match s.monitor with
  | .sleeping => none
  | .dispatching [] => some { s with monitor := .sleeping }
  | .dispatching (e :: batch) =>
      if !excluded e.2 && s.connected then some { s with monitor := .called e batch }
      else some { s with monitor := .dispatching batch }
  | .called e batch => some { s with malicious := true, monitor := .flagged e batch }
  | .flagged e batch =>
      some { s with sent := .systemEvent e :: s.sent, monitor := .dispatching batch }

/-- One step of the visitor. -/
def visitorStep (threw isError : Bool) (s : State α) : Option (State α) :=
  match s.visitor with
  | .waiting => some { s with malicious := false, visitor := .cleared }
  | .cleared => some { s with connected := true, visitor := .connected }
  | .connected => some { s with sent := .start :: s.sent, visitor := .visiting }
  | .visiting => some { s with visitor := .returned (notifications threw isError) }
  | .returned todo => some { s with connected := false, visitor := .stopped todo }
  | .stopped todo => some { s with visitor := .reporting s.malicious todo }
  | .reporting malicious (type :: todo) => some { s with
      sent := .ended type malicious :: s.sent
      visitor := if todo = [] then .waiting else .returned todo }
  | .reporting _ [] => none

def next (excluded : α → Bool) (s : State α) : Action α → Option (State α)
  | .queue e => some { s with queued := s.queued + 1, queue := s.queue ++ [(s.queued, e)] }
  | .fetch n =>
      match s.monitor with
      | .sleeping => some { s with
          queue := s.queue.drop n
          monitor := .dispatching (s.queue.take n) }
      | _ => none
  | .monitor => monitorStep excluded s
  | .visitor threw isError => visitorStep threw isError s

/-- The client; an event is `excluded` if its kind or its path is unknown, or the exclusion lists
allow it.  `malicious` is not initialised. -/
def machine (excluded : α → Bool) : Machine (State α) (Action α) where
  init s := ∃ malicious, s = { malicious }
  next := next excluded

/-! ## What is to hold -/

/-- The system events since the last start message. -/
def reported : List (Message α) → List (Nat × α)
  | [] => []
  | .start :: _ => []
  | .systemEvent e :: sent => e :: reported sent
  | .ended _ _ :: sent => reported sent

/-- A visit that was finished. -/
structure Visit (α : Type) where
  /-- What the driver queued between the start message and the return of the plugin. -/
  window : List (Nat × α)
  /-- What was sent between the start and the finish message. -/
  reported : List (Nat × α)
  /-- What the finish message said. -/
  malicious : Bool

/-- **The visit window.** -/
structure Visit.Faithful (excluded : α → Bool) (v : Visit α) : Prop where
  complete : ∀ e ∈ v.window, excluded e.2 = false → e ∈ v.reported
  malicious : (∃ e ∈ v.window, excluded e.2 = false) → v.malicious = true
  sound : ∀ e ∈ v.reported, e ∈ v.window

/-- The window of the visit that goes on, the number of the first event after it, and the visits
that were finished. -/
structure Visits (α : Type) where
  window : List (Nat × α) := []
  closed : Nat := 0
  finished : List (Visit α) := []

/-- What is known after a step. -/
def Visits.record (h : Visits α) (s : State α) (a : Action α) (_ : State α) : Visits α :=
  match a, s.visitor with
  | .queue e, .visiting => { h with window := h.window ++ [(s.queued, e)] }
  | .visitor _ _, .connected => { h with window := [] }
  | .visitor _ _, .visiting => { h with closed := s.queued }
  | .visitor _ _, .reporting malicious (.finish :: _) =>
      { h with finished :=
          { window := h.window, reported := reported s.sent, malicious } :: h.finished }
  | _, _ => h

def visitsMachine (excluded : α → Bool) : Machine (State α × Visits α) (Action α) :=
  (machine excluded).recording {} Visits.record

/-! ## The condition -/

/-- The event for which the slot was called. -/
def MonitorStep.hand : MonitorStep α → Option (Nat × α)
  | .called e _ | .flagged e _ => some e
  | .sleeping | .dispatching _ => none

/-- The events that were fetched. -/
def MonitorStep.batch : MonitorStep α → List (Nat × α)
  | .dispatching batch | .called _ batch | .flagged _ batch => batch
  | .sleeping => []

/-- The slot was called, and the flag is not set yet. -/
def MonitorStep.Calling : MonitorStep α → Prop
  | .called _ _ => True
  | _ => False

instance : ∀ step : MonitorStep α, Decidable step.Calling
  | .called _ _ => .isTrue trivial
  | .sleeping | .dispatching _ | .flagged _ _ => .isFalse id

/-- The events that are still to be signalled. -/
def State.waiting (s : State α) : List (Nat × α) := s.monitor.batch ++ s.queue

/-- The plugin has returned, and no notification was made yet. -/
def State.Late (s : State α) : Prop :=
  match s.visitor with
  | .returned _ => s.connected = true
  | _ => False

instance (s : State α) : Decidable s.Late :=
  match hvisitor : s.visitor with
  | .returned _ => decidable_of_iff (s.connected = true) (by rw [State.Late, hvisitor])
  | .waiting | .cleared | .connected | .visiting | .stopped _ | .reporting _ _ =>
      .isFalse (by rw [State.Late, hvisitor]; exact id)

/-- The condition on a step of the visitor. -/
def FlushedVisitor (excluded : α → Bool) (x : State α × Visits α) : Prop :=
  match x.1.visitor with
  -- at the start nothing is left of what was queued before
  | .connected => x.1.monitor.hand = none ∧ ∀ e ∈ x.1.waiting, excluded e.2 = true
  -- at the first stop nothing is left of what was queued during the visit
  | .returned todo => x.1.connected = true → .finish ∈ todo →
      ∀ e ∈ x.1.waiting, excluded e.2 = false → x.2.closed ≤ e.1
  -- and what the slot was called for has been noted, and has been sent
  | .stopped (.finish :: _) => x.1.monitor.Calling → x.1.malicious = true
  | .reporting _ (.finish :: _) => x.1.monitor.hand = none
  | _ => True

/-- **The condition on a step**: the queue and the monitor have been emptied at both ends of the
visit, and no event that was queued after the return of the plugin is fetched before the slots are
disconnected. -/
def Flushed (excluded : α → Bool) (x : State α × Visits α) : Action α → Prop
  | .visitor _ _ => FlushedVisitor excluded x
  | .fetch n => x.1.Late → ∀ e ∈ x.1.queue.take n, excluded e.2 = false → e.1 < x.2.closed
  | _ => True

instance (excluded : α → Bool) (x : State α × Visits α) : Decidable (FlushedVisitor excluded x) :=
  match hvisitor : x.1.visitor with
  | .connected =>
      decidable_of_iff (x.1.monitor.hand = none ∧ ∀ e ∈ x.1.waiting, excluded e.2 = true)
        (by rw [FlushedVisitor, hvisitor])
  | .returned todo =>
      decidable_of_iff (x.1.connected = true → .finish ∈ todo →
          ∀ e ∈ x.1.waiting, excluded e.2 = false → x.2.closed ≤ e.1)
        (by rw [FlushedVisitor, hvisitor])
  | .stopped (.finish :: _) =>
      decidable_of_iff (x.1.monitor.Calling → x.1.malicious = true) (by rw [FlushedVisitor, hvisitor])
  | .reporting _ (.finish :: _) =>
      decidable_of_iff (x.1.monitor.hand = none) (by rw [FlushedVisitor, hvisitor])
  | .waiting | .cleared | .visiting | .stopped [] | .stopped (.error :: _) | .reporting _ []
  | .reporting _ (.error :: _) => .isTrue (by rw [FlushedVisitor, hvisitor]; trivial)

instance (excluded : α → Bool) (x : State α × Visits α) :
    ∀ a : Action α, Decidable (Flushed excluded x a)
  | .visitor _ _ => inferInstanceAs (Decidable (FlushedVisitor excluded x))
  | .fetch n => inferInstanceAs (Decidable (x.1.Late → ∀ e ∈ x.1.queue.take n,
      excluded e.2 = false → e.1 < x.2.closed))
  | .queue _ | .monitor => .isTrue trivial

/-! ## The invariant -/

section Invariant
variable {excluded : α → Bool} {bound : Nat} {s : State α} {h : Visits α}

/-- A visit goes on, whose window ends before `bound`. -/
structure Going (bound : Nat) (s : State α) (h : Visits α) : Prop where
  reported : ∀ e ∈ reported s.sent, e ∈ h.window
  hand : ∀ e ∈ s.monitor.hand, e ∈ h.window
  flag : VisitWindow.reported s.sent ≠ [] → s.malicious = true
  flagged : s.monitor.hand.isSome = true → ¬ s.monitor.Calling → s.malicious = true
  window : ∀ e ∈ h.window, e.1 < bound
  counted : bound ≤ s.queued

/-- The analyzer listens. -/
structure Open (excluded : α → Bool) (bound : Nat) (s : State α) (h : Visits α) : Prop extends
    Going bound s h where
  connected : s.connected = true
  batch : ∀ e ∈ s.monitor.batch, excluded e.2 = false → e ∈ h.window
  queue : ∀ e ∈ s.queue, excluded e.2 = false → e ∈ h.window ∨ bound ≤ e.1
  covered : ∀ e ∈ h.window, excluded e.2 = false →
    e ∈ VisitWindow.reported s.sent ∨ s.monitor.hand = some e ∨ e ∈ s.waiting

/-- It listens no more. -/
structure Closed (excluded : α → Bool) (todo : List EndType) (s : State α) (h : Visits α) :
    Prop extends Going h.closed s h where
  connected : s.connected = false
  covered : .finish ∈ todo → ∀ e ∈ h.window, excluded e.2 = false →
    e ∈ VisitWindow.reported s.sent ∨ s.monitor.hand = some e

/-- What holds at each step of the visitor. -/
def Stage (excluded : α → Bool) (s : State α) (h : Visits α) : Prop :=
  match s.visitor with
  | .waiting | .cleared => True
  | .connected => s.connected = true
  | .visiting => Open excluded s.queued s h
  | .returned todo => Open excluded h.closed s h ∨ Closed excluded todo s h
  | .stopped todo => Closed excluded todo s h
  | .reporting malicious todo => Closed excluded todo s h ∧ (todo.head? = some .finish →
      (∃ e ∈ h.window, excluded e.2 = false) → malicious = true)

structure Kept (excluded : α → Bool) (x : State α × Visits α) : Prop where
  numbers : ∀ e ∈ x.1.queue, e.1 < x.1.queued
  stage : Stage excluded x.1 x.2
  finished : ∀ v ∈ x.2.finished, v.Faithful excluded

/-! ### The driver -/

theorem Going.queue (e : α) (hs : Going bound s h) :
    Going bound { s with queued := s.queued + 1, queue := s.queue ++ [(s.queued, e)] } h :=
  { hs with counted := Nat.le_succ_of_le hs.counted }

/-- Before the return of the plugin an event belongs to the window. -/
theorem Open.queue_visiting (e : α) (hnumbers : ∀ e ∈ s.queue, e.1 < s.queued)
    (hs : Open excluded s.queued s h) :
    Open excluded (s.queued + 1)
      { s with queued := s.queued + 1, queue := s.queue ++ [(s.queued, e)] }
      { h with window := h.window ++ [(s.queued, e)] } where
  reported d hd := List.mem_append_left _ (hs.reported d hd)
  hand d hd := List.mem_append_left _ (hs.hand d hd)
  flag := hs.flag
  flagged := hs.flagged
  window d hd := by
    obtain hd | hd := List.mem_append.mp hd
    · exact Nat.lt_succ_of_lt (hs.window d hd)
    · obtain rfl := List.mem_singleton.mp hd
      exact Nat.lt_succ_self _
  counted := Nat.le_refl _
  connected := hs.connected
  batch d hd hexcluded := List.mem_append_left _ (hs.batch d hd hexcluded)
  queue d hd hexcluded := by
    left
    obtain hd | hd := List.mem_append.mp hd
    · obtain hwindow | hlate := hs.queue d hd hexcluded
      · exact List.mem_append_left _ hwindow
      · exact absurd (hnumbers d hd) (Nat.not_lt.mpr hlate)
    · exact List.mem_append_right _ hd
  covered d hd hexcluded := by
    obtain hd | hd := List.mem_append.mp hd
    · obtain hreported | hhand | hwaiting := hs.covered d hd hexcluded
      · exact .inl hreported
      · exact .inr (.inl hhand)
      · refine .inr (.inr ?_)
        simp only [State.waiting, ← List.append_assoc]
        exact List.mem_append_left _ hwaiting
    · refine .inr (.inr ?_)
      simp only [State.waiting, ← List.append_assoc]
      exact List.mem_append_right _ hd

/-- After it, it does not. -/
theorem Open.queue_returned (e : α) (hs : Open excluded bound s h) :
    Open excluded bound
      { s with queued := s.queued + 1, queue := s.queue ++ [(s.queued, e)] } h where
  toGoing := hs.toGoing.queue e
  connected := hs.connected
  batch := hs.batch
  queue d hd hexcluded := by
    obtain hd | hd := List.mem_append.mp hd
    · exact hs.queue d hd hexcluded
    · obtain rfl := List.mem_singleton.mp hd
      exact .inr hs.counted
  covered d hd hexcluded := by
    obtain hreported | hhand | hwaiting := hs.covered d hd hexcluded
    · exact .inl hreported
    · exact .inr (.inl hhand)
    · refine .inr (.inr ?_)
      simp only [State.waiting, ← List.append_assoc]
      exact List.mem_append_left _ hwaiting

theorem Closed.queue {todo : List EndType} (e : α) (hs : Closed excluded todo s h) :
    Closed excluded todo
      { s with queued := s.queued + 1, queue := s.queue ++ [(s.queued, e)] } h where
  toGoing := hs.toGoing.queue e
  connected := hs.connected
  covered := hs.covered

/-! ### The monitor -/

theorem Going.fetch {n : Nat} (hs : Going bound s h) :
    Going bound { s with
      queue := s.queue.drop n
      monitor := .dispatching (s.queue.take n) } h where
  reported := hs.reported
  hand _ hd := nomatch hd
  flag := hs.flag
  flagged hhand := nomatch hhand
  window := hs.window
  counted := hs.counted

theorem Open.fetch {n : Nat} (hsleeping : s.monitor = .sleeping)
    (hfetched : ∀ e ∈ s.queue.take n, excluded e.2 = false → e.1 < bound)
    (hs : Open excluded bound s h) :
    Open excluded bound { s with
      queue := s.queue.drop n
      monitor := .dispatching (s.queue.take n) } h where
  toGoing := hs.toGoing.fetch
  connected := hs.connected
  batch d hd hexcluded := by
    obtain hwindow | hlate := hs.queue d (List.mem_of_mem_take hd) hexcluded
    · exact hwindow
    · exact absurd (hfetched d hd hexcluded) (Nat.not_lt.mpr hlate)
  queue d hd := hs.queue d (List.mem_of_mem_drop hd)
  covered d hd hexcluded := by
    obtain hreported | hhand | hwaiting := hs.covered d hd hexcluded
    · exact .inl hreported
    · rw [hsleeping] at hhand
      cases hhand
    · refine .inr (.inr ?_)
      rw [State.waiting, hsleeping] at hwaiting
      show d ∈ s.queue.take n ++ s.queue.drop n
      rw [List.take_append_drop]
      exact hwaiting

theorem Closed.fetch {n : Nat} {todo : List EndType} (hsleeping : s.monitor = .sleeping)
    (hs : Closed excluded todo s h) :
    Closed excluded todo { s with
      queue := s.queue.drop n
      monitor := .dispatching (s.queue.take n) } h where
  toGoing := hs.toGoing.fetch
  connected := hs.connected
  covered hfinish d hd hexcluded := by
    obtain hreported | hhand := hs.covered hfinish d hd hexcluded
    · exact .inl hreported
    · rw [hsleeping] at hhand
      cases hhand

/-- What a step of the monitor can do. -/
theorem monitorStep_cases {s' : State α} (hnext : monitorStep excluded s = some s') :
    (s.monitor = .dispatching [] ∧ s' = { s with monitor := .sleeping }) ∨
    (∃ e batch, s.monitor = .dispatching (e :: batch) ∧ excluded e.2 = false ∧
      s.connected = true ∧ s' = { s with monitor := .called e batch }) ∨
    (∃ e batch, s.monitor = .dispatching (e :: batch) ∧
      (s.connected = true → excluded e.2 = true) ∧
      s' = { s with monitor := .dispatching batch }) ∨
    (∃ e batch, s.monitor = .called e batch ∧
      s' = { s with malicious := true, monitor := .flagged e batch }) ∨
    (∃ e batch, s.monitor = .flagged e batch ∧
      s' = { s with sent := .systemEvent e :: s.sent, monitor := .dispatching batch }) := by
  cases hmonitor : s.monitor with
  | sleeping => simp [monitorStep, hmonitor] at hnext
  | dispatching batch =>
      cases batch with
      | nil =>
          simp only [monitorStep, hmonitor, Option.some.injEq] at hnext
          exact .inl ⟨rfl, hnext.symm⟩
      | cons e batch =>
          simp only [monitorStep, hmonitor] at hnext
          split at hnext
          next hcalled =>
            simp only [Bool.and_eq_true, Bool.not_eq_true'] at hcalled
            exact .inr (.inl ⟨e, batch, rfl, hcalled.1, hcalled.2, (Option.some.inj hnext).symm⟩)
          next hcalled =>
            refine .inr (.inr (.inl ⟨e, batch, rfl, ?_, (Option.some.inj hnext).symm⟩))
            intro hconnected
            simpa [hconnected] using hcalled
  | called e batch =>
      simp only [monitorStep, hmonitor, Option.some.injEq] at hnext
      exact .inr (.inr (.inr (.inl ⟨e, batch, rfl, hnext.symm⟩)))
  | flagged e batch =>
      simp only [monitorStep, hmonitor, Option.some.injEq] at hnext
      exact .inr (.inr (.inr (.inr ⟨e, batch, rfl, hnext.symm⟩)))

/-- It leaves the visitor alone. -/
theorem monitorStep_keeps {s' : State α} (hnext : monitorStep excluded s = some s') :
    s'.visitor = s.visitor ∧ s'.connected = s.connected ∧ s'.queued = s.queued ∧
      s'.queue = s.queue := by
  obtain ⟨-, rfl⟩ | ⟨e, batch, -, -, -, rfl⟩ | ⟨e, batch, -, -, rfl⟩ | ⟨e, batch, -, rfl⟩ |
    ⟨e, batch, -, rfl⟩ := monitorStep_cases hnext <;> exact ⟨rfl, rfl, rfl, rfl⟩

/-- The slot was called for an event of the window: it sets the flag and sends the event. -/
theorem Going.monitor {s' : State α} (hs : Going bound s h)
    (hcalled : ∀ e batch, s.monitor = .dispatching (e :: batch) → excluded e.2 = false →
      s.connected = true → e ∈ h.window)
    (hnext : monitorStep excluded s = some s') : Going bound s' h := by
  obtain ⟨-, rfl⟩ | ⟨e, batch, hmonitor, hexcluded, hconnected, rfl⟩ | ⟨e, batch, -, -, rfl⟩ |
    ⟨e, batch, hmonitor, rfl⟩ | ⟨e, batch, hmonitor, rfl⟩ := monitorStep_cases hnext
  · exact { hs with
      hand := fun d hd => nomatch hd
      flagged := fun hhand => nomatch hhand }
  · exact { hs with
      hand := by
        intro d hd
        obtain rfl := Option.some.inj hd
        exact hcalled e batch hmonitor hexcluded hconnected
      flagged := fun _ hcalling => absurd trivial hcalling }
  · exact { hs with
      hand := fun d hd => nomatch hd
      flagged := fun hhand => nomatch hhand }
  · have hhand := hs.hand
    rw [hmonitor] at hhand
    exact { hs with
      hand := hhand
      flag := fun _ => rfl
      flagged := fun _ _ => rfl }
  · have hhand := hs.hand
    have hflagged := hs.flagged
    rw [hmonitor] at hhand hflagged
    have hmalicious : s.malicious = true := hflagged rfl id
    exact { hs with
      reported := by
        intro d hd
        obtain rfl | hd := List.mem_cons.mp hd
        · exact hhand _ rfl
        · exact hs.reported d hd
      hand := fun d hd => nomatch hd
      flag := fun _ => hmalicious
      flagged := fun hhand => nomatch hhand }

theorem Open.monitor {s' : State α} (hs : Open excluded bound s h)
    (hnext : monitorStep excluded s = some s') : Open excluded bound s' h := by
  have hgoing : Going bound s' h := by
    refine hs.toGoing.monitor ?_ hnext
    intro e batch hmonitor hexcluded _
    refine hs.batch e ?_ hexcluded
    rw [hmonitor]
    exact List.mem_cons_self
  have hbatch := hs.batch
  have hcovered := hs.covered
  obtain ⟨hmonitor, rfl⟩ | ⟨e, batch, hmonitor, hexcluded, -, rfl⟩ |
    ⟨e, batch, hmonitor, hskipped, rfl⟩ | ⟨e, batch, hmonitor, rfl⟩ | ⟨e, batch, hmonitor, rfl⟩ :=
      monitorStep_cases hnext
  all_goals
    simp only [State.waiting, hmonitor, MonitorStep.batch, MonitorStep.hand] at hbatch hcovered
  · exact { hgoing, hs with batch := hbatch, covered := hcovered }
  · refine { hgoing, hs with batch := fun d hd => hbatch d (List.mem_cons_of_mem _ hd), covered := ?_ }
    intro d hd hexcluded
    obtain hreported | hhand | hwaiting := hcovered d hd hexcluded
    · exact .inl hreported
    · cases hhand
    · obtain rfl | hwaiting := List.mem_cons.mp hwaiting
      · exact .inr (.inl rfl)
      · exact .inr (.inr hwaiting)
  · refine { hgoing, hs with batch := fun d hd => hbatch d (List.mem_cons_of_mem _ hd), covered := ?_ }
    intro d hd hexcluded
    obtain hreported | hhand | hwaiting := hcovered d hd hexcluded
    · exact .inl hreported
    · cases hhand
    · obtain rfl | hwaiting := List.mem_cons.mp hwaiting
      · exact absurd (hskipped hs.connected) (by simp [hexcluded])
      · exact .inr (.inr hwaiting)
  · exact { hgoing, hs with batch := hbatch, covered := hcovered }
  · refine { hgoing, hs with batch := hbatch, covered := ?_ }
    intro d hd hexcluded
    obtain hreported | hhand | hwaiting := hcovered d hd hexcluded
    · exact .inl (List.mem_cons_of_mem _ hreported)
    · obtain rfl := Option.some.inj hhand
      exact .inl List.mem_cons_self
    · exact .inr (.inr hwaiting)

theorem Closed.monitor {todo : List EndType} {s' : State α} (hs : Closed excluded todo s h)
    (hnext : monitorStep excluded s = some s') : Closed excluded todo s' h := by
  have hgoing : Going h.closed s' h := by
    refine hs.toGoing.monitor ?_ hnext
    intro e batch _ _ hconnected
    exact absurd hconnected (by simp [hs.connected])
  have hcovered := hs.covered
  obtain ⟨hmonitor, rfl⟩ | ⟨e, batch, -, -, hconnected, -⟩ | ⟨e, batch, hmonitor, -, rfl⟩ |
    ⟨e, batch, hmonitor, rfl⟩ | ⟨e, batch, hmonitor, rfl⟩ := monitorStep_cases hnext
  · rw [hmonitor] at hcovered
    exact { hgoing, hs with covered := hcovered }
  · exact absurd hconnected (by simp [hs.connected])
  · rw [hmonitor] at hcovered
    exact { hgoing, hs with covered := hcovered }
  · rw [hmonitor] at hcovered
    exact { hgoing, hs with covered := hcovered }
  · rw [hmonitor] at hcovered
    refine { hgoing, hs with covered := ?_ }
    intro hfinish d hd hexcluded
    obtain hreported | hhand := hcovered hfinish d hd hexcluded
    · exact .inl (List.mem_cons_of_mem _ hreported)
    · obtain rfl := Option.some.inj hhand
      exact .inl List.mem_cons_self

/-- A step of the driver or of the monitor that leaves the visitor and the window alone. -/
theorem Stage.of_frame {s' : State α} (hs : Stage excluded s h) (hvisitor : s'.visitor = s.visitor)
    (hconnected : s'.connected = s.connected)
    (hvisiting : s.visitor = .visiting → Open excluded s.queued s h → Open excluded s'.queued s' h)
    (hreturned : ∀ todo, s.visitor = .returned todo → Open excluded h.closed s h →
      Open excluded h.closed s' h)
    (hclosed : ∀ todo, Closed excluded todo s h → Closed excluded todo s' h) :
    Stage excluded s' h := by
  unfold Stage at hs ⊢
  rw [hvisitor]
  cases hstage : s.visitor with
  | waiting => trivial
  | cleared => trivial
  | connected =>
      rw [hstage] at hs
      exact hconnected.trans hs
  | visiting =>
      rw [hstage] at hs
      exact hvisiting hstage hs
  | returned todo =>
      rw [hstage] at hs
      exact hs.imp (hreturned todo hstage) (hclosed todo)
  | stopped todo =>
      rw [hstage] at hs
      exact hclosed todo hs
  | reporting malicious todo =>
      rw [hstage] at hs
      exact ⟨hclosed todo hs.1, hs.2⟩

/-! ### The visitor -/

/-- The start message goes out, and of what was queued before nothing can be signalled. -/
theorem Open.of_start (hconnected : s.connected = true) (hhand : s.monitor.hand = none)
    (hwaiting : ∀ e ∈ s.waiting, excluded e.2 = true) :
    Open excluded s.queued { s with sent := .start :: s.sent, visitor := .visiting }
      { h with window := [] } where
  reported _ hd := nomatch hd
  hand d hd := by
    rw [show s.monitor.hand = none from hhand] at hd
    cases hd
  flag hreported := absurd rfl hreported
  flagged hsome := by
    rw [show s.monitor.hand = none from hhand] at hsome
    cases hsome
  window _ hd := nomatch hd
  counted := Nat.le_refl _
  connected := hconnected
  batch d hd hexcluded := by
    have := hwaiting d (List.mem_append_left _ hd)
    simp [hexcluded] at this
  queue d hd hexcluded := by
    have := hwaiting d (List.mem_append_right _ hd)
    simp [hexcluded] at this
  covered _ hd := nomatch hd

/-- The plugin returns. -/
theorem Open.of_return (todo : List EndType) (hs : Open excluded s.queued s h) :
    Open excluded s.queued { s with visitor := .returned todo } { h with closed := s.queued } :=
  { hs with }

/-- The slots are disconnected, and nothing of the window is left. -/
theorem Closed.of_open {todo : List EndType} (hs : Open excluded h.closed s h)
    (hflushed : .finish ∈ todo → ∀ e ∈ s.waiting, excluded e.2 = false → h.closed ≤ e.1) :
    Closed excluded todo { s with connected := false, visitor := .stopped todo } h :=
  { hs with
    connected := rfl
    covered := by
      intro hfinish d hd hexcluded
      obtain hreported | hhand | hwaiting := hs.covered d hd hexcluded
      · exact .inl hreported
      · exact .inr hhand
      · exact absurd (hs.window d hd) (Nat.not_lt.mpr (hflushed hfinish d hwaiting hexcluded)) }

/-- The flag that is read tells whether something was queued. -/
theorem Closed.malicious {todo : List EndType} (hs : Closed excluded todo s h)
    (hfinish : .finish ∈ todo) (hcalling : s.monitor.Calling → s.malicious = true)
    (hwindow : ∃ e ∈ h.window, excluded e.2 = false) : s.malicious = true := by
  obtain ⟨e, he, hexcluded⟩ := hwindow
  obtain hreported | hhand := hs.covered hfinish e he hexcluded
  · exact hs.flag (List.ne_nil_of_mem hreported)
  · by_cases hcalled : s.monitor.Calling
    · exact hcalling hcalled
    · exact hs.flagged (by rw [hhand]; rfl) hcalled

/-- A finish message that comes after the last event of the visit. -/
theorem Closed.faithful {todo : List EndType} {malicious : Bool} (hs : Closed excluded todo s h)
    (hfinish : .finish ∈ todo) (hhand : s.monitor.hand = none)
    (hmalicious : (∃ e ∈ h.window, excluded e.2 = false) → malicious = true) :
    Visit.Faithful excluded
      { window := h.window, reported := VisitWindow.reported s.sent, malicious } where
  complete e he hexcluded := by
    obtain hreported | hsome := hs.covered hfinish e he hexcluded
    · exact hreported
    · rw [hhand] at hsome
      cases hsome
  malicious := hmalicious
  sound := hs.reported

theorem Closed.tail {type : EndType} {todo : List EndType} {malicious : Bool} {visitor : VisitorStep}
    {finished : List (Visit α)} (hs : Closed excluded (type :: todo) s h) :
    Closed excluded todo { s with sent := .ended type malicious :: s.sent, visitor }
      { h with finished } :=
  { hs with covered := fun hfinish => hs.covered (List.mem_cons_of_mem _ hfinish) }

/-- After a message either the next one is to come or the visit is over. -/
theorem Closed.stage {todo : List EndType} (hs : Closed excluded todo s h)
    (hvisitor : s.visitor = if todo = [] then .waiting else .returned todo) :
    Stage excluded s h := by
  unfold Stage
  cases todo with
  | nil =>
      rw [hvisitor, if_pos rfl]
      trivial
  | cons type todo =>
      rw [hvisitor, if_neg (List.cons_ne_nil type todo)]
      exact .inr hs

end Invariant

/-! ## Every run -/

section Runs
variable {excluded : α → Bool} {s s' : State α} {h : Visits α} {x x' : State α × Visits α}

theorem Kept.queue (e : α) (hx : Kept excluded (s, h))
    (hnext : next excluded s (.queue e) = some s') :
    Kept excluded (s', h.record s (.queue e) s') := by
  obtain rfl := Option.some.inj hnext
  obtain ⟨hnumbers, hstage, hfinished⟩ := hx
  have hnumbers' : ∀ d ∈ s.queue ++ [(s.queued, e)], d.1 < s.queued + 1 := by
    intro d hd
    obtain hd | hd := List.mem_append.mp hd
    · exact Nat.lt_succ_of_lt (hnumbers d hd)
    · obtain rfl := List.mem_singleton.mp hd
      exact Nat.lt_succ_self _
  by_cases hvisiting : s.visitor = .visiting
  · simp only [Stage, hvisiting] at hstage
    have hopen := hstage.queue_visiting e hnumbers
    refine ⟨hnumbers', ?_, ?_⟩
    · simp only [Stage, hvisiting, Visits.record]
      rw [hvisiting] at hopen
      exact hopen
    · simp only [Visits.record, hvisiting]
      exact hfinished
  · have hrecord : h.record s (.queue e)
        { s with queued := s.queued + 1, queue := s.queue ++ [(s.queued, e)] } = h := by
      unfold Visits.record
      split <;> simp_all
    rw [hrecord]
    exact ⟨hnumbers', Stage.of_frame hstage rfl rfl (fun h => absurd h hvisiting)
      (fun _ _ hopen => hopen.queue_returned e) (fun _ hclosed => hclosed.queue e), hfinished⟩

theorem Kept.fetch {n : Nat} (hx : Kept excluded (s, h)) (hok : Flushed excluded (s, h) (.fetch n))
    (hnext : next excluded s (.fetch n) = some s') :
    Kept excluded (s', h.record s (.fetch n) s') := by
  cases hsleeping : s.monitor with
  | sleeping =>
      simp only [next, hsleeping, Option.some.injEq] at hnext
      subst hnext
      refine ⟨fun d hd => hx.numbers d (List.mem_of_mem_drop hd), ?_, hx.finished⟩
      refine hx.stage.of_frame rfl rfl ?_ ?_ (fun _ hclosed => hclosed.fetch hsleeping)
      · intro _ hopen
        exact hopen.fetch hsleeping fun d hd _ => hx.numbers d (List.mem_of_mem_take hd)
      · intro todo hreturned hopen
        refine hopen.fetch hsleeping (hok ?_)
        have hreturned : s.visitor = .returned todo := hreturned
        simp only [State.Late, hreturned]
        exact hopen.connected
  | dispatching _ => simp [next, hsleeping] at hnext
  | called _ _ => simp [next, hsleeping] at hnext
  | flagged _ _ => simp [next, hsleeping] at hnext

theorem Kept.monitor (hx : Kept excluded (s, h)) (hnext : next excluded s .monitor = some s') :
    Kept excluded (s', h.record s .monitor s') := by
  have hnext : monitorStep excluded s = some s' := hnext
  obtain ⟨hvisitor, hconnected, hqueued, hqueue⟩ := monitorStep_keeps hnext
  refine ⟨?_, ?_, hx.finished⟩
  · show ∀ d ∈ s'.queue, d.1 < s'.queued
    rw [hqueued, hqueue]
    exact hx.numbers
  · refine hx.stage.of_frame hvisitor hconnected ?_ (fun _ _ hopen => hopen.monitor hnext)
      (fun _ hclosed => hclosed.monitor hnext)
    intro _ hopen
    rw [hqueued]
    exact hopen.monitor hnext

theorem Kept.visitor {threw isError : Bool} (hx : Kept excluded (s, h))
    (hok : FlushedVisitor excluded (s, h)) (hnext : visitorStep threw isError s = some s') :
    Kept excluded (s', h.record s (.visitor threw isError) s') := by
  obtain ⟨hnumbers, hstage, hfinished⟩ := hx
  unfold FlushedVisitor at hok
  unfold Stage at hstage
  unfold visitorStep at hnext
  cases hvisitor : s.visitor with
  | waiting =>
      simp only [hvisitor, Option.some.injEq] at hnext
      subst hnext
      exact ⟨hnumbers, trivial, by simpa only [Visits.record, hvisitor] using hfinished⟩
  | cleared =>
      simp only [hvisitor, Option.some.injEq] at hnext
      subst hnext
      exact ⟨hnumbers, rfl, by simpa only [Visits.record, hvisitor] using hfinished⟩
  | connected =>
      simp only [hvisitor, Option.some.injEq] at hnext hstage hok
      subst hnext
      simp only [Visits.record, hvisitor]
      exact ⟨hnumbers, Open.of_start hstage hok.1 hok.2, hfinished⟩
  | visiting =>
      simp only [hvisitor, Option.some.injEq] at hnext hstage
      subst hnext
      simp only [Visits.record, hvisitor]
      exact ⟨hnumbers, .inl (hstage.of_return _), hfinished⟩
  | returned todo =>
      simp only [hvisitor, Option.some.injEq] at hnext hstage hok
      subst hnext
      simp only [Visits.record, hvisitor]
      refine ⟨hnumbers, ?_, hfinished⟩
      obtain hopen | hclosed := hstage
      · exact Closed.of_open hopen (hok hopen.connected)
      · exact { hclosed with connected := rfl }
  | stopped todo =>
      simp only [hvisitor, Option.some.injEq] at hnext hstage
      subst hnext
      simp only [Visits.record, hvisitor]
      refine ⟨hnumbers, ⟨{ hstage with }, ?_⟩, hfinished⟩
      intro hfinish hwindow
      obtain ⟨rest, rfl⟩ := List.head?_eq_some_iff.mp hfinish
      simp only [hvisitor] at hok
      exact hstage.malicious List.mem_cons_self hok hwindow
  | reporting malicious todo =>
      cases todo with
      | nil => simp [hvisitor] at hnext
      | cons type todo =>
          simp only [hvisitor, Option.some.injEq] at hnext hstage
          subst hnext
          cases type with
          | error =>
              simp only [Visits.record, hvisitor]
              exact ⟨hnumbers, hstage.1.tail.stage rfl, hfinished⟩
          | finish =>
              simp only [hvisitor] at hok
              simp only [Visits.record, hvisitor]
              refine ⟨hnumbers, hstage.1.tail.stage rfl, ?_⟩
              intro v hv
              obtain rfl | hv := List.mem_cons.mp hv
              · exact hstage.1.faithful List.mem_cons_self hok (hstage.2 rfl)
              · exact hfinished v hv

theorem kept_init (excluded : α → Bool) (hinit : (visitsMachine excluded).init x) :
    Kept excluded x := by
  obtain ⟨⟨malicious, hs⟩, hh⟩ := hinit
  obtain ⟨s, h⟩ := x
  obtain rfl : s = { malicious } := hs
  obtain rfl : h = {} := hh
  exact ⟨fun _ he => (nomatch he), trivial, fun _ hv => (nomatch hv)⟩

theorem Kept.next {a : Action α} (hx : Kept excluded x)
    (hok : Flushed excluded x a) (hnext : (visitsMachine excluded).next x a = some x') :
    Kept excluded x' := by
  obtain ⟨hs, hh⟩ := Machine.of_recording_next hnext
  obtain ⟨s', h'⟩ := x'
  obtain rfl : h' = x.2.record x.1 a s' := hh
  cases a with
  | queue e => exact hx.queue e hs
  | fetch n => exact hx.fetch hok hs
  | monitor => exact hx.monitor hs
  | visitor threw isError => exact hx.visitor hok hs

/-- **Every finished visit tells what was queued during it.** -/
theorem window_safe (hx : (visitsMachine excluded).Reachable (Flushed excluded) x) :
    ∀ v ∈ x.2.finished, v.Faithful excluded :=
  (hx.invariant (fun _ => kept_init excluded) fun _ _ _ hkept => hkept.next).finished

end Runs

/-! ## Two visits -/

/-- The visitor goes on, and the plugin is content. -/
def goOn : Action String := .visitor false false

/-- A file is written during the visit, and the monitor wakes up in time. -/
def inTime : List (Action String) :=
  [goOn, goOn, goOn, .queue "C:\\new.exe", .fetch 1, .monitor, .monitor, .monitor,
    goOn, goOn, goOn, goOn]

/-- It wakes up when the visit is over. -/
def tooLate : List (Action String) :=
  [goOn, goOn, goOn, .queue "C:\\new.exe", goOn, goOn, goOn, goOn]

theorem window_safe_inTime :
    ∃ x, (visitsMachine fun _ => false).run inTime ({ malicious := true }, {}) = some x ∧
      x.2.finished.map Visit.window = [[(0, "C:\\new.exe")]] ∧
      ∀ v ∈ x.2.finished, v.Faithful fun _ => false := by
  have hmeets : (visitsMachine fun _ => false).Meets (Flushed fun _ => false) inTime
      ({ malicious := true }, {}) := by decide
  exact ⟨_, rfl, rfl, window_safe (Machine.Reachable.run (.init ⟨⟨true, rfl⟩, rfl⟩) hmeets rfl)⟩

/-- The file is not reported, and the page passes for harmless. -/
theorem tooLate_lost :
    ¬ ∀ x : State String × Visits String, (visitsMachine fun _ => false).Reachable Machine.AnyStep x →
      ∀ v ∈ x.2.finished, v.Faithful fun _ => false := by
  intro hall
  obtain ⟨x, hrun, hvisit⟩ : ∃ x, (visitsMachine fun _ => false).run tooLate
      ({ malicious := false }, {}) = some x ∧
      { window := [(0, "C:\\new.exe")], reported := [], malicious := false } ∈ x.2.finished :=
    ⟨_, rfl, List.mem_cons_self⟩
  have hreach := Machine.reachable_of_run (M := visitsMachine fun _ => false) ⟨⟨false, rfl⟩, rfl⟩ hrun
  have hreported := (hall x hreach _ hvisit).complete _ List.mem_cons_self rfl
  cases hreported

end CaptureHpc.Client.VisitWindow
