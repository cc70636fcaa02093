/-
# `Client.VisitQueue` — waking up for visit requests

The thread that reads from the server pushes a visit event on a queue and
signals an auto-reset event.  The visitor waits for the event, takes one request
and visits it.  An event that is signalled already cannot be signalled more: of
two requests that come during one visit the second has no signal of its own.

Every request in the queue has a signal to come, or found the event signalled
(`Accounted`).  So a request is stranded only after a signal has been forgotten.
-/
import CaptureHpc.Client.Visitor
import CaptureHpc.Lib.Machine

namespace CaptureHpc.Client

open Java

/-! ## Requests -/

/-- The loop of `createUrl`; `none` is the exception of a time that is no number. -/
def readUrl (u : VisitUrl) : List (String × String) → Option VisitUrl
  | [] => some u
  | (name, value) :: attributes =>
      if name = "url" then readUrl { u with url := wide value.toList } attributes
      else if name = "program" then readUrl { u with program := value } attributes
      else if name = "time" then
        match parseInt value with
        | some time => readUrl { u with visitTime := time } attributes
        | none => none
      else readUrl u attributes

def createUrl (attributes : List (String × String)) : Option VisitUrl :=
  (readUrl { url := [], program := "", visitTime := 0 } attributes).map fun u =>
    { u with url := Url.decode u.url }

/-- The loop of `onServerEvent` over the children. -/
def readItems (program : String) (visitTime : Int) : List Element → Option (List VisitUrl)
  | [] => some []
  | e :: elements =>
      if e.name = "item" then
        match createUrl e.attributes, readItems program visitTime elements with
        | some url, some urls => some ({ url with visitTime, program } :: urls)
        | _, _ => none
      else readItems program visitTime elements

/-- The visit event that `onServerEvent` makes of an element. -/
def visitEventOf (element : Element) : Option VisitEvent :=
  if element.name = "visit-event" then
    match parseInt (element.getAttributeValue "time") with
    | some visitTime =>
        (readItems (element.getAttributeValue "program") visitTime element.childElements).map
          fun urls =>
            { identifier := element.getAttributeValue "identifier"
              program := element.getAttributeValue "program", urls }
    | none => none
  else some { identifier := "", program := "" }

/-! ## The two threads -/

/-- Where `Visitor::run` is. -/
inductive VisitorThread where
  /-- In `WaitForSingleObject`. -/
  | waiting
  /-- The wait has ended, and the request is to be taken. -/
  | popping
  | visiting (visitEvent : VisitEvent)

structure VisitQueue where
  toVisit : List VisitEvent := []
  hQueueNotEmpty : Bool := false
  /-- `onServerEvent` has pushed and is to signal. -/
  pushing : Bool := false
  visitor : VisitorThread := .waiting
  /-- How many signals found the event signalled; nobody reads it. -/
  forgotten : Nat := 0

inductive VisitQueueAction where
  /-- `onServerEvent`, up to the signal. -/
  | onServerEvent (element : Element)
  | setEvent
  /-- A step of the visitor. -/
  | run

namespace VisitQueue

/-- The visitor takes the first request; there is always one (`Accounted.pop`). -/
def runStep (s : VisitQueue) : Option VisitQueue :=
  match s.visitor with
  | .waiting =>
      if s.hQueueNotEmpty then some { s with hQueueNotEmpty := false, visitor := .popping } else none
  | .popping =>
      match s.toVisit with
      | [] => none
      | visitEvent :: toVisit => some { s with toVisit, visitor := .visiting visitEvent }
  | .visiting _ => some { s with visitor := .waiting }

/-- An element that is no visit, or has no URLs, is dropped. -/
def next (s : VisitQueue) : VisitQueueAction → Option VisitQueue
  | .onServerEvent element =>
      if s.pushing then none
      else
        match visitEventOf element with
        | none => none
        | some visitEvent =>
            if visitEvent.urls ≠ [] then
              some { s with toVisit := s.toVisit ++ [visitEvent], pushing := true }
            else some s
  | .setEvent =>
      if s.pushing then
        if s.hQueueNotEmpty then some { s with pushing := false, forgotten := s.forgotten + 1 }
        else some { s with pushing := false, hQueueNotEmpty := true }
      else none
  | .run => s.runStep

def machine : Machine VisitQueue VisitQueueAction where
  init s := s = {}
  next := next

/-! ## What is to hold -/

/-- The visitor waits, there is nothing to wake it up, and there is a request. -/
structure Stranded (s : VisitQueue) : Prop where
  waiting : s.visitor = .waiting
  noSignal : s.hQueueNotEmpty = false
  noPush : s.pushing = false
  request : s.toVisit ≠ []

/-- **The condition on a step**: the event is not signalled when a request is signalled. -/
def Unsignalled (s : VisitQueue) : VisitQueueAction → Prop
  | .setEvent => s.hQueueNotEmpty = false
  | _ => True

instance (s : VisitQueue) : ∀ a, Decidable (s.Unsignalled a)
  | .setEvent => inferInstanceAs (Decidable (s.hQueueNotEmpty = false))
  | .onServerEvent _ | .run => .isTrue trivial

/-! ## The requests and their signals -/

/-- The visitor has been woken up for a request that is still in the queue. -/
def woken (s : VisitQueue) : Nat :=
  match s.visitor with
  | .popping => 1
  | .waiting | .visiting _ => 0

/-- The signals that are there or to come. -/
def signals (s : VisitQueue) : Nat :=
  (if s.hQueueNotEmpty then 1 else 0) + (if s.pushing then 1 else 0)

/-- **Every request in the queue has its signal**, or its signal has been forgotten. -/
def Accounted (s : VisitQueue) : Prop := s.toVisit.length = s.woken + s.signals + s.forgotten

variable {s s' : VisitQueue} {a : VisitQueueAction}

/-- The queue that a visitor pops from is not empty. -/
theorem Accounted.pop (h : s.Accounted) (hpopping : s.visitor = .popping) : s.toVisit ≠ [] := by
  intro hempty
  have hwoken : s.woken = 1 := by rw [woken, hpopping]
  rw [Accounted, hempty, hwoken, List.length_nil] at h
  omega

/-- What a step can do. -/
inductive Step (s : VisitQueue) : VisitQueueAction → VisitQueue → Prop
  | dropped {element : Element} : s.Step (.onServerEvent element) s
  | pushed {element : Element} {visitEvent : VisitEvent} : s.pushing = false →
      s.Step (.onServerEvent element) { s with
        toVisit := s.toVisit ++ [visitEvent], pushing := true }
  | forgotten : s.pushing = true → s.hQueueNotEmpty = true →
      s.Step .setEvent { s with pushing := false, forgotten := s.forgotten + 1 }
  | signalled : s.pushing = true → s.hQueueNotEmpty = false →
      s.Step .setEvent { s with pushing := false, hQueueNotEmpty := true }
  | woken : s.visitor = .waiting → s.hQueueNotEmpty = true →
      s.Step .run { s with hQueueNotEmpty := false, visitor := .popping }
  | popped {visitEvent : VisitEvent} {toVisit : List VisitEvent} : s.visitor = .popping →
      s.toVisit = visitEvent :: toVisit →
        s.Step .run { s with toVisit, visitor := .visiting visitEvent }
  | visited {visitEvent : VisitEvent} : s.visitor = .visiting visitEvent →
      s.Step .run { s with visitor := .waiting }

theorem step_of_next (hnext : s.next a = some s') : s.Step a s' := by
  cases a with
  | onServerEvent element =>
      rw [VisitQueue.next] at hnext
      split_ifs at hnext with hpushing
      split at hnext
      · cases hnext
      · split at hnext
        · obtain rfl := Option.some.inj hnext
          exact .pushed (Bool.eq_false_iff.mpr hpushing)
        · obtain rfl := Option.some.inj hnext
          exact .dropped
  | setEvent =>
      rw [VisitQueue.next] at hnext
      split_ifs at hnext with hpushing hsignal
      · obtain rfl := Option.some.inj hnext
        exact .forgotten hpushing hsignal
      · obtain rfl := Option.some.inj hnext
        exact .signalled hpushing (Bool.eq_false_iff.mpr hsignal)
  | run =>
      rw [VisitQueue.next, VisitQueue.runStep.eq_def] at hnext
      split at hnext
      · next hwaiting =>
          split_ifs at hnext with hsignal
          obtain rfl := Option.some.inj hnext
          exact .woken hwaiting hsignal
      · next hpopping =>
          split at hnext
          · cases hnext
          · next hqueue =>
              obtain rfl := Option.some.inj hnext
              exact .popped hpopping hqueue
      · next hvisiting =>
          obtain rfl := Option.some.inj hnext
          exact .visited hvisiting

theorem Accounted.step (h : s.Accounted) (hstep : s.Step a s') : s'.Accounted := by
  unfold Accounted woken signals at *
  cases hstep with
  | dropped => exact h
  | pushed hpushing =>
      simp only [hpushing, Bool.false_eq_true, if_false] at h
      simp only [List.length_append, List.length_singleton, if_true]
      omega
  | forgotten hpushing hsignal =>
      simp only [hpushing, hsignal, if_true] at h
      simp only [hsignal, Bool.false_eq_true, if_true, if_false]
      omega
  | signalled hpushing hsignal =>
      simp only [hpushing, hsignal, Bool.false_eq_true, if_true, if_false] at h ⊢
      omega
  | woken hwaiting hsignal =>
      simp only [hwaiting, hsignal, Bool.false_eq_true, if_true, if_false] at h ⊢
      omega
  | popped hpopping hqueue =>
      simp only [hpopping, hqueue, List.length_cons] at h ⊢
      omega
  | visited hvisiting =>
      simp only [hvisiting] at h
      exact h

/-- How many requests are stranded when the visitor waits for nothing. -/
theorem Accounted.stranded (h : s.Accounted) (hwaiting : s.visitor = .waiting)
    (hsignal : s.hQueueNotEmpty = false) (hpush : s.pushing = false) :
    s.toVisit.length = s.forgotten := by
  simpa [Accounted, woken, signals, hwaiting, hsignal, hpush] using h

theorem forgotten_step (hforgotten : s.forgotten = 0) (hok : s.Unsignalled a)
    (hstep : s.Step a s') : s'.forgotten = 0 := by
  cases hstep with
  | forgotten _ hsignal => exact absurd (hsignal.symm.trans hok) nofun
  | dropped | pushed _ | signalled _ _ | woken _ _ | popped _ _ | visited _ => exact hforgotten

theorem accounted_of_reachable {ok : VisitQueue → VisitQueueAction → Prop}
    (h : machine.Reachable ok s) : s.Accounted := by
  refine h.invariant ?_ fun s a s' hs _ hnext => hs.step (step_of_next hnext)
  rintro s rfl
  rfl

/-- **No request is stranded** in a run in which no signal comes while the event is signalled. -/
theorem no_request_stranded (s : VisitQueue) (h : machine.Reachable Unsignalled s) :
    ¬ s.Stranded := by
  have hforgotten : s.forgotten = 0 := by
    refine h.invariant ?_ fun s a s' hs hok hnext => forgotten_step hs hok (step_of_next hnext)
    rintro s rfl
    rfl
  rintro ⟨hwaiting, hsignal, hpush, hrequest⟩
  have hlength := (accounted_of_reachable h).stranded hwaiting hsignal hpush
  rw [hforgotten] at hlength
  exact hrequest (List.length_eq_zero_iff.mp hlength)

/-- What the server sends for one URL. -/
def oneUrl : Element where
  name := "visit-event"
  attributes := [("identifier", "1"), ("program", "iexplore"), ("time", "5")]
  childElements := [{ name := "item", attributes := [("url", "a")] }]

/-- Two requests, the second after the visitor has been woken up for the first. -/
theorem woken_not_stranded :
    ∃ s : VisitQueue, machine.Reachable Unsignalled s ∧ s.toVisit = [] ∧ ¬ s.Stranded := by
  have hrun : (machine.run [.onServerEvent oneUrl, .setEvent, .run, .onServerEvent oneUrl, .setEvent,
      .run, .run, .run, .run] {}).map (fun s => s.toVisit.length) = some 0 := by
    decide
  have hmeets : machine.Meets Unsignalled [.onServerEvent oneUrl, .setEvent, .run,
      .onServerEvent oneUrl, .setEvent, .run, .run, .run, .run] {} := by
    decide
  obtain ⟨s, hs, hlength⟩ := Option.map_eq_some_iff.mp hrun
  have hreachable := (Machine.Reachable.init rfl).run hmeets hs
  exact ⟨s, hreachable, List.length_eq_zero_iff.mp hlength, no_request_stranded s hreachable⟩

/-- Two requests come during a visit, and one of them is stranded. -/
theorem second_request_stranded :
    ¬ ∀ s : VisitQueue, machine.Reachable Machine.AnyStep s → ¬ s.Stranded := by
  intro hall
  have hrun : (machine.run [.onServerEvent oneUrl, .setEvent, .run, .run, .onServerEvent oneUrl,
      .setEvent, .onServerEvent oneUrl, .setEvent, .run, .run, .run, .run] {}).map (fun s =>
        (match s.visitor with | .waiting => true | _ => false, s.hQueueNotEmpty, s.pushing,
          s.toVisit.length)) = some (true, false, false, 1) := by
    decide
  obtain ⟨s, hs, hstate⟩ := Option.map_eq_some_iff.mp hrun
  obtain ⟨hvisitor, hsignal, hpush, hlength⟩ := by simpa only [Prod.mk.injEq] using hstate
  refine hall s (Machine.reachable_of_run rfl hs) ⟨?_, hsignal, hpush, ?_⟩
  · cases hv : s.visitor with
    | waiting => rfl
    | popping => simp [hv] at hvisitor
    | visiting visitEvent => simp [hv] at hvisitor
  · intro hempty
    rw [hempty] at hlength
    cases hlength

end VisitQueue

end CaptureHpc.Client
