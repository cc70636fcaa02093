/-
# `Server.System` — the whole server

The threads of the server and the clients that talk to it are one machine.  The
environment decides what a client sends, whether a connection holds, when a
timeout of the state checker has run out, and how a revert ends; a schedule is
any order of the steps of all threads.

A thread that throws is dealt with as its `run` method does: an event thread
blames the connection and ends, a retriever ends, the state checker gives up
this round.
-/
import CaptureHpc.Lib.Machine
import CaptureHpc.Server.Threads

namespace CaptureHpc.Server

open Java

abbrev ConnectionRef := Nat

/-- A connection and its `ClientEventController`. -/
structure Controller where
  step : EventStep := .reading
  client : Option ClientRef := none
  /-- The client was given another socket. -/
  superseded : Bool := false

structure System where
  server : ServerState
  /-- Objects from here on are not created yet. -/
  nextUrl : UrlRef := 0
  nextClient : ClientRef := 0
  retriever : ClientRef → RetrieverStep := fun _ => .stopped
  controller : ConnectionRef → Controller := fun _ => {}
  /-- The machine whose group the state checker has marked. -/
  checker : Option VmRef := none
  /-- Whether the thread that pings the clients is alive. -/
  pinger : Bool := true

inductive SystemAction where
  /-- The next URL of the input goes to a place in the queue. -/
  | enqueue (position : Nat)
  | receive (k : ConnectionRef) (line : Line)
  | handle (k : ConnectionRef)
  /-- The read throws. -/
  | lineLost (k : ConnectionRef)
  | endOfStream (k : ConnectionRef)
  | retrieve (c : ClientRef)
  /-- The state checker finds a machine inactive, or stalled. -/
  | blame (v : VmRef) (inactive : Bool)
  | revert
  /-- The worker of `VMwareServer` moves a machine on. -/
  | work (v : VmRef) (newState : VmState)
  | ping (c : ClientRef)
  | cutLink (c : ClientRef)

namespace System

def setController (k : ConnectionRef) (f : Controller → Controller) (s : System) : System :=
  { s with controller := Function.update s.controller k (f (s.controller k)) }

/-- A thread acts, and survives what it throws. -/
def perform (s : System) (x : Action Unit) : Option System :=
  (attempt x s.server).map fun (_, server) => { s with server }

/-- The event thread acts. -/
def eventStep (s : System) (k : ConnectionRef) (x : Action Unit) (next : EventStep) :
    Option System :=
  (attempt x s.server).map fun (result, server) =>
    match result with
    | some _ => { s with server }.setController k fun t => { t with step := next }
    | none =>
        let server := match (s.controller k).client with
          | some c => ((Client.blameConnection c).run server).2
          | none => server
        { s with server }.setController k fun t => { t with step := .stopped }

/-- The socket of the connection is the client's, and it is open. -/
def socketOpen (s : System) (k : ConnectionRef) : Bool :=
  match (s.controller k).client with
  | some c => !(s.controller k).superseded && !(s.server.client c).socketClosed
  | none => true

/-- `parseConnectEvent` up to CONNECTED: the event thread has a new client. -/
def connect (s : System) (k : ConnectionRef) (v : VmRef) (linkUp : Bool) : Option System :=
  let c := s.nextClient
  let connecting := { s with
    server := s.server.setClient c fun _ => { linkUp }
    nextClient := c + 1
    retriever := Function.update s.retriever c .loop
    controller := Function.update s.controller k { s.controller k with client := some c } }
  connecting.eventStep k (Client.connect c v) .connected

/-- The connections after one of them has taken over a client, or no client. -/
def takeOver (s : System) (k : ConnectionRef) (client : Option ClientRef) (k' : ConnectionRef) :
    Controller :=
  if k' = k then { s.controller k with client }
  else if client.isSome && (s.controller k').client = client then
    { s.controller k' with superseded := true }
  else s.controller k'

/-- `parseReconnectEvent`: the event thread takes over the client of a machine.  The socket that
the client had is closed before it is given this one. -/
def reconnect (s : System) (k : ConnectionRef) (v : VmRef) (usable : Bool) : Option System :=
  let client := (s.server.vm v).client
  let taken := { s with controller := s.takeOver k client }
  match client with
  | some c =>
      if usable && (s.controller k).client = client then none
      else taken.eventStep k (Client.setSocket c usable) .reading
  | none => taken.eventStep k (pure ()) .reading

/-- What a line does. -/
def handle (s : System) (k : ConnectionRef) : Line → Option System
  | .connect (some v) linkUp => s.connect k v linkUp
  | .reconnect (some v) usable => s.reconnect k v usable
  | .systemEvent element origin =>
      match (s.controller k).client with
      | some c => s.eventStep k (Client.parseEvent c element origin) .reading
      | none => s.eventStep k (pure ()) .reading
  | .visitEvent element =>
      match (s.controller k).client with
      | some c => s.eventStep k (Client.parseVisitEvent c element) .reading
      | none => s.eventStep k (pure ()) .reading
  | .broken => s.eventStep k (throw .nullPointer) .reading
  | .notWellFormed => s.eventStep k (pure ()) .stopped
  | _ => s.eventStep k (pure ()) .reading

def next (s : System) : SystemAction → Option System
  | .enqueue position =>
      ({ s with nextUrl := s.nextUrl + 1 }).perform (UrlsController.addUrl s.nextUrl position)
  | .receive k line =>
      match (s.controller k).step with
      | .reading =>
          if s.socketOpen k then some (s.setController k fun t => { t with step := .read line })
          else none
      | _ => none
  | .handle k =>
      match (s.controller k).step with
      | .read line => s.handle k line
      | .connected =>
          match (s.controller k).client with
          | some c => s.eventStep k (Client.setClientState c .waiting) .reading
          | none => none
      | _ => none
  | .lineLost k =>
      match (s.controller k).step with
      | .reading => s.eventStep k (throw .nullPointer) .reading
      | _ => none
  | .endOfStream k =>
      match (s.controller k).step with
      | .reading => some (s.setController k fun t => { t with step := .stopped })
      | _ => none
  | .retrieve c =>
      (Client.retrieveStep c (s.retriever c) s.server).map fun (step, server) =>
        { s with server, retriever := Function.update s.retriever c step }
  | .blame v inactive =>
      if s.checker = none ∧ (inactive = true → (s.server.vm v).vmState = .running) then
        (attempt (VirtualMachinesStateChecker.checkVm v inactive) s.server).map
          fun (result, server) => { s with server, checker := result.map fun _ => v }
      else none
  | .revert =>
      match s.checker with
      | some v => ({ s with checker := none }).perform
          (VirtualMachine.setState v .waitingToBeReverted)
      | none => none
  | .work v newState =>
      if newState = .waitingToBeReverted then none
      else s.perform (VirtualMachine.setState v newState)
  | .ping c =>
      if s.pinger then
        (attempt (Client.send c) s.server).map fun (result, server) =>
          { s with server, pinger := result.isSome }
      else none
  | .cutLink c =>
      some { s with server := s.server.setClient c fun x => { x with linkUp := false } }

end System

/-- A server that has just been started. -/
def startedServer (config : Config) (url : UrlRef → Url) (vmState : VmRef → VmState) :
    ServerState where
  config
  url
  store := { visit := fun _ => {} }
  group _ := { urlList := [], clientProgram := "", visitTime := 0 }
  nextGroup := 0
  client _ := {}
  vm v := { vmState := vmState v }
  urlQueue := []
  urlGroupQueue := []
  visitingList := []

/-- The server as a machine. -/
def systemMachine : Machine System SystemAction where
  init s := ∃ config url vmState, s = { server := startedServer config url vmState }
  next := System.next

/-! ## What a step does -/

/-- What a step does to the objects of the server. -/
inductive Does (s : System) : SystemAction → ServerState → Prop
  | nothing {a : SystemAction} : Does s a s.server
  | enqueue {position : Nat} : Does s (.enqueue position)
      ((UrlsController.addUrl s.nextUrl position).run s.server).2
  | connect {k : ConnectionRef} {v : VmRef} {linkUp : Bool} :
      (s.controller k).step = .read (.connect (some v) linkUp) → Does s (.handle k)
        ((Client.connect s.nextClient v).run (s.server.setClient s.nextClient fun _ => { linkUp })).2
  | welcome {k : ConnectionRef} {c : ClientRef} : (s.controller k).step = .connected →
      (s.controller k).client = some c →
        Does s (.handle k) ((Client.setClientState c .waiting).run s.server).2
  | reconnect {k : ConnectionRef} {v : VmRef} {usable : Bool} {c : ClientRef} :
      (s.controller k).step = .read (.reconnect (some v) usable) →
        (s.server.vm v).client = some c →
          Does s (.handle k) ((Client.setSocket c usable).run s.server).2
  | systemEvent {k : ConnectionRef} {element : Element} {origin : Nat} {c : ClientRef} :
      (s.controller k).step = .read (.systemEvent element origin) →
        (s.controller k).client = some c →
          Does s (.handle k) ((Client.parseEvent c element origin).run s.server).2
  | visitEvent {k : ConnectionRef} {element : Element} {c : ClientRef} :
      (s.controller k).step = .read (.visitEvent element) → (s.controller k).client = some c →
        Does s (.handle k) ((Client.parseVisitEvent c element).run s.server).2
  | retrieve {c : ClientRef} :
      Does s (.retrieve c) ((Client.retrieve c (s.retriever c)).run s.server).2
  | check {v : VmRef} {inactive : Bool} : Does s (.blame v inactive)
      ((VirtualMachinesStateChecker.checkVm v inactive).run s.server).2
  | revert {v : VmRef} : s.checker = some v → Does s .revert
      ((VirtualMachine.setState v .waitingToBeReverted).run s.server).2
  | work {v : VmRef} {newState : VmState} : newState ≠ .waitingToBeReverted →
      Does s (.work v newState) ((VirtualMachine.setState v newState).run s.server).2
  | ping {c : ClientRef} : Does s (.ping c) ((Client.send c).run s.server).2
  | cutLink {c : ClientRef} :
      Does s (.cutLink c) (s.server.setClient c fun x => { x with linkUp := false })
  /-- The event thread blames the connection after a step of its own. -/
  | blamed {a : SystemAction} {server : ServerState} {c : ClientRef} : Does s a server →
      Does s a ((Client.blameConnection c).run server).2

theorem of_attempt {α : Type} {x : Action α} {s s' : ServerState} {r : Option α}
    (h : attempt x s = some (r, s')) : s' = (x.run s).2 := by
  rw [attempt] at h
  split at h
  · next he =>
      obtain ⟨-, rfl⟩ := Prod.mk.inj (Option.some.inj h)
      rw [he]
  · cases h
  · next he =>
      obtain ⟨-, rfl⟩ := Prod.mk.inj (Option.some.inj h)
      rw [he]

namespace System

variable {s s' : System} {k : ConnectionRef}

theorem of_perform {x : Action Unit} (h : s.perform x = some s') :
    s'.server = (x.run s.server).2 := by
  obtain ⟨⟨r, server⟩, hattempt, rfl⟩ := Option.map_eq_some_iff.mp h
  exact of_attempt hattempt

/-- What an event thread does is done, and perhaps the connection is blamed. -/
theorem does_eventStep {s₀ : System} {a : SystemAction} {x : Action Unit} {next : EventStep}
    (hdoes : Does s₀ a (x.run s.server).2) (h : s.eventStep k x next = some s') :
    Does s₀ a s'.server := by
  obtain ⟨⟨r, server⟩, hattempt, rfl⟩ := Option.map_eq_some_iff.mp h
  rw [← of_attempt hattempt] at hdoes
  cases r with
  | some _ => exact hdoes
  | none =>
      cases (s.controller k).client with
      | some c => exact .blamed hdoes
      | none => exact hdoes

theorem does_handle {line : Line} (hstep : (s.controller k).step = .read line)
    (h : s.handle k line = some s') : Does s (.handle k) s'.server := by
  cases line with
  | connect v linkUp =>
      cases v with
      | some v => exact does_eventStep (.connect hstep) h
      | none => exact does_eventStep .nothing h
  | reconnect v usable =>
      cases v with
      | some v =>
          simp only [handle, reconnect] at h
          split at h
          · next c hc =>
              split at h
              · cases h
              · refine does_eventStep ?_ h
                exact .reconnect hstep hc
          · exact does_eventStep .nothing h
      | none => exact does_eventStep .nothing h
  | systemEvent element origin =>
      simp only [handle] at h
      split at h
      · next c hc => exact does_eventStep (.systemEvent hstep hc) h
      · exact does_eventStep .nothing h
  | visitEvent element =>
      simp only [handle] at h
      split at h
      · next c hc => exact does_eventStep (.visitEvent hstep hc) h
      · exact does_eventStep .nothing h
  | other => exact does_eventStep .nothing h
  | broken => exact does_eventStep .nothing h
  | notWellFormed => exact does_eventStep .nothing h

/-- **What a step of the server can do.** -/
theorem does_next {a : SystemAction} (h : s.next a = some s') : Does s a s'.server := by
  cases a with
  | enqueue position =>
      rw [of_perform h]
      exact .enqueue
  | receive k line =>
      simp only [next] at h
      split at h
      · split at h
        · obtain rfl := Option.some.inj h
          exact .nothing
        · cases h
      · cases h
  | handle k =>
      simp only [next] at h
      split at h
      · next hstep => exact does_handle hstep h
      · next hstep =>
          split at h
          · next hc => exact does_eventStep (.welcome hstep hc) h
          · cases h
      · cases h
  | lineLost k =>
      simp only [next] at h
      split at h
      · exact does_eventStep .nothing h
      · cases h
  | endOfStream k =>
      simp only [next] at h
      split at h
      · obtain rfl := Option.some.inj h
        exact .nothing
      · cases h
  | retrieve c =>
      obtain ⟨⟨step, server⟩, hstep, rfl⟩ := Option.map_eq_some_iff.mp h
      rw [Client.retrieveStep] at hstep
      split at hstep
      · cases hstep
      · obtain ⟨⟨r, server₁⟩, hattempt, heq⟩ := Option.map_eq_some_iff.mp hstep
        obtain ⟨-, rfl⟩ := Prod.mk.inj heq
        rw [of_attempt hattempt]
        exact .retrieve
  | blame v inactive =>
      simp only [next] at h
      split at h
      · obtain ⟨⟨r, server⟩, hattempt, rfl⟩ := Option.map_eq_some_iff.mp h
        simp only [of_attempt hattempt]
        exact .check
      · cases h
  | revert =>
      simp only [next] at h
      split at h
      · next v hv =>
          rw [of_perform h]
          exact .revert hv
      · cases h
  | work v newState =>
      simp only [next] at h
      split at h
      · cases h
      · next hne =>
          rw [of_perform h]
          exact .work hne
  | ping c =>
      simp only [next] at h
      split at h
      · obtain ⟨⟨r, server⟩, hattempt, rfl⟩ := Option.map_eq_some_iff.mp h
        simp only [of_attempt hattempt]
        exact .ping
      · cases h
  | cutLink c =>
      obtain rfl := Option.some.inj h
      exact .cutLink

end System

/-! ## A run -/

/-- A server whose input has one URL. -/
def oneUrlServer : System where
  server := startedServer {} (fun _ => { id := "1", url := "http://a/", clientProgram := "iexplore"
                                         visitTime := 30 }) fun _ => .running

theorem oneUrlServer_init : systemMachine.init oneUrlServer := ⟨_, _, _, rfl⟩

/-- The URL is queued, and a client connects and is sent the URL. -/
def sendUrl : List SystemAction :=
  [.enqueue 0, .receive 0 (.connect (some 0) true), .handle 0, .handle 0] ++
    List.replicate 6 (.retrieve 0)

end CaptureHpc.Server
