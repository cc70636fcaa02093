/-
# `Server.Monitors` — who waits for whom

Four kinds of thread take the monitors of clients, of virtual machines and of
the retriever threads.  `Client.setClientState` takes the client, then its
machine, then its retriever.  `VirtualMachine.setState` takes the machine and,
when it is to be reverted, the client that is on it.  The retriever is in its
own monitor while it takes a group and sends it, and a send that fails takes the
client and its machine.

So the order is client, machine, retriever, and two places go against it: the
state checker (or whoever reverts a machine with a live client on it), and the
retriever.  `monitors_safe` says that nothing else can go wrong: there is no
circle as long as nobody has to wait there, and the state checker gets past
every retriever as long as it does not come to one that takes a group.

The code of a thread is what it has still to do with monitors, and the data
that decides which: the states of clients and machines, and which belong
together.  How many URLs a group takes from the queue, and whether a send goes
through, are left open.
-/
import CaptureHpc.Lib.Machine
import CaptureHpc.Lib.Monitors
import CaptureHpc.Server.State

namespace CaptureHpc.Server

inductive Monitor where
  | client (c : ClientRef)
  | vm (v : VmRef)
  /-- `urlRetriever` of a client -/
  | retriever (c : ClientRef)
deriving DecidableEq

/-- The order in which `Client.setClientState` takes them. -/
def Monitor.rank : Monitor → Nat
  | .client _ => 0
  | .vm _ => 1
  | .retriever _ => 2

inductive ServerThread where
  /-- of `ClientEventController` -/
  | event (n : Nat)
  | retriever (c : ClientRef)
  /-- of `VMwareServer` -/
  | worker (n : Nat)
  | stateChecker
deriving DecidableEq

/-- The synchronized blocks and methods. -/
inductive Block where
  | setClientState (c : ClientRef) (newState : ClientState)
  | setState (v : VmRef) (newState : VmState)
  /-- `synchronized (urlRetriever)` in `setClientState` -/
  | notifyRetriever (c : ClientRef)
  /-- `setChanged`, and `notifyObservers` up to its calls of `update` -/
  | observeClient (c : ClientRef)
  | observeVm (v : VmRef)
  /-- the work item of `VMwareServer.run` -/
  | revert (v : VmRef) (succeeds : Bool)
  /-- `Client.run` -/
  | run (c : ClientRef)
deriving DecidableEq

/-- What a thread does next. -/
inductive Op where
  | enter (b : Block)
  /-- the text of `setClientState` -/
  | setClientState (c : ClientRef) (newState : ClientState)
  /-- the text of the block in `setState` -/
  | setState (v : VmRef) (newState : VmState)
  /-- `virtualMachine.setClient(null)` -/
  | forgetClient (v : VmRef)
  /-- `client.setVirtualMachine(vm)` and `vm.setClient(client)` -/
  | connect (c : ClientRef) (v : VmRef)
  | notifyAll (c : ClientRef)
  /-- the test of the loop of `Client.run` -/
  | loop (c : ClientRef)
  /-- the test for WAITING in it -/
  | test (c : ClientRef)
  /-- `takeUrl`, so many times -/
  | takeUrl (n : Nat)
  | send (c : ClientRef)
  | awaitVisiting (c : ClientRef)
  /-- `urlRetriever.wait()`, and then the loop again -/
  | wait (c : ClientRef)
  | notified (c : ClientRef)
deriving DecidableEq

namespace Block

def monitor : Block → Monitor
  | setClientState c _ | observeClient c => .client c
  | setState v _ | observeVm v | revert v _ => .vm v
  | notifyRetriever c | run c => .retriever c

def body : Block → List Op
  | setClientState c newState => [.setClientState c newState]
  | setState v newState => [.setState v newState]
  | notifyRetriever c => [.notifyAll c]
  | observeClient _ | observeVm _ => []
  | revert v succeeds =>
      [.enter (.setState v .reverting), .enter (.setState v (if succeeds then .running else .error))]
  | run c => [.loop c]

end Block

/-- The monitor an operation takes. -/
def Op.wants : Op → Option Monitor
  | .enter b => some b.monitor
  | _ => none

abbrev ServerThreads := Monitors.Threads ServerThread Monitor Op

structure MonitorState where
  threads : ServerThreads
  clientState : ClientRef → ClientState
  virtualMachine : ClientRef → Option VmRef
  vmState : VmRef → VmState
  /-- `VirtualMachine.client` -/
  client : VmRef → Option ClientRef
  /-- The retriever was notified since it began to wait. -/
  notified : ClientRef → Bool
  /-- How many URLs are queued. -/
  urlQueue : Nat

namespace MonitorState

open Monitors

def code (s : MonitorState) (t : ServerThread) : Code Monitor Op := s.threads.code t

/-- The thread goes on with these operations. -/
def goOn (s : MonitorState) (t : ServerThread) (ops : List Op) : MonitorState :=
  { s with threads := s.threads.setCode t ⟨ops, (s.code t).blocks⟩ }

/-- What `setClientState` does after it has set a new state.  `sent` says whether the messages
to a client that connects go through. -/
def onClientState (s : MonitorState) (c : ClientRef) (newState : ClientState) (sent : Bool) :
    List Op :=
  match newState with
  | .waiting =>
      match s.virtualMachine c with
      | some v =>
          [.enter (.setState v .running), .enter (.notifyRetriever c), .enter (.observeClient c),
            .enter (.observeClient c)]
      | none => []
  | .disconnected =>
      (match s.virtualMachine c with
        | some v => [.forgetClient v, .enter (.setState v .waitingToBeReverted)]
        | none => []) ++
        [.enter (.setClientState c .disconnected), .enter (.notifyRetriever c),
          .enter (.observeClient c), .enter (.observeClient c)]
  | .connected =>
      (if sent then [] else [.enter (.setClientState c .disconnected)]) ++
        [.enter (.observeClient c), .enter (.observeClient c)]
  | _ => [.enter (.observeClient c), .enter (.observeClient c)]

/-- What `setState` does in its block after it has set a new state. -/
def onVmState (s : MonitorState) (v : VmRef) (newState : VmState) : List Op :=
  match newState, s.client v with
  | .waitingToBeReverted, some c =>
      if s.clientState c ≠ .disconnected then [.enter (.setClientState c .disconnected)] else []
  | _, _ => []

/-- Operations that follow the innermost block. -/
def afterBlock (ops : List Op) : List (Monitor × List Op) → List (Monitor × List Op)
  | [] => []
  | (m, rest) :: blocks => (m, ops ++ rest) :: blocks

/-- One operation; `rest` is what follows it in its block.  `sent` and `size` are the choices
that are left open. -/
def performOp (s : MonitorState) (t : ServerThread) (sent : Bool) (size : Nat) (rest : List Op) :
    Op → Option MonitorState
  | .enter b => (s.threads.enter t b.monitor b.body rest).map fun threads => { s with threads }
  | .setClientState c newState =>
      if s.clientState c = newState then some (s.goOn t rest)
      else
        some { s.goOn t (s.onClientState c newState sent ++ rest) with
               clientState := Function.update s.clientState c newState }
  | .setState v newState =>
      if s.vmState v = newState then some (s.goOn t rest)
      else
        some { s with
               threads := s.threads.setCode t
                 ⟨s.onVmState v newState ++ rest,
                   afterBlock [.enter (.observeVm v), .enter (.observeVm v)] (s.code t).blocks⟩
               vmState := Function.update s.vmState v newState }
  | .forgetClient v => some { s.goOn t rest with client := Function.update s.client v none }
  | .connect c v =>
      some { s.goOn t rest with
             virtualMachine := Function.update s.virtualMachine c (some v)
             client := Function.update s.client v (some c) }
  | .notifyAll c => some { s.goOn t rest with notified := Function.update s.notified c true }
  | .loop c =>
      if s.clientState c = .disconnected then some (s.goOn t rest)
      else some (s.goOn t (.test c :: rest))
  | .test c =>
      if s.clientState c = .waiting then
        some (s.goOn t (.takeUrl size :: .send c :: .wait c :: rest))
      else some (s.goOn t (.wait c :: rest))
  | .takeUrl n =>
      match n with
      | 0 => some (s.goOn t rest)
      | n + 1 =>
          if 0 < s.urlQueue then
            some { s.goOn t (.takeUrl n :: rest) with urlQueue := s.urlQueue - 1 }
          else none
  | .send c =>
      if s.clientState c = .disconnected then some (s.goOn t rest)
      else if sent then some (s.goOn t (.awaitVisiting c :: rest))
      else some (s.goOn t (.enter (.setClientState c .disconnected) :: rest))
  | .awaitVisiting c =>
      some { s.goOn t rest with
             clientState := Function.update s.clientState c .awaitingVisiting }
  | .wait c =>
      match (s.code t).blocks with
      | [] => none
      | (m, after) :: blocks =>
          some { s with
                 threads := s.threads.leave t m (.notified c :: .enter (.run c) :: after) blocks
                 notified := Function.update s.notified c false }
  | .notified c => if s.notified c then some (s.goOn t rest) else none

/-- The next step of a thread. -/
def perform (s : MonitorState) (t : ServerThread) (sent : Bool) (size : Nat) :
    Option MonitorState :=
  match (s.code t).ops with
  | op :: rest => s.performOp t sent size rest op
  | [] =>
      match (s.code t).blocks with
      | [] => none
      | (m, rest) :: blocks => some { s with threads := s.threads.leave t m rest blocks }

/-- The thread begins something, if it has nothing left to do. -/
def begin (s : MonitorState) (t : ServerThread) (ops : List Op) : Option MonitorState :=
  if (s.code t).ops = [] ∧ (s.code t).blocks = [] then some (s.goOn t ops) else none

end MonitorState

inductive MonitorAction where
  /-- A client that is new connects to a machine. -/
  | connect (n : Nat) (c : ClientRef) (v : VmRef)
  /-- A message, or the loss of a connection, makes an event thread set the state of a client. -/
  | setClientState (n : Nat) (c : ClientRef) (newState : ClientState)
  | revert (n : Nat) (v : VmRef) (succeeds : Bool)
  /-- The state checker finds a machine that does not answer. -/
  | check (v : VmRef)
  | addUrl
  | step (t : ServerThread) (sent : Bool) (size : Nat)

open MonitorState in
def monitorMachine : Machine MonitorState MonitorAction where
  init s :=
    (∀ m, s.threads.owner m = none) ∧
      (∀ c, s.code (.retriever c) = ⟨[.enter (.run c)], []⟩) ∧
        (∀ t, (∀ c, t ≠ .retriever c) → s.code t = ⟨[], []⟩)
  next s
    | .connect n c v =>
        if s.virtualMachine c = none then
          s.begin (.event n) [.connect c v, .enter (.setClientState c .connected),
            .enter (.setClientState c .waiting)]
        else none
    | .setClientState n c newState => s.begin (.event n) [.enter (.setClientState c newState)]
    | .revert n v succeeds => s.begin (.worker n) [.enter (.revert v succeeds)]
    | .check v => s.begin .stateChecker [.enter (.setState v .waitingToBeReverted)]
    | .addUrl => some { s with urlQueue := s.urlQueue + 1 }
    | .step t sent size => s.perform t sent size

/-! ## What the code of a thread looks like -/

/-- The operation takes URLs. -/
def Op.isTake : Op → Prop
  | .takeUrl _ => True
  | _ => False

/-- What holds of an operation that a thread has still to do while it is in the given monitors.
The retriever takes and sends with no other monitor but its own, and the state checker, on its
way to a retriever, is in the monitor of a client that has stopped waiting. -/
def Op.Fits (clientState : ClientRef → ClientState) (t : ServerThread) (held : List Monitor) :
    Op → Prop
  | .enter (.notifyRetriever c) =>
      t = .stateChecker → .client c ∈ held ∧ clientState c ≠ .waiting
  | .enter (.setClientState _ newState) => t = .stateChecker → newState = .disconnected
  | .enter (.run c) => t = .retriever c ∧ held ⊆ [.retriever c]
  | .setClientState c newState =>
      .client c ∈ held ∧ (t = .stateChecker → newState = .disconnected)
  | .loop c | .test c | .send c | .wait c | .awaitVisiting c | .notified c =>
      t = .retriever c ∧ held ⊆ [.retriever c]
  | .takeUrl _ => ∃ c, t = .retriever c ∧ held ⊆ [.retriever c]
  | _ => True

/-- What follows the blocks: it fits, and takes no URL at once. -/
def FollowFits (clientState : ClientRef → ClientState) (t : ServerThread) :
    List (Monitor × List Op) → Prop
  | [] => True
  | (_, rest) :: blocks =>
      (∀ op ∈ rest, op.Fits clientState t (blocks.map Prod.fst) ∧ ¬ op.isTake) ∧
        FollowFits clientState t blocks

/-- The code of a thread fits; it takes URLs first or not at all. -/
structure CodeFits (clientState : ClientRef → ClientState) (t : ServerThread)
    (code : Monitors.Code Monitor Op) : Prop where
  ops : ∀ op ∈ code.ops, op.Fits clientState t code.held
  tail : ∀ op ∈ code.ops.tail, ¬ op.isTake
  follow : FollowFits clientState t code.blocks

section Fits
variable {clientState clientState' : ClientRef → ClientState} {t : ServerThread}

/-- No client in whose monitor the thread is begins to wait. -/
def NoneWaits (clientState clientState' : ClientRef → ClientState) (held : List Monitor) : Prop :=
  ∀ c, .client c ∈ held → clientState c ≠ .waiting → clientState' c ≠ .waiting

theorem Op.Fits.change {held : List Monitor} {op : Op} (h : op.Fits clientState t held)
    (hc : t = .stateChecker → NoneWaits clientState clientState' held) :
    op.Fits clientState' t held := by
  cases op with
  | enter b =>
      cases b with
      | notifyRetriever c =>
          intro ht
          obtain ⟨hheld, hstate⟩ := h ht
          exact ⟨hheld, hc ht c hheld hstate⟩
      | setClientState c newState => exact h
      | run c => exact h
      | setState v newState => trivial
      | observeClient c => trivial
      | observeVm v => trivial
      | revert v succeeds => trivial
  | setClientState c newState => exact h
  | loop c => exact h
  | test c => exact h
  | send c => exact h
  | wait c => exact h
  | awaitVisiting c => exact h
  | takeUrl n => exact h
  | notified c => exact h
  | setState v newState => trivial
  | forgetClient v => trivial
  | connect c v => trivial
  | notifyAll c => trivial

theorem FollowFits.change : ∀ {blocks : List (Monitor × List Op)},
    FollowFits clientState t blocks →
      (t = .stateChecker → NoneWaits clientState clientState' (blocks.map Prod.fst)) →
        FollowFits clientState' t blocks
  | [], _, _ => trivial
  | (m, rest) :: blocks, h, hc => by
      have hc' : t = .stateChecker → NoneWaits clientState clientState' (blocks.map Prod.fst) :=
        fun ht c hin => hc ht c (List.mem_cons_of_mem _ hin)
      refine ⟨fun op hop => ⟨(h.1 op hop).1.change hc', (h.1 op hop).2⟩, ?_⟩
      exact FollowFits.change h.2 hc'

theorem CodeFits.change {code : Monitors.Code Monitor Op} (h : CodeFits clientState t code)
    (hc : t = .stateChecker → NoneWaits clientState clientState' code.held) :
    CodeFits clientState' t code :=
  ⟨fun op hop => (h.ops op hop).change hc, h.tail, h.follow.change hc⟩

end Fits

namespace MonitorState

open Monitors

/-- Everything about monitors that holds in every reachable state. -/
structure Sound (s : MonitorState) : Prop where
  owned : s.threads.Owned
  fits : ∀ t, CodeFits s.clientState t (s.code t)

/-- The retriever of a client takes URLs. -/
def Takes (s : MonitorState) (c : ClientRef) : Prop :=
  ∃ n rest, (s.code (.retriever c)).ops = .takeUrl n :: rest

/-- What a step of one thread leaves alone, and how its retriever comes to take URLs. -/
structure StepOf (t : ServerThread) (s s' : MonitorState) : Prop where
  owned : s'.threads.Owned
  fits : CodeFits s'.clientState t (s'.code t)
  code : ∀ t', t' ≠ t → s'.code t' = s.code t'
  states : ∀ t', t' ≠ t → NoneWaits s.clientState s'.clientState (s.code t').held
  takes : ∀ c, t = .retriever c → s'.Takes c → s.Takes c ∨ s.clientState c = .waiting

theorem Sound.step {s s' : MonitorState} {t : ServerThread} (h : s.Sound) (hs : StepOf t s s') :
    s'.Sound := by
  refine ⟨hs.owned, fun t' => ?_⟩
  by_cases ht : t' = t
  · subst ht
    exact hs.fits
  · rw [hs.code t' ht]
    exact (h.fits t').change fun _ => hs.states t' ht

section Steps
variable {s s' : MonitorState} {t : ServerThread} {op : Op} {rest : List Op}

/-- A step that stays in its blocks: new operations come before the rest. -/
theorem Sound.goOn (h : s.Sound) (hops : (s.code t).ops = op :: rest) (new : List Op)
    {blocks : List (Monitor × List Op)}
    (hthreads : s'.threads = s.threads.setCode t ⟨new ++ rest, blocks⟩)
    (hheld : blocks.map Prod.fst = (s.code t).held)
    (hfollow : FollowFits s.clientState t blocks)
    (hstates : ∀ c, s.clientState c ≠ .waiting → s'.clientState c ≠ .waiting ∨
      (t ≠ .stateChecker ∧ .client c ∈ (s.code t).held))
    (hfits : ∀ op ∈ new, op.Fits s'.clientState t (s.code t).held)
    (htail : ∀ op ∈ new.tail, ¬ op.isTake)
    (htake : ∀ c n r, t = .retriever c → new = .takeUrl n :: r →
      s.Takes c ∨ s.clientState c = .waiting) : StepOf t s s' := by
  have hcode : s'.code t = ⟨new ++ rest, blocks⟩ := by
    show s'.threads.code t = _
    rw [hthreads]
    exact Function.update_self ..
  have hown : t = .stateChecker → NoneWaits s.clientState s'.clientState (s.code t).held := by
    intro ht c _ hc
    exact (hstates c hc).resolve_right fun hno => hno.1 ht
  have hrest : ∀ op ∈ rest, ¬ op.isTake := by
    intro op hop
    exact (h.fits t).tail op (by rw [hops]; exact hop)
  constructor
  · rw [hthreads]
    exact h.owned.setCode hheld
  · rw [hcode]
    refine ⟨fun op hop => ?_, fun op hop => ?_, hfollow.change ?_⟩
    · show op.Fits s'.clientState t (blocks.map Prod.fst)
      rw [hheld]
      rcases List.mem_append.mp hop with hop | hop
      · exact hfits op hop
      · refine ((h.fits t).ops op ?_).change hown
        rw [hops]
        exact List.mem_cons_of_mem _ hop
    · cases new with
      | nil => exact hrest op (List.mem_of_mem_tail hop)
      | cons first new =>
          rcases List.mem_append.mp hop with hop | hop
          · exact htail op hop
          · exact hrest op hop
    · rw [hheld]
      exact hown
  · intro t' ht
    show s'.threads.code t' = _
    rw [hthreads]
    exact Function.update_of_ne ht ..
  · intro t' ht c hin hc
    rcases hstates c hc with hc' | ⟨-, hmine⟩
    · exact hc'
    · exact absurd (h.owned.unique hin hmine) ht
  · rintro c ht ⟨n, r, htakes⟩
    rw [← ht, hcode] at htakes
    cases new with
    | nil =>
        refine absurd ?_ (hrest (.takeUrl n) ?_)
        · trivial
        · rw [show rest = .takeUrl n :: r from htakes]
          exact List.mem_cons_self
    | cons first new =>
        obtain ⟨rfl, -⟩ := List.cons.inj htakes
        exact htake c n new ht rfl

theorem Sound.opFits (h : s.Sound) (hops : (s.code t).ops = op :: rest) :
    op.Fits s.clientState t (s.code t).held :=
  (h.fits t).ops op (by rw [hops]; exact List.mem_cons_self)

/-- The same, where no state of a client changes. -/
theorem Sound.goOn_same (h : s.Sound) (hops : (s.code t).ops = op :: rest) (new : List Op)
    (hthreads : s'.threads = s.threads.setCode t ⟨new ++ rest, (s.code t).blocks⟩)
    (hstates : s'.clientState = s.clientState)
    (hfits : ∀ op ∈ new, op.Fits s.clientState t (s.code t).held)
    (htail : ∀ op ∈ new.tail, ¬ op.isTake)
    (htake : ∀ c n r, t = .retriever c → new = .takeUrl n :: r →
      s.Takes c ∨ s.clientState c = .waiting) : StepOf t s s' :=
  h.goOn hops new hthreads rfl (h.fits t).follow (fun c hc => .inl (by rwa [hstates]))
    (by rwa [hstates]) htail htake

/-- The same, where nothing new is to be done. -/
theorem Sound.goOn_nil (h : s.Sound) (hops : (s.code t).ops = op :: rest)
    (hthreads : s'.threads = s.threads.setCode t ⟨rest, (s.code t).blocks⟩)
    (hstates : s'.clientState = s.clientState) : StepOf t s s' :=
  h.goOn_same hops [] hthreads hstates (fun _ hno => absurd hno List.not_mem_nil)
    (fun _ hno => absurd hno List.not_mem_nil) fun _ _ _ _ hno => by cases hno

theorem Sound.enter (h : s.Sound) {b : Block} (hops : (s.code t).ops = .enter b :: rest)
    {threads : ServerThreads} (he : s.threads.enter t b.monitor b.body rest = some threads) :
    StepOf t s { s with threads } := by
  have hcode : threads.code =
      Function.update s.threads.code t ⟨b.body, (b.monitor, rest) :: (s.code t).blocks⟩ := by
    rw [Threads.enter, Option.ite_none_right_eq_some] at he
    exact (congrArg Threads.code (Option.some.inj he.2)).symm
  have hmine : threads.code t = ⟨b.body, (b.monitor, rest) :: (s.code t).blocks⟩ := by
    rw [hcode]
    exact Function.update_self ..
  have hb := h.opFits hops
  constructor
  · exact h.owned.enter he
  · show CodeFits s.clientState t (threads.code t)
    rw [hmine]
    refine ⟨?_, ?_, ⟨fun op hop => ⟨?_, ?_⟩, (h.fits t).follow⟩⟩
    · show ∀ op ∈ b.body, op.Fits s.clientState t (b.monitor :: (s.code t).held)
      cases b with
      | setClientState c newState =>
          intro op hop
          obtain rfl := List.mem_singleton.mp hop
          exact ⟨List.mem_cons_self, hb⟩
      | setState v newState =>
          intro op hop
          obtain rfl := List.mem_singleton.mp hop
          trivial
      | notifyRetriever c =>
          intro op hop
          obtain rfl := List.mem_singleton.mp hop
          trivial
      | observeClient c => exact fun op hop => absurd hop List.not_mem_nil
      | observeVm v => exact fun op hop => absurd hop List.not_mem_nil
      | revert v succeeds =>
          intro op hop
          rcases List.mem_cons.mp hop with rfl | hop
          · trivial
          · obtain rfl := List.mem_singleton.mp hop
            trivial
      | run c =>
          intro op hop
          obtain rfl := List.mem_singleton.mp hop
          exact ⟨hb.1, List.cons_subset.mpr ⟨List.mem_cons_self, hb.2⟩⟩
    · show ∀ op ∈ b.body.tail, ¬ op.isTake
      cases b with
      | revert v succeeds =>
          intro op hop
          obtain rfl := List.mem_singleton.mp hop
          exact not_false
      | setClientState c newState => exact fun op hop => absurd hop List.not_mem_nil
      | setState v newState => exact fun op hop => absurd hop List.not_mem_nil
      | notifyRetriever c => exact fun op hop => absurd hop List.not_mem_nil
      | observeClient c => exact fun op hop => absurd hop List.not_mem_nil
      | observeVm v => exact fun op hop => absurd hop List.not_mem_nil
      | run c => exact fun op hop => absurd hop List.not_mem_nil
    · exact (h.fits t).ops op (by rw [hops]; exact List.mem_cons_of_mem _ hop)
    · exact (h.fits t).tail op (by rw [hops]; exact hop)
  · intro t' ht
    show threads.code t' = _
    rw [hcode]
    exact Function.update_of_ne ht ..
  · exact fun t' _ c _ hc => hc
  · rintro c ht ⟨n, r, htakes⟩
    have hbody : b.body = .takeUrl n :: r := by
      have hops' : (threads.code t).ops = .takeUrl n :: r := by rw [ht]; exact htakes
      rwa [hmine] at hops'
    cases b with
    | setClientState c newState => cases hbody
    | setState v newState => cases hbody
    | notifyRetriever c => cases hbody
    | observeClient c => cases hbody
    | observeVm v => cases hbody
    | revert v succeeds => cases hbody
    | run c => cases hbody

/-- A step out of the innermost block: new operations come before what follows it. -/
theorem Sound.leave (h : s.Sound) {m : Monitor} {after : List Op}
    {blocks : List (Monitor × List Op)} (hblocks : (s.code t).blocks = (m, after) :: blocks)
    (new : List Op) (hthreads : s'.threads = s.threads.leave t m (new ++ after) blocks)
    (hstates : s'.clientState = s.clientState)
    (hnew : ∀ op ∈ new, op.Fits s.clientState t (blocks.map Prod.fst) ∧ ¬ op.isTake) :
    StepOf t s s' := by
  have hcode : s'.code t = ⟨new ++ after, blocks⟩ := by
    show s'.threads.code t = _
    rw [hthreads]
    exact Function.update_self ..
  obtain ⟨hafter, hfollow⟩ : FollowFits s.clientState t ((m, after) :: blocks) := by
    rw [← hblocks]
    exact (h.fits t).follow
  have hall : ∀ op ∈ new ++ after,
      op.Fits s.clientState t (blocks.map Prod.fst) ∧ ¬ op.isTake := by
    intro op hop
    rcases List.mem_append.mp hop with hop | hop
    · exact hnew op hop
    · exact hafter op hop
  constructor
  · rw [hthreads]
    exact h.owned.leave hblocks
  · rw [hcode, hstates]
    exact ⟨fun op hop => (hall op hop).1, fun op hop => (hall op (List.mem_of_mem_tail hop)).2,
      hfollow⟩
  · intro t' ht
    show s'.threads.code t' = _
    rw [hthreads]
    exact Function.update_of_ne ht ..
  · intro t' _ c _ hc
    rwa [hstates]
  · rintro c ht ⟨n, r, htakes⟩
    rw [← ht, hcode] at htakes
    refine absurd ?_ (hall (.takeUrl n) ?_).2
    · trivial
    · rw [show new ++ after = .takeUrl n :: r from htakes]
      exact List.mem_cons_self

/-- What `setClientState` does fits, once the state is set. -/
theorem onClientState_fits (states : ClientRef → ClientState) {c : ClientRef}
    {newState : ClientState} (sent : Bool)
    (hin : .client c ∈ (s.code t).held) (hdrop : t = .stateChecker → newState = .disconnected)
    (hnew : states c = newState) :
    ∀ op ∈ s.onClientState c newState sent,
      op.Fits states t (s.code t).held ∧ ¬ op.isTake := by
  have hnotify : (Op.enter (.notifyRetriever c)).Fits states t (s.code t).held := by
    intro ht
    refine ⟨hin, ?_⟩
    rw [hnew, hdrop ht]
    nofun
  have hobserve : ∀ op ∈ [Op.enter (.observeClient c), .enter (.observeClient c)],
      op.Fits states t (s.code t).held ∧ ¬ op.isTake := by
    intro op hop
    simp only [List.mem_cons, List.not_mem_nil, or_false, or_self] at hop
    subst hop
    exact ⟨trivial, not_false⟩
  have hagain : (Op.enter (.setClientState c .disconnected)).Fits states t
      (s.code t).held := fun _ => rfl
  intro op hop
  cases newState with
  | waiting =>
      rw [onClientState] at hop
      split at hop
      · rcases List.mem_cons.mp hop with rfl | hop
        · exact ⟨trivial, not_false⟩
        · rcases List.mem_cons.mp hop with rfl | hop
          · exact ⟨hnotify, not_false⟩
          · exact hobserve op hop
      · exact absurd hop List.not_mem_nil
  | disconnected =>
      rcases List.mem_append.mp hop with hop | hop
      · split at hop
        · simp only [List.mem_cons, List.not_mem_nil, or_false] at hop
          rcases hop with rfl | rfl
          · exact ⟨trivial, not_false⟩
          · exact ⟨trivial, not_false⟩
        · exact absurd hop List.not_mem_nil
      · rcases List.mem_cons.mp hop with rfl | hop
        · exact ⟨hagain, not_false⟩
        · rcases List.mem_cons.mp hop with rfl | hop
          · exact ⟨hnotify, not_false⟩
          · exact hobserve op hop
  | connected =>
      rcases List.mem_append.mp hop with hop | hop
      · split at hop
        · exact absurd hop List.not_mem_nil
        · obtain rfl := List.mem_singleton.mp hop
          exact ⟨hagain, not_false⟩
      · exact hobserve op hop
  | connecting => exact hobserve op hop
  | awaitingVisiting => exact hobserve op hop
  | visiting => exact hobserve op hop

/-- What `setState` does in its block fits: it drops a client. -/
theorem onVmState_fits (v : VmRef) (newState : VmState) :
    ∀ op ∈ s.onVmState v newState, op.Fits s.clientState t (s.code t).held ∧ ¬ op.isTake := by
  intro op hop
  unfold onVmState at hop
  split at hop
  · split at hop
    · obtain rfl := List.mem_singleton.mp hop
      exact ⟨fun _ => rfl, not_false⟩
    · exact absurd hop List.not_mem_nil
  · exact absurd hop List.not_mem_nil

theorem afterBlock_fits {v : VmRef} : ∀ {blocks : List (Monitor × List Op)},
    FollowFits s.clientState t blocks →
      FollowFits s.clientState t
        (afterBlock [.enter (.observeVm v), .enter (.observeVm v)] blocks)
  | [], _ => trivial
  | (m, rest) :: blocks, h => by
      refine ⟨fun op hop => ?_, h.2⟩
      rcases List.mem_append.mp hop with hop | hop
      · simp only [List.mem_cons, List.not_mem_nil, or_false, or_self] at hop
        subst hop
        exact ⟨trivial, not_false⟩
      · exact h.1 op hop

theorem afterBlock_held (ops : List Op) : ∀ blocks : List (Monitor × List Op),
    (afterBlock ops blocks).map Prod.fst = blocks.map Prod.fst
  | [] => rfl
  | _ :: _ => rfl

/-- **What one step of a thread does.** -/
theorem Sound.performOp (h : s.Sound) {sent : Bool} {size : Nat}
    (hops : (s.code t).ops = op :: rest) (hnext : s.performOp t sent size rest op = some s') :
    StepOf t s s' := by
  have hfits := h.opFits hops
  cases op with
  | enter b =>
      obtain ⟨threads, he, rfl⟩ := Option.map_eq_some_iff.mp hnext
      exact h.enter hops he
  | setClientState c newState =>
      rw [MonitorState.performOp] at hnext
      split at hnext
      · obtain rfl := Option.some.inj hnext
        exact h.goOn_nil hops rfl rfl
      · obtain rfl := Option.some.inj hnext
        have hnew := onClientState_fits (s := s) (t := t)
          (Function.update s.clientState c newState) sent hfits.1 hfits.2 (Function.update_self ..)
        refine h.goOn hops (s.onClientState c newState sent) rfl rfl (h.fits t).follow ?_
          (fun op hop => (hnew op hop).1) (fun op hop => (hnew op (List.mem_of_mem_tail hop)).2) ?_
        · intro c' hc'
          show Function.update s.clientState c newState c' ≠ _ ∨ _
          by_cases hc : c' = c
          · subst hc
            rw [Function.update_self]
            by_cases ht : t = .stateChecker
            · rw [hfits.2 ht]
              exact .inl ClientState.noConfusion
            · exact .inr ⟨ht, hfits.1⟩
          · rw [Function.update_of_ne hc]
            exact .inl hc'
        · intro c' n r _ hno
          refine absurd ?_ (hnew (.takeUrl n) ?_).2
          · trivial
          · rw [hno]
            exact List.mem_cons_self
  | setState v newState =>
      rw [MonitorState.performOp] at hnext
      split at hnext
      · obtain rfl := Option.some.inj hnext
        exact h.goOn_nil hops rfl rfl
      · obtain rfl := Option.some.inj hnext
        have hnew := onVmState_fits (s := s) (t := t) v newState
        refine h.goOn hops (s.onVmState v newState) rfl (afterBlock_held _ _)
          (afterBlock_fits (h.fits t).follow) (fun c hc => .inl hc)
          (fun op hop => (hnew op hop).1) (fun op hop => (hnew op (List.mem_of_mem_tail hop)).2) ?_
        intro c n r _ hno
        refine absurd ?_ (hnew (.takeUrl n) ?_).2
        · trivial
        · rw [hno]
          exact List.mem_cons_self
  | forgetClient v =>
      obtain rfl := Option.some.inj hnext
      exact h.goOn_nil hops rfl rfl
  | connect c v =>
      obtain rfl := Option.some.inj hnext
      exact h.goOn_nil hops rfl rfl
  | notifyAll c =>
      obtain rfl := Option.some.inj hnext
      exact h.goOn_nil hops rfl rfl
  | loop c =>
      rw [MonitorState.performOp] at hnext
      split at hnext
      · obtain rfl := Option.some.inj hnext
        exact h.goOn_nil hops rfl rfl
      · obtain rfl := Option.some.inj hnext
        refine h.goOn_same hops [.test c] rfl rfl ?_ (fun _ hno => absurd hno List.not_mem_nil)
          fun _ _ _ _ hno => by cases hno
        intro op hop
        obtain rfl := List.mem_singleton.mp hop
        exact hfits
  | test c =>
      rw [MonitorState.performOp] at hnext
      split at hnext
      · next hwaiting =>
          obtain rfl := Option.some.inj hnext
          refine h.goOn_same hops [.takeUrl size, .send c, .wait c] rfl rfl ?_ ?_ ?_
          · intro op hop
            simp only [List.mem_cons, List.not_mem_nil, or_false] at hop
            rcases hop with rfl | rfl | rfl
            · exact ⟨c, hfits⟩
            · exact hfits
            · exact hfits
          · intro op hop
            simp only [List.tail_cons, List.mem_cons, List.not_mem_nil, or_false] at hop
            rcases hop with rfl | rfl
            · exact not_false
            · exact not_false
          · intro c' _ _ ht _
            obtain rfl : c = c' := ServerThread.retriever.inj (hfits.1.symm.trans ht)
            exact .inr hwaiting
      · obtain rfl := Option.some.inj hnext
        refine h.goOn_same hops [.wait c] rfl rfl ?_ (fun _ hno => absurd hno List.not_mem_nil)
          fun _ _ _ _ hno => by cases hno
        intro op hop
        obtain rfl := List.mem_singleton.mp hop
        exact hfits
  | takeUrl n =>
      cases n with
      | zero =>
          obtain rfl := Option.some.inj hnext
          exact h.goOn_nil hops rfl rfl
      | succ n =>
          rw [MonitorState.performOp] at hnext
          split at hnext
          · obtain rfl := Option.some.inj hnext
            refine h.goOn_same hops [.takeUrl n] rfl rfl ?_
              (fun _ hno => absurd hno List.not_mem_nil) ?_
            · intro op hop
              obtain rfl := List.mem_singleton.mp hop
              exact hfits
            · rintro c _ _ rfl _
              exact .inl ⟨n + 1, rest, hops⟩
          · cases hnext
  | send c =>
      rw [MonitorState.performOp] at hnext
      split at hnext
      · obtain rfl := Option.some.inj hnext
        exact h.goOn_nil hops rfl rfl
      · split at hnext
        · obtain rfl := Option.some.inj hnext
          refine h.goOn_same hops [.awaitVisiting c] rfl rfl ?_
            (fun _ hno => absurd hno List.not_mem_nil) fun _ _ _ _ hno => by cases hno
          intro op hop
          obtain rfl := List.mem_singleton.mp hop
          exact hfits
        · obtain rfl := Option.some.inj hnext
          refine h.goOn_same hops [.enter (.setClientState c .disconnected)] rfl rfl ?_
            (fun _ hno => absurd hno List.not_mem_nil) fun _ _ _ _ hno => by cases hno
          intro op hop
          obtain rfl := List.mem_singleton.mp hop
          exact fun _ => rfl
  | awaitVisiting c =>
      obtain rfl := Option.some.inj hnext
      refine h.goOn hops [] rfl rfl (h.fits t).follow ?_ (fun _ hno => absurd hno List.not_mem_nil)
        (fun _ hno => absurd hno List.not_mem_nil) fun _ _ _ _ hno => by cases hno
      intro c' hc'
      left
      show Function.update s.clientState c .awaitingVisiting c' ≠ _
      by_cases hc : c' = c
      · subst hc
        rw [Function.update_self]
        exact ClientState.noConfusion
      · rwa [Function.update_of_ne hc]
  | wait c =>
      rw [MonitorState.performOp] at hnext
      split at hnext
      · cases hnext
      · next m after blocks hblocks =>
          obtain rfl := Option.some.inj hnext
          refine h.leave hblocks [.notified c, .enter (.run c)] rfl rfl ?_
          have hsub : blocks.map Prod.fst ⊆ [.retriever c] := by
            refine fun m' hm' => hfits.2 ?_
            rw [Code.held, hblocks]
            exact List.mem_cons_of_mem _ hm'
          intro op hop
          simp only [List.mem_cons, List.not_mem_nil, or_false] at hop
          rcases hop with rfl | rfl
          · exact ⟨⟨hfits.1, hsub⟩, not_false⟩
          · exact ⟨⟨hfits.1, hsub⟩, not_false⟩
  | notified c =>
      rw [MonitorState.performOp] at hnext
      split at hnext
      · obtain rfl := Option.some.inj hnext
        exact h.goOn_nil hops rfl rfl
      · cases hnext

theorem Sound.perform (h : s.Sound) {sent : Bool} {size : Nat}
    (hnext : s.perform t sent size = some s') : StepOf t s s' := by
  rw [MonitorState.perform] at hnext
  split at hnext
  · next op rest hops => exact h.performOp hops hnext
  · split at hnext
    · cases hnext
    · next m rest blocks hblocks =>
        obtain rfl := Option.some.inj hnext
        exact h.leave hblocks [] rfl rfl fun _ hno => absurd hno List.not_mem_nil

end Steps

/-! ## No circle, and no wait for a retriever that waits for a URL -/

/-- No circle of threads each waiting for a monitor that the next is in. -/
def NoDeadlock (s : MonitorState) : Prop := s.threads.NoCycle Op.wants

/-- The state checker waits for a monitor of a retriever that is blocked on the empty queue. -/
def CheckerStuck (s : MonitorState) : Prop :=
  ∃ c n rest, (s.code (.retriever c)).ops = .takeUrl (n + 1) :: rest ∧ s.urlQueue = 0 ∧
    s.threads.WaitsFor Op.wants .stateChecker (.retriever c)

/-- Nobody waits at a monitor that comes before one it is in. -/
def InOrder (s : MonitorState) : Prop := s.threads.InOrder Op.wants Monitor.rank

/-- The state checker is not on its way to a retriever that takes URLs. -/
def SparesTakers (s : MonitorState) : Prop :=
  ∀ c rest, (s.code .stateChecker).ops = .enter (.notifyRetriever c) :: rest → ¬ s.Takes c

end MonitorState

/-- The step makes nobody wait out of order, and does not bring the state checker to a retriever
that takes URLs. -/
def Careful (s : MonitorState) (a : MonitorAction) : Prop :=
  ∀ s', monitorMachine.next s a = some s' → s'.InOrder ∧
    ((∃ sent size, a = .step .stateChecker sent size) → s'.SparesTakers)

namespace MonitorState

open Monitors

section Runs
variable {s s' : MonitorState} {t : ServerThread}

/-- The invariant of the runs. -/
structure Safe (s : MonitorState) : Prop where
  sound : s.Sound
  inOrder : s.InOrder
  spares : s.SparesTakers

theorem code_goOn (s : MonitorState) (t : ServerThread) (ops : List Op) :
    (s.goOn t ops).code t = ⟨ops, (s.code t).blocks⟩ := Function.update_self ..

/-- A thread that begins something is in no block. -/
theorem Sound.begin (h : s.Sound) {ops : List Op}
    (hfits : ∀ op ∈ ops, op.Fits s.clientState t [] ∧ ¬ op.isTake)
    (hnext : s.begin t ops = some s') : StepOf t s s' := by
  rw [MonitorState.begin, Option.ite_none_right_eq_some] at hnext
  obtain ⟨⟨-, hblocks⟩, hnext⟩ := hnext
  obtain rfl := Option.some.inj hnext
  have hheld : (s.code t).held = [] := by rw [Code.held, hblocks]; rfl
  have hmine := code_goOn s t ops
  constructor
  · exact h.owned.setCode rfl
  · rw [hmine]
    refine ⟨fun op hop => ?_, fun op hop => (hfits op (List.mem_of_mem_tail hop)).2,
      (h.fits t).follow⟩
    show op.Fits s.clientState t (s.code t).held
    rw [hheld]
    exact (hfits op hop).1
  · intro t' ht
    exact Function.update_of_ne ht ..
  · exact fun t' _ c _ hc => hc
  · rintro c ht ⟨n, r, htakes⟩
    rw [← ht, hmine] at htakes
    refine absurd ?_ (hfits (.takeUrl n) ?_).2
    · trivial
    · rw [show ops = .takeUrl n :: r from htakes]
      exact List.mem_cons_self

/-- Another thread than the state checker brings no retriever on its way to take URLs. -/
theorem Safe.spares_of_step (h : s.Safe) (hs : StepOf t s s') (ht : t ≠ .stateChecker) :
    s'.SparesTakers := by
  intro c rest hops htakes
  rw [hs.code .stateChecker ht.symm] at hops
  by_cases hc : t = .retriever c
  · rcases hs.takes c hc htakes with htakes | hwaiting
    · exact h.spares c rest hops htakes
    · exact ((h.sound.opFits hops) rfl).2 hwaiting
  · obtain ⟨n, r, htakes⟩ := htakes
    rw [hs.code _ (fun he => hc he.symm)] at htakes
    exact h.spares c rest hops ⟨n, r, htakes⟩

/-- A state checker that begins is not on its way to a retriever. -/
theorem spares_of_begin {v : VmRef}
    (hnext : s.begin .stateChecker [.enter (.setState v .waitingToBeReverted)] = some s') :
    s'.SparesTakers := by
  rw [MonitorState.begin, Option.ite_none_right_eq_some] at hnext
  obtain rfl := Option.some.inj hnext.2
  intro c rest hops
  rw [code_goOn] at hops
  cases hops

theorem Safe.next (h : s.Safe) {a : MonitorAction} (hok : Careful s a)
    (hnext : monitorMachine.next s a = some s') : s'.Safe := by
  obtain ⟨horder, hspares⟩ := hok s' hnext
  cases a with
  | connect n c v =>
      have hstep : StepOf (.event n) s s' := by
        refine h.sound.begin ?_ (Option.ite_none_right_eq_some.mp hnext).2
        intro op hop
        simp only [List.mem_cons, List.not_mem_nil, or_false] at hop
        rcases hop with rfl | rfl | rfl
        · exact ⟨trivial, not_false⟩
        · exact ⟨ServerThread.noConfusion, not_false⟩
        · exact ⟨ServerThread.noConfusion, not_false⟩
      exact ⟨h.sound.step hstep, horder, h.spares_of_step hstep fun hno => by cases hno⟩
  | setClientState n c newState =>
      have hstep : StepOf (.event n) s s' := by
        refine h.sound.begin ?_ hnext
        intro op hop
        obtain rfl := List.mem_singleton.mp hop
        exact ⟨ServerThread.noConfusion, not_false⟩
      exact ⟨h.sound.step hstep, horder, h.spares_of_step hstep fun hno => by cases hno⟩
  | revert n v succeeds =>
      have hstep : StepOf (.worker n) s s' := by
        refine h.sound.begin ?_ hnext
        intro op hop
        obtain rfl := List.mem_singleton.mp hop
        exact ⟨trivial, not_false⟩
      exact ⟨h.sound.step hstep, horder, h.spares_of_step hstep fun hno => by cases hno⟩
  | check v =>
      have hstep : StepOf .stateChecker s s' := by
        refine h.sound.begin ?_ hnext
        intro op hop
        obtain rfl := List.mem_singleton.mp hop
        exact ⟨trivial, not_false⟩
      exact ⟨h.sound.step hstep, horder, spares_of_begin hnext⟩
  | addUrl =>
      obtain rfl := Option.some.inj hnext
      exact ⟨⟨h.sound.owned, h.sound.fits⟩, horder, h.spares⟩
  | step t sent size =>
      have hstep := h.sound.perform hnext
      refine ⟨h.sound.step hstep, horder, ?_⟩
      by_cases ht : t = .stateChecker
      · subst ht
        exact hspares ⟨sent, size, rfl⟩
      · exact h.spares_of_step hstep ht

theorem safe_of_init (h : monitorMachine.init s) : s.Safe := by
  obtain ⟨howner, hretriever, hother⟩ := h
  have hcode : ∀ t, (∃ c, t = .retriever c ∧ s.code t = ⟨[.enter (.run c)], []⟩) ∨
      s.code t = ⟨[], []⟩ := by
    intro t
    cases t with
    | retriever c => exact .inl ⟨c, rfl, hretriever c⟩
    | event n => exact .inr (hother _ nofun)
    | worker n => exact .inr (hother _ nofun)
    | stateChecker => exact .inr (hother _ nofun)
  have hheld : ∀ t, (s.code t).held = [] := by
    intro t
    rcases hcode t with ⟨c, -, he⟩ | he <;> rw [he] <;> rfl
  refine ⟨⟨fun m t => ?_, fun t => ?_⟩, fun t m _ _ _ m' hm' => ?_, fun c rest hops => ?_⟩
  · rw [howner]
    refine ⟨fun hno => absurd hno nofun, fun hin => ?_⟩
    rw [show (s.threads.code t).held = [] from hheld t] at hin
    exact absurd hin List.not_mem_nil
  · rcases hcode t with ⟨c, rfl, he⟩ | he
    · rw [he]
      refine ⟨fun op hop => ?_, fun op hop => absurd hop List.not_mem_nil, trivial⟩
      obtain rfl := List.mem_singleton.mp hop
      exact ⟨rfl, List.nil_subset _⟩
    · rw [he]
      exact ⟨fun op hop => absurd hop List.not_mem_nil, fun op hop => absurd hop List.not_mem_nil,
        trivial⟩
  · rw [show (s.threads.code t).held = [] from hheld t] at hm'
    exact absurd hm' List.not_mem_nil
  · rw [hother .stateChecker nofun] at hops
    cases hops

/-- The state checker waits for no monitor of a retriever that takes URLs. -/
theorem Safe.not_stuck (h : s.Safe) : ¬ s.CheckerStuck := by
  rintro ⟨c, n, rest, htake, -, -, m, hat, howner⟩
  have hin : m ∈ (s.code (.retriever c)).held := (h.sound.owned m _).mp howner
  obtain ⟨c', hc', hsub⟩ := h.sound.opFits htake
  obtain rfl : c = c' := ServerThread.retriever.inj hc'
  obtain rfl := List.mem_singleton.mp (hsub hin)
  -- only a block of the retriever itself has its monitor
  cases hops : (s.code .stateChecker).ops with
  | nil =>
      rw [Threads.AtMonitor, show s.threads.code = s.code from rfl, hops] at hat
      cases hat
  | cons op ops =>
      rw [Threads.AtMonitor, show s.threads.code = s.code from rfl, hops] at hat
      have hfits := h.sound.opFits hops
      cases op with
      | enter b =>
          have hm : b.monitor = .retriever c := Option.some.inj hat
          cases b with
          | notifyRetriever c' =>
              obtain rfl := Monitor.retriever.inj hm
              exact h.spares c' ops hops ⟨n + 1, rest, htake⟩
          | run c' => exact absurd hfits.1 nofun
          | setClientState c' newState => cases hm
          | setState v newState => cases hm
          | observeClient c' => cases hm
          | observeVm v => cases hm
          | revert v succeeds => cases hm
      | setClientState c' newState => cases hat
      | setState v newState => cases hat
      | forgetClient v => cases hat
      | connect c' v => cases hat
      | notifyAll c' => cases hat
      | loop c' => cases hat
      | test c' => cases hat
      | takeUrl n => cases hat
      | send c' => cases hat
      | awaitVisiting c' => cases hat
      | wait c' => cases hat
      | notified c' => cases hat

end Runs

end MonitorState

/-- A server whose machines run, with no client yet and an empty queue. -/
def beforeClients : MonitorState where
  threads :=
    { owner := fun _ => none
      code := fun t =>
        match t with
        | .retriever c => ⟨[.enter (.run c)], []⟩
        | _ => ⟨[], []⟩ }
  clientState _ := .connecting
  virtualMachine _ := none
  vmState _ := .running
  client _ := none
  notified _ := false
  urlQueue := 0

theorem beforeClients_init : monitorMachine.init beforeClients := by
  refine ⟨fun _ => rfl, fun _ => rfl, fun t ht => ?_⟩
  cases t with
  | retriever c => exact absurd rfl (ht c)
  | event n => rfl
  | worker n => rfl
  | stateChecker => rfl

/-- So many steps of a thread; every send goes through, every group is of one URL. -/
def steps (t : ServerThread) (n : Nat) : List MonitorAction := List.replicate n (.step t true 1)

/-- Client 0 connects to machine 0 and is about to set it to RUNNING, when the state checker sends
the machine to be reverted. -/
def crossing : List MonitorAction :=
  .connect 0 0 0 :: steps (.event 0) 10 ++ .check 0 :: steps .stateChecker 2

/-- Client 0 waits for a URL, when the state checker sends its machine to be reverted. -/
def idling : List MonitorAction :=
  .connect 0 0 0 :: steps (.event 0) 21 ++ steps (.retriever 0) 3 ++
    .check 0 :: steps .stateChecker 11

/-- A thread that moves alone is careful, unless it is the state checker. -/
theorem meets_alone {t : ServerThread} (ht : t ≠ .stateChecker) {sent : Bool} {size : Nat} :
    ∀ (n : Nat) (s : MonitorState), s.Sound → (∀ t', t' ≠ t → (s.code t').held = []) →
      monitorMachine.Meets Careful (List.replicate n (.step t sent size)) s
  | 0, _, _, _ => trivial
  | n + 1, s, hsound, halone => by
      have hnext : ∀ s', s.perform t sent size = some s' →
          s'.Sound ∧ ∀ t', t' ≠ t → (s'.code t').held = [] := by
        intro s' he
        have hstep := hsound.perform he
        refine ⟨hsound.step hstep, fun t' ht' => ?_⟩
        rw [hstep.code t' ht']
        exact halone t' ht'
      constructor
      · intro s' he
        obtain ⟨hsound', halone'⟩ := hnext s' he
        refine ⟨fun t' m _ hsome hother m' hm' => ?_, ?_⟩
        · by_cases htt : t' = t
          · subst htt
            obtain ⟨t'', howner⟩ := Option.ne_none_iff_exists'.mp hsome
            have hin : m ∈ (s'.code t'').held := (hsound'.owned m t'').mp howner
            by_cases ht'' : t'' = t'
            · subst ht''
              exact absurd howner hother
            · rw [halone' t'' ht''] at hin
              exact absurd hin List.not_mem_nil
          · rw [show (s'.threads.code t').held = [] from halone' t' htt] at hm'
            exact absurd hm' List.not_mem_nil
        · rintro ⟨_, _, hact⟩
          obtain ⟨rfl, -⟩ := MonitorAction.step.inj hact
          exact absurd rfl ht
      · cases he : monitorMachine.next s (.step t sent size) with
        | none => trivial
        | some s' =>
            obtain ⟨hsound', halone'⟩ := hnext s' he
            exact meets_alone ht n s' hsound' halone'

end CaptureHpc.Server
