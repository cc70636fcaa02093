/-
# `Server.Threads` — what each thread does in one step

The retriever of a client takes a group, stores it in the client, sends it and
assigns the state, each in a step of its own.  The event thread of a client
reads a line and handles it, in two steps.  The state checker first marks the
group of a machine that does not answer, and then has the machine reverted.

A step that throws ends a retriever or an event thread.  The event thread
catches the exception first, and blames the connection.
-/
import CaptureHpc.Server.Client

namespace CaptureHpc.Server

open Java

namespace UrlsController

/-- `inUrlQueue`: a URL that would be visited in the same way is queued. -/
def inUrlQueue (u : UrlRef) : Action Bool := do
  let x ← readUrl u
  let url ← Exec.gets ServerState.url
  return (← Exec.gets ServerState.urlQueue).any fun u₁ =>
    equalsIgnoreCase (Url.getEscapedUrl x) (Url.getEscapedUrl (url u₁)) &&
      x.clientProgram == (url u₁).clientProgram && x.visitTime == (url u₁).visitTime

/-- `addUrl`.  The queue is a heap by priority; where the URL gets to is left open. -/
def addUrl (u : UrlRef) (position : Nat) : Action Unit := do
  if !(← inUrlQueue u) then
    Exec.modify fun s =>
      { s with urlQueue := s.urlQueue.take position ++ u :: s.urlQueue.drop position }

end UrlsController

namespace UrlGroupsController

/-- `takeUrlGroup` does not block. -/
def canTake (s : ServerState) : Bool :=
  !s.urlGroupQueue.isEmpty ||
    (initialUrlGroupSize s.config.groupSize s.urlQueue.length).toNat ≤ s.urlQueue.length

end UrlGroupsController

/-- What a thread comes to: a result, or nothing if something was thrown.  `System.exit` ends
every thread. -/
def attempt {α : Type} (x : Action α) (s : ServerState) : Option (Option α × ServerState) :=
  match x.run s with
  | (.ok a, s') => some (some a, s')
  | (.error (.exit _), _) => none
  | (.error _, s') => some (none, s')

/-- How far `Client.run` got. -/
inductive RetrieverStep where
  /-- the test of the loop -/
  | loop
  /-- the test for WAITING -/
  | test
  | take
  | store (g : GroupRef)
  | send
  | await
  | notSent
  | wait
  | stopped
deriving DecidableEq

/-- A line that a client sends. -/
inductive Line where
  /-- The machine with the ids of the event, if there is one, and whether writes to the socket go
  through. -/
  | connect (v : Option VmRef) (linkUp : Bool)
  /-- The same, and whether the socket can be written to. -/
  | reconnect (v : Option VmRef) (usable : Bool)
  | systemEvent (element : Element) (origin : Nat)
  | visitEvent (element : Element)
  /-- One that is handled without an effect on the objects modelled here. -/
  | other
  /-- One whose handling throws before it has any effect. -/
  | broken
  /-- One that is no XML: the `SAXException` blames nobody. -/
  | notWellFormed

/-- How far `ClientEventController.run` got. -/
inductive EventStep where
  | reading
  | read (line : Line)
  /-- in `parseConnectEvent`: CONNECTED was set, WAITING not yet -/
  | connected
  | stopped

namespace Client

/-- One step of the retriever. -/
def retrieve (c : ClientRef) : RetrieverStep → Action RetrieverStep
  | .loop => do
      if (← readClient c).clientState = .disconnected then return .stopped else return .test
  | .test => do
      if (← readClient c).clientState = .waiting then return .take else return .wait
  | .take => do return .store (← UrlGroupsController.takeUrlGroup)
  | .store g => do
      storeVisitingUrlGroup c g
      return .send
  | .send => do if ← sendVisitingUrlGroup c then return .await else return .notSent
  | .await => do
      awaitVisiting c
      return .wait
  | .notSent => do
      visitNotSent c
      return .wait
  | .wait => return .loop
  | .stopped => return .stopped

/-- The same as a step of the thread, which blocks on an empty queue and ends if it throws. -/
def retrieveStep (c : ClientRef) (step : RetrieverStep) (s : ServerState) :
    Option (RetrieverStep × ServerState) :=
  if step = .take && !UrlGroupsController.canTake s then none
  else (attempt (retrieve c step) s).map fun (next, s') => (next.getD .stopped, s')

/-- `parseConnectEvent` up to CONNECTED. -/
def connect (c : ClientRef) (v : VmRef) : Action Unit := do
  updateClient c fun x => { x with virtualMachine := some v }
  VirtualMachine.setClient v (some c)
  setClientState c .connected

/-- `setSocket`; a socket that cannot be written to fails the visit. -/
def setSocket (c : ClientRef) (usable : Bool) : Action Unit := do
  if usable then updateClient c fun x => { x with socketClosed := false, linkUp := true }
  else
    match (← readClient c).visitingUrlGroup with
    | some g =>
        UrlGroup.setMajorErrorCode g ErrorCode.captureClientConnectionReset.errorCode
        UrlGroup.setUrlGroupState g .error
    | none => pure ()
    updateClient c fun x => { x with clientState := .disconnected }

/-- The `catch` blocks of the event thread. -/
def blameConnection (c : ClientRef) : Action Unit := do
  let client ← readClient c
  if client.virtualMachine.isSome then
    match client.visitingUrlGroup with
    | some g => UrlGroup.setMajorErrorCode g ErrorCode.socketError.errorCode
    | none => pure ()

end Client

/-- `VirtualMachinesStateChecker.setError`. -/
def VirtualMachinesStateChecker.setError (v : VmRef) (code : ErrorCode) : Action Unit := do
  match (← readVm v).client with
  | some c =>
      match (← readClient c).visitingUrlGroup with
      | some g =>
          UrlGroup.setMajorErrorCode g code.errorCode
          UrlGroup.setUrlGroupState g .error
      | none => pure ()
  | none => pure ()

/-- What the state checker does about a machine that is inactive, or stalled, before it has it
reverted. -/
def VirtualMachinesStateChecker.checkVm (v : VmRef) (inactive : Bool) : Action Unit := do
  setError v (if inactive then .captureClientInactivity else .vmStalled)
  if (← readConfig).haltOnRevert then throw (.exit (-20))

/-! ## Frames -/

section Frames
variable {R : ServerState → ServerState → Prop} [Std.Refl R] [IsTrans ServerState R]

theorem UrlsController.addUrl_within (hurls : ∀ l s, R s { s with urlQueue := l }) (u : UrlRef)
    (position : Nat) : (UrlsController.addUrl u position).Within R := by
  have hplace : (Exec.modify fun s : ServerState =>
      { s with urlQueue := s.urlQueue.take position ++ u :: s.urlQueue.drop position } :
      Action Unit).Within R := ⟨fun s => hurls _ s⟩
  unfold UrlsController.addUrl UrlsController.inUrlQueue
  infer_instance

theorem UrlGroupsController.takeUrlGroup_within [∀ urls, (UrlGroup.new urls).Within R]
    (hqueue : ∀ l s, R s { s with urlGroupQueue := l }) (hurls : ∀ l s, R s { s with urlQueue := l }) :
    UrlGroupsController.takeUrlGroup.Within R := by
  have hrest : ∀ l, (Exec.modify fun s : ServerState => { s with urlGroupQueue := l } :
      Action Unit).Within R := fun l => ⟨hqueue l⟩
  have hdrop : ∀ l, (Exec.modify fun s : ServerState => { s with urlQueue := l } :
      Action Unit).Within R := fun l => ⟨hurls l⟩
  unfold UrlGroupsController.takeUrlGroup
  refine Exec.Within.bind inferInstance fun queue => ?_
  cases queue <;> infer_instance

variable [∀ g code, (UrlGroup.setMajorErrorCode g code).Within R]

instance (c : ClientRef) : (Client.blameConnection c).Within R := by
  unfold Client.blameConnection
  refine Exec.Within.bind inferInstance fun client => ?_
  cases client.visitingUrlGroup <;> infer_instance

variable [∀ g, (UrlGroup.setUrlGroupState g .error).Within R] (v : VmRef)

instance (code : ErrorCode) : (VirtualMachinesStateChecker.setError v code).Within R := by
  unfold VirtualMachinesStateChecker.setError
  refine Exec.Within.bind inferInstance fun vm => ?_
  cases vm.client with
  | none => infer_instance
  | some c =>
      refine Exec.Within.bind inferInstance fun client => ?_
      cases client.visitingUrlGroup <;> infer_instance

instance (inactive : Bool) : (VirtualMachinesStateChecker.checkVm v inactive).Within R := by
  unfold VirtualMachinesStateChecker.checkVm
  infer_instance

end Frames

/-! ## What they come to -/

namespace Client

variable {c : ClientRef} {v : VmRef}

/-- A send does nothing else than send, or the client is dropped. -/
theorem send_cases (c : ClientRef) (s : ServerState) : (∃ success, (send c).run s = (.ok success, s)) ∨
    ((s.client c).clientState ≠ .disconnected ∧
      ((s.client c).linkUp = false ∨ (s.client c).socketClosed = true) ∧
        ((send c).run s).2 = ((drop c).run s).2) := by
  rw [send, sendIn]
  simp only [Exec.run_gets_bind]
  by_cases hstate : (s.client c).clientState = .disconnected
  · rw [if_neg (not_not_intro hstate)]
    exact .inl ⟨false, rfl⟩
  · rw [if_pos hstate]
    cases hlink : (s.client c).linkUp && !(s.client c).socketClosed with
    | true => exact .inl ⟨true, rfl⟩
    | false =>
        refine .inr ⟨hstate, ?_, ?_⟩
        · cases hup : (s.client c).linkUp with
          | false => exact .inl rfl
          | true => exact .inr (by simpa [hup] using hlink)
        · rw [if_neg nofun, setClientState_disconnected, Exec.run_bind]
          split
          · next he => rw [he]; rfl
          · next he => rw [he]

/-- Blaming the connection gives one group a code, or does nothing. -/
theorem blameConnection_cases (c : ClientRef) (s : ServerState) :
    ((blameConnection c).run s).2 = s ∨ ∃ g, ((blameConnection c).run s).2 =
      s.setGroup g fun x => { x with majorErrorCode := .socketError } := by
  simp only [blameConnection, Exec.run_gets_bind]
  split
  · cases (s.client c).visitingUrlGroup with
    | none => exact .inl rfl
    | some g => exact .inr ⟨g, rfl⟩
  · exact .inl rfl

/-- A client becomes WAITING, and its machine RUNNING if it has one. -/
theorem welcome_cases (c : ClientRef) (s : ServerState) :
    ((setClientState c .waiting).run s).2 = s ∨
      ((setClientState c .waiting).run s).2 =
        s.setClient c (fun x => { x with clientState := .waiting }) ∨
      ∃ v, ((setClientState c .waiting).run s).2 =
        (s.setClient c fun x => { x with clientState := .waiting }).setVm v
          fun x => { x with vmState := .running } := by
  by_cases hstate : (s.client c).clientState = .waiting
  · rw [setClientState, depth, run_setClientStateIn_same hstate]
    exact .inl rfl
  · cases hv : (s.client c).virtualMachine with
    | some v =>
        rw [run_setClientState_waiting hv hstate]
        exact .inr (.inr ⟨v, rfl⟩)
    | none =>
        refine .inr (.inl ?_)
        have hnone : ((s.setClient c fun x => { x with clientState := .waiting }).client
            c).virtualMachine = none := by rw [ServerState.client_setClient, hv]
        simp only [setClientState, depth, setClientStateIn, Exec.run_gets_bind, ne_eq, hstate,
          not_false_eq_true, if_true, Exec.run_modify_bind, hnone, Exec.orThrow_none,
          Exec.throw_bind, Exec.run_throw]

/-- The server with a client that has connected. -/
def connected (c : ClientRef) (v : VmRef) (s : ServerState) : ServerState :=
  (s.setClient c fun x => { x with virtualMachine := some v, clientState := .connected }).setVm v
    fun x => { x with client := some c }

/-- A new client is connected, or lost if it cannot be written to. -/
theorem run_connect {s : ServerState} {linkUp : Bool} (hfresh : s.client c = { linkUp }) :
    (connect c v).run s =
      (.ok (), if linkUp then connected c v s else lost c (connected c v s)) := by
  have hclient : (connected c v s).client c =
      { linkUp, virtualMachine := some v, clientState := .connected } := by
    simp [connected, ServerState.setVm, ServerState.setClient, hfresh]
  have hbegin : (connect c v).run s = (do
      let _ ← sendIn (setClientStateIn 5) c
      let _ ← sendIn (setClientStateIn 5) c
      let _ ← sendIn (setClientStateIn 5) c : Action Unit).run (connected c v s) := by
    simp [connect, VirtualMachine.setClient, setClientState, depth, setClientStateIn, connected,
      ServerState.setVm, ServerState.setClient, hfresh]
  have hquiet : ∀ s' : ServerState, (s'.client c).clientState = .disconnected →
      (sendIn (setClientStateIn 5) c).run s' = (.ok false, s') := by
    intro s' hs'
    simp [sendIn, hs']
  rw [hbegin]
  cases linkUp with
  | true =>
      have hsend : (sendIn (setClientStateIn 5) c).run (connected c v s) =
          (.ok true, connected c v s) := by simp [sendIn, hclient]
      rw [Exec.run_bind_ok hsend, Exec.run_bind_ok hsend, Exec.run_bind_ok hsend]
      rfl
  | false =>
      have hsend : (sendIn (setClientStateIn 5) c).run (connected c v s) =
          (.ok false, lost c (connected c v s)) := by
        have hdrop := run_drop_idle (c := c) (s := connected c v s) (by rw [hclient])
          (by rw [hclient]; exact ClientState.noConfusion)
        simp only [sendIn, Exec.run_gets_bind, hclient]
        simp only [setClientStateIn_disconnected, ne_eq, reduceCtorEq, not_false_eq_true, if_true,
          Bool.false_and, Bool.false_eq_true, if_false, Exec.run_bind_ok hdrop, Exec.run_pure]
      have hlost : ((lost c (connected c v s)).client c).clientState = .disconnected := by
        rw [lost, ServerState.client_setClient]
      rw [Exec.run_bind_ok hsend, Exec.run_bind_ok (hquiet _ hlost),
        Exec.run_bind_ok (hquiet _ hlost)]
      rfl

/-- A client that connects changes only clients and machines. -/
theorem connect_rest (c : ClientRef) (v : VmRef) (linkUp : Bool) (s : ServerState) :
    ∃ client vm, ((connect c v).run (s.setClient c fun _ => { linkUp })).2 =
      { s with client, vm } := by
  rw [run_connect (ServerState.client_setClient ..)]
  split
  · exact ⟨_, _, rfl⟩
  · obtain ⟨client, vm, he⟩ := lost_rest c (connected c v (s.setClient c fun _ => { linkUp }))
    exact ⟨client, vm, he⟩

end Client

/-- Moving a machine on is all there is to it, unless it is to be reverted. -/
theorem VirtualMachine.run_setState {v : VmRef} {newState : VmState}
    (h : newState ≠ .waitingToBeReverted) (s : ServerState) :
    (VirtualMachine.setState v newState).run s =
      (.ok (), s.setVm v fun x => { x with vmState := newState }) := by
  by_cases hsame : (s.vm v).vmState = newState
  · have heq : { s.vm v with vmState := newState } = s.vm v := by rw [← hsame]
    simp [VirtualMachine.setState, VirtualMachine.setStateIn, hsame, ServerState.setVm, heq]
  · simp [VirtualMachine.setState, VirtualMachine.setStateIn, hsame, h]

end CaptureHpc.Server
