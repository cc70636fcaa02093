/-
# `Server.Handshake` — the retriever and the replies of its client

The retriever sends a group and then assigns AWAITING_VISITING, past the setter.
The client may have answered before: its start message makes it VISITING, and
the assignment takes that back, so that its system events are dropped.

A `Handshake` is the retriever and the event thread of one client, which replies
to what it is sent: a start message, system events, a finish or error message.
`handshake_iff` says that the assignment is all that can go wrong, and
`run_schedule` that the server does what these two threads do.
-/
import CaptureHpc.Server.LastVisit

namespace CaptureHpc.Server

open Java

/-- How far the visit is, by the messages that were handled. -/
inductive Phase where
  | idle
  /-- the group was sent -/
  | sent
  /-- the start message was handled -/
  | started
  /-- the finish message was handled, and nothing malicious was seen -/
  | benign
  /-- the visit ended in another way, or the group was not sent -/
  | over
  /-- the event thread has ended -/
  | stopped
deriving DecidableEq

structure Handshake where
  server : ServerState
  retriever : RetrieverStep := .loop
  phase : Phase := .idle

inductive HandshakeAction where
  | retrieve
  | start (element : Element)
  | event (element : Element) (origin : Nat)
  /-- a finish or error message -/
  | finish (element : Element)

/-- A finish message after which the client is to be WAITING. -/
def BenignFinish (c : ClientRef) (element : Element) (s : ServerState) : Prop :=
  element.get "type" = some "finish" ∧ element.get "malicious" ≠ some "1" ∧
    ∀ g ∈ (s.client c).visitingUrlGroup, (s.group g).malicious = false

instance (c : ClientRef) (element : Element) (s : ServerState) :
    Decidable (BenignFinish c element s) :=
  inferInstanceAs (Decidable (_ ∧ _ ∧ ∀ g ∈ (s.client c).visitingUrlGroup, _))

/-- The group is to be divided, so that a system event ends the visit. -/
def DividedByEvent (c : ClientRef) (s : ServerState) : Prop :=
  (s.client c).algorithm = some "dac" ∧ ∃ g ∈ (s.client c).visitingUrlGroup, 1 < (s.group g).size

instance (c : ClientRef) (s : ServerState) : Decidable (DividedByEvent c s) :=
  inferInstanceAs (Decidable (_ ∧ ∃ g ∈ (s.client c).visitingUrlGroup, _))

namespace Handshake

/-- The event thread handles a message.  If that throws, it blames the connection and ends. -/
def handle (c : ClientRef) (x : Handshake) (f : Action Unit) (phase : Phase) : Option Handshake :=
  (attempt f x.server).map fun (result, server) =>
    match result with
    | some _ => { x with server, phase }
    | none => { x with server := ((Client.blameConnection c).run server).2, phase := .stopped }

/-- The phase after a step of the retriever. -/
def phaseAfter (phase : Phase) (step next : RetrieverStep) : Phase :=
  if phase = .stopped ∨ step ≠ .send then phase else if next = .await then .sent else .over

def next (c : ClientRef) (x : Handshake) : HandshakeAction → Option Handshake
  | .retrieve => (Client.retrieveStep c x.retriever x.server).map fun (step, server) =>
      { server, retriever := step, phase := phaseAfter x.phase x.retriever step }
  | .start element =>
      if x.phase = .sent ∧ element.get "type" = some "start" then
        x.handle c (Client.parseVisitEvent c element) .started
      else none
  | .event element origin =>
      if x.phase = .started then
        x.handle c (Client.parseEvent c element origin)
          (if DividedByEvent c x.server then .over else .started)
      else none
  | .finish element =>
      if x.phase = .started ∧
          (element.get "type" = some "finish" ∨ element.get "type" = some "error") then
        x.handle c (Client.parseVisitEvent c element)
          (if BenignFinish c element x.server then .benign else .over)
      else none

end Handshake

/-- The two threads of a client, in any order. -/
def handshakeMachine (c : ClientRef) : Machine Handshake HandshakeAction where
  init x := x.retriever = .loop ∧ x.phase = .idle
  next := Handshake.next c

/-- **What is claimed**: during the visit the client is VISITING, and after a benign one it is
WAITING until it is sent a group. -/
structure Agrees (c : ClientRef) (x : Handshake) : Prop where
  visiting : x.phase = .started → (x.server.client c).clientState = .visiting
  waiting : x.phase = .benign → (x.server.client c).clientState = .waiting

/-- **The condition**: AWAITING_VISITING is assigned before the start message is handled, or not
before the visit is over. -/
def AwaitsInTime (x : Handshake) : HandshakeAction → Prop
  | .retrieve => x.retriever = .await → x.phase ≠ .started ∧ x.phase ≠ .benign
  | _ => True

instance (x : Handshake) : ∀ a, Decidable (AwaitsInTime x a)
  | .retrieve => inferInstanceAs (Decidable (_ → _))
  | .start _ | .event _ _ | .finish _ => .isTrue trivial

/-! ## The retriever -/

section Retriever
variable {c : ClientRef} {s s' : ServerState} {step next : RetrieverStep}

/-- The retriever waits for the client, or is about to. -/
def Resting (step : RetrieverStep) : Prop := step = .wait ∨ step = .loop ∨ step = .test

/-- A retriever whose client is busy goes round its loop. -/
theorem retrieve_resting (hrest : Resting step) (hwaiting : (s.client c).clientState ≠ .waiting)
    (hdead : (s.client c).clientState ≠ .disconnected)
    (h : Client.retrieveStep c step s = some (next, s')) : Resting next ∧ s' = s := by
  rcases hrest with rfl | rfl | rfl
  · obtain ⟨rfl, rfl⟩ := Prod.mk.inj (Option.some.inj h)
    exact ⟨.inr (.inl rfl), rfl⟩
  · have hrun : (Client.retrieve c .loop).run s = (.ok .test, s) := by
      simp [Client.retrieve, hdead]
    simp only [Client.retrieveStep, attempt, hrun] at h
    obtain ⟨rfl, rfl⟩ := Prod.mk.inj (Option.some.inj h)
    exact ⟨.inr (.inr rfl), rfl⟩
  · have hrun : (Client.retrieve c .test).run s = (.ok .wait, s) := by
      simp [Client.retrieve, hwaiting]
    simp only [Client.retrieveStep, attempt, hrun] at h
    obtain ⟨rfl, rfl⟩ := Prod.mk.inj (Option.some.inj h)
    exact ⟨.inl rfl, rfl⟩

theorem retrieve_await (h : Client.retrieveStep c .await s = some (next, s')) :
    next = .wait ∧ (s'.client c).clientState = .awaitingVisiting := by
  obtain ⟨rfl, rfl⟩ := Prod.mk.inj (Option.some.inj h)
  exact ⟨rfl, congrArg Client.clientState (ServerState.client_setClient ..)⟩

/-- The state of the client is the same. -/
abbrev StateKept (c : ClientRef) : ServerState → ServerState → Prop :=
  Exec.Same fun s => (s.client c).clientState

instance {α : Type} {x : Action α} [h : x.Within GroupsOnly] : x.Within (StateKept c) :=
  h.mono fun s s' hgroups => by
    rw [GroupsOnly] at hgroups
    rw [hgroups]
    rfl

/-- A step that neither sends nor assigns leaves the state of the client. -/
theorem retrieve_keeps (hsend : step ≠ .send) (hawait : step ≠ .await)
    (h : Client.retrieveStep c step s = some (next, s')) : StateKept c s s' := by
  have htake : UrlGroupsController.takeUrlGroup.Within (StateKept c) :=
    UrlGroupsController.takeUrlGroup_within (fun _ _ => rfl) fun _ _ => rfl
  have hstore : ∀ g, (updateClient c fun x => { x with visitingUrlGroup := some g }).Within
      (StateKept c) := by
    refine fun g => ⟨fun s => ?_⟩
    show ((s.setClient c fun x => { x with visitingUrlGroup := some g }).client c).clientState = _
    rw [ServerState.client_setClient]
  have hrun : StateKept c s ((Client.retrieve c step).run s).2 := by
    cases step with
    | send => exact absurd rfl hsend
    | await => exact absurd rfl hawait
    | _ =>
        unfold Client.retrieve Client.storeVisitingUrlGroup Client.visitNotSent
        exact Exec.Within.post s
  rw [Client.retrieveStep] at h
  split at h
  · cases h
  · obtain ⟨⟨r, s₁⟩, hattempt, heq⟩ := Option.map_eq_some_iff.mp h
    obtain ⟨-, rfl⟩ := Prod.mk.inj heq
    rw [of_attempt hattempt]
    exact hrun

end Retriever

/-! ## The replies -/

section Replies
variable {c : ClientRef} {s s' : ServerState} {element : Element}

/-- The state of the client. -/
abbrev StateIs (c : ClientRef) (state : ClientState) (s : ServerState) : Prop :=
  (s.client c).clientState = state

instance : (Client.setClientState c .visiting).Ends (StateIs c .visiting) := by
  refine ⟨fun s _ s' h => ?_⟩
  rw [Client.run_setClientState_visiting] at h
  obtain ⟨-, rfl⟩ := Prod.mk.inj h
  exact congrArg Client.clientState (ServerState.client_setClient ..)

instance : (Client.setClientState c .waiting).Ends (StateIs c .waiting) := by
  refine ⟨fun s _ s' h => ?_⟩
  by_cases hstate : (s.client c).clientState = .waiting
  · rw [Client.setClientState, Client.depth, Client.run_setClientStateIn_same hstate] at h
    obtain ⟨-, rfl⟩ := Prod.mk.inj h
    exact hstate
  · have hset : ((s.setClient c fun x => { x with clientState := .waiting }).client c) =
        { s.client c with clientState := .waiting } := ServerState.client_setClient ..
    cases hv : (s.client c).virtualMachine with
    | some v =>
        rw [Client.run_setClientState_waiting hv hstate] at h
        obtain ⟨-, rfl⟩ := Prod.mk.inj h
        exact congrArg Client.clientState hset
    | none =>
        have hthrown : ((Client.setClientState c .waiting).run s).1 = .error .nullPointer := by
          simp only [Client.setClientState, Client.depth, Client.setClientStateIn,
            Exec.run_gets_bind, ne_eq, hstate, not_false_eq_true, if_true, Exec.run_modify_bind,
            hset, hv, Exec.orThrow_none, Exec.throw_bind, Exec.run_throw]
        rw [h] at hthrown
        cases hthrown

instance : (Client.parseStart c element).Ends (StateIs c .visiting) := by
  unfold Client.parseStart
  infer_instance

instance : (Client.leaveGroup c .waiting).Ends (StateIs c .waiting) := by
  unfold Client.leaveGroup
  infer_instance

/-- A start message that is handled leaves its client VISITING. -/
theorem visiting_of_run_start (htype : element.get "type" = some "start")
    (h : (Client.parseVisitEvent c element).run s = (.ok (), s')) : StateIs c .visiting s' := by
  rw [run_parseVisitEvent, htype] at h
  exact Exec.Ends.post (x := Client.parseStart c element) _ _ _ h

/-- A benign finish message that is handled leaves its client WAITING. -/
theorem waiting_of_run_finish (hbenign : BenignFinish c element s)
    (h : (Client.parseVisitEvent c element).run s = (.ok (), s')) : StateIs c .waiting s' := by
  obtain ⟨htype, hone, hgroup⟩ := hbenign
  rw [run_parseVisitEvent, htype] at h
  have hfinish : (Client.parseFinish c element).run (told c element s) = (.ok (), s') := h
  have hg : ((told c element s).client c).visitingUrlGroup = (s.client c).visitingUrlGroup := by
    rw [told, ServerState.client_setClient]
  rw [Client.parseFinish] at hfinish
  simp only [Exec.run_gets_bind, hg] at hfinish
  cases hv : (s.client c).visitingUrlGroup with
  | none =>
      rw [hv] at hfinish
      cases congrArg Prod.fst hfinish
  | some g =>
      simp only [hv, Exec.orThrow_some, Exec.pure_bind] at hfinish
      obtain ⟨_, s₁, htime, hitems⟩ := Exec.of_run_bind_ok hfinish
      obtain ⟨ended, s₂, hended, hverdict⟩ := Exec.of_run_bind_ok hitems
      have hquiet : Quiet s₁ s₂ := Exec.Within.of_run hended
      have hbenign : (s₂.group g).malicious = false := by
        have hsame : s₂.group = s₁.group := by rw [hquiet.rest]
        rw [hsame, (setVisitFinishTime_keeps _ htime).2.2.2]
        exact hgroup g hv
      simp only [Exec.run_gets_bind, hbenign] at hverdict
      rw [if_neg Bool.false_ne_true] at hverdict
      obtain ⟨malicious, hmalicious, hmachine⟩ := of_run_deref_bind hverdict
      obtain ⟨v, -, hend⟩ := of_run_deref_bind hmachine
      have hzero : ¬ (malicious == "1") = true := by
        rw [hmalicious] at hone
        simpa using hone
      rw [if_neg hzero] at hend
      have hends : (do
          UrlGroup.setMalicious g ((told c element s).client c).algorithm false (some ended.2)
          UrlGroup.setUrlGroupState g .visited
          Client.leaveGroup c .waiting : Action Unit).Ends (StateIs c .waiting) := inferInstance
      exact hends.post _ _ _ hend

/-- A system event leaves its client VISITING, unless the group is to be divided. -/
theorem visiting_parseEvent (element : Element) (origin : Nat) (hs : StateIs c .visiting s)
    (hwhole : ¬ DividedByEvent c s) :
    StateIs c .visiting ((Client.parseEvent c element origin).run s).2 := by
  have hs' : (s.client c).clientState = .visiting := hs
  have hedits : ∀ {g : GroupRef} {s' : ServerState}, Edits c g s s' → StateIs c .visiting s' := by
    intro g s' h
    rw [StateIs, h.client]
    exact hs
  cases halg : (s.client c).algorithm with
  | none => simpa [Client.parseEvent, hs', halg] using hs
  | some algorithm =>
      cases hg : (s.client c).visitingUrlGroup with
      | none => simpa [Client.parseEvent, hs', halg, hg] using hs
      | some g =>
          have hdac : ¬ (algorithm = "dac" && decide (1 < (s.group g).size)) = true := by
            intro h
            obtain ⟨halgorithm, hsize⟩ := (Bool.and_eq_true _ _).mp h
            exact hwhole ⟨halg.trans (congrArg some (of_decide_eq_true halgorithm)), g, hg,
              of_decide_eq_true hsize⟩
          simp only [Client.parseEvent, Exec.run_gets_bind, hs', if_true, halg, hg,
            Exec.orThrow_some, Exec.pure_bind, Exec.run_ite, if_neg hdac]
          split
          · exact hedits (g := g) (Exec.Within.post s)
          · exact hedits (g := g) (Exec.Within.post s)

end Replies

/-! ## Every schedule -/

/-- What holds after every step, if AWAITING_VISITING is assigned in time. -/
structure InStep (c : ClientRef) (x : Handshake) : Prop where
  sent : x.phase = .sent → x.retriever = .await ∨
    (StateIs c .awaitingVisiting x.server ∧ Resting x.retriever)
  started : x.phase = .started →
    StateIs c .visiting x.server ∧ (x.retriever = .await ∨ Resting x.retriever)
  benign : x.phase = .benign → StateIs c .waiting x.server

section Schedules
variable {c : ClientRef} {x x' : Handshake}

theorem InStep.agrees (h : InStep c x) : Agrees c x := ⟨fun hx => (h.started hx).1, h.benign⟩

/-- In the other phases nothing is asked. -/
theorem inStep_of_phase {phase : Phase} (hphase : x.phase = phase)
    (hquiet : phase ∉ [.sent, .started, .benign]) : InStep c x := by
  subst hphase
  constructor <;> intro h <;> rw [h] at hquiet <;> exact absurd (by decide) hquiet

/-- A message is handled, or the event thread ends. -/
theorem of_handle {f : Action Unit} {phase : Phase} (h : x.handle c f phase = some x') :
    x'.phase = .stopped ∨
      (x'.phase = phase ∧ x'.retriever = x.retriever ∧ f.run x.server = (.ok (), x'.server)) := by
  obtain ⟨⟨r, server⟩, hattempt, rfl⟩ := Option.map_eq_some_iff.mp h
  cases r with
  | none => exact .inl rfl
  | some _ =>
      refine .inr ⟨rfl, rfl, ?_⟩
      rw [attempt] at hattempt
      split at hattempt
      · next he =>
          obtain ⟨-, rfl⟩ := Prod.mk.inj (Option.some.inj hattempt)
          exact he
      · cases hattempt
      · cases congrArg Prod.fst (Option.some.inj hattempt)

theorem inStep_start {element : Element} (hx : InStep c x)
    (h : Handshake.next c x (.start element) = some x') : InStep c x' := by
  simp only [Handshake.next] at h
  split at h
  · next hguard =>
      obtain ⟨hsent, htype⟩ := hguard
      rcases of_handle h with hstopped | ⟨hphase, hretriever, hrun⟩
      · exact inStep_of_phase hstopped (by decide)
      · refine ⟨fun h => ?_, fun _ => ⟨visiting_of_run_start htype hrun, ?_⟩, fun h => ?_⟩
        · rw [hphase] at h
          cases h
        · rw [hretriever]
          exact (hx.sent hsent).imp_right fun h => h.2
        · rw [hphase] at h
          cases h
  · cases h

theorem inStep_event {element : Element} {origin : Nat} (hx : InStep c x)
    (h : Handshake.next c x (.event element origin) = some x') : InStep c x' := by
  simp only [Handshake.next] at h
  split at h
  · next hstarted =>
      obtain ⟨hvisiting, hretriever⟩ := hx.started hstarted
      rcases of_handle h with hstopped | ⟨hphase, hsame, hrun⟩
      · exact inStep_of_phase hstopped (by decide)
      · split at hphase
        · exact inStep_of_phase hphase (by decide)
        · next hwhole =>
            have hstays := visiting_parseEvent element origin hvisiting hwhole
            rw [hrun] at hstays
            refine ⟨fun h => ?_, fun _ => ⟨hstays, ?_⟩, fun h => ?_⟩
            · rw [hphase] at h
              cases h
            · rw [hsame]
              exact hretriever
            · rw [hphase] at h
              cases h
  · cases h

theorem inStep_finish {element : Element}
    (h : Handshake.next c x (.finish element) = some x') : InStep c x' := by
  simp only [Handshake.next] at h
  split at h
  · rcases of_handle h with hstopped | ⟨hphase, -, hrun⟩
    · exact inStep_of_phase hstopped (by decide)
    · split at hphase
      · next hbenign =>
          refine ⟨fun h => ?_, fun h => ?_, fun _ => waiting_of_run_finish hbenign hrun⟩
          · rw [hphase] at h
            cases h
          · rw [hphase] at h
            cases h
      · exact inStep_of_phase hphase (by decide)
  · cases h

/-- A group that is sent is waited for. -/
theorem inStep_send {phase : Phase} {next : RetrieverStep} {server : ServerState} :
    InStep c { server, retriever := next, phase := Handshake.phaseAfter phase .send next } := by
  by_cases hstopped : phase = .stopped
  · have hsame : Handshake.phaseAfter phase .send next = .stopped :=
      (if_pos (.inl hstopped)).trans hstopped
    exact inStep_of_phase hsame (by decide)
  · have hsent : Handshake.phaseAfter phase .send next = if next = .await then .sent else .over :=
      if_neg fun h => h.elim hstopped fun hne => hne rfl
    by_cases hnext : next = .await
    · rw [if_pos hnext] at hsent
      refine ⟨fun _ => .inl hnext, fun h => ?_, fun h => ?_⟩
      · exact absurd (hsent.symm.trans h) nofun
      · exact absurd (hsent.symm.trans h) nofun
    · rw [if_neg hnext] at hsent
      exact inStep_of_phase hsent (by decide)

theorem inStep_retrieve (hx : InStep c x) (hok : AwaitsInTime x .retrieve)
    (h : Handshake.next c x .retrieve = some x') : InStep c x' := by
  obtain ⟨⟨next, server⟩, hretrieve, rfl⟩ := Option.map_eq_some_iff.mp h
  by_cases hsend : x.retriever = .send
  · rw [hsend]
    exact inStep_send
  · have hphase : Handshake.phaseAfter x.phase x.retriever next = x.phase := if_pos (.inr hsend)
    show InStep c
      { server, retriever := next, phase := Handshake.phaseAfter x.phase x.retriever next }
    rw [hphase]
    by_cases hawait : x.retriever = .await
    · rw [hawait] at hretrieve
      obtain ⟨rfl, hstate⟩ := retrieve_await hretrieve
      obtain ⟨hstarted, hbenign⟩ := hok hawait
      refine ⟨fun _ => .inr ⟨hstate, .inl rfl⟩, fun h => ?_, fun h => ?_⟩
      · exact absurd h hstarted
      · exact absurd h hbenign
    · refine ⟨fun hsent => .inr ?_, fun hstarted => ?_, fun hbenign => ?_⟩
      · obtain ⟨hstate, hrest⟩ := (hx.sent hsent).resolve_left hawait
        obtain ⟨hnext, rfl⟩ := retrieve_resting hrest (by rw [hstate]; nofun)
          (by rw [hstate]; nofun) hretrieve
        exact ⟨hstate, hnext⟩
      · obtain ⟨hstate, hrest⟩ := hx.started hstarted
        obtain ⟨hnext, rfl⟩ := retrieve_resting (hrest.resolve_left hawait)
          (by rw [hstate]; nofun) (by rw [hstate]; nofun) hretrieve
        exact ⟨hstate, .inr hnext⟩
      · have hkept : (server.client c).clientState = (x.server.client c).clientState :=
          retrieve_keeps hsend hawait hretrieve
        exact hkept.trans (hx.benign hbenign)

theorem inStep_next {a : HandshakeAction} (hx : InStep c x) (hok : AwaitsInTime x a)
    (h : Handshake.next c x a = some x') : InStep c x' := by
  cases a with
  | retrieve => exact inStep_retrieve hx hok h
  | start element => exact inStep_start hx h
  | event element origin => exact inStep_event hx h
  | finish element => exact inStep_finish h

/-- An assignment that comes too late shows at once. -/
theorem awaitsInTime_of_agrees {a : HandshakeAction} (h : Handshake.next c x a = some x')
    (hagrees : Agrees c x') : AwaitsInTime x a := by
  cases a with
  | retrieve =>
      intro hawait
      obtain ⟨⟨next, server⟩, hretrieve, rfl⟩ := Option.map_eq_some_iff.mp h
      have hphase : Handshake.phaseAfter x.phase x.retriever next = x.phase := by
        refine if_pos (.inr ?_)
        rw [hawait]
        nofun
      rw [hawait] at hretrieve
      obtain ⟨-, hstate⟩ := retrieve_await hretrieve
      refine ⟨fun hstarted => ?_, fun hbenign => ?_⟩
      · have hvisiting := hagrees.visiting (hphase.trans hstarted)
        exact absurd (hstate.symm.trans hvisiting) nofun
      · have hwaiting := hagrees.waiting (hphase.trans hbenign)
        exact absurd (hstate.symm.trans hwaiting) nofun
  | start element => trivial
  | event element origin => trivial
  | finish element => trivial

/-- **During every visit the client is VISITING, and WAITING after a benign one**, just if the
retriever never assigns AWAITING_VISITING between the start message and the next group. -/
theorem handshake_iff {as : List HandshakeAction} (hinit : (handshakeMachine c).init x)
    (hrun : (handshakeMachine c).run as x = some x') :
    (handshakeMachine c).Throughout (Agrees c) as x ↔
      (handshakeMachine c).Meets AwaitsInTime as x := by
  refine Machine.throughout_iff_meets (fun _ h => InStep.agrees h) (fun x a x' hx h => ?_)
    (inStep_of_phase hinit.2 (by decide)) hrun
  exact ⟨fun hok => inStep_next hx hok h, awaitsInTime_of_agrees h⟩

end Schedules

/-! ## Two schedules -/

/-- A client that is WAITING, and a group for it. -/
def waitingServer : ServerState where
  config := {}
  url _ := { id := "1", url := "http://a/", clientProgram := "iexplore", visitTime := 30 }
  store := { visit := fun _ => {} }
  group _ := { urlList := [0], clientProgram := "iexplore", visitTime := 30 }
  nextGroup := 1
  client _ := { clientState := .waiting, virtualMachine := some 0 }
  vm _ := { vmState := .running, client := some 0 }
  urlQueue := []
  urlGroupQueue := [0]
  visitingList := []

/-- The retriever sends the group. -/
def sendGroup : List HandshakeAction := List.replicate 5 .retrieve

theorem handshake_visit :
    ∃ x, (handshakeMachine 0).run (sendGroup ++ [.retrieve, .start (benignMessage "start" "0"),
        .finish (benignMessage "finish" "0"), .retrieve]) { server := waitingServer } = some x ∧
      x.phase = .benign ∧ x.retriever = .loop ∧
        (handshakeMachine 0).Throughout (Agrees 0) (sendGroup ++ [.retrieve,
          .start (benignMessage "start" "0"), .finish (benignMessage "finish" "0"), .retrieve])
            { server := waitingServer } := by
  obtain ⟨x, hrun, hphase, hloop⟩ : ∃ x, (handshakeMachine 0).run (sendGroup ++ [.retrieve,
      .start (benignMessage "start" "0"), .finish (benignMessage "finish" "0"), .retrieve])
        { server := waitingServer } = some x ∧ x.phase = .benign ∧ x.retriever = .loop :=
    ⟨_, rfl, rfl, rfl⟩
  exact ⟨x, hrun, hphase, hloop, (handshake_iff ⟨rfl, rfl⟩ hrun).mpr (by decide)⟩

/-- The start message is handled before AWAITING_VISITING is assigned. -/
theorem handshake_overtaken :
    ¬ ∀ as x x', (handshakeMachine 0).init x → (handshakeMachine 0).run as x = some x' →
      (handshakeMachine 0).Throughout (Agrees 0) as x := by
  intro h
  obtain ⟨x, hrun, hphase, hstate⟩ : ∃ x, (handshakeMachine 0).run (sendGroup ++
      [.start (benignMessage "start" "0"), .retrieve]) { server := waitingServer } = some x ∧
        x.phase = .started ∧ StateIs 0 .awaitingVisiting x.server := ⟨_, rfl, rfl, rfl⟩
  have hagrees := (h _ _ _ ⟨rfl, rfl⟩ hrun).run hrun
  exact absurd (hstate.symm.trans (hagrees.visiting hphase)) nofun

/-! ## The whole server -/

/-- What the server does when the two threads act. -/
def HandshakeAction.schedule (c : ClientRef) (k : ConnectionRef) :
    HandshakeAction → List SystemAction
  | .retrieve => [.retrieve c]
  | .start element | .finish element => [.receive k (.visitEvent element), .handle k]
  | .event element origin => [.receive k (.systemEvent element origin), .handle k]

section Server
variable {c : ClientRef} {k : ConnectionRef} {s : System} {x x' : Handshake}

/-- The event thread acts as in the handshake. -/
theorem eventStep_of_handle {f : Action Unit} {phase : Phase}
    (hclient : (s.controller k).client = some c) (hserver : s.server = x.server)
    (h : x.handle c f phase = some x') : ∃ s', s.eventStep k f .reading = some s' ∧
      s'.server = x'.server ∧ s'.retriever = s.retriever := by
  obtain ⟨⟨r, server⟩, hattempt, rfl⟩ := Option.map_eq_some_iff.mp h
  rw [System.eventStep, hserver, hattempt, hclient]
  cases r with
  | some _ => exact ⟨_, rfl, rfl, rfl⟩
  | none => exact ⟨_, rfl, rfl, rfl⟩

/-- A message is read and handled. -/
theorem run_receive {line : Line} {f : Action Unit} {phase : Phase}
    (hstep : (s.controller k).step = .reading) (hclient : (s.controller k).client = some c)
    (hopen : s.socketOpen k = true) (hserver : s.server = x.server)
    (hline : ∀ s : System, (s.controller k).client = some c →
      s.handle k line = s.eventStep k f .reading) (h : x.handle c f phase = some x') :
    ∃ s', systemMachine.run [.receive k line, .handle k] s = some s' ∧
      s'.server = x'.server ∧ s'.retriever = s.retriever := by
  let s₁ : System := s.setController k fun t => { t with step := .read line }
  have hself : s₁.controller k = { s.controller k with step := .read line } :=
    Function.update_self ..
  have hclient₁ : (s₁.controller k).client = some c := by
    rw [hself]
    exact hclient
  have hread : System.next s (.receive k line) = some s₁ := by
    simp only [System.next, hstep, hopen, if_true]
    rfl
  have hhandle : System.next s₁ (.handle k) = s₁.eventStep k f .reading := by
    rw [← hline s₁ hclient₁]
    simp only [System.next, hself]
  obtain ⟨s', hs', hsame, hretriever⟩ := eventStep_of_handle (s := s₁) hclient₁ hserver h
  refine ⟨s', ?_, hsame, hretriever⟩
  show (System.next s (.receive k line)).bind _ = _
  rw [hread, Option.bind_some]
  show (System.next s₁ (.handle k)).bind _ = _
  rw [hhandle, hs']
  rfl

/-- **What the two threads do, the server does**, as long as the event thread reads and its socket
is open. -/
theorem run_schedule {a : HandshakeAction} (hstep : (s.controller k).step = .reading)
    (hclient : (s.controller k).client = some c) (hopen : s.socketOpen k = true)
    (hserver : s.server = x.server) (hretriever : s.retriever c = x.retriever)
    (h : Handshake.next c x a = some x') : ∃ s', systemMachine.run (a.schedule c k) s = some s' ∧
      s'.server = x'.server ∧ s'.retriever c = x'.retriever := by
  have hmessage : ∀ {line : Line} {f : Action Unit} {phase : Phase}, (∀ s : System,
      (s.controller k).client = some c → s.handle k line = s.eventStep k f .reading) →
        x.handle c f phase = some x' → ∃ s',
          systemMachine.run [.receive k line, .handle k] s = some s' ∧ s'.server = x'.server ∧
            s'.retriever c = x'.retriever := by
    intro line f phase hline hhandle
    obtain ⟨s', hrun, hsame, hkept⟩ := run_receive hstep hclient hopen hserver hline hhandle
    refine ⟨s', hrun, hsame, ?_⟩
    rw [hkept, hretriever]
    obtain ⟨⟨r, server⟩, -, rfl⟩ := Option.map_eq_some_iff.mp hhandle
    cases r <;> rfl
  have hvisit : ∀ (element : Element) (s : System), (s.controller k).client = some c →
      s.handle k (.visitEvent element) =
        s.eventStep k (Client.parseVisitEvent c element) .reading := by
    intro element s hs
    simp only [System.handle, hs]
  cases a with
  | retrieve =>
      obtain ⟨⟨next, server⟩, hretrieve, rfl⟩ := Option.map_eq_some_iff.mp h
      rw [← hserver, ← hretriever] at hretrieve
      let s' : System := { s with server, retriever := Function.update s.retriever c next }
      have hnext : System.next s (.retrieve c) = some s' := by
        rw [System.next, hretrieve]
        rfl
      have hself : s'.retriever c = next := Function.update_self ..
      refine ⟨s', ?_, rfl, hself⟩
      show (System.next s (.retrieve c)).bind _ = _
      rw [hnext]
      rfl
  | start element =>
      simp only [Handshake.next] at h
      split at h
      · exact hmessage (hvisit element) h
      · cases h
  | event element origin =>
      simp only [Handshake.next] at h
      split at h
      · refine hmessage (fun s hs => ?_) h
        simp only [System.handle, hs]
      · cases h
  | finish element =>
      simp only [Handshake.next] at h
      split at h
      · exact hmessage (hvisit element) h
      · cases h

end Server

end CaptureHpc.Server
