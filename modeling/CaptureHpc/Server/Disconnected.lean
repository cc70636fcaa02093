/-
# `Server.Disconnected` — clients that were dropped

A client that is dropped leaves its group to another one, but it keeps the
reference, and its threads go on.  What was read before is handled, an event
thread whose socket is closed blames the connection, and a retriever that has
just sent a group assigns AWAITING_VISITING.

`disconnected_inert` is about the runs in which no such thing comes too late
(`InTime`): there a client that is DISCONNECTED stays so, and its event thread
changes no group.
-/
import CaptureHpc.Server.Registration
import CaptureHpc.Server.LastVisit

namespace CaptureHpc.Server

open Java

/-- The client is DISCONNECTED. -/
def Dead (c : ClientRef) (s : ServerState) : Prop := (s.client c).clientState = .disconnected

abbrev DeadStays (c : ClientRef) : ServerState → ServerState → Prop := Exec.Stays (Dead c)

section Stays
variable {c d : ClientRef} {g : GroupRef} {s s' : ServerState}

theorem Dead.of_client (h : Dead c s) (hclient : s'.client c = s.client c) : Dead c s' := by
  rw [Dead, hclient]
  exact h

theorem GroupsOnly.dead (h : GroupsOnly s s') (hdead : Dead c s) : Dead c s' := by
  refine hdead.of_client ?_
  rw [h]

instance {α : Type} {x : Action α} [h : x.Within GroupsOnly] : x.Within (DeadStays c) :=
  h.mono fun _ _ hgroups hdead => hgroups.dead hdead

theorem Edits.dead (h : Edits d g s s') (hdead : Dead c s) : Dead c s' := by
  by_cases hc : c = d
  · subst hc
    rw [Dead, h.client]
    exact hdead
  · exact hdead.of_client (h.clients c hc)

/-- A client changes, and does not come back. -/
theorem Dead.setClient (hdead : Dead c s) {f : Client → Client}
    (hf : c = d → (f (s.client d)).clientState = .disconnected) : Dead c (s.setClient d f) := by
  by_cases hc : c = d
  · subst hc
    rw [Dead, ServerState.client_setClient]
    exact hf rfl
  · refine hdead.of_client ?_
    exact Function.update_of_ne hc ..

theorem updateClient_dead {f : Client → Client}
    (hf : ∀ x, x.clientState = .disconnected → (f x).clientState = .disconnected) :
    (updateClient d f).Within (DeadStays c) := by
  refine ⟨fun s hdead => ?_⟩
  refine hdead.setClient (f := f) fun hc => hf _ ?_
  subst hc
  exact hdead

instance (v : VmRef) (f : VirtualMachine → VirtualMachine) :
    (updateVm v f).Within (DeadStays c) := ⟨fun _ hdead => hdead⟩

instance : (Client.drop d).Within (DeadStays c) := by
  have hgone := updateClient_dead (c := c) (d := d)
    (f := fun x => { x with clientState := .disconnected }) fun _ _ => rfl
  have hclosed := updateClient_dead (c := c) (d := d)
    (f := fun x => { x with socketClosed := true }) fun _ h => h
  unfold Client.drop Client.loseMachine
  refine Exec.Within.bind inferInstance fun client => ?_
  refine Exec.Within.ite (fun _ => ?_) fun _ => inferInstance
  refine Exec.Within.bind inferInstance fun _ => Exec.Within.bind inferInstance fun client => ?_
  cases client.virtualMachine <;> infer_instance

instance : (Client.send d).Within (DeadStays c) := by
  refine ⟨fun s hdead => ?_⟩
  rcases Client.send_cases d s with ⟨success, he⟩ | ⟨-, -, he⟩
  · rw [he]
    exact hdead
  · rw [he]
    exact Exec.Within.stays hdead

instance (v : VmRef) : (VirtualMachine.setState v .waitingToBeReverted).Within (DeadStays c) := by
  rw [VirtualMachine.setState_waitingToBeReverted]
  refine Exec.Within.bind inferInstance fun vm => ?_
  refine Exec.Within.ite (fun _ => ?_) fun _ => inferInstance
  refine Exec.Within.bind inferInstance fun _ => Exec.Within.bind inferInstance fun vm => ?_
  cases vm.client <;> infer_instance

instance (usable : Bool) : (Client.setSocket d usable).Within (DeadStays c) := by
  have hopen := updateClient_dead (c := c) (d := d)
    (f := fun x => { x with socketClosed := false, linkUp := true }) fun _ h => h
  have hgone := updateClient_dead (c := c) (d := d)
    (f := fun x => { x with clientState := .disconnected }) fun _ _ => rfl
  unfold Client.setSocket
  refine Exec.Within.ite (fun _ => hopen) fun _ => Exec.Within.bind inferInstance fun client => ?_
  cases client.visitingUrlGroup <;> infer_instance

theorem Dead.lost (hdead : Dead c s) : Dead c (Client.lost d s) := by
  have hset : ∀ {s : ServerState}, Dead c s → Dead c (s.setClient d fun x =>
      { x with clientState := .disconnected, socketClosed := true }) :=
    fun h => h.setClient fun _ => rfl
  rw [Client.lost]
  cases (s.client d).virtualMachine with
  | none => exact hset hdead
  | some v =>
      have hvm : Dead c (s.setVm v fun _ => { client := none, vmState := .waitingToBeReverted }) :=
        hdead
      exact hset hvm

theorem Dead.left {v : VmRef} {newState : ClientState} (hdead : Dead c s)
    (hnew : newState = .disconnected ∨ c ≠ d) : Dead c (Client.left d v newState s) := by
  have hidle : Dead c (s.setClient d fun x => { x with visitingUrlGroup := none }) := by
    refine hdead.setClient fun hc => ?_
    subst hc
    exact hdead
  rw [Client.left]
  split
  · exact hidle
  · next hstate =>
      split
      · next hwaiting =>
          subst hwaiting
          have hne : c ≠ d := hnew.resolve_left ClientState.noConfusion
          exact hidle.setClient (f := fun x => { x with clientState := .waiting })
            fun hc => absurd hc hne
      · exact hidle.lost

theorem Outcome.dead {P : UrlGroupState → ClientState → ServerState → Prop}
    {r : Except JavaException Unit × ServerState} (h : Outcome d g P s r) (hdead : Dead c s)
    (hP : ∀ groupState newState s₁, P groupState newState s₁ → newState = .disconnected ∨ c ≠ d) :
    Dead c r.2 := by
  cases h with
  | thrown hedits => exact hedits.dead hdead
  | torn _ hedits hrun => exact (Exec.Within.of_run (R := GroupsOnly) hrun).dead (hedits.dead hdead)
  | left hend hedits _ hrun =>
      exact ((Exec.Within.of_run (R := GroupsOnly) hrun).dead (hedits.dead hdead)).left
        (hP _ _ _ hend)

instance (element : Element) (origin : Nat) :
    (Client.parseEvent d element origin).Within (DeadStays c) := by
  refine ⟨fun s hdead => ?_⟩
  rcases parseEvent_cases (c := d) element origin s with ⟨r, hrun⟩ | ⟨g, -, -, hedits | hout⟩
  · rw [hrun]
    exact hdead
  · exact hedits.dead hdead
  · exact hout.dead hdead fun _ _ _ hend => .inl hend.2

/-- A visit event brings its client back only if it has a group. -/
theorem dead_parseVisitEvent {element : Element} (hdead : Dead c s)
    (h : Dead d s → (s.client d).visitingUrlGroup = none) :
    Dead c ((Client.parseVisitEvent d element).run s).2 := by
  have htold : Dead c (told d element s) := (told_edits 0 element s).dead hdead
  have hvisited := parseVisitEvent_visited (c := d) element s
  revert hvisited
  generalize (Client.parseVisitEvent d element).run s = r
  intro hvisited
  have hne : ∀ {g}, (s.client d).visitingUrlGroup = some g → c ≠ d := by
    rintro g hg rfl
    rw [h hdead] at hg
    cases hg
  cases hvisited with
  | ignored => exact htold
  | start _ hg hbegun =>
      cases hbegun with
      | thrown hedits => exact hedits.dead htold
      | torn hedits _ hrun =>
          exact (Exec.Within.of_run (R := GroupsOnly) hrun).dead (hedits.dead htold)
      | visiting hedits _ hrun =>
          exact Dead.setClient (f := fun x => { x with clientState := .visiting })
            ((Exec.Within.of_run (R := GroupsOnly) hrun).dead (hedits.dead htold))
            fun hc => absurd hc (hne hg)
  | finish _ hg hout => exact hout.dead htold fun _ _ _ _ => .inr (hne hg)
  | error _ hg hout => exact hout.dead htold fun _ _ _ _ => .inr (hne hg)

end Stays

/-! ## Every step -/

/-- A client that was dropped still has a group. -/
def Lingers (c : ClientRef) (s : ServerState) : Prop :=
  Dead c s ∧ (s.client c).visitingUrlGroup ≠ none

/-- A visit event of a type that `parseVisitEvent` does not handle. -/
def Unhandled (element : Element) : Prop :=
  ∃ type ∈ element.get "type", type ≠ "start" ∧ type ≠ "finish" ∧ type ≠ "error"

/-- The event thread does not handle a visit event, or blame the connection, for a client that was
dropped and has a group, and does not welcome one that was dropped. -/
def HandlesInTime (client : Option ClientRef) (s : ServerState) : EventStep → Prop
  | .read (.visitEvent element) => Unhandled element ∨ ∀ c ∈ client, ¬ Lingers c s
  | .read .broken => ∀ c ∈ client, ¬ Lingers c s
  | .connected => ∀ c ∈ client, ¬ Dead c s
  | _ => True

/-- **The condition.** -/
def InTime (s : System) : SystemAction → Prop
  | .handle k => HandlesInTime (s.controller k).client s.server (s.controller k).step
  | .lineLost k => ∀ c ∈ (s.controller k).client, ¬ Lingers c s.server
  | .retrieve c => s.retriever c = .await → ¬ Dead c s.server
  | _ => True

/-- The event thread of a client acts.  A reconnect event is about the client of its machine. -/
def EventThreadActs (c : ClientRef) (s : System) : SystemAction → Prop
  | .handle k => (s.controller k).client = some c ∧
      ∀ v usable, (s.controller k).step ≠ .read (.reconnect v usable)
  | .lineLost k => (s.controller k).client = some c
  | _ => False

/-- **What is wanted of a step**, for a client that is DISCONNECTED.  Its retriever may still fail
the group that it took and could not send. -/
structure Inert (c : ClientRef) (s : System) (a : SystemAction) (s' : System) : Prop where
  stays : Dead c s'.server
  events : EventThreadActs c s a → s'.server.group = s.server.group
  retriever : a = .retrieve c → s.retriever c ≠ .notSent →
    ∀ g < s.server.nextGroup, s'.server.group g = s.server.group g

section Steps
variable {c d : ClientRef} {s : ServerState}

theorem parseVisitEvent_unhandled {element : Element} (h : Unhandled element) :
    (Client.parseVisitEvent c element).run s = (.ok (), told c element s) := by
  obtain ⟨type, htype, hstart, hfinish, herror⟩ := h
  rw [run_parseVisitEvent, Option.mem_def.mp htype]
  simp [hstart, hfinish, herror]

theorem dead_connect {v : VmRef} {linkUp : Bool} (hne : c ≠ d) (hdead : Dead c s) :
    Dead c ((Client.connect d v).run (s.setClient d fun _ => { linkUp })).2 := by
  have hnew : Dead c (s.setClient d fun _ => { linkUp }) := hdead.setClient fun hc => absurd hc hne
  have hconnected : Dead c (Client.connected d v (s.setClient d fun _ => { linkUp })) :=
    Dead.setClient (f := fun x => { x with virtualMachine := some v, clientState := .connected })
      hnew fun hc => absurd hc hne
  rw [Client.run_connect (ServerState.client_setClient ..)]
  split
  · exact hconnected
  · exact hconnected.lost

theorem dead_welcome (h : ¬ Dead d s) (hdead : Dead c s) :
    Dead c ((Client.setClientState d .waiting).run s).2 := by
  have hne : c = d → False := by
    rintro rfl
    exact h hdead
  have hwaiting : Dead c (s.setClient d fun x => { x with clientState := .waiting }) :=
    hdead.setClient fun hc => (hne hc).elim
  rcases Client.welcome_cases d s with he | he | ⟨v, he⟩
  · rw [he]
    exact hdead
  · rw [he]
    exact hwaiting
  · rw [he]
    exact hwaiting

theorem dead_retrieve {step : RetrieverStep} (h : step = .await → ¬ Dead d s) (hdead : Dead c s) :
    Dead c ((Client.retrieve d step).run s).2 := by
  have htake : UrlGroupsController.takeUrlGroup.Within (DeadStays c) :=
    UrlGroupsController.takeUrlGroup_within (fun _ _ h => h) fun _ _ h => h
  have hstore := fun g => updateClient_dead (c := c) (d := d)
    (f := fun x => { x with visitingUrlGroup := some g }) fun _ h => h
  cases step with
  | await =>
      refine hdead.setClient (f := fun x => { x with clientState := .awaitingVisiting }) ?_
      rintro rfl
      exact absurd hdead (h rfl)
  | _ =>
      unfold Client.retrieve Client.storeVisitingUrlGroup Client.sendVisitingUrlGroup
        Client.visitNotSent
      exact Exec.Within.stays hdead

end Steps

theorem dead_does {s : System} {a : SystemAction} {server : ServerState} {c : ClientRef}
    (hc : c < s.nextClient) (hok : InTime s a) (h : Does s a server) (hdead : Dead c s.server) :
    Dead c server := by
  induction h with
  | nothing => exact hdead
  | @enqueue position =>
      have hadd : (UrlsController.addUrl s.nextUrl position).Within (DeadStays c) :=
        UrlsController.addUrl_within (fun _ _ h => h) s.nextUrl position
      exact hadd.post s.server hdead
  | connect _ => exact dead_connect (Nat.ne_of_lt hc) hdead
  | welcome hstep hd =>
      simp only [InTime, hstep, HandlesInTime] at hok
      exact dead_welcome (hok _ hd) hdead
  | reconnect _ _ => exact Exec.Within.stays hdead
  | systemEvent _ _ => exact Exec.Within.stays hdead
  | visitEvent hstep hd =>
      simp only [InTime, hstep, HandlesInTime] at hok
      rcases hok with hunhandled | hok
      · rw [parseVisitEvent_unhandled hunhandled]
        exact (told_edits 0 _ s.server).dead hdead
      · exact dead_parseVisitEvent hdead fun hdead' =>
          Decidable.not_not.mp fun hg => hok _ hd ⟨hdead', hg⟩
  | retrieve => exact dead_retrieve hok hdead
  | check => exact Exec.Within.stays hdead
  | revert _ => exact Exec.Within.stays hdead
  | work hne =>
      rw [VirtualMachine.run_setState hne]
      exact hdead
  | ping => exact Exec.Within.stays hdead
  | cutLink => exact hdead.setClient fun hc => by subst hc; exact hdead
  | blamed _ ih => exact Exec.Within.stays (ih hok)

/-! ## The groups -/

section Groups
variable {c : ClientRef} {k : ConnectionRef} {s s' : System}

/-- An event thread changes no group if what it does changes none, and its client, if it is to be
blamed, has none. -/
theorem group_eventStep {x : Action Unit} {next : EventStep} (h : s.eventStep k x next = some s')
    (hgroup : (x.run s.server).2.group = s.server.group)
    (hquiet : (x.run s.server).1 = .ok () ∨ ∀ c, (s.controller k).client = some c →
      ((x.run s.server).2.client c).visitingUrlGroup = none) :
    s'.server.group = s.server.group := by
  obtain ⟨⟨r, server⟩, hattempt, rfl⟩ := Option.map_eq_some_iff.mp h
  obtain rfl := of_attempt hattempt
  cases r with
  | some _ => exact hgroup
  | none =>
      have hnone : ∀ c, (s.controller k).client = some c →
          ((x.run s.server).2.client c).visitingUrlGroup = none := by
        refine hquiet.resolve_left fun hok => ?_
        have hrun : x.run s.server = (.ok (), (x.run s.server).2) := Prod.ext hok rfl
        rw [attempt, hrun] at hattempt
        cases hattempt
      cases hclient : (s.controller k).client with
      | none => simpa [System.setController, hclient] using hgroup
      | some c =>
          have hblame : (Client.blameConnection c).run (x.run s.server).2 =
              (.ok (), (x.run s.server).2) := by
            simp only [Client.blameConnection, Exec.run_gets_bind, hnone c hclient]
            split <;> rfl
          simpa [System.setController, hclient, hblame] using hgroup

theorem not_lingers (hdead : Dead c s.server) (h : ¬ Lingers c s.server) :
    (s.server.client c).visitingUrlGroup = none :=
  Decidable.not_not.mp fun hg => h ⟨hdead, hg⟩

/-- A client without a group is only told the algorithm. -/
theorem parseVisitEvent_idle (element : Element) {s : ServerState}
    (hg : (s.client c).visitingUrlGroup = none) :
    ((Client.parseVisitEvent c element).run s).2 = told c element s := by
  have hvisited := parseVisitEvent_visited (c := c) element s
  revert hvisited
  generalize (Client.parseVisitEvent c element).run s = r
  intro hvisited
  cases hvisited with
  | ignored => rfl
  | start _ hsome _ => rw [hg] at hsome; cases hsome
  | finish _ hsome _ => rw [hg] at hsome; cases hsome
  | error _ hsome _ => rw [hg] at hsome; cases hsome

theorem group_handle {line : Line} (hclient : (s.controller k).client = some c)
    (hdead : Dead c s.server) (hok : HandlesInTime (s.controller k).client s.server (.read line))
    (hline : ∀ v usable, line ≠ .reconnect v usable) (h : s.handle k line = some s') :
    s'.server.group = s.server.group := by
  cases line with
  | connect v linkUp =>
      cases v with
      | none => exact group_eventStep h rfl (.inl rfl)
      | some v =>
          have hrun := Client.run_connect (v := v)
            (ServerState.client_setClient s.nextClient (fun _ => { linkUp }) s.server)
          obtain ⟨client, vm, he⟩ := Client.connect_rest s.nextClient v linkUp s.server
          refine (group_eventStep h ?_ (.inl ?_)).trans rfl
          · rw [he]
            rfl
          · rw [hrun]
  | reconnect v usable => exact absurd rfl (hline v usable)
  | systemEvent element origin =>
      have hrun : (Client.parseEvent c element origin).run s.server = (.ok (), s.server) := by
        have hstate : (s.server.client c).clientState = .disconnected := hdead
        simp [Client.parseEvent, hstate]
      simp only [System.handle, hclient] at h
      exact group_eventStep h (by rw [hrun]) (.inl (by rw [hrun]))
  | visitEvent element =>
      simp only [System.handle, hclient] at h
      rcases hok with hunhandled | hok
      · have hrun := parseVisitEvent_unhandled (c := c) (s := s.server) hunhandled
        exact group_eventStep h (by rw [hrun]; rfl) (.inl (by rw [hrun]))
      · have hg := not_lingers hdead (hok c hclient)
        have hrun := parseVisitEvent_idle element hg
        refine group_eventStep h ?_ (.inr ?_)
        · rw [hrun]
          rfl
        · intro c' hc'
          obtain rfl := Option.some.inj (hclient.symm.trans hc')
          rw [hrun, told, ServerState.client_setClient]
          exact hg
  | other => exact group_eventStep h rfl (.inl rfl)
  | broken =>
      refine group_eventStep h rfl (.inr fun c' hc' => ?_)
      obtain rfl := Option.some.inj (hclient.symm.trans hc')
      exact not_lingers hdead (hok c hclient)
  | notWellFormed => exact group_eventStep h rfl (.inl rfl)

theorem group_events {a : SystemAction} (hdead : Dead c s.server) (hok : InTime s a)
    (hacts : EventThreadActs c s a) (h : System.next s a = some s') :
    s'.server.group = s.server.group := by
  cases a with
  | handle k =>
      obtain ⟨hclient, hline⟩ := hacts
      simp only [System.next] at h
      split at h
      · next line hstep =>
          rw [InTime, hstep] at hok
          refine group_handle hclient hdead hok (fun v usable hl => hline v usable ?_) h
          rw [hstep, hl]
      · next hstep =>
          rw [InTime, hstep] at hok
          exact absurd hdead (hok c hclient)
      · cases h
  | lineLost k =>
      have hclient : (s.controller k).client = some c := hacts
      simp only [System.next] at h
      split at h
      · refine group_eventStep h rfl (.inr fun c' hc' => ?_)
        obtain rfl := Option.some.inj (hclient.symm.trans hc')
        exact not_lingers hdead (hok c hclient)
      · cases h
  | _ => exact hacts.elim

instance : UrlGroupsController.takeUrlGroup.Within OldKept :=
  UrlGroupsController.takeUrlGroup_within (fun _ _ => ⟨Nat.le_refl _, fun _ _ => rfl⟩)
    fun _ _ => ⟨Nat.le_refl _, fun _ _ => rfl⟩

/-- The retriever of a client that was dropped can send nothing. -/
theorem run_send_dead {s : ServerState} (hdead : Dead c s) :
    (Client.send c).run s = (.ok false, s) := by
  have hstate : (s.client c).clientState = .disconnected := hdead
  rw [Client.send, Client.sendIn]
  simp only [Exec.run_gets_bind]
  rw [if_neg (not_not_intro hstate)]
  rfl

theorem oldKept_retrieve {step : RetrieverStep} {s : ServerState} (hdead : Dead c s)
    (hstep : step ≠ .notSent) : OldKept s ((Client.retrieve c step).run s).2 := by
  have hsame : ∀ {s' : ServerState}, s' = s → OldKept s s' := by
    rintro _ rfl
    exact Std.Refl.refl _
  cases step with
  | notSent => exact absurd rfl hstep
  | loop =>
      simp only [Client.retrieve, Exec.run_gets_bind]
      split <;> exact hsame rfl
  | test =>
      simp only [Client.retrieve, Exec.run_gets_bind]
      split <;> exact hsame rfl
  | take =>
      have htake : (Client.retrieve c .take).Within OldKept := by
        unfold Client.retrieve
        infer_instance
      exact htake.post s
  | store g => exact ⟨Nat.le_refl _, fun _ _ => rfl⟩
  | send =>
      refine hsame ?_
      simp only [Client.retrieve, Client.sendVisitingUrlGroup, bind_assoc, Exec.run_gets_bind]
      cases (s.client c).visitingUrlGroup with
      | none => rfl
      | some g =>
          simp only [Exec.orThrow_some, Exec.pure_bind, Exec.run_bind_ok (run_send_dead hdead),
            Exec.run_gets_bind]
          cases (s.client c).virtualMachine <;> rfl
  | await => exact ⟨Nat.le_refl _, fun _ _ => rfl⟩
  | wait => exact hsame rfl
  | stopped => exact hsame rfl

end Groups

/-! ## Clients are created, and stay -/

section Created
variable {s s' : System} {k : ConnectionRef}

theorem nextClient_perform {x : Action Unit} (h : s.perform x = some s') :
    s'.nextClient = s.nextClient := by
  obtain ⟨⟨r, server⟩, -, rfl⟩ := Option.map_eq_some_iff.mp h
  rfl

theorem nextClient_eventStep {x : Action Unit} {next : EventStep}
    (h : s.eventStep k x next = some s') : s'.nextClient = s.nextClient := by
  obtain ⟨⟨r, server⟩, -, rfl⟩ := Option.map_eq_some_iff.mp h
  cases r <;> rfl

theorem nextClient_handle {line : Line} (h : s.handle k line = some s') :
    s.nextClient ≤ s'.nextClient := by
  cases line with
  | connect v linkUp =>
      cases v with
      | none => exact (nextClient_eventStep h).ge
      | some v =>
          have hnext := nextClient_eventStep h
          rw [hnext]
          exact Nat.le_succ _
  | reconnect v usable =>
      cases v with
      | none => exact (nextClient_eventStep h).ge
      | some v =>
          simp only [System.handle, System.reconnect] at h
          split at h
          · split at h
            · cases h
            · exact (nextClient_eventStep h).ge
          · exact (nextClient_eventStep h).ge
  | systemEvent element origin =>
      simp only [System.handle] at h
      split at h <;> exact (nextClient_eventStep h).ge
  | visitEvent element =>
      simp only [System.handle] at h
      split at h <;> exact (nextClient_eventStep h).ge
  | other => exact (nextClient_eventStep h).ge
  | broken => exact (nextClient_eventStep h).ge
  | notWellFormed => exact (nextClient_eventStep h).ge

theorem nextClient_le {a : SystemAction} (h : System.next s a = some s') :
    s.nextClient ≤ s'.nextClient := by
  cases a with
  | handle k =>
      simp only [System.next] at h
      split at h
      · exact nextClient_handle h
      · split at h
        · exact (nextClient_eventStep h).ge
        · cases h
      · cases h
  | enqueue position => exact (nextClient_perform h).ge
  | receive k line =>
      simp only [System.next] at h
      split at h
      · split at h
        · obtain rfl := Option.some.inj h
          exact Nat.le_refl _
        · cases h
      · cases h
  | lineLost k =>
      simp only [System.next] at h
      split at h
      · exact (nextClient_eventStep h).ge
      · cases h
  | endOfStream k =>
      simp only [System.next] at h
      split at h
      · obtain rfl := Option.some.inj h
        exact Nat.le_refl _
      · cases h
  | retrieve c =>
      obtain ⟨⟨step, server⟩, -, rfl⟩ := Option.map_eq_some_iff.mp h
      exact Nat.le_refl _
  | blame v inactive =>
      simp only [System.next] at h
      split at h
      · obtain ⟨⟨r, server⟩, -, rfl⟩ := Option.map_eq_some_iff.mp h
        exact Nat.le_refl _
      · cases h
  | revert =>
      simp only [System.next] at h
      split at h
      · exact (nextClient_perform h).ge
      · cases h
  | work v newState =>
      simp only [System.next] at h
      split at h
      · cases h
      · exact (nextClient_perform h).ge
  | ping c =>
      simp only [System.next] at h
      split at h
      · obtain ⟨⟨r, server⟩, -, rfl⟩ := Option.map_eq_some_iff.mp h
        exact Nat.le_refl _
      · cases h
  | cutLink c =>
      obtain rfl := Option.some.inj h
      exact Nat.le_refl _

end Created

/-! ## Every run -/

theorem oldKept_next {s s' : System} {c : ClientRef} (hdead : Dead c s.server)
    (hstep : s.retriever c ≠ .notSent) (h : System.next s (.retrieve c) = some s') :
    OldKept s.server s'.server := by
  obtain ⟨⟨step, server⟩, hretrieve, rfl⟩ := Option.map_eq_some_iff.mp h
  rw [Client.retrieveStep] at hretrieve
  split at hretrieve
  · cases hretrieve
  · obtain ⟨⟨r, server₁⟩, hattempt, heq⟩ := Option.map_eq_some_iff.mp hretrieve
    obtain ⟨-, rfl⟩ := Prod.mk.inj heq
    rw [of_attempt hattempt]
    exact oldKept_retrieve hdead hstep

theorem inert_next {s s' : System} {a : SystemAction} {c : ClientRef} (hc : c < s.nextClient)
    (hdead : Dead c s.server) (hok : InTime s a) (h : System.next s a = some s') :
    Inert c s a s' where
  stays := dead_does hc hok (System.does_next h) hdead
  events hacts := group_events hdead hok hacts h
  retriever ha hstep := by
    subst ha
    exact (oldKept_next hdead hstep h).group

/-- **A client that is DISCONNECTED is inert** in a run whose steps come in time: it stays so, and
whatever its event thread still does, and however its retriever goes on, the groups stay. -/
theorem disconnected_inert {s s' : System} {c : ClientRef} (hc : c < s.nextClient)
    (hdead : Dead c s.server) (h : systemMachine.Steps InTime s s') :
    Dead c s'.server ∧ ∀ a s'', InTime s' a → systemMachine.next s' a = some s'' →
      Inert c s' a s'' := by
  have hkept : c < s'.nextClient ∧ Dead c s'.server := by
    induction h with
    | refl => exact ⟨hc, hdead⟩
    | step _ hok hnext ih =>
        have hinert := inert_next ih.1 ih.2 hok hnext
        exact ⟨Nat.lt_of_lt_of_le ih.1 (nextClient_le hnext), hinert.stays⟩
  exact ⟨hkept.2, fun a s'' hok hnext => inert_next hkept.1 hkept.2 hok hnext⟩

/-! ## Two runs -/

/-- Client 0 is dropped during its visit, before its last line is handled, and client 1 is sent
the same group. -/
def lateLine (line : Line) : List SystemAction :=
  sendUrl ++ sends 0 (benignMessage "start" "0") ++
    [.receive 0 line, .blame 0 true, .revert, .receive 1 (.connect (some 0) true), .handle 1,
      .handle 1] ++ List.replicate 6 (.retrieve 1)

/-- A file that was written during the visit. -/
def lateEvent : Line :=
  .systemEvent { name := "system-event", attributes := [("type", "file")] } 0

theorem inert_systemEvent :
    ∃ s s', systemMachine.run (lateLine lateEvent) oneUrlServer = some s ∧
      (s.server.client 1).visitingUrlGroup = some 0 ∧
        systemMachine.next s (.handle 0) = some s' ∧ Inert 0 s (.handle 0) s' := by
  obtain ⟨s, s', hrun, hcreated, hdead, hg, hstep, hnext⟩ : ∃ s s',
      systemMachine.run (lateLine lateEvent) oneUrlServer = some s ∧ s.nextClient = 2 ∧
        Dead 0 s.server ∧ (s.server.client 1).visitingUrlGroup = some 0 ∧
          (s.controller 0).step = .read lateEvent ∧
            systemMachine.next s (.handle 0) = some s' := ⟨_, _, rfl, rfl, rfl, rfl, rfl, rfl⟩
  have hc : 0 < s.nextClient := by rw [hcreated]; decide
  have hok : InTime s (.handle 0) := by
    rw [InTime, hstep]
    exact trivial
  exact ⟨s, s', hrun, hg, hnext, (disconnected_inert hc hdead .refl).2 (.handle 0) s' hok hnext⟩

/-- A finish message that comes too late brings its client back. -/
theorem disconnected_returns :
    ¬ ∀ s s' c, systemMachine.Reachable Machine.AnyStep s → c < s.nextClient → Dead c s.server →
      systemMachine.Steps Machine.AnyStep s s' → Dead c s'.server ∧
        ∀ a s'', systemMachine.next s' a = some s'' → Inert c s' a s'' := by
  intro h
  obtain ⟨s, s', hrun, hcreated, hdead, hnext, hstate⟩ : ∃ s s',
      systemMachine.run (lateLine (.visitEvent (benignMessage "finish" "0"))) oneUrlServer =
        some s ∧ s.nextClient = 2 ∧ Dead 0 s.server ∧
          systemMachine.next s (.handle 0) = some s' ∧
            (s'.server.client 0).clientState = .waiting := ⟨_, _, rfl, rfl, rfl, rfl, rfl⟩
  have hreach := Machine.reachable_of_run oneUrlServer_init hrun
  have hinert := (h s s 0 hreach (by rw [hcreated]; decide) hdead .refl).2 (.handle 0) s' hnext
  exact absurd (hstate.symm.trans hinert.stays) nofun

end CaptureHpc.Server
