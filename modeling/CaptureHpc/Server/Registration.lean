/-
# `Server.Registration` — a machine and its client

A client knows its machine and a machine its client.  The state checker and a
revert get at the group that is being visited through the machine, so a live
client must be the one its machine knows.

The link breaks in two ways (`registered_safe`).  A client process that starts
again connects while the client it had before is still live; nobody drops the
old one.  And a client that was dropped comes back to life: by a visit event
that was read before, by the second half of the connect event, or by the
retriever's late assignment.
-/
import CaptureHpc.Server.Handling
import CaptureHpc.Server.System

namespace CaptureHpc.Server

open Java

/-- A client that has a machine and is not DISCONNECTED. -/
def Live (s : ServerState) (c : ClientRef) (v : VmRef) : Prop :=
  (s.client c).virtualMachine = some v ∧ (s.client c).clientState ≠ .disconnected

/-- Every live client is the one its machine knows. -/
def Registered (s : ServerState) : Prop := ∀ c v, Live s c v → (s.vm v).client = some c

abbrev RegisteredStays : ServerState → ServerState → Prop := Exec.Stays Registered

section Keep
variable {c : ClientRef} {g : GroupRef} {v : VmRef} {s s' : ServerState}

/-- No machine lost its client, and no client came to life. -/
theorem Registered.mono (hs : Registered s) (hlive : ∀ c v, Live s' c v → Live s c v)
    (hvm : ∀ v, (s'.vm v).client = (s.vm v).client) : Registered s' := by
  intro c v h
  rw [hvm]
  exact hs c v (hlive c v h)

theorem GroupsOnly.registered (h : GroupsOnly s s') (hs : Registered s) : Registered s' := by
  rw [GroupsOnly] at h
  rw [h]
  exact hs

instance {α : Type} {x : Action α} [h : x.Within GroupsOnly] : x.Within RegisteredStays :=
  h.mono fun _ _ hgroups hs => hgroups.registered hs

theorem Edits.registered (h : Edits c g s s') (hs : Registered s) : Registered s' := by
  refine hs.mono (fun c' v hlive => ?_) fun v => by rw [h.rest]
  by_cases hc : c' = c
  · subst hc
    rw [Live, h.client] at hlive
    exact hlive
  · rwa [Live, h.clients c' hc] at hlive

/-- One client changes, and does not come to life. -/
theorem Registered.setClient (hs : Registered s) {f : Client → Client}
    (hvm : (f (s.client c)).virtualMachine = (s.client c).virtualMachine)
    (hstate : (f (s.client c)).clientState ≠ .disconnected → (s.client c).virtualMachine ≠ none →
      (s.client c).clientState ≠ .disconnected) : Registered (s.setClient c f) := by
  refine hs.mono (fun c' v hlive => ?_) fun _ => rfl
  by_cases hc : c' = c
  · subst hc
    rw [Live, ServerState.client_setClient] at hlive
    rw [hvm] at hlive
    exact ⟨hlive.1, hstate hlive.2 (by rw [hlive.1]; nofun)⟩
  · have hother : (s.setClient c f).client c' = s.client c' := Function.update_of_ne hc ..
    rwa [Live, hother] at hlive

theorem Registered.setVm (hs : Registered s) {f : VirtualMachine → VirtualMachine}
    (hf : (f (s.vm v)).client = (s.vm v).client) : Registered (s.setVm v f) := by
  refine hs.mono (fun _ _ h => h) fun w => ?_
  show (Function.update s.vm v (f (s.vm v)) w).client = _
  by_cases hw : w = v
  · subst hw
    rw [Function.update_self, hf]
  · rw [Function.update_of_ne hw]

/-- A machine may forget a client that is not live. -/
theorem Registered.forget (hs : Registered s) {x : VirtualMachine}
    (hdead : ∀ c, ¬ Live s c v) : Registered (s.setVm v fun _ => x) := by
  intro c w hlive
  have hne : w ≠ v := by
    rintro rfl
    exact hdead c hlive
  show (Function.update s.vm v x w).client = _
  rw [Function.update_of_ne hne]
  exact hs c w hlive

/-- When the live client of a machine goes, no live client is left on it. -/
theorem Registered.alone (hs : Registered s) (hv : Live s c v) :
    ∀ c', ¬ Live (s.setClient c fun x => { x with clientState := .disconnected }) c' v := by
  intro c' hlive
  by_cases hc : c' = c
  · subst hc
    rw [Live, ServerState.client_setClient] at hlive
    exact hlive.2 rfl
  · have hother : (s.setClient c fun x => { x with clientState := .disconnected }).client c' =
        s.client c' := Function.update_of_ne hc ..
    rw [Live, hother] at hlive
    have hsame := (hs c v hv).symm.trans (hs c' v hlive)
    exact hc (Option.some.inj hsame).symm

end Keep

/-! ## Clients that go -/

section Go
variable {c : ClientRef} {g : GroupRef} {s : ServerState}

theorem registered_failing (hs : Registered s) :
    Registered ((do
      Client.failVisit (← readClient c).visitingUrlGroup
      updateClient c fun x => { x with socketClosed := true }
      Client.failVisitAgain (← readClient c).visitingUrlGroup : Action Unit).run s).2 := by
  rw [Exec.run_gets_bind]
  refine Exec.run_bind_mem (Exec.Within.stays hs) fun _ s₁ he => ?_
  have hs₁ : Registered s₁ := (Exec.Within.of_run (R := GroupsOnly) he).registered hs
  simp only [Exec.run_modify_bind, Exec.run_gets_bind]
  exact Exec.Within.stays (hs₁.setClient rfl fun h _ => h)

theorem registered_drop (hs : Registered s) : Registered ((Client.drop c).run s).2 := by
  rw [Client.drop]
  simp only [Exec.run_gets_bind]
  split
  · next hstate =>
      have hdead : Registered (s.setClient c fun x => { x with clientState := .disconnected }) :=
        hs.setClient rfl fun h _ => absurd rfl h
      have hvm : ((s.setClient c fun x => { x with clientState := .disconnected }).client
          c).virtualMachine = (s.client c).virtualMachine := by rw [ServerState.client_setClient]
      simp only [Exec.run_modify_bind, Exec.run_gets_bind, hvm]
      cases hv : (s.client c).virtualMachine with
      | none => exact registered_failing hdead
      | some v => exact registered_failing (hdead.forget (hs.alone ⟨hv, hstate⟩))
  · exact hs

theorem registered_left {v : VmRef} {newState : ClientState} (hs : Registered s)
    (hnew : newState = .disconnected ∨
      (newState = .waiting ∧ (s.client c).clientState ≠ .disconnected)) :
    Registered (Client.left c v newState s) := by
  have hidle : Registered (s.setClient c fun x => { x with visitingUrlGroup := none }) :=
    hs.setClient rfl fun h _ => h
  rw [Client.left]
  split
  · exact hidle
  · next hstate =>
      split
      · next hwaiting =>
          subst hwaiting
          refine Registered.setVm (hidle.setClient rfl fun _ _ => ?_) rfl
          rw [ServerState.client_setClient]
          exact (hnew.resolve_left ClientState.noConfusion).2
      · next hwaiting =>
          obtain rfl := hnew.resolve_right fun h => hwaiting h.1
          have hdrop := registered_drop (c := c) hidle
          have hclient := ServerState.client_setClient c
            (fun x => { x with visitingUrlGroup := none }) s
          rwa [Client.run_drop_idle (by rw [hclient]) (by rw [hclient]; exact hstate)] at hdrop

/-- A message that ends a visit leaves every live client registered, if it does not bring a client
back. -/
theorem Outcome.registered {P : UrlGroupState → ClientState → ServerState → Prop}
    {r : Except JavaException Unit × ServerState} (h : Outcome c g P s r) (hs : Registered s)
    (hP : ∀ groupState newState s₁, P groupState newState s₁ → newState = .disconnected ∨
      (newState = .waiting ∧ (s.client c).clientState ≠ .disconnected)) :
    Registered r.2 := by
  cases h with
  | thrown hedits => exact hedits.registered hs
  | torn _ hedits hrun => exact (Exec.Within.of_run (R := GroupsOnly) hrun).registered (hedits.registered hs)
  | @left v s₁ s₂ groupState newState hend hedits _ hrun =>
      have hgroups : GroupsOnly s₁ s₂ := Exec.Within.of_run hrun
      have hclient : (s₂.client c).clientState = (s.client c).clientState := by
        rw [hgroups]
        show (s₁.client c).clientState = _
        rw [hedits.client]
      refine registered_left (hgroups.registered (hedits.registered hs)) ?_
      rw [hclient]
      exact hP groupState newState s₁ hend

theorem registered_send (hs : Registered s) : Registered ((Client.send c).run s).2 := by
  rcases Client.send_cases c s with ⟨success, he⟩ | ⟨-, -, he⟩
  · rw [he]
    exact hs
  · rw [he]
    exact registered_drop hs

theorem registered_revert {v : VmRef} (hs : Registered s) :
    Registered ((VirtualMachine.setState v .waitingToBeReverted).run s).2 := by
  rw [VirtualMachine.setState_waitingToBeReverted]
  simp only [Exec.run_gets_bind]
  split
  · have hmarked : Registered (s.setVm v fun x => { x with vmState := .waitingToBeReverted }) :=
      hs.setVm rfl
    simp only [Exec.run_modify_bind, Exec.run_gets_bind]
    split
    · simp only [Exec.run_gets_bind]
      split
      · exact registered_drop hmarked
      · exact hmarked
    · exact hmarked
  · exact hs

theorem registered_connect {v : VmRef} {linkUp : Bool} (hs : Registered s)
    (hfree : ∀ c, (s.vm v).client = some c → (s.client c).clientState = .disconnected) :
    Registered ((Client.connect c v).run (s.setClient c fun _ => { linkUp })).2 := by
  have hnew : Registered (Client.connected c v (s.setClient c fun _ => { linkUp })) := by
    intro c' w hlive
    show (Function.update s.vm v { s.vm v with client := some c } w).client = _
    by_cases hc : c' = c
    · subst hc
      obtain rfl : v = w := by
        simpa [Live, Client.connected, ServerState.setVm, ServerState.setClient] using hlive.1
      rw [Function.update_self]
    · have hold : Live s c' w := by
        simpa [Live, Client.connected, ServerState.setVm, ServerState.setClient, hc] using hlive
      by_cases hw : w = v
      · subst hw
        exact absurd (hfree c' (hs c' w hold)) hold.2
      · rw [Function.update_of_ne hw]
        exact hs c' w hold
  rw [Client.run_connect (ServerState.client_setClient ..)]
  split
  · exact hnew
  · have hclient : (Client.connected c v (s.setClient c fun _ => { linkUp })).client c =
        { linkUp, virtualMachine := some v, clientState := .connected } := by
      simp [Client.connected, ServerState.setVm, ServerState.setClient]
    have hdrop := registered_drop (c := c) hnew
    rwa [Client.run_drop_idle (by rw [hclient]) (by rw [hclient]; exact ClientState.noConfusion)] at hdrop

end Go

/-! ## Messages -/

section Messages
variable {c : ClientRef} {s : ServerState}

/-- The event, once it is handled, makes its client VISITING or WAITING. -/
def Revives (element : Element) (group : UrlGroup) : Prop :=
  element.get "type" = some "start" ∨
    (element.get "malicious" ≠ some "1" ∧
      ((element.get "type" = some "finish" ∧ group.malicious = false) ∨
        (element.get "type" = some "error" ∧ ∃ major ∈ element.get "error-code",
          Client.isErrorToRetry major = false)))

theorem registered_parseEvent {element : Element} {origin : Nat} (hs : Registered s) :
    Registered ((Client.parseEvent c element origin).run s).2 := by
  rcases parseEvent_cases (c := c) element origin s with ⟨r, hrun⟩ | ⟨g, -, -, hedits | hout⟩
  · rw [hrun]
    exact hs
  · exact hedits.registered hs
  · exact hout.registered hs fun _ _ _ hend => .inl hend.2

theorem registered_parseVisitEvent {element : Element} (hs : Registered s)
    (h : (s.client c).clientState = .disconnected → ∀ g ∈ (s.client c).visitingUrlGroup,
      ¬ Revives element (s.group g)) :
    Registered ((Client.parseVisitEvent c element).run s).2 := by
  have htold : Registered (told c element s) := (told_edits 0 element s).registered hs
  have hstate : ((told c element s).client c).clientState = (s.client c).clientState := by
    rw [told, ServerState.client_setClient]
  have hvisited := parseVisitEvent_visited (c := c) element s
  revert hvisited
  generalize (Client.parseVisitEvent c element).run s = r
  intro hvisited
  cases hvisited with
  | ignored => exact htold
  | start htype hg hbegun =>
      cases hbegun with
      | thrown hedits => exact hedits.registered htold
      | torn hedits _ hrun =>
          exact (Exec.Within.of_run (R := GroupsOnly) hrun).registered (hedits.registered htold)
      | @visiting s₁ s₂ hedits _ hrun =>
          have hgroups : GroupsOnly s₁ s₂ := Exec.Within.of_run hrun
          refine Registered.setClient (f := fun x => { x with clientState := .visiting })
            (hgroups.registered (hedits.registered htold)) rfl fun _ _ => ?_
          have hsame : (s₂.client c).clientState = (s.client c).clientState := by
            rw [hgroups]
            show (s₁.client c).clientState = _
            rw [hedits.client, ← hstate]
          rw [hsame]
          exact fun hdead => h hdead _ hg (.inl htype)
  | @finish g r htype hg hout =>
      refine hout.registered htold fun groupState newState s₁ hend => ?_
      rcases hend.2.2 with hgone | ⟨hwaiting, hgroup, hone⟩
      · exact .inl hgone
      · refine .inr ⟨hwaiting, ?_⟩
        rw [hstate]
        exact fun hdead => h hdead g hg (.inr ⟨hone, .inl ⟨htype, hgroup⟩⟩)
  | @error g r htype hg hout =>
      refine hout.registered htold fun groupState newState s₁ hend => ?_
      rcases hend.2 with ⟨-, hgone | ⟨hwaiting, hone, major, hmajor, hstands⟩⟩ | ⟨-, hgone, -⟩
      · exact .inl hgone
      · refine .inr ⟨hwaiting, ?_⟩
        rw [hstate]
        exact fun hdead => h hdead g hg (.inr ⟨hone, .inr ⟨htype, major, hmajor, hstands⟩⟩)
      · exact .inl hgone

end Messages

/-! ## Every run -/

/-- What the event thread handles connects no second client to a machine, and brings no client back
that was dropped. -/
def HandlesOne (client : Option ClientRef) (s : ServerState) : EventStep → Prop
  | .read (.connect (some v) _) => ∀ c ∈ (s.vm v).client, (s.client c).clientState = .disconnected
  | .read (.visitEvent element) => ∀ c ∈ client, (s.client c).clientState = .disconnected →
      ∀ g ∈ (s.client c).visitingUrlGroup, ¬ Revives element (s.group g)
  | .connected => ∀ c ∈ client, (s.client c).clientState ≠ .disconnected
  | _ => True

/-- The step neither connects a second client to a machine nor brings a client back that was
dropped. -/
def KeepsOne (s : System) : SystemAction → Prop
  | .handle k => HandlesOne (s.controller k).client s.server (s.controller k).step
  | .retrieve c => s.retriever c = .await → (s.server.client c).clientState ≠ .disconnected
  | _ => True

instance (element : Element) (group : UrlGroup) : Decidable (Revives element group) :=
  inferInstanceAs (Decidable (_ ∨ _ ∧ (_ ∨ _ ∧ ∃ major ∈ element.get "error-code",
    Client.isErrorToRetry major = false)))

instance (client : Option ClientRef) (s : ServerState) : ∀ step, Decidable (HandlesOne client s step)
  | .read (.connect (some v) _) => inferInstanceAs (Decidable (∀ c ∈ (s.vm v).client,
      (s.client c).clientState = .disconnected))
  | .read (.visitEvent element) => inferInstanceAs (Decidable (∀ c ∈ client,
      (s.client c).clientState = .disconnected →
        ∀ g ∈ (s.client c).visitingUrlGroup, ¬ Revives element (s.group g)))
  | .connected => inferInstanceAs (Decidable (∀ c ∈ client,
      (s.client c).clientState ≠ .disconnected))
  | .reading | .stopped | .read (.connect none _) | .read (.reconnect _ _)
  | .read (.systemEvent _ _) | .read .other | .read .broken | .read .notWellFormed => .isTrue trivial

instance (s : System) : ∀ a, Decidable (KeepsOne s a)
  | .handle k => inferInstanceAs (Decidable (HandlesOne _ _ (s.controller k).step))
  | .retrieve _ => inferInstanceAs (Decidable (_ → _))
  | .enqueue _ | .receive _ _ | .lineLost _ | .endOfStream _ | .blame _ _ | .revert | .work _ _
  | .ping _ | .cutLink _ => .isTrue trivial

/-- The clients and machines stay. -/
abbrev ClientsKept : ServerState → ServerState → Prop := Exec.Same fun s => (s.client, s.vm)

instance {α : Type} {x : Action α} [h : x.Within ClientsKept] : x.Within RegisteredStays :=
  h.mono fun s s' hkept hs => by
    obtain ⟨hclient, hvm⟩ := Prod.mk.inj hkept
    exact hs.mono (fun c v hlive => by rwa [Live, hclient] at hlive) fun v => by rw [hvm]

instance : UrlGroupsController.takeUrlGroup.Within RegisteredStays :=
  UrlGroupsController.takeUrlGroup_within (fun _ _ hs => hs) fun _ _ hs => hs

instance {g : GroupRef} {code : Nat} : (UrlGroup.setMajorErrorCode g code).Within GroupsOnly := by
  unfold UrlGroup.setMajorErrorCode
  infer_instance

theorem registered_welcome {c : ClientRef} {s : ServerState} (hs : Registered s)
    (h : (s.client c).clientState ≠ .disconnected) :
    Registered ((Client.setClientState c .waiting).run s).2 := by
  have hwaiting : Registered (s.setClient c fun x => { x with clientState := .waiting }) :=
    hs.setClient rfl fun _ _ => h
  rcases Client.welcome_cases c s with he | he | ⟨v, he⟩
  · rw [he]
    exact hs
  · rw [he]
    exact hwaiting
  · rw [he]
    exact Registered.setVm (v := v) (f := fun x => { x with vmState := .running }) hwaiting rfl

theorem registered_setSocket {c : ClientRef} {usable : Bool} {s : ServerState}
    (hs : Registered s) : Registered ((Client.setSocket c usable).run s).2 := by
  cases usable with
  | true =>
      have hopen : Registered (s.setClient c fun x => { x with socketClosed := false, linkUp := true }) :=
        hs.setClient rfl fun h _ => h
      exact hopen
  | false =>
      have hgone : (updateClient c fun x => { x with clientState := .disconnected }).Within
          RegisteredStays := by
        refine ⟨fun s' hs' => ?_⟩
        have hset : Registered (s'.setClient c fun x => { x with clientState := .disconnected }) :=
          hs'.setClient rfl fun h _ => absurd rfl h
        exact hset
      simp only [Client.setSocket, Bool.false_eq_true, if_false, Exec.run_gets_bind]
      cases (s.client c).visitingUrlGroup with
      | none => exact hgone.post s hs
      | some g => exact Exec.Within.stays hs

theorem registered_retrieve {c : ClientRef} {step : RetrieverStep} {s : ServerState}
    (hs : Registered s) (h : step = .await → (s.client c).clientState ≠ .disconnected) :
    Registered ((Client.retrieve c step).run s).2 := by
  cases step with
  | loop =>
      have hall : (Client.retrieve c .loop).Within ClientsKept := by
        unfold Client.retrieve
        infer_instance
      exact Exec.Within.stays hs
  | test =>
      have hall : (Client.retrieve c .test).Within ClientsKept := by
        unfold Client.retrieve
        infer_instance
      exact Exec.Within.stays hs
  | take =>
      have hall : (Client.retrieve c .take).Within RegisteredStays := by
        unfold Client.retrieve
        infer_instance
      exact hall.post s hs
  | store g =>
      have hstored : Registered (s.setClient c fun x => { x with visitingUrlGroup := some g }) :=
        hs.setClient rfl fun h _ => h
      exact hstored
  | send =>
      have hsend : (Client.send c).Within RegisteredStays := ⟨fun _ => registered_send⟩
      have hall : (Client.retrieve c .send).Within RegisteredStays := by
        unfold Client.retrieve Client.sendVisitingUrlGroup
        infer_instance
      exact hall.post s hs
  | await =>
      have hawaiting : Registered (s.setClient c fun x => { x with clientState := .awaitingVisiting }) :=
        hs.setClient rfl fun _ _ => h rfl
      exact hawaiting
  | notSent =>
      have hall : (Client.retrieve c .notSent).Within GroupsOnly := by
        unfold Client.retrieve Client.visitNotSent
        infer_instance
      exact Exec.Within.stays hs
  | wait => exact hs
  | stopped => exact hs

theorem registered_does {s : System} {a : SystemAction} {server : ServerState}
    (hs : Registered s.server) (hok : KeepsOne s a) (h : Does s a server) : Registered server := by
  induction h with
  | nothing => exact hs
  | @enqueue position =>
      have hadd : (UrlsController.addUrl s.nextUrl position).Within RegisteredStays :=
        UrlsController.addUrl_within (fun _ _ hs => hs) s.nextUrl position
      exact hadd.post s.server hs
  | connect hstep =>
      simp only [KeepsOne, hstep, HandlesOne] at hok
      exact registered_connect hs hok
  | welcome hstep hc =>
      simp only [KeepsOne, hstep, HandlesOne] at hok
      exact registered_welcome hs (hok _ hc)
  | reconnect _ _ => exact registered_setSocket hs
  | systemEvent _ _ => exact registered_parseEvent hs
  | visitEvent hstep hc =>
      simp only [KeepsOne, hstep, HandlesOne] at hok
      exact registered_parseVisitEvent hs (hok _ hc)
  | retrieve => exact registered_retrieve hs hok
  | @check v inactive => exact Exec.Within.stays hs
  | revert _ => exact registered_revert hs
  | work hne =>
      rw [VirtualMachine.run_setState hne]
      exact hs.setVm (f := fun x => { x with vmState := _ }) rfl
  | ping => exact registered_send hs
  | cutLink => exact hs.setClient rfl fun h _ => h
  | blamed _ ih => exact Exec.Within.stays (ih hok)

/-- The state checker and a revert get at the group that a live client visits. -/
def VisitsReached (s : ServerState) : Prop :=
  ∀ c v g, Live s c v → (s.client c).visitingUrlGroup = some g →
    (∀ code, (VirtualMachinesStateChecker.setError v code).run s = (do
      UrlGroup.setMajorErrorCode g code.errorCode
      UrlGroup.setUrlGroupState g .error).run s) ∧
    ((s.vm v).vmState ≠ .waitingToBeReverted →
      (VirtualMachine.setState v .waitingToBeReverted).run s =
        (Client.drop c).run (s.setVm v fun x => { x with vmState := .waitingToBeReverted }))

theorem Registered.visitsReached {s : ServerState} (hs : Registered s) : VisitsReached s := by
  intro c v g hlive hg
  have hvm := hs c v hlive
  constructor
  · intro code
    simp only [VirtualMachinesStateChecker.setError, Exec.run_gets_bind, hvm, hg]
  · intro hstate
    have hmarked : ((s.setVm v fun x => { x with vmState := .waitingToBeReverted }).vm v).client =
        some c := by simp [ServerState.setVm, hvm]
    rw [VirtualMachine.setState_waitingToBeReverted]
    simp only [Exec.run_gets_bind, if_pos hstate, Exec.run_modify_bind, hmarked]
    exact congrArg (Exec.run · _) (if_pos hlive.2)

/-- **A live client is the one its machine knows** in a run whose steps keep one client for each
machine, so that every group that is being visited is found. -/
theorem registered_safe {s : System} (h : systemMachine.Reachable KeepsOne s) :
    Registered s.server ∧
      (∀ c c' v, Live s.server c v → Live s.server c' v → c = c') ∧ VisitsReached s.server := by
  have hs : Registered s.server := by
    refine h.invariant (P := fun s => Registered s.server) ?_ ?_
    · rintro s ⟨config, url, vmState, rfl⟩ c v hlive
      exact absurd hlive.1 nofun
    · intro s a s' hs hok hnext
      exact registered_does hs hok (System.does_next hnext)
  refine ⟨hs, fun c c' v hc hc' => ?_, hs.visitsReached⟩
  have hsame := (hs c v hc).symm.trans (hs c' v hc')
  exact Option.some.inj hsame

/-! ## Two runs -/

theorem registered_dropped :
    ∃ s, systemMachine.run (sendUrl ++ [.blame 0 true, .revert, .receive 1 (.connect (some 0) true),
        .handle 1, .handle 1]) oneUrlServer = some s ∧
      Live s.server 1 0 ∧ Registered s.server := by
  obtain ⟨s, hrun, hvm, hstate⟩ : ∃ s, systemMachine.run (sendUrl ++ [.blame 0 true, .revert,
      .receive 1 (.connect (some 0) true), .handle 1, .handle 1]) oneUrlServer = some s ∧
      (s.server.client 1).virtualMachine = some 0 ∧ (s.server.client 1).clientState = .waiting :=
    ⟨_, rfl, rfl, rfl⟩
  refine ⟨s, hrun, ⟨hvm, by rw [hstate]; nofun⟩, (registered_safe ?_).1⟩
  exact (Machine.Reachable.init oneUrlServer_init).run (by decide +kernel) hrun

/-- A client process that starts again: two clients are live on one machine, and it knows the
second. -/
theorem registered_restart :
    ¬ ∀ s, systemMachine.Reachable Machine.AnyStep s → Registered s.server := by
  intro h
  obtain ⟨s, hrun, hvm, hstate, hclient⟩ : ∃ s, systemMachine.run (sendUrl ++
      [.receive 1 (.connect (some 0) true), .handle 1, .handle 1]) oneUrlServer = some s ∧
      (s.server.client 0).virtualMachine = some 0 ∧
      (s.server.client 0).clientState = .awaitingVisiting ∧ (s.server.vm 0).client = some 1 :=
    ⟨_, rfl, rfl, rfl, rfl⟩
  have hfirst := h s (Machine.reachable_of_run oneUrlServer_init hrun) 0 0
    ⟨hvm, by rw [hstate]; nofun⟩
  rw [hclient] at hfirst
  exact absurd hfirst (by decide)

end CaptureHpc.Server
