/-
# `Server.Causes` — what is logged of an error

A URL that enters ERROR is logged with its error code.  The code is set before
the transition on some paths, after it on others, and falls back to that of the
group, which may still be OK.

`disconnect` is the one that sets it too late: it fails the visit first and gives
the group its code afterwards.  So a log line without a cause comes from a client
that is dropped while the state checker has not marked its group, or from a
client that reports the error 0 (`causes_safe`).
-/
import CaptureHpc.Server.Handling
import CaptureHpc.Server.System

namespace CaptureHpc.Server

open Java

/-- The error that a log line reports is not OK. -/
def LogLine.HasCause : LogLine → Prop
  | .progressError _ major _ | .error _ major _ => major ≠ .ok
  | _ => True

def DatabaseCall.HasCause : DatabaseCall → Prop
  | .storeErrorUrl _ major _ => major ≠ .ok
  | _ => True

/-- Every error that was logged has a cause. -/
structure Causes (s : ServerState) : Prop where
  log : ∀ line ∈ s.store.log, line.HasCause
  database : ∀ call ∈ s.store.database, call.HasCause

abbrev CausesStay : ServerState → ServerState → Prop := Exec.Stays Causes

/-! ## Transitions of URLs -/

/-- During a transition. -/
structure Entered (u : UrlRef) (newState : UrlState) (s : ServerState) : Prop where
  causes : Causes s
  urlState : (s.visit u).urlState = newState
  code : newState = .error → (s.visit u).majorErrorCode ≠ .ok

theorem Causes.congr {s s' : ServerState} (h : Causes s) (hlog : s'.store.log = s.store.log)
    (hdatabase : s'.store.database = s.store.database) : Causes s' := by
  refine ⟨?_, ?_⟩
  · rw [hlog]
    exact h.log
  · rw [hdatabase]
    exact h.database

section Transition
variable {u : UrlRef} {newState : UrlState}

theorem Causes.writeLog {s : ServerState} (h : Causes s) {line : LogLine} (hline : line.HasCause) :
    Causes (s.writeLog line) := by
  refine ⟨fun l hl => ?_, h.database⟩
  rcases List.mem_append.mp hl with hl | hl
  · exact h.log l hl
  · obtain rfl := List.mem_singleton.mp hl
    exact hline

theorem Causes.callDatabase {s : ServerState} (h : Causes s) {call : DatabaseCall}
    (hcall : call.HasCause) : Causes (s.callDatabase call) := by
  refine ⟨h.log, fun l hl => ?_⟩
  rcases List.mem_append.mp hl with hl | hl
  · exact h.database l hl
  · obtain rfl := List.mem_singleton.mp hl
    exact hcall

theorem writeLog_entered {line : LogLine} (hline : line.HasCause) :
    (Exec.modify (ServerState.writeLog line) : Action Unit).Within
      (Exec.Stays (Entered u newState)) :=
  ⟨fun _ h => ⟨h.causes.writeLog hline, h.urlState, h.code⟩⟩

theorem callDatabase_entered {call : DatabaseCall} (hcall : call.HasCause) :
    (Exec.modify (ServerState.callDatabase call) : Action Unit).Within
      (Exec.Stays (Entered u newState)) :=
  ⟨fun _ h => ⟨h.causes.callDatabase hcall, h.urlState, h.code⟩⟩

instance : (Exec.modify (ServerState.writeLog (.visiting u)) : Action Unit).Within
    (Exec.Stays (Entered u newState)) := writeLog_entered trivial

instance : (Exec.modify (ServerState.writeLog (.visited u)) : Action Unit).Within
    (Exec.Stays (Entered u newState)) := writeLog_entered trivial

instance : (Exec.modify (ServerState.writeLog (.malicious u)) : Action Unit).Within
    (Exec.Stays (Entered u newState)) := writeLog_entered trivial

instance : (Exec.modify (ServerState.writeLog (.safe u)) : Action Unit).Within
    (Exec.Stays (Entered u newState)) := writeLog_entered trivial

instance : (Url.closeEventLog u).Within (Exec.Stays (Entered u newState)) := by
  refine ⟨fun s h => ⟨h.causes.congr rfl rfl, ?_, fun hnew => ?_⟩⟩
  · have hstate := congrArg Prod.fst (congrFun (Exec.Within.post (R := StatesKept)
      (x := Url.closeEventLog u) s) u)
    exact hstate.trans h.urlState
  · have hcode := congrArg Prod.snd (congrFun (Exec.Within.post (R := StatesKept)
      (x := Url.closeEventLog u) s) u)
    exact fun hok => h.code hnew (hcode.symm.trans hok)

theorem storeError_entered {x : UrlVisit} (hcode : x.majorErrorCode ≠ .ok) :
    (Url.storeError u x).Within (Exec.Stays (Entered u newState)) := by
  have hcall : ∀ id, (Exec.modify (ServerState.callDatabase
      (.storeErrorUrl id x.majorErrorCode x.minorErrorCode)) : Action Unit).Within
        (Exec.Stays (Entered u newState)) := fun _ => callDatabase_entered hcode
  unfold Url.storeError
  infer_instance

instance : (Url.enterError u).Within (Exec.Stays (Entered u .error)) := by
  unfold Url.enterError
  refine Exec.Within.gets_bind fun s h => ?_
  have hcode := h.code rfl
  have hstore : (Url.storeError u (s.visit u)).Within (Exec.Stays (Entered u .error)) :=
    storeError_entered hcode
  have hline : (writeLog (.progressError u (s.visit u).majorErrorCode
      (s.visit u).minorErrorCode)).Within (Exec.Stays (Entered u .error)) := writeLog_entered hcode
  cases (s.visit u).malicious <;> infer_instance

instance (status : Option String) :
    (Url.storeStatus u status).Within (Exec.Stays (Entered u newState)) := by
  have hcall : ∀ id status start, (Exec.modify (ServerState.callDatabase
      (.setStatus id status start)) : Action Unit).Within (Exec.Stays (Entered u newState)) :=
    fun _ _ _ => callDatabase_entered trivial
  unfold Url.storeStatus Url.getVisitStartTime
  cases status <;> infer_instance

instance : (UrlsController.update u).Within (Exec.Stays (Entered u newState)) := by
  have hlist : (Exec.modify fun s : ServerState => { s with store :=
      { s.store with errorUrlList := s.store.errorUrlList ++ [u] } } : Action Unit).Within
        (Exec.Stays (Entered u newState)) :=
    ⟨fun _ h => ⟨h.causes.congr rfl rfl, h.urlState, h.code⟩⟩
  unfold UrlsController.update
  refine Exec.Within.gets_bind fun s h => ?_
  by_cases herror : (s.visit u).urlState = .error
  · have hline : (writeLog (.error u (s.visit u).majorErrorCode
        (s.visit u).minorErrorCode)).Within (Exec.Stays (Entered u newState)) :=
      writeLog_entered (h.code (h.urlState.symm.trans herror))
    infer_instance
  · rw [if_neg herror]
    infer_instance

/-- A URL that has a cause, or is in ERROR already, may enter ERROR. -/
theorem causes_setUrlState {s : ServerState} (hs : Causes s)
    (h : newState = .error → (s.visit u).urlState = .error ∨ (s.visit u).majorErrorCode ≠ .ok) :
    Causes ((Url.setUrlState u newState).run s).2 := by
  by_cases hsame : (s.visit u).urlState = newState
  · simp only [Url.setUrlState, Exec.run_gets_bind, hsame, ne_eq, not_true_eq_false, if_false,
      Exec.run_pure]
    exact hs
  · have hentered : Entered u newState (s.setVisit u fun x => { x with urlState := newState }) := by
      have hvisit : (s.setVisit u fun x => { x with urlState := newState }).visit u =
          { s.visit u with urlState := newState } := Function.update_self ..
      refine ⟨hs.congr rfl rfl, by rw [hvisit], fun hnew => ?_⟩
      rw [hvisit]
      exact (h hnew).resolve_left fun herror => hsame (herror.trans hnew.symm)
    simp only [Url.setUrlState, Exec.run_gets_bind, ne_eq, hsame, not_false_eq_true, if_true,
      Exec.run_modify_bind]
    refine Entered.causes (@Exec.Within.post _ _ _ (Exec.Stays (Entered u newState)) _ ?_ _ hentered)
    cases newState <;> infer_instance

end Transition

/-! ## Transitions of groups -/

/-- The store stays. -/
abbrev StoreKept : ServerState → ServerState → Prop := Exec.Same ServerState.store

/-- Nothing is logged without a cause when a URL of a group that failed enters ERROR. -/
def Excused (g : GroupRef) (s : ServerState) (u : UrlRef) : Prop :=
  (s.group g).majorErrorCode ≠ .ok ∨ (s.visit u).urlState = .error ∨
    (s.visit u).majorErrorCode ≠ .ok

/-- The group may fail: it has a cause, or its URLs have causes or are in ERROR already. -/
def Blamed (g : GroupRef) (s : ServerState) : Prop := ∀ u ∈ (s.group g).urlList, Excused g s u

/-- All of these URLs are in ERROR. -/
structure AllFailed (l : List UrlRef) (s : ServerState) : Prop where
  causes : Causes s
  urlState : ∀ u ∈ l, (s.visit u).urlState = .error

section Group
variable {g : GroupRef} {l : List UrlRef}

theorem Causes.of_store {s s' : ServerState} (hs : Causes s) (h : s'.store = s.store) : Causes s' :=
  hs.congr (congrArg UrlStore.log h) (congrArg UrlStore.database h)

instance {α : Type} {x : Action α} [h : x.Within StoreKept] : x.Within (Exec.Stays (AllFailed l)) :=
  h.mono fun _ _ hstore hs => by
    refine ⟨hs.causes.of_store hstore, fun u hu => ?_⟩
    exact (congrArg (fun store => (store.visit u).urlState) hstore).trans (hs.urlState u hu)

instance (f : UrlGroup → UrlGroup) :
    (Exec.modify (ServerState.setGroup g f) : Action Unit).Within StoreKept := ⟨fun _ => rfl⟩

instance (urls : List UrlRef) : (UrlGroup.new urls).Within StoreKept := by
  have hnext : ∀ n, (Exec.modify fun s : ServerState => { s with nextGroup := n } :
      Action Unit).Within StoreKept := fun _ => ⟨fun _ => rfl⟩
  unfold UrlGroup.new
  cases urls <;> infer_instance

instance : (UrlGroupsController.push g).Within StoreKept := ⟨fun _ => rfl⟩

instance (urls : List UrlRef) : (UrlGroupsController.split urls).Within StoreKept := by
  unfold UrlGroupsController.split
  infer_instance

instance (group : UrlGroup) : (UrlGroupsController.divides group).Within StoreKept := by
  unfold UrlGroupsController.divides
  infer_instance

theorem causes_passOn {u : UrlRef} {newState : UrlGroupState} {s : ServerState} (hs : Causes s)
    (h : newState = .error → Excused g s u) : Causes ((UrlGroup.passOn g newState u).run s).2 := by
  cases newState with
  | none => exact hs
  | queued => exact hs
  | visiting => exact causes_setUrlState hs UrlState.noConfusion
  | visited =>
      simp only [UrlGroup.passOn, Exec.run_gets_bind]
      split
      · exact causes_setUrlState hs UrlState.noConfusion
      · next hcode => exact causes_setUrlState hs fun _ => .inr hcode
  | error =>
      simp only [UrlGroup.passOn, Exec.run_gets_bind]
      split
      · next hok =>
          simp only [Url.setMajorErrorCode]
          refine causes_setUrlState (hs.congr rfl rfl) fun _ => ?_
          rw [ServerState.visit_setVisit]
          rcases h rfl with hcode | hstate | hcode
          · exact .inr fun hno => hcode (ErrorCode.ofNumber_errorCode.mp hno)
          · exact .inl hstate
          · exact absurd hok hcode
      · next hcode => exact causes_setUrlState hs fun _ => .inr hcode

/-- What excuses a URL still does when others have failed. -/
theorem excused_passOn {u w : UrlRef} {s s' : ServerState} {r : Except JavaException Unit}
    (hrun : (UrlGroup.passOn g .error u).run s = (r, s')) (h : Excused g s w) : Excused g s' w := by
  have hstates := states_passOn_error g u s
  rw [hrun] at hstates
  have hkeep : StoreOnly s s' := Exec.Within.of_run hrun
  have hgroup : s'.group g = s.group g := by rw [hkeep]
  have hw := congrFun hstates w
  by_cases hwu : w = u
  · subst hwu
    rw [Function.update_self] at hw
    exact .inr (.inl (congrArg Prod.fst hw))
  · rw [Function.update_of_ne hwu] at hw
    have hstate : (s'.visit w).urlState = (s.visit w).urlState := congrArg Prod.fst hw
    have hcode : (s'.visit w).majorErrorCode = (s.visit w).majorErrorCode := congrArg Prod.snd hw
    rw [Excused, hgroup, hstate, hcode]
    exact h

theorem causes_passOnAll {newState : UrlGroupState} : ∀ {l : List UrlRef} {s : ServerState},
    Causes s → (newState = .error → ∀ u ∈ l, Excused g s u) →
      Causes ((l.forM (UrlGroup.passOn g newState)).run s).2
  | [], _, hs, _ => hs
  | u :: l, s, hs, h => by
      have hu := causes_passOn hs fun hnew => h hnew u List.mem_cons_self
      refine Exec.run_bind_mem hu fun _ s₁ he => ?_
      rw [he] at hu
      refine causes_passOnAll hu fun hnew w hw => ?_
      subst hnew
      exact excused_passOn he (h rfl w (List.mem_cons_of_mem _ hw))

theorem failUrl_allFailed {group : UrlGroup} {u : UrlRef} (hu : u ∈ l) :
    (UrlGroupsController.failUrl group u).Within (Exec.Stays (AllFailed l)) := by
  refine ⟨fun s hs => ⟨?_, fun w hw => ?_⟩⟩
  · simp only [UrlGroupsController.failUrl, Url.setMajorErrorCode, Exec.run_modify_bind]
    refine causes_setUrlState (hs.causes.congr rfl rfl) fun _ => .inl ?_
    rw [ServerState.visit_setVisit]
    exact hs.urlState u hu
  · have hw' := congrFun (states_failUrl u s group) w
    by_cases hwu : w = u
    · subst hwu
      rw [Function.update_self] at hw'
      exact congrArg Prod.fst hw'
    · rw [Function.update_of_ne hwu] at hw'
      exact (congrArg Prod.fst hw').trans (hs.urlState w hw)

/-- The controller logs nothing new. -/
theorem causes_update {s : ServerState} (hs : Causes s) (hfailed : (s.group g).urlGroupState = .error →
    ∀ u ∈ (s.group g).urlList, (s.visit u).urlState = .error) :
    Causes ((UrlGroupsController.update g).run s).2 := by
  have hlist : ∀ (l : List UrlRef) (f : List GroupRef → List GroupRef), (Exec.modify
      fun s : ServerState => { s with visitingList := f s.visitingList } : Action Unit).Within
        StoreKept := fun _ _ => ⟨fun _ => rfl⟩
  have hvisiting := hlist [] (· ++ [g])
  have herase := hlist [] (·.erase g)
  rw [UrlGroupsController.update]
  simp only [Exec.run_gets_bind]
  cases hstate : (s.group g).urlGroupState with
  | none => exact hs
  | queued => exact hs
  | visiting => exact hs.of_store (hvisiting.post s)
  | visited =>
      have hall : (do
          Exec.modify fun s => { s with visitingList := s.visitingList.erase g }
          if ← UrlGroupsController.divides (s.group g) then
            UrlGroupsController.split (s.group g).urlList : Action Unit).Within StoreKept :=
        inferInstance
      exact hs.of_store (hall.post s)
  | error =>
      have hloop : ((s.group g).urlList.forM (UrlGroupsController.failUrl (s.group g))).Within
          (Exec.Stays (AllFailed (s.group g).urlList)) :=
        Exec.Within.forM _ fun u hu => failUrl_allFailed hu
      have hall : (do
          Exec.modify fun s => { s with visitingList := s.visitingList.erase g }
          let divided ← UrlGroupsController.divides (s.group g)
          if divided then UrlGroupsController.split (s.group g).urlList
          (s.group g).urlList.forM (UrlGroupsController.failUrl (s.group g))
          if !divided && UrlGroupsController.retry (s.group g) && (s.group g).errorCount ≤ 1 then
            UrlGroupsController.push g : Action Unit).Within
              (Exec.Stays (AllFailed (s.group g).urlList)) := inferInstance
      exact (hall.post s ⟨hs, hfailed hstate⟩).causes

/-- **A group that is blamed may fail**, and any other transition is harmless. -/
theorem causes_setUrlGroupState {newState : UrlGroupState} {s : ServerState} (hs : Causes s)
    (h : newState = .error → Blamed g s) :
    Causes ((UrlGroup.setUrlGroupState g newState).run s).2 := by
  have hself := ServerState.group_setGroup g (UrlGroup.enter newState) s
  have hlist : ((s.setGroup g (UrlGroup.enter newState)).group g).urlList = (s.group g).urlList := by
    rw [hself]
    rfl
  have hloop : Causes (((s.group g).urlList.forM (UrlGroup.passOn g newState)).run
      (s.setGroup g (UrlGroup.enter newState))).2 := by
    refine causes_passOnAll (hs.congr rfl rfl) fun hnew u hu => ?_
    rw [Excused, hself]
    exact h hnew u hu
  rw [UrlGroup.setUrlGroupState]
  simp only [Exec.run_modify_bind, Exec.run_gets_bind, hlist]
  refine Exec.run_bind_mem hloop fun _ s₁ he => ?_
  rw [he] at hloop
  have hkeep : StoreOnly (s.setGroup g (UrlGroup.enter newState)) s₁ := Exec.Within.of_run he
  have hgroup : s₁.group g = UrlGroup.enter newState (s.group g) := by rw [hkeep, ← hself]
  refine causes_update hloop fun herror u hu => ?_
  rw [hgroup] at herror hu
  obtain rfl : newState = .error := herror
  exact errors_of_run_failAll he u hu

theorem causes_of_run (newState : UrlGroupState) {s s' : ServerState}
    {r : Except JavaException Unit} (hs : Causes s) (h : newState = .error → Blamed g s)
    (hrun : (UrlGroup.setUrlGroupState g newState).run s = (r, s')) : Causes s' := by
  have hgroup := causes_setUrlGroupState hs h
  rwa [hrun] at hgroup

/-- A group that is given a cause may fail. -/
theorem causes_fail {n : Int} (hn : ErrorCode.ofNumber n ≠ .ok) {s : ServerState} (hs : Causes s) :
    Causes ((do
      UrlGroup.setMajorErrorCode g n
      UrlGroup.setUrlGroupState g .error : Action Unit).run s).2 := by
  simp only [UrlGroup.setMajorErrorCode, Exec.run_modify_bind]
  refine causes_setUrlGroupState (hs.congr rfl rfl) fun _ u _ => .inl ?_
  rw [ServerState.group_setGroup]
  exact hn

end Group

/-! ## Clients -/

section Client
variable {c : ClientRef} {g : GroupRef}

theorem Edits.causes {s s' : ServerState} (h : Edits c g s s') (hs : Causes s) : Causes s' := by
  refine ⟨?_, fun call hcall => ?_⟩
  · rw [h.log]
    exact hs.log
  · rcases h.database call hcall with hold | ⟨id, event, rfl⟩
    · exact hs.database call hold
    · trivial

theorem left_store {v : VmRef} {newState : ClientState} (s : ServerState) :
    (Client.left c v newState s).store = s.store := by
  obtain ⟨client, vm, he⟩ := Client.left_rest c v newState s
  rw [he]

theorem Outcome.causes {P : UrlGroupState → ClientState → ServerState → Prop} {s : ServerState}
    {r : Except JavaException Unit × ServerState} (h : Outcome c g P s r) (hs : Causes s)
    (hP : ∀ groupState newState s₁, P groupState newState s₁ → Edits c g s s₁ →
      groupState = .error → Blamed g s₁) : Causes r.2 := by
  cases h with
  | thrown hedits => exact hedits.causes hs
  | torn hend hedits hrun =>
      exact causes_of_run _ (hedits.causes hs) (hP _ _ _ hend hedits) hrun
  | left hend hedits _ hrun =>
      exact (causes_of_run _ (hedits.causes hs) (hP _ _ _ hend hedits) hrun).of_store (left_store _)

theorem causes_failVisitAgain {group : Option GroupRef} {s : ServerState} (hs : Causes s) :
    Causes ((Client.failVisitAgain group).run s).2 := by
  cases group with
  | none => exact hs
  | some g =>
      have hfail : ∀ s, Causes s → Causes ((do
          UrlGroup.setMajorErrorCode g ErrorCode.captureClientConnectionReset.errorCode
          UrlGroup.setUrlGroupState g .error : Action Unit).run s).2 :=
        fun s hs => causes_fail (by decide) hs
      simp only [Client.failVisitAgain, Exec.run_gets_bind]
      split
      · have hjudge : (UrlGroup.setMalicious g (some "dac") false none).Within (Edits 0 g) :=
          inferInstance
        refine Exec.run_bind_mem ((hjudge.post s).causes hs) fun _ s₁ he => hfail s₁ ?_
        have hedits := hjudge.post s
        rw [he] at hedits
        exact hedits.causes hs
      · exact hfail s hs

/-- The group of the client may fail. -/
def DropsBlamed (c : ClientRef) (s : ServerState) : Prop :=
  (s.client c).clientState ≠ .disconnected → ∀ g ∈ (s.client c).visitingUrlGroup, Blamed g s

theorem causes_drop {s : ServerState} (hs : Causes s) (h : DropsBlamed c s) :
    Causes ((Client.drop c).run s).2 := by
  have hrest : ∀ s₁ : ServerState, Causes s₁ → (∀ g ∈ (s₁.client c).visitingUrlGroup, Blamed g s₁) →
      Causes ((do
        Client.failVisit (← readClient c).visitingUrlGroup
        updateClient c fun x => { x with socketClosed := true }
        Client.failVisitAgain (← readClient c).visitingUrlGroup : Action Unit).run s₁).2 := by
    intro s₁ hs₁ hblamed
    have hfirst : Causes ((Client.failVisit (s₁.client c).visitingUrlGroup).run s₁).2 := by
      cases hg : (s₁.client c).visitingUrlGroup with
      | none => exact hs₁
      | some g => exact causes_setUrlGroupState hs₁ fun _ => hblamed g hg
    rw [Exec.run_gets_bind]
    refine Exec.run_bind_mem hfirst fun _ s₂ he => ?_
    rw [he] at hfirst
    exact causes_failVisitAgain (hfirst.of_store rfl)
  rw [Client.drop]
  simp only [Exec.run_gets_bind]
  split
  · next hstate =>
      simp only [Exec.run_modify_bind, Exec.run_gets_bind]
      have hgroup : ((s.setClient c fun x => { x with clientState := .disconnected }).client
          c).visitingUrlGroup = (s.client c).visitingUrlGroup := by
        rw [ServerState.client_setClient]
      cases hv : ((s.setClient c fun x => { x with clientState := .disconnected }).client
          c).virtualMachine with
      | none =>
          refine hrest _ (hs.congr rfl rfl) ?_
          rw [hgroup]
          exact h hstate
      | some v =>
          refine hrest (ServerState.setVm v (fun _ => { client := none
                                                        vmState := .waitingToBeReverted })
            (s.setClient c fun x => { x with clientState := .disconnected })) (hs.congr rfl rfl) ?_
          show ∀ g ∈ ((s.setClient c fun x => { x with clientState := .disconnected }).client
            c).visitingUrlGroup, _
          rw [hgroup]
          exact h hstate
  · exact hs

theorem causes_send {s : ServerState} (hs : Causes s)
    (h : (s.client c).linkUp = false ∨ (s.client c).socketClosed = true → DropsBlamed c s) :
    Causes ((Client.send c).run s).2 := by
  rcases Client.send_cases c s with ⟨success, he⟩ | ⟨hstate, hlink, he⟩
  · rw [he]
    exact hs
  · rw [he]
    exact causes_drop hs (h hlink)

/-! ## Messages -/

theorem causes_parseEvent {element : Element} {origin : Nat} {s : ServerState} (hs : Causes s) :
    Causes ((Client.parseEvent c element origin).run s).2 := by
  rcases parseEvent_cases (c := c) element origin s with ⟨r, hrun⟩ | ⟨g, -, -, hedits | hout⟩
  · rw [hrun]
    exact hs
  · exact hedits.causes hs
  · exact hout.causes hs fun _ _ _ hend _ herror => absurd (hend.1.symm.trans herror) nofun

/-- An error message that is retried names a cause, or all its URLs have one. -/
def ErrorNamesCause (c : ClientRef) (element : Element) (s : ServerState) : Prop :=
  element.get "type" = some "error" → ∀ g ∈ (s.client c).visitingUrlGroup,
    ∀ major ∈ element.get "error-code", Client.isErrorToRetry major = true →
      ∀ n ∈ parseLong major, ErrorCode.ofNumber n ≠ .ok ∨ ∀ u ∈ (s.group g).urlList,
        (s.visit u).urlState = .error ∨
          codesAfter s g [""] element.childElements (codes s) u ≠ .ok

theorem causes_parseVisitEvent {element : Element} {s : ServerState} (hs : Causes s)
    (h : ErrorNamesCause c element s) : Causes ((Client.parseVisitEvent c element).run s).2 := by
  have htold : Causes (told c element s) := (told_edits 0 element s).causes hs
  have hvisited := parseVisitEvent_visited (c := c) element s
  revert hvisited
  generalize (Client.parseVisitEvent c element).run s = r
  intro hvisited
  cases hvisited with
  | ignored => exact htold
  | start _ _ hbegun =>
      cases hbegun with
      | thrown hedits => exact hedits.causes htold
      | torn hedits _ hrun =>
          exact causes_of_run .visiting (hedits.causes htold) nofun hrun
      | visiting hedits _ hrun =>
          exact (causes_of_run .visiting (hedits.causes htold) nofun hrun).of_store rfl
  | finish _ _ hout =>
      exact hout.causes htold fun _ _ _ hend _ herror =>
        absurd (hend.1.symm.trans herror) nofun
  | @error g r htype hg hout =>
      refine hout.causes htold fun groupState newState s₁ hend hedits herror => ?_
      obtain ⟨hread, ⟨hvisited, -⟩ | ⟨-, -, -, major, n, hmajor, hretry, hn, hcode⟩⟩ := hend
      · exact absurd (hvisited.symm.trans herror) nofun
      · intro u hu
        have hnamed : codesAfter (told c element s) g [""] element.childElements
            (codes (told c element s)) = codesAfter s g [""] element.childElements (codes s) :=
          @codesAfter_congr s (told c element s) g rfl rfl _ _ _
        have hlist : u ∈ (s.group g).urlList := by rwa [hedits.urlList] at hu
        rcases h htype g hg major hmajor hretry n hn with hcause | hall
        · exact .inl (by rwa [hcode])
        · rcases hall u hlist with hstate | hown
          · exact .inr (.inl ((hedits.urlState u).trans hstate))
          · refine .inr (.inr fun hok => hown ?_)
            rw [← hnamed, ← hread.codes]
            exact hok

end Client

/-! ## Every run -/

instance (g : GroupRef) (s : ServerState) : Decidable (Blamed g s) :=
  inferInstanceAs (Decidable (∀ u ∈ (s.group g).urlList,
    (s.group g).majorErrorCode ≠ .ok ∨ (s.visit u).urlState = .error ∨
      (s.visit u).majorErrorCode ≠ .ok))

instance (c : ClientRef) (s : ServerState) : Decidable (DropsBlamed c s) :=
  inferInstanceAs (Decidable (_ → ∀ g ∈ (s.client c).visitingUrlGroup, Blamed g s))

instance (c : ClientRef) (element : Element) (s : ServerState) :
    Decidable (ErrorNamesCause c element s) :=
  inferInstanceAs (Decidable (_ → ∀ g ∈ (s.client c).visitingUrlGroup,
    ∀ major ∈ element.get "error-code", Client.isErrorToRetry major = true →
      ∀ n ∈ parseLong major, _ ∨ ∀ u ∈ (s.group g).urlList, _ ∨ _))

/-- The step makes no URL enter ERROR that has no cause and whose group has none: a client is dropped
only when its group has been blamed, and an error that is retried is not the error 0. -/
def NamesCause (s : System) : SystemAction → Prop
  | .handle k =>
      match (s.controller k).step with
      | .read (.visitEvent element) =>
          ∀ c ∈ (s.controller k).client, ErrorNamesCause c element s.server
      | _ => True
  | .retrieve c => s.retriever c = .send →
      (s.server.client c).linkUp = false ∨ (s.server.client c).socketClosed = true →
        DropsBlamed c s.server
  | .ping c => (s.server.client c).linkUp = false ∨ (s.server.client c).socketClosed = true →
      DropsBlamed c s.server
  | .revert => ∀ v ∈ s.checker, (s.server.vm v).vmState ≠ .waitingToBeReverted →
      ∀ c ∈ (s.server.vm v).client, DropsBlamed c s.server
  | _ => True

instance (s : System) : ∀ a, Decidable (NamesCause s a)
  | .handle k =>
      have : Decidable (match (s.controller k).step with
          | .read (.visitEvent element) =>
              ∀ c ∈ (s.controller k).client, ErrorNamesCause c element s.server
          | _ => True) := by
        split
        · infer_instance
        · infer_instance
      this
  | .retrieve _ => inferInstanceAs (Decidable (_ → _ → _))
  | .ping _ => inferInstanceAs (Decidable (_ → _))
  | .revert => inferInstanceAs (Decidable (∀ v ∈ s.checker, _ → ∀ c ∈ (s.server.vm v).client, _))
  | .enqueue _ | .receive _ _ | .lineLost _ | .endOfStream _ | .blame _ _ | .work _ _
  | .cutLink _ => .isTrue trivial

theorem causes_retrieve {c : ClientRef} {step : RetrieverStep} {s : ServerState} (hs : Causes s)
    (h : step = .send → (s.client c).linkUp = false ∨ (s.client c).socketClosed = true →
      DropsBlamed c s) : Causes ((Client.retrieve c step).run s).2 := by
  cases step with
  | loop =>
      simp only [Client.retrieve, Exec.run_gets_bind]
      split <;> exact hs
  | test =>
      simp only [Client.retrieve, Exec.run_gets_bind]
      split <;> exact hs
  | take =>
      have htake : (Client.retrieve c .take).Within StoreKept := by
        have hgroup : UrlGroupsController.takeUrlGroup.Within StoreKept :=
          UrlGroupsController.takeUrlGroup_within (fun _ _ => rfl) fun _ _ => rfl
        unfold Client.retrieve
        infer_instance
      exact hs.of_store (htake.post s)
  | store g => exact hs.of_store rfl
  | send =>
      have hsend := causes_send hs (h rfl)
      simp only [Client.retrieve, Client.sendVisitingUrlGroup, bind_assoc, Exec.run_gets_bind]
      cases (s.client c).visitingUrlGroup with
      | none => exact hs
      | some g =>
          simp only [Exec.orThrow_some, Exec.pure_bind]
          refine Exec.run_bind_mem hsend fun success s₁ he => ?_
          rw [he] at hsend
          simp only [Exec.run_gets_bind]
          cases (s₁.client c).virtualMachine with
          | none => exact hsend
          | some v => cases success <;> exact hsend
  | await => exact hs.of_store rfl
  | notSent =>
      have hfail : Causes ((Client.visitNotSent c).run s).2 := by
        simp only [Client.visitNotSent, Exec.run_gets_bind]
        cases (s.client c).visitingUrlGroup with
        | none => exact hs
        | some g => exact causes_fail (by decide) hs
      exact Exec.run_bind_mem hfail fun _ s₁ he => by rwa [he] at hfail
  | wait => exact hs
  | stopped => exact hs

theorem causes_checkVm {v : VmRef} {inactive : Bool} {s : ServerState} (hs : Causes s) :
    Causes ((VirtualMachinesStateChecker.checkVm v inactive).run s).2 := by
  have herror : Causes ((VirtualMachinesStateChecker.setError v
      (if inactive then .captureClientInactivity else .vmStalled)).run s).2 := by
    simp only [VirtualMachinesStateChecker.setError, Exec.run_gets_bind]
    cases (s.vm v).client with
    | none => exact hs
    | some c =>
        simp only [Exec.run_gets_bind]
        cases (s.client c).visitingUrlGroup with
        | none => exact hs
        | some g => exact causes_fail (by cases inactive <;> decide) hs
  refine Exec.run_bind_mem herror fun _ s₁ he => ?_
  rw [he] at herror
  simp only [Exec.run_gets_bind]
  split <;> exact herror

theorem causes_setSocket {c : ClientRef} {usable : Bool} {s : ServerState} (hs : Causes s) :
    Causes ((Client.setSocket c usable).run s).2 := by
  cases usable with
  | true => exact hs.of_store rfl
  | false =>
      simp only [Client.setSocket, Bool.false_eq_true, if_false, Exec.run_gets_bind]
      cases (s.client c).visitingUrlGroup with
      | none => exact hs.of_store rfl
      | some g =>
          have hfail := causes_fail (g := g)
            (n := ErrorCode.captureClientConnectionReset.errorCode) (by decide) hs
          have hall := Exec.run_bind_mem (f := fun _ => updateClient c fun x =>
            { x with clientState := .disconnected }) hfail fun _ s₁ he => by
              rw [he] at hfail
              exact hfail.of_store rfl
          rwa [bind_assoc] at hall

theorem welcome_store (c : ClientRef) (s : ServerState) :
    ((Client.setClientState c .waiting).run s).2.store = s.store := by
  rcases Client.welcome_cases c s with h | h | ⟨v, h⟩
  · rw [h]
  · rw [h]
    rfl
  · rw [h]
    rfl

theorem causes_revert {v : VmRef} {s : ServerState} (hs : Causes s)
    (h : (s.vm v).vmState ≠ .waitingToBeReverted → ∀ c ∈ (s.vm v).client, DropsBlamed c s) :
    Causes ((VirtualMachine.setState v .waitingToBeReverted).run s).2 := by
  rw [VirtualMachine.setState_waitingToBeReverted]
  simp only [Exec.run_gets_bind]
  split
  · next hstate =>
      have hvm : ((ServerState.setVm v (fun x => { x with vmState := .waitingToBeReverted }) s).vm
          v).client = (s.vm v).client := by simp [ServerState.setVm]
      simp only [Exec.run_modify_bind, Exec.run_gets_bind, hvm]
      cases hc : (s.vm v).client with
      | none => exact hs.of_store rfl
      | some c =>
          simp only [Exec.run_gets_bind]
          split
          · exact causes_drop (hs.of_store rfl) (h hstate c hc)
          · exact hs.of_store rfl
  · exact hs

theorem causes_does {s : System} {a : SystemAction} {server : ServerState} (hs : Causes s.server)
    (hok : NamesCause s a) (h : Does s a server) : Causes server := by
  induction h with
  | nothing => exact hs
  | @enqueue position =>
      have hadd : (UrlsController.addUrl s.nextUrl position).Within StoreKept :=
        UrlsController.addUrl_within (fun _ _ => rfl) s.nextUrl position
      exact hs.of_store (hadd.post s.server)
  | @connect k v linkUp _ =>
      obtain ⟨client, vm, he⟩ := Client.connect_rest s.nextClient v linkUp s.server
      rw [he]
      exact hs.of_store rfl
  | welcome _ _ => exact hs.of_store (welcome_store _ _)
  | reconnect _ _ => exact causes_setSocket hs
  | systemEvent _ _ => exact causes_parseEvent hs
  | visitEvent hstep hc =>
      refine causes_parseVisitEvent hs ?_
      simp only [NamesCause, hstep] at hok
      exact hok _ hc
  | retrieve => exact causes_retrieve hs hok
  | check => exact causes_checkVm hs
  | revert hv => exact causes_revert hs (hok _ hv)
  | work hne =>
      rw [VirtualMachine.run_setState hne]
      exact hs.of_store rfl
  | ping => exact causes_send hs hok
  | cutLink => exact hs.of_store rfl
  | @blamed _ server c _ ih =>
      rcases Client.blameConnection_cases c server with he | ⟨g, he⟩
      · rw [he]
        exact ih hok
      · rw [he]
        exact (ih hok).of_store rfl

/-- **Every error that is logged has a cause** in a run whose clients are dropped and whose errors are
reported as `NamesCause` says. -/
theorem causes_safe {s : System} (h : systemMachine.Reachable NamesCause s) : Causes s.server := by
  refine h.invariant (P := fun s => Causes s.server) ?_ ?_
  · rintro s ⟨config, url, vmState, rfl⟩
    exact ⟨fun _ h => absurd h List.not_mem_nil, fun _ h => absurd h List.not_mem_nil⟩
  · intro s a s' hs hok hnext
    exact causes_does hs hok (System.does_next hnext)

/-! ## Two runs -/

theorem causes_checked :
    ∃ s, systemMachine.run (sendUrl ++ [.cutLink 0, .blame 0 true, .revert]) oneUrlServer = some s ∧
      s.server.store.log = [.error 0 .captureClientInactivity 0] ∧ Causes s.server := by
  obtain ⟨s, hrun, hlog⟩ : ∃ s, systemMachine.run (sendUrl ++ [.cutLink 0, .blame 0 true, .revert])
      oneUrlServer = some s ∧ s.server.store.log = [.error 0 .captureClientInactivity 0] :=
    ⟨_, rfl, rfl⟩
  refine ⟨s, hrun, hlog, causes_safe ?_⟩
  exact (Machine.Reachable.init oneUrlServer_init).run (by decide +kernel) hrun

/-- The connection breaks: the group fails before it is given the code for that. -/
theorem causes_ping : ¬ ∀ s, systemMachine.Reachable Machine.AnyStep s → Causes s.server := by
  intro h
  obtain ⟨s, hrun, hlog⟩ : ∃ s, systemMachine.run (sendUrl ++ [.cutLink 0, .ping 0])
      oneUrlServer = some s ∧ s.server.store.log = [.error 0 .ok 0] := ⟨_, rfl, rfl⟩
  have hcauses := h s (Machine.reachable_of_run oneUrlServer_init hrun)
  exact hcauses.log (.error 0 .ok 0) (by rw [hlog]; exact List.mem_singleton_self _) rfl

end CaptureHpc.Server
