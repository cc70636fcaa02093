/-
# `Server.Handling` — the messages of a visit, one by one

What handling a message comes to, for each kind of message: the outcome in the
sense of `Concludes`, with what is known of the error codes when the group
changes its state.
-/
import CaptureHpc.Server.Items

namespace CaptureHpc.Server

open Java

section Handling
variable {c : ClientRef} {g : GroupRef}

/-! ## System events -/

/-- A divide-and-conquer group that turns out malicious has been visited, and the client goes. -/
theorem reportGroup_outcome (element : Element) (s : ServerState) :
    Outcome c g (fun groupState newState _ => groupState = .visited ∧ newState = .disconnected) s
      ((Client.reportGroup c g element).run s) := by
  have hall : Concludes c g (s.client c).virtualMachine (fun _ => True)
      (fun groupState newState _ => groupState = .visited ∧ newState = .disconnected)
      (Client.reportGroup c g element) := by
    refine Concludes.edit inferInstance fun _ => ?_
    refine Concludes.gets_bind fun s₁ _ hv => ?_
    rw [hv]
    refine Concludes.deref fun v ho => ?_
    refine Concludes.edit inferInstance fun _ => ?_
    refine Concludes.edit inferInstance fun _ => ?_
    refine Concludes.edit inferInstance fun group => ?_
    refine Concludes.edit inferInstance fun _ => ?_
    exact Concludes.leave ho (fun _ _ => ⟨rfl, rfl⟩) (.inr rfl)
  exact hall s trivial rfl

/-- What a system event comes to: it is ignored, or it is noted, or it ends the visit. -/
theorem parseEvent_cases (element : Element) (origin : Nat) (s : ServerState) :
    (∃ r, (Client.parseEvent c element origin).run s = (r, s)) ∨
      ∃ g, (s.client c).visitingUrlGroup = some g ∧ (s.client c).clientState = .visiting ∧
        (Edits c g s ((Client.parseEvent c element origin).run s).2 ∨
          Outcome c g (fun groupState newState _ => groupState = .visited ∧
            newState = .disconnected) s ((Client.parseEvent c element origin).run s)) := by
  by_cases hvisiting : (s.client c).clientState = .visiting
  · cases halg : (s.client c).algorithm with
    | none =>
        refine .inl ⟨.error .nullPointer, ?_⟩
        simp [Client.parseEvent, hvisiting, halg]
    | some algorithm =>
        cases hg : (s.client c).visitingUrlGroup with
        | none =>
            refine .inl ⟨.error .nullPointer, ?_⟩
            simp [Client.parseEvent, hvisiting, halg, hg]
        | some g =>
            refine .inr ⟨g, rfl, hvisiting, ?_⟩
            simp only [Client.parseEvent, Exec.run_gets_bind, hvisiting, if_true, halg, hg,
              Exec.orThrow_some, Exec.pure_bind, Exec.run_ite]
            split
            · exact .inl (Exec.Within.post s)
            · split
              · exact .inr (reportGroup_outcome element s)
              · exact .inl (Exec.Within.post s)
  · refine .inl ⟨.ok (), ?_⟩
    simp [Client.parseEvent, hvisiting]

/-! ## The start message -/

/-- What a start message comes to. -/
inductive Begun (c : ClientRef) (g : GroupRef) (s : ServerState) :
    Except JavaException Unit × ServerState → Prop
  | thrown {e : JavaException} {s' : ServerState} : Edits c g s s' → Begun c g s (.error e, s')
  | torn {e : JavaException} {s₁ s' : ServerState} : Edits c g s s₁ → codes s₁ = codes s →
      (UrlGroup.setUrlGroupState g .visiting).run s₁ = (.error e, s') → Begun c g s (.error e, s')
  | visiting {s₁ s₂ : ServerState} : Edits c g s s₁ → codes s₁ = codes s →
      (UrlGroup.setUrlGroupState g .visiting).run s₁ = (.ok (), s₂) →
        Begun c g s (.ok (), s₂.setClient c fun x => { x with clientState := .visiting })

/-- `parseStart` up to the transition. -/
def beginVisit (g : GroupRef) (client : Client) (element : Element) : Action Unit := do
  let _ ← deref client.virtualMachine
  UrlGroup.setVisitStartTime g (element.get "time")
  UrlGroup.setAlgorithm g client.algorithm
  element.childElements.forM (Client.startItem g)

instance (client : Client) (element : Element) :
    (beginVisit g client element).Within (Edits c g) := by
  unfold beginVisit
  infer_instance

instance (client : Client) (element : Element) :
    (beginVisit g client element).Within StatesKept := by
  have htime : (UrlGroup.setVisitStartTime g (element.get "time")).Within StatesKept := by
    unfold UrlGroup.setVisitStartTime
    infer_instance
  have hitem : ∀ item, (Client.startItem g item).Within StatesKept := by
    intro item
    unfold Client.startItem UrlGroup.getUrl
    infer_instance
  unfold beginVisit UrlGroup.setAlgorithm
  infer_instance

theorem parseStart_begun (element : Element) {s : ServerState}
    (hg : (s.client c).visitingUrlGroup = some g) :
    Begun c g s ((Client.parseStart c element).run s) := by
  have hsplit : (Client.parseStart c element).run s =
      (beginVisit g (s.client c) element >>= fun _ =>
        UrlGroup.setUrlGroupState g .visiting >>= fun _ => Client.setClientState c .visiting).run s := by
    simp only [Client.parseStart, beginVisit, Exec.run_gets_bind, hg, Exec.orThrow_some,
      Exec.pure_bind, bind_assoc]
  rw [hsplit, Exec.run_bind]
  split
  · next _ s₁ he =>
      have hedits : Edits c g s s₁ := Exec.Within.of_run he
      have hcodes : codes s₁ = codes s := codes_congr (Exec.Within.of_run (R := StatesKept) he)
      rw [Exec.run_bind]
      split
      · next _ s₂ he₂ =>
          rw [Client.run_setClientState_visiting]
          exact .visiting hedits hcodes he₂
      · next e s₂ he₂ => exact .torn hedits hcodes he₂
  · next e s₁ he => exact .thrown (Exec.Within.of_run he)

/-! ## The messages that end a visit -/

/-- What holds when a finish message makes the group change its state. -/
def FinishEnds (g : GroupRef) (element : Element) (s : ServerState)
    (groupState : UrlGroupState) (newState : ClientState) (s₁ : ServerState) : Prop :=
  groupState = .visited ∧
    codes s₁ = codesAfter s g ["0", ""] element.childElements (codes s) ∧
      (newState = .disconnected ∨ (newState = .waiting ∧ (s.group g).malicious = false ∧
        element.get "malicious" ≠ some "1"))

/-- The algorithms of the groups stay. -/
abbrev AlgorithmsKept : ServerState → ServerState → Prop :=
  Exec.Same fun s g => (s.group g).algorithm

/-- The items of an error message have been read. -/
structure ErrorRead (g : GroupRef) (element : Element) (s s₁ : ServerState) : Prop where
  codes : codes s₁ = codesAfter s g [""] element.childElements (codes s)
  minors : minors s₁ = minorsAfter s g [""] element.childElements (minors s)
  visitStartTime : Lasts UrlVisit.visitStartTime s s₁
  algorithm : AlgorithmsKept s s₁

/-- What holds when an error message makes the group change its state. -/
def ErrorEnds (g : GroupRef) (element : Element) (s : ServerState)
    (groupState : UrlGroupState) (newState : ClientState) (s₁ : ServerState) : Prop :=
  ErrorRead g element s s₁ ∧
    ((groupState = .visited ∧ (newState = .disconnected ∨ (newState = .waiting ∧
        element.get "malicious" ≠ some "1" ∧ ∃ major, element.get "error-code" = some major ∧
          Client.isErrorToRetry major = false))) ∨
      (groupState = .error ∧ newState = .disconnected ∧
        (s₁.group g).malicious = decide (element.get "malicious" = some "1") ∧ ∃ major n,
          element.get "error-code" = some major ∧ Client.isErrorToRetry major = true ∧
            parseLong major = some n ∧ (s₁.group g).majorErrorCode = ErrorCode.ofNumber n))

/-- The error codes are `K`. -/
abbrev CodesAre (K : UrlRef → ErrorCode) (s : ServerState) : Prop := codes s = K

instance {α : Type} {K : UrlRef → ErrorCode} {x : Action α} [h : x.Within StatesKept] :
    x.Within (Exec.Stays (CodesAre K)) :=
  h.mono fun _ _ hkept hcodes => (codes_congr hkept).trans hcodes

instance {α : Type} {x : Action α} [h : x.Within StoreOnly] : x.Within AlgorithmsKept :=
  h.mono fun _ _ hstore => funext fun _ => by rw [hstore]

theorem updateGroup_algorithmsKept {f : UrlGroup → UrlGroup}
    (h : ∀ x, (f x).algorithm = x.algorithm) : (updateGroup g f).Within AlgorithmsKept := by
  refine ⟨fun s => funext fun g' => ?_⟩
  show (Function.update s.group g (f (s.group g)) g').algorithm = (s.group g').algorithm
  by_cases hg : g' = g
  · subst hg
    rw [Function.update_self, h]
  · rw [Function.update_of_ne hg]

instance (n : Int) : (UrlGroup.setMajorErrorCode g n).Within AlgorithmsKept :=
  updateGroup_algorithmsKept fun _ => rfl

instance (algorithm : Option String) (malicious : Bool) (map : Option StringMap) :
    (UrlGroup.setMalicious g algorithm malicious map).Within AlgorithmsKept := by
  have hgroup : (updateGroup g fun x => { x with malicious }).Within AlgorithmsKept :=
    updateGroup_algorithmsKept fun _ => rfl
  have hsingle : ∀ urlList : List UrlRef, (match urlList with
      | [u] => Url.setMalicious u true
      | _ => pure () : Action Unit).Within StoreOnly := by
    intro urlList
    split <;> infer_instance
  unfold UrlGroup.setMalicious
  infer_instance

instance (algorithm : Option String) (map : StringMap) :
    (Client.flushBulk g algorithm map).Within StatesKept := by
  unfold Client.flushBulk
  infer_instance

/-- What keeps these fields keeps what an error message has told. -/
instance {α : Type} {element : Element} {s₀ : ServerState} {x : Action α} [h : x.Within StatesKept]
    [hminors : x.Within (Lasts UrlVisit.minorErrorCode)]
    [hstart : x.Within (Lasts UrlVisit.visitStartTime)] [halg : x.Within AlgorithmsKept] :
    x.Within (Exec.Stays (ErrorRead g element s₀)) := by
  refine ⟨fun s hs => ?_⟩
  have hsame : minors (x.run s).2 = minors s := hminors.post s
  exact
    { codes := (codes_congr (h.post s)).trans hs.codes
      minors := hsame.trans hs.minors
      visitStartTime := IsTrans.trans _ _ _ hs.visitStartTime (hstart.post s)
      algorithm := IsTrans.trans _ _ _ hs.algorithm (halg.post s) }

instance {element : Element} {s₀ : ServerState} (n : Int) :
    (UrlGroup.setMajorErrorCode g n).Within (Exec.Stays (ErrorRead g element s₀)) := by
  have halg : (UrlGroup.setMajorErrorCode g n).Within AlgorithmsKept := inferInstance
  unfold UrlGroup.setMajorErrorCode at halg ⊢
  infer_instance

/-- The group has the verdict that it is given. -/
theorem of_run_setMalicious {algorithm : Option String} {malicious : Bool} {map : Option StringMap}
    {s s' : ServerState} {a : Unit}
    (h : (UrlGroup.setMalicious g algorithm malicious map).run s = (.ok a, s')) :
    (s'.group g).malicious = malicious := by
  have hsingle : ∀ urlList : List UrlRef, (match urlList with
      | [u] => Url.setMalicious u true
      | _ => pure () : Action Unit).Within StoreOnly := by
    intro urlList
    split <;> infer_instance
  have hrest : (do
      let algorithm ← deref algorithm
      let urlList := (← readGroup g).urlList
      if algorithm ≠ "bulk" then
        if malicious then
          match urlList with
          | [u] => Url.setMalicious u true
          | _ => pure ()
        else urlList.forM fun u => Url.setMalicious u false
      else urlList.forM (UrlGroup.setMaliciousFromMap malicious map) : Action Unit).Within
        StoreOnly := by infer_instance
  have hstore := hrest.post (s.setGroup g fun x => { x with malicious })
  have hgroup := congrArg (fun t : ServerState => (t.group g).malicious) hstore
  obtain rfl : _ = s' := congrArg Prod.snd h
  refine Eq.trans hgroup ?_
  show ((s.setGroup g fun x => { x with malicious }).group g).malicious = malicious
  rw [ServerState.group_setGroup]

/-- Before the items nothing is changed that they read. -/
theorem setVisitFinishTime_keeps (time : Option String) {s s' : ServerState} {a : Unit}
    (h : (UrlGroup.setVisitFinishTime g time).run s = (.ok a, s')) :
    codes s' = codes s ∧ (s'.group g).urlList = (s.group g).urlList ∧ s'.url = s.url ∧
      (s'.group g).malicious = (s.group g).malicious := by
  rw [UrlGroup.setVisitFinishTime, storeTime] at h
  obtain ⟨text, -, h⟩ := of_run_deref_bind h
  split at h
  · obtain rfl : _ = s' := congrArg Prod.snd h
    refine ⟨rfl, ?_, rfl, ?_⟩
    · simp [ServerState.group_setGroup]
    · simp [ServerState.group_setGroup]
  · obtain rfl : s = s' := congrArg Prod.snd h
    exact ⟨rfl, rfl, rfl, rfl⟩

/-- The verdict is passed, and the visit ends. -/
theorem judge_concludes {o : Option VmRef} {v : VmRef} (ho : o = some v) {I : ServerState → Prop}
    {P : UrlGroupState → ClientState → ServerState → Prop} {groupState : UrlGroupState}
    {newState : ClientState} (hP : ∀ s, I s → P groupState newState s)
    (hnew : newState = .waiting ∨ newState = .disconnected) (algorithm : Option String)
    (malicious : Bool) (map : Option StringMap)
    (hI : (UrlGroup.setMalicious g algorithm malicious map).Within (Exec.Stays I)) :
    Concludes c g o I P (do
      UrlGroup.setMalicious g algorithm malicious map
      UrlGroup.setUrlGroupState g groupState
      Client.leaveGroup c newState) :=
  Concludes.bind_keep inferInstance hI fun _ => Concludes.leave ho hP hnew

theorem parseFinish_outcome (element : Element) {s : ServerState}
    (hg : (s.client c).visitingUrlGroup = some g) :
    Outcome c g (FinishEnds g element s) s ((Client.parseFinish c element).run s) := by
  have hall : Concludes c g (s.client c).virtualMachine (· = s) (FinishEnds g element s)
      (Client.parseFinish c element) := by
    refine Concludes.gets_bind fun s₀ hs _ => ?_
    subst hs
    simp only [hg, Exec.orThrow_some, Exec.pure_bind]
    refine Concludes.bind inferInstance fun _ => ?_
    refine Concludes.bind inferInstance fun ids => ?_
    -- what holds after the items
    refine Concludes.weaken (J := fun s₂ =>
      CodesAre (codesAfter s₀ g ["0", ""] element.childElements (codes s₀)) s₂ ∧
        (s₂.group g).malicious = (s₀.group g).malicious) ?_ ?_
    · refine Concludes.gets_bind fun s₂ ⟨hcodes, hmalicious⟩ _ => ?_
      refine Concludes.ite (fun _ => ?_) fun hgroup => ?_
      · refine Concludes.deref fun v ho => ?_
        simp only [if_true]
        refine Concludes.bind_keep (I := CodesAre (codes s₂)) inferInstance inferInstance
          (fun _ => ?_) |>.weaken fun _ h => congrArg codes h
        exact judge_concludes ho (fun _ h => ⟨rfl, h.trans hcodes, .inl rfl⟩) (.inr rfl) _ _ _ inferInstance
      · refine Concludes.deref fun text htext => ?_
        refine Concludes.deref fun v ho => ?_
        have hread : ∀ s, CodesAre (codes s₂) s →
            CodesAre (codesAfter s₀ g ["0", ""] element.childElements (codes s₀)) s :=
          fun _ h => h.trans hcodes
        refine Concludes.weaken (J := CodesAre (codes s₂)) ?_ fun _ h => congrArg codes h
        refine Concludes.ite (fun _ => ?_) fun hone => ?_
        · refine Concludes.bind_keep inferInstance inferInstance fun _ => ?_
          exact judge_concludes ho (fun _ h => ⟨rfl, hread _ h, .inl rfl⟩) (.inr rfl) _ _ _ inferInstance
        · have hbenign : element.get "malicious" ≠ some "1" := by
            rw [htext]
            simpa using hone
          have hgroup : (s₀.group g).malicious = false := by
            rw [← hmalicious]
            simpa using hgroup
          exact judge_concludes ho
            (fun _ h => ⟨rfl, hread _ h, .inr ⟨rfl, hgroup, hbenign⟩⟩) (.inl rfl) _ _ _ inferInstance
    · rintro s₂ ⟨s₁, ⟨s, rfl, htime⟩, hitems⟩
      obtain ⟨hcodes, hlist, hurl, hmalicious⟩ := setVisitFinishTime_keeps _ htime
      have hquiet : Quiet s₁ s₂ := Exec.Within.of_run hitems
      have hgroup : s₂.group = s₁.group := by rw [hquiet.rest]
      refine ⟨?_, by rw [hgroup, hmalicious]⟩
      exact (of_run_endItems_codes hitems).1.trans (by rw [hcodes, codesAfter_congr hlist hurl])
  exact hall s rfl rfl

/-- An error message whose items have been read, when the error is retried. -/
theorem retryError_concludes {element : Element} {map : StringMap} {major : String}
    {s₀ : ServerState} (hmajor : element.get "error-code" = some major)
    (hretry : Client.isErrorToRetry major = true) {o : Option VmRef} {v : VmRef} (ho : o = some v) :
    Concludes c g o (ErrorRead g element s₀) (ErrorEnds g element s₀)
      (Client.retryError c g element map major) := by
  -- the verdict has been passed
  have hend : ∀ malicious, malicious = decide (element.get "malicious" = some "1") →
      Concludes c g o (fun s => ErrorRead g element s₀ s ∧ (s.group g).malicious = malicious)
        (ErrorEnds g element s₀) (do
          UrlGroup.setMajorErrorCode g (← Exec.orThrow .numberFormat (parseLong major))
          UrlGroup.setUrlGroupState g .error
          Client.leaveGroup c .disconnected) := by
    intro malicious hmalicious
    cases hn : parseLong major with
    | none => exact Concludes.throw _
    | some n =>
        simp only [Exec.orThrow_some, Exec.pure_bind]
        refine Concludes.bind inferInstance fun _ => ?_
        refine Concludes.leave ho (fun s₁ h => ?_) (.inr rfl)
        obtain ⟨s, ⟨hread, hs⟩, hrun⟩ := h
        have hkept := Exec.Within.stays (x := UrlGroup.setMajorErrorCode g n) hread
        rw [hrun] at hkept
        obtain rfl : (s.setGroup g fun x => { x with majorErrorCode := ErrorCode.ofNumber n }) = s₁ :=
          congrArg Prod.snd hrun
        refine ⟨hkept, .inr ⟨rfl, rfl, ?_, major, n, hmajor, hretry, hn, ?_⟩⟩
        · rw [ServerState.group_setGroup, ← hmalicious, ← hs]
        · rw [ServerState.group_setGroup]
  have hjudge : ∀ malicious, malicious = decide (element.get "malicious" = some "1") →
      ∀ algorithm, Concludes c g o (ErrorRead g element s₀) (ErrorEnds g element s₀) (do
        UrlGroup.setMalicious g algorithm malicious (some map)
        UrlGroup.setMajorErrorCode g (← Exec.orThrow .numberFormat (parseLong major))
        UrlGroup.setUrlGroupState g .error
        Client.leaveGroup c .disconnected) := by
    intro malicious hmalicious algorithm
    refine Concludes.bind inferInstance fun _ => (hend malicious hmalicious).weaken ?_
    rintro s₁ ⟨s, hread, hrun⟩
    have hkept := Exec.Within.stays (x := UrlGroup.setMalicious g algorithm malicious (some map)) hread
    rw [hrun] at hkept
    exact ⟨hkept, of_run_setMalicious hrun⟩
  refine Concludes.bind_keep inferInstance inferInstance fun client => ?_
  refine Concludes.bind_keep inferInstance inferInstance fun config => ?_
  refine Concludes.ite (fun _ => Concludes.throw _) fun _ => ?_
  refine Concludes.deref fun malicious hattr => ?_
  refine Concludes.ite (fun hone => ?_) fun hone => ?_
  · refine Concludes.bind_keep inferInstance inferInstance fun _ => ?_
    exact hjudge true (by rw [hattr, hone]; rfl) _
  · exact hjudge false (by rw [hattr]; simpa using hone) _

/-- The same, when the error stands. -/
theorem finalError_concludes {element : Element} {map : StringMap} {major : String}
    {s₀ : ServerState} (hmajor : element.get "error-code" = some major)
    (hstands : Client.isErrorToRetry major = false) {o : Option VmRef} {v : VmRef} (ho : o = some v) :
    Concludes c g o (ErrorRead g element s₀) (ErrorEnds g element s₀)
      (Client.finalError c g element map) := by
  refine Concludes.bind_keep inferInstance inferInstance fun client => ?_
  refine Concludes.deref fun malicious hmalicious => ?_
  refine Concludes.ite (fun _ => ?_) fun hone => ?_
  · refine Concludes.bind_keep inferInstance inferInstance fun _ => ?_
    exact judge_concludes ho (fun _ h => ⟨h, .inl ⟨rfl, .inl rfl⟩⟩) (.inr rfl) _ _ _ inferInstance
  · have hbenign : element.get "malicious" ≠ some "1" := by
      rw [hmalicious]
      simpa using hone
    exact judge_concludes ho (fun _ h => ⟨h, .inl ⟨rfl, .inr ⟨rfl, hbenign, major, hmajor,
      hstands⟩⟩⟩) (.inl rfl) _ _ _ inferInstance

theorem parseError_outcome (element : Element) {s : ServerState}
    (hg : (s.client c).visitingUrlGroup = some g) :
    Outcome c g (ErrorEnds g element s) s ((Client.parseError c element).run s) := by
  have hrest : ∀ map : StringMap, Concludes c g (s.client c).virtualMachine
      (ErrorRead g element s) (ErrorEnds g element s) (do
        let major ← deref (element.get "error-code")
        let _ ← deref (s.client c).virtualMachine
        let g ← deref (some g)
        if Client.isErrorToRetry major then Client.retryError c g element map major
        else Client.finalError c g element map) := by
    intro map
    refine Concludes.deref fun major hmajor => ?_
    refine Concludes.deref fun v ho => ?_
    refine Concludes.ite (fun hretry => ?_) fun hstands => ?_
    · exact retryError_concludes hmajor hretry ho
    · exact finalError_concludes hmajor (by simpa using hstands) ho
  have hall : Concludes c g (s.client c).virtualMachine (· = s) (ErrorEnds g element s)
      (Client.parseError c element) := by
    refine Concludes.gets_bind fun s₀ hs _ => ?_
    subst hs
    cases hitems : element.childElements with
    | nil =>
        simp only [hg]
        refine (hrest []).weaken ?_
        rintro s rfl
        exact { codes := by rw [hitems, codesAfter], minors := by rw [hitems, minorsAfter]
                visitStartTime := rfl, algorithm := rfl }
    | cons item items =>
        simp only [hg, Exec.orThrow_some, Exec.pure_bind]
        refine Concludes.bind inferInstance fun ids => ?_
        refine (hrest ids.2).weaken ?_
        rintro s₁ ⟨s, rfl, hrun⟩
        obtain ⟨hcodes, hminors⟩ := of_run_endItems_codes hrun
        exact { codes := by rw [hitems, hcodes], minors := by rw [hitems, hminors]
                visitStartTime := Exec.Within.of_run hrun, algorithm := Exec.Within.of_run hrun }
  exact hall s rfl rfl

/-! ## All of them -/

/-- The server when a visit event has been read: the client has the algorithm of the event. -/
def told (c : ClientRef) (element : Element) (s : ServerState) : ServerState :=
  s.setClient c fun x => { x with algorithm := element.get "algorithm" }

theorem told_edits (g : GroupRef) (element : Element) (s : ServerState) :
    Edits c g s (told c element s) := by
  have hedits : (updateClient c fun x => { x with algorithm := element.get "algorithm" }).Within
      (Edits c g) := updateClient_edits fun _ => rfl
  exact hedits.post s

/-- **What a visit event comes to.** -/
inductive Visited (c : ClientRef) (element : Element) (s : ServerState) :
    Except JavaException Unit × ServerState → Prop
  | ignored {r : Except JavaException Unit} : Visited c element s (r, told c element s)
  | start {g : GroupRef} {r : Except JavaException Unit × ServerState} :
      element.get "type" = some "start" → (s.client c).visitingUrlGroup = some g →
        Begun c g (told c element s) r → Visited c element s r
  | finish {g : GroupRef} {r : Except JavaException Unit × ServerState} :
      element.get "type" = some "finish" → (s.client c).visitingUrlGroup = some g →
        Outcome c g (FinishEnds g element (told c element s)) (told c element s) r →
          Visited c element s r
  | error {g : GroupRef} {r : Except JavaException Unit × ServerState} :
      element.get "type" = some "error" → (s.client c).visitingUrlGroup = some g →
        Outcome c g (ErrorEnds g element (told c element s)) (told c element s) r →
          Visited c element s r

theorem run_parseVisitEvent (c : ClientRef) (element : Element) (s : ServerState) :
    (Client.parseVisitEvent c element).run s = (do
      let type ← deref (element.get "type")
      if type = "start" then Client.parseStart c element
      else if type = "finish" then Client.parseFinish c element
      else if type = "error" then Client.parseError c element : Action Unit).run
        (told c element s) := rfl

theorem parseVisitEvent_visited (element : Element) (s : ServerState) :
    Visited c element s ((Client.parseVisitEvent c element).run s) := by
  have hclient : (told c element s).client c =
      { s.client c with algorithm := element.get "algorithm" } := ServerState.client_setClient ..
  have hgroup : ((told c element s).client c).visitingUrlGroup =
      (s.client c).visitingUrlGroup := by rw [hclient]
  rw [run_parseVisitEvent]
  cases htype : element.get "type" with
  | none => exact .ignored
  | some type =>
      simp only [Exec.orThrow_some, Exec.pure_bind]
      cases hg : (s.client c).visitingUrlGroup with
      | none =>
          rw [hg] at hgroup
          have hstart : ∃ r, (Client.parseStart c element).run (told c element s) =
              (r, told c element s) := by
            rw [Client.parseStart]
            simp only [Exec.run_gets_bind, hgroup]
            cases ((told c element s).client c).virtualMachine <;> exact ⟨_, rfl⟩
          have hfinish : ∃ r, (Client.parseFinish c element).run (told c element s) =
              (r, told c element s) := by
            rw [Client.parseFinish]
            simp only [Exec.run_gets_bind, hgroup]
            exact ⟨_, rfl⟩
          have herror : ∃ r, (Client.parseError c element).run (told c element s) =
              (r, told c element s) := by
            rw [Client.parseError]
            simp only [Exec.run_gets_bind, hgroup]
            cases element.childElements with
            | cons item items => exact ⟨_, rfl⟩
            | nil =>
                cases element.get "error-code" with
                | none => exact ⟨_, rfl⟩
                | some major =>
                    cases ((told c element s).client c).virtualMachine <;> exact ⟨_, rfl⟩
          split
          · obtain ⟨r, hr⟩ := hstart
            rw [hr]
            exact .ignored
          · split
            · obtain ⟨r, hr⟩ := hfinish
              rw [hr]
              exact .ignored
            · split
              · obtain ⟨r, hr⟩ := herror
                rw [hr]
                exact .ignored
              · exact .ignored
      | some g =>
          rw [hg] at hgroup
          split
          · next hstart => exact .start (by rw [htype, hstart]) hg (parseStart_begun element hgroup)
          · split
            · next hfinish =>
                exact .finish (by rw [htype, hfinish]) hg (parseFinish_outcome element hgroup)
            · split
              · next herror =>
                  exact .error (by rw [htype, herror]) hg (parseError_outcome element hgroup)
              · exact .ignored

end Handling

end CaptureHpc.Server
