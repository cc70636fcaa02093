/-
# `Server.VisitEnds` — a group that enters VISITED or ERROR

`setUrlGroupState(ERROR)` is what every failed visit comes to, and this says all
that it does.  With a database it throws at a URL whose start time is not known,
and it throws at a group without an algorithm; before either, the group has
counted the error (`run_fail_throws`).  Otherwise the group is cut in two, or is
put back if this is its first error, and every URL has the code of the group
(`run_fail_notifies`).

A group that enters VISITED may be cut in two as well, but is never put back, and
the codes of its URLs stay (`of_run_visited`).
-/
import CaptureHpc.Server.Items

namespace CaptureHpc.Server

open Java

/-! ## One URL -/

section One
variable (u : UrlRef) (s : ServerState)

/-- The URL can enter ERROR: with a database its start time is wanted. -/
def CanFail (s : ServerState) (u : UrlRef) : Prop :=
  (s.visit u).urlState = .error ∨
    (s.config.database = true → (s.visit u).visitStartTime.isSome = true)

instance : Decidable (CanFail s u) := inferInstanceAs (Decidable (_ ∨ (_ → _)))

instance : (Url.closeEventLog u).Within (Lasts UrlVisit.visitStartTime) :=
  updateVisit_lasts fun _ => rfl

instance (line : LogLine) :
    (Exec.modify (ServerState.writeLog line) : Action Unit).Within (Lasts UrlVisit.visitStartTime) :=
  ⟨fun _ => rfl⟩

instance (x : UrlVisit) : (Url.storeError u x).Total := by
  unfold Url.storeError
  infer_instance

instance : (Url.closeEventLog u).Total := by
  unfold Url.closeEventLog
  infer_instance

instance : (UrlsController.update u).Total := by
  unfold UrlsController.update
  infer_instance

/-- Entering ERROR always gives a status. -/
theorem run_enterError :
    ∃ status s', (Url.enterError u).run s = (.ok status, s') ∧ status.isSome = true := by
  have hreturn : ∀ (status : String) (s : ServerState), ∃ status' s',
      (pure (some status) : Action (Option String)).run s = (.ok status', s') ∧
        status'.isSome = true := fun status s => ⟨some status, s, rfl, rfl⟩
  rw [Url.enterError]
  refine Exec.Total.bind_mem (fun x s => ?_) s
  cases x.malicious with
  | none => exact Exec.Total.bind_mem (fun _ => hreturn _) s
  | some malicious =>
      have hrest : ∀ s, ∃ status s', (do
          writeLog (.progressError u x.majorErrorCode x.minorErrorCode)
          Url.storeError u x
          Url.closeEventLog u
          return some (if malicious then "malicious" else "error") : Action (Option String)).run s =
            (.ok status, s') ∧ status.isSome = true := by
        refine Exec.Total.bind_mem fun _ => ?_
        refine Exec.Total.bind_mem fun _ => ?_
        exact Exec.Total.bind_mem fun _ => hreturn _
      cases malicious with
      | true => exact Exec.Total.bind_mem (fun _ => hrest) s
      | false => exact hrest s

theorem setUrlState_error_ok :
    (∃ s', (Url.setUrlState u .error).run s = (.ok (), s')) ↔ CanFail s u := by
  by_cases hsame : (s.visit u).urlState = .error
  · refine ⟨fun _ => .inl hsame, fun _ => ⟨s, ?_⟩⟩
    simp [Url.setUrlState, hsame]
  · obtain ⟨status, s₁, hrun, hstatus⟩ :=
      run_enterError u (s.setVisit u fun x => { x with urlState := .error })
    obtain ⟨status, rfl⟩ := Option.isSome_iff_exists.mp hstatus
    have hstore : StoreOnly (s.setVisit u fun x => { x with urlState := .error }) s₁ :=
      Exec.Within.of_run hrun
    have hconfig : s₁.config = s.config := by rw [hstore]; rfl
    have hstart : (s₁.visit u).visitStartTime = (s.visit u).visitStartTime := by
      refine (congrFun (Exec.Within.of_run (R := Lasts UrlVisit.visitStartTime) hrun) u).trans ?_
      show ((s.setVisit u fun x => { x with urlState := .error }).visit u).visitStartTime = _
      rw [ServerState.visit_setVisit]
    have hsplit : (Url.setUrlState u .error).run s =
        (Url.storeStatus u (some status) >>= fun _ => UrlsController.update u).run s₁ := by
      simp only [Url.setUrlState, Exec.run_gets_bind, ne_eq, hsame, not_false_eq_true, if_true,
        Exec.run_modify_bind, Exec.run_bind_ok hrun]
    have hcan : CanFail s u ↔
        (s.config.database = true → (s.visit u).visitStartTime.isSome = true) := by
      rw [CanFail, or_iff_right hsame]
    rw [hsplit, hcan]
    cases hdatabase : s.config.database with
    | false =>
        have hquiet : (Url.storeStatus u (some status)).run s₁ = (.ok (), s₁) := by
          simp [Url.storeStatus, hconfig, hdatabase]
        obtain ⟨_, s₂, h₂⟩ := Exec.Total.returns (x := UrlsController.update u) s₁
        rw [Exec.run_bind_ok hquiet]
        exact ⟨fun _ => Bool.noConfusion, fun _ => ⟨s₂, h₂⟩⟩
    | true =>
        cases htime : (s.visit u).visitStartTime with
        | none =>
            rw [htime] at hstart
            have hthrows : (Url.storeStatus u (some status)).run s₁ = (.error .nullPointer, s₁) := by
              simp [Url.storeStatus, Url.getVisitStartTime, hconfig, hdatabase, hstart]
            rw [Exec.run_bind_error hthrows]
            refine iff_of_false ?_ fun h => Bool.noConfusion (h rfl)
            rintro ⟨_, h⟩
            cases congrArg Prod.fst h
        | some date =>
            rw [htime] at hstart
            obtain ⟨s₂, h₂⟩ : ∃ s₂, (Url.storeStatus u (some status)).run s₁ = (.ok (), s₂) := by
              simp [Url.storeStatus, Url.getVisitStartTime, hconfig, hdatabase, hstart]
            obtain ⟨_, s₃, h₃⟩ := Exec.Total.returns (x := UrlsController.update u) s₂
            rw [Exec.run_bind_ok h₂]
            exact ⟨fun _ _ => rfl, fun _ => ⟨s₃, h₃⟩⟩

theorem canFail_congr {w : UrlRef} {s s' : ServerState} (hstate : states s' w = states s w)
    (hstart : Lasts UrlVisit.visitStartTime s s') (hconfig : s'.config = s.config) :
    CanFail s' w ↔ CanFail s w := by
  have h₁ : (s'.visit w).urlState = (s.visit w).urlState := congrArg Prod.fst hstate
  have h₂ : (s'.visit w).visitStartTime = (s.visit w).visitStartTime := congrFun hstart w
  rw [CanFail, CanFail, h₁, h₂, hconfig]

instance : (UrlsController.update u).Within (Lasts UrlVisit.visitStartTime) := by
  have hadd : (Exec.modify fun s : ServerState => { s with store :=
      { s.store with errorUrlList := s.store.errorUrlList ++ [u] } } : Action Unit).Within
        (Lasts UrlVisit.visitStartTime) := ⟨fun _ => rfl⟩
  unfold UrlsController.update
  infer_instance

instance : (Url.setUrlState u .error).Within (Lasts UrlVisit.visitStartTime) := by
  have hstate := updateVisit_lasts (u := u) (p := UrlVisit.visitStartTime)
    (f := fun x => { x with urlState := .error }) fun _ => rfl
  unfold Url.setUrlState
  infer_instance

instance (n : Int) : (Url.setMajorErrorCode u n).Within (Lasts UrlVisit.visitStartTime) :=
  updateVisit_lasts fun _ => rfl

instance (g : GroupRef) : (UrlGroup.passOn g .error u).Within (Lasts UrlVisit.visitStartTime) := by
  unfold UrlGroup.passOn
  infer_instance

theorem passOn_error_ok (g : GroupRef) :
    (∃ s', (UrlGroup.passOn g .error u).run s = (.ok (), s')) ↔ CanFail s u := by
  by_cases hok : (s.visit u).majorErrorCode = .ok
  · have hsame : ∀ n, CanFail (s.setVisit u fun x => { x with majorErrorCode := n }) u ↔
        CanFail s u := by
      intro n
      rw [CanFail, CanFail, ServerState.visit_setVisit]
      rfl
    simp only [UrlGroup.passOn, Exec.run_gets_bind, hok, if_true, Url.setMajorErrorCode,
      Exec.run_modify_bind]
    rw [setUrlState_error_ok, hsame]
  · simp only [UrlGroup.passOn, Exec.run_gets_bind, hok, if_false]
    exact setUrlState_error_ok u s

end One

/-! ## The URLs of a group -/

section All
variable {g : GroupRef}

/-- After one URL the others can fail as before. -/
theorem canFail_passOn {u : UrlRef} {s s' : ServerState}
    (h : (UrlGroup.passOn g .error u).run s = (.ok (), s')) (w : UrlRef) :
    CanFail s' w ↔ CanFail s w := by
  have hstates := states_passOn_error g u s
  rw [h] at hstates
  have hstore : StoreOnly s s' := Exec.Within.of_run h
  by_cases hw : w = u
  · subst hw
    have herror : (s'.visit w).urlState = .error := by
      have hfailed : states s' w = failed g w s := by rw [hstates, Function.update_self]
      exact congrArg Prod.fst hfailed
    exact ⟨fun _ => (passOn_error_ok w s g).mp ⟨s', h⟩, fun _ => .inl herror⟩
  · refine canFail_congr ?_ (Exec.Within.of_run h) (by rw [hstore])
    rw [hstates, Function.update_of_ne hw]

/-- All URLs enter ERROR if all can. -/
theorem failAll_ok : ∀ (l : List UrlRef) (s : ServerState),
    (∃ s', (l.forM (UrlGroup.passOn g .error)).run s = (.ok (), s')) ↔ ∀ u ∈ l, CanFail s u
  | [], s => ⟨fun _ u hu => absurd hu List.not_mem_nil, fun _ => ⟨s, rfl⟩⟩
  | u :: l, s => by
      have hcons : (List.forM (u :: l) (UrlGroup.passOn g .error)).run s =
          (UrlGroup.passOn g .error u >>= fun _ => l.forM (UrlGroup.passOn g .error)).run s := rfl
      rw [hcons]
      constructor
      · rintro ⟨s', h⟩
        obtain ⟨_, s₁, hu, hl⟩ := Exec.of_run_bind_ok h
        intro w hw
        rcases List.mem_cons.mp hw with rfl | hw
        · exact (passOn_error_ok w s g).mp ⟨s₁, hu⟩
        · exact (canFail_passOn hu w).mp ((failAll_ok l s₁).mp ⟨s', hl⟩ w hw)
      · intro h
        obtain ⟨s₁, hu⟩ := (passOn_error_ok u s g).mpr (h u List.mem_cons_self)
        rw [Exec.run_bind_ok hu]
        exact (failAll_ok l s₁).mpr fun w hw =>
          (canFail_passOn hu w).mpr (h w (List.mem_cons_of_mem _ hw))

end All

/-! ## The controller -/

/-- The controller cuts the group in two. -/
def Divides (group : UrlGroup) : Prop :=
  group.algorithm = some "dac" ∧ group.malicious = true ∧ 1 < group.size

instance (group : UrlGroup) : Decidable (Divides group) := inferInstanceAs (Decidable (_ ∧ _ ∧ _))

namespace UrlGroupsController

theorem run_divides {group : UrlGroup} (h : group.algorithm.isSome = true) (s : ServerState) :
    (divides group).run s = (.ok (decide (Divides group)), s) := by
  obtain ⟨algorithm, halg⟩ := Option.isSome_iff_exists.mp h
  simp [divides, Divides, halg, Bool.and_assoc]

theorem run_new {urls : List UrlRef} (h : urls ≠ []) (s : ServerState) :
    ∃ x, (UrlGroup.new urls).run s =
      (.ok s.nextGroup, { s with nextGroup := s.nextGroup + 1
                                 group := Function.update s.group s.nextGroup x }) := by
  cases urls with
  | nil => exact absurd rfl h
  | cons u urls => exact ⟨_, rfl⟩

/-- The two halves are new groups, and they are queued. -/
theorem run_split {urls : List UrlRef} (h : 1 < urls.length) (s : ServerState) :
    ∃ s', (split urls).run s = (.ok (), s') ∧ s'.nextGroup = s.nextGroup + 2 ∧
      s'.urlGroupQueue = (s.nextGroup + 1) :: s.nextGroup :: s.urlGroupQueue ∧ s'.store = s.store ∧
      ∀ g < s.nextGroup, s'.group g = s.group g := by
  have hfirst : urls.take (urls.length / 2) ≠ [] := by
    intro hnil
    have := congrArg List.length hnil
    rw [List.length_take, List.length_nil] at this
    omega
  have hsecond : urls.drop (urls.length / 2) ≠ [] := by
    intro hnil
    have := congrArg List.length hnil
    rw [List.length_drop, List.length_nil] at this
    omega
  obtain ⟨x, hx⟩ := run_new hfirst s
  obtain ⟨y, hy⟩ := run_new hsecond
    { s with nextGroup := s.nextGroup + 1, group := Function.update s.group s.nextGroup x
             urlGroupQueue := s.nextGroup :: s.urlGroupQueue }
  have hrun : (split urls).run s = (.ok (), { s with
      nextGroup := s.nextGroup + 2
      group := Function.update (Function.update s.group s.nextGroup x) (s.nextGroup + 1) y
      urlGroupQueue := (s.nextGroup + 1) :: s.nextGroup :: s.urlGroupQueue }) := by
    rw [split, Exec.run_bind_ok hx, push, Exec.run_modify_bind, Exec.run_bind_ok hy]
    rfl
  refine ⟨_, hrun, rfl, rfl, rfl, ?_⟩
  · intro g hg
    show Function.update (Function.update s.group s.nextGroup x) (s.nextGroup + 1) y g = s.group g
    rw [Function.update_of_ne (Nat.ne_of_lt (Nat.lt_succ_of_lt hg)),
      Function.update_of_ne (Nat.ne_of_lt hg)]

/-- The loop over the URLs, which are in ERROR already, only sets their codes. -/
theorem run_failUrls (group : UrlGroup) : ∀ (l : List UrlRef) (s : ServerState),
    (∀ u ∈ l, (s.visit u).urlState = .error) →
      ∃ s', (l.forM (failUrl group)).run s = (.ok (), s') ∧ ∀ w, states s' w =
        if w ∈ l then (.error, ErrorCode.ofNumber group.majorErrorCode.errorCode) else states s w
  | [], s, _ => ⟨s, rfl, fun w => (if_neg List.not_mem_nil).symm⟩
  | u :: l, s, h => by
      have herror : ((s.setVisit u fun x => { x with
          majorErrorCode := ErrorCode.ofNumber group.majorErrorCode.errorCode }).visit u).urlState =
            .error := by
        rw [ServerState.visit_setVisit]
        exact h u List.mem_cons_self
      have hrun : (failUrl group u).run s = (.ok (), s.setVisit u fun x => { x with
          majorErrorCode := ErrorCode.ofNumber group.majorErrorCode.errorCode }) := by
        simp only [failUrl, Url.setMajorErrorCode, Exec.run_modify_bind, Url.setUrlState,
          Exec.run_gets_bind, herror, ne_eq, not_true_eq_false, if_false, Exec.run_pure]
      have hstates := states_failUrl u s group
      rw [hrun] at hstates
      have hall : ∀ w ∈ l, ((s.setVisit u fun x => { x with
          majorErrorCode := ErrorCode.ofNumber group.majorErrorCode.errorCode }).visit w).urlState =
            .error := by
        intro w hw
        by_cases hwu : w = u
        · subst hwu
          exact herror
        · have hsame := congrFun hstates w
          rw [Function.update_of_ne hwu] at hsame
          exact (congrArg Prod.fst hsame).trans (h w (List.mem_cons_of_mem _ hw))
      obtain ⟨s', hrest, hset⟩ := run_failUrls group l _ hall
      refine ⟨s', (Exec.run_bind_ok hrun).trans hrest, fun w => ?_⟩
      rw [hset, hstates]
      by_cases hwl : w ∈ l
      · rw [if_pos hwl, if_pos (List.mem_cons_of_mem _ hwl)]
      · rw [if_neg hwl]
        by_cases hwu : w = u
        · subst hwu
          rw [Function.update_self, if_pos List.mem_cons_self]
        · rw [Function.update_of_ne hwu, if_neg (by simp [hwu, hwl])]

/-- The controller hears of an error. -/
theorem run_update_error {g : GroupRef} {s : ServerState} (hg : g < s.nextGroup)
    (hstate : (s.group g).urlGroupState = .error) (halg : (s.group g).algorithm.isSome = true)
    (hurls : ∀ u ∈ (s.group g).urlList, (s.visit u).urlState = .error) :
    ∃ s', (update g).run s = (.ok (), s') ∧ s'.group g = s.group g ∧
      s'.nextGroup = (if Divides (s.group g) then s.nextGroup + 2 else s.nextGroup) ∧
      s'.urlGroupQueue = (if Divides (s.group g) then
          (s.nextGroup + 1) :: s.nextGroup :: s.urlGroupQueue
        else if (s.group g).errorCount ≤ 1 then g :: s.urlGroupQueue else s.urlGroupQueue) ∧
      ∀ w, states s' w = if w ∈ (s.group g).urlList then
        (.error, ErrorCode.ofNumber (s.group g).majorErrorCode.errorCode) else states s w := by
  let s₁ : ServerState := { s with visitingList := s.visitingList.erase g }
  have hbegin : (update g).run s = (do
      if decide (Divides (s.group g)) then split (s.group g).urlList
      (s.group g).urlList.forM (failUrl (s.group g))
      if !decide (Divides (s.group g)) && retry (s.group g) && (s.group g).errorCount ≤ 1 then
        push g : Action Unit).run s₁ := by
    simp only [update, Exec.run_gets_bind, hstate, Exec.run_modify_bind]
    exact Exec.run_bind_ok (run_divides halg s₁)
  rw [hbegin]
  by_cases hdivides : Divides (s.group g)
  · obtain ⟨s₂, hsplit, hnext, hqueue, hstore, hgroups⟩ := run_split hdivides.2.2 s₁
    have hall : ∀ u ∈ (s.group g).urlList, (s₂.visit u).urlState = .error := by
      intro u hu
      rw [ServerState.visit, hstore]
      exact hurls u hu
    obtain ⟨s₃, hfail, hset⟩ := run_failUrls (s.group g) _ s₂ hall
    have hkeep : StoreOnly s₂ s₃ := Exec.Within.of_run hfail
    refine ⟨s₃, ?_, ?_, ?_, ?_, fun w => ?_⟩
    · simp only [hdivides, decide_true, if_true]
      rw [Exec.run_bind_ok hsplit, Exec.run_bind_ok hfail]
      rfl
    · rw [hkeep]
      exact hgroups g hg
    · rw [hkeep, if_pos hdivides]
      exact hnext
    · rw [hkeep, if_pos hdivides]
      exact hqueue
    · rw [hset]
      have hsame : states s₂ w = states s w := by
        rw [states, states, ServerState.visit, hstore]
        rfl
      rw [hsame]
  · obtain ⟨s₂, hfail, hset⟩ := run_failUrls (s.group g) _ s₁ hurls
    have hkeep : StoreOnly s₁ s₂ := Exec.Within.of_run hfail
    by_cases hcount : (s.group g).errorCount ≤ 1
    · refine ⟨{ s₂ with urlGroupQueue := g :: s₂.urlGroupQueue }, ?_, ?_, ?_, ?_, hset⟩
      · simp only [hdivides, decide_false, Bool.false_eq_true, if_false]
        rw [Exec.run_bind_ok hfail]
        simp [retry, hcount, push]
      · show s₂.group g = _
        rw [hkeep]
      · show s₂.nextGroup = _
        rw [hkeep, if_neg hdivides]
      · show g :: s₂.urlGroupQueue = _
        rw [hkeep, if_neg hdivides, if_pos hcount]
    · refine ⟨s₂, ?_, ?_, ?_, ?_, hset⟩
      · simp only [hdivides, decide_false, Bool.false_eq_true, if_false]
        rw [Exec.run_bind_ok hfail]
        simp [hcount]
      · rw [hkeep]
      · rw [hkeep, if_neg hdivides]
      · rw [hkeep, if_neg hdivides, if_neg hcount]

end UrlGroupsController

/-! ## The transition -/

section Transition
variable {g : GroupRef} {s : ServerState}

/-- The transition to ERROR throws nothing, so that the controller is notified. -/
structure Notifies (g : GroupRef) (s : ServerState) : Prop where
  algorithm : (s.group g).algorithm.isSome = true
  urls : ∀ u ∈ (s.group g).urlList, CanFail s u

instance : Decidable (Notifies g s) :=
  decidable_of_iff ((s.group g).algorithm.isSome = true ∧ ∀ u ∈ (s.group g).urlList, CanFail s u)
    ⟨fun h => ⟨h.1, h.2⟩, fun h => ⟨h.algorithm, h.urls⟩⟩

/-- What the group, the queue and the URLs are after a transition to ERROR. -/
structure EnteredError (g : GroupRef) (s s' : ServerState) : Prop where
  group : s'.group g = UrlGroup.enter .error (s.group g)
  nextGroup : s'.nextGroup = if Divides (s.group g) then s.nextGroup + 2 else s.nextGroup
  urlGroupQueue : s'.urlGroupQueue = if Divides (s.group g) then
      (s.nextGroup + 1) :: s.nextGroup :: s.urlGroupQueue
    else if (s.group g).errorCount = 0 then g :: s.urlGroupQueue else s.urlGroupQueue
  states : ∀ u ∈ (s.group g).urlList,
    states s' u = (.error, ErrorCode.ofNumber (s.group g).majorErrorCode.errorCode)

/-- The loop over the URLs comes first, and then the controller. -/
theorem run_fail (g : GroupRef) (s : ServerState) :
    (UrlGroup.setUrlGroupState g .error).run s =
      ((s.group g).urlList.forM (UrlGroup.passOn g .error) >>= fun _ =>
        UrlGroupsController.update g).run (s.setGroup g (UrlGroup.enter .error)) := by
  have hlist : ((s.setGroup g (UrlGroup.enter .error)).group g).urlList = (s.group g).urlList := by
    rw [ServerState.group_setGroup]
    rfl
  rw [UrlGroup.setUrlGroupState]
  simp only [Exec.run_modify_bind, Exec.run_gets_bind, hlist]

theorem run_fail_notifies (hg : g < s.nextGroup) (h : Notifies g s) :
    ∃ s', (UrlGroup.setUrlGroupState g .error).run s = (.ok (), s') ∧ EnteredError g s s' := by
  obtain ⟨s₁, hloop⟩ := (failAll_ok (g := g) (s.group g).urlList
    (s.setGroup g (UrlGroup.enter .error))).mpr h.urls
  have hkeep : StoreOnly (s.setGroup g (UrlGroup.enter .error)) s₁ := Exec.Within.of_run hloop
  have hgroup : s₁.group g = UrlGroup.enter .error (s.group g) := by
    rw [hkeep]
    exact ServerState.group_setGroup ..
  have hnext : s₁.nextGroup = s.nextGroup := by rw [hkeep]; rfl
  have hqueue : s₁.urlGroupQueue = s.urlGroupQueue := by rw [hkeep]; rfl
  have herrors : ∀ u ∈ (s₁.group g).urlList, (s₁.visit u).urlState = .error := by
    rw [hgroup]
    exact errors_of_run_failAll hloop
  obtain ⟨s', hrun, hgroup', hnext', hqueue', hstates⟩ := UrlGroupsController.run_update_error
    (g := g) (s := s₁) (by rwa [hnext]) (by rw [hgroup]; rfl) (by rw [hgroup]; exact h.algorithm)
      herrors
  rw [hgroup, hnext] at hnext'
  rw [hgroup, hnext, hqueue] at hqueue'
  refine ⟨s', (run_fail g s).trans ((Exec.run_bind_ok hloop).trans hrun), hgroup'.trans hgroup, hnext', ?_, fun u hu => ?_⟩
  · have hcount : (UrlGroup.enter .error (s.group g)).errorCount ≤ 1 ↔
        (s.group g).errorCount = 0 := by
      show (s.group g).errorCount + 1 ≤ 1 ↔ _
      omega
    simp only [hcount] at hqueue'
    exact hqueue'
  · have hone := hstates u
    rw [hgroup] at hone
    exact hone.trans (if_pos hu)

theorem run_fail_throws (h : ¬ Notifies g s) :
    ∃ e s', (UrlGroup.setUrlGroupState g .error).run s = (.error e, s') ∧
      s'.group g = UrlGroup.enter .error (s.group g) ∧ s'.nextGroup = s.nextGroup ∧
      s'.urlGroupQueue = s.urlGroupQueue ∧ ∀ u, codes s u ≠ .ok → codes s' u = codes s u := by
  cases hloop : ((s.group g).urlList.forM (UrlGroup.passOn g .error)).run
      (s.setGroup g (UrlGroup.enter .error)) with
  | mk r s₁ =>
    have hkeep : StoreOnly (s.setGroup g (UrlGroup.enter .error)) s₁ := Exec.Within.of_run hloop
    have hgroup : s₁.group g = UrlGroup.enter .error (s.group g) := by
      rw [hkeep]
      exact ServerState.group_setGroup ..
    have hown : ∀ u, codes s u ≠ .ok → codes s₁ u = codes s u := by
      intro u hu
      rcases (of_run_failAll hloop).1 u with hsame | ⟨-, hfailed⟩
      · exact congrArg Prod.snd hsame
      · exact (congrArg Prod.snd hfailed).trans (if_neg hu)
    cases r with
    | error e =>
        refine ⟨e, s₁, (run_fail g s).trans (Exec.run_bind_error hloop), hgroup, ?_, ?_, hown⟩
        · rw [hkeep]; rfl
        · rw [hkeep]; rfl
    | ok _ =>
        have hurls : ∀ u ∈ (s.group g).urlList, CanFail s u :=
          (failAll_ok (g := g) _ (s.setGroup g (UrlGroup.enter .error))).mp ⟨s₁, hloop⟩
        have halg : (s.group g).algorithm = none := by
          cases halg : (s.group g).algorithm with
          | none => rfl
          | some algorithm => exact absurd ⟨by rw [halg]; rfl, hurls⟩ h
        have hthrows : (UrlGroupsController.update g).run s₁ = (.error .nullPointer,
            { s₁ with visitingList := s₁.visitingList.erase g }) := by
          simp only [UrlGroupsController.update, Exec.run_gets_bind, hgroup]
          simp [UrlGroup.enter, UrlGroupsController.divides, halg]
        refine ⟨_, _, (run_fail g s).trans ((Exec.run_bind_ok hloop).trans hthrows), hgroup, ?_, ?_,
          hown⟩
        · show s₁.nextGroup = _
          rw [hkeep]; rfl
        · show s₁.urlGroupQueue = _
          rw [hkeep]; rfl

end Transition

/-! ## VISITED -/

section Visited

/-- Groups that were there stay as they were. -/
structure OldKept (s s' : ServerState) : Prop where
  nextGroup : s.nextGroup ≤ s'.nextGroup
  group : ∀ g < s.nextGroup, s'.group g = s.group g

instance : Std.Refl OldKept := ⟨fun _ => ⟨Nat.le_refl _, fun _ _ => rfl⟩⟩

instance : IsTrans ServerState OldKept := by
  refine ⟨fun s s' s'' h h' => ⟨Nat.le_trans h.nextGroup h'.nextGroup, fun g hg => ?_⟩⟩
  exact (h'.group g (Nat.lt_of_lt_of_le hg h.nextGroup)).trans (h.group g hg)

instance {α : Type} {x : Action α} [h : x.Within StoreOnly] : x.Within OldKept :=
  h.mono fun _ _ hstore => ⟨by rw [hstore], fun _ _ => by rw [hstore]⟩

instance (urls : List UrlRef) : (UrlGroup.new urls).Within OldKept := by
  cases urls with
  | nil => exact Exec.Within.throw _
  | cons u urls =>
      refine ⟨fun s => ⟨Nat.le_succ _, fun g hg => ?_⟩⟩
      exact Function.update_of_ne (Nat.ne_of_lt hg) ..

instance (g : GroupRef) : (UrlGroupsController.push g).Within OldKept :=
  ⟨fun _ => ⟨Nat.le_refl _, fun _ _ => rfl⟩⟩

instance (urls : List UrlRef) : (UrlGroupsController.split urls).Within OldKept := by
  unfold UrlGroupsController.split
  infer_instance

/-- The controller changes no group that is there. -/
instance (g : GroupRef) : (UrlGroupsController.update g).Within OldKept := by
  have hlist : ∀ f : List GroupRef → List GroupRef, (Exec.modify fun s : ServerState =>
      { s with visitingList := f s.visitingList } : Action Unit).Within OldKept :=
    fun _ => ⟨fun _ => ⟨Nat.le_refl _, fun _ _ => rfl⟩⟩
  unfold UrlGroupsController.update
  refine Exec.Within.bind inferInstance fun group => ?_
  cases group.urlGroupState with
  | visiting => exact hlist fun l => l ++ [g]
  | visited => exact (hlist fun l => l.erase g).bind fun _ => inferInstance
  | error => exact (hlist fun l => l.erase g).bind fun _ => inferInstance
  | none => infer_instance
  | queued => infer_instance

/-- Of the groups that were there, only the one that changes its state is changed. -/
theorem of_run_setUrlGroupState {g : GroupRef} {newState : UrlGroupState} {s s' : ServerState}
    {r : Except JavaException Unit} (h : (UrlGroup.setUrlGroupState g newState).run s = (r, s')) :
    OldKept (s.setGroup g (UrlGroup.enter newState)) s' := by
  obtain ⟨s₁, hstore, ⟨e, he⟩ | he⟩ := run_setUrlGroupState g newState s
  · obtain rfl : s' = s₁ := congrArg Prod.snd (h.symm.trans he)
    exact ⟨by rw [hstore], fun _ _ => by rw [hstore]⟩
  · have hkept : OldKept (s.setGroup g (UrlGroup.enter newState)) s₁ :=
      ⟨by rw [hstore], fun _ _ => by rw [hstore]⟩
    exact IsTrans.trans _ _ _ hkept (Exec.Within.of_run (he.symm.trans h))

/-- The error codes of the URLs stay. -/
abbrev CodesKept : ServerState → ServerState → Prop := Exec.Same codes

instance (u : UrlRef) (newState : UrlState) : (Url.setUrlState u newState).Within CodesKept := by
  refine ⟨fun s => ?_⟩
  show codes _ = codes s
  rw [codes_update (states_setUrlState u s newState)]
  exact Function.update_eq_self u (codes s)

instance (g : GroupRef) (u : UrlRef) : (UrlGroup.passOn g .visited u).Within CodesKept := by
  unfold UrlGroup.passOn
  infer_instance

/-- The controller cuts a group that was visited in two, or does nothing to the queue. -/
theorem run_update_visited {g : GroupRef} {s : ServerState}
    (hstate : (s.group g).urlGroupState = .visited) :
    ((UrlGroupsController.update g).run s).2.store = s.store ∧
      (((UrlGroupsController.update g).run s).2.urlGroupQueue = s.urlGroupQueue ∨
        ∃ g₁ g₂, ((UrlGroupsController.update g).run s).2.urlGroupQueue =
          g₁ :: g₂ :: s.urlGroupQueue) := by
  simp only [UrlGroupsController.update, Exec.run_gets_bind, hstate, Exec.run_modify_bind]
  cases halg : (s.group g).algorithm with
  | none =>
      have hthrows : (UrlGroupsController.divides (s.group g)).run
          { s with visitingList := s.visitingList.erase g } =
            (.error .nullPointer, { s with visitingList := s.visitingList.erase g }) := by
        rw [UrlGroupsController.divides, halg]
        rfl
      rw [Exec.run_bind_error hthrows]
      exact ⟨rfl, .inl rfl⟩
  | some algorithm =>
      rw [Exec.run_bind_ok (UrlGroupsController.run_divides (by rw [halg]; rfl) _)]
      by_cases hdivides : Divides (s.group g)
      · obtain ⟨s', hsplit, -, hqueue, hstore, -⟩ := UrlGroupsController.run_split hdivides.2.2
          { s with visitingList := s.visitingList.erase g }
        simp only [hdivides, decide_true, if_true]
        rw [hsplit]
        exact ⟨hstore, .inr ⟨_, _, hqueue⟩⟩
      · simp only [hdivides, decide_false, Bool.false_eq_true, if_false]
        exact ⟨rfl, .inl rfl⟩

theorem of_run_visited {g : GroupRef} {s s' : ServerState} {r : Except JavaException Unit}
    (h : (UrlGroup.setUrlGroupState g .visited).run s = (r, s')) :
    codes s' = codes s ∧ (s'.urlGroupQueue = s.urlGroupQueue ∨
      ∃ g₁ g₂, s'.urlGroupQueue = g₁ :: g₂ :: s.urlGroupQueue) := by
  have hlist : ((s.setGroup g (UrlGroup.enter .visited)).group g).urlList = (s.group g).urlList := by
    rw [ServerState.group_setGroup]
    rfl
  rw [UrlGroup.setUrlGroupState] at h
  simp only [Exec.run_modify_bind, Exec.run_gets_bind, hlist] at h
  rw [Exec.run_bind] at h
  split at h
  · next _ s₁ hloop =>
      have hkeep : StoreOnly (s.setGroup g (UrlGroup.enter .visited)) s₁ := Exec.Within.of_run hloop
      have hcodes : codes s₁ = codes (s.setGroup g (UrlGroup.enter .visited)) :=
        Exec.Within.of_run (R := CodesKept) hloop
      have hstate : (s₁.group g).urlGroupState = .visited := by
        rw [hkeep]
        show ((s.setGroup g (UrlGroup.enter .visited)).group g).urlGroupState = _
        rw [ServerState.group_setGroup]
        rfl
      have hqueue : s₁.urlGroupQueue = s.urlGroupQueue := by rw [hkeep]; rfl
      obtain ⟨hstore, hcut⟩ := run_update_visited hstate
      rw [h, hqueue] at hcut
      rw [h] at hstore
      refine ⟨?_, hcut⟩
      rw [← show codes (s.setGroup g (UrlGroup.enter .visited)) = codes s from rfl, ← hcodes]
      funext u
      rw [codes, codes, ServerState.visit, hstore]
      rfl
  · next e s₁ hloop =>
      have hkeep : StoreOnly (s.setGroup g (UrlGroup.enter .visited)) s₁ := Exec.Within.of_run hloop
      have hcodes : codes s₁ = codes (s.setGroup g (UrlGroup.enter .visited)) :=
        Exec.Within.of_run (R := CodesKept) hloop
      obtain rfl : s₁ = s' := congrArg Prod.snd h
      refine ⟨hcodes, .inl ?_⟩
      rw [hkeep]
      rfl

end Visited

end CaptureHpc.Server
