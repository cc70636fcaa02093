/-
# `Server.ErrorTransition` — whether a failed visit is dealt with to its end

A send that fails, a disconnect and the state checker all put a group into
ERROR.  Then its URLs are in ERROR, and the group is queued once more, as a whole
or in two halves, or every URL of it is in the error log.

The transition throws at a URL whose start time is not known if there is a
database, and at a group without an algorithm (`run_fail_throws`).  And a URL
that is in ERROR already is not logged by it, so it must be in the log.
`error_completes_iff` says that nothing else goes wrong.
-/
import CaptureHpc.Server.Causes
import CaptureHpc.Server.Retry

namespace CaptureHpc.Server

open Java

/-! ## The error log -/

section Listed
variable {u : UrlRef} {s s' : ServerState}

/-- The URLs in the error log stay. -/
abbrev ListKept : ServerState → ServerState → Prop := Exec.Same fun s => s.store.errorUrlList

instance (f : UrlVisit → UrlVisit) :
    (Exec.modify (ServerState.setVisit u f) : Action Unit).Within ListKept := ⟨fun _ => rfl⟩

instance (line : LogLine) :
    (Exec.modify (ServerState.writeLog line) : Action Unit).Within ListKept := ⟨fun _ => rfl⟩

instance (call : DatabaseCall) :
    (Exec.modify (ServerState.callDatabase call) : Action Unit).Within ListKept := ⟨fun _ => rfl⟩

instance : (Url.enterError u).Within ListKept := by
  unfold Url.enterError Url.storeError Url.closeEventLog
  refine Exec.Within.bind inferInstance fun x => ?_
  cases x.malicious <;> infer_instance

/-- A URL in ERROR is in the log afterwards. -/
theorem listed_update (herror : (s.visit u).urlState = .error) (w : UrlRef) :
    w ∈ ((UrlsController.update u).run s).2.store.errorUrlList ↔
      w ∈ s.store.errorUrlList ∨ w = u := by
  simp only [UrlsController.update, Exec.run_gets_bind, herror, if_true]
  cases hlisted : s.store.errorUrlList.contains u with
  | true =>
      refine (or_iff_left_of_imp ?_).symm
      rintro rfl
      exact List.contains_iff_mem.mp hlisted
  | false =>
      show w ∈ s.store.errorUrlList ++ [u] ↔ _
      rw [List.mem_append, List.mem_singleton]

/-- A URL is logged when it enters ERROR. -/
theorem listed_setUrlState (h : (Url.setUrlState u .error).run s = (.ok (), s')) (w : UrlRef) :
    w ∈ s'.store.errorUrlList ↔
      w ∈ s.store.errorUrlList ∨ (w = u ∧ (s.visit w).urlState ≠ .error) := by
  rw [Url.setUrlState] at h
  simp only [Exec.run_gets_bind] at h
  by_cases hsame : (s.visit u).urlState = .error
  · rw [if_neg (not_not_intro hsame)] at h
    obtain rfl : s = s' := congrArg Prod.snd h
    refine (or_iff_left ?_).symm
    rintro ⟨rfl, hne⟩
    exact hne hsame
  · rw [if_pos hsame] at h
    simp only [Exec.run_modify_bind] at h
    obtain ⟨status, s₁, hstatus, h₁⟩ := Exec.of_run_bind_ok h
    obtain ⟨_, s₂, hstore, h₂⟩ := Exec.of_run_bind_ok h₁
    have hfirst : ListKept (s.setVisit u fun x => { x with urlState := .error }) s₁ :=
      Exec.Within.of_run hstatus
    have hkept : s₂.store.errorUrlList = s.store.errorUrlList :=
      (Exec.Within.of_run (R := ListKept) hstore).trans hfirst
    have hstates : states s₂ = states (s.setVisit u fun x => { x with urlState := .error }) :=
      (Exec.Within.of_run (R := StatesKept) hstore).trans
        (Exec.Within.of_run (R := StatesKept) hstatus)
    have herror : (s₂.visit u).urlState = .error := by
      refine (congrArg Prod.fst (congrFun hstates u)).trans ?_
      rw [states_setVisit, Function.update_self]
    have hlisted := listed_update herror w
    rw [h₂, hkept] at hlisted
    rw [hlisted]
    refine or_congr_right ⟨?_, And.left⟩
    rintro rfl
    exact ⟨rfl, hsame⟩

theorem listed_passOn {g : GroupRef} (h : (UrlGroup.passOn g .error u).run s = (.ok (), s'))
    (w : UrlRef) : w ∈ s'.store.errorUrlList ↔
      w ∈ s.store.errorUrlList ∨ (w = u ∧ (s.visit w).urlState ≠ .error) := by
  simp only [UrlGroup.passOn, Exec.run_gets_bind] at h
  split_ifs at h with hok
  · simp only [Exec.run_gets_bind, Url.setMajorErrorCode, Exec.run_modify_bind] at h
    rw [listed_setUrlState h w]
    refine or_congr_right (and_congr_right ?_)
    rintro rfl
    rw [ServerState.visit_setVisit]
  · exact listed_setUrlState h w

/-- The loop logs the URLs that were not in ERROR before. -/
theorem listed_failAll {g : GroupRef} (w : UrlRef) : ∀ {l : List UrlRef} {s s' : ServerState},
    (l.forM (UrlGroup.passOn g .error)).run s = (.ok (), s') →
      (w ∈ s'.store.errorUrlList ↔
        w ∈ s.store.errorUrlList ∨ (w ∈ l ∧ (s.visit w).urlState ≠ .error)) := by
  intro l
  induction l with
  | nil =>
      intro s s' h
      obtain rfl : s = s' := congrArg Prod.snd h
      exact (or_iff_left fun h => List.not_mem_nil h.1).symm
  | cons u l ih =>
      intro s s' h
      change (UrlGroup.passOn g .error u >>= fun _ => l.forM (UrlGroup.passOn g .error)).run s = _ at h
      obtain ⟨_, s₁, hu, hl⟩ := Exec.of_run_bind_ok h
      have hstates := congrFun (states_passOn_error g u s) w
      rw [hu, Function.update_apply] at hstates
      rw [ih hl, listed_passOn hu, List.mem_cons]
      by_cases hw : w = u
      · rw [if_pos hw] at hstates
        have herror : (s₁.visit w).urlState = .error := congrArg Prod.fst hstates
        rw [herror]
        simp [hw]
      · rw [if_neg hw] at hstates
        have hsame : (s₁.visit w).urlState = (s.visit w).urlState := congrArg Prod.fst hstates
        rw [hsame]
        simp [hw]

instance (g : GroupRef) (f : UrlGroup → UrlGroup) :
    (Exec.modify (ServerState.setGroup g f) : Action Unit).Within ListKept := ⟨fun _ => rfl⟩

instance (g : GroupRef) (n : Int) : (UrlGroup.setMajorErrorCode g n).Within ListKept := by
  unfold UrlGroup.setMajorErrorCode
  infer_instance

instance (g : GroupRef) (algorithm : Option String) (malicious : Bool) (map : Option StringMap) :
    (UrlGroup.setMalicious g algorithm malicious map).Within ListKept := by
  have hone : ∀ u malicious, (Url.setMalicious u malicious).Within ListKept := by
    intro u malicious
    unfold Url.setMalicious
    infer_instance
  have hsingle : ∀ urlList : List UrlRef, (match urlList with
      | [u] => Url.setMalicious u true
      | _ => pure () : Action Unit).Within ListKept := by
    intro urlList
    split <;> infer_instance
  have hmap : ∀ u, (UrlGroup.setMaliciousFromMap malicious map u).Within ListKept := by
    intro u
    unfold UrlGroup.setMaliciousFromMap
    cases map <;> infer_instance
  unfold UrlGroup.setMalicious
  infer_instance

end Listed

/-! ## The controller -/

section Controller
variable {g : GroupRef} {l L : List UrlRef} {s s' : ServerState}

/-- These URLs are in ERROR, and the error log has the URLs `L`. -/
structure Settled (l L : List UrlRef) (s : ServerState) : Prop where
  urlState : ∀ u ∈ l, (s.visit u).urlState = .error
  listed : s.store.errorUrlList = L

instance {α : Type} {x : Action α} [h : x.Within StoreKept] : x.Within (Exec.Stays (Settled l L)) :=
  h.mono fun _ _ hstore hs => by
    refine ⟨fun u hu => ?_, (congrArg UrlStore.errorUrlList hstore).trans hs.listed⟩
    exact (congrArg (fun store => (store.visit u).urlState) hstore).trans (hs.urlState u hu)

theorem failUrl_settled {group : UrlGroup} {u : UrlRef} (hu : u ∈ l) :
    (UrlGroupsController.failUrl group u).Within (Exec.Stays (Settled l L)) := by
  refine ⟨fun s hs => ?_⟩
  have herror : ((s.setVisit u fun x => { x with
      majorErrorCode := ErrorCode.ofNumber group.majorErrorCode.errorCode }).visit u).urlState =
        .error := by
    rw [ServerState.visit_setVisit]
    exact hs.urlState u hu
  have hrun : (UrlGroupsController.failUrl group u).run s = (.ok (), s.setVisit u fun x => { x with
      majorErrorCode := ErrorCode.ofNumber group.majorErrorCode.errorCode }) := by
    simp only [UrlGroupsController.failUrl, Url.setMajorErrorCode, Exec.run_modify_bind,
      Url.setUrlState, Exec.run_gets_bind, herror, ne_eq, not_true_eq_false, if_false,
      Exec.run_pure]
  have hstates := states_failUrl u s group
  rw [hrun] at hstates ⊢
  refine ⟨fun w hw => ?_, hs.listed⟩
  have hone := congrFun hstates w
  rw [Function.update_apply] at hone
  split_ifs at hone with hwu
  · exact congrArg Prod.fst hone
  · exact (congrArg Prod.fst hone).trans (hs.urlState w hw)

/-- The controller adds nothing to the error log. -/
theorem listed_controller (hstate : (s.group g).urlGroupState = .error)
    (hurls : ∀ u ∈ (s.group g).urlList, (s.visit u).urlState = .error) :
    ((UrlGroupsController.update g).run s).2.store.errorUrlList = s.store.errorUrlList := by
  have herase : (Exec.modify fun s : ServerState =>
      { s with visitingList := s.visitingList.erase g } : Action Unit).Within StoreKept :=
    ⟨fun _ => rfl⟩
  have hloop : ((s.group g).urlList.forM (UrlGroupsController.failUrl (s.group g))).Within
      (Exec.Stays (Settled (s.group g).urlList s.store.errorUrlList)) :=
    Exec.Within.forM _ fun u hu => failUrl_settled hu
  have hall : (do
      Exec.modify fun s => { s with visitingList := s.visitingList.erase g }
      let divided ← UrlGroupsController.divides (s.group g)
      if divided then UrlGroupsController.split (s.group g).urlList
      (s.group g).urlList.forM (UrlGroupsController.failUrl (s.group g))
      if !divided && UrlGroupsController.retry (s.group g) && (s.group g).errorCount ≤ 1 then
        UrlGroupsController.push g : Action Unit).Within
          (Exec.Stays (Settled (s.group g).urlList s.store.errorUrlList)) := inferInstance
  have hsettled := hall.post s ⟨hurls, rfl⟩
  rw [UrlGroupsController.update]
  simp only [Exec.run_gets_bind, hstate]
  exact hsettled.listed

theorem of_run_new {urls : List UrlRef} (h : (UrlGroup.new urls).run s = (.ok g, s')) :
    g = s.nextGroup ∧ s'.nextGroup = s.nextGroup + 1 ∧ (s'.group g).urlList = urls := by
  cases urls with
  | nil => cases congrArg Prod.fst h
  | cons u urls =>
      obtain ⟨hg, rfl⟩ := Prod.mk.inj h
      obtain rfl := Except.ok.inj hg
      exact ⟨rfl, rfl, congrArg UrlGroup.urlList (ServerState.group_setGroup ..)⟩

/-- The two halves of a group that is cut in two. -/
theorem of_run_split {urls : List UrlRef}
    (h : (UrlGroupsController.split urls).run s = (.ok (), s')) :
    (s'.group s.nextGroup).urlList = urls.take (urls.length / 2) ∧
      (s'.group (s.nextGroup + 1)).urlList = urls.drop (urls.length / 2) := by
  rw [UrlGroupsController.split] at h
  obtain ⟨g₁, s₁, hnew₁, h₁⟩ := Exec.of_run_bind_ok h
  obtain ⟨_, s₂, hpush₁, h₂⟩ := Exec.of_run_bind_ok h₁
  obtain ⟨g₂, s₃, hnew₂, hpush₂⟩ := Exec.of_run_bind_ok h₂
  obtain ⟨rfl, hnext, hfirst⟩ := of_run_new hnew₁
  obtain rfl : _ = s₂ := congrArg Prod.snd hpush₁
  obtain ⟨rfl, -, hsecond⟩ := of_run_new hnew₂
  obtain rfl : _ = s' := congrArg Prod.snd hpush₂
  have hkept : OldKept _ s₃ := Exec.Within.of_run hnew₂
  refine ⟨?_, ?_⟩
  · show (s₃.group s.nextGroup).urlList = _
    rw [hkept.group s.nextGroup (Nat.lt_of_lt_of_eq (Nat.lt_succ_self _) hnext.symm)]
    exact hfirst
  · show (s₃.group (s.nextGroup + 1)).urlList = _
    rw [← hnext]
    exact hsecond

theorem of_run_update (hstate : (s.group g).urlGroupState = .error) (hdivides : Divides (s.group g))
    (h : (UrlGroupsController.update g).run s = (.ok (), s')) :
    (s'.group s.nextGroup).urlList = (s.group g).urlList.take ((s.group g).urlList.length / 2) ∧
      (s'.group (s.nextGroup + 1)).urlList =
        (s.group g).urlList.drop ((s.group g).urlList.length / 2) := by
  have halg : (s.group g).algorithm.isSome = true := by
    rw [hdivides.1]
    rfl
  rw [UrlGroupsController.update] at h
  simp only [Exec.run_gets_bind, hstate, Exec.run_modify_bind,
    Exec.run_bind_ok (UrlGroupsController.run_divides halg _), hdivides, decide_true, if_true] at h
  obtain ⟨_, s₁, hsplit, hrest⟩ := Exec.of_run_bind_ok h
  obtain ⟨_, s₂, hfail, hpush⟩ := Exec.of_run_bind_ok hrest
  obtain rfl : s₂ = s' := congrArg Prod.snd hpush
  have hkept : StoreOnly s₁ s₂ := Exec.Within.of_run hfail
  have hgroup : s₂.group = s₁.group := by rw [hkept]
  rw [hgroup]
  exact of_run_split (s := { s with visitingList := s.visitingList.erase g }) hsplit

end Controller

/-! ## What is to be reached -/

section Failing
variable {g : GroupRef} {s s₁ s' : ServerState}

/-- Groups with all the URLs of the group are new on the queue. -/
def Requeued (g : GroupRef) (s s' : ServerState) : Prop :=
  ∃ pushed, pushed ≠ [] ∧ s'.urlGroupQueue = pushed ++ s.urlGroupQueue ∧
    ∀ u ∈ (s.group g).urlList, ∃ h ∈ pushed, u ∈ (s'.group h).urlList

/-- The error is dealt with: the group is visited once more, or all of it is in the error log. -/
structure Completed (g : GroupRef) (s s' : ServerState) : Prop where
  urlState : ∀ u ∈ (s.group g).urlList, (s'.visit u).urlState = .error
  goesOn : Requeued g s s' ∨ ∀ u ∈ (s.group g).urlList, u ∈ s'.store.errorUrlList

/-- **The condition**: nothing is thrown, and what is not visited again is in the error log if it is
in ERROR. -/
structure Completes (g : GroupRef) (s : ServerState) : Prop where
  notifies : Notifies g s
  goesOn : Divides (s.group g) ∨ (s.group g).errorCount = 0 ∨
    ∀ u ∈ (s.group g).urlList, (s.visit u).urlState = .error → u ∈ s.store.errorUrlList

/-- What the transition leaves if it throws nothing. -/
structure Failed (g : GroupRef) (s s' : ServerState) : Prop where
  urlState : ∀ u ∈ (s.group g).urlList, (s'.visit u).urlState = .error
  listed : ∀ u ∈ (s.group g).urlList, u ∈ s'.store.errorUrlList ↔
    u ∈ s.store.errorUrlList ∨ (s.visit u).urlState ≠ .error
  again : Divides (s.group g) ∨ (s.group g).errorCount = 0 → Requeued g s s'
  last : ¬ (Divides (s.group g) ∨ (s.group g).errorCount = 0) → s'.urlGroupQueue = s.urlGroupQueue

theorem Failed.completed_iff (h : Failed g s s') : Completed g s s' ↔
    Divides (s.group g) ∨ (s.group g).errorCount = 0 ∨
      ∀ u ∈ (s.group g).urlList, (s.visit u).urlState = .error → u ∈ s.store.errorUrlList := by
  have hreported : (∀ u ∈ (s.group g).urlList, u ∈ s'.store.errorUrlList) ↔
      ∀ u ∈ (s.group g).urlList, (s.visit u).urlState = .error → u ∈ s.store.errorUrlList := by
    refine forall₂_congr fun u hu => ?_
    rw [h.listed u hu, or_iff_not_imp_right, not_not]
  rw [← or_assoc]
  constructor
  · rintro ⟨-, ⟨pushed, hne, hqueue, -⟩ | hall⟩
    · by_contra hlast
      rw [h.last fun hagain => hlast (.inl hagain)] at hqueue
      exact hne (List.self_eq_append_left.mp hqueue)
    · exact .inr (hreported.mp hall)
  · rintro (hagain | hall)
    · exact ⟨h.urlState, .inl (h.again hagain)⟩
    · exact ⟨h.urlState, .inr (hreported.mpr hall)⟩

/-- What of a state matters to the transition. -/
structure Alike (g : GroupRef) (s s₁ : ServerState) : Prop where
  store : s₁.store = s.store
  config : s₁.config = s.config
  nextGroup : s₁.nextGroup = s.nextGroup
  urlGroupQueue : s₁.urlGroupQueue = s.urlGroupQueue
  group : s₁.group g = { s.group g with majorErrorCode := (s₁.group g).majorErrorCode }

theorem Alike.divides (h : Alike g s s₁) : Divides (s₁.group g) ↔ Divides (s.group g) := by
  rw [h.group]
  rfl

theorem Alike.notifies (h : Alike g s s₁) : Notifies g s₁ ↔ Notifies g s := by
  have hvisit : s₁.visit = s.visit := by
    funext u
    rw [ServerState.visit, h.store, ServerState.visit]
  constructor
  · rintro ⟨halg, hurls⟩
    rw [h.group] at halg hurls
    refine ⟨halg, fun u hu => ?_⟩
    have hcan := hurls u hu
    rwa [CanFail, hvisit, h.config] at hcan
  · rintro ⟨halg, hurls⟩
    refine ⟨by rw [h.group]; exact halg, fun u hu => ?_⟩
    rw [h.group] at hu
    rw [CanFail, hvisit, h.config]
    exact hurls u hu

theorem Alike.failed (h : Alike g s s₁) (hf : Failed g s₁ s') : Failed g s s' := by
  have hlist : (s₁.group g).urlList = (s.group g).urlList := by rw [h.group]
  have hcount : (s₁.group g).errorCount = (s.group g).errorCount := by rw [h.group]
  have hvisit : ∀ u, s₁.visit u = s.visit u := by
    intro u
    rw [ServerState.visit, h.store, ServerState.visit]
  have hlisted := hf.listed
  have hagain := hf.again
  have hlast := hf.last
  simp only [hlist, hvisit, h.store] at hlisted
  rw [Requeued, h.divides, hcount, h.urlGroupQueue, hlist] at hagain
  rw [h.divides, hcount, h.urlGroupQueue] at hlast
  exact ⟨hlist ▸ hf.urlState, hlisted, hagain, hlast⟩

/-- **The transition goes through** if the controller is notified. -/
theorem run_transition (hg : g < s.nextGroup) (h : Notifies g s) :
    ∃ s', (UrlGroup.setUrlGroupState g .error).run s = (.ok (), s') ∧ EnteredError g s s' ∧
      Failed g s s' := by
  obtain ⟨s', hrun, hentered⟩ := run_fail_notifies hg h
  rw [run_fail] at hrun
  obtain ⟨_, s₁, hloop, hupdate⟩ := Exec.of_run_bind_ok hrun
  have hkeep : StoreOnly (s.setGroup g (UrlGroup.enter .error)) s₁ := Exec.Within.of_run hloop
  have hgroup : s₁.group g = UrlGroup.enter .error (s.group g) := by
    rw [hkeep]
    exact ServerState.group_setGroup ..
  have hnext : s₁.nextGroup = s.nextGroup := by rw [hkeep]; rfl
  have hstate : (s₁.group g).urlGroupState = .error := by rw [hgroup]; rfl
  have hurls : ∀ u ∈ (s₁.group g).urlList, (s₁.visit u).urlState = .error := by
    rw [hgroup]
    exact errors_of_run_failAll hloop
  refine ⟨s', (run_fail g s).trans hrun, hentered, ?_, fun u hu => ?_, fun hagain => ?_,
    fun hlast => ?_⟩
  · exact fun u hu => congrArg Prod.fst (hentered.states u hu)
  · have hlist := listed_controller hstate hurls
    rw [hupdate] at hlist
    rw [hlist, listed_failAll u hloop]
    exact or_congr_right (and_iff_right hu)
  · have hqueue := hentered.urlGroupQueue
    by_cases hdivides : Divides (s.group g)
    · rw [if_pos hdivides] at hqueue
      obtain ⟨hfirst, hsecond⟩ := of_run_update hstate (by rw [hgroup]; exact hdivides) hupdate
      rw [hnext, hgroup] at hfirst hsecond
      refine ⟨[s.nextGroup + 1, s.nextGroup], List.cons_ne_nil _ _, hqueue, fun u hu => ?_⟩
      rw [← List.take_append_drop ((s.group g).urlList.length / 2) (s.group g).urlList] at hu
      rcases List.mem_append.mp hu with hu | hu
      · exact ⟨_, List.mem_cons_of_mem _ List.mem_cons_self, hfirst ▸ hu⟩
      · exact ⟨_, List.mem_cons_self, hsecond ▸ hu⟩
    · rw [if_neg hdivides, if_pos (hagain.resolve_left hdivides)] at hqueue
      refine ⟨[g], List.cons_ne_nil _ _, hqueue, fun u hu => ⟨g, List.mem_cons_self, ?_⟩⟩
      rw [hentered.group]
      exact hu
  · have hqueue := hentered.urlGroupQueue
    rwa [if_neg fun hd => hlast (.inl hd), if_neg fun hc => hlast (.inr hc)] at hqueue

/-- The second transition of a disconnect, behind the first. -/
theorem run_again (hg : g < s.nextGroup) (hentered : EnteredError g s s₁) (hf : Failed g s s₁)
    (halg : (s.group g).algorithm.isSome = true) :
    ∃ s', (Client.failVisitAgain (some g)).run s₁ = (.ok (), s') ∧ Failed g s s' := by
  obtain ⟨s₂, hclear, hedits, halgs, hmalicious, -⟩ := run_clear (g := g) (s := s₁)
  have hgroup : (s₁.group g).urlList = (s.group g).urlList := by rw [hentered.group]; rfl
  have hlist : (s₂.group g).urlList = (s.group g).urlList := hedits.urlList.trans hgroup
  have halg₁ : (s₂.group g).algorithm = (s.group g).algorithm := by
    have halg₂ : (s₂.group g).algorithm = (s₁.group g).algorithm := congrFun halgs g
    rw [halg₂, hentered.group]
    rfl
  have herrors : ∀ u ∈ (s₂.group g).urlList, (s₂.visit u).urlState = .error := by
    intro u hu
    rw [hlist] at hu
    exact (hedits.urlState u).trans (hf.urlState u hu)
  have hdivides : Divides (s₂.group g) ↔ Divides (s.group g) := by
    rw [Divides, Divides, halg₁, hmalicious, UrlGroup.size, hlist, hentered.group]
    rfl
  have hcount : (s₂.group g).errorCount ≠ 0 := by
    rw [hedits.errorCount, hentered.group]
    exact Nat.succ_ne_zero _
  have hlisted : s₂.store.errorUrlList = s₁.store.errorUrlList :=
    Exec.Within.of_run (R := ListKept) hclear
  have hqueue : s₂.urlGroupQueue = s₁.urlGroupQueue := by rw [hedits.rest]
  have hup : g < s₂.nextGroup := by
    have hnext : s₂.nextGroup = s₁.nextGroup := by rw [hedits.rest]
    rw [hnext, hentered.nextGroup]
    split
    · exact Nat.lt_add_right 2 hg
    · exact hg
  obtain ⟨s', hrun, hentered', hf'⟩ := run_transition hup
    (⟨by rwa [halg₁], fun u hu => .inl (herrors u hu)⟩ : Notifies g s₂)
  have hassoc : (Client.failVisitAgain (some g)).run s₁ = ((do
      if !(← readGroup g).malicious then UrlGroup.setMalicious g (some "dac") false none
      UrlGroup.setMajorErrorCode g ErrorCode.captureClientConnectionReset.errorCode :
        Action Unit) >>= fun _ => UrlGroup.setUrlGroupState g .error).run s₁ := by
    simp only [Client.failVisitAgain, Exec.run_gets_bind, bind_assoc]
    cases (s₁.group g).malicious with
    | true => rfl
    | false => simp only [Bool.not_false, if_true, bind_assoc]
  refine ⟨s', by rw [hassoc, Exec.run_bind_ok hclear]; exact hrun, ?_, ?_, ?_, ?_⟩
  · rw [← hlist]
    exact hf'.urlState
  · intro u hu
    rw [hf'.listed u (by rwa [hlist]), hlisted, ← hf.listed u hu]
    exact or_iff_left fun hne => hne (herrors u (by rwa [hlist]))
  · intro hagain
    by_cases hd : Divides (s.group g)
    · obtain ⟨pushed, -, hfirst, -⟩ := hf.again hagain
      obtain ⟨pushed', hne, hsecond, hall⟩ := hf'.again (.inl (hdivides.mpr hd))
      refine ⟨pushed' ++ pushed, List.append_ne_nil_of_left_ne_nil hne _, ?_, fun u hu => ?_⟩
      · rw [hsecond, hqueue, hfirst, List.append_assoc]
      · obtain ⟨h, hh, hu⟩ := hall u (by rwa [hlist])
        exact ⟨h, List.mem_append_left _ hh, hu⟩
    · have hfirst := hentered.urlGroupQueue
      rw [if_neg hd, if_pos (hagain.resolve_left hd)] at hfirst
      refine ⟨[g], List.cons_ne_nil _ _, ?_, fun u hu => ⟨g, List.mem_cons_self, ?_⟩⟩
      · rw [hf'.last fun h => h.elim (fun h => hd (hdivides.mp h)) hcount, hqueue, hfirst]
        rfl
      · rw [hentered'.group]
        exact hlist ▸ hu
  · intro hlast
    have hd : ¬ Divides (s.group g) := fun hd => hlast (.inl hd)
    rw [hf'.last fun h => h.elim (fun h => hd (hdivides.mp h)) hcount, hqueue, hf.last hlast]

/-! ## Who raises an error -/

/-- Something that puts the group into ERROR. -/
inductive Raises (g : GroupRef) (s : ServerState) : Action Unit → Prop
  | transition : Raises g s (UrlGroup.setUrlGroupState g .error)
  /-- The group could not be sent. -/
  | notSent {c : ClientRef} : (s.client c).visitingUrlGroup = some g →
      Raises g s (Client.visitNotSent c)
  /-- The client is disconnected, or could not be written to. -/
  | disconnect {c : ClientRef} : (s.client c).visitingUrlGroup = some g →
      (s.client c).clientState ≠ .disconnected → Raises g s (Client.setClientState c .disconnected)
  /-- A tick of the state checker. -/
  | check {v : VmRef} {c : ClientRef} {code : ErrorCode} : (s.vm v).client = some c →
      (s.client c).visitingUrlGroup = some g →
        Raises g s (VirtualMachinesStateChecker.setError v code)

/-- It goes through if the controller is notified, and throws otherwise. -/
def GoesThrough (g : GroupRef) (s : ServerState) (x : Action Unit) : Prop :=
  (Notifies g s → ∃ s', x.run s = (.ok (), s') ∧ Failed g s s') ∧
    (¬ Notifies g s → ∃ e s', x.run s = (.error e, s'))

theorem goesThrough_transition (hg : g < s.nextGroup) : GoesThrough g s (UrlGroup.setUrlGroupState g .error) := by
  refine ⟨fun h => ?_, fun h => ?_⟩
  · obtain ⟨s', hrun, -, hf⟩ := run_transition hg h
    exact ⟨s', hrun, hf⟩
  · obtain ⟨e, s', hrun, -⟩ := run_fail_throws h
    exact ⟨e, s', hrun⟩

/-- The group is given a code first. -/
theorem goesThrough_setCode (hg : g < s.nextGroup) (n : Int) :
    GoesThrough g s (UrlGroup.setMajorErrorCode g n >>= fun _ => UrlGroup.setUrlGroupState g .error) := by
  have halike : Alike g s (s.setGroup g fun x =>
      { x with majorErrorCode := ErrorCode.ofNumber n }) :=
    ⟨rfl, rfl, rfl, rfl, by rw [ServerState.group_setGroup]⟩
  obtain ⟨hok, herror⟩ := goesThrough_transition (s := s.setGroup g fun x =>
    { x with majorErrorCode := ErrorCode.ofNumber n }) hg
  refine ⟨fun h => ?_, fun h => herror (mt halike.notifies.mp h)⟩
  obtain ⟨s', hrun, hf⟩ := hok (halike.notifies.mpr h)
  exact ⟨s', hrun, halike.failed hf⟩

/-- The transitions of a disconnect: nothing is left to throw at the second. -/
theorem run_failing {c : ClientRef} (halike : Alike g s s₁) (hg : g < s.nextGroup)
    (hvisiting : (s₁.client c).visitingUrlGroup = some g) :
    (Notifies g s → ∃ s', (do
      Client.failVisit (← readClient c).visitingUrlGroup
      updateClient c fun x => { x with socketClosed := true }
      Client.failVisitAgain (← readClient c).visitingUrlGroup : Action Unit).run s₁ =
        (.ok (), s') ∧ Failed g s s') ∧
    (¬ Notifies g s → ∃ e s', (do
      Client.failVisit (← readClient c).visitingUrlGroup
      updateClient c fun x => { x with socketClosed := true }
      Client.failVisitAgain (← readClient c).visitingUrlGroup : Action Unit).run s₁ =
        (.error e, s')) := by
  simp only [Exec.run_gets_bind, hvisiting]
  refine ⟨fun h => ?_, fun h => ?_⟩
  · have hn : Notifies g s₁ := halike.notifies.mpr h
    have hg₁ : g < s₁.nextGroup := by rwa [halike.nextGroup]
    obtain ⟨s₂, hrun, hentered, hf⟩ := run_transition hg₁ hn
    have hkeep : GroupsOnly s₁ s₂ := Exec.Within.of_run hrun
    have hclosed : ((s₂.setClient c fun x => { x with socketClosed := true }).client
        c).visitingUrlGroup = some g := by
      rw [ServerState.client_setClient, hkeep]
      exact hvisiting
    obtain ⟨s', hagain, hf'⟩ := @run_again g s₁
      (s₂.setClient c fun x => { x with socketClosed := true }) hg₁
      ⟨hentered.group, hentered.nextGroup, hentered.urlGroupQueue, hentered.states⟩
      ⟨hf.urlState, hf.listed, hf.again, hf.last⟩ hn.algorithm
    refine ⟨s', ?_, halike.failed hf'⟩
    have hfirst : (Client.failVisit (some g)).run s₁ = (.ok (), s₂) := hrun
    rw [Exec.run_bind_ok hfirst]
    simp only [Exec.run_modify_bind, Exec.run_gets_bind, hclosed]
    exact hagain
  · obtain ⟨e, s₂, hrun, -⟩ := run_fail_throws (mt halike.notifies.mp h)
    have hfirst : (Client.failVisit (some g)).run s₁ = (.error e, s₂) := hrun
    exact ⟨e, s₂, Exec.run_bind_error hfirst⟩

theorem goesThrough_disconnect {c : ClientRef} (hg : g < s.nextGroup)
    (hvisiting : (s.client c).visitingUrlGroup = some g)
    (hstate : (s.client c).clientState ≠ .disconnected) :
    GoesThrough g s (Client.setClientState c .disconnected) := by
  let s₁ := ServerState.setClient c (fun x => { x with clientState := .disconnected }) s
  have hclient : s₁.client c = { s.client c with clientState := .disconnected } :=
    ServerState.client_setClient ..
  have hgroup : (s₁.client c).visitingUrlGroup = some g := by
    rw [hclient]
    exact hvisiting
  have hbegin : ∀ s₂ : ServerState, ((s₁.client c).virtualMachine.elim (pure ())
      Client.loseMachine : Action Unit).run s₁ = (.ok (), s₂) →
      (Client.setClientState c .disconnected).run s = (do
        Client.failVisit (← readClient c).visitingUrlGroup
        updateClient c fun x => { x with socketClosed := true }
        Client.failVisitAgain (← readClient c).visitingUrlGroup : Action Unit).run s₂ := by
    intro s₂ hlose
    rw [Client.setClientState_disconnected, Client.drop]
    simp only [Exec.run_gets_bind, if_pos hstate, Exec.run_modify_bind]
    cases hv : (s₁.client c).virtualMachine with
    | none =>
        rw [hv] at hlose
        obtain rfl := congrArg Prod.snd hlose
        rfl
    | some v =>
        rw [hv] at hlose
        exact Exec.run_bind_ok hlose
  cases hv : (s₁.client c).virtualMachine with
  | none =>
      rw [GoesThrough, hbegin s₁ (by rw [hv]; rfl)]
      exact run_failing ⟨rfl, rfl, rfl, rfl, rfl⟩ hg hgroup
  | some v =>
      rw [GoesThrough, hbegin (s₁.setVm v fun _ =>
        { client := none, vmState := .waitingToBeReverted }) (by rw [hv]; rfl)]
      exact run_failing ⟨rfl, rfl, rfl, rfl, rfl⟩ hg hgroup

theorem goesThrough {x : Action Unit} (hg : g < s.nextGroup) (h : Raises g s x) :
    GoesThrough g s x := by
  cases h with
  | transition => exact goesThrough_transition hg
  | @notSent c hc =>
      have hrun : (Client.visitNotSent c).run s = (UrlGroup.setMajorErrorCode g 0x10000111 >>=
          fun _ => UrlGroup.setUrlGroupState g .error).run s := by
        simp only [Client.visitNotSent, Exec.run_gets_bind, hc, Exec.orThrow_some, Exec.pure_bind]
      rw [GoesThrough, hrun]
      exact goesThrough_setCode hg _
  | disconnect hc hstate => exact goesThrough_disconnect hg hc hstate
  | @check v c code hv hc =>
      have hrun : (VirtualMachinesStateChecker.setError v code).run s =
          (UrlGroup.setMajorErrorCode g code.errorCode >>=
            fun _ => UrlGroup.setUrlGroupState g .error).run s := by
        simp only [VirtualMachinesStateChecker.setError, Exec.run_gets_bind, hv, hc]
      rw [GoesThrough, hrun]
      exact goesThrough_setCode hg _

/-- **An error is dealt with to its end** just if the algorithm of the group is known and, with a
database, the start time of each URL that is not in ERROR yet; and if the group is not queued once
more, what is in ERROR already must be in the error log. -/
theorem error_completes_iff {x : Action Unit} (hg : g < s.nextGroup) (h : Raises g s x) :
    (∃ s', x.run s = (.ok (), s') ∧ Completed g s s') ↔ Completes g s := by
  obtain ⟨hok, herror⟩ := goesThrough hg h
  by_cases hn : Notifies g s
  · obtain ⟨s', hrun, hf⟩ := hok hn
    constructor
    · rintro ⟨s'', hrun', hcompleted⟩
      obtain rfl : s' = s'' := congrArg Prod.snd (hrun.symm.trans hrun')
      exact ⟨hn, hf.completed_iff.mp hcompleted⟩
    · intro hc
      exact ⟨s', hrun, hf.completed_iff.mpr hc.goesOn⟩
  · obtain ⟨e, s', hrun⟩ := herror hn
    refine iff_of_false ?_ fun hc => hn hc.notifies
    rintro ⟨s'', hrun', -⟩
    cases congrArg Prod.fst (hrun.symm.trans hrun')

end Failing

/-- The group was sent, and the client is disconnected. -/
theorem error_completes_sent : ∃ s s', systemMachine.run sendUrl oneUrlServer = some s ∧
    (Client.setClientState 0 .disconnected).run s.server = (.ok (), s') ∧
      Completed 0 s.server s' := by
  obtain ⟨s, hrun, hdata⟩ : ∃ s, systemMachine.run sendUrl oneUrlServer = some s ∧
      ((s.server.client 0).visitingUrlGroup = some 0 ∧
        (s.server.client 0).clientState ≠ .disconnected ∧ 0 < s.server.nextGroup ∧
          Notifies 0 s.server ∧ (s.server.group 0).errorCount = 0) := ⟨_, rfl, by decide⟩
  obtain ⟨hc, hstate, hg, hn, hcount⟩ := hdata
  obtain ⟨s', hdone⟩ := (error_completes_iff hg (.disconnect hc hstate)).mpr
    ⟨hn, .inr (.inl hcount)⟩
  exact ⟨s, s', hrun, hdone⟩

/-- The same with a database. -/
def databaseServer : System where
  server := startedServer { database := true } oneUrlServer.server.url fun _ => .running

/-- A group that was sent and has not started: its URL has no start time. -/
theorem error_throws : ∃ s, systemMachine.Reachable Machine.AnyStep s ∧
    Raises 0 s.server (Client.setClientState 0 .disconnected) ∧
      ¬ ∃ s', (Client.setClientState 0 .disconnected).run s.server = (.ok (), s') ∧
        Completed 0 s.server s' := by
  obtain ⟨s, hrun, hdata⟩ : ∃ s, systemMachine.run sendUrl databaseServer = some s ∧
      ((s.server.client 0).visitingUrlGroup = some 0 ∧
        (s.server.client 0).clientState ≠ .disconnected ∧
          ((Client.setClientState 0 .disconnected).run s.server).1.isOk = false) :=
    ⟨_, rfl, by decide⟩
  obtain ⟨hc, hstate, hthrows⟩ := hdata
  refine ⟨s, Machine.reachable_of_run ⟨_, _, _, rfl⟩ hrun, .disconnect hc hstate, ?_⟩
  rintro ⟨s', hok, -⟩
  rw [hok] at hthrows
  cases hthrows

end CaptureHpc.Server
