/-
# `Server.StartMessage` — the start message of a visit

A start message first sets the times of the group and of the URLs that its items
name, and then the group, its URLs and the client become VISITING, in this
order.  What is wrong with an item is noticed before anything has become
VISITING.  But the message need not name every URL: the first URL without a
start time is made VISITING, and throws when the time is printed, so that the
URLs behind it and the client stay as they were.

`start_allOrNothing_iff` says when the message is done as a whole or not at all.
-/
import CaptureHpc.Server.Handling
import CaptureHpc.Server.VisitEnds

namespace CaptureHpc.Server

open Java

/-! ## One URL -/

section One
variable {u : UrlRef} {s s' : ServerState}

/-- The URL can enter VISITING: its start time is printed. -/
def CanVisit (s : ServerState) (u : UrlRef) : Prop :=
  (s.visit u).urlState = .visiting ∨ (s.visit u).visitStartTime.isSome = true

instance : DecidablePred (CanVisit s) := fun _ => inferInstanceAs (Decidable (_ ∨ _))

instance : (Url.setUrlState u .visiting).Within (Lasts UrlVisit.visitStartTime) := by
  have hstate := updateVisit_lasts (u := u) (p := UrlVisit.visitStartTime)
    (f := fun x => { x with urlState := .visiting }) fun _ => rfl
  unfold Url.setUrlState
  infer_instance

theorem setUrlState_visiting_ok :
    (∃ s', (Url.setUrlState u .visiting).run s = (.ok (), s')) ↔ CanVisit s u := by
  by_cases hsame : (s.visit u).urlState = .visiting
  · refine ⟨fun _ => .inl hsame, fun _ => ⟨s, ?_⟩⟩
    simp [Url.setUrlState, hsame]
  · have hcan : CanVisit s u ↔ (s.visit u).visitStartTime.isSome = true := or_iff_right hsame
    have hstart : ((s.setVisit u fun x => { x with urlState := .visiting }).visit u).visitStartTime =
        (s.visit u).visitStartTime := by
      rw [ServerState.visit_setVisit]
    rw [hcan]
    cases htime : (s.visit u).visitStartTime with
    | none =>
        rw [htime] at hstart
        refine iff_of_false ?_ Bool.noConfusion
        rintro ⟨s', h⟩
        simp [Url.setUrlState, Url.enterVisiting, Url.getVisitStartTime, hsame, hstart] at h
    | some date =>
        rw [htime] at hstart
        refine iff_of_true ?_ rfl
        have hstatus : ∀ s : ServerState, (Url.storeStatus u none).run s = (.ok (), s) := by
          intro s
          simp only [Url.storeStatus, Exec.run_gets_bind, Exec.run_pure, ite_self]
        have hrun : ∀ s' : ServerState, (s'.visit u).visitStartTime = some date →
            (Url.enterVisiting u).run s' = (.ok none, s'.writeLog (.visiting u)) := by
          intro s' hs'
          have hprint : (Url.getVisitStartTime u).run s' = (.ok (formatDate date), s') := by
            simp [Url.getVisitStartTime, hs']
          rw [Url.enterVisiting, Exec.run_bind_ok hprint]
          rfl
        obtain ⟨_, s₂, h₂⟩ := Exec.Total.returns (x := UrlsController.update u)
          ((s.setVisit u fun x => { x with urlState := .visiting }).writeLog (.visiting u))
        refine ⟨s₂, ?_⟩
        simp only [Url.setUrlState, Exec.run_gets_bind, ne_eq, hsame, not_false_eq_true, if_true,
          Exec.run_modify_bind, Exec.run_bind_ok (hrun _ hstart), Exec.run_bind_ok (hstatus _)]
        exact h₂

/-- After one URL the others can enter VISITING as before. -/
theorem canVisit_next (h : (Url.setUrlState u .visiting).run s = (.ok (), s')) (w : UrlRef) :
    CanVisit s' w ↔ CanVisit s w := by
  have hstates := states_setUrlState u s .visiting
  have hstart : (s'.visit w).visitStartTime = (s.visit w).visitStartTime :=
    congrFun (Exec.Within.of_run (R := Lasts UrlVisit.visitStartTime) h) w
  rw [h] at hstates
  by_cases hw : w = u
  · subst hw
    have hvisiting : states s' w = (.visiting, (s.visit w).majorErrorCode) := by
      rw [hstates, Function.update_self]
    exact ⟨fun _ => setUrlState_visiting_ok.mp ⟨s', h⟩, fun _ => .inl (congrArg Prod.fst hvisiting)⟩
  · have hsame : states s' w = states s w := by rw [hstates, Function.update_of_ne hw]
    have hstate : (s'.visit w).urlState = (s.visit w).urlState := congrArg Prod.fst hsame
    rw [CanVisit, CanVisit, hstate, hstart]

end One

/-! ## The URLs of a group -/

/-- The URLs that a loop gets to which ends at the first that is not `p`. -/
def reached (p : UrlRef → Prop) [DecidablePred p] : List UrlRef → List UrlRef
  | [] => []
  | u :: l => if p u then u :: reached p l else [u]

section All
variable {g : GroupRef}

theorem reached_congr {p q : UrlRef → Prop} [DecidablePred p] [DecidablePred q]
    (h : ∀ u, p u ↔ q u) (l : List UrlRef) : reached p l = reached q l := by
  induction l with
  | nil => rfl
  | cons u l ih =>
      rw [reached, reached, ih]
      exact if_congr (h u) rfl rfl

/-- The first URL that is not `p` is reached. -/
theorem exists_reached {p : UrlRef → Prop} [DecidablePred p] {l : List UrlRef}
    (h : ¬ ∀ u ∈ l, p u) : ∃ u ∈ reached p l, u ∈ l ∧ ¬ p u := by
  induction l with
  | nil => exact absurd (List.forall_mem_nil p) h
  | cons u l ih =>
      rw [reached]
      by_cases hu : p u
      · rw [if_pos hu]
        obtain ⟨w, hw, hl, hnot⟩ := ih fun hall => h (List.forall_mem_cons.mpr ⟨hu, hall⟩)
        exact ⟨w, List.mem_cons_of_mem _ hw, List.mem_cons_of_mem _ hl, hnot⟩
      · rw [if_neg hu]
        exact ⟨u, List.mem_cons_self, List.mem_cons_self, hu⟩

theorem reached_all {p : UrlRef → Prop} [DecidablePred p] {l : List UrlRef} (h : ∀ u ∈ l, p u) :
    reached p l = l := by
  induction l with
  | nil => rfl
  | cons u l ih =>
      obtain ⟨hu, hl⟩ := List.forall_mem_cons.mp h
      rw [reached, if_pos hu, ih hl]

/-- The loop of `setUrlGroupState(VISITING)` makes the URLs it gets to VISITING. -/
theorem visitAll : ∀ (l : List UrlRef) (s : ServerState),
    ((∃ s', (l.forM (UrlGroup.passOn g .visiting)).run s = (.ok (), s')) ↔ ∀ u ∈ l, CanVisit s u) ∧
      ∀ w, (((l.forM (UrlGroup.passOn g .visiting)).run s).2.visit w).urlState =
        if w ∈ reached (CanVisit s) l then .visiting else (s.visit w).urlState := by
  intro l
  induction l with
  | nil =>
      intro s
      exact ⟨⟨fun _ => List.forall_mem_nil _, fun _ => ⟨s, rfl⟩⟩,
        fun w => (if_neg List.not_mem_nil).symm⟩
  | cons u l ih =>
      intro s
      have hcons : (List.forM (u :: l) (UrlGroup.passOn g .visiting)).run s =
          (Url.setUrlState u .visiting >>= fun _ => l.forM (UrlGroup.passOn g .visiting)).run s := rfl
      have hstate : ∀ w, (((Url.setUrlState u .visiting).run s).2.visit w).urlState =
          if w = u then .visiting else (s.visit w).urlState := by
        intro w
        have hstates := congrFun (states_setUrlState u s .visiting) w
        rw [Function.update_apply] at hstates
        refine (congrArg Prod.fst hstates).trans ?_
        split_ifs <;> rfl
      rw [hcons]
      by_cases hu : CanVisit s u
      · obtain ⟨s₁, hrun⟩ := setUrlState_visiting_ok.mpr hu
        obtain ⟨hok, hvisit⟩ := ih s₁
        have hcan := canVisit_next hrun
        rw [hrun] at hstate
        rw [Exec.run_bind_ok hrun]
        refine ⟨?_, fun w => ?_⟩
        · rw [hok, List.forall_mem_cons, and_iff_right hu]
          exact forall₂_congr fun w _ => hcan w
        · rw [hvisit, hstate, reached_congr hcan, reached, if_pos hu]
          by_cases hw : w = u
          · rw [if_pos hw, if_pos (List.mem_cons.mpr (.inl hw))]
            exact ite_self _
          · rw [if_neg hw]
            exact if_congr (List.mem_cons.trans (or_iff_right hw)).symm rfl rfl
      · cases hrun : (Url.setUrlState u .visiting).run s with
        | mk r s₁ =>
          cases r with
          | ok _ => exact absurd (setUrlState_visiting_ok.mp ⟨s₁, hrun⟩) hu
          | error e =>
              rw [hrun] at hstate
              rw [Exec.run_bind_error hrun]
              refine ⟨iff_of_false ?_ fun hall => hu (hall u List.mem_cons_self), fun w => ?_⟩
              · rintro ⟨_, h⟩
                cases congrArg Prod.fst h
              · rw [hstate, reached, if_neg hu]
                exact if_congr List.mem_singleton.symm rfl rfl

theorem run_visitGroup (g : GroupRef) (s : ServerState) :
    (UrlGroup.setUrlGroupState g .visiting).run s =
      ((s.group g).urlList.forM (UrlGroup.passOn g .visiting) >>= fun _ =>
        UrlGroupsController.update g).run (s.setGroup g (UrlGroup.enter .visiting)) := by
  have hlist : ((s.setGroup g (UrlGroup.enter .visiting)).group g).urlList =
      (s.group g).urlList := by
    rw [ServerState.group_setGroup]
    rfl
  rw [UrlGroup.setUrlGroupState]
  simp only [Exec.run_modify_bind, Exec.run_gets_bind, hlist]

/-- The group becomes VISITING with all its URLs. -/
theorem visitGroup_ok {s : ServerState} (h : ∀ u ∈ (s.group g).urlList, CanVisit s u) :
    ∃ s', (UrlGroup.setUrlGroupState g .visiting).run s = (.ok (), s') ∧
      (s'.group g).urlGroupState = .visiting ∧
        ∀ u ∈ (s.group g).urlList, (s'.visit u).urlState = .visiting := by
  obtain ⟨hok, hvisit⟩ := visitAll (g := g) (s.group g).urlList
    (s.setGroup g (UrlGroup.enter .visiting))
  obtain ⟨s₁, hloop⟩ := hok.mpr h
  have hstore : StoreOnly (s.setGroup g (UrlGroup.enter .visiting)) s₁ := Exec.Within.of_run hloop
  have hgroup : (s₁.group g).urlGroupState = .visiting := by
    rw [hstore]
    exact congrArg UrlGroup.urlGroupState (ServerState.group_setGroup g (UrlGroup.enter .visiting) s)
  rw [run_visitGroup, Exec.run_bind_ok hloop, run_update_visiting hgroup]
  refine ⟨_, rfl, hgroup, fun u hu => ?_⟩
  rw [hloop] at hvisit
  refine (hvisit u).trans (if_pos ?_)
  rw [reached_all (p := CanVisit (s.setGroup g (UrlGroup.enter .visiting))) h]
  exact hu

/-- Otherwise it becomes VISITING with the URLs that are reached. -/
theorem visitGroup_torn {s : ServerState} (h : ¬ ∀ u ∈ (s.group g).urlList, CanVisit s u) :
    ∃ e s', (UrlGroup.setUrlGroupState g .visiting).run s = (.error e, s') ∧
      (s'.group g).urlGroupState = .visiting ∧ s'.client = s.client ∧
        ∀ u, (s'.visit u).urlState =
          if u ∈ reached (CanVisit s) (s.group g).urlList then .visiting
          else (s.visit u).urlState := by
  obtain ⟨hok, hvisit⟩ := visitAll (g := g) (s.group g).urlList
    (s.setGroup g (UrlGroup.enter .visiting))
  cases hloop : ((s.group g).urlList.forM (UrlGroup.passOn g .visiting)).run
      (s.setGroup g (UrlGroup.enter .visiting)) with
  | mk r s₁ =>
    cases r with
    | ok _ => exact absurd (hok.mp ⟨s₁, hloop⟩) h
    | error e =>
        have hstore : StoreOnly (s.setGroup g (UrlGroup.enter .visiting)) s₁ :=
          Exec.Within.of_run hloop
        rw [run_visitGroup, Exec.run_bind_error hloop]
        rw [hloop] at hvisit
        refine ⟨e, s₁, rfl, ?_, ?_, hvisit⟩
        · rw [hstore]
          exact congrArg UrlGroup.urlGroupState
            (ServerState.group_setGroup g (UrlGroup.enter .visiting) s)
        · rw [hstore]
          rfl

end All

/-! ## The items -/

section Items
variable {g : GroupRef} {s s' : ServerState} {item : Element} {items : List Element}

/-- The item names a URL of the group, and has a time. -/
def Proper (s : ServerState) (g : GroupRef) (item : Element) : Prop :=
  (namedUrl s g item).isSome = true ∧ (item.get "time").isSome = true

/-- The item gives the URL a start time. -/
def Times (s : ServerState) (g : GroupRef) (u : UrlRef) (item : Element) : Prop :=
  namedUrl s g item = some u ∧ ((item.get "time").bind parseDate).isSome = true

instance (u : UrlRef) : DecidablePred (Times s g u) := fun _ => inferInstanceAs (Decidable (_ ∧ _))

theorem run_startItem_named {u : UrlRef} (h : namedUrl s g item = some u) :
    (Client.startItem g item).run s = (Url.setVisitStartTime u (item.get "time")).run s := by
  simp only [namedUrl, Option.bind_eq_bind, Option.bind_eq_some_iff] at h
  obtain ⟨uri, huri, decodedURI, hdecoded, hfind⟩ := h
  simp only [Client.startItem, UrlGroup.getUrl, huri, Exec.orThrow_some, Exec.pure_bind, hdecoded,
    Exec.run_gets_bind, hfind, bind_assoc]

theorem run_startItem_unnamed (h : namedUrl s g item = none) :
    ∃ e, (Client.startItem g item).run s = (.error e, s) := by
  cases huri : item.get "url" with
  | none => exact ⟨.nullPointer, by simp [Client.startItem, huri]⟩
  | some uri =>
      cases hdecoded : urlDecode (toLowerCase uri) with
      | none =>
          exact ⟨.illegalArgument, by simp [Client.startItem, UrlGroup.getUrl, huri, hdecoded]⟩
      | some decodedURI =>
          simp only [namedUrl, huri, hdecoded, Option.bind_eq_bind, Option.bind_some] at h
          refine ⟨.nullPointer, ?_⟩
          simp only [Client.startItem, UrlGroup.getUrl, huri, hdecoded, Exec.orThrow_some,
            Exec.pure_bind, Exec.run_gets_bind, bind_assoc, h, Exec.orThrow_none, Exec.throw_bind,
            Exec.run_throw]

theorem startItem_ok : (∃ s', (Client.startItem g item).run s = (.ok (), s')) ↔ Proper s g item := by
  cases hnamed : namedUrl s g item with
  | none =>
      obtain ⟨e, he⟩ := run_startItem_unnamed hnamed
      rw [he, Proper, hnamed]
      refine iff_of_false ?_ fun h => Bool.noConfusion h.1
      rintro ⟨_, h⟩
      cases congrArg Prod.fst h
  | some u =>
      rw [run_startItem_named hnamed, Proper, hnamed, Url.setVisitStartTime, storeTime]
      cases htime : item.get "time" with
      | none =>
          refine iff_of_false ?_ fun h => Bool.noConfusion h.2
          rintro ⟨_, h⟩
          cases congrArg Prod.fst h
      | some time =>
          refine iff_of_true ?_ ⟨rfl, rfl⟩
          cases hdate : parseDate time with
          | none => exact ⟨s, by simp [hdate]⟩
          | some date => exact ⟨_, by simp only [Exec.orThrow_some, Exec.pure_bind, hdate]; rfl⟩

/-- The start times that an item leaves. -/
theorem of_run_startItem (h : (Client.startItem g item).run s = (.ok (), s')) (w : UrlRef) :
    (s'.visit w).visitStartTime.isSome = true ↔
      (s.visit w).visitStartTime.isSome = true ∨ Times s g w item := by
  obtain ⟨hnamed, htime⟩ := startItem_ok.mp ⟨s', h⟩
  obtain ⟨u, hnamed⟩ := Option.isSome_iff_exists.mp hnamed
  obtain ⟨time, htime⟩ := Option.isSome_iff_exists.mp htime
  rw [run_startItem_named hnamed, Url.setVisitStartTime, storeTime, htime] at h
  simp only [Exec.orThrow_some, Exec.pure_bind] at h
  rw [Times, hnamed, htime, Option.bind_some]
  cases hdate : parseDate time with
  | none =>
      simp only [hdate] at h
      obtain rfl : s = s' := congrArg Prod.snd h
      exact (or_iff_left fun h => Bool.noConfusion h.2).symm
  | some date =>
      simp only [hdate, Exec.run_modify] at h
      obtain rfl : _ = s' := congrArg Prod.snd h
      have hfield := congrFun (field_setVisit (p := UrlVisit.visitStartTime) u
        (fun x => { x with visitStartTime := some date }) s) w
      rw [hfield, Function.update_apply]
      by_cases hw : w = u
      · rw [if_pos hw, hw]
        exact iff_of_true rfl (.inr ⟨rfl, rfl⟩)
      · rw [if_neg hw]
        exact (or_iff_left fun h => hw (Option.some.inj h.1).symm).symm

theorem quiet_names (h : Quiet s s') (item : Element) : namedUrl s' g item = namedUrl s g item :=
  namedUrl_congr (by rw [h.rest]) (by rw [h.rest]) item

/-- The loop over the items goes through if all are proper, and gives the URLs their times. -/
theorem run_startItems : ∀ (items : List Element) (s : ServerState),
    ((∃ s', (items.forM (Client.startItem g)).run s = (.ok (), s')) ↔
      ∀ item ∈ items, Proper s g item) ∧
    ∀ s', (items.forM (Client.startItem g)).run s = (.ok (), s') → ∀ w,
      ((s'.visit w).visitStartTime.isSome = true ↔
        (s.visit w).visitStartTime.isSome = true ∨ ∃ item ∈ items, Times s g w item) := by
  intro items
  induction items with
  | nil =>
      intro s
      refine ⟨⟨fun _ => List.forall_mem_nil _, fun _ => ⟨s, rfl⟩⟩, fun s' h w => ?_⟩
      obtain rfl : s = s' := congrArg Prod.snd h
      exact (or_iff_left fun ⟨_, hmem, _⟩ => absurd hmem List.not_mem_nil).symm
  | cons item items ih =>
      intro s
      have hcons : (List.forM (item :: items) (Client.startItem g)).run s =
          (Client.startItem g item >>= fun _ => items.forM (Client.startItem g)).run s := rfl
      rw [hcons]
      by_cases hitem : Proper s g item
      · obtain ⟨s₁, hrun⟩ := startItem_ok.mpr hitem
        obtain ⟨hok, htimes⟩ := ih s₁
        have hquiet : Quiet s s₁ := Exec.Within.of_run hrun
        rw [Exec.run_bind_ok hrun]
        refine ⟨?_, fun s' h w => ?_⟩
        · rw [hok, List.forall_mem_cons, and_iff_right hitem]
          simp only [Proper, quiet_names hquiet]
        · rw [htimes s' h w, of_run_startItem hrun w, or_assoc, List.exists_mem_cons_iff]
          simp only [Times, quiet_names hquiet]
      · refine ⟨iff_of_false ?_ fun hall => hitem (hall item List.mem_cons_self), ?_⟩
        · rintro ⟨s', h⟩
          obtain ⟨_, s₁, hrun, -⟩ := Exec.of_run_bind_ok h
          exact hitem (startItem_ok.mp ⟨s₁, hrun⟩)
        · intro s' h
          obtain ⟨_, s₁, hrun, -⟩ := Exec.of_run_bind_ok h
          exact absurd (startItem_ok.mp ⟨s₁, hrun⟩) hitem

end Items

/-! ## The message -/

section Message
variable {c : ClientRef} {g : GroupRef} {element : Element} {s s' : ServerState}

/-- All of the group is VISITING, or nothing has changed its state. -/
def AllOrNothing (c : ClientRef) (g : GroupRef) (s s' : ServerState) : Prop :=
  ((∀ u ∈ (s.group g).urlList, (s'.visit u).urlState = .visiting) ∧
      (s'.group g).urlGroupState = .visiting ∧ (s'.client c).clientState = .visiting) ∨
    ((∀ u, (s'.visit u).urlState = (s.visit u).urlState) ∧
      (∀ g, (s'.group g).urlGroupState = (s.group g).urlGroupState) ∧
        ∀ c, (s'.client c).clientState = (s.client c).clientState)

/-- Something is missing that is wanted before the group becomes VISITING. -/
def Refused (c : ClientRef) (g : GroupRef) (element : Element) (s : ServerState) : Prop :=
  (s.client c).virtualMachine = none ∨ element.get "time" = none ∨
    ¬ ∀ item ∈ element.childElements, Proper s g item

/-- The URL is VISITING, or has a start time, or the message gives it one. -/
def CanStart (g : GroupRef) (element : Element) (s : ServerState) (u : UrlRef) : Prop :=
  CanVisit s u ∨ ∃ item ∈ element.childElements, Times s g u item

instance : DecidablePred (CanStart g element s) := fun _ => inferInstanceAs (Decidable (_ ∨ _))

/-- **The condition.**  In the last case everything that is not reached is VISITING already. -/
def StartsWhole (c : ClientRef) (g : GroupRef) (element : Element) (s : ServerState) : Prop :=
  Refused c g element s ∨ (∀ u ∈ (s.group g).urlList, CanStart g element s u) ∨
    ((s.client c).clientState = .visiting ∧ ∀ u ∈ (s.group g).urlList,
      (s.visit u).urlState = .visiting ∨ u ∈ reached (CanStart g element s) (s.group g).urlList)

/-- The first half of what is done to the group. -/
theorem run_timeGroup (g : GroupRef) (time : String) (algorithm : Option String) (s : ServerState) :
    ∃ s₁, (UrlGroup.setVisitStartTime g (some time) >>= fun _ =>
      UrlGroup.setAlgorithm g algorithm).run s = (.ok (), s₁) ∧ s₁.store = s.store ∧
        s₁.url = s.url ∧ (s₁.group g).urlList = (s.group g).urlList := by
  have hlist : ∀ (f : UrlGroup → UrlGroup) (s : ServerState), (f (s.group g)).urlList =
      (s.group g).urlList → ((s.setGroup g f).group g).urlList = (s.group g).urlList := by
    intro f s hf
    rw [ServerState.group_setGroup, hf]
  cases hdate : parseDate time with
  | none =>
      have hrun : (UrlGroup.setVisitStartTime g (some time)).run s = (.ok (), s) := by
        simp [UrlGroup.setVisitStartTime, storeTime, hdate]
      exact ⟨_, Exec.run_bind_ok hrun, rfl, rfl, hlist _ s rfl⟩
  | some date =>
      have hrun : (UrlGroup.setVisitStartTime g (some time)).run s =
          (.ok (), s.setGroup g fun x => { x with visitStartTime := some date }) := by
        simp only [UrlGroup.setVisitStartTime, storeTime, Exec.orThrow_some, Exec.pure_bind, hdate,
          Exec.run_modify]
      refine ⟨_, Exec.run_bind_ok hrun, rfl, rfl, ?_⟩
      exact (hlist _ _ rfl).trans (hlist _ s rfl)

/-- The message is refused, or leads to the transition with the start times set. -/
theorem run_beginVisit (element : Element) (s : ServerState) :
    (Refused c g element s ∧ ∃ e s₁, (beginVisit g (s.client c) element).run s = (.error e, s₁)) ∨
      ¬ Refused c g element s ∧ ∃ s₁, (beginVisit g (s.client c) element).run s = (.ok (), s₁) ∧
        ∀ u, CanVisit s₁ u ↔ CanStart g element s u := by
  cases hvm : (s.client c).virtualMachine with
  | none =>
      refine .inl ⟨.inl hvm, .nullPointer, s, ?_⟩
      rw [beginVisit, hvm]
      rfl
  | some v =>
      cases htime : element.get "time" with
      | none =>
          refine .inl ⟨.inr (.inl htime), .nullPointer, s, ?_⟩
          rw [beginVisit, hvm, htime]
          rfl
      | some time =>
          obtain ⟨s₂, hgroup, hstore, hurl, hlist⟩ := run_timeGroup g time
            (s.client c).algorithm s
          have hnamed : ∀ item, namedUrl s₂ g item = namedUrl s g item := namedUrl_congr hlist hurl
          have hsplit : (beginVisit g (s.client c) element).run s =
              (element.childElements.forM (Client.startItem g)).run s₂ := by
            rw [← Exec.run_bind_ok (f := fun _ => element.childElements.forM (Client.startItem g))
              hgroup]
            simp only [beginVisit, hvm, htime, Exec.orThrow_some, Exec.pure_bind, bind_assoc]
          obtain ⟨hok, htimes⟩ := run_startItems (g := g) element.childElements s₂
          have hproper : (∀ item ∈ element.childElements, Proper s₂ g item) ↔
              ∀ item ∈ element.childElements, Proper s g item := by
            simp only [Proper, hnamed]
          rw [hproper] at hok
          rw [hsplit]
          by_cases hall : ∀ item ∈ element.childElements, Proper s g item
          · obtain ⟨s₁, hrun⟩ := hok.mpr hall
            have hquiet : Quiet s₂ s₁ := Exec.Within.of_run hrun
            refine .inr ⟨?_, s₁, hrun, fun u => ?_⟩
            · rintro (hnone | hnone | hnot)
              · rw [hvm] at hnone
                cases hnone
              · rw [htime] at hnone
                cases hnone
              · exact hnot hall
            · have hvisit : s₂.visit u = s.visit u := by
                rw [ServerState.visit, hstore, ServerState.visit]
              rw [CanVisit, hquiet.urlState u, htimes s₁ hrun u, hvisit, ← or_assoc, CanStart,
                CanVisit]
              simp only [Times, hnamed]
          · refine .inl ⟨.inr (.inr hall), ?_⟩
            cases hrun : (element.childElements.forM (Client.startItem g)).run s₂ with
            | mk r s₁ =>
              cases r with
              | ok _ => exact absurd (hok.mp ⟨s₁, hrun⟩) hall
              | error e => exact ⟨e, s₁, rfl⟩

theorem run_parseStart (hg : (s.client c).visitingUrlGroup = some g)
    (htype : element.get "type" = some "start") :
    (Client.parseVisitEvent c element).run s =
      (beginVisit g ((told c element s).client c) element >>= fun _ =>
        UrlGroup.setUrlGroupState g .visiting >>= fun _ =>
          Client.setClientState c .visiting).run (told c element s) := by
  have hgroup : ((told c element s).client c).visitingUrlGroup = some g := by
    rw [told, ServerState.client_setClient]
    exact hg
  have hstart : (Client.parseVisitEvent c element).run s =
      (Client.parseStart c element).run (told c element s) := by
    simp only [Client.parseVisitEvent, Exec.run_modify_bind, htype, Exec.orThrow_some,
      Exec.pure_bind, if_true]
    rfl
  rw [hstart]
  simp only [Client.parseStart, beginVisit, Exec.run_gets_bind, hgroup, Exec.orThrow_some,
    Exec.pure_bind, bind_assoc]

theorem refused_told : Refused c g element (told c element s) ↔ Refused c g element s := by
  rw [Refused, Refused, told, ServerState.client_setClient]
  rfl

theorem Edits.nothing (h : Edits c g s s') : AllOrNothing c g s s' := by
  refine .inr ⟨h.urlState, fun g' => ?_, fun c' => ?_⟩
  · by_cases hg : g' = g
    · rw [hg, h.urlGroupState]
    · rw [h.others g' hg]
  · by_cases hc : c' = c
    · rw [hc, h.client]
    · rw [h.clients c' hc]

/-- **A start message is done as a whole or not at all** just if it is refused at once, or every URL
of the group can start, or the client and whatever is not reached are VISITING already. -/
theorem start_allOrNothing_iff (hg : (s.client c).visitingUrlGroup = some g)
    (htype : element.get "type" = some "start") :
    AllOrNothing c g s ((Client.parseVisitEvent c element).run s).2 ↔
      StartsWhole c g element s := by
  rw [run_parseStart hg htype]
  rcases run_beginVisit (c := c) (g := g) element (told c element s) with
    ⟨hrefused, e, s₁, hrun⟩ | ⟨haccepted, s₁, hrun, hcan⟩
  · have hedits : Edits c g s s₁ :=
      IsTrans.trans _ _ _ (told_edits g element s) (Exec.Within.of_run hrun)
    rw [Exec.run_bind_error hrun]
    exact iff_of_true hedits.nothing (.inl (refused_told.mp hrefused))
  · have hedits : Edits c g s s₁ :=
      IsTrans.trans _ _ _ (told_edits g element s) (Exec.Within.of_run hrun)
    have hcan : ∀ u, CanVisit s₁ u ↔ CanStart g element s u := hcan
    rw [Exec.run_bind_ok hrun, StartsWhole, or_iff_right (mt refused_told.mpr haccepted)]
    by_cases hall : ∀ u ∈ (s.group g).urlList, CanStart g element s u
    · have hvisit : ∀ u ∈ (s₁.group g).urlList, CanVisit s₁ u := by
        intro u hu
        rw [hedits.urlList] at hu
        exact (hcan u).mpr (hall u hu)
      obtain ⟨s₂, hstart, hgroup, hvisiting⟩ := visitGroup_ok hvisit
      rw [hedits.urlList] at hvisiting
      rw [Exec.run_bind_ok hstart, Client.run_setClientState_visiting]
      refine iff_of_true (.inl ⟨hvisiting, hgroup, ?_⟩) (.inl hall)
      exact congrArg Client.clientState
        (ServerState.client_setClient c (fun x => { x with clientState := .visiting }) s₂)
    · have htorn : ¬ ∀ u ∈ (s₁.group g).urlList, CanVisit s₁ u := by
        rw [hedits.urlList]
        exact fun hvisit => hall fun u hu => (hcan u).mp (hvisit u hu)
      obtain ⟨e, s₂, hstart, hgroup, hclients, hstates⟩ := visitGroup_torn htorn
      rw [hedits.urlList, reached_congr hcan] at hstates
      have hclient : (s₂.client c).clientState = (s.client c).clientState := by
        rw [hclients, hedits.client]
      rw [Exec.run_bind_error hstart, or_iff_right hall]
      constructor
      · rintro (⟨hvisiting, -, hdone⟩ | ⟨hsame, -, -⟩)
        · refine ⟨hclient.symm.trans hdone, fun u hu => ?_⟩
          have hu := hvisiting u hu
          rw [hstates] at hu
          split_ifs at hu with hreached
          · exact .inr hreached
          · exact .inl ((hedits.urlState u).symm.trans hu)
        · -- the first URL that cannot start has become VISITING
          obtain ⟨u, hreached, hu, hnot⟩ := exists_reached hall
          have hstate := hsame u
          rw [hstates, if_pos hreached] at hstate
          exact absurd (.inl (.inl hstate.symm)) hnot
      · rintro ⟨hdone, hrest⟩
        refine .inl ⟨fun u hu => ?_, hgroup, hclient.trans hdone⟩
        rw [hstates]
        split_ifs with hreached
        · rfl
        · exact (hedits.urlState u).trans ((hrest u hu).resolve_right hreached)

/-- Two URLs are sent to a client. -/
def twoSent : ServerState where
  config := {}
  url u := { id := "", url := if u = 0 then "http://a/" else "http://b/", clientProgram := "ie"
             visitTime := 10 }
  store := { visit := fun _ => {} }
  group _ := { urlList := [0, 1], clientProgram := "ie", visitTime := 10 }
  nextGroup := 1
  client _ := { clientState := .awaitingVisiting, visitingUrlGroup := some 0
                virtualMachine := some 0 }
  vm _ := { vmState := .running, client := some 0 }
  urlQueue := []
  urlGroupQueue := []
  visitingList := []

/-- A start message with these items. -/
def startOf (items : List Element) : Element where
  name := "visit-event"
  attributes := [("type", "start"), ("time", "1/1/2010 0:0:0.0"), ("algorithm", "bulk")]
  childElements := items

def itemOf (url : String) : Element where
  name := "item"
  attributes := [("url", url), ("time", "1/1/2010 0:0:0.0")]

/-- The client says that it has started with both URLs. -/
theorem start_of_both :
    AllOrNothing 0 0 twoSent ((Client.parseVisitEvent 0
      (startOf [itemOf "http%3A%2F%2Fa%2F", itemOf "http%3A%2F%2Fb%2F"])).run twoSent).2 :=
  (start_allOrNothing_iff rfl rfl).mpr (.inr (.inl (by decide)))

/-- The client says that it has started with the first URL only: the second throws. -/
theorem second_url_throws :
    ¬ AllOrNothing 0 0 twoSent
      ((Client.parseVisitEvent 0 (startOf [itemOf "http%3A%2F%2Fa%2F"])).run twoSent).2 := by
  have hclient : (((Client.parseVisitEvent 0 (startOf [itemOf "http%3A%2F%2Fa%2F"])).run
      twoSent).2.client 0).clientState = .awaitingVisiting := by decide
  have hurl : (((Client.parseVisitEvent 0 (startOf [itemOf "http%3A%2F%2Fa%2F"])).run
      twoSent).2.visit 0).urlState = .visiting := by decide
  rintro (⟨-, -, hall⟩ | ⟨hnone, -, -⟩)
  · exact absurd (hclient.symm.trans hall) (by decide)
  · exact absurd (hurl.symm.trans (hnone 0)) (by decide)

end Message

end CaptureHpc.Server
