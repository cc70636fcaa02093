/-
# `Server.GroupVisit` — the messages of a visit that goes well

A client that runs the divide-and-conquer algorithm without errors sends a start
message that gives every URL of its group a time.  When it sees an event and the
group has several URLs, the event is the last message of the visit: the group is
VISITED at once, and cut in two.  Otherwise a finish message ends the visit.

For each of these messages: it is handled to its end, and this is what it
leaves behind.  Nothing is logged for a URL before its verdict is known, and
then it is logged once (`Judgement.logged`).
-/
import CaptureHpc.Lib.Bisection
import CaptureHpc.Server.LastVisit
import CaptureHpc.Server.OneUrl
import CaptureHpc.Server.StartMessage

namespace CaptureHpc.Server

open Java

/-! ## The logs of verdicts -/

/-- The verdict on a URL that a line tells, in the malicious or the safe log. -/
def LogLine.verdictOn (u : UrlRef) : LogLine → Option Bool
  | .malicious w => if w = u then some true else none
  | .safe w => if w = u then some false else none
  | _ => none

/-- The verdicts on a URL that were logged. -/
def logged (s : ServerState) (u : UrlRef) : List Bool := s.store.log.filterMap (·.verdictOn u)

/-- No verdict is logged. -/
abbrev NoneLogged : ServerState → ServerState → Prop := Exec.Same logged

theorem logged_writeLog (line : LogLine) (s : ServerState) (u : UrlRef) :
    logged (s.writeLog line) u = logged s u ++ (line.verdictOn u).toList := by
  show (s.store.log ++ [line]).filterMap (·.verdictOn u) = _
  rw [List.filterMap_append]
  cases h : line.verdictOn u <;> simp [logged, h]

section Logs
variable {u : UrlRef}

theorem writeLog_noneLogged {line : LogLine} (h : ∀ u, line.verdictOn u = none) :
    (writeLog line).Within NoneLogged := by
  refine ⟨fun s => funext fun w => ?_⟩
  rw [Exec.run_modify, logged_writeLog, h w]
  exact List.append_nil _

instance (f : UrlVisit → UrlVisit) :
    (Exec.modify (ServerState.setVisit u f) : Action Unit).Within NoneLogged := ⟨fun _ => rfl⟩

instance (call : DatabaseCall) :
    (Exec.modify (ServerState.callDatabase call) : Action Unit).Within NoneLogged := ⟨fun _ => rfl⟩

instance : (writeLog (.visiting u)).Within NoneLogged := writeLog_noneLogged fun _ => rfl

instance : (writeLog (.visited u)).Within NoneLogged := writeLog_noneLogged fun _ => rfl

instance (major : ErrorCode) (minor : Int) : (writeLog (.error u major minor)).Within NoneLogged :=
  writeLog_noneLogged fun _ => rfl

instance : (UrlsController.update u).Within NoneLogged := by
  have hadd : (Exec.modify fun s : ServerState => { s with store :=
      { s.store with errorUrlList := s.store.errorUrlList ++ [u] } } : Action Unit).Within
        NoneLogged := ⟨fun _ => rfl⟩
  unfold UrlsController.update
  infer_instance

instance : (Url.setUrlState u .visiting).Within NoneLogged := by
  unfold Url.setUrlState
  infer_instance

end Logs

/-! ## A URL that was visited -/

section One
variable {u : UrlRef} {s s' : ServerState}

/-- The URL can enter VISITED without an error. -/
structure Ready (s : ServerState) (u : UrlRef) : Prop where
  code : codes s u = .ok
  change : (s.visit u).urlState ≠ .visited
  started : (s.visit u).visitStartTime.isSome = true
  finished : (s.visit u).visitFinishTime.isSome = true

/-- The URL is VISITED, and its verdict is logged, if there is one. -/
structure PassedOne (u : UrlRef) (s s' : ServerState) : Prop where
  touches : Touches u s s'
  visit : ∃ closed, s'.visit u = { s.visit u with urlState := .visited, logClosed := closed }
  logged : ∀ w, logged s' w = logged s w ++ if w = u then (verdicts s u).toList else []

/-- The end of the transition: the state is VISITED, so that nothing is an error. -/
theorem run_storeStatus_update (status : Option String)
    (hstart : (s.visit u).visitStartTime.isSome = true) (hstate : (s.visit u).urlState = .visited) :
    ∃ s', (Url.storeStatus u status >>= fun _ => UrlsController.update u).run s = (.ok (), s') ∧
      s'.visit = s.visit ∧ s'.store.log = s.store.log := by
  obtain ⟨date, hdate⟩ := Option.isSome_iff_exists.mp hstart
  have hquiet : ∀ s₁ : ServerState, s₁.visit = s.visit →
      (UrlsController.update u).run s₁ = (.ok (), s₁) := by
    intro s₁ hs₁
    simp [UrlsController.update, hs₁, hstate]
  have hstore : ∃ s₁, (Url.storeStatus u status).run s = (.ok (), s₁) ∧ s₁.visit = s.visit ∧
      s₁.store.log = s.store.log := by
    cases status with
    | none =>
        refine ⟨s, ?_, rfl, rfl⟩
        simp only [Url.storeStatus, Exec.run_gets_bind, Exec.run_pure, ite_self]
    | some status =>
        cases hdatabase : s.config.database with
        | false => exact ⟨s, by simp [Url.storeStatus, hdatabase], rfl, rfl⟩
        | true =>
            refine ⟨s.callDatabase (.setStatus (s.url u).id status (formatDate date)), ?_, rfl, rfl⟩
            simp [Url.storeStatus, Url.getVisitStartTime, hdatabase, hdate]
  obtain ⟨s₁, hrun, hvisit, hlog⟩ := hstore
  exact ⟨s₁, (Exec.run_bind_ok hrun).trans (hquiet s₁ hvisit), hvisit, hlog⟩

/-- What the branch for VISITED comes to. -/
theorem run_enterVisited_logs (hstart : (s.visit u).visitStartTime.isSome = true)
    (hfinish : (s.visit u).visitFinishTime.isSome = true) :
    ∃ status s', (Url.enterVisited u).run s = (.ok status, s') ∧
      (∃ closed, s'.visit u = { s.visit u with logClosed := closed }) ∧
        ∀ w, logged s' w = logged s w ++ if w = u then (verdicts s u).toList else [] := by
  obtain ⟨start, hstart⟩ := Option.isSome_iff_exists.mp hstart
  obtain ⟨finish, hfinish⟩ := Option.isSome_iff_exists.mp hfinish
  have hkept : ∀ (line : LogLine) (s : ServerState), (s.writeLog line).visit u = s.visit u :=
    fun _ _ => rfl
  have hclosed : ∀ s : ServerState, ∃ closed,
      ((s.setVisit u fun x => { x with logClosed := x.logClosed || x.logFile.isSome }).visit u) =
        { s.visit u with logClosed := closed } := by
    intro s
    rw [ServerState.visit_setVisit]
    exact ⟨_, rfl⟩
  have hlogs : ∀ (s : ServerState) f w, logged (s.setVisit u f) w = logged s w := fun _ _ _ => rfl
  cases hmalicious : (s.visit u).malicious with
  | none =>
      obtain ⟨closed, he⟩ := hclosed (s.writeLog (.visited u))
      refine ⟨none, _, ?_, ⟨closed, he⟩, fun w => ?_⟩
      · simp [Url.enterVisited, hkept, hstart, hfinish, hmalicious, Url.closeEventLog]
        rfl
      · rw [hlogs, logged_writeLog, verdicts, hmalicious]
        simp [LogLine.verdictOn]
  | some malicious =>
      cases malicious with
      | true =>
          obtain ⟨closed, he⟩ := hclosed ((s.writeLog (.visited u)).writeLog (.malicious u))
          refine ⟨some "malicious", _, ?_, ⟨closed, he⟩, fun w => ?_⟩
          · simp [Url.enterVisited, hkept, hstart, hfinish, hmalicious, Url.closeEventLog]
            rfl
          · rw [hlogs, logged_writeLog, logged_writeLog, verdicts, hmalicious]
            by_cases hw : w = u
            · simp [LogLine.verdictOn, hw]
            · simp [LogLine.verdictOn, hw, Ne.symm hw]
      | false =>
          obtain ⟨closed, he⟩ := hclosed ((s.writeLog (.visited u)).writeLog (.safe u))
          refine ⟨some "benign", _, ?_, ⟨closed, he⟩, fun w => ?_⟩
          · simp [Url.enterVisited, hkept, hstart, hfinish, hmalicious, Url.closeEventLog]
            rfl
          · rw [hlogs, logged_writeLog, logged_writeLog, verdicts, hmalicious]
            by_cases hw : w = u
            · simp [LogLine.verdictOn, hw]
            · simp [LogLine.verdictOn, hw, Ne.symm hw]

theorem run_passOn_visited {g : GroupRef} (h : Ready s u) :
    ∃ s', (UrlGroup.passOn g .visited u).run s = (.ok (), s') ∧ PassedOne u s s' := by
  have hset := ServerState.visit_setVisit u (fun x => { x with urlState := .visited }) s
  obtain ⟨status, s₁, henter, ⟨closed, hvisit⟩, hlogged⟩ := run_enterVisited_logs
    (s := s.setVisit u fun x => { x with urlState := .visited }) (u := u)
      (by rw [hset]; exact h.started) (by rw [hset]; exact h.finished)
  rw [hset] at hvisit
  obtain ⟨s', hrest, hvisits, hlog⟩ := run_storeStatus_update (s := s₁) (u := u) status
    (by rw [hvisit]; exact h.started) (by rw [hvisit])
  have hsame : ∀ w, logged s' w = logged s₁ w := by
    intro w
    rw [logged, hlog, logged]
  have hverdict : verdicts (s.setVisit u fun x => { x with urlState := .visited }) u =
      verdicts s u := by rw [verdicts, hset, verdicts]
  have hrun : (UrlGroup.passOn g .visited u).run s = (.ok (), s') := by
    have hcode : (s.visit u).majorErrorCode = .ok := h.code
    simp only [UrlGroup.passOn, Exec.run_gets_bind, hcode, if_true, Url.setUrlState, ne_eq,
      h.change,
      not_false_eq_true, Exec.run_modify_bind]
    exact (Exec.run_bind_ok henter).trans hrest
  refine ⟨s', hrun, ?_, ⟨closed, ?_⟩, fun w => ?_⟩
  · have hpass : (UrlGroup.passOn g .visited u).Within (Touches u) := by
      unfold UrlGroup.passOn
      infer_instance
    exact Exec.Within.of_run hrun
  · rw [hvisits, hvisit]
  · rw [hsame, hlogged, hverdict]
    rfl

theorem Ready.setGroup (h : Ready s u) (g : GroupRef) (f : UrlGroup → UrlGroup) :
    Ready (s.setGroup g f) u := ⟨h.code, h.change, h.started, h.finished⟩

theorem Ready.others {w : UrlRef} (h : Ready s w) (hpassed : PassedOne u s s') (hne : w ≠ u) :
    Ready s' w := by
  have hsame := hpassed.touches.others w hne
  exact ⟨(congrArg UrlVisit.majorErrorCode hsame).trans h.code, by rw [hsame]; exact h.change,
    by rw [hsame]; exact h.started, by rw [hsame]; exact h.finished⟩

end One

/-! ## A group that was visited -/

section Group
variable {g : GroupRef} {s s' : ServerState}

/-- The URLs are VISITED, and their verdicts are logged. -/
structure PassedAll (l : List UrlRef) (s s' : ServerState) : Prop where
  rest : StoreOnly s s'
  others : ∀ w ∉ l, s'.visit w = s.visit w
  states : ∀ u ∈ l, states s' u = (.visited, .ok)
  verdicts : verdicts s' = verdicts s
  logged : ∀ w, logged s' w = logged s w ++ if w ∈ l then (Server.verdicts s w).toList else []

theorem run_passAll : ∀ {l : List UrlRef} {s : ServerState}, l.Nodup → (∀ u ∈ l, Ready s u) →
    ∃ s', (l.forM (UrlGroup.passOn g .visited)).run s = (.ok (), s') ∧ PassedAll l s s'
  | [], s, _, _ =>
      ⟨s, rfl, rfl, fun _ _ => rfl, fun _ hu => absurd hu List.not_mem_nil, rfl, fun _ => by simp⟩
  | u :: l, s, hnodup, hready => by
      obtain ⟨hnot, hnodup⟩ := List.nodup_cons.mp hnodup
      obtain ⟨hu, hl⟩ := List.forall_mem_cons.mp hready
      obtain ⟨s₁, hrun, hone⟩ := run_passOn_visited (g := g) hu
      have hne : ∀ w ∈ l, w ≠ u := fun w hw he => hnot (he ▸ hw)
      obtain ⟨s', hrest, hall⟩ := run_passAll hnodup fun w hw => (hl w hw).others hone (hne w hw)
      obtain ⟨closed, hvisit⟩ := hone.visit
      have hverdicts : Server.verdicts s₁ = Server.verdicts s := by
        funext w
        by_cases hw : w = u
        · rw [hw, Server.verdicts, hvisit, Server.verdicts]
        · rw [Server.verdicts, hone.touches.others w hw, Server.verdicts]
      refine ⟨s', (Exec.run_bind_ok hrun).trans hrest, ?_⟩
      refine ⟨IsTrans.trans _ _ _ hone.touches.rest hall.rest, fun w hw => ?_, fun w hw => ?_,
        hall.verdicts.trans hverdicts, fun w => ?_⟩
      · obtain ⟨hwu, hwl⟩ := not_or.mp (mt List.mem_cons.mpr hw)
        exact (hall.others w hwl).trans (hone.touches.others w hwu)
      · by_cases hwl : w ∈ l
        · exact hall.states w hwl
        · obtain rfl := (List.mem_cons.mp hw).resolve_right hwl
          rw [states, hall.others w hwl, hvisit]
          exact Prod.ext rfl hu.code
      · rw [hall.logged, hone.logged, hverdicts]
        by_cases hwu : w = u
        · rw [if_pos hwu, if_neg (by rw [hwu]; exact hnot),
            if_pos (by rw [hwu]; exact List.mem_cons_self),
            hwu, List.append_nil]
        · rw [if_neg hwu, List.append_nil]
          congr 1
          exact if_congr (List.mem_cons.trans (or_iff_right hwu)).symm rfl rfl

/-- What a group that is cut in two leaves to the controller. -/
structure Halved (l : List UrlRef) (s s' : ServerState) : Prop where
  nextGroup : s'.nextGroup = s.nextGroup + 2
  queue : s'.urlGroupQueue = (s.nextGroup + 1) :: s.nextGroup :: s.urlGroupQueue
  first : (s'.group s.nextGroup).urlList = l.take (l.length / 2)
  second : (s'.group (s.nextGroup + 1)).urlList = l.drop (l.length / 2)
  firstBenign : (s'.group s.nextGroup).malicious = false
  secondBenign : (s'.group (s.nextGroup + 1)).malicious = false

theorem run_new_group {urls : List UrlRef} (h : urls ≠ []) (s : ServerState) :
    ∃ x, (UrlGroup.new urls).run s =
      (.ok s.nextGroup, { s with nextGroup := s.nextGroup + 1
                                 group := Function.update s.group s.nextGroup x }) ∧
        x.urlList = urls ∧ x.malicious = false := by
  cases urls with
  | nil => exact absurd rfl h
  | cons u urls => exact ⟨_, rfl, rfl, rfl⟩

theorem run_split_halved {l : List UrlRef} (h : 1 < l.length) (s : ServerState) :
    ∃ s', (UrlGroupsController.split l).run s = (.ok (), s') ∧ s'.store = s.store ∧
      (∀ g < s.nextGroup, s'.group g = s.group g) ∧ Halved l s s' := by
  obtain ⟨hsecond, hfirst⟩ := Bisection.halves_filled h
  obtain ⟨x, hx, hxlist, hxbenign⟩ := run_new_group hfirst s
  obtain ⟨y, hy, hylist, hybenign⟩ := run_new_group hsecond
    { s with nextGroup := s.nextGroup + 1, group := Function.update s.group s.nextGroup x
             urlGroupQueue := s.nextGroup :: s.urlGroupQueue }
  have hrun : (UrlGroupsController.split l).run s = (.ok (), { s with
      nextGroup := s.nextGroup + 2
      group := Function.update (Function.update s.group s.nextGroup x) (s.nextGroup + 1) y
      urlGroupQueue := (s.nextGroup + 1) :: s.nextGroup :: s.urlGroupQueue }) := by
    rw [UrlGroupsController.split, Exec.run_bind_ok hx, UrlGroupsController.push,
      Exec.run_modify_bind,
      Exec.run_bind_ok hy]
    rfl
  have hold : Function.update (Function.update s.group s.nextGroup x) (s.nextGroup + 1) y
      s.nextGroup = x := by
    rw [Function.update_of_ne (Nat.ne_of_lt (Nat.lt_succ_self _)), Function.update_self]
  have hnew : Function.update (Function.update s.group s.nextGroup x) (s.nextGroup + 1) y
      (s.nextGroup + 1) = y := Function.update_self ..
  refine ⟨_, hrun, rfl, fun g hg => ?_, rfl, rfl, ?_, ?_, ?_, ?_⟩
  · show Function.update (Function.update s.group s.nextGroup x) (s.nextGroup + 1) y g = s.group g
    rw [Function.update_of_ne (Nat.ne_of_lt (Nat.lt_succ_of_lt hg)),
      Function.update_of_ne (Nat.ne_of_lt hg)]
  · exact (congrArg UrlGroup.urlList hold).trans hxlist
  · exact (congrArg UrlGroup.urlList hnew).trans hylist
  · exact (congrArg UrlGroup.malicious hold).trans hxbenign
  · exact (congrArg UrlGroup.malicious hnew).trans hybenign

/-- What a group that enters VISITED leaves behind. -/
structure Passed (g : GroupRef) (s s' : ServerState) : Prop where
  rest : GroupsOnly s s'
  all : ∀ w ∉ (s.group g).urlList, s'.visit w = s.visit w
  states : ∀ u ∈ (s.group g).urlList, states s' u = (.visited, .ok)
  verdicts : verdicts s' = verdicts s
  logged : ∀ w, logged s' w =
    logged s w ++ if w ∈ (s.group g).urlList then (Server.verdicts s w).toList else []
  groups : ∀ g' < s.nextGroup, g' ≠ g → s'.group g' = s.group g'
  halves : Divides (s.group g) → Halved (s.group g).urlList s s'
  whole : ¬ Divides (s.group g) → s'.nextGroup = s.nextGroup ∧ s'.urlGroupQueue = s.urlGroupQueue

theorem run_visited (halg : (s.group g).algorithm.isSome = true)
    (hnodup : (s.group g).urlList.Nodup) (hready : ∀ u ∈ (s.group g).urlList, Ready s u) :
    ∃ s', (UrlGroup.setUrlGroupState g .visited).run s = (.ok (), s') ∧ Passed g s s' := by
  have hgroup : (s.setGroup g (UrlGroup.enter .visited)).group g =
      UrlGroup.enter .visited (s.group g) := ServerState.group_setGroup ..
  obtain ⟨s₁, hloop, hall⟩ := run_passAll (g := g) (s := s.setGroup g (UrlGroup.enter .visited))
    hnodup fun u hu => (hready u hu).setGroup ..
  have hgroup₁ : s₁.group g = UrlGroup.enter .visited (s.group g) := by
    rw [hall.rest]
    exact hgroup
  have hnext : s₁.nextGroup = s.nextGroup := by rw [hall.rest]; rfl
  have hqueue : s₁.urlGroupQueue = s.urlGroupQueue := by rw [hall.rest]; rfl
  have holds : ∀ g' ≠ g, s₁.group g' = s.group g' := by
    intro g' hne
    rw [hall.rest]
    exact Function.update_of_ne hne ..
  let s₂ : ServerState := { s₁ with visitingList := s₁.visitingList.erase g }
  have hbegin : (UrlGroup.setUrlGroupState g .visited).run s =
      (do if decide (Divides (s.group g)) then UrlGroupsController.split (s.group g).urlList :
        Action Unit).run s₂ := by
    have hloop' : ((UrlGroup.enter .visited (s.group g)).urlList.forM
        (UrlGroup.passOn g .visited)).run (s.setGroup g (UrlGroup.enter .visited)) = (.ok (), s₁) :=
      hloop
    have hstate : (UrlGroup.enter .visited (s.group g)).urlGroupState = .visited := rfl
    rw [UrlGroup.setUrlGroupState]
    simp only [Exec.run_modify_bind, Exec.run_gets_bind, hgroup]
    rw [Exec.run_bind_ok hloop', UrlGroupsController.update]
    simp only [Exec.run_gets_bind, hgroup₁, hstate, Exec.run_modify_bind]
    exact Exec.run_bind_ok (UrlGroupsController.run_divides halg s₂)
  have hpassed : ∀ s', (UrlGroup.setUrlGroupState g .visited).run s = (.ok (), s') →
      s'.store = s₁.store → (∀ g' < s.nextGroup, s'.group g' = s₁.group g') →
        (Divides (s.group g) → Halved (s.group g).urlList s s') →
          (¬ Divides (s.group g) → s'.nextGroup = s.nextGroup ∧
            s'.urlGroupQueue = s.urlGroupQueue) → Passed g s s' := by
    intro s' hrun hstore hgroups hhalves hwhole
    have hvisit : s'.visit = s₁.visit := by
      funext w
      rw [ServerState.visit, hstore, ServerState.visit]
    refine
      { rest := Exec.Within.of_run hrun
        all := fun w hw => (congrFun hvisit w).trans (hall.others w hw)
        states := fun u hu => ?_
        verdicts := ?_
        logged := fun w => ?_
        groups := fun g' hg' hne => (hgroups g' hg').trans (holds g' hne)
        halves := hhalves
        whole := hwhole }
    · rw [← hall.states u hu, Server.states, hvisit, Server.states]
    · funext w
      rw [Server.verdicts, hvisit]
      exact congrFun hall.verdicts w
    · rw [logged, hstore]
      exact hall.logged w
  by_cases hdivides : Divides (s.group g)
  · obtain ⟨s', hsplit, hstore, hold, hhalved⟩ := run_split_halved hdivides.2.2 s₂
    have hrun : (UrlGroup.setUrlGroupState g .visited).run s = (.ok (), s') := by
      rw [hbegin, decide_eq_true hdivides, if_pos rfl, hsplit]
    have hhalves : Halved (s.group g).urlList s s' :=
      { nextGroup := hnext ▸ hhalved.nextGroup
        queue := by rw [hhalved.queue, ← hnext, ← hqueue]
        first := hnext ▸ hhalved.first
        second := hnext ▸ hhalved.second
        firstBenign := hnext ▸ hhalved.firstBenign
        secondBenign := hnext ▸ hhalved.secondBenign }
    exact ⟨s', hrun, hpassed s' hrun hstore (fun g' hg' => hold g' (hnext ▸ hg'))
      (fun _ => hhalves) fun hnot => absurd hdivides hnot⟩
  · have hrun : (UrlGroup.setUrlGroupState g .visited).run s = (.ok (), s₂) := by
      rw [hbegin, decide_eq_false hdivides, if_neg Bool.false_ne_true]
      rfl
    exact ⟨s₂, hrun, hpassed s₂ hrun rfl (fun _ _ => rfl) (fun h => absurd h hdivides)
      fun _ => ⟨hnext, hqueue⟩⟩

end Group

/-! ## The start message -/

section Start
variable {c : ClientRef} {g : GroupRef} {element : Element} {s s' : ServerState}

/-- A start message that gives every URL of the group a time. -/
structure GoodStart (s : ServerState) (g : GroupRef) (element : Element) : Prop where
  type : element.get "type" = some "start"
  algorithm : element.get "algorithm" = some "dac"
  time : ((element.get "time").bind parseDate).isSome = true
  items : ∀ item ∈ element.childElements, Proper s g item
  all : ∀ u ∈ (s.group g).urlList, ∃ item ∈ element.childElements, Times s g u item

instance : DecidablePred (Proper s g) := fun _ => inferInstanceAs (Decidable (_ ∧ _))

instance : Decidable (GoodStart s g element) :=
  decidable_of_iff (element.get "type" = some "start" ∧ element.get "algorithm" = some "dac" ∧
      ((element.get "time").bind parseDate).isSome = true ∧
        (∀ item ∈ element.childElements, Proper s g item) ∧
          ∀ u ∈ (s.group g).urlList, ∃ item ∈ element.childElements, Times s g u item)
    ⟨fun ⟨h₁, h₂, h₃, h₄, h₅⟩ => ⟨h₁, h₂, h₃, h₄, h₅⟩, fun h => ⟨h.1, h.2, h.3, h.4, h.5⟩⟩

/-- What a start message leaves behind. -/
structure Started (c : ClientRef) (g : GroupRef) (s s' : ServerState) : Prop where
  rest : s' = { s with store := s'.store, group := s'.group, client := s'.client
                       visitingList := s'.visitingList }
  clients : ∀ c' ≠ c, s'.client c' = s.client c'
  client : s'.client c = { s.client c with algorithm := some "dac", clientState := .visiting }
  groups : ∀ g' ≠ g, s'.group g' = s.group g'
  group : ∃ date, s'.group g = { s.group g with
    urlGroupState := .visiting, visitStartTime := some date, algorithm := some "dac" }
  others : ∀ w ∉ (s.group g).urlList, s'.visit w = s.visit w
  visiting : ∀ u ∈ (s.group g).urlList,
    (s'.visit u).urlState = .visiting ∧ (s'.visit u).visitStartTime.isSome = true
  codes : codes s' = codes s
  verdicts : verdicts s' = verdicts s
  logged : logged s' = logged s

theorem of_run_visitGroup (h : (UrlGroup.setUrlGroupState g .visiting).run s = (.ok (), s')) :
    ∃ s₁, ((s.group g).urlList.forM (UrlGroup.passOn g .visiting)).run
        (s.setGroup g (UrlGroup.enter .visiting)) = (.ok (), s₁) ∧
      s' = { s₁ with visitingList := s₁.visitingList ++ [g] } := by
  rw [run_visitGroup] at h
  obtain ⟨_, s₁, hloop, hupdate⟩ := Exec.of_run_bind_ok h
  have hstore : StoreOnly (s.setGroup g (UrlGroup.enter .visiting)) s₁ := Exec.Within.of_run hloop
  have hstate : (s₁.group g).urlGroupState = .visiting := by
    rw [hstore]
    exact congrArg UrlGroup.urlGroupState
      (ServerState.group_setGroup g (UrlGroup.enter .visiting) s)
  rw [run_update_visiting hstate] at hupdate
  exact ⟨s₁, hloop, (congrArg Prod.snd hupdate).symm⟩

/-- What no URL changes that becomes VISITING is not changed by the group either. -/
theorem visitGroup_keeps {α : Type} (p : ServerState → α)
    [hp : ∀ u, (Url.setUrlState u .visiting).Within (Exec.Same p)]
    (hgroup : ∀ f s, p (s.setGroup g f) = p s) (hlist : ∀ l s, p { s with visitingList := l } = p s)
    (h : (UrlGroup.setUrlGroupState g .visiting).run s = (.ok (), s')) : p s' = p s := by
  obtain ⟨s₁, hloop, rfl⟩ := of_run_visitGroup h
  have hpass : ∀ u, (UrlGroup.passOn g .visiting u).Within (Exec.Same p) := hp
  have hsame : p s₁ = p (s.setGroup g (UrlGroup.enter .visiting)) :=
    Exec.Within.of_run (R := Exec.Same p) hloop
  rw [hlist, hsame, hgroup]

theorem run_start {v : VmRef} (hg : (s.client c).visitingUrlGroup = some g)
    (hv : (s.client c).virtualMachine = some v) (h : GoodStart s g element) :
    ∃ s', (Client.parseVisitEvent c element).run s = (.ok (), s') ∧ Started c g s s' := by
  obtain ⟨date, hdate⟩ := Option.isSome_iff_exists.mp h.time
  obtain ⟨time, htime, hdate⟩ := Option.bind_eq_some_iff.mp hdate
  have hclient : (told c element s).client c = { s.client c with algorithm := some "dac" } := by
    rw [told, ServerState.client_setClient, h.algorithm]
  let s₁ : ServerState := ((told c element s).setGroup g fun x =>
    { x with visitStartTime := some date }).setGroup g fun x => { x with algorithm := some "dac" }
  have hgroup₁ : s₁.group g =
      { s.group g with visitStartTime := some date, algorithm := some "dac" } := by
    show (ServerState.setGroup g _ (ServerState.setGroup g _ (told c element s))).group g = _
    rw [ServerState.group_setGroup, ServerState.group_setGroup]
    rfl
  have hbegin : (beginVisit g ((told c element s).client c) element).run (told c element s) =
      (element.childElements.forM (Client.startItem g)).run s₁ := by
    simp only [beginVisit, hclient, hv, htime, UrlGroup.setVisitStartTime, UrlGroup.setAlgorithm,
      storeTime, hdate, Exec.orThrow_some, Exec.pure_bind, Exec.run_modify_bind]
    rfl
  -- the items
  have hnamed : ∀ item, namedUrl s₁ g item = namedUrl s g item :=
    namedUrl_congr (by rw [hgroup₁]) rfl
  obtain ⟨hok, htimes⟩ := run_startItems (g := g) element.childElements s₁
  obtain ⟨s₂, hitems⟩ := hok.mpr fun item hitem => by
    rw [Proper, hnamed]
    exact h.items item hitem
  have hquiet : Quiet s₁ s₂ := Exec.Within.of_run hitems
  have hstates₂ : states s₂ = states s₁ := by
    have hitem : ∀ item, (Client.startItem g item).Within StatesKept := by
      intro item
      unfold Client.startItem UrlGroup.getUrl
      infer_instance
    exact Exec.Within.of_run (R := StatesKept) hitems
  have hverdicts₂ : verdicts s₂ = verdicts s₁ := by
    have hitem : ∀ item, (Client.startItem g item).Within Unjudged := by
      intro item
      unfold Client.startItem UrlGroup.getUrl
      infer_instance
    exact Exec.Within.of_run (R := Unjudged) hitems
  have hgroup₂ : s₂.group = s₁.group := by rw [hquiet.rest]
  have hstart₂ : ∀ u ∈ (s.group g).urlList, (s₂.visit u).visitStartTime.isSome = true := by
    intro u hu
    obtain ⟨item, hitem, htimed⟩ := h.all u hu
    refine (htimes s₂ hitems u).mpr (.inr ⟨item, hitem, ?_⟩)
    rw [Times, hnamed]
    exact htimed
  -- the group becomes VISITING
  have hlist₂ : (s₂.group g).urlList = (s.group g).urlList := by rw [hgroup₂, hgroup₁]
  obtain ⟨s₃, hvisit, -, hvisiting⟩ := visitGroup_ok (g := g) (s := s₂) fun u hu =>
    .inr (hstart₂ u (by rwa [hlist₂] at hu))
  rw [hlist₂] at hvisiting
  obtain ⟨hgroup₃, hnext₃, hqueue₃⟩ := of_run_setUrlGroupState_visiting hvisit
  have hkeep₃ : GroupsOnly s₂ s₃ := Exec.Within.of_run hvisit
  have hclient₃ : s₃.client = (told c element s).client := by rw [hkeep₃, hquiet.rest]; rfl
  have hrun : (Client.parseVisitEvent c element).run s =
      (.ok (), s₃.setClient c fun x => { x with clientState := .visiting }) := by
    rw [run_parseStart hg h.type, Exec.run_bind_ok (hbegin.trans hitems), Exec.run_bind_ok hvisit,
      Client.run_setClientState_visiting]
  have hgroups₃ : s₃.group =
      Function.update s₁.group g (UrlGroup.enter .visiting (s₁.group g)) := by
    rw [hgroup₃, ServerState.setGroup, hgroup₂]
  refine ⟨_, hrun, ?_⟩
  refine
    { rest := ?_, clients := fun c' hne => ?_, client := ?_, groups := fun g' hne => ?_
      group := ⟨date, ?_⟩, others := fun w hw => ?_, visiting := fun u hu => ⟨?_, ?_⟩
      codes := ?_, verdicts := ?_, logged := ?_ }
  · show s₃.setClient c _ = _
    have hnext : s₃.nextGroup = s.nextGroup := by rw [hnext₃, hquiet.rest]; rfl
    have hqueue : s₃.urlGroupQueue = s.urlGroupQueue := by rw [hqueue₃, hquiet.rest]; rfl
    rw [ServerState.setClient, hkeep₃, hquiet.rest, hnext, hqueue]
    rfl
  · show Function.update s₃.client c _ c' = _
    rw [Function.update_of_ne hne, hclient₃]
    exact Function.update_of_ne hne ..
  · rw [ServerState.client_setClient, hclient₃, hclient]
  · show s₃.group g' = _
    rw [hgroups₃, Function.update_of_ne hne]
    show (ServerState.setGroup g _ (ServerState.setGroup g _ (told c element s))).group g' = _
    exact (Function.update_of_ne hne ..).trans (Function.update_of_ne hne ..)
  · show s₃.group g = _
    rw [hgroups₃, Function.update_self, hgroup₁]
    rfl
  · have hwithout : Without c w s := by
      intro g' hg'
      obtain rfl := Option.some.inj (hg.symm.trans hg')
      exact hw
    have hsame := visit_of_confined (x := Client.parseVisitEvent c element)
      (fun _ _ => inferInstance) hwithout
    rwa [hrun] at hsame
  · exact hvisiting u hu
  · have hlasts := visitGroup_keeps (fun s u => (s.visit u).visitStartTime) (fun _ _ => rfl)
      (fun _ _ => rfl) hvisit
    have hone : (s₃.visit u).visitStartTime = (s₂.visit u).visitStartTime := congrFun hlasts u
    show (s₃.visit u).visitStartTime.isSome = true
    rw [hone]
    exact hstart₂ u hu
  · have hcodes := visitGroup_keeps codes (fun _ _ => rfl) (fun _ _ => rfl) hvisit
    exact hcodes.trans (codes_congr hstates₂)
  · have hverdicts := Exec.Within.of_run (R := Unjudged) hvisit
    exact hverdicts.trans hverdicts₂
  · refine (visitGroup_keeps logged (fun _ _ => rfl) (fun _ _ => rfl) hvisit).trans ?_
    funext u
    rw [logged, hquiet.log]
    rfl

end Start

/-! ## The line for an event -/

theorem splitFields_ne_nil (l field : List Char) : splitFields l field ≠ [] := by
  fun_induction splitFields l field with
  | case1 => exact List.cons_ne_nil _ _
  | case2 => exact List.cons_ne_nil _ _
  | case3 _ _ _ _ ih => exact ih

/-- A separator makes two fields. -/
theorem two_le_splitFields {l x y : List Char} (field : List Char)
    (h : l = x ++ '"' :: ',' :: '"' :: y) : 2 ≤ (splitFields l field).length := by
  fun_induction splitFields l field generalizing x with
  | case1 => cases x <;> cases h
  | case2 rest field =>
      have := List.length_pos_iff.mpr (splitFields_ne_nil rest [])
      rw [List.length_cons]
      omega
  | case3 c rest field hno ih =>
      cases x with
      | nil =>
          obtain ⟨rfl, hrest⟩ := List.cons.inj h
          exact absurd hrest (hno y rfl)
      | cons c' x => exact ih (List.cons.inj h).2

/-- A text that ends with a line feed has a last field that does. -/
theorem splitFields_last {l x : List Char} (field : List Char) (h : l = x ++ ['\n']) :
    ∃ fields last, splitFields l field = fields ++ [last ++ ['\n']] := by
  fun_induction splitFields l field generalizing x with
  | case1 => cases x <;> cases h
  | case2 rest field ih =>
      rcases List.eq_nil_or_concat' rest with rfl | ⟨rest, d, rfl⟩
      · have hquote : ['"'] = ['\n'] :=
          (List.append_inj' (show ['"', ','] ++ ['"'] = _ from h) rfl).2
        exact absurd hquote (by decide)
      · have hd : [d] = ['\n'] :=
          (List.append_inj' (show ('"' :: ',' :: '"' :: rest) ++ [d] = _ from h) rfl).2
        obtain ⟨fields, last, he⟩ := ih (x := rest) (by rw [hd])
        exact ⟨field :: fields, last, by rw [he]; rfl⟩
  | case3 c rest field hno ih =>
      cases x with
      | nil =>
          obtain ⟨rfl, rfl⟩ := List.cons.inj h
          exact ⟨[], field, rfl⟩
      | cons c' x => exact ih (List.cons.inj h).2

/-- The line for an event has a time, or what stands in its place. -/
theorem secondField_eventLine (element : Element) :
    (secondField (Client.eventLine element)).isSome = true := by
  obtain ⟨x, y, hline⟩ : ∃ x y, (Client.eventLine element).toList =
      x ++ '"' :: ',' :: '"' :: (y ++ ['\n']) := by
    refine ⟨("\"" ++ shown (element.get "type")).toList, (shown (element.get "time") ++
      "\",\"" ++ shown (element.get "process") ++ "\",\"" ++ shown (element.get "action") ++
      "\",\"" ++ shown (element.get "object1") ++ "\",\"" ++ shown (element.get "object2") ++
      "\"").toList, ?_⟩
    simp [Client.eventLine]
  have hlength := two_le_splitFields [] hline
  have hend : (Client.eventLine element).toList = (x ++ '"' :: ',' :: '"' :: y) ++ ['\n'] := by
    rw [hline]
    simp
  obtain ⟨fields, last, hfields⟩ := splitFields_last [] hend
  have hnone : (splitFields (Client.eventLine element).toList []).reverse.dropWhile List.isEmpty =
      (splitFields (Client.eventLine element).toList []).reverse := by
    rw [hfields, List.reverse_append, List.reverse_singleton, List.singleton_append,
      List.dropWhile_cons_of_neg (by simp)]
  rw [secondField, hnone, List.reverse_reverse, Option.isSome_map, List.getElem?_eq_getElem hlength]
  rfl

/-! ## System events -/

section Event
variable {c : ClientRef} {g : GroupRef} {v : VmRef} {element : Element} {origin : Nat}
  {s s' : ServerState}

/-- A client visits a group with the divide-and-conquer algorithm. -/
structure InVisit (s : ServerState) (c : ClientRef) (g : GroupRef) (v : VmRef) : Prop where
  state : (s.client c).clientState = .visiting
  group : (s.client c).visitingUrlGroup = some g
  machine : (s.client c).virtualMachine = some v
  told : (s.client c).algorithm = some "dac"
  algorithm : (s.group g).algorithm = some "dac"
  started : (s.group g).visitStartTime.isSome = true
  codes : ∀ u ∈ (s.group g).urlList, codes s u = .ok
  visiting : ∀ u ∈ (s.group g).urlList,
    (s.visit u).urlState = .visiting ∧ (s.visit u).visitStartTime.isSome = true

theorem InVisit.without (h : InVisit s c g v) {w : UrlRef} (hw : w ∉ (s.group g).urlList) :
    Without c w s := by
  intro g' hg'
  obtain rfl := Option.some.inj (h.group.symm.trans hg')
  exact hw

instance (u : UrlRef) (event : String) : (Url.appendToLog u event).Total := by
  unfold Url.appendToLog
  infer_instance

theorem run_openLog {u : UrlRef} (hstart : (s.visit u).visitStartTime.isSome = true) :
    ∃ opened s', (Url.openLog u).run s = (.ok opened, s') := by
  obtain ⟨date, hdate⟩ := Option.isSome_iff_exists.mp hstart
  rw [Url.openLog]
  simp only [Exec.run_gets_bind, Exec.run_ite, hdate, Exec.orThrow_some, Exec.pure_bind]
  split
  · split <;> exact ⟨_, _, rfl⟩
  · exact ⟨_, _, rfl⟩

theorem run_noteFirstStateChange {u : UrlRef} {event : String}
    (hsecond : (secondField event).isSome = true) (s : ServerState) :
    ∃ noted s', (Url.noteFirstStateChange u event).run s = (.ok noted, s') := by
  obtain ⟨text, htext⟩ := Option.isSome_iff_exists.mp hsecond
  rw [Url.noteFirstStateChange]
  simp only [Exec.run_gets_bind, Exec.run_ite, htext, Exec.orThrow_some, Exec.pure_bind]
  split
  · cases parseDate text <;> exact ⟨_, _, rfl⟩
  · exact ⟨_, _, rfl⟩

/-- The log of a URL that is being visited takes any event. -/
theorem run_urlEvent {u : UrlRef} {event : String}
    (hstart : (s.visit u).visitStartTime.isSome = true)
    (hsecond : (secondField event).isSome = true) :
    ∃ s', (Url.writeEventToLog u event).run s = (.ok (), s') := by
  obtain ⟨opened, s₁, hopen⟩ := run_openLog hstart
  rw [Url.writeEventToLog, Exec.run_bind_ok hopen]
  cases opened with
  | false => exact ⟨s₁, rfl⟩
  | true =>
      obtain ⟨noted, s₂, hnote⟩ := run_noteFirstStateChange (u := u) hsecond s₁
      rw [if_pos rfl, Exec.run_bind_ok hnote]
      cases noted with
      | false => exact ⟨s₂, rfl⟩
      | true =>
          obtain ⟨_, s₃, hrest⟩ := Exec.Total.returns (x := Url.appendToLog u event)
            (s₂.setVisit u fun x => { x with malicious := some true })
          exact ⟨s₃, hrest⟩

/-- What an event leaves behind that is reported for a single URL. -/
structure Noted (c : ClientRef) (g : GroupRef) (s s' : ServerState) : Prop where
  rest : s' = { s with store := s'.store, group := s'.group }
  groups : ∀ g' ≠ g, s'.group g' = s.group g'
  group : s'.group g = { s.group g with malicious := true }
  others : ∀ w ∉ (s.group g).urlList, s'.visit w = s.visit w
  urlState : ∀ u, (s'.visit u).urlState = (s.visit u).urlState
  started : ∀ u, (s'.visit u).visitStartTime = (s.visit u).visitStartTime
  codes : codes s' = codes s
  logged : logged s' = logged s

/-- The group is malicious. -/
def marked (g : GroupRef) (s : ServerState) : ServerState :=
  s.setGroup g fun x => { x with malicious := true }

theorem marked_group (g : GroupRef) (s : ServerState) :
    (marked g s).group g = { s.group g with malicious := true } :=
  ServerState.group_setGroup g (fun x => { x with malicious := true }) s

/-- A single URL is malicious with its group. -/
def convicted (u : UrlRef) (g : GroupRef) (s : ServerState) : ServerState :=
  (marked g s).setVisit u fun x => { x with malicious := some true }

theorem run_setMalicious_one {u : UrlRef} {map : Option StringMap}
    (hone : (s.group g).urlList = [u]) :
    (UrlGroup.setMalicious g (some "dac") true map).run s = (.ok (), convicted u g s) := by
  have hlist : ((marked g s).group g).urlList = [u] := by
    rw [marked_group]
    exact hone
  simp only [UrlGroup.setMalicious, Exec.run_modify_bind, Exec.orThrow_some, Exec.pure_bind,
    Exec.run_gets_bind]
  rw [← marked, hlist, if_pos (by decide)]
  rfl

/-- Several are not. -/
theorem run_setMalicious_several {map : Option StringMap} (hlong : 1 < (s.group g).urlList.length) :
    (UrlGroup.setMalicious g (some "dac") true map).run s = (.ok (), marked g s) := by
  have hlist : ((marked g s).group g).urlList = (s.group g).urlList := by
    rw [marked_group]
  simp only [UrlGroup.setMalicious, Exec.run_modify_bind, Exec.orThrow_some, Exec.pure_bind,
    Exec.run_gets_bind]
  rw [← marked, hlist, if_pos (by decide)]
  cases hurls : (s.group g).urlList with
  | nil =>
      rw [hurls] at hlong
      cases hlong
  | cons u rest =>
      cases rest with
      | nil =>
          rw [hurls] at hlong
          exact absurd hlong (Nat.lt_irrefl 1)
      | cons w rest => rfl

theorem run_event_single {u : UrlRef} (element : Element) (origin : Nat) (h : InVisit s c g v)
    (hone : (s.group g).urlList = [u]) :
    ∃ s', (Client.parseEvent c element origin).run s = (.ok (), s') ∧ Noted c g s s' := by
  have hgroup : (convicted u g s).group g = { s.group g with malicious := true } := marked_group g s
  have hlasts : Lasts UrlVisit.visitStartTime s (convicted u g s) :=
    lasts_setVisit (s := marked g s) rfl
  have hstart : ((convicted u g s).visit u).visitStartTime = (s.visit u).visitStartTime :=
    congrFun hlasts u
  obtain ⟨s', hevent⟩ := run_urlEvent (s := convicted u g s) (u := u)
    (by rw [hstart]; exact (h.visiting u (by rw [hone]; exact List.mem_cons_self)).2)
      (secondField_eventLine element)
  have hrun : (Client.parseEvent c element origin).run s = (.ok (), s') := by
    have hlist : ((convicted u g s).group g).urlList = [u] := by
      rw [hgroup]
      exact hone
    have hmachine : ((convicted u g s).client c).virtualMachine = some v := h.machine
    simp only [Client.parseEvent, Exec.run_gets_bind, h.state, if_true, h.told, h.group,
      Exec.orThrow_some, Exec.pure_bind, UrlGroup.size, hone, List.length_singleton,
      Nat.lt_irrefl, decide_false, Bool.and_false, Bool.false_eq_true, if_false, Client.reportEvent]
    rw [Exec.run_bind_ok (run_setMalicious_one hone)]
    simp only [Exec.run_gets_bind, hmachine, Exec.orThrow_some, Exec.pure_bind,
      UrlGroup.writeEventToLog, hlist]
    exact hevent
  have hquiet : Quiet (convicted u g s) s' := Exec.Within.of_run hevent
  refine ⟨s', hrun, ?_⟩
  refine
    { rest := ?_, groups := fun g' hne => ?_, group := ?_, others := fun w hw => ?_
      urlState := fun w => ?_, started := fun w => ?_, codes := ?_, logged := ?_ }
  · rw [hquiet.rest]
    rfl
  · rw [hquiet.rest]
    exact Function.update_of_ne hne ..
  · rw [hquiet.rest]
    exact hgroup
  · have hsame := visit_of_confined (x := Client.parseEvent c element origin)
      (fun _ _ => inferInstance) (h.without hw)
    rwa [hrun] at hsame
  · exact (hquiet.urlState w).trans
      (congrFun (lasts_setVisit (p := UrlVisit.urlState) (s := marked g s) rfl) w)
  · have hkept : Lasts UrlVisit.visitStartTime (convicted u g s) s' := Exec.Within.of_run hevent
    exact (congrFun hkept w).trans (congrFun hlasts w)
  · have hcodes := codes_congr (Exec.Within.of_run (R := StatesKept) hevent)
    exact hcodes.trans (lasts_setVisit (p := UrlVisit.majorErrorCode) (s := marked g s) rfl)
  · funext w
    rw [logged, hquiet.log]
    rfl

/-- The log of a group takes any event. -/
theorem run_groupEvent (event : String) (hlong : 1 < (s.group g).urlList.length)
    (hstart : (s.group g).visitStartTime.isSome = true) :
    ∃ log, (UrlGroup.writeEventToLog g event).run s =
      (.ok (), s.setGroup g fun x => { x with logFile := log }) := by
  obtain ⟨date, hdate⟩ := Option.isSome_iff_exists.mp hstart
  have hsame : s.setGroup g (fun x => { x with logFile := (s.group g).logFile }) = s := by
    rw [ServerState.setGroup, Function.update_eq_self]
  have happend : ∃ log, (UrlGroup.appendToLog g event).run s =
      (.ok (), s.setGroup g fun x => { x with logFile := log }) := by
    refine ⟨some ((s.group g).logFile.getD [] ++ [event]), ?_⟩
    rw [UrlGroup.appendToLog, Exec.run_modify, ServerState.setGroup, ServerState.setGroup]
  rw [UrlGroup.writeEventToLog]
  simp only [Exec.run_gets_bind]
  split
  · next u hone =>
      rw [hone] at hlong
      exact absurd hlong (Nat.lt_irrefl 1)
  · rw [Exec.run_ite]
    split
    · simp only [hdate, Exec.orThrow_some, Exec.pure_bind, Exec.run_gets_bind, Exec.run_ite]
      split
      · exact happend
      · exact ⟨(s.group g).logFile, by rw [hsame]; rfl⟩
    · exact happend

/-- The finish times of the URLs are set. -/
theorem run_finishAll {time : String} {date : Date} (hdate : parseDate time = some date) :
    ∀ (l : List UrlRef) (s : ServerState), ∃ s',
      (l.forM fun u => Url.setVisitFinishTime u (some time)).run s = (.ok (), s') ∧ ∀ w,
      s'.visit w = if w ∈ l then { s.visit w with visitFinishTime := some date } else s.visit w
  | [], s => ⟨s, rfl, fun w => (if_neg List.not_mem_nil).symm⟩
  | u :: l, s => by
      let s₁ : ServerState := s.setVisit u fun x => { x with visitFinishTime := some date }
      have hrun : (Url.setVisitFinishTime u (some time)).run s = (.ok (), s₁) := by
        simp only [Url.setVisitFinishTime, storeTime, Exec.orThrow_some, Exec.pure_bind, hdate,
          Exec.run_modify]
        rfl
      have hone : ∀ w, s₁.visit w =
          if w = u then { s.visit w with visitFinishTime := some date } else s.visit w := by
        intro w
        by_cases hw : w = u
        · rw [if_pos hw, hw]
          exact ServerState.visit_setVisit ..
        · rw [if_neg hw]
          exact Function.update_of_ne hw ..
      obtain ⟨s', hrest, hvisit⟩ := run_finishAll hdate l s₁
      refine ⟨s', (Exec.run_bind_ok hrun).trans hrest, fun w => ?_⟩
      rw [hvisit, hone]
      by_cases hwl : w ∈ l
      · rw [if_pos hwl, if_pos (List.mem_cons_of_mem _ hwl)]
        split <;> rfl
      · rw [if_neg hwl]
        by_cases hwu : w = u
        · rw [if_pos hwu, if_pos (by rw [hwu]; exact List.mem_cons_self)]
        · rw [if_neg hwu, if_neg fun hw => (List.mem_cons.mp hw).elim hwu hwl]

/-- A client that has left its group waits for another one, or is lost. -/
def Leaves (x x' : Client) : Prop :=
  x' = { x with visitingUrlGroup := none, clientState := .waiting } ∨
    x'.visitingUrlGroup = none ∧ x'.clientState = .disconnected

theorem Leaves.group {x x' : Client} (h : Leaves x x') : x'.visitingUrlGroup = none := by
  rcases h with rfl | h
  · rfl
  · exact h.1

/-- What a message leaves behind that ends a visit. -/
structure Concluded (c : ClientRef) (g : GroupRef) (s s' : ServerState) : Prop where
  clients : ∀ c' ≠ c, s'.client c' = s.client c'
  client : Leaves (s.client c) (s'.client c)
  urlQueue : s'.urlQueue = s.urlQueue
  groups : ∀ g' < s.nextGroup, g' ≠ g → s'.group g' = s.group g'
  others : ∀ w ∉ (s.group g).urlList, s'.visit w = s.visit w
  states : ∀ u ∈ (s.group g).urlList, states s' u = (.visited, .ok)

theorem Concluded.codes (h : Concluded c g s s')
    (hok : ∀ u ∈ (s.group g).urlList, codes s u = .ok) : Server.codes s' = Server.codes s := by
  funext w
  by_cases hw : w ∈ (s.group g).urlList
  · exact (congrArg Prod.snd (h.states w hw)).trans (hok w hw).symm
  · rw [Server.codes, h.others w hw, Server.codes]

/-- What does not reach beyond the group may come first. -/
theorem Concluded.before {s₁ : ServerState} (h : Concluded c g s₁ s')
    (hclient : s₁.client = s.client) (hurls : s₁.urlQueue = s.urlQueue)
    (hnext : s₁.nextGroup = s.nextGroup)
    (hgroups : ∀ g' ≠ g, s₁.group g' = s.group g')
    (hlist : (s₁.group g).urlList = (s.group g).urlList)
    (hothers : ∀ w ∉ (s.group g).urlList, s₁.visit w = s.visit w) : Concluded c g s s' where
  clients c' hne := by rw [h.clients c' hne, hclient]
  client := by rw [← hclient]; exact h.client
  urlQueue := h.urlQueue.trans hurls
  groups g' hg' hne := (h.groups g' (by rw [hnext]; exact hg') hne).trans (hgroups g' hne)
  others w hw := (h.others w (by rw [hlist]; exact hw)).trans (hothers w hw)
  states u hu := h.states u (by rw [hlist]; exact hu)

/-- Only the client that leaves is not as before. -/
theorem Client.left_client {newState : ClientState}
    (hnew : newState = .waiting ∨ newState = .disconnected) (c : ClientRef) (v : VmRef)
    (s : ServerState) : ∃ x : Client, Leaves (s.client c) x ∧
      (Client.left c v newState s).client = Function.update s.client c x := by
  have hlost : ∀ s : ServerState, (Client.lost c s).client = Function.update s.client c
      { s.client c with clientState := .disconnected, socketClosed := true } := by
    intro s
    rw [Client.lost]
    cases (s.client c).virtualMachine <;> rfl
  rw [Client.left]
  split
  · next hstate =>
      refine ⟨{ s.client c with visitingUrlGroup := none }, ?_, rfl⟩
      rcases hnew with rfl | rfl
      · left
        rw [← hstate]
      · exact .inr ⟨rfl, hstate⟩
  · split
    · refine ⟨{ s.client c with visitingUrlGroup := none, clientState := .waiting }, .inl rfl, ?_⟩
      show Function.update (Function.update s.client c _) c _ = _
      rw [Function.update_idem, ServerState.client_setClient]
    · refine ⟨{ s.client c with visitingUrlGroup := none, clientState := .disconnected
                                socketClosed := true }, .inr ⟨rfl, rfl⟩, ?_⟩
      rw [hlost]
      show Function.update (Function.update s.client c _) c _ = _
      rw [Function.update_idem, ServerState.client_setClient]

/-- A group that was visited is left. -/
theorem run_conclude {newState : ClientState} (hv : (s.client c).virtualMachine = some v)
    (hnew : newState = .waiting ∨ newState = .disconnected)
    (halg : (s.group g).algorithm.isSome = true) (hnodup : (s.group g).urlList.Nodup)
    (hready : ∀ u ∈ (s.group g).urlList, Ready s u) :
    ∃ s₁ s', (do
        UrlGroup.setUrlGroupState g .visited
        Client.leaveGroup c newState : Action Unit).run s = (.ok (), s') ∧
      Passed g s s₁ ∧ Concluded c g s s' ∧ ∃ client vm, s' = { s₁ with client, vm } := by
  obtain ⟨s₁, hrun, hpassed⟩ := run_visited halg hnodup hready
  have hv₁ : (s₁.client c).virtualMachine = some v := by
    rw [hpassed.rest]
    exact hv
  obtain ⟨x, hx, hclient⟩ := Client.left_client hnew c v s₁
  obtain ⟨client, vm, hleft⟩ := Client.left_rest c v newState s₁
  have hclient₁ : s₁.client = s.client := by rw [hpassed.rest]
  refine ⟨s₁, Client.left c v newState s₁,
    (Exec.run_bind_ok hrun).trans (Client.run_leaveGroup hv₁ hnew), hpassed, ?_, client, vm, hleft⟩
  refine
    { clients := fun c' hne => ?_, client := ?_, urlQueue := ?_, groups := fun g' hg' hne => ?_
      others := fun w hw => ?_, states := fun u hu => ?_ }
  · rw [hclient, Function.update_of_ne hne, hclient₁]
  · rw [hclient, Function.update_self, ← hclient₁]
    exact hx
  · rw [hleft, hpassed.rest]
  · rw [hleft]
    exact hpassed.groups g' hg' hne
  · rw [hleft]
    exact hpassed.all w hw
  · rw [hleft]
    exact hpassed.states u hu

/-- What is left of `reportGroup` when the events are in the log of the group. -/
theorem run_event_group {time : String} {date : Date} (origin : Nat) (h : InVisit s c g v)
    (htime : element.get "time" = some time) (hdate : parseDate time = some date)
    (hlong : 1 < (s.group g).urlList.length) (hnodup : (s.group g).urlList.Nodup)
    (hunjudged : ∀ u ∈ (s.group g).urlList, verdicts s u = none) :
    ∃ s', (Client.parseEvent c element origin).run s = (.ok (), s') ∧ Concluded c g s s' ∧
      Halved (s.group g).urlList s s' ∧ codes s' = codes s ∧ verdicts s' = verdicts s ∧
        logged s' = logged s := by
  have hgroup := marked_group g s
  have hlong₁ : 1 < ((marked g s).group g).urlList.length := by
    rw [hgroup]
    exact hlong
  obtain ⟨log, hevent⟩ := run_groupEvent (Client.eventLine element) hlong₁
    (by rw [hgroup]; exact h.started)
  let s₂ : ServerState := ((marked g s).setGroup g fun x => { x with logFile := log }).setGroup g
    fun x => { x with visitFinishTime := some date }
  have hgroup₂ : s₂.group g = { s.group g with
      malicious := true, logFile := log, visitFinishTime := some date } := by
    show (ServerState.setGroup g _ (ServerState.setGroup g _ (marked g s))).group g = _
    rw [ServerState.group_setGroup, ServerState.group_setGroup, hgroup]
  have holds₂ : ∀ g' ≠ g, s₂.group g' = s.group g' := fun g' hne =>
    (Function.update_of_ne hne ..).trans
      ((Function.update_of_ne hne ..).trans (Function.update_of_ne hne ..))
  obtain ⟨s₃, hfinish, hvisit⟩ := run_finishAll hdate (s.group g).urlList s₂
  have hquiet : Quiet s₂ s₃ := Exec.Within.of_run hfinish
  have hgroup₃ : s₃.group = s₂.group := by rw [hquiet.rest]
  have hlist₃ : (s₃.group g).urlList = (s.group g).urlList := by rw [hgroup₃, hgroup₂]
  have hcodes₃ : codes s₃ = codes s₂ := codes_congr (Exec.Within.of_run (R := StatesKept) hfinish)
  have hverdicts₃ : verdicts s₃ = verdicts s₂ := Exec.Within.of_run (R := Unjudged) hfinish
  have hready : ∀ u ∈ (s₃.group g).urlList, Ready s₃ u := by
    intro u hu
    rw [hlist₃] at hu
    have hone := hvisit u
    rw [if_pos hu] at hone
    refine ⟨?_, ?_, ?_, ?_⟩
    · rw [hcodes₃]
      exact h.codes u hu
    · rw [hone]
      show (s.visit u).urlState ≠ .visited
      rw [(h.visiting u hu).1]
      exact UrlState.noConfusion
    · rw [hone]
      exact (h.visiting u hu).2
    · rw [hone]
      rfl
  obtain ⟨s₄, s', hend, hpassed, hconcluded, client, vm, hs'⟩ := run_conclude (c := c) (v := v)
    (s := s₃) (by rw [hquiet.rest]; exact h.machine) (.inr rfl : ClientState.disconnected = _ ∨ _)
      (by rw [hgroup₃, hgroup₂]; exact congrArg Option.isSome h.algorithm)
        (by rw [hlist₃]; exact hnodup) hready
  have hrun : (Client.parseEvent c element origin).run s = (.ok (), s') := by
    have hlarge : decide (1 < (s.group g).size) = true := decide_eq_true hlong
    have hmachine : ((marked g s).client c).virtualMachine = some v := h.machine
    have hlist₂ : (s₂.group g).urlList = (s.group g).urlList := by rw [hgroup₂]
    have hsplit : (UrlGroup.setVisitFinishTime g (element.get "time")).run
        ((marked g s).setGroup g fun x => { x with logFile := log }) = (.ok (), s₂) := by
      simp only [UrlGroup.setVisitFinishTime, storeTime, htime, Exec.orThrow_some, Exec.pure_bind,
        hdate, Exec.run_modify]
      rfl
    have hbulk : decide ("dac" = "bulk") = false := by decide
    simp only [Client.parseEvent, Exec.run_gets_bind, h.state, if_true, h.told, h.group,
      Exec.orThrow_some, Exec.pure_bind, hbulk, Bool.false_and, Bool.false_eq_true, if_false,
      hlarge, decide_true, Bool.and_self]
    rw [Client.reportGroup, Exec.run_bind_ok (run_setMalicious_several hlong)]
    simp only [Exec.run_gets_bind, hmachine, Exec.orThrow_some, Exec.pure_bind]
    rw [Exec.run_bind_ok hevent, Exec.run_bind_ok hsplit]
    simp only [Exec.run_gets_bind, hlist₂, htime]
    rw [Exec.run_bind_ok hfinish]
    exact hend
  have hnext₃ : s₃.nextGroup = s.nextGroup := by rw [hquiet.rest]; rfl
  have hqueue₃ : s₃.urlGroupQueue = s.urlGroupQueue := by rw [hquiet.rest]; rfl
  have hdivides : Divides (s₃.group g) := by
    rw [hgroup₃, hgroup₂]
    exact ⟨h.algorithm, rfl, hlong⟩
  have hhalved := hpassed.halves hdivides
  have hvisits : s'.visit = s₄.visit := by rw [hs']; rfl
  have hlogged : logged s' = logged s₄ := by rw [hs']; rfl
  rw [hlist₃] at hhalved
  have hconcluded' : Concluded c g s s' := by
    refine hconcluded.before ?_ ?_ hnext₃ (fun g' hne => ?_) hlist₃ fun w hw => ?_
    · rw [hquiet.rest]
      rfl
    · rw [hquiet.rest]
      rfl
    · rw [hgroup₃]
      exact holds₂ g' hne
    · exact (hvisit w).trans (if_neg hw)
  refine ⟨s', hrun, hconcluded', ?_, hconcluded'.codes h.codes, ?_, ?_⟩
  · rw [hs']
    exact
      { nextGroup := by rw [hhalved.nextGroup, hnext₃]
        queue := by rw [hhalved.queue, hnext₃, hqueue₃]
        first := hnext₃ ▸ hhalved.first
        second := hnext₃ ▸ hhalved.second
        firstBenign := hnext₃ ▸ hhalved.firstBenign
        secondBenign := hnext₃ ▸ hhalved.secondBenign }
  · funext w
    rw [verdicts, hvisits]
    exact (congrFun hpassed.verdicts w).trans (congrFun hverdicts₃ w)
  · funext w
    have hlog : logged s₃ w = logged s w := by
      rw [logged, hquiet.log]
      rfl
    rw [hlogged, hpassed.logged, hlist₃, hlog]
    split
    · next hw =>
        have hnone : verdicts s₃ w = none := (congrFun hverdicts₃ w).trans (hunjudged w hw)
        rw [hnone]
        exact List.append_nil _
    · exact List.append_nil _

end Event

/-! ## The finish message -/

section Finish
variable {c : ClientRef} {g : GroupRef} {v : VmRef} {element item : Element} {s s' : ServerState}

/-- An item that names a URL of the group and reports no error. -/
structure GoodItem (s : ServerState) (g : GroupRef) (item : Element) : Prop where
  named : (namedUrl s g item).isSome = true
  process : (itemProcessId item).isSome = true
  time : (item.get "time").isSome = true
  code : ∃ code, item.get "major-error-code" = some code ∧ code ∈ ["0", ""]

/-- A finish message that reports no error, and gives every URL of the group a time. -/
structure GoodFinish (s : ServerState) (g : GroupRef) (element : Element) : Prop where
  type : element.get "type" = some "finish"
  algorithm : element.get "algorithm" = some "dac"
  time : (element.get "time").isSome = true
  malicious : (element.get "malicious").isSome = true
  items : ∀ item ∈ element.childElements, GoodItem s g item
  all : ∀ u ∈ (s.group g).urlList, ∃ item ∈ element.childElements, Times s g u item

instance : DecidablePred (GoodItem s g) := fun item =>
  decidable_of_iff ((namedUrl s g item).isSome = true ∧ (itemProcessId item).isSome = true ∧
      (item.get "time").isSome = true ∧ ∃ code ∈ item.get "major-error-code", code ∈ ["0", ""])
    ⟨fun ⟨h₁, h₂, h₃, h₄⟩ => ⟨h₁, h₂, h₃, h₄⟩, fun h => ⟨h.1, h.2, h.3, h.4⟩⟩

instance : Decidable (GoodFinish s g element) :=
  decidable_of_iff (element.get "type" = some "finish" ∧ element.get "algorithm" = some "dac" ∧
      (element.get "time").isSome = true ∧ (element.get "malicious").isSome = true ∧
        (∀ item ∈ element.childElements, GoodItem s g item) ∧
          ∀ u ∈ (s.group g).urlList, ∃ item ∈ element.childElements, Times s g u item)
    ⟨fun ⟨h₁, h₂, h₃, h₄, h₅, h₆⟩ => ⟨h₁, h₂, h₃, h₄, h₅, h₆⟩,
      fun h => ⟨h.1, h.2, h.3, h.4, h.5, h.6⟩⟩

theorem run_endItem (h : GoodItem s g item) :
    ∃ r s', (Client.endItem c g ["0", ""] item).run s = (.ok r, s') ∧ ∀ w,
      (s.visit w).visitFinishTime.isSome = true ∨ Times s g w item →
        (s'.visit w).visitFinishTime.isSome = true := by
  obtain ⟨u, hnamed⟩ := Option.isSome_iff_exists.mp h.named
  obtain ⟨processId, hid⟩ := Option.isSome_iff_exists.mp h.process
  obtain ⟨time, htime⟩ := Option.isSome_iff_exists.mp h.time
  obtain ⟨code, hcode, hmem⟩ := h.code
  have hfound := hnamed
  simp only [namedUrl, Option.bind_eq_bind, Option.bind_eq_some_iff] at hfound
  obtain ⟨uri, huri, decodedURI, hdecoded, hfind⟩ := hfound
  have hbegin : (Client.endItem c g ["0", ""] item).run s =
      (Url.setVisitFinishTime u (some time) >>= fun _ => (pure (processId, Url.getUrl (s.url u),
        (s.client c).stateChangeHandler.getStateChangesCSV processId) :
          Action (Int × String × String))).run s := by
    have hcodes : Client.storeItemCodes u ["0", ""] item = pure () := by
      simp only [Client.storeItemCodes, hcode, Exec.orThrow_some, Exec.pure_bind, hmem, not_true,
        if_false]
    have hid' : (item.get "processId").bind parseInt = some processId := hid
    simp only [Client.endItem, UrlGroup.getUrl, huri, Exec.orThrow_some, Exec.pure_bind, hdecoded,
      Exec.run_gets_bind, hfind, bind_assoc, hid', htime, hcodes]
  rw [hbegin]
  cases hdate : parseDate time with
  | none =>
      refine ⟨_, s, Exec.run_bind_ok (show Exec.run _ s = (.ok (), s) from ?_),
        fun w hw => hw.resolve_right ?_⟩
      · simp [Url.setVisitFinishTime, storeTime, hdate]
      · rintro ⟨-, htimes⟩
        rw [htime, Option.bind_some, hdate] at htimes
        cases htimes
  | some date =>
      refine ⟨_, s.setVisit u fun x => { x with visitFinishTime := some date },
        Exec.run_bind_ok (a := ()) ?_, fun w hw => ?_⟩
      · simp only [Url.setVisitFinishTime, storeTime, Exec.orThrow_some, Exec.pure_bind, hdate,
          Exec.run_modify]
      · by_cases hwu : w = u
        · rw [hwu, ServerState.visit_setVisit]
          rfl
        · have hsame : (s.setVisit u fun x => { x with visitFinishTime := some date }).visit w =
              s.visit w := Function.update_of_ne hwu ..
          rw [hsame]
          exact hw.resolve_right fun htimes => hwu (Option.some.inj (htimes.1.symm.trans hnamed))

theorem run_endItems : ∀ {items : List Element} {s : ServerState},
    (∀ item ∈ items, GoodItem s g item) →
      ∃ r s', (Client.endItems c g ["0", ""] items).run s = (.ok r, s') ∧ ∀ w,
        (s.visit w).visitFinishTime.isSome = true ∨ (∃ item ∈ items, Times s g w item) →
          (s'.visit w).visitFinishTime.isSome = true
  | [], s, _ => by
      refine ⟨_, s, rfl, fun w hw => hw.resolve_right ?_⟩
      rintro ⟨_, hmem, _⟩
      exact absurd hmem List.not_mem_nil
  | item :: items, s, h => by
      obtain ⟨hitem, hitems⟩ := List.forall_mem_cons.mp h
      obtain ⟨⟨processId, url, csv⟩, s₁, hrun, hone⟩ := run_endItem (c := c) hitem
      have hquiet : Quiet s s₁ := Exec.Within.of_run hrun
      have hnamed : ∀ item, namedUrl s₁ g item = namedUrl s g item := quiet_names hquiet
      obtain ⟨⟨processIds, map⟩, s', hrest, hall⟩ := run_endItems (s := s₁) fun item hitem => by
        obtain ⟨h₁, h₂, h₃, h₄⟩ := hitems item hitem
        exact ⟨by rw [hnamed]; exact h₁, h₂, h₃, h₄⟩
      refine ⟨(processId :: processIds, map ++ [(url, csv)]), s', ?_, fun w hw => hall w ?_⟩
      · rw [Client.endItems, Exec.run_bind_ok hrun]
        exact Exec.run_bind_ok hrest
      · rcases hw with hbefore | ⟨item', hmem, htimes⟩
        · exact .inl (hone w (.inl hbefore))
        · rcases List.mem_cons.mp hmem with rfl | hmem
          · exact .inl (hone w (.inr htimes))
          · refine .inr ⟨item', hmem, ?_⟩
            rw [Times, hnamed]
            exact htimes

/-- The verdict of a group on its URLs. -/
theorem run_setMalicious_false {map : Option StringMap} :
    ∃ s', (UrlGroup.setMalicious g (some "dac") false map).run s = (.ok (), s') ∧
      StoreOnly (s.setGroup g fun x => { x with malicious := false }) s' := by
  have hlist : ((s.setGroup g fun x => { x with malicious := false }).group g).urlList =
      (s.group g).urlList := by rw [ServerState.group_setGroup]
  have htotal : ∀ u, (Url.setMalicious u false).Total := by
    intro u
    unfold Url.setMalicious
    infer_instance
  obtain ⟨_, s', hall⟩ := Exec.Total.returns
    (x := (s.group g).urlList.forM fun u => Url.setMalicious u false)
      (s.setGroup g fun x => { x with malicious := false })
  refine ⟨s', ?_, Exec.Within.of_run hall⟩
  simp only [UrlGroup.setMalicious, Exec.run_modify_bind, Exec.orThrow_some, Exec.pure_bind,
    Exec.run_gets_bind]
  rw [hlist, if_pos (by decide), if_neg Bool.false_ne_true]
  exact hall

/-- The group is judged, and what is known of it otherwise stays. -/
theorem run_judge {malicious : Bool} (map : Option StringMap)
    (hone : malicious = true → (s.group g).urlList.length = 1) :
    ∃ s', (UrlGroup.setMalicious g (some "dac") malicious map).run s = (.ok (), s') ∧
      StoreOnly (s.setGroup g fun x => { x with malicious }) s' := by
  cases malicious with
  | false => exact run_setMalicious_false
  | true =>
      obtain ⟨u, hu⟩ := List.length_eq_one_iff.mp (hone rfl)
      exact ⟨_, run_setMalicious_one hu, rfl⟩

/-- What a finish message leaves behind: every URL has the verdict of the group. -/
structure Judgement (g : GroupRef) (malicious : Bool) (s s' : ServerState) : Prop where
  nextGroup : s'.nextGroup = s.nextGroup
  queue : s'.urlGroupQueue = s.urlGroupQueue
  verdicts : ∀ u ∈ (s.group g).urlList, verdicts s' u = some malicious
  logged : ∀ w, logged s' w =
    logged s w ++ if w ∈ (s.group g).urlList then [malicious] else []

instance : Lasting UrlVisit.visitFinishTime := ⟨fun _ _ => rfl, fun _ _ => rfl, fun _ _ => rfl⟩

/-- The verdict is passed, and the client leaves the group. -/
theorem run_passVerdict {malicious : Bool} {newState : ClientState} (map : Option StringMap)
    (hg : (s.client c).visitingUrlGroup = some g) (hv : (s.client c).virtualMachine = some v)
    (halg : (s.group g).algorithm = some "dac")
    (hnew : newState = .waiting ∨ newState = .disconnected) (hnodup : (s.group g).urlList.Nodup)
    (hready : ∀ u ∈ (s.group g).urlList, Ready s u)
    (hone : malicious = true → (s.group g).urlList.length = 1) :
    ∃ s', (do
        UrlGroup.setMalicious g (some "dac") malicious map
        UrlGroup.setUrlGroupState g .visited
        Client.leaveGroup c newState : Action Unit).run s = (.ok (), s') ∧ Concluded c g s s' ∧
      Judgement g malicious s s' := by
  obtain ⟨s₁, hjudge, hstore⟩ := run_judge map hone
  have hgroup : s₁.group g = { s.group g with malicious } := by
    rw [hstore]
    exact ServerState.group_setGroup g (fun x => { x with malicious }) s
  have hlist : (s₁.group g).urlList = (s.group g).urlList := by rw [hgroup]
  have hquiet : s₁.store.log = s.store.log ∧ ∀ u, (s₁.visit u).urlState = (s.visit u).urlState := by
    have hedits : Edits c g s s₁ := Exec.Within.of_run hjudge
    exact ⟨hedits.log, hedits.urlState⟩
  have hcodes : codes s₁ = codes s := codes_congr (Exec.Within.of_run (R := StatesKept) hjudge)
  have hstart : Lasts UrlVisit.visitStartTime s s₁ := Exec.Within.of_run hjudge
  have hfinish : Lasts UrlVisit.visitFinishTime s s₁ := Exec.Within.of_run hjudge
  have hother : Confined (s.group g).urlList c (some g) s s₁ := Exec.Within.of_run hjudge
  have hverdicts : ∀ u ∈ (s.group g).urlList, verdicts s₁ u = some malicious := by
    intro u hu
    have hverdict := of_run_setMalicious_other (by decide) hjudge u hu
    rw [hverdict, if_neg]
    rintro ⟨htrue, hlong⟩
    exact absurd (hone htrue) (Nat.ne_of_gt hlong)
  have hready₁ : ∀ u ∈ (s₁.group g).urlList, Ready s₁ u := by
    intro u hu
    rw [hlist] at hu
    obtain ⟨hcode, hchange, hstarted, hfinished⟩ := hready u hu
    have hstart₁ : (s₁.visit u).visitStartTime = (s.visit u).visitStartTime := congrFun hstart u
    have hfinish₁ : (s₁.visit u).visitFinishTime = (s.visit u).visitFinishTime := congrFun hfinish u
    exact ⟨by rw [hcodes]; exact hcode, by rw [hquiet.2]; exact hchange,
      by rw [hstart₁]; exact hstarted, by rw [hfinish₁]; exact hfinished⟩
  obtain ⟨s₂, s', hend, hpassed, hconcluded, client, vm, hs'⟩ := run_conclude (c := c) (v := v)
    (s := s₁) (by rw [hstore]; exact hv) hnew (by rw [hgroup]; exact congrArg Option.isSome halg)
      (by rw [hlist]; exact hnodup) hready₁
  have hnext : s₁.nextGroup = s.nextGroup := by rw [hstore]; rfl
  have hqueue : s₁.urlGroupQueue = s.urlGroupQueue := by rw [hstore]; rfl
  obtain ⟨hnext₂, hqueue₂⟩ := hpassed.whole fun hdivides => by
    rw [hgroup] at hdivides
    exact absurd (hone hdivides.2.1) (Nat.ne_of_gt hdivides.2.2)
  refine ⟨s', (Exec.run_bind_ok hjudge).trans hend, ?_, ?_⟩
  · refine hconcluded.before ?_ ?_ hnext (fun g' hne => ?_) hlist (hother (among_own hg)).2
    · rw [hstore]
      rfl
    · rw [hstore]
      rfl
    · rw [hstore]
      exact Function.update_of_ne hne ..
  · refine
      { nextGroup := ?_, queue := ?_, verdicts := fun u hu => ?_, logged := fun w => ?_ }
    · rw [hs', ← hnext]
      exact hnext₂
    · rw [hs', ← hqueue]
      exact hqueue₂
    · rw [hs']
      exact (congrFun hpassed.verdicts u).trans (hverdicts u hu)
    · have hlog : logged s₁ w = logged s w := by
        rw [logged, hquiet.1]
        rfl
      rw [hs']
      refine (hpassed.logged w).trans ?_
      rw [hlist, hlog]
      split
      · next hw => rw [hverdicts w hw]; rfl
      · rfl

theorem run_finish (h : InVisit s c g v) (hfinish : GoodFinish s g element)
    (hnodup : (s.group g).urlList.Nodup)
    (hone : suspected s g element = true → (s.group g).urlList.length = 1) :
    ∃ s', (Client.parseVisitEvent c element).run s = (.ok (), s') ∧ Concluded c g s s' ∧
      Judgement g (suspected s g element) s s' := by
  have htold : told c element s = s := by
    rw [told, hfinish.algorithm, ← h.told]
    exact congrArg (fun client => { s with client }) (Function.update_eq_self c s.client)
  obtain ⟨time, htime⟩ := Option.isSome_iff_exists.mp hfinish.time
  -- the time of the group
  obtain ⟨finish, hgroupTime⟩ : ∃ finish,
      (UrlGroup.setVisitFinishTime g (element.get "time")).run s =
        (.ok (), s.setGroup g fun x => { x with visitFinishTime := finish }) := by
    have hsame : s.setGroup g (fun x => { x with
        visitFinishTime := (s.group g).visitFinishTime }) = s := by
      rw [ServerState.setGroup, Function.update_eq_self]
    rw [UrlGroup.setVisitFinishTime, storeTime, htime]
    cases hdate : parseDate time with
    | none =>
        refine ⟨(s.group g).visitFinishTime, ?_⟩
        rw [hsame]
        simp [hdate]
    | some date =>
        refine ⟨some date, ?_⟩
        simp [hdate]
  let s₁ := s.setGroup g fun x => { x with visitFinishTime := finish }
  have hgroup₁ : s₁.group g = { s.group g with visitFinishTime := finish } :=
    ServerState.group_setGroup g (fun x => { x with visitFinishTime := finish }) s
  -- the items
  have hnamed : ∀ item, namedUrl s₁ g item = namedUrl s g item :=
    namedUrl_congr (by rw [hgroup₁]) rfl
  obtain ⟨⟨processIds, map⟩, s₂, hitems, hfinished⟩ := run_endItems (c := c) (g := g) (s := s₁)
    fun item hitem => by
      obtain ⟨h₁, h₂, h₃, h₄⟩ := hfinish.items item hitem
      exact ⟨by rw [hnamed]; exact h₁, h₂, h₃, h₄⟩
  have hquiet : Quiet s₁ s₂ := Exec.Within.of_run hitems
  have hgroup₂ : s₂.group g = { s.group g with visitFinishTime := finish } := by
    rw [hquiet.rest]
    exact hgroup₁
  have hlist₂ : (s₂.group g).urlList = (s.group g).urlList := by rw [hgroup₂]
  have hclient₂ : s₂.client = s.client := by rw [hquiet.rest]; rfl
  have hcodes₂ : ∀ u ∈ (s.group g).urlList, codes s₂ u = .ok := by
    intro u hu
    rw [(of_run_endItems_codes hitems).1, codesAfter_clean]
    · exact h.codes u hu
    · intro item hitem _
      obtain ⟨code, hcode, hmem⟩ := (hfinish.items item hitem).code
      simp only [itemCode, hcode, Option.bind_eq_bind, Option.bind_some, if_pos hmem]
  have hstart₂ : Lasts UrlVisit.visitStartTime s₁ s₂ := Exec.Within.of_run hitems
  have hverdicts₂ : verdicts s₂ = verdicts s₁ := Exec.Within.of_run (R := Unjudged) hitems
  have hready : ∀ u ∈ (s₂.group g).urlList, Ready s₂ u := by
    intro u hu
    rw [hlist₂] at hu
    have hstarted : (s₂.visit u).visitStartTime = (s.visit u).visitStartTime := congrFun hstart₂ u
    refine ⟨hcodes₂ u hu, ?_, ?_, ?_⟩
    · rw [hquiet.urlState u]
      show (s.visit u).urlState ≠ .visited
      rw [(h.visiting u hu).1]
      exact UrlState.noConfusion
    · rw [hstarted]
      exact (h.visiting u hu).2
    · obtain ⟨item, hitem, htimes⟩ := hfinish.all u hu
      refine hfinished u (.inr ⟨item, hitem, ?_⟩)
      rw [Times, hnamed]
      exact htimes
  have hend : ∀ newState, (newState = ClientState.waiting ∨ newState = .disconnected) →
      ∃ s', (do
          UrlGroup.setMalicious g (some "dac") (suspected s g element) (some map)
          UrlGroup.setUrlGroupState g .visited
          Client.leaveGroup c newState : Action Unit).run s₂ = (.ok (), s') ∧ Concluded c g s s' ∧
        Judgement g (suspected s g element) s s' := by
    intro newState hnew
    obtain ⟨s', hrun, hconcluded, hjudgement⟩ := run_passVerdict (some map)
      (by rw [hclient₂]; exact h.group) (by rw [hclient₂]; exact h.machine)
        (by rw [hgroup₂]; exact h.algorithm) hnew (by rw [hlist₂]; exact hnodup) hready
          (show suspected s g element = true → _ by rw [hlist₂]; exact hone)
    have hconfined : Confined (s.group g).urlList c (some g) s₁ s₂ := Exec.Within.of_run hitems
    have hamong : Among (s.group g).urlList c (some g) s₁ := by
      have hown := among_own (s := s₁) (c := c) (g := g) h.group
      rwa [hgroup₁] at hown
    have hnext₂ : s₂.nextGroup = s.nextGroup := by rw [hquiet.rest]; rfl
    refine ⟨s', hrun, ?_, ?_⟩
    · refine hconcluded.before hclient₂ ?_ hnext₂ (fun g' hne => ?_) hlist₂
        fun w hw => (hconfined hamong).2 w hw
      · rw [hquiet.rest]
        rfl
      · rw [hquiet.rest]
        exact Function.update_of_ne hne ..
    · refine ⟨hjudgement.nextGroup.trans hnext₂, hjudgement.queue.trans ?_,
        fun u hu => hjudgement.verdicts u (by rw [hlist₂]; exact hu), fun w => ?_⟩
      · rw [hquiet.rest]
        rfl
      · have hlog : logged s₂ w = logged s w := by
          rw [logged, hquiet.log]
          rfl
        rw [hjudgement.logged, hlist₂, hlog]
  obtain ⟨text, htext⟩ := Option.isSome_iff_exists.mp hfinish.malicious
  have hgroupFlag : (s₂.group g).malicious = (s.group g).malicious := by rw [hgroup₂]
  have hflag : suspected s g element = ((s.group g).malicious || text == "1") := by
    rw [suspected, htext]
    rfl
  have hparse :
      (Client.parseVisitEvent c element).run s = (Client.parseFinish c element).run s := by
    rw [run_parseVisitEvent, htold, hfinish.type]
    rfl
  rw [hparse, Client.parseFinish]
  simp only [Exec.run_gets_bind, h.group, Exec.orThrow_some, Exec.pure_bind]
  rw [Exec.run_bind_ok hgroupTime, Exec.run_bind_ok hitems]
  simp only [Exec.run_gets_bind, hgroupFlag, h.told, h.machine, htext, Exec.orThrow_some,
      Exec.pure_bind]
  have hwith : suspected s g element = true → ∃ s', (do
      Client.flushBulk g (some "dac") map
      UrlGroup.setMalicious g (some "dac") true (some map)
      UrlGroup.setUrlGroupState g .visited
      Client.leaveGroup c .disconnected : Action Unit).run s₂ = (.ok (), s') ∧
        Concluded c g s s' ∧ Judgement g (suspected s g element) s s' := by
    intro hmalicious
    have hflush : (Client.flushBulk g (some "dac") map).run s₂ = (.ok (), s₂) := by
      have hsmall : ¬ 1 < (s₂.group g).size := by
        rw [UrlGroup.size, hlist₂, hone hmalicious]
        exact Nat.lt_irrefl 1
      simp only [Client.flushBulk, Exec.run_gets_bind, if_neg hsmall, Exec.run_pure]
    have hrest := hend .disconnected (.inr rfl)
    rw [hmalicious] at hrest ⊢
    obtain ⟨s', hrun, hs'⟩ := hrest
    exact ⟨s', (Exec.run_bind_ok hflush).trans hrun, hs'⟩
  have hwithout : suspected s g element = false → ∃ s', (do
      UrlGroup.setMalicious g (some "dac") false (some map)
      UrlGroup.setUrlGroupState g .visited
      Client.leaveGroup c .waiting : Action Unit).run s₂ = (.ok (), s') ∧
        Concluded c g s s' ∧ Judgement g (suspected s g element) s s' := by
    intro hbenign
    have hrest := hend .waiting (.inl rfl)
    rwa [hbenign] at hrest ⊢
  cases hmalicious : (s.group g).malicious with
  | true =>
      rw [hmalicious, Bool.true_or] at hflag
      simp only [if_true]
      exact hwith hflag
  | false =>
      rw [hmalicious, Bool.false_or] at hflag
      simp only [Bool.false_eq_true, if_false]
      cases htest : text == "1" with
      | true => exact hwith (hflag.trans htest)
      | false => exact hwithout (hflag.trans htest)

end Finish

end CaptureHpc.Server
