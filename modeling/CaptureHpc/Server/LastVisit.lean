/-
# `Server.LastVisit` — what a URL ends with

The last visit of a URL is to decide: if it ends with a finish message that
reports no error for the URL, the URL is VISITED with the verdict of that visit.
But the error code of a URL is never cleared, and neither are the verdict of a
group and the state changes that a client has filed.  `RightlyJudged` says when
none of them is left over from an earlier visit, and `ends_iff` that only then
the URL ends as it should.

`Visits` follows the visits of every URL through a run; `ended_safe` is about
every run whose finish messages are judged rightly.
-/
import CaptureHpc.Server.Confinement
import CaptureHpc.Server.Retry
import CaptureHpc.Server.Verdict

namespace CaptureHpc.Server

open Java

/-! ## The URLs of a group that was visited -/

/-- The state in which a visit leaves a URL with this code. -/
def endState (code : ErrorCode) : UrlState := if code = .ok then .visited else .error

section Ends
variable {g : GroupRef}

theorem states_passOn_visited (g : GroupRef) (u : UrlRef) (s : ServerState) :
    states ((UrlGroup.passOn g .visited u).run s).2 =
      Function.update (states s) u (endState (codes s u), codes s u) := by
  by_cases hok : (s.visit u).majorErrorCode = .ok
  · simp only [UrlGroup.passOn, Exec.run_gets_bind, hok, if_true, endState, codes]
    rw [states_setUrlState, hok]
  · simp only [UrlGroup.passOn, Exec.run_gets_bind, hok, if_false, endState, codes]
    exact states_setUrlState u s .error

theorem of_run_endAll : ∀ {l : List UrlRef} {s s' : ServerState},
    (l.forM (UrlGroup.passOn g .visited)).run s = (.ok (), s') →
      ∀ w, states s' w = if w ∈ l then (endState (codes s w), codes s w) else states s w
  | [], s, s', h, w => by
      obtain rfl : s = s' := congrArg Prod.snd h
      rw [if_neg List.not_mem_nil]
  | u :: l, s, s', h, w => by
      obtain ⟨_, s₁, hu, hl⟩ := Exec.of_run_bind_ok h
      have hstates := states_passOn_visited g u s
      rw [hu] at hstates
      have hcodes : codes s₁ = codes s := Exec.Within.of_run (R := CodesKept) hu
      rw [of_run_endAll hl w, hcodes]
      by_cases hwl : w ∈ l
      · rw [if_pos hwl, if_pos (List.mem_cons_of_mem _ hwl)]
      · rw [if_neg hwl, hstates]
        by_cases hwu : w = u
        · subst hwu
          rw [Function.update_self, if_pos List.mem_cons_self]
        · rw [Function.update_of_ne hwu, if_neg]
          exact fun hw => (List.mem_cons.mp hw).elim hwu hwl

/-- A group that is VISITED leaves each of its URLs in the state that its code asks for. -/
theorem urlState_of_run_visited {s s' : ServerState}
    (h : (UrlGroup.setUrlGroupState g .visited).run s = (.ok (), s')) :
    ∀ u ∈ (s.group g).urlList, (s'.visit u).urlState = endState (codes s u) := by
  have hlist : ((s.setGroup g (UrlGroup.enter .visited)).group g).urlList = (s.group g).urlList := by
    rw [ServerState.group_setGroup]
    rfl
  intro u hu
  rw [UrlGroup.setUrlGroupState] at h
  simp only [Exec.run_modify_bind, Exec.run_gets_bind, hlist] at h
  obtain ⟨_, s₁, hloop, hupdate⟩ := Exec.of_run_bind_ok h
  have hkeep : StoreOnly (s.setGroup g (UrlGroup.enter .visited)) s₁ := Exec.Within.of_run hloop
  have hstate : (s₁.group g).urlGroupState = .visited := by
    rw [hkeep]
    show ((s.setGroup g (UrlGroup.enter .visited)).group g).urlGroupState = _
    rw [ServerState.group_setGroup]
    rfl
  have hstore := (run_update_visited hstate).1
  rw [hupdate] at hstore
  have hends := of_run_endAll hloop u
  rw [if_pos hu] at hends
  have hsame : s'.visit u = s₁.visit u := congrArg (fun store => store.visit u) hstore
  rw [hsame]
  exact congrArg Prod.fst hends

/-! ## The verdict -/

theorem of_run_acquit : ∀ {l : List UrlRef} {s s' : ServerState},
    (l.forM fun u => Url.setMalicious u false).run s = (.ok (), s') →
      ∀ w, verdicts s' w = if w ∈ l then some false else verdicts s w
  | [], s, s', h, w => by
      obtain rfl : s = s' := congrArg Prod.snd h
      rw [if_neg List.not_mem_nil]
  | u :: l, s, s', h, w => by
      obtain ⟨_, s₁, hu, hl⟩ := Exec.of_run_bind_ok h
      obtain rfl : _ = s₁ := congrArg Prod.snd hu
      rw [of_run_acquit hl w]
      by_cases hwl : w ∈ l
      · rw [if_pos hwl, if_pos (List.mem_cons_of_mem _ hwl)]
      · rw [if_neg hwl]
        refine (verdicts_setVisit s u w false).trans ?_
        by_cases hwu : w = u
        · rw [if_pos hwu, if_pos (by rw [hwu]; exact List.mem_cons_self)]
        · rw [if_neg hwu, if_neg]
          exact fun hw => (List.mem_cons.mp hw).elim hwu hwl

/-- A group of another algorithm gives its verdict to its URLs, unless it is malicious and has
several. -/
theorem of_run_setMalicious_other {algorithm : String} (halg : algorithm ≠ "bulk") {malicious : Bool}
    {map : Option StringMap} {s s' : ServerState}
    (h : (UrlGroup.setMalicious g (some algorithm) malicious map).run s = (.ok (), s')) :
    ∀ u ∈ (s.group g).urlList, verdicts s' u =
      if malicious = true ∧ 1 < (s.group g).size then verdicts s u else some malicious := by
  intro u hu
  cases malicious with
  | true =>
      rw [UrlGroup.size]
      cases hlist : (s.group g).urlList with
      | nil => exact absurd (hlist ▸ hu) List.not_mem_nil
      | cons first rest =>
          cases rest with
          | nil =>
              rw [hlist] at hu
              obtain rfl := List.mem_singleton.mp hu
              rw [of_run_setMalicious_single halg hlist h]
              rfl
          | cons second rest =>
              have hsame : ((s.setGroup g fun x => { x with malicious := true }).group g).urlList =
                  first :: second :: rest := by
                rw [ServerState.group_setGroup]
                exact hlist
              rw [UrlGroup.setMalicious] at h
              simp only [Exec.run_modify_bind, Exec.orThrow_some, Exec.pure_bind,
                Exec.run_gets_bind, ne_eq, halg, not_false_eq_true, if_true, hsame] at h
              obtain rfl := congrArg Prod.snd h
              rw [if_pos ⟨rfl, by rw [List.length_cons, List.length_cons]; omega⟩]
              rfl
  | false =>
      have hsame : ((s.setGroup g fun x => { x with malicious := false }).group g).urlList =
          (s.group g).urlList := by rw [ServerState.group_setGroup]
      rw [UrlGroup.setMalicious] at h
      simp only [Exec.run_modify_bind, Exec.orThrow_some, Exec.pure_bind, Exec.run_gets_bind,
        ne_eq, halg, not_false_eq_true, if_true, Bool.false_eq_true, if_false, hsame] at h
      rw [of_run_acquit h u, if_pos hu]
      rfl

end Ends

/-! ## The finish message -/

section Finish
variable {c : ClientRef} {g : GroupRef} {element : Element} {map : StringMap} {s s' : ServerState}

/-- The group is malicious already, or the message says so. -/
def suspected (s : ServerState) (g : GroupRef) (element : Element) : Bool :=
  (s.group g).malicious || element.get "malicious" == some "1"

theorem of_run_passed {algorithm : Option String} {malicious : Bool} {newState : ClientState}
    {v : VmRef} (hv : (s.client c).virtualMachine = some v)
    (hnew : newState = .waiting ∨ newState = .disconnected)
    (h : (do
      UrlGroup.setMalicious g algorithm malicious (some map)
      UrlGroup.setUrlGroupState g .visited
      Client.leaveGroup c newState : Action Unit).run s = (.ok (), s')) :
    ∃ a s₁, algorithm = some a ∧
      (UrlGroup.setMalicious g (some a) malicious (some map)).run s = (.ok (), s₁) ∧
        verdicts s' = verdicts s₁ ∧
          ∀ u ∈ (s.group g).urlList, (s'.visit u).urlState = endState (codes s u) := by
  obtain ⟨_, s₁, hjudge, h₁⟩ := Exec.of_run_bind_ok h
  obtain ⟨_, s₂, hstate, h₂⟩ := Exec.of_run_bind_ok h₁
  cases algorithm with
  | none => exact absurd (congrArg Prod.fst hjudge) nofun
  | some a =>
      have hedits : Edits c g s s₁ := Exec.Within.of_run hjudge
      have hcodes : codes s₁ = codes s := codes_congr (Exec.Within.of_run (R := StatesKept) hjudge)
      have hkeep : GroupsOnly s₁ s₂ := Exec.Within.of_run hstate
      have hv₂ : (s₂.client c).virtualMachine = some v := by
        rw [hkeep]
        show (s₁.client c).virtualMachine = some v
        rw [hedits.client]
        exact hv
      rw [Client.run_leaveGroup hv₂ hnew] at h₂
      obtain rfl := congrArg Prod.snd h₂
      obtain ⟨client, vm, he⟩ := Client.left_rest c v newState s₂
      refine ⟨a, s₁, rfl, hjudge, ?_, fun u hu => ?_⟩
      · have hunjudged : Unjudged s₁ s₂ := Exec.Within.of_run hstate
        rw [he]
        exact hunjudged
      · rw [← hedits.urlList] at hu
        rw [he, ← hcodes]
        exact urlState_of_run_visited hstate u hu

theorem of_run_flushBulk {algorithm : Option String} (halg : algorithm ≠ some "bulk")
    (h : (Client.flushBulk g algorithm map).run s = (.ok (), s')) : s' = s := by
  rw [Client.flushBulk] at h
  simp only [Exec.run_gets_bind] at h
  split at h
  · obtain ⟨a, ha, h⟩ := of_run_deref_bind h
    have hne : a ≠ "bulk" := fun he => halg (ha.trans (congrArg some he))
    rw [if_neg hne] at h
    exact (congrArg Prod.snd h).symm
  · exact (congrArg Prod.snd h).symm

instance (time : Option String) : (UrlGroup.setVisitFinishTime g time).Within Unjudged := by
  unfold UrlGroup.setVisitFinishTime
  infer_instance

instance (u : UrlRef) (noError : List String) (item : Element) :
    (Client.storeItemCodes u noError item).Within Unjudged := by
  unfold Client.storeItemCodes
  infer_instance

instance (noError : List String) (item : Element) :
    (Client.endItem c g noError item).Within Unjudged := by
  unfold Client.endItem UrlGroup.getUrl
  infer_instance

instance (noError : List String) (items : List Element) :
    (Client.endItems c g noError items).Within Unjudged := by
  induction items with
  | nil =>
      unfold Client.endItems
      infer_instance
  | cons item items ih =>
      unfold Client.endItems
      infer_instance

/-- The group was judged by a finish message at `s₁`, with what the items say. -/
structure Judged (c : ClientRef) (g : GroupRef) (element : Element) (s s₁ s₂ s' : ServerState)
    (algorithm : String) (map : StringMap) : Prop where
  told : element.get "algorithm" = some algorithm
  entries : map.map some = (element.childElements.map (itemEntry s c g)).reverse
  urlList : (s₁.group g).urlList = (s.group g).urlList
  url : s₁.url = s.url
  codes : Server.codes s₁ = codesAfter s g ["0", ""] element.childElements (Server.codes s)
  before : algorithm ≠ "bulk" → verdicts s₁ = verdicts s
  judge : (UrlGroup.setMalicious g (some algorithm) (suspected s g element) (some map)).run s₁ =
    (.ok (), s₂)
  passed : verdicts s' = verdicts s₂
  urlState : ∀ u ∈ (s.group g).urlList, (s'.visit u).urlState = endState (Server.codes s₁ u)

/-- What a finish message comes to that is handled to its end. -/
theorem of_run_finish (hg : (s.client c).visitingUrlGroup = some g)
    (htype : element.get "type" = some "finish")
    (h : (Client.parseVisitEvent c element).run s = (.ok (), s')) :
    ∃ algorithm map s₁ s₂, Judged c g element s s₁ s₂ s' algorithm map := by
  have hrun : (Client.parseFinish c element).run (told c element s) = (.ok (), s') := by
    rw [← h]
    show _ = (do
      let type ← deref (element.get "type")
      if type = "start" then Client.parseStart c element
      else if type = "finish" then Client.parseFinish c element
      else if type = "error" then Client.parseError c element : Action Unit).run (told c element s)
    rw [htype]
    rfl
  have hclient : (told c element s).client c =
      { s.client c with algorithm := element.get "algorithm" } := ServerState.client_setClient ..
  have hentry : itemEntry (told c element s) c g = itemEntry s c g :=
    funext <| itemEntry_congr rfl rfl (by rw [hclient])
  rw [Client.parseFinish] at hrun
  simp only [Exec.run_gets_bind, hclient, hg, Exec.orThrow_some, Exec.pure_bind] at hrun
  obtain ⟨_, s₁, htime, h₁⟩ := Exec.of_run_bind_ok hrun
  obtain ⟨⟨processIds, map⟩, s₂, hitems, h₂⟩ := Exec.of_run_bind_ok h₁
  -- what the items leave as it is
  obtain ⟨hcodes₁, hlist₁, hurl₁, hmalicious₁⟩ := setVisitFinishTime_keeps _ htime
  have hkept₁ : VisitKept g (told c element s) s₁ := Exec.Within.of_run htime
  have hunjudged₁ : Unjudged (told c element s) s₁ := Exec.Within.of_run htime
  have hstore₂ : StoreOnly s₁ s₂ := Exec.Within.of_run hitems
  have hunjudged₂ : Unjudged s₁ s₂ := Exec.Within.of_run hitems
  have hmap := of_run_endItems hitems
  rw [funext <| itemEntry_congr hkept₁.urlList hkept₁.url (by rw [hkept₁.client]), hentry] at hmap
  have hgroup₂ : s₂.group = s₁.group := by rw [hstore₂]
  have hclient₂ : s₂.client c = (told c element s).client c := by rw [hstore₂, hkept₁.client]
  have hurl₂ : s₂.url = s.url := by
    rw [hstore₂]
    exact hurl₁
  have hlist₂ : (s₂.group g).urlList = (s.group g).urlList := by
    rw [hgroup₂]
    exact hlist₁
  have hcodes₂ : codes s₂ = codesAfter s g ["0", ""] element.childElements (codes s) := by
    rw [(of_run_endItems_codes hitems).1, hcodes₁, codesAfter_congr hlist₁ hurl₁]
    exact @codesAfter_congr s (told c element s) g rfl rfl _ _ _
  have hverdicts₂ : verdicts s₂ = verdicts s := hunjudged₂.trans hunjudged₁
  have hsuspected : (s₂.group g).malicious = (s.group g).malicious := by
    rw [hgroup₂]
    exact hmalicious₁
  have hend : ∀ malicious, malicious = suspected s g element → (do
      let _ ← deref (s.client c).virtualMachine
      if malicious = true then
        Client.flushBulk g (element.get "algorithm") map
        UrlGroup.setMalicious g (element.get "algorithm") true (some map)
        UrlGroup.setUrlGroupState g .visited
        Client.leaveGroup c .disconnected
      else
        UrlGroup.setMalicious g (element.get "algorithm") false (some map)
        UrlGroup.setUrlGroupState g .visited
        Client.leaveGroup c .waiting : Action Unit).run s₂ = (.ok (), s') →
        ∃ algorithm map s₁ s₂, Judged c g element s s₁ s₂ s' algorithm map := by
    intro malicious hmalicious h₃
    obtain ⟨v, hv, h₄⟩ := of_run_deref_bind h₃
    have hv₂ : (s₂.client c).virtualMachine = some v := by rw [hclient₂, hclient, hv]
    cases malicious with
    | true =>
        obtain ⟨_, s₃, hflush, h₅⟩ := Exec.of_run_bind_ok h₄
        have hstore₃ : StoreOnly s₂ s₃ := Exec.Within.of_run hflush
        have hcodes₃ : codes s₃ = codes s₂ :=
          codes_congr (Exec.Within.of_run (R := StatesKept) hflush)
        have hv₃ : (s₃.client c).virtualMachine = some v := by
          rw [hstore₃]
          exact hv₂
        have hgroup₃ : s₃.group = s₂.group := by rw [hstore₃]
        obtain ⟨algorithm, s₄, halg, hjudge, hverdicts, hstates⟩ :=
          of_run_passed hv₃ (.inr rfl) h₅
        have hother : algorithm ≠ "bulk" → verdicts s₃ = verdicts s := by
          intro hne
          rw [of_run_flushBulk (fun he => hne (Option.some.inj (halg.symm.trans he))) hflush,
            hverdicts₂]
        refine ⟨algorithm, map, s₃, s₄, ?_⟩
        exact
          { told := halg, entries := hmap
            urlList := by rw [hgroup₃, hlist₂]
            url := by rw [hstore₃]; exact hurl₂
            codes := by rw [hcodes₃, hcodes₂]
            before := hother
            judge := by rw [← hmalicious]; exact hjudge
            passed := hverdicts
            urlState := by rw [← hlist₂, ← hgroup₃]; exact hstates }
    | false =>
        obtain ⟨algorithm, s₄, halg, hjudge, hverdicts, hstates⟩ := of_run_passed hv₂ (.inl rfl) h₄
        refine ⟨algorithm, map, s₂, s₄, ?_⟩
        exact
          { told := halg, entries := hmap, urlList := hlist₂, url := hurl₂, codes := hcodes₂
            before := fun _ => hverdicts₂
            judge := by rw [← hmalicious]; exact hjudge
            passed := hverdicts
            urlState := by rw [← hlist₂]; exact hstates }
  simp only [Exec.run_gets_bind] at h₂
  cases hgroup : (s₂.group g).malicious with
  | true =>
      rw [hgroup] at h₂
      refine hend true ?_ h₂
      rw [suspected, ← hsuspected, hgroup]
      rfl
  | false =>
      rw [hgroup] at h₂
      obtain ⟨text, htext, h₃⟩ := of_run_deref_bind h₂
      refine hend (text == "1") ?_ h₃
      rw [suspected, ← hsuspected, hgroup, htext]
      rfl

/-- No item of the message reports an error for the URL. -/
def Clean (s : ServerState) (g : GroupRef) (element : Element) (u : UrlRef) : Prop :=
  ∀ item ∈ element.childElements, namedUrl s g item = some u → itemCode ["0", ""] item = none

instance (s : ServerState) (g : GroupRef) (element : Element) (u : UrlRef) :
    Decidable (Clean s g element u) := inferInstanceAs (Decidable (∀ item ∈ _, _ → _))

/-- The trees with these roots have something to report of the process. -/
def answers (roots : List ProcessStateChange) : Option Int → Bool
  | some processId => decide (Answered roots processId)
  | none => false

/-- The verdict of a visit during which the client has sent these events: with bulk a URL of
several is malicious if the events of its process are, and otherwise any event will do. -/
def verdict (events : List (Element × Nat)) (s : ServerState) (g : GroupRef) (element : Element)
    (u : UrlRef) : Bool :=
  if element.get "algorithm" = some "bulk" ∧ 1 < (s.group g).size then
    answers (({} : StateChangeHandler).addAll (parsed events)).roots
      (reportedId s g element.childElements u)
  else !events.isEmpty || element.get "malicious" == some "1"

/-- Nothing is left over from an earlier visit when the finish message is handled: the URL has no
error code, and what the verdict is taken from agrees with the visit.  With bulk that is the state
changes that the client has filed; otherwise it is the flag of the group.  A malicious group of
several URLs does not pass its flag on: there each URL must have the verdict already. -/
def RightlyJudged (events : List (Element × Nat)) (s : ServerState) (c : ClientRef) (g : GroupRef)
    (element : Element) (u : UrlRef) : Prop :=
  codes s u = .ok ∧
    if element.get "algorithm" = some "bulk" then
      answers (s.client c).stateChangeHandler.roots (reportedId s g element.childElements u) =
        verdict events s g element u
    else if suspected s g element = true ∧ 1 < (s.group g).size then
      verdicts s u = some (verdict events s g element u)
    else suspected s g element = verdict events s g element u

instance (events : List (Element × Nat)) (s : ServerState) (c : ClientRef) (g : GroupRef)
    (element : Element) (u : UrlRef) : Decidable (RightlyJudged events s c g element u) :=
  inferInstanceAs (Decidable (_ ∧ ite _ _ _))

theorem codesAfter_clean {noError : List String} {u : UrlRef} : ∀ {items : List Element}
    {K : UrlRef → ErrorCode}, (∀ item ∈ items, namedUrl s g item = some u →
      itemCode noError item = none) → codesAfter s g noError items K u = K u
  | [], _, _ => rfl
  | item :: items, K, h => by
      rw [codesAfter, codesAfter_clean fun item hitem => h item (List.mem_cons_of_mem _ hitem),
        codesAfterItem]
      cases hw : namedUrl s g item with
      | none => rfl
      | some w =>
          cases hcode : itemCode noError item with
          | none => rfl
          | some code =>
              refine Function.update_of_ne ?_ _ _
              rintro rfl
              have hno := (h item List.mem_cons_self hw).symm.trans hcode
              cases hno

theorem judgement_answers {u : UrlRef}
    (hmap : map.map some = (element.childElements.map (itemEntry s c g)).reverse)
    (hsome : (judgement map s u).isSome = true) : judgement map s u =
      some (answers (s.client c).stateChangeHandler.roots
        (reportedId s g element.childElements u)) := by
  have htrue := judgement_iff (u := u) hmap
  obtain ⟨b, hb⟩ := Option.isSome_iff_exists.mp hsome
  rw [hb, Option.some.injEq] at htrue ⊢
  cases hid : reportedId s g element.childElements u with
  | none =>
      rw [hid] at htrue
      simpa [answers] using htrue
  | some processId =>
      rw [hid] at htrue
      rw [answers, Bool.eq_iff_iff, htrue, decide_eq_true_eq]
      simp

/-- **What a URL ends with** when the visit ends with a finish message that reports no error
for it: VISITED and the verdict of the visit, if and only if nothing is left over. -/
theorem ends_iff {events : List (Element × Nat)} {u : UrlRef}
    (hg : (s.client c).visitingUrlGroup = some g) (htype : element.get "type" = some "finish")
    (h : (Client.parseVisitEvent c element).run s = (.ok (), s')) (hu : u ∈ (s.group g).urlList)
    (hclean : Clean s g element u) :
    ((s'.visit u).urlState = .visited ∧ verdicts s' u = some (verdict events s g element u)) ↔
      RightlyJudged events s c g element u := by
  obtain ⟨algorithm, map, s₁, s₂, hjudged⟩ := of_run_finish hg htype h
  have hcode : codes s₁ u = codes s u := by rw [hjudged.codes, codesAfter_clean hclean]
  have hstate : (s'.visit u).urlState = .visited ↔ codes s u = .ok := by
    rw [hjudged.urlState u hu, hcode, endState]
    split
    · next hok => exact ⟨fun _ => hok, fun _ => rfl⟩
    · next hok => exact ⟨nofun, fun h => absurd h hok⟩
  have hsize : (s₁.group g).size = (s.group g).size := congrArg List.length hjudged.urlList
  have hu₁ : u ∈ (s₁.group g).urlList := by rwa [hjudged.urlList]
  have halg : element.get "algorithm" = some "bulk" ↔ algorithm = "bulk" := by
    rw [hjudged.told, Option.some.injEq]
  rw [hstate, RightlyJudged, hjudged.passed]
  refine and_congr_right fun _ => ?_
  by_cases hbulk : algorithm = "bulk"
  · subst hbulk
    have hsame : judgement map s₁ u = judgement map s u := by
      rw [judgement, hjudged.url, judgement]
    obtain ⟨hsome, hverdict⟩ := of_run_setMalicious_bulk hjudged.judge u hu₁
    rw [hsame] at hsome hverdict
    rw [if_pos (halg.mpr rfl), hverdict, judgement_answers hjudged.entries hsome, Option.some.injEq]
  · have hverdict := of_run_setMalicious_other hbulk hjudged.judge u hu₁
    rw [hsize, hjudged.before hbulk] at hverdict
    rw [if_neg fun he => hbulk (halg.mp he), hverdict]
    split
    · exact Iff.rfl
    · rw [Option.some.injEq]

end Finish

/-! ## The visits of a run -/

/-- A finish message that is handled. -/
structure Finish where
  client : ClientRef
  group : GroupRef
  element : Element

/-- What is known of the visits so far. -/
structure Visits where
  /-- The client that was given the URL last. -/
  visitor : UrlRef → Option ClientRef := fun _ => none
  /-- The system events that the client has sent in its visit. -/
  events : ClientRef → List (Element × Nat) := fun _ => []
  /-- The verdict of the last visit of the URL, if that has ended with a finish message that
  reports no error for it. -/
  ended : UrlRef → Option Bool := fun _ => none

instance (s' : System) : ∀ a, Decidable (GoesOn a s')
  | .handle k => match h : (s'.controller k).step with
      | .reading => .isTrue (by simp only [GoesOn, h])
      | .read _ | .connected | .stopped => .isFalse (by simp only [GoesOn, h, not_false_eq_true])
  | .enqueue _ | .receive _ _ | .lineLost _ | .endOfStream _ | .retrieve _ | .blame _ _ | .revert
  | .work _ _ | .ping _ | .cutLink _ => .isFalse id

/-- The finish message that a step handles to its end.  A group that is cut in two is visited
again. -/
def finished (s : System) (a : SystemAction) (s' : System) : Option Finish :=
  match a with
  | .handle k =>
      match (s.controller k).step with
      | .read (.visitEvent element) =>
          if element.get "type" = some "finish" ∧ GoesOn (.handle k) s' ∧
              s'.server.nextGroup = s.server.nextGroup then do
            let client ← (s.controller k).client
            let group ← (s.server.client client).visitingUrlGroup
            return { client, group, element }
          else none
      | _ => none
  | _ => none

namespace Visits

/-- A client is given URLs: a visit of them begins. -/
def given (h : Visits) (c : ClientRef) (urls : List UrlRef) : Visits where
  visitor u := if u ∈ urls then some c else h.visitor u
  events := Function.update h.events c []
  ended u := if u ∈ urls then none else h.ended u

def note (h : Visits) (c : ClientRef) (event : Element × Nat) : Visits :=
  { h with events := Function.update h.events c (h.events c ++ [event]) }

/-- The last visit of the URL ends with the message, which reports no error for it. -/
def Ends (h : Visits) (s : ServerState) (f : Finish) (u : UrlRef) : Prop :=
  u ∈ (s.group f.group).urlList ∧ h.visitor u = some f.client ∧ Clean s f.group f.element u

instance (h : Visits) (s : ServerState) (f : Finish) (u : UrlRef) : Decidable (h.Ends s f u) :=
  inferInstanceAs (Decidable (_ ∧ _ ∧ _))

def finish (h : Visits) (s : ServerState) (f : Finish) : Visits :=
  { h with ended := fun u =>
      if h.Ends s f u then some (verdict (h.events f.client) s f.group f.element u) else h.ended u }

/-- What a step tells that does not end a visit. -/
def observe (h : Visits) (s : System) : SystemAction → Visits
  | .retrieve c =>
      match s.retriever c with
      | .store g => h.given c (s.server.group g).urlList
      | _ => h
  | .handle k =>
      match (s.controller k).step, (s.controller k).client with
      | .read (.systemEvent element origin), some c =>
          if (s.server.client c).clientState = .visiting then h.note c (element, origin) else h
      | _, _ => h
  | _ => h

def record (h : Visits) (s : System) (a : SystemAction) (s' : System) : Visits :=
  match finished s a s' with
  | some f => h.finish s.server f
  | none => h.observe s a

/-- It adds nothing to what has ended. -/
theorem ended_observe {h : Visits} {s : System} {a : SystemAction} {u : UrlRef} {b : Bool}
    (hb : (h.observe s a).ended u = some b) : h.ended u = some b := by
  cases a with
  | retrieve c =>
      unfold observe at hb
      dsimp only at hb
      split at hb
      · dsimp only [given] at hb
        split at hb
        · cases hb
        · exact hb
      · exact hb
  | handle k =>
      unfold observe at hb
      dsimp only at hb
      split at hb
      · split at hb <;> exact hb
      · exact hb
  | _ => exact hb

end Visits

/-- The server, with a record of the visits. -/
def visitsMachine : Machine (System × Visits) SystemAction := systemMachine.recording {} Visits.record

/-- The condition on a step: nothing is done for a client that still has a URL whose last visit has
ended, and a finish message that is handled to its end finds nothing left over from an earlier visit
of the URLs. -/
structure Decisive (x : System × Visits) (a : SystemAction) : Prop where
  apart : ∀ c ∈ actor x.1 a, ∀ g ∈ (x.1.server.client c).visitingUrlGroup,
    ∀ u ∈ (x.1.server.group g).urlList, x.2.ended u = none
  judged : ∀ s' ∈ x.1.next a, ∀ f ∈ finished x.1 a s', ∀ u ∈ (x.1.server.group f.group).urlList,
    x.2.Ends x.1.server f u →
      RightlyJudged (x.2.events f.client) x.1.server f.client f.group f.element u

instance (x : System × Visits) (a : SystemAction) : Decidable (Decisive x a) :=
  decidable_of_iff (_ ∧ _) ⟨fun h => ⟨h.1, h.2⟩, fun h => ⟨h.1, h.2⟩⟩

section Runs
variable {s s' : System} {a : SystemAction} {f : Finish}

/-- The event thread goes on if the message is handled without an exception. -/
theorem run_of_goesOn {k : ConnectionRef} {element : Element} {c : ClientRef}
    (hstep : (s.controller k).step = .read (.visitEvent element)) (hc : (s.controller k).client = some c)
    (hnext : s.next (.handle k) = some s') (hgoes : GoesOn (.handle k) s') :
    (Client.parseVisitEvent c element).run s.server = (.ok (), s'.server) := by
  simp only [System.next, hstep, System.handle, hc] at hnext
  obtain ⟨⟨r, server⟩, hattempt, rfl⟩ := Option.map_eq_some_iff.mp hnext
  cases r with
  | none => simp only [GoesOn, System.setController, Function.update_self] at hgoes
  | some _ =>
      rw [attempt] at hattempt
      split at hattempt
      · next he =>
          obtain ⟨-, rfl⟩ := Prod.mk.inj (Option.some.inj hattempt)
          exact he
      · cases hattempt
      · cases hattempt

theorem of_finished (hnext : s.next a = some s') (hf : finished s a s' = some f) :
    actor s a = some f.client ∧ (s.server.client f.client).visitingUrlGroup = some f.group ∧
      f.element.get "type" = some "finish" ∧
        (Client.parseVisitEvent f.client f.element).run s.server = (.ok (), s'.server) := by
  cases a with
  | handle k =>
      simp only [finished] at hf
      split at hf
      · next element hstep =>
          split at hf
          · next hends =>
              obtain ⟨c, hc, hf⟩ := Option.bind_eq_some_iff.mp hf
              obtain ⟨g, hg, hf⟩ := Option.bind_eq_some_iff.mp hf
              obtain rfl := Option.some.inj hf
              refine ⟨?_, hg, hends.1, ?_⟩
              · simp only [actor, hstep, lineActor, hc]
              · exact run_of_goesOn hstep hc hnext hends.2.1
          · cases hf
      · cases hf
  | _ => cases hf

/-- **The last visit decides**, in every run whose steps meet the condition. -/
theorem ended_safe {x : System × Visits} (h : visitsMachine.Reachable Decisive x) :
    ∀ u b, x.2.ended u = some b →
      (x.1.server.visit u).urlState = .visited ∧ (x.1.server.visit u).malicious = some b := by
  refine h.invariant (P := fun x => ∀ u b, x.2.ended u = some b →
    (x.1.server.visit u).urlState = .visited ∧ (x.1.server.visit u).malicious = some b) ?_ ?_
  · rintro ⟨s, h⟩ ⟨-, rfl⟩ u b hb
    cases hb
  · rintro ⟨s, h⟩ a ⟨s', h'⟩ hs hok hnext u b hb
    obtain ⟨hstep, hrecord⟩ := Machine.of_recording_next hnext
    dsimp only at hstep hrecord hs hb ⊢
    -- a URL whose last visit had ended is not reached
    have hkept : h.ended u = some b →
        (s'.server.visit u).urlState = .visited ∧ (s'.server.visit u).malicious = some b := by
      intro hold
      have hsame : s'.server.visit u = s.server.visit u := by
        refine visit_does (System.does_next hstep) fun c hc g hg hu => ?_
        exact absurd ((hok.apart c hc g hg u hu).symm.trans hold) nofun
      rw [hsame]
      exact hs u b hold
    rw [hrecord, Visits.record] at hb
    cases hf : finished s a s' with
    | none =>
        rw [hf] at hb
        exact hkept (Visits.ended_observe hb)
    | some f =>
        rw [hf] at hb
        dsimp only [Visits.finish] at hb
        split at hb
        · next hends =>
            obtain ⟨-, hg, htype, hrun⟩ := of_finished hstep hf
            obtain rfl := Option.some.inj hb
            exact (ends_iff hg htype hrun hends.1 hends.2.2).mpr
              (hok.judged s' hstep f hf u hends.1 hends)
        · exact hkept hb

end Runs

/-! ## Two runs -/

/-- What a message says of the one URL. -/
def urlItem (major : String) : Element where
  name := "item"
  attributes := [("url", "http%3A%2F%2Fa%2F"), ("time", "1/1/2008 0:0:0.0"), ("processId", "231"),
    ("major-error-code", major), ("minor-error-code", "0")]

/-- A message of a visit during which nothing malicious is seen. -/
def benignMessage (type major : String) : Element where
  name := "visit-event"
  attributes := [("type", type), ("time", "1/1/2008 0:0:0.0"), ("algorithm", "seq"),
    ("error-code", major), ("malicious", "0")]
  childElements := [urlItem major]

def sends (k : ConnectionRef) (element : Element) : List SystemAction :=
  [.receive k (.visitEvent element), .handle k]

theorem visitsMachine_init : visitsMachine.init (oneUrlServer, {}) := ⟨oneUrlServer_init, rfl⟩

theorem ended_first : ∃ x, visitsMachine.run (sendUrl ++ sends 0 (benignMessage "start" "0") ++
    sends 0 (benignMessage "finish" "0")) (oneUrlServer, {}) = some x ∧
      x.2.ended 0 = some false ∧ (x.1.server.visit 0).urlState = .visited ∧
        (x.1.server.visit 0).malicious = some false := by
  obtain ⟨x, hrun, hended⟩ : ∃ x, visitsMachine.run (sendUrl ++ sends 0 (benignMessage "start" "0") ++
      sends 0 (benignMessage "finish" "0")) (oneUrlServer, {}) = some x ∧
        x.2.ended 0 = some false := ⟨_, rfl, rfl⟩
  refine ⟨x, hrun, hended, ended_safe ?_ 0 false hended⟩
  exact (Machine.Reachable.init visitsMachine_init).run (by decide +kernel) hrun

/-- The process of the browser failed, and the visit is repeated by a client that connects
afterwards. -/
def secondVisit : List SystemAction :=
  sendUrl ++ sends 0 (benignMessage "start" "0") ++ sends 0 (benignMessage "error" "268435729") ++
    [SystemAction.receive 1 (.connect (some 0) true), SystemAction.handle 1, SystemAction.handle 1] ++
    List.replicate 6 (SystemAction.retrieve 1) ++
      sends 1 (benignMessage "start" "0") ++ sends 1 (benignMessage "finish" "0")

/-- The second visit goes well, and the URL ends with the error of the first. -/
theorem ended_error : ¬ ∀ x, visitsMachine.Reachable Machine.AnyStep x → ∀ u b, x.2.ended u = some b →
    (x.1.server.visit u).urlState = .visited ∧ (x.1.server.visit u).malicious = some b := by
  intro h
  obtain ⟨x, hrun, hended, herror⟩ : ∃ x, visitsMachine.run secondVisit (oneUrlServer, {}) = some x ∧
      x.2.ended 0 = some false ∧
        states x.1.server 0 = (.error, .processError) := ⟨_, rfl, rfl, rfl⟩
  have hvisited := (h x (Machine.reachable_of_run visitsMachine_init hrun) 0 false hended).1
  exact absurd ((congrArg Prod.fst herror).symm.trans hvisited) nofun

end CaptureHpc.Server
