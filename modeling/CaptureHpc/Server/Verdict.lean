/-
# `Server.Verdict` — the verdict of a URL over a whole visit

A visit is a start message, the system events of the client, and a message that
ends it.  When the client saw an event, the URL should be malicious in the end.

For seq and dac the last message sets the flag.  For bulk it reads the state
changes filed under the process id that the item reports, and these are filed
only for groups larger than one: the events of a single URL go straight to its
log and the handler never sees them.  So a bulk visit of one URL ends benign
(`reported_iff` with no root to answer), and one of several URLs is malicious
exactly when the process ids of the items match the trees of the events.
-/
import CaptureHpc.Server.Items

namespace CaptureHpc.Server

open Java StateChangeHandler

/-! ## Code that passes no verdict -/

/-- The flags of the URLs. -/
def verdicts (s : ServerState) (u : UrlRef) : Option Bool := (s.visit u).malicious

/-- The flags stay. -/
abbrev Unjudged : ServerState → ServerState → Prop := Exec.Same verdicts

section Unjudged
variable (u : UrlRef) (g : GroupRef)

theorem updateVisit_unjudged {f : UrlVisit → UrlVisit} (h : ∀ x, (f x).malicious = x.malicious) :
    (updateVisit u f).Within Unjudged := by
  refine ⟨fun s => funext fun w => ?_⟩
  show (Function.update s.store.visit u (f (s.store.visit u)) w).malicious = _
  by_cases hw : w = u
  · subst hw
    rw [Function.update_self, h]
    rfl
  · rw [Function.update_of_ne hw]
    rfl

instance (line : LogLine) : (Exec.modify (ServerState.writeLog line) : Action Unit).Within Unjudged :=
  ⟨fun _ => rfl⟩

instance (call : DatabaseCall) :
    (Exec.modify (ServerState.callDatabase call) : Action Unit).Within Unjudged :=
  ⟨fun _ => rfl⟩

instance (f : UrlGroup → UrlGroup) :
    (Exec.modify (ServerState.setGroup g f) : Action Unit).Within Unjudged := ⟨fun _ => rfl⟩

instance (c : ClientRef) (f : Client → Client) :
    (Exec.modify (ServerState.setClient c f) : Action Unit).Within Unjudged := ⟨fun _ => rfl⟩

instance (v : VmRef) (f : VirtualMachine → VirtualMachine) :
    (Exec.modify (ServerState.setVm v f) : Action Unit).Within Unjudged := ⟨fun _ => rfl⟩

instance (time : Option String) : (Url.setVisitStartTime u time).Within Unjudged := by
  have := fun date => updateVisit_unjudged u
    (f := fun x => { x with visitStartTime := some date }) fun _ => rfl
  unfold Url.setVisitStartTime
  infer_instance

instance (time : Option String) : (Url.setVisitFinishTime u time).Within Unjudged := by
  have := fun date => updateVisit_unjudged u
    (f := fun x => { x with visitFinishTime := some date }) fun _ => rfl
  unfold Url.setVisitFinishTime
  infer_instance

instance (n : Int) : (Url.setMajorErrorCode u n).Within Unjudged :=
  updateVisit_unjudged u fun _ => rfl

instance (n : Int) : (Url.setMinorErrorCode u n).Within Unjudged :=
  updateVisit_unjudged u fun _ => rfl

instance : (Url.closeEventLog u).Within Unjudged := updateVisit_unjudged u fun _ => rfl

instance : (UrlsController.update u).Within Unjudged := by
  have h : (Exec.modify fun s : ServerState => { s with store :=
      { s.store with errorUrlList := s.store.errorUrlList ++ [u] } } : Action Unit).Within Unjudged :=
    ⟨fun _ => rfl⟩
  unfold UrlsController.update
  infer_instance

instance (newState : UrlState) : (Url.setUrlState u newState).Within Unjudged := by
  have := updateVisit_unjudged u (f := fun x => { x with urlState := newState }) fun _ => rfl
  unfold Url.setUrlState
  cases newState <;> infer_instance

instance (newState : UrlGroupState) : (UrlGroup.setUrlGroupState g newState).Within Unjudged := by
  have hlist : ∀ f : List GroupRef → List GroupRef, (Exec.modify fun s : ServerState =>
      { s with visitingList := f s.visitingList } : Action Unit).Within Unjudged :=
    fun _ => ⟨fun _ => rfl⟩
  have hnext : ∀ n, (Exec.modify fun s : ServerState => { s with nextGroup := n } :
      Action Unit).Within Unjudged := fun _ => ⟨fun _ => rfl⟩
  have hpush : ∀ g, (UrlGroupsController.push g).Within Unjudged := fun _ => ⟨fun _ => rfl⟩
  have hnew : ∀ urls, (UrlGroup.new urls).Within Unjudged := by
    intro urls
    unfold UrlGroup.new
    cases urls <;> infer_instance
  have hpass : ∀ u, (UrlGroup.passOn g newState u).Within Unjudged := by
    intro u
    unfold UrlGroup.passOn
    cases newState <;> infer_instance
  have hupdate : (UrlGroupsController.update g).Within Unjudged := by
    unfold UrlGroupsController.update
    refine Exec.Within.bind inferInstance fun group => ?_
    unfold UrlGroupsController.divides UrlGroupsController.split UrlGroupsController.failUrl
    cases group.urlGroupState with
    | visiting => exact hlist fun l => l ++ [g]
    | visited => exact (hlist fun l => l.erase g).bind fun _ => inferInstance
    | error => exact (hlist fun l => l.erase g).bind fun _ => inferInstance
    | none => infer_instance
    | queued => infer_instance
  unfold UrlGroup.setUrlGroupState
  infer_instance

end Unjudged

/-! ## What the items report -/

/-- The process id in an item. -/
def itemProcessId (item : Element) : Option Int := (item.get "processId").bind parseInt

/-- What an item puts into the map from URL to state changes. -/
def itemEntry (s : ServerState) (c : ClientRef) (g : GroupRef) (item : Element) :
    Option (String × String) := do
  let url ← namedUrl s g item
  let processId ← itemProcessId item
  return (Url.getUrl (s.url url), (s.client c).stateChangeHandler.getStateChangesCSV processId)

/-- The process id reported for a URL: that of the last item with its address. -/
def reportedId (s : ServerState) (g : GroupRef) (items : List Element) (u : UrlRef) :
    Option Int := do
  let item ← items.reverse.find? fun item =>
    (namedUrl s g item).map (fun w => Url.getUrl (s.url w)) = some (Url.getUrl (s.url u))
  itemProcessId item

/-- What stays while a message is handled: the clients, the URLs of the group, and what is
known of them from the start. -/
structure VisitKept (g : GroupRef) (s s' : ServerState) : Prop where
  client : s'.client = s.client
  urlList : (s'.group g).urlList = (s.group g).urlList
  url : s'.url = s.url

instance (g : GroupRef) : Std.Refl (VisitKept g) := ⟨fun _ => ⟨rfl, rfl, rfl⟩⟩

instance (g : GroupRef) : IsTrans ServerState (VisitKept g) :=
  ⟨fun _ _ _ h h' => ⟨h'.client.trans h.client, h'.urlList.trans h.urlList, h'.url.trans h.url⟩⟩

theorem StoreOnly.visitKept {g : GroupRef} {s s' : ServerState}
    (h : StoreOnly s s') : VisitKept g s s' := by
  rw [StoreOnly] at h
  rw [h]
  exact ⟨rfl, rfl, rfl⟩

section Items
variable {c : ClientRef} {g : GroupRef}

theorem reportedId_congr {s s' : ServerState} (hlist : (s'.group g).urlList = (s.group g).urlList)
    (hurl : s'.url = s.url) (items : List Element) (u : UrlRef) :
    reportedId s' g items u = reportedId s g items u := by
  simp only [reportedId, namedUrl_congr hlist hurl, hurl]

theorem itemEntry_congr {s s' : ServerState} (hlist : (s'.group g).urlList = (s.group g).urlList)
    (hurl : s'.url = s.url)
    (hhandler : (s'.client c).stateChangeHandler = (s.client c).stateChangeHandler)
    (item : Element) : itemEntry s' c g item = itemEntry s c g item := by
  simp only [itemEntry, namedUrl_congr hlist hurl, hurl, hhandler]

/-- An item that is handled names a URL of the group and has a process id. -/
theorem of_run_endItem {s s' : ServerState} {noError : List String} {item : Element}
    {r : Int × String × String} (h : (Client.endItem c g noError item).run s = (.ok r, s')) :
    itemEntry s c g item = some r.2 := by
  rw [Client.endItem] at h
  obtain ⟨uri, huri, h₁⟩ := of_run_deref_bind h
  obtain ⟨u, s₁, hget, h₂⟩ := Exec.of_run_bind_ok h₁
  obtain ⟨hs, hu⟩ := of_run_getUrl hget
  rw [hs] at h₂
  obtain ⟨processId, hid, h₃⟩ := Exec.of_run_orThrow_bind h₂
  simp only [Exec.run_gets_bind] at h₃
  obtain ⟨_, s₂, -, h₄⟩ := Exec.of_run_bind_ok h₃
  obtain ⟨_, s₃, -, h₅⟩ := Exec.of_run_bind_ok h₄
  simp only [Exec.run_pure, Prod.mk.injEq, Except.ok.injEq] at h₅
  have hnamed : namedUrl s g item = some u := by
    simp only [namedUrl, huri, Option.bind_eq_bind, Option.bind_some]
    exact hu
  simp only [itemEntry, hnamed, itemProcessId, hid, Option.bind_eq_bind, Option.bind_some, ← h₅.1]
  rfl

/-- The map has the entries of the items, the last first. -/
theorem of_run_endItems {noError : List String} : ∀ {items : List Element} {s s' : ServerState}
    {processIds : List Int} {map : StringMap},
    (Client.endItems c g noError items).run s = (.ok (processIds, map), s') →
      map.map some = (items.map (itemEntry s c g)).reverse
  | [], s, s', processIds, map, h => by
      obtain ⟨-, rfl⟩ : processIds = [] ∧ map = [] := by
        simpa [Client.endItems] using (congrArg Prod.fst h).symm
      rfl
  | item :: items, s, s', processIds, map, h => by
      rw [Client.endItems] at h
      obtain ⟨⟨processId, url, csv⟩, s₁, hitem, h⟩ := Exec.of_run_bind_ok h
      obtain ⟨⟨processIds₁, map₁⟩, s₂, hitems, h⟩ := Exec.of_run_bind_ok h
      obtain ⟨-, rfl⟩ : processIds = processId :: processIds₁ ∧ map = map₁ ++ [(url, csv)] := by
        simpa using (congrArg Prod.fst h).symm
      have hvisit : VisitKept g s s₁ := (Exec.Within.of_run hitem : StoreOnly s s₁).visitKept
      have ih := of_run_endItems hitems
      have hentry := of_run_endItem hitem
      have hsame : itemEntry s₁ c g = itemEntry s c g :=
        funext <| itemEntry_congr hvisit.urlList hvisit.url (by rw [hvisit.client])
      rw [List.map_append, ih, hsame, List.map_cons (f := itemEntry s c g), List.reverse_cons,
        hentry]
      rfl

/-- The map answers with the report of the process id that was reported last. -/
theorem lookup_map {s : ServerState} {k : String} : ∀ {map : StringMap} {items : List Element},
    map.map some = items.map (itemEntry s c g) →
      map.lookup k = ((items.find? fun item =>
        (namedUrl s g item).map (fun w => Url.getUrl (s.url w)) = some k).bind itemProcessId).map
          (s.client c).stateChangeHandler.getStateChangesCSV
  | [], [], _ => rfl
  | [], _ :: _, h => nomatch h
  | _ :: _, [], h => nomatch h
  | (key, csv) :: map, item :: items, h => by
      rw [List.map_cons, List.map_cons, List.cons.injEq] at h
      obtain ⟨hentry, hrest⟩ := h
      have ih := lookup_map (k := k) hrest
      obtain ⟨w, hw, processId, hid, hkey, hcsv⟩ : ∃ w, namedUrl s g item = some w ∧
          ∃ processId, itemProcessId item = some processId ∧ Url.getUrl (s.url w) = key ∧
            (s.client c).stateChangeHandler.getStateChangesCSV processId = csv := by
        have he := hentry.symm
        simp only [itemEntry, Option.bind_eq_bind, Option.bind_eq_some_iff, Option.pure_def,
          Option.some.injEq, Prod.mk.injEq] at he
        obtain ⟨w, hw, processId, hid, hkey, hcsv⟩ := he
        exact ⟨w, hw, processId, hid, hkey, hcsv⟩
      by_cases hk : k = key
      · subst hk
        simp [hw, hid, hkey, hcsv]
      · have hne : ¬ key = k := fun he => hk he.symm
        have hbeq : (k == key) = false := by simpa using hk
        simp only [List.lookup_cons, hbeq, hw, Option.map_some, hkey, Option.some.injEq, hne,
          decide_false, Bool.false_eq_true, not_false_eq_true, List.find?_cons_of_neg]
        exact ih

end Items

/-! ## Code that passes verdicts -/

section Judged
variable {c : ClientRef} {g : GroupRef} {map : StringMap}

/-- The verdict a map has for a URL. -/
def judgement (map : StringMap) (s : ServerState) (u : UrlRef) : Option Bool :=
  (map.lookup (Url.getUrl (s.url u))).map fun csv => decide (csv ≠ "")

theorem verdicts_setVisit (s : ServerState) (u w : UrlRef) (b : Bool) :
    verdicts (s.setVisit u fun x => { x with malicious := some b }) w =
      if w = u then some b else verdicts s w := by
  simp only [verdicts, ServerState.visit, ServerState.setVisit, Function.update_apply]
  split <;> rfl

theorem of_run_setMaliciousFromMap {b : Bool} {u : UrlRef} {s s' : ServerState}
    (h : (UrlGroup.setMaliciousFromMap b (some map) u).run s = (.ok (), s')) :
    s'.url = s.url ∧ (judgement map s u).isSome ∧
      ∀ w, verdicts s' w = if w = u then judgement map s u else verdicts s w := by
  rw [UrlGroup.setMaliciousFromMap] at h
  simp only [Exec.run_gets_bind] at h
  obtain ⟨csv, hcsv, h₁⟩ := of_run_deref_bind h
  simp only [Url.setMalicious, Exec.run_modify, Prod.mk.injEq, true_and] at h₁
  subst h₁
  refine ⟨rfl, ?_, fun w => ?_⟩
  · simp [judgement, hcsv]
  · rw [verdicts_setVisit]
    simp [judgement, hcsv]

theorem of_run_judge {b : Bool} : ∀ {l : List UrlRef} {s s' : ServerState},
    (l.forM (UrlGroup.setMaliciousFromMap b (some map))).run s = (.ok (), s') →
      ∀ w, (w ∈ l → (judgement map s w).isSome ∧ verdicts s' w = judgement map s w) ∧
        (w ∉ l → verdicts s' w = verdicts s w)
  | [], s, s', h, w => by
      obtain rfl : s = s' := congrArg Prod.snd h
      exact ⟨fun hw => absurd hw List.not_mem_nil, fun _ => rfl⟩
  | u :: l, s, s', h, w => by
      obtain ⟨_, s₁, hu, hl⟩ := Exec.of_run_bind_ok h
      obtain ⟨hurl, hsome, hverdict⟩ := of_run_setMaliciousFromMap hu
      obtain ⟨hin, hout⟩ := of_run_judge hl w
      have hsame : judgement map s₁ w = judgement map s w := by rw [judgement, hurl, judgement]
      rw [hsame] at hin
      by_cases hwl : w ∈ l
      · exact ⟨fun _ => hin hwl, fun hno => absurd (List.mem_cons_of_mem _ hwl) hno⟩
      · rw [hout hwl, hverdict]
        by_cases hwu : w = u
        · subst hwu
          rw [if_pos rfl]
          exact ⟨fun _ => ⟨hsome, rfl⟩, fun hno => absurd List.mem_cons_self hno⟩
        · rw [if_neg hwu]
          refine ⟨fun hmem => ?_, fun _ => rfl⟩
          rcases List.mem_cons.mp hmem with he | hmem
          · exact absurd he hwu
          · exact absurd hmem hwl

/-- A bulk group is judged URL by URL. -/
theorem of_run_setMalicious_bulk {b : Bool} {s s' : ServerState}
    (h : (UrlGroup.setMalicious g (some "bulk") b (some map)).run s = (.ok (), s')) :
    ∀ u ∈ (s.group g).urlList, (judgement map s u).isSome ∧ verdicts s' u = judgement map s u := by
  rw [UrlGroup.setMalicious] at h
  simp only [Exec.run_modify_bind, Exec.orThrow_some, Exec.pure_bind, Exec.run_gets_bind, ne_eq,
    not_true_eq_false, if_false] at h
  intro u hu
  have hlist : ((s.setGroup g fun x => { x with malicious := b }).group g).urlList =
      (s.group g).urlList := by simp [ServerState.setGroup]
  rw [hlist] at h
  exact (of_run_judge h u).1 hu

/-- A single URL of another group gets the verdict of the group. -/
theorem of_run_setMalicious_single {algorithm : String} (halg : algorithm ≠ "bulk") {u : UrlRef}
    {map : Option StringMap} {s s' : ServerState} (hu : (s.group g).urlList = [u])
    (h : (UrlGroup.setMalicious g (some algorithm) true map).run s = (.ok (), s')) :
    verdicts s' u = some true := by
  rw [UrlGroup.setMalicious] at h
  simp only [Exec.run_modify_bind, Exec.orThrow_some, Exec.pure_bind, Exec.run_gets_bind, ne_eq,
    halg, not_false_eq_true, if_true] at h
  have hlist : ((s.setGroup g fun x => { x with malicious := true }).group g).urlList = [u] := by
    simpa [ServerState.setGroup] using hu
  rw [hlist] at h
  simp only [Url.setMalicious, Exec.run_modify, Prod.mk.injEq, true_and] at h
  subst h
  rw [verdicts_setVisit, if_pos rfl]

theorem leaveGroup_unjudged (c : ClientRef) :
    (Client.leaveGroup c .disconnected).Within Unjudged := by
  refine ⟨fun s => ?_⟩
  rw [Client.leaveGroup, Client.setClientState_disconnected]
  simp only [Exec.run_modify_bind]
  by_cases hd : (s.client c).clientState = .disconnected
  · have hd' : ((s.setClient c fun x => { x with visitingUrlGroup := none }).client c).clientState =
        .disconnected := by simpa [ServerState.setClient] using hd
    simp only [Client.drop, Exec.run_gets_bind, hd', ne_eq, not_true_eq_false, if_false,
      Exec.run_pure]
    rfl
  · rw [Client.run_drop_idle (by simp [ServerState.setClient])
      (by simpa [ServerState.setClient] using hd)]
    show verdicts (Client.lost c _) = _
    rw [Client.lost]
    cases ((s.setClient c fun x => { x with visitingUrlGroup := none }).client c).virtualMachine <;>
      rfl

end Judged

/-! ## The trees that answer -/

/-- Some tree with one of the roots is reported for the process id. -/
def Answered (roots : List ProcessStateChange) (processId : Int) : Prop :=
  (∃ root ∈ roots, answersTo processId root) ∨ (roots.length = 1 ∧ processId = 0)

instance (roots : List ProcessStateChange) (processId : Int) :
    Decidable (Answered roots processId) := inferInstanceAs (Decidable (_ ∨ _))

theorem treeOf_isSome (h : StateChangeHandler) (processId : Int) :
    (h.treeOf processId).isSome ↔ Answered h.roots processId := by
  rw [treeOf]
  split
  · next t ht =>
      have hroot : answersTo processId t.root = true :=
        List.find?_some (p := fun t : ProcessTree => answersTo processId t.root) ht
      exact ⟨fun _ => .inl ⟨t.root, List.mem_map_of_mem (List.mem_of_find?_eq_some ht), hroot⟩,
        fun _ => rfl⟩
  · next hnone =>
      rw [List.find?_eq_none] at hnone
      have hno : ¬ ∃ root ∈ h.roots, answersTo processId root := by
        rintro ⟨root, hmem, hroot⟩
        obtain ⟨t, ht, rfl⟩ := List.mem_map.mp hmem
        exact hnone t ht hroot
      rw [Answered, or_iff_right hno, roots, List.length_map]
      split
      · next hlen =>
          obtain ⟨t, ht⟩ := List.length_eq_one_iff.mp hlen.1
          simp [ht, hlen.2]
      · next hlen => simp [hlen]

theorem csvOf_ne_empty {scs : List StateChange} (h : scs ≠ []) : csvOf scs ≠ "" := by
  cases scs with
  | nil => exact absurd rfl h
  | cons sc scs =>
      rw [csvOf, List.map_cons, String.join_cons, ne_eq, String.append_eq_empty_iff]
      exact fun he => StateChange.toCSV_ne_empty sc he.1

/-- A report is empty when there is no tree to report. -/
theorem getStateChangesCSV_ne_empty (h : StateChangeHandler) (processId : Int) :
    h.getStateChangesCSV processId ≠ "" ↔ Answered h.roots processId := by
  rw [← treeOf_isSome, getStateChangesCSV, getStateChanges]
  cases h.treeOf processId with
  | none => simp [csvOf]
  | some t =>
      refine ⟨fun _ => rfl, fun _ => ?_⟩
      show csvOf (ProcessTree.getAllStateChanges t) ≠ ""
      refine csvOf_ne_empty fun hnil => ?_
      have hroot : Sum.inr t.root ∈ ProcessTree.getAllStateChanges t :=
        (ProcessTree.getAllStateChanges_perm t).mem_iff.mpr
          ((KeyedForest.mem_elems_inr t).mpr (KeyedForest.root_mem_values t))
      rw [hnil] at hroot
      exact absurd hroot List.not_mem_nil

/-! ## A whole visit -/

/-- The messages of a visit; an event comes with the number of its message. -/
structure Visit where
  start : Element
  events : List (Element × Nat)
  last : Element

def handleVisit (c : ClientRef) (v : Visit) : Action Unit := do
  Client.parseVisitEvent c v.start
  v.events.forM fun event => Client.parseEvent c event.1 event.2
  Client.parseVisitEvent c v.last

/-- The last message ends the visit and says that it was malicious. -/
structure EndsVisit (last : Element) : Prop where
  type : last.get "type" = some "finish" ∨
    (last.get "type" = some "error" ∧
      ∃ major, last.get "error-code" = some major ∧ Client.isErrorToRetry major = false)
  malicious : last.get "malicious" = some "1"

/-- The messages of a visit with an algorithm during which the client saw an event. -/
structure MaliciousVisit (algorithm : String) (v : Visit) : Prop where
  start : v.start.get "type" = some "start"
  startAlgorithm : v.start.get "algorithm" = some algorithm
  events : v.events ≠ []
  ends : EndsVisit v.last
  lastAlgorithm : v.last.get "algorithm" = some algorithm

/-- The changes that `parseEvent` makes of the events. -/
def parsed (events : List (Element × Nat)) : List StateChange :=
  events.filterMap fun event =>
    match Client.stateChangeOf event.1 event.2 with
    | .ok sc => sc
    | .error _ => none

/-- The changes that reach the handler of the client: none for a single URL. -/
def filed (group : UrlGroup) (events : List (Element × Nat)) : List StateChange :=
  if 1 < group.size then parsed events else []

section Kept
variable {c : ClientRef} {g : GroupRef}

instance (priority := low) {α : Type} {x : Action α} [h : x.Within StoreOnly] :
    x.Within (VisitKept g) := Exec.Within.mono (fun _ _ => StoreOnly.visitKept) h

theorem updateGroup_kept {f : UrlGroup → UrlGroup} (h : ∀ x, (f x).urlList = x.urlList) :
    (updateGroup g f).Within (VisitKept g) := by
  refine ⟨fun s => ⟨rfl, ?_, rfl⟩⟩
  show (Function.update s.group g (f (s.group g)) g).urlList = _
  rw [Function.update_self, h]

instance (algorithm : Option String) (malicious : Bool) (map : Option StringMap) :
    (UrlGroup.setMalicious g algorithm malicious map).Within (VisitKept g) := by
  have hgroup : (updateGroup g fun x => { x with malicious }).Within (VisitKept g) :=
    updateGroup_kept fun _ => rfl
  have hsingle : ∀ urlList : List UrlRef, (match urlList with
      | [u] => Url.setMalicious u true
      | _ => pure () : Action Unit).Within (VisitKept g) := by
    intro urlList
    split <;> infer_instance
  unfold UrlGroup.setMalicious
  infer_instance

instance (event : String) : (UrlGroup.writeEventToLog g event).Within (VisitKept g) := by
  have happend : (UrlGroup.appendToLog g event).Within (VisitKept g) :=
    updateGroup_kept fun _ => rfl
  unfold UrlGroup.writeEventToLog
  refine Exec.Within.bind inferInstance fun group => ?_
  split <;> infer_instance

instance (algorithm : String) (element : Element) :
    (Client.reportEvent c g algorithm element).Within (VisitKept g) := by
  unfold Client.reportEvent
  infer_instance

instance : (UrlGroup.setUrlGroupState g .visiting).Within (VisitKept g) := by
  refine ⟨fun s => ?_⟩
  cases hrun : (UrlGroup.setUrlGroupState g .visiting).run s with
  | mk r s' =>
      obtain ⟨hgroup, -, -⟩ := of_run_setUrlGroupState_visiting hrun
      have hframe : GroupsOnly s s' := Exec.Within.of_run hrun
      refine ⟨by rw [hframe], ?_, by rw [hframe]⟩
      rw [hgroup]
      simp [ServerState.setGroup, UrlGroup.enter]

instance (time : Option String) : (UrlGroup.setVisitStartTime g time).Within (VisitKept g) := by
  have := fun date => updateGroup_kept (g := g)
    (f := fun x => { x with visitStartTime := some date }) fun _ => rfl
  unfold UrlGroup.setVisitStartTime
  infer_instance

instance (time : Option String) : (UrlGroup.setVisitFinishTime g time).Within (VisitKept g) := by
  have := fun date => updateGroup_kept (g := g)
    (f := fun x => { x with visitFinishTime := some date }) fun _ => rfl
  unfold UrlGroup.setVisitFinishTime
  infer_instance

instance (algorithm : Option String) : (UrlGroup.setAlgorithm g algorithm).Within (VisitKept g) :=
  updateGroup_kept fun _ => rfl

instance (item : Element) : (Client.startItem g item).Within (VisitKept g) := by
  unfold Client.startItem
  infer_instance

end Kept

section Messages
variable {c : ClientRef} {g : GroupRef} {algorithm : String}

/-- The client visits the group with the algorithm. -/
structure Visiting (c : ClientRef) (g : GroupRef) (algorithm : String) (s : ServerState) :
    Prop where
  clientState : (s.client c).clientState = .visiting
  visitingUrlGroup : (s.client c).visitingUrlGroup = some g
  algorithm : (s.client c).algorithm = some algorithm

/-- The client after the start message. -/
def begun (algorithm : Option String) (x : Client) : Client :=
  { x with algorithm, clientState := .visiting }

theorem of_run_start {element : Element} {s s' : ServerState}
    (hg : (s.client c).visitingUrlGroup = some g) (htype : element.get "type" = some "start")
    (h : (Client.parseVisitEvent c element).run s = (.ok (), s')) :
    VisitKept g (s.setClient c (begun (element.get "algorithm"))) s' := by
  simp only [Client.parseVisitEvent, Exec.run_modify_bind, htype, Exec.orThrow_some,
    Exec.pure_bind, if_true] at h
  rw [Client.parseStart] at h
  simp only [Exec.run_gets_bind] at h
  obtain ⟨_, -, h₁⟩ := of_run_deref_bind h
  obtain ⟨g', hg', h₂⟩ := of_run_deref_bind h₁
  obtain rfl : g = g' := by simpa [ServerState.setClient, hg] using hg'
  obtain ⟨_, s₁, k₁, h₃⟩ := Exec.of_run_bind_ok h₂
  obtain ⟨_, s₂, k₂, h₄⟩ := Exec.of_run_bind_ok h₃
  obtain ⟨_, s₃, k₃, h₅⟩ := Exec.of_run_bind_ok h₄
  obtain ⟨_, s₄, k₄, h₆⟩ := Exec.of_run_bind_ok h₅
  rw [Client.run_setClientState_visiting] at h₆
  obtain rfl := congrArg Prod.snd h₆
  have hkept : VisitKept g (s.setClient c fun x => { x with algorithm := element.get "algorithm" })
      s₄ :=
    IsTrans.trans _ _ _ (Exec.Within.of_run k₁) <| IsTrans.trans _ _ _ (Exec.Within.of_run k₂) <|
      IsTrans.trans _ _ _ (Exec.Within.of_run k₃) (Exec.Within.of_run k₄)
  refine ⟨?_, hkept.urlList, hkept.url⟩
  simp [ServerState.setClient, hkept.client, begun]

/-- The client after changes were filed. -/
def file (scs : List StateChange) (x : Client) : Client :=
  { x with stateChangeHandler := x.stateChangeHandler.addAll scs }

theorem setClient_file_nil (s : ServerState) : s.setClient c (file []) = s := by
  rw [ServerState.setClient]
  exact congrArg (fun f => { s with client := f }) (Function.update_eq_self c s.client)

theorem setClient_file_append (s : ServerState) (scs scs' : List StateChange) :
    (s.setClient c (file scs)).setClient c (file scs') = s.setClient c (file (scs ++ scs')) := by
  simp [ServerState.setClient, file, addAll]

theorem of_run_keepStateChange {element : Element} {origin : Nat} {s s' : ServerState}
    (h : (Client.keepStateChange c element origin).run s = (.ok (), s')) :
    s' = s.setClient c (file (parsed [(element, origin)])) := by
  rw [Client.keepStateChange] at h
  cases hsc : Client.stateChangeOf element origin with
  | error e =>
      rw [hsc] at h
      exact absurd (congrArg Prod.fst h) nofun
  | ok sc =>
      rw [hsc] at h
      cases sc with
      | none =>
          simp only [Exec.run_gets_bind] at h
          obtain ⟨_, -, h₁⟩ := of_run_deref_bind h
          obtain rfl : s = s' := congrArg Prod.snd h₁
          simp [parsed, hsc, setClient_file_nil]
      | some sc =>
          obtain rfl := congrArg Prod.snd h
          have hparsed : parsed [(element, origin)] = [sc] := by simp [parsed, hsc]
          rw [hparsed]
          rfl

/-- The groups of the claim: a single URL, or several with bulk. -/
def InScope (algorithm : String) (group : UrlGroup) : Prop :=
  group.size = 1 ∨ (1 < group.size ∧ algorithm = "bulk")

theorem of_run_parseEvent {element : Element} {origin : Nat} {s s' : ServerState}
    (hv : Visiting c g algorithm s) (hscope : InScope algorithm (s.group g))
    (h : (Client.parseEvent c element origin).run s = (.ok (), s')) :
    VisitKept g (s.setClient c (file (filed (s.group g) [(element, origin)]))) s' := by
  simp only [Client.parseEvent, Exec.run_gets_bind, hv.clientState, if_true, hv.algorithm,
    Exec.orThrow_some, Exec.pure_bind, hv.visitingUrlGroup] at h
  rcases hscope with hone | ⟨hmany, rfl⟩
  · have hsmall : ¬ 1 < (s.group g).size := by omega
    simp only [hsmall, decide_false, Bool.and_false, Bool.false_eq_true, if_false,
      Exec.run_gets_bind] at h
    rw [filed, if_neg hsmall, setClient_file_nil]
    exact Exec.Within.of_run h
  · simp only [hmany, decide_true, Bool.and_true, if_true] at h
    rw [filed, if_pos hmany, of_run_keepStateChange h]
    exact Std.Refl.refl _

theorem filed_cons (group : UrlGroup) (event : Element × Nat) (events : List (Element × Nat)) :
    filed group (event :: events) = filed group [event] ++ filed group events := by
  by_cases h : 1 < group.size
  · simp only [filed, if_pos h, parsed, ← List.filterMap_append]
    rfl
  · simp only [filed, if_neg h, List.append_nil]

theorem filed_congr {group group' : UrlGroup} (h : group'.urlList = group.urlList)
    (events : List (Element × Nat)) : filed group' events = filed group events := by
  rw [filed, filed, UrlGroup.size, UrlGroup.size, h]

theorem InScope.congr {group group' : UrlGroup} (h : group'.urlList = group.urlList)
    (hscope : InScope algorithm group) : InScope algorithm group' := by
  rwa [InScope, UrlGroup.size, h]

theorem VisitKept.setClient {s s' : ServerState} (h : VisitKept g s s') (f : Client → Client) :
    VisitKept g (s.setClient c f) (s'.setClient c f) := by
  refine ⟨?_, h.urlList, h.url⟩
  simp only [ServerState.setClient, h.client]

theorem Visiting.filed {s s' : ServerState} {scs : List StateChange} (hv : Visiting c g algorithm s)
    (h : VisitKept g (s.setClient c (file scs)) s') : Visiting c g algorithm s' := by
  have hclient : s'.client c = file scs (s.client c) := by
    rw [h.client]
    exact Function.update_self ..
  constructor <;> rw [hclient]
  · exact hv.clientState
  · exact hv.visitingUrlGroup
  · exact hv.algorithm

theorem of_run_events : ∀ {events : List (Element × Nat)} {s s' : ServerState},
    Visiting c g algorithm s → InScope algorithm (s.group g) →
    (events.forM fun event => Client.parseEvent c event.1 event.2).run s = (.ok (), s') →
      VisitKept g (s.setClient c (file (filed (s.group g) events))) s'
  | [], s, s', _, _, h => by
      obtain rfl : s = s' := congrArg Prod.snd h
      have hnone : CaptureHpc.Server.filed (s.group g) [] = [] := by simp [filed, parsed]
      rw [hnone, setClient_file_nil]
      exact Std.Refl.refl _
  | event :: events, s, s', hv, hscope, h => by
      obtain ⟨_, s₁, hevent, hevents⟩ := Exec.of_run_bind_ok h
      have hstep := of_run_parseEvent hv hscope hevent
      have ih := of_run_events (hv.filed hstep) (hscope.congr hstep.urlList) hevents
      rw [filed_congr hstep.urlList] at ih
      rw [filed_cons, ← setClient_file_append]
      exact IsTrans.trans _ _ _ (hstep.setClient _) ih

/-! ## The last message -/

theorem of_run_judged {flush : Action Unit} [flush.Within (VisitKept g)] {map : StringMap}
    {s s' : ServerState}
    (h : (do
      flush
      UrlGroup.setMalicious g (some algorithm) true (some map)
      UrlGroup.setUrlGroupState g .visited
      Client.leaveGroup c .disconnected : Action Unit).run s = (.ok (), s')) :
    ∃ s₁ s₂, VisitKept g s s₁ ∧
      (UrlGroup.setMalicious g (some algorithm) true (some map)).run s₁ = (.ok (), s₂) ∧
        verdicts s' = verdicts s₂ := by
  obtain ⟨_, s₁, hflush, h₁⟩ := Exec.of_run_bind_ok h
  obtain ⟨_, s₂, hjudge, h₂⟩ := Exec.of_run_bind_ok h₁
  obtain ⟨_, s₃, hstate, h₃⟩ := Exec.of_run_bind_ok h₂
  have hvisited : Unjudged s₂ s₃ := Exec.Within.of_run hstate
  have hleft : Unjudged s₃ s' := (leaveGroup_unjudged c).of_run h₃
  exact ⟨s₁, s₂, Exec.Within.of_run hflush, hjudge, hleft.trans hvisited⟩

instance (map : StringMap) :
    (Client.flushBulk g (some algorithm) map).Within (VisitKept g) := by
  unfold Client.flushBulk
  infer_instance

theorem of_run_parseFinish {element : Element} {s s' : ServerState}
    (hg : (s.client c).visitingUrlGroup = some g)
    (halgorithm : (s.client c).algorithm = some algorithm)
    (hmalicious : element.get "malicious" = some "1")
    (h : (Client.parseFinish c element).run s = (.ok (), s')) :
    ∃ map s₁ s₂, map.map some = (element.childElements.map (itemEntry s c g)).reverse ∧
      VisitKept g s s₁ ∧
        (UrlGroup.setMalicious g (some algorithm) true (some map)).run s₁ = (.ok (), s₂) ∧
          verdicts s' = verdicts s₂ := by
  rw [Client.parseFinish] at h
  simp only [Exec.run_gets_bind, hg, Exec.orThrow_some, Exec.pure_bind, halgorithm] at h
  obtain ⟨_, s₁, htime, h₁⟩ := Exec.of_run_bind_ok h
  have k₁ : VisitKept g s s₁ := Exec.Within.of_run htime
  obtain ⟨⟨processIds, map⟩, s₂, hitems, h₂⟩ := Exec.of_run_bind_ok h₁
  have k₂ : VisitKept g s₁ s₂ := Exec.Within.of_run hitems
  have hmap := of_run_endItems hitems
  have hentry : itemEntry s₁ c g = itemEntry s c g :=
    funext <| itemEntry_congr k₁.urlList k₁.url (by rw [k₁.client])
  rw [hentry] at hmap
  -- the flag of the group and the attribute of the message lead to one branch
  simp only [Exec.run_gets_bind, hmalicious, Exec.orThrow_some, Exec.pure_bind,
    beq_self_eq_true, if_true, ite_self] at h₂
  obtain ⟨_, -, h₃⟩ := of_run_deref_bind h₂
  obtain ⟨s₃, s₄, k₃, hjudge, hverdicts⟩ := of_run_judged h₃
  exact ⟨map, s₃, s₄, hmap, IsTrans.trans _ _ _ (IsTrans.trans _ _ _ k₁ k₂) k₃, hjudge, hverdicts⟩

theorem of_run_parseError {element : Element} {major : String} {s s' : ServerState}
    (hg : (s.client c).visitingUrlGroup = some g)
    (halgorithm : (s.client c).algorithm = some algorithm)
    (hmajor : element.get "error-code" = some major)
    (hretry : Client.isErrorToRetry major = false)
    (hmalicious : element.get "malicious" = some "1")
    (h : (Client.parseError c element).run s = (.ok (), s')) :
    ∃ map s₁ s₂, map.map some = (element.childElements.map (itemEntry s c g)).reverse ∧
      VisitKept g s s₁ ∧
        (UrlGroup.setMalicious g (some algorithm) true (some map)).run s₁ = (.ok (), s₂) ∧
          verdicts s' = verdicts s₂ := by
  simp only [Client.parseError, Exec.run_gets_bind, hg] at h
  have hitems : (Client.endItems c g [""] element.childElements >>= fun ended => do
      let major ← deref (element.get "error-code")
      let _ ← deref (s.client c).virtualMachine
      let g ← deref (some g)
      if Client.isErrorToRetry major then Client.retryError c g element ended.2 major
      else Client.finalError c g element ended.2).run s = (.ok (), s') := by
    cases hel : element.childElements <;> (rw [hel] at h; exact h)
  obtain ⟨⟨processIds, map⟩, s₁, hended, h₁⟩ := Exec.of_run_bind_ok hitems
  have k₁ : VisitKept g s s₁ := Exec.Within.of_run hended
  simp only [hmajor, Exec.orThrow_some, Exec.pure_bind] at h₁
  obtain ⟨_, -, h₂⟩ := of_run_deref_bind h₁
  simp only [hretry, Bool.false_eq_true, if_false, Client.finalError, Exec.run_gets_bind,
    hmalicious, Exec.orThrow_some, Exec.pure_bind, if_true, k₁.client, halgorithm] at h₂
  obtain ⟨s₃, s₄, k₃, hjudge, hverdicts⟩ := of_run_judged h₂
  exact ⟨map, s₃, s₄, of_run_endItems hended, IsTrans.trans _ _ _ k₁ k₃, hjudge, hverdicts⟩

/-- What the last message comes to. -/
theorem of_run_last {element : Element} {s s' : ServerState}
    (hg : (s.client c).visitingUrlGroup = some g) (hends : EndsVisit element)
    (halgorithm : element.get "algorithm" = some algorithm)
    (h : (Client.parseVisitEvent c element).run s = (.ok (), s')) :
    ∃ map s₁ s₂, map.map some = (element.childElements.map (itemEntry s c g)).reverse ∧
      (s₁.group g).urlList = (s.group g).urlList ∧ s₁.url = s.url ∧
        (UrlGroup.setMalicious g (some algorithm) true (some map)).run s₁ = (.ok (), s₂) ∧
          verdicts s' = verdicts s₂ := by
  rw [Client.parseVisitEvent] at h
  simp only [Exec.run_modify_bind] at h
  have hg₁ : ((s.setClient c fun x => { x with algorithm := element.get "algorithm" }).client
      c).visitingUrlGroup = some g := by simpa [ServerState.setClient] using hg
  have halg₁ : ((s.setClient c fun x => { x with algorithm := element.get "algorithm" }).client
      c).algorithm = some algorithm := by simpa [ServerState.setClient] using halgorithm
  have hentry : itemEntry (s.setClient c fun x => { x with algorithm := element.get "algorithm" })
      c g = itemEntry s c g :=
    funext <| itemEntry_congr rfl rfl (by simp [ServerState.setClient])
  rcases hends.type with htype | ⟨htype, major, hmajor, hretry⟩
  · rw [htype] at h
    obtain ⟨map, s₁, s₂, hmap, hkept, hjudge, hverdicts⟩ :=
      of_run_parseFinish hg₁ halg₁ hends.malicious h
    rw [hentry] at hmap
    exact ⟨map, s₁, s₂, hmap, hkept.urlList, hkept.url, hjudge, hverdicts⟩
  · rw [htype] at h
    obtain ⟨map, s₁, s₂, hmap, hkept, hjudge, hverdicts⟩ :=
      of_run_parseError hg₁ halg₁ hmajor hretry hends.malicious h
    rw [hentry] at hmap
    exact ⟨map, s₁, s₂, hmap, hkept.urlList, hkept.url, hjudge, hverdicts⟩

/-- The judgement of a bulk group: the process id reported for the URL has a tree. -/
theorem judgement_iff {s : ServerState} {map : StringMap} {items : List Element} {u : UrlRef}
    (hmap : map.map some = (items.map (itemEntry s c g)).reverse) :
    judgement map s u = some true ↔ ∃ processId, reportedId s g items u = some processId ∧
      Answered (s.client c).stateChangeHandler.roots processId := by
  rw [← List.map_reverse] at hmap
  have hreported : (items.reverse.find? fun item => (namedUrl s g item).map
      (fun w => Url.getUrl (s.url w)) = some (Url.getUrl (s.url u))).bind itemProcessId =
        reportedId s g items u := rfl
  rw [judgement, lookup_map hmap, hreported]
  cases reportedId s g items u with
  | none => simp
  | some processId => simp [← getStateChangesCSV_ne_empty]

/-- **When a URL of the group ends malicious.**  A visit of a single URL, or of several with
bulk, during which the client saw an event: with bulk the last message must report a process id
that one of the trees answers, and the events of a single URL open no tree. -/
theorem ends_malicious_iff {v : Visit} {s s' : ServerState} (hvisit : MaliciousVisit algorithm v)
    (hg : (s.client c).visitingUrlGroup = some g) (hscope : InScope algorithm (s.group g))
    (hrun : (handleVisit c v).run s = (.ok (), s')) :
    (∃ u ∈ (s.group g).urlList, verdicts s' u = some true) ↔
      algorithm ≠ "bulk" ∨ ∃ u ∈ (s.group g).urlList, ∃ processId,
        reportedId s g v.last.childElements u = some processId ∧
          Answered ((s.client c).stateChangeHandler.roots ++
            openersFrom (s.client c).stateChangeHandler.processIds
              (filed (s.group g) v.events)) processId := by
  obtain ⟨_, s₁, hstart, h₁⟩ := Exec.of_run_bind_ok hrun
  obtain ⟨_, s₂, hevents, hlast⟩ := Exec.of_run_bind_ok h₁
  have k₁ := of_run_start hg hvisit.start hstart
  have hclient₁ : s₁.client c = begun (some algorithm) (s.client c) := by
    rw [k₁.client, hvisit.startAlgorithm]
    exact Function.update_self ..
  have hvisiting : Visiting c g algorithm s₁ := by
    constructor <;> rw [hclient₁]
    · rfl
    · exact hg
    · rfl
  have k₂ := of_run_events hvisiting (hscope.congr k₁.urlList) hevents
  have hclient₂ : (s₂.client c).stateChangeHandler =
      (s.client c).stateChangeHandler.addAll (filed (s.group g) v.events) := by
    rw [k₂.client]
    show (Function.update s₁.client c (file _ (s₁.client c)) c).stateChangeHandler = _
    rw [Function.update_self, hclient₁, filed_congr k₁.urlList]
    rfl
  have hlist : (s₂.group g).urlList = (s.group g).urlList := k₂.urlList.trans k₁.urlList
  have hurl : s₂.url = s.url := k₂.url.trans k₁.url
  obtain ⟨map, s₃, s₄, hmap, hlist₃, hurl₃, hjudge, hverdicts⟩ :=
    of_run_last (hvisiting.filed k₂).visitingUrlGroup hvisit.ends hvisit.lastAlgorithm hlast
  rw [hverdicts]
  by_cases hbulk : algorithm = "bulk"
  · subst hbulk
    have hroots : (s₂.client c).stateChangeHandler.roots = (s.client c).stateChangeHandler.roots ++
        openersFrom (s.client c).stateChangeHandler.processIds (filed (s.group g) v.events) := by
      rw [hclient₂]
      exact roots_addAll _ _ _ fun _ => Iff.rfl
    rw [← hroots, or_iff_right fun hne => hne rfl]
    refine exists_congr fun u => and_congr_right fun hu => ?_
    rw [← reportedId_congr hlist hurl, ← judgement_iff hmap]
    have hsame : judgement map s₃ u = judgement map s₂ u := by rw [judgement, hurl₃, judgement]
    rw [(of_run_setMalicious_bulk hjudge u (by rwa [hlist₃, hlist])).2, hsame]
  · rw [iff_true_right (.inl hbulk)]
    obtain ⟨u, hu⟩ := List.length_eq_one_iff.mp (hscope.resolve_right fun h => hbulk h.2)
    refine ⟨u, by simp [hu], ?_⟩
    exact of_run_setMalicious_single hbulk (by rw [hlist₃, hlist, hu]) hjudge

end Messages

/-! ## Two visits -/

/-- One URL, or two, in the group that client 0 is to visit on machine 0. -/
def atVisit (urlList : List UrlRef) : ServerState where
  config := {}
  url u := { id := toString u, url := if u = 0 then "http://a" else "http://b"
             clientProgram := "iexplore", visitTime := 30 }
  store := { visit := fun _ => {} }
  group _ := { urlList, clientProgram := "iexplore", visitTime := 30 }
  nextGroup := 1
  client _ := { clientState := .awaitingVisiting, visitingUrlGroup := some 0
                virtualMachine := some 0 }
  vm _ := { vmState := .running, client := some 0 }
  urlQueue := []
  urlGroupQueue := []
  visitingList := []

def visitTimeOf (url processId : String) : Element where
  name := "item"
  attributes := [("url", url), ("time", "1/1/2008 0:0:0.0"), ("processId", processId),
    ("major-error-code", "0"), ("minor-error-code", "0")]

def visitMessage (type algorithm : String) (items : List Element) : Element where
  name := "visit-event"
  attributes := [("type", type), ("time", "1/1/2008 0:0:0.0"), ("algorithm", algorithm),
    ("malicious", "1")]
  childElements := items

/-- A process writes a file. -/
def writeEvent (processId : String) : Element where
  name := "system-event"
  attributes := [("type", "file"), ("time", "1/1/2008 0:0:0.0"), ("processId", processId),
    ("process", "a.exe"), ("action", "Write"), ("object1", "b"), ("object2", "")]

def bulkVisit (items : List Element) : Visit where
  start := visitMessage "start" "bulk" items
  events := [(writeEvent "231", 1)]
  last := visitMessage "finish" "bulk" items

theorem bulkVisit_malicious (items : List Element) : MaliciousVisit "bulk" (bulkVisit items) :=
  ⟨rfl, rfl, List.cons_ne_nil _ _, ⟨.inl rfl, rfl⟩, rfl⟩

/-- A single URL that did something in a bulk visit ends benign. -/
theorem bulk_single_benign :
    ¬ ∀ (algorithm : String) (v : Visit) (c : ClientRef) (g : GroupRef) (s s' : ServerState),
        MaliciousVisit algorithm v → (s.client c).visitingUrlGroup = some g →
          InScope algorithm (s.group g) → (handleVisit c v).run s = (.ok (), s') →
            ∃ u ∈ (s.group g).urlList, verdicts s' u = some true := by
  intro h
  obtain ⟨u, hu, hverdict⟩ := h "bulk" (bulkVisit [visitTimeOf "http%3A%2F%2Fa" "231"]) 0 0
    (atVisit [0]) _ (bulkVisit_malicious _) rfl (.inl rfl) rfl
  obtain rfl := List.mem_singleton.mp hu
  exact absurd hverdict (by decide)

def pairItems : List Element :=
  [visitTimeOf "http%3A%2F%2Fa" "231", visitTimeOf "http%3A%2F%2Fb" "4"]

theorem bulk_pair_malicious :
    ∃ u ∈ [0, 1],
      verdicts ((handleVisit 0 (bulkVisit pairItems)).run (atVisit [0, 1])).2 u = some true := by
  have hreturns : ((handleVisit 0 (bulkVisit pairItems)).run (atVisit [0, 1])).1.isOk = true := by
    decide +kernel
  refine (ends_malicious_iff (c := 0) (g := 0) (v := bulkVisit pairItems) (s := atVisit [0, 1])
    (bulkVisit_malicious _) rfl (.inr ⟨by decide, rfl⟩) (Exec.run_of_isOk hreturns)).mpr
      (.inr ⟨0, List.mem_cons_self, 231, ?_, ?_⟩)
  · decide +kernel
  · decide

end CaptureHpc.Server
