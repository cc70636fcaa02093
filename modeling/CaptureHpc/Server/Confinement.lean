/-
# `Server.Confinement` — whose URLs a step may change

A thread acts for a client, and works on the group that the client has.  Nothing
that it does there reaches a URL of another group: `Confined` is kept by each part
of a message, of a disconnect and of a check, and `confined_does` says it of every
step of the server.
-/
import CaptureHpc.Server.Handling
import CaptureHpc.Server.System

namespace CaptureHpc.Server

open Java

/-! ## One URL -/

/-- Of the URLs only this one changes. -/
abbrev OnlyUrl (u : UrlRef) : ServerState → ServerState → Prop :=
  Exec.Same fun s (w : { w // w ≠ u }) => s.visit w

section One
variable (u : UrlRef)

instance (f : UrlVisit → UrlVisit) :
    (Exec.modify (ServerState.setVisit u f) : Action Unit).Within (OnlyUrl u) :=
  ⟨fun _ => funext fun w => Function.update_of_ne w.property ..⟩

instance (line : LogLine) :
    (Exec.modify (ServerState.writeLog line) : Action Unit).Within (OnlyUrl u) := ⟨fun _ => rfl⟩

instance (call : DatabaseCall) :
    (Exec.modify (ServerState.callDatabase call) : Action Unit).Within (OnlyUrl u) := ⟨fun _ => rfl⟩

instance (time : Option String) : (Url.setVisitStartTime u time).Within (OnlyUrl u) := by
  unfold Url.setVisitStartTime
  infer_instance

instance (time : Option String) : (Url.setVisitFinishTime u time).Within (OnlyUrl u) := by
  unfold Url.setVisitFinishTime
  infer_instance

instance (malicious : Bool) : (Url.setMalicious u malicious).Within (OnlyUrl u) := by
  unfold Url.setMalicious
  infer_instance

instance (n : Int) : (Url.setMajorErrorCode u n).Within (OnlyUrl u) := by
  unfold Url.setMajorErrorCode
  infer_instance

instance (n : Int) : (Url.setMinorErrorCode u n).Within (OnlyUrl u) := by
  unfold Url.setMinorErrorCode
  infer_instance

instance : (Url.openLog u).Within (OnlyUrl u) := by
  unfold Url.openLog
  infer_instance

instance (event : String) : (Url.noteFirstStateChange u event).Within (OnlyUrl u) := by
  have hdate : ∀ text, (match parseDate text with
      | some date => do
        updateVisit u fun x => { x with firstStateChange := some date }
        return true
      | none => return false : Action Bool).Within (OnlyUrl u) := by
    intro text
    cases parseDate text <;> infer_instance
  unfold Url.noteFirstStateChange
  infer_instance

instance (event : String) : (Url.appendToLog u event).Within (OnlyUrl u) := by
  unfold Url.appendToLog
  infer_instance

instance (event : String) : (Url.writeEventToLog u event).Within (OnlyUrl u) := by
  unfold Url.writeEventToLog
  infer_instance

instance : (Url.closeEventLog u).Within (OnlyUrl u) := by
  unfold Url.closeEventLog
  infer_instance

instance : (UrlsController.update u).Within (OnlyUrl u) := by
  have hlist : (Exec.modify fun s : ServerState => { s with store :=
      { s.store with errorUrlList := s.store.errorUrlList ++ [u] } } : Action Unit).Within
        (OnlyUrl u) := ⟨fun _ => rfl⟩
  unfold UrlsController.update
  infer_instance

instance (newState : UrlState) : (Url.setUrlState u newState).Within (OnlyUrl u) := by
  unfold Url.setUrlState
  cases newState <;> infer_instance

instance (g : GroupRef) (newState : UrlGroupState) :
    (UrlGroup.passOn g newState u).Within (OnlyUrl u) := by
  unfold UrlGroup.passOn
  cases newState <;> infer_instance

instance (group : UrlGroup) : (UrlGroupsController.failUrl group u).Within (OnlyUrl u) := by
  unfold UrlGroupsController.failUrl
  infer_instance

instance (malicious : Bool) (map : Option StringMap) :
    (UrlGroup.setMaliciousFromMap malicious map u).Within (OnlyUrl u) := by
  unfold UrlGroup.setMaliciousFromMap
  cases map <;> infer_instance

instance (noError : List String) (item : Element) :
    (Client.storeItemCodes u noError item).Within (OnlyUrl u) := by
  unfold Client.storeItemCodes
  infer_instance

end One

/-! ## The URLs of a group -/

/-- The client has no other group than `o`, whose URLs are among `l`. -/
structure Among (l : List UrlRef) (c : ClientRef) (o : Option GroupRef) (s : ServerState) : Prop where
  group : (s.client c).visitingUrlGroup = none ∨ (s.client c).visitingUrlGroup = o
  urls : ∀ g, o = some g → (s.group g).urlList ⊆ l

/-- This stays, and no URL changes that is not among `l`. -/
def Confined (l : List UrlRef) (c : ClientRef) (o : Option GroupRef) (s s' : ServerState) : Prop :=
  Among l c o s → Among l c o s' ∧ ∀ w ∉ l, s'.visit w = s.visit w

section Group
variable {l : List UrlRef} {c : ClientRef} {g : GroupRef} {o : Option GroupRef}

instance : Std.Refl (Confined l c o) := ⟨fun _ h => ⟨h, fun _ _ => rfl⟩⟩

instance : IsTrans ServerState (Confined l c o) := by
  refine ⟨fun s s' s'' h h' hs => ?_⟩
  obtain ⟨hs', hsame⟩ := h hs
  obtain ⟨hs'', hsame'⟩ := h' hs'
  exact ⟨hs'', fun w hw => (hsame' w hw).trans (hsame w hw)⟩

/-- What is read of the client. -/
theorem confined_client {α : Type} {f : Client → Action α}
    (h : ∀ x : Client, x.visitingUrlGroup = none ∨ x.visitingUrlGroup = o →
      (f x).Within (Confined l c o)) : (readClient c >>= f).Within (Confined l c o) :=
  ⟨fun s hs => (h _ hs.group).post s hs⟩

/-- What is read of the group. -/
theorem confined_group {α : Type} {f : UrlGroup → Action α}
    (h : ∀ x : UrlGroup, x.urlList ⊆ l → (f x).Within (Confined l c (some g))) :
    (readGroup g >>= f).Within (Confined l c (some g)) :=
  ⟨fun s hs => (h _ (hs.urls g rfl)).post s hs⟩

/-- A URL that is found in the group. -/
theorem confined_getUrl {α : Type} {uri : String} {f : UrlRef → Action α}
    (h : ∀ u ∈ l, (f u).Within (Confined l c (some g))) :
    (UrlGroup.getUrl g uri >>= f).Within (Confined l c (some g)) := by
  refine ⟨fun s hs => ?_⟩
  have hstore : (UrlGroup.getUrl g uri).Within (Exec.Same id) := by
    unfold UrlGroup.getUrl
    infer_instance
  rw [Exec.run_bind]
  split
  · next u s₁ he =>
      obtain ⟨rfl, hu⟩ := of_run_getUrl he
      obtain ⟨_, -, hfind⟩ := Option.bind_eq_some_iff.mp hu
      exact (h u (hs.urls g rfl (List.mem_of_find?_eq_some hfind))).post s₁ hs
  · next e s₁ he =>
      obtain rfl : s₁ = s := hstore.of_run he
      exact ⟨hs, fun _ _ => rfl⟩

theorem confined_url {α : Type} {u : UrlRef} (hu : u ∈ l) {x : Action α} [hx : x.Within StoreOnly]
    [honly : x.Within (OnlyUrl u)] : x.Within (Confined l c o) := by
  refine ⟨fun s hs => ?_⟩
  have hstore := hx.post s
  refine ⟨⟨?_, fun g hg => ?_⟩, fun w hw => ?_⟩
  · rw [hstore]
    exact hs.group
  · rw [hstore]
    exact hs.urls g hg
  · have hne : w ≠ u := fun h => hw (h ▸ hu)
    exact congrFun (honly.post s) ⟨w, hne⟩

theorem confined_forM {urls : List UrlRef} (hurls : urls ⊆ l) {f : UrlRef → Action Unit}
    [∀ u, (f u).Within StoreOnly] [∀ u, (f u).Within (OnlyUrl u)] :
    (urls.forM f).Within (Confined l c o) :=
  Exec.Within.forM _ fun _ hu => confined_url (hurls hu)

/-- The visits of the URLs, the groups and the clients. -/
abbrev Untouched : ServerState → ServerState → Prop :=
  Exec.Same fun s => (s.store.visit, s.group, s.client)

instance {α : Type} {x : Action α} [h : x.Within Untouched] : x.Within (Confined l c o) := by
  refine h.mono fun s s' hsame hs => ?_
  obtain ⟨hvisit, h⟩ := Prod.mk.inj hsame
  obtain ⟨hgroup, hclient⟩ := Prod.mk.inj h
  refine ⟨⟨?_, fun g hg => ?_⟩, fun w _ => congrFun hvisit w⟩
  · rw [hclient]
    exact hs.group
  · rw [hgroup]
    exact hs.urls g hg

instance (line : LogLine) :
    (Exec.modify (ServerState.writeLog line) : Action Unit).Within Untouched := ⟨fun _ => rfl⟩

instance (call : DatabaseCall) :
    (Exec.modify (ServerState.callDatabase call) : Action Unit).Within Untouched := ⟨fun _ => rfl⟩

instance (v : VmRef) (f : VirtualMachine → VirtualMachine) :
    (Exec.modify (ServerState.setVm v f) : Action Unit).Within Untouched := ⟨fun _ => rfl⟩

theorem updateGroup_confined {f : UrlGroup → UrlGroup} (h : ∀ x, (f x).urlList = x.urlList) :
    (updateGroup g f).Within (Confined l c (some g)) := by
  refine ⟨fun s hs => ⟨⟨hs.group, ?_⟩, fun _ _ => rfl⟩⟩
  intro g₁ hg₁
  obtain rfl := Option.some.inj hg₁
  show ((s.setGroup g f).group g).urlList ⊆ l
  rw [ServerState.group_setGroup, h]
  exact hs.urls g rfl

theorem updateClient_confined {f : Client → Client}
    (h : ∀ x, (f x).visitingUrlGroup = x.visitingUrlGroup ∨ (f x).visitingUrlGroup = none) :
    (updateClient c f).Within (Confined l c o) := by
  refine ⟨fun s hs => ⟨⟨?_, hs.urls⟩, fun _ _ => rfl⟩⟩
  show ((s.setClient c f).client c).visitingUrlGroup = none ∨
    ((s.setClient c f).client c).visitingUrlGroup = o
  rw [ServerState.client_setClient]
  rcases h (s.client c) with hsame | hnone
  · rw [hsame]
    exact hs.group
  · exact .inl hnone

instance (time : Option String) : (UrlGroup.setVisitStartTime g time).Within (Confined l c (some g)) := by
  have := fun date => updateGroup_confined (l := l) (c := c) (g := g)
    (f := fun x => { x with visitStartTime := some date }) fun _ => rfl
  unfold UrlGroup.setVisitStartTime
  infer_instance

instance (time : Option String) : (UrlGroup.setVisitFinishTime g time).Within (Confined l c (some g)) := by
  have := fun date => updateGroup_confined (l := l) (c := c) (g := g)
    (f := fun x => { x with visitFinishTime := some date }) fun _ => rfl
  unfold UrlGroup.setVisitFinishTime
  infer_instance

instance (n : Int) : (UrlGroup.setMajorErrorCode g n).Within (Confined l c (some g)) :=
  updateGroup_confined fun _ => rfl

instance (algorithm : Option String) : (UrlGroup.setAlgorithm g algorithm).Within (Confined l c (some g)) :=
  updateGroup_confined fun _ => rfl

instance (map : StringMap) : (UrlGroup.writeEventsToLog g map).Within (Confined l c (some g)) := by
  unfold UrlGroup.writeEventsToLog
  refine confined_group fun group hgroup => Exec.Within.forM _ fun u hu => ?_
  refine Exec.Within.bind inferInstance fun x => ?_
  cases map.lookup (Url.getUrl x) with
  | none => infer_instance
  | some csv =>
      have := confined_url (l := l) (c := c) (o := some g) (hgroup hu) (x := Url.writeEventToLog u csv)
      infer_instance

instance (event : String) : (UrlGroup.writeEventToLog g event).Within (Confined l c (some g)) := by
  have happend : (UrlGroup.appendToLog g event).Within (Confined l c (some g)) :=
    updateGroup_confined fun _ => rfl
  unfold UrlGroup.writeEventToLog
  refine confined_group fun group hgroup => ?_
  split
  · next u hu => exact confined_url (hgroup (by rw [hu]; exact List.mem_singleton_self u))
  · infer_instance

instance (algorithm : Option String) (malicious : Bool) (map : Option StringMap) :
    (UrlGroup.setMalicious g algorithm malicious map).Within (Confined l c (some g)) := by
  have hflag : (updateGroup g fun x => { x with malicious }).Within (Confined l c (some g)) :=
    updateGroup_confined fun _ => rfl
  unfold UrlGroup.setMalicious
  refine Exec.Within.bind hflag fun _ => Exec.Within.bind inferInstance fun algorithm => ?_
  refine confined_group fun group hgroup => ?_
  have hsingle : (match group.urlList with
      | [u] => Url.setMalicious u true
      | _ => pure () : Action Unit).Within (Confined l c (some g)) := by
    split
    · next u hu => exact confined_url (hgroup (by rw [hu]; exact List.mem_singleton_self u))
    · infer_instance
  have hall : (group.urlList.forM fun u => Url.setMalicious u false).Within (Confined l c (some g)) :=
    confined_forM hgroup
  have hmap : (group.urlList.forM (UrlGroup.setMaliciousFromMap malicious map)).Within
      (Confined l c (some g)) := confined_forM hgroup
  infer_instance

/-! ## The controller -/

/-- The halves of a group have no other URLs. -/
theorem confined_new {urls : List UrlRef} (hurls : urls ⊆ l) :
    (UrlGroup.new urls).Within (Confined l c (some g)) := by
  have hnext : ∀ n, (Exec.modify fun s : ServerState => { s with nextGroup := n } :
      Action Unit).Within Untouched := fun _ => ⟨fun _ => rfl⟩
  have hnew : ∀ g' (x : UrlGroup), x.urlList = urls →
      (updateGroup g' fun _ => x).Within (Confined l c (some g)) := by
    refine fun g' x hx => ⟨fun s hs => ⟨⟨hs.group, ?_⟩, fun _ _ => rfl⟩⟩
    intro g₁ hg₁
    obtain rfl := Option.some.inj hg₁
    show (Function.update s.group g' x g).urlList ⊆ l
    by_cases hg : g = g'
    · subst hg
      rw [Function.update_self, hx]
      exact hurls
    · rw [Function.update_of_ne hg]
      exact hs.urls g rfl
  unfold UrlGroup.new
  cases urls with
  | nil => infer_instance
  | cons firstUrl rest =>
      refine Exec.Within.bind inferInstance fun first => Exec.Within.bind inferInstance fun g' => ?_
      refine Exec.Within.bind inferInstance fun _ => ?_
      exact Exec.Within.bind (hnew g' _ rfl) fun _ => inferInstance

instance (g' : GroupRef) : (UrlGroupsController.push g').Within Untouched := ⟨fun _ => rfl⟩

theorem confined_split {urls : List UrlRef} (hurls : urls ⊆ l) :
    (UrlGroupsController.split urls).Within (Confined l c (some g)) := by
  have hfirst := confined_new (l := l) (c := c) (g := g)
    (List.Subset.trans (List.take_subset (urls.length / 2) urls) hurls)
  have hrest := confined_new (l := l) (c := c) (g := g)
    (List.Subset.trans (List.drop_subset (urls.length / 2) urls) hurls)
  unfold UrlGroupsController.split
  infer_instance

instance : (UrlGroupsController.update g).Within (Confined l c (some g)) := by
  have hlist : ∀ f : List GroupRef → List GroupRef, (Exec.modify fun s : ServerState =>
      { s with visitingList := f s.visitingList } : Action Unit).Within (Confined l c (some g)) :=
    fun _ => ⟨fun _ hs => ⟨⟨hs.group, hs.urls⟩, fun _ _ => rfl⟩⟩
  unfold UrlGroupsController.update
  refine confined_group fun group hgroup => ?_
  have hsplit := confined_split (l := l) (c := c) (g := g) hgroup
  have hfail : (group.urlList.forM (UrlGroupsController.failUrl group)).Within (Confined l c (some g)) :=
    confined_forM hgroup
  unfold UrlGroupsController.divides
  cases group.urlGroupState with
  | none => infer_instance
  | queued => infer_instance
  | visiting => exact hlist (· ++ [g])
  | visited => exact Exec.Within.bind (hlist (·.erase g)) fun _ => inferInstance
  | error => exact Exec.Within.bind (hlist (·.erase g)) fun _ => inferInstance

instance (newState : UrlGroupState) :
    (UrlGroup.setUrlGroupState g newState).Within (Confined l c (some g)) := by
  have henter : (updateGroup g (UrlGroup.enter newState)).Within (Confined l c (some g)) :=
    updateGroup_confined fun _ => rfl
  unfold UrlGroup.setUrlGroupState
  refine Exec.Within.bind henter fun _ => confined_group fun group hgroup => ?_
  exact Exec.Within.bind (confined_forM hgroup) fun _ => inferInstance

/-! ## The client -/

instance (item : Element) : (Client.startItem g item).Within (Confined l c (some g)) := by
  unfold Client.startItem
  exact Exec.Within.bind inferInstance fun _ => confined_getUrl fun _ hu => confined_url hu

instance (noError : List String) (item : Element) :
    (Client.endItem c g noError item).Within (Confined l c (some g)) := by
  unfold Client.endItem
  refine Exec.Within.bind inferInstance fun _ => confined_getUrl fun u hu => ?_
  have htime := confined_url (l := l) (c := c) (o := some g) hu
    (x := Url.setVisitFinishTime u (item.get "time"))
  have hcodes := confined_url (l := l) (c := c) (o := some g) hu
    (x := Client.storeItemCodes u noError item)
  infer_instance

instance (noError : List String) (items : List Element) :
    (Client.endItems c g noError items).Within (Confined l c (some g)) := by
  induction items with
  | nil =>
      unfold Client.endItems
      infer_instance
  | cons item items ih =>
      unfold Client.endItems
      infer_instance

instance (algorithm : Option String) (map : StringMap) :
    (Client.flushBulk g algorithm map).Within (Confined l c (some g)) := by
  unfold Client.flushBulk
  infer_instance

instance : (Client.drop c).Within (Confined l c o) := by
  have hstate : (updateClient c fun x => { x with clientState := .disconnected }).Within
      (Confined l c o) := updateClient_confined fun _ => .inl rfl
  have hsocket : (updateClient c fun x => { x with socketClosed := true }).Within
      (Confined l c o) := updateClient_confined fun _ => .inl rfl
  have hmachine : ∀ v : Option VmRef, (match v with
      | some v => Client.loseMachine v
      | none => pure () : Action Unit).Within (Confined l c o) := by
    intro v
    unfold Client.loseMachine
    cases v <;> infer_instance
  have hfail : ∀ x : Client, x.visitingUrlGroup = none ∨ x.visitingUrlGroup = o →
      (Client.failVisit x.visitingUrlGroup).Within (Confined l c o) := by
    intro x hx
    unfold Client.failVisit
    rcases hx with hx | hx <;> rw [hx]
    · infer_instance
    · cases o <;> infer_instance
  have hagain : ∀ x : Client, x.visitingUrlGroup = none ∨ x.visitingUrlGroup = o →
      (Client.failVisitAgain x.visitingUrlGroup).Within (Confined l c o) := by
    intro x hx
    unfold Client.failVisitAgain
    rcases hx with hx | hx <;> rw [hx]
    · infer_instance
    · cases o <;> infer_instance
  have hrest : (do
      Client.failVisit (← readClient c).visitingUrlGroup
      updateClient c fun x => { x with socketClosed := true }
      Client.failVisitAgain (← readClient c).visitingUrlGroup : Action Unit).Within
        (Confined l c o) := by
    refine confined_client fun x hx => Exec.Within.bind (hfail x hx) fun _ => ?_
    exact Exec.Within.bind hsocket fun _ => confined_client hagain
  unfold Client.drop
  refine Exec.Within.bind inferInstance fun client => Exec.Within.ite (fun _ => ?_) fun _ => ?_
  · refine Exec.Within.bind hstate fun _ => ?_
    refine Exec.Within.bind inferInstance fun client => ?_
    cases client.virtualMachine with
    | none => exact hrest
    | some v => exact Exec.Within.bind (hmachine (some v)) fun _ => hrest
  · infer_instance

instance : (Client.setClientState c .disconnected).Within (Confined l c o) := by
  rw [Client.setClientState_disconnected]
  infer_instance

instance : (Client.setClientState c .visiting).Within (Confined l c o) := by
  have hstate : (updateClient c fun x => { x with clientState := .visiting }).Within
      (Confined l c o) := updateClient_confined fun _ => .inl rfl
  refine ⟨fun s => ?_⟩
  rw [Client.run_setClientState_visiting]
  exact hstate.post s

instance : (Client.setClientState c .waiting).Within (Confined l c o) := by
  have hstate : (updateClient c fun x => { x with clientState := .waiting }).Within
      (Confined l c o) := updateClient_confined fun _ => .inl rfl
  refine ⟨fun s => ?_⟩
  rcases Client.welcome_cases c s with he | he | ⟨v, he⟩ <;> rw [he]
  · exact Std.Refl.refl s
  · exact hstate.post s
  · have hmachine : (updateVm v fun x => { x with vmState := .running }).Within
        (Confined l c o) := inferInstance
    exact IsTrans.trans _ _ _ (hstate.post s) (hmachine.post _)

theorem confined_leaveGroup {newState : ClientState}
    (h : (Client.setClientState c newState).Within (Confined l c o)) :
    (Client.leaveGroup c newState).Within (Confined l c o) := by
  have hleave : (updateClient c fun x => { x with visitingUrlGroup := none }).Within
      (Confined l c o) := updateClient_confined fun _ => .inr rfl
  unfold Client.leaveGroup
  infer_instance

instance : (Client.leaveGroup c .disconnected).Within (Confined l c o) :=
  confined_leaveGroup inferInstance

instance : (Client.leaveGroup c .waiting).Within (Confined l c o) :=
  confined_leaveGroup inferInstance

/-! ## Messages -/

instance (element : Element) (origin : Nat) :
    (Client.keepStateChange c element origin).Within (Confined l c o) := by
  have hadd := fun sc => updateClient_confined (l := l) (c := c) (o := o) (f := fun x =>
    { x with stateChangeHandler := (x.stateChangeHandler.addStateChange sc).1 }) fun _ => .inl rfl
  unfold Client.keepStateChange
  split <;> infer_instance

instance (element : Element) : (Client.reportGroup c g element).Within (Confined l c (some g)) := by
  have hleave : (updateClient c fun x => { x with visitingUrlGroup := none }).Within
      (Confined l c (some g)) := updateClient_confined fun _ => .inr rfl
  unfold Client.reportGroup
  refine Exec.Within.bind inferInstance fun _ => Exec.Within.bind inferInstance fun client => ?_
  refine Exec.Within.bind inferInstance fun _ => Exec.Within.bind inferInstance fun _ => ?_
  refine Exec.Within.bind inferInstance fun _ => confined_group fun group hgroup => ?_
  exact Exec.Within.bind (confined_forM hgroup) fun _ => inferInstance

instance (algorithm : String) (element : Element) :
    (Client.reportEvent c g algorithm element).Within (Confined l c (some g)) := by
  unfold Client.reportEvent
  infer_instance

/-- What is done with the group that the client has. -/
theorem confined_deref {α : Type} {p : Option GroupRef} (hp : p = none ∨ p = o)
    {f : GroupRef → Action α} (h : ∀ g, o = some g → (f g).Within (Confined l c (some g))) :
    (deref p >>= f).Within (Confined l c o) := by
  rcases hp with rfl | rfl
  · exact Exec.Within.throw _
  · cases p with
    | none => exact Exec.Within.throw _
    | some g => exact h g rfl

instance (element : Element) (origin : Nat) :
    (Client.parseEvent c element origin).Within (Confined l c o) := by
  unfold Client.parseEvent
  refine confined_client fun client hclient => Exec.Within.ite (fun _ => ?_) fun _ => inferInstance
  refine Exec.Within.bind inferInstance fun algorithm => ?_
  exact confined_deref hclient fun g _ => inferInstance

instance (element : Element) : (Client.parseStart c element).Within (Confined l c o) := by
  unfold Client.parseStart
  refine confined_client fun client hclient => Exec.Within.bind inferInstance fun _ => ?_
  exact confined_deref hclient fun g _ => inferInstance

instance (element : Element) : (Client.parseFinish c element).Within (Confined l c o) := by
  have hjudge : ∀ (g : GroupRef) (client : Client) (map : StringMap) (malicious : Bool), (do
      let _ ← deref client.virtualMachine
      if malicious then
        Client.flushBulk g client.algorithm map
        UrlGroup.setMalicious g client.algorithm true (some map)
        UrlGroup.setUrlGroupState g .visited
        Client.leaveGroup c .disconnected
      else
        UrlGroup.setMalicious g client.algorithm false (some map)
        UrlGroup.setUrlGroupState g .visited
        Client.leaveGroup c .waiting : Action Unit).Within (Confined l c (some g)) :=
    fun _ _ _ _ => inferInstance
  unfold Client.parseFinish
  refine confined_client fun client hclient => confined_deref hclient fun g _ => ?_
  refine Exec.Within.bind inferInstance fun _ => Exec.Within.bind inferInstance fun ended => ?_
  refine Exec.Within.bind inferInstance fun group => Exec.Within.ite (fun _ => ?_) fun _ => ?_
  · exact Exec.Within.bind inferInstance (hjudge g client ended.2)
  · refine Exec.Within.bind inferInstance fun text => ?_
    exact Exec.Within.bind inferInstance (hjudge g client ended.2)

instance (element : Element) (map : StringMap) (major : String) :
    (Client.retryError c g element map major).Within (Confined l c (some g)) := by
  have hfail : (do
      UrlGroup.setMajorErrorCode g (← Exec.orThrow .numberFormat (parseLong major))
      UrlGroup.setUrlGroupState g .error
      Client.leaveGroup c .disconnected : Action Unit).Within (Confined l c (some g)) := inferInstance
  have hflush : ∀ client : Client, (do
      Client.flushBulk g client.algorithm map
      UrlGroup.setMalicious g client.algorithm true (some map) : Action Unit).Within
        (Confined l c (some g)) := fun _ => inferInstance
  unfold Client.retryError
  refine Exec.Within.bind inferInstance fun client => Exec.Within.bind inferInstance fun config => ?_
  refine Exec.Within.ite (fun _ => Exec.Within.throw _) fun _ => ?_
  refine Exec.Within.bind inferInstance fun text => Exec.Within.ite (fun _ => ?_) fun _ => ?_
  · exact Exec.Within.bind inferInstance fun _ => Exec.Within.bind inferInstance fun _ => hfail
  · exact Exec.Within.bind inferInstance fun _ => hfail

instance (element : Element) (map : StringMap) :
    (Client.finalError c g element map).Within (Confined l c (some g)) := by
  unfold Client.finalError
  infer_instance

instance (element : Element) : (Client.parseError c element).Within (Confined l c o) := by
  have hrest : ∀ (client : Client) (map : StringMap), client.visitingUrlGroup = none ∨
      client.visitingUrlGroup = o → (do
        let major ← deref (element.get "error-code")
        let _ ← deref client.virtualMachine
        let g ← deref client.visitingUrlGroup
        if Client.isErrorToRetry major then Client.retryError c g element map major
        else Client.finalError c g element map : Action Unit).Within (Confined l c o) := by
    intro client map hclient
    refine Exec.Within.bind inferInstance fun major => Exec.Within.bind inferInstance fun _ => ?_
    exact confined_deref hclient fun g _ => inferInstance
  unfold Client.parseError
  refine confined_client fun client hclient => ?_
  cases element.childElements with
  | nil => exact Exec.Within.bind inferInstance fun ended => hrest client ended.2 hclient
  | cons item items =>
      refine confined_deref hclient fun g hg => ?_
      subst hg
      exact Exec.Within.bind inferInstance fun ended => hrest client ended.2 hclient

instance (element : Element) : (Client.parseVisitEvent c element).Within (Confined l c o) := by
  have halgorithm : (updateClient c fun x => { x with algorithm := element.get "algorithm" }).Within
      (Confined l c o) := updateClient_confined fun _ => .inl rfl
  unfold Client.parseVisitEvent
  infer_instance

end Group

/-! ## Every step -/

/-- A send finds the connection broken. -/
def Client.Unreachable (x : Client) : Prop :=
  x.clientState ≠ .disconnected ∧ (x.linkUp = false ∨ x.socketClosed = true)

instance (x : Client) : Decidable x.Unreachable := inferInstanceAs (Decidable (_ ∧ _))

/-- The client for which a line is handled, if handling it may reach the URLs of the client's
group. -/
def lineActor (s : ServerState) (client : Option ClientRef) : Line → Option ClientRef
  | .reconnect (some v) false => (s.vm v).client
  | .systemEvent _ _ => client.filter fun c => (s.client c).clientState = .visiting
  | .visitEvent _ => client
  | _ => none

/-- The same for a step. -/
def actor (s : System) : SystemAction → Option ClientRef
  | .handle k =>
      match (s.controller k).step with
      | .read line => lineActor s.server (s.controller k).client line
      | _ => none
  | .retrieve c =>
      match s.retriever c with
      | .send => if (s.server.client c).Unreachable then some c else none
      | .notSent => some c
      | _ => none
  | .blame v _ => (s.server.vm v).client
  | .revert => s.checker.bind fun v => (s.server.vm v).client
  | .ping c => if (s.server.client c).Unreachable then some c else none
  | _ => none

section Steps
variable {c : ClientRef} {w : UrlRef} {s : ServerState}

/-- The client has no group with the URL. -/
def Without (c : ClientRef) (w : UrlRef) (s : ServerState) : Prop :=
  ∀ g, (s.client c).visitingUrlGroup = some g → w ∉ (s.group g).urlList

theorem among_own {g : GroupRef} (hg : (s.client c).visitingUrlGroup = some g) :
    Among (s.group g).urlList c (some g) s := by
  refine ⟨.inr hg, fun g₁ hg₁ => ?_⟩
  obtain rfl := Option.some.inj hg₁
  exact List.Subset.refl _

theorem visit_of_confined {α : Type} {x : Action α} (h : ∀ l o, x.Within (Confined l c o))
    (hw : Without c w s) : (x.run s).2.visit w = s.visit w := by
  cases hg : (s.client c).visitingUrlGroup with
  | none => exact ((h [] none).post s ⟨.inl hg, nofun⟩).2 w List.not_mem_nil
  | some g =>
      exact ((h (s.group g).urlList (some g)).post s (among_own hg)).2 w (hw g hg)

theorem visit_send (hw : (s.client c).Unreachable → Without c w s) :
    ((Client.send c).run s).2.visit w = s.visit w := by
  rcases Client.send_cases c s with ⟨success, he⟩ | ⟨hstate, hlink, he⟩
  · rw [he]
  · rw [he]
    exact visit_of_confined (fun _ _ => inferInstance) (hw ⟨hstate, hlink⟩)

theorem visit_setSocket {usable : Bool} (hw : usable = false → Without c w s) :
    ((Client.setSocket c usable).run s).2.visit w = s.visit w := by
  cases usable with
  | true => rfl
  | false =>
      refine visit_of_confined (fun l o => ?_) (hw rfl)
      have hstate : (updateClient c fun x => { x with clientState := .disconnected }).Within
          (Confined l c o) := updateClient_confined fun _ => .inl rfl
      unfold Client.setSocket
      refine Exec.Within.ite nofun fun _ => confined_client fun x hx => ?_
      cases hg : x.visitingUrlGroup with
      | none => exact hstate
      | some g =>
          obtain rfl : some g = o := by simpa [hg] using hx
          exact Exec.Within.bind inferInstance fun _ => Exec.Within.bind inferInstance fun _ => hstate

theorem visit_visitNotSent (hw : Without c w s) :
    ((Client.visitNotSent c).run s).2.visit w = s.visit w := by
  refine visit_of_confined (fun l o => ?_) hw
  unfold Client.visitNotSent
  exact confined_client fun x hx => confined_deref hx fun g _ => inferInstance

theorem visit_parseEvent {element : Element} {origin : Nat}
    (hw : (s.client c).clientState = .visiting → Without c w s) :
    ((Client.parseEvent c element origin).run s).2.visit w = s.visit w := by
  rcases parseEvent_cases (c := c) element origin s with ⟨r, hrun⟩ | ⟨-, -, hvisiting, -⟩
  · rw [hrun]
  · exact visit_of_confined (fun _ _ => inferInstance) (hw hvisiting)

/-- The URL is as before. -/
abbrev UrlKept (w : UrlRef) : ServerState → ServerState → Prop := Exec.Same fun s => s.visit w

instance : UrlGroupsController.takeUrlGroup.Within (UrlKept w) := by
  have hnext : ∀ n, (Exec.modify fun s : ServerState => { s with nextGroup := n } :
      Action Unit).Within (UrlKept w) := fun _ => ⟨fun _ => rfl⟩
  have hgroup : ∀ g f, (updateGroup g f).Within (UrlKept w) := fun _ _ => ⟨fun _ => rfl⟩
  have hnew : ∀ urls, (UrlGroup.new urls).Within (UrlKept w) := by
    intro urls
    unfold UrlGroup.new
    cases urls <;> infer_instance
  exact UrlGroupsController.takeUrlGroup_within (fun _ _ => rfl) fun _ _ => rfl

/-- A retriever reaches a URL when it sends, or could not send. -/
theorem visit_retrieve {step : RetrieverStep}
    (hsend : step = .send → (s.client c).Unreachable → Without c w s)
    (hnotSent : step = .notSent → Without c w s) :
    ((Client.retrieve c step).run s).2.visit w = s.visit w := by
  have hclient : ∀ f, (updateClient c f).Within (UrlKept w) := fun _ => ⟨fun _ => rfl⟩
  have hkept : step ≠ .send → step ≠ .notSent → (Client.retrieve c step).Within (UrlKept w) := by
    intro hne hne'
    unfold Client.retrieve Client.storeVisitingUrlGroup Client.awaitVisiting
    cases step with
    | send => exact absurd rfl hne
    | notSent => exact absurd rfl hne'
    | _ => infer_instance
  cases step with
  | send =>
      have hend : ∀ success : Bool, (do
          let _ ← deref (← readClient c).virtualMachine
          if success then return .await else return .notSent : Action RetrieverStep).Within
            (UrlKept w) := fun _ => inferInstance
      simp only [Client.retrieve, Client.sendVisitingUrlGroup, Exec.run_gets_bind, bind_assoc,
        Exec.pure_bind] at hend ⊢
      cases (s.client c).visitingUrlGroup with
      | none => rfl
      | some g =>
          simp only [Exec.orThrow_some, Exec.pure_bind]
          have hsent := visit_send (hsend rfl)
          refine Exec.run_bind_mem (P := fun s' : ServerState => s'.visit w = s.visit w) hsent
            fun success s₁ he => ?_
          rw [he] at hsent
          exact ((hend success).post s₁).trans hsent
  | notSent =>
      have hmarked := visit_visitNotSent (hnotSent rfl)
      rw [Client.retrieve]
      refine Exec.run_bind_mem (P := fun s' : ServerState => s'.visit w = s.visit w) hmarked
        fun _ s₁ he => ?_
      rw [he] at hmarked
      exact hmarked
  | _ => exact (hkept nofun nofun).post s

theorem visit_checkVm {v : VmRef} {inactive : Bool}
    (hw : ∀ c, (s.vm v).client = some c → Without c w s) :
    ((VirtualMachinesStateChecker.checkVm v inactive).run s).2.visit w = s.visit w := by
  have hhalt : (do if (← readConfig).haltOnRevert then throw (.exit (-20)) :
      Action Unit).Within (Exec.Same fun s => s.visit w) := inferInstance
  have herror : ∀ code, ((VirtualMachinesStateChecker.setError v code).run s).2.visit w =
      s.visit w := by
    intro code
    simp only [VirtualMachinesStateChecker.setError, Exec.run_gets_bind]
    cases hc : (s.vm v).client with
    | none => rfl
    | some c =>
        simp only [Exec.run_gets_bind]
        cases hg : (s.client c).visitingUrlGroup with
        | none => rfl
        | some g =>
            exact (Exec.Within.post (R := Confined (s.group g).urlList c (some g)) s
              (among_own hg)).2 w (hw c hc g hg)
  have hmarked := herror (if inactive then .captureClientInactivity else .vmStalled)
  rw [VirtualMachinesStateChecker.checkVm]
  refine Exec.run_bind_mem (P := fun s' : ServerState => s'.visit w = s.visit w) hmarked
    fun _ s₁ he => ?_
  rw [he] at hmarked
  exact (hhalt.post s₁).trans hmarked

theorem visit_revert {v : VmRef} (hw : ∀ c, (s.vm v).client = some c → Without c w s) :
    ((VirtualMachine.setState v .waitingToBeReverted).run s).2.visit w = s.visit w := by
  rw [VirtualMachine.setState_waitingToBeReverted]
  simp only [Exec.run_gets_bind]
  split
  · simp only [Exec.run_modify_bind, Exec.run_gets_bind]
    have hclient : ((s.setVm v fun x => { x with vmState := .waitingToBeReverted }).vm v).client =
        (s.vm v).client := by simp [ServerState.setVm]
    rw [hclient]
    cases hc : (s.vm v).client with
    | none => rfl
    | some c =>
        simp only [Exec.run_gets_bind]
        split
        · exact visit_of_confined (x := Client.drop c) (s := s.setVm v _) (fun _ _ => inferInstance)
            (hw c hc)
        · rfl
  · rfl

end Steps

/-- **A step changes no URL but those of the group of the client for which it is made.** -/
theorem visit_does {s : System} {a : SystemAction} {server : ServerState} {w : UrlRef}
    (h : Does s a server) (hw : ∀ c, actor s a = some c → Without c w s.server) :
    server.visit w = s.server.visit w := by
  induction h with
  | nothing => rfl
  | @enqueue position =>
      have hadd : (UrlsController.addUrl s.nextUrl position).Within (UrlKept w) :=
        UrlsController.addUrl_within (fun _ _ => rfl) s.nextUrl position
      exact hadd.post s.server
  | @connect k v linkUp _ =>
      obtain ⟨client, vm, he⟩ := Client.connect_rest s.nextClient v linkUp s.server
      rw [he]
      rfl
  | @welcome k c _ _ =>
      rcases Client.welcome_cases c s.server with he | he | ⟨v, he⟩ <;> rw [he] <;> rfl
  | @reconnect k v usable c hstep hc =>
      refine visit_setSocket fun husable => hw c ?_
      subst husable
      simp only [actor, hstep, lineActor, hc]
  | @systemEvent k element origin c hstep hc =>
      refine visit_parseEvent fun hvisiting => hw c ?_
      simp only [actor, hstep, lineActor, hc, Option.filter_some, hvisiting, decide_true, if_true]
  | @visitEvent k element c hstep hc =>
      refine visit_of_confined (fun _ _ => inferInstance) (hw c ?_)
      simp only [actor, hstep, lineActor, hc]
  | @retrieve c =>
      refine visit_retrieve (fun hstep hlost => hw c ?_) fun hstep => hw c ?_
      · simp only [actor, hstep, if_pos hlost]
      · simp only [actor, hstep]
  | @check v inactive => exact visit_checkVm fun c hc => hw c hc
  | @revert v hv =>
      refine visit_revert fun c hc => hw c ?_
      simp only [actor, hv, Option.bind_some, hc]
  | @work v newState hne =>
      rw [VirtualMachine.run_setState hne]
      rfl
  | @ping c =>
      refine visit_send fun hlost => hw c ?_
      simp only [actor, if_pos hlost]
  | cutLink => rfl
  | @blamed a server c _ ih =>
      rcases Client.blameConnection_cases c server with he | ⟨g, he⟩ <;> rw [he] <;> exact ih hw

end CaptureHpc.Server
