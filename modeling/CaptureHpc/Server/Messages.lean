/-
# `Server.Messages` — what becomes of a client that handles a message

Every message of a visit is handled in the same way.  First the group of the
client and its URLs are edited: times, codes, verdicts, logs.  Then the group
changes its state, and then the client moves on: it begins to visit, or it
leaves the group.  Something may throw in the first part, and the client is then
as it was; or in the second, and then the group is in its new state and the
client is as it was.  The third part does not throw.

`Concludes` says this of code that ends a visit, and its rules follow the code.
-/
import CaptureHpc.Server.Client

namespace CaptureHpc.Server

open Java

/-! ## Quiet code -/

/-- Only the store changed, no URL changed its state, and nothing was logged but events. -/
structure Quiet (s s' : ServerState) : Prop where
  rest : StoreOnly s s'
  log : s'.store.log = s.store.log
  database : ∀ call ∈ s'.store.database, call ∈ s.store.database ∨
    ∃ id event, call = .storeEvent id event
  urlState : ∀ u, (s'.visit u).urlState = (s.visit u).urlState

section Quiet
variable (u : UrlRef)

instance : Std.Refl Quiet := ⟨fun _ => ⟨Std.Refl.refl _, rfl, fun _ => .inl, fun _ => rfl⟩⟩

instance : IsTrans ServerState Quiet := by
  refine ⟨fun s s' s'' h h' => ⟨IsTrans.trans _ _ _ h.rest h'.rest, h'.log.trans h.log, ?_,
    fun u => (h'.urlState u).trans (h.urlState u)⟩⟩
  intro call hcall
  rcases h'.database call hcall with hold | hnew
  · exact h.database call hold
  · exact .inr hnew

instance (priority := low) {α : Type} {x : Action α} [h : x.Within Quiet] : x.Within StoreOnly :=
  Exec.Within.mono (fun _ _ => Quiet.rest) h

theorem updateVisit_quiet {f : UrlVisit → UrlVisit} (h : ∀ x, (f x).urlState = x.urlState) :
    (updateVisit u f).Within Quiet := by
  refine ⟨fun s => ⟨rfl, rfl, fun _ => .inl, fun w => ?_⟩⟩
  show (Function.update s.store.visit u (f (s.store.visit u)) w).urlState = _
  by_cases hw : w = u
  · subst hw
    rw [Function.update_self, h]
    rfl
  · rw [Function.update_of_ne hw]
    rfl

instance (id event : String) :
    (Exec.modify (ServerState.callDatabase (.storeEvent id event)) : Action Unit).Within Quiet := by
  refine ⟨fun s => ⟨rfl, rfl, fun call hcall => ?_, fun _ => rfl⟩⟩
  rcases List.mem_append.mp hcall with hold | hnew
  · exact .inl hold
  · exact .inr ⟨id, event, List.mem_singleton.mp hnew⟩

instance (time : Option String) : (Url.setVisitStartTime u time).Within Quiet := by
  have := fun date => updateVisit_quiet u
    (f := fun x => { x with visitStartTime := some date }) fun _ => rfl
  unfold Url.setVisitStartTime
  infer_instance

instance (time : Option String) : (Url.setVisitFinishTime u time).Within Quiet := by
  have := fun date => updateVisit_quiet u
    (f := fun x => { x with visitFinishTime := some date }) fun _ => rfl
  unfold Url.setVisitFinishTime
  infer_instance

instance (malicious : Bool) : (Url.setMalicious u malicious).Within Quiet :=
  updateVisit_quiet u fun _ => rfl

instance (n : Int) : (Url.setMajorErrorCode u n).Within Quiet := updateVisit_quiet u fun _ => rfl

instance (n : Int) : (Url.setMinorErrorCode u n).Within Quiet := updateVisit_quiet u fun _ => rfl

instance : (Url.openLog u).Within Quiet := by
  have := updateVisit_quiet u (f := fun x => { x with logFile := some [] }) fun _ => rfl
  unfold Url.openLog
  infer_instance

instance (event : String) : (Url.noteFirstStateChange u event).Within Quiet := by
  have := fun date => updateVisit_quiet u
    (f := fun x => { x with firstStateChange := some date }) fun _ => rfl
  have hdate : ∀ text, (match parseDate text with
      | some date => do
        updateVisit u fun x => { x with firstStateChange := some date }
        return true
      | none => return false : Action Bool).Within Quiet := by
    intro text
    cases parseDate text <;> infer_instance
  unfold Url.noteFirstStateChange
  infer_instance

instance (event : String) : (Url.appendToLog u event).Within Quiet := by
  have := updateVisit_quiet u
    (f := fun x => { x with logFile := x.logFile.map (· ++ [event]) }) fun _ => rfl
  unfold Url.appendToLog
  infer_instance

instance (event : String) : (Url.writeEventToLog u event).Within Quiet := by
  unfold Url.writeEventToLog
  infer_instance

instance (g : GroupRef) (uri : String) : (UrlGroup.getUrl g uri).Within Quiet := by
  unfold UrlGroup.getUrl
  infer_instance

instance (g : GroupRef) (map : StringMap) : (UrlGroup.writeEventsToLog g map).Within Quiet := by
  unfold UrlGroup.writeEventsToLog
  refine Exec.Within.bind inferInstance fun group => Exec.Within.forM _ fun u _ => ?_
  refine Exec.Within.bind inferInstance fun x => ?_
  cases map.lookup (Url.getUrl x) <;> infer_instance

instance (malicious : Bool) (map : Option StringMap) :
    (UrlGroup.setMaliciousFromMap malicious map u).Within Quiet := by
  unfold UrlGroup.setMaliciousFromMap
  cases map <;> infer_instance

instance (g : GroupRef) (item : Element) : (Client.startItem g item).Within Quiet := by
  unfold Client.startItem
  infer_instance

instance (noError : List String) (item : Element) :
    (Client.storeItemCodes u noError item).Within Quiet := by
  unfold Client.storeItemCodes
  infer_instance

instance (c : ClientRef) (g : GroupRef) (noError : List String) (item : Element) :
    (Client.endItem c g noError item).Within Quiet := by
  unfold Client.endItem
  infer_instance

instance (c : ClientRef) (g : GroupRef) (noError : List String) (items : List Element) :
    (Client.endItems c g noError items).Within Quiet := by
  induction items with
  | nil => unfold Client.endItems; infer_instance
  | cons item items ih =>
      unfold Client.endItems
      infer_instance

instance (g : GroupRef) (algorithm : Option String) (map : StringMap) :
    (Client.flushBulk g algorithm map).Within Quiet := by
  unfold Client.flushBulk
  infer_instance

end Quiet

/-! ## Edits -/

/-- Quiet changes, and changes of what the client knows of the messages and of the group, whose
URLs, state and errors are as before. -/
structure Edits (c : ClientRef) (g : GroupRef) (s s' : ServerState) : Prop where
  rest : s' = { s with store := s'.store, group := s'.group, client := s'.client }
  others : ∀ g', g' ≠ g → s'.group g' = s.group g'
  urlList : (s'.group g).urlList = (s.group g).urlList
  urlGroupState : (s'.group g).urlGroupState = (s.group g).urlGroupState
  errorCount : (s'.group g).errorCount = (s.group g).errorCount
  clients : ∀ c', c' ≠ c → s'.client c' = s.client c'
  client : s'.client c = { s.client c with
    algorithm := (s'.client c).algorithm, stateChangeHandler := (s'.client c).stateChangeHandler }
  log : s'.store.log = s.store.log
  database : ∀ call ∈ s'.store.database, call ∈ s.store.database ∨
    ∃ id event, call = .storeEvent id event
  urlState : ∀ u, (s'.visit u).urlState = (s.visit u).urlState

section Edits
variable {c : ClientRef} {g : GroupRef}

instance : Std.Refl (Edits c g) :=
  ⟨fun _ => ⟨rfl, fun _ _ => rfl, rfl, rfl, rfl, fun _ _ => rfl, rfl, rfl, fun _ => .inl,
    fun _ => rfl⟩⟩

instance : IsTrans ServerState (Edits c g) := by
  refine ⟨fun s s' s'' h h' => ⟨?_, ?_, ?_, ?_, ?_, ?_, ?_, ?_, ?_, ?_⟩⟩
  · rw [h'.rest, h.rest]
  · exact fun g' hg => (h'.others g' hg).trans (h.others g' hg)
  · exact h'.urlList.trans h.urlList
  · exact h'.urlGroupState.trans h.urlGroupState
  · exact h'.errorCount.trans h.errorCount
  · exact fun c' hc => (h'.clients c' hc).trans (h.clients c' hc)
  · rw [h'.client, h.client]
  · exact h'.log.trans h.log
  · intro call hcall
    rcases h'.database call hcall with hold | hnew
    · exact h.database call hold
    · exact .inr hnew
  · exact fun u => (h'.urlState u).trans (h.urlState u)

theorem Quiet.edits {s s' : ServerState} (h : Quiet s s') : Edits c g s s' := by
  have hrest := h.rest
  rw [StoreOnly] at hrest
  refine ⟨?_, ?_, ?_, ?_, ?_, ?_, ?_, h.log, h.database, h.urlState⟩
  · rw [hrest]
  · exact fun _ _ => by rw [hrest]
  · rw [hrest]
  · rw [hrest]
  · rw [hrest]
  · exact fun _ _ => by rw [hrest]
  · rw [hrest]

instance (priority := low) {α : Type} {x : Action α} [h : x.Within Quiet] :
    x.Within (Edits c g) := Exec.Within.mono (fun _ _ => Quiet.edits) h

theorem updateGroup_edits {f : UrlGroup → UrlGroup} (h : ∀ x, (f x).urlList = x.urlList ∧
    (f x).urlGroupState = x.urlGroupState ∧ (f x).errorCount = x.errorCount) :
    (updateGroup g f).Within (Edits c g) := by
  refine ⟨fun s => ?_⟩
  have hg : (s.setGroup g f).group g = f (s.group g) := Function.update_self ..
  obtain ⟨hlist, hstate, hcount⟩ := h (s.group g)
  refine ⟨rfl, fun g' hne => Function.update_of_ne hne .., ?_, ?_, ?_, fun _ _ => rfl, rfl, rfl,
    fun _ => .inl, fun _ => rfl⟩
  · exact (congrArg UrlGroup.urlList hg).trans hlist
  · exact (congrArg UrlGroup.urlGroupState hg).trans hstate
  · exact (congrArg UrlGroup.errorCount hg).trans hcount

theorem updateClient_edits {f : Client → Client} (h : ∀ x, f x =
    { x with algorithm := (f x).algorithm, stateChangeHandler := (f x).stateChangeHandler }) :
    (updateClient c f).Within (Edits c g) := by
  refine ⟨fun s => ?_⟩
  refine ⟨rfl, fun _ _ => rfl, rfl, rfl, rfl, fun c' hne => Function.update_of_ne hne .., ?_, rfl,
    fun _ => .inl, fun _ => rfl⟩
  show Function.update s.client c (f (s.client c)) c = { s.client c with
    algorithm := (Function.update s.client c (f (s.client c)) c).algorithm
    stateChangeHandler := (Function.update s.client c (f (s.client c)) c).stateChangeHandler }
  rw [Function.update_self]
  exact h _

instance (time : Option String) : (UrlGroup.setVisitStartTime g time).Within (Edits c g) := by
  have := fun date => updateGroup_edits (c := c) (g := g)
    (f := fun x => { x with visitStartTime := some date }) fun _ => ⟨rfl, rfl, rfl⟩
  unfold UrlGroup.setVisitStartTime
  infer_instance

instance (time : Option String) : (UrlGroup.setVisitFinishTime g time).Within (Edits c g) := by
  have := fun date => updateGroup_edits (c := c) (g := g)
    (f := fun x => { x with visitFinishTime := some date }) fun _ => ⟨rfl, rfl, rfl⟩
  unfold UrlGroup.setVisitFinishTime
  infer_instance

instance (n : Int) : (UrlGroup.setMajorErrorCode g n).Within (Edits c g) :=
  updateGroup_edits fun _ => ⟨rfl, rfl, rfl⟩

instance (algorithm : Option String) : (UrlGroup.setAlgorithm g algorithm).Within (Edits c g) :=
  updateGroup_edits fun _ => ⟨rfl, rfl, rfl⟩

instance (algorithm : Option String) (malicious : Bool) (map : Option StringMap) :
    (UrlGroup.setMalicious g algorithm malicious map).Within (Edits c g) := by
  have hgroup : (updateGroup g fun x => { x with malicious }).Within (Edits c g) :=
    updateGroup_edits fun _ => ⟨rfl, rfl, rfl⟩
  have hsingle : ∀ urlList : List UrlRef, (match urlList with
      | [u] => Url.setMalicious u true
      | _ => pure () : Action Unit).Within (Edits c g) := by
    intro urlList
    split <;> infer_instance
  unfold UrlGroup.setMalicious
  infer_instance

instance (event : String) : (UrlGroup.writeEventToLog g event).Within (Edits c g) := by
  have happend : (UrlGroup.appendToLog g event).Within (Edits c g) :=
    updateGroup_edits fun _ => ⟨rfl, rfl, rfl⟩
  unfold UrlGroup.writeEventToLog
  refine Exec.Within.bind inferInstance fun group => ?_
  split <;> infer_instance

instance (element : Element) (origin : Nat) :
    (Client.keepStateChange c element origin).Within (Edits c g) := by
  have hadd := fun sc => updateClient_edits (c := c) (g := g) (f := fun x =>
    { x with stateChangeHandler := (x.stateChangeHandler.addStateChange sc).1 }) fun _ => rfl
  unfold Client.keepStateChange
  split <;> infer_instance

instance (algorithm : String) (element : Element) :
    (Client.reportEvent c g algorithm element).Within (Edits c g) := by
  unfold Client.reportEvent
  infer_instance

end Edits

/-! ## Leaving the group -/

namespace Client

/-- The server after the client has left its group. -/
def left (c : ClientRef) (v : VmRef) (newState : ClientState) (s : ServerState) : ServerState :=
  let idle := s.setClient c fun x => { x with visitingUrlGroup := none }
  if (s.client c).clientState = newState then idle
  else if newState = .waiting then
    (idle.setClient c fun x => { x with clientState := .waiting }).setVm v
      fun x => { x with vmState := .running }
  else lost c idle

/-- Only clients and machines are not as before. -/
theorem left_rest (c : ClientRef) (v : VmRef) (newState : ClientState) (s : ServerState) :
    ∃ client vm, left c v newState s = { s with client, vm } := by
  rw [left]
  split
  · exact ⟨_, _, rfl⟩
  · split
    · exact ⟨_, _, rfl⟩
    · obtain ⟨client, vm, he⟩ := lost_rest c (s.setClient c fun x => { x with visitingUrlGroup := none })
      exact ⟨client, vm, he⟩

/-- Leaving the group does not throw. -/
theorem run_leaveGroup {c : ClientRef} {v : VmRef} {newState : ClientState} {s : ServerState}
    (hv : (s.client c).virtualMachine = some v)
    (hnew : newState = .waiting ∨ newState = .disconnected) :
    (leaveGroup c newState).run s = (.ok (), left c v newState s) := by
  have hstate : ((s.setClient c fun x => { x with visitingUrlGroup := none }).client c).clientState =
      (s.client c).clientState := by simp [ServerState.setClient]
  have hvm : ((s.setClient c fun x => { x with visitingUrlGroup := none }).client c).virtualMachine =
      some v := by simpa [ServerState.setClient] using hv
  rw [leaveGroup, left]
  simp only [Exec.run_modify_bind]
  by_cases hsame : (s.client c).clientState = newState
  · rw [if_pos hsame, setClientState, depth, run_setClientStateIn_same (hstate.trans hsame)]
  · rw [if_neg hsame]
    rcases hnew with rfl | rfl
    · rw [if_pos rfl, run_setClientState_waiting hvm (by rw [hstate]; exact hsame)]
    · rw [if_neg ClientState.noConfusion, setClientState_disconnected]
      exact run_drop_idle (by simp [ServerState.setClient]) (by rw [hstate]; exact hsame)

end Client

/-! ## Messages that end a visit -/

/-- What a message that ends a visit comes to: it threw while it edited, or the group threw while it
changed its state, or the client has left the group.  `P` tells the new states, and what holds when
the group changes its state. -/
inductive Outcome (c : ClientRef) (g : GroupRef)
    (P : UrlGroupState → ClientState → ServerState → Prop) (s : ServerState) :
    Except JavaException Unit × ServerState → Prop
  | thrown {e : JavaException} {s' : ServerState} : Edits c g s s' → Outcome c g P s (.error e, s')
  | torn {e : JavaException} {s₁ s' : ServerState} {groupState : UrlGroupState}
      {newState : ClientState} : P groupState newState s₁ → Edits c g s s₁ →
      (UrlGroup.setUrlGroupState g groupState).run s₁ = (.error e, s') →
        Outcome c g P s (.error e, s')
  | left {v : VmRef} {s₁ s₂ : ServerState} {groupState : UrlGroupState} {newState : ClientState} :
      P groupState newState s₁ → Edits c g s s₁ → (s.client c).virtualMachine = some v →
      (UrlGroup.setUrlGroupState g groupState).run s₁ = (.ok (), s₂) →
        Outcome c g P s (.ok (), Client.left c v newState s₂)

/-- The code ends the visit of the group by a client on the machine `o`. -/
def Concludes (c : ClientRef) (g : GroupRef) (o : Option VmRef) (I : ServerState → Prop)
    (P : UrlGroupState → ClientState → ServerState → Prop) (x : Action Unit) : Prop :=
  ∀ s, I s → (s.client c).virtualMachine = o → Outcome c g P s (x.run s)

namespace Concludes

variable {c : ClientRef} {g : GroupRef} {o : Option VmRef} {I : ServerState → Prop}
  {P : UrlGroupState → ClientState → ServerState → Prop}

theorem weaken {J : ServerState → Prop} {x : Action Unit} (h : Concludes c g o J P x)
    (hI : ∀ s, I s → J s) : Concludes c g o I P x := fun s hs hv => h s (hI s hs) hv

theorem throw (e : JavaException) : Concludes c g o I P (throw e) :=
  fun s _ _ => .thrown (Std.Refl.refl s)

/-- Edits may come first. -/
theorem bind {α : Type} {x : Action α} {f : α → Action Unit} (hx : x.Within (Edits c g))
    (hf : ∀ a, Concludes c g o (fun s' => ∃ s, I s ∧ x.run s = (.ok a, s')) P (f a)) :
    Concludes c g o I P (x >>= f) := by
  intro s hI hv
  have hedits := hx.post s
  rw [Exec.run_bind]
  split
  · next a s₁ he =>
      rw [he] at hedits
      have hv₁ : (s₁.client c).virtualMachine = o := by rw [hedits.client]; exact hv
      have hrest := hf a s₁ ⟨s, hI, he⟩ hv₁
      revert hrest
      generalize (f a).run s₁ = r
      intro hrest
      cases hrest with
      | thrown h => exact .thrown (IsTrans.trans _ _ _ hedits h)
      | torn hP h hrun => exact .torn hP (IsTrans.trans _ _ _ hedits h) hrun
      | left hP h hv₂ hrun =>
          refine .left hP (IsTrans.trans _ _ _ hedits h) ?_ hrun
          rw [hv, ← hv₁, hv₂]
  · next e s₁ he =>
      rw [he] at hedits
      exact .thrown hedits

theorem edit {α : Type} {x : Action α} {f : α → Action Unit} (hx : x.Within (Edits c g))
    (hf : ∀ a, Concludes c g o (fun _ => True) P (f a)) : Concludes c g o I P (x >>= f) :=
  bind hx fun a => (hf a).weaken fun _ _ => trivial

/-- What is read off a state is what the state has. -/
theorem gets_bind {α : Type} {r : ServerState → α} {f : α → Action Unit}
    (hf : ∀ s, I s → (s.client c).virtualMachine = o → Concludes c g o (· = s) P (f (r s))) :
    Concludes c g o I P (Exec.gets r >>= f) := fun s hI hv => hf s hI hv s rfl hv

/-- What holds may be kept through the edits. -/
theorem bind_keep {α : Type} {x : Action α} {f : α → Action Unit} (hx : x.Within (Edits c g))
    (hI : x.Within (Exec.Stays I)) (hf : ∀ a, Concludes c g o I P (f a)) :
    Concludes c g o I P (x >>= f) := by
  refine bind hx fun a => (hf a).weaken ?_
  rintro s' ⟨s, hs, hrun⟩
  have hpost := hI.post s hs
  rwa [hrun] at hpost

/-- A reference is followed. -/
theorem deref {α : Type} {r : Option α} {f : α → Action Unit}
    (hf : ∀ a, r = some a → Concludes c g o I P (f a)) : Concludes c g o I P (deref r >>= f) := by
  cases r with
  | none => exact throw _
  | some a => exact hf a rfl

theorem ite {p : Prop} [Decidable p] {x y : Action Unit} (hx : p → Concludes c g o I P x)
    (hy : ¬ p → Concludes c g o I P y) : Concludes c g o I P (if p then x else y) := by
  split
  · next hp => exact hx hp
  · next hp => exact hy hp

/-- The group changes its state, and the client leaves it. -/
theorem leave {v : VmRef} (hv : o = some v) {groupState : UrlGroupState} {newState : ClientState}
    (hP : ∀ s, I s → P groupState newState s)
    (hnew : newState = .waiting ∨ newState = .disconnected) :
    Concludes c g o I P (do
      UrlGroup.setUrlGroupState g groupState
      Client.leaveGroup c newState) := by
  intro s hI hvm
  have hedits : Edits c g s s := Std.Refl.refl _
  rw [Exec.run_bind]
  split
  · next s₁ he =>
      have hkeep : GroupsOnly s s₁ := Exec.Within.of_run he
      rw [Client.run_leaveGroup (v := v) (by rw [hkeep]; exact hvm.trans hv) hnew]
      exact .left (hP s hI) hedits (hvm.trans hv) he
  · next e s₁ he => exact .torn (hP s hI) hedits he

end Concludes

end CaptureHpc.Server
