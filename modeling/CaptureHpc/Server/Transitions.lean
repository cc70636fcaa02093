/-
# `Server.Transitions` — states and error codes of URLs

A URL is in a state and has an error code.  Of all that `setUrlState` does only
the assignment changes the one, and nothing changes the other
(`states_setUrlState`), also when it throws.  From this follows what becomes of
the URLs of a group that changes its state: those that are reached are `failed`,
and if nothing is thrown all are.
-/
import CaptureHpc.Server.UrlGroup

namespace CaptureHpc.Server

open Java

/-- The states and error codes of the URLs. -/
def states (s : ServerState) (u : UrlRef) : UrlState × ErrorCode :=
  ((s.visit u).urlState, (s.visit u).majorErrorCode)

/-- They stay. -/
abbrev StatesKept : ServerState → ServerState → Prop := Exec.Same states

theorem ErrorCode.ofNumber_errorCode {code : ErrorCode} :
    ErrorCode.ofNumber code.errorCode = .ok ↔ code = .ok := by
  cases code <;> decide

/-! ## What keeps them -/

section Kept
variable (u : UrlRef)

theorem states_setVisit (f : UrlVisit → UrlVisit) (s : ServerState) :
    states (s.setVisit u f) = Function.update (states s) u
      ((f (s.visit u)).urlState, (f (s.visit u)).majorErrorCode) := by
  funext w
  show (((Function.update s.store.visit u (f (s.store.visit u))) w).urlState,
    ((Function.update s.store.visit u (f (s.store.visit u))) w).majorErrorCode) = _
  by_cases hw : w = u
  · subst hw
    rw [Function.update_self, Function.update_self]
    rfl
  · rw [Function.update_of_ne hw, Function.update_of_ne hw]
    rfl

theorem updateVisit_statesKept {f : UrlVisit → UrlVisit} (h : ∀ x,
    (f x).urlState = x.urlState ∧ (f x).majorErrorCode = x.majorErrorCode) :
    (updateVisit u f).Within StatesKept := by
  refine ⟨fun s => ?_⟩
  obtain ⟨hstate, hcode⟩ := h (s.visit u)
  show states (s.setVisit u f) = states s
  rw [states_setVisit, hstate, hcode]
  exact Function.update_eq_self u (states s)

instance (line : LogLine) :
    (Exec.modify (ServerState.writeLog line) : Action Unit).Within StatesKept := ⟨fun _ => rfl⟩

instance (call : DatabaseCall) :
    (Exec.modify (ServerState.callDatabase call) : Action Unit).Within StatesKept :=
  ⟨fun _ => rfl⟩

instance (malicious : Bool) : (Url.setMalicious u malicious).Within StatesKept :=
  updateVisit_statesKept u fun _ => ⟨rfl, rfl⟩

instance (time : Option String) : (Url.setVisitStartTime u time).Within StatesKept := by
  have := fun date => updateVisit_statesKept u
    (f := fun x => { x with visitStartTime := some date }) fun _ => ⟨rfl, rfl⟩
  unfold Url.setVisitStartTime
  infer_instance

instance (time : Option String) : (Url.setVisitFinishTime u time).Within StatesKept := by
  have := fun date => updateVisit_statesKept u
    (f := fun x => { x with visitFinishTime := some date }) fun _ => ⟨rfl, rfl⟩
  unfold Url.setVisitFinishTime
  infer_instance

instance (n : Int) : (Url.setMinorErrorCode u n).Within StatesKept :=
  updateVisit_statesKept u fun _ => ⟨rfl, rfl⟩

instance : (Url.closeEventLog u).Within StatesKept :=
  updateVisit_statesKept u fun _ => ⟨rfl, rfl⟩

instance : (Url.openLog u).Within StatesKept := by
  have := updateVisit_statesKept u (f := fun x => { x with logFile := some [] }) fun _ => ⟨rfl, rfl⟩
  unfold Url.openLog
  infer_instance

instance (event : String) : (Url.noteFirstStateChange u event).Within StatesKept := by
  have := fun date => updateVisit_statesKept u
    (f := fun x => { x with firstStateChange := some date }) fun _ => ⟨rfl, rfl⟩
  have hdate : ∀ text, (match parseDate text with
      | some date => do
        updateVisit u fun x => { x with firstStateChange := some date }
        return true
      | none => return false : Action Bool).Within StatesKept := by
    intro text
    cases parseDate text <;> infer_instance
  unfold Url.noteFirstStateChange
  infer_instance

instance (event : String) : (Url.appendToLog u event).Within StatesKept := by
  have := updateVisit_statesKept u
    (f := fun x => { x with logFile := x.logFile.map (· ++ [event]) }) fun _ => ⟨rfl, rfl⟩
  unfold Url.appendToLog
  infer_instance

instance (event : String) : (Url.writeEventToLog u event).Within StatesKept := by
  unfold Url.writeEventToLog
  infer_instance

instance : (UrlsController.update u).Within StatesKept := by
  have h : (Exec.modify fun s : ServerState => { s with store :=
      { s.store with errorUrlList := s.store.errorUrlList ++ [u] } } : Action Unit).Within StatesKept :=
    ⟨fun _ => rfl⟩
  unfold UrlsController.update
  infer_instance

variable (g : GroupRef)

instance (f : UrlGroup → UrlGroup) :
    (Exec.modify (ServerState.setGroup g f) : Action Unit).Within StatesKept := ⟨fun _ => rfl⟩

instance (map : StringMap) : (UrlGroup.writeEventsToLog g map).Within StatesKept := by
  unfold UrlGroup.writeEventsToLog
  refine Exec.Within.bind inferInstance fun group => Exec.Within.forM _ fun u _ => ?_
  refine Exec.Within.bind inferInstance fun x => ?_
  cases map.lookup (Url.getUrl x) <;> infer_instance

instance (algorithm : Option String) (malicious : Bool) (map : Option StringMap) :
    (UrlGroup.setMalicious g algorithm malicious map).Within StatesKept := by
  have hsingle : ∀ urlList : List UrlRef, (match urlList with
      | [u] => Url.setMalicious u true
      | _ => pure () : Action Unit).Within StatesKept := by
    intro urlList
    split <;> infer_instance
  have hmap : ∀ u, (UrlGroup.setMaliciousFromMap malicious map u).Within StatesKept := by
    intro u
    unfold UrlGroup.setMaliciousFromMap
    cases map <;> infer_instance
  unfold UrlGroup.setMalicious
  infer_instance

end Kept

/-! ## One URL -/

section One
variable (g : GroupRef) (u : UrlRef) (s : ServerState)

/-- **A transition changes the state of its URL**, whether it throws or not. -/
theorem states_setUrlState (newState : UrlState) :
    states ((Url.setUrlState u newState).run s).2 =
      Function.update (states s) u (newState, (s.visit u).majorErrorCode) := by
  by_cases hsame : (s.visit u).urlState = newState
  · simp only [Url.setUrlState, Exec.run_gets_bind, hsame, ne_eq, not_true_eq_false, if_false,
      Exec.run_pure]
    rw [← hsame]
    exact (Function.update_eq_self u (states s)).symm
  · simp only [Url.setUrlState, Exec.run_gets_bind, ne_eq, hsame, not_false_eq_true, if_true,
      Exec.run_modify_bind]
    refine Eq.trans (@Exec.Within.post _ _ _ StatesKept _ ?_ _) (states_setVisit u _ s)
    cases newState <;> infer_instance

theorem states_setMajorErrorCode (n : Int) :
    states ((Url.setMajorErrorCode u n).run s).2 =
      Function.update (states s) u ((s.visit u).urlState, ErrorCode.ofNumber n) :=
  states_setVisit u _ s

/-- A URL of a group that failed. -/
def failed : UrlState × ErrorCode :=
  (.error, if (s.visit u).majorErrorCode = .ok then
    ErrorCode.ofNumber (s.group g).majorErrorCode.errorCode else (s.visit u).majorErrorCode)

theorem states_passOn_error :
    states ((UrlGroup.passOn g .error u).run s).2 = Function.update (states s) u (failed g u s) := by
  by_cases hok : (s.visit u).majorErrorCode = .ok
  · simp only [UrlGroup.passOn, Exec.run_gets_bind, hok, if_true, Url.setMajorErrorCode,
      Exec.run_modify_bind, failed]
    rw [states_setUrlState, states_setVisit, Function.update_idem]
    simp [ServerState.visit, ServerState.setVisit]
  · simp only [UrlGroup.passOn, Exec.run_gets_bind, hok, if_false, failed]
    exact states_setUrlState u s .error

/-- The controller gives a URL the code of its group. -/
theorem states_failUrl (group : UrlGroup) :
    states ((UrlGroupsController.failUrl group u).run s).2 =
      Function.update (states s) u (.error, ErrorCode.ofNumber group.majorErrorCode.errorCode) := by
  simp only [UrlGroupsController.failUrl, Url.setMajorErrorCode, Exec.run_modify_bind]
  rw [states_setUrlState, states_setVisit, Function.update_idem]
  simp [ServerState.visit, ServerState.setVisit]

end One

/-! ## The URLs of a group -/

section All
variable {g : GroupRef}

/-- A URL fails once. -/
theorem failed_again {w : UrlRef} {s s' : ServerState} (hgroup : s'.group g = s.group g)
    (h : states s' w = states s w ∨ states s' w = failed g w s) : failed g w s' = failed g w s := by
  rcases h with h | h
  · have hcode : (s'.visit w).majorErrorCode = (s.visit w).majorErrorCode := congrArg Prod.snd h
    rw [failed, hcode, hgroup, failed]
  · have hcode : (s'.visit w).majorErrorCode = (failed g w s).2 := congrArg Prod.snd h
    refine Prod.ext rfl ?_
    show (if (s'.visit w).majorErrorCode = .ok then
      ErrorCode.ofNumber (s'.group g).majorErrorCode.errorCode else (s'.visit w).majorErrorCode) = _
    rw [hcode, hgroup]
    by_cases hok : (s.visit w).majorErrorCode = .ok
    · have hfailed : (failed g w s).2 = ErrorCode.ofNumber (s.group g).majorErrorCode.errorCode := by
        rw [failed, if_pos hok]
      rw [hfailed, ite_self]
    · have hfailed : (failed g w s).2 = (s.visit w).majorErrorCode := by rw [failed, if_neg hok]
      rw [hfailed, if_neg hok]

/-- The URLs that are reached are failed, and if nothing is thrown all are. -/
theorem of_run_failAll : ∀ {l : List UrlRef} {s s' : ServerState} {r : Except JavaException Unit},
    (l.forM (UrlGroup.passOn g .error)).run s = (r, s') →
      (∀ w, states s' w = states s w ∨ (w ∈ l ∧ states s' w = failed g w s)) ∧
        (r = .ok () → ∀ w ∈ l, states s' w = failed g w s)
  | [], s, s', r, h => by
      obtain rfl : s = s' := congrArg Prod.snd h
      exact ⟨fun _ => .inl rfl, fun _ w hw => absurd hw List.not_mem_nil⟩
  | u :: l, s, s', r, h => by
      change (UrlGroup.passOn g .error u >>= fun _ => l.forM (UrlGroup.passOn g .error)).run s = _ at h
      have hstates := states_passOn_error g u s
      rw [Exec.run_bind] at h
      split at h
      · next a s₁ hu =>
          rw [hu] at hstates
          have hkeep : StoreOnly s s₁ := Exec.Within.of_run hu
          have hgroup : s₁.group g = s.group g := by rw [hkeep]
          have hone : ∀ w, states s₁ w = states s w ∨ states s₁ w = failed g w s := by
            intro w
            by_cases hw : w = u
            · subst hw
              exact .inr (by rw [hstates, Function.update_self])
            · exact .inl (by rw [hstates, Function.update_of_ne hw])
          obtain ⟨hsome, hall⟩ := of_run_failAll h
          have hagain := fun w => failed_again hgroup (hone w)
          constructor
          · intro w
            by_cases hw : w = u
            · subst hw
              refine .inr ⟨List.mem_cons_self, ?_⟩
              rcases hsome w with h₁ | ⟨-, h₁⟩
              · rw [h₁, hstates, Function.update_self]
              · rw [h₁, hagain]
            · rcases hsome w with h₁ | ⟨hmem, h₁⟩
              · exact .inl (by rw [h₁, hstates, Function.update_of_ne hw])
              · exact .inr ⟨List.mem_cons_of_mem _ hmem, by rw [h₁, hagain]⟩
          · intro hr w hw
            by_cases hwl : w ∈ l
            · rw [hall hr w hwl, hagain]
            · obtain rfl := (List.mem_cons.mp hw).resolve_right hwl
              rcases hsome w with h₁ | ⟨hmem, -⟩
              · rw [h₁, hstates, Function.update_self]
              · exact absurd hmem hwl
      · next e s₁ hu =>
          rw [hu] at hstates
          obtain ⟨rfl, rfl⟩ := Prod.mk.inj h
          refine ⟨fun w => ?_, nofun⟩
          by_cases hw : w = u
          · subst hw
            exact .inr ⟨List.mem_cons_self, by rw [hstates, Function.update_self]⟩
          · exact .inl (by rw [hstates, Function.update_of_ne hw])

/-- The URLs of a group whose failure is passed on to the controller are all in ERROR. -/
theorem errors_of_run_failAll {l : List UrlRef} {s s' : ServerState}
    (h : (l.forM (UrlGroup.passOn g .error)).run s = (.ok (), s')) :
    ∀ w ∈ l, (s'.visit w).urlState = .error :=
  fun w hw => congrArg Prod.fst ((of_run_failAll h).2 rfl w hw)

end All

end CaptureHpc.Server
