/-
# `Server.OneUrl` — what the methods of a URL leave alone

A method of `Url` changes the visit of its own URL, adds to the logs and makes
calls of the database with its own id (`Touches`), also when it throws.  Which
calls these are is said where it matters: `setUrlState_visited_stores` and
`setUrlState_error_stores` are the two transitions that store a status.
-/
import CaptureHpc.Server.VisitEnds

namespace CaptureHpc.Server

open Java

/-- The id of the URL that a call is made for. -/
def DatabaseCall.id : DatabaseCall → String
  | storeEvent id _ => id
  | storeErrorUrl id _ _ => id
  | setStatus id _ _ => id

/-- Only the store changed, of the visits only that of `u`, and the calls of the database that were
added are for `u`. -/
structure Touches (u : UrlRef) (s s' : ServerState) : Prop where
  rest : StoreOnly s s'
  others : ∀ w, w ≠ u → s'.visit w = s.visit w
  kept : ∀ call ∈ s.store.database, call ∈ s'.store.database
  added : ∀ call ∈ s'.store.database, call ∈ s.store.database ∨ call.id = (s.url u).id

namespace Touches
variable (u : UrlRef)

instance : Std.Refl (Touches u) :=
  ⟨fun _ => ⟨Std.Refl.refl _, fun _ _ => rfl, fun _ h => h, fun _ h => .inl h⟩⟩

instance : IsTrans ServerState (Touches u) := by
  refine ⟨fun s s' s'' h h' => ⟨IsTrans.trans _ _ _ h.rest h'.rest, fun w hw => ?_, fun call hcall =>
    h'.kept call (h.kept call hcall), fun call hcall => ?_⟩⟩
  · exact (h'.others w hw).trans (h.others w hw)
  · obtain hold | hnew := h'.added call hcall
    · exact h.added call hold
    · rw [h.rest] at hnew
      exact .inr hnew

instance (f : UrlVisit → UrlVisit) :
    (Exec.modify (ServerState.setVisit u f) : Action Unit).Within (Touches u) :=
  ⟨fun _ => ⟨rfl, fun _ hw => Function.update_of_ne hw _ _, fun _ h => h, fun _ h => .inl h⟩⟩

instance (line : LogLine) :
    (Exec.modify (ServerState.writeLog line) : Action Unit).Within (Touches u) :=
  ⟨fun _ => ⟨rfl, fun _ _ => rfl, fun _ h => h, fun _ h => .inl h⟩⟩

/-- A call with the id of the URL. -/
theorem callDatabase {call : DatabaseCall} {s : ServerState} (h : call.id = (s.url u).id) :
    Touches u s (s.callDatabase call) := by
  refine ⟨rfl, fun _ _ => rfl, fun _ h => List.mem_append_left _ h, fun c hc => ?_⟩
  obtain hold | hnew := List.mem_append.mp hc
  · exact .inl hold
  · rw [List.mem_singleton.mp hnew]
    exact .inr h

instance (time : Option String) : (Url.setVisitStartTime u time).Within (Touches u) := by
  unfold Url.setVisitStartTime
  infer_instance

instance (time : Option String) : (Url.setVisitFinishTime u time).Within (Touches u) := by
  unfold Url.setVisitFinishTime
  infer_instance

instance (malicious : Bool) : (Url.setMalicious u malicious).Within (Touches u) := by
  unfold Url.setMalicious
  infer_instance

instance (n : Int) : (Url.setMajorErrorCode u n).Within (Touches u) := by
  unfold Url.setMajorErrorCode
  infer_instance

instance (n : Int) : (Url.setMinorErrorCode u n).Within (Touches u) := by
  unfold Url.setMinorErrorCode
  infer_instance

instance : (Url.openLog u).Within (Touches u) := by
  unfold Url.openLog
  infer_instance

instance (event : String) : (Url.noteFirstStateChange u event).Within (Touches u) := by
  have hdate : ∀ text, (match parseDate text with
      | some date => do
        updateVisit u fun x => { x with firstStateChange := some date }
        return true
      | none => return false : Action Bool).Within (Touches u) := by
    intro text
    cases parseDate text <;> infer_instance
  unfold Url.noteFirstStateChange
  infer_instance

instance (event : String) : (Url.appendToLog u event).Within (Touches u) := by
  have hstore : (readUrl u >>= fun x => Server.callDatabase (.storeEvent x.id event) :
      Action Unit).Within (Touches u) := ⟨fun _ => callDatabase u rfl⟩
  unfold Url.appendToLog
  infer_instance

instance (event : String) : (Url.writeEventToLog u event).Within (Touches u) := by
  unfold Url.writeEventToLog
  infer_instance

instance : (Url.closeEventLog u).Within (Touches u) := by
  unfold Url.closeEventLog
  infer_instance

instance (x : UrlVisit) : (Url.storeError u x).Within (Touches u) := by
  have hstore : (readUrl u >>= fun y =>
      Server.callDatabase (.storeErrorUrl y.id x.majorErrorCode x.minorErrorCode) :
        Action Unit).Within (Touches u) := ⟨fun _ => callDatabase u rfl⟩
  unfold Url.storeError
  infer_instance

instance (status : Option String) : (Url.storeStatus u status).Within (Touches u) := by
  have hstore : ∀ status, (readUrl u >>= fun x => Url.getVisitStartTime u >>= fun time =>
      Server.callDatabase (.setStatus x.id status time) : Action Unit).Within (Touches u) := by
    intro status
    refine ⟨fun s => ?_⟩
    simp only [Url.getVisitStartTime, bind_assoc, Exec.run_gets_bind]
    cases (s.visit u).visitStartTime with
    | none =>
        show Touches u s s
        exact Std.Refl.refl s
    | some date =>
        show Touches u s (s.callDatabase (.setStatus (s.url u).id status (formatDate date)))
        exact callDatabase u rfl
  unfold Url.storeStatus
  cases status <;> infer_instance

instance : (UrlsController.update u).Within (Touches u) := by
  have hadd : (Exec.modify fun s : ServerState => { s with store :=
      { s.store with errorUrlList := s.store.errorUrlList ++ [u] } } : Action Unit).Within
        (Touches u) := ⟨fun _ => ⟨rfl, fun _ _ => rfl, fun _ h => h, fun _ h => .inl h⟩⟩
  unfold UrlsController.update
  infer_instance

instance (newState : UrlState) : (Url.setUrlState u newState).Within (Touches u) := by
  unfold Url.setUrlState
  cases newState <;> infer_instance

end Touches

/-! ## What is stored -/

section Stores
variable (u : UrlRef)

/-- The database has a status for an id. -/
def StatusStored (s : ServerState) (id : String) : Prop :=
  ∃ status time, DatabaseCall.setStatus id status time ∈ s.store.database

variable {u} {s : ServerState}

theorem Touches.statusStored {s' : ServerState} (h : Touches u s s') {id : String}
    (hid : StatusStored s id) : StatusStored s' id := by
  obtain ⟨status, time, hcall⟩ := hid
  exact ⟨status, time, h.kept _ hcall⟩

/-- A status is stored only for the URL of the method. -/
theorem Touches.of_statusStored {s' : ServerState} (h : Touches u s s') {id : String}
    (hid : StatusStored s' id) : StatusStored s id ∨ id = (s.url u).id := by
  obtain ⟨status, time, hcall⟩ := hid
  exact (h.added _ hcall).imp_left fun hold => ⟨status, time, hold⟩

/-- What is left of `setUrlState` when there is a status. -/
theorem storeStatus_stores (hdatabase : s.config.database = true)
    (hstart : (s.visit u).visitStartTime.isSome = true) (status : String) :
    StatusStored ((Url.storeStatus u (some status) >>= fun _ => UrlsController.update u).run s).2
      (s.url u).id := by
  obtain ⟨date, hdate⟩ := Option.isSome_iff_exists.mp hstart
  have hrun : (Url.storeStatus u (some status)).run s =
      (.ok (), s.callDatabase (.setStatus (s.url u).id status (formatDate date))) := by
    simp [Url.storeStatus, Url.getVisitStartTime, hdatabase, hdate]
  rw [Exec.run_bind_ok hrun]
  have hupdate := Exec.Within.post (R := Touches u) (x := UrlsController.update u)
    (s.callDatabase (.setStatus (s.url u).id status (formatDate date)))
  refine hupdate.statusStored ⟨status, formatDate date, ?_⟩
  exact List.mem_append_right _ (List.mem_singleton.mpr rfl)

/-- Entering VISITED gives a status, if the verdict and the times are known. -/
theorem run_enterVisited (hstart : (s.visit u).visitStartTime.isSome = true)
    (hfinish : (s.visit u).visitFinishTime.isSome = true)
    (hmalicious : (s.visit u).malicious.isSome = true) :
    ∃ status s', (Url.enterVisited u).run s = (.ok (some status), s') := by
  obtain ⟨start, hstart⟩ := Option.isSome_iff_exists.mp hstart
  obtain ⟨finish, hfinish⟩ := Option.isSome_iff_exists.mp hfinish
  obtain ⟨malicious, hmalicious⟩ := Option.isSome_iff_exists.mp hmalicious
  have hlogged : ∀ line, ((s.writeLog line).visit u) = s.visit u := fun _ => rfl
  simp only [Url.enterVisited, Exec.run_modify_bind, Exec.run_gets_bind, hlogged, hstart, hfinish,
    hmalicious, Exec.orThrow_some, Exec.pure_bind]
  cases malicious with
  | true => exact ⟨"malicious", _, rfl⟩
  | false => exact ⟨"benign", _, rfl⟩

/-- A transition that gives a status stores it. -/
theorem statusStored_of_enter {newState : UrlState} {enter : Action (Option String)}
    [enter.Within (Lasts UrlVisit.visitStartTime)] [enter.Within (Touches u)] {status : String}
    {s₁ : ServerState} (hdatabase : s.config.database = true)
    (hstart : (s.visit u).visitStartTime.isSome = true)
    (hrun : enter.run (s.setVisit u fun x => { x with urlState := newState }) =
      (.ok (some status), s₁)) :
    StatusStored ((Url.storeStatus u (some status) >>= fun _ => UrlsController.update u).run s₁).2
      (s.url u).id := by
  have hstore : StoreOnly (s.setVisit u fun x => { x with urlState := newState }) s₁ :=
    (Exec.Within.of_run (R := Touches u) hrun).rest
  have hconfig : s₁.config.database = true := by
    rw [hstore]
    exact hdatabase
  have hstart₁ : (s₁.visit u).visitStartTime = (s.visit u).visitStartTime := by
    refine (congrFun (Exec.Within.of_run (R := Lasts UrlVisit.visitStartTime) hrun) u).trans ?_
    show ((s.setVisit u fun x => { x with urlState := newState }).visit u).visitStartTime = _
    rw [ServerState.visit_setVisit]
  have hurl : s₁.url = s.url := by
    rw [hstore]
    rfl
  rw [← hurl]
  refine storeStatus_stores hconfig ?_ status
  rw [hstart₁]
  exact hstart

theorem setUrlState_visited_stores (hdatabase : s.config.database = true)
    (hstart : (s.visit u).visitStartTime.isSome = true)
    (hfinish : (s.visit u).visitFinishTime.isSome = true)
    (hmalicious : (s.visit u).malicious.isSome = true) (hchange : (s.visit u).urlState ≠ .visited) :
    StatusStored ((Url.setUrlState u .visited).run s).2 (s.url u).id := by
  have hvisit := ServerState.visit_setVisit u (fun x => { x with urlState := .visited }) s
  obtain ⟨status, s₁, hrun⟩ := run_enterVisited
    (s := s.setVisit u fun x => { x with urlState := .visited }) (by rw [hvisit]; exact hstart)
    (by rw [hvisit]; exact hfinish) (by rw [hvisit]; exact hmalicious)
  have hsplit : (Url.setUrlState u .visited).run s =
      (Url.storeStatus u (some status) >>= fun _ => UrlsController.update u).run s₁ := by
    simp only [Url.setUrlState, Exec.run_gets_bind, ne_eq, hchange, not_false_eq_true, if_true,
      Exec.run_modify_bind, Exec.run_bind_ok hrun]
  rw [hsplit]
  exact statusStored_of_enter hdatabase hstart hrun

theorem setUrlState_error_stores (hdatabase : s.config.database = true)
    (hstart : (s.visit u).visitStartTime.isSome = true) (hchange : (s.visit u).urlState ≠ .error) :
    StatusStored ((Url.setUrlState u .error).run s).2 (s.url u).id := by
  obtain ⟨status, s₁, hrun, hstatus⟩ :=
    run_enterError u (s.setVisit u fun x => { x with urlState := .error })
  obtain ⟨status, rfl⟩ := Option.isSome_iff_exists.mp hstatus
  have hsplit : (Url.setUrlState u .error).run s =
      (Url.storeStatus u (some status) >>= fun _ => UrlsController.update u).run s₁ := by
    simp only [Url.setUrlState, Exec.run_gets_bind, ne_eq, hchange, not_false_eq_true, if_true,
      Exec.run_modify_bind, Exec.run_bind_ok hrun]
  rw [hsplit]
  exact statusStored_of_enter hdatabase hstart hrun

end Stores

end CaptureHpc.Server
