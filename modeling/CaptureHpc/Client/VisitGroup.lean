/-
# `Client.VisitGroup` — the workers that visit a group of URLs

`visitGroup` hands the URLs of a group to worker threads.  It goes over the
workers and gives the next URL to each that is not busy, waits until a worker
signals that it has finished, and counts a URL if that worker is not busy.  It
is the same in both plugins for the Internet Explorer.

A worker is not busy any more before it signals, so it may be given the next
URL before its last one is counted.  Then the signal is found with the worker
busy and is not counted, or meets the signal of the next URL in the auto-reset
event.  `lost` counts these, and `Sound.counted` says where all the others are.
-/
import CaptureHpc.Lib.Machine
import Mathlib.Algebra.BigOperators.Fin
import Mathlib.Data.Multiset.Range

namespace CaptureHpc.Client

/-! ## The threads -/

/-- Where `InternetExplorerWorker` is. -/
inductive WorkerStep where
  /-- In `WaitForSingleObject`. -/
  | waiting
  | visiting (url : Nat)
  /-- It is not busy any more, and is to signal. -/
  | cleared
deriving DecidableEq

structure WorkerThread where
  step : WorkerStep := .waiting
  busy : Bool := false
  /-- The number of the URL in `worker_thread_data`. -/
  data : Option Nat := none
  hasData : Bool := false
  finished : Bool := false

/-- Where `visitGroup` is. -/
inductive Dispatcher (workers : Nat) where
  /-- At the head of the loop over the workers. -/
  | testing (i : Nat)
  /-- This worker is not busy and is to be given a URL. -/
  | giving (i : Fin workers)
  /-- Its event is to be set. -/
  | signalling (i : Fin workers)
  /-- In `WaitForMultipleObjects`. -/
  | waiting
  /-- The wait has ended with this worker. -/
  | counting (i : Fin workers)
  | ended

structure VisitGroup (workers : Nat) where
  worker : Fin workers → WorkerThread
  dispatcher : Dispatcher workers
  nVisitedUrls : Nat := 0
  toVisit : Nat := 0
  nVisiting : Nat := 0
  /-- Which URL each worker was given, in order; nobody reads it. -/
  handed : List (Fin workers × Nat) := []
  /-- Which URL each worker has begun to visit; nobody reads it. -/
  visits : List (Fin workers × Nat) := []
  /-- How many URLs were finished and cannot be counted any more; nobody reads it. -/
  lost : Nat := 0

inductive GroupAction (workers : Nat) where
  /-- A step of `visitGroup`. -/
  | dispatch
  /-- The wait ends with the signal of this worker. -/
  | finished (i : Fin workers)
  | timeout
  /-- A step of this worker. -/
  | work (i : Fin workers)

namespace VisitGroup

variable {workers : Nat}

def setWorker (s : VisitGroup workers) (i : Fin workers) (w : WorkerThread) : VisitGroup workers :=
  { s with worker := Function.update s.worker i w }

/-- `while(n_visited_urls < n_urls)`. -/
def again (urls nVisitedUrls : Nat) : Dispatcher workers :=
  if nVisitedUrls < urls then .testing 0 else .ended

def dispatch (urls : Nat) (s : VisitGroup workers) : Option (VisitGroup workers) :=
  match s.dispatcher with
  | .testing k =>
      if h : k < workers then
        if !(s.worker ⟨k, h⟩).busy && s.nVisiting < urls then some { s with dispatcher := .giving ⟨k, h⟩ }
        else some { s with dispatcher := .testing (k + 1) }
      else some { s with dispatcher := .waiting }
  | .giving i =>
      some { s.setWorker i { s.worker i with data := some s.toVisit, busy := true } with
        toVisit := s.toVisit + 1, nVisiting := s.nVisiting + 1
        handed := s.handed ++ [(i, s.toVisit)], dispatcher := .signalling i }
  | .signalling i =>
      some { s.setWorker i { s.worker i with hasData := true } with
        dispatcher := .testing (i + 1) }
  | .waiting => none
  | .counting i =>
      if !(s.worker i).busy then
        some { s with
          nVisitedUrls := s.nVisitedUrls + 1, dispatcher := again urls (s.nVisitedUrls + 1) }
      else some { s with lost := s.lost + 1, dispatcher := again urls s.nVisitedUrls }
  | .ended => none

/-- A worker without data waits again. -/
def work (s : VisitGroup workers) (i : Fin workers) : Option (VisitGroup workers) :=
  let w := s.worker i
  match w.step with
  | .waiting =>
      if w.hasData then
        match w.data with
        | some url => some { s.setWorker i { w with step := .visiting url, hasData := false } with
            visits := s.visits ++ [(i, url)] }
        | none => some (s.setWorker i { w with hasData := false })
      else none
  | .visiting _ => some (s.setWorker i { w with step := .cleared, busy := false })
  | .cleared =>
      some { s.setWorker i { w with step := .waiting, finished := true } with
        lost := if w.finished then s.lost + 1 else s.lost }

/-- The wait ends with the first of the events that are signalled. -/
def next (urls : Nat) (s : VisitGroup workers) : GroupAction workers → Option (VisitGroup workers)
  | .dispatch => s.dispatch urls
  | .finished i =>
      match s.dispatcher with
      | .waiting =>
          if (s.worker i).finished ∧ ∀ j < i, (s.worker j).finished = false then
            some { s.setWorker i { s.worker i with finished := false } with dispatcher := .counting i }
          else none
      | _ => none
  | .timeout =>
      match s.dispatcher with
      | .waiting => some { s with dispatcher := again urls s.nVisitedUrls }
      | _ => none
  | .work i => s.work i

/-- The visit of a group with this many URLs; the workers may have data of an earlier one. -/
def machine (workers urls : Nat) : Machine (VisitGroup workers) (GroupAction workers) where
  init s := ∃ data : Fin workers → Option Nat, s = { worker := fun i => { data := data i }, dispatcher := again urls 0 }
  next := next urls

/-! ## What is to hold -/

/-- The URLs are handed out in order, each once, and each worker visits what it was given. -/
structure HandedOnce (urls : Nat) (s : VisitGroup workers) : Prop where
  order : s.handed.map Prod.snd = List.range s.nVisiting
  bound : s.nVisiting ≤ urls
  visits : s.visits ≤ (s.handed : Multiset (Fin workers × Nat))
  allVisited : (∀ i, (s.worker i).step = .waiting ∧ (s.worker i).busy = false) →
    s.visits = (s.handed : Multiset (Fin workers × Nat))

/-- All URLs are finished, there is nothing to count, and the count is too low. -/
structure Stuck (urls : Nat) (s : VisitGroup workers) : Prop where
  handed : s.nVisiting = urls
  idle : ∀ i, (s.worker i).step = .waiting ∧ (s.worker i).busy = false
  noSignal : ∀ i, (s.worker i).finished = false
  notCounting : ∀ i, s.dispatcher ≠ .counting i
  short : s.nVisitedUrls < urls

/-- **The condition on a step**: the signal of a worker does not meet an earlier one of the same
worker, and a worker whose signal has ended the wait is not busy again. -/
def Kept (s : VisitGroup workers) : GroupAction workers → Prop
  | .work i => (s.worker i).step = .cleared → (s.worker i).finished = false
  | .dispatch =>
      match s.dispatcher with
      | .counting i => (s.worker i).busy = false
      | _ => True
  | .finished _ | .timeout => True

instance (s : VisitGroup workers) : ∀ a, Decidable (s.Kept a)
  | .work i => inferInstanceAs (Decidable ((s.worker i).step = .cleared → (s.worker i).finished = false))
  | .dispatch =>
      match hd : s.dispatcher with
      | .counting i => decidable_of_iff ((s.worker i).busy = false) (by rw [Kept, hd])
      | .testing _ | .giving _ | .signalling _ | .waiting | .ended =>
          .isTrue (by rw [Kept, hd]; trivial)
  | .finished _ | .timeout => .isTrue trivial

/-! ## What a step can do -/

inductive Step (urls : Nat) (s : VisitGroup workers) :
    GroupAction workers → VisitGroup workers → Prop
  | skipped {i : Fin workers} : s.dispatcher = .testing i →
      (s.worker i).busy = true ∨ urls ≤ s.nVisiting →
        s.Step urls .dispatch { s with dispatcher := .testing (i + 1) }
  | swept {k : Nat} : s.dispatcher = .testing k → workers ≤ k →
      s.Step urls .dispatch { s with dispatcher := .waiting }
  | timedOut : s.dispatcher = .waiting →
      s.Step urls .timeout { s with dispatcher := again urls s.nVisitedUrls }
  | chosen {i : Fin workers} : s.dispatcher = .testing i → (s.worker i).busy = false →
      s.nVisiting < urls → s.Step urls .dispatch { s with dispatcher := .giving i }
  | given {i : Fin workers} : s.dispatcher = .giving i →
      s.Step urls .dispatch
        { s.setWorker i { s.worker i with data := some s.toVisit, busy := true } with
          toVisit := s.toVisit + 1, nVisiting := s.nVisiting + 1
          handed := s.handed ++ [(i, s.toVisit)], dispatcher := .signalling i }
  | signalled {i : Fin workers} : s.dispatcher = .signalling i →
      s.Step urls .dispatch { s.setWorker i { s.worker i with hasData := true } with
        dispatcher := .testing (i + 1) }
  | counted {i : Fin workers} : s.dispatcher = .counting i → (s.worker i).busy = false →
      s.Step urls .dispatch { s with
        nVisitedUrls := s.nVisitedUrls + 1, dispatcher := again urls (s.nVisitedUrls + 1) }
  | discarded {i : Fin workers} : s.dispatcher = .counting i → (s.worker i).busy = true →
      s.Step urls .dispatch { s with
        lost := s.lost + 1, dispatcher := again urls s.nVisitedUrls }
  | woken {i : Fin workers} : s.dispatcher = .waiting → (s.worker i).finished = true →
      s.Step urls (.finished i)
        { s.setWorker i { s.worker i with finished := false } with dispatcher := .counting i }
  | took {i : Fin workers} {url : Nat} : (s.worker i).step = .waiting →
      (s.worker i).hasData = true → (s.worker i).data = some url →
        s.Step urls (.work i)
          { s.setWorker i { s.worker i with step := .visiting url, hasData := false } with
            visits := s.visits ++ [(i, url)] }
  | idled {i : Fin workers} : (s.worker i).step = .waiting → (s.worker i).data = none →
      (s.worker i).hasData = true →
        s.Step urls (.work i)
          (s.setWorker i { s.worker i with step := .waiting, hasData := false })
  | visited {i : Fin workers} {url : Nat} : (s.worker i).step = .visiting url →
      s.Step urls (.work i) (s.setWorker i { s.worker i with step := .cleared, busy := false })
  | announced {i : Fin workers} : (s.worker i).step = .cleared → (s.worker i).finished = false →
      s.Step urls (.work i) (s.setWorker i { s.worker i with step := .waiting, finished := true })
  | merged {i : Fin workers} : (s.worker i).step = .cleared → (s.worker i).finished = true →
      s.Step urls (.work i) { s.setWorker i { s.worker i with step := .waiting, finished := true } with
        lost := s.lost + 1 }

variable {urls : Nat} {s s' : VisitGroup workers} {a : GroupAction workers}

theorem again_ne (workers urls n : Nat) : (∀ i, (again urls n : Dispatcher workers) ≠ .giving i) ∧
    (∀ i, (again urls n : Dispatcher workers) ≠ .signalling i) ∧
      ∀ i, (again urls n : Dispatcher workers) ≠ .counting i := by
  unfold again
  split <;> exact ⟨nofun, nofun, nofun⟩

theorem step_of_dispatch (hnext : s.dispatch urls = some s') : s.Step urls .dispatch s' := by
  cases hd : s.dispatcher with
  | testing k =>
      simp only [dispatch, hd] at hnext
      split_ifs at hnext with hk htest
      · obtain rfl := Option.some.inj hnext
        simp only [Bool.and_eq_true, Bool.not_eq_true', decide_eq_true_eq] at htest
        exact .chosen (i := ⟨k, hk⟩) hd htest.1 htest.2
      · obtain rfl := Option.some.inj hnext
        refine .skipped (i := ⟨k, hk⟩) hd ?_
        cases hbusy : (s.worker ⟨k, hk⟩).busy with
        | true => exact .inl rfl
        | false => exact .inr (by simpa [hbusy] using htest)
      · obtain rfl := Option.some.inj hnext
        exact .swept hd (Nat.le_of_not_lt hk)
  | giving i =>
      simp only [dispatch, hd] at hnext
      obtain rfl := Option.some.inj hnext
      exact .given hd
  | signalling i =>
      simp only [dispatch, hd] at hnext
      obtain rfl := Option.some.inj hnext
      exact .signalled hd
  | waiting =>
      simp only [dispatch, hd] at hnext
      cases hnext
  | counting i =>
      simp only [dispatch, hd] at hnext
      split_ifs at hnext with hbusy
      · obtain rfl := Option.some.inj hnext
        exact .counted hd (by simpa using hbusy)
      · obtain rfl := Option.some.inj hnext
        exact .discarded hd (by simpa using hbusy)
  | ended =>
      simp only [dispatch, hd] at hnext
      cases hnext

theorem step_of_work {i : Fin workers} (hnext : s.work i = some s') : s.Step urls (.work i) s' := by
  cases hstep : (s.worker i).step with
  | waiting =>
      simp only [work, hstep] at hnext
      split_ifs at hnext with hdata
      split at hnext
      · next url hurl =>
          obtain rfl := Option.some.inj hnext
          exact .took hstep hdata hurl
      · next hnone =>
          obtain rfl := Option.some.inj hnext
          exact .idled hstep hnone hdata
  | visiting url =>
      simp only [work, hstep] at hnext
      obtain rfl := Option.some.inj hnext
      exact .visited hstep
  | cleared =>
      simp only [work, hstep] at hnext
      obtain rfl := Option.some.inj hnext
      cases hfinished : (s.worker i).finished with
      | true => exact .merged hstep hfinished
      | false => exact .announced hstep hfinished

theorem step_of_next (hnext : s.next urls a = some s') : s.Step urls a s' := by
  cases a with
  | dispatch => exact step_of_dispatch hnext
  | work i => exact step_of_work hnext
  | finished i =>
      cases hd : s.dispatcher with
      | waiting =>
          simp only [next, hd] at hnext
          split_ifs at hnext with hfinished
          obtain rfl := Option.some.inj hnext
          exact .woken hd hfinished.1
      | testing _ | giving _ | signalling _ | counting _ | ended =>
          simp only [next, hd] at hnext
          cases hnext
  | timeout =>
      cases hd : s.dispatcher with
      | waiting =>
          simp only [next, hd] at hnext
          obtain rfl := Option.some.inj hnext
          exact .timedOut hd
      | testing _ | giving _ | signalling _ | counting _ | ended =>
          simp only [next, hd] at hnext
          cases hnext

/-! ## Where the URLs are -/

/-- A total over the workers after one of them has changed. -/
theorem sum_setWorker {M : Type} [AddCommMonoid M] (f : Fin workers → WorkerThread → M)
    (worker : Fin workers → WorkerThread) (i : Fin workers) (w : WorkerThread) :
    ∑ j, f j (Function.update worker i w j) + f i (worker i) = ∑ j, f j (worker j) + f i w := by
  have hrest : ∑ j ∈ Finset.univ.erase i, f j (Function.update worker i w j) =
      ∑ j ∈ Finset.univ.erase i, f j (worker j) := by
    refine Finset.sum_congr rfl fun j hj => ?_
    rw [Function.update_of_ne (Finset.ne_of_mem_erase hj)]
  have hnew := Finset.add_sum_erase Finset.univ (fun j => f j (Function.update worker i w j))
    (Finset.mem_univ i)
  have hold := Finset.add_sum_erase Finset.univ (fun j => f j (worker j)) (Finset.mem_univ i)
  simp only [Function.update_self, hrest] at hnew
  rw [← hnew, ← hold, add_assoc, add_comm (f i w), add_comm _ (f i (worker i))]

/-- The URLs of a worker that are still to be counted. -/
def owed (w : WorkerThread) : Nat :=
  (if w.finished then 1 else 0) +
    match w.step with
    | .waiting => if w.busy then 1 else 0
    | .visiting _ => 1
    | .cleared => 1 + if w.busy then 1 else 0

/-- The URL that a worker was given and has not begun to visit. -/
def inHand (i : Fin workers) (w : WorkerThread) : Multiset (Fin workers × Nat) :=
  match w.step with
  | .visiting _ => 0
  | .waiting | .cleared => if w.busy then {(i, w.data.getD 0)} else 0

/-- A count that goes on. -/
def countingNow (s : VisitGroup workers) : Nat :=
  match s.dispatcher with
  | .counting _ => 1
  | _ => 0

/-- A worker that visits is busy; one that has data to fetch has been given it. -/
structure WorkerSound (d : Dispatcher workers) (i : Fin workers) (w : WorkerThread) : Prop where
  visiting : ∀ url, w.step = .visiting url → w.busy = true ∧ w.hasData = false
  hasData : w.hasData = true → w.busy = true ∧ w.data.isSome
  giving : d = .giving i → w.busy = false
  signalling : d = .signalling i → w.busy = true ∧ w.hasData = false ∧ w.data.isSome ∧
    ∀ url, w.step ≠ .visiting url

structure Sound (urls : Nat) (s : VisitGroup workers) : Prop where
  worker : ∀ i, WorkerSound s.dispatcher i (s.worker i)
  toVisit : s.toVisit = s.nVisiting
  order : s.handed.map Prod.snd = List.range s.nVisiting
  bound : s.nVisiting ≤ urls
  room : ∀ i, s.dispatcher = .giving i → s.nVisiting < urls
  visits : (s.visits : Multiset (Fin workers × Nat)) + ∑ i, inHand i (s.worker i) = s.handed
  counted : s.nVisitedUrls + s.lost + ∑ i, owed (s.worker i) + s.countingNow = s.nVisiting

theorem WorkerSound.moved {d d' : Dispatcher workers} {i : Fin workers} {w : WorkerThread}
    (h : WorkerSound d i w) (hgiving : d' ≠ .giving i) (hsignalling : d' ≠ .signalling i) :
    WorkerSound d' i w where
  visiting := h.visiting
  hasData := h.hasData
  giving hd := absurd hd hgiving
  signalling hd := absurd hd hsignalling

theorem workerSound_update {worker : Fin workers → WorkerThread} {d : Dispatcher workers}
    {i : Fin workers} {w : WorkerThread} (hi : WorkerSound d i w)
    (hothers : ∀ j, j ≠ i → WorkerSound d j (worker j)) (j : Fin workers) :
    WorkerSound d j (Function.update worker i w j) := by
  by_cases hj : j = i
  · subst hj
    rw [Function.update_self]
    exact hi
  · rw [Function.update_of_ne hj]
    exact hothers j hj

theorem countingNow_of_ne (h : ∀ i, s.dispatcher ≠ .counting i) : s.countingNow = 0 := by
  unfold countingNow
  split
  · next i hd => exact absurd hd (h i)
  · rfl

/-- Only the dispatcher has moved, and it may have counted. -/
theorem Sound.moved (h : s.Sound urls) {d : Dispatcher workers} {n m : Nat}
    (hd : (∀ i, d ≠ .giving i) ∧ (∀ i, d ≠ .signalling i) ∧ ∀ i, d ≠ .counting i)
    (hcount : n + m = s.nVisitedUrls + s.lost + s.countingNow) :
    ({ s with dispatcher := d, nVisitedUrls := n, lost := m } : VisitGroup workers).Sound urls := by
  obtain ⟨hgiving, hsignalling, hcounting⟩ := hd
  refine ⟨fun i => (h.worker i).moved (hgiving i) (hsignalling i), h.toVisit, h.order, h.bound,
    fun i he => absurd he (hgiving i), h.visits, ?_⟩
  have hcounted := h.counted
  rw [countingNow_of_ne hcounting]
  show n + m + ∑ i, owed (s.worker i) + 0 = s.nVisiting
  omega

/-- What a worker has in hand less is visited, and what it has more is handed out. -/
theorem Sound.visits_update (h : s.Sound urls) {i : Fin workers} {w : WorkerThread}
    {visits handed : List (Fin workers × Nat)}
    (hhand : (visits : Multiset (Fin workers × Nat)) + inHand i w + s.handed =
      s.visits + inHand i (s.worker i) + handed) :
    (visits : Multiset (Fin workers × Nat)) + ∑ j, inHand j (Function.update s.worker i w j) =
      handed := by
  have hsum := sum_setWorker inHand s.worker i w
  have hvisits := h.visits
  refine add_right_cancel (b := inHand i (s.worker i) + s.handed) ?_
  calc (visits : Multiset (Fin workers × Nat)) + ∑ j, inHand j (Function.update s.worker i w j) +
        (inHand i (s.worker i) + s.handed)
      = visits + (∑ j, inHand j (Function.update s.worker i w j) + inHand i (s.worker i)) +
          s.handed := by ac_rfl
    _ = (visits + inHand i w + s.handed) + ∑ j, inHand j (s.worker j) := by rw [hsum]; ac_rfl
    _ = handed + (inHand i (s.worker i) + (s.visits + ∑ j, inHand j (s.worker j))) := by
        rw [hhand]
        ac_rfl
    _ = handed + (inHand i (s.worker i) + s.handed) := by rw [hvisits]

theorem Sound.visits_same (h : s.Sound urls) {i : Fin workers} {w : WorkerThread}
    (hhand : inHand i w = inHand i (s.worker i)) :
    (s.visits : Multiset (Fin workers × Nat)) +
      ∑ j, inHand j (Function.update s.worker i w j) = s.handed :=
  h.visits_update (by rw [hhand])

theorem Sound.counted_update (h : s.Sound urls) (i : Fin workers) (w : WorkerThread) :
    s.nVisitedUrls + s.lost + ∑ j, owed (Function.update s.worker i w j) + owed (s.worker i) +
      s.countingNow = s.nVisiting + owed w := by
  have hsum := sum_setWorker (fun _ w => owed w) s.worker i w
  have hcounted := h.counted
  omega

/-- The worker owes as much as before, and has as much in hand. -/
theorem Sound.setWorker (h : s.Sound urls) {i : Fin workers} {w : WorkerThread}
    (hw : WorkerSound s.dispatcher i w) (howed : owed w = owed (s.worker i))
    (hhand : inHand i w = inHand i (s.worker i)) : (s.setWorker i w).Sound urls := by
  have hcounted := h.counted_update i w
  constructor
  · exact workerSound_update hw fun j _ => h.worker j
  · exact h.toVisit
  · exact h.order
  · exact h.bound
  · exact h.room
  · exact h.visits_same hhand
  · show s.nVisitedUrls + s.lost + ∑ j, owed (Function.update s.worker i w j) + s.countingNow =
      s.nVisiting
    omega

/-- The dispatcher gives a URL to a worker that is free. -/
theorem Sound.given (h : s.Sound urls) {i : Fin workers} (hd : s.dispatcher = .giving i) :
    ({ s.setWorker i { s.worker i with data := some s.toVisit, busy := true } with
      toVisit := s.toVisit + 1, nVisiting := s.nVisiting + 1
      handed := s.handed ++ [(i, s.toVisit)],
      dispatcher := .signalling i } : VisitGroup workers).Sound urls := by
  have hi := h.worker i
  have hbusy := hi.giving hd
  have hnotVisiting : ∀ url, (s.worker i).step ≠ .visiting url := fun url hvisiting =>
    Bool.false_ne_true (hbusy.symm.trans (hi.visiting url hvisiting).1)
  have hnoData : (s.worker i).hasData = false := by
    cases hhasData : (s.worker i).hasData with
    | false => rfl
    | true => exact absurd (hbusy.symm.trans (hi.hasData hhasData).1) Bool.false_ne_true
  let w : WorkerThread := { s.worker i with data := some s.toVisit, busy := true }
  have hhand : inHand i w = {(i, s.toVisit)} ∧ inHand i (s.worker i) = 0 := by
    cases hstep : (s.worker i).step with
    | visiting url => exact absurd hstep (hnotVisiting url)
    | waiting | cleared => simp [inHand, w, hstep, hbusy]
  have howed : owed w = owed (s.worker i) + 1 := by
    cases hstep : (s.worker i).step with
    | visiting url => exact absurd hstep (hnotVisiting url)
    | waiting => simp [owed, w, hstep, hbusy]
    | cleared => simp only [owed, w, hstep, hbusy, if_true, Bool.false_eq_true, if_false]
  constructor
  · refine workerSound_update
      ⟨?_, fun _ => ⟨rfl, rfl⟩, nofun, fun _ => ⟨rfl, hnoData, rfl, hnotVisiting⟩⟩ ?_
    · exact fun url hvisiting => absurd hvisiting (hnotVisiting url)
    · intro j hj
      refine (h.worker j).moved nofun fun he => ?_
      exact hj (Dispatcher.signalling.inj he).symm
  · show s.toVisit + 1 = s.nVisiting + 1
    rw [h.toVisit]
  · show (s.handed ++ [(i, s.toVisit)]).map Prod.snd = List.range (s.nVisiting + 1)
    rw [List.map_append, h.order, List.range_succ, h.toVisit]
    rfl
  · exact h.room i hd
  · exact nofun
  · have hvisits : (s.visits : Multiset (Fin workers × Nat)) + inHand i w + s.handed =
        s.visits + inHand i (s.worker i) +
          (s.handed ++ [(i, s.toVisit)] : List (Fin workers × Nat)) := by
      rw [hhand.1, hhand.2, add_zero, ← Multiset.coe_add, Multiset.coe_singleton, add_assoc,
        add_comm {(i, s.toVisit)}]
    exact h.visits_update hvisits
  · have hcounted := h.counted_update i w
    have hnow : s.countingNow = 0 := by rw [countingNow, hd]
    show s.nVisitedUrls + s.lost + ∑ j, owed (Function.update s.worker i w j) + 0 = s.nVisiting + 1
    omega

/-- A worker takes the URL that it was given. -/
theorem Sound.took (h : s.Sound urls) {i : Fin workers} {url : Nat}
    (hwaiting : (s.worker i).step = .waiting) (hhasData : (s.worker i).hasData = true)
    (hdata : (s.worker i).data = some url) :
    ({ s.setWorker i { s.worker i with step := .visiting url, hasData := false } with
      visits := s.visits ++ [(i, url)] } : VisitGroup workers).Sound urls := by
  have hi := h.worker i
  obtain ⟨hbusy, -⟩ := hi.hasData hhasData
  let w : WorkerThread := { s.worker i with step := .visiting url, hasData := false }
  refine ⟨?_, h.toVisit, h.order, h.bound, h.room, ?_, ?_⟩
  · refine workerSound_update ⟨fun _ _ => ⟨hbusy, rfl⟩, nofun, hi.giving, fun he => ?_⟩
      fun j _ => h.worker j
    exact absurd ((hi.signalling he).2.1.symm.trans hhasData) Bool.false_ne_true
  · have hone : inHand i (s.worker i) = {(i, url)} := by
      simp [inHand, hwaiting, hbusy, hdata]
    have hnone : inHand i w = 0 := rfl
    have hvisits : ((s.visits ++ [(i, url)] : List (Fin workers × Nat)) :
        Multiset (Fin workers × Nat)) + inHand i w + s.handed =
          s.visits + inHand i (s.worker i) + s.handed := by
      rw [hone, hnone, add_zero, ← Multiset.coe_add, Multiset.coe_singleton]
    exact h.visits_update hvisits
  · have hcounted := h.counted_update i w
    have hsame : owed w = owed (s.worker i) := by
      simp only [owed, w, hwaiting, hbusy, if_true]
    show s.nVisitedUrls + s.lost + ∑ j, owed (Function.update s.worker i w j) + s.countingNow =
      s.nVisiting
    omega

theorem Sound.step (h : s.Sound urls) (hstep : s.Step urls a s') : s'.Sound urls := by
  have hcounted := h.counted
  cases hstep with
  | skipped hd _ =>
      have hnow : s.countingNow = 0 := by rw [countingNow, hd]
      exact h.moved ⟨nofun, nofun, nofun⟩ (by rw [hnow]; rfl)
  | swept hd _ =>
      have hnow : s.countingNow = 0 := by rw [countingNow, hd]
      exact h.moved ⟨nofun, nofun, nofun⟩ (by rw [hnow]; rfl)
  | timedOut hd =>
      have hnow : s.countingNow = 0 := by rw [countingNow, hd]
      exact h.moved (again_ne workers urls _) (by rw [hnow]; rfl)
  | @chosen i hd hbusy hlt =>
      have hnow : s.countingNow = 0 := by rw [countingNow, hd]
      rw [hnow] at hcounted
      refine ⟨fun j => ?_, h.toVisit, h.order, h.bound, fun _ _ => hlt, h.visits, hcounted⟩
      have hj := h.worker j
      refine ⟨hj.visiting, hj.hasData, fun he => ?_, nofun⟩
      obtain rfl := Dispatcher.giving.inj he
      exact hbusy
  | given hd => exact h.given hd
  | @signalled i hd =>
      obtain ⟨hbusy, -, hdata, hnotVisiting⟩ := (h.worker i).signalling hd
      have hnow : s.countingNow = 0 := by rw [countingNow, hd]
      have hcounted := h.counted_update i { s.worker i with hasData := true }
      have howed : owed { s.worker i with hasData := true } = owed (s.worker i) := rfl
      refine ⟨?_, h.toVisit, h.order, h.bound, nofun, h.visits_same rfl, ?_⟩
      · refine workerSound_update ⟨fun url hvisiting => absurd hvisiting (hnotVisiting url),
          fun _ => ⟨hbusy, hdata⟩, nofun, nofun⟩ fun j _ => ?_
        exact (h.worker j).moved nofun nofun
      · show s.nVisitedUrls + s.lost + ∑ j, owed (Function.update s.worker i
          { s.worker i with hasData := true } j) + 0 = s.nVisiting
        omega
  | counted hd _ =>
      have hnow : s.countingNow = 1 := by rw [countingNow, hd]
      exact h.moved (again_ne workers urls _) (by omega)
  | discarded hd _ =>
      have hnow : s.countingNow = 1 := by rw [countingNow, hd]
      exact h.moved (again_ne workers urls _) (by omega)
  | @woken i hd hfinished =>
      have hi := h.worker i
      have hnow : s.countingNow = 0 := by rw [countingNow, hd]
      have hcounted := h.counted_update i { s.worker i with finished := false }
      have hone : owed (s.worker i) = owed { s.worker i with finished := false } + 1 := by
        simp only [owed, hfinished, if_true, Bool.false_eq_true, if_false]
        omega
      refine ⟨?_, h.toVisit, h.order, h.bound, nofun, h.visits_same rfl, ?_⟩
      · refine workerSound_update ⟨hi.visiting, hi.hasData, nofun, nofun⟩ fun j _ => ?_
        exact (h.worker j).moved nofun nofun
      · show s.nVisitedUrls + s.lost + ∑ j, owed (Function.update s.worker i
          { s.worker i with finished := false } j) + 1 = s.nVisiting
        omega
  | took hwaiting hhasData hdata => exact h.took hwaiting hhasData hdata
  | @idled i hwaiting hdata hhasData =>
      have hsome := ((h.worker i).hasData hhasData).2
      rw [hdata] at hsome
      cases hsome
  | @visited i url hvisiting =>
      have hi := h.worker i
      obtain ⟨hbusy, hnoData⟩ := hi.visiting url hvisiting
      refine h.setWorker ⟨nofun, fun hhasData => ?_, fun _ => rfl, fun he => ?_⟩ ?_ ?_
      · exact absurd (hnoData.symm.trans hhasData) Bool.false_ne_true
      · exact absurd hvisiting ((hi.signalling he).2.2.2 url)
      · simp [owed, hvisiting]
      · simp [inHand, hvisiting]
  | @announced i hcleared hfinished =>
      have hi := h.worker i
      refine h.setWorker ⟨nofun, hi.hasData, hi.giving, fun he => ?_⟩ ?_ ?_
      · obtain ⟨hbusy, hnoData, hdata, -⟩ := hi.signalling he
        exact ⟨hbusy, hnoData, hdata, nofun⟩
      · simp [owed, hcleared, hfinished]
      · simp [inHand, hcleared]
  | @merged i hcleared hfinished =>
      have hi := h.worker i
      have hcounted := h.counted_update i { s.worker i with step := .waiting, finished := true }
      have hone : owed (s.worker i) =
          owed { s.worker i with step := .waiting, finished := true } + 1 := by
        simp only [owed, hcleared, hfinished, if_true]
        omega
      have hsame : inHand i { s.worker i with step := .waiting, finished := true } =
          inHand i (s.worker i) := by
        simp [inHand, hcleared]
      refine ⟨?_, h.toVisit, h.order, h.bound, h.room, h.visits_same hsame, ?_⟩
      · refine workerSound_update ⟨nofun, hi.hasData, hi.giving, fun he => ?_⟩ fun j _ => h.worker j
        obtain ⟨hbusy, hnoData, hdata, -⟩ := hi.signalling he
        exact ⟨hbusy, hnoData, hdata, nofun⟩
      · show s.nVisitedUrls + (s.lost + 1) + ∑ j, owed (Function.update s.worker i
          { s.worker i with step := .waiting, finished := true } j) + s.countingNow = s.nVisiting
        omega

/-! ## Every run -/

theorem sound_init (h : (machine workers urls).init s) : s.Sound urls := by
  obtain ⟨data, rfl⟩ := h
  obtain ⟨hgiving, hsignalling, hcounting⟩ := again_ne workers urls 0
  constructor
  · intro i
    exact ⟨nofun, nofun, fun he => absurd he (hgiving i), fun he => absurd he (hsignalling i)⟩
  · rfl
  · rfl
  · exact Nat.zero_le _
  · exact fun i he => absurd he (hgiving i)
  · show (0 : Multiset (Fin workers × Nat)) + ∑ _i : Fin workers, 0 = 0
    rw [Finset.sum_const_zero, add_zero]
  · rw [countingNow_of_ne hcounting]
    show 0 + 0 + ∑ _i : Fin workers, 0 + 0 = 0
    rw [Finset.sum_const_zero]
    rfl

theorem sound_of_reachable {ok : VisitGroup workers → GroupAction workers → Prop}
    (h : (machine workers urls).Reachable ok s) : s.Sound urls :=
  h.invariant (fun _ hs => sound_init hs) fun _ _ _ hs _ hnext => hs.step (step_of_next hnext)

/-- Every URL is handed out once, in every run. -/
theorem Sound.handedOnce (h : s.Sound urls) : s.HandedOnce urls where
  order := h.order
  bound := h.bound
  visits := by
    rw [← h.visits]
    exact Multiset.le_add_right _ _
  allVisited hidle := by
    have hnone : ∑ i, inHand i (s.worker i) = 0 := by
      refine Finset.sum_eq_zero fun i _ => ?_
      obtain ⟨hwaiting, hbusy⟩ := hidle i
      simp [inHand, hwaiting, hbusy]
    have hvisits := h.visits
    rwa [hnone, add_zero] at hvisits

/-- How many URLs are not counted when all are finished and there is nothing to count. -/
theorem Sound.lost (h : s.Sound urls)
    (hidle : ∀ i, (s.worker i).step = .waiting ∧ (s.worker i).busy = false)
    (hnoSignal : ∀ i, (s.worker i).finished = false)
    (hnotCounting : ∀ i, s.dispatcher ≠ .counting i) : s.nVisitedUrls + s.lost = s.nVisiting := by
  have hnone : ∑ i, owed (s.worker i) = 0 := by
    refine Finset.sum_eq_zero fun i _ => ?_
    obtain ⟨hwaiting, hbusy⟩ := hidle i
    simp [owed, hwaiting, hbusy, hnoSignal i]
  have hcounted := h.counted
  rw [hnone, countingNow_of_ne hnotCounting] at hcounted
  exact hcounted

theorem lost_step (hlost : s.lost = 0) (hok : s.Kept a) (hstep : s.Step urls a s') :
    s'.lost = 0 := by
  cases hstep with
  | @discarded i hd hbusy =>
      have hfree : (s.worker i).busy = false := by
        rw [Kept, hd] at hok
        exact hok
      exact absurd (hfree.symm.trans hbusy) Bool.false_ne_true
  | merged hcleared hfinished =>
      exact absurd ((hok hcleared).symm.trans hfinished) Bool.false_ne_true
  | skipped _ _ | swept _ _ | timedOut _ | chosen _ _ _ | given _ | signalled _ | counted _ _ | woken _ _ | took _ _ _
  | idled _ _ _ | visited _ | announced _ _ => exact hlost

/-- **A group is visited**: each URL is handed out once, and in a run in which no signal is lost the
count is not too low. -/
theorem group_visited (workers urls : Nat) (s : VisitGroup workers)
    (h : (machine workers urls).Reachable Kept s) : s.HandedOnce urls ∧ ¬ s.Stuck urls := by
  have hsound := sound_of_reachable h
  have hlost : s.lost = 0 := by
    refine h.invariant ?_ fun s a s' hs hok hnext => lost_step hs hok (step_of_next hnext)
    rintro s ⟨data, rfl⟩
    rfl
  refine ⟨hsound.handedOnce, ?_⟩
  rintro ⟨hhanded, hidle, hnoSignal, hnotCounting, hshort⟩
  have hall := hsound.lost hidle hnoSignal hnotCounting
  omega

/-! ## A group that is no larger than the pool -/

/-- How far the first pass over the workers has got: each worker behind it has been given a URL, and
none before it. -/
def FirstPass (s : VisitGroup workers) : Prop :=
  match s.dispatcher with
  | .testing k => s.nVisiting = k ∧ ∀ j : Fin workers, k ≤ j → owed (s.worker j) = 0
  | .giving i => s.nVisiting = i ∧ ∀ j, i ≤ j → owed (s.worker j) = 0
  | .signalling i => s.nVisiting = i + 1 ∧ ∀ j, i < j → owed (s.worker j) = 0
  | .waiting | .counting _ | .ended => False

/-- No worker has been given two URLs. -/
structure OneEach (urls : Nat) (s : VisitGroup workers) : Prop where
  one : ∀ i, owed (s.worker i) ≤ 1
  counting : ∀ i, s.dispatcher = .counting i → owed (s.worker i) = 0
  pass : s.nVisiting = urls ∨ s.FirstPass

theorem owed_busy {w : WorkerThread} (h : w.busy = true) : owed w ≠ 0 := by
  cases hstep : w.step <;> simp [owed, hstep, h]

theorem OneEach.setWorker (h : s.OneEach urls) {i : Fin workers} {w : WorkerThread}
    (hw : owed w ≤ owed (s.worker i)) : (s.setWorker i w).OneEach urls := by
  have hle : ∀ j, owed (Function.update s.worker i w j) ≤ owed (s.worker j) := by
    intro j
    by_cases hj : j = i
    · subst hj
      rw [Function.update_self]
      exact hw
    · rw [Function.update_of_ne hj]
  have hzero : ∀ j, owed (s.worker j) = 0 → owed (Function.update s.worker i w j) = 0 := fun j hj =>
    Nat.le_zero.mp (hj ▸ hle j)
  refine ⟨fun j => (hle j).trans (h.one j), fun j hd => hzero j (h.counting j hd), ?_⟩
  refine h.pass.imp_right fun hpass => ?_
  show FirstPass { s with worker := Function.update s.worker i w }
  unfold FirstPass at hpass ⊢
  cases hd : s.dispatcher with
  | testing k =>
      simp only [hd] at hpass ⊢
      exact ⟨hpass.1, fun j hj => hzero j (hpass.2 j hj)⟩
  | giving k =>
      simp only [hd] at hpass ⊢
      exact ⟨hpass.1, fun j hj => hzero j (hpass.2 j hj)⟩
  | signalling k =>
      simp only [hd] at hpass ⊢
      exact ⟨hpass.1, fun j hj => hzero j (hpass.2 j hj)⟩
  | waiting | counting _ | ended =>
      simp only [hd] at hpass

theorem OneEach.step (hsize : urls ≤ workers) (hsound : s.Sound urls) (h : s.OneEach urls)
    (hstep : s.Step urls a s') : s'.OneEach urls := by
  have hbound := hsound.bound
  cases hstep with
  | @skipped i hd htest =>
      refine ⟨h.one, nofun, .inl ?_⟩
      rcases h.pass with hall | hpass
      · exact hall
      · simp only [FirstPass, hd] at hpass
        rcases htest with hbusy | hle
        · exact absurd (hpass.2 i (Nat.le_refl _)) (owed_busy hbusy)
        · exact Nat.le_antisymm hbound hle
  | swept hd hle =>
      refine ⟨h.one, nofun, .inl ?_⟩
      rcases h.pass with hall | hpass
      · exact hall
      · simp only [FirstPass, hd] at hpass
        show s.nVisiting = urls
        omega
  | timedOut hd =>
      have hall : s.nVisiting = urls := h.pass.resolve_right fun hpass => by
        simp only [FirstPass, hd] at hpass
      exact ⟨h.one, fun i he => absurd he ((again_ne workers urls _).2.2 i), .inl hall⟩
  | @chosen i hd hbusy hlt =>
      refine ⟨h.one, nofun, .inr ?_⟩
      have hpass := h.pass.resolve_left (Nat.ne_of_lt hlt)
      simp only [FirstPass, hd] at hpass
      exact ⟨hpass.1, fun j hj => hpass.2 j hj⟩
  | @given i hd =>
      have hpass := h.pass.resolve_left (Nat.ne_of_lt (hsound.room i hd))
      simp only [FirstPass, hd] at hpass
      have hbusy := (hsound.worker i).giving hd
      have hone : owed { s.worker i with data := some s.toVisit, busy := true } ≤ 1 := by
        have hzero := hpass.2 i (Nat.le_refl _)
        cases hstep : (s.worker i).step with
        | waiting =>
            simp only [owed, hstep, hbusy, if_true, Bool.false_eq_true, if_false] at hzero ⊢
            omega
        | visiting url => simp [owed, hstep] at hzero
        | cleared => simp [owed, hstep] at hzero
      refine ⟨fun j => ?_, nofun, .inr ⟨?_, fun j hj => ?_⟩⟩
      · show owed (Function.update s.worker i _ j) ≤ 1
        by_cases hj : j = i
        · subst hj
          rw [Function.update_self]
          exact hone
        · rw [Function.update_of_ne hj]
          exact h.one j
      · show s.nVisiting + 1 = i + 1
        rw [hpass.1]
      · show owed (Function.update s.worker i _ j) = 0
        rw [Function.update_of_ne (ne_of_gt hj)]
        exact hpass.2 j (le_of_lt hj)
  | @signalled i hd =>
      have hset := h.setWorker (i := i) (w := { s.worker i with hasData := true }) (Nat.le_refl _)
      refine ⟨hset.one, nofun, hset.pass.imp_right fun hpass => ?_⟩
      have hd' : (s.setWorker i { s.worker i with hasData := true }).dispatcher = .signalling i := hd
      simp only [FirstPass, hd'] at hpass
      exact ⟨hpass.1, fun j hj => hpass.2 j (Fin.lt_def.mpr (Nat.lt_of_succ_le hj))⟩
  | @counted i hd hbusy =>
      have hall : s.nVisiting = urls := h.pass.resolve_right fun hpass => by
        simp only [FirstPass, hd] at hpass
      exact ⟨h.one, fun j he => absurd he ((again_ne workers urls _).2.2 j), .inl hall⟩
  | @discarded i hd hbusy => exact absurd (h.counting i hd) (owed_busy hbusy)
  | @woken i hd hfinished =>
      have hall : s.nVisiting = urls := h.pass.resolve_right fun hpass => by
        simp only [FirstPass, hd] at hpass
      have hless : owed { s.worker i with finished := false } + 1 = owed (s.worker i) := by
        simp only [owed, hfinished, if_true, Bool.false_eq_true, if_false]
        omega
      have hone := h.one i
      have hzero : owed { s.worker i with finished := false } = 0 := by omega
      have hset := h.setWorker (i := i) (w := { s.worker i with finished := false }) (by omega)
      refine ⟨hset.one, fun j he => ?_, .inl hall⟩
      obtain rfl := Dispatcher.counting.inj he
      show owed (Function.update s.worker i _ i) = 0
      rw [Function.update_self]
      exact hzero
  | @took i url hwaiting hhasData hdata =>
      have hbusy := ((hsound.worker i).hasData hhasData).1
      have hset := h.setWorker (i := i)
        (w := { s.worker i with step := .visiting url, hasData := false })
        (by simp only [owed, hwaiting, hbusy, if_true]; exact Nat.le_refl _)
      exact ⟨hset.one, hset.counting, hset.pass⟩
  | @idled i hwaiting hdata hhasData =>
      exact h.setWorker (by simp only [owed, hwaiting]; exact Nat.le_refl _)
  | @visited i url hvisiting =>
      exact h.setWorker (by simp [owed, hvisiting])
  | @announced i hcleared hfinished =>
      exact h.setWorker (by simp [owed, hcleared, hfinished])
  | @merged i hcleared hfinished =>
      have hone := h.one i
      simp only [owed, hcleared, hfinished, if_true] at hone
      omega

/-- **A group with no more URLs than there are workers is visited**, in every run. -/
theorem small_group_visited (hsize : urls ≤ workers)
    (h : (machine workers urls).Reachable Machine.AnyStep s) :
    s.HandedOnce urls ∧ ¬ s.Stuck urls := by
  have hall : s.Sound urls ∧ s.OneEach urls ∧ s.lost = 0 := by
    refine h.invariant (P := fun s => s.Sound urls ∧ s.OneEach urls ∧ s.lost = 0) ?_ ?_
    · rintro s ⟨data, rfl⟩
      refine ⟨sound_init ⟨data, rfl⟩, ⟨fun _ => Nat.zero_le _, fun _ _ => rfl, ?_⟩, rfl⟩
      by_cases hurls : 0 < urls
      · right
        simp only [FirstPass, again, hurls, if_true]
        exact ⟨trivial, fun _ _ => rfl⟩
      · exact .inl (Nat.eq_zero_of_not_pos hurls).symm
    · rintro s a s' ⟨hsound, hone, hlost⟩ - hnext
      have hstep := step_of_next hnext
      refine ⟨hsound.step hstep, hone.step hsize hsound hstep, lost_step hlost ?_ hstep⟩
      cases hstep with
      | discarded hd hbusy => exact absurd (hone.counting _ hd) (owed_busy hbusy)
      | counted hd hbusy =>
          rw [Kept, hd]
          exact hbusy
      | @merged i hcleared hfinished =>
          have howed := hone.one i
          simp only [owed, hcleared, hfinished, if_true] at howed
          omega
      | announced hcleared hfinished => exact fun _ => hfinished
      | skipped hd _ | swept hd _ | chosen hd _ _ | given hd | signalled hd =>
          rw [Kept, hd]
          trivial
      | timedOut _ | woken _ _ => trivial
      | took hstep _ _ => exact fun hc => absurd (hstep.symm.trans hc) nofun
      | idled hstep _ _ => exact fun hc => absurd (hstep.symm.trans hc) nofun
      | visited hstep => exact fun hc => absurd (hstep.symm.trans hc) nofun
  obtain ⟨hsound, -, hlost⟩ := hall
  refine ⟨hsound.handedOnce, ?_⟩
  rintro ⟨hhanded, hidle, hnoSignal, hnotCounting, hshort⟩
  have hcount := hsound.lost hidle hnoSignal hnotCounting
  omega

/-- One URL, one worker. -/
theorem one_visited : ∃ s : VisitGroup 1, (machine 1 1).Reachable Kept s ∧ s.nVisitedUrls = 1 ∧
    s.HandedOnce 1 ∧ ¬ s.Stuck 1 := by
  have hinit : (machine 1 1).init { worker := fun _ => {}, dispatcher := again 1 0 } :=
    ⟨fun _ => none, rfl⟩
  have hrun : ((machine 1 1).run (List.replicate 4 .dispatch ++ List.replicate 3 (.work 0) ++
      [.finished 0, .dispatch]) { worker := fun _ => {}, dispatcher := again 1 0 }).map
        (fun s => s.nVisitedUrls) = some 1 := by
    decide
  have hmeets : (machine 1 1).Meets Kept (List.replicate 4 .dispatch ++ List.replicate 3 (.work 0) ++
      [.finished 0, .dispatch]) { worker := fun _ => {}, dispatcher := again 1 0 } := by
    decide
  obtain ⟨s, hs, hcount⟩ := Option.map_eq_some_iff.mp hrun
  have hreachable := (Machine.Reachable.init hinit).run hmeets hs
  obtain ⟨hhanded, hstuck⟩ := group_visited 1 1 s hreachable
  exact ⟨s, hreachable, hcount, hhanded, hstuck⟩

/-- Two workers finish at one time, and both are given another URL before the second is counted. -/
def bothFinish : List (GroupAction 2) :=
  List.replicate 7 GroupAction.dispatch ++ List.replicate 3 (GroupAction.work 0) ++
    List.replicate 3 (GroupAction.work 1) ++ [GroupAction.finished 0] ++
    List.replicate 8 GroupAction.dispatch ++ [GroupAction.finished 1] ++
    List.replicate 4 GroupAction.dispatch ++ List.replicate 3 (GroupAction.work 0) ++
    List.replicate 3 (GroupAction.work 1) ++ [GroupAction.finished 0] ++
    List.replicate 4 GroupAction.dispatch ++ [GroupAction.finished 1] ++
    List.replicate 4 GroupAction.dispatch

/-- What is to be seen of two workers that are idle. -/
def AtRest (s : VisitGroup 2) : Prop :=
  ∀ i, (s.worker i).step = .waiting ∧ (s.worker i).busy = false ∧ (s.worker i).finished = false

instance (s : VisitGroup 2) : Decidable s.AtRest := inferInstanceAs (Decidable (∀ _, _))

/-- The group is never counted to its end. -/
theorem reassigned_worker_stuck :
    ¬ ∀ (workers urls : Nat) (s : VisitGroup workers),
      (machine workers urls).Reachable Machine.AnyStep s → s.HandedOnce urls ∧ ¬ s.Stuck urls := by
  intro hall
  have hinit : (machine 2 4).init { worker := fun _ => {}, dispatcher := again 4 0 } :=
    ⟨fun _ => none, rfl⟩
  have hrun : ((machine 2 4).run bothFinish { worker := fun _ => {}, dispatcher := again 4 0 }).map
      (fun s => (s.nVisiting, s.nVisitedUrls, s.countingNow, decide s.AtRest)) =
        some (4, 3, 0, true) := by
    decide
  obtain ⟨s, hs, hstate⟩ := Option.map_eq_some_iff.mp hrun
  obtain ⟨hhanded, hcount, hnow, hrest⟩ := by simpa only [Prod.mk.injEq, decide_eq_true_eq] using hstate
  refine (hall 2 4 s (Machine.reachable_of_run hinit hs)).2 ⟨hhanded, ?_, ?_, ?_, ?_⟩
  · exact fun i => ⟨(hrest i).1, (hrest i).2.1⟩
  · exact fun i => (hrest i).2.2
  · intro i hd
    rw [countingNow, hd] at hnow
    cases hnow
  · omega

end VisitGroup

end CaptureHpc.Client
