/-
# `Server.Retry` — which failed visits are repeated

The controller means to repeat the visit of a group that failed for one of four
reasons, once, unless the group is cut in two.  What it does is put back every
group at its first error: `networkReset` starts out true.  And the code of the
group replaces the codes that the URLs reported.

`Failure` is a report that a visit failed, as the claim on it is made:
`RetryPolicy` says what should become of it, `Retryable` which reasons count.
`retry_iff` says of every step of every run when the two agree.
-/
import CaptureHpc.Server.VisitEnds
import CaptureHpc.Server.Handling
import CaptureHpc.Server.System

namespace CaptureHpc.Server

open Java

/-! ## Groups that are there -/

/-- Groups stay, and their errors are counted up. -/
structure CountsUp (s s' : ServerState) : Prop where
  nextGroup : s.nextGroup ≤ s'.nextGroup
  errorCount : ∀ g < s.nextGroup, (s.group g).errorCount ≤ (s'.group g).errorCount

instance : Std.Refl CountsUp := ⟨fun _ => ⟨Nat.le_refl _, fun _ _ => Nat.le_refl _⟩⟩

instance : IsTrans ServerState CountsUp := by
  refine ⟨fun s s' s'' h h' => ⟨Nat.le_trans h.nextGroup h'.nextGroup, fun g hg => ?_⟩⟩
  exact Nat.le_trans (h.errorCount g hg) (h'.errorCount g (Nat.lt_of_lt_of_le hg h.nextGroup))

/-- The groups stay. -/
abbrev GroupsKept : ServerState → ServerState → Prop :=
  Exec.Same fun s => (s.group, s.nextGroup)

theorem GroupsKept.countsUp {s s' : ServerState} (h : GroupsKept s s') : CountsUp s s' := by
  obtain ⟨hgroup, hnext⟩ := Prod.mk.inj h
  exact ⟨by rw [hnext], fun g _ => by rw [hgroup]⟩

section Counts
variable {c : ClientRef} {g : GroupRef} {s : ServerState}

instance {α : Type} {x : Action α} [h : x.Within StoreOnly] : x.Within GroupsKept :=
  h.mono fun s s' hstore => by
    show (s'.group, s'.nextGroup) = (s.group, s.nextGroup)
    rw [hstore]

instance {α : Type} {x : Action α} [h : x.Within GroupsKept] : x.Within CountsUp :=
  h.mono fun _ _ => GroupsKept.countsUp

instance (f : Client → Client) :
    (Exec.modify (ServerState.setClient c f) : Action Unit).Within GroupsKept := ⟨fun _ => rfl⟩

instance (v : VmRef) (f : VirtualMachine → VirtualMachine) :
    (Exec.modify (ServerState.setVm v f) : Action Unit).Within GroupsKept := ⟨fun _ => rfl⟩

theorem updateGroup_countsUp {f : UrlGroup → UrlGroup}
    (h : ∀ x, x.errorCount ≤ (f x).errorCount) : (updateGroup g f).Within CountsUp := by
  refine ⟨fun s => ⟨Nat.le_refl _, fun g' _ => ?_⟩⟩
  show (s.group g').errorCount ≤ (Function.update s.group g (f (s.group g)) g').errorCount
  by_cases hg : g' = g
  · subst hg
    rw [Function.update_self]
    exact h _
  · rw [Function.update_of_ne hg]

theorem Edits.countsUp {s s' : ServerState} (h : Edits c g s s') : CountsUp s s' := by
  refine ⟨by rw [h.rest], fun g' _ => ?_⟩
  by_cases hg : g' = g
  · subst hg
    rw [h.errorCount]
  · rw [h.others g' hg]

instance {α : Type} {x : Action α} [h : x.Within OldKept] : x.Within CountsUp :=
  h.mono fun _ _ hkept => ⟨hkept.nextGroup, fun g hg => by rw [hkept.group g hg]⟩

instance (newState : UrlGroupState) : (UrlGroup.setUrlGroupState g newState).Within CountsUp := by
  have henter : (updateGroup g (UrlGroup.enter newState)).Within CountsUp := by
    refine updateGroup_countsUp fun x => ?_
    rw [UrlGroup.enter]
    split
    · exact Nat.le_succ _
    · exact Nat.le_refl _
  unfold UrlGroup.setUrlGroupState
  infer_instance

instance (n : Int) : (UrlGroup.setMajorErrorCode g n).Within CountsUp :=
  updateGroup_countsUp fun _ => Nat.le_refl _

instance (algorithm : Option String) (malicious : Bool) (map : Option StringMap) :
    (UrlGroup.setMalicious g algorithm malicious map).Within CountsUp := by
  have hedits : (UrlGroup.setMalicious g algorithm malicious map).Within (Edits 0 g) := inferInstance
  exact hedits.mono fun _ _ => Edits.countsUp

instance (group : Option GroupRef) : (Client.failVisit group).Within CountsUp := by
  unfold Client.failVisit
  cases group <;> infer_instance

instance (group : Option GroupRef) : (Client.failVisitAgain group).Within CountsUp := by
  unfold Client.failVisitAgain
  cases group <;> infer_instance

instance : (Client.drop c).Within CountsUp := by
  have hmachine : ∀ v : Option VmRef, (match v with
      | some v => Client.loseMachine v
      | none => pure () : Action Unit).Within CountsUp := by
    intro v
    unfold Client.loseMachine
    cases v <;> infer_instance
  unfold Client.drop
  refine Exec.Within.bind inferInstance fun client => Exec.Within.ite (fun _ => ?_) fun _ => ?_
  · refine Exec.Within.bind inferInstance fun _ => ?_
    refine Exec.Within.bind inferInstance fun client => ?_
    cases client.virtualMachine with
    | none => infer_instance
    | some v => exact Exec.Within.bind (hmachine (some v)) fun _ => inferInstance
  · infer_instance

theorem countsUp_send : CountsUp s ((Client.send c).run s).2 := by
  rcases Client.send_cases c s with ⟨success, he⟩ | ⟨-, -, he⟩
  · rw [he]
    exact Std.Refl.refl s
  · rw [he]
    exact Exec.Within.post s

theorem countsUp_left (v : VmRef) (newState : ClientState) :
    CountsUp s (Client.left c v newState s) := by
  obtain ⟨client, vm, he⟩ := Client.left_rest c v newState s
  rw [he]
  exact GroupsKept.countsUp rfl

theorem Outcome.countsUp {P : UrlGroupState → ClientState → ServerState → Prop}
    {r : Except JavaException Unit × ServerState} (h : Outcome c g P s r) : CountsUp s r.2 := by
  cases h with
  | thrown hedits => exact hedits.countsUp
  | torn _ hedits hrun => exact IsTrans.trans _ _ _ hedits.countsUp (Exec.Within.of_run hrun)
  | left _ hedits _ hrun =>
      have hstep := IsTrans.trans _ _ _ hedits.countsUp (Exec.Within.of_run (R := CountsUp) hrun)
      exact IsTrans.trans _ _ _ hstep (countsUp_left _ _)

theorem countsUp_parseEvent (element : Element) (origin : Nat) :
    CountsUp s ((Client.parseEvent c element origin).run s).2 := by
  rcases parseEvent_cases (c := c) element origin s with ⟨r, hrun⟩ | ⟨g, -, -, hedits | hout⟩
  · rw [hrun]
    exact Std.Refl.refl s
  · exact hedits.countsUp
  · exact hout.countsUp

theorem countsUp_parseVisitEvent (element : Element) :
    CountsUp s ((Client.parseVisitEvent c element).run s).2 := by
  have htold : CountsUp s (told c element s) := (told_edits 0 element s).countsUp
  have hvisited := parseVisitEvent_visited (c := c) element s
  revert hvisited
  generalize (Client.parseVisitEvent c element).run s = r
  intro hvisited
  refine IsTrans.trans _ _ _ htold ?_
  cases hvisited with
  | ignored => exact Std.Refl.refl _
  | start _ _ hbegun =>
      cases hbegun with
      | thrown hedits => exact hedits.countsUp
      | torn hedits _ hrun =>
          exact IsTrans.trans _ _ _ hedits.countsUp (Exec.Within.of_run (R := CountsUp) hrun)
      | visiting hedits _ hrun =>
          have hstep := IsTrans.trans _ _ _ hedits.countsUp (Exec.Within.of_run (R := CountsUp) hrun)
          exact IsTrans.trans _ _ _ hstep (GroupsKept.countsUp rfl)
  | finish _ _ hout => exact hout.countsUp
  | error _ _ hout => exact hout.countsUp

theorem countsUp_retrieve (step : RetrieverStep) :
    CountsUp s ((Client.retrieve c step).run s).2 := by
  have hsend : (Client.send c).Within CountsUp := ⟨fun _ => countsUp_send⟩
  have htake : UrlGroupsController.takeUrlGroup.Within CountsUp :=
    UrlGroupsController.takeUrlGroup_within (fun _ _ => GroupsKept.countsUp rfl)
      fun _ _ => GroupsKept.countsUp rfl
  have hstep : (Client.retrieve c step).Within CountsUp := by
    unfold Client.retrieve
    cases step with
    | loop => infer_instance
    | test => infer_instance
    | take => infer_instance
    | store g => unfold Client.storeVisitingUrlGroup; infer_instance
    | send => unfold Client.sendVisitingUrlGroup; infer_instance
    | await => unfold Client.awaitVisiting; infer_instance
    | notSent => unfold Client.visitNotSent; infer_instance
    | wait => infer_instance
    | stopped => infer_instance
  exact hstep.post s

theorem countsUp_setSocket (usable : Bool) : CountsUp s ((Client.setSocket c usable).run s).2 := by
  have hall : (Client.setSocket c usable).Within CountsUp := by
    unfold Client.setSocket
    refine Exec.Within.ite (fun _ => inferInstance) fun _ => ?_
    refine Exec.Within.bind inferInstance fun client => ?_
    cases client.visitingUrlGroup <;> infer_instance
  exact hall.post s

/-- No step of the server takes a group away or forgets its errors. -/
theorem countsUp_does {s : System} {a : SystemAction} {server : ServerState} (h : Does s a server) :
    CountsUp s.server server := by
  induction h with
  | nothing => exact Std.Refl.refl _
  | @enqueue position =>
      have hadd : (UrlsController.addUrl s.nextUrl position).Within GroupsKept :=
        UrlsController.addUrl_within (fun _ _ => rfl) s.nextUrl position
      exact (hadd.post s.server).countsUp
  | @connect k v linkUp _ =>
      obtain ⟨client, vm, he⟩ := Client.connect_rest s.nextClient v linkUp s.server
      rw [he]
      exact GroupsKept.countsUp rfl
  | @welcome k c hstep hc =>
      rcases Client.welcome_cases c s.server with he | he | ⟨v, he⟩
      · rw [he]
        exact Std.Refl.refl _
      · rw [he]
        exact GroupsKept.countsUp rfl
      · rw [he]
        exact GroupsKept.countsUp rfl
  | reconnect _ _ => exact countsUp_setSocket _
  | systemEvent _ _ => exact countsUp_parseEvent _ _
  | visitEvent _ _ => exact countsUp_parseVisitEvent _
  | retrieve => exact countsUp_retrieve _
  | check => exact Exec.Within.post _
  | @revert v _ =>
      have hrevert : (VirtualMachine.setState v .waitingToBeReverted).Within CountsUp := by
        rw [VirtualMachine.setState_waitingToBeReverted]
        refine Exec.Within.bind inferInstance fun vm => Exec.Within.ite (fun _ => ?_) fun _ => ?_
        · refine Exec.Within.bind inferInstance fun _ => ?_
          refine Exec.Within.bind inferInstance fun vm => ?_
          cases vm.client <;> infer_instance
        · infer_instance
      exact hrevert.post s.server
  | @work v newState hne =>
      rw [VirtualMachine.run_setState hne]
      exact GroupsKept.countsUp rfl
  | ping => exact countsUp_send
  | cutLink => exact GroupsKept.countsUp rfl
  | blamed _ ih => exact IsTrans.trans _ _ _ ih (Exec.Within.post _)

end Counts

/-! ## Reports -/

/-- A report that the visit of a group failed. -/
structure Failure where
  group : GroupRef
  error : ErrorCode
  /-- Whether the group is malicious, as it is known with the report. -/
  malicious : Bool
  /-- The error codes that the URLs have. -/
  majors : UrlRef → ErrorCode
  minors : UrlRef → Int
  /-- The error is one of those that a client reports for good. -/
  stands : Bool := false

/-- The client is lost, or is given up. -/
def lostVisit (error : ErrorCode) (s : ServerState) (c : ClientRef) : Option Failure :=
  (s.client c).visitingUrlGroup.map fun g =>
    { group := g, error, malicious := (s.group g).malicious, majors := codes s, minors := minors s }

/-- The client sends an error message. -/
def reportedVisit (element : Element) (s : ServerState) (c : ClientRef) : Option Failure := do
  let g ← (s.client c).visitingUrlGroup
  let major ← element.get "error-code"
  let n ← parseLong major
  return {
    group := g
    error := ErrorCode.ofNumber n
    malicious := decide (element.get "malicious" = some "1")
    majors := codesAfter s g [""] element.childElements (codes s)
    minors := minorsAfter s g [""] element.childElements (minors s)
    stands := !Client.isErrorToRetry major }

/-- The failure that a line reports. -/
def lineFailure (s : ServerState) (client : Option ClientRef) : Line → Option Failure
  | .reconnect (some v) false => (s.vm v).client.bind (lostVisit .captureClientConnectionReset s)
  | .visitEvent element =>
      if element.get "type" = some "error" then client.bind (reportedVisit element s) else none
  | _ => none

/-- The failure that a step reports, if the visit is not over and the connection is broken. -/
def failureOf (s : System) : SystemAction → Option Failure
  | .handle k =>
      match (s.controller k).step with
      | .read line => lineFailure s.server (s.controller k).client line
      | _ => none
  | .retrieve c =>
      match s.retriever c with
      | .send => lostVisit .captureClientConnectionReset s.server c
      | .notSent => lostVisit .processError s.server c
      | _ => none
  | .blame v inactive => (s.server.vm v).client.bind
      (lostVisit (if inactive then .captureClientInactivity else .vmStalled) s.server)
  | .revert => s.checker.bind fun v => (s.server.vm v).client.bind
      (lostVisit .captureClientConnectionReset s.server)
  | .ping c => lostVisit .captureClientConnectionReset s.server c
  | _ => none

/-- The event thread that acted goes on. -/
def GoesOn (a : SystemAction) (s' : System) : Prop :=
  match a with
  | .handle k =>
      match (s'.controller k).step with
      | .reading => True
      | _ => False
  | _ => False

/-- The step reports the failure of a group: the group counts an error, or the error stands and
the message has been handled. -/
structure Reports (s : System) (a : SystemAction) (s' : System) (f : Failure) : Prop where
  failure : failureOf s a = some f
  group : f.group < s.server.nextGroup
  counted : f.stands = false →
    (s.server.group f.group).errorCount < (s'.server.group f.group).errorCount
  goesOn : f.stands = true → GoesOn a s'

/-- The reasons that the controller names. -/
def Retryable (s : ServerState) (f : Failure) : Prop :=
  f.error = .vmStalled ∨ f.error = .captureClientInactivity ∨
    f.error = .captureClientConnectionReset ∨
      ∃ u ∈ (s.group f.group).urlList, f.majors u = .networkError ∧ f.minors u = 2148270085

/-- The group was put back. -/
def PutBack (f : Failure) (s s' : ServerState) : Prop :=
  s'.urlGroupQueue = f.group :: s.urlGroupQueue

/-- What has become of the groups whose visits failed. -/
structure History where
  retried : List GroupRef := []
  split : List GroupRef := []

/-- A group that counts an error and is put back is tried again.  Groups are made, in a step that
reports a failure, only by cutting one in two. -/
def History.record (h : History) (s : System) (a : SystemAction) (s' : System) : History :=
  match failureOf s a with
  | some f =>
      { retried := if f.group < s.server.nextGroup ∧
            (s.server.group f.group).errorCount < (s'.server.group f.group).errorCount ∧
              s'.server.urlGroupQueue = f.group :: s.server.urlGroupQueue then
          f.group :: h.retried else h.retried
        split := if s'.server.nextGroup = s.server.nextGroup then h.split
          else f.group :: h.split }
  | none => h

/-- The server, with a record of what has become of failed visits. -/
def retryMachine : Machine (System × History) SystemAction :=
  systemMachine.recording {} History.record

/-- What should become of a failed visit. -/
def RetryPolicy (h : History) (s s' : ServerState) (f : Failure) : Prop :=
  (PutBack f s s' ↔ s'.nextGroup = s.nextGroup ∧ f.group ∉ h.split ∧ f.group ∉ h.retried ∧
    Retryable s f) ∧
  ∀ u ∈ (s.group f.group).urlList, f.majors u ≠ .ok → codes s' u = f.majors u

/-! ## What becomes of it -/

section Handled
variable {f : Failure} {s s' s₁ : ServerState}

/-- The group that failed is to be cut in two. -/
def Failure.Divides (f : Failure) (s : ServerState) : Prop :=
  Server.Divides { s.group f.group with malicious := f.malicious }

/-- What the report of a failure comes to. -/
structure Handled (f : Failure) (s s' : ServerState) : Prop where
  putBack : PutBack f s s' ↔
    Notifies f.group s ∧ ¬ f.Divides s ∧ (s.group f.group).errorCount = 0
  split : s'.nextGroup ≠ s.nextGroup ↔ Notifies f.group s ∧ f.Divides s
  replaced : Notifies f.group s → ∀ u ∈ (s.group f.group).urlList, codes s' u = f.error
  kept : ¬ Notifies f.group s → ∀ u, f.majors u ≠ .ok → codes s' u = f.majors u

theorem Handled.congr {s'' : ServerState} (h : Handled f s s')
    (hqueue : s''.urlGroupQueue = s'.urlGroupQueue) (hnext : s''.nextGroup = s'.nextGroup)
    (hstore : s''.store = s'.store) : Handled f s s'' := by
  have hcodes : codes s'' = codes s' := by
    funext u
    rw [codes, codes, ServerState.visit, hstore]
    rfl
  refine ⟨?_, ?_, fun hn => ?_, fun hn => ?_⟩
  · rw [PutBack, hqueue]
    exact h.putBack
  · rw [hnext]
    exact h.split
  · rw [hcodes]
    exact h.replaced hn
  · rw [hcodes]
    exact h.kept hn

/-- The failure is reported at `s₁`: nothing that matters has changed, other than what the report
says. -/
structure ReportedAt (f : Failure) (s s₁ : ServerState) : Prop where
  nextGroup : s₁.nextGroup = s.nextGroup
  urlGroupQueue : s₁.urlGroupQueue = s.urlGroupQueue
  urlList : (s₁.group f.group).urlList = (s.group f.group).urlList
  errorCount : (s₁.group f.group).errorCount = (s.group f.group).errorCount
  algorithm : (s₁.group f.group).algorithm = (s.group f.group).algorithm
  malicious : (s₁.group f.group).malicious = f.malicious
  canFail : ∀ u, CanFail s₁ u ↔ CanFail s u
  majors : codes s₁ = f.majors

theorem ReportedAt.notifies (h : ReportedAt f s s₁) : Notifies f.group s₁ ↔ Notifies f.group s := by
  constructor
  · intro hn
    refine ⟨by rw [← h.algorithm]; exact hn.algorithm, fun u hu => (h.canFail u).mp ?_⟩
    exact hn.urls u (by rwa [h.urlList])
  · intro hn
    refine ⟨by rw [h.algorithm]; exact hn.algorithm, fun u hu => (h.canFail u).mpr ?_⟩
    exact hn.urls u (by rwa [← h.urlList])

theorem ReportedAt.divides (h : ReportedAt f s s₁) :
    Server.Divides (s₁.group f.group) ↔ f.Divides s := by
  rw [Failure.Divides, Server.Divides, Server.Divides, h.algorithm, h.malicious, UrlGroup.size,
    h.urlList]
  rfl

/-- The group is put back by a transition that goes through, if it is the first. -/
theorem EnteredError.putBack {g : GroupRef} (h : EnteredError g s s') :
    s'.urlGroupQueue = g :: s.urlGroupQueue ↔
      ¬ Server.Divides (s.group g) ∧ (s.group g).errorCount = 0 := by
  rw [h.urlGroupQueue]
  split
  · next hdivides =>
      refine ⟨fun heq => ?_, fun hnot => absurd hdivides hnot.1⟩
      have hlength := congrArg List.length heq
      simp at hlength
  · next hdivides =>
      split
      · next hcount => exact ⟨fun _ => ⟨hdivides, hcount⟩, fun _ => rfl⟩
      · next hcount => exact ⟨fun heq => absurd heq (List.cons_ne_self _ _).symm,
          fun hnot => absurd hnot.2 hcount⟩

/-- One transition to ERROR is what the report comes to. -/
theorem handled_fail (h : ReportedAt f s s₁) (hg : f.group < s.nextGroup)
    (herror : ErrorCode.ofNumber (s₁.group f.group).majorErrorCode.errorCode = f.error) :
    Handled f s ((UrlGroup.setUrlGroupState f.group .error).run s₁).2 := by
  by_cases hn : Notifies f.group s
  · obtain ⟨s', hrun, hentered⟩ := run_fail_notifies (by rwa [h.nextGroup]) (h.notifies.mpr hn)
    rw [hrun]
    have hback := hentered.putBack
    rw [h.urlGroupQueue, h.divides, h.errorCount] at hback
    refine ⟨hback.trans ⟨fun h => ⟨hn, h⟩, fun h => h.2⟩, ?_, fun _ u hu => ?_,
      fun hnot => absurd hn hnot⟩
    · show s'.nextGroup ≠ s.nextGroup ↔ _
      rw [hentered.nextGroup, h.nextGroup]
      by_cases hd : Server.Divides (s₁.group f.group)
      · rw [if_pos hd]
        exact ⟨fun _ => ⟨hn, h.divides.mp hd⟩, fun _ => Nat.ne_of_gt (by omega)⟩
      · rw [if_neg hd]
        exact ⟨fun hne => absurd rfl hne, fun hnot => absurd (h.divides.mpr hnot.2) hd⟩
    · rw [← herror]
      exact congrArg Prod.snd (hentered.states u (by rwa [h.urlList]))
  · obtain ⟨e, s', hrun, -, hnext, hqueue, hown⟩ := run_fail_throws fun hn' => hn (h.notifies.mp hn')
    rw [hrun]
    refine ⟨⟨fun hback => ?_, fun hnot => absurd hnot.1 hn⟩,
      ⟨fun hne => absurd (hnext.trans h.nextGroup) hne, fun hnot => absurd hnot.1 hn⟩,
      fun hn' => absurd hn' hn, fun _ u hu => ?_⟩
    · have hsame : s'.urlGroupQueue = s.urlGroupQueue := hqueue.trans h.urlGroupQueue
      rw [PutBack, hsame] at hback
      exact absurd hback.symm (List.cons_ne_self _ _)
    · rw [← h.majors] at hu ⊢
      exact hown u hu

/-- No verdict is passed on a group that is malicious already. -/
theorem run_clear {g : GroupRef} :
    ∃ s', (do
      if !(← readGroup g).malicious then UrlGroup.setMalicious g (some "dac") false none
      UrlGroup.setMajorErrorCode g ErrorCode.captureClientConnectionReset.errorCode :
        Action Unit).run s = (.ok (), s') ∧ Edits 0 g s s' ∧ AlgorithmsKept s s' ∧
      (s'.group g).malicious = (s.group g).malicious ∧
      (s'.group g).majorErrorCode = .captureClientConnectionReset := by
  have hcode : ∀ s, (UrlGroup.setMajorErrorCode g
      ErrorCode.captureClientConnectionReset.errorCode).run s =
        (.ok (), s.setGroup g fun x => { x with majorErrorCode := .captureClientConnectionReset }) :=
    fun _ => rfl
  have hset : ∀ s, Edits 0 g s (s.setGroup g fun x =>
      { x with majorErrorCode := .captureClientConnectionReset }) := fun s =>
    Exec.Within.of_run (x := UrlGroup.setMajorErrorCode g _) (hcode s)
  have halg : ∀ s, AlgorithmsKept s (s.setGroup g fun x =>
      { x with majorErrorCode := .captureClientConnectionReset }) := fun s =>
    Exec.Within.of_run (x := UrlGroup.setMajorErrorCode g _) (hcode s)
  simp only [Exec.run_gets_bind]
  cases hm : (s.group g).malicious with
  | true =>
      refine ⟨_, hcode s, hset s, halg s, ?_, ?_⟩
      · rw [ServerState.group_setGroup, hm]
      · rw [ServerState.group_setGroup]
  | false =>
      have htotal : (UrlGroup.setMalicious g (some "dac") false none).Total := by
        have hjudge : ∀ u, (Url.setMalicious u false).Total := by
          intro u
          unfold Url.setMalicious
          infer_instance
        have hmap : ∀ u, (UrlGroup.setMaliciousFromMap false none u).Total := hjudge
        unfold UrlGroup.setMalicious
        simp only [Exec.orThrow_some, Exec.pure_bind, Bool.false_eq_true, if_false]
        infer_instance
      obtain ⟨_, s₁, h₁⟩ := htotal.returns s
      have hedits : Edits 0 g s s₁ := Exec.Within.of_run h₁
      have halg₁ : AlgorithmsKept s s₁ := Exec.Within.of_run h₁
      refine ⟨_, (Exec.run_bind_ok h₁).trans (hcode s₁), IsTrans.trans _ _ _ hedits (hset s₁),
        IsTrans.trans _ _ _ halg₁ (halg s₁), ?_, ?_⟩
      · rw [ServerState.group_setGroup]
        exact of_run_setMalicious h₁
      · rw [ServerState.group_setGroup]

/-- The second time a lost client fails its group, nothing is put back. -/
theorem run_failVisitAgain {g : GroupRef} (hg : g < s.nextGroup)
    (halg : (s.group g).algorithm.isSome = true) (hcount : (s.group g).errorCount ≠ 0)
    (hurls : ∀ u ∈ (s.group g).urlList, (s.visit u).urlState = .error) :
    ∃ s', (Client.failVisitAgain (some g)).run s = (.ok (), s') ∧
      s'.nextGroup = (if Server.Divides (s.group g) then s.nextGroup + 2 else s.nextGroup) ∧
      s'.urlGroupQueue = (if Server.Divides (s.group g) then
          (s.nextGroup + 1) :: s.nextGroup :: s.urlGroupQueue else s.urlGroupQueue) ∧
      ∀ u ∈ (s.group g).urlList, codes s' u = .captureClientConnectionReset := by
  obtain ⟨s₁, hclear, hedits, hkept, hmalicious, hcode⟩ := run_clear (g := g) (s := s)
  have hnext : s₁.nextGroup = s.nextGroup := by rw [hedits.rest]
  have hqueue : s₁.urlGroupQueue = s.urlGroupQueue := by rw [hedits.rest]
  have halg₁ : (s₁.group g).algorithm = (s.group g).algorithm := congrFun hkept g
  have hnotifies : Notifies g s₁ := by
    refine ⟨by rwa [halg₁], fun u hu => .inl ?_⟩
    rw [hedits.urlState]
    exact hurls u (by rwa [← hedits.urlList])
  obtain ⟨s', hrun, hentered⟩ := run_fail_notifies (by rwa [hnext]) hnotifies
  have hdivides : Server.Divides (s₁.group g) ↔ Server.Divides (s.group g) := by
    rw [Server.Divides, Server.Divides, halg₁, hmalicious, UrlGroup.size, hedits.urlList]
    rfl
  have hnext' := hentered.nextGroup
  have hqueue' := hentered.urlGroupQueue
  simp only [hdivides, hnext, hqueue, hedits.errorCount, hcount, if_false] at hnext' hqueue'
  refine ⟨s', ?_, hnext', hqueue', fun u hu => ?_⟩
  · have hassoc : (Client.failVisitAgain (some g)).run s = ((do
        if !(← readGroup g).malicious then UrlGroup.setMalicious g (some "dac") false none
        UrlGroup.setMajorErrorCode g ErrorCode.captureClientConnectionReset.errorCode :
          Action Unit) >>= fun _ => UrlGroup.setUrlGroupState g .error).run s := by
      simp only [Client.failVisitAgain, Exec.run_gets_bind, bind_assoc]
      cases (s.group g).malicious with
      | true => rfl
      | false => simp only [Bool.not_false, if_true, bind_assoc]
    rw [hassoc, Exec.run_bind_ok hclear]
    exact hrun
  · have hstate := hentered.states u (by rwa [hedits.urlList])
    rw [hcode] at hstate
    exact congrArg Prod.snd hstate

/-- A client that is lost fails its group twice, and the first time decides. -/
theorem handled_failing {c : ClientRef} (hat : ReportedAt f s s₁) (hg : f.group < s.nextGroup)
    (herror : f.error = .captureClientConnectionReset)
    (hvisiting : (s₁.client c).visitingUrlGroup = some f.group) :
    Handled f s ((do
      Client.failVisit (← readClient c).visitingUrlGroup
      updateClient c fun x => { x with socketClosed := true }
      Client.failVisitAgain (← readClient c).visitingUrlGroup : Action Unit).run s₁).2 := by
  have hg₁ : f.group < s₁.nextGroup := by rwa [hat.nextGroup]
  simp only [Exec.run_gets_bind, hvisiting]
  by_cases hn : Notifies f.group s
  · obtain ⟨s₂, hrun, hentered⟩ := run_fail_notifies hg₁ (hat.notifies.mpr hn)
    have hkeep : GroupsOnly s₁ s₂ := Exec.Within.of_run hrun
    have hclosed : ((s₂.setClient c fun x => { x with socketClosed := true }).client
        c).visitingUrlGroup = some f.group := by
      rw [ServerState.client_setClient, hkeep]
      exact hvisiting
    have hdivides : Server.Divides (s₂.group f.group) ↔ f.Divides s := by
      rw [hentered.group, ← hat.divides]
      rfl
    have hcount : (s₂.group f.group).errorCount ≠ 0 := by
      rw [hentered.group]
      exact Nat.succ_ne_zero _
    have hup : CountsUp s₁ s₂ := Exec.Within.of_run hrun
    have hlist : (s₂.group f.group).urlList = (s.group f.group).urlList := by
      rw [hentered.group, ← hat.urlList]
      rfl
    have hurls : ∀ u ∈ (s₂.group f.group).urlList, (s₂.visit u).urlState = .error := by
      intro u hu
      rw [hlist, ← hat.urlList] at hu
      exact congrArg Prod.fst (hentered.states u hu)
    have halg : (s₂.group f.group).algorithm.isSome = true := by
      rw [hentered.group]
      exact (hat.notifies.mpr hn).algorithm
    obtain ⟨s₃, hagain, hnext, hqueue, hcodes⟩ : ∃ s₃, (Client.failVisitAgain (some f.group)).run
        (s₂.setClient c fun x => { x with socketClosed := true }) = (.ok (), s₃) ∧
        s₃.nextGroup = (if Server.Divides (s₂.group f.group) then s₂.nextGroup + 2
          else s₂.nextGroup) ∧
        s₃.urlGroupQueue = (if Server.Divides (s₂.group f.group) then
          (s₂.nextGroup + 1) :: s₂.nextGroup :: s₂.urlGroupQueue else s₂.urlGroupQueue) ∧
        ∀ u ∈ (s₂.group f.group).urlList, codes s₃ u = .captureClientConnectionReset :=
      run_failVisitAgain (s := s₂.setClient c fun x => { x with socketClosed := true })
        (Nat.lt_of_lt_of_le hg₁ hup.nextGroup) halg hcount hurls
    have hfirst : (Client.failVisit (some f.group)).run s₁ = (.ok (), s₂) := hrun
    rw [Exec.run_bind_ok hfirst]
    simp only [Exec.run_modify_bind, Exec.run_gets_bind, hclosed]
    rw [hagain]
    have hback := hentered.putBack
    rw [hat.urlGroupQueue, hat.divides, hat.errorCount] at hback
    have hnext₂ := hentered.nextGroup
    have hqueue₂ := hentered.urlGroupQueue
    rw [hat.nextGroup] at hnext₂
    refine ⟨?_, ?_, fun _ u hu => ?_, fun hnot => absurd hn hnot⟩
    · show s₃.urlGroupQueue = _ ↔ _
      rw [hqueue]
      by_cases hd : f.Divides s
      · rw [if_pos (hdivides.mpr hd)]
        rw [hqueue₂, if_pos (hat.divides.mpr hd), hat.urlGroupQueue]
        refine ⟨fun heq => ?_, fun hnot => absurd hd hnot.2.1⟩
        have hlength := congrArg List.length heq
        simp only [List.length_cons] at hlength
        omega
      · rw [if_neg fun h => hd (hdivides.mp h)]
        exact hback.trans ⟨fun h => ⟨hn, h⟩, fun h => h.2⟩
    · show s₃.nextGroup ≠ s.nextGroup ↔ _
      rw [hnext]
      by_cases hd : f.Divides s
      · rw [if_pos (hdivides.mpr hd)]
        rw [hnext₂, if_pos (hat.divides.mpr hd)]
        exact ⟨fun _ => ⟨hn, hd⟩, fun _ => Nat.ne_of_gt (by omega)⟩
      · rw [if_neg fun h => hd (hdivides.mp h)]
        rw [hnext₂, if_neg fun h => hd (hat.divides.mp h)]
        exact ⟨fun hne => absurd rfl hne, fun hnot => absurd hnot.2 hd⟩
    · rw [herror]
      exact hcodes u (by rwa [hlist])
  · obtain ⟨e, s₂, hrun, -, hnext, hqueue, hown⟩ := run_fail_throws fun hn' => hn (hat.notifies.mp hn')
    have hfirst : (Client.failVisit (some f.group)).run s₁ = (.error e, s₂) := hrun
    rw [Exec.run_bind_error hfirst]
    refine ⟨⟨fun hback => ?_, fun hnot => absurd hnot.1 hn⟩,
      ⟨fun hne => absurd (hnext.trans hat.nextGroup) hne, fun hnot => absurd hnot.1 hn⟩,
      fun hn' => absurd hn' hn, fun _ u hu => ?_⟩
    · have hsame : s₂.urlGroupQueue = s.urlGroupQueue := hqueue.trans hat.urlGroupQueue
      rw [PutBack, hsame] at hback
      exact absurd hback.symm (List.cons_ne_self _ _)
    · rw [← hat.majors] at hu ⊢
      exact hown u hu

end Handled

/-! ## The steps that report a failure -/

/-- A number that is stored as a code is the number of a code. -/
theorem ErrorCode.ofNumber_idem (n : Int) :
    ErrorCode.ofNumber (ErrorCode.ofNumber n).errorCode = ErrorCode.ofNumber n := by
  cases hlast : (values.filter fun e => e.errorCode == n).getLast? with
  | none =>
      have hinvalid : ErrorCode.ofNumber n = .invalidErrorCodeFromClient := by
        rw [ErrorCode.ofNumber, hlast]
        rfl
      rw [hinvalid]
      decide
  | some code =>
      have hcode : ErrorCode.ofNumber n = code := by rw [ErrorCode.ofNumber, hlast]; rfl
      have hmem := List.mem_of_getLast? hlast
      have hnumber : code.errorCode = n := by simpa using (List.mem_filter.mp hmem).2
      rw [hcode, hnumber, hcode]

section Steps
variable {c : ClientRef} {f : Failure} {s : ServerState} {error : ErrorCode}

/-- What a lost visit is. -/
theorem of_lostVisit (h : lostVisit error s c = some f) :
    (s.client c).visitingUrlGroup = some f.group ∧ f.error = error ∧
      f.malicious = (s.group f.group).malicious ∧ f.majors = codes s ∧ f.stands = false := by
  obtain ⟨g, hg, rfl⟩ := Option.map_eq_some_iff.mp h
  exact ⟨hg, rfl, rfl, rfl, rfl⟩

/-- Only the error code of the group, and what is not of the group, has changed. -/
theorem reportedAt_of_store {s₁ : ServerState} (h : lostVisit error s c = some f)
    (hstore : s₁.store = s.store) (hconfig : s₁.config = s.config)
    (hnext : s₁.nextGroup = s.nextGroup) (hqueue : s₁.urlGroupQueue = s.urlGroupQueue)
    (hgroup : s₁.group f.group = { s.group f.group with
      majorErrorCode := (s₁.group f.group).majorErrorCode }) : ReportedAt f s s₁ := by
  obtain ⟨-, -, hmalicious, hmajors, -⟩ := of_lostVisit h
  have hvisit : ∀ u, s₁.visit u = s.visit u := fun u => by
    rw [ServerState.visit, hstore]
    rfl
  exact
    { nextGroup := hnext
      urlGroupQueue := hqueue
      urlList := by rw [hgroup]
      errorCount := by rw [hgroup]
      algorithm := by rw [hgroup]
      malicious := by rw [hgroup, hmalicious]
      canFail := fun u => by rw [CanFail, CanFail, hvisit, hconfig]
      majors := by
        rw [hmajors]
        funext u
        rw [codes, codes, hvisit] }

/-- The group is given a code and fails. -/
theorem handled_setCode {n : Int} (h : lostVisit error s c = some f) (hg : f.group < s.nextGroup)
    (hn : ErrorCode.ofNumber n = error) :
    Handled f s ((do
      UrlGroup.setMajorErrorCode f.group n
      UrlGroup.setUrlGroupState f.group .error : Action Unit).run s).2 := by
  have hat : ReportedAt f s (s.setGroup f.group fun x =>
      { x with majorErrorCode := ErrorCode.ofNumber n }) :=
    reportedAt_of_store h rfl rfl rfl rfl (by rw [ServerState.group_setGroup])
  refine handled_fail hat hg ?_
  rw [ServerState.group_setGroup, (of_lostVisit h).2.1, ← hn]
  exact ErrorCode.ofNumber_idem n

/-- The client is lost, when a machine may have changed already. -/
theorem handled_drop (vm : VmRef → VirtualMachine)
    (h : lostVisit .captureClientConnectionReset s c = some f) (hg : f.group < s.nextGroup)
    (hstate : (s.client c).clientState ≠ .disconnected) :
    Handled f s ((Client.drop c).run { s with vm }).2 := by
  obtain ⟨hvisiting, herror, -, -, -⟩ := of_lostVisit h
  let s₁ := ServerState.setClient c (fun x => { x with clientState := .disconnected }) { s with vm }
  have hclient : s₁.client c = { s.client c with clientState := .disconnected } :=
    ServerState.client_setClient ..
  have hgroup : (s₁.client c).visitingUrlGroup = some f.group := by
    rw [hclient]
    exact hvisiting
  rw [Client.drop]
  simp only [Exec.run_gets_bind, if_pos hstate, Exec.run_modify_bind]
  show Handled f s ((match (s₁.client c).virtualMachine with
    | some v => Client.loseMachine v >>= fun _ => _
    | none => _ : Action Unit).run s₁).2
  cases hv : (s₁.client c).virtualMachine with
  | none =>
      have hat : ReportedAt f s s₁ := reportedAt_of_store h rfl rfl rfl rfl rfl
      exact handled_failing hat hg herror hgroup
  | some v =>
      have hat : ReportedAt f s (s₁.setVm v fun _ =>
          { client := none, vmState := .waitingToBeReverted }) :=
        reportedAt_of_store h rfl rfl rfl rfl rfl
      exact handled_failing hat hg herror hgroup

/-- What is sent to a client is sent, or the client is lost. -/
theorem handled_send (h : lostVisit .captureClientConnectionReset s c = some f)
    (hg : f.group < s.nextGroup) (hcount : (s.group f.group).errorCount <
      (((Client.send c).run s).2.group f.group).errorCount) :
    Handled f s ((Client.send c).run s).2 := by
  rcases Client.send_cases c s with ⟨success, he⟩ | ⟨hstate, -, he⟩
  · rw [he] at hcount
    exact absurd hcount (Nat.lt_irrefl _)
  · rw [he]
    exact handled_drop s.vm h hg hstate

theorem run_retrieve_send {g : GroupRef} (h : (s.client c).visitingUrlGroup = some g) :
    ((Client.retrieve c .send).run s).2 = ((Client.send c).run s).2 := by
  simp only [Client.retrieve, Client.sendVisitingUrlGroup, Exec.run_gets_bind, bind_assoc, h,
    Exec.orThrow_some, Exec.pure_bind]
  rw [Exec.run_bind]
  split
  · next success s₁ he =>
      rw [he]
      simp only [Exec.run_gets_bind]
      cases (s₁.client c).virtualMachine with
      | none => rfl
      | some v =>
          simp only [Exec.orThrow_some, Exec.pure_bind]
          split <;> rfl
  · next he => rw [he]

/-- The client's new socket cannot be written to. -/
theorem handled_setSocket (h : lostVisit .captureClientConnectionReset s c = some f)
    (hg : f.group < s.nextGroup) : Handled f s ((Client.setSocket c false).run s).2 := by
  obtain ⟨hvisiting, -, -, -, -⟩ := of_lostVisit h
  have hfail := handled_setCode (n := ErrorCode.captureClientConnectionReset.errorCode) h hg rfl
  have hsplit : (Client.setSocket c false).run s = ((do
      UrlGroup.setMajorErrorCode f.group ErrorCode.captureClientConnectionReset.errorCode
      UrlGroup.setUrlGroupState f.group .error : Action Unit) >>= fun _ =>
        updateClient c fun x => { x with clientState := .disconnected }).run s := by
    simp only [Client.setSocket, Bool.false_eq_true, if_false, Exec.run_gets_bind, hvisiting,
      bind_assoc]
  rw [hsplit, Exec.run_bind]
  split
  · next he =>
      rw [he] at hfail
      exact hfail.congr rfl rfl rfl
  · next he =>
      rw [he] at hfail
      exact hfail

/-- The state checker finds the machine inactive, or stalled. -/
theorem handled_check {v : VmRef} {inactive : Bool}
    (h : (s.vm v).client.bind
      (lostVisit (if inactive then .captureClientInactivity else .vmStalled) s) = some f)
    (hg : f.group < s.nextGroup) :
    Handled f s ((VirtualMachinesStateChecker.checkVm v inactive).run s).2 := by
  obtain ⟨c, hc, hlost⟩ := Option.bind_eq_some_iff.mp h
  obtain ⟨hvisiting, -, -, -, -⟩ := of_lostVisit hlost
  have hfail := handled_setCode (n := (if inactive then ErrorCode.captureClientInactivity
    else .vmStalled).errorCode) hlost hg (by cases inactive <;> decide)
  have hrun : (VirtualMachinesStateChecker.setError v (if inactive then
      .captureClientInactivity else .vmStalled)).run s = (do
      UrlGroup.setMajorErrorCode f.group (if inactive then ErrorCode.captureClientInactivity
        else .vmStalled).errorCode
      UrlGroup.setUrlGroupState f.group .error : Action Unit).run s := by
    simp only [VirtualMachinesStateChecker.setError, Exec.run_gets_bind, hc, hvisiting]
  rw [← hrun] at hfail
  refine Exec.run_bind_mem hfail fun _ s₁ he => ?_
  rw [he] at hfail
  simp only [Exec.run_gets_bind]
  split <;> exact hfail

/-- The group that was sent to the client could not be sent. -/
theorem handled_notSent (h : lostVisit .processError s c = some f) (hg : f.group < s.nextGroup) :
    Handled f s ((Client.retrieve c .notSent).run s).2 := by
  obtain ⟨hvisiting, -, -, -, -⟩ := of_lostVisit h
  have hfail := handled_setCode (n := 0x10000111) h hg (by decide)
  have hrun : (Client.visitNotSent c).run s = (do
      UrlGroup.setMajorErrorCode f.group 0x10000111
      UrlGroup.setUrlGroupState f.group .error : Action Unit).run s := by
    simp only [Client.visitNotSent, Exec.run_gets_bind, hvisiting, Exec.orThrow_some,
      Exec.pure_bind]
  rw [← hrun] at hfail
  refine Exec.run_bind_mem hfail fun _ s₁ he => ?_
  rw [he] at hfail
  exact hfail

/-- A machine is to be reverted. -/
theorem handled_revert {v : VmRef} (hc : (s.vm v).client = some c)
    (h : lostVisit .captureClientConnectionReset s c = some f) (hg : f.group < s.nextGroup)
    (hcount : (s.group f.group).errorCount <
      (((VirtualMachine.setState v .waitingToBeReverted).run s).2.group f.group).errorCount) :
    Handled f s ((VirtualMachine.setState v .waitingToBeReverted).run s).2 := by
  rw [VirtualMachine.setState_waitingToBeReverted] at hcount ⊢
  simp only [Exec.run_gets_bind] at hcount ⊢
  by_cases hstate : (s.vm v).vmState = .waitingToBeReverted
  · rw [if_neg (not_not_intro hstate)] at hcount
    exact absurd hcount (Nat.lt_irrefl _)
  · have hmarked : ((s.setVm v fun x => { x with vmState := .waitingToBeReverted }).vm v).client =
        some c := by
      show (Function.update s.vm v _ v).client = _
      rw [Function.update_self, ← hc]
    simp only [if_pos hstate, Exec.run_modify_bind, Exec.run_gets_bind, hmarked] at hcount ⊢
    by_cases hlive : ((s.setVm v fun x => { x with vmState := .waitingToBeReverted }).client
        c).clientState = .disconnected
    · rw [if_neg (not_not_intro hlive)] at hcount
      exact absurd hcount (Nat.lt_irrefl _)
    · rw [if_pos hlive]
      exact handled_drop _ h hg hlive

/-! ## Messages -/

/-- What an error message reports. -/
theorem of_reportedVisit {element : Element} (h : reportedVisit element s c = some f) :
    ∃ major n, (s.client c).visitingUrlGroup = some f.group ∧
      element.get "error-code" = some major ∧ parseLong major = some n ∧
      f = { group := f.group, error := ErrorCode.ofNumber n
            malicious := decide (element.get "malicious" = some "1")
            majors := codesAfter s f.group [""] element.childElements (codes s)
            minors := minorsAfter s f.group [""] element.childElements (minors s)
            stands := !Client.isErrorToRetry major } := by
  obtain ⟨g, hg, h⟩ := Option.bind_eq_some_iff.mp h
  obtain ⟨major, hmajor, h⟩ := Option.bind_eq_some_iff.mp h
  obtain ⟨n, hn, h⟩ := Option.bind_eq_some_iff.mp h
  obtain rfl := Option.some.inj h
  exact ⟨major, n, hg, hmajor, hn, rfl⟩

theorem parseVisitEvent_error {element : Element} (htype : element.get "type" = some "error") :
    (Client.parseVisitEvent c element).run s =
      (Client.parseError c element).run (told c element s) := by
  rw [run_parseVisitEvent, htype]
  rfl

/-- The error message has been read when the group enters ERROR. -/
theorem reportedAt_of_read {element : Element} {s₁ : ServerState}
    (h : reportedVisit element s c = some f) (hedits : Edits c f.group (told c element s) s₁)
    (hread : ErrorRead f.group element (told c element s) s₁)
    (hmalicious : (s₁.group f.group).malicious = decide (element.get "malicious" = some "1")) :
    ReportedAt f s s₁ := by
  obtain ⟨major, n, -, -, -, hf⟩ := of_reportedVisit h
  have hafter : codesAfter (told c element s) f.group [""] element.childElements
      (codes (told c element s)) = codesAfter s f.group [""] element.childElements (codes s) :=
    @codesAfter_congr s (told c element s) f.group rfl rfl _ _ _
  exact
    { nextGroup := by rw [hedits.rest]; rfl
      urlGroupQueue := by rw [hedits.rest]; rfl
      urlList := hedits.urlList
      errorCount := hedits.errorCount
      algorithm := congrFun hread.algorithm f.group
      malicious := by rw [hmalicious, hf]
      canFail := fun u => by
        have hstart : (s₁.visit u).visitStartTime = (s.visit u).visitStartTime :=
          congrFun hread.visitStartTime u
        have hstate : (s₁.visit u).urlState = (s.visit u).urlState := hedits.urlState u
        have hconfig : s₁.config = s.config := by rw [hedits.rest]; rfl
        rw [CanFail, CanFail, hstate, hstart, hconfig]
      majors := by rw [hread.codes, hafter, hf] }

/-- A group that is VISITED counts no error. -/
theorem errorCount_visited {g : GroupRef} {s' : ServerState} {r : Except JavaException Unit}
    (hg : g < s.nextGroup) (h : (UrlGroup.setUrlGroupState g .visited).run s = (r, s')) :
    (s'.group g).errorCount = (s.group g).errorCount := by
  rw [(of_run_setUrlGroupState h).group g hg, ServerState.group_setGroup]
  rfl

/-- An error message that is retried. -/
theorem handled_message {element : Element} (htype : element.get "type" = some "error")
    (h : reportedVisit element s c = some f) (hg : f.group < s.nextGroup)
    (hcount : (s.group f.group).errorCount <
      (((Client.parseVisitEvent c element).run s).2.group f.group).errorCount) :
    Handled f s ((Client.parseVisitEvent c element).run s).2 := by
  obtain ⟨major, n, hvisiting, hmajor, hn, hf⟩ := of_reportedVisit h
  have hclient : ((told c element s).client c).visitingUrlGroup = some f.group := by
    rw [told, ServerState.client_setClient]
    exact hvisiting
  rw [parseVisitEvent_error htype] at hcount ⊢
  have hout := parseError_outcome element hclient
  revert hout hcount
  generalize (Client.parseError c element).run (told c element s) = r
  intro hcount hout
  -- the group counts no error when it is VISITED
  have hvisited : ∀ s₁ s₂ r, Edits c f.group (told c element s) s₁ →
      (UrlGroup.setUrlGroupState f.group .visited).run s₁ = (r, s₂) →
        ¬ (s.group f.group).errorCount < (s₂.group f.group).errorCount := by
    intro s₁ s₂ r hedits hrun
    have hg₁ : f.group < s₁.nextGroup := by
      rw [hedits.rest]
      exact hg
    rw [errorCount_visited hg₁ hrun, hedits.errorCount]
    exact Nat.lt_irrefl _
  -- and in ERROR it has the code of the message
  have hfails : ∀ s₁, Edits c f.group (told c element s) s₁ →
      ErrorRead f.group element (told c element s) s₁ →
      (s₁.group f.group).malicious = decide (element.get "malicious" = some "1") →
      (∃ major n, element.get "error-code" = some major ∧ Client.isErrorToRetry major = true ∧
        parseLong major = some n ∧ (s₁.group f.group).majorErrorCode = ErrorCode.ofNumber n) →
          Handled f s ((UrlGroup.setUrlGroupState f.group .error).run s₁).2 := by
    rintro s₁ hedits hread hmalicious ⟨major', n', hmajor', -, hn', hcode⟩
    obtain rfl : major' = major := Option.some.inj (hmajor'.symm.trans hmajor)
    obtain rfl : n' = n := Option.some.inj (hn'.symm.trans hn)
    refine handled_fail (reportedAt_of_read h hedits hread hmalicious) hg ?_
    rw [hcode, ErrorCode.ofNumber_idem, hf]
  cases hout with
  | thrown hedits =>
      refine absurd hcount ?_
      rw [hedits.errorCount]
      exact Nat.lt_irrefl _
  | @torn e s₁ s' groupState newState hend hedits hrun =>
      obtain ⟨hread, ⟨rfl, -⟩ | ⟨rfl, -, hmalicious, hcode⟩⟩ := hend
      · exact absurd hcount (hvisited _ _ _ hedits hrun)
      · have hhandled := hfails s₁ hedits hread hmalicious hcode
        rwa [hrun] at hhandled
  | @left v s₁ s₂ groupState newState hend hedits _ hrun =>
      obtain ⟨client, vm, he⟩ := Client.left_rest c v newState s₂
      rw [he] at hcount ⊢
      obtain ⟨hread, ⟨rfl, -⟩ | ⟨rfl, -, hmalicious, hcode⟩⟩ := hend
      · exact absurd hcount (hvisited s₁ s₂ _ hedits hrun)
      · have hhandled := hfails s₁ hedits hread hmalicious hcode
        rw [hrun] at hhandled
        exact hhandled.congr rfl rfl rfl

/-- An error message whose error stands puts nothing back, and the URLs keep their codes. -/
theorem standing_message {element : Element} {s' : ServerState}
    (htype : element.get "type" = some "error") (h : reportedVisit element s c = some f)
    (hstands : f.stands = true) (hrun : (Client.parseVisitEvent c element).run s = (.ok (), s')) :
    ¬ PutBack f s s' ∧ codes s' = f.majors := by
  obtain ⟨major, n, hvisiting, hmajor, hn, hf⟩ := of_reportedVisit h
  have hclient : ((told c element s).client c).visitingUrlGroup = some f.group := by
    rw [told, ServerState.client_setClient]
    exact hvisiting
  have hfinal : Client.isErrorToRetry major = false := by
    rw [hf] at hstands
    simpa using hstands
  have hout := parseError_outcome element hclient
  rw [← parseVisitEvent_error htype, hrun] at hout
  cases hout with
  | @left v s₁ s₂ groupState newState hend hedits _ hset =>
      obtain ⟨hread, ⟨rfl, -⟩ | ⟨-, -, -, major', n', hmajor', hretry, -⟩⟩ := hend
      · obtain ⟨client, vm, he⟩ := Client.left_rest c v newState s₂
        obtain ⟨hcodes, hqueue⟩ := of_run_visited hset
        have hqueue₁ : s₁.urlGroupQueue = s.urlGroupQueue := by
          rw [hedits.rest]
          rfl
        have hafter : codesAfter (told c element s) f.group [""] element.childElements
            (codes (told c element s)) = codesAfter s f.group [""] element.childElements (codes s) :=
          @codesAfter_congr s (told c element s) f.group rfl rfl _ _ _
        rw [he]
        constructor
        · intro hback
          have hlength : s₂.urlGroupQueue.length = s.urlGroupQueue.length + 1 :=
            congrArg List.length hback
          rw [hqueue₁] at hqueue
          rcases hqueue with hsame | ⟨g₁, g₂, htwo⟩
          · rw [hsame] at hlength
            omega
          · rw [htwo, List.length_cons, List.length_cons] at hlength
            omega
        · show codes s₂ = f.majors
          rw [hcodes, hread.codes, hafter, hf]
      · obtain rfl : major' = major := Option.some.inj (hmajor'.symm.trans hmajor)
        exact absurd (hretry.symm.trans hfinal) nofun

end Steps

/-! ## Every run -/

section Runs
variable {s s' : System} {a : SystemAction} {f : Failure} {h : History}

/-- **What a step that reports a failure does.** -/
theorem handled_does {server : ServerState} (hdoes : Does s a server)
    (hf : failureOf s a = some f) (hg : f.group < s.server.nextGroup)
    (hcount : (s.server.group f.group).errorCount < (server.group f.group).errorCount) :
    Handled f s.server server := by
  induction hdoes with
  | nothing => exact absurd hcount (Nat.lt_irrefl _)
  | enqueue => cases hf
  | connect hstep =>
      simp only [failureOf, hstep, lineFailure] at hf
      cases hf
  | welcome hstep _ =>
      simp only [failureOf, hstep] at hf
      cases hf
  | @reconnect k v usable c hstep hc =>
      simp only [failureOf, hstep, lineFailure] at hf
      cases usable with
      | true => cases hf
      | false =>
          simp only [hc, Option.bind_some] at hf
          exact handled_setSocket hf hg
  | systemEvent hstep _ =>
      simp only [failureOf, hstep, lineFailure] at hf
      cases hf
  | @visitEvent k element c hstep hc =>
      simp only [failureOf, hstep, lineFailure] at hf
      split at hf
      · next htype =>
          simp only [hc, Option.bind_some] at hf
          exact handled_message htype hf hg hcount
      · cases hf
  | @retrieve c =>
      simp only [failureOf] at hf
      split at hf
      · next hstep =>
          rw [hstep] at hcount ⊢
          rw [run_retrieve_send (of_lostVisit hf).1] at hcount ⊢
          exact handled_send hf hg hcount
      · next hstep =>
          rw [hstep]
          exact handled_notSent hf hg
      · cases hf
  | check => exact handled_check hf hg
  | @revert v hv =>
      simp only [failureOf, hv, Option.bind_some] at hf
      obtain ⟨c, hc, hlost⟩ := Option.bind_eq_some_iff.mp hf
      exact handled_revert hc hlost hg hcount
  | work _ => cases hf
  | ping => exact handled_send hf hg hcount
  | cutLink => cases hf
  | @blamed a server c _ ih =>
      rcases Client.blameConnection_cases c server with he | ⟨g, he⟩
      · rw [he] at hcount ⊢
        exact ih hf hcount
      · rw [he] at hcount ⊢
        have hsame : ((server.setGroup g fun x =>
            { x with majorErrorCode := .socketError }).group f.group).errorCount =
              (server.group f.group).errorCount := by
          show (Function.update server.group g _ f.group).errorCount = _
          by_cases hg : f.group = g
          · subst hg
            rw [Function.update_self]
          · rw [Function.update_of_ne hg]
        rw [hsame] at hcount
        exact (ih hf hcount).congr rfl rfl rfl

/-- A failure whose error stands is reported by a message, which has been handled. -/
theorem of_standing (hnext : s.next a = some s') (hf : failureOf s a = some f)
    (hstands : f.stands = true) (hgoes : GoesOn a s') :
    ¬ PutBack f s.server s'.server ∧ codes s'.server = f.majors := by
  have hlost : ∀ {error c}, lostVisit error s.server c = some f → False := by
    intro error c hlost
    cases hstands.symm.trans (of_lostVisit hlost).2.2.2.2
  cases a with
  | handle k =>
      simp only [failureOf] at hf
      split at hf
      · next line hstep =>
          cases line with
          | visitEvent element =>
              simp only [lineFailure] at hf
              split at hf
              · next htype =>
                  obtain ⟨c, hc, hreported⟩ := Option.bind_eq_some_iff.mp hf
                  simp only [System.next, hstep, System.handle, hc] at hnext
                  obtain ⟨⟨r, server⟩, hattempt, rfl⟩ := Option.map_eq_some_iff.mp hnext
                  cases r with
                  | none =>
                      simp only [GoesOn, System.setController, Function.update_self] at hgoes
                  | some _ =>
                      rw [attempt] at hattempt
                      split at hattempt
                      · next he =>
                          obtain ⟨-, rfl⟩ := Prod.mk.inj (Option.some.inj hattempt)
                          exact standing_message htype hreported hstands he
                      · cases hattempt
                      · cases hattempt
              · cases hf
          | reconnect v usable =>
              cases v with
              | none => cases hf
              | some v =>
                  cases usable with
                  | true => cases hf
                  | false =>
                      obtain ⟨c, -, h⟩ := Option.bind_eq_some_iff.mp hf
                      exact (hlost h).elim
          | connect v linkUp => cases hf
          | systemEvent element origin => cases hf
          | other => cases hf
          | broken => cases hf
          | notWellFormed => cases hf
      · cases hf
  | _ => exact hgoes.elim

/-- A group that was tried again has counted an error. -/
theorem counted_of_retried {x : System × History}
    (h : retryMachine.Reachable Machine.AnyStep x) :
    ∀ g ∈ x.2.retried, g < x.1.server.nextGroup ∧ (x.1.server.group g).errorCount ≠ 0 := by
  refine h.invariant (P := fun x => ∀ g ∈ x.2.retried, g < x.1.server.nextGroup ∧
    (x.1.server.group g).errorCount ≠ 0) ?_ ?_
  · rintro ⟨s, h⟩ ⟨-, rfl⟩ g hg
    exact absurd hg List.not_mem_nil
  · rintro ⟨s, h⟩ a x' hs - hnext g hg
    obtain ⟨hstep, hrecord⟩ := Machine.of_recording_next hnext
    have hup : CountsUp s.server x'.1.server := countsUp_does (System.does_next hstep)
    have hold : g ∈ h.retried → g < x'.1.server.nextGroup ∧
        (x'.1.server.group g).errorCount ≠ 0 := by
      intro hg
      obtain ⟨hnew, hcount⟩ := hs g hg
      have hmore : (s.server.group g).errorCount ≤ (x'.1.server.group g).errorCount :=
        hup.errorCount g hnew
      exact ⟨Nat.lt_of_lt_of_le hnew hup.nextGroup, by dsimp only at hcount; omega⟩
    rw [hrecord, History.record] at hg
    split at hg
    · next f _ =>
        dsimp only at hg
        split at hg
        · next hback =>
            rcases List.mem_cons.mp hg with rfl | hg
            · exact ⟨Nat.lt_of_lt_of_le hback.1 hup.nextGroup, by omega⟩
            · exact hold hg
        · exact hold hg
    · exact hold hg

/-- The condition under which a failed visit is dealt with as it should be.  A group that was
neither tried again nor cut in two fails for a reason that counts, and gets through to the controller
at its first error, or else fails for another reason and does not.  URLs of a group that gets through
have reported no other error than the group's. -/
def RightlyRetried (h : History) (s : ServerState) (f : Failure) : Prop :=
  if f.stands then f.group ∉ h.retried → f.group ∉ h.split → ¬ Retryable s f
  else
    (f.group ∉ h.retried → f.group ∉ h.split → Retryable s f →
      Notifies f.group s ∧ (f.Divides s ∨ (s.group f.group).errorCount = 0)) ∧
    (Notifies f.group s → ¬ f.Divides s → (s.group f.group).errorCount = 0 →
      Retryable s f ∧ f.group ∉ h.split) ∧
    (Notifies f.group s → ∀ u ∈ (s.group f.group).urlList, f.majors u = .ok ∨ f.majors u = f.error)

/-- **Which failed visits are repeated**, at every step of every run. -/
theorem retry_iff (hreach : retryMachine.Reachable Machine.AnyStep (s, h))
    (hnext : s.next a = some s') (hf : Reports s a s' f) :
    (RightlyRetried h s.server f → RetryPolicy h s.server s'.server f) ∧
      (f.stands = false → RetryPolicy h s.server s'.server f → RightlyRetried h s.server f) := by
  cases hstands : f.stands with
  | true =>
      obtain ⟨hback, hcodes⟩ := of_standing hnext hf.failure hstands (hf.goesOn hstands)
      refine ⟨fun hok => ?_, nofun⟩
      rw [RightlyRetried, if_pos hstands] at hok
      refine ⟨⟨fun h => absurd h hback, fun h => ?_⟩, fun u _ _ => by rw [hcodes]⟩
      exact absurd h.2.2.2 (hok h.2.2.1 h.2.1)
  | false =>
      have hhandled := handled_does (System.does_next hnext) hf.failure hf.group (hf.counted hstands)
      have hcounted : f.group ∈ h.retried → ¬ (s.server.group f.group).errorCount = 0 :=
        fun hg => (counted_of_retried hreach f.group hg).2
      have hsplit : s'.server.nextGroup = s.server.nextGroup ↔
          ¬ (Notifies f.group s.server ∧ f.Divides s.server) := by
        rw [← hhandled.split]
        exact not_not.symm
      have hdecides : (PutBack f s.server s'.server ↔ s'.server.nextGroup = s.server.nextGroup ∧
          f.group ∉ h.split ∧ f.group ∉ h.retried ∧ Retryable s.server f) ↔
          (f.group ∉ h.retried → f.group ∉ h.split → Retryable s.server f →
            Notifies f.group s.server ∧
              (f.Divides s.server ∨ (s.server.group f.group).errorCount = 0)) ∧
          (Notifies f.group s.server → ¬ f.Divides s.server →
            (s.server.group f.group).errorCount = 0 →
              Retryable s.server f ∧ f.group ∉ h.split) := by
        rw [hhandled.putBack, hsplit]
        grind
      have hkeeps : (∀ u ∈ (s.server.group f.group).urlList, f.majors u ≠ .ok →
          codes s'.server u = f.majors u) ↔
          (Notifies f.group s.server → ∀ u ∈ (s.server.group f.group).urlList,
            f.majors u = .ok ∨ f.majors u = f.error) := by
        constructor
        · intro hkeep hn u hu
          by_cases hok : f.majors u = .ok
          · exact .inl hok
          · exact .inr ((hkeep u hu hok).symm.trans (hhandled.replaced hn u hu))
        · intro hown u hu hok
          by_cases hn : Notifies f.group s.server
          · rw [hhandled.replaced hn u hu]
            exact ((hown hn u hu).resolve_left hok).symm
          · exact hhandled.kept hn u hok
      rw [RightlyRetried, hstands, if_neg (by decide), RetryPolicy, hdecides, hkeeps, and_assoc]
      exact ⟨id, fun _ => id⟩

end Runs

/-! ## Two runs -/

theorem retryMachine_init : retryMachine.init (oneUrlServer, {}) := ⟨oneUrlServer_init, rfl⟩

/-- A client that does not answer: its group is put back. -/
theorem retry_inactive : ∃ x s' f, retryMachine.run sendUrl (oneUrlServer, {}) = some x ∧
    x.1.next (.blame 0 true) = some s' ∧ failureOf x.1 (.blame 0 true) = some f ∧
      s'.server.urlGroupQueue = [0] ∧ RetryPolicy x.2 x.1.server s'.server f := by
  obtain ⟨x, s', f, hrun, hnext, hf, hgroup, herror, hstands, hmajors, hcreated, hcount, hcount',
      hqueue, hlist, hnotifies, hrecord⟩ : ∃ x s' f,
      retryMachine.run sendUrl (oneUrlServer, {}) = some x ∧
      x.1.next (.blame 0 true) = some s' ∧ failureOf x.1 (.blame 0 true) = some f ∧
      f.group = 0 ∧ f.error = .captureClientInactivity ∧ f.stands = false ∧ f.majors 0 = .ok ∧
      x.1.server.nextGroup = 1 ∧ (x.1.server.group 0).errorCount = 0 ∧
      (s'.server.group 0).errorCount = 1 ∧ s'.server.urlGroupQueue = [0] ∧
      (x.1.server.group 0).urlList = [0] ∧ decide (Notifies 0 x.1.server) = true ∧
      x.2.split = [] :=
    ⟨_, _, _, rfl, rfl, rfl, rfl, rfl, rfl, rfl, rfl, rfl, rfl, rfl, rfl, rfl, rfl⟩
  have hreports : Reports x.1 (.blame 0 true) s' f :=
    { failure := hf
      group := by rw [hgroup, hcreated]; exact Nat.one_pos
      counted := fun _ => by rw [hgroup, hcount, hcount']; exact Nat.one_pos
      goesOn := fun h => absurd (h.symm.trans hstands) nofun }
  have hreachable : retryMachine.Reachable Machine.AnyStep x :=
    Machine.reachable_of_run retryMachine_init hrun
  refine ⟨x, s', f, hrun, hnext, hf, hqueue, (retry_iff hreachable hnext hreports).1 ?_⟩
  rw [RightlyRetried, hstands, if_neg (by decide), hgroup]
  refine ⟨fun _ _ _ => ⟨of_decide_eq_true hnotifies, .inr hcount⟩, fun _ _ _ => ?_, fun _ u hu => ?_⟩
  · exact ⟨.inr (.inl herror), by rw [hrecord]; exact List.not_mem_nil⟩
  · rw [hlist] at hu
    obtain rfl := List.mem_singleton.mp hu
    exact .inl hmajors

/-- An error that is none of the four: the process of the browser failed. -/
def processFailed : Element where
  name := "visit-event"
  attributes := [("type", "error"), ("algorithm", "seq"), ("error-code", "268435729"),
    ("malicious", "0")]

/-- It is tried again all the same. -/
theorem retry_process : ¬ ∀ s h a s' f, retryMachine.Reachable Machine.AnyStep (s, h) →
    s.next a = some s' → Reports s a s' f → RetryPolicy h s.server s'.server f := by
  intro h
  obtain ⟨x, s', f, hrun, hnext, hf, hgroup, herror, hstands, hmajors, hcreated, hcount, hcount',
      hqueue, hqueue', hlist⟩ : ∃ x s' f,
      retryMachine.run (sendUrl ++ [.receive 0 (.visitEvent processFailed)]) (oneUrlServer, {}) =
        some x ∧ x.1.next (.handle 0) = some s' ∧ failureOf x.1 (.handle 0) = some f ∧
      f.group = 0 ∧ f.error = .processError ∧ f.stands = false ∧ f.majors 0 = .ok ∧
      x.1.server.nextGroup = 1 ∧ (x.1.server.group 0).errorCount = 0 ∧
      (s'.server.group 0).errorCount = 1 ∧ x.1.server.urlGroupQueue = [] ∧
      s'.server.urlGroupQueue = [0] ∧ (x.1.server.group 0).urlList = [0] :=
    ⟨_, _, _, rfl, rfl, rfl, rfl, rfl, rfl, rfl, rfl, rfl, rfl, rfl, rfl, rfl⟩
  have hreports : Reports x.1 (.handle 0) s' f :=
    { failure := hf
      group := by rw [hgroup, hcreated]; exact Nat.one_pos
      counted := fun _ => by rw [hgroup, hcount, hcount']; exact Nat.one_pos
      goesOn := fun h => absurd (h.symm.trans hstands) nofun }
  have hpolicy := h x.1 x.2 (.handle 0) s' f (Machine.reachable_of_run retryMachine_init hrun) hnext
    hreports
  have hback : PutBack f x.1.server s'.server := by rw [PutBack, hqueue, hqueue', hgroup]
  obtain ⟨-, -, -, hreason⟩ := hpolicy.1.mp hback
  rw [Retryable, herror, hgroup, hlist] at hreason
  rcases hreason with h | h | h | ⟨u, hu, hnetwork, -⟩
  · cases h
  · cases h
  · cases h
  · obtain rfl := List.mem_singleton.mp hu
    exact absurd (hmajors.symm.trans hnetwork) nofun

end CaptureHpc.Server
