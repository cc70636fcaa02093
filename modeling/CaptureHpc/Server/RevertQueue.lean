/-
# `Server.RevertQueue` — the work queue of a VMware server

A machine that is to be reverted gets a work item.  Its `setState` changes the
state in its monitor and then notifies `VMwareServer`, whose `update` adds the
item unless an equal one is queued.  The worker looks at the first item, holds
the monitor of its machine while the revert program runs, and removes the item
only after it has let go of the monitor.

Between these last two steps the machine can be sent to be reverted once more,
and then the item that is about to go away swallows the request.  An equal item
may also belong to another machine: items are compared by the unique ids of
their machines.  These are the only two ways to lose a request
(`revert_queued`).

Each step of a notification and each operation on the queue is a step of its
own.  The monitor of a machine is held across steps by the worker alone; the
other threads enter and leave it within one step.
-/
import Mathlib.Logic.Function.Basic
import CaptureHpc.Lib.Machine
import CaptureHpc.Server.State

namespace CaptureHpc.Server

/-- A thread that sets states: the queue thread, or another one (the state checker, or a thread
of a client). -/
inductive VmThread where
  | worker
  | other (n : Nat)
deriving DecidableEq

/-- How far a call of `VirtualMachine.setState` got after it has set the state. -/
inductive Notification where
  | setChanged (v : VmRef)
  | notifyObservers (v : VmRef)
  /-- `VMwareServer.update` -/
  | update (v : VmRef)
  /-- `queuedWorkItems.contains` -/
  | contains (v : VmRef)
  /-- `queuedWorkItems.add` -/
  | add (v : VmRef)
deriving DecidableEq

/-- `WorkItem`; the function is always `"revert"`. -/
structure WorkItem where
  vm : VmRef
deriving DecidableEq

/-- How far `VMwareServer.run` got. -/
inductive WorkerStep where
  | peek
  /-- about to enter the monitor of the machine -/
  | enter (item : WorkItem)
  /-- about to set REVERTING -/
  | reverting (item : WorkItem)
  /-- the revert program runs -/
  | vix (item : WorkItem)
  /-- about to leave the monitor -/
  | leave (item : WorkItem)
  /-- in the `finally` block -/
  | remove (item : WorkItem)
deriving DecidableEq

structure RevertState where
  /-- `vmUniqueId` -/
  uniqueId : VmRef → Int
  vmState : VmRef → VmState
  /-- The flag of `Observable`. -/
  changed : VmRef → Bool
  queuedWorkItems : List WorkItem
  worker : WorkerStep
  /-- The calls of `setState` a thread is in, the innermost first: a client that is
  disconnected in the monitor of one machine sets the state of its own. -/
  calls : VmThread → List Notification

namespace RevertState

/-- `WorkItem.equals`. -/
def equals (s : RevertState) (a b : WorkItem) : Bool := s.uniqueId a.vm == s.uniqueId b.vm

/-- The worker is in the monitor of the machine. -/
def held (s : RevertState) (v : VmRef) : Bool :=
  match s.worker with
  | .reverting item => item.vm == v
  | .vix item => item.vm == v
  | .leave item => item.vm == v
  | _ => false

/-- The thread has to wait for the monitor. -/
def blocked (s : RevertState) (t : VmThread) (v : VmRef) : Bool := t ≠ .worker && s.held v

def setCalls (s : RevertState) (t : VmThread) (calls : List Notification) : RevertState :=
  { s with calls := Function.update s.calls t calls }

/-- The synchronized block of `setState`. -/
def setState (s : RevertState) (t : VmThread) (v : VmRef) (newState : VmState) : RevertState :=
  if newState = s.vmState v then s
  else
    { s with
      vmState := Function.update s.vmState v newState
      calls := Function.update s.calls t (.setChanged v :: s.calls t) }

/-- The next step of the innermost call. -/
def advance (s : RevertState) (t : VmThread) : Option RevertState :=
  match s.calls t with
  | [] => none
  | .setChanged v :: rest =>
      if s.blocked t v then none
      else some { s.setCalls t (.notifyObservers v :: rest) with
                  changed := Function.update s.changed v true }
  | .notifyObservers v :: rest =>
      if s.blocked t v then none
      else if s.changed v then
        some { s.setCalls t (.update v :: rest) with
               changed := Function.update s.changed v false }
      else some (s.setCalls t rest)
  | .update v :: rest =>
      if s.vmState v = .waitingToBeReverted then some (s.setCalls t (.contains v :: rest))
      else some (s.setCalls t rest)
  | .contains v :: rest =>
      if s.queuedWorkItems.any (s.equals ⟨v⟩) then some (s.setCalls t rest)
      else some (s.setCalls t (.add v :: rest))
  | .add v :: rest =>
      some { s.setCalls t rest with queuedWorkItems := s.queuedWorkItems ++ [⟨v⟩] }

/-- The next step of the worker, when it is in no call.  The revert program ends with an error
code, or something throws. -/
def work (s : RevertState) (error : Option Int) : Option RevertState :=
  match s.worker with
  | .peek =>
      match s.queuedWorkItems with
      | [] => some s
      | item :: _ => some { s with worker := .enter item }
  | .enter item => some { s with worker := .reverting item }
  | .reverting item =>
      some { s.setState .worker item.vm .reverting with worker := .vix item }
  | .vix item =>
      match error with
      | some error =>
          some { s.setState .worker item.vm (if error = 0 then .running else .error) with
                 worker := .leave item }
      | none => some { s with worker := .leave item }
  | .leave item => some { s with worker := .remove item }
  | .remove item =>
      some { s with queuedWorkItems := s.queuedWorkItems.eraseP (s.equals item)
                    worker := .peek }

end RevertState

/-- Who moves. -/
inductive RevertAction where
  /-- Another thread enters `setState`.  In the midst of a call it does so only from the
  synchronized block, before `setChanged`. -/
  | setState (n : Nat) (v : VmRef) (newState : VmState)
  | advance (t : VmThread)
  | work (error : Option Int)

open RevertState in
/-- One VMware server, the state checker and the threads of the clients. -/
def revertMachine : Machine RevertState RevertAction where
  init s :=
    (∀ v, s.vmState v = .stopped) ∧ (∀ v, s.changed v = false) ∧ s.queuedWorkItems = [] ∧
      s.worker = .peek ∧ ∀ t, s.calls t = []
  next s
    | .setState n v newState =>
        let inBlock := match s.calls (.other n) with
          | [] | .setChanged _ :: _ => true
          | _ => false
        if inBlock && (newState = .waitingToBeReverted || newState = .running) &&
            !s.blocked (.other n) v then
          some (s.setState (.other n) v newState)
        else none
    | .advance t => s.advance t
    | .work error => if s.calls .worker = [] then s.work error else none

/-! ## What a machine that waits can rely on -/

/-- The machine whose state was set. -/
def Notification.vm : Notification → VmRef
  | .setChanged v | .notifyObservers v | .update v | .contains v | .add v => v

/-- The step of a notification that may still put an item on the queue. -/
def Notification.mayQueue (v : VmRef) : Notification → Prop
  | .setChanged w | .update w | .contains w | .add w => w = v
  | .notifyObservers _ => False

namespace RevertState

/-- The notification of a change has not run yet. -/
def Pending (s : RevertState) (v : VmRef) : Prop :=
  s.changed v = true ∨ ∃ t, ∃ n ∈ s.calls t, n.mayQueue v

/-- The items for which REVERTING is not set yet: all but the one that is being finished. -/
def awaiting (s : RevertState) : List WorkItem :=
  match s.worker with
  | .vix _ | .leave _ | .remove _ => s.queuedWorkItems.tail
  | _ => s.queuedWorkItems

/-- An item for the machine is queued, and the machine is not set to REVERTING for it yet. -/
def Queued (s : RevertState) (v : VmRef) : Prop := ∃ item ∈ s.awaiting, item.vm = v

/-- The worker is at the first item. -/
def AtFirst (s : RevertState) : Prop :=
  match s.worker with
  | .peek => True
  | .enter item | .reverting item | .vix item | .leave item | .remove item =>
      ∃ rest, s.queuedWorkItems = item :: rest

/-- No revert is forgotten. -/
structure Kept (s : RevertState) : Prop where
  first : s.AtFirst
  needed : ∀ v, s.vmState v = .waitingToBeReverted → s.Pending v ∨ s.Queued v

end RevertState

/-- The step drops no request in favour of an item that is being finished, or that is of another
machine: when the machine waits and an equal item is queued, one for the machine itself is. -/
def DropsNoRequest (s : RevertState) : RevertAction → Prop
  | .advance t => ∀ v rest, s.calls t = .contains v :: rest →
      s.vmState v = .waitingToBeReverted → s.queuedWorkItems.any (s.equals ⟨v⟩) → s.Queued v
  | _ => True

/-! ## The steps -/

namespace RevertState

section Steps
variable {s s' : RevertState} {v w : VmRef} {t : VmThread}

theorem Notification.vm_of_mayQueue {n : Notification} (h : n.mayQueue v) : n.vm = v := by
  cases n with
  | notifyObservers w => exact absurd h not_false
  | setChanged w => exact h
  | update w => exact h
  | contains w => exact h
  | add w => exact h

/-- A step of a call of one machine leaves the notifications of the others. -/
theorem Pending.advance {n : Notification} {rest ns : List Notification}
    (h : s.Pending v) (hcall : s.calls t = n :: rest) (hne : v ≠ n.vm)
    (hcalls : s'.calls = Function.update s.calls t (ns ++ rest))
    (hchanged : s'.changed v = s.changed v) : s'.Pending v := by
  rcases h with h | ⟨t', n', hmem, hn'⟩
  · exact .inl (hchanged.trans h)
  · refine .inr ⟨t', n', ?_, hn'⟩
    rw [hcalls]
    by_cases ht : t' = t
    · subst ht
      rw [hcall] at hmem
      rw [Function.update_self]
      rcases List.mem_cons.mp hmem with rfl | hmem
      · exact absurd (Notification.vm_of_mayQueue hn').symm hne
      · exact List.mem_append_right _ hmem
    · rw [Function.update_of_ne ht]
      exact hmem

/-- What a step of a call has to keep: the machine it is about. -/
theorem needed_of_advance {n : Notification} {rest : List Notification} (ns : List Notification)
    (h : ∀ v, s.vmState v = .waitingToBeReverted → s.Pending v ∨ s.Queued v)
    (hcall : s.calls t = n :: rest)
    (hcalls : s'.calls = Function.update s.calls t (ns ++ rest))
    (hchanged : ∀ v, v ≠ n.vm → s'.changed v = s.changed v) (hstate : s'.vmState = s.vmState)
    (hqueued : ∀ v, s.Queued v → s'.Queued v)
    (hvm : s.vmState n.vm = .waitingToBeReverted → s'.Pending n.vm ∨ s'.Queued n.vm) :
    ∀ v, s'.vmState v = .waitingToBeReverted → s'.Pending v ∨ s'.Queued v := by
  intro v hv
  rw [hstate] at hv
  by_cases hne : v = n.vm
  · subst hne
    exact hvm hv
  · rcases h v hv with hp | hq
    · exact .inl (hp.advance hcall hne hcalls (hchanged v hne))
    · exact .inr (hqueued v hq)

theorem queued_append (item : WorkItem) (hfirst : s.AtFirst) :
    (∀ v, s.Queued v → { s with queuedWorkItems := s.queuedWorkItems ++ [item] }.Queued v) ∧
      { s with queuedWorkItems := s.queuedWorkItems ++ [item] }.Queued item.vm := by
  have hawaiting : { s with queuedWorkItems := s.queuedWorkItems ++ [item] }.awaiting =
      s.awaiting ++ [item] := by
    rw [AtFirst] at hfirst
    rw [awaiting, awaiting]
    cases hw : s.worker <;> rw [hw] at hfirst <;> try rfl
    all_goals
      obtain ⟨rest, hrest⟩ := hfirst
      rw [hrest]
      rfl
  refine ⟨fun v ⟨i, hi, hvm⟩ => ⟨i, ?_, hvm⟩, item, ?_, rfl⟩
  · rw [hawaiting]
    exact List.mem_append_left _ hi
  · rw [hawaiting]
    exact List.mem_append_right _ List.mem_cons_self

/-- A notification that advances keeps every needed revert, unless it drops a request. -/
theorem Kept.advance (h : s.Kept) (hok : DropsNoRequest s (.advance t))
    (hnext : s.advance t = some s') : s'.Kept := by
  rw [RevertState.advance] at hnext
  split at hnext
  · cases hnext
  · next w rest hcall =>
      split at hnext
      · cases hnext
      · obtain rfl := Option.some.inj hnext
        refine ⟨h.first, needed_of_advance [.notifyObservers w] h.needed hcall rfl
          (fun v hne => Function.update_of_ne hne ..) rfl (fun v hq => hq) fun _ => ?_⟩
        exact .inl (.inl (Function.update_self ..))
  · next w rest hcall =>
      split at hnext
      · cases hnext
      · split at hnext
        · obtain rfl := Option.some.inj hnext
          refine ⟨h.first, needed_of_advance [.update w] h.needed hcall rfl
            (fun v hne => Function.update_of_ne hne ..) rfl (fun v hq => hq) fun _ => ?_⟩
          exact .inl (.inr ⟨t, .update w, by simp [setCalls], rfl⟩)
        · next hunchanged =>
            -- nothing had to be notified
            obtain rfl := Option.some.inj hnext
            refine ⟨h.first, fun v hv => ?_⟩
            rcases h.needed v hv with hp | hq
            · left
              rcases hp with hp | ⟨t', n, hmem, hn⟩
              · exact .inl hp
              · refine .inr ⟨t', n, ?_, hn⟩
                show n ∈ Function.update s.calls t rest t'
                by_cases ht : t' = t
                · subst ht
                  rw [hcall] at hmem
                  rw [Function.update_self]
                  rcases List.mem_cons.mp hmem with rfl | hmem
                  · exact absurd hn not_false
                  · exact hmem
                · rwa [Function.update_of_ne ht]
            · exact .inr hq
  · next w rest hcall =>
      split at hnext
      · next hstate =>
          obtain rfl := Option.some.inj hnext
          refine ⟨h.first, needed_of_advance [.contains w] h.needed hcall rfl
            (fun v _ => rfl) rfl (fun v hq => hq) fun _ => ?_⟩
          exact .inl (.inr ⟨t, .contains w, by simp [setCalls], rfl⟩)
      · next hstate =>
          obtain rfl := Option.some.inj hnext
          exact ⟨h.first, needed_of_advance [] h.needed hcall rfl (fun v _ => rfl) rfl
            (fun v hq => hq) fun hw => absurd hw hstate⟩
  · next w rest hcall =>
      split at hnext
      · next hequal =>
          obtain rfl := Option.some.inj hnext
          exact ⟨h.first, needed_of_advance [] h.needed hcall rfl (fun v _ => rfl) rfl
            (fun v hq => hq) fun hw => .inr (hok w rest hcall hw hequal)⟩
      · obtain rfl := Option.some.inj hnext
        refine ⟨h.first, needed_of_advance [.add w] h.needed hcall rfl (fun v _ => rfl)
          rfl (fun v hq => hq) fun _ => ?_⟩
        exact .inl (.inr ⟨t, .add w, by simp [setCalls], rfl⟩)
  · next w rest hcall =>
      obtain rfl := Option.some.inj hnext
      obtain ⟨hkeep, hnew⟩ := queued_append ⟨w⟩ h.first
      refine ⟨?_, needed_of_advance [] h.needed hcall rfl (fun v _ => rfl) rfl
        (fun v hq => hkeep v hq) fun _ => .inr hnew⟩
      have hfirst := h.first
      show match s.worker with
        | .peek => True
        | .enter item | .reverting item | .vix item | .leave item | .remove item =>
            ∃ rest, s.queuedWorkItems ++ [⟨w⟩] = item :: rest
      rw [AtFirst] at hfirst
      cases hw : s.worker <;> rw [hw] at hfirst <;> first
        | exact trivial
        | (obtain ⟨rest, hrest⟩ := hfirst; exact ⟨rest ++ [⟨w⟩], by rw [hrest]; rfl⟩)

theorem setState_cases (s : RevertState) (t : VmThread) (w : VmRef) (newState : VmState) :
    (newState = s.vmState w ∧ s.setState t w newState = s) ∨
      s.setState t w newState =
        { s with vmState := Function.update s.vmState w newState
                 calls := Function.update s.calls t (.setChanged w :: s.calls t) } := by
  rw [RevertState.setState]
  split
  · next h => exact .inl ⟨h, rfl⟩
  · exact .inr rfl

/-- A machine whose state is set to something new has a notification pending. -/
theorem needed_of_setState {newState : VmState}
    (h : ∀ v, s.vmState v = .waitingToBeReverted → s.Pending v ∨ s.Queued v) :
    ∀ v, (s.setState t w newState).vmState v = .waitingToBeReverted →
      (s.setState t w newState).Pending v ∨ s.Queued v := by
  intro v hv
  rcases s.setState_cases t w newState with ⟨-, hsame⟩ | hnew
  · rw [hsame] at hv ⊢
    exact h v hv
  · rw [hnew] at hv ⊢
    by_cases hvw : v = w
    · subst hvw
      exact .inl (.inr ⟨t, .setChanged v, by simp, rfl⟩)
    · have hold : s.vmState v = .waitingToBeReverted := by
        have hsame : Function.update s.vmState w newState v = s.vmState v :=
          Function.update_of_ne hvw ..
        exact hsame.symm.trans hv
      rcases h v hold with (hp | ⟨t', n, hmem, hn⟩) | hq
      · exact .inl (.inl hp)
      · refine .inl (.inr ⟨t', n, ?_, hn⟩)
        show n ∈ Function.update s.calls t _ t'
        by_cases ht : t' = t
        · subst ht
          rw [Function.update_self]
          exact List.mem_cons_of_mem _ hmem
        · rwa [Function.update_of_ne ht]
      · exact .inr hq

theorem setState_queue (newState : VmState) :
    (s.setState t w newState).queuedWorkItems = s.queuedWorkItems ∧
      (s.setState t w newState).worker = s.worker := by
  rcases s.setState_cases t w newState with ⟨-, hsame⟩ | hnew
  · rw [hsame]
    exact ⟨rfl, rfl⟩
  · rw [hnew]
    exact ⟨rfl, rfl⟩

theorem setState_vmState (newState : VmState) : (s.setState t w newState).vmState w = newState := by
  rcases s.setState_cases t w newState with ⟨hold, hsame⟩ | hnew
  · rw [hsame, hold]
  · rw [hnew]
    exact Function.update_self ..

theorem Kept.setState (h : s.Kept) (t : VmThread) (w : VmRef) (newState : VmState) :
    (s.setState t w newState).Kept := by
  obtain ⟨hqueue, hworker⟩ := setState_queue (s := s) (t := t) (w := w) newState
  refine ⟨?_, fun v hv => ?_⟩
  · rw [AtFirst, hqueue, hworker]
    exact h.first
  · rw [Queued, awaiting, hqueue, hworker]
    exact needed_of_setState h.needed v hv

/-- The worker lets go of an item only after it has set REVERTING for it. -/
theorem Kept.work (h : s.Kept) {error : Option Int} (hnext : s.work error = some s') :
    s'.Kept := by
  obtain ⟨hfirst, hneeded⟩ := h
  rw [RevertState.work] at hnext
  split at hnext
  · next hw =>
      split at hnext
      · obtain rfl := Option.some.inj hnext
        exact ⟨hfirst, hneeded⟩
      · next item rest hqueue =>
          obtain rfl := Option.some.inj hnext
          refine ⟨⟨rest, hqueue⟩, fun v hv => (hneeded v hv).imp_right ?_⟩
          rintro ⟨i, hi, hvm⟩
          rw [awaiting, hw] at hi
          exact ⟨i, hi, hvm⟩
  · next item hw =>
      obtain rfl := Option.some.inj hnext
      rw [AtFirst, hw] at hfirst
      refine ⟨hfirst, fun v hv => (hneeded v hv).imp_right ?_⟩
      rintro ⟨i, hi, hvm⟩
      rw [awaiting, hw] at hi
      exact ⟨i, hi, hvm⟩
  · next item hw =>
      obtain rfl := Option.some.inj hnext
      rw [AtFirst, hw] at hfirst
      obtain ⟨rest, hrest⟩ := hfirst
      obtain ⟨hqueue, -⟩ := setState_queue (s := s) (t := .worker) (w := item.vm) .reverting
      refine ⟨⟨rest, hqueue.trans hrest⟩, fun v hv => ?_⟩
      rcases needed_of_setState hneeded v hv with hp | ⟨i, hi, hvm⟩
      · exact .inl hp
      · refine .inr ⟨i, ?_, hvm⟩
        rw [awaiting, hw, hrest] at hi
        show i ∈ (s.setState .worker item.vm .reverting).queuedWorkItems.tail
        rw [hqueue, hrest]
        rcases List.mem_cons.mp hi with rfl | hi
        · -- the machine of the item does not wait any more
          subst hvm
          exact absurd ((setState_vmState _).symm.trans hv) nofun
        · exact hi
  · next item hw =>
      rw [AtFirst, hw] at hfirst
      split at hnext
      · next error =>
          obtain rfl := Option.some.inj hnext
          obtain ⟨hqueue, -⟩ := setState_queue (s := s) (t := .worker) (w := item.vm)
            (if error = 0 then .running else .error)
          refine ⟨?_, fun v hv => (needed_of_setState hneeded v hv).imp_right ?_⟩
          · obtain ⟨rest, hrest⟩ := hfirst
            exact ⟨rest, hqueue.trans hrest⟩
          · rintro ⟨i, hi, hvm⟩
            rw [awaiting, hw] at hi
            exact ⟨i, by rw [awaiting, hqueue]; exact hi, hvm⟩
      · obtain rfl := Option.some.inj hnext
        refine ⟨hfirst, fun v hv => (hneeded v hv).imp_right ?_⟩
        rintro ⟨i, hi, hvm⟩
        rw [awaiting, hw] at hi
        exact ⟨i, hi, hvm⟩
  · next item hw =>
      obtain rfl := Option.some.inj hnext
      rw [AtFirst, hw] at hfirst
      refine ⟨hfirst, fun v hv => (hneeded v hv).imp_right ?_⟩
      rintro ⟨i, hi, hvm⟩
      rw [awaiting, hw] at hi
      exact ⟨i, hi, hvm⟩
  · next item hw =>
      obtain rfl := Option.some.inj hnext
      rw [AtFirst, hw] at hfirst
      obtain ⟨rest, hrest⟩ := hfirst
      refine ⟨trivial, fun v hv => (hneeded v hv).imp_right ?_⟩
      rintro ⟨i, hi, hvm⟩
      rw [awaiting, hw, hrest] at hi
      refine ⟨i, ?_, hvm⟩
      show i ∈ s.queuedWorkItems.eraseP (s.equals item)
      have hself : s.equals item item = true := beq_self_eq_true _
      rw [hrest, List.eraseP_cons_of_pos hself]
      exact hi

end Steps

end RevertState

/-- **No revert is forgotten** in a run whose steps drop no request. -/
theorem revert_queued {s : RevertState} (h : revertMachine.Reachable DropsNoRequest s) {v : VmRef}
    (hwaiting : s.vmState v = .waitingToBeReverted) (hrun : ¬ s.Pending v) : s.Queued v := by
  have hkept : s.Kept := by
    refine h.invariant (P := RevertState.Kept) ?_ ?_
    · rintro s ⟨hstate, -, -, hworker, -⟩
      refine ⟨?_, fun v hv => ?_⟩
      · rw [RevertState.AtFirst, hworker]
        exact trivial
      · rw [hstate] at hv
        cases hv
    · intro s a s' hs hok hnext
      cases a with
      | setState n w newState =>
          simp only [revertMachine, Option.ite_none_right_eq_some, Option.some.injEq] at hnext
          rw [← hnext.2]
          exact hs.setState _ _ _
      | advance t => exact hs.advance hok hnext
      | work error =>
          simp only [revertMachine, Option.ite_none_right_eq_some] at hnext
          exact hs.work hnext.2
  exact (hkept.needed v hwaiting).resolve_left hrun

/-! ## Two runs -/

/-- A server before its machines are added; every machine has an id of its own. -/
def freshServer : RevertState where
  uniqueId v := v
  vmState _ := .stopped
  changed _ := false
  queuedWorkItems := []
  worker := .peek
  calls _ := []

theorem freshServer_init : revertMachine.init freshServer :=
  ⟨fun _ => rfl, fun _ => rfl, rfl, rfl, fun _ => rfl⟩

/-- Machine 0 is added, and its item is queued. -/
def addVirtualMachine : List RevertAction :=
  .setState 0 0 .waitingToBeReverted :: List.replicate 5 (.advance (.other 0))

/-- The worker reverts machine 0 and leaves its monitor. -/
def revertFirst : List RevertAction :=
  [.work none, .work none, .work none] ++ List.replicate 3 (.advance .worker) ++
    [.work (some 0)] ++ List.replicate 3 (.advance .worker) ++ [.work none]

/-- Machine 0 is to be reverted again before the worker removes its item. -/
def revertAgain : List RevertAction :=
  .setState 0 0 .waitingToBeReverted :: List.replicate 4 (.advance (.other 0)) ++ [.work none]

theorem revert_forgotten :
    ¬ ∀ s, revertMachine.Reachable Machine.AnyStep s →
        ∀ v, s.vmState v = .waitingToBeReverted → ¬ s.Pending v → s.Queued v := by
  intro h
  obtain ⟨s, hrun, hwaiting, hchanged, hcalls, hqueue⟩ : ∃ s,
      revertMachine.run (addVirtualMachine ++ revertFirst ++ revertAgain) freshServer = some s ∧
        s.vmState 0 = .waitingToBeReverted ∧ s.changed 0 = false ∧ (∀ t, s.calls t = []) ∧
          s.awaiting = [] := by
    refine ⟨_, rfl, rfl, rfl, fun t => ?_, rfl⟩
    rcases t with _ | _ | n <;> rfl
  have hrest : ¬ s.Pending 0 := by
    rintro (hc | ⟨t, n, hmem, -⟩)
    · exact absurd (hchanged.symm.trans hc) nofun
    · rw [hcalls] at hmem
      exact absurd hmem List.not_mem_nil
  obtain ⟨item, hitem, -⟩ := h s (Machine.reachable_of_run freshServer_init hrun) 0 hwaiting hrest
  rw [hqueue] at hitem
  exact absurd hitem List.not_mem_nil

/-- On an empty queue no request is dropped. -/
theorem drops_empty {s : RevertState} (t : VmThread) (h : s.queuedWorkItems = []) :
    DropsNoRequest s (.advance t) := by
  intro v rest _ _ hequal
  rw [h] at hequal
  cases hequal

theorem revert_added :
    ∃ s, revertMachine.run addVirtualMachine freshServer = some s ∧ s.Queued 0 := by
  obtain ⟨s, hrun, hwaiting, hchanged, hcalls⟩ : ∃ s,
      revertMachine.run addVirtualMachine freshServer = some s ∧
        s.vmState 0 = .waitingToBeReverted ∧ s.changed 0 = false ∧ ∀ t, s.calls t = [] := by
    refine ⟨_, rfl, rfl, rfl, fun t => ?_⟩
    rcases t with _ | _ | n <;> rfl
  refine ⟨s, hrun, revert_queued ?_ hwaiting ?_⟩
  · refine (Machine.Reachable.init freshServer_init).run ?_ hrun
    exact ⟨trivial, drops_empty _ rfl, drops_empty _ rfl, drops_empty _ rfl, drops_empty _ rfl,
      drops_empty _ rfl, trivial⟩
  · rintro (hc | ⟨t, n, hmem, -⟩)
    · exact absurd (hchanged.symm.trans hc) nofun
    · rw [hcalls] at hmem
      exact absurd hmem List.not_mem_nil

end CaptureHpc.Server
