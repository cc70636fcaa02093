/-
# `Server.ProcessForest` — what the trees of a handler hold

A handler that has been given a sequence of changes holds a forest of exactly
these changes: each in one tree, once, under the process that caused it.
Nothing is added but the processes that are inferred, and those are roots.

A step files one change under one node that it belongs to (`addStateChange_filed`);
the rest is bookkeeping over the sequence.
-/
import CaptureHpc.Server.Attribution
import CaptureHpc.Server.TreeReport

namespace CaptureHpc.Server

open Java KeyedForest StateChangeHandler

/-- The forest that a handler holds after a sequence of changes. -/
structure ForestOf (scs : List StateChange) (h : StateChangeHandler) : Prop where
  /-- Each change is in one tree, once. -/
  once : ∀ sc ∈ scs, ∃ l t r, h.processTrees = l ++ t :: r ∧ t.elems.count sc = 1 ∧
    ∀ u ∈ l ++ r, sc ∉ u.elems
  /-- What was not added is the root of a tree, inferred from a change that was. -/
  inferred : ∀ t ∈ h.processTrees, ∀ sc ∈ t.elems, sc ∈ scs ∨
    ∃ osc, Sum.inl osc ∈ scs ∧ sc = Sum.inr (StateChangeHandler.inferred osc) ∧
      StateChangeHandler.inferred osc ∈ h.roots
  /-- A child process has its parent's process id for parent process id. -/
  children : ∀ t ∈ h.processTrees, ∀ n ∈ t.nodes, ∀ kid ∈ n.kids,
    kid.root.parentProcessId = n.root.processId
  /-- An object change has the process id of its process. -/
  objects : ∀ t ∈ h.processTrees, ∀ n ∈ t.nodes, ∀ osc ∈ n.items,
    osc.processId = n.root.processId
  /-- The report of a tree has all its changes, and these in order of time. -/
  reports : ∀ t ∈ h.processTrees, (ProcessTree.getAllStateChanges t).Perm t.elems ∧
    (ProcessTree.getAllStateChanges t).Pairwise fun a b => a.getTime ≤ b.getTime

namespace StateChangeHandler

/-! ## One change -/

/-- Every change is below the process it belongs to. -/
def AllFiled (h : StateChangeHandler) : Prop :=
  ∀ n ∈ nodesList h.processTrees, Filed ProcessStateChange.processId StateChange.holderId n

theorem opened_filed (sc : StateChange) : ∀ n ∈ (opened sc).nodes,
    Filed ProcessStateChange.processId StateChange.holderId n := by
  cases sc with
  | inr psc => exact leaf_filed psc
  | inl osc =>
      intro n hn
      obtain rfl := List.mem_singleton.mp hn
      refine ⟨fun i hi => ?_, nofun⟩
      rw [List.mem_singleton.mp hi]
      rfl

theorem addStateChange_filed {h : StateChangeHandler} (hfiled : h.AllFiled) (sc : StateChange) :
    (h.addStateChange sc).1.AllFiled := by
  rcases h.addStateChange_cases sc with ⟨trees, hhang, he⟩ | ⟨-, he⟩
  · rw [he]
    exact hangFirst_filed rfl hhang hfiled
  · rw [he]
    intro n hn
    rw [nodesList_eq_flatMap, List.flatMap_append, List.mem_append, ← nodesList_eq_flatMap,
      List.flatMap_singleton] at hn
    rcases hn with hn | hn
    · exact hfiled n hn
    · exact opened_filed sc n hn

/-- Everything stored was added, or is an inferred root. -/
def AllKnown (scs : List StateChange) (h : StateChangeHandler) : Prop :=
  ∀ sc ∈ h.stored, sc ∈ scs ∨
    ∃ osc, Sum.inl osc ∈ scs ∧ sc = Sum.inr (inferred osc) ∧ inferred osc ∈ h.roots

theorem addStateChange_known {scs : List StateChange} {h : StateChangeHandler}
    (hknown : AllKnown scs h) {sc : StateChange} (hsc : sc ∈ scs) :
    AllKnown scs (h.addStateChange sc).1 := by
  have hroots : ∀ psc ∈ h.roots, psc ∈ (h.addStateChange sc).1.roots := by
    intro psc hpsc
    rw [roots_addStateChange]
    exact List.mem_append_left _ hpsc
  have hold : ∀ x ∈ h.stored, x ∈ scs ∨ ∃ osc, Sum.inl osc ∈ scs ∧ x = Sum.inr (inferred osc) ∧
      inferred osc ∈ (h.addStateChange sc).1.roots := by
    intro x hx
    rcases hknown x hx with hx | ⟨osc, hosc, rfl, hroot⟩
    · exact .inl hx
    · exact .inr ⟨osc, hosc, rfl, hroots _ hroot⟩
  intro x hx
  rcases h.stored_addStateChange sc with hp | ⟨osc, rfl, horphan, hp⟩
  · rcases List.mem_cons.mp (hp.mem_iff.mp hx) with rfl | hx
    · exact .inl hsc
    · exact hold x hx
  · rcases List.mem_cons.mp (hp.mem_iff.mp hx) with rfl | hx
    · exact .inl hsc
    · rcases List.mem_cons.mp hx with rfl | hx
      · refine .inr ⟨osc, hsc, rfl, ?_⟩
        rw [roots_addStateChange, if_neg horphan]
        exact List.mem_append_right _ (List.mem_singleton_self _)
      · exact hold x hx

/-! ## A sequence of changes -/

theorem addAll_filed (scs : List StateChange) {h : StateChangeHandler} (hfiled : h.AllFiled) :
    (h.addAll scs).AllFiled := by
  induction scs generalizing h with
  | nil => exact hfiled
  | cons sc scs ih => exact ih (addStateChange_filed hfiled sc)

theorem addAll_known {scs : List StateChange} (added : List StateChange) {h : StateChangeHandler}
    (hadded : ∀ sc ∈ added, sc ∈ scs) (hknown : AllKnown scs h) :
    AllKnown scs (h.addAll added) := by
  induction added generalizing h with
  | nil => exact hknown
  | cons sc added ih =>
      exact ih (fun x hx => hadded x (List.mem_cons_of_mem _ hx))
        (addStateChange_known hknown (hadded sc List.mem_cons_self))

/-- **The trees of a handler are a forest of the changes it was given.** -/
theorem addAll_forest (scs : List StateChange) (hobj : DistinctObjects scs) :
    (∀ l sc r, scs = l ++ sc :: r → ((addAll {} l).addStateChange sc).2 = true) ∧
      ForestOf scs (addAll {} scs) := by
  have hfiled : AllFiled (addAll {} scs) := addAll_filed scs nofun
  have hknown : AllKnown scs (addAll {} scs) := addAll_known scs (fun _ hsc => hsc) nofun
  have hnodes : ∀ t ∈ (addAll {} scs).processTrees, ∀ n ∈ t.nodes,
      Filed ProcessStateChange.processId StateChange.holderId n := by
    intro t ht n hn
    refine hfiled n ?_
    rw [nodesList_eq_flatMap, List.mem_flatMap]
    exact ⟨t, ht, hn⟩
  refine ⟨fun l sc r _ => addStateChange_added _ sc, ?_, ?_, ?_, ?_, ?_⟩
  · intro sc hsc
    obtain ⟨-, t, ht, hst⟩ := (mem_tree_iff hobj).mp hsc
    obtain ⟨l, r, hlr⟩ := List.append_of_mem ht
    obtain ⟨hone, hl, hr⟩ := once_in_tree hobj hlr hsc hst
    refine ⟨l, t, r, hlr, hone, fun u hu => ?_⟩
    rcases List.mem_append.mp hu with hu | hu
    · exact hl u hu
    · exact hr u hu
  · intro t ht sc hsc
    refine hknown sc ?_
    rw [stored, elemsList_eq_flatMap, List.mem_flatMap]
    exact ⟨t, ht, hsc⟩
  · intro t ht n hn kid hkid
    exact (hnodes t ht n hn).kids kid.root (List.mem_map_of_mem hkid)
  · intro t ht n hn osc hosc
    exact (hnodes t ht n hn).items osc hosc
  · intro t _
    exact ⟨ProcessTree.getAllStateChanges_perm t, ProcessTree.getAllStateChanges_timeOrdered t⟩

/-- A process that is its own parent, and an orphaned change of another. -/
theorem addAll_forest_two : ForestOf [.inr (processEvent 1 "created" 231 231),
    .inl ProcessTree.orphanedChange] (addAll {} [.inr (processEvent 1 "created" 231 231),
      .inl ProcessTree.orphanedChange]) :=
  (addAll_forest _ ⟨by decide, by decide⟩).2

end StateChangeHandler

end CaptureHpc.Server
