/-
# `Server.TreeReport` — the order of the lines in the report of a process tree

`getAllStateChanges` sorts at every node of the tree: by time, and at one time
by the name of the type, the greatest name first.  The sort is stable, so what
the comparator does not decide is decided by the order in which the node
collects: its object changes, its child processes, itself.

The greatest name first is what brings `process` before `file` and
`connection`.  It brings `registry` before `process`.  And two process changes
of one time have one type, so the node, collected last, comes after the child
processes it has created.  `causesFirst_iff` says that these are the only two
ways in which an effect precedes its cause.
-/
import CaptureHpc.Server.StateChangeHandler

namespace CaptureHpc.Server

open Java KeyedForest

/-- In the list every `a` comes before every `b`. -/
def ComesBefore {α : Type} (a b : α) (l : List α) : Prop :=
  ∀ i j : Nat, l[i]? = some a → l[j]? = some b → i < j

/-- The client reports that a process was created. -/
def ProcessStateChange.IsCreation (psc : ProcessStateChange) : Prop :=
  psc.type = "process" ∧ psc.action = some "created"

instance (psc : ProcessStateChange) : Decidable psc.IsCreation :=
  inferInstanceAs (Decidable (_ ∧ _))

/-- A file, registry or connection change. -/
def ObjectStateChange.IsEffect (osc : ObjectStateChange) : Prop :=
  osc.type = "file" ∨ osc.type = "registry" ∨ osc.type = "connection"

namespace ProcessTree

/-- In the report of the tree the creation of a process comes before its object
changes and before the creation of its child processes, at one time. -/
structure CausesFirst (t : ProcessTree) : Prop where
  objects : ∀ psc osc, Sum.inr psc ∈ t.elems → Sum.inl osc ∈ t.elems → psc.IsCreation →
    osc.IsEffect → osc.processId = psc.processId → osc.time = psc.time →
      ComesBefore (.inr psc) (.inl osc) (getAllStateChanges t)
  children : ∀ n ∈ t.nodes, ∀ kid ∈ n.kids, n.root.IsCreation → kid.root.IsCreation →
    kid.root.time = n.root.time →
      ComesBefore (.inr n.root) (.inr kid.root) (getAllStateChanges t)

/-- No process of the tree has touched the registry, or created a process, at
the time of its own creation. -/
structure CausesEarlier (t : ProcessTree) : Prop where
  registry : ∀ psc osc, Sum.inr psc ∈ t.elems → Sum.inl osc ∈ t.elems → psc.IsCreation →
    osc.type = "registry" → osc.processId = psc.processId → osc.time ≠ psc.time
  children : ∀ n ∈ t.nodes, ∀ kid ∈ n.kids, n.root.IsCreation → kid.root.IsCreation →
    kid.root.time ≠ n.root.time

/-! ## The comparator -/

theorem notAfter_of_not {a b : StateChange} (h : ¬ notAfter a b) : notAfter b a := by
  rcases lt_trichotomy a.getTime b.getTime with ht | ht | ht
  · exact absurd (.inl ht) h
  · have hgt : compareTo b.getType a.getType = .gt := by
      by_contra hne
      exact h (.inr ⟨ht, hne⟩)
    refine .inr ⟨ht.symm, ?_⟩
    rw [compareTo, Std.OrientedCmp.gt_iff_lt] at hgt
    rw [compareTo, hgt]
    intro hno
    cases hno
  · exact .inl ht

instance : Std.Total notAfter := ⟨fun a b => by
  by_cases h : notAfter a b
  · exact .inl h
  · exact .inr (notAfter_of_not h)⟩

instance : IsTrans StateChange notAfter := ⟨fun a b c hab hbc => by
  rcases hab with hab | ⟨htab, hab⟩
  · rcases hbc with hbc | ⟨htbc, -⟩
    · exact .inl (lt_trans hab hbc)
    · exact .inl (htbc ▸ hab)
  · rcases hbc with hbc | ⟨htbc, hbc⟩
    · exact .inl (htab ▸ hbc)
    · refine .inr ⟨htab.trans htbc, ?_⟩
      rw [compareTo] at hab hbc ⊢
      exact Ordering.isLE_iff_ne_gt.mp (Std.TransCmp.isLE_trans
        (Ordering.isLE_iff_ne_gt.mpr hbc) (Ordering.isLE_iff_ne_gt.mpr hab))⟩

/-- The report is sorted. -/
theorem getAllStateChanges_sorted (t : ProcessTree) :
    (getAllStateChanges t).Pairwise notAfter := by
  cases t with
  | node psc stateChanges childProcesses =>
      rw [getAllStateChanges]
      exact List.pairwise_insertionSort notAfter _

/-- **The report is a reordering of the tree by time.** -/
theorem getAllStateChanges_timeOrdered (t : ProcessTree) :
    (getAllStateChanges t).Pairwise fun a b => a.getTime ≤ b.getTime := by
  refine (getAllStateChanges_sorted t).imp fun hab => ?_
  rcases hab with hab | ⟨hab, -⟩
  · exact le_of_lt hab
  · exact le_of_eq hab

/-! ## What the comparator decides -/

theorem comesBefore_of_not_notAfter {a b : StateChange} {l : List StateChange}
    (hl : l.Pairwise notAfter) (hab : ¬ notAfter b a) : ComesBefore a b l := by
  intro i j hi hj
  obtain ⟨hil, rfl⟩ := List.getElem?_eq_some_iff.mp hi
  obtain ⟨hjl, rfl⟩ := List.getElem?_eq_some_iff.mp hj
  rcases Nat.lt_trichotomy i j with hij | rfl | hij
  · exact hij
  · exact absurd (Std.Refl.refl (r := notAfter) _) hab
  · exact absurd (List.pairwise_iff_getElem.mp hl j i hjl hil hij) hab

/-- Something that comes first somewhere does not always come second. -/
theorem not_comesBefore {α : Type} {a b : α} {l : List α} (h : [b, a].Sublist l) :
    ¬ ComesBefore a b l := by
  intro hbefore
  obtain ⟨l₁, l₂, rfl, hb, ha⟩ := List.cons_sublist_iff.mp h
  obtain ⟨j, hj, rfl⟩ := List.getElem_of_mem hb
  obtain ⟨i, hi, rfl⟩ := List.getElem_of_mem (List.singleton_sublist.mp ha)
  have ha : (l₁ ++ l₂)[l₁.length + i]? = some l₂[i] := by
    rw [List.getElem?_append_right (Nat.le_add_right _ _), Nat.add_sub_cancel_left]
    exact List.getElem?_eq_getElem hi
  have hb : (l₁ ++ l₂)[j]? = some l₁[j] := by
    rw [List.getElem?_append_left hj]
    exact List.getElem?_eq_getElem hj
  have hlt := hbefore _ _ ha hb
  omega

/-- Of one time and of unequal types: the greater name comes first. -/
theorem not_notAfter_of_type {a b : StateChange} (ht : b.getTime = a.getTime)
    (h : compareTo a.getType b.getType = .gt) : ¬ notAfter b a := by
  rintro (hlt | ⟨-, hne⟩)
  · exact absurd ht (ne_of_lt hlt)
  · exact hne h

/-! ## What the order of collection decides -/

mutual
/-- A child process that the comparator leaves where it is stays before its parent. -/
theorem child_sublist : ∀ (t n kid : ProcessTree), n ∈ t.nodes → kid ∈ n.kids →
    notAfter (.inr kid.root) (.inr n.root) →
      [Sum.inr kid.root, Sum.inr n.root].Sublist (getAllStateChanges t)
  | .node psc stateChanges childProcesses, n, kid, hn, hkid, hafter => by
      rw [getAllStateChanges]
      refine List.pair_sublist_insertionSort hafter ?_
      rcases List.mem_cons.mp hn with rfl | hn
      · have hmem : Sum.inr kid.root ∈
            stateChanges.map Sum.inl ++ childStateChanges childProcesses := by
          refine List.mem_append_right _ ((childStateChanges_perm childProcesses).mem_iff.mpr ?_)
          rw [elemsList_eq_flatMap, List.mem_flatMap]
          exact ⟨kid, hkid, root_mem_elems kid⟩
        exact (List.singleton_sublist.mpr hmem).append (List.Sublist.refl [Sum.inr psc])
      · have hbelow := children_sublist childProcesses n kid hn hkid hafter
        exact (hbelow.trans (List.sublist_append_right _ _)).trans (List.sublist_append_left _ _)
theorem children_sublist : ∀ (ts : List ProcessTree) (n kid : ProcessTree), n ∈ nodesList ts →
    kid ∈ n.kids → notAfter (.inr kid.root) (.inr n.root) →
      [Sum.inr kid.root, Sum.inr n.root].Sublist (childStateChanges ts)
  | [], _, _, hn, _, _ => nomatch hn
  | t :: ts, n, kid, hn, hkid, hafter => by
      rw [childStateChanges]
      rcases List.mem_append.mp hn with hn | hn
      · exact (child_sublist t n kid hn hkid hafter).trans (List.sublist_append_left _ _)
      · exact (children_sublist ts n kid hn hkid hafter).trans (List.sublist_append_right _ _)
end

/-! ## Causes and effects -/

/-- **When every cause precedes its effects in the report.**  Exactly when no
process has touched the registry or created a process at the time of its own
creation. -/
theorem causesFirst_iff (t : ProcessTree) : CausesFirst t ↔ CausesEarlier t := by
  have hsorted := getAllStateChanges_sorted t
  constructor
  · intro h
    constructor
    · intro psc osc hpsc hosc hcreated hregistry hpid htime
      have hbefore := h.objects psc osc hpsc hosc hcreated (.inr (.inl hregistry)) hpid htime
      -- the comparator puts the registry change first
      have hafter : ComesBefore (.inl osc) (.inr psc) (getAllStateChanges t) := by
        refine comesBefore_of_not_notAfter hsorted (not_notAfter_of_type htime.symm ?_)
        show compareTo osc.type psc.type = .gt
        rw [hregistry, hcreated.1]
        decide
      have hperm := getAllStateChanges_perm t
      obtain ⟨i, hi⟩ := List.mem_iff_getElem?.mp (hperm.mem_iff.mpr hpsc)
      obtain ⟨j, hj⟩ := List.mem_iff_getElem?.mp (hperm.mem_iff.mpr hosc)
      exact absurd (hbefore i j hi hj) (Nat.lt_asymm (hafter j i hj hi))
    · intro n hn kid hkid hcreated hkidCreated htime
      have hbefore := h.children n hn kid hkid hcreated hkidCreated htime
      -- one time and one type: the comparator leaves them as they were collected
      have hafter : notAfter (.inr kid.root) (.inr n.root) := by
        refine .inr ⟨htime, ?_⟩
        show compareTo n.root.type kid.root.type ≠ .gt
        rw [hcreated.1, hkidCreated.1, compareTo_refl]
        intro hno
        cases hno
      exact not_comesBefore (child_sublist t n kid hn hkid hafter) hbefore
  · intro h
    constructor
    · intro psc osc hpsc hosc hcreated heffect hpid htime
      refine comesBefore_of_not_notAfter hsorted (not_notAfter_of_type htime ?_)
      show compareTo psc.type osc.type = .gt
      rw [hcreated.1]
      rcases heffect with hfile | hregistry | hconnection
      · rw [hfile]
        decide
      · exact absurd htime (h.registry psc osc hpsc hosc hcreated hregistry hpid)
      · rw [hconnection]
        decide
    · intro n hn kid hkid hcreated hkidCreated htime
      exact absurd htime (h.children n hn kid hkid hcreated hkidCreated)

/-- A change that the registry monitor reports of a process nobody has reported. -/
def orphanedChange : ObjectStateChange where
  type := "registry"
  time := 0
  processId := 543
  process := some "iexplorer.exe"
  action := some "SetValueKey"
  object1 := some "HKLM\\Software\\test"
  object2 := some "-1"
  origin := some 0

/-- The process inferred for a registry change stands behind it in the report. -/
theorem effect_first :
    ¬ ∀ scs : List StateChange, ∀ t ∈ (StateChangeHandler.addAll {} scs).processTrees,
        CausesFirst t := by
  intro h
  have htree := h [.inl orphanedChange]
    (.node (StateChangeHandler.inferred orphanedChange) [orphanedChange] []) (by
      rw [StateChangeHandler.addAll, List.foldl_cons, List.foldl_nil]
      exact List.mem_singleton_self _)
  have hbefore := htree.objects (StateChangeHandler.inferred orphanedChange) orphanedChange
    (root_mem_elems _) List.mem_cons_self ⟨rfl, rfl⟩ (.inr (.inl rfl)) rfl rfl
  exact absurd (hbefore 1 0 (by decide) (by decide)) (by decide)

end ProcessTree

end CaptureHpc.Server
