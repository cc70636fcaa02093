/-
# `Server.Attribution` — which process ids a state change is reported for

At the end of a bulk visit every URL names the process that visited it, and
the server asks the handler for the changes of each id and then for the
remainder, "the state changes that do not map to any of the processIds".  Read
so, the CSVs of the ids and the remainder partition the changes.

They do not.  `getStateChangesCSV` takes the first tree whose root has the id
*or whose root's parent has it*; the remainder looks at the root's own id only.
So a tree found through its parent is reported twice, and of two trees with one
root id (a process that was created and then terminated) the second is in no
report at all.

`partition_iff` says exactly when the reports are a partition, in terms of the
openers of the sequence: no tree answers to two ids, and a tree answers to some
id exactly when its own root id is among them.
-/
import CaptureHpc.Server.StateChangeHandler

namespace CaptureHpc.Server

open Java KeyedForest StateChangeHandler

/-- The changes of a sequence are distinct objects, all received. -/
structure DistinctObjects (scs : List StateChange) : Prop where
  received : ∀ sc ∈ scs, StateChangeHandler.received sc
  distinct : (scs.map StateChange.origin).Nodup

theorem DistinctObjects.nodup {scs : List StateChange} (h : DistinctObjects scs) : scs.Nodup :=
  h.distinct.of_map _

/-- All lines reported for the ids and in the remainder. -/
def reports (h : StateChangeHandler) (processIds : List Int) : List StateChange :=
  processIds.flatMap h.getStateChanges ++ h.getRemainderStateChanges processIds

/-- The tree an id is answered by, as its position in the list of roots. -/
def answeredBy (roots : List ProcessStateChange) (processId : Int) : Option Nat :=
  roots.findIdx? (answersTo processId)

/-- The ids select the trees one to one: a tree answers to an id of the list
exactly when its root id is on the list, and to no two. -/
structure Separated (roots : List ProcessStateChange) (processIds : List Int) : Prop where
  own : ∀ i root, roots[i]? = some root →
    (root.processId ∈ processIds ↔ ∃ p ∈ processIds, answeredBy roots p = some i)
  single : ∀ p ∈ processIds, ∀ q ∈ processIds, ∀ i,
    answeredBy roots p = some i → answeredBy roots q = some i → p = q

/-! ## The tree of an id, by position -/

theorem find?_eq_findIdx? {α β : Type} (f : α → β) (q : β → Bool) :
    ∀ l : List α, l.find? (fun a => q (f a)) = (l.map f).findIdx? q >>= fun i => l[i]? := by
  intro l
  induction l with
  | nil => rfl
  | cons a l ih =>
      cases hq : q (f a) with
      | true => simp [List.findIdx?_cons, hq]
      | false =>
          rw [List.find?_cons_of_neg (by simp [hq]), ih, List.map_cons, List.findIdx?_cons]
          cases hidx : (l.map f).findIdx? q with
          | none => simp [hq]
          | some i => simp [hq]

theorem treeOf_eq (h : StateChangeHandler) {p : Int} (hp : p ≠ 0) :
    h.treeOf p = answeredBy h.roots p >>= fun i => h.processTrees[i]? := by
  have hfind := find?_eq_findIdx? Tree.root (answersTo p) h.processTrees
  rw [treeOf, answeredBy, StateChangeHandler.roots, ← hfind]
  cases h.processTrees.find? (fun t => answersTo p t.root) with
  | some t => rfl
  | none => simp [hp]

/-! ## One change among the trees -/

section Counting
variable {scs : List StateChange} (hobj : DistinctObjects scs)
include hobj

/-- A received change lies in one tree, once. -/
theorem once_in_tree {l r : List ProcessTree} {t : ProcessTree}
    (hlr : (addAll {} scs).processTrees = l ++ t :: r) {sc : StateChange} (hsc : sc ∈ scs)
    (hst : sc ∈ t.elems) :
    t.elems.count sc = 1 ∧ (∀ u ∈ l, sc ∉ u.elems) ∧ (∀ u ∈ r, sc ∉ u.elems) := by
  have hperm := stored_addAll scs {} hobj.received
  simp only [stored, elemsList, List.filter_nil, List.append_nil] at hperm
  have hcount : (elemsList (addAll {} scs).processTrees).count sc = 1 := by
    rw [← List.count_filter (p := received) (hobj.received sc hsc), hperm.count_eq]
    exact List.count_eq_one_of_mem hobj.nodup hsc
  rw [elemsList_eq_flatMap, hlr, List.flatMap_append, List.flatMap_cons, List.count_append,
    List.count_append] at hcount
  have hpos : 0 < t.elems.count sc := List.count_pos_iff.mpr hst
  have hl : sc ∉ l.flatMap Tree.elems := List.count_eq_zero.mp (by omega)
  have hr : sc ∉ r.flatMap Tree.elems := List.count_eq_zero.mp (by omega)
  refine ⟨by omega, ?_, ?_⟩
  · exact fun u hu hc => hl (List.mem_flatMap.mpr ⟨u, hu, hc⟩)
  · exact fun u hu hc => hr (List.mem_flatMap.mpr ⟨u, hu, hc⟩)

/-- The received changes of the trees are those of the sequence. -/
theorem mem_tree_iff {sc : StateChange} :
    sc ∈ scs ↔ received sc ∧ ∃ t ∈ (addAll {} scs).processTrees, sc ∈ t.elems := by
  have hperm := stored_addAll scs {} hobj.received
  simp only [stored, elemsList, List.filter_nil, List.append_nil] at hperm
  rw [← hperm.mem_iff, List.mem_filter, elemsList_eq_flatMap, List.mem_flatMap]
  exact and_comm

omit hobj in
theorem count_getAllStateChanges (t : ProcessTree) (sc : StateChange) :
    (ProcessTree.getAllStateChanges t).count sc = t.elems.count sc :=
  (ProcessTree.getAllStateChanges_perm t).count_eq sc

/-- How often a change is reported: once for each id its tree answers to, and
once in the remainder if the root id of the tree is not on the list. -/
theorem count_reports {processIds : List Int} (hzero : (0 : Int) ∉ processIds)
    {l r : List ProcessTree} {t : ProcessTree}
    (hlr : (addAll {} scs).processTrees = l ++ t :: r) {sc : StateChange} (hsc : sc ∈ scs)
    (hst : sc ∈ t.elems) :
    (reports (addAll {} scs) processIds).count sc =
      (processIds.filter fun p => answeredBy (openers scs) p = some l.length).length
        + if t.root.processId ∈ processIds then 0 else 1 := by
  obtain ⟨hone, hl, hr⟩ := once_in_tree hobj hlr hsc hst
  have hids : ∀ p ∈ processIds, ((addAll {} scs).getStateChanges p).count sc =
      if answeredBy (openers scs) p = some l.length then 1 else 0 := by
    intro p hp
    have hp0 : p ≠ 0 := fun h0 => hzero (h0 ▸ hp)
    rw [getStateChanges, treeOf_eq _ hp0, addAll_roots, hlr]
    cases hans : answeredBy (openers scs) p with
    | none => simp
    | some i =>
        simp only [Option.bind_eq_bind, Option.bind_some, Option.some.injEq]
        rcases Nat.lt_trichotomy i l.length with hi | hi | hi
        · rw [List.getElem?_append_left hi, List.getElem?_eq_getElem hi, if_neg (by omega)]
          rw [count_getAllStateChanges, List.count_eq_zero]
          exact hl _ (List.getElem_mem hi)
        · subst hi
          rw [List.getElem?_append_right (Nat.le_refl _), Nat.sub_self, List.getElem?_cons_zero,
            if_pos rfl, count_getAllStateChanges, hone]
        · rw [if_neg (by omega), List.getElem?_append_right (by omega)]
          cases hget : (t :: r)[i - l.length]? with
          | none => simp
          | some u =>
              have hpos : i - l.length = (i - l.length - 1) + 1 := by omega
              rw [hpos, List.getElem?_cons_succ] at hget
              rw [count_getAllStateChanges, List.count_eq_zero]
              exact hr u (List.mem_of_getElem? hget)
  have hsum : (processIds.flatMap (addAll {} scs).getStateChanges).count sc =
      (processIds.filter fun p => answeredBy (openers scs) p = some l.length).length := by
    rw [List.count_flatMap]
    clear hzero
    induction processIds with
    | nil => rfl
    | cons p ps ih =>
        have ih' := ih (fun q hq => hids q (List.mem_cons_of_mem _ hq))
        rw [List.map_cons, List.sum_cons, ih', List.filter_cons]
        have := hids p List.mem_cons_self
        simp only [Function.comp_apply, this]
        by_cases hans : answeredBy (openers scs) p = some l.length
        · simp [hans]; omega
        · simp [hans]
  have hrest : ((addAll {} scs).getRemainderStateChanges processIds).count sc =
      if t.root.processId ∈ processIds then 0 else 1 := by
    have hnil : ∀ us : List ProcessTree, (∀ u ∈ us, sc ∉ u.elems) →
        (((us.filter fun u => !processIds.contains (ProcessTree.getProcessId u)).flatMap
          ProcessTree.getAllStateChanges).count sc) = 0 := by
      intro us hus
      rw [List.count_eq_zero, List.mem_flatMap]
      rintro ⟨u, hu, hsu⟩
      exact hus u (List.mem_of_mem_filter hu)
        ((ProcessTree.getAllStateChanges_perm u).mem_iff.mp hsu)
    rw [getRemainderStateChanges, hlr, List.filter_append, List.flatMap_append,
      List.count_append, hnil l hl, List.filter_cons]
    by_cases hroot : t.root.processId ∈ processIds
    · have hneg : (!processIds.contains (ProcessTree.getProcessId t)) = false := by
        simpa [ProcessTree.getProcessId] using hroot
      rw [hneg, if_neg (by simp), if_pos hroot, hnil r hr]
    · have hpos : (!processIds.contains (ProcessTree.getProcessId t)) = true := by
        simpa [ProcessTree.getProcessId] using hroot
      rw [hpos, if_pos rfl, if_neg hroot, List.flatMap_cons, List.count_append,
        count_getAllStateChanges, hone, hnil r hr]
  rw [reports, List.count_append, hsum, hrest]

end Counting

/-! ## The partition -/

/-- How many ids of a list without repetitions a position answers to. -/
theorem length_filter_le_one {roots : List ProcessStateChange} {processIds : List Int}
    (hnodup : processIds.Nodup) {i : Nat} :
    (processIds.filter fun p => answeredBy roots p = some i).length ≤ 1 ↔
      ∀ p ∈ processIds, ∀ q ∈ processIds,
        answeredBy roots p = some i → answeredBy roots q = some i → p = q := by
  have hmem : ∀ p, p ∈ (processIds.filter fun p => answeredBy roots p = some i) ↔
      p ∈ processIds ∧ answeredBy roots p = some i := by
    intro p
    rw [List.mem_filter, decide_eq_true_eq]
  constructor
  · intro hle p hp q hq hpi hqi
    have hp' := (hmem p).mpr ⟨hp, hpi⟩
    have hq' := (hmem q).mpr ⟨hq, hqi⟩
    cases hf : processIds.filter (fun p => answeredBy roots p = some i) with
    | nil => rw [hf] at hp'; exact absurd hp' List.not_mem_nil
    | cons a as =>
        rw [hf, List.length_cons] at hle
        obtain rfl : as = [] := List.eq_nil_of_length_eq_zero (by omega)
        rw [hf, List.mem_singleton] at hp' hq'
        exact hp'.trans hq'.symm
  · intro hsingle
    cases hf : processIds.filter (fun p => answeredBy roots p = some i) with
    | nil => exact Nat.zero_le _
    | cons p ps =>
        cases ps with
        | nil => exact Nat.le_refl _
        | cons q qs =>
            have hnd : (p :: q :: qs).Nodup := hf ▸ hnodup.filter _
            have hp := (hmem p).mp (hf ▸ List.mem_cons_self)
            have hq := (hmem q).mp (hf ▸ List.mem_cons_of_mem _ List.mem_cons_self)
            exact absurd (hsingle p hp.1 q hq.1 hp.2 hq.2)
              (fun he => (List.nodup_cons.mp hnd).1 (he ▸ List.mem_cons_self))

/-- **Exactly when the reports partition the changes.** -/
theorem partition_iff {scs : List StateChange} (hobj : DistinctObjects scs)
    {processIds : List Int} (hnodup : processIds.Nodup) (hzero : (0 : Int) ∉ processIds) :
    (∀ sc ∈ scs, (reports (addAll {} scs) processIds).count sc = 1) ↔
      Separated (openers scs) processIds := by
  have hroots : ∀ {l r : List ProcessTree} {t : ProcessTree},
      (addAll {} scs).processTrees = l ++ t :: r → (openers scs)[l.length]? = some t.root := by
    intro l r t hlr
    rw [← addAll_roots, StateChangeHandler.roots, hlr]
    simp
  have hpos : ∀ i, (∃ p ∈ processIds, answeredBy (openers scs) p = some i) ↔
      0 < (processIds.filter fun p => answeredBy (openers scs) p = some i).length := by
    intro i
    rw [List.length_pos_iff_exists_mem]
    simp only [List.mem_filter, decide_eq_true_eq]
  constructor
  · intro hone
    -- every tree is seen through the change that opened it
    have htree : ∀ i root, (openers scs)[i]? = some root →
        (processIds.filter fun p => answeredBy (openers scs) p = some i).length
          + (if root.processId ∈ processIds then 0 else 1) = 1 := by
      intro i root hroot
      have hi : i < (addAll {} scs).processTrees.length := by
        have := (List.getElem?_eq_some_iff.mp hroot).1
        rwa [← addAll_roots, StateChangeHandler.roots, List.length_map] at this
      obtain ⟨l, t, r, hlr, hlen⟩ : ∃ l t r,
          (addAll {} scs).processTrees = l ++ t :: r ∧ l.length = i :=
        ⟨_, _, _, (List.take_append_drop i _).symm.trans
          (by rw [List.drop_eq_getElem_cons hi]), by simp; omega⟩
      obtain ⟨sc, hst, hrec⟩ := received_mem_tree scs {} hobj.received (fun _ h => absurd h List.not_mem_nil) t
        (hlr ▸ List.mem_append_right _ List.mem_cons_self)
      have hsc : sc ∈ scs := (mem_tree_iff hobj).mpr
        ⟨hrec, t, hlr ▸ List.mem_append_right _ List.mem_cons_self, hst⟩
      have hcount := hone sc hsc
      rw [count_reports hobj hzero hlr hsc hst, hlen] at hcount
      have : t.root = root := Option.some.inj ((hroots hlr).symm.trans (hlen ▸ hroot))
      rwa [this] at hcount
    refine ⟨?_, ?_⟩
    · intro i root hroot
      have := htree i root hroot
      rw [hpos]
      by_cases hin : root.processId ∈ processIds
      · rw [if_pos hin] at this
        exact ⟨fun _ => by omega, fun _ => hin⟩
      · rw [if_neg hin] at this
        exact ⟨fun h => absurd h hin, fun h => by omega⟩
    · intro p hp q hq i hpi hqi
      have hi : i < (openers scs).length := (List.findIdx?_eq_some_iff_getElem.mp hpi).1
      have := htree i _ (List.getElem?_eq_getElem hi)
      exact (length_filter_le_one hnodup).mp (by omega) p hp q hq hpi hqi
  · intro hsep sc hsc
    obtain ⟨-, t, ht, hst⟩ := (mem_tree_iff hobj).mp hsc
    obtain ⟨l, r, hlr⟩ := List.append_of_mem ht
    rw [count_reports hobj hzero hlr hsc hst]
    have hown := hsep.own _ _ (hroots hlr)
    have hle := (length_filter_le_one hnodup).mpr (fun p hp q hq => hsep.single p hp q hq l.length)
    rw [hpos] at hown
    by_cases hin : t.root.processId ∈ processIds
    · have := hown.mp hin
      rw [if_pos hin]
      omega
    · have : ¬ 0 < _ := fun h => hin (hown.mpr h)
      rw [if_neg hin]
      omega

/-- What the process monitor reports about one process. -/
def processEvent (n : Nat) (action : String) (parent pid : Int) : ProcessStateChange where
  type := "process"
  time := n
  parentProcessId := parent
  parentProcess := some "System"
  action := some action
  processId := pid
  process := some "smss.exe"
  origin := some n

theorem attribution_no_partition :
    ¬ ∀ scs : List StateChange, DistinctObjects scs → ∀ processIds : List Int, processIds.Nodup →
        (0 : Int) ∉ processIds →
          ∀ sc ∈ scs, (reports (addAll {} scs) processIds).count sc = 1 := by
  intro h
  have hlost := h [.inr (processEvent 1 "created" 4 231), .inr (processEvent 2 "terminated" 4 231)]
    ⟨by decide, by decide⟩ [231] (by decide) (by decide)
    (.inr (processEvent 2 "terminated" 4 231)) (by decide)
  exact absurd hlost (by decide)

theorem partition_two_trees :
    (reports (addAll {} [.inr (processEvent 1 "created" 4 231),
      .inr (processEvent 2 "created" 231 500), .inr (processEvent 3 "created" 7 900)])
        [231]).count (.inr (processEvent 3 "created" 7 900)) = 1 := by
  refine (partition_iff ⟨by decide, by decide⟩ (by decide) (by decide)).mpr ⟨?_, ?_⟩ _ (by decide)
  · intro i root hroot
    have hlt : i < 2 := (List.getElem?_eq_some_iff.mp hroot).1
    rcases i with _ | _ | i
    · obtain rfl := Option.some.inj hroot
      decide
    · obtain rfl := Option.some.inj hroot
      decide
    · omega
  · intro p hp q hq i _ _
    rw [List.mem_singleton.mp hp, List.mem_singleton.mp hq]

end CaptureHpc.Server
