/-
# `Server.ArrivalOrder` — when attribution does not depend on arrival order

The process changes of a visit form a forest, the object changes hang on its
processes.  `getStateChangesCSV` of a root process should list the changes of
the root and of everything it spawned, whatever the order in which they came.

The client does deliver an object event before the creation of its process, and
the handler provides for it: it infers the process.  But the creation that
comes later is filed on its own, and so is a child that came before its parent:
no tree is ever merged.

Everything follows from one invariant, `Rooted`: what lies in a tree lies there
because it descends from the root.  So an early change `f`, filed under `k`,
opens a tree whose root descends from `k`; the creation of `k`, were it in that
tree, would descend from itself.  Hence the two are in different trees, and one
of them is missing from the report of `k`'s root ancestor (`causesFirst_of`).
In the other direction every tree is the tree of a root process, and `Rooted`
says that it has nothing but its descendants.
-/
import Mathlib.Data.Fintype.EquivFin
import Mathlib.Data.Fintype.Sets
import Mathlib.Logic.Relation
import CaptureHpc.Server.Attribution

namespace CaptureHpc.Server

open Java KeyedForest StateChangeHandler Relation

/-! ## The forest of a set of changes -/

/-- The process ids created among the changes. -/
def created (scs : List StateChange) : List Int :=
  scs.filterMap fun
    | .inl _ => none
    | .inr psc => some psc.processId

/-- `p` creates `q`. -/
def Creates (scs : List StateChange) (p q : Int) : Prop :=
  ∃ psc, Sum.inr psc ∈ scs ∧ psc.parentProcessId = p ∧ psc.processId = q

/-- `q` is `p` or a descendant of `p`. -/
def Descends (scs : List StateChange) : Int → Int → Prop := ReflTransGen (Creates scs)

structure CreationForest (scs : List StateChange) : Prop where
  distinct : (created scs).Nodup
  acyclic : ∀ p, ¬ TransGen (Creates scs) p p
  known : ∀ osc, Sum.inl osc ∈ scs → osc.processId ∈ created scs

/-- `p` is created, and its parent is not. -/
def IsRoot (scs : List StateChange) (p : Int) : Prop :=
  p ∈ created scs ∧ ∀ q, Creates scs q p → q ∉ created scs

open Classical in
/-- The report of `p` has the changes of `p` and of its descendants, each once. -/
def Attributed (scs : List StateChange) (p : Int) : Prop :=
  (((addAll {} scs).getStateChanges p).filter received).Perm
    (scs.filter fun sc => Descends scs p sc.getProcessId)

/-- A change comes after the creation of the process it is filed under, if that
process is created at all. -/
def CausesFirst (scs : List StateChange) : Prop :=
  ∀ i, ∀ hi : i < scs.length,
    scs[i].holderId ∈ created scs → scs[i].holderId ∈ created (scs.take i)

instance (scs : List StateChange) : Decidable (CausesFirst scs) :=
  inferInstanceAs (Decidable (∀ i, ∀ _ : i < scs.length, _))

section Forest
variable {scs : List StateChange}

theorem mem_created {p : Int} :
    p ∈ created scs ↔ ∃ psc, Sum.inr psc ∈ scs ∧ psc.processId = p := by
  rw [created, List.mem_filterMap]
  constructor
  · rintro ⟨osc | psc, hmem, he⟩
    · cases he
    · exact ⟨psc, hmem, Option.some.inj he⟩
  · rintro ⟨psc, hmem, rfl⟩
    exact ⟨.inr psc, hmem, rfl⟩

theorem created_append (xs ys : List StateChange) :
    created (xs ++ ys) = created xs ++ created ys :=
  List.filterMap_append

theorem Creates.mem {p q : Int} (h : Creates scs p q) : q ∈ created scs := by
  obtain ⟨psc, hmem, -, rfl⟩ := h
  exact mem_created.mpr ⟨psc, hmem, rfl⟩

/-- A change belongs to a descendant of the process it is filed under. -/
theorem descends_holder {sc : StateChange} (hsc : sc ∈ scs) :
    Descends scs sc.holderId sc.getProcessId := by
  cases sc with
  | inl osc => exact ReflTransGen.refl
  | inr psc => exact ReflTransGen.single ⟨psc, hsc, rfl, rfl⟩

/-- One creation for each process id. -/
theorem created_inj : ∀ {scs : List StateChange}, (created scs).Nodup →
    ∀ {a b : ProcessStateChange}, Sum.inr a ∈ scs → Sum.inr b ∈ scs →
      a.processId = b.processId → a = b
  | [], _, _, _, ha, _, _ => nomatch ha
  | .inl _ :: scs, hnd, a, b, ha, hb, he => by
      have hnd' : (created scs).Nodup := hnd
      exact created_inj hnd' (by simpa using ha) (by simpa using hb) he
  | .inr psc :: scs, hnd, a, b, ha, hb, he => by
      obtain ⟨hnot, hnd'⟩ := List.nodup_cons.mp hnd
      rcases List.mem_cons.mp ha with ha | ha <;> rcases List.mem_cons.mp hb with hb | hb
      · exact (Sum.inr.inj ha).trans (Sum.inr.inj hb).symm
      · refine absurd (mem_created.mpr ⟨b, hb, ?_⟩) hnot
        rw [← he, Sum.inr.inj ha]
      · refine absurd (mem_created.mpr ⟨a, ha, ?_⟩) hnot
        rw [he, Sum.inr.inj hb]
      · exact created_inj hnd' ha hb he

variable (hf : CreationForest scs)
include hf

theorem creates_unique {p p' q : Int} (h : Creates scs p q) (h' : Creates scs p' q) : p = p' := by
  obtain ⟨a, ha, rfl, rfl⟩ := h
  obtain ⟨b, hb, rfl, he⟩ := h'
  rw [created_inj hf.distinct hb ha he]

omit hf in
/-- Only a root itself descends to a root, among the created. -/
theorem eq_of_descends_root {p q : Int} (hq : IsRoot scs q) (hp : p ∈ created scs)
    (h : Descends scs p q) : p = q := by
  rcases ReflTransGen.cases_tail h with rfl | ⟨z, hpz, hzq⟩
  · rfl
  · refine absurd ?_ (hq.2 z hzq)
    rcases ReflTransGen.cases_tail hpz with rfl | ⟨y, -, hyz⟩
    · exact hp
    · exact hyz.mem

/-- Two roots with a common descendant are one. -/
theorem root_unique {p q x : Int} (hp : IsRoot scs p) (hq : IsRoot scs q)
    (hpx : Descends scs p x) (hqx : Descends scs q x) : p = q := by
  induction hpx with
  | refl => exact (eq_of_descends_root hp hq.1 hqx).symm
  | tail hpy hyz ih =>
      rcases ReflTransGen.cases_tail hqx with he | ⟨y', hqy', hyz'⟩
      · subst he
        exact eq_of_descends_root hq hp.1 (hpy.tail hyz)
      · exact ih (creates_unique hf hyz' hyz ▸ hqy')

/-- Every created process descends from a root. -/
theorem exists_root : ∀ p ∈ created scs, ∃ r, IsRoot scs r ∧ Descends scs r p := by
  let r : {p // p ∈ created scs} → {p // p ∈ created scs} → Prop :=
    fun a b => TransGen (Creates scs) a.1 b.1
  have htrans : IsTrans _ r := ⟨fun _ _ _ h h' => TransGen.trans h h'⟩
  have hirrefl : Std.Irrefl r := ⟨fun a h => hf.acyclic a.1 h⟩
  have hfin : Finite {p // p ∈ created scs} := Finite.of_fintype _
  have hwf : WellFounded r := Finite.wellFounded_of_trans_of_irrefl r
  intro p hp
  refine hwf.induction (C := fun a => ∃ r, IsRoot scs r ∧ Descends scs r a.1) ⟨p, hp⟩ ?_
  rintro ⟨q, hq⟩ ih
  by_cases hroot : IsRoot scs q
  · exact ⟨q, hroot, ReflTransGen.refl⟩
  · obtain ⟨z, hz, hzin⟩ : ∃ z, Creates scs z q ∧ z ∈ created scs := by
      by_contra hno
      exact hroot ⟨hq, fun z hz hzin => hno ⟨z, hz, hzin⟩⟩
    obtain ⟨r, hr, hrz⟩ := ih ⟨z, hzin⟩ (TransGen.single hz)
    exact ⟨r, hr, hrz.tail hz⟩

end Forest

/-! ## What a tree holds, it holds for its root -/

/-- Everything in a tree is the root process or was added below it. -/
def Rooted (scs : List StateChange) (t : ProcessTree) : Prop :=
  ∀ x : StateChange, x ∈ t.elems → x = .inr t.root ∨ x ∈ scs ∧ Descends scs t.root.processId x.holderId

section Trees
variable {scs : List StateChange}

theorem Rooted.value {t : ProcessTree} (h : Rooted scs t) {psc : ProcessStateChange}
    (hpsc : psc ∈ t.values) : Descends scs t.root.processId psc.processId := by
  rcases h _ ((mem_elems_inr t).mpr hpsc) with he | ⟨hmem, hdesc⟩
  · rw [Sum.inr.inj he]
    exact ReflTransGen.refl
  · exact hdesc.trans (descends_holder hmem)

theorem rooted_opened {sc : StateChange} (hsc : sc ∈ scs) : Rooted scs (opened sc) := by
  intro x hx
  cases sc with
  | inr psc =>
      left
      simpa [opened, Tree.leaf, Tree.elems, elemsList, Tree.root] using hx
  | inl osc =>
      have hx' : x = .inl osc ∨ x = .inr (inferred osc) := by
        simpa [opened, Tree.elems, elemsList] using hx
      rcases hx' with rfl | rfl
      · exact .inr ⟨hsc, ReflTransGen.refl⟩
      · exact .inl rfl

theorem rooted_addAll : ∀ (rest : List StateChange) (h : StateChangeHandler),
    (∀ sc ∈ rest, sc ∈ scs) → (∀ t ∈ h.processTrees, Rooted scs t) →
      ∀ t ∈ (h.addAll rest).processTrees, Rooted scs t
  | [], _, _, hall => hall
  | sc :: rest, h, hrest, hall => by
      have hsc := hrest sc List.mem_cons_self
      rw [addAll, List.foldl_cons]
      refine rooted_addAll rest _ (fun x hx => hrest x (List.mem_cons_of_mem _ hx)) ?_
      rcases h.addStateChange_cases sc with ⟨trees, hf, he⟩ | ⟨-, he⟩
      · rw [he]
        intro t' ht'
        rcases hangFirst_back hf t' ht' with ht | ⟨t, ht, hhang⟩
        · exact hall t' ht
        · intro x hx
          rw [hang_root hhang]
          rcases List.mem_cons.mp ((hang_elems hhang).mem_iff.mpr hx) with rfl | hx
          · obtain ⟨psc, hpsc, hid⟩ := hang_key hhang
            exact .inr ⟨hsc, hid ▸ (hall t ht).value hpsc⟩
          · exact hall t ht x hx
      · rw [he]
        intro t ht
        rcases List.mem_append.mp ht with ht | ht
        · exact hall t ht
        · obtain rfl := List.mem_singleton.mp ht
          exact rooted_opened hsc

theorem rooted_all (scs : List StateChange) :
    ∀ t ∈ (addAll {} scs).processTrees, Rooted scs t :=
  rooted_addAll scs {} (fun _ h => h) (fun _ h => nomatch h)

/-- A tree stays, under its root, with what it holds. -/
theorem tree_addAll : ∀ (rest : List StateChange) (h : StateChangeHandler), ∀ t ∈ h.processTrees,
    ∃ t' ∈ (h.addAll rest).processTrees, t'.root = t.root ∧ t.elems ⊆ t'.elems
  | [], _, t, ht => ⟨t, ht, rfl, List.Subset.refl _⟩
  | sc :: rest, h, t, ht => by
      obtain ⟨t₁, ht₁, hroot₁, hsub₁⟩ : ∃ t₁ ∈ (h.addStateChange sc).1.processTrees,
          t₁.root = t.root ∧ t.elems ⊆ t₁.elems := by
        rcases h.addStateChange_cases sc with ⟨trees, hf, he⟩ | ⟨-, he⟩
        · rw [he]
          exact hangFirst_forth hf t ht
        · rw [he]
          exact ⟨t, List.mem_append_left _ ht, rfl, List.Subset.refl _⟩
      obtain ⟨t₂, ht₂, hroot₂, hsub₂⟩ := tree_addAll rest (h.addStateChange sc).1 t₁ ht₁
      rw [addAll, List.foldl_cons]
      exact ⟨t₂, ht₂, hroot₂.trans hroot₁, List.Subset.trans hsub₁ hsub₂⟩

/-- A change whose process id was not seen before opens a tree that stays. -/
theorem exists_opened {pre post : List StateChange} {sc : StateChange}
    (hscs : scs = pre ++ sc :: post) (hnew : sc.holderId ∉ pre.map StateChange.getProcessId) :
    ∃ t ∈ (addAll {} scs).processTrees, t.root = openingProcess sc ∧ sc ∈ t.elems := by
  have hids : sc.holderId ∉ (addAll {} pre).processIds := by
    rw [mem_processIds_addAll]
    rintro (h | h)
    · exact hnew h
    · cases h
  rcases (addAll {} pre).addStateChange_cases sc with ⟨trees, hf, -⟩ | ⟨-, he⟩
  · rw [(hangFirst_eq_none_iff _ _).mpr hids] at hf
    cases hf
  · have hmem : opened sc ∈ ((addAll {} pre).addStateChange sc).1.processTrees := by
      rw [he]
      exact List.mem_append_right _ List.mem_cons_self
    obtain ⟨t, ht, hroot, hsub⟩ := tree_addAll post _ _ hmem
    refine ⟨t, ?_, hroot.trans (opened_root sc), hsub ?_⟩
    · rw [hscs, addAll, List.foldl_append]
      exact ht
    · cases sc <;> simp [opened, Tree.leaf, Tree.elems]

variable (hobj : DistinctObjects scs)
include hobj

/-- Two trees with a received change in common are one. -/
theorem tree_unique {t u : ProcessTree} (ht : t ∈ (addAll {} scs).processTrees)
    (hu : u ∈ (addAll {} scs).processTrees) {sc : StateChange} (hsc : sc ∈ scs)
    (hst : sc ∈ t.elems) (hsu : sc ∈ u.elems) : u = t := by
  obtain ⟨l, r, hlr⟩ := List.append_of_mem ht
  obtain ⟨-, hl, hr⟩ := once_in_tree hobj hlr hsc hst
  rw [hlr] at hu
  rcases List.mem_append.mp hu with hu | hu
  · exact absurd hsu (hl u hu)
  · rcases List.mem_cons.mp hu with hu | hu
    · exact hu
    · exact absurd hsu (hr u hu)

end Trees

/-! ## Attribution -/

section Order
variable {scs : List StateChange} (hf : CreationForest scs) (hobj : DistinctObjects scs)
include hf hobj

omit hf hobj in
theorem unseen {k : Int} {a : List StateChange} (hhold : ∀ x ∈ a, StateChange.holderId x ≠ k)
    (hnot : k ∉ created a) : k ∉ a.map StateChange.getProcessId := by
  intro hk
  obtain ⟨x, hx, hid⟩ := List.mem_map.mp hk
  cases x with
  | inl osc => exact hhold _ hx hid
  | inr psc => exact hnot (mem_created.mpr ⟨psc, hx, hid⟩)

omit hf hobj in
/-- Of the changes filed under a process before its creation, the first. -/
theorem exists_first (pre post : List StateChange) (sc : StateChange)
    (hnot : sc.holderId ∉ created pre) :
    ∃ a f b, pre ++ sc :: post = a ++ f :: b ∧ StateChange.holderId f = sc.holderId ∧
      sc.holderId ∉ a.map StateChange.getProcessId := by
  cases hfind : pre.find? (fun x => StateChange.holderId x == sc.holderId) with
  | none =>
      refine ⟨pre, sc, post, rfl, rfl, unseen ?_ hnot⟩
      intro x hx
      simpa using List.find?_eq_none.mp hfind x hx
  | some f =>
      obtain ⟨hhold, a, b, rfl, ha⟩ := List.find?_eq_some_iff_append.mp hfind
      refine ⟨a, f, b ++ sc :: post, by simp, by simpa using hhold, unseen ?_ ?_⟩
      · intro x hx
        simpa using ha x hx
      · rw [created_append, List.mem_append, not_or] at hnot
        exact hnot.1

/-- A change filed under a process before that process is created does not lie
in one tree with the creation. -/
theorem early_apart {pre post : List StateChange} {sc : StateChange}
    (hscs : scs = pre ++ sc :: post) (hnew : sc.holderId ∉ pre.map StateChange.getProcessId)
    {psc : ProcessStateChange} (hpsc : Sum.inr psc ∈ scs) (hid : psc.processId = sc.holderId)
    {t : ProcessTree} (ht : t ∈ (addAll {} scs).processTrees) (hst : sc ∈ t.elems) :
    Sum.inr psc ∉ t.elems := by
  intro hpt
  have hsc : sc ∈ scs := hscs ▸ List.mem_append_right _ List.mem_cons_self
  obtain ⟨u, hu, hroot, hsu⟩ := exists_opened hscs hnew
  obtain rfl := tree_unique hobj ht hu hsc hst hsu
  have hdesc : Descends scs sc.holderId u.root.processId := by
    rw [hroot, openingProcess_processId]
    exact descends_holder hsc
  have hedge : Creates scs psc.parentProcessId sc.holderId := ⟨psc, hpsc, rfl, hid⟩
  have hrooted := rooted_all scs u hu
  rcases hrooted _ hpt with he | ⟨-, hbelow⟩
  · -- the creation would be the root, so the change is it and creates itself
    have he : psc = openingProcess sc := (Sum.inr.inj he).trans hroot
    cases sc with
    | inl osc =>
        have hrec := hobj.received _ hpsc
        rw [he] at hrec
        cases hrec
    | inr psc' =>
        obtain rfl : psc = psc' := he
        exact hf.acyclic _ (TransGen.single hedge)
  · exact hf.acyclic _ (TransGen.tail' (hdesc.trans hbelow) hedge)

omit hf hobj in
theorem mem_getStateChanges {p : Int} {sc : StateChange} :
    sc ∈ (addAll {} scs).getStateChanges p ↔
      ∃ t, (addAll {} scs).treeOf p = some t ∧ sc ∈ t.elems := by
  rw [getStateChanges]
  cases (addAll {} scs).treeOf p with
  | none => simp
  | some t =>
      rw [(ProcessTree.getAllStateChanges_perm t).mem_iff]
      simp

omit hf hobj in
theorem treeOf_mem {h : StateChangeHandler} {p : Int} {t : ProcessTree}
    (ht : h.treeOf p = some t) : t ∈ h.processTrees := by
  rw [treeOf] at ht
  split at ht
  · next u hu =>
      obtain rfl := Option.some.inj ht
      exact List.mem_of_find?_eq_some hu
  · split at ht
    · exact List.mem_of_head? ht
    · cases ht

omit hf in
theorem tree_received_nodup {t : ProcessTree} (ht : t ∈ (addAll {} scs).processTrees) :
    (t.elems.filter received).Nodup := by
  obtain ⟨l, r, hlr⟩ := List.append_of_mem ht
  have hperm := stored_addAll scs {} hobj.received
  simp only [stored, elemsList, List.filter_nil, List.append_nil] at hperm
  have hnd := hperm.nodup_iff.mpr hobj.nodup
  rw [elemsList_eq_flatMap, hlr, List.flatMap_append, List.flatMap_cons, List.filter_append,
    List.filter_append] at hnd
  exact (List.nodup_append.mp (List.nodup_append.mp hnd).2.1).1

omit hf in
/-- Attribution, by membership. -/
theorem attributed_iff {p : Int} : Attributed scs p ↔
    ∀ sc ∈ scs, (∃ t, (addAll {} scs).treeOf p = some t ∧ sc ∈ t.elems) ↔
      Descends scs p sc.getProcessId := by
  have hnd : (((addAll {} scs).getStateChanges p).filter received).Nodup := by
    rw [getStateChanges]
    cases ht : (addAll {} scs).treeOf p with
    | none => exact List.nodup_nil
    | some t =>
        refine ((ProcessTree.getAllStateChanges_perm t).filter received).nodup_iff.mpr ?_
        exact tree_received_nodup hobj (treeOf_mem ht)
  rw [Attributed, List.perm_ext_iff_of_nodup hnd (hobj.nodup.filter _)]
  simp only [List.mem_filter, mem_getStateChanges, decide_eq_true_eq]
  constructor
  · intro h sc hsc
    have hsc' := h sc
    simp only [hobj.received sc hsc, hsc, and_true, true_and] at hsc'
    exact hsc'
  · intro h sc
    constructor
    · rintro ⟨⟨t, ht, hst⟩, hrec⟩
      have hsc := (mem_tree_iff hobj).mpr ⟨hrec, t, treeOf_mem ht, hst⟩
      exact ⟨hsc, (h sc hsc).mp ⟨t, ht, hst⟩⟩
    · rintro ⟨hsc, hdesc⟩
      exact ⟨(h sc hsc).mpr hdesc, hobj.received sc hsc⟩

/-- Where attribution holds, no change comes before the creation it needs. -/
theorem causesFirst_of (hatt : ∀ p, IsRoot scs p → Attributed scs p) : CausesFirst scs := by
  intro i hi hin
  by_contra hnot
  obtain ⟨a, f, b, hsplit, hhold, hnew⟩ := exists_first _ (scs.drop (i + 1)) scs[i] hnot
  rw [← hhold] at hin hnew
  have hfab : scs = a ++ f :: b := by
    rw [← hsplit, ← List.drop_eq_getElem_cons hi, List.take_append_drop]
  have hfin : f ∈ scs := hfab ▸ List.mem_append_right _ List.mem_cons_self
  obtain ⟨psc, hpsc, hid⟩ := mem_created.mp hin
  obtain ⟨r, hr, hdesc⟩ := exists_root hf f.holderId hin
  have hiff := (attributed_iff hobj).mp (hatt r hr)
  obtain ⟨t, ht, hft⟩ := (hiff f hfin).mpr (hdesc.trans (descends_holder hfin))
  obtain ⟨u, hu, hpu⟩ := (hiff _ hpsc).mpr (show Descends scs r psc.processId from hid ▸ hdesc)
  obtain rfl := Option.some.inj (ht.symm.trans hu)
  exact early_apart hf hobj hfab hnew hpsc hid (treeOf_mem ht) hft hpu

omit hf hobj in
theorem mem_openersFrom {root : ProcessStateChange} : ∀ {scs : List StateChange} {seen : List Int},
    root ∈ openersFrom seen scs → ∃ pre sc post, scs = pre ++ sc :: post ∧
      root = openingProcess sc ∧ sc.holderId ∉ pre.map StateChange.getProcessId ++ seen
  | [], _, h => nomatch h
  | sc :: scs, seen, h => by
      have hrec : root ∈ openersFrom (sc.getProcessId :: seen) scs →
          ∃ pre sc' post, sc :: scs = pre ++ sc' :: post ∧ root = openingProcess sc' ∧
            sc'.holderId ∉ pre.map StateChange.getProcessId ++ seen := by
        intro h
        obtain ⟨pre, sc', post, rfl, hroot, hnew⟩ := mem_openersFrom h
        refine ⟨sc :: pre, sc', post, rfl, hroot, fun hin => hnew ?_⟩
        exact List.perm_middle.mem_iff.mpr hin
      rw [openersFrom] at h
      split at h
      · exact hrec h
      · next hnew =>
          rcases List.mem_cons.mp h with rfl | h
          · exact ⟨[], sc, scs, rfl, rfl, hnew⟩
          · exact hrec h

omit hobj in
theorem processId_created {sc : StateChange} (hsc : sc ∈ scs) : sc.getProcessId ∈ created scs := by
  cases sc with
  | inl osc => exact hf.known osc hsc
  | inr psc => exact mem_created.mpr ⟨psc, hsc, rfl⟩

omit hobj in
/-- Where causes come first, a tree is opened by the creation of a root. -/
theorem opener_of_causesFirst (hcf : CausesFirst scs) {root : ProcessStateChange}
    (hroot : root ∈ openers scs) : Sum.inr root ∈ scs ∧ root.parentProcessId ∉ created scs := by
  obtain ⟨pre, sc, post, hscs, rfl, hnew⟩ := mem_openersFrom hroot
  have hsc : sc ∈ scs := hscs ▸ List.mem_append_right _ List.mem_cons_self
  have hnot : sc.holderId ∉ created scs := by
    intro hin
    have hcause := hcf pre.length (by simp [hscs])
    simp only [hscs, List.getElem_append_right (Nat.le_refl _), Nat.sub_self,
      List.getElem_cons_zero, List.take_left'] at hcause
    obtain ⟨psc, hpsc, hid⟩ := mem_created.mp (hcause (hscs ▸ hin))
    exact hnew (List.mem_append_left _ (List.mem_map.mpr ⟨.inr psc, hpsc, hid⟩))
  cases sc with
  | inl osc => exact absurd (hf.known osc hsc) hnot
  | inr psc => exact ⟨hsc, hnot⟩

/-- Where causes come first, attribution holds. -/
theorem attributed_of (hcf : CausesFirst scs) {p : Int} (hp : IsRoot scs p) :
    Attributed scs p := by
  have hopener : ∀ t ∈ (addAll {} scs).processTrees,
      Sum.inr t.root ∈ scs ∧ t.root.parentProcessId ∉ created scs := by
    intro t ht
    refine opener_of_causesFirst hf hcf ?_
    rw [← addAll_roots]
    exact List.mem_map_of_mem ht
  have hrootmem : ∀ t : ProcessTree, Sum.inr t.root ∈ t.elems :=
    fun t => (mem_elems_inr t).mpr (root_mem_values t)
  have hbelow : ∀ t ∈ (addAll {} scs).processTrees, ∀ sc ∈ scs, sc ∈ t.elems →
      Descends scs t.root.processId sc.getProcessId := by
    intro t ht sc hsc hst
    rcases rooted_all scs t ht sc hst with
      rfl | ⟨-, hdesc⟩
    · exact ReflTransGen.refl
    · exact hdesc.trans (descends_holder hsc)
  -- the tree of `p`
  obtain ⟨psc, hpsc, rfl⟩ := mem_created.mp hp.1
  have hparent : psc.parentProcessId ∉ created scs := hp.2 _ ⟨psc, hpsc, rfl, rfl⟩
  obtain ⟨t, ht, hroot⟩ : ∃ t ∈ (addAll {} scs).processTrees, t.root = psc := by
    obtain ⟨pre, post, hscs⟩ := List.append_of_mem hpsc
    have hnew : psc.parentProcessId ∉ pre.map StateChange.getProcessId := by
      intro h
      obtain ⟨x, hx, hid⟩ := List.mem_map.mp h
      exact hparent (hid ▸ processId_created hf (hscs ▸ List.mem_append_left _ hx))
    obtain ⟨t, ht, hroot, -⟩ := exists_opened hscs hnew
    exact ⟨t, ht, hroot⟩
  have hsame : ∀ u ∈ (addAll {} scs).processTrees, u.root.processId = psc.processId → u = t := by
    intro u hu hid
    have hroots : u.root = psc := created_inj hf.distinct (hopener u hu).1 hpsc hid
    refine tree_unique hobj ht hu hpsc ?_ ?_
    · exact hroot ▸ hrootmem t
    · exact hroots ▸ hrootmem u
  have htree : (addAll {} scs).treeOf psc.processId = some t := by
    cases hfind : (addAll {} scs).processTrees.find? (fun t => answersTo psc.processId t.root) with
    | none =>
        have hno := List.find?_eq_none.mp hfind t ht
        simp [answersTo, hroot] at hno
    | some u =>
        have hu := List.mem_of_find?_eq_some hfind
        have hans := List.find?_some hfind
        simp only [answersTo, Bool.or_eq_true, beq_iff_eq] at hans
        have hut : u = t := by
          rcases hans with hid | hid
          · exact hsame u hu hid
          · exact absurd (hid ▸ hp.1) (hopener u hu).2
        rw [treeOf, hfind, hut]
  rw [attributed_iff hobj, htree]
  intro sc hsc
  constructor
  · rintro ⟨u, hu, hst⟩
    obtain rfl := Option.some.inj hu
    exact hroot ▸ hbelow _ ht sc hsc hst
  · intro hdesc
    obtain ⟨-, u, hu, hsu⟩ := (mem_tree_iff hobj).mp hsc
    have huroot : IsRoot scs u.root.processId := by
      refine ⟨mem_created.mpr ⟨_, (hopener u hu).1, rfl⟩, ?_⟩
      rintro q ⟨psc', hpsc', rfl, hid⟩
      rw [created_inj hf.distinct hpsc' (hopener u hu).1 hid]
      exact (hopener u hu).2
    have hid := root_unique hf huroot hp (hbelow u hu sc hsc hsu) hdesc
    exact ⟨t, rfl, hsame u hu hid ▸ hsu⟩

omit hf hobj in
theorem CreationForest.perm {scs' : List StateChange} (h : scs.Perm scs')
    (hf : CreationForest scs) : CreationForest scs' := by
  have hc : Creates scs' = Creates scs := by
    funext p q
    simp only [Creates, h.mem_iff]
  exact
    { distinct := (h.filterMap _).nodup_iff.mp hf.distinct
      acyclic := fun p => hc ▸ hf.acyclic p
      known := fun osc hosc => (h.filterMap _).mem_iff.mp (hf.known osc (h.mem_iff.mpr hosc)) }

omit hf hobj in
theorem IsRoot.perm {scs' : List StateChange} (h : scs.Perm scs') {p : Int} :
    IsRoot scs p ↔ IsRoot scs' p := by
  have hmem : ∀ q, q ∈ created scs ↔ q ∈ created scs' := fun q => (h.filterMap _).mem_iff
  simp only [IsRoot, Creates, hmem, h.mem_iff]

omit hf hobj in
theorem DistinctObjects.perm {scs' : List StateChange} (h : scs.Perm scs')
    (hobj : DistinctObjects scs) : DistinctObjects scs' :=
  ⟨fun sc hsc => hobj.received sc (h.mem_iff.mpr hsc), (h.map _).nodup_iff.mp hobj.distinct⟩

end Order

/-- What the file monitor reports about one process. -/
def fileEvent (n : Nat) (pid : Int) : ObjectStateChange where
  type := "file"
  time := n
  processId := pid
  process := some "iexplore.exe"
  action := some "Write"
  object1 := some "C:\\tmp\\test.txt"
  object2 := some "-1"
  origin := some n

/-- A process, its child, and a file that the child writes. -/
def browserChanges : List StateChange :=
  [.inr (processEvent 1 "created" 4 231), .inr (processEvent 2 "created" 231 500),
    .inl (fileEvent 3 500), .inl (fileEvent 4 231)]

/-- The same, with the file event ahead of the creation. -/
def lateCreation : List StateChange :=
  [.inr (processEvent 1 "created" 4 231), .inl (fileEvent 3 500),
    .inr (processEvent 2 "created" 231 500), .inl (fileEvent 4 231)]

theorem browserChanges_creates {p q : Int} (h : Creates browserChanges p q) : p < q := by
  obtain ⟨psc, hmem, rfl, rfl⟩ := h
  have hpsc : psc = processEvent 1 "created" 4 231 ∨ psc = processEvent 2 "created" 231 500 := by
    simpa [browserChanges] using hmem
  rcases hpsc with rfl | rfl <;> decide

theorem browserChanges_forest : CreationForest browserChanges where
  distinct := by decide
  acyclic := by
    intro p h
    have hlt : ∀ q, TransGen (Creates browserChanges) p q → p < q := by
      intro q hq
      induction hq with
      | single h => exact browserChanges_creates h
      | tail _ h ih => exact ih.trans (browserChanges_creates h)
    exact absurd (hlt p h) (lt_irrefl p)
  known := by
    intro osc hosc
    have hid : osc = fileEvent 3 500 ∨ osc = fileEvent 4 231 := by
      simpa [browserChanges] using hosc
    rcases hid with rfl | rfl <;> decide

theorem browserChanges_objects : DistinctObjects browserChanges := ⟨by decide, by decide⟩

theorem browserChanges_root : IsRoot browserChanges 231 := by
  refine ⟨by decide, ?_⟩
  rintro q ⟨psc, hmem, rfl, hid⟩
  have hpsc : psc = processEvent 1 "created" 4 231 ∨ psc = processEvent 2 "created" 231 500 := by
    simpa [browserChanges] using hmem
  rcases hpsc with rfl | rfl
  · decide
  · exact absurd hid (by decide)

end CaptureHpc.Server
