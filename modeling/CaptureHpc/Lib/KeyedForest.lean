/-
# `Lib.KeyedForest` — rose trees filled by key, first fit

A node carries a value, a list of items and a list of subtrees.  Every value
has a *key*.  `hang k x` walks a tree in preorder to the first node whose value
has key `k` and adds `x` there: an item to its items, a value as a new leaf
below it.  On a list of trees the first tree that accepts wins.

Two facts carry everything proved about such a structure.

* `hang` fails exactly when the key does not occur (`hang_eq_none`), so a walk
  that stops early never misses a node.
* When it succeeds it adds exactly one element (`hang_elems`) and moves none,
  and the root values stay what they were (`hang_root`).

Nothing here says that keys are unique.  A key may occur at several nodes; the
first one in preorder gets everything.
-/
import Mathlib.Data.List.Perm.Basic
import Mathlib.Data.List.Nodup

namespace KeyedForest

/-- A rose tree: a value, its items, its subtrees. -/
inductive Tree (ν ι : Type) where
  | node (value : ν) (items : List ι) (kids : List (Tree ν ι))

variable {ν ι κ : Type}

/-- A value on its own. -/
def Tree.leaf (v : ν) : Tree ν ι := .node v [] []

/-- The root value. -/
def Tree.root : Tree ν ι → ν
  | .node v _ _ => v

/-- The items of the root. -/
def Tree.items : Tree ν ι → List ι
  | .node _ items _ => items

/-- The subtrees of the root. -/
def Tree.kids : Tree ν ι → List (Tree ν ι)
  | .node _ _ kids => kids

mutual
/-- Everything stored in a tree: the items of the root, the subtrees, the root value. -/
def Tree.elems : Tree ν ι → List (ι ⊕ ν)
  | .node v items kids => items.map Sum.inl ++ elemsList kids ++ [Sum.inr v]
/-- Everything stored in a list of trees. -/
def elemsList : List (Tree ν ι) → List (ι ⊕ ν)
  | [] => []
  | t :: ts => t.elems ++ elemsList ts
end

mutual
/-- The values of a tree, preorder. -/
def Tree.values : Tree ν ι → List ν
  | .node v _ kids => v :: valuesList kids
/-- The values of a list of trees. -/
def valuesList : List (Tree ν ι) → List ν
  | [] => []
  | t :: ts => t.values ++ valuesList ts
end

mutual
/-- The nodes of a tree, preorder, each with what is below it. -/
def Tree.nodes : Tree ν ι → List (Tree ν ι)
  | .node v items kids => .node v items kids :: nodesList kids
/-- The nodes of a list of trees. -/
def nodesList : List (Tree ν ι) → List (Tree ν ι)
  | [] => []
  | t :: ts => t.nodes ++ nodesList ts
end

/-- A node with one element more: an item of its own, or a leaf below it. -/
def Tree.addHere (v : ν) (items : List ι) (kids : List (Tree ν ι)) : ι ⊕ ν → Tree ν ι
  | .inl i => .node v (items ++ [i]) kids
  | .inr w => .node v items (kids ++ [.leaf w])

section Hang
variable [DecidableEq κ] (key : ν → κ)

mutual
/-- Add an item to the first node with key `k`, or a leaf below it. -/
def Tree.hang (k : κ) (x : ι ⊕ ν) : Tree ν ι → Option (Tree ν ι)
  | .node v items kids =>
      if key v = k then some (Tree.addHere v items kids x)
      else
        match hangFirst k x kids with
        | some kids' => some (.node v items kids')
        | none => none
/-- `hang` on the first tree of the list that accepts. -/
def hangFirst (k : κ) (x : ι ⊕ ν) : List (Tree ν ι) → Option (List (Tree ν ι))
  | [] => none
  | t :: ts =>
      match t.hang k x with
      | some t' => some (t' :: ts)
      | none =>
          match hangFirst k x ts with
          | some ts' => some (t :: ts')
          | none => none
end

end Hang

/-! ## Lists of trees, flattened -/

theorem elemsList_eq_flatMap : ∀ ts : List (Tree ν ι), elemsList ts = ts.flatMap Tree.elems
  | [] => rfl
  | t :: ts => by rw [elemsList, elemsList_eq_flatMap ts, List.flatMap_cons]

theorem valuesList_eq_flatMap : ∀ ts : List (Tree ν ι), valuesList ts = ts.flatMap Tree.values
  | [] => rfl
  | t :: ts => by rw [valuesList, valuesList_eq_flatMap ts, List.flatMap_cons]

mutual
/-- The values are the value elements. -/
theorem mem_elems_inr {v : ν} : ∀ t : Tree ν ι, Sum.inr v ∈ t.elems ↔ v ∈ t.values
  | .node w items kids => by
      simp only [Tree.elems, Tree.values, List.mem_append, List.mem_map, reduceCtorEq, and_false,
        exists_false, false_or, Sum.inr.injEq, List.mem_cons, List.not_mem_nil, or_false,
        mem_elemsList_inr kids]
      exact or_comm
theorem mem_elemsList_inr {v : ν} :
    ∀ ts : List (Tree ν ι), Sum.inr v ∈ elemsList ts ↔ v ∈ valuesList ts
  | [] => by simp [elemsList, valuesList]
  | t :: ts => by
      simp only [elemsList, valuesList, List.mem_append, mem_elems_inr t, mem_elemsList_inr ts]
end

theorem root_mem_values (t : Tree ν ι) : t.root ∈ t.values := by
  cases t with
  | node v items kids => simp [Tree.root, Tree.values]

theorem root_mem_elems (t : Tree ν ι) : Sum.inr t.root ∈ t.elems :=
  (mem_elems_inr t).mpr (root_mem_values t)

theorem nodesList_eq_flatMap : ∀ ts : List (Tree ν ι), nodesList ts = ts.flatMap Tree.nodes
  | [] => rfl
  | t :: ts => by rw [nodesList, nodesList_eq_flatMap ts, List.flatMap_cons]

theorem self_mem_nodes (t : Tree ν ι) : t ∈ t.nodes := by
  cases t with
  | node v items kids => exact List.mem_cons_self

/-! ## Every element below the node it belongs to -/

/-- The elements of a node belong to it: its items, and the roots of its subtrees. -/
structure Filed (key : ν → κ) (under : ι ⊕ ν → κ) (n : Tree ν ι) : Prop where
  items : ∀ i ∈ n.items, under (.inl i) = key n.root
  kids : ∀ v ∈ n.kids.map Tree.root, under (.inr v) = key n.root

section Filed
variable {key : ν → κ} {under : ι ⊕ ν → κ} {x : ι ⊕ ν}

theorem leaf_filed (v : ν) : ∀ n ∈ (Tree.leaf v : Tree ν ι).nodes, Filed key under n := by
  intro n hn
  obtain rfl := List.mem_singleton.mp hn
  exact ⟨nofun, nofun⟩

theorem addHere_filed {v : ν} {items : List ι} {kids : List (Tree ν ι)} (hx : under x = key v)
    (h : ∀ n ∈ (Tree.node v items kids).nodes, Filed key under n) :
    ∀ n ∈ (Tree.addHere v items kids x).nodes, Filed key under n := by
  have hroot := h _ (self_mem_nodes _)
  have hbelow : ∀ n ∈ nodesList kids, Filed key under n := fun n hn =>
    h n (List.mem_cons_of_mem _ hn)
  intro n hn
  cases x with
  | inl i =>
      rcases List.mem_cons.mp hn with rfl | hn
      · refine ⟨fun j hj => ?_, hroot.kids⟩
        rcases List.mem_append.mp hj with hj | hj
        · exact hroot.items j hj
        · rw [List.mem_singleton.mp hj]
          exact hx
      · exact hbelow n hn
  | inr w =>
      rcases List.mem_cons.mp hn with rfl | hn
      · refine ⟨hroot.items, fun u hu => ?_⟩
        rw [Tree.kids, List.map_append, List.mem_append] at hu
        rcases hu with hu | hu
        · exact hroot.kids u hu
        · rw [List.mem_singleton.mp hu]
          exact hx
      · rw [nodesList_eq_flatMap, List.flatMap_append, List.mem_append,
          ← nodesList_eq_flatMap] at hn
        rcases hn with hn | hn
        · exact hbelow n hn
        · rw [List.flatMap_singleton] at hn
          exact leaf_filed w n hn

end Filed

/-! ## What one `hang` does -/

section HangLemmas
variable [DecidableEq κ] {key : ν → κ} {k : κ} {x : ι ⊕ ν}

mutual
/-- A tree refuses exactly when the key does not occur in it. -/
theorem hang_eq_none :
    ∀ t : Tree ν ι, t.hang key k x = none ↔ ∀ v ∈ t.values, key v ≠ k
  | .node v items kids => by
      by_cases hk : key v = k
      · simp [Tree.hang, Tree.values, hk]
      · have ih := hangFirst_eq_none kids
        cases hf : hangFirst key k x kids with
        | none => simpa [Tree.hang, Tree.values, hk, hf] using ih.mp hf
        | some kids' =>
            have hne : ¬ ∀ w ∈ valuesList kids, key w ≠ k := fun h => by
              rw [ih.mpr h] at hf; cases hf
            simp only [Tree.hang, hk, if_false, hf, Tree.values, List.mem_cons, forall_eq_or_imp]
            simp only [reduceCtorEq, false_iff, not_and]
            exact fun _ => hne
theorem hangFirst_eq_none :
    ∀ ts : List (Tree ν ι), hangFirst key k x ts = none ↔ ∀ v ∈ valuesList ts, key v ≠ k
  | [] => by simp [hangFirst, valuesList]
  | t :: ts => by
      have iht := hang_eq_none t
      have ihs := hangFirst_eq_none ts
      simp only [valuesList, List.mem_append, or_imp, forall_and, ← iht, ← ihs]
      cases ht : t.hang key k x with
      | some t' => simp [hangFirst, ht]
      | none =>
          cases hs : hangFirst key k x ts with
          | some ts' => simp [hangFirst, ht, hs]
          | none => simp [hangFirst, ht, hs]
end

theorem addHere_elems (v : ν) (items : List ι) (kids : List (Tree ν ι)) :
    ∀ x : ι ⊕ ν, (x :: (Tree.node v items kids).elems).Perm (Tree.addHere v items kids x).elems
  | .inl i => by
      simp only [Tree.addHere, Tree.elems, List.map_append, List.map_cons, List.map_nil,
        List.append_assoc, List.cons_append, List.nil_append]
      exact List.perm_middle.symm
  | .inr w => by
      simp only [Tree.addHere, Tree.elems, elemsList_eq_flatMap, List.flatMap_append,
        List.flatMap_cons, List.flatMap_nil, Tree.leaf, List.map_nil, List.nil_append,
        List.append_nil, List.append_assoc, List.cons_append]
      rw [← List.append_assoc, ← List.append_assoc]
      exact List.perm_middle.symm

mutual
/-- A tree that accepts holds exactly one element more. -/
theorem hang_elems :
    ∀ {t t' : Tree ν ι}, t.hang key k x = some t' → (x :: t.elems).Perm t'.elems
  | .node v items kids, t', h => by
      rw [Tree.hang] at h
      split at h
      · obtain rfl := Option.some.inj h
        exact addHere_elems v items kids x
      · cases hf : hangFirst key k x kids with
        | none => rw [hf] at h; cases h
        | some kids' =>
            rw [hf] at h
            obtain rfl := Option.some.inj h
            have ih := hangFirst_elems hf
            simp only [Tree.elems]
            rw [← List.cons_append]
            refine List.Perm.append_right _ ?_
            exact List.perm_middle.symm.trans (ih.append_left _)
theorem hangFirst_elems :
    ∀ {ts ts' : List (Tree ν ι)}, hangFirst key k x ts = some ts' →
      (x :: elemsList ts).Perm (elemsList ts')
  | [], _, h => nomatch h
  | t :: ts, ts', h => by
      rw [hangFirst] at h
      cases ht : t.hang key k x with
      | some t' =>
          rw [ht] at h
          obtain rfl := Option.some.inj h
          exact (hang_elems ht).append_right _
      | none =>
          cases hs : hangFirst key k x ts with
          | none => rw [ht, hs] at h; cases h
          | some ts'' =>
              rw [ht, hs] at h
              obtain rfl := Option.some.inj h
              exact List.perm_middle.symm.trans ((hangFirst_elems hs).append_left _)
end

theorem hang_root {t t' : Tree ν ι} (h : t.hang key k x = some t') : t'.root = t.root := by
  cases t with
  | node v items kids =>
      rw [Tree.hang] at h
      split at h
      · obtain rfl := Option.some.inj h
        cases x <;> rfl
      · split at h
        · obtain rfl := Option.some.inj h; rfl
        · cases h

/-- The node that takes the element has the key. -/
theorem hang_key {t t' : Tree ν ι} (h : t.hang key k x = some t') : ∃ v ∈ t.values, key v = k := by
  by_contra hno
  have hnone : t.hang key k x = none := (hang_eq_none t).mpr fun v hv hk => hno ⟨v, hv, hk⟩
  exact absurd (hnone.symm.trans h) nofun

/-- A list that accepts changes one tree. -/
theorem hangFirst_split : ∀ {ts ts' : List (Tree ν ι)}, hangFirst key k x ts = some ts' →
    ∃ l t t' r, ts = l ++ t :: r ∧ t.hang key k x = some t' ∧ ts' = l ++ t' :: r
  | [], _, h => nomatch h
  | t :: ts, ts', h => by
      rw [hangFirst] at h
      cases ht : t.hang key k x with
      | some t' =>
          rw [ht] at h
          obtain rfl := Option.some.inj h
          exact ⟨[], t, t', ts, rfl, ht, rfl⟩
      | none =>
          cases hs : hangFirst key k x ts with
          | none => rw [ht, hs] at h; cases h
          | some us =>
              rw [ht, hs] at h
              obtain rfl := Option.some.inj h
              obtain ⟨l, u, u', r, rfl, hu, rfl⟩ := hangFirst_split hs
              exact ⟨t :: l, u, u', r, rfl, hu, rfl⟩

/-- A list that accepts keeps its roots, in order. -/
theorem hangFirst_roots {ts ts' : List (Tree ν ι)} (h : hangFirst key k x ts = some ts') :
    ts'.map Tree.root = ts.map Tree.root := by
  obtain ⟨l, t, t', r, rfl, ht, rfl⟩ := hangFirst_split h
  simp only [List.map_append, List.map_cons, hang_root ht]

/-- Every tree after the `hang` is one of before, or the one that took the element. -/
theorem hangFirst_back {ts ts' : List (Tree ν ι)} (h : hangFirst key k x ts = some ts') :
    ∀ t' ∈ ts', t' ∈ ts ∨ ∃ t ∈ ts, t.hang key k x = some t' := by
  obtain ⟨l, t, t', r, rfl, ht, rfl⟩ := hangFirst_split h
  intro u hu
  rcases List.mem_append.mp hu with hl | hr
  · exact .inl (List.mem_append_left _ hl)
  · rcases List.mem_cons.mp hr with rfl | hr
    · exact .inr ⟨t, List.mem_append_right _ List.mem_cons_self, ht⟩
    · exact .inl (List.mem_append_right _ (List.mem_cons_of_mem _ hr))

/-- Every tree before the `hang` is still there, under its root, with nothing lost. -/
theorem hangFirst_forth {ts ts' : List (Tree ν ι)} (h : hangFirst key k x ts = some ts') :
    ∀ t ∈ ts, ∃ t' ∈ ts', t'.root = t.root ∧ t.elems ⊆ t'.elems := by
  obtain ⟨l, t, t', r, rfl, ht, rfl⟩ := hangFirst_split h
  intro u hu
  rcases List.mem_append.mp hu with hl | hr
  · exact ⟨u, List.mem_append_left _ hl, rfl, List.Subset.refl _⟩
  · rcases List.mem_cons.mp hr with rfl | hr
    · exact ⟨t', List.mem_append_right _ List.mem_cons_self, hang_root ht,
        List.Subset.trans (List.subset_cons_self _ _) (hang_elems ht).subset⟩
    · exact ⟨u, List.mem_append_right _ (List.mem_cons_of_mem _ hr), rfl, List.Subset.refl _⟩

variable {under : ι ⊕ ν → κ}

mutual
/-- An element goes below the node it belongs to. -/
theorem hang_filed (hx : under x = k) : ∀ {t t' : Tree ν ι}, t.hang key k x = some t' →
    (∀ n ∈ t.nodes, Filed key under n) → ∀ n ∈ t'.nodes, Filed key under n
  | .node v items kids, t', h, hall => by
      rw [Tree.hang] at h
      split at h
      next hk =>
        obtain rfl := Option.some.inj h
        exact addHere_filed (hx.trans hk.symm) hall
      · cases hf : hangFirst key k x kids with
        | none => rw [hf] at h; cases h
        | some kids' =>
            rw [hf] at h
            obtain rfl := Option.some.inj h
            have hroot := hall _ (self_mem_nodes _)
            have hbelow := hangFirst_filed hx hf fun n hn => hall n (List.mem_cons_of_mem _ hn)
            intro n hn
            rcases List.mem_cons.mp hn with rfl | hn
            · refine ⟨hroot.items, ?_⟩
              rw [Tree.kids, hangFirst_roots hf]
              exact hroot.kids
            · exact hbelow n hn
theorem hangFirst_filed (hx : under x = k) : ∀ {ts ts' : List (Tree ν ι)},
    hangFirst key k x ts = some ts' →
      (∀ n ∈ nodesList ts, Filed key under n) → ∀ n ∈ nodesList ts', Filed key under n
  | [], _, h, _ => nomatch h
  | t :: ts, ts', h, hall => by
      have hhead : ∀ n ∈ t.nodes, Filed key under n := fun n hn =>
        hall n (List.mem_append_left _ hn)
      have htail : ∀ n ∈ nodesList ts, Filed key under n := fun n hn =>
        hall n (List.mem_append_right _ hn)
      rw [hangFirst] at h
      intro n hn
      cases ht : t.hang key k x with
      | some t' =>
          rw [ht] at h
          obtain rfl := Option.some.inj h
          rcases List.mem_append.mp hn with hn | hn
          · exact hang_filed hx ht hhead n hn
          · exact htail n hn
      | none =>
          cases hs : hangFirst key k x ts with
          | none => rw [ht, hs] at h; cases h
          | some us =>
              rw [ht, hs] at h
              obtain rfl := Option.some.inj h
              rcases List.mem_append.mp hn with hn | hn
              · exact hhead n hn
              · exact hangFirst_filed hx hs htail n hn
end

end HangLemmas

end KeyedForest
