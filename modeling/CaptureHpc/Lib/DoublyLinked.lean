/-
# `Lib.DoublyLinked` — lists that are linked both ways

The nodes of a list have addresses, and each names the one before it and the one
behind it.  `holds x p n` is that the node `x` is there and names `p` and `n`.

A program that puts a node at the end changes the one that was the last, and one
that takes a node out changes those beside it.  `Linked.concat` and
`Linked.erase` say that it needs to do no more than that.
-/
import Mathlib.Data.List.Basic

namespace DoublyLinked

variable {β ρ : Type} (address : β → ρ)

/-- The address of the first node, or else what is behind the list. -/
def first (after : Option ρ) (xs : List β) : Option ρ := (xs.head?.map address).or after

/-- The address of the last node, or else what is before the list. -/
def last (before : Option ρ) (xs : List β) : Option ρ := (xs.getLast?.map address).or before

/-- The nodes are linked, with what is before the first and behind the last. -/
def Linked (holds : β → Option ρ → Option ρ → Prop) (after : Option ρ) :
    Option ρ → List β → Prop
  | _, [] => True
  | before, x :: xs =>
      holds x before (first address after xs) ∧ Linked holds after (some (address x)) xs

variable {address} {holds holds' : β → Option ρ → Option ρ → Prop}
  {before before' after after' : Option ρ} {x y : β} {xs ys : List β}

@[simp] theorem first_nil : first address after [] = after := rfl

@[simp] theorem first_cons : first address after (x :: xs) = some (address x) := rfl

@[simp] theorem last_nil : last address before [] = before := rfl

@[simp] theorem last_cons : last address before (x :: xs) = last address (some (address x)) xs := by
  cases xs with
  | nil => rfl
  | cons y xs => simp [last, List.getLast?_cons]

@[simp] theorem last_concat : last address before (xs ++ [x]) = some (address x) := by
  simp [last]

theorem first_append :
    first address after (xs ++ ys) = first address (first address after ys) xs := by
  cases xs <;> rfl

/-- **A list in two parts.** -/
theorem linked_append : Linked address holds after before (xs ++ ys) ↔
    Linked address holds (first address after ys) before xs ∧
      Linked address holds after (last address before xs) ys := by
  induction xs generalizing before with
  | nil => simp [Linked]
  | cons x xs ih =>
      rw [List.cons_append, Linked, Linked, ih, first_append, last_cons, and_assoc]

theorem Linked.mono (h : Linked address holds after before xs)
    (hmono : ∀ x ∈ xs, ∀ p n, holds x p n → holds' x p n) :
    Linked address holds' after before xs := by
  induction xs generalizing before with
  | nil => trivial
  | cons x xs ih =>
      exact ⟨hmono x List.mem_cons_self _ _ h.1,
        ih h.2 fun y hy => hmono y (List.mem_cons_of_mem _ hy)⟩

/-- The addresses of the nodes are linked as the nodes are. -/
theorem Linked.map_address {holds' : ρ → Option ρ → Option ρ → Prop}
    (h : Linked address holds after before xs)
    (hholds : ∀ x ∈ xs, ∀ p n, holds x p n → holds' (address x) p n) :
    Linked id holds' after before (xs.map address) := by
  induction xs generalizing before with
  | nil => trivial
  | cons x xs ih =>
      have hfirst : first id after (xs.map address) = first address after xs := by
        cases xs <;> rfl
      rw [List.map_cons, Linked, hfirst]
      exact ⟨hholds x List.mem_cons_self _ _ h.1,
        ih h.2 fun y hy => hholds y (List.mem_cons_of_mem _ hy)⟩

theorem Linked.holds_of_mem (h : Linked address holds after before xs) (hx : x ∈ xs) :
    ∃ p n, holds x p n := by
  induction xs generalizing before with
  | nil => cases hx
  | cons y xs ih =>
      obtain rfl | hx := List.mem_cons.mp hx
      · exact ⟨_, _, h.1⟩
      · exact ih h.2 hx

/-- The last node is changed to name something else behind it. -/
theorem Linked.set_after (h : Linked address holds after before xs)
    (hinit : ∀ x ∈ xs.dropLast, ∀ p n, holds x p n → holds' x p n)
    (hlast : ∀ x, xs.getLast? = some x → ∀ p, holds x p after → holds' x p after') :
    Linked address holds' after' before xs := by
  induction xs generalizing before with
  | nil => trivial
  | cons x xs ih =>
      cases xs with
      | nil => exact ⟨hlast x rfl _ h.1, trivial⟩
      | cons y xs =>
          refine ⟨hinit x List.mem_cons_self _ _ h.1, ih h.2 ?_ ?_⟩
          · intro z hz
            exact hinit z (List.mem_cons_of_mem _ hz)
          · intro z hz
            exact hlast z (by rwa [List.getLast?_cons_cons])

/-- The first node is changed to name something else before it. -/
theorem Linked.set_before (h : Linked address holds after before xs)
    (htail : ∀ x ∈ xs.tail, ∀ p n, holds x p n → holds' x p n)
    (hhead : ∀ x, xs.head? = some x → ∀ n, holds x before n → holds' x before' n) :
    Linked address holds' after before' xs := by
  cases xs with
  | nil => trivial
  | cons x xs => exact ⟨hhead x rfl _ h.1, h.2.mono htail⟩

/-- What a node in the middle names. -/
theorem Linked.holds_middle (h : Linked address holds after before (xs ++ y :: ys)) :
    holds y (last address before xs) (first address after ys) :=
  (linked_append.mp h).2.1

/-- The node that is named behind a node names it. -/
theorem Linked.holds_behind (h : Linked address holds after before (xs ++ y :: ys)) {a : ρ}
    (ha : first address none ys = some a) :
    ∃ z ∈ ys, address z = a ∧ ∃ n, holds z (some (address y)) n := by
  cases ys with
  | nil => cases ha
  | cons z ys =>
      have hys := (linked_append.mp h).2.2
      exact ⟨z, List.mem_cons_self, Option.some.inj ha, _, hys.1⟩

/-- The node that is named before a node names it. -/
theorem Linked.holds_before (h : Linked address holds after before (xs ++ y :: ys)) {a : ρ}
    (ha : last address none xs = some a) :
    ∃ z ∈ xs, address z = a ∧ ∃ p, holds z p (some (address y)) := by
  obtain rfl | ⟨xs, z, rfl⟩ := List.eq_nil_or_concat xs
  · cases ha
  · rw [List.concat_eq_append] at h ha ⊢
    rw [last_concat] at ha
    have hz := (linked_append.mp (linked_append.mp h).1).2
    exact ⟨z, List.mem_append_right _ List.mem_cons_self, Option.some.inj ha, _, hz.1⟩

/-! ## Lists with nothing before and behind -/

theorem ne_of_mem_dropLast (hnodup : (xs.map address).Nodup) (hx : x ∈ xs.dropLast)
    (hy : xs.getLast? = some y) : address x ≠ address y := by
  rw [← List.dropLast_append_getLast? y hy, List.map_append, List.nodup_append] at hnodup
  exact hnodup.2.2 _ (List.mem_map_of_mem hx) _ List.mem_cons_self

theorem ne_of_mem_tail (hnodup : (xs.map address).Nodup) (hx : x ∈ xs.tail)
    (hy : xs.head? = some y) : address x ≠ address y := by
  obtain ⟨ys, rfl⟩ := List.head?_eq_some_iff.mp hy
  intro h
  exact (List.nodup_cons.mp hnodup).1 (h ▸ List.mem_map_of_mem hx)

theorem last_none_of_getLast? (h : xs.getLast? = some x) :
    last address none xs = some (address x) := by
  rw [last, h, Option.map_some, Option.some_or]

theorem first_none_of_head? (h : xs.head? = some x) :
    first address none xs = some (address x) := by
  rw [first, h, Option.map_some, Option.some_or]

/-- A node that is not the last. -/
theorem last_none_ne (hnodup : (xs.map address).Nodup) (hx : x ∈ xs.dropLast) :
    last address none xs ≠ some (address x) := by
  cases hlast : xs.getLast? with
  | none =>
      rw [List.getLast?_eq_none_iff.mp hlast] at hx
      cases hx
  | some y =>
      rw [last_none_of_getLast? hlast]
      exact fun h => ne_of_mem_dropLast hnodup hx hlast (Option.some.inj h).symm

/-- A node that is not the first. -/
theorem first_none_ne (hnodup : (xs.map address).Nodup) (hx : x ∈ xs.tail) :
    first address none xs ≠ some (address x) := by
  cases hfirst : xs.head? with
  | none =>
      rw [List.head?_eq_none_iff.mp hfirst] at hx
      cases hx
  | some y =>
      rw [first_none_of_head? hfirst]
      exact fun h => ne_of_mem_tail hnodup hx hfirst (Option.some.inj h).symm

theorem exists_of_last_none {a : ρ} (h : last address none xs = some a) :
    ∃ x ∈ xs, address x = a := by
  rw [last, Option.or_none, Option.map_eq_some_iff] at h
  obtain ⟨x, hx, rfl⟩ := h
  exact ⟨x, List.mem_of_getLast? hx, rfl⟩

theorem exists_of_first_none {a : ρ} (h : first address none xs = some a) :
    ∃ x ∈ xs, address x = a := by
  rw [first, Option.or_none, Option.map_eq_some_iff] at h
  obtain ⟨x, hx, rfl⟩ := h
  exact ⟨x, List.mem_of_head? hx, rfl⟩

variable [DecidableEq ρ]

/-- **A node at the end**, when the one that was the last is told. -/
theorem Linked.concat (h : Linked address holds none none xs) (hnodup : (xs.map address).Nodup)
    (hholds : ∀ x ∈ xs, ∀ p n, holds x p n →
      holds' x p (if last address none xs = some (address x) then some (address y) else n))
    (hy : holds' y (last address none xs) none) :
    Linked address holds' none none (xs ++ [y]) := by
  refine linked_append.mpr ⟨h.set_after ?_ ?_, hy, trivial⟩
  · intro x hx p n hx'
    have hnew := hholds x (List.dropLast_subset xs hx) p n hx'
    rwa [if_neg (last_none_ne hnodup hx)] at hnew
  · intro x hx p hx'
    have hnew := hholds x (List.mem_of_getLast? hx) p none hx'
    rwa [if_pos (last_none_of_getLast? hx)] at hnew

/-- The first of the others, when a node is taken out. -/
theorem first_erase (hne : ∀ x ∈ xs, address x ≠ address y) :
    (if first address none (xs ++ y :: ys) = some (address y) then first address none ys
      else first address none (xs ++ y :: ys)) = first address none (xs ++ ys) := by
  cases xs with
  | nil => exact if_pos rfl
  | cons x xs => exact if_neg fun h => hne x List.mem_cons_self (Option.some.inj h)

/-- The last of the others. -/
theorem last_erase (hne : ∀ x ∈ ys, address x ≠ address y) :
    (if last address none (xs ++ y :: ys) = some (address y) then last address none xs
      else last address none (xs ++ y :: ys)) = last address none (xs ++ ys) := by
  obtain rfl | ⟨ys, z, rfl⟩ := List.eq_nil_or_concat ys
  · rw [last_concat, if_pos rfl, List.append_nil]
  · rw [List.concat_eq_append] at hne ⊢
    rw [← List.cons_append, ← List.append_assoc, ← List.append_assoc, last_concat, last_concat,
      if_neg]
    exact fun h => hne z (List.mem_append_right _ List.mem_cons_self) (Option.some.inj h)

/-- **A node that is taken out**, when those beside it are told. -/
theorem Linked.erase (h : Linked address holds none none (xs ++ y :: ys))
    (hnodup : ((xs ++ ys).map address).Nodup)
    (hholds : ∀ x ∈ xs ++ ys, ∀ p n, holds x p n → holds' x
      (if first address none ys = some (address x) then last address none xs else p)
      (if last address none xs = some (address x) then first address none ys else n)) :
    Linked address holds' none none (xs ++ ys) := by
  obtain ⟨hxs, -, hys⟩ := linked_append.mp h
  rw [List.map_append, List.nodup_append] at hnodup
  obtain ⟨hnodupx, hnodupy, hapart⟩ := hnodup
  have hx_first : ∀ x ∈ xs, first address none ys ≠ some (address x) := by
    intro x hx hfirst
    obtain ⟨z, hz, haddress⟩ := exists_of_first_none hfirst
    exact hapart _ (List.mem_map_of_mem hx) _ (List.mem_map_of_mem hz) haddress.symm
  have hy_last : ∀ x ∈ ys, last address none xs ≠ some (address x) := by
    intro x hx hlast
    obtain ⟨z, hz, haddress⟩ := exists_of_last_none hlast
    exact hapart _ (List.mem_map_of_mem hz) _ (List.mem_map_of_mem hx) haddress
  refine linked_append.mpr ⟨hxs.set_after ?_ ?_, hys.set_before ?_ ?_⟩
  · intro x hx p n hx'
    have hmem := List.dropLast_subset xs hx
    have hnew := hholds x (List.mem_append_left _ hmem) p n hx'
    rwa [if_neg (hx_first x hmem), if_neg (last_none_ne hnodupx hx)] at hnew
  · intro x hx p hx'
    have hmem := List.mem_of_getLast? hx
    have hnew := hholds x (List.mem_append_left _ hmem) p _ hx'
    rwa [if_neg (hx_first x hmem), if_pos (last_none_of_getLast? hx)] at hnew
  · intro x hx p n hx'
    have hmem := List.mem_of_mem_tail hx
    have hnew := hholds x (List.mem_append_right _ hmem) p n hx'
    rwa [if_neg (first_none_ne hnodupy hx), if_neg (hy_last x hmem)] at hnew
  · intro x hx n hx'
    have hmem := List.mem_of_head? hx
    have hnew := hholds x (List.mem_append_right _ hmem) _ n hx'
    rwa [if_pos (first_none_of_head? hx), if_neg (hy_last x hmem)] at hnew

end DoublyLinked
