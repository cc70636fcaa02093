/-
# `Lib.Linked` — lists that are linked by addresses

The nodes of a list are at addresses, and each one says where the next one is;
the last says 0.  `holds x n` is that the node `x` is there and names `n`.
-/
import Mathlib.Data.List.Basic

namespace Linked

variable {α : Type} (address : α → Nat)

/-- The address of the first node. -/
def first : List α → Nat
  | [] => 0
  | x :: _ => address x

/-- The address of the last node. -/
def last : List α → Nat
  | [] => 0
  | [x] => address x
  | _ :: xs => last xs

/-- The nodes are linked, each to the one that follows. -/
def Chain (holds : α → Nat → Prop) : List α → Prop
  | [] => True
  | x :: xs => holds x (first address xs) ∧ Chain holds xs

variable {address} {holds holds' : α → Nat → Prop} {x y : α} {xs : List α}

theorem last_concat (xs : List α) (y : α) : last address (xs ++ [y]) = address y := by
  induction xs with
  | nil => rfl
  | cons x xs ih =>
      cases xs with
      | nil => rfl
      | cons x' xs => exact ih

theorem first_append (xs : List α) (y : α) :
    first address (xs ++ [y]) = if xs = [] then address y else first address xs := by
  cases xs <;> rfl

theorem first_eq_zero (hpos : ∀ x ∈ xs, address x ≠ 0) : first address xs = 0 ↔ xs = [] := by
  cases xs with
  | nil => exact ⟨fun _ => rfl, fun _ => rfl⟩
  | cons x xs => exact ⟨fun h => absurd h (hpos x List.mem_cons_self), fun h => nomatch h⟩

theorem Chain.mono (h : Chain address holds xs) (hmono : ∀ x ∈ xs, ∀ n, holds x n → holds' x n) :
    Chain address holds' xs := by
  induction xs with
  | nil => trivial
  | cons x xs ih =>
      exact ⟨hmono x List.mem_cons_self _ h.1,
        ih h.2 fun x' hx' => hmono x' (List.mem_cons_of_mem _ hx')⟩

/-- **A node at the end.**  The node that was the last is changed to name the new one. -/
theorem Chain.concat (h : Chain address holds xs)
    (hinit : ∀ x ∈ xs.dropLast, ∀ n, holds x n → holds' x n)
    (hlast : ∀ x, xs.getLast? = some x → holds x 0 → holds' x (address y)) (hy : holds' y 0) :
    Chain address holds' (xs ++ [y]) := by
  induction xs with
  | nil => exact ⟨hy, trivial⟩
  | cons x xs ih =>
      cases xs with
      | nil => exact ⟨hlast x rfl h.1, hy, trivial⟩
      | cons x' xs =>
          refine ⟨hinit x List.mem_cons_self _ h.1, ih h.2 ?_ ?_⟩
          · intro z hz
            exact hinit z (List.mem_cons_of_mem _ hz)
          · intro z hz
            exact hlast z hz

end Linked
