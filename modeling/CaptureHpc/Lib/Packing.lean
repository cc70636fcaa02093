/-
# `Lib.Packing` — records one behind the other

A record says how long it is.  A writer puts records into a memory one behind
the other, and a reader goes from one to the next by their lengths.
-/
import CaptureHpc.Lib.Memory
import Mathlib.Data.List.Basic

namespace Packing

variable {β : Type} (read : Memory → Nat → β) (size : β → Nat)

/-- The records from one address up to another. -/
def Packed (m : Memory) : Nat → List β → Nat → Prop
  | a, [], b => a = b
  | a, x :: xs, b => read m a = x ∧ Packed m (a + size x) xs b

/-- What is read of a record is within its length. -/
def WithinSize : Prop :=
  ∀ (m m' : Memory) (a : Nat), (∀ x, a ≤ x → x < a + size (read m a) → m' x = m x) →
    read m' a = read m a

variable {read size} {m m' : Memory} {a b : Nat} {x : β} {xs : List β}

theorem Packed.le (h : Packed read size m a xs b) : a ≤ b := by
  induction xs generalizing a with
  | nil => exact Nat.le_of_eq h
  | cons x xs ih => exact Nat.le_trans (Nat.le_add_right a (size x)) (ih h.2)

theorem Packed.length_le {least : Nat} (hleast : ∀ x, least ≤ size x)
    (h : Packed read size m a xs b) : a + least * xs.length ≤ b := by
  induction xs generalizing a with
  | nil => exact Nat.le_of_eq h
  | cons x xs ih =>
      have hrest := ih h.2
      have hx := hleast x
      rw [List.length_cons, Nat.mul_succ]
      omega

theorem Packed.congr (hwithin : WithinSize read size) (h : Packed read size m a xs b)
    (hsame : ∀ x, a ≤ x → x < b → m' x = m x) : Packed read size m' a xs b := by
  induction xs generalizing a with
  | nil => exact h
  | cons x xs ih =>
      obtain ⟨hread, hrest⟩ := h
      have hle := hrest.le
      refine ⟨?_, ih hrest fun y hy hlt => hsame y (by omega) hlt⟩
      rw [← hread]
      refine hwithin m m' a fun y hy hlt => hsame y hy ?_
      rw [hread] at hlt
      omega

/-- One more record. -/
theorem Packed.concat (h : Packed read size m a xs b) (hx : read m b = x) :
    Packed read size m a (xs ++ [x]) (b + size x) := by
  induction xs generalizing a with
  | nil =>
      obtain rfl : a = b := h
      exact ⟨hx, rfl⟩
  | cons y xs ih => exact ⟨h.1, ih h.2⟩

end Packing
