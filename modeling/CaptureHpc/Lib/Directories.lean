/-
# `Lib.Directories` — the directories on the way to a file

A path is a row of names with a separator before each.  From a base it leads
through a row of directories, each of which is in the one before (`below`).

Whoever creates them in that order finds every parent there (`below_parents`),
and has then created all that a path below the base goes through
(`mem_below_of_isPrefix`).
-/
import Mathlib.Algebra.Ring.Nat
import Mathlib.Data.List.Flatten
import Mathlib.Data.List.Pairwise

namespace Directories

variable {α : Type} (separator : α)

/-- Names, each behind a separator. -/
def path (names : List (List α)) : List α := names.flatMap (separator :: ·)

/-- The directories that one comes through from a base. -/
def below (base : List α) : List (List α) → List (List α)
  | [] => []
  | name :: names =>
      (base ++ separator :: name) :: below (base ++ separator :: name) names

/-- The name of a file or a directory. -/
abbrev Name := { name : List α // separator ∉ name }

variable {separator} {base file p : List α} {name : List α} {names : List (List α)}

@[simp] theorem path_nil : path separator [] = [] := rfl

@[simp] theorem path_cons :
    path separator (name :: names) = separator :: name ++ path separator names := rfl

theorem length_path : (path separator names).length = (names.map (·.length + 1)).sum := by
  rw [path, List.length_flatMap]
  rfl

@[simp] theorem length_below : (below separator base names).length = names.length := by
  induction names generalizing base with
  | nil => rfl
  | cons name names ih => exact congrArg (· + 1) ih

/-- There are as many separators as names. -/
theorem count_path [BEq α] [LawfulBEq α] (hnames : ∀ name ∈ names, separator ∉ name) :
    (path separator names).count separator = names.length := by
  induction names with
  | nil => rfl
  | cons name names ih =>
      have hname := List.count_eq_zero.mpr (hnames name List.mem_cons_self)
      have hrest := ih fun name' hname' => hnames name' (List.mem_cons_of_mem _ hname')
      rw [path_cons, List.count_append, List.count_cons_self, hname, hrest, List.length_cons]
      omega

/-- The last directory has all the names. -/
theorem getLast?_below (hnames : names ≠ []) :
    (below separator base names).getLast? = some (base ++ path separator names) := by
  induction names generalizing base with
  | nil => exact absurd rfl hnames
  | cons name names ih =>
      cases names with
      | nil => simp [below]
      | cons name' names =>
          have hlast := @ih (base ++ separator :: name) (List.cons_ne_nil _ _)
          rw [below, below, List.getLast?_cons_cons, ← below, hlast, path_cons]
          simp

/-- All of them are on the way to the last. -/
theorem isPrefix_of_mem_below (h : p ∈ below separator base names) :
    p <+: base ++ path separator names := by
  induction names generalizing base with
  | nil => cases h
  | cons name names ih =>
      have hwhole : base ++ path separator (name :: names) =
          (base ++ separator :: name) ++ path separator names := by
        simp
      rw [hwhole]
      obtain rfl | h := List.mem_cons.mp h
      · exact List.prefix_append _ _
      · exact ih h

theorem base_of_mem_below (h : p ∈ below separator base names) : base ++ [separator] <+: p := by
  induction names generalizing base with
  | nil => cases h
  | cons name names ih =>
      obtain rfl | h := List.mem_cons.mp h
      · exact ⟨name, by simp⟩
      · refine List.IsPrefix.trans ?_ (ih h)
        exact ⟨name ++ [separator], by simp⟩

/-- **Every parent comes before what is in it**; so no directory comes twice. -/
theorem below_parents (separator : α) (base : List α) (names : List (List α)) :
    (below separator base names).Pairwise fun p q => p ++ [separator] <+: q := by
  induction names generalizing base with
  | nil => exact List.Pairwise.nil
  | cons name names ih => exact List.Pairwise.cons (fun _ hq => base_of_mem_below hq) (ih _)

theorem nodup_below (separator : α) (base : List α) (names : List (List α)) :
    (below separator base names).Nodup := by
  refine (below_parents separator base names).imp ?_
  rintro p q h rfl
  have hlength := h.length_le
  rw [List.length_append, List.length_singleton] at hlength
  omega

/-- No separator is in a word without one. -/
theorem not_isPrefix_of_not_mem {word : List α} (base rest p : List α) (hword : separator ∉ word)
    (hlong : base.length ≤ p.length) (hshort : p.length < base.length + word.length) :
    ¬ p ++ [separator] <+: base ++ word ++ rest := by
  rintro ⟨more, h⟩
  have hget := congrArg (·[p.length]?) h
  simp only [List.append_assoc, List.singleton_append, List.getElem?_append_right (Nat.le_refl _),
    Nat.sub_self, List.getElem?_cons_zero, List.getElem?_append_right hlong,
    List.getElem?_append_left (Nat.sub_lt_left_of_lt_add hlong hshort)] at hget
  exact hword (List.mem_of_getElem? hget.symm)

/-- **A directory that a path goes through** below the base is one of these. -/
theorem mem_below_of_isPrefix (hnames : ∀ name ∈ names, separator ∉ name)
    (hfile : separator ∉ file) (hlong : base.length < p.length)
    (h : p ++ [separator] <+: base ++ path separator names ++ separator :: file) :
    p ∈ below separator base names := by
  induction names generalizing base with
  | nil =>
      have hlength := h.length_le
      simp only [path_nil, List.append_nil, List.length_append, List.length_cons,
        List.length_nil] at hlength
      have hnot := not_isPrefix_of_not_mem (base ++ [separator]) [] p hfile
        (by rwa [List.length_append]) (by rw [List.length_append, List.length_singleton]; omega)
      exact absurd (by simpa using h) hnot
  | cons name names ih =>
      have hname := hnames name List.mem_cons_self
      have hwhole : base ++ path separator (name :: names) ++ separator :: file =
          (base ++ separator :: name) ++ path separator names ++ separator :: file := by
        simp
      rw [hwhole] at h
      rcases Nat.lt_trichotomy p.length (base ++ separator :: name).length with hlt | heq | hgt
      · rw [List.length_append, List.length_cons] at hlt
        have hnot := not_isPrefix_of_not_mem (base ++ [separator])
          (path separator names ++ separator :: file) p hname
          (by rwa [List.length_append]) (by rw [List.length_append, List.length_singleton]; omega)
        exact absurd (by simpa using h) hnot
      · have hp : p <+: base ++ separator :: name := by
          refine List.prefix_of_prefix_length_le ((List.prefix_append p _).trans h) ?_
            (Nat.le_of_eq heq)
          rw [List.append_assoc]
          exact List.prefix_append _ _
        exact List.mem_cons.mpr (.inl (hp.eq_of_length heq))
      · exact List.mem_cons_of_mem _
          (ih (fun name' hname' => hnames name' (List.mem_cons_of_mem _ hname')) hgt h)

end Directories
