/-
# `Lib.PrefixMap` — names whose beginning is replaced

A table lists prefixes and what is to stand in their place.  The best entry for
a name is the longest one that ends where a component of the name ends
(`Longest`).  A program that takes the first entry that is a prefix at all
(`convert`) finds the best one just if the others make no difference:
`converted_iff` for any order of the table, `whole_iff` for one order.
-/
import Mathlib.Data.List.MinMax
import Mathlib.Data.List.Nodup

namespace PrefixMap

variable {α : Type}

/-- A prefix, and what replaces it. -/
abbrev Entry (α : Type) := List α × List α

def replaced (e : Entry α) (name : List α) : List α := e.2 ++ name.drop e.1.length

/-- A prefix that ends where a component ends. -/
def Whole (separator : α) (key name : List α) : Prop :=
  ∃ rest, name = key ++ rest ∧ (rest = [] ∨ rest.head? = some separator)

variable (separator : α)

/-- The longest of the prefixes that end where a component ends. -/
structure Longest (table : List (Entry α)) (name : List α) (e : Entry α) : Prop where
  mem : e ∈ table
  whole : Whole separator e.1 name
  max : ∀ e' ∈ table, Whole separator e'.1 name → e'.1.length ≤ e.1.length

/-- What a name is to be converted to. -/
inductive Converted (table : List (Entry α)) (name : List α) : List α → Prop
  | replaced {e : Entry α} : Longest separator table name e → Converted table name (replaced e name)
  | unchanged : (∀ e ∈ table, ¬ Whole separator e.1 name) → Converted table name name

/-- Two entries for the same name: what the longer prefix has more, its replacement has more. -/
def Agree (e e' : Entry α) : Prop :=
  if e.1.length ≤ e'.1.length then e.2 ++ e'.1.drop e.1.length = e'.2
  else e.2 = e'.2 ++ e.1.drop e'.1.length

variable {separator} {table : List (Entry α)} {name : List α} {e e' : Entry α}

/-! ## Entries -/

theorem Whole.isPrefix {key : List α} (h : Whole separator key name) : key <+: name := by
  obtain ⟨rest, rfl, -⟩ := h
  exact List.prefix_append _ _

/-- The rest of a name behind a prefix of a prefix. -/
theorem drop_of_isPrefix {key key' : List α} (h' : key' <+: name) (hle : key.length ≤ key'.length) :
    name.drop key.length = key'.drop key.length ++ name.drop key'.length := by
  obtain ⟨rest, rfl⟩ := h'
  rw [List.drop_append_of_le_length hle, List.drop_left]

/-- **Two entries give the same name just if they agree.** -/
theorem replaced_eq_iff (h : e.1 <+: name) (h' : e'.1 <+: name) :
    replaced e name = replaced e' name ↔ Agree e e' := by
  unfold replaced Agree
  split
  next hle =>
    rw [drop_of_isPrefix h' hle, ← List.append_assoc]
    exact List.append_left_inj _
  next hlt =>
    rw [drop_of_isPrefix h (Nat.le_of_not_le hlt), ← List.append_assoc]
    exact List.append_left_inj _

theorem replaced_eq_self_iff (h : e.1 <+: name) : replaced e name = name ↔ e.2 = e.1 := by
  obtain ⟨rest, rfl⟩ := h
  rw [replaced, List.drop_left]
  exact List.append_left_inj _

theorem exists_longest (h : ∃ e ∈ table, Whole separator e.1 name) :
    ∃ e, Longest separator table name e := by
  classical
  obtain ⟨e, he, hwhole⟩ := h
  let whole := table.filter fun e => Whole separator e.1 name
  have hmem : ∀ e, e ∈ whole ↔ e ∈ table ∧ Whole separator e.1 name := by
    intro e
    simp [whole]
  cases hmax : whole.argmax fun e => e.1.length with
  | none =>
      rw [List.argmax_eq_none] at hmax
      exact absurd ((hmem e).mpr ⟨he, hwhole⟩) (hmax ▸ List.not_mem_nil)
  | some best =>
      obtain ⟨hin, hbest⟩ := (hmem best).mp (List.argmax_mem hmax)
      exact ⟨best, hin, hbest, fun e' he' hwhole' =>
        List.le_of_mem_argmax (f := fun e : Entry α => e.1.length) ((hmem e').mpr ⟨he', hwhole'⟩) hmax⟩

theorem Longest.unique (hkeys : (table.map Prod.fst).Nodup) (h : Longest separator table name e)
    (h' : Longest separator table name e') : e = e' := by
  have hlength : e.1.length = e'.1.length :=
    Nat.le_antisymm (h'.max e h.mem h.whole) (h.max e' h'.mem h'.whole)
  have hkey : e.1 = e'.1 :=
    (List.prefix_of_prefix_length_le h.whole.isPrefix h'.whole.isPrefix hlength.le).eq_of_length hlength
  exact List.inj_on_of_nodup_map hkeys h.mem h'.mem hkey

/-! ## The first hit -/

variable [DecidableEq α]

instance (e e' : Entry α) : Decidable (Agree e e') := by
  unfold Agree
  infer_instance

/-- The first entry that is a prefix. -/
def firstHit (table : List (Entry α)) (name : List α) : Option (Entry α) :=
  table.find? fun e => e.1.isPrefixOf name

def convert (table : List (Entry α)) (name : List α) : List α :=
  match firstHit table name with
  | none => name
  | some e => replaced e name

theorem firstHit_some (h : firstHit table name = some e) : e ∈ table ∧ e.1 <+: name := by
  unfold firstHit at h
  have hbegins := List.find?_some h
  exact ⟨List.mem_of_find?_eq_some h, List.isPrefixOf_iff_prefix.mp hbegins⟩

theorem firstHit_none (h : firstHit table name = none) : ∀ e ∈ table, ¬ e.1 <+: name := by
  intro e he hbegins
  exact List.find?_eq_none.mp h e he (List.isPrefixOf_iff_prefix.mpr hbegins)

theorem convert_cons (h : e.1 <+: name) : convert (e :: table) name = replaced e name := by
  have hhit : firstHit (e :: table) name = some e :=
    List.find?_cons_of_pos (List.isPrefixOf_iff_prefix.mpr h)
  rw [convert, hhit]

/-- **In every order of the table** the first hit is as good as the longest just if every prefix
agrees with the longest, or changes nothing where there is none. -/
theorem converted_iff (hkeys : (table.map Prod.fst).Nodup) :
    (∀ order : List (Entry α), order.Perm table → Converted separator table name (convert order name)) ↔
      ∀ e ∈ table, e.1 <+: name →
        (∀ e', Longest separator table name e' → Agree e e') ∧
          ((∀ e' ∈ table, ¬ Whole separator e'.1 name) → e.2 = e.1) := by
  constructor
  · intro hall e he hbegins
    -- the order in which this entry comes first
    have hfirst := hall (e :: table.erase e) (List.perm_cons_erase he).symm
    rw [convert_cons hbegins] at hfirst
    generalize hr : replaced e name = r at hfirst
    cases hfirst with
    | replaced hlongest =>
        refine ⟨?_, fun hnone => absurd hlongest.whole (hnone _ hlongest.mem)⟩
        intro e' he'
        obtain rfl := hlongest.unique hkeys he'
        exact (replaced_eq_iff hbegins hlongest.whole.isPrefix).mp hr
    | unchanged hnone =>
        exact ⟨fun e' he' => absurd he'.whole (hnone e' he'.mem),
          fun _ => (replaced_eq_self_iff hbegins).mp hr⟩
  · intro hall order horder
    unfold convert
    cases hhit : firstHit order name with
    | none =>
        refine .unchanged fun e he hwhole => ?_
        exact firstHit_none hhit e (horder.mem_iff.mpr he) hwhole.isPrefix
    | some e =>
        obtain ⟨he, hbegins⟩ := firstHit_some hhit
        obtain ⟨hagree, hself⟩ := hall e (horder.mem_iff.mp he) hbegins
        show Converted separator table name (replaced e name)
        by_cases hwhole : ∃ e ∈ table, Whole separator e.1 name
        · obtain ⟨best, hbest⟩ := exists_longest hwhole
          rw [(replaced_eq_iff hbegins hbest.whole.isPrefix).mpr (hagree best hbest)]
          exact .replaced hbest
        · have hnone : ∀ e ∈ table, ¬ Whole separator e.1 name :=
            fun e he h => hwhole ⟨e, he, h⟩
          rw [(replaced_eq_self_iff hbegins).mpr (hself hnone)]
          exact .unchanged hnone

/-- **In one order** a prefix is replaced only where a component ends just if the first hit is such
a prefix, agrees with one or changes nothing. -/
theorem whole_iff :
    (convert table name = name ∨
        ∃ e ∈ table, Whole separator e.1 name ∧ convert table name = replaced e name) ↔
      ∀ e, firstHit table name = some e →
        e.2 = e.1 ∨ ∃ e' ∈ table, Whole separator e'.1 name ∧ Agree e e' := by
  unfold convert
  cases hhit : firstHit table name with
  | none => exact ⟨fun _ _ h => absurd h.symm (Option.some_ne_none _), fun _ => .inl rfl⟩
  | some e =>
      obtain ⟨-, hbegins⟩ := firstHit_some hhit
      have hagree : ∀ e', Whole separator e'.1 name →
          (replaced e name = replaced e' name ↔ Agree e e') :=
        fun e' h => replaced_eq_iff hbegins h.isPrefix
      simp only [replaced_eq_self_iff hbegins, Option.some.injEq, forall_eq']
      constructor
      · rintro (hself | ⟨e', he', hwhole, heq⟩)
        · exact .inl hself
        · exact .inr ⟨e', he', hwhole, (hagree e' hwhole).mp heq⟩
      · rintro (hself | ⟨e', he', hwhole, heq⟩)
        · exact .inl hself
        · exact .inr ⟨e', he', hwhole, (hagree e' hwhole).mpr heq⟩

end PrefixMap
