/-
# `Client.Monitor` — exclusions

A monitor keeps its exclusions by event type.  An event is allowed if an
exclusion that allows it matches and none that disallows it does, so the order
in which the exclusions were added is of no account (`deny_overrides`).

Boost's regular expressions are two parameters: `compile`, which throws for an
expression that is not valid, and `regexMatch`, both ignoring case.
-/
import CaptureHpc.Client.Url

namespace CaptureHpc.Client

/-! ## Wide strings -/

/-- `L"..."`. -/
def wideLiteral (s : String) : WString := s.toList.map Char.toNat

/-- `towlower` in the locale of a program that sets none. -/
def towlower (wch : Nat) : Nat := if 65 ≤ wch ∧ wch ≤ 90 then wch + 32 else wch

/-- `std::transform` with `towlower`. -/
def lower (w : WString) : WString := w.map towlower

/-- `c_str()`, as far as its readers read it. -/
def cStr (w : WString) : WString := w.takeWhile (· ≠ 0)

theorem towlower_idem (wch : Nat) : towlower (towlower wch) = towlower wch := by
  unfold towlower
  split_ifs <;> omega

theorem lower_idem (w : WString) : lower (lower w) = lower w := by
  simp [lower, towlower_idem]

/-! ## Permissions -/

/-- `PERMISSION_CLASSIFICATION`. -/
inductive Classification where
  | noMatch
  | allowed
  | disallowed
  deriving DecidableEq

structure Permission (ρ : Type) where
  subjects : List ρ
  objects : List ρ
  allow : Bool
  permaneant : Bool

namespace Permission
variable {ρ : Type} (regexMatch : ρ → WString → Bool)

/-- The loop over the objects. -/
def checkObjects (allow : Bool) (object : WString) : List ρ → Classification
  | [] => .noMatch
  | r :: objects =>
      if regexMatch r (cStr object) then if allow then .allowed else .disallowed
      else checkObjects allow object objects

/-- `Permission::Check`. -/
def check (p : Permission ρ) (subject object : WString) : Classification :=
  let found := p.subjects.foldl (fun found r => if regexMatch r (cStr subject) then true else found)
    false
  if !found then .noMatch
  else checkObjects regexMatch p.allow object p.objects

/-- A subject of the permission matches, and an object. -/
def Matches (p : Permission ρ) (subject object : WString) : Prop :=
  (∃ r ∈ p.subjects, regexMatch r (cStr subject) = true) ∧
    ∃ r ∈ p.objects, regexMatch r (cStr object) = true

theorem found_iff (subject : WString) (subjects : List ρ) (found : Bool) :
    subjects.foldl (fun found r => if regexMatch r (cStr subject) then true else found) found = true ↔
      found = true ∨ ∃ r ∈ subjects, regexMatch r (cStr subject) = true := by
  induction subjects generalizing found with
  | nil => simp
  | cons r subjects ih =>
      rw [List.foldl_cons, ih]
      cases hr : regexMatch r (cStr subject) with
      | true => simp [hr]
      | false => simp [hr]

theorem checkObjects_eq (allow : Bool) (object : WString) (objects : List ρ) :
    ((∃ r ∈ objects, regexMatch r (cStr object) = true) →
      checkObjects regexMatch allow object objects = if allow then .allowed else .disallowed) ∧
    ((¬ ∃ r ∈ objects, regexMatch r (cStr object) = true) →
      checkObjects regexMatch allow object objects = .noMatch) := by
  induction objects with
  | nil => simp [checkObjects]
  | cons r objects ih =>
      rw [checkObjects]
      cases hr : regexMatch r (cStr object) with
      | true => simp [hr]
      | false => simpa [hr] using ih

/-- **What `Check` says**: which way the permission goes, if it matches. -/
theorem check_eq (p : Permission ρ) (subject object : WString) :
    (p.Matches regexMatch subject object →
      p.check regexMatch subject object = if p.allow then .allowed else .disallowed) ∧
    (¬ p.Matches regexMatch subject object → p.check regexMatch subject object = .noMatch) := by
  have hfound := found_iff regexMatch subject p.subjects false
  obtain ⟨hsome, hnone⟩ := checkObjects_eq regexMatch p.allow object p.objects
  constructor
  · rintro ⟨hsubject, hobject⟩
    rw [check, hfound.mpr (.inr hsubject)]
    exact hsome hobject
  · intro hnot
    by_cases hsubject : ∃ r ∈ p.subjects, regexMatch r (cStr subject) = true
    · rw [check, hfound.mpr (.inr hsubject)]
      exact hnone fun hobject => hnot ⟨hsubject, hobject⟩
    · have hfalse := Bool.eq_false_iff.mpr fun h => hsubject ((hfound.mp h).resolve_left nofun)
      rw [check, hfalse]
      rfl

end Permission

/-! ## The monitor -/

/-- `permissionMap`. -/
abbrev PermissionMap (ρ : Type) := List (WString × List (Permission ρ))

/-- The arguments of `addExclusion`. -/
structure Exclusion where
  excluded : WString
  action : WString
  subject : WString
  object : WString
  permaneant : Bool := false
  deriving DecidableEq

namespace Monitor
variable {ρ : Type} (regexMatch : ρ → WString → Bool) (compile : WString → Option ρ)

/-- One round of the loop in `isEventAllowed`. -/
def classify (excluded newExcluded : Classification) : Classification :=
  match newExcluded with
  | .allowed => if excluded ≠ .disallowed then .allowed else excluded
  | .disallowed => .disallowed
  | .noMatch => excluded

/-- `isEventAllowed`. -/
def isEventAllowed (permissionMap : PermissionMap ρ) (eventType subject object : WString) : Bool :=
  let excluded : Classification := match permissionMap.lookup (lower eventType) with
    | none => .noMatch
    | some lp =>
        lp.foldl (fun excluded p => classify excluded (p.check regexMatch subject object)) .noMatch
  excluded = .allowed

/-- `p->allow`; `memory` is what the new permission holds before it is set. -/
def allow (memory : Bool) (excluded : WString) : Bool :=
  if excluded = wideLiteral "yes" ∨ excluded = wideLiteral "+" then true
  else if excluded = wideLiteral "no" ∨ excluded = wideLiteral "-" then false
  else memory

/-- A list with the permission at its end, under its key. -/
def store (action : WString) (p : Permission ρ) : PermissionMap ρ → PermissionMap ρ
  | [] => [(action, [p])]
  | (key, lp) :: permissionMap =>
      if action = key then (key, lp ++ [p]) :: permissionMap
      else (key, lp) :: store action p permissionMap

/-- The permission that `addExclusion` makes; `none` is the exception of an expression that is not
valid. -/
def permission (memory : Bool) (e : Exclusion) : Option (Permission ρ) := do
  let subjectRegex ← compile (cStr e.subject)
  let objectRegex ← compile (cStr e.object)
  return { subjects := [subjectRegex], objects := [objectRegex], allow := allow memory e.excluded
           permaneant := e.permaneant }

/-- `addExclusion`. -/
def addExclusion (memory : Bool) (e : Exclusion) (permissionMap : PermissionMap ρ) :
    Option (PermissionMap ρ) := do
  let p ← permission compile memory e
  return store (lower e.action) p permissionMap

/-- Exclusions added one after the other, each with what its memory held. -/
def addAll (permissionMap : PermissionMap ρ) (calls : List (Exclusion × Bool)) : PermissionMap ρ :=
  calls.foldl (fun m c => (addExclusion compile c.2 c.1 m).getD m) permissionMap

/-! ### The permissions of a type -/

/-- The permissions that are stored under a key. -/
def stored (permissionMap : PermissionMap ρ) (key : WString) : List (Permission ρ) :=
  (permissionMap.lookup key).getD []

/-- The permission that an exclusion adds under a key. -/
def added (key : WString) (c : Exclusion × Bool) : Option (Permission ρ) :=
  if lower c.1.action = key then permission compile c.2 c.1 else none

variable {regexMatch} {compile}

theorem stored_store (action key : WString) (p : Permission ρ) (permissionMap : PermissionMap ρ) :
    stored (store action p permissionMap) key =
      stored permissionMap key ++ if action = key then [p] else [] := by
  induction permissionMap with
  | nil =>
      by_cases hkey : action = key
      · subst hkey
        simp [store, stored]
      · simp [store, stored, List.lookup_cons, beq_false_of_ne (Ne.symm hkey), hkey]
  | cons entry permissionMap ih =>
      obtain ⟨k, lp⟩ := entry
      unfold stored at ih ⊢
      rw [store]
      by_cases hk : action = k
      · subst hk
        by_cases hkey : action = key
        · subst hkey
          simp
        · simp [List.lookup_cons, beq_false_of_ne (Ne.symm hkey), hkey]
      · rw [if_neg hk]
        by_cases hkey : key = k
        · subst hkey
          simp [hk]
        · simpa [List.lookup_cons, beq_false_of_ne hkey] using ih

theorem stored_addAll (key : WString) (calls : List (Exclusion × Bool)) :
    ∀ permissionMap : PermissionMap ρ, stored (addAll compile permissionMap calls) key =
      stored permissionMap key ++ calls.filterMap (added compile key) := by
  induction calls with
  | nil =>
      intro permissionMap
      simp [addAll]
  | cons c calls ih =>
      intro permissionMap
      have hcons : addAll compile permissionMap (c :: calls) =
          addAll compile ((addExclusion compile c.2 c.1 permissionMap).getD permissionMap) calls :=
        rfl
      have hone : stored ((addExclusion compile c.2 c.1 permissionMap).getD permissionMap) key =
          stored permissionMap key ++ (added compile key c).toList := by
        unfold added addExclusion
        cases permission compile c.2 c.1 with
        | none => simp
        | some p =>
            by_cases hkey : lower c.1.action = key
            · simp [stored_store, hkey]
            · simp [stored_store, hkey]
      rw [hcons, ih, hone, List.filterMap_cons]
      cases added compile key c with
      | none => simp
      | some p => simp

/-! ### The decision -/

theorem foldl_classify (checks : List Classification) (excluded : Classification) :
    checks.foldl classify excluded =
      if .disallowed ∈ excluded :: checks then .disallowed
      else if .allowed ∈ excluded :: checks then .allowed
      else .noMatch := by
  induction checks generalizing excluded with
  | nil => cases excluded <;> rfl
  | cons c checks ih =>
      rw [List.foldl_cons, ih]
      cases excluded <;> cases c <;> simp [classify]

theorem allowed_iff_foldl (checks : List Classification) :
    checks.foldl classify .noMatch = .allowed ↔ .allowed ∈ checks ∧ .disallowed ∉ checks := by
  rw [foldl_classify]
  by_cases hdisallowed : .disallowed ∈ checks
  · simp [hdisallowed]
  · by_cases hallowed : .allowed ∈ checks
    · simp [hdisallowed, hallowed]
    · simp [hdisallowed, hallowed]

/-- A permission is found to go its way just if it matches. -/
theorem check_eq_iff (p : Permission ρ) (subject object : WString) :
    (p.check regexMatch subject object = .allowed ↔
      p.Matches regexMatch subject object ∧ p.allow = true) ∧
    (p.check regexMatch subject object = .disallowed ↔
      p.Matches regexMatch subject object ∧ p.allow = false) := by
  obtain ⟨hmatch, hnot⟩ := p.check_eq regexMatch subject object
  by_cases h : p.Matches regexMatch subject object
  · rw [hmatch h]
    cases p.allow <;> simp [h]
  · rw [hnot h]
    simp [h]

/-- **The decision**: a permission allows the event, and none disallows it. -/
theorem isEventAllowed_iff (permissionMap : PermissionMap ρ) (eventType subject object : WString) :
    isEventAllowed regexMatch permissionMap eventType subject object = true ↔
      (∃ p ∈ stored permissionMap (lower eventType),
        p.Matches regexMatch subject object ∧ p.allow = true) ∧
      ¬ ∃ p ∈ stored permissionMap (lower eventType),
        p.Matches regexMatch subject object ∧ p.allow = false := by
  have hfold : ∀ lp : List (Permission ρ),
      lp.foldl (fun excluded p => classify excluded (p.check regexMatch subject object)) .noMatch =
        .allowed ↔
      (∃ p ∈ lp, p.Matches regexMatch subject object ∧ p.allow = true) ∧
        ¬ ∃ p ∈ lp, p.Matches regexMatch subject object ∧ p.allow = false := by
    intro lp
    have hmap := allowed_iff_foldl (lp.map fun p => p.check regexMatch subject object)
    rw [List.foldl_map] at hmap
    rw [hmap, List.mem_map, List.mem_map]
    simp only [(check_eq_iff _ subject object).1, (check_eq_iff _ subject object).2]
  unfold isEventAllowed stored
  cases permissionMap.lookup (lower eventType) with
  | none => simp
  | some lp => simpa using hfold lp

/-- A call whose `excluded` is one of the four. -/
def Signed (e : Exclusion) : Prop :=
  e.excluded = wideLiteral "+" ∨ e.excluded = wideLiteral "yes" ∨
    e.excluded = wideLiteral "-" ∨ e.excluded = wideLiteral "no"

/-- What the memory held is of no account. -/
theorem allow_signed {e : Exclusion} (h : Signed e) (memory memory' : Bool) :
    allow memory e.excluded = allow memory' e.excluded := by
  obtain h | h | h | h := h
  · rw [h]
    rfl
  · rw [h]
    rfl
  · rw [h]
    rfl
  · rw [h]
    rfl

theorem added_signed {key : WString} {e : Exclusion} (h : Signed e) (memory memory' : Bool) :
    added compile key (e, memory) = added compile key (e, memory') := by
  simp only [added, permission, allow_signed h memory memory']

/-- **Deny overrides, in any order.**  The same calls in another order or more than once, whatever
the memory held, lead to the same decisions. -/
theorem deny_overrides (regexMatch : ρ → WString → Bool) (compile : WString → Option ρ)
    (calls : List (Exclusion × Bool)) (hsigned : ∀ c ∈ calls, Signed c.1)
    (eventType subject object : WString) :
    (isEventAllowed regexMatch (addAll compile [] calls) eventType subject object = true ↔
      (∃ p ∈ stored (addAll compile [] calls) (lower eventType),
        p.Matches regexMatch subject object ∧ p.allow = true) ∧
      ¬ ∃ p ∈ stored (addAll compile [] calls) (lower eventType),
        p.Matches regexMatch subject object ∧ p.allow = false) ∧
    ∀ calls' : List (Exclusion × Bool), (∀ e, e ∈ calls'.map Prod.fst ↔ e ∈ calls.map Prod.fst) →
      isEventAllowed regexMatch (addAll compile [] calls') eventType subject object =
        isEventAllowed regexMatch (addAll compile [] calls) eventType subject object := by
  refine ⟨isEventAllowed_iff _ eventType subject object, ?_⟩
  intro calls' hsame
  -- the same permissions are stored under every key
  have hmem : ∀ key p, p ∈ stored (addAll compile [] calls') key ↔
      p ∈ stored (addAll compile [] calls) key := by
    intro key p
    rw [stored_addAll, stored_addAll]
    simp only [stored, List.lookup_nil, Option.getD_none, List.nil_append, List.mem_filterMap]
    constructor
    · rintro ⟨⟨e, memory⟩, hc, hp⟩
      obtain ⟨⟨e', memory'⟩, hc', he⟩ :=
        List.mem_map.mp ((hsame e).mp (List.mem_map.mpr ⟨_, hc, rfl⟩))
      obtain rfl : e' = e := he
      exact ⟨_, hc', (added_signed (hsigned _ hc') memory' memory).trans hp⟩
    · rintro ⟨⟨e, memory⟩, hc, hp⟩
      obtain ⟨⟨e', memory'⟩, hc', he⟩ :=
        List.mem_map.mp ((hsame e).mpr (List.mem_map.mpr ⟨_, hc, rfl⟩))
      obtain rfl : e' = e := he
      exact ⟨_, hc', (added_signed (hsigned _ hc) memory' memory).trans hp⟩
  rw [Bool.eq_iff_iff, isEventAllowed_iff, isEventAllowed_iff]
  simp only [hmem]

/-- An expression of letters, and what it matches. -/
def literally (r text : WString) : Bool := lower r = lower text

/-- Writing is allowed to the program, but not to this file. -/
def written : List (Exclusion × Bool) :=
  [({ excluded := wideLiteral "+", action := wideLiteral "Write", subject := wideLiteral "word"
      object := wideLiteral "log" }, false),
    ({ excluded := wideLiteral "no", action := wideLiteral "write", subject := wideLiteral "Word"
       object := wideLiteral "log" }, true)]

theorem log_denied :
    isEventAllowed literally (addAll some [] written.reverse) (wideLiteral "write")
      (wideLiteral "word") (wideLiteral "LOG") = false := by
  have hsigned : ∀ c ∈ written, Signed c.1 := by
    intro c hc
    obtain rfl | rfl : c = written[0] ∨ c = written[1] := by simpa [written] using hc
    · exact .inl rfl
    · exact .inr (.inr (.inr rfl))
  have hsame := (deny_overrides literally some written hsigned (wideLiteral "write")
    (wideLiteral "word") (wideLiteral "LOG")).2 written.reverse (by simp)
  rw [hsame]
  decide +kernel

end Monitor

end CaptureHpc.Client
