/-
# `Lib.Machine` — systems that take one step at a time

Several threads that run at once are one machine whose next step is any step of
any of them.  An `action` says which thread moves and how the choices that the
program leaves open are made, so that `next` is a function: `none` where the
thread cannot move, because it is blocked or has nothing to do.  A schedule is
a list of actions, and `run` executes it.

What is proved of every run is proved of `Reachable`, by `Reachable.invariant`:
it holds at the start and no step breaks it.  A statement may be about the runs
whose steps all meet a condition `ok` on the state before the step.  With no
condition they are all runs (`AnyStep`).
-/
import Mathlib.Order.Defs.Unbundled

/-- A system with the states it may start in and its steps. -/
structure Machine (σ α : Type) where
  init : σ → Prop
  next : σ → α → Option σ

namespace Machine

variable {σ α : Type} (M : Machine σ α)

/-- The state after a schedule. -/
def run : List α → σ → Option σ
  | [], s => some s
  | a :: as, s => (M.next s a).bind (run as)

/-- States that are reached from one state by steps that meet a condition. -/
inductive Steps (ok : σ → α → Prop) (s : σ) : σ → Prop
  | refl : Steps ok s s
  | step {s' s'' : σ} {a : α} : Steps ok s s' → ok s' a → M.next s' a = some s'' → Steps ok s s''

/-- States that are reached from the start by steps that meet a condition. -/
def Reachable (ok : σ → α → Prop) (s : σ) : Prop := ∃ s₀, M.init s₀ ∧ M.Steps ok s₀ s

/-- No condition. -/
abbrev AnyStep : σ → α → Prop := fun _ _ => True

/-- The steps of a schedule meet a condition. -/
def Meets (ok : σ → α → Prop) : List α → σ → Prop
  | [], _ => True
  | a :: as, s => ok s a ∧ match M.next s a with
      | some s' => Meets ok as s'
      | none => True

instance (ok : σ → α → Prop) [∀ s a, Decidable (ok s a)] :
    ∀ (as : List α) (s : σ), Decidable (M.Meets ok as s)
  | [], _ => .isTrue trivial
  | a :: as, s =>
      have : Decidable (match M.next s a with
          | some s' => M.Meets ok as s'
          | none => True) := match M.next s a with
        | some s' => instDecidableMeets ok as s'
        | none => .isTrue trivial
      inferInstanceAs (Decidable (ok s a ∧ _))

variable {M} {ok : σ → α → Prop}

theorem Steps.trans {s s' s'' : σ} (h : M.Steps ok s s') (h' : M.Steps ok s' s'') :
    M.Steps ok s s'' := by
  induction h' with
  | refl => exact h
  | step _ hok hnext ih => exact ih.step hok hnext

theorem Reachable.init {s : σ} (h : M.init s) : M.Reachable ok s := ⟨s, h, .refl⟩

theorem Reachable.step {s s' : σ} {a : α} (h : M.Reachable ok s) (hok : ok s a)
    (hnext : M.next s a = some s') : M.Reachable ok s' := by
  obtain ⟨s₀, hinit, hsteps⟩ := h
  exact ⟨s₀, hinit, hsteps.step hok hnext⟩

theorem Reachable.steps {s s' : σ} (h : M.Reachable ok s) (hs : M.Steps ok s s') :
    M.Reachable ok s' := by
  induction hs with
  | refl => exact h
  | step _ hok hnext ih => exact ih.step hok hnext

/-- **The invariant rule.** -/
theorem Reachable.invariant {P : σ → Prop} (hinit : ∀ s, M.init s → P s)
    (hstep : ∀ s a s', P s → ok s a → M.next s a = some s' → P s') {s : σ}
    (h : M.Reachable ok s) : P s := by
  obtain ⟨s₀, hs₀, hsteps⟩ := h
  induction hsteps with
  | refl => exact hinit s₀ hs₀
  | step _ hok hnext ih => exact hstep _ _ _ ih hok hnext

theorem Reachable.run : ∀ {as : List α} {s s' : σ}, M.Reachable ok s → M.Meets ok as s →
    M.run as s = some s' → M.Reachable ok s'
  | [], s, s', h, _, hrun => by
      obtain rfl := Option.some.inj hrun
      exact h
  | a :: as, s, s', h, hmeets, hrun => by
      obtain ⟨s₁, hnext, hrest⟩ := Option.bind_eq_some_iff.mp hrun
      rw [Meets, hnext] at hmeets
      exact Reachable.run (h.step hmeets.1 hnext) hmeets.2 hrest

theorem meets_anyStep : ∀ (as : List α) (s : σ), M.Meets AnyStep as s
  | [], _ => trivial
  | a :: as, s => by
      refine ⟨trivial, ?_⟩
      cases M.next s a with
      | none => trivial
      | some s' => exact meets_anyStep as s'

/-- A machine that is never blocked where an invariant holds runs every schedule from there. -/
theorem exists_run_of {I : σ → Prop} (h : ∀ s a, I s → ∃ s', M.next s a = some s' ∧ I s') :
    ∀ (as : List α) (s : σ), I s → ∃ s', M.run as s = some s' ∧ I s' := by
  intro as
  induction as with
  | nil => exact fun s hs => ⟨s, rfl, hs⟩
  | cons a as ih =>
      intro s hs
      obtain ⟨s₁, hnext, hs₁⟩ := h s a hs
      obtain ⟨s', hrun, hs'⟩ := ih s₁ hs₁
      exact ⟨s', by rw [run, hnext, Option.bind_some, hrun], hs'⟩

/-- A machine that is never blocked runs every schedule. -/
theorem exists_run (h : ∀ s a, (M.next s a).isSome) (as : List α) (s : σ) :
    ∃ s', M.run as s = some s' := by
  have hnext (s : σ) (a : α) : True → ∃ s', M.next s a = some s' ∧ True := by
    intro htrue
    obtain ⟨s', hs'⟩ := Option.isSome_iff_exists.mp (h s a)
    exact ⟨s', hs', htrue⟩
  obtain ⟨s', hrun, -⟩ := exists_run_of hnext as s trivial
  exact ⟨s', hrun⟩

/-- What each step brings just if it meets a condition, a run brings just if its steps do. -/
theorem run_meets_iff {I P : σ → Prop} (hstep : ∀ s a s', I s → M.next s a = some s' →
    I s' ∧ (P s' ↔ P s ∧ ok s a)) : ∀ {as : List α} {s s' : σ}, I s → M.run as s = some s' →
      (P s' ↔ P s ∧ M.Meets ok as s)
  | [], s, s', _, hrun => by
      obtain rfl := Option.some.inj hrun
      exact ⟨fun h => ⟨h, trivial⟩, fun h => h.1⟩
  | a :: as, s, s', hinv, hrun => by
      obtain ⟨s₁, hnext, hrest⟩ := Option.bind_eq_some_iff.mp hrun
      obtain ⟨hinv₁, hone⟩ := hstep s a s₁ hinv hnext
      have hmeets : M.Meets ok (a :: as) s ↔ ok s a ∧ M.Meets ok as s₁ := by
        rw [Meets, hnext]
      rw [run_meets_iff hstep hinv₁ hrest, hone, hmeets, and_assoc]

/-- Conditions that are the same where the invariant holds. -/
theorem meets_congr {ok' : σ → α → Prop} {I : σ → Prop}
    (hstep : ∀ s a s', I s → M.next s a = some s' → I s') (h : ∀ s a, I s → (ok s a ↔ ok' s a)) :
    ∀ {as : List α} {s : σ}, I s → (M.Meets ok as s ↔ M.Meets ok' as s) := by
  intro as
  induction as with
  | nil => exact fun _ => Iff.rfl
  | cons a as ih =>
      intro s hs
      rw [Meets, Meets]
      refine and_congr (h s a hs) ?_
      cases hnext : M.next s a with
      | none => exact Iff.rfl
      | some s' => exact ih (hstep s a s' hs hnext)

/-- `P` holds in every state of the run of a schedule. -/
def Throughout (M : Machine σ α) (P : σ → Prop) : List α → σ → Prop
  | [], s => P s
  | a :: as, s => P s ∧ match M.next s a with
      | some s' => Throughout M P as s'
      | none => True

theorem Throughout.run {P : σ → Prop} : ∀ {as : List α} {s s' : σ}, M.Throughout P as s →
    M.run as s = some s' → P s'
  | [], _, _, h, hrun => by
      obtain rfl := Option.some.inj hrun
      exact h
  | a :: as, _, _, h, hrun => by
      obtain ⟨s₁, hnext, hrest⟩ := Option.bind_eq_some_iff.mp hrun
      rw [Throughout, hnext] at h
      exact Throughout.run h.2 hrest

/-- What follows from an invariant holds all along, if each step meets what keeps the invariant. -/
theorem throughout_of_meets {I P : σ → Prop} (hinv : ∀ s, I s → P s)
    (hstep : ∀ s a s', I s → ok s a → M.next s a = some s' → I s') :
    ∀ {as : List α} {s : σ}, I s → M.Meets ok as s → M.Throughout P as s := by
  intro as
  induction as with
  | nil => exact fun hs _ => hinv _ hs
  | cons a as ih =>
      intro s hs hmeets
      rw [Meets] at hmeets
      rw [Throughout]
      refine ⟨hinv s hs, ?_⟩
      cases hnext : M.next s a with
      | none => exact True.intro
      | some s' =>
          rw [hnext] at hmeets
          exact ih (hstep s a s' hs hmeets.1 hnext) hmeets.2

theorem throughout_of_invariant {I P : σ → Prop} (hinv : ∀ s, I s → P s)
    (hstep : ∀ s a s', I s → M.next s a = some s' → I s') {as : List α} {s : σ} (hs : I s) :
    M.Throughout P as s :=
  throughout_of_meets hinv (fun s a s' h _ hnext => hstep s a s' h hnext) hs (meets_anyStep as s)

/-- Where a step that meets the condition keeps the invariant and any other breaks `P`, `P` holds
all along just if every step meets it. -/
theorem throughout_iff_meets {I P : σ → Prop} (hinv : ∀ s, I s → P s)
    (hstep : ∀ s a s', I s → M.next s a = some s' → (ok s a → I s') ∧ (P s' → ok s a)) :
    ∀ {as : List α} {s s' : σ}, I s → M.run as s = some s' →
      (M.Throughout P as s ↔ M.Meets ok as s)
  | [], s, _, hs, _ => ⟨fun _ => trivial, fun _ => hinv s hs⟩
  | a :: as, s, s', hs, hrun => by
      obtain ⟨s₁, hnext, hrest⟩ := Option.bind_eq_some_iff.mp hrun
      obtain ⟨hkeep, hneed⟩ := hstep s a s₁ hs hnext
      rw [Throughout, Meets, hnext]
      constructor
      · rintro ⟨-, hall⟩
        have hs₁ : P s₁ := by
          cases as with
          | nil => exact hall
          | cons b bs => exact hall.1
        have hok : ok s a := hneed hs₁
        exact ⟨hok, (throughout_iff_meets hinv hstep (hkeep hok) hrest).mp hall⟩
      · rintro ⟨hok, hmeets⟩
        exact ⟨hinv s hs, (throughout_iff_meets hinv hstep (hkeep hok) hrest).mpr hmeets⟩

/-- A condition on the actions alone, along a schedule that can be run. -/
theorem meets_iff_forall {p : α → Prop} : ∀ {as : List α} {s s' : σ}, M.run as s = some s' →
    (M.Meets (fun _ a => p a) as s ↔ ∀ a ∈ as, p a)
  | [], _, _, _ => ⟨fun _ => List.forall_mem_nil p, fun _ => trivial⟩
  | a :: as, s, s', hrun => by
      obtain ⟨s₁, hnext, hrest⟩ := Option.bind_eq_some_iff.mp hrun
      rw [Meets, hnext, List.forall_mem_cons]
      exact and_congr_right fun _ => meets_iff_forall hrest

/-- The machine with a record of what has happened, which no step reads. -/
def recording {η : Type} (M : Machine σ α) (empty : η) (record : η → σ → α → σ → η) :
    Machine (σ × η) α where
  init x := M.init x.1 ∧ x.2 = empty
  next x a := (M.next x.1 a).map fun s' => (s', record x.2 x.1 a s')

theorem of_recording_next {η : Type} {empty : η} {record : η → σ → α → σ → η} {x x' : σ × η} {a : α}
    (h : (M.recording empty record).next x a = some x') :
    M.next x.1 a = some x'.1 ∧ x'.2 = record x.2 x.1 a x'.1 := by
  obtain ⟨s', hs', rfl⟩ := Option.map_eq_some_iff.mp h
  exact ⟨hs', rfl⟩

/-- A schedule that starts at the start ends in a reachable state. -/
theorem reachable_of_run {as : List α} {s s' : σ} (hinit : M.init s) (hrun : M.run as s = some s') :
    M.Reachable AnyStep s' := (Reachable.init hinit).run (meets_anyStep as s) hrun

end Machine
