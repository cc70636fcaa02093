/-
# `Lib.Monitors` — threads and the monitors they are in

A thread that runs structured code is in a nest of blocks, each with its
monitor.  `Code` is what it has still to run: the rest of the block it is in,
and for each block around that one its monitor and what comes after the block.
So what a thread holds can be read off its code.  The owner of a monitor is kept
beside it, for a thread looks only at the owner before it enters; `Owned` says
that the two agree.

Monitors are reentrant.  A thread that leaves a block keeps the monitor as long
as a block around it has the same one.

Threads wait for one another in a circle only where someone waits out of order:
`no_cycle`.
-/
import Mathlib.Logic.Function.Basic
import Mathlib.Logic.Relation
import Mathlib.Order.Basic

namespace Monitors

/-- What a thread has still to run: operations of the innermost block, and the blocks around,
innermost first, each with what follows it. -/
structure Code (μ ω : Type) where
  ops : List ω
  blocks : List (μ × List ω) := []

/-- The monitors of the blocks. -/
def Code.held {μ ω : Type} (c : Code μ ω) : List μ := c.blocks.map Prod.fst

structure Threads (θ μ ω : Type) where
  owner : μ → Option θ
  code : θ → Code μ ω

namespace Threads

variable {θ μ ω : Type} [DecidableEq θ] [DecidableEq μ]

/-- The thread goes on with other operations in the same blocks. -/
def setCode (s : Threads θ μ ω) (t : θ) (code : Code μ ω) : Threads θ μ ω :=
  { s with code := Function.update s.code t code }

/-- The thread enters a block, if no other thread is in its monitor. -/
def enter (s : Threads θ μ ω) (t : θ) (m : μ) (body rest : List ω) : Option (Threads θ μ ω) :=
  if s.owner m = none ∨ s.owner m = some t then
    some
      { owner := Function.update s.owner m (some t)
        code := Function.update s.code t ⟨body, (m, rest) :: (s.code t).blocks⟩ }
  else none

/-- The thread leaves its innermost block. -/
def leave (s : Threads θ μ ω) (t : θ) (m : μ) (ops : List ω) (blocks : List (μ × List ω)) :
    Threads θ μ ω :=
  { owner := Function.update s.owner m (if m ∈ blocks.map Prod.fst then some t else none)
    code := Function.update s.code t ⟨ops, blocks⟩ }

/-- Who owns a monitor is in a block of it, and nobody else is. -/
def Owned (s : Threads θ μ ω) : Prop := ∀ m t, s.owner m = some t ↔ m ∈ (s.code t).held

section Owned
variable {s : Threads θ μ ω} {t : θ} {m : μ}

omit [DecidableEq θ] [DecidableEq μ] in
theorem Owned.unique (h : s.Owned) {t' : θ} (ht : m ∈ (s.code t).held)
    (ht' : m ∈ (s.code t').held) : t = t' :=
  Option.some.inj (((h m t).mpr ht).symm.trans ((h m t').mpr ht'))

omit [DecidableEq μ] in
theorem Owned.setCode (h : s.Owned) {code : Code μ ω} (hheld : code.held = (s.code t).held) :
    (s.setCode t code).Owned := by
  intro m t'
  show s.owner m = some t' ↔ m ∈ (Function.update s.code t code t').held
  by_cases ht : t' = t
  · subst ht
    rw [Function.update_self, hheld]
    exact h m t'
  · rw [Function.update_of_ne ht]
    exact h m t'

theorem Owned.enter (h : s.Owned) {body rest : List ω} {s' : Threads θ μ ω}
    (he : s.enter t m body rest = some s') : s'.Owned := by
  rw [Threads.enter, Option.ite_none_right_eq_some] at he
  obtain ⟨hfree, he⟩ := he
  obtain rfl := Option.some.inj he
  intro m' t'
  show Function.update s.owner m (some t) m' = some t' ↔
    m' ∈ (Function.update s.code t ⟨body, (m, rest) :: (s.code t).blocks⟩ t').held
  by_cases hm : m' = m
  · subst hm
    rw [Function.update_self]
    constructor
    · intro ht
      obtain rfl := Option.some.inj ht
      rw [Function.update_self]
      exact List.mem_cons_self
    · intro hmem
      by_cases ht : t' = t
      · rw [ht]
      · rw [Function.update_of_ne ht] at hmem
        have howner := (h m' t').mpr hmem
        rcases hfree with hnone | hown
        · exact absurd (hnone.symm.trans howner) nofun
        · exact hown.symm.trans howner
  · rw [Function.update_of_ne hm]
    by_cases ht : t' = t
    · subst ht
      rw [Function.update_self, h m' t']
      show m' ∈ (s.code t').held ↔ m' ∈ m :: (s.code t').held
      rw [List.mem_cons, or_iff_right hm]
    · rw [Function.update_of_ne ht]
      exact h m' t'

theorem Owned.leave (h : s.Owned) {ops rest : List ω} {blocks : List (μ × List ω)}
    (hcode : (s.code t).blocks = (m, rest) :: blocks) : (s.leave t m ops blocks).Owned := by
  have hheld : (s.code t).held = m :: blocks.map Prod.fst := by rw [Code.held, hcode]; rfl
  intro m' t'
  show Function.update s.owner m (if m ∈ blocks.map Prod.fst then some t else none) m' = some t' ↔
    m' ∈ (Function.update s.code t ⟨ops, blocks⟩ t').held
  by_cases hm : m' = m
  · subst hm
    rw [Function.update_self]
    by_cases ht : t' = t
    · subst ht
      rw [Function.update_self]
      show _ ↔ m' ∈ blocks.map Prod.fst
      split
      · next hin => exact ⟨fun _ => hin, fun _ => rfl⟩
      · next hout => exact ⟨fun hno => absurd hno nofun, fun hin => absurd hin hout⟩
    · -- nobody else is in a block of it
      rw [Function.update_of_ne ht]
      have hown : s.owner m' = some t := (h m' t).mpr (by rw [hheld]; exact List.mem_cons_self)
      have hno : m' ∉ (s.code t').held := by
        intro hin
        exact ht (h.unique hin ((h m' t).mp hown))
      refine ⟨fun howner => ?_, fun hin => absurd hin hno⟩
      split at howner
      · exact absurd (Option.some.inj howner).symm ht
      · cases howner
  · rw [Function.update_of_ne hm, h m' t']
    by_cases ht : t' = t
    · subst ht
      rw [Function.update_self, hheld]
      show m' ∈ m :: _ ↔ m' ∈ blocks.map Prod.fst
      rw [List.mem_cons, or_iff_right hm]
    · rw [Function.update_of_ne ht]

end Owned

/-! ## Waiting -/

section Waiting
variable (wants : ω → Option μ)

/-- The thread is about to enter a block of the monitor. -/
def AtMonitor (s : Threads θ μ ω) (t : θ) (m : μ) : Prop :=
  ((s.code t).ops.head?.bind wants) = some m

/-- The thread waits for a monitor that the other is in. -/
def WaitsFor (s : Threads θ μ ω) (t t' : θ) : Prop :=
  t' ≠ t ∧ ∃ m, s.AtMonitor wants t m ∧ s.owner m = some t'

/-- No circle of threads each waiting for the next. -/
def NoCycle (s : Threads θ μ ω) : Prop := ∀ t, ¬ Relation.TransGen (s.WaitsFor wants) t t

/-- Who waits is in monitors of lower rank only. -/
def InOrder {ρ : Type} [LT ρ] (rank : μ → ρ) (s : Threads θ μ ω) : Prop :=
  ∀ t m, s.AtMonitor wants t m → s.owner m ≠ none → s.owner m ≠ some t →
    ∀ m' ∈ (s.code t).held, rank m' < rank m

variable {wants} {ρ : Type} [Preorder ρ] {rank : μ → ρ} {s : Threads θ μ ω}

omit [DecidableEq θ] [DecidableEq μ] in
/-- Along a chain of waiting threads the ranks grow. -/
theorem rank_of_chain (howned : s.Owned) (horder : s.InOrder wants rank) {t t' : θ}
    (h : Relation.TransGen (s.WaitsFor wants) t t') :
    ∃ m m', s.AtMonitor wants t m ∧ s.owner m ≠ none ∧ s.owner m ≠ some t ∧
      m' ∈ (s.code t').held ∧ rank m ≤ rank m' := by
  induction h with
  | single h =>
      obtain ⟨hne, m, hat, howner⟩ := h
      refine ⟨m, m, hat, ?_, ?_, (howned m _).mp howner, le_rfl⟩
      · rw [howner]
        nofun
      · rw [howner]
        exact fun he => hne (Option.some.inj he)
  | tail _ h ih =>
      obtain ⟨m, m', hat, hsome, hother, hm', hle⟩ := ih
      obtain ⟨hne, m₂, hat₂, howner₂⟩ := h
      refine ⟨m, m₂, hat, hsome, hother, (howned m₂ _).mp howner₂, hle.trans (le_of_lt ?_)⟩
      refine horder _ m₂ hat₂ ?_ ?_ m' hm'
      · rw [howner₂]
        nofun
      · rw [howner₂]
        exact fun he => hne (Option.some.inj he)

omit [DecidableEq θ] [DecidableEq μ] in
/-- **Threads that wait in order wait in no circle.** -/
theorem no_cycle (howned : s.Owned) (horder : s.InOrder wants rank) : s.NoCycle wants := by
  intro t h
  obtain ⟨m, m', hat, hsome, hother, hm', hle⟩ := rank_of_chain howned horder h
  exact absurd (horder t m hat hsome hother m' hm') (not_lt_of_ge hle)

end Waiting

end Threads

end Monitors
