/-
# `Lib.While` — loops that may not end

`While cond body s visited s'` is a derivation that a loop, started in `s`, ends
in `s'`, and that it went through its body in the states `visited`.  A loop that
goes on for ever has none.

The rules are those for total correctness: an invariant holds in every state
that was visited and in the last (`While.invariant`), and where a number gets
less in each round, there is a derivation (`While.exists_of_variant`).
-/
import Mathlib.Order.Defs.Unbundled

/-- The loop ends. -/
inductive While {σ : Type} (cond : σ → Prop) (body : σ → σ) : σ → List σ → σ → Prop
  | done {s : σ} : ¬ cond s → While cond body s [] s
  | again {s s' : σ} {visited : List σ} : cond s → While cond body (body s) visited s' →
      While cond body s (s :: visited) s'

namespace While

variable {σ : Type} {cond : σ → Prop} {body : σ → σ} {I : σ → Prop}

/-- There is one outcome at most. -/
theorem unique {s s₁ s₂ : σ} {visited₁ visited₂ : List σ} (h₁ : While cond body s visited₁ s₁)
    (h₂ : While cond body s visited₂ s₂) : visited₁ = visited₂ ∧ s₁ = s₂ := by
  induction h₁ generalizing visited₂ with
  | done hnot =>
      cases h₂ with
      | done _ => exact ⟨rfl, rfl⟩
      | again hcond _ => exact absurd hcond hnot
  | again hcond _ ih =>
      cases h₂ with
      | done hnot => exact absurd hcond hnot
      | again _ hrest =>
          obtain ⟨rfl, rfl⟩ := ih hrest
          exact ⟨rfl, rfl⟩

/-- **What each round keeps.** -/
theorem invariant {s s' : σ} {visited : List σ} (h : While cond body s visited s') (hs : I s)
    (hbody : ∀ s, I s → cond s → I (body s)) :
    (I s' ∧ ¬ cond s') ∧ ∀ x ∈ visited, I x ∧ cond x := by
  induction h with
  | done hnot => exact ⟨⟨hs, hnot⟩, List.forall_mem_nil _⟩
  | again hcond _ ih =>
      obtain ⟨hend, hvisited⟩ := ih (hbody _ hs hcond)
      exact ⟨hend, List.forall_mem_cons.mpr ⟨⟨hs, hcond⟩, hvisited⟩⟩

/-- **A loop that ends**, since a number gets less in each round. -/
theorem exists_of_variant (variant : σ → Nat)
    (hbody : ∀ s, I s → cond s → I (body s) ∧ variant (body s) < variant s) {s : σ} (hs : I s) :
    ∃ visited s', While cond body s visited s' := by
  induction hn : variant s using Nat.strongRecOn generalizing s with
  | ind n ih =>
      by_cases hcond : cond s
      · obtain ⟨hkeep, hless⟩ := hbody s hs hcond
        obtain ⟨visited, s', hrest⟩ := ih _ (hn ▸ hless) hkeep rfl
        exact ⟨s :: visited, s', .again hcond hrest⟩
      · exact ⟨[], s, .done hcond⟩

end While
