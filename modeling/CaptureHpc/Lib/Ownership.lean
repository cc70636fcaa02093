/-
# `Lib.Ownership` — blocks that are held by keys and by pending contexts

Blocks are allocated one after the other and freed.  A key may hold a block,
and a context that is pending may refer to one.  A program that frees what a
key holds does not look at the pending contexts, and one that lets a key hold a
new block does not look at the old one: `Op` lists what such a program does.

`Kept` is what every operation keeps: no two keys hold the same block, and what
a key holds was not freed.  `Sound` says that nothing dangles and nothing is
lost, and `apply_sound_iff` says which operations keep that.
-/
import CaptureHpc.Lib.Machine
import Mathlib.Logic.Function.Basic

structure Ownership (κ : Type) where
  held : κ → Option Nat := fun _ => none
  pending : List Nat := []
  allocated : Nat := 0
  /-- How often a block was freed. -/
  frees : Nat → Nat := fun _ => 0

namespace Ownership

variable {κ : Type}

inductive Op (κ : Type) where
  | keep
  /-- A block is allocated, and nobody holds it. -/
  | leak
  /-- A block is allocated for a key, and for a pending context as well if it is lent. -/
  | give (k : κ) (lent : Bool)
  /-- What a key holds is freed. -/
  | drop (k : κ)
  /-- A pending context refers to what a key holds. -/
  | lend (k : κ)
  /-- A context is not pending any more. -/
  | settle (i : Nat)

def Live (s : Ownership κ) (c : Nat) : Prop := c < s.allocated ∧ s.frees c = 0

/-- Nothing dangles, nothing is freed twice, nothing is lost. -/
structure Sound (s : Ownership κ) : Prop where
  heldLive : ∀ k c, s.held k = some c → s.Live c
  pendingLive : ∀ c ∈ s.pending, s.Live c
  freedOnce : ∀ c, s.frees c ≤ 1
  freed : ∀ c < s.allocated, (∀ k, s.held k ≠ some c) → c ∉ s.pending → s.frees c = 1

/-- What every operation keeps. -/
structure Kept (s : Ownership κ) : Prop where
  heldLive : ∀ k c, s.held k = some c → s.Live c
  sole : ∀ k k' c, s.held k = some c → s.held k' = some c → k = k'
  pendingBound : ∀ c ∈ s.pending, c < s.allocated
  freedOnce : ∀ c, s.frees c ≤ 1
  unallocated : ∀ c, s.allocated ≤ c → s.frees c = 0

theorem Kept.init : ({} : Ownership κ).Kept where
  heldLive _ _ h := nomatch h
  sole _ _ _ h := nomatch h
  pendingBound _ h := nomatch h
  freedOnce _ := Nat.zero_le 1
  unallocated _ _ := rfl

theorem Sound.init : ({} : Ownership κ).Sound where
  heldLive _ _ h := nomatch h
  pendingLive _ h := nomatch h
  freedOnce _ := Nat.zero_le 1
  freed _ h := absurd h (Nat.not_lt_zero _)

variable [DecidableEq κ]

def apply (s : Ownership κ) : Op κ → Ownership κ
  | .keep => s
  | .leak => { s with allocated := s.allocated + 1 }
  | .give k lent =>
      { s with
        held := Function.update s.held k (some s.allocated)
        pending := if lent then s.pending ++ [s.allocated] else s.pending
        allocated := s.allocated + 1 }
  | .drop k =>
      match s.held k with
      | none => s
      | some c =>
          { s with
            held := Function.update s.held k none
            frees := Function.update s.frees c (s.frees c + 1) }
  | .lend k =>
      match s.held k with
      | none => s
      | some c => { s with pending := s.pending ++ [c] }
  | .settle i => { s with pending := s.pending.eraseIdx i }

/-- The operation leaves nothing dangling and loses nothing. -/
def Fits (s : Ownership κ) : Op κ → Prop
  | .keep => True
  | .leak => False
  | .give k _ => ∀ c, s.held k = some c → c ∈ s.pending
  | .drop k => ∀ c, s.held k = some c → c ∉ s.pending
  | .lend _ => True
  | .settle i => ∀ c, s.pending[i]? = some c →
      (∃ k, s.held k = some c) ∨ c ∈ s.pending.eraseIdx i

variable {s : Ownership κ}

/-! ## Giving -/

theorem held_give {k k' : κ} {lent : Bool} {c : Nat} :
    (s.apply (.give k lent)).held k' = some c ↔
      (k' = k ∧ c = s.allocated) ∨ (k' ≠ k ∧ s.held k' = some c) := by
  by_cases hk : k' = k
  · subst hk
    simp [apply, eq_comm]
  · simp [apply, hk]

theorem mem_pending_give {k : κ} {lent : Bool} {c : Nat} :
    c ∈ (s.apply (.give k lent)).pending ↔ c ∈ s.pending ∨ (lent = true ∧ c = s.allocated) := by
  cases lent <;> simp [apply]

theorem Live.give {k : κ} {lent : Bool} {c : Nat} (h : s.Live c) : (s.apply (.give k lent)).Live c :=
  ⟨Nat.lt_succ_of_lt h.1, h.2⟩

theorem Kept.give_live (hk : s.Kept) (k : κ) (lent : Bool) :
    (s.apply (.give k lent)).Live s.allocated :=
  ⟨Nat.lt_succ_self _, hk.unallocated _ (Nat.le_refl _)⟩

theorem Kept.give (hk : s.Kept) (k : κ) (lent : Bool) : (s.apply (.give k lent)).Kept where
  heldLive k' c h := by
    rcases held_give.mp h with ⟨rfl, rfl⟩ | ⟨-, hold⟩
    · exact hk.give_live k' lent
    · exact (hk.heldLive k' c hold).give
  sole k₁ k₂ c h₁ h₂ := by
    have hnew : ∀ k', s.held k' ≠ some s.allocated := fun k' h =>
      Nat.lt_irrefl _ (hk.heldLive k' _ h).1
    rcases held_give.mp h₁ with ⟨rfl, rfl⟩ | ⟨-, hold₁⟩
    · rcases held_give.mp h₂ with ⟨rfl, -⟩ | ⟨-, hold₂⟩
      · rfl
      · exact absurd hold₂ (hnew k₂)
    · rcases held_give.mp h₂ with ⟨-, rfl⟩ | ⟨-, hold₂⟩
      · exact absurd hold₁ (hnew k₁)
      · exact hk.sole k₁ k₂ c hold₁ hold₂
  pendingBound c h := by
    rcases mem_pending_give.mp h with hold | ⟨-, rfl⟩
    · exact Nat.lt_succ_of_lt (hk.pendingBound c hold)
    · exact Nat.lt_succ_self _
  freedOnce := hk.freedOnce
  unallocated c h := hk.unallocated c (Nat.le_of_succ_le h)

theorem Kept.give_sound_iff (hk : s.Kept) (hs : s.Sound) (k : κ) (lent : Bool) :
    (s.apply (.give k lent)).Sound ↔ s.Fits (.give k lent) := by
  constructor
  · intro hsound c hheld
    by_contra hpending
    have hlive := hk.heldLive k c hheld
    have hold : ∀ k', (s.apply (.give k lent)).held k' ≠ some c := by
      intro k' h
      rcases held_give.mp h with ⟨-, rfl⟩ | ⟨hne, hother⟩
      · exact Nat.lt_irrefl _ hlive.1
      · exact hne (hk.sole k' k c hother hheld)
    have hnot : c ∉ (s.apply (.give k lent)).pending := by
      intro h
      rcases mem_pending_give.mp h with hmem | ⟨-, rfl⟩
      · exact hpending hmem
      · exact Nat.lt_irrefl _ hlive.1
    have hfreed := hsound.freed c (Nat.lt_succ_of_lt hlive.1) hold hnot
    exact absurd (hlive.2.symm.trans hfreed) (by decide)
  · intro hfits
    refine ⟨(hk.give k lent).heldLive, ?_, hk.freedOnce, ?_⟩
    · intro c h
      rcases mem_pending_give.mp h with hmem | ⟨-, rfl⟩
      · exact (hs.pendingLive c hmem).give
      · exact hk.give_live k lent
    · intro c hc hheld hpending
      have hne : c ≠ s.allocated := fun h => hheld k (held_give.mpr (.inl ⟨rfl, h⟩))
      have hmem : c ∉ s.pending := fun h => hpending (mem_pending_give.mpr (.inl h))
      refine hs.freed c (Nat.lt_of_le_of_ne (Nat.le_of_lt_succ hc) hne) (fun k' h => ?_) hmem
      by_cases hkk : k' = k
      · exact hmem (hfits c (hkk ▸ h))
      · exact hheld k' (held_give.mpr (.inr ⟨hkk, h⟩))

/-! ## Freeing what a key holds -/

variable {k : κ} {c : Nat}

theorem held_drop (h : s.held k = some c) {k' : κ} {c' : Nat} :
    (s.apply (.drop k)).held k' = some c' ↔ k' ≠ k ∧ s.held k' = some c' := by
  by_cases hk : k' = k
  · subst hk
    simp [apply, h]
  · simp [apply, h, hk]

theorem frees_drop (h : s.held k = some c) :
    (s.apply (.drop k)).frees = Function.update s.frees c (s.frees c + 1) := by
  simp [apply, h]

theorem pending_drop : (s.apply (.drop k)).pending = s.pending := by
  rw [apply]
  split <;> rfl

theorem allocated_drop : (s.apply (.drop k)).allocated = s.allocated := by
  rw [apply]
  split <;> rfl

theorem Live.drop (h : s.held k = some c) {c' : Nat} (hlive : s.Live c') (hne : c' ≠ c) :
    (s.apply (.drop k)).Live c' := by
  refine ⟨by rw [allocated_drop]; exact hlive.1, ?_⟩
  rw [frees_drop h, Function.update_of_ne hne]
  exact hlive.2

theorem Kept.drop (hk : s.Kept) (h : s.held k = some c) : (s.apply (.drop k)).Kept where
  heldLive k' c' h' := by
    obtain ⟨hne, hold⟩ := (held_drop h).mp h'
    refine (hk.heldLive k' c' hold).drop h ?_
    rintro rfl
    exact hne (hk.sole k' k c' hold h)
  sole k₁ k₂ c' h₁ h₂ := hk.sole k₁ k₂ c' ((held_drop h).mp h₁).2 ((held_drop h).mp h₂).2
  pendingBound c' h' := by
    rw [pending_drop] at h'
    rw [allocated_drop]
    exact hk.pendingBound c' h'
  freedOnce c' := by
    rw [frees_drop h]
    by_cases hc : c' = c
    · have hlive := (hk.heldLive k c h).2
      simp only [hc, Function.update_self, hlive, Nat.zero_add, Nat.le_refl]
    · rw [Function.update_of_ne hc]
      exact hk.freedOnce c'
  unallocated c' hc := by
    rw [allocated_drop] at hc
    have hne : c' ≠ c := fun he => Nat.not_lt.mpr hc (he ▸ (hk.heldLive k c h).1)
    rw [frees_drop h, Function.update_of_ne hne]
    exact hk.unallocated c' hc

theorem Kept.drop_sound_iff (hk : s.Kept) (hs : s.Sound) (h : s.held k = some c) :
    (s.apply (.drop k)).Sound ↔ s.Fits (.drop k) := by
  have hfreed : (s.apply (.drop k)).frees c = 1 := by
    rw [frees_drop h, Function.update_self, (hk.heldLive k c h).2]
  constructor
  · intro hsound c' h' hpending
    obtain rfl : c = c' := Option.some.inj (h.symm.trans h')
    have hlive := (hsound.pendingLive c (by rw [pending_drop]; exact hpending)).2
    exact absurd (hlive.symm.trans hfreed) (by decide)
  · intro hfits
    refine ⟨(hk.drop h).heldLive, ?_, (hk.drop h).freedOnce, ?_⟩
    · intro c' h'
      rw [pending_drop] at h'
      refine (hs.pendingLive c' h').drop h ?_
      rintro rfl
      exact hfits c' h h'
    · intro c' hc hheld hpending
      rw [allocated_drop] at hc
      rw [pending_drop] at hpending
      by_cases hcc : c' = c
      · rw [hcc, hfreed]
      · rw [frees_drop h, Function.update_of_ne hcc]
        refine hs.freed c' hc (fun k' h' => ?_) hpending
        by_cases hkk : k' = k
        · subst hkk
          exact hcc (Option.some.inj (h'.symm.trans h))
        · exact hheld k' ((held_drop h).mpr ⟨hkk, h'⟩)

/-! ## Every operation -/

theorem Kept.apply (hk : s.Kept) (op : Op κ) : (s.apply op).Kept := by
  cases op with
  | keep => exact hk
  | leak =>
      refine ⟨fun k c h => ?_, hk.sole, fun c h => ?_, hk.freedOnce, fun c h => ?_⟩
      · exact ⟨Nat.lt_succ_of_lt (hk.heldLive k c h).1, (hk.heldLive k c h).2⟩
      · exact Nat.lt_succ_of_lt (hk.pendingBound c h)
      · exact hk.unallocated c (Nat.le_of_succ_le h)
  | give k lent => exact hk.give k lent
  | drop k =>
      cases h : s.held k with
      | none => simpa [Ownership.apply, h] using hk
      | some c => exact hk.drop h
  | lend k =>
      cases h : s.held k with
      | none => simpa [Ownership.apply, h] using hk
      | some c =>
          rw [Ownership.apply, h]
          refine ⟨hk.heldLive, hk.sole, fun c' h' => ?_, hk.freedOnce, hk.unallocated⟩
          rcases List.mem_append.mp h' with hold | hnew
          · exact hk.pendingBound c' hold
          · exact List.mem_singleton.mp hnew ▸ (hk.heldLive k c h).1
  | settle i =>
      exact ⟨hk.heldLive, hk.sole, fun c h => hk.pendingBound c (List.mem_of_mem_eraseIdx h),
        hk.freedOnce, hk.unallocated⟩

/-- **What leaves nothing dangling and loses nothing.** -/
theorem Kept.apply_sound_iff (hk : s.Kept) (hs : s.Sound) (op : Op κ) :
    (s.apply op).Sound ↔ s.Fits op := by
  cases op with
  | keep => exact ⟨fun _ => trivial, fun _ => hs⟩
  | leak =>
      refine ⟨fun hsound => ?_, fun h => nomatch h⟩
      have hheld : ∀ k, s.held k ≠ some s.allocated := fun k h =>
        Nat.lt_irrefl _ (hk.heldLive k _ h).1
      have hpending : s.allocated ∉ s.pending := fun h => Nat.lt_irrefl _ (hk.pendingBound _ h)
      have hfreed := hsound.freed s.allocated (Nat.lt_succ_self _) hheld hpending
      exact absurd ((hk.unallocated _ (Nat.le_refl _)).symm.trans hfreed) (by decide)
  | give k lent => exact hk.give_sound_iff hs k lent
  | drop k =>
      cases h : s.held k with
      | none =>
          have hsame : s.apply (.drop k) = s := by simp [Ownership.apply, h]
          rw [hsame]
          exact ⟨fun _ c' h' => by simp [h] at h', fun _ => hs⟩
      | some c => exact hk.drop_sound_iff hs h
  | lend k =>
      refine ⟨fun _ => trivial, fun _ => ?_⟩
      cases h : s.held k with
      | none => simpa [Ownership.apply, h] using hs
      | some c =>
          rw [Ownership.apply, h]
          refine ⟨hs.heldLive, fun c' h' => ?_, hs.freedOnce, fun c' hc hheld hpending => ?_⟩
          · rcases List.mem_append.mp h' with hold | hnew
            · exact hs.pendingLive c' hold
            · exact List.mem_singleton.mp hnew ▸ hk.heldLive k c h
          · exact hs.freed c' hc hheld fun hmem => hpending (List.mem_append_left _ hmem)
  | settle i =>
      constructor
      · intro hsound c hc
        have hmem : c ∈ s.pending := List.mem_of_getElem? hc
        by_contra hnone
        obtain ⟨hheld, hpending⟩ := not_or.mp hnone
        have hlive := hs.pendingLive c hmem
        have hfreed := hsound.freed c hlive.1 (fun k h => hheld ⟨k, h⟩) hpending
        exact absurd (hlive.2.symm.trans hfreed) (by decide)
      · intro hfits
        refine ⟨hs.heldLive, fun c h => hs.pendingLive c (List.mem_of_mem_eraseIdx h), hs.freedOnce, ?_⟩
        intro c hc hheld hpending
        refine hs.freed c hc hheld fun hmem => ?_
        obtain ⟨j, hj⟩ := List.mem_iff_getElem?.mp hmem
        have hji : j = i := by
          by_contra hne
          exact hpending (List.mem_eraseIdx_iff_getElem?.mpr ⟨j, hne, hj⟩)
        rcases hfits c (hji ▸ hj) with ⟨k, hk'⟩ | hother
        · exact hheld k hk'
        · exact hpending hother

/-- A machine each of whose steps is an operation is sound all along just if the operations fit.
`J` is what else its steps keep, and `P` what soundness is in its own terms. -/
theorem throughout_iff {σ α : Type} {M : Machine σ α} {view : σ → Ownership κ} {op : σ → α → Op κ}
    {J P : σ → Prop} (hP : ∀ s, J s → (view s).Kept → (P s ↔ (view s).Sound))
    (hstep : ∀ s a s', J s → (view s).Kept → M.next s a = some s' →
      J s' ∧ view s' = (view s).apply (op s a))
    {as : List α} {s s' : σ} (hJ : J s) (hinit : view s = {}) (hrun : M.run as s = some s') :
    M.Throughout P as s ↔ M.Meets (fun s a => (view s).Fits (op s a)) as s := by
  refine Machine.throughout_iff_meets (I := fun s => J s ∧ (view s).Kept ∧ (view s).Sound)
    (fun s h => (hP s h.1 h.2.1).mpr h.2.2) ?_ ⟨hJ, hinit ▸ Kept.init, hinit ▸ Sound.init⟩ hrun
  rintro s a s' ⟨hJ, hkept, hsound⟩ hnext
  obtain ⟨hJ', hview⟩ := hstep s a s' hJ hkept hnext
  have hkept' : (view s').Kept := hview ▸ hkept.apply (op s a)
  have hiff : (view s').Sound ↔ (view s).Fits (op s a) := by
    rw [hview]
    exact hkept.apply_sound_iff hsound (op s a)
  exact ⟨fun hfits => ⟨hJ', hkept', hiff.mpr hfits⟩, fun h => hiff.mp ((hP s' hJ' hkept').mp h)⟩

end Ownership
