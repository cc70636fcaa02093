/-
# `Lib.Exec` — imperative code whose state survives an exception

A method of an object-oriented program changes the heap step by step, and an
exception leaves the heap as it is at that moment: nothing is rolled back.
`Exec σ ε α` is such code: from a state to a result or an exception, and in
either case a state.

Two kinds of statement are made about it.

* `Within R x`: every run of `x`, also one that throws, leads from a state to
  an `R`-related one.  With `R` a preorder this passes through sequencing,
  loops, branches and handlers (`Within.bind`, `Within.forM`, …).  These rules
  are instances: a frame condition or an invariant of a long method is found by
  instance search from one instance for each primitive.
* `x.run s = (r, s')`: the exact outcome at a state, computed by the `run_`
  equations.
-/
import Mathlib.Order.Defs.Unbundled

/-- Code with state `σ` that may throw `ε`. -/
@[ext] structure Exec (σ ε α : Type) where
  run : σ → Except ε α × σ

namespace Exec

variable {σ ε α β : Type}

instance : Monad (Exec σ ε) where
  pure a := ⟨fun s => (.ok a, s)⟩
  bind x f := ⟨fun s =>
    match x.run s with
    | (.ok a, s') => (f a).run s'
    | (.error e, s') => (.error e, s')⟩

instance : MonadExceptOf ε (Exec σ ε) where
  throw e := ⟨fun s => (.error e, s)⟩
  tryCatch x h := ⟨fun s =>
    match x.run s with
    | (.ok a, s') => (.ok a, s')
    | (.error e, s') => (h e).run s'⟩

/-- A value read off the state. -/
def gets (f : σ → α) : Exec σ ε α := ⟨fun s => (.ok (f s), s)⟩

/-- A change of the state. -/
def modify (f : σ → σ) : Exec σ ε Unit := ⟨fun s => (.ok (), f s)⟩

/-- The value, or an exception where there is none. -/
def orThrow (e : ε) : Option α → Exec σ ε α
  | some a => pure a
  | none => throw e

/-! ## The outcome at a state -/

@[simp] theorem run_pure (a : α) (s : σ) : (pure a : Exec σ ε α).run s = (.ok a, s) := rfl

@[simp] theorem run_throw (e : ε) (s : σ) : (throw e : Exec σ ε α).run s = (.error e, s) := rfl

@[simp] theorem run_gets (f : σ → α) (s : σ) : (gets f : Exec σ ε α).run s = (.ok (f s), s) := rfl

@[simp] theorem run_modify (f : σ → σ) (s : σ) :
    (modify f : Exec σ ε Unit).run s = (.ok (), f s) := rfl

@[simp] theorem orThrow_some (e : ε) (a : α) : (orThrow e (some a) : Exec σ ε α) = pure a := rfl

@[simp] theorem orThrow_none (e : ε) : (orThrow e none : Exec σ ε α) = throw e := rfl

theorem run_bind (x : Exec σ ε α) (f : α → Exec σ ε β) (s : σ) :
    (x >>= f).run s = match x.run s with
      | (.ok a, s') => (f a).run s'
      | (.error e, s') => (.error e, s') := rfl

theorem run_tryCatch (x : Exec σ ε α) (h : ε → Exec σ ε α) (s : σ) :
    (tryCatch x h).run s = match x.run s with
      | (.ok a, s') => (.ok a, s')
      | (.error e, s') => (h e).run s' := rfl

theorem run_bind_ok {x : Exec σ ε α} {f : α → Exec σ ε β} {s s' : σ} {a : α}
    (h : x.run s = (.ok a, s')) : (x >>= f).run s = (f a).run s' := by
  rw [run_bind, h]

theorem run_bind_error {x : Exec σ ε α} {f : α → Exec σ ε β} {s s' : σ} {e : ε}
    (h : x.run s = (.error e, s')) : (x >>= f).run s = (.error e, s') := by
  rw [run_bind, h]

theorem run_of_isOk {x : Exec σ ε Unit} {s : σ} (h : (x.run s).1.isOk = true) :
    x.run s = (.ok (), (x.run s).2) := by
  refine Prod.ext ?_ rfl
  cases hr : (x.run s).1 with
  | ok a => rfl
  | error e => exact absurd h (by rw [hr]; nofun)

/-- A sequence that returns went through a state between its parts. -/
theorem of_run_bind_ok {x : Exec σ ε α} {f : α → Exec σ ε β} {s s' : σ} {b : β}
    (h : (x >>= f).run s = (.ok b, s')) :
    ∃ a s₁, x.run s = (.ok a, s₁) ∧ (f a).run s₁ = (.ok b, s') := by
  rw [run_bind] at h
  split at h
  · next a s₁ hx => exact ⟨a, s₁, hx, h⟩
  · exact absurd (congrArg Prod.fst h) nofun

theorem of_run_orThrow_bind {e : ε} {o : Option α} {f : α → Exec σ ε β} {s s' : σ} {b : β}
    (h : (orThrow e o >>= f).run s = (.ok b, s')) : ∃ a, o = some a ∧ (f a).run s = (.ok b, s') := by
  cases o with
  | none => exact absurd (congrArg Prod.fst h) nofun
  | some a => exact ⟨a, rfl, h⟩

@[simp] theorem pure_bind (a : α) (f : α → Exec σ ε β) :
    ((pure a : Exec σ ε α) >>= f) = f a := rfl

@[simp] theorem throw_bind (e : ε) (f : α → Exec σ ε β) :
    ((throw e : Exec σ ε α) >>= f) = throw e := rfl

instance : LawfulMonad (Exec σ ε) := by
  refine LawfulMonad.mk' (Exec σ ε) ?_ (fun _ _ => rfl) ?_
  · intro α x
    ext1
    funext s
    show (match x.run s with
      | (.ok a, s') => (.ok a, s')
      | (.error e, s') => (.error e, s')) = x.run s
    rcases x.run s with ⟨_ | _, _⟩ <;> rfl
  · intro α β γ x f g
    ext1
    funext s
    rw [run_bind, run_bind, run_bind]
    rcases x.run s with ⟨_ | _, _⟩ <;> rfl

/-- A last step that changes nothing may be left out. -/
theorem run_bind_idle {x : Exec σ ε Unit} {f : Unit → Exec σ ε Unit} {s : σ}
    (h : ∀ s', x.run s = (.ok (), s') → (f ()).run s' = (.ok (), s')) :
    (x >>= f).run s = x.run s := by
  rw [run_bind]
  split
  · next s' hx => rw [hx, h s' hx]
  · next e s' hx => rw [hx]

@[simp] theorem run_gets_bind (g : σ → α) (f : α → Exec σ ε β) (s : σ) :
    ((gets g : Exec σ ε α) >>= f).run s = (f (g s)).run s := rfl

@[simp] theorem run_modify_bind (g : σ → σ) (f : Unit → Exec σ ε β) (s : σ) :
    ((modify g : Exec σ ε Unit) >>= f).run s = (f ()).run (g s) := rfl

@[simp] theorem run_ite {p : Prop} [Decidable p] (x y : Exec σ ε α) (s : σ) :
    (if p then x else y).run s = if p then x.run s else y.run s := by
  split <;> rfl

/-- A loop whose body always returns is a fold. -/
theorem run_forM {f : α → Exec σ ε Unit} {g : σ → α → σ} :
    ∀ (l : List α) (s : σ), (∀ a ∈ l, ∀ s, (f a).run s = (.ok (), g s a)) →
      (l.forM f).run s = (.ok (), l.foldl g s)
  | [], _, _ => rfl
  | a :: l, s, h => by
      show (f a >>= fun _ => l.forM f).run s = _
      rw [run_bind_ok (h a List.mem_cons_self s)]
      exact run_forM l _ fun b hb => h b (List.mem_cons_of_mem _ hb)

/-! ## What every run respects -/

/-- Every run leads from a state to a related one. -/
class Within (R : σ → σ → Prop) (x : Exec σ ε α) : Prop where
  post : ∀ s, R s (x.run s).2

namespace Within

variable {R : σ → σ → Prop}

theorem of_run {x : Exec σ ε α} [h : Within R x] {s s' : σ} {r : Except ε α}
    (he : x.run s = (r, s')) : R s s' := by
  have hs := h.post s
  rwa [he] at hs

theorem modify {f : σ → σ} (h : ∀ s, R s (f s)) : Within R (modify f : Exec σ ε Unit) := ⟨h⟩

theorem mono {R' : σ → σ → Prop} (hR : ∀ s s', R s s' → R' s s') {x : Exec σ ε α}
    (h : Within R x) : Within R' x := ⟨fun s => hR _ _ (h.post s)⟩

/-- In a branch the test may be used. -/
theorem ite {p : Prop} [Decidable p] {x y : Exec σ ε α}
    (hx : p → Within R x) (hy : ¬ p → Within R y) : Within R (if p then x else y) := by
  split
  · next hp => exact hx hp
  · next hp => exact hy hp

theorem bind [IsTrans σ R] {x : Exec σ ε α} {f : α → Exec σ ε β} (hx : Within R x)
    (hf : ∀ a, Within R (f a)) : Within R (x >>= f) := by
  refine ⟨fun s => ?_⟩
  have hs := hx.post s
  rw [run_bind]
  split
  · next a s' he =>
      rw [he] at hs
      exact IsTrans.trans _ _ _ hs ((hf a).post s')
  · next e s' he =>
      rw [he] at hs
      exact hs

theorem tryCatch [IsTrans σ R] {x : Exec σ ε α} {h : ε → Exec σ ε α} (hx : Within R x)
    (hh : ∀ e, Within R (h e)) : Within R (tryCatch x h) := by
  refine ⟨fun s => ?_⟩
  have hs := hx.post s
  rw [run_tryCatch]
  split
  · next a s' he =>
      rw [he] at hs
      exact hs
  · next e s' he =>
      rw [he] at hs
      exact IsTrans.trans _ _ _ hs ((hh e).post s')

variable [Std.Refl R]

theorem pure (a : α) : Within R (pure a : Exec σ ε α) := ⟨fun s => Std.Refl.refl s⟩

theorem throw (e : ε) : Within R (throw e : Exec σ ε α) := ⟨fun s => Std.Refl.refl s⟩

theorem gets (f : σ → α) : Within R (gets f : Exec σ ε α) := ⟨fun s => Std.Refl.refl s⟩

theorem orThrow (e : ε) (o : Option α) : Within R (orThrow e o : Exec σ ε α) := by
  cases o with
  | none => exact Within.throw e
  | some a => exact Within.pure a

theorem forM [IsTrans σ R] {f : α → Exec σ ε Unit} :
    ∀ (l : List α), (∀ a ∈ l, Within R (f a)) → Within R (l.forM f)
  | [], _ => Within.pure ()
  | a :: l, h => by
      show Within R (f a >>= fun _ => l.forM f)
      exact (h a List.mem_cons_self).bind fun _ =>
        forM l fun b hb => h b (List.mem_cons_of_mem _ hb)

end Within

section Search
variable {R : σ → σ → Prop}

instance {p : Prop} [Decidable p] {x y : Exec σ ε α} [Within R x] [Within R y] :
    Within R (if p then x else y) := Within.ite (fun _ => ‹_›) fun _ => ‹_›

instance [IsTrans σ R] {x : Exec σ ε α} {f : α → Exec σ ε β} [hx : Within R x]
    [hf : ∀ a, Within R (f a)] : Within R (x >>= f) := hx.bind hf

instance [IsTrans σ R] {x : Exec σ ε α} {h : ε → Exec σ ε α} [hx : Within R x]
    [hh : ∀ e, Within R (h e)] : Within R (tryCatch x h) := hx.tryCatch hh

instance [Std.Refl R] (a : α) : Within R (pure a : Exec σ ε α) := Within.pure a

instance [Std.Refl R] (e : ε) : Within R (throw e : Exec σ ε α) := Within.throw e

instance [Std.Refl R] (f : σ → α) : Within R (gets f : Exec σ ε α) := Within.gets f

instance [Std.Refl R] (e : ε) (o : Option α) : Within R (orThrow e o : Exec σ ε α) :=
  Within.orThrow e o

instance [Std.Refl R] [IsTrans σ R] {f : α → Exec σ ε Unit} (l : List α)
    [hf : ∀ a, Within R (f a)] : Within R (l.forM f) := Within.forM l fun a _ => hf a

end Search

/-! ## What throws nothing -/

/-- Every run returns. -/
class Total (x : Exec σ ε α) : Prop where
  returns : ∀ s, ∃ a s', x.run s = (.ok a, s')

/-- A sequence returns a value that has `P`, if its second part does. -/
theorem Total.bind_mem {P : β → Prop} {x : Exec σ ε α} {f : α → Exec σ ε β} [hx : Total x]
    (hf : ∀ a s, ∃ b s', (f a).run s = (.ok b, s') ∧ P b) (s : σ) :
    ∃ b s', (x >>= f).run s = (.ok b, s') ∧ P b := by
  obtain ⟨a, s₁, hs₁⟩ := hx.returns s
  rw [run_bind_ok hs₁]
  exact hf a s₁

instance (a : α) : Total (pure a : Exec σ ε α) := ⟨fun s => ⟨a, s, rfl⟩⟩

instance (f : σ → α) : Total (gets f : Exec σ ε α) := ⟨fun s => ⟨f s, s, rfl⟩⟩

instance (f : σ → σ) : Total (modify f : Exec σ ε Unit) := ⟨fun s => ⟨(), f s, rfl⟩⟩

instance {x : Exec σ ε α} {f : α → Exec σ ε β} [hx : Total x] [hf : ∀ a, Total (f a)] :
    Total (x >>= f) := by
  refine ⟨fun s => ?_⟩
  obtain ⟨a, s₁, hs₁⟩ := hx.returns s
  rw [run_bind_ok hs₁]
  exact (hf a).returns s₁

instance {p : Prop} [Decidable p] {x y : Exec σ ε α} [hx : Total x] [hy : Total y] :
    Total (if p then x else y) := by
  split
  · exact hx
  · exact hy

instance instTotalForM {f : α → Exec σ ε Unit} [hf : ∀ a, Total (f a)] : ∀ (l : List α), Total (l.forM f)
  | [] => inferInstanceAs (Total (pure ()))
  | a :: l =>
      have : Total (l.forM f) := instTotalForM l
      inferInstanceAs (Total (f a >>= fun _ => l.forM f))

/-- A run that returns ends in a state that has `P`. -/
class Ends (P : σ → Prop) (x : Exec σ ε α) : Prop where
  post : ∀ s a s', x.run s = (.ok a, s') → P s'

section Ends
variable {P : σ → Prop}

/-- A sequence ends as its second part does. -/
theorem Ends.bind {x : Exec σ ε α} {f : α → Exec σ ε β} (h : ∀ a, Ends P (f a)) :
    Ends P (x >>= f) := by
  refine ⟨fun s b s' hrun => ?_⟩
  obtain ⟨a, s₁, -, hrest⟩ := of_run_bind_ok hrun
  exact (h a).post s₁ b s' hrest

instance {x : Exec σ ε α} {f : α → Exec σ ε β} [h : ∀ a, Ends P (f a)] : Ends P (x >>= f) :=
  Ends.bind h

instance {p : Prop} [Decidable p] {x y : Exec σ ε α} [hx : Ends P x] [hy : Ends P y] :
    Ends P (if p then x else y) := by
  split
  · exact hx
  · exact hy

instance (e : ε) : Ends P (throw e : Exec σ ε α) := ⟨fun _ _ _ h => nomatch h⟩

end Ends

/-! ## Two preorders -/

/-- `f` reads the same. -/
def Same {γ : Type} (f : σ → γ) (s s' : σ) : Prop := f s' = f s

instance {γ : Type} (f : σ → γ) : Std.Refl (Same f) := ⟨fun _ => rfl⟩

instance {γ : Type} (f : σ → γ) : IsTrans σ (Same f) := ⟨fun _ _ _ h h' => h'.trans h⟩

/-- `P` is not lost. -/
def Stays (P : σ → Prop) (s s' : σ) : Prop := P s → P s'

instance (P : σ → Prop) : Std.Refl (Stays P) := ⟨fun _ h => h⟩

instance (P : σ → Prop) : IsTrans σ (Stays P) := ⟨fun _ _ _ h h' hp => h' (h hp)⟩

theorem Within.stays {P : σ → Prop} {x : Exec σ ε α} [h : Within (Stays P) x] {s : σ} (hs : P s) :
    P (x.run s).2 := h.post s hs

/-- What is read off a state has what the state has. -/
theorem Within.gets_bind {P : σ → Prop} {g : σ → α} {f : α → Exec σ ε β}
    (h : ∀ s, P s → Within (Stays P) (f (g s))) : Within (Stays P) (Exec.gets g >>= f) :=
  ⟨fun s hs => (h s hs).post s hs⟩

/-- A sequence of which the second part needs more than the first leaves behind if it throws. -/
theorem run_bind_mem {P : σ → Prop} {x : Exec σ ε α} {f : α → Exec σ ε β} {s : σ}
    (hx : P (x.run s).2) (hf : ∀ a s', x.run s = (.ok a, s') → P ((f a).run s').2) :
    P ((x >>= f).run s).2 := by
  rw [run_bind]
  split
  · next a s' he => exact hf a s' he
  · next e s' he =>
      rw [he] at hx
      exact hx

end Exec
