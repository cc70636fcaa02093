/-
# `Lib.Regex` — expressions without alternatives

The expressions of the Perl syntax in which no alternative, no `*` and no `?`
occurs: characters, sets, groups, `+`, bounds and anchors.  `parse` reads one
from left to right with a stack of open groups, and `Matches` says what it
matches between two texts, which only the anchors look at.

A possessive repeat takes as much as it can and gives nothing back, so it
matches some of what the repeat matches; here it is not told apart from it.
What is in a set, which characters are the same but for their case and which
end a line is left to a `Locale`.

Two facts are for readers of a text that was meant literally.  A character that
stands for itself nowhere is in no match (`fold_mem_of_only`), and every special
character makes the shortest match shorter than the text (`shortest_parse_lt`).
-/
import Mathlib.Data.List.Chain

namespace Regex

/-! ## Syntax -/

/-- A character, and one behind a backslash. -/
inductive Token where
  | raw (c : Nat)
  | escaped (c : Nat)
  deriving DecidableEq

def tokens : List Nat → Option (List Token)
  | [] => some []
  | c :: e =>
      if c = 92 then
        match e with
        | [] => none
        | d :: e => (tokens e).map (.escaped d :: ·)
      else (tokens e).map (.raw c :: ·)

theorem tokens_escaped (c : Nat) (e : List Nat) :
    tokens (92 :: c :: e) = (tokens e).map (.escaped c :: ·) := by
  rw [tokens.eq_def]
  exact if_pos rfl

theorem tokens_raw {c : Nat} (h : c ≠ 92) (e : List Nat) :
    tokens (c :: e) = (tokens e).map (.raw c :: ·) := by
  rw [tokens.eq_def]
  exact if_neg h

inductive Expr where
  | empty
  | char (c : Nat)
  | any
  | set (body : List Token)
  | startLine
  | endLine
  | seq (x y : Expr)
  | group (x : Expr)
  | repeated (x : Expr) (least : Nat) (most : Option Nat)
  | possessive (x : Expr)

/-- What a repeat may follow. -/
def Expr.repeatable : Expr → Bool
  | .startLine | .endLine | .repeated _ _ _ | .possessive _ => false
  | _ => true

/-- A sequence whose last item comes first. -/
def sequence (items : List Expr) : Expr := items.foldl (fun x y => .seq y x) .empty

/-- Digits, with blanks around them; the rest follows. -/
def number (text : List Nat) : Option Nat × List Nat :=
  let digits := (text.dropWhile (· = 32)).takeWhile fun c => 48 ≤ c && c ≤ 57
  let rest := ((text.dropWhile (· = 32)).drop digits.length).dropWhile (· = 32)
  (if digits = [] then none else some (digits.foldl (fun n c => 10 * n + (c - 48)) 0), rest)

/-- What is between braces: `n`, `n,` or `n,m`. -/
def bounds (text : List Nat) : Option (Nat × Option Nat) :=
  match number text with
  | (some least, []) => some (least, some least)
  | (some least, 44 :: rest) =>
      match number rest with
      | (none, []) => some (least, none)
      | (some most, []) => if least ≤ most then some (least, some most) else none
      | _ => none
  | _ => none

inductive Mode where
  | normal
  | set (body : List Token)
  | bounds (text : List Nat)

/-- The items of the group that is open, and of those around it, the last item first. -/
structure Parser where
  outer : List (List Expr) := []
  items : List Expr := []
  mode : Mode := .normal

namespace Parser

def push (s : Parser) (x : Expr) : Parser := { s with items := x :: s.items, mode := .normal }

/-- A repeat of the last item. -/
def rep (s : Parser) (least : Nat) (most : Option Nat) : Option Parser :=
  match s.items with
  | [] => none
  | x :: items =>
      if x.repeatable then
        some { s with items := .repeated x least most :: items, mode := .normal }
      else none

/-- A plus; behind a repeat it makes it possessive. -/
def plus (s : Parser) : Option Parser :=
  match s.items with
  | .repeated x least most :: items =>
      some { s with items := .possessive (.repeated x least most) :: items }
  | _ => s.rep 1 none

def close (s : Parser) : Option Parser :=
  match s.outer with
  | [] => none
  | items :: outer => some { s with outer, items := .group (sequence s.items) :: items }

/-- A character outside of sets and braces. -/
def raw (s : Parser) (c : Nat) : Option Parser :=
  if c = 40 then some { s with outer := s.items :: s.outer, items := [] }
  else if c = 41 then s.close
  else if c = 91 then some { s with mode := .set [] }
  else if c = 123 then some { s with mode := .bounds [] }
  else if c = 43 then s.plus
  else if c = 94 then some (s.push .startLine)
  else if c = 36 then some (s.push .endLine)
  else if c = 46 then some (s.push .any)
  else if c = 125 ∨ c = 42 ∨ c = 63 ∨ c = 124 then none
  else some (s.push (.char c))

def step (s : Parser) (t : Token) : Option Parser :=
  match s.mode, t with
  | .normal, .escaped c => some (s.push (.char c))
  | .normal, .raw c => s.raw c
  | .set body, t =>
      -- a bracket that comes first is in the set
      if t = .raw 93 ∧ body ≠ [] ∧ body ≠ [.raw 94] then some (s.push (.set body))
      else some { s with mode := .set (body ++ [t]) }
  | .bounds text, .raw c =>
      if c = 125 then (Regex.bounds text).bind fun b => s.rep b.1 b.2
      else some { s with mode := .bounds (text ++ [c]) }
  | .bounds _, .escaped _ => none

/-- Everything is closed. -/
def finish (s : Parser) : Option Expr :=
  match s.mode, s.outer with
  | .normal, [] => some (sequence s.items)
  | _, _ => none

end Parser

/-- What holds of the items, and of two parts that follow one another, holds of the sequence. -/
theorem sequence_induction {p : Expr → Prop} (hempty : p .empty)
    (hseq : ∀ x y, p x → p y → p (.seq x y)) {items : List Expr} (h : ∀ x ∈ items, p x) :
    p (sequence items) := by
  have hall : ∀ (items : List Expr) (x : Expr), p x → (∀ y ∈ items, p y) →
      p (items.foldl (fun x y => Expr.seq y x) x) := by
    intro items
    induction items with
    | nil => exact fun x hx _ => hx
    | cons y items ih =>
        intro x hx hitems
        rw [List.forall_mem_cons] at hitems
        exact ih _ (hseq y x hitems.1 hx) hitems.2
  exact hall items .empty hempty h

/-- `none` for an expression that is not valid. -/
def parse (e : List Nat) : Option Expr := do
  let ts ← tokens e
  let s ← ts.foldlM Parser.step {}
  s.finish

/-! ## Matching -/

/-- What the syntax does not say about characters. -/
structure Locale where
  fold : Nat → Nat
  InSet : List Token → Nat → Prop
  separator : Nat → Bool

/-- A relation holds of so many parts, each between those before it and those after it. -/
def Times (R : List Nat → List Nat → List Nat → Prop) : Nat → List Nat → List Nat → List Nat → Prop
  | 0, _, s, _ => s = []
  | n + 1, b, s, a => ∃ s₁ s₂, s = s₁ ++ s₂ ∧ R b s₁ (s₂ ++ a) ∧ Times R n (b ++ s₁) s₂ a

/-- `s` is matched between `b` and `a`. -/
def Expr.Matches (l : Locale) : Expr → List Nat → List Nat → List Nat → Prop
  | .empty, _, s, _ => s = []
  | .char c, _, s, _ => ∃ d, s = [d] ∧ l.fold d = l.fold c
  | .any, _, s, _ => ∃ d, s = [d]
  | .set body, _, s, _ => ∃ d, s = [d] ∧ l.InSet body d
  | .startLine, b, s, _ => s = [] ∧ ∀ d ∈ b.getLast?, l.separator d = true
  | .endLine, _, s, a => s = [] ∧ ∀ d ∈ a.head?, l.separator d = true
  | .seq x y, b, s, a => ∃ s₁ s₂, s = s₁ ++ s₂ ∧ x.Matches l b s₁ (s₂ ++ a) ∧ y.Matches l (b ++ s₁) s₂ a
  | .group x, b, s, a => x.Matches l b s a
  | .repeated x least most, b, s, a =>
      ∃ n, least ≤ n ∧ (∀ m ∈ most, n ≤ m) ∧ Times (x.Matches l) n b s a
  | .possessive x, b, s, a => x.Matches l b s a

/-- The whole of a text. -/
def Expr.MatchesAll (l : Locale) (x : Expr) (s : List Nat) : Prop := x.Matches l [] s []

/-! ## Characters that stand for themselves -/

theorem sequence_reverse (items : List Expr) :
    sequence items.reverse = items.foldr Expr.seq .empty := by
  rw [sequence, List.foldl_reverse]

/-- **Characters match what is the same but for its case.** -/
theorem matches_chars (l : Locale) (cs : List Nat) (b s a : List Nat) :
    ((cs.map Expr.char).foldr Expr.seq .empty).Matches l b s a ↔ s.map l.fold = cs.map l.fold := by
  induction cs generalizing b s with
  | nil => simp [Expr.Matches]
  | cons c cs ih =>
      simp only [List.map_cons, List.foldr_cons, Expr.Matches, ih]
      constructor
      · rintro ⟨_, s₂, rfl, ⟨d, rfl, hd⟩, hs⟩
        simp [hd, hs]
      · intro h
        cases s with
        | nil => simp at h
        | cons d s =>
            obtain ⟨hd, hs⟩ := List.cons.inj h
            exact ⟨[d], s, rfl, ⟨d, rfl, hd⟩, hs⟩

/-- There are no sets, and the characters that stand for themselves have a property. -/
def Expr.Only (P : Nat → Prop) : Expr → Prop
  | .empty | .startLine | .endLine => True
  | .char c => P c
  | .any | .set _ => False
  | .seq x y => x.Only P ∧ y.Only P
  | .group x | .repeated x _ _ | .possessive x => x.Only P

section Only
variable {l : Locale} {P : Nat → Prop}

/-- A text in which every character is the same as one with the property, but for its case. -/
def Folds (l : Locale) (P : Nat → Prop) (s : List Nat) : Prop :=
  ∀ d ∈ s, ∃ c, P c ∧ l.fold d = l.fold c

theorem Folds.append {s₁ s₂ : List Nat} (h₁ : Folds l P s₁) (h₂ : Folds l P s₂) :
    Folds l P (s₁ ++ s₂) := by
  intro d hd
  cases List.mem_append.mp hd with
  | inl hd => exact h₁ d hd
  | inr hd => exact h₂ d hd

theorem Folds.nil : Folds l P [] := fun _ h => absurd h List.not_mem_nil

theorem folds_times {R : List Nat → List Nat → List Nat → Prop}
    (hR : ∀ b s a, R b s a → Folds l P s) :
    ∀ (n : Nat) (b s a : List Nat), Times R n b s a → Folds l P s := by
  intro n
  induction n with
  | zero =>
      rintro b s a rfl
      exact .nil
  | succ n ih =>
      rintro b s a ⟨s₁, s₂, rfl, h₁, h₂⟩
      exact (hR _ _ _ h₁).append (ih _ _ _ h₂)

/-- **Nothing else is in a match.** -/
theorem fold_mem_of_only {x : Expr} (hx : x.Only P) :
    ∀ {b s a : List Nat}, x.Matches l b s a → Folds l P s := by
  induction x with
  | empty =>
      rintro b s a rfl
      exact .nil
  | char c =>
      rintro b s a ⟨d, rfl, hd⟩ d' hd'
      obtain rfl := List.mem_singleton.mp hd'
      exact ⟨c, hx, hd⟩
  | any => exact hx.elim
  | set body => exact hx.elim
  | startLine =>
      rintro b s a ⟨rfl, -⟩
      exact .nil
  | endLine =>
      rintro b s a ⟨rfl, -⟩
      exact .nil
  | seq x y ihx ihy =>
      rintro b s a ⟨s₁, s₂, rfl, h₁, h₂⟩
      exact (ihx hx.1 h₁).append (ihy hx.2 h₂)
  | group x ih => exact fun h => ih hx h
  | repeated x least most ih =>
      rintro b s a ⟨n, -, -, h⟩
      exact folds_times (fun _ _ _ h => ih hx h) n b s a h
  | possessive x ih => exact fun h => ih hx h

theorem only_sequence {items : List Expr} (h : ∀ x ∈ items, x.Only P) : (sequence items).Only P :=
  sequence_induction (p := fun x => x.Only P) trivial (fun _ _ hx hy => ⟨hx, hy⟩) h

end Only

/-! ## What a parser can do -/

/-- The characters that stand for something else. -/
def special : List Nat := [40, 41, 91, 123, 43, 94, 36, 46, 125, 42, 63, 124]

namespace Parser

inductive Step (s : Parser) : Token → Parser → Prop
  | escaped (c : Nat) : s.mode = .normal → Step s (.escaped c) (s.push (.char c))
  | char (c : Nat) : s.mode = .normal → c ∉ special → Step s (.raw c) (s.push (.char c))
  | any : s.mode = .normal → Step s (.raw 46) (s.push .any)
  | startLine : s.mode = .normal → Step s (.raw 94) (s.push .startLine)
  | endLine : s.mode = .normal → Step s (.raw 36) (s.push .endLine)
  | openGroup : s.mode = .normal →
      Step s (.raw 40) { s with outer := s.items :: s.outer, items := [] }
  | closeGroup {items : List Expr} {outer : List (List Expr)} : s.mode = .normal →
      s.outer = items :: outer →
      Step s (.raw 41) { s with outer, items := .group (sequence s.items) :: items }
  | plus {x : Expr} {items : List Expr} : s.mode = .normal → s.items = x :: items → x.repeatable →
      Step s (.raw 43) { s with items := .repeated x 1 none :: items, mode := .normal }
  | possessive {x : Expr} {least : Nat} {most : Option Nat} {items : List Expr} :
      s.mode = .normal → s.items = .repeated x least most :: items →
      Step s (.raw 43) { s with items := .possessive (.repeated x least most) :: items }
  | openSet : s.mode = .normal → Step s (.raw 91) { s with mode := .set [] }
  | inSet {body : List Token} (t : Token) : s.mode = .set body →
      Step s t { s with mode := .set (body ++ [t]) }
  | closeSet {body : List Token} : s.mode = .set body → Step s (.raw 93) (s.push (.set body))
  | openBounds : s.mode = .normal → Step s (.raw 123) { s with mode := .bounds [] }
  | inBounds {text : List Nat} (c : Nat) : s.mode = .bounds text →
      Step s (.raw c) { s with mode := .bounds (text ++ [c]) }
  | closeBounds {text : List Nat} {x : Expr} {items : List Expr} {least : Nat} {most : Option Nat} :
      s.mode = .bounds text → s.items = x :: items → x.repeatable →
      Step s (.raw 125) { s with items := .repeated x least most :: items, mode := .normal }

variable {s s' : Parser}

theorem rep_eq {least : Nat} {most : Option Nat} (h : s.rep least most = some s') :
    ∃ x items, s.items = x :: items ∧ x.repeatable ∧
      s' = { s with items := .repeated x least most :: items, mode := .normal } := by
  unfold rep at h
  split at h
  · cases h
  · next x items heq =>
      split at h
      · next hx => exact ⟨x, items, heq, hx, (Option.some.inj h).symm⟩
      · cases h

theorem raw_step {c : Nat} (hmode : s.mode = .normal) (h : s.raw c = some s') :
    Step s (.raw c) s' := by
  unfold raw at h
  split at h
  next hc =>
    subst hc
    cases h
    exact .openGroup hmode
  split at h
  next hc =>
    subst hc
    unfold close at h
    split at h
    · cases h
    · next houter =>
        cases h
        exact .closeGroup hmode houter
  split at h
  next hc =>
    subst hc
    cases h
    exact .openSet hmode
  split at h
  next hc =>
    subst hc
    cases h
    exact .openBounds hmode
  split at h
  next hc =>
    subst hc
    unfold plus at h
    split at h
    · next hitems =>
        cases h
        exact .possessive hmode hitems
    · obtain ⟨x, items, hitems, hx, rfl⟩ := rep_eq h
      exact .plus hmode hitems hx
  split at h
  next hc =>
    subst hc
    cases h
    exact .startLine hmode
  split at h
  next hc =>
    subst hc
    cases h
    exact .endLine hmode
  split at h
  next hc =>
    subst hc
    cases h
    exact .any hmode
  split at h
  · cases h
  · cases h
    refine .char c hmode ?_
    simp only [special, List.mem_cons, List.not_mem_nil, or_false]
    omega

/-- **What a step can do.** -/
theorem step_cases {t : Token} (h : s.step t = some s') : Step s t s' := by
  unfold step at h
  split at h
  · next hmode =>
      cases h
      exact .escaped _ hmode
  · next hmode => exact raw_step hmode h
  · next hmode =>
      split at h
      · next ht =>
          obtain ⟨rfl, -⟩ := ht
          cases h
          exact .closeSet hmode
      · cases h
        exact .inSet _ hmode
  · next hmode =>
      split at h
      · next hc =>
          subst hc
          obtain ⟨b, -, hb⟩ := Option.bind_eq_some_iff.mp h
          obtain ⟨x, items, hitems, hx, rfl⟩ := rep_eq hb
          exact .closeBounds hmode hitems hx
      · cases h
        exact .inBounds _ hmode
  · cases h

/-! ### Without sets -/

section Only
variable {P : Nat → Prop}

/-- No set is open, and none was closed. -/
structure Only (P : Nat → Prop) (s : Parser) : Prop where
  mode : ∀ body, s.mode ≠ .set body
  items : ∀ x ∈ s.items, x.Only P
  outer : ∀ items ∈ s.outer, ∀ x ∈ items, x.Only P

/-- A character that opens no set and is not any character. -/
def Harmless (P : Nat → Prop) : Token → Prop
  | .raw c => c ≠ 91 ∧ c ≠ 46 ∧ (c ∉ special → P c)
  | .escaped c => P c

theorem Only.push {x : Expr} (h : s.Only P) (hx : x.Only P) : (s.push x).Only P where
  mode _ := Mode.noConfusion
  items := List.forall_mem_cons.mpr ⟨hx, h.items⟩
  outer := h.outer

theorem Only.step {t : Token} (h : s.Only P) (ht : Harmless P t) (hs : Step s t s') :
    s'.Only P := by
  cases hs with
  | escaped c _ => exact h.push ht
  | char c _ hc => exact h.push (ht.2.2 hc)
  | any => exact absurd rfl ht.2.1
  | startLine => exact h.push trivial
  | endLine => exact h.push trivial
  | openGroup =>
      exact ⟨h.mode, fun _ hx => absurd hx List.not_mem_nil, List.forall_mem_cons.mpr ⟨h.items, h.outer⟩⟩
  | closeGroup _ houter =>
      have hout := h.outer
      rw [houter, List.forall_mem_cons] at hout
      exact ⟨h.mode, List.forall_mem_cons.mpr ⟨only_sequence h.items, hout.1⟩, hout.2⟩
  | plus _ hitems =>
      have hin := h.items
      rw [hitems, List.forall_mem_cons] at hin
      exact ⟨fun _ => Mode.noConfusion, List.forall_mem_cons.mpr hin, h.outer⟩
  | possessive _ hitems =>
      have hin := h.items
      rw [hitems, List.forall_mem_cons] at hin
      exact ⟨h.mode, List.forall_mem_cons.mpr hin, h.outer⟩
  | openSet => exact absurd rfl ht.1
  | inSet _ hmode => exact absurd hmode (h.mode _)
  | closeSet hmode => exact absurd hmode (h.mode _)
  | openBounds => exact ⟨fun _ => Mode.noConfusion, h.items, h.outer⟩
  | inBounds => exact ⟨fun _ => Mode.noConfusion, h.items, h.outer⟩
  | closeBounds _ hitems =>
      have hin := h.items
      rw [hitems, List.forall_mem_cons] at hin
      exact ⟨fun _ => Mode.noConfusion, List.forall_mem_cons.mpr hin, h.outer⟩

theorem Only.run {ts : List Token} (h : s.Only P) (hts : ∀ t ∈ ts, Harmless P t)
    (hs : ts.foldlM Parser.step s = some s') : s'.Only P := by
  induction ts generalizing s with
  | nil =>
      cases hs
      exact h
  | cons t ts ih =>
      rw [List.forall_mem_cons] at hts
      obtain ⟨s₁, hstep, hrest⟩ := Option.bind_eq_some_iff.mp hs
      exact ih (h.step hts.1 (step_cases hstep)) hts.2 hrest

end Only

theorem finish_eq {x : Expr} (h : s.finish = some x) :
    s.mode = .normal ∧ s.outer = [] ∧ x = sequence s.items := by
  unfold finish at h
  split at h
  · next hmode houter => exact ⟨hmode, houter, (Option.some.inj h).symm⟩
  · cases h

end Parser

theorem parse_eq {e : List Nat} {x : Expr} (h : parse e = some x) :
    ∃ ts s, tokens e = some ts ∧ ts.foldlM Parser.step {} = some s ∧ s.finish = some x := by
  obtain ⟨ts, hts, h⟩ := Option.bind_eq_some_iff.mp h
  obtain ⟨s, hs, h⟩ := Option.bind_eq_some_iff.mp h
  exact ⟨ts, s, hts, hs, h⟩

/-- **An expression without sets** matches with the characters that stand for themselves alone. -/
theorem only_parse {P : Nat → Prop} {e : List Nat} {ts : List Token} {x : Expr}
    (htokens : tokens e = some ts) (hts : ∀ t ∈ ts, Parser.Harmless P t) (h : parse e = some x) :
    x.Only P := by
  obtain ⟨ts', s, hts', hs, hfinish⟩ := parse_eq h
  obtain rfl := Option.some.inj (htokens.symm.trans hts')
  obtain ⟨-, -, rfl⟩ := Parser.finish_eq hfinish
  have hinit : ({} : Parser).Only P :=
    ⟨fun _ => Mode.noConfusion, fun _ hx => absurd hx List.not_mem_nil,
      fun _ hx => absurd hx List.not_mem_nil⟩
  exact only_sequence (hinit.run hts hs).items

/-! ## The shortest match -/

/-- The length of the shortest match, if anything is matched. -/
def Expr.shortest : Expr → Nat
  | .empty | .startLine | .endLine => 0
  | .char _ | .any | .set _ => 1
  | .seq x y => x.shortest + y.shortest
  | .group x | .possessive x => x.shortest
  | .repeated x least _ => least * x.shortest

section Shrink
variable {l : Locale}

/-- No character of the text ends a line. -/
def OneLine (l : Locale) (s : List Nat) : Prop := ∀ d ∈ s, l.separator d = false

theorem OneLine.append {s₁ s₂ : List Nat} (h₁ : OneLine l s₁) (h₂ : OneLine l s₂) :
    OneLine l (s₁ ++ s₂) := by
  intro d hd
  cases List.mem_append.mp hd with
  | inl hd => exact h₁ d hd
  | inr hd => exact h₂ d hd

/-- A match of `s` leads to one of the shortest length: it is empty if `s` is, and it is a match
between any other texts that are empty where those around `s` are. -/
def Shrinks (R : List Nat → List Nat → List Nat → Prop) (k : Nat) (b s a : List Nat) : Prop :=
  ∃ s', s'.length = k ∧ (s = [] → s' = []) ∧
    ∀ b' a', (b = [] → b' = []) → (a = [] → a' = []) → R b' s' a'

/-- Two parts that follow one another. -/
theorem Shrinks.append {R₁ R₂ R : List Nat → List Nat → List Nat → Prop} {k₁ k₂ : Nat}
    {b s₁ s₂ a : List Nat} (h₁ : Shrinks R₁ k₁ b s₁ (s₂ ++ a)) (h₂ : Shrinks R₂ k₂ (b ++ s₁) s₂ a)
    (hR : ∀ b s₁ s₂ a, R₁ b s₁ (s₂ ++ a) → R₂ (b ++ s₁) s₂ a → R b (s₁ ++ s₂) a) :
    Shrinks R (k₁ + k₂) b (s₁ ++ s₂) a := by
  obtain ⟨t₁, hk₁, hnil₁, ht₁⟩ := h₁
  obtain ⟨t₂, hk₂, hnil₂, ht₂⟩ := h₂
  refine ⟨t₁ ++ t₂, by rw [List.length_append, hk₁, hk₂], ?_, ?_⟩
  · intro h
    obtain ⟨h₁, h₂⟩ := List.append_eq_nil_iff.mp h
    rw [hnil₁ h₁, hnil₂ h₂, List.append_nil]
  · intro b' a' hb ha
    refine hR _ _ _ _ (ht₁ _ _ hb ?_) (ht₂ _ _ ?_ ha)
    · intro h
      obtain ⟨h₂, h⟩ := List.append_eq_nil_iff.mp h
      rw [hnil₂ h₂, ha h, List.append_nil]
    · intro h
      obtain ⟨h, h₁⟩ := List.append_eq_nil_iff.mp h
      rw [hb h, hnil₁ h₁, List.append_nil]

/-- Fewer parts. -/
theorem shrinks_times {R : List Nat → List Nat → List Nat → Prop} {k : Nat}
    (hR : ∀ b s a, OneLine l b → OneLine l s → OneLine l a → R b s a → Shrinks R k b s a) :
    ∀ (n m : Nat) (b s a : List Nat), m ≤ n → OneLine l b → OneLine l s → OneLine l a →
      Times R n b s a → Shrinks (Times R m) (m * k) b s a := by
  intro n
  induction n with
  | zero =>
      intro m b s a hm _ _ _ h
      obtain rfl := Nat.le_zero.mp hm
      exact ⟨[], by simp, fun _ => rfl, fun _ _ _ _ => rfl⟩
  | succ n ih =>
      rintro m b s a hm hb hs ha ⟨s₁, s₂, rfl, h₁, h₂⟩
      cases m with
      | zero => exact ⟨[], by simp, fun _ => rfl, fun _ _ _ _ => rfl⟩
      | succ m =>
          have hs₁ : OneLine l s₁ := fun d hd => hs d (List.mem_append_left _ hd)
          have hs₂ : OneLine l s₂ := fun d hd => hs d (List.mem_append_right _ hd)
          have hfirst := hR b s₁ (s₂ ++ a) hb hs₁ (hs₂.append ha) h₁
          have hrest := ih m (b ++ s₁) s₂ a (Nat.le_of_succ_le_succ hm) (hb.append hs₁) hs₂ ha h₂
          have hk : (m + 1) * k = k + m * k := by rw [Nat.succ_mul, Nat.add_comm]
          rw [hk]
          exact hfirst.append hrest fun b s₁ s₂ a h₁ h₂ => ⟨s₁, s₂, rfl, h₁, h₂⟩

/-- A single character. -/
theorem Shrinks.single {R : List Nat → List Nat → List Nat → Prop} {b a : List Nat} {d : Nat}
    (h : ∀ b a, R b [d] a) : Shrinks R 1 b [d] a :=
  ⟨[d], rfl, id, fun b a _ _ => h b a⟩

/-- **Every match shrinks.** -/
theorem shrinks (x : Expr) : ∀ (b s a : List Nat), OneLine l b → OneLine l s → OneLine l a →
    x.Matches l b s a → Shrinks (x.Matches l) x.shortest b s a := by
  induction x with
  | empty =>
      rintro b s a - - - rfl
      exact ⟨[], rfl, id, fun _ _ _ _ => rfl⟩
  | char c =>
      rintro b s a - - - ⟨d, rfl, hd⟩
      exact .single fun _ _ => ⟨d, rfl, hd⟩
  | any =>
      rintro b s a - - - ⟨d, rfl⟩
      exact .single fun _ _ => ⟨d, rfl⟩
  | set body =>
      rintro b s a - - - ⟨d, rfl, hd⟩
      exact .single fun _ _ => ⟨d, rfl, hd⟩
  | startLine =>
      rintro b s a hb - - ⟨rfl, hline⟩
      refine ⟨[], rfl, id, fun b' a' hb' _ => ⟨rfl, ?_⟩⟩
      -- no line ends before, so nothing is there
      have hnil : b = [] := by
        cases hlast : b.getLast? with
        | none => exact List.getLast?_eq_none_iff.mp hlast
        | some d =>
            have hmem : d ∈ b := List.mem_of_getLast? hlast
            exact absurd (hline d hlast) (by simp [hb d hmem])
      rw [hb' hnil]
      exact fun _ hd => absurd hd (by simp)
  | endLine =>
      rintro b s a - - ha ⟨rfl, hline⟩
      refine ⟨[], rfl, id, fun b' a' _ ha' => ⟨rfl, ?_⟩⟩
      have hnil : a = [] := by
        cases a with
        | nil => rfl
        | cons d a =>
            exact absurd (hline d rfl) (by simp [ha d List.mem_cons_self])
      rw [ha' hnil]
      exact fun _ hd => absurd hd (by simp)
  | seq x y ihx ihy =>
      rintro b s a hb hs ha ⟨s₁, s₂, rfl, h₁, h₂⟩
      have hs₁ : OneLine l s₁ := fun d hd => hs d (List.mem_append_left _ hd)
      have hs₂ : OneLine l s₂ := fun d hd => hs d (List.mem_append_right _ hd)
      exact (ihx b s₁ (s₂ ++ a) hb hs₁ (hs₂.append ha) h₁).append
        (ihy (b ++ s₁) s₂ a (hb.append hs₁) hs₂ ha h₂)
        fun b s₁ s₂ a h₁ h₂ => ⟨s₁, s₂, rfl, h₁, h₂⟩
  | group x ih => exact ih
  | repeated x least most ih =>
      rintro b s a hb hs ha ⟨n, hleast, hmost, h⟩
      obtain ⟨s', hlength, hnil, hs'⟩ := shrinks_times ih n least b s a hleast hb hs ha h
      exact ⟨s', hlength, hnil, fun b' a' hb' ha' =>
        ⟨least, Nat.le_refl _, fun m hm => Nat.le_trans hleast (hmost m hm), hs' b' a' hb' ha'⟩⟩
  | possessive x ih => exact ih

/-- **If a text of one line is matched, one of the shortest length is.** -/
theorem exists_shortest {x : Expr} {s : List Nat} (hs : OneLine l s) (h : x.MatchesAll l s) :
    ∃ s', x.MatchesAll l s' ∧ s'.length = x.shortest := by
  have hnil : OneLine l [] := fun d hd => absurd hd List.not_mem_nil
  obtain ⟨s', hlength, -, hs'⟩ := shrinks x [] s [] hnil hs hnil h
  exact ⟨s', hs' [] [] id id, hlength⟩

end Shrink

/-! ## The length of an expression -/

/-- The length of the shortest match of some items. -/
def total : List Expr → Nat
  | [] => 0
  | x :: items => x.shortest + total items

theorem shortest_sequence (items : List Expr) : (sequence items).shortest = total items := by
  have hall : ∀ (items : List Expr) (x : Expr),
      (items.foldl (fun x y => Expr.seq y x) x).shortest = total items + x.shortest := by
    intro items
    induction items with
    | nil => exact fun x => (Nat.zero_add _).symm
    | cons y items ih =>
        intro x
        rw [List.foldl_cons, ih, total, Expr.shortest]
        omega
  exact hall items .empty

namespace Parser

/-- The length of the shortest match of everything so far. -/
def weight (s : Parser) : Nat :=
  total s.items + s.outer.foldr (fun items n => total items + n) 0

/-- A special character stands for no character of its own, unless it is the dot. -/
def cost : Token → Nat
  | .raw c => if c ∈ special ∧ c ≠ 46 then 1 else 0
  | .escaped _ => 0

theorem cost_le (t : Token) : cost t ≤ 1 := by
  cases t with
  | raw c =>
      rw [cost]
      split
      · exact Nat.le_refl 1
      · exact Nat.zero_le 1
  | escaped c => exact Nat.zero_le 1

variable {s s' : Parser}

theorem weight_push (s : Parser) (x : Expr) : (s.push x).weight = s.weight + x.shortest := by
  simp only [weight, push, total]
  omega

/-- No bounds are open. -/
def NoBounds (s : Parser) : Prop := ∀ text, s.mode ≠ .bounds text

/-- **A step adds at most one character**, and none for a special one. -/
theorem weight_step {t : Token} (hs : s.NoBounds) (ht : t ≠ .raw 123) (h : Step s t s') :
    s'.NoBounds ∧ s'.weight + cost t ≤ s.weight + 1 := by
  have hone : ∀ c, cost (.raw c) ≤ 1 := fun c => cost_le _
  cases h with
  | escaped c _ => exact ⟨fun _ => Mode.noConfusion, Nat.le_of_eq (weight_push s _)⟩
  | char c _ hc =>
      have hcost : cost (.raw c) = 0 := if_neg fun h => hc h.1
      rw [weight_push, hcost]
      exact ⟨fun _ => Mode.noConfusion, Nat.le_refl _⟩
  | any =>
      rw [weight_push]
      exact ⟨fun _ => Mode.noConfusion, Nat.le_refl _⟩
  | startLine =>
      rw [weight_push]
      exact ⟨fun _ => Mode.noConfusion, Nat.le_refl _⟩
  | endLine =>
      rw [weight_push]
      exact ⟨fun _ => Mode.noConfusion, Nat.le_refl _⟩
  | openGroup =>
      refine ⟨hs, ?_⟩
      have := hone 40
      simp only [weight, total, List.foldr_cons]
      omega
  | closeGroup _ houter =>
      refine ⟨hs, ?_⟩
      have := hone 41
      simp only [weight, total, houter, List.foldr_cons, Expr.shortest, shortest_sequence]
      omega
  | plus _ hitems =>
      refine ⟨fun _ => Mode.noConfusion, ?_⟩
      have := hone 43
      simp only [weight, total, hitems, Expr.shortest]
      omega
  | possessive _ hitems =>
      refine ⟨hs, ?_⟩
      have := hone 43
      simp only [weight, total, hitems, Expr.shortest]
      omega
  | openSet => exact ⟨fun _ => Mode.noConfusion, Nat.add_le_add_left (hone 91) _⟩
  | inSet => exact ⟨fun _ => Mode.noConfusion, Nat.add_le_add_left (cost_le t) _⟩
  | closeSet =>
      rw [weight_push]
      exact ⟨fun _ => Mode.noConfusion, Nat.le_refl _⟩
  | openBounds => exact absurd rfl ht
  | inBounds _ hmode => exact absurd hmode (hs _)
  | closeBounds hmode => exact absurd hmode (hs _)

theorem weight_run {ts : List Token} (hs : s.NoBounds) (hts : .raw 123 ∉ ts)
    (h : ts.foldlM Parser.step s = some s') :
    s'.weight + (ts.map cost).foldr (· + ·) 0 ≤ s.weight + ts.length := by
  induction ts generalizing s with
  | nil =>
      cases h
      exact Nat.le_refl _
  | cons t ts ih =>
      obtain ⟨hhead, htail⟩ := not_or.mp (fun h' => hts (List.mem_cons.mpr h'))
      obtain ⟨s₁, hstep, hrest⟩ := Option.bind_eq_some_iff.mp h
      obtain ⟨hs₁, hle⟩ := weight_step hs (Ne.symm hhead) (step_cases hstep)
      have hrun := ih hs₁ htail hrest
      simp only [List.map_cons, List.foldr_cons, List.length_cons]
      omega

end Parser

/-- **Without bounds, a special character makes the shortest match shorter than the text.** -/
theorem shortest_parse_lt {e : List Nat} {ts : List Token} {x : Expr} (htokens : tokens e = some ts)
    (hbounds : .raw 123 ∉ ts) (hspecial : ∃ t ∈ ts, Parser.cost t = 1) (h : parse e = some x) :
    x.shortest < ts.length := by
  obtain ⟨ts', s, hts', hs, hfinish⟩ := parse_eq h
  obtain rfl := Option.some.inj (htokens.symm.trans hts')
  obtain ⟨-, houter, rfl⟩ := Parser.finish_eq hfinish
  have hrun := Parser.weight_run (fun _ => Mode.noConfusion) hbounds hs
  have hpos : 0 < (ts.map Parser.cost).foldr (· + ·) 0 := by
    obtain ⟨t, ht, hcost⟩ := hspecial
    obtain ⟨front, back, rfl⟩ := List.append_of_mem ht
    clear hrun htokens hts' hs hbounds ht
    induction front with
    | nil =>
        simp only [List.nil_append, List.map_cons, List.foldr_cons, hcost]
        omega
    | cons y front ih =>
        simp only [List.cons_append, List.map_cons, List.foldr_cons]
        omega
  have hweight : s.weight = total s.items := by simp [Parser.weight, houter]
  have hinit : ({} : Parser).weight = 0 := rfl
  rw [shortest_sequence]
  omega

/-! ## Repeats of repeats -/

/-- Nothing is possessive. -/
def Expr.Backtracks : Expr → Prop
  | .empty | .char _ | .any | .set _ | .startLine | .endLine => True
  | .seq x y => x.Backtracks ∧ y.Backtracks
  | .group x | .repeated x _ _ => x.Backtracks
  | .possessive _ => False

theorem backtracks_sequence {items : List Expr} (h : ∀ x ∈ items, x.Backtracks) :
    (sequence items).Backtracks :=
  sequence_induction trivial (fun _ _ hx hy => ⟨hx, hy⟩) h

namespace Parser

/-- Nothing is possessive so far, and a repeat that could be made so was made by the last token. -/
structure Backtracks (last : Option Token) (s : Parser) : Prop where
  noBounds : s.NoBounds
  fresh : s.mode = .normal → ∀ x least most items, s.items = .repeated x least most :: items →
    last = some (.raw 43)
  items : ∀ x ∈ s.items, x.Backtracks
  outer : ∀ items ∈ s.outer, ∀ x ∈ items, x.Backtracks

variable {s s' : Parser} {last : Option Token}

theorem Backtracks.push {x : Expr} {t : Token} (h : s.Backtracks last) (hx : x.Backtracks)
    (hrep : ∀ y least most, x ≠ .repeated y least most) : (s.push x).Backtracks (some t) where
  noBounds _ := Mode.noConfusion
  fresh _ y least most _ hitems := absurd (List.cons.inj hitems).1 (hrep y least most)
  items := List.forall_mem_cons.mpr ⟨hx, h.items⟩
  outer := h.outer

theorem Backtracks.step {t : Token} (h : s.Backtracks last) (ht : t ≠ .raw 123)
    (hplus : ¬ (last = some (.raw 43) ∧ t = .raw 43)) (hs : Step s t s') :
    s'.Backtracks (some t) := by
  cases hs with
  | escaped => exact h.push trivial (fun _ _ _ => Expr.noConfusion)
  | char => exact h.push trivial (fun _ _ _ => Expr.noConfusion)
  | any => exact h.push trivial (fun _ _ _ => Expr.noConfusion)
  | startLine => exact h.push trivial (fun _ _ _ => Expr.noConfusion)
  | endLine => exact h.push trivial (fun _ _ _ => Expr.noConfusion)
  | openGroup =>
      exact ⟨h.noBounds, fun _ _ _ _ _ hitems => absurd hitems (List.cons_ne_nil _ _).symm,
        fun _ hx => absurd hx List.not_mem_nil, List.forall_mem_cons.mpr ⟨h.items, h.outer⟩⟩
  | closeGroup _ houter =>
      have hout := h.outer
      rw [houter, List.forall_mem_cons] at hout
      exact ⟨h.noBounds, fun _ _ _ _ _ hitems => Expr.noConfusion (List.cons.inj hitems).1,
        List.forall_mem_cons.mpr ⟨backtracks_sequence h.items, hout.1⟩, hout.2⟩
  | plus _ hitems =>
      have hin := h.items
      rw [hitems, List.forall_mem_cons] at hin
      exact ⟨fun _ => Mode.noConfusion, fun _ _ _ _ _ _ => rfl, List.forall_mem_cons.mpr hin, h.outer⟩
  | possessive hmode hitems => exact absurd ⟨h.fresh hmode _ _ _ _ hitems, rfl⟩ hplus
  | openSet => exact ⟨fun _ => Mode.noConfusion, fun hmode => Mode.noConfusion hmode, h.items, h.outer⟩
  | inSet => exact ⟨fun _ => Mode.noConfusion, fun hmode => Mode.noConfusion hmode, h.items, h.outer⟩
  | closeSet => exact h.push trivial (fun _ _ _ => Expr.noConfusion)
  | openBounds => exact absurd rfl ht
  | inBounds _ hmode => exact absurd hmode (h.noBounds _)
  | closeBounds hmode => exact absurd hmode (h.noBounds _)

theorem Backtracks.run {ts : List Token} (h : s.Backtracks last) (hts : .raw 123 ∉ ts)
    (hlast : ∀ t ∈ ts.head?, ¬ (last = some (.raw 43) ∧ t = .raw 43))
    (hplus : ts.IsChain fun t t' => ¬ (t = .raw 43 ∧ t' = .raw 43))
    (hs : ts.foldlM Parser.step s = some s') : ∃ last, s'.Backtracks last := by
  induction ts generalizing s last with
  | nil =>
      cases hs
      exact ⟨last, h⟩
  | cons t ts ih =>
      obtain ⟨hhead, htail⟩ := not_or.mp (fun h' => hts (List.mem_cons.mpr h'))
      obtain ⟨s₁, hstep, hrest⟩ := Option.bind_eq_some_iff.mp hs
      obtain ⟨hnext, hchain⟩ := List.isChain_cons.mp hplus
      refine ih (h.step (Ne.symm hhead) (hlast t rfl) (step_cases hstep)) htail ?_ hchain hrest
      rintro t' ht' ⟨heq, heq'⟩
      exact hnext t' ht' ⟨Option.some.inj heq, heq'⟩

end Parser

/-- **Nothing is possessive** without bounds and without a plus behind a plus. -/
theorem backtracks_parse {e : List Nat} {ts : List Token} {x : Expr} (htokens : tokens e = some ts)
    (hbounds : .raw 123 ∉ ts) (hplus : ts.IsChain fun t t' => ¬ (t = .raw 43 ∧ t' = .raw 43))
    (h : parse e = some x) : x.Backtracks := by
  obtain ⟨ts', s, hts', hs, hfinish⟩ := parse_eq h
  obtain rfl := Option.some.inj (htokens.symm.trans hts')
  obtain ⟨-, -, rfl⟩ := Parser.finish_eq hfinish
  have hinit : ({} : Parser).Backtracks none :=
    ⟨fun _ => Mode.noConfusion, fun _ _ _ _ _ hitems => absurd hitems (List.cons_ne_nil _ _).symm,
      fun _ hx => absurd hx List.not_mem_nil, fun _ hx => absurd hx List.not_mem_nil⟩
  have hhead : ∀ t ∈ ts.head?, ¬ ((none : Option Token) = some (.raw 43) ∧ t = .raw 43) :=
    fun _ _ h => absurd h.1 (by simp)
  obtain ⟨last, hlast⟩ := hinit.run hbounds hhead hplus hs
  exact backtracks_sequence hlast.items

/-! ## Literal expressions -/

/-- A character that stands for itself. -/
def Token.Literal : Token → Prop
  | .raw c => c ∉ special
  | .escaped _ => True

def Token.unit : Token → Nat
  | .raw c => c
  | .escaped c => c

theorem Parser.step_literal {t : Token} (ht : t.Literal) {s : Parser} (hmode : s.mode = .normal) :
    s.step t = some (s.push (.char t.unit)) := by
  cases t with
  | escaped c => simp only [Parser.step, hmode, Token.unit]
  | raw c =>
      have hc : c ∉ special := ht
      simp only [special, List.mem_cons, List.not_mem_nil, or_false, not_or] at hc
      simp only [Parser.step, hmode, Parser.raw, hc, if_false, or_self, Token.unit]

theorem Parser.run_literal {ts : List Token} (hts : ∀ t ∈ ts, t.Literal) :
    ∀ items : List Expr, ts.foldlM Parser.step { items } =
      some { items := (ts.map fun t => .char t.unit).reverse ++ items } := by
  induction ts with
  | nil => exact fun _ => rfl
  | cons t ts ih =>
      intro items
      rw [List.forall_mem_cons] at hts
      rw [List.foldlM_cons, Parser.step_literal hts.1 rfl]
      refine (ih hts.2 (.char t.unit :: items)).trans ?_
      simp

/-- **What a literal expression is read as.** -/
theorem parse_literal {e : List Nat} {ts : List Token} (htokens : tokens e = some ts)
    (hts : ∀ t ∈ ts, t.Literal) :
    parse e = some (((ts.map Token.unit).map Expr.char).foldr Expr.seq .empty) := by
  have hrun := Parser.run_literal hts []
  rw [List.append_nil] at hrun
  rw [← sequence_reverse, List.map_map]
  simp only [parse, htokens, Option.bind_eq_bind, Option.bind_some]
  rw [hrun]
  rfl

theorem backtracks_literal (cs : List Nat) :
    ((cs.map Expr.char).foldr Expr.seq .empty).Backtracks := by
  induction cs with
  | nil => trivial
  | cons c cs ih => exact ⟨trivial, ih⟩

end Regex
