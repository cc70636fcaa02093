/-
# `Client.LiteralExclusion` — paths as exclusions

A monitor excludes its own directories and files by an expression that is to
match one path and nothing else.  `prepareStringForExclusion` puts a backslash
before every backslash and every dot of the path, and before nothing else.

The expressions are Boost's, so what its documentation says of them is the
hypothesis here (`Documented`).  A path is matched literally if it has none of
the other special characters (`Plain`).  The converse is proved but for paths
with an opening bracket and one of a few things besides (`Ordinary`).
-/
import CaptureHpc.Client.Monitor
import CaptureHpc.Lib.Regex
import Mathlib.Data.List.TakeWhile

namespace CaptureHpc.Client

open Regex

namespace Monitor

/-! ## The preparation -/

/-- A loop of `prepareStringForExclusion`: the search goes on behind what was put in. -/
def replaceAll (wch : Nat) (replacement : WString) : WString → WString
  | [] => []
  | c :: s =>
      if c = wch then replacement ++ replaceAll wch replacement s
      else c :: replaceAll wch replacement s

def prepareStringForExclusion (s : WString) : WString :=
  replaceAll 46 (wideLiteral "\\.") (replaceAll 92 (wideLiteral "\\\\") s)

/-- What a character of the path is in the expression. -/
def token (c : Nat) : Token := if c = 92 ∨ c = 46 then .escaped c else .raw c

theorem prepare_escaped {c : Nat} (h : c = 92 ∨ c = 46) (p : WString) :
    prepareStringForExclusion (c :: p) = 92 :: c :: prepareStringForExclusion p := by
  rcases h with rfl | rfl
  · rfl
  · rfl

theorem prepare_raw {c : Nat} (h : ¬ (c = 92 ∨ c = 46)) (p : WString) :
    prepareStringForExclusion (c :: p) = c :: prepareStringForExclusion p := by
  obtain ⟨hbackslash, hdot⟩ := not_or.mp h
  simp only [prepareStringForExclusion, replaceAll, if_neg hbackslash, if_neg hdot]

theorem tokens_prepare (p : WString) : tokens (prepareStringForExclusion p) = some (p.map token) := by
  induction p with
  | nil => rfl
  | cons c p ih =>
      rw [List.map_cons, token]
      split
      next h => rw [prepare_escaped h, tokens_escaped, ih, Option.map_some]
      next h => rw [prepare_raw h, tokens_raw fun h' => h (.inl h'), ih, Option.map_some]

theorem unit_token (c : Nat) : (token c).unit = c := by
  rw [token]
  split
  · rfl
  · rfl

theorem raw_eq_token {c d : Nat} (h : .raw c = token d) : d = c := by
  rw [token] at h
  split at h
  · cases h
  · cases h
    rfl

/-- Only what the path has stands as it is. -/
theorem raw_not_mem {c : Nat} {p : WString} (h : c ∉ p) : .raw c ∉ p.map token := by
  intro hmem
  obtain ⟨d, hd, heq⟩ := List.mem_map.mp hmem
  exact h (raw_eq_token heq.symm ▸ hd)

theorem mem_prepare {p : WString} {c : Nat} (h : c ∈ prepareStringForExclusion p) :
    c = 92 ∨ c ∈ p := by
  induction p with
  | nil => exact absurd h List.not_mem_nil
  | cons d p ih =>
      by_cases hd : d = 92 ∨ d = 46
      · rw [prepare_escaped hd, List.mem_cons, List.mem_cons] at h
        rcases h with h | h | h
        · exact .inl h
        · exact .inr (h ▸ List.mem_cons_self)
        · exact (ih h).imp_right (List.mem_cons_of_mem _)
      · rw [prepare_raw hd, List.mem_cons] at h
        cases h with
        | inl h => exact .inr (h ▸ List.mem_cons_self)
        | inr h => exact (ih h).imp_right (List.mem_cons_of_mem _)

/-! ## Boost's expressions -/

/-- The expressions that `Lib.Regex` reads as Boost does: no alternatives, nothing but backslashes
and dots escaped, no character classes. -/
structure Covered (ts : List Token) : Prop where
  raw : ∀ c ∈ [42, 63, 124], .raw c ∉ ts
  escaped : ∀ c, .escaped c ∈ ts → c = 92 ∨ c = 46
  classes : .raw 91 ∈ ts →
    ts.IsChain fun t t' => ¬ (t = .raw 91 ∧ ∃ c ∈ [46, 58, 61], t' = .raw c)

/-- What the documentation of Boost says: a character that is not special matches itself, and so
does one behind a backslash; an expression that is not formed as it has to be is refused; what is
matched is matched by the syntax, and the other way round unless a repeat is possessive.  Case is
ignored, and a special character has none. -/
structure Documented {ρ : Type} (compile : WString → Option ρ) (regexMatch : ρ → WString → Bool)
    (l : Regex.Locale) : Prop where
  literal : ∀ e ts, tokens e = some ts → ts ≠ [] → Covered ts → (∀ t ∈ ts, t.Literal) →
    (compile e).isSome
  refused : ∀ e ts, tokens e = some ts → Covered ts → parse e = none → compile e = none
  sound : ∀ e ts r x s, tokens e = some ts → Covered ts → parse e = some x → compile e = some r →
    regexMatch r s = true → x.MatchesAll l s
  complete : ∀ e ts r x s, tokens e = some ts → Covered ts → parse e = some x →
    compile e = some r → x.Backtracks → x.MatchesAll l s → regexMatch r s = true
  caseless : ∀ c ∈ special, ∀ d, l.fold d = l.fold c → d = c

/-! ## Paths -/

/-- What can be in a Windows path: no control characters, and none of `"`, `*`, `<`, `>`, `?`
and `|`. -/
def WindowsPath (p : WString) : Prop :=
  p ≠ [] ∧ ∀ c ∈ p, 32 ≤ c ∧ c < 0x10000 ∧ c ∉ [34, 42, 60, 62, 63, 124]

instance (p : WString) : Decidable (WindowsPath p) :=
  inferInstanceAs (Decidable (p ≠ [] ∧ ∀ c ∈ p, 32 ≤ c ∧ c < 0x10000 ∧ c ∉ [34, 42, 60, 62, 63, 124]))

/-- `(`, `)`, `[`, `{`, `}`, `+`, `^` and `$`: they may be in a path, and stay as they are. -/
def unprepared : List Nat := [40, 41, 91, 123, 125, 43, 94, 36]

/-- None of them is in the path. -/
def Plain (p : WString) : Prop := ∀ c ∈ p, c ∉ unprepared

instance (p : WString) : Decidable (Plain p) := inferInstanceAs (Decidable (∀ c ∈ p, c ∉ unprepared))

/-- Not both an opening bracket and one of these: an opening brace, a plus behind a plus, a
character class, the end of a line. -/
def Ordinary (l : Regex.Locale) (p : WString) : Prop :=
  91 ∉ p ∨ (123 ∉ p ∧ OneLine l p ∧
    p.IsChain fun c d => ¬ (c = 43 ∧ d = 43) ∧ ¬ (c = 91 ∧ (d = 58 ∨ d = 61)))

section Claim
variable {ρ : Type} (compile : WString → Option ρ) (regexMatch : ρ → WString → Bool) (l : Regex.Locale)

/-- The expression is valid and matches just what is the path but for its case. -/
def MatchesLiterally (p : WString) : Prop :=
  ∃ r, compile (cStr (prepareStringForExclusion p)) = some r ∧
    ∀ s, regexMatch r s = true ↔ s.map l.fold = p.map l.fold

end Claim

theorem cStr_prepare {p : WString} (hp : WindowsPath p) :
    cStr (prepareStringForExclusion p) = prepareStringForExclusion p := by
  refine List.takeWhile_eq_self_iff.mpr ?_
  intro c hc
  cases mem_prepare hc with
  | inl h => simp [h]
  | inr h =>
      have := (hp.2 c h).1
      exact decide_eq_true (by omega)

theorem covered_prepare {p : WString} (hp : WindowsPath p)
    (hclasses : 91 ∈ p → p.IsChain fun c d => ¬ (c = 91 ∧ (d = 58 ∨ d = 61))) :
    Covered (p.map token) where
  raw c hc := by
    refine raw_not_mem fun hmem => (hp.2 c hmem).2.2 ?_
    simp only [List.mem_cons, List.not_mem_nil, or_false] at hc ⊢
    omega
  escaped c hc := by
    obtain ⟨d, -, hd⟩ := List.mem_map.mp hc
    rw [token] at hd
    split at hd
    next h =>
      cases hd
      exact h
    next => cases hd
  classes hmem := by
    have hopen : 91 ∈ p := by
      obtain ⟨d, hd, heq⟩ := List.mem_map.mp hmem
      exact raw_eq_token heq.symm ▸ hd
    rw [List.isChain_map]
    refine (hclasses hopen).imp ?_
    rintro c d hcd ⟨hc, e, he, hd⟩
    obtain rfl := raw_eq_token hc.symm
    obtain rfl := raw_eq_token hd.symm
    simp only [List.mem_cons, List.not_mem_nil, or_false] at he
    rcases he with rfl | he
    · -- a dot does not stay as it is
      cases hd
    · exact hcd ⟨rfl, he⟩

section Proof
variable {ρ : Type} {compile : WString → Option ρ} {regexMatch : ρ → WString → Bool} {l : Regex.Locale}
  {p : WString}

/-- **A plain path is matched literally.** -/
theorem matchesLiterally_of_plain (h : Documented compile regexMatch l) (hp : WindowsPath p)
    (hplain : Plain p) : MatchesLiterally compile regexMatch l p := by
  have htokens := tokens_prepare p
  have hcovered : Covered (p.map token) :=
    covered_prepare hp fun hopen => absurd (hplain 91 hopen) (by decide)
  have hliteral : ∀ t ∈ p.map token, t.Literal := by
    intro t ht
    obtain ⟨c, hc, rfl⟩ := List.mem_map.mp ht
    rw [token]
    split
    next => trivial
    next hnot =>
      have hplain := hplain c hc
      have hpath := (hp.2 c hc).2.2
      simp only [Token.Literal, special, unprepared, List.mem_cons, List.not_mem_nil,
        or_false] at hplain hpath ⊢
      omega
  have hne : p.map token ≠ [] := fun hnil => hp.1 (List.map_eq_nil_iff.mp hnil)
  obtain ⟨r, hr⟩ := Option.isSome_iff_exists.mp (h.literal _ _ htokens hne hcovered hliteral)
  have hunits : (p.map token).map Token.unit = p := by
    rw [List.map_map]
    exact (List.map_congr_left fun c _ => unit_token c).trans (List.map_id p)
  have hparse := parse_literal htokens hliteral
  rw [hunits] at hparse
  refine ⟨r, by rw [cStr_prepare hp, hr], fun s => ?_⟩
  rw [← matches_chars l p [] s []]
  constructor
  · exact h.sound _ _ r _ s htokens hcovered hparse hr
  · exact h.complete _ _ r _ s htokens hcovered hparse hr (backtracks_literal p)

/-- Without sets, a special character is in no match. -/
theorem plain_of_not_mem (h : Documented compile regexMatch l) (hp : WindowsPath p) (hopen : 91 ∉ p)
    (hmatch : MatchesLiterally compile regexMatch l p) : Plain p := by
  obtain ⟨r, hr, hall⟩ := hmatch
  rw [cStr_prepare hp] at hr
  have htokens := tokens_prepare p
  have hcovered : Covered (p.map token) := covered_prepare hp fun hmem => absurd hmem hopen
  cases hparse : parse (prepareStringForExclusion p) with
  | none => rw [h.refused _ _ htokens hcovered hparse] at hr; cases hr
  | some x =>
      have hself := h.sound _ _ r x p htokens hcovered hparse hr ((hall p).mpr rfl)
      have honly : x.Only fun c => c ∉ special ∨ c = 92 ∨ c = 46 := by
        refine only_parse htokens ?_ hparse
        intro t ht
        obtain ⟨c, hc, rfl⟩ := List.mem_map.mp ht
        rw [token]
        split
        next hescaped => exact .inr hescaped
        next hraw => exact ⟨fun heq => hopen (heq ▸ hc), fun heq => hraw (.inr heq), .inl⟩
      intro c hc hbad
      obtain ⟨d, hd, hfold⟩ := fold_mem_of_only honly hself c hc
      have hspecial : c ∈ special := by
        simp only [special, unprepared, List.mem_cons, List.not_mem_nil, or_false] at hbad ⊢
        omega
      obtain rfl := h.caseless c hspecial d hfold.symm
      cases hd with
      | inl hd => exact hd hspecial
      | inr hd =>
          simp only [unprepared, List.mem_cons, List.not_mem_nil, or_false] at hbad
          omega

/-- Without bounds, a special character makes the shortest match too short. -/
theorem plain_of_unbounded (h : Documented compile regexMatch l) (hp : WindowsPath p)
    (hbrace : 123 ∉ p) (hline : OneLine l p)
    (hchain : p.IsChain fun c d => ¬ (c = 43 ∧ d = 43) ∧ ¬ (c = 91 ∧ (d = 58 ∨ d = 61)))
    (hmatch : MatchesLiterally compile regexMatch l p) : Plain p := by
  obtain ⟨r, hr, hall⟩ := hmatch
  rw [cStr_prepare hp] at hr
  have htokens := tokens_prepare p
  have hcovered : Covered (p.map token) :=
    covered_prepare hp fun _ => hchain.imp fun _ _ h => h.2
  cases hparse : parse (prepareStringForExclusion p) with
  | none => rw [h.refused _ _ htokens hcovered hparse] at hr; cases hr
  | some x =>
      have hself := h.sound _ _ r x p htokens hcovered hparse hr ((hall p).mpr rfl)
      have hbacktracks : x.Backtracks := by
        refine backtracks_parse htokens (raw_not_mem hbrace) ?_ hparse
        rw [List.isChain_map]
        refine hchain.imp ?_
        rintro c d ⟨hplus, -⟩ ⟨hc, hd⟩
        exact hplus ⟨raw_eq_token hc.symm, raw_eq_token hd.symm⟩
      intro c hc hbad
      have hcost : Parser.cost (token c) = 1 := by
        simp only [unprepared, List.mem_cons, List.not_mem_nil, or_false] at hbad
        rcases hbad with rfl | rfl | rfl | rfl | rfl | rfl | rfl | rfl <;> rfl
      have hlt := shortest_parse_lt htokens (raw_not_mem hbrace)
        ⟨token c, List.mem_map_of_mem hc, hcost⟩ hparse
      obtain ⟨s, hs, hlength⟩ := exists_shortest hline hself
      have hsame := (hall s).mp (h.complete _ _ r x s htokens hcovered hparse hr hbacktracks hs)
      have heq := congrArg List.length hsame
      simp only [List.length_map] at heq hlt
      omega

end Proof

/-- **A path is matched literally just if it is plain**, unless it is out of the ordinary. -/
theorem literally_iff {ρ : Type} {compile : WString → Option ρ} {regexMatch : ρ → WString → Bool}
    {l : Regex.Locale} (h : Documented compile regexMatch l) {p : WString} (hp : WindowsPath p) :
    (Plain p → MatchesLiterally compile regexMatch l p) ∧
      (Ordinary l p → MatchesLiterally compile regexMatch l p → Plain p) := by
  refine ⟨matchesLiterally_of_plain h hp, ?_⟩
  rintro (hopen | ⟨hbrace, hline, hchain⟩) hmatch
  · exact plain_of_not_mem h hp hopen hmatch
  · exact plain_of_unbounded h hp hbrace hline hchain hmatch

/-! ## A library that keeps to the documentation -/

/-- The locale of a program that sets none; a set has the characters that stand in it. -/
def cLocale : Regex.Locale where
  fold := towlower
  InSet body d := ∃ c, Token.raw c ∈ body ∧ towlower c = towlower d
  separator c := c = 10

open Classical in
/-- `regex_match`, by what the syntax says. -/
noncomputable def matchesAll (l : Regex.Locale) (x : Expr) (s : WString) : Bool := decide (x.MatchesAll l s)

theorem matchesAll_iff {l : Regex.Locale} {x : Expr} {s : WString} :
    matchesAll l x s = true ↔ x.MatchesAll l s := by
  simp [matchesAll]

theorem documented_parse : Documented parse (matchesAll cLocale) cLocale where
  literal e ts htokens _ _ hts := by rw [parse_literal htokens hts]; rfl
  refused _ _ _ _ h := h
  sound e ts r x s _ _ hparse hcompile h := by
    obtain rfl := Option.some.inj (hparse.symm.trans hcompile)
    exact matchesAll_iff.mp h
  complete e ts r x s _ _ hparse hcompile _ h := by
    obtain rfl := Option.some.inj (hparse.symm.trans hcompile)
    exact matchesAll_iff.mpr h
  caseless c hc d h := by
    simp only [special, List.mem_cons, List.not_mem_nil, or_false] at hc
    simp only [cLocale, towlower] at h
    split_ifs at h <;> omega

/-- The directory that the client writes to, as it is by default. -/
theorem logs_literally : MatchesLiterally parse (matchesAll cLocale) cLocale
    (wideLiteral "C:\\capture-client\\logs.d") :=
  (literally_iff documented_parse (by decide)).1 (by decide)

/-- The same where the client was installed next to an older copy. -/
theorem copy_not_literally : ¬ MatchesLiterally parse (matchesAll cLocale) cLocale
    (wideLiteral "C:\\capture (2)\\logs") := by
  intro h
  have hpath : WindowsPath (wideLiteral "C:\\capture (2)\\logs") := by decide
  have hplain := plain_of_not_mem documented_parse hpath (by decide) h
  revert hplain
  decide

end Monitor

end CaptureHpc.Client
