/-
# `Client.XmlEscape` — escaping in place

`Server::xml_escape` replaces the special characters of a string by entities
while it walks over the string.  It takes as many steps as the string had
characters at first, but each entity is longer than what it replaces, so the
walk may end before the last special character is reached.

`escapeWithin n` is what a walk of `n` steps makes of a string
(`xmlEscape_eq`): it escapes what stands, when it is reached, within the first
`n` places.  The result is right just if that is everything
(`xmlEscape_iff`).
-/
import CaptureHpc.Client.Monitor

namespace CaptureHpc.Client.XmlEscape

/-- What `xml_escape` puts in place of a character. -/
def entity (c : Nat) : Option WString :=
  if c = 0x0026 then some (wideLiteral "&amp;")
  else if c = 0x003C then some (wideLiteral "&lt;")
  else if c = 0x003E then some (wideLiteral "&gt;")
  else if c = 0x0022 then some (wideLiteral "&quot;")
  else if c = 0x0027 then some (wideLiteral "&apos;")
  else none

/-- `replace(i, 1, entity)`. -/
def replaceAt (s : WString) (i : Nat) (t : WString) : WString := s.take i ++ t ++ s.drop (i + 1)

/-- The loop from the index `i` on, with the number of steps that are left; `none` is the
exception of `at`. -/
def xmlEscapeLoop : Nat → Nat → WString → Option WString
  | 0, _, escaped => some escaped
  | n + 1, i, escaped =>
      match escaped[i]? with
      | none => none
      | some c =>
          match entity c with
          | some t => xmlEscapeLoop n (i + 1) (replaceAt escaped i t)
          | none => xmlEscapeLoop n (i + 1) escaped

/-- `Server::xml_escape`. -/
def xmlEscape (xml : WString) : Option WString := xmlEscapeLoop xml.length 0 xml

/-! ## What is to hold -/

/-- The entities replaced back, from left to right. -/
def unescape : WString → WString
  | 0x26 :: 0x61 :: 0x6D :: 0x70 :: 0x3B :: rest => 0x26 :: unescape rest
  | 0x26 :: 0x6C :: 0x74 :: 0x3B :: rest => 0x3C :: unescape rest
  | 0x26 :: 0x67 :: 0x74 :: 0x3B :: rest => 0x3E :: unescape rest
  | 0x26 :: 0x71 :: 0x75 :: 0x6F :: 0x74 :: 0x3B :: rest => 0x22 :: unescape rest
  | 0x26 :: 0x61 :: 0x70 :: 0x6F :: 0x73 :: 0x3B :: rest => 0x27 :: unescape rest
  | c :: rest => c :: unescape rest
  | [] => []

/-- There is no raw special character, and an ampersand is the beginning of an entity. -/
structure WellEscaped (s : WString) : Prop where
  noRaw : ∀ c ∈ s, (entity c).isSome → c = 0x26
  ampersand : ∀ l r, s = l ++ 0x26 :: r → ∃ c t, entity c = some t ∧ t <+: 0x26 :: r

/-- A character, escaped. -/
def escapeUnit (c : Nat) : WString := (entity c).getD [c]

/-- **The condition**: in the escaped string, each special character stands at a place that the
string had before. -/
def Early (xml : WString) : Prop :=
  ∀ l c r, xml = l ++ c :: r → (entity c).isSome → (l.flatMap escapeUnit).length < xml.length

/-! ## Entities -/

section Entities
variable {c : Nat} {s t rest : WString}

/-- An entity is an ampersand and characters that are not special, and is replaced back by its
character. -/
structure IsEntity (c : Nat) (t : WString) : Prop where
  shape : ∃ name, t = 0x26 :: name ∧ name ≠ [] ∧ ∀ d ∈ name, entity d = none
  back : ∀ rest, unescape (t ++ rest) = c :: unescape rest

theorem isEntity (h : entity c = some t) : IsEntity c t := by
  unfold entity at h
  split_ifs at h with h₁ h₂ h₃ h₄ h₅
  · obtain rfl := Option.some.inj h
    subst h₁
    exact ⟨⟨_, rfl, List.cons_ne_nil _ _, by decide⟩, fun _ => rfl⟩
  · obtain rfl := Option.some.inj h
    subst h₂
    exact ⟨⟨_, rfl, List.cons_ne_nil _ _, by decide⟩, fun _ => rfl⟩
  · obtain rfl := Option.some.inj h
    subst h₃
    exact ⟨⟨_, rfl, List.cons_ne_nil _ _, by decide⟩, fun _ => rfl⟩
  · obtain rfl := Option.some.inj h
    subst h₄
    exact ⟨⟨_, rfl, List.cons_ne_nil _ _, by decide⟩, fun _ => rfl⟩
  · obtain rfl := Option.some.inj h
    subst h₅
    exact ⟨⟨_, rfl, List.cons_ne_nil _ _, by decide⟩, fun _ => rfl⟩

theorem ne_ampersand (h : entity c = none) : c ≠ 0x26 := by
  rintro rfl
  cases h

theorem escapeUnit_some (h : entity c = some t) : escapeUnit c = t := by
  rw [escapeUnit, h, Option.getD_some]

theorem escapeUnit_none (h : entity c = none) : escapeUnit c = [c] := by
  rw [escapeUnit, h, Option.getD_none]

theorem unescape_plain (h : c ≠ 0x26) : unescape (c :: rest) = c :: unescape rest := by
  rw [unescape.eq_6]
  all_goals
    intros
    simp_all

/-- Replacing back undoes the escape of a character. -/
theorem unescape_unit (c : Nat) (rest : WString) :
    unescape (escapeUnit c ++ rest) = c :: unescape rest := by
  cases h : entity c with
  | none =>
      rw [escapeUnit_none h]
      exact unescape_plain (ne_ampersand h)
  | some t =>
      rw [escapeUnit_some h]
      exact (isEntity h).back rest

end Entities

/-! ## The walk -/

/-- What is reached within `n` places is escaped. -/
def escapeWithin : Nat → WString → WString
  | _, [] => []
  | 0, c :: w => c :: w
  | n + 1, c :: w => escapeUnit c ++ escapeWithin (n + 1 - (escapeUnit c).length) w

theorem escapeWithin_zero (w : WString) : escapeWithin 0 w = w := by
  cases w <;> rfl

section Walk
variable {done t w : WString}

theorem getElem?_done (done : WString) (c : Nat) (w : WString) :
    (done ++ c :: w)[done.length]? = some c := by
  rw [List.getElem?_append_right (Nat.le_refl _), Nat.sub_self, List.getElem?_cons_zero]

theorem replaceAt_done (done : WString) (c : Nat) (t w : WString) :
    replaceAt (done ++ c :: w) done.length t = done ++ t ++ w := by
  have hdrop : (done ++ c :: w).drop (done.length + 1) = w := by
    rw [← List.drop_drop, List.drop_left, List.drop_one, List.tail_cons]
  rw [replaceAt, List.take_left, hdrop]

theorem xmlEscapeLoop_plain {c : Nat} (h : entity c = none) (n : Nat) :
    xmlEscapeLoop (n + 1) done.length (done ++ c :: w) =
      xmlEscapeLoop n (done ++ [c]).length (done ++ [c] ++ w) := by
  rw [xmlEscapeLoop, getElem?_done]
  simp only [h, List.length_append, List.length_singleton, List.append_assoc, List.cons_append,
    List.nil_append]

theorem xmlEscapeLoop_special {c : Nat} (h : entity c = some t) (n : Nat) :
    xmlEscapeLoop (n + 1) done.length (done ++ c :: w) =
      xmlEscapeLoop n (done.length + 1) (done ++ t ++ w) := by
  rw [xmlEscapeLoop, getElem?_done]
  simp only [h, replaceAt_done]

/-- The walk passes over characters that are not special. -/
theorem xmlEscapeLoop_pass (w : WString) : ∀ (t done : WString) (n : Nat),
    (∀ d ∈ t, entity d = none) → xmlEscapeLoop n done.length (done ++ (t ++ w)) =
      xmlEscapeLoop (n - t.length) (done ++ t).length (done ++ t ++ w) := by
  intro t
  induction t with
  | nil =>
      intro done n _
      rw [List.nil_append, List.append_nil, List.length_nil, Nat.sub_zero]
  | cons d t ih =>
      intro done n hplain
      cases n with
      | zero => rw [Nat.zero_sub, xmlEscapeLoop, xmlEscapeLoop, List.append_assoc]
      | succ n =>
          have hrest := ih (done ++ [d]) n fun e he => hplain e (List.mem_cons_of_mem _ he)
          rw [List.cons_append, xmlEscapeLoop_plain (hplain d List.mem_cons_self), hrest]
          simp

/-- What the walk makes of the rest of the string. -/
theorem xmlEscapeLoop_eq : ∀ (w done : WString) (n : Nat), n ≤ w.length →
    xmlEscapeLoop n done.length (done ++ w) = some (done ++ escapeWithin n w) := by
  intro w
  induction w with
  | nil =>
      intro done n hn
      obtain rfl := Nat.le_zero.mp hn
      rfl
  | cons c w ih =>
      intro done n hn
      cases n with
      | zero => rfl
      | succ n =>
          have hn : n ≤ w.length := Nat.le_of_succ_le_succ hn
          rw [escapeWithin]
          cases hc : entity c with
          | none =>
              rw [xmlEscapeLoop_plain hc, ih (done ++ [c]) n hn, escapeUnit_none hc]
              simp
          | some t =>
              -- the rest of the entity is walked over too
              obtain ⟨name, rfl, -, hname⟩ := (isEntity hc).shape
              have hpass := xmlEscapeLoop_pass w name (done ++ [0x26]) n hname
              have hrest := ih (done ++ [0x26] ++ name) (n - name.length)
                (Nat.le_trans (Nat.sub_le _ _) hn)
              have hsame : done ++ 0x26 :: name ++ w = done ++ [0x26] ++ (name ++ w) := by simp
              rw [List.length_append, List.length_singleton, hrest] at hpass
              rw [xmlEscapeLoop_special hc, hsame, hpass, escapeUnit_some hc]
              simp

end Walk

/-- **The walk ends**, and escapes what it reaches. -/
theorem xmlEscape_eq (xml : WString) : xmlEscape xml = some (escapeWithin xml.length xml) :=
  xmlEscapeLoop_eq xml [] xml.length (Nat.le_refl _)

/-! ## Well-escaped strings -/

section Escaped
variable {c : Nat} {s t w : WString}

/-- Whatever stands behind the first `n` places when it is reached is not special. -/
def EarlyWithin (n : Nat) (w : WString) : Prop :=
  ∀ l c r, w = l ++ c :: r → (entity c).isSome → (l.flatMap escapeUnit).length < n

theorem earlyWithin_cons {n : Nat} :
    EarlyWithin n (c :: w) ↔
      ((entity c).isSome → 0 < n) ∧ EarlyWithin (n - (escapeUnit c).length) w := by
  constructor
  · intro h
    refine ⟨h [] c w rfl, fun l d r hw hd => ?_⟩
    have hlt := h (c :: l) d r (by rw [hw]; rfl) hd
    rw [List.flatMap_cons, List.length_append] at hlt
    omega
  · rintro ⟨hhead, hrest⟩ l d r hw hd
    cases l with
    | nil =>
        obtain ⟨rfl, -⟩ := List.cons.inj hw
        exact hhead hd
    | cons c' l =>
        obtain ⟨rfl, htail⟩ := List.cons.inj hw
        have hlt := hrest l d r htail hd
        rw [List.flatMap_cons, List.length_append]
        omega

theorem WellEscaped.tail (h : WellEscaped (c :: s)) : WellEscaped s where
  noRaw d hd := h.noRaw d (List.mem_cons_of_mem _ hd)
  ampersand l r hs := h.ampersand (c :: l) r (by rw [hs]; rfl)

theorem WellEscaped.of_append : ∀ {l : WString}, WellEscaped (l ++ s) → WellEscaped s := by
  intro l
  induction l with
  | nil => exact id
  | cons d l ih => exact fun h => ih h.tail

/-- Before a well-escaped string a character that is not special may stand. -/
theorem WellEscaped.cons (hc : entity c = none) (h : WellEscaped s) : WellEscaped (c :: s) where
  noRaw d hd hspecial := by
    rcases List.mem_cons.mp hd with rfl | hd
    · rw [hc] at hspecial
      cases hspecial
    · exact h.noRaw d hd hspecial
  ampersand l r hs := by
    cases l with
    | nil => exact absurd (List.cons.inj hs).1 (ne_ampersand hc)
    | cons d l => exact h.ampersand l r (List.cons.inj hs).2

theorem WellEscaped.plain (hplain : ∀ d ∈ t, entity d = none) (h : WellEscaped s) :
    WellEscaped (t ++ s) := by
  induction t with
  | nil => exact h
  | cons d t ih =>
      exact (ih fun e he => hplain e (List.mem_cons_of_mem _ he)).cons (hplain d List.mem_cons_self)

theorem WellEscaped.unit (c : Nat) (h : WellEscaped s) : WellEscaped (escapeUnit c ++ s) := by
  cases hc : entity c with
  | none =>
      rw [escapeUnit_none hc]
      exact h.cons hc
  | some t =>
      obtain ⟨name, rfl, -, hname⟩ := (isEntity hc).shape
      have hrest := h.plain hname
      rw [escapeUnit_some hc, List.cons_append]
      refine ⟨fun d hd hspecial => ?_, fun l r hs => ?_⟩
      · rcases List.mem_cons.mp hd with rfl | hd
        · rfl
        · exact hrest.noRaw d hd hspecial
      · cases l with
        | nil =>
            refine ⟨c, _, hc, ?_⟩
            rw [List.nil_append] at hs
            rw [← hs, ← List.cons_append]
            exact List.prefix_append _ _
        | cons d l => exact hrest.ampersand l r (List.cons.inj hs).2

/-- Entities that were in the string get lost when the entities are replaced back. -/
theorem unescape_length_lt : ∀ {n : Nat} {s : WString}, s.length ≤ n → WellEscaped s →
    (unescape s).length ≤ s.length ∧
      ((∃ c ∈ s, (entity c).isSome) → (unescape s).length < s.length) := by
  intro n
  induction n with
  | zero =>
      intro s hn _
      obtain rfl := List.eq_nil_of_length_eq_zero (Nat.le_zero.mp hn)
      exact ⟨Nat.le_refl _, fun ⟨c, hc, _⟩ => absurd hc List.not_mem_nil⟩
  | succ n ih =>
      intro s hn h
      cases s with
      | nil => exact ⟨Nat.le_refl _, fun ⟨c, hc, _⟩ => absurd hc List.not_mem_nil⟩
      | cons d s =>
          rw [List.length_cons] at hn
          by_cases hd : d = 0x26
          · subst hd
            obtain ⟨c, t, hc, rest, hrest⟩ := h.ampersand [] s rfl
            obtain ⟨name, rfl, hname, -⟩ := (isEntity hc).shape
            have hback := (isEntity hc).back rest
            have hlength := congrArg List.length hrest
            rw [List.length_append, List.length_cons, List.length_cons] at hlength
            have hwell : WellEscaped rest := by
              rw [← hrest] at h
              exact h.of_append
            have hshort := (ih (s := rest) (by omega) hwell).1
            rw [← hrest, hback, List.length_cons, List.length_append, List.length_cons]
            have hpos := List.length_pos_of_ne_nil hname
            exact ⟨by omega, fun _ => by omega⟩
          · have hback := @unescape_plain d s hd
            obtain ⟨hle, hlt⟩ := ih (s := s) (by omega) h.tail
            rw [hback, List.length_cons, List.length_cons]
            refine ⟨by omega, ?_⟩
            rintro ⟨e, he, hspecial⟩
            rcases List.mem_cons.mp he with rfl | he
            · exact absurd (h.noRaw e List.mem_cons_self hspecial) hd
            · have hshort := hlt ⟨e, he, hspecial⟩
              omega

end Escaped

/-! ## When the result is right -/

theorem escapeWithin_early : ∀ {w : WString} {n : Nat}, EarlyWithin n w →
    WellEscaped (escapeWithin n w) ∧ unescape (escapeWithin n w) = w := by
  intro w
  induction w with
  | nil =>
      intro n _
      have hnil : escapeWithin n [] = [] := by cases n <;> rfl
      rw [hnil]
      exact ⟨⟨fun c hc => absurd hc List.not_mem_nil, fun l r h => by simp at h⟩, rfl⟩
  | cons c w ih =>
      intro n h
      obtain ⟨hhead, hrest⟩ := earlyWithin_cons.mp h
      obtain ⟨hwell, hback⟩ := ih hrest
      have hstep : escapeWithin n (c :: w) =
          escapeUnit c ++ escapeWithin (n - (escapeUnit c).length) w := by
        cases n with
        | succ n => rfl
        | zero =>
            cases hc : entity c with
            | none => rw [escapeUnit_none hc, escapeWithin, Nat.zero_sub, escapeWithin_zero]; rfl
            | some t => exact absurd (hhead (by rw [hc]; rfl)) (Nat.lt_irrefl 0)
      rw [hstep, unescape_unit, hback]
      exact ⟨hwell.unit c, rfl⟩

theorem escapeWithin_late : ∀ {w : WString} {n : Nat}, WellEscaped (escapeWithin n w) →
    unescape (escapeWithin n w) = w → EarlyWithin n w := by
  intro w
  induction w with
  | nil => exact fun _ _ l c r h => by simp at h
  | cons c w ih =>
      intro n hwell hback
      cases n with
      | zero =>
          -- nothing was escaped
          rw [escapeWithin] at hwell hback
          have hlt := (unescape_length_lt (Nat.le_refl _) hwell).2
          rw [hback] at hlt
          intro l d r hw hd
          have hmem : d ∈ c :: w := by
            rw [hw]
            exact List.mem_append_right _ List.mem_cons_self
          exact absurd (hlt ⟨d, hmem, hd⟩) (Nat.lt_irrefl _)
      | succ n =>
          rw [escapeWithin] at hwell hback
          rw [unescape_unit] at hback
          exact earlyWithin_cons.mpr
            ⟨fun _ => Nat.succ_pos n, ih hwell.of_append (List.cons.inj hback).2⟩

/-- **`xml_escape` escapes the string** just if each special character stands, in the escaped
string, at a place that the string had before. -/
theorem xmlEscape_iff (xml : WString) :
    (∃ escaped, xmlEscape xml = some escaped ∧ WellEscaped escaped ∧ unescape escaped = xml) ↔
      Early xml := by
  rw [xmlEscape_eq]
  constructor
  · rintro ⟨escaped, hescaped, hwell, hback⟩
    obtain rfl := Option.some.inj hescaped
    exact escapeWithin_late hwell hback
  · intro h
    exact ⟨_, rfl, escapeWithin_early h⟩

/-- The second of two ampersands is not reached. -/
theorem second_ampersand_raw :
    ¬ ∀ xml, ∃ escaped, xmlEscape xml = some escaped ∧ WellEscaped escaped ∧
      unescape escaped = xml := by
  intro hall
  obtain ⟨escaped, hescaped, hwell, -⟩ := hall [0x26, 0x26]
  have hrun : xmlEscape [0x26, 0x26] = some (wideLiteral "&amp;" ++ [0x26]) := by decide
  obtain rfl := Option.some.inj (hrun.symm.trans hescaped)
  obtain ⟨c, t, hc, hprefix⟩ := hwell.ampersand _ [] rfl
  obtain ⟨name, rfl, hname, -⟩ := (isEntity hc).shape
  have hlength := hprefix.length_le
  have hpos := List.length_pos_of_ne_nil hname
  rw [List.length_cons, List.length_singleton] at hlength
  omega

end CaptureHpc.Client.XmlEscape
