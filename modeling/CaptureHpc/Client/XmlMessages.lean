/-
# `Client.XmlMessages` — messages that are sent with escaped values

`Server::sendXML` writes the tag of an empty element and escapes the values with
`xml_escape`, which may not get to the end of a value.  The server reads the
stream line by line, and a line that is no document ends its thread.

So a value that is not escaped in full does not only arrive as another one: it
may take all that follows with it.  `run_eq_iff` says which values arrive: a
quote, an ampersand or a less-than sign must be reached by the walk, an
apostrophe or a greater-than sign need not be, and there must be no white space
but blanks and nothing that XML does not have.
-/
import CaptureHpc.Client.Element
import CaptureHpc.Client.XmlEscape
import CaptureHpc.Java.Lines
import CaptureHpc.Lib.XmlItems
import CaptureHpc.Lib.XmlText
import Mathlib.Data.List.Forall2
import Mathlib.Data.Set.List

namespace CaptureHpc

open Java Xml

/-! ## The thread of the connection -/

namespace Server.ClientEventController

variable (other : List Char → Option (Content × List Char)) (deliver : Content → Content)

/-- A line: what is handed on while it is parsed, and whether the parser does not throw.  What
stands behind the root is looked at when the root was handed on. -/
def parse (buffer : List Char) : List (String × Element) × Bool :=
  match buffer with
  | [] => ([], true)
  | '<' :: rest =>
      match readElement (readContent other (rest.length + 1)) rest with
      | none => ([], false)
      | some (root, rest) =>
          match ContentHandler.built (deliver (root .nil)) with
          | none => ([], false)
          | some roots => (roots, isEpilog other (rest.length + 1) rest)
  | _ => ([], false)

/-- The loop of `run`, with all that is handed on. -/
def run : List (List Char) → List (String × Element)
  | [] => []
  | buffer :: lines =>
      let (roots, parsed) := parse other deliver buffer
      if parsed then roots ++ run lines else roots

end Server.ClientEventController

namespace Client

/-! ## What is sent -/

/-- UTF-16 units as characters, by way of UTF-8; half a pair becomes the replacement character. -/
def characters : WString → List Char
  | [] => []
  | [u] => [character u]
  | u :: v :: w =>
      if (0xD800 ≤ u ∧ u < 0xDC00) ∧ 0xDC00 ≤ v ∧ v < 0xE000 then
        Char.ofNat (0x10000 + (u - 0xD800) * 0x400 + (v - 0xDC00)) :: characters w
      else character u :: characters (v :: w)
where
  character (u : Nat) : Char := if 0xD800 ≤ u ∧ u < 0xE000 then Char.ofNat 0xFFFD else Char.ofNat u

/-- An attribute as it is written. -/
def sentAttribute (name value : WString) : Option WString := do
  let escaped ← XmlEscape.xmlEscape value
  return wideLiteral " " ++ name ++ wideLiteral "=\"" ++ escaped ++ wideLiteral "\""

/-- `Server::sendXML`. -/
def sendXML (elementName : WString) (vAttributes : List (WString × WString)) : Option WString := do
  let attributes ← vAttributes.mapM fun a => sentAttribute a.1 a.2
  return wideLiteral "<" ++ elementName ++ attributes.flatten ++ wideLiteral "/>\r\n"

/-- An element that is sent: its name and the names of its attributes are in the source, and the
values are what the client has. -/
structure XmlMessage where
  elementName : String
  vAttributes : List (String × WString)

namespace XmlMessage

def sent (m : XmlMessage) : Option WString :=
  sendXML (wide m.elementName.toList) (m.vAttributes.map fun a => (wide a.1.toList, a.2))

/-- The names are names, and no attribute comes twice. -/
structure WellNamed (m : XmlMessage) : Prop where
  name : isName m.elementName.toList
  names : ∀ a ∈ m.vAttributes, Element.IsAttributeName a.1
  nodup : (m.vAttributes.map Prod.fst).Nodup

/-- The server has handed it on: under its name, with these attributes and their values. -/
def Arrives (m : XmlMessage) (d : String × Server.Element) : Prop :=
  ∃ attributes : List (String × String),
    d = (m.elementName, { name := m.elementName, attributes }) ∧
      attributes.map (fun a => (a.1, wide a.2.toList)) = m.vAttributes

/-- What the connection carries. -/
def stream (messages : List XmlMessage) : Option WString := (messages.mapM sent).map List.flatten

end XmlMessage

/-! ## Values that arrive -/

/-- A character that may not stand in a value as it is. -/
def endsValue (c : Char) : Bool := c = '&' || c = '<' || c = '"'

/-- A character as it is escaped. -/
def escapeChar (c : Char) : List Char := ((XmlEscape.entity c.toNat).map narrow).getD [c]

/-- **The condition**: only characters that XML has, no white space but blanks, and in the escaped
value each `&`, `<` and `"` stands at a place that the value had before. -/
structure Arriving (cs : List Char) : Prop where
  chars : ∀ c ∈ cs, isChar c ∧ (isSpace c → c = ' ')
  early : ∀ l c r, cs = l ++ c :: r → endsValue c →
    (wide (l.flatMap escapeChar)).length < (wide cs).length

/-! ### Units and characters -/

section Units

theorem wide_append (l m : List Char) : wide (l ++ m) = wide l ++ wide m := List.flatMap_append

theorem wide_cons (c : Char) (cs : List Char) : wide (c :: cs) = utf16 c ++ wide cs :=
  List.flatMap_cons

theorem characters_unit {u : Nat} (h : u < 0xD800 ∨ 0xE000 ≤ u) (w : WString) :
    characters (u :: w) = Char.ofNat u :: characters w := by
  have hself : characters.character u = Char.ofNat u := if_neg (by omega)
  cases w with
  | nil =>
      show [characters.character u] = [Char.ofNat u]
      rw [hself]
  | cons v w => rw [characters, if_neg (by omega), hself]

/-- **What is written as units** is read again. -/
theorem characters_wide : ∀ cs : List Char, characters (wide cs) = cs
  | [] => rfl
  | c :: cs => by
      have hvalid : c.toNat < 0xD800 ∨ 0xE000 ≤ c.toNat ∧ c.toNat < 0x110000 := by
        rcases c.valid with h | h
        · exact .inl h
        · exact .inr ⟨h.1, h.2⟩
      have ih := characters_wide cs
      rw [wide_cons, utf16]
      split
      · rw [List.singleton_append, characters_unit (by omega), ih, Char.ofNat_toNat]
      · next hplane =>
          have hpair : 0x10000 + (0xD800 + (c.toNat - 0x10000) / 0x400 - 0xD800) * 0x400 +
              (0xDC00 + (c.toNat - 0x10000) % 0x400 - 0xDC00) = c.toNat := by omega
          show characters (_ :: _ :: wide cs) = _
          rw [characters, if_pos (by omega), hpair, ih, Char.ofNat_toNat]

theorem wideLiteral_eq {s : String} (h : s.toList.all fun c => c.toNat < 0x10000) :
    wideLiteral s = wide s.toList := by
  rw [wideLiteral, wide]
  generalize s.toList = cs at h
  induction cs with
  | nil => rfl
  | cons c cs ih =>
      rw [List.all_cons, Bool.and_eq_true, decide_eq_true_eq] at h
      rw [List.map_cons, List.flatMap_cons, utf16, if_pos h.1, ih h.2]
      rfl

theorem entity_pair {u : Nat} (h : 0xD800 ≤ u) : XmlEscape.entity u = none := by
  unfold XmlEscape.entity
  repeat rw [if_neg (by omega)]

theorem wide_narrow {c : Nat} {t : WString} (h : XmlEscape.entity c = some t) :
    wide (narrow t) = t := by
  unfold XmlEscape.entity at h
  split_ifs at h
  all_goals
    obtain rfl := Option.some.inj h
    decide

/-- Escaped by characters it is what is escaped by units. -/
theorem wide_escapeChar (c : Char) :
    wide (escapeChar c) = (utf16 c).flatMap XmlEscape.escapeUnit := by
  rw [escapeChar, utf16]
  split
  · next hplane =>
      rw [List.flatMap_singleton, XmlEscape.escapeUnit]
      cases hentity : XmlEscape.entity c.toNat with
      | none => simp [wide, utf16, hplane]
      | some t => exact wide_narrow hentity
  · next hplane =>
      rw [entity_pair (by omega), Option.map_none, Option.getD_none, List.flatMap_cons,
        List.flatMap_singleton, XmlEscape.escapeUnit_none (entity_pair (by omega)),
        XmlEscape.escapeUnit_none (entity_pair (by omega))]
      simp [wide, utf16, hplane]

/-- What is reached within `n` places is escaped. -/
def escapeChars : Nat → List Char → List Char
  | _, [] => []
  | 0, c :: cs => c :: cs
  | n + 1, c :: cs => escapeChar c ++ escapeChars (n + 1 - (wide (escapeChar c)).length) cs

theorem escapeChars_zero (cs : List Char) : escapeChars 0 cs = cs := by
  cases cs <;> rfl

/-- The walk passes over a pair. -/
theorem escapeWithin_pair {u v : Nat} (hu : XmlEscape.escapeUnit u = [u])
    (hv : XmlEscape.escapeUnit v = [v]) (n : Nat) (w : WString) :
    XmlEscape.escapeWithin (n + 1) (u :: v :: w) =
      u :: v :: XmlEscape.escapeWithin (n + 1 - 2) w := by
  rw [XmlEscape.escapeWithin, hu]
  cases n with
  | zero =>
      show u :: XmlEscape.escapeWithin 0 (v :: w) = u :: v :: XmlEscape.escapeWithin 0 w
      rw [XmlEscape.escapeWithin_zero, XmlEscape.escapeWithin_zero]
  | succ n =>
      show u :: XmlEscape.escapeWithin (n + 1) (v :: w) = _
      rw [XmlEscape.escapeWithin, hv]
      rfl

theorem escapeWithin_wide : ∀ (cs : List Char) (n : Nat),
    XmlEscape.escapeWithin n (wide cs) = wide (escapeChars n cs)
  | [], n => by cases n <;> rfl
  | c :: cs, 0 => by rw [XmlEscape.escapeWithin_zero, escapeChars_zero]
  | c :: cs, n + 1 => by
      rw [escapeChars, wide_append, ← escapeWithin_wide cs, wide_escapeChar, wide_cons, utf16]
      split
      · rw [List.singleton_append, XmlEscape.escapeWithin, List.flatMap_singleton]
      · next hplane =>
          have hfirst := XmlEscape.escapeUnit_none
            (entity_pair (u := 0xD800 + (c.toNat - 0x10000) / 0x400) (by omega))
          have hsecond := XmlEscape.escapeUnit_none
            (entity_pair (u := 0xDC00 + (c.toNat - 0x10000) % 0x400) (by omega))
          generalize 0xD800 + (c.toNat - 0x10000) / 0x400 = u at hfirst
          generalize 0xDC00 + (c.toNat - 0x10000) % 0x400 = v at hsecond
          rw [List.flatMap_cons, List.flatMap_singleton, hfirst, hsecond]
          exact escapeWithin_pair hfirst hsecond n (wide cs)

end Units

/-! ### What the parser reads -/

section Reading
variable {c : Char} {cs rest : List Char} {n : Nat}

theorem special_cases (h : (XmlEscape.entity c.toNat).isSome) :
    c = '&' ∨ c = '<' ∨ c = '>' ∨ c = '"' ∨ c = '\'' := by
  have hself : ∀ {m : Nat}, c.toNat = m → c = Char.ofNat m := fun h => by
    rw [← h, Char.ofNat_toNat]
  unfold XmlEscape.entity at h
  split_ifs at h with h₁ h₂ h₃ h₄ h₅
  · exact .inl (hself h₁)
  · exact .inr (.inl (hself h₂))
  · exact .inr (.inr (.inl (hself h₃)))
  · exact .inr (.inr (.inr (.inl (hself h₄))))
  · exact .inr (.inr (.inr (.inr (hself h₅))))
  · cases h

theorem not_endsValue (h : XmlEscape.entity c.toNat = none) : endsValue c = false := by
  rw [endsValue, Bool.eq_false_iff]
  intro hends
  simp only [Bool.or_eq_true, decide_eq_true_eq] at hends
  rcases hends with (rfl | rfl) | rfl
  · cases h
  · cases h
  · cases h

/-- **An entity** is read as its character. -/
theorem attValue_entity (h : (XmlEscape.entity c.toNat).isSome) (rest : List Char) :
    attValue '"' none (escapeChar c ++ rest) = consChar c (attValue '"' none rest) := by
  rcases special_cases h with rfl | rfl | rfl | rfl | rfl
  · rfl
  · rfl
  · rfl
  · rfl
  · rfl

theorem escapeChar_none (h : XmlEscape.entity c.toNat = none) : escapeChar c = [c] := by
  rw [escapeChar, h, Option.map_none, Option.getD_none]

/-- A character that ends nothing. -/
theorem attValue_char (h : endsValue c = false) (rest : List Char) :
    attValue '"' none (c :: rest) =
      if c = '\r' && rest.head? = some '\n' then attValue '"' none rest
      else if isChar c then consChar (if isSpace c then ' ' else c) (attValue '"' none rest)
      else none := by
  simp only [endsValue, Bool.or_eq_false_iff, decide_eq_false_iff_not] at h
  obtain ⟨⟨hamp, hlt⟩, hquote⟩ := h
  rw [attValue, if_neg hquote, if_neg hlt, if_neg hamp]

/-- What is read is not longer than what was escaped. -/
theorem length_of_attValue : ∀ {cs : List Char} {n : Nat} {w r : List Char},
    attValue '"' none (escapeChars n cs ++ '"' :: rest) = some (w, r) → w.length ≤ cs.length
  | [], n, w, r, h => by
      have hnil : escapeChars n [] = [] := by cases n <;> rfl
      rw [hnil] at h
      exact attValue_length h
  | c :: cs, 0, w, r, h => attValue_length h
  | c :: cs, n + 1, w, r, h => by
      rw [escapeChars, List.append_assoc] at h
      rw [List.length_cons]
      cases hentity : XmlEscape.entity c.toNat with
      | some t =>
          rw [attValue_entity (by rw [hentity]; rfl)] at h
          obtain ⟨w', rfl, hrest⟩ := consChar_eq_some.mp h
          exact Nat.succ_le_succ (length_of_attValue hrest)
      | none =>
          rw [escapeChar_none hentity, List.singleton_append,
            attValue_char (not_endsValue hentity)] at h
          split at h
          · exact Nat.le_succ_of_le (length_of_attValue h)
          split at h
          · obtain ⟨w', rfl, hrest⟩ := consChar_eq_some.mp h
            exact Nat.succ_le_succ (length_of_attValue hrest)
          · cases h

/-! ### When a value is read -/

/-- The same of a walk of `n` steps. -/
def arrivesWithin : Nat → List Char → Bool
  | _, [] => true
  | n, c :: cs => isChar c && (c = ' ' || !isSpace c) && (0 < n || !endsValue c) &&
      arrivesWithin (n - (wide (escapeChar c)).length) cs

theorem arrivesWithin_cons {c : Char} : arrivesWithin n (c :: cs) ↔ isChar c ∧
    (isSpace c → c = ' ') ∧ (endsValue c → 0 < n) ∧
      arrivesWithin (n - (wide (escapeChar c)).length) cs := by
  rw [arrivesWithin]
  simp only [Bool.and_eq_true, Bool.or_eq_true, decide_eq_true_eq, Bool.not_eq_true', and_assoc]
  refine and_congr_right fun _ => and_congr ?_ (and_congr_left fun _ => ?_)
  · cases isSpace c with
    | true => simp
    | false => simp
  · cases endsValue c with
    | true => simp
    | false => simp

theorem arrivesWithin_iff : ∀ {cs : List Char} {n : Nat}, arrivesWithin n cs ↔
    (∀ c ∈ cs, isChar c ∧ (isSpace c → c = ' ')) ∧ ∀ l c r, cs = l ++ c :: r → endsValue c →
      (wide (l.flatMap escapeChar)).length < n
  | [], n => by simp [arrivesWithin]
  | c :: cs, n => by
      rw [arrivesWithin_cons, List.forall_mem_cons, arrivesWithin_iff]
      constructor
      · rintro ⟨hchar, hspace, hends, hchars, hearly⟩
        refine ⟨⟨⟨hchar, hspace⟩, hchars⟩, fun l d r hcs hd => ?_⟩
        cases l with
        | nil =>
            obtain ⟨rfl, -⟩ := List.cons.inj hcs
            exact hends hd
        | cons c' l =>
            obtain ⟨rfl, htail⟩ := List.cons.inj hcs
            have hlt := hearly l d r htail hd
            rw [List.flatMap_cons, wide_append, List.length_append]
            omega
      · rintro ⟨⟨⟨hchar, hspace⟩, hchars⟩, hearly⟩
        refine ⟨hchar, hspace, hearly [] c cs rfl, hchars, fun l d r hcs hd => ?_⟩
        have hlt := hearly (c :: l) d r (by rw [hcs]; rfl) hd
        rw [List.flatMap_cons, wide_append, List.length_append] at hlt
        omega

theorem arriving_iff (cs : List Char) : Arriving cs ↔ arrivesWithin (wide cs).length cs := by
  rw [arrivesWithin_iff]
  exact ⟨fun h => ⟨h.chars, h.early⟩, fun h => ⟨h.1, h.2⟩⟩

instance (cs : List Char) : Decidable (Arriving cs) := decidable_of_iff _ (arriving_iff cs).symm

theorem isPlain_iff {c : Char} :
    isPlain c ↔ isChar c ∧ (isSpace c → c = ' ') ∧ endsValue c = false := by
  simp only [isPlain, endsValue, Bool.and_eq_true, Bool.or_eq_true, decide_eq_true_eq,
    Bool.not_eq_true', Bool.or_eq_false_iff, decide_eq_false_iff_not]
  cases isSpace c with
  | true => simp; tauto
  | false => simp; tauto

theorem arrivesWithin_zero : ∀ {cs : List Char}, arrivesWithin 0 cs ↔ cs.all isPlain
  | [] => by simp [arrivesWithin]
  | c :: cs => by
      rw [arrivesWithin_cons, Nat.zero_sub, arrivesWithin_zero, List.all_cons, Bool.and_eq_true,
        isPlain_iff]
      simp [and_assoc]

/-- **Read as it was.** -/
theorem reads_of_arrivesWithin : ∀ {cs : List Char} {n : Nat}, arrivesWithin n cs →
    Reads (escapeChars n cs) cs
  | [], n, _ => fun rest => by
      have hnil : escapeChars n [] = [] := by cases n <;> rfl
      rw [hnil]
      exact attValue_plain rfl
  | c :: cs, 0, h => fun rest => attValue_plain (arrivesWithin_zero.mp h)
  | c :: cs, n + 1, h => fun rest => by
      obtain ⟨hchar, hspace, -, hrest⟩ := arrivesWithin_cons.mp h
      have ih := reads_of_arrivesWithin hrest rest
      rw [escapeChars, List.append_assoc]
      cases hentity : XmlEscape.entity c.toNat with
      | some t =>
          rw [attValue_entity (by rw [hentity]; rfl), ih]
          rfl
      | none =>
          have hself : (if isSpace c then ' ' else c) = c := by
            split
            · next hc => exact (hspace hc).symm
            · rfl
          have hcr : c ≠ '\r' := by
            rintro rfl
            exact absurd (hspace (by decide)) (by decide)
          rw [escapeChar_none hentity] at ih ⊢
          rw [List.singleton_append, attValue_char (not_endsValue hentity), if_neg (by simp [hcr]),
            if_pos hchar, hself, ih]
          rfl

/-- And nothing else is. -/
theorem arrivesWithin_of_attValue : ∀ {cs : List Char} {n : Nat} {r : List Char},
    attValue '"' none (escapeChars n cs ++ '"' :: rest) = some (cs, r) → arrivesWithin n cs
  | [], _, _, _ => rfl
  | c :: cs, 0, _, h => arrivesWithin_zero.mpr (plain_of_attValue h)
  | c :: cs, n + 1, r, h => by
      rw [escapeChars, List.append_assoc] at h
      refine arrivesWithin_cons.mpr ?_
      cases hentity : XmlEscape.entity c.toNat with
      | some t =>
          have hsome : (XmlEscape.entity c.toNat).isSome := by rw [hentity]; rfl
          rw [attValue_entity hsome] at h
          obtain ⟨w', hw, hrest⟩ := consChar_eq_some.mp h
          obtain ⟨-, rfl⟩ := List.cons.inj hw
          have hchar : isChar c ∧ isSpace c = false := by
            rcases special_cases hsome with rfl | rfl | rfl | rfl | rfl
            all_goals decide
          refine ⟨hchar.1, fun hspace => ?_, fun _ => Nat.succ_pos n,
            arrivesWithin_of_attValue hrest⟩
          rw [hchar.2] at hspace
          cases hspace
      | none =>
          have hends := not_endsValue hentity
          rw [escapeChar_none hentity, List.singleton_append, attValue_char hends] at h
          split at h
          · have hlength := length_of_attValue h
            exact absurd hlength (by simp)
          split at h
          · next hchar =>
              obtain ⟨w', hw, hrest⟩ := consChar_eq_some.mp h
              obtain ⟨hself, rfl⟩ := List.cons.inj hw
              refine ⟨hchar, fun hspace => ?_, fun hc => ?_, ?_⟩
              · rw [if_pos hspace] at hself
                exact hself
              · rw [hends] at hc
                cases hc
              · rw [escapeChar_none hentity]
                exact arrivesWithin_of_attValue hrest
          · cases h

/-- A line that ends in a value ends where the value has a break. -/
theorem takeWhile_escapeChars : ∀ (n : Nat) (cs : List Char),
    (escapeChars n cs).takeWhile inLine = escapeChars n (cs.takeWhile inLine)
  | n, [] => by cases n <;> rfl
  | 0, c :: cs => by rw [escapeChars_zero, escapeChars_zero]
  | n + 1, c :: cs => by
      rw [escapeChars]
      cases hentity : XmlEscape.entity c.toNat with
      | some t =>
          have hsome : (XmlEscape.entity c.toNat).isSome := by rw [hentity]; rfl
          have hline : inLine c = true ∧ (escapeChar c).all inLine = true := by
            rcases special_cases hsome with rfl | rfl | rfl | rfl | rfl
            all_goals decide
          rw [List.takeWhile_append_of_pos (List.all_eq_true.mp hline.2), takeWhile_escapeChars,
            List.takeWhile_cons_of_pos hline.1, escapeChars]
      | none =>
          rw [escapeChar_none hentity, List.singleton_append]
          by_cases hline : inLine c
          · rw [List.takeWhile_cons_of_pos hline, List.takeWhile_cons_of_pos hline,
              takeWhile_escapeChars, escapeChars, escapeChar_none hentity, List.singleton_append]
          · rw [List.takeWhile_cons_of_neg hline, List.takeWhile_cons_of_neg hline]
            rfl

end Reading

/-! ### Texts of values -/

/-- The text of a value. -/
def escapeText (s : String) : String := String.ofList (escapeChars (wide s.toList).length s.toList)

section Values
variable {s : String}

theorem reads_escapeText (h : Arriving s.toList) : Reads (escapeText s).toList s.toList := by
  rw [escapeText, String.toList_ofList]
  exact reads_of_arrivesWithin ((arriving_iff _).mp h)

theorem arriving_of_reads (h : Reads (escapeText s).toList s.toList) : Arriving s.toList := by
  have hread := h []
  rw [escapeText, String.toList_ofList] at hread
  exact (arriving_iff _).mpr (arrivesWithin_of_attValue hread)

theorem inLine_escapeText (h : Arriving s.toList) : (escapeText s).toList.all inLine := by
  have hline : ∀ c ∈ s.toList, inLine c := by
    intro c hc
    by_contra hbreak
    have hspace := (h.chars c hc).2
    simp only [inLine, Bool.and_eq_true, decide_eq_true_eq, not_and_or, not_not] at hbreak
    rcases hbreak with rfl | rfl
    · exact absurd (hspace (by decide)) (by decide)
    · exact absurd (hspace (by decide)) (by decide)
  rw [escapeText, String.toList_ofList, ← List.takeWhile_eq_self_iff.mpr hline,
    ← takeWhile_escapeChars]
  exact List.all_takeWhile

/-- No text is read as its value in part. -/
theorem whole_escapeText (s : String) : Whole inLine (escapeText s).toList s.toList where
  quoted rest r h := by
    rw [escapeText, String.toList_ofList] at h ⊢
    exact reads_of_arrivesWithin (arrivesWithin_of_attValue h)
  cut r h := by
    rw [escapeText, String.toList_ofList] at h ⊢
    rw [takeWhile_escapeChars] at h
    have hlength := length_of_attValue (@attValue_append _ ['"'] _ _ _ _ h)
    have hall : s.toList.takeWhile inLine = s.toList :=
      (List.takeWhile_prefix inLine).eq_of_length_le hlength
    rw [← hall, ← takeWhile_escapeChars]
    exact List.all_takeWhile

end Values

/-! ## The stream -/

section Stream
variable {other : List Char → Option (Content × List Char)} {deliver : Content → Content}
  {name : String} {attributes : List (String × String)}

/-- A message whose values are strings of the server. -/
def XmlMessage.ofStrings (p : String × List (String × String)) : XmlMessage :=
  { elementName := p.1, vAttributes := p.2.map fun a => (a.1, wide a.2.toList) }

theorem XmlMessage.WellNamed.isName_of_mem
    (h : (XmlMessage.ofStrings (name, attributes)).WellNamed) :
    ∀ a ∈ attributes, isName a.1.toList :=
  fun a ha => (h.names (a.1, wide a.2.toList) (List.mem_map_of_mem ha)).1

/-- What is handed on for it if it arrives. -/
def handed (p : String × List (String × String)) : String × Server.Element :=
  (p.1, { name := p.1, attributes := p.2 })

theorem inLine_markup {c : Char} (h : isMarkup c) : inLine c := by
  by_contra hbreak
  simp only [inLine, Bool.and_eq_true, decide_eq_true_eq, not_and_or, not_not] at hbreak
  rcases hbreak with rfl | rfl
  · exact absurd h (by decide)
  · exact absurd h (by decide)

/-- What is handed on for the root of a line. -/
theorem built_root (hdeliver : ∀ d : Content, d.Split (deliver d))
    (hnodup : (attributes.map Prod.fst).Nodup) (n : String) (content : Content) :
    ∃ e, Server.ContentHandler.built (deliver (.element n attributes content .nil)) =
      some [(n, e)] ∧ e.name = n ∧ e.attributes = attributes := by
  obtain ⟨content', hcontent'⟩ :=
    Element.split_element (hdeliver (.element n attributes content .nil))
  rw [hcontent', Server.built_document]
  exact ⟨_, rfl, rfl, Server.mapped_of_nodup hnodup⟩

/-- A tag that is not read ends the thread; otherwise one element is handed on. -/
theorem parse_cases (hdeliver : ∀ d : Content, d.Split (deliver d)) (rest : List Char) :
    Server.ClientEventController.parse other deliver ('<' :: rest) = ([], false) ∨
      ∃ d parsed, Server.ClientEventController.parse other deliver ('<' :: rest) =
        ([d], parsed) := by
  rw [Server.ClientEventController.parse]
  cases hread : readElement (readContent other (rest.length + 1)) rest with
  | none => exact .inl rfl
  | some r =>
      obtain ⟨n, attributes, content, hnodup, helement⟩ := of_readElement hread
      obtain ⟨e, hbuilt, -, -⟩ := built_root hdeliver hnodup n content
      refine .inr ⟨(n, e), isEpilog other (r.2.length + 1) r.2, ?_⟩
      simp only [helement, hbuilt]

/-- **A message whose values arrive** is handed on. -/
theorem parse_arriving (hdeliver : ∀ d : Content, d.Split (deliver d))
    (hnamed : (XmlMessage.ofStrings (name, attributes)).WellNamed)
    (harriving : ∀ a ∈ attributes, Arriving a.2.toList) :
    Server.ClientEventController.parse other deliver
      (writeTag name.toList (texts escapeText attributes)) =
        ([handed (name, attributes)], true) := by
  have hnodup : (attributes.map Prod.fst).Nodup := by
    have hsame := hnamed.nodup
    rw [XmlMessage.ofStrings, List.map_map] at hsame
    exact hsame
  have hread : ∀ reader, readElement reader (name.toList ++
      ((texts escapeText attributes).flatMap writeAttribute ++ ['/', '>'])) =
        some (.element (String.ofList name.toList) attributes .nil, []) := fun reader =>
    readElement_texts hnamed.name hnamed.isName_of_mem hnodup fun a ha =>
      reads_escapeText (harriving a ha)
  have hcut : deliver (.element name attributes .nil .nil) = .element name attributes .nil .nil :=
    (hdeliver _).eq_of_textless ⟨trivial, trivial⟩
  have hmapped : attributes.foldl Server.ContentHandler.put [] = attributes :=
    Server.mapped_of_nodup hnodup
  have helement : Server.ContentHandler.constructElement name attributes =
      { name, attributes } := by
    rw [Server.ContentHandler.constructElement, hmapped]
  rw [writeTag, Server.ClientEventController.parse, hread, String.ofList_toList]
  simp only [hcut, Server.built_document, Server.elements, Content.texts, helement]
  rfl

/-- A message that is handed on as it is has values that arrive. -/
theorem arriving_of_parse (hdeliver : ∀ d : Content, d.Split (deliver d))
    (hnamed : (XmlMessage.ofStrings (name, attributes)).WellNamed) {tail : List Char}
    (h : (Server.ClientEventController.parse other deliver ((writeTag name.toList
      (texts escapeText attributes) ++ tail).takeWhile inLine)).1 = [handed (name, attributes)]) :
    ∀ a ∈ attributes, Arriving a.2.toList := by
  have htext : writeTag name.toList (texts escapeText attributes) ++ tail = '<' :: (name.toList ++
      ((texts escapeText attributes).flatMap writeAttribute ++ '/' :: '>' :: tail)) := by
    simp [writeTag]
  rw [htext, List.takeWhile_cons_of_pos (by decide), Server.ClientEventController.parse] at h
  cases hread : readElement _ ((name.toList ++
    ((texts escapeText attributes).flatMap writeAttribute ++ '/' :: '>' :: tail)).takeWhile
      inLine) with
  | none =>
      rw [hread] at h
      cases h
  | some r =>
      obtain ⟨element, r⟩ := r
      obtain ⟨n, attributes', content, hnodup, helement⟩ := of_readElement hread
      obtain ⟨e, hbuilt, -, hattributes⟩ := built_root hdeliver hnodup n content
      rw [hread] at h
      simp only [helement, hbuilt] at h
      have he : e = { name, attributes } := (Prod.mk.inj (List.cons.inj h).1).2
      have hsame : attributes' = attributes := by
        rw [← hattributes, he]
      rw [hsame] at helement
      intro a ha
      exact arriving_of_reads (reads_of_readElement (fun c => inLine_markup) hnamed.name
        hnamed.isName_of_mem (fun a _ => whole_escapeText a.2) hread (helement .nil) a ha).1

/-- Such a message is one line. -/
theorem inLine_writeTag (hnamed : (XmlMessage.ofStrings (name, attributes)).WellNamed)
    (harriving : ∀ a ∈ attributes, Arriving a.2.toList) :
    (writeTag name.toList (texts escapeText attributes)).all inLine := by
  have hattribute : ∀ a ∈ attributes, ∀ c ∈ writeAttribute (a.1, escapeText a.2), inLine c := by
    intro a ha c hc
    simp only [writeAttribute, List.mem_cons, List.mem_append, List.not_mem_nil, or_false] at hc
    rcases hc with rfl | hc | rfl | rfl | hc | rfl
    · decide
    · exact inLine_name (fun c => inLine_markup) (hnamed.isName_of_mem a ha) c hc
    · decide
    · decide
    · exact List.all_eq_true.mp (inLine_escapeText (harriving a ha)) c hc
    · decide
  refine List.all_eq_true.mpr fun c hc => ?_
  simp only [writeTag, List.mem_cons, List.mem_append, List.mem_flatMap, texts, List.mem_map,
    List.not_mem_nil, or_false] at hc
  rcases hc with rfl | hc | ⟨b, ⟨a, ha, rfl⟩, hc⟩ | rfl | rfl
  · decide
  · exact inLine_name (fun c => inLine_markup) hnamed.name c hc
  · exact hattribute a ha c hc
  · decide
  · decide

/-- **All messages are handed on as they are** just if all values arrive. -/
theorem run_eq_iff (hdeliver : ∀ d : Content, d.Split (deliver d)) :
    ∀ {l : List (String × List (String × String))},
      (∀ p ∈ l, (XmlMessage.ofStrings p).WellNamed) →
      (Server.ClientEventController.run other deliver (readLines (l.flatMap fun p =>
        writeTag p.1.toList (texts escapeText p.2) ++ ['\r', '\n'])) = l.map handed ↔
        ∀ p ∈ l, ∀ a ∈ p.2, Arriving a.2.toList)
  | [], _ => iff_of_true rfl fun p hp => absurd hp List.not_mem_nil
  | p :: l, hnamed => by
      obtain ⟨name, attributes⟩ := p
      rw [List.forall_mem_cons] at hnamed ⊢
      rw [List.flatMap_cons, List.append_assoc, List.map_cons]
      have ih := run_eq_iff hdeliver (l := l) hnamed.2
      by_cases harriving : ∀ a ∈ attributes, Arriving a.2.toList
      · have hline := inLine_writeTag hnamed.1 harriving
        have hread := @readLines_terminated (l.flatMap fun p =>
          writeTag p.1.toList (texts escapeText p.2) ++ ['\r', '\n']) _ hline
        rw [List.cons_append, List.cons_append, List.nil_append, hread,
          Server.ClientEventController.run, parse_arriving hdeliver hnamed.1 harriving]
        simp only [if_true, List.singleton_append, List.cons.injEq, true_and, ih]
        exact (and_iff_right harriving).symm
      · refine iff_of_false (fun hrun => harriving ?_) fun h => harriving h.1
        generalize htail : (['\r', '\n'] ++ l.flatMap fun p =>
          writeTag p.1.toList (texts escapeText p.2) ++ ['\r', '\n']) = tail at hrun
        have hne : writeTag name.toList (texts escapeText attributes) ++ tail ≠ [] := by
          simp [writeTag]
        obtain ⟨lines, hlines⟩ := readLines_first hne
        rw [hlines, Server.ClientEventController.run] at hrun
        have hfirst : (Server.ClientEventController.parse other deliver ((writeTag name.toList
            (texts escapeText attributes) ++ tail).takeWhile inLine)).1 =
              [handed (name, attributes)] := by
          rw [writeTag, List.cons_append, List.takeWhile_cons_of_pos (by decide)] at hrun ⊢
          rcases @parse_cases other deliver hdeliver _ with hparse | ⟨d, parsed, hparse⟩
          · rw [hparse] at hrun
            cases hrun
          · rw [hparse] at hrun ⊢
            cases parsed with
            | true => rw [(List.cons.inj hrun).1]
            | false => rw [(List.cons.inj hrun).1]
        exact arriving_of_parse hdeliver hnamed.1 hfirst

/-! ### The text -/

theorem units_injective : Function.Injective wide := fun l m h => by
  rw [← characters_wide l, h, characters_wide]

theorem strings_injective :
    Function.Injective fun a : String × String => (a.1, wide a.2.toList) := by
  intro a b h
  obtain ⟨hname, hwide⟩ := Prod.mk.inj h
  exact Prod.ext hname (String.toList_inj.mp (units_injective hwide))

theorem sentAttribute_wide (n s : String) : sentAttribute (wide n.toList) (wide s.toList) =
    some (wide (writeAttribute (n, escapeText s))) := by
  have hescaped : XmlEscape.xmlEscape (wide s.toList) = some (wide (escapeText s).toList) := by
    rw [XmlEscape.xmlEscape_eq, escapeWithin_wide, escapeText, String.toList_ofList]
  rw [sentAttribute, hescaped, wideLiteral_eq (by decide), wideLiteral_eq (by decide),
    wideLiteral_eq (by decide), Option.bind_eq_bind, Option.bind_some, ← wide_append, ← wide_append,
    ← wide_append, ← wide_append]
  simp [writeAttribute, pure]

theorem sent_ofStrings (p : String × List (String × String)) : (XmlMessage.ofStrings p).sent =
    some (wide (writeTag p.1.toList (texts escapeText p.2) ++ ['\r', '\n'])) := by
  have hattributes : (p.2.mapM fun a => sentAttribute (wide a.1.toList) (wide a.2.toList)) =
      some (p.2.map fun a => wide (writeAttribute (a.1, escapeText a.2))) := by
    simp only [sentAttribute_wide]
    exact List.mapM_pure
  have hflatten : (p.2.map fun a => wide (writeAttribute (a.1, escapeText a.2))).flatten =
      wide ((texts escapeText p.2).flatMap writeAttribute) := by
    rw [← List.flatMap_def, texts, List.flatMap_map, wide, List.flatMap_assoc]
    rfl
  rw [XmlMessage.sent, sendXML, XmlMessage.ofStrings, List.map_map, List.mapM_map]
  simp only [Function.comp_def, hattributes, Option.bind_eq_bind, Option.bind_some, hflatten]
  rw [wideLiteral_eq (by decide), wideLiteral_eq (by decide), ← wide_append, ← wide_append,
    ← wide_append]
  simp [writeTag, pure]

theorem stream_ofStrings (l : List (String × List (String × String))) :
    XmlMessage.stream (l.map XmlMessage.ofStrings) = some (wide (l.flatMap fun p =>
      writeTag p.1.toList (texts escapeText p.2) ++ ['\r', '\n'])) := by
  have hall : (l.mapM fun p => (XmlMessage.ofStrings p).sent) = some (l.map fun p =>
      wide (writeTag p.1.toList (texts escapeText p.2) ++ ['\r', '\n'])) := by
    simp only [sent_ofStrings]
    exact List.mapM_pure
  rw [XmlMessage.stream, List.mapM_map, Function.comp_def, hall, Option.map_some,
    ← List.flatMap_def, wide, List.flatMap_assoc]
  rfl

/-- `xml_escape` does not throw. -/
theorem exists_stream (messages : List XmlMessage) :
    ∃ text, XmlMessage.stream messages = some text := by
  have hvalue : (fun a : WString × WString => sentAttribute a.1 a.2) = fun a => pure
      (wideLiteral " " ++ a.1 ++ wideLiteral "=\"" ++ XmlEscape.escapeWithin a.2.length a.2 ++
        wideLiteral "\"") := by
    funext a
    rw [sentAttribute, XmlEscape.xmlEscape_eq]
    rfl
  have hsent (m : XmlMessage) : ∃ text, m.sent = some text := by
    rw [XmlMessage.sent, sendXML, hvalue, List.mapM_pure]
    exact ⟨_, rfl⟩
  choose text htext using hsent
  have hall : messages.mapM XmlMessage.sent = some (messages.map text) := by
    rw [funext htext]
    exact List.mapM_pure
  rw [XmlMessage.stream, hall]
  exact ⟨_, rfl⟩

theorem arrives_ofStrings (p : String × List (String × String)) (d : String × Server.Element) :
    (XmlMessage.ofStrings p).Arrives d ↔ d = handed p := by
  constructor
  · rintro ⟨attributes, rfl, hattributes⟩
    rw [strings_injective.list_map hattributes]
    rfl
  · rintro rfl
    exact ⟨p.2, rfl, rfl⟩

theorem arrive_ofStrings : ∀ {l : List (String × List (String × String))}
    {ds : List (String × Server.Element)},
    List.Forall₂ XmlMessage.Arrives (l.map XmlMessage.ofStrings) ds ↔ ds = l.map handed
  | [], ds => List.forall₂_nil_left_iff
  | p :: l, ds => by
      rw [List.map_cons, List.forall₂_cons_left_iff, List.map_cons]
      simp only [arrives_ofStrings, arrive_ofStrings]
      constructor
      · rintro ⟨d, ds, rfl, rfl, rfl⟩
        rfl
      · rintro rfl
        exact ⟨_, _, rfl, rfl, rfl⟩

/-- What arrives is a string of the server. -/
theorem strings_of_arrive {messages : List XmlMessage} {ds : List (String × Server.Element)}
    (h : List.Forall₂ XmlMessage.Arrives messages ds) :
    ∀ m ∈ messages, ∀ a ∈ m.vAttributes, ∃ cs, a.2 = wide cs := by
  induction h with
  | nil => exact fun m hm => absurd hm List.not_mem_nil
  | cons harrives _ ih =>
      refine List.forall_mem_cons.mpr ⟨fun a ha => ?_, ih⟩
      obtain ⟨attributes, -, hattributes⟩ := harrives
      rw [← hattributes] at ha
      obtain ⟨b, -, rfl⟩ := List.mem_map.mp ha
      exact ⟨_, rfl⟩

/-- Messages whose values are strings of the server. -/
theorem exists_ofStrings {messages : List XmlMessage}
    (h : ∀ m ∈ messages, ∀ a ∈ m.vAttributes, ∃ cs, a.2 = wide cs) :
    ∃ l : List (String × List (String × String)), messages = l.map XmlMessage.ofStrings := by
  have hrange : messages ∈ Set.range (List.map XmlMessage.ofStrings) := by
    rw [Set.range_list_map]
    intro m hm
    have hattributes : m.vAttributes ∈ Set.range
        (List.map fun a : String × String => (a.1, wide a.2.toList)) := by
      rw [Set.range_list_map]
      intro a ha
      obtain ⟨cs, hcs⟩ := h m hm a ha
      refine ⟨(a.1, String.ofList cs), ?_⟩
      simp only [String.toList_ofList, ← hcs]
    obtain ⟨attributes, hattributes⟩ := hattributes
    exact ⟨(m.elementName, attributes), by rw [XmlMessage.ofStrings, hattributes]⟩
  obtain ⟨l, hl⟩ := hrange
  exact ⟨l, hl.symm⟩

/-- Two events with special characters in the path of the process. -/
def specialPaths : List XmlMessage :=
  ["C:\\A&B\\it's.exe", "\"C:\\x.exe\" http://a.com/?x=1"].map fun path =>
    { elementName := "system-event"
      vAttributes := [("type", wide "file".toList), ("process", wide path.toList)] }

-- the second ampersand is not reached
example : ¬ Arriving "&&".toList := by decide

end Stream

end Client

end CaptureHpc
