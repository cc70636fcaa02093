/-
# `Lib.XmlText` — values that are written as other texts

A program that escapes what it writes has a text for every value.  Between
quotes the text may be read as the value (`Reads`), as another value, or not at
all.  Attributes whose values are all read come back as they were
(`readElement_texts`).

It is the other way round too (`reads_of_readElement`), even where no more of a
tag is there than what stands on one line: no text of one value may be mistaken
for a text of another as long as none is read as its value in part (`Whole`).
-/
import CaptureHpc.Lib.XmlTag

namespace Xml

/-- Between quotes the text is read as the value. -/
def Reads (text value : List Char) : Prop :=
  ∀ rest, attValue '"' none (text ++ '"' :: rest) = some (value, rest)

/-- A text that is not read as the value is not read as it up to a quote in it either, nor where
the line ends within it. -/
structure Whole (inLine : Char → Bool) (text value : List Char) : Prop where
  quoted : ∀ rest r, attValue '"' none (text ++ '"' :: rest) = some (value, r) → Reads text value
  cut : ∀ r, attValue '"' none (text.takeWhile inLine) = some (value, r) → text.all inLine

/-- The attributes with the texts of their values. -/
def texts (text : String → String) (attributes : List (String × String)) : List (String × String) :=
  attributes.map fun a => (a.1, text a.2)

/-- What a tag is made of but the values. -/
def isMarkup (c : Char) : Bool := isNameChar c || [' ', '=', '"', '/', '>'].contains c

/-- What follows a value does not change it. -/
theorem attValue_append {quote : Char} {more : List Char} :
    ∀ {input : List Char} {ref : Option (List Char)} {w rest : List Char},
      attValue quote ref input = some (w, rest) →
        attValue quote ref (input ++ more) = some (w, rest ++ more)
  | [], ref, _, _, h => by cases ref <;> cases h
  | c :: input, none, w, rest, h => by
      rw [attValue] at h
      rw [List.cons_append, attValue]
      split at h
      · next hquote =>
          obtain ⟨rfl, rfl⟩ := Prod.mk.inj (Option.some.inj h)
          rw [if_pos hquote]
      split at h
      · cases h
      next hquote hlt =>
        rw [if_neg hquote, if_neg hlt]
        split at h
        · next hamp =>
            rw [if_pos hamp]
            exact attValue_append h
        next hamp =>
          have hhead : (input ++ more).head? = input.head? := by
            cases input with
            | cons d input => rfl
            | nil =>
                -- nothing would be left to end the value
                split at h
                · cases h
                split at h
                · obtain ⟨w', -, hnil⟩ := consChar_eq_some.mp h
                  cases hnil
                · cases h
          rw [if_neg hamp, hhead]
          split at h
          · next hcr =>
              rw [if_pos hcr]
              exact attValue_append h
          next hcr =>
            rw [if_neg hcr]
            split at h
            · next hchar =>
                obtain ⟨w', rfl, hrest⟩ := consChar_eq_some.mp h
                rw [if_pos hchar, attValue_append hrest]
                rfl
            · cases h
  | c :: input, some ref, w, rest, h => by
      rw [attValue] at h
      rw [List.cons_append, attValue]
      split at h
      · cases h
      next hquote =>
        rw [if_neg hquote]
        split at h
        · next hsemicolon =>
            obtain ⟨r, hr, hchar⟩ := Option.bind_eq_some_iff.mp h
            obtain ⟨w', rfl, hrest⟩ := consChar_eq_some.mp hchar
            rw [if_pos hsemicolon, hr, Option.bind_eq_bind, Option.bind_some, attValue_append hrest]
            rfl
        · next hsemicolon =>
            rw [if_neg hsemicolon]
            exact attValue_append h

section Texts
variable {text : String → String} {name rest tail : List Char}
  {attributes : List (String × String)} {inLine : Char → Bool}

theorem readAttributes_texts {empty : Bool}
    (hend : ∀ fuel, readAttributes (fuel + 1) tail = some ([], empty, rest)) :
    ∀ {attributes : List (String × String)} {fuel : Nat}, attributes.length < fuel →
      (∀ a ∈ attributes, isName a.1.toList) →
      (∀ a ∈ attributes, Reads (text a.2).toList a.2.toList) →
        readAttributes fuel ((texts text attributes).flatMap writeAttribute ++ tail) =
          some (attributes, empty, rest)
  | _, 0, hfuel, _, _ => absurd hfuel (Nat.not_lt_zero _)
  | [], fuel + 1, _, _, _ => hend fuel
  | a :: attributes, fuel + 1, hfuel, hname, hreads => by
      rw [List.forall_mem_cons] at hname hreads
      have hrest := readAttributes_texts hend (Nat.lt_of_succ_lt_succ hfuel) hname.2 hreads.2
      rw [texts, List.map_cons, List.flatMap_cons, List.append_assoc, writeAttribute_append,
        readAttributes_value hname.1, hreads.1, Option.bind_some, ← texts, hrest, Option.map_some,
        String.ofList_toList, String.ofList_toList]

/-- **Values that are read** come back. -/
theorem readElement_texts {reader : List Char → Option (Content × List Char)} (h : isName name)
    (hname : ∀ a ∈ attributes, isName a.1.toList) (hnodup : (attributes.map Prod.fst).Nodup)
    (hreads : ∀ a ∈ attributes, Reads (text a.2).toList a.2.toList) :
    readElement reader (name ++ ((texts text attributes).flatMap writeAttribute ++
      '/' :: '>' :: rest)) = some (.element (String.ofList name) attributes .nil, rest) := by
  have hfuel : attributes.length <
      ((texts text attributes).flatMap writeAttribute ++ '/' :: '>' :: rest).length + 1 := by
    have hlength := length_le_write (texts text attributes)
    rw [texts, List.length_map, ← texts] at hlength
    rw [List.length_append]
    omega
  rw [readElement, readTag, readName_tag h (by decide)]
  simp only [Option.bind_eq_bind, Option.bind_some,
    readAttributes_texts readAttributes_emptyEnd hfuel hname hreads, if_pos hnodup]
  rfl

/-! ## What was read -/

theorem inLine_name (hmarkup : ∀ c, isMarkup c → inLine c) (h : isName name) :
    ∀ c ∈ name, inLine c := by
  intro c hc
  refine hmarkup c ?_
  rw [isMarkup, List.all_eq_true.mp (all_of_isName h) c hc]
  rfl

/-- As much of an attribute as stands on the line. -/
theorem takeWhile_attribute (hmarkup : ∀ c, isMarkup c → inLine c) {a : String × String}
    (h : isName a.1.toList) : (writeAttribute a ++ rest).takeWhile inLine =
      ' ' :: (a.1.toList ++ '=' :: '"' :: (a.2.toList ++ '"' :: rest).takeWhile inLine) := by
  rw [writeAttribute_append, List.takeWhile_cons_of_pos (hmarkup _ (by decide)),
    List.takeWhile_append_of_pos (inLine_name hmarkup h),
    List.takeWhile_cons_of_pos (hmarkup _ (by decide)),
    List.takeWhile_cons_of_pos (hmarkup _ (by decide))]

theorem takeWhile_quoted (hmarkup : ∀ c, isMarkup c → inLine c) {s : List Char}
    (h : s.all inLine) :
    (s ++ '"' :: rest).takeWhile inLine = s ++ '"' :: rest.takeWhile inLine := by
  rw [List.takeWhile_append_of_pos (List.all_eq_true.mp h),
    List.takeWhile_cons_of_pos (hmarkup _ (by decide))]

theorem takeWhile_cut {s : List Char} (h : ¬ s.all inLine) :
    (s ++ rest).takeWhile inLine = s.takeWhile inLine := by
  have hshort : (s.takeWhile inLine).length ≠ s.length := by
    intro hlength
    refine h (List.all_eq_true.mpr fun c hc => ?_)
    rw [← (List.takeWhile_sublist inLine).eq_of_length hlength] at hc
    exact List.mem_takeWhile_imp hc
  rw [List.takeWhile_append, if_neg hshort]

theorem reads_of_readAttributes (hmarkup : ∀ c, isMarkup c → inLine c) :
    ∀ {attributes : List (String × String)} {fuel : Nat} {empty : Bool} {r : List Char},
      (∀ a ∈ attributes, isName a.1.toList) →
      (∀ a ∈ attributes, Whole inLine (text a.2).toList a.2.toList) →
      readAttributes fuel (((texts text attributes).flatMap writeAttribute ++ tail).takeWhile
        inLine) = some (attributes, empty, r) →
      ∀ a ∈ attributes, Reads (text a.2).toList a.2.toList ∧ (text a.2).toList.all inLine
  | [], _, _, _, _, _, _ => fun a ha => absurd ha List.not_mem_nil
  | _ :: _, 0, _, _, _, _, h => by cases h
  | a :: attributes, fuel + 1, empty, r, hname, hwhole, h => by
      rw [List.forall_mem_cons] at hname hwhole ⊢
      rw [texts, List.map_cons, List.flatMap_cons, List.append_assoc,
        @takeWhile_attribute _ inLine hmarkup (a.1, text a.2) hname.1,
        readAttributes_value hname.1] at h
      obtain ⟨⟨w, rest'⟩, hvalue, hattributes⟩ := Option.bind_eq_some_iff.mp h
      obtain ⟨⟨attributes', empty', r'⟩, hrest, heq⟩ := Option.map_eq_some_iff.mp hattributes
      obtain ⟨⟨hfirst, rfl⟩, rfl, rfl⟩ : ((a.1, String.ofList w) = a ∧ attributes' = attributes) ∧
          empty' = empty ∧ r' = r := by simpa [String.ofList_toList] using heq
      obtain rfl : w = a.2.toList := by rw [← hfirst, String.toList_ofList]
      have hline : (text a.2).toList.all inLine := by
        by_contra hbreak
        rw [takeWhile_cut hbreak] at hvalue
        exact hbreak (hwhole.1.cut rest' hvalue)
      rw [takeWhile_quoted hmarkup hline] at hvalue
      have hreads := hwhole.1.quoted _ _ hvalue
      rw [hreads] at hvalue
      obtain ⟨-, rfl⟩ := Prod.mk.inj (Option.some.inj hvalue)
      exact ⟨⟨hreads, hline⟩, reads_of_readAttributes hmarkup hname.2 hwhole.2 hrest⟩

/-- **Values that come back** were read, each from all of its text. -/
theorem reads_of_readElement {reader : List Char → Option (Content × List Char)}
    (hmarkup : ∀ c, isMarkup c → inLine c) (h : isName name)
    (hname : ∀ a ∈ attributes, isName a.1.toList)
    (hwhole : ∀ a ∈ attributes, Whole inLine (text a.2).toList a.2.toList)
    {element : Content → Content} {r : List Char}
    (hread : readElement reader ((name ++ ((texts text attributes).flatMap writeAttribute ++
      '/' :: '>' :: tail)).takeWhile inLine) = some (element, r))
    {siblings : Content} {n : String} {content : Content}
    (helement : element siblings = .element n attributes content siblings) :
    ∀ a ∈ attributes, Reads (text a.2).toList a.2.toList ∧ (text a.2).toList.all inLine := by
  have hstart : ∃ c rest, isNameChar c = false ∧
      ((texts text attributes).flatMap writeAttribute ++ '/' :: '>' :: tail).takeWhile inLine =
        c :: rest := by
    cases attributes with
    | nil =>
        exact ⟨'/', _, by decide, List.takeWhile_cons_of_pos (hmarkup _ (by decide))⟩
    | cons a attributes =>
        have hfirst := @takeWhile_attribute ((texts text attributes).flatMap writeAttribute ++
          '/' :: '>' :: tail) inLine hmarkup (a.1, text a.2) (hname a List.mem_cons_self)
        rw [← List.append_assoc] at hfirst
        exact ⟨' ', _, by decide, hfirst⟩
  obtain ⟨c, rest, hc, hcut⟩ := hstart
  rw [List.takeWhile_append_of_pos (inLine_name hmarkup h), hcut, readElement] at hread
  obtain ⟨⟨tag, r₁⟩, htag, hrest⟩ := Option.bind_eq_some_iff.mp hread
  rw [readTag, readName_append h hc] at htag
  simp only [Option.bind_eq_bind, Option.bind_some] at htag
  obtain ⟨⟨attributes', empty, r₂⟩, hattributes, hif⟩ := Option.bind_eq_some_iff.mp htag
  simp only at hif
  split at hif
  · obtain ⟨rfl, rfl⟩ := Prod.mk.inj (Option.some.inj hif)
    have hsame : attributes' = attributes := by
      simp only at hrest
      split at hrest
      · obtain ⟨rfl, -⟩ := Prod.mk.inj (Option.some.inj hrest)
        exact (Content.element.inj helement).2.1
      · obtain ⟨⟨content', r₃⟩, -, hrest⟩ := Option.bind_eq_some_iff.mp hrest
        obtain ⟨r₄, -, hrest⟩ := Option.bind_eq_some_iff.mp hrest
        obtain ⟨rfl, -⟩ := Prod.mk.inj (Option.some.inj hrest)
        exact (Content.element.inj helement).2.1
    rw [hsame, ← hcut] at hattributes
    exact reads_of_readAttributes hmarkup hname hwhole hattributes
  · cases hif

/-- What is read of an element has no attribute twice. -/
theorem of_readElement {reader : List Char → Option (Content × List Char)} {input r : List Char}
    {element : Content → Content} (h : readElement reader input = some (element, r)) :
    ∃ n attributes content, (attributes.map Prod.fst).Nodup ∧
      ∀ siblings, element siblings = .element n attributes content siblings := by
  rw [readElement] at h
  obtain ⟨⟨tag, r₁⟩, htag, hrest⟩ := Option.bind_eq_some_iff.mp h
  have hnodup : (tag.attributes.map Prod.fst).Nodup := by
    rw [readTag] at htag
    obtain ⟨⟨n, r₂⟩, -, htag⟩ := Option.bind_eq_some_iff.mp htag
    obtain ⟨⟨attributes, empty, r₃⟩, -, htag⟩ := Option.bind_eq_some_iff.mp htag
    simp only at htag
    split at htag
    · next hnodup =>
        obtain ⟨rfl, -⟩ := Prod.mk.inj (Option.some.inj htag)
        exact hnodup
    · cases htag
  simp only at hrest
  split at hrest
  · obtain ⟨rfl, -⟩ := Prod.mk.inj (Option.some.inj hrest)
    exact ⟨_, _, _, hnodup, fun _ => rfl⟩
  · obtain ⟨⟨content, r₂⟩, -, hrest⟩ := Option.bind_eq_some_iff.mp hrest
    obtain ⟨r₃, -, hrest⟩ := Option.bind_eq_some_iff.mp hrest
    obtain ⟨rfl, -⟩ := Prod.mk.inj (Option.some.inj hrest)
    exact ⟨_, _, _, hnodup, fun _ => rfl⟩

end Texts

end Xml
