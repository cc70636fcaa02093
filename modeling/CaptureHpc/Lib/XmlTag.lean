/-
# `Lib.XmlTag` — documents of one tag

A document may be no more than the tag of an empty element.  A text that ends
like such a tag is a document only if it is one (`of_document_tag`); which
attributes it has is another matter, for a value that is written as it is may
end early and leave the rest of it to be read as attributes.  It may not where
what is read for each name is long enough (`plain_of_readAttributes_named`).
-/
import Mathlib.Data.List.TakeWhile
import CaptureHpc.Lib.Xml

namespace Xml

/-- The tag of an empty element, the attribute values as they are. -/
def writeTag (name : List Char) (attributes : List (String × String)) : List Char :=
  '<' :: (name ++ (attributes.flatMap writeAttribute ++ ['/', '>']))

/-! ## What is left is an end -/

section Suffix
variable {α : Type} {input rest : List Char}

theorem skipSpace_suffix (input : List Char) : skipSpace input <:+ input := List.dropWhile_suffix _

theorem readName_suffix {name : List Char} (h : readName input = some (name, rest)) :
    isName name ∧ name.all isNameChar ∧ input = name ++ rest := by
  rw [readName] at h
  split at h
  · next hname =>
      obtain ⟨rfl, rfl⟩ := Prod.mk.inj (Option.some.inj h)
      exact ⟨hname, all_of_isName hname, List.takeWhile_append_dropWhile.symm⟩
  · cases h

theorem consChar_suffix {c : Char} {o : Option (List Char × List Char)} {w : List Char}
    (h : consChar c o = some (w, rest)) : ∃ w', o = some (w', rest) := by
  obtain ⟨w', -, ho⟩ := consChar_eq_some.mp h
  exact ⟨w', ho⟩

theorem attValue_suffix {quote : Char} : ∀ {input : List Char} {ref : Option (List Char)}
    {w rest : List Char}, attValue quote ref input = some (w, rest) → rest <:+ input
  | [], ref, w, rest, h => by
      cases ref <;> cases h
  | c :: input, none, w, rest, h => by
      rw [attValue] at h
      split at h
      · obtain ⟨-, rfl⟩ := Prod.mk.inj (Option.some.inj h)
        exact List.suffix_cons c _
      split at h
      · cases h
      split at h
      · exact (attValue_suffix h).trans (List.suffix_cons c _)
      split at h
      · exact (attValue_suffix h).trans (List.suffix_cons c _)
      split at h
      · obtain ⟨w', hrest⟩ := consChar_suffix h
        exact (attValue_suffix hrest).trans (List.suffix_cons c _)
      · cases h
  | c :: input, some ref, w, rest, h => by
      rw [attValue] at h
      split at h
      · cases h
      split at h
      · obtain ⟨r, -, hchar⟩ := Option.bind_eq_some_iff.mp h
        obtain ⟨w', hrest⟩ := consChar_suffix hchar
        exact (attValue_suffix hrest).trans (List.suffix_cons c _)
      · exact (attValue_suffix h).trans (List.suffix_cons c _)

theorem charData_suffix : ∀ {input : List Char} {ref : Option (List Char)} {w rest : List Char},
    charData ref input = some (w, rest) → rest <:+ input
  | [], none, w, rest, h => by
      obtain ⟨-, rfl⟩ := Prod.mk.inj (Option.some.inj h)
      exact List.suffix_rfl
  | [], some ref, w, rest, h => by cases h
  | c :: input, none, w, rest, h => by
      rw [charData] at h
      split at h
      · obtain ⟨-, rfl⟩ := Prod.mk.inj (Option.some.inj h)
        exact List.suffix_rfl
      split at h
      · exact (charData_suffix h).trans (List.suffix_cons c _)
      split at h
      · split at h
        · exact (charData_suffix h).trans (List.suffix_cons c _)
        · obtain ⟨w', hrest⟩ := consChar_suffix h
          exact (charData_suffix hrest).trans (List.suffix_cons c _)
      split at h
      · cases h
      split at h
      · obtain ⟨w', hrest⟩ := consChar_suffix h
        exact (charData_suffix hrest).trans (List.suffix_cons c _)
      · cases h
  | c :: input, some ref, w, rest, h => by
      rw [charData] at h
      split at h
      · cases h
      split at h
      · obtain ⟨r, -, hchar⟩ := Option.bind_eq_some_iff.mp h
        obtain ⟨w', hrest⟩ := consChar_suffix hchar
        exact (charData_suffix hrest).trans (List.suffix_cons c _)
      · exact (charData_suffix h).trans (List.suffix_cons c _)

theorem readAttributes_suffix : ∀ {fuel : Nat} {input rest : List Char}
    {attributes : List (String × String)} {empty : Bool},
      readAttributes fuel input = some (attributes, empty, rest) → rest <:+ input
  | 0, _, _, _, _, h => by cases h
  | fuel + 1, input, rest, attributes, empty, h => by
      have hskip := skipSpace_suffix input
      rw [readAttributes] at h
      split at h
      · next hend =>
          obtain ⟨-, -, rfl⟩ : _ ∧ _ ∧ _ := by simpa using h
          rw [hend] at hskip
          exact (List.suffix_cons _ _).trans hskip
      · next hend =>
          obtain ⟨-, -, rfl⟩ : _ ∧ _ ∧ _ := by simpa using h
          rw [hend] at hskip
          exact ((List.suffix_cons _ _).trans (List.suffix_cons _ _)).trans hskip
      · split at h
        · obtain ⟨⟨name, r₁⟩, hname, h⟩ := Option.bind_eq_some_iff.mp h
          obtain ⟨-, -, hinput⟩ := readName_suffix hname
          have hr₁ : r₁ <:+ input := List.IsSuffix.trans ⟨name, hinput.symm⟩ hskip
          have heq := skipSpace_suffix r₁
          simp only at h
          split at h
          · next r₂ hr₂ =>
              rw [hr₂] at heq
              have hquote := skipSpace_suffix r₂
              split at h
              · next quote r₃ hr₃ =>
                  rw [hr₃] at hquote
                  split at h
                  · obtain ⟨⟨value, r₄⟩, hvalue, h⟩ := Option.bind_eq_some_iff.mp h
                    obtain ⟨⟨attributes', empty', r₅⟩, hattributes, h⟩ :=
                      Option.bind_eq_some_iff.mp h
                    obtain ⟨-, -, rfl⟩ : _ ∧ _ ∧ _ := by simpa using h
                    exact (readAttributes_suffix hattributes).trans <|
                      (attValue_suffix hvalue).trans <| (List.suffix_cons _ _).trans <|
                        hquote.trans <| (List.suffix_cons _ _).trans <| heq.trans hr₁
                  · cases h
              · cases h
          · cases h
        · cases h

theorem readTag_suffix {tag : Tag} (h : readTag input = some (tag, rest)) : rest <:+ input := by
  rw [readTag] at h
  obtain ⟨⟨name, r₁⟩, hname, h⟩ := Option.bind_eq_some_iff.mp h
  obtain ⟨⟨attributes, empty, r₂⟩, hattributes, h⟩ := Option.bind_eq_some_iff.mp h
  obtain ⟨-, -, hinput⟩ := readName_suffix hname
  simp only at h
  split at h
  · obtain ⟨-, rfl⟩ := Prod.mk.inj (Option.some.inj h)
    exact (readAttributes_suffix hattributes).trans ⟨name, hinput.symm⟩
  · cases h

end Suffix

/-! ## How a document ends -/

/-- It ends with a `>` that does not follow a slash, and white space. -/
def EndsOpen (input : List Char) : Prop :=
  ∃ front c space, c ≠ '/' ∧ space.all isSpace ∧ input = front ++ c :: '>' :: space

/-- What begins with `<!` or `<?` is read up to a `>` that does not follow a slash. -/
def Delimited (other : List Char → Option (Content × List Char)) : Prop :=
  ∀ ⦃input content rest⦄, other input = some (content, rest) →
    ∃ front c, c ≠ '/' ∧ input = front ++ c :: '>' :: rest

section Ends
variable {input rest : List Char}

theorem EndsOpen.of_suffix (h : EndsOpen rest) (hsuffix : rest <:+ input) : EndsOpen input := by
  obtain ⟨front, c, space, hc, hspace, rfl⟩ := h
  obtain ⟨more, rfl⟩ := hsuffix
  exact ⟨more ++ front, c, space, hc, hspace, (List.append_assoc _ _ _).symm⟩

/-- The end of an empty element is none. -/
theorem not_endsOpen (front : List Char) : ¬ EndsOpen (front ++ ['/', '>']) := by
  rintro ⟨front', c, space, hc, hspace, heq⟩
  rcases List.eq_nil_or_concat space with rfl | ⟨space', last, rfl⟩
  · have hends := (List.append_inj' heq rfl).2
    exact hc (List.cons.inj hends).1.symm
  · have hlast := congrArg List.getLast? heq
    simp only [List.getLast?_append, List.getLast?_cons, List.getLast?_nil, List.concat_eq_append,
      Option.getD_some, Option.getD_none, Option.some_or, Option.some.injEq] at hlast
    have hspaces := List.all_eq_true.mp hspace last (by simp)
    subst hlast
    cases hspaces

/-- What is left by an end that is no slash and `>`, when only white space is left or such an end
again. -/
theorem endsOpen_of_rest (front : List Char) {c : Char} (hc : c ≠ '/')
    (hrest : rest.all isSpace ∨ EndsOpen rest) : EndsOpen (front ++ c :: '>' :: rest) := by
  rcases hrest with hspace | hopen
  · exact ⟨front, c, rest, hc, hspace, rfl⟩
  · exact hopen.of_suffix ⟨front ++ [c, '>'], by simp⟩

theorem readEndTag_end {name : List Char} (h : readEndTag name input = some rest) :
    ∃ front c, c ≠ '/' ∧ input = front ++ c :: '>' :: rest := by
  rw [readEndTag] at h
  obtain ⟨⟨name', r₁⟩, hname, hend⟩ := Option.bind_eq_some_iff.mp h
  obtain ⟨hisName, hchars, hinput⟩ := readName_suffix hname
  simp only at hend
  split at hend
  · next r₂ hr₂ =>
      split at hend
      · obtain rfl := Option.some.inj hend
        have hspace : r₁ = r₁.takeWhile isSpace ++ '>' :: r₂ := by
          rw [← hr₂, skipSpace, List.takeWhile_append_dropWhile]
        have hne : name' ++ r₁.takeWhile isSpace ≠ [] := by
          intro hnil
          rw [(List.append_eq_nil_iff.mp hnil).1] at hisName
          cases hisName
        refine ⟨(name' ++ r₁.takeWhile isSpace).dropLast, (name' ++ r₁.takeWhile isSpace).getLast hne,
          ?_, ?_⟩
        · -- the character in front of the end is one of the name or white space
          intro hslash
          have hmem := List.getLast_mem hne
          rw [hslash, List.mem_append] at hmem
          rcases hmem with hmem | hmem
          · exact absurd (List.all_eq_true.mp hchars _ hmem) (by decide)
          · exact absurd (List.mem_takeWhile_imp hmem) (by decide)
        · rw [hinput, List.append_cons, List.dropLast_append_getLast hne, List.append_assoc,
            ← hspace]
      · cases hend
  · cases hend

variable {other : List Char → Option (Content × List Char)}

theorem isEpilog_end (hother : Delimited other) : ∀ {fuel : Nat} {input : List Char},
    isEpilog other fuel input = true → input.all isSpace ∨ EndsOpen input
  | 0, _, h => by cases h
  | fuel + 1, input, h => by
      have hskip := skipSpace_suffix input
      rw [isEpilog] at h
      split at h
      · next hnil =>
          refine .inl (List.all_eq_true.mpr fun c hc => ?_)
          rw [skipSpace, List.dropWhile_eq_nil_iff] at hnil
          exact hnil c hc
      · next rest hrest =>
          rw [hrest] at hskip
          split at h
          · split at h
            · next r hr =>
                obtain ⟨front, c, hc, rfl⟩ := hother hr
                exact .inr ((endsOpen_of_rest _ hc (isEpilog_end hother h)).of_suffix
                  ((List.suffix_cons _ _).trans hskip))
            · cases h
          · cases h
      · cases h

theorem readElement_suffix {reader : List Char → Option (Content × List Char)}
    (hreader : ∀ {input content rest}, reader input = some (content, rest) → rest <:+ input)
    {element : Content → Content} (h : readElement reader input = some (element, rest)) :
    rest <:+ input := by
  rw [readElement] at h
  obtain ⟨⟨tag, r₁⟩, htag, h⟩ := Option.bind_eq_some_iff.mp h
  have hr₁ := readTag_suffix htag
  simp only at h
  split at h
  · obtain ⟨-, rfl⟩ := Prod.mk.inj (Option.some.inj h)
    exact hr₁
  · obtain ⟨⟨content, r₂⟩, hcontent, h⟩ := Option.bind_eq_some_iff.mp h
    obtain ⟨r₃, hend, h⟩ := Option.bind_eq_some_iff.mp h
    obtain ⟨-, rfl⟩ := Prod.mk.inj (Option.some.inj h)
    obtain ⟨front, c, -, rfl⟩ := readEndTag_end hend
    exact List.IsSuffix.trans ⟨front ++ [c, '>'], by simp⟩ ((hreader hcontent).trans hr₁)

theorem readContent_suffix (hother : Delimited other) : ∀ {fuel : Nat} {input rest : List Char}
    {content : Content}, readContent other fuel input = some (content, rest) → rest <:+ input
  | 0, _, _, _, h => by cases h
  | fuel + 1, input, rest, content, h => by
      rw [readContent.eq_def] at h
      simp only at h
      split at h
      · cases h
      · next r₁ =>
          split at h
          · obtain ⟨-, rfl⟩ := Prod.mk.inj (Option.some.inj h)
            exact (List.suffix_cons _ _).trans (List.suffix_cons _ _)
          · split at h
            · obtain ⟨⟨content', r₂⟩, hr₂, h⟩ := Option.bind_eq_some_iff.mp h
              obtain ⟨⟨siblings, r₃⟩, hr₃, h⟩ := Option.bind_eq_some_iff.mp h
              obtain ⟨-, rfl⟩ := Prod.mk.inj (Option.some.inj h)
              obtain ⟨front, c, -, rfl⟩ := hother hr₂
              exact (readContent_suffix hother hr₃).trans <|
                List.IsSuffix.trans ⟨front ++ [c, '>'], by simp⟩ (List.suffix_cons _ _)
            · obtain ⟨⟨element, r₂⟩, hr₂, h⟩ := Option.bind_eq_some_iff.mp h
              obtain ⟨⟨siblings, r₃⟩, hr₃, h⟩ := Option.bind_eq_some_iff.mp h
              obtain ⟨-, rfl⟩ := Prod.mk.inj (Option.some.inj h)
              exact (readContent_suffix hother hr₃).trans <|
                (readElement_suffix (readContent_suffix hother) hr₂).trans (List.suffix_cons _ _)
      · obtain ⟨⟨s, r₁⟩, hr₁, h⟩ := Option.bind_eq_some_iff.mp h
        obtain ⟨⟨siblings, r₂⟩, hr₂, h⟩ := Option.bind_eq_some_iff.mp h
        obtain ⟨-, rfl⟩ := Prod.mk.inj (Option.some.inj h)
        exact (readContent_suffix hother hr₂).trans (charData_suffix hr₁)

end Ends

/-! ## Values that are too long -/

section Values
variable {rest : List Char}

theorem number_of_mem {base : Nat} {digits : List Char} (hnul : '\x00' ∈ digits) :
    number base digits = none := by
  have hfold : ∀ (digits : List Char) (n : Nat), '\x00' ∈ digits →
      digits.foldlM (fun n c => do
        let d ← digitValue c
        if d < base then some (n * base + d) else none) n = none := by
    intro digits
    induction digits with
    | nil => exact fun _ hno => absurd hno List.not_mem_nil
    | cons c digits ih =>
        intro n hmem
        rw [List.foldlM_cons]
        cases List.mem_cons.mp hmem with
        | inl hc =>
            subst hc
            rfl
        | inr hmem =>
            cases digitValue c with
            | none => rfl
            | some d =>
                simp only [Option.bind_eq_bind, Option.bind_some]
                split
                · exact ih _ hmem
                · rfl
  rw [number]
  split
  · rfl
  · exact hfold digits 0 hnul

theorem referenced_of_mem {ref : List Char} (hnul : '\x00' ∈ ref) : referenced ref = none := by
  rw [referenced.eq_def]
  split
  · exact absurd hnul (by decide)
  · exact absurd hnul (by decide)
  · exact absurd hnul (by decide)
  · exact absurd hnul (by decide)
  · exact absurd hnul (by decide)
  · rw [number_of_mem (by simpa using hnul)]
    rfl
  · rw [number_of_mem (by simpa using hnul)]
    rfl
  · rfl

theorem attValue_of_mem_ref {quote : Char} : ∀ {input ref : List Char}, '\x00' ∈ ref →
    attValue quote (some ref) input = none
  | [], _, _ => rfl
  | c :: input, ref, hnul => by
      rw [attValue]
      split
      · rfl
      split
      · rw [referenced_of_mem hnul]
        rfl
      · exact attValue_of_mem_ref (List.mem_append_left _ hnul)

/-- A value that has a NUL in it ends before it, if it is read at all. -/
theorem attValue_nul : ∀ {v : List Char} {ref : Option (List Char)} {w r : List Char},
    attValue '"' ref (v ++ '\x00' :: rest) = some (w, r) → w.length < v.length
  | [], none, w, r, h => by
      rw [List.nil_append, attValue, if_neg (by decide), if_neg (by decide), if_neg (by decide),
        if_neg (by simp), if_neg (by decide)] at h
      cases h
  | [], some ref, w, r, h => by
      rw [List.nil_append, attValue, if_neg (by decide), if_neg (by decide),
        attValue_of_mem_ref (by simp)] at h
      cases h
  | c :: v, none, w, r, h => by
      rw [List.cons_append, attValue] at h
      rw [List.length_cons]
      split at h
      · obtain ⟨rfl, -⟩ := Prod.mk.inj (Option.some.inj h)
        exact Nat.succ_pos _
      split at h
      · cases h
      split at h
      · exact Nat.lt_succ_of_lt (attValue_nul h)
      split at h
      · exact Nat.lt_succ_of_lt (attValue_nul h)
      split at h
      · obtain ⟨w', rfl, hrest⟩ := consChar_eq_some.mp h
        exact Nat.succ_lt_succ (attValue_nul hrest)
      · cases h
  | c :: v, some ref, w, r, h => by
      rw [List.cons_append, attValue] at h
      rw [List.length_cons]
      split at h
      · cases h
      split at h
      · obtain ⟨_, -, hchar⟩ := Option.bind_eq_some_iff.mp h
        obtain ⟨w', rfl, hrest⟩ := consChar_eq_some.mp hchar
        exact Nat.succ_lt_succ (attValue_nul hrest)
      · exact Nat.lt_succ_of_lt (attValue_nul h)

/-- A value without white space but blanks is plain if nothing of it is lost. -/
theorem plain_of_length : ∀ {v w r : List Char}, (∀ c ∈ v, isSpace c → c = ' ') →
    attValue '"' none (v ++ '"' :: rest) = some (w, r) → w.length = v.length → v.all isPlain
  | [], _, _, _, _, _ => rfl
  | c :: v, w, r, hspace, h, hlength => by
      have hlonger : ¬ (c :: v).length ≤ v.length := by simp
      rw [List.cons_append, attValue] at h
      split at h
      · obtain ⟨rfl, -⟩ := Prod.mk.inj (Option.some.inj h)
        cases hlength
      split at h
      · cases h
      split at h
      · exact absurd (hlength ▸ attValue_length h) hlonger
      split at h
      · exact absurd (hlength ▸ attValue_length h) hlonger
      split at h
      · next hquote hlt hamp _ hchar =>
          obtain ⟨w', rfl, hrest⟩ := consChar_eq_some.mp h
          rw [List.forall_mem_cons] at hspace
          rw [List.all_cons, plain_of_length hspace.2 hrest (Nat.succ.inj hlength), Bool.and_true]
          have hblank : c = ' ' ∨ isSpace c = false := by
            cases hc : isSpace c with
            | true => exact .inl (hspace.1 hc)
            | false => exact .inr rfl
          simpa [isPlain, hquote, hlt, hamp, hchar] using hblank
      · cases h

end Values

/-! ## The tag -/

section Tag
variable {name rest : List Char} {attributes : List (String × String)}
  {other : List Char → Option (Content × List Char)}

theorem readAttributes_emptyEnd (fuel : Nat) :
    readAttributes (fuel + 1) ('/' :: '>' :: rest) = some ([], true, rest) := by
  rw [readAttributes, skipSpace_cons (by decide)]
  rfl

/-- Plain values are read back. -/
theorem document_writeTag (h : isName name) (hname : ∀ a ∈ attributes, isName a.1.toList)
    (hnodup : (attributes.map Prod.fst).Nodup) (hplain : ∀ a ∈ attributes, a.2.toList.all isPlain) :
    document other (writeTag name attributes) =
      some (.element (String.ofList name) attributes .nil .nil) := by
  rw [writeTag, document_eq, readElement,
    readTag_write h hname hnodup hplain (by decide) readAttributes_emptyEnd]
  rfl

/-- **A text that ends like the tag of an empty element** is a document only if it is one. -/
theorem of_document_tag (hother : Delimited other) (h : isName name) {d : Content}
    (hread : document other (writeTag name attributes) = some d) :
    ∃ read, d = .element (String.ofList name) read .nil .nil ∧ (read.map Prod.fst).Nodup ∧
      ∃ fuel empty r, readAttributes fuel (attributes.flatMap writeAttribute ++ ['/', '>']) =
        some (read, empty, r) := by
  rw [writeTag, document_eq] at hread
  obtain ⟨⟨element, r⟩, helement, hread⟩ := Option.bind_eq_some_iff.mp hread
  simp only at hread
  split at hread
  · next hepilog =>
      obtain rfl := Option.some.inj hread
      rw [readElement] at helement
      obtain ⟨⟨tag, r₁⟩, htag, hrest⟩ := Option.bind_eq_some_iff.mp helement
      obtain ⟨rfl, hnodup, fuel, hattributes⟩ := of_readTag h (by decide) htag
      simp only at hrest
      split at hrest
      · obtain ⟨rfl, -⟩ := Prod.mk.inj (Option.some.inj hrest)
        exact ⟨tag.attributes, rfl, hnodup, fuel, tag.empty, r₁, hattributes⟩
      · -- an end tag would not end with a slash
        obtain ⟨⟨content, r₂⟩, hcontent, hrest⟩ := Option.bind_eq_some_iff.mp hrest
        obtain ⟨r₃, hend, hrest⟩ := Option.bind_eq_some_iff.mp hrest
        obtain ⟨-, rfl⟩ := Prod.mk.inj (Option.some.inj hrest)
        obtain ⟨front, c, hc, rfl⟩ := readEndTag_end hend
        have hopen := endsOpen_of_rest front hc (isEpilog_end hother hepilog)
        have hsuffix := (readContent_suffix hother hcontent).trans (readTag_suffix htag)
        refine absurd (hopen.of_suffix hsuffix) ?_
        rw [← List.append_assoc]
        exact not_endsOpen _
  · cases hread

/-- The values are plain if what is read for a name is never less than what was written. -/
theorem plain_of_readAttributes_named {tail : List Char} : ∀ {attributes read : List (String × String)}
    {fuel : Nat} {empty : Bool} {r : List Char}, (∀ a ∈ attributes, isName a.1.toList) →
      readAttributes fuel (attributes.flatMap writeAttribute ++ tail) = some (read, empty, r) →
        (∀ a ∈ attributes, ∀ w rest r', (a.1, String.ofList w) ∈ read →
          attValue '"' none (a.2.toList ++ '"' :: rest) = some (w, r') → a.2.toList.all isPlain) →
            ∀ a ∈ attributes, a.2.toList.all isPlain
  | [], _, _, _, _, _, _, _ => nofun
  | _ :: _, _, 0, _, _, _, h, _ => by cases h
  | a :: attributes, read, fuel + 1, empty, r, hname, h, hplain => by
      rw [List.forall_mem_cons] at hname hplain ⊢
      rw [List.flatMap_cons, List.append_assoc, writeAttribute_append,
        readAttributes_attribute hname.1] at h
      obtain ⟨⟨w, rest'⟩, hvalue, hattributes⟩ := Option.bind_eq_some_iff.mp h
      obtain ⟨⟨read', empty', r'⟩, hrest, heq⟩ := Option.map_eq_some_iff.mp hattributes
      obtain ⟨rfl, rfl, rfl⟩ : (String.ofList a.1.toList, String.ofList w) :: read' = read ∧
          empty' = empty ∧ r' = r := by simpa using heq
      rw [String.ofList_toList] at hplain
      have hfirst := hplain.1 w _ _ List.mem_cons_self hvalue
      rw [attValue_plain hfirst] at hvalue
      obtain ⟨-, rfl⟩ := Prod.mk.inj (Option.some.inj hvalue)
      exact ⟨hfirst, plain_of_readAttributes_named hname.2 hrest fun b hb w rest r' hmem =>
        hplain.2 b hb w rest r' (List.mem_cons_of_mem _ hmem)⟩

end Tag

end Xml
