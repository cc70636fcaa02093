/-
# `Lib.Xml` — documents, their events, and a parser

A document is the tree of its elements.  A SAX parser reports it as a stream of
events, and it may cut the text between two tags into as many pieces as it
likes (`Split`).

`document` is a parser for the part of XML that programs write: elements,
attributes, references, character data.  What begins with `<!` or `<?` is left
to a parameter.  Names have no prefix.
-/
import Mathlib.Data.List.Basic

namespace Xml

/-- What stands between the tags of an element, in document order. -/
inductive Content where
  | nil
  | text (s : String) (rest : Content)
  | element (name : String) (attributes : List (String × String)) (content rest : Content)
deriving DecidableEq

inductive SaxEvent where
  | startElement (name : String) (attributes : List (String × String))
  | endElement (name : String)
  | characters (s : String)
deriving DecidableEq

namespace Content

/-- The events that report it. -/
def events : Content → List SaxEvent
  | nil => []
  | text s rest => .characters s :: rest.events
  | element name attributes content rest =>
      .startElement name attributes :: (content.events ++ .endElement name :: rest.events)

def append : Content → Content → Content
  | nil, c => c
  | text s rest, c => text s (rest.append c)
  | element name attributes content rest, c => element name attributes content (rest.append c)

/-- The texts that stand directly in it. -/
def texts : Content → List String
  | nil => []
  | text s rest => s :: rest.texts
  | element _ _ _ rest => rest.texts

/-- Text in pieces. -/
def pieces (l : List String) (rest : Content) : Content := l.foldr text rest

/-- The same document, its texts cut into pieces. -/
inductive Split : Content → Content → Prop
  | nil : Split nil nil
  | text {l : List String} {rest rest' : Content} :
      Split rest rest' → Split (text (String.join l) rest) (pieces l rest')
  | element {name : String} {attributes : List (String × String)}
      {content content' rest rest' : Content} :
      Split content content' → Split rest rest' →
        Split (element name attributes content rest) (element name attributes content' rest')

theorem Split.refl : ∀ c : Content, c.Split c
  | .nil => .nil
  | .text s rest => by
      have h := Split.text (l := [s]) (Split.refl rest)
      rwa [show String.join [s] = s by simp] at h
  | .element _ _ content rest => .element (Split.refl content) (Split.refl rest)

/-- The elements without the texts, with the attributes as `f` has them. -/
def shape (f : List (String × String) → List (String × String)) : Content → Content
  | nil => nil
  | text _ rest => rest.shape f
  | element name attributes content rest =>
      element name (f attributes) (content.shape f) (rest.shape f)

theorem shape_pieces (f : List (String × String) → List (String × String)) (l : List String)
    (c : Content) : (pieces l c).shape f = c.shape f := by
  induction l with
  | nil => rfl
  | cons s l ih => exact ih

/-- The cuts leave the elements as they are. -/
theorem Split.shape {f : List (String × String) → List (String × String)} {c c' : Content}
    (h : c.Split c') : c'.shape f = c.shape f := by
  induction h with
  | nil => rfl
  | text _ ih => rw [shape_pieces, ih, Content.shape]
  | element _ _ ihcontent ih => rw [Content.shape, Content.shape, ihcontent, ih]

end Content

/-! ## Characters -/

def isChar (c : Char) : Bool :=
  c = '\t' || c = '\n' || c = '\r' || (0x20 ≤ c.toNat && c.toNat ≠ 0xFFFE && c.toNat ≠ 0xFFFF)

def isSpace (c : Char) : Bool := c = ' ' || c = '\t' || c = '\n' || c = '\r'

def inRanges (ranges : List (Nat × Nat)) (c : Char) : Bool :=
  ranges.any fun r => r.1 ≤ c.toNat && c.toNat ≤ r.2

/-- A character that may begin a name without a prefix. -/
def isNameStart (c : Char) : Bool :=
  inRanges [(0x41, 0x5A), (0x5F, 0x5F), (0x61, 0x7A), (0xC0, 0xD6), (0xD8, 0xF6), (0xF8, 0x2FF),
    (0x370, 0x37D), (0x37F, 0x1FFF), (0x200C, 0x200D), (0x2070, 0x218F), (0x2C00, 0x2FEF),
    (0x3001, 0xD7FF), (0xF900, 0xFDCF), (0xFDF0, 0xFFFD), (0x10000, 0xEFFFF)] c

def isNameChar (c : Char) : Bool :=
  isNameStart c ||
    inRanges [(0x2D, 0x2E), (0x30, 0x39), (0xB7, 0xB7), (0x300, 0x36F), (0x203F, 0x2040)] c

/-- A name without a prefix. -/
def isName (name : List Char) : Bool :=
  match name with
  | [] => false
  | c :: rest => isNameStart c && rest.all isNameChar

/-! ## References -/

def digitValue (c : Char) : Option Nat :=
  if '0' ≤ c ∧ c ≤ '9' then some (c.toNat - '0'.toNat)
  else if 'a' ≤ c ∧ c ≤ 'f' then some (c.toNat - 'a'.toNat + 10)
  else if 'A' ≤ c ∧ c ≤ 'F' then some (c.toNat - 'A'.toNat + 10)
  else none

def number (base : Nat) (digits : List Char) : Option Nat :=
  if digits = [] then none
  else digits.foldlM (fun n c => do
    let d ← digitValue c
    if d < base then some (n * base + d) else none) 0

/-- The character that a reference stands for, by what is between `&` and `;`. -/
def referenced (ref : List Char) : Option Char :=
  match ref with
  | ['a', 'm', 'p'] => some '&'
  | ['l', 't'] => some '<'
  | ['g', 't'] => some '>'
  | ['q', 'u', 'o', 't'] => some '"'
  | ['a', 'p', 'o', 's'] => some '\''
  | '#' :: 'x' :: digits => charOf (number 16 digits)
  | '#' :: digits => charOf (number 10 digits)
  | _ => none
where
  charOf (n : Option Nat) : Option Char := do
    let n ← n
    if h : n.isValidChar then if isChar (Char.ofNatAux n h) then some (Char.ofNatAux n h) else none
    else none

/-! ## Attributes -/

/-- `c` in front of what is read. -/
def consChar {α : Type} (c : Char) (o : Option (List Char × α)) : Option (List Char × α) :=
  o.map fun r => (c :: r.1, r.2)

/-- An attribute value up to the quote that ends it, and what follows.  White space becomes a
blank.  `ref` is what was read of a reference. -/
def attValue (quote : Char) : Option (List Char) → List Char → Option (List Char × List Char)
  | _, [] => none
  | none, c :: rest =>
      if c = quote then some ([], rest)
      else if c = '<' then none
      else if c = '&' then attValue quote (some []) rest
      else if c = '\r' && rest.head? = some '\n' then attValue quote none rest
      else if isChar c then consChar (if isSpace c then ' ' else c) (attValue quote none rest)
      else none
  | some ref, c :: rest =>
      if c = quote then none
      else if c = ';' then do
        let r ← referenced ref
        consChar r (attValue quote none rest)
      else attValue quote (some (ref ++ [c])) rest

/-- A name, and what follows. -/
def readName (input : List Char) : Option (List Char × List Char) :=
  let name := input.takeWhile isNameChar
  if isName name then some (name, input.dropWhile isNameChar) else none

def skipSpace (input : List Char) : List Char := input.dropWhile isSpace

/-- The attributes of a tag up to its end; whether the tag is that of an empty element. -/
def readAttributes : Nat → List Char → Option (List (String × String) × Bool × List Char)
  | 0, _ => none
  | fuel + 1, input =>
      match skipSpace input with
      | '>' :: rest => some ([], false, rest)
      | '/' :: '>' :: rest => some ([], true, rest)
      | start => do
          if input.head?.any isSpace then
            let (name, rest) ← readName start
            match skipSpace rest with
            | '=' :: rest =>
                match skipSpace rest with
                | quote :: rest =>
                    if quote = '"' || quote = '\'' then
                      let (value, rest) ← attValue quote none rest
                      let (attributes, empty, rest) ← readAttributes fuel rest
                      some ((String.ofList name, String.ofList value) :: attributes, empty, rest)
                    else none
                | [] => none
            | _ => none
          else none

/-! ## Tags and elements -/

structure Tag where
  name : List Char
  attributes : List (String × String)
  empty : Bool

/-- The rest of a start tag, after the `<`. -/
def readTag (input : List Char) : Option (Tag × List Char) := do
  let (name, rest) ← readName input
  let (attributes, empty, rest) ← readAttributes (rest.length + 1) rest
  if (attributes.map Prod.fst).Nodup then some ({ name, attributes, empty }, rest) else none

/-- The rest of an end tag, after the `</`. -/
def readEndTag (name : List Char) (input : List Char) : Option (List Char) := do
  let (name', rest) ← readName input
  match skipSpace rest with
  | '>' :: rest => if name' = name then some rest else none
  | _ => none

/-- Character data up to the next tag. -/
def charData : Option (List Char) → List Char → Option (List Char × List Char)
  | none, [] => some ([], [])
  | some _, [] => none
  | none, c :: rest =>
      if c = '<' then some ([], c :: rest)
      else if c = '&' then charData (some []) rest
      else if c = '\r' then
        if rest.head? = some '\n' then charData none rest else consChar '\n' (charData none rest)
      else if [']', ']', '>'].isPrefixOf (c :: rest) then none
      else if isChar c then consChar c (charData none rest)
      else none
  | some ref, c :: rest =>
      if c = '<' then none
      else if c = ';' then do
        let r ← referenced ref
        consChar r (charData none rest)
      else charData (some (ref ++ [c])) rest

/-- An element, after its `<`. -/
def readElement (readContent : List Char → Option (Content × List Char)) (input : List Char) :
    Option ((Content → Content) × List Char) := do
  let (tag, rest) ← readTag input
  if tag.empty then some (.element (String.ofList tag.name) tag.attributes .nil, rest)
  else
    let (content, rest) ← readContent rest
    let rest ← readEndTag tag.name rest
    some (.element (String.ofList tag.name) tag.attributes content, rest)

-- `other` is what is made of a comment, a CDATA section or a processing instruction; its
-- input is what follows the `<`
variable (other : List Char → Option (Content × List Char))

/-- The content of an element up to its end tag; what is left follows the `</`. -/
def readContent : Nat → List Char → Option (Content × List Char)
  | 0, _ => none
  | fuel + 1, input =>
      match input with
      | [] => none
      | '<' :: rest =>
          match rest with
          | '/' :: rest => some (.nil, rest)
          | _ =>
              if rest.head? = some '!' || rest.head? = some '?' then do
                let (content, rest) ← other rest
                let (siblings, rest) ← readContent fuel rest
                some (content.append siblings, rest)
              else do
                let (element, rest) ← readElement (readContent fuel) rest
                let (siblings, rest) ← readContent fuel rest
                some (element siblings, rest)
      | _ => do
          let (s, rest) ← charData none input
          let (siblings, rest) ← readContent fuel rest
          some (.text (String.ofList s) siblings, rest)

/-- Nothing but white space, comments and processing instructions. -/
def isEpilog : Nat → List Char → Bool
  | 0, _ => false
  | fuel + 1, input =>
      match skipSpace input with
      | [] => true
      | '<' :: rest =>
          if rest.head? = some '!' || rest.head? = some '?' then
            match other rest with
            | some (_, rest) => isEpilog fuel rest
            | none => false
          else false
      | _ => false

/-- A document that begins with its root element. -/
def document (input : List Char) : Option Content := do
  match input with
  | '<' :: rest =>
      let (root, rest) ← readElement (readContent other (rest.length + 1)) rest
      if isEpilog other (rest.length + 1) rest then some (root .nil) else none
  | _ => none

/-! ## Documents written without escapes -/

def writeAttribute (a : String × String) : List Char :=
  ' ' :: (a.1.toList ++ '=' :: '"' :: (a.2.toList ++ ['"']))

/-- A document, the attribute values and the texts as they are. -/
def write : Content → List Char
  | .nil => []
  | .text s rest => s.toList ++ write rest
  | .element name attributes content rest =>
      '<' :: (name.toList ++ (attributes.flatMap writeAttribute ++ '>' :: (write content ++
        '<' :: '/' :: (name.toList ++ '>' :: write rest))))

/-- A character that stands for itself in an attribute value. -/
def isPlain (c : Char) : Bool :=
  isChar c && c ≠ '<' && c ≠ '&' && c ≠ '"' && (c = ' ' || !isSpace c)

/-- A character that stands for itself in a text. -/
def isData (c : Char) : Bool := isChar c && c ≠ '<' && c ≠ '&' && c ≠ '\r' && c ≠ ']'

/-- All attribute values stand for themselves. -/
def PlainValues : Content → Prop
  | .nil => True
  | .text _ rest => PlainValues rest
  | .element _ attributes content rest =>
      (∀ a ∈ attributes, a.2.toList.all isPlain) ∧ PlainValues content ∧ PlainValues rest

/-- The names are names, no attribute comes twice, the texts stand for themselves and are apart. -/
def WellNamed : Content → Prop
  | .nil => True
  | .text s rest =>
      s ≠ "" ∧ s.toList.all isData ∧ (∀ s' rest', rest ≠ .text s' rest') ∧ WellNamed rest
  | .element name attributes content rest =>
      isName name.toList ∧ (∀ a ∈ attributes, isName a.1.toList) ∧ (attributes.map Prod.fst).Nodup ∧
        WellNamed content ∧ WellNamed rest

/-! ### Values -/

section Values
variable {rest : List Char}

theorem attValue_plain : ∀ {v : List Char}, v.all isPlain →
    attValue '"' none (v ++ '"' :: rest) = some (v, rest)
  | [], _ => by rw [List.nil_append, attValue, if_pos rfl]
  | c :: v, h => by
      rw [List.all_cons, Bool.and_eq_true] at h
      have ih := attValue_plain (v := v) h.2
      obtain ⟨⟨⟨⟨hchar, hlt⟩, hamp⟩, hquote⟩, hspace⟩ : (((isChar c ∧ c ≠ '<') ∧ c ≠ '&') ∧
          c ≠ '"') ∧ (c = ' ' ∨ ¬ isSpace c) := by simpa [isPlain] using h.1
      have hself : (if isSpace c then ' ' else c) = c := by
        rcases hspace with rfl | hspace
        · rfl
        · rw [if_neg hspace]
      have hcr : c ≠ '\r' := by
        rintro rfl
        simp [isSpace] at hspace
      rw [List.cons_append, attValue, if_neg hquote, if_neg hlt, if_neg hamp, if_neg (by simp [hcr]),
        if_pos hchar, ih, hself]
      rfl

theorem consChar_eq_some {α : Type} {c : Char} {o : Option (List Char × α)} {w : List Char} {r : α} :
    consChar c o = some (w, r) ↔ ∃ w', w = c :: w' ∧ o = some (w', r) := by
  cases o with
  | none => simp [consChar]
  | some p =>
      obtain ⟨w', r'⟩ := p
      simp [consChar, eq_comm]

/-- A value is not longer than what it is read from. -/
theorem attValue_length : ∀ {v : List Char} {ref : Option (List Char)} {w r : List Char},
    attValue '"' ref (v ++ '"' :: rest) = some (w, r) → w.length ≤ v.length
  | [], none, w, r, h => by
      rw [List.nil_append, attValue, if_pos rfl] at h
      obtain ⟨rfl, -⟩ := Prod.mk.inj (Option.some.inj h)
      exact Nat.le_refl _
  | [], some ref, w, r, h => by
      rw [List.nil_append, attValue, if_pos rfl] at h
      cases h
  | c :: v, none, w, r, h => by
      rw [List.cons_append, attValue] at h
      rw [List.length_cons]
      split at h
      · obtain ⟨rfl, -⟩ := Prod.mk.inj (Option.some.inj h)
        exact Nat.zero_le _
      split at h
      · cases h
      split at h
      · exact Nat.le_succ_of_le (attValue_length h)
      split at h
      · exact Nat.le_succ_of_le (attValue_length h)
      split at h
      · obtain ⟨w', rfl, hrest⟩ := consChar_eq_some.mp h
        exact Nat.succ_le_succ (attValue_length hrest)
      · cases h
  | c :: v, some ref, w, r, h => by
      rw [List.cons_append, attValue] at h
      rw [List.length_cons]
      split at h
      · cases h
      split at h
      · obtain ⟨_, -, hchar⟩ := Option.bind_eq_some_iff.mp h
        obtain ⟨w', rfl, hrest⟩ := consChar_eq_some.mp hchar
        exact Nat.succ_le_succ (attValue_length hrest)
      · exact Nat.le_succ_of_le (attValue_length h)

/-- A value that is read as it was written is plain. -/
theorem plain_of_attValue : ∀ {v r : List Char},
    attValue '"' none (v ++ '"' :: rest) = some (v, r) → v.all isPlain
  | [], _, _ => rfl
  | c :: v, r, h => by
      have hlonger : ¬ (c :: v).length ≤ v.length := by simp
      rw [List.cons_append, attValue] at h
      split at h
      · exact absurd (Prod.mk.inj (Option.some.inj h)).1 nofun
      split at h
      · cases h
      split at h
      · exact absurd (attValue_length h) hlonger
      split at h
      · exact absurd (attValue_length h) hlonger
      split at h
      · next hquote hlt hamp _ hchar =>
          obtain ⟨w', heq, h⟩ := consChar_eq_some.mp h
          obtain ⟨hself, rfl⟩ := List.cons.inj heq
          have hspace : c = ' ' ∨ ¬ isSpace c := by
            split at hself
            · exact .inl hself
            · next hno => exact .inr hno
          rw [List.all_cons, plain_of_attValue h, Bool.and_true]
          simp [isPlain, hquote, hlt, hamp, hchar]
          rcases hspace with rfl | hspace
          · exact .inl rfl
          · exact .inr (by simpa using hspace)
      · cases h

end Values

/-! ### Tags -/

section Tags
variable {name : List Char} {c : Char} {rest : List Char}

theorem all_of_isName (h : isName name) : name.all isNameChar := by
  cases name with
  | nil => cases h
  | cons c rest =>
      obtain ⟨hstart, hrest⟩ : isNameStart c ∧ rest.all isNameChar := by simpa [isName] using h
      rw [List.all_cons, hrest, Bool.and_true, isNameChar, hstart, Bool.true_or]

theorem readName_append (h : isName name) (hc : isNameChar c = false) :
    readName (name ++ c :: rest) = some (name, c :: rest) := by
  have hall : ∀ x ∈ name, isNameChar x := List.all_eq_true.mp (all_of_isName h)
  have htake : (name ++ c :: rest).takeWhile isNameChar = name := by
    rw [List.takeWhile_append_of_pos hall, List.takeWhile_cons_of_neg (by simp [hc]),
      List.append_nil]
  have hdrop : (name ++ c :: rest).dropWhile isNameChar = c :: rest := by
    rw [List.dropWhile_append_of_pos hall, List.dropWhile_cons_of_neg (by simp [hc])]
  rw [readName, htake, hdrop, if_pos h]

theorem skipSpace_cons (hc : isSpace c = false) : skipSpace (c :: rest) = c :: rest :=
  List.dropWhile_cons_of_neg (by simp [hc])

theorem readEndTag_append (h : isName name) :
    readEndTag name (name ++ '>' :: rest) = some rest := by
  rw [readEndTag, readName_append h (by decide)]
  show (match skipSpace ('>' :: rest) with
    | '>' :: rest => if name = name then some rest else none
    | _ => none) = some rest
  rw [skipSpace_cons (by decide)]
  exact if_pos rfl

theorem head_of_isName (h : isName name) : ∃ c rest, name = c :: rest ∧ isNameStart c := by
  cases name with
  | nil => cases h
  | cons c rest =>
      have hstart : isNameStart c ∧ rest.all isNameChar := by simpa [isName] using h
      exact ⟨c, rest, rfl, hstart.1⟩

theorem ne_of_isNameStart {d : Char} (hc : isNameStart c) (hd : isNameStart d = false) : c ≠ d := by
  rintro rfl
  rw [hd] at hc
  cases hc

theorem not_isSpace_of_isNameStart (hc : isNameStart c) : isSpace c = false := by
  simp [isSpace, ne_of_isNameStart hc (show isNameStart ' ' = false by decide),
    ne_of_isNameStart hc (show isNameStart '\t' = false by decide),
    ne_of_isNameStart hc (show isNameStart '\n' = false by decide),
    ne_of_isNameStart hc (show isNameStart '\r' = false by decide)]

/-- A blank and a name are no end of a tag. -/
theorem readAttributes_value {fuel : Nat} {input : List Char} (h : isName name) :
    readAttributes (fuel + 1) (' ' :: (name ++ '=' :: '"' :: input)) =
      (attValue '"' none input).bind fun r =>
        (readAttributes fuel r.2).map fun s =>
          ((String.ofList name, String.ofList r.1) :: s.1, s.2.1, s.2.2) := by
  have hread : readName (name ++ '=' :: '"' :: input) = some (name, '=' :: '"' :: input) :=
    readName_append h (by decide)
  obtain ⟨c, name', rfl, hc⟩ := head_of_isName h
  have hskip : skipSpace (' ' :: (c :: name' ++ '=' :: '"' :: input)) =
      c :: (name' ++ '=' :: '"' :: input) := by
    rw [skipSpace, List.dropWhile_cons_of_pos (by decide)]
    exact skipSpace_cons (not_isSpace_of_isNameStart hc)
  have hgt := ne_of_isNameStart hc (show isNameStart '>' = false by decide)
  have hslash := ne_of_isNameStart hc (show isNameStart '/' = false by decide)
  have heq : skipSpace ('=' :: '"' :: input) = '=' :: '"' :: input := skipSpace_cons (by decide)
  have hquote : skipSpace ('"' :: input) = '"' :: input := skipSpace_cons (by decide)
  rw [readAttributes, hskip]
  simp only
  split
  · next hfirst => exact absurd (List.cons.inj hfirst).1 hgt
  · next hfirst => exact absurd (List.cons.inj hfirst).1 hslash
  · rw [List.cons_append] at hread
    rw [hread]
    simp only [List.head?_cons, Option.any_some, show isSpace ' ' = true by decide, if_true, heq,
      hquote, decide_true, Bool.true_or, Option.bind_eq_bind, Option.bind_some]
    cases attValue '"' none input with
    | none => rfl
    | some r =>
        obtain ⟨w, rest'⟩ := r
        simp only [Option.bind_some]
        cases readAttributes fuel rest' <;> rfl

theorem readAttributes_attribute {fuel : Nat} {value : List Char} (h : isName name) :
    readAttributes (fuel + 1) (' ' :: (name ++ '=' :: '"' :: (value ++ '"' :: rest))) =
      (attValue '"' none (value ++ '"' :: rest)).bind fun r =>
        (readAttributes fuel r.2).map fun s =>
          ((String.ofList name, String.ofList r.1) :: s.1, s.2.1, s.2.2) :=
  readAttributes_value h

theorem readAttributes_end (fuel : Nat) :
    readAttributes (fuel + 1) ('>' :: rest) = some ([], false, rest) := by
  rw [readAttributes, skipSpace_cons (by decide)]
  rfl

theorem writeAttribute_append (a : String × String) :
    writeAttribute a ++ rest =
      ' ' :: (a.1.toList ++ '=' :: '"' :: (a.2.toList ++ '"' :: rest)) := by
  simp [writeAttribute]

/-- Plain values are read back, up to the end of the tag. -/
theorem readAttributes_write {tail : List Char} {empty : Bool}
    (hend : ∀ fuel, readAttributes (fuel + 1) tail = some ([], empty, rest)) :
    ∀ {attributes : List (String × String)} {fuel : Nat}, attributes.length < fuel →
      (∀ a ∈ attributes, isName a.1.toList) → (∀ a ∈ attributes, a.2.toList.all isPlain) →
        readAttributes fuel (attributes.flatMap writeAttribute ++ tail) =
          some (attributes, empty, rest)
  | _, 0, hfuel, _, _ => absurd hfuel (Nat.not_lt_zero _)
  | [], fuel + 1, _, _, _ => hend fuel
  | a :: attributes, fuel + 1, hfuel, hname, hplain => by
      rw [List.forall_mem_cons] at hname hplain
      rw [List.flatMap_cons, List.append_assoc, writeAttribute_append,
        readAttributes_attribute hname.1, attValue_plain hplain.1, Option.bind_some,
        readAttributes_write hend (Nat.lt_of_succ_lt_succ hfuel) hname.2 hplain.2, Option.map_some,
        String.ofList_toList, String.ofList_toList]

/-- Attributes that are read as they were written have plain values. -/
theorem plain_of_readAttributes : ∀ {attributes : List (String × String)} {fuel : Nat}
    {empty : Bool} {r : List Char}, (∀ a ∈ attributes, isName a.1.toList) →
      readAttributes fuel (attributes.flatMap writeAttribute ++ '>' :: rest) =
        some (attributes, empty, r) → ∀ a ∈ attributes, a.2.toList.all isPlain
  | [], _, _, _, _, _ => nofun
  | _ :: _, 0, _, _, _, h => by cases h
  | a :: attributes, fuel + 1, empty, r, hname, h => by
      rw [List.forall_mem_cons] at hname ⊢
      rw [List.flatMap_cons, List.append_assoc, writeAttribute_append,
        readAttributes_attribute hname.1] at h
      obtain ⟨⟨w, rest'⟩, hvalue, hattributes⟩ := Option.bind_eq_some_iff.mp h
      obtain ⟨⟨attributes', empty', r'⟩, hrest, heq⟩ := Option.map_eq_some_iff.mp hattributes
      obtain ⟨⟨hfirst, rfl⟩, rfl, rfl⟩ : ((a.1, String.ofList w) = a ∧ attributes' = attributes) ∧
          empty' = empty ∧ r' = r := by simpa [String.ofList_toList] using heq
      have hw : w = a.2.toList := by rw [← hfirst, String.toList_ofList]
      subst hw
      have hplain := plain_of_attValue hvalue
      rw [attValue_plain hplain] at hvalue
      obtain ⟨-, rfl⟩ := Prod.mk.inj (Option.some.inj hvalue)
      exact ⟨hplain, plain_of_readAttributes hname.2 hrest⟩

theorem length_le_write (attributes : List (String × String)) :
    attributes.length ≤ (attributes.flatMap writeAttribute).length := by
  induction attributes with
  | nil => exact Nat.le_refl _
  | cons a attributes ih =>
      rw [List.flatMap_cons, List.length_append, List.length_cons]
      have hpos : 0 < (writeAttribute a).length := Nat.succ_pos _
      omega

section
variable {attributes : List (String × String)}

theorem readName_tag (h : isName name) (hc : isNameChar c = false) :
    readName (name ++ (attributes.flatMap writeAttribute ++ c :: rest)) =
      some (name, attributes.flatMap writeAttribute ++ c :: rest) := by
  cases attributes with
  | nil => exact readName_append h hc
  | cons a attributes =>
      rw [List.flatMap_cons, List.append_assoc, writeAttribute_append]
      exact readName_append h (by decide)

theorem readTag_write {tail : List Char} {empty : Bool} (h : isName name)
    (hname : ∀ a ∈ attributes, isName a.1.toList) (hnodup : (attributes.map Prod.fst).Nodup)
    (hplain : ∀ a ∈ attributes, a.2.toList.all isPlain) (hc : isNameChar c = false)
    (hend : ∀ fuel, readAttributes (fuel + 1) (c :: tail) = some ([], empty, rest)) :
    readTag (name ++ (attributes.flatMap writeAttribute ++ c :: tail)) =
      some ({ name, attributes, empty }, rest) := by
  have hfuel : attributes.length <
      (attributes.flatMap writeAttribute ++ c :: tail).length + 1 := by
    have := length_le_write attributes
    rw [List.length_append]
    omega
  rw [readTag, readName_tag h hc]
  simp only [Option.bind_eq_bind, Option.bind_some, readAttributes_write hend hfuel hname hplain,
    if_pos hnodup]

theorem of_readTag {tag : Tag} {r : List Char} (h : isName name) (hc : isNameChar c = false)
    (hread : readTag (name ++ (attributes.flatMap writeAttribute ++ c :: rest)) = some (tag, r)) :
    tag.name = name ∧ (tag.attributes.map Prod.fst).Nodup ∧ ∃ fuel,
      readAttributes fuel (attributes.flatMap writeAttribute ++ c :: rest) =
        some (tag.attributes, tag.empty, r) := by
  rw [readTag, readName_tag h hc] at hread
  simp only [Option.bind_eq_bind, Option.bind_some] at hread
  obtain ⟨⟨attributes', empty, r'⟩, hattributes, hif⟩ := Option.bind_eq_some_iff.mp hread
  simp only at hif
  split at hif
  · next hnodup =>
      obtain ⟨rfl, rfl⟩ := Prod.mk.inj (Option.some.inj hif)
      exact ⟨rfl, hnodup, _, hattributes⟩
  · cases hif

end

end Tags

/-! ### Content -/

section Content
variable {f : List (String × String) → List (String × String)}
  {other : List Char → Option (Content × List Char)}

theorem charData_data {rest : List Char} : ∀ {s : List Char}, s.all isData →
    charData none (s ++ '<' :: rest) = some (s, '<' :: rest)
  | [], _ => by rw [List.nil_append, charData, if_pos rfl]
  | c :: s, h => by
      rw [List.all_cons, Bool.and_eq_true] at h
      obtain ⟨⟨⟨⟨hchar, hlt⟩, hamp⟩, hcr⟩, hend⟩ : (((isChar c ∧ c ≠ '<') ∧ c ≠ '&') ∧
          c ≠ '\r') ∧ c ≠ ']' := by simpa [isData] using h.1
      have hprefix : ¬ [']', ']', '>'].isPrefixOf (c :: (s ++ '<' :: rest)) = true := by
        intro hp
        simp only [List.isPrefixOf_cons_cons, Bool.and_eq_true, beq_iff_eq] at hp
        exact hend hp.1.symm
      rw [List.cons_append, charData, if_neg hlt, if_neg hamp, if_neg hcr, if_neg hprefix,
        if_pos hchar, charData_data h.2]
      rfl

/-- What follows a text begins with a tag. -/
theorem write_append_of_ne_text {c : Content} (h : ∀ s rest, c ≠ .text s rest) (tail : List Char) :
    ∃ rest, write c ++ '<' :: tail = '<' :: rest := by
  cases c with
  | nil => exact ⟨tail, rfl⟩
  | text s rest => exact absurd rfl (h s rest)
  | element name attributes content rest => exact ⟨_, rfl⟩

theorem readContent_end {fuel : Nat} {rest : List Char} :
    readContent other (fuel + 1) ('<' :: '/' :: rest) = some (.nil, rest) := rfl

/-- A name after `<` begins an element. -/
theorem readContent_element {fuel : Nat} {name rest : List Char} (h : isName name) :
    readContent other (fuel + 1) ('<' :: (name ++ rest)) =
      (readElement (readContent other fuel) (name ++ rest)).bind fun r =>
        (readContent other fuel r.2).map fun s => (r.1 s.1, s.2) := by
  obtain ⟨c, name', rfl, hc⟩ := head_of_isName h
  have hslash := ne_of_isNameStart hc (show isNameStart '/' = false by decide)
  have hbang := ne_of_isNameStart hc (show isNameStart '!' = false by decide)
  have hquestion := ne_of_isNameStart hc (show isNameStart '?' = false by decide)
  rw [List.cons_append, readContent]
  · simp only [List.head?_cons, Option.some.injEq, hbang, hquestion, decide_false, Bool.or_self,
      Bool.false_eq_true, if_false, Option.bind_eq_bind]
    cases readElement (readContent other fuel) (c :: (name' ++ rest)) with
    | none => rfl
    | some r =>
        obtain ⟨element, rest'⟩ := r
        simp only [Option.bind_some]
        cases readContent other fuel rest' <;> rfl
  · exact fun rest hfirst => hslash (List.cons.inj hfirst).1

theorem readContent_text {fuel : Nat} {s rest : List Char} (hne : s ≠ []) (hs : s.all isData) :
    readContent other (fuel + 1) (s ++ '<' :: rest) =
      (readContent other fuel ('<' :: rest)).map fun r => (.text (String.ofList s) r.1, r.2) := by
  cases s with
  | nil => exact absurd rfl hne
  | cons c s =>
      have hlt : c ≠ '<' := by
        rintro rfl
        simp [isData] at hs
      have hdata : charData none ((c :: s) ++ '<' :: rest) = some (c :: s, '<' :: rest) :=
        charData_data hs
      rw [List.cons_append] at hdata ⊢
      rw [readContent]
      · simp only [hdata, Option.bind_eq_bind, Option.bind_some]
        cases readContent other fuel ('<' :: rest) <;> rfl
      · exact nofun
      · exact fun rest hfirst => hlt (List.cons.inj hfirst).1

/-- What `readElement` does with the tag that was written, if it is read at all. -/
theorem readElement_write {reader : List Char → Option (Content × List Char)} {name rest : List Char}
    {attributes : List (String × String)} (h : isName name)
    (hname : ∀ a ∈ attributes, isName a.1.toList) (hnodup : (attributes.map Prod.fst).Nodup)
    (hplain : ∀ a ∈ attributes, a.2.toList.all isPlain) :
    readElement reader (name ++ (attributes.flatMap writeAttribute ++ '>' :: rest)) =
      (reader rest).bind fun r => (readEndTag name r.2).map fun rest =>
        (.element (String.ofList name) attributes r.1, rest) := by
  rw [readElement, readTag_write h hname hnodup hplain (by decide) readAttributes_end]
  simp only [Option.bind_eq_bind, Option.bind_some, Bool.false_eq_true, if_false]
  cases reader rest with
  | none => rfl
  | some r =>
      obtain ⟨content, rest'⟩ := r
      simp only [Option.bind_some]
      cases readEndTag name rest' <;> rfl

/-- An element that has the attributes that were written was written with plain values. -/
theorem plain_of_readElement {reader : List Char → Option (Content × List Char)}
    {name rest r : List Char} {attributes : List (String × String)} {element : Content → Content}
    (hf : ∀ l, (l.map Prod.fst).Nodup → f l = l) (h : isName name)
    (hname : ∀ a ∈ attributes, isName a.1.toList)
    (hread : readElement reader (name ++ (attributes.flatMap writeAttribute ++ '>' :: rest)) =
      some (element, r)) {content siblings siblings' : Content}
    (hsame : (element siblings').shape f = .element (String.ofList name) attributes content siblings) :
    ∀ a ∈ attributes, a.2.toList.all isPlain := by
  rw [readElement] at hread
  obtain ⟨⟨tag, r₁⟩, htag, hrest⟩ := Option.bind_eq_some_iff.mp hread
  obtain ⟨-, hnodup, fuel, hattributes⟩ := of_readTag h (by decide) htag
  have hkeeps : tag.attributes = attributes := by
    simp only at hrest
    split at hrest
    · obtain ⟨rfl, -⟩ := Prod.mk.inj (Option.some.inj hrest)
      rw [Content.shape, hf _ hnodup] at hsame
      exact (Content.element.inj hsame).2.1
    · obtain ⟨⟨content', r₂⟩, -, hrest⟩ := Option.bind_eq_some_iff.mp hrest
      obtain ⟨r₃, -, hrest⟩ := Option.bind_eq_some_iff.mp hrest
      obtain ⟨rfl, -⟩ := Prod.mk.inj (Option.some.inj hrest)
      rw [Content.shape, hf _ hnodup] at hsame
      exact (Content.element.inj hsame).2.1
  rw [hkeeps] at hattributes
  exact plain_of_readAttributes hname hattributes

/-- **Plain documents are read back.** -/
theorem readContent_write : ∀ {c : Content} {fuel : Nat} {tail : List Char}, WellNamed c →
    PlainValues c → (write c).length < fuel →
      readContent other fuel (write c ++ '<' :: '/' :: tail) = some (c, tail) := by
  intro c
  induction c with
  | nil =>
      intro fuel tail _ _ hfuel
      obtain ⟨fuel, rfl⟩ := Nat.exists_eq_add_of_lt hfuel
      exact readContent_end
  | text s rest ih =>
      intro fuel tail hnamed hplain hfuel
      obtain ⟨hne, hdata, hapart, hrest⟩ := hnamed
      have hne' : s.toList ≠ [] := fun h => hne (String.toList_eq_nil_iff.mp h)
      have hpos : 0 < s.toList.length := List.length_pos_iff.mpr hne'
      rw [write, List.length_append] at hfuel
      obtain ⟨fuel, rfl⟩ : ∃ n, fuel = n + 1 := ⟨fuel - 1, by omega⟩
      have ih : readContent other fuel (write rest ++ '<' :: '/' :: tail) = some (rest, tail) :=
        ih hrest hplain (show (write rest).length < fuel by omega)
      obtain ⟨next, hnext⟩ := write_append_of_ne_text hapart ('/' :: tail)
      rw [hnext] at ih
      rw [write, List.append_assoc, hnext, readContent_text hne' hdata, ih, Option.map_some,
        String.ofList_toList]
  | element name attributes content rest ihcontent ih =>
      intro fuel tail hnamed hplain hfuel
      obtain ⟨hname, hattributes, hnodup, hcontent, hrest⟩ := hnamed
      obtain ⟨hvalues, hplaincontent, hplainrest⟩ := hplain
      rw [write] at hfuel
      simp only [List.length_cons, List.length_append] at hfuel
      obtain ⟨fuel, rfl⟩ : ∃ n, fuel = n + 1 := ⟨fuel - 1, by omega⟩
      have ihcontent : readContent other fuel (write content ++
          '<' :: '/' :: (name.toList ++ '>' :: (write rest ++ '<' :: '/' :: tail))) =
            some (content, name.toList ++ '>' :: (write rest ++ '<' :: '/' :: tail)) :=
        ihcontent hcontent hplaincontent (show (write content).length < fuel by omega)
      have ih : readContent other fuel (write rest ++ '<' :: '/' :: tail) = some (rest, tail) :=
        ih hrest hplainrest (show (write rest).length < fuel by omega)
      have htext : write (.element name attributes content rest) ++ '<' :: '/' :: tail =
          '<' :: (name.toList ++ (attributes.flatMap writeAttribute ++ '>' :: (write content ++
            '<' :: '/' :: (name.toList ++ '>' :: (write rest ++ '<' :: '/' :: tail))))) := by
        simp [write]
      rw [htext, readContent_element hname, readElement_write hname hattributes hnodup hvalues,
        ihcontent, Option.bind_some, readEndTag_append hname, Option.map_some, Option.bind_some, ih,
        Option.map_some, String.ofList_toList]

/-- **A document that is read back with its attributes is plain.** -/
theorem plain_of_readContent (hf : ∀ l, (l.map Prod.fst).Nodup → f l = l) :
    ∀ {c c' : Content} {fuel : Nat} {tail r : List Char}, WellNamed c → (write c).length < fuel →
      readContent other fuel (write c ++ '<' :: '/' :: tail) = some (c', r) →
        c'.shape f = c.shape f → PlainValues c := by
  intro c
  induction c with
  | nil => exact fun _ _ _ _ => trivial
  | text s rest ih =>
      intro c' fuel tail r hnamed hfuel hread hshape
      obtain ⟨hne, hdata, hapart, hrest⟩ := hnamed
      have hne' : s.toList ≠ [] := fun h => hne (String.toList_eq_nil_iff.mp h)
      have hpos : 0 < s.toList.length := List.length_pos_iff.mpr hne'
      rw [write, List.length_append] at hfuel
      obtain ⟨fuel, rfl⟩ : ∃ n, fuel = n + 1 := ⟨fuel - 1, by omega⟩
      obtain ⟨next, hnext⟩ := write_append_of_ne_text hapart ('/' :: tail)
      rw [write, List.append_assoc, hnext, readContent_text hne' hdata, ← hnext] at hread
      obtain ⟨⟨siblings, r'⟩, hsiblings, heq⟩ := Option.map_eq_some_iff.mp hread
      obtain ⟨rfl, rfl⟩ := Prod.mk.inj heq
      exact ih hrest (by omega) hsiblings hshape
  | element name attributes content rest ihcontent ih =>
      intro c' fuel tail r hnamed hfuel hread hshape
      obtain ⟨hname, hattributes, hnodup, hcontent, hrest⟩ := hnamed
      rw [write] at hfuel
      simp only [List.length_cons, List.length_append] at hfuel
      obtain ⟨fuel, rfl⟩ : ∃ n, fuel = n + 1 := ⟨fuel - 1, by omega⟩
      have htext : write (.element name attributes content rest) ++ '<' :: '/' :: tail =
          '<' :: (name.toList ++ (attributes.flatMap writeAttribute ++ '>' :: (write content ++
            '<' :: '/' :: (name.toList ++ '>' :: (write rest ++ '<' :: '/' :: tail))))) := by
        simp [write]
      rw [htext, readContent_element hname] at hread
      obtain ⟨⟨element, r₁⟩, helement, hread⟩ := Option.bind_eq_some_iff.mp hread
      obtain ⟨⟨siblings, r₂⟩, hsiblings, heq⟩ := Option.map_eq_some_iff.mp hread
      obtain ⟨rfl, rfl⟩ := Prod.mk.inj heq
      rw [Content.shape, hf _ hnodup] at hshape
      have hvalues := plain_of_readElement hf hname hattributes helement
        (by rw [String.ofList_toList]; exact hshape)
      rw [readElement_write hname hattributes hnodup hvalues] at helement
      obtain ⟨⟨content', r₃⟩, hinner, helement⟩ := Option.bind_eq_some_iff.mp helement
      obtain ⟨r₄, hend, heq⟩ := Option.map_eq_some_iff.mp helement
      obtain ⟨rfl, rfl⟩ := Prod.mk.inj heq
      rw [Content.shape] at hshape
      obtain ⟨-, -, hinside, hbeside⟩ := Content.element.inj hshape
      have hplaincontent := ihcontent hcontent (by omega) hinner hinside
      -- the content was read as it was written, so the siblings begin where they were written
      rw [readContent_write hcontent hplaincontent (by omega)] at hinner
      obtain ⟨rfl, rfl⟩ := Prod.mk.inj (Option.some.inj hinner)
      rw [readEndTag_append hname] at hend
      obtain rfl := Option.some.inj hend
      exact ⟨hvalues, hplaincontent, ih hrest (by omega) hsiblings hbeside⟩

/-! ### Documents -/

theorem isEpilog_lineEnd {fuel : Nat} : isEpilog other (fuel + 1) ['\r', '\n'] = true := rfl

theorem document_eq (rest : List Char) : document other ('<' :: rest) =
    (readElement (readContent other (rest.length + 1)) rest).bind fun r =>
      if isEpilog other (r.2.length + 1) r.2 then some (r.1 .nil) else none := rfl

/-- The root has no siblings. -/
theorem of_document {input : List Char} {d : Content} (h : document other input = some d) :
    ∃ name attributes content, d = .element name attributes content .nil := by
  rw [document.eq_def] at h
  split at h
  · next rest =>
      obtain ⟨⟨element, r⟩, helement, h⟩ := Option.bind_eq_some_iff.mp h
      simp only at h
      split at h
      · obtain rfl := Option.some.inj h
        rw [readElement] at helement
        obtain ⟨⟨tag, r₁⟩, -, hrest⟩ := Option.bind_eq_some_iff.mp helement
        simp only at hrest
        split at hrest
        · obtain ⟨rfl, -⟩ := Prod.mk.inj (Option.some.inj hrest)
          exact ⟨_, _, _, rfl⟩
        · obtain ⟨⟨content', r₂⟩, -, hrest⟩ := Option.bind_eq_some_iff.mp hrest
          obtain ⟨r₃, -, hrest⟩ := Option.bind_eq_some_iff.mp hrest
          obtain ⟨rfl, -⟩ := Prod.mk.inj (Option.some.inj hrest)
          exact ⟨_, _, _, rfl⟩
      · cases h
  · cases h

section
variable {name : String} {attributes : List (String × String)} {content : Content}

theorem write_root : write (.element name attributes content .nil) ++ ['\r', '\n'] =
    '<' :: (name.toList ++ (attributes.flatMap writeAttribute ++ '>' :: (write content ++
      '<' :: '/' :: (name.toList ++ '>' :: ['\r', '\n'])))) := by
  simp [write]

theorem document_write (hnamed : WellNamed (.element name attributes content .nil))
    (hplain : PlainValues (.element name attributes content .nil)) :
    document other (write (.element name attributes content .nil) ++ ['\r', '\n']) =
      some (.element name attributes content .nil) := by
  obtain ⟨hname, hattributes, hnodup, hcontent, -⟩ := hnamed
  obtain ⟨hvalues, hplaincontent, -⟩ := hplain
  rw [write_root, document_eq, readElement_write hname hattributes hnodup hvalues,
    readContent_write hcontent hplaincontent (by simp only [List.length_append, List.length_cons]; omega),
    Option.bind_some, readEndTag_append hname, Option.map_some, Option.bind_some, String.ofList_toList]
  exact if_pos isEpilog_lineEnd

theorem plain_of_document (hf : ∀ l, (l.map Prod.fst).Nodup → f l = l)
    (hnamed : WellNamed (.element name attributes content .nil)) {d : Content}
    (hread : document other (write (.element name attributes content .nil) ++ ['\r', '\n']) = some d)
    (hshape : d.shape f = (Content.element name attributes content .nil).shape f) :
    PlainValues (.element name attributes content .nil) := by
  obtain ⟨hname, hattributes, hnodup, hcontent, -⟩ := hnamed
  rw [write_root, document_eq] at hread
  obtain ⟨⟨element, r⟩, helement, hread⟩ := Option.bind_eq_some_iff.mp hread
  simp only at hread
  split at hread
  · obtain rfl := Option.some.inj hread
    rw [Content.shape, hf _ hnodup] at hshape
    have hvalues := plain_of_readElement hf hname hattributes helement
      (by rw [String.ofList_toList]; exact hshape)
    rw [readElement_write hname hattributes hnodup hvalues] at helement
    obtain ⟨⟨content', r₁⟩, hinner, helement⟩ := Option.bind_eq_some_iff.mp helement
    obtain ⟨r₂, -, heq⟩ := Option.map_eq_some_iff.mp helement
    obtain ⟨rfl, rfl⟩ := Prod.mk.inj heq
    rw [Content.shape] at hshape
    have hplaincontent := plain_of_readContent hf hcontent
      (by simp only [List.length_append, List.length_cons]; omega) hinner
      (Content.element.inj hshape).2.2.1
    exact ⟨hvalues, hplaincontent, trivial⟩
  · cases hread

end

end Content

end Xml
