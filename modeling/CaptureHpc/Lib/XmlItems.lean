/-
# `Lib.XmlItems` — empty elements in one element

A list of records is sent as an element with one empty element for each record,
whose fields are its attributes.  Written with plain values it is read back.
-/
import CaptureHpc.Lib.XmlTag

namespace Xml

/-- What can be written of an element: names, no attribute twice, plain values. -/
structure Writable (name : List Char) (attributes : List (String × String)) : Prop where
  name : isName name
  names : ∀ a ∈ attributes, isName a.1.toList
  nodup : (attributes.map Prod.fst).Nodup
  plain : ∀ a ∈ attributes, a.2.toList.all isPlain

theorem Writable.of_names {name : List Char} {attributes : List (String × String)}
    {l : List String} (hnames : attributes.map Prod.fst = l) (hname : isName name)
    (hall : ∀ n ∈ l, isName n.toList) (hnodup : l.Nodup)
    (hplain : ∀ a ∈ attributes, a.2.toList.all isPlain) : Writable name attributes where
  name := hname
  names a ha := hall a.1 (hnames ▸ List.mem_map_of_mem ha)
  nodup := hnames ▸ hnodup
  plain := hplain

/-- Empty elements of one name, by their attributes. -/
def emptyElements (name : String) (items : List (List (String × String))) : Content :=
  items.foldr (fun attributes rest => .element name attributes .nil rest) .nil

/-- No text stands in it. -/
def Textless : Content → Prop
  | .nil => True
  | .text _ _ => False
  | .element _ _ content rest => Textless content ∧ Textless rest

/-- Where no text is, nothing is cut. -/
theorem Content.Split.eq_of_textless {c d : Content} (h : c.Split d) : Textless c → d = c := by
  induction h with
  | nil => exact fun _ => rfl
  | text _ _ => exact False.elim
  | element _ _ ihcontent ih => exact fun ⟨hcontent, hrest⟩ => by rw [ihcontent hcontent, ih hrest]

theorem Textless.texts : ∀ {c : Content}, Textless c → c.texts = []
  | .nil, _ => rfl
  | .text _ _, h => h.elim
  | .element _ _ _ rest, h => @Textless.texts rest h.2

theorem textless_emptyElements (name : String) (items : List (List (String × String))) :
    Textless (emptyElements name items) := by
  induction items with
  | nil => trivial
  | cons attributes items ih => exact ⟨trivial, ih⟩

/-- An element with empty elements in it, the attribute values as they are. -/
def writeItems (name : List Char) (attributes : List (String × String)) (item : List Char)
    (items : List (List (String × String))) : List Char :=
  '<' :: (name ++ (attributes.flatMap writeAttribute ++ '>' :: (items.flatMap (writeTag item) ++
    '<' :: '/' :: (name ++ ['>']))))

section Items
variable {name item rest : List Char} {attributes : List (String × String)}
  {items : List (List (String × String))} {other : List Char → Option (Content × List Char)}

theorem readElement_tag {reader : List Char → Option (Content × List Char)}
    (h : Writable name attributes) :
    readElement reader (name ++ (attributes.flatMap writeAttribute ++ '/' :: '>' :: rest)) =
      some (.element (String.ofList name) attributes .nil, rest) := by
  rw [readElement, readTag_write h.name h.names h.nodup h.plain (by decide) readAttributes_emptyEnd]
  rfl

theorem readContent_items : ∀ {items : List (List (String × String))} {fuel : Nat},
    items.length < fuel → (∀ attributes ∈ items, Writable item attributes) →
      readContent other fuel (items.flatMap (writeTag item) ++ '<' :: '/' :: rest) =
        some (emptyElements (String.ofList item) items, rest)
  | _, 0, h, _ => absurd h (Nat.not_lt_zero _)
  | [], _ + 1, _, _ => readContent_end
  | attributes :: items, fuel + 1, h, hitems => by
      rw [List.forall_mem_cons] at hitems
      have hrest := @readContent_items items fuel (Nat.lt_of_succ_lt_succ h) hitems.2
      have hfirst : (attributes :: items).flatMap (writeTag item) ++ '<' :: '/' :: rest =
          '<' :: (item ++ (attributes.flatMap writeAttribute ++
            '/' :: '>' :: (items.flatMap (writeTag item) ++ '<' :: '/' :: rest))) := by
        simp [writeTag]
      rw [hfirst, readContent_element hitems.1.name, readElement_tag hitems.1, Option.bind_some,
        hrest]
      rfl

theorem length_le_items (items : List (List (String × String))) :
    items.length ≤ (items.flatMap (writeTag item)).length := by
  induction items with
  | nil => exact Nat.le_refl _
  | cons attributes items ih =>
      rw [List.flatMap_cons, List.length_append, List.length_cons]
      have hpos : 0 < (writeTag item attributes).length := Nat.succ_pos _
      omega

/-- **An element with empty elements in it is read back.** -/
theorem document_writeItems (h : Writable name attributes)
    (hitems : ∀ attributes ∈ items, Writable item attributes) :
    document other (writeItems name attributes item items) =
      some (.element (String.ofList name) attributes (emptyElements (String.ofList item) items)
        .nil) := by
  have hfuel : items.length < (name ++ (attributes.flatMap writeAttribute ++ '>' ::
      (items.flatMap (writeTag item) ++ '<' :: '/' :: (name ++ ['>'])))).length + 1 := by
    have hle := @length_le_items item items
    simp only [List.length_append, List.length_cons]
    omega
  rw [writeItems, document_eq, readElement_write h.name h.names h.nodup h.plain,
    readContent_items hfuel hitems, Option.bind_some, readEndTag_append h.name, Option.map_some,
    Option.bind_some]
  rfl

/-- What holds of the names, the values and the marks holds of each character of the text. -/
theorem forall_mem_writeItems {p : Char → Prop} (hmarks : ∀ c ∈ "< =\"/>".toList, p c)
    (hname : ∀ c ∈ name, p c) (hitem : ∀ c ∈ item, p c)
    (hattributes : ∀ a ∈ attributes, (∀ c ∈ a.1.toList, p c) ∧ ∀ c ∈ a.2.toList, p c)
    (hitems : ∀ attributes ∈ items, ∀ a ∈ attributes,
      (∀ c ∈ a.1.toList, p c) ∧ ∀ c ∈ a.2.toList, p c) :
    ∀ c ∈ writeItems name attributes item items, p c := by
  simp only [show "< =\"/>".toList = ['<', ' ', '=', '"', '/', '>'] from rfl, List.forall_mem_cons,
    List.not_mem_nil, false_implies, implies_true, and_true] at hmarks
  obtain ⟨hopen, hblank, hequals, hquote, hslash, hclose⟩ := hmarks
  have hwritten : ∀ l : List (String × String),
      (∀ a ∈ l, (∀ c ∈ a.1.toList, p c) ∧ ∀ c ∈ a.2.toList, p c) →
        ∀ c ∈ l.flatMap writeAttribute, p c := by
    intro l hl c hc
    obtain ⟨a, ha, hc⟩ := List.mem_flatMap.mp hc
    simp only [writeAttribute, List.mem_cons, List.mem_append, List.not_mem_nil, or_false] at hc
    rcases hc with rfl | hc | rfl | rfl | hc | rfl
    · exact hblank
    · exact (hl a ha).1 c hc
    · exact hequals
    · exact hquote
    · exact (hl a ha).2 c hc
    · exact hquote
  have htag : ∀ c ∈ items.flatMap (writeTag item), p c := by
    intro c hc
    obtain ⟨l, hl, hc⟩ := List.mem_flatMap.mp hc
    simp only [writeTag, List.mem_cons, List.mem_append, List.not_mem_nil, or_false] at hc
    rcases hc with rfl | hc | hc | rfl | rfl
    · exact hopen
    · exact hitem c hc
    · exact hwritten l (hitems l hl) c hc
    · exact hslash
    · exact hclose
  intro c hc
  simp only [writeItems, List.mem_cons, List.mem_append, List.not_mem_nil, or_false] at hc
  rcases hc with rfl | hc | hc | rfl | hc | rfl | rfl | hc | rfl
  · exact hopen
  · exact hname c hc
  · exact hwritten attributes hattributes c hc
  · exact hclose
  · exact htag c hc
  · exact hopen
  · exact hslash
  · exact hname c hc
  · exact hclose

end Items

end Xml
