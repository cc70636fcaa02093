/-
# `Server.ExclusionList` — exclusion lists on the server

`parseExclusionList` makes an element of each line that has four fields, and
`sendXMLElement` sends it with the fields as they are.  The fields that the
server sees are those of the bytes, each read as UTF-8 (`splitOn_text`); the
empty ones at the end it does not count.
-/
import Mathlib.Data.List.DropRight
import CaptureHpc.Java.UrlCodec
import CaptureHpc.Lib.XmlTag
import CaptureHpc.Server.Client

namespace CaptureHpc

/-- A line of a text file: no byte of it ends the line, or the file. -/
structure Line where
  bytes : List UInt8
  isLine : ∀ b ∈ bytes, b ≠ 0x0A ∧ b ≠ 0x0D ∧ b ≠ 0x1A

/-- The fields of a line, between its tabs. -/
def Line.fields (line : Line) : List (List UInt8) := line.bytes.splitOn 0x09

/-- The texts that the fields of a list are meant to be, by their names. -/
def named (excluded action subject object : String) : List (String × String) :=
  [("excluded", excluded), ("action", action), ("subject", subject), ("object", object)]

namespace Server

open Java

/-- `split("\t")`: the empty strings at the end are dropped, but a string without a tab stays as
it is. -/
def splitTabs (line : List Char) : List (List Char) :=
  if '\t' ∈ line then (line.splitOn '\t').rdropWhile (· = []) else [line]

/-- What `InputStreamReader` reads of bytes. -/
def text (bytes : List UInt8) : List Char := utf8Decode (bytes.map UInt8.toNat)

namespace ExclusionList

/-- The loop of `parseExclusionList`. -/
def parseLine (monitor : String) (line : List Char) : Option Element :=
  if line.length > 0 ∧ line.head? ≠ some '#' then
    match splitTabs line with
    | [excluded, action, subject, object] =>
        some {
          name := monitor ++ "-exclusion"
          attributes := named (.ofList excluded) (.ofList action) (.ofList subject) (.ofList object) }
    | _ => none
  else none

/-- `parseExclusionList`; the elements are those of `getExclusionListElements`. -/
def parseExclusionList (monitor : String) (file : List Line) : List Element :=
  file.filterMap fun line => parseLine monitor (text line.bytes)

end ExclusionList

/-- `sendXMLElement`; `keySet` is the order in which the map has its keys. -/
def Client.sendXMLElement (keySet : List (String × String) → List (String × String)) (e : Element) :
    List Char :=
  let msg := ['<'] ++ e.name.toList
  let msg := (keySet e.attributes).foldl
    (fun msg a => msg ++ [' '] ++ a.1.toList ++ ['=', '"'] ++ a.2.toList ++ ['"']) msg
  msg ++ ['/', '>']

theorem Client.sendXMLElement_eq (keySet : List (String × String) → List (String × String))
    (e : Element) : sendXMLElement keySet e = Xml.writeTag e.name.toList (keySet e.attributes) := by
  have hfold : ∀ (attributes : List (String × String)) (msg : List Char),
      attributes.foldl (fun msg a => msg ++ [' '] ++ a.1.toList ++ ['=', '"'] ++ a.2.toList ++ ['"'])
        msg = msg ++ attributes.flatMap Xml.writeAttribute := by
    intro attributes
    induction attributes with
    | nil => exact fun msg => (List.append_nil msg).symm
    | cons a attributes ih =>
        intro msg
        rw [List.foldl_cons, ih, List.flatMap_cons]
        simp [Xml.writeAttribute]
  rw [sendXMLElement, hfold, Xml.writeTag]
  simp

/-! ## The fields -/

section Fields
variable {x y : List UInt8}

theorem text_tab (x y : List UInt8) : text (x ++ 0x09 :: y) = text x ++ '\t' :: text y := by
  rw [text, List.map_append, List.map_cons]
  exact utf8Decode_append_cons (by decide) _ _

/-- An ASCII character that is read was there as a byte. -/
theorem not_mem_text {b : UInt8} {c : Char} (hc : c.toNat < 0x80) (hb : b.toNat = c.toNat)
    (h : b ∉ x) : c ∉ text x := by
  intro hmem
  obtain ⟨b', hb', hnat⟩ := List.mem_map.mp (mem_of_mem_utf8Decode hc _ hmem)
  obtain rfl : b' = b := UInt8.toNat_inj.mp (hnat.trans hb.symm)
  exact h hb'

theorem tab_not_mem_text (h : 0x09 ∉ x) : '\t' ∉ text x := not_mem_text (by decide) rfl h

theorem text_eq_nil : text x = [] ↔ x = [] := by
  cases x with
  | nil => exact iff_of_true rfl rfl
  | cons b x =>
      refine iff_of_false ?_ (List.cons_ne_nil b x)
      rw [text, List.map_cons, utf8Decode_firstChar]
      exact List.cons_ne_nil _ _

/-- **The fields of the text** are those of the bytes, each read by itself. -/
theorem splitOn_text (line : List UInt8) :
    (text line).splitOn '\t' = (line.splitOn 0x09).map text := by
  induction hn : line.length using Nat.strongRecOn generalizing line with
  | ind n ih =>
      by_cases htab : 0x09 ∈ line
      · obtain ⟨x, y, rfl, hx⟩ := List.eq_append_cons_of_mem htab
        have hshorter : y.length < n := by
          rw [← hn, List.length_append, List.length_cons]
          omega
        rw [text_tab, List.splitOn_append_cons_self_of_not_mem (tab_not_mem_text hx),
          List.splitOn_append_cons_self_of_not_mem hx, ih _ hshorter y rfl, List.map_cons]
      · rw [List.splitOn_eq_singleton htab, List.splitOn_eq_singleton (tab_not_mem_text htab),
          List.map_singleton]

theorem head_text (bytes : List UInt8) :
    (text bytes).head? = some '#' ↔ bytes.head? = some 0x23 := by
  cases bytes with
  | nil => exact iff_of_false (Option.some_ne_none _).symm (Option.some_ne_none _).symm
  | cons b bytes =>
      rw [text, List.map_cons, utf8Decode_firstChar, List.head?_cons, List.head?_cons,
        Option.some.injEq, Option.some.injEq]
      constructor
      · intro hfirst
        simp only [firstChar] at hfirst
        split at hfirst
        · next hself =>
            rw [hfirst] at hself
            cases hn : (leadingBits (b.toNat :: bytes.map UInt8.toNat)).2 with
            | zero =>
                rw [hn] at hself
                cases hself
            | succ n =>
                rw [hn, List.take_succ_cons] at hself
                exact UInt8.toNat_inj.mp (List.cons.inj hself).1.symm
        · exact absurd hfirst (show ¬ replacement = '#' by decide)
      · rintro rfl
        exact congrArg Prod.fst (firstChar_ascii (b := 0x23) (by decide) _)

/-- The fields that are counted. -/
theorem splitTabs_text (line : Line) {fields : List (List Char)} (hmany : 1 < fields.length) :
    splitTabs (text line.bytes) = fields ↔ (line.fields.rdropWhile (· = [])).map text = fields := by
  have hmap : ((text line.bytes).splitOn '\t').rdropWhile (· = []) =
      (line.fields.rdropWhile (· = [])).map text := by
    rw [splitOn_text, List.rdropWhile, List.rdropWhile, ← List.map_reverse, List.dropWhile_map,
      List.map_reverse, Line.fields]
    congr 3
    funext x
    simp [text_eq_nil]
  rw [splitTabs]
  split
  · rw [hmap]
  · next htab =>
      -- one field only
      rw [← hmap, List.splitOn_eq_singleton htab]
      refine iff_of_false ?_ ?_
      · rintro rfl
        exact absurd hmany (by simp)
      · rintro rfl
        have hle := (List.rdropWhile_prefix (fun x => decide (x = [])) [text line.bytes]).length_le
        exact absurd (Nat.lt_of_lt_of_le hmany hle) (by simp)

theorem ExclusionList.parseLine_eq_some {monitor : String} {line : Line} {e : Element} :
    parseLine monitor (text line.bytes) = some e ↔ ¬ line.bytes.head? = some 0x23 ∧
      ∃ excluded action subject object,
        line.fields.rdropWhile (· = []) = [excluded, action, subject, object] ∧
          e = { name := monitor ++ "-exclusion"
                attributes := named (.ofList (text excluded)) (.ofList (text action))
                  (.ofList (text subject)) (.ofList (text object)) } := by
  rw [← not_congr (head_text line.bytes), parseLine]
  constructor
  · intro h
    split at h
    · next hline =>
        split at h
        · next excluded action subject object hfields =>
            obtain rfl := Option.some.inj h
            have hmap := (splitTabs_text line (by simp)).mp hfields
            obtain ⟨f₁, l₁, h₁, rfl, hmap₁⟩ := List.map_eq_cons_iff.mp hmap
            obtain ⟨f₂, l₂, rfl, rfl, hmap₂⟩ := List.map_eq_cons_iff.mp hmap₁
            obtain ⟨f₃, l₃, rfl, rfl, hmap₃⟩ := List.map_eq_cons_iff.mp hmap₂
            obtain ⟨f₄, l₄, rfl, rfl, hmap₄⟩ := List.map_eq_cons_iff.mp hmap₃
            obtain rfl := List.map_eq_nil_iff.mp hmap₄
            exact ⟨hline.2, f₁, f₂, f₃, f₄, h₁, rfl⟩
        · cases h
    · cases h
  · rintro ⟨hhash, f₁, f₂, f₃, f₄, hfields, rfl⟩
    have hsplit : splitTabs (text line.bytes) = [text f₁, text f₂, text f₃, text f₄] :=
      (splitTabs_text line (by simp)).mpr (by rw [hfields]; rfl)
    have hlength : (text line.bytes).length > 0 := by
      refine List.length_pos_iff.mpr fun hnil => ?_
      rw [hnil] at hsplit
      exact absurd (congrArg List.length hsplit) (by simp [splitTabs])
    rw [if_pos ⟨hlength, hhash⟩, hsplit]

end Fields

end Server

end CaptureHpc
