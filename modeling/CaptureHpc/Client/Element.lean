/-
# `Client.Element` — elements on their way to the server

`Element::toString` writes an element with its attribute values as they are;
`Server::sendXML` next to it escapes them.  So what the server builds is the
element that was sent exactly when no value needs an escape
(`received_iff`), and the parser of the server delivers the data in one piece.
-/
import Mathlib.Data.List.TakeWhile
import CaptureHpc.Server.ContentHandler

namespace CaptureHpc.Client

open Xml

structure Element where
  name : String
  attributes : List (String × String) := []
  childElements : List Element := []
  data : List UInt8 := []

namespace Element

/-- A byte as a wide character; it is sign-extended. -/
def wide (b : UInt8) : Char := if b < 0x80 then Char.ofNat b.toNat else Char.ofNat (0xFF00 + b.toNat)

/-- `tempData`, up to the first NUL. -/
def dataText (data : List UInt8) : List Char := (data.map wide).takeWhile (· ≠ '\x00')

def attributeText (a : String × String) : List Char :=
  [' '] ++ a.1.toList ++ ['=', '"'] ++ a.2.toList ++ ['"']

mutual

def toStringWithoutNewLine : Element → List Char
  | ⟨name, attributes, childElements, data⟩ =>
      ['<'] ++ name.toList ++ attributes.flatMap attributeText ++ ['>'] ++
        childrenText childElements ++ dataText data ++ ['<', '/'] ++ name.toList ++ ['>']

def childrenText : List Element → List Char
  | [] => []
  | e :: es => toStringWithoutNewLine e ++ childrenText es

end

def toString (e : Element) : List Char := toStringWithoutNewLine e ++ ['\r', '\n']

/-! ## The document an element means -/

def dataContent (data : List UInt8) : Content :=
  if data = [] then .nil else .text (String.ofList (data.map wide)) .nil

mutual

/-- The element in front of its siblings. -/
def content : Element → Content → Content
  | ⟨name, attributes, childElements, data⟩, siblings =>
      .element name attributes (contents childElements (dataContent data)) siblings

def contents : List Element → Content → Content
  | [], siblings => siblings
  | e :: es, siblings => content e (contents es siblings)

end

mutual

/-- The element as the server has it. -/
def onServer : Element → Server.Element
  | ⟨name, attributes, childElements, data⟩ =>
      { name, attributes, childElements := allOnServer childElements
        data := String.ofList (data.map wide) }

def allOnServer : List Element → List Server.Element
  | [] => []
  | e :: es => onServer e :: allOnServer es

end

/-! ## Elements that are sent -/

def isBase64 (b : UInt8) : Bool :=
  (0x41 ≤ b && b ≤ 0x5A) || (0x61 ≤ b && b ≤ 0x7A) || (0x30 ≤ b && b ≤ 0x39) || b = 0x2B || b = 0x2F ||
    b = 0x3D

/-- A name that is reported as it is; `xmlns` is no attribute. -/
def IsAttributeName (name : String) : Prop := isName name.toList ∧ name ≠ "xmlns"

mutual

/-- What the client builds: names, no attribute twice, data in base64. -/
def WellBuilt : Element → Prop
  | ⟨name, attributes, childElements, data⟩ =>
      isName name.toList ∧ (∀ a ∈ attributes, IsAttributeName a.1) ∧
        (attributes.map Prod.fst).Nodup ∧ data.all isBase64 ∧ AllWellBuilt childElements

def AllWellBuilt : List Element → Prop
  | [] => True
  | e :: es => WellBuilt e ∧ AllWellBuilt es

end

mutual

/-- No attribute value needs an escape: it has no `&`, `<` or `"`, no white space but blanks, and
only characters that XML has. -/
def Plain : Element → Prop
  | ⟨_, attributes, childElements, _⟩ =>
      (∀ a ∈ attributes, a.2.toList.all isPlain) ∧ AllPlain childElements

def AllPlain : List Element → Prop
  | [] => True
  | e :: es => Plain e ∧ AllPlain es

end

/-! ## Data -/

theorem isBase64_wide {b : UInt8} (h : isBase64 b = true) :
    isData (wide b) = true ∧ wide b ≠ '\x00' := by
  have hall : ∀ n : Fin 256, isBase64 (.ofFin n) = true →
      isData (wide (.ofFin n)) = true ∧ wide (.ofFin n) ≠ '\x00' := by decide +kernel
  exact hall b.toFin h

theorem dataText_base64 {data : List UInt8} (h : data.all isBase64) :
    dataText data = data.map wide := by
  refine List.takeWhile_eq_self_iff.mpr fun c hc => ?_
  obtain ⟨b, hb, rfl⟩ := List.mem_map.mp hc
  simpa using (isBase64_wide (List.all_eq_true.mp h b hb)).2

theorem isData_base64 {data : List UInt8} (h : data.all isBase64) : (data.map wide).all isData := by
  refine List.all_eq_true.mpr fun c hc => ?_
  obtain ⟨b, hb, rfl⟩ := List.mem_map.mp hc
  exact (isBase64_wide (List.all_eq_true.mp h b hb)).1

theorem write_dataContent {data : List UInt8} (h : data.all isBase64) :
    write (dataContent data) = dataText data := by
  rw [dataText_base64 h, dataContent]
  split
  · next hnil => rw [hnil]; rfl
  · simp [write]

theorem wellNamed_dataContent {data : List UInt8} (h : data.all isBase64) :
    WellNamed (dataContent data) := by
  rw [dataContent]
  split
  · trivial
  · next hne =>
      refine ⟨fun hempty => hne ?_, ?_, fun _ _ => nofun, trivial⟩
      · have hchars := congrArg String.toList hempty
        simpa using hchars
      · rw [String.toList_ofList]
        exact isData_base64 h

theorem plainValues_dataContent (data : List UInt8) : PlainValues (dataContent data) := by
  rw [dataContent]
  split <;> trivial

/-! ## The document is what is sent -/

theorem attributeText_eq : attributeText = writeAttribute := by
  funext a
  simp [attributeText, writeAttribute]

mutual

theorem write_content : ∀ {e : Element}, WellBuilt e → ∀ siblings : Content,
    write (content e siblings) = toStringWithoutNewLine e ++ write siblings
  | ⟨name, attributes, childElements, data⟩, h, siblings => by
      obtain ⟨-, -, -, hdata, hchildren⟩ := h
      rw [content, write, write_contents hchildren, write_dataContent hdata,
        toStringWithoutNewLine, attributeText_eq]
      simp

theorem write_contents : ∀ {es : List Element}, AllWellBuilt es → ∀ siblings : Content,
    write (contents es siblings) = childrenText es ++ write siblings
  | [], _, _ => rfl
  | e :: es, h, siblings => by
      rw [contents, write_content h.1, write_contents h.2, childrenText, List.append_assoc]

end

mutual

theorem wellNamed_content : ∀ {e : Element} {siblings : Content}, WellBuilt e →
    WellNamed siblings → WellNamed (content e siblings)
  | ⟨name, attributes, childElements, data⟩, siblings, h, hsiblings => by
      obtain ⟨hname, hattributes, hnodup, hdata, hchildren⟩ := h
      exact ⟨hname, fun a ha => (hattributes a ha).1, hnodup,
        wellNamed_contents hchildren (wellNamed_dataContent hdata), hsiblings⟩

theorem wellNamed_contents : ∀ {es : List Element} {siblings : Content}, AllWellBuilt es →
    WellNamed siblings → WellNamed (contents es siblings)
  | [], _, _, hsiblings => hsiblings
  | _ :: _, _, h, hsiblings => wellNamed_content h.1 (wellNamed_contents h.2 hsiblings)

end

mutual

theorem plainValues_content : ∀ {e : Element} {siblings : Content},
    PlainValues (content e siblings) ↔ Plain e ∧ PlainValues siblings
  | ⟨name, attributes, childElements, data⟩, siblings => by
      rw [content, PlainValues, plainValues_contents, Plain,
        and_iff_left (plainValues_dataContent data), and_assoc]

theorem plainValues_contents : ∀ {es : List Element} {siblings : Content},
    PlainValues (contents es siblings) ↔ AllPlain es ∧ PlainValues siblings
  | [], siblings => (and_iff_right trivial).symm
  | e :: es, siblings => by
      rw [contents, plainValues_content, plainValues_contents, AllPlain, and_assoc]

end

/-! ## The document is what the server builds -/

theorem texts_contents : ∀ (es : List Element) (siblings : Content),
    (contents es siblings).texts = siblings.texts
  | [], _ => rfl
  | ⟨_, _, _, _⟩ :: es, siblings => texts_contents es siblings

theorem elements_dataContent (data : List UInt8) (combine : List String → String) :
    Server.elements combine (dataContent data) = [] := by
  rw [dataContent]
  split <;> rfl

theorem join_dataContent (data : List UInt8) :
    String.join (dataContent data).texts = String.ofList (data.map wide) := by
  rw [dataContent]
  split
  · next hnil => rw [hnil]; rfl
  · simp [Content.texts]

mutual

theorem elements_content : ∀ {e : Element}, WellBuilt e → ∀ siblings : Content,
    Server.elements String.join (content e siblings) =
      onServer e :: Server.elements String.join siblings
  | ⟨name, attributes, childElements, data⟩, h, siblings => by
      obtain ⟨-, -, hnodup, -, hchildren⟩ := h
      rw [content, Server.elements, elements_contents hchildren, texts_contents, join_dataContent,
        elements_dataContent, List.append_nil, onServer, Server.ContentHandler.constructElement,
        Server.foldl_put [] hnodup]
      rfl

theorem elements_contents : ∀ {es : List Element}, AllWellBuilt es → ∀ siblings : Content,
    Server.elements String.join (contents es siblings) =
      allOnServer es ++ Server.elements String.join siblings
  | [], _, _ => rfl
  | e :: es, h, siblings => by
      rw [contents, elements_content h.1, elements_contents h.2, allOnServer, List.cons_append]

end

/-! ## The round trip -/

/-- The document of an element. -/
def document (e : Element) : Content := content e .nil

/-- What the server builds when the client sends an element: the parser reads the text, and
`deliver` is how it cuts the texts of the document when it reports them. -/
def received (other : List Char → Option (Content × List Char)) (deliver : Content → Content)
    (e : Element) : Option (List (String × Server.Element)) := do
  let document ← Xml.document other (toString e)
  Server.ContentHandler.built (deliver document)

theorem document_eq_element : ∀ e : Element, ∃ content : Content,
    document e = .element e.name e.attributes content .nil
  | ⟨_, _, _, _⟩ => ⟨_, rfl⟩

/-- A document that is reported in pieces still has one root. -/
theorem split_element {name : String} {attributes : List (String × String)} {c d : Content}
    (h : (Content.element name attributes c .nil).Split d) :
    ∃ c', d = .element name attributes c' .nil := by
  cases h with
  | element _ hrest =>
      cases hrest with
      | nil => exact ⟨_, rfl⟩

/-- **When an element arrives.**  For every way the parser may cut texts: exactly when no
attribute value needs an escape and every text is reported in one piece. -/
theorem received_iff {e : Element} (h : WellBuilt e)
    {other : List Char → Option (Content × List Char)} {deliver : Content → Content}
    (hdeliver : ∀ d : Content, d.Split (deliver d)) :
    received other deliver e = some [(e.name, onServer e)] ↔
      Plain e ∧ Server.InOnePiece (deliver (document e)) := by
  have htext : toString e = write (document e) ++ ['\r', '\n'] := by
    rw [toString, document, write_content h, write, List.append_nil]
  have hjoin : Server.elements String.join (deliver (document e)) = [onServer e] := by
    rw [Server.Split.elements_join (hdeliver _), document, elements_content h, Server.elements]
  have hplain : PlainValues (document e) ↔ Plain e :=
    plainValues_content.trans (and_iff_left trivial)
  have hnamed : WellNamed (document e) := wellNamed_content h trivial
  obtain ⟨content, hroot⟩ := document_eq_element e
  have hread : Plain e → Xml.document other (toString e) = some (document e) := by
    intro hplaine
    rw [htext]
    rw [hroot] at hnamed hplain ⊢
    exact document_write hnamed (hplain.mpr hplaine)
  constructor
  · intro hreceived
    obtain ⟨d, hd, hbuilt⟩ := Option.bind_eq_some_iff.mp hreceived
    have helements : Server.elements Server.lastPiece (deliver d) = [onServer e] := by
      obtain ⟨name, attributes, c, rfl⟩ := of_document hd
      obtain ⟨c', hc'⟩ := split_element (hdeliver (.element name attributes c .nil))
      rw [hc', Server.built_document] at hbuilt
      rw [hc']
      simpa using congrArg (Option.map (List.map Prod.snd)) hbuilt
    have hshape : d.shape Server.mapped = (document e).shape Server.mapped := by
      rw [← (hdeliver d).shape, ← Server.shapesOf_elements Server.lastPiece, helements, ← hjoin,
        Server.shapesOf_elements, (hdeliver _).shape]
    have hplaine : Plain e := by
      rw [htext] at hd
      rw [hroot] at hnamed hplain hshape hd
      exact hplain.mp (plain_of_document (fun _ => Server.mapped_of_nodup) hnamed hd hshape)
    rw [hread hplaine] at hd
    obtain rfl := Option.some.inj hd
    exact ⟨hplaine, (Server.elements_eq_iff _).mp (helements.trans hjoin.symm)⟩
  · rintro ⟨hplaine, hone⟩
    have helements := ((Server.elements_eq_iff _).mpr hone).trans hjoin
    rw [received, hread hplaine, Option.bind_eq_bind, Option.bind_some]
    rw [hroot] at helements ⊢
    obtain ⟨c', hc'⟩ := split_element (hdeliver (.element e.name e.attributes content .nil))
    rw [hc'] at helements ⊢
    rw [Server.built_document, helements]
    rfl

/-- A program in a directory with an ampersand in its name. -/
def visited (program : String) : Element where
  name := "item"
  attributes := [("url", "http%3a%2f%2fa"), ("program", program)]

/-- The ampersand is sent as it is, and the document is not well-formed. -/
theorem received_ampersand :
    ¬ ∀ (e : Element) (other : List Char → Option (Content × List Char))
        (deliver : Content → Content), WellBuilt e → (∀ d : Content, d.Split (deliver d)) →
          received other deliver e = some [(e.name, onServer e)] := by
  intro h
  have hbuilt : WellBuilt (visited "C:\\R&D\\b.exe") := by
    simp only [visited, WellBuilt, AllWellBuilt, IsAttributeName]
    decide
  have harrives := h (visited "C:\\R&D\\b.exe") (fun _ => none) id hbuilt Content.Split.refl
  have hlost : Xml.document (fun _ => none) (toString (visited "C:\\R&D\\b.exe")) = none := by
    decide
  rw [received, hlost] at harrives
  cases harrives

theorem received_plain : received (fun _ => none) id (visited "C:\\b.exe") =
    some [("item", onServer (visited "C:\\b.exe"))] := by
  refine (received_iff ?_ Content.Split.refl).mpr ⟨?_, ?_⟩
  · simp only [visited, WellBuilt, AllWellBuilt, IsAttributeName]
    decide
  · simp only [visited, Plain, AllPlain]
    decide
  · exact ⟨nofun, trivial, trivial⟩

end Element

end CaptureHpc.Client
