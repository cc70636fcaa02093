/-
# `Server.ContentHandler` — elements built from the events of the XML parser

`ClientEventController` is the content handler of a SAX parser.  It keeps the
element whose tag was read last and not closed, adds each element to its
parent, and hands on the root when it closes.

A parser may report the text of an element in several calls of `characters`.
The handler keeps the text of the last call only (`elements_eq_iff`), so that a
part of a file that is longer than the buffer of the parser arrives cut off.
-/
import CaptureHpc.Lib.Xml
import CaptureHpc.Server.Client

namespace CaptureHpc.Server

open Java Xml

/-! ## The handler -/

structure ContentHandler where
  /-- `currentElement`, and its parents. -/
  openElements : List Element := []
  /-- The root elements that were handed on, with the name that decided to what method. -/
  dispatched : List (String × Element) := []

namespace ContentHandler

/-- `attributes.put`. -/
def put (attributes : List (String × String)) (entry : String × String) : List (String × String) :=
  if attributes.any fun old => old.1 == entry.1 then
    attributes.map fun old => if old.1 = entry.1 then entry else old
  else attributes ++ [entry]

def constructElement (name : String) (attributes : List (String × String)) : Element :=
  { name, attributes := attributes.foldl put [] }

def startElement (h : ContentHandler) (name : String) (attributes : List (String × String)) :
    ContentHandler :=
  { h with openElements := constructElement name attributes :: h.openElements }

/-- An element joins the children of its parent here, and in the source when it begins; nobody
looks before the root is closed.  `none` is a `NullPointerException`. -/
def endElement (h : ContentHandler) (name : String) : Option ContentHandler :=
  match h.openElements with
  | [] => none
  | [root] => some { openElements := [], dispatched := h.dispatched ++ [(name, root)] }
  | e :: parent :: rest =>
      some { h with openElements :=
        { parent with childElements := parent.childElements ++ [e] } :: rest }

/-- The result of `trim` is dropped. -/
def characters (h : ContentHandler) (s : String) : Option ContentHandler :=
  match h.openElements with
  | [] => none
  | e :: rest => some { h with openElements := { e with data := s } :: rest }

def handle (h : ContentHandler) : SaxEvent → Option ContentHandler
  | .startElement name attributes => some (h.startElement name attributes)
  | .endElement name => h.endElement name
  | .characters s => h.characters s

/-- What is handed on while a document is parsed. -/
def built (document : Content) : Option (List (String × Element)) :=
  (document.events.foldlM handle {}).map dispatched

end ContentHandler

/-! ## Parts of a file -/

/-- The file that is written, if it could be opened. -/
structure ClientFileReceiver where
  outputFile : Option (List UInt8)
deriving DecidableEq

/-- `Integer.parseInt` of an attribute. -/
def intAttribute (e : Element) (name : String) : Except JavaException Int :=
  match (e.get name).bind parseInt with
  | some n => .ok n
  | none => .error .numberFormat

/-- `receiveFilePart`; `decodeBuffer` is the decoder of the platform, `none` where it throws. -/
def ClientFileReceiver.receiveFilePart (decodeBuffer : String → Option (List UInt8))
    (file : ClientFileReceiver) (e : Element) : Except JavaException ClientFileReceiver := do
  let partStart ← intAttribute e "part-start"
  let partEnd ← intAttribute e "part-end"
  let partSize := (partEnd - partStart).bmod (2 ^ 32)
  match e.get "encoding" with
  | none => .error .nullPointer
  | some encoding =>
      if encoding = "base64" then
        match decodeBuffer e.data with
        | none => .ok file
        | some buffer =>
            if (buffer.length : Int) = partSize then
              match file.outputFile with
              | none => .error .nullPointer
              | some written => .ok { outputFile := some (written ++ buffer) }
            else .ok file
      else .ok file

/-! ## What the handler builds -/

/-- The elements of a document, the data of each one put together from its texts. -/
def elements (combine : List String → String) : Content → List Element
  | .nil => []
  | .text _ rest => elements combine rest
  | .element name attributes content rest =>
      { ContentHandler.constructElement name attributes with
        childElements := elements combine content
        data := combine content.texts } :: elements combine rest

/-- The last call of `characters` wins. -/
def lastPiece (texts : List String) : String := texts.getLastD ""

/-- An element after content was added. -/
def absorb (e : Element) (c : Content) : Element :=
  { e with childElements := e.childElements ++ elements lastPiece c
           data := c.texts.getLastD e.data }

theorem absorb_nil (e : Element) : absorb e .nil = e := by
  rw [absorb, elements, List.append_nil]
  cases e
  rfl

theorem absorb_text (e : Element) (s : String) (c : Content) :
    absorb e (.text s c) = absorb { e with data := s } c := by
  simp only [absorb, elements, Content.texts, List.getLastD_cons]

theorem absorb_element (e : Element) (name : String) (attributes : List (String × String))
    (content c : Content) : absorb e (.element name attributes content c) =
      absorb { e with childElements := e.childElements ++
        [absorb (ContentHandler.constructElement name attributes) content] } c := by
  simp only [absorb, elements, Content.texts, List.append_assoc, List.singleton_append]
  rfl

/-- The events of some content are added to the element that is open. -/
theorem foldlM_events : ∀ (c : Content) (e : Element) (parents : List Element)
    (dispatched : List (String × Element)),
    c.events.foldlM ContentHandler.handle { openElements := e :: parents, dispatched } =
      some { openElements := absorb e c :: parents, dispatched } := by
  intro c
  induction c with
  | nil =>
      intro e parents dispatched
      rw [absorb_nil]
      rfl
  | text s c ih =>
      intro e parents dispatched
      rw [absorb_text, ← ih]
      rfl
  | element name attributes content c ihcontent ih =>
      intro e parents dispatched
      rw [absorb_element, ← ih]
      show List.foldlM ContentHandler.handle
        { openElements := ContentHandler.constructElement name attributes :: e :: parents, dispatched }
        (content.events ++ .endElement name :: c.events) = _
      rw [List.foldlM_append, ihcontent]
      rfl

/-- The element that is handed on for a document. -/
theorem built_document (name : String) (attributes : List (String × String)) (content : Content) :
    ContentHandler.built (.element name attributes content .nil) =
      some ((elements lastPiece (.element name attributes content .nil)).map fun e => (name, e)) := by
  have hstart : ContentHandler.handle {} (.startElement name attributes) =
      some { openElements := [ContentHandler.constructElement name attributes] } := rfl
  rw [ContentHandler.built, Content.events, List.foldlM_cons, hstart]
  show Option.map _ (List.foldlM _ _ _) = _
  rw [List.foldlM_append, foldlM_events]
  rfl

/-! ## What the elements say of the document -/

/-- The attributes as they are in the map. -/
abbrev mapped (attributes : List (String × String)) : List (String × String) :=
  attributes.foldl ContentHandler.put []

mutual

/-- The element in front of its siblings, without its data. -/
def shapeOf : Element → Content → Content
  | ⟨name, attributes, childElements, _⟩, siblings =>
      .element name attributes (shapesOf childElements) siblings

def shapesOf : List Element → Content
  | [] => .nil
  | e :: es => shapeOf e (shapesOf es)

end

/-- The elements tell the document but for its texts. -/
theorem shapesOf_elements (combine : List String → String) : ∀ c : Content,
    shapesOf (elements combine c) = c.shape mapped := by
  intro c
  induction c with
  | nil => rw [elements, shapesOf, Content.shape]
  | text s rest ih => exact ih
  | element name attributes content rest ihcontent ih =>
      rw [elements, shapesOf, shapeOf, ihcontent, ih, Content.shape]
      rfl

theorem foldl_put : ∀ (acc : List (String × String)) {l : List (String × String)},
    ((acc ++ l).map Prod.fst).Nodup → l.foldl ContentHandler.put acc = acc ++ l
  | acc, [], _ => by rw [List.foldl_nil, List.append_nil]
  | acc, a :: l, h => by
      have hsplit : acc ++ a :: l = (acc ++ [a]) ++ l := by simp
      have hnew : acc.any (fun old => old.1 == a.1) = false := by
        rw [List.map_append, List.map_cons] at h
        have hdisjoint := (List.nodup_append.mp h).2.2
        refine List.any_eq_false.mpr fun old hold => ?_
        simpa using hdisjoint old.1 (List.mem_map_of_mem hold) a.1 List.mem_cons_self
      have hput : ContentHandler.put acc a = acc ++ [a] := by
        rw [ContentHandler.put, hnew]
        rfl
      rw [hsplit] at h ⊢
      rw [List.foldl_cons, hput, foldl_put _ h]

/-- Distinct attributes are kept as they are. -/
theorem mapped_of_nodup {l : List (String × String)} (h : (l.map Prod.fst).Nodup) : mapped l = l :=
  foldl_put [] h

/-! ## Text in pieces -/

/-- Of the texts of each element only the last one is not empty. -/
def InOnePiece : Content → Prop
  | .nil => True
  | .text _ rest => InOnePiece rest
  | .element _ _ content rest =>
      (∀ s ∈ content.texts.dropLast, s = "") ∧ InOnePiece content ∧ InOnePiece rest

instance decidableInOnePiece : DecidablePred InOnePiece
  | .nil => isTrue trivial
  | .text _ rest => decidableInOnePiece rest
  | .element _ _ content rest =>
      have := decidableInOnePiece content
      have := decidableInOnePiece rest
      inferInstanceAs (Decidable (_ ∧ _ ∧ _))

theorem join_eq_empty {l : List String} : String.join l = "" ↔ ∀ s ∈ l, s = "" := by
  induction l with
  | nil => simp
  | cons s l ih => rw [String.join_cons, String.append_eq_empty_iff, ih, List.forall_mem_cons]

theorem join_append (l m : List String) : String.join (l ++ m) = String.join l ++ String.join m := by
  induction l with
  | nil => simp
  | cons s l ih => rw [List.cons_append, String.join_cons, String.join_cons, ih, String.append_assoc]

theorem lastPiece_eq_join {l : List String} :
    lastPiece l = String.join l ↔ ∀ s ∈ l.dropLast, s = "" := by
  rcases List.eq_nil_or_concat l with rfl | ⟨init, s, rfl⟩
  · simp [lastPiece]
  · rw [List.concat_eq_append]
    have hlast : lastPiece (init ++ [s]) = "" ++ s := by simp [lastPiece]
    have hjoin : String.join (init ++ [s]) = String.join init ++ s := by
      rw [join_append]
      simp
    rw [hlast, hjoin, List.dropLast_concat, String.append_left_inj, eq_comm, join_eq_empty]

/-- **The elements have their whole text when each text comes in one piece.** -/
theorem elements_eq_iff : ∀ c : Content,
    elements lastPiece c = elements String.join c ↔ InOnePiece c := by
  intro c
  induction c with
  | nil => exact iff_of_true rfl trivial
  | text s rest ih => exact ih
  | element name attributes content rest ihcontent ih =>
      simp only [elements, List.cons.injEq, Element.mk.injEq, true_and, lastPiece_eq_join, ihcontent,
        ih, InOnePiece]
      exact ⟨fun ⟨⟨hcontent, hone⟩, hrest⟩ => ⟨hone, hcontent, hrest⟩,
        fun ⟨hone, hcontent, hrest⟩ => ⟨⟨hcontent, hone⟩, hrest⟩⟩

theorem texts_pieces (l : List String) (c : Content) : (Content.pieces l c).texts = l ++ c.texts := by
  induction l with
  | nil => rfl
  | cons s l ih => exact congrArg (s :: ·) ih

theorem elements_pieces (combine : List String → String) (l : List String) (c : Content) :
    elements combine (Content.pieces l c) = elements combine c := by
  induction l with
  | nil => rfl
  | cons s l ih => exact ih

/-- The whole text of an element does not depend on the cuts. -/
theorem Split.join_texts {c c' : Content} (h : c.Split c') :
    String.join c'.texts = String.join c.texts := by
  induction h with
  | nil => rfl
  | text _ ih => rw [texts_pieces, join_append, ih, Content.texts, String.join_cons]
  | element _ _ _ ih => exact ih

theorem Split.elements_join {c c' : Content} (h : c.Split c') :
    elements String.join c' = elements String.join c := by
  induction h with
  | nil => rfl
  | text _ ih => rw [elements_pieces, ih, elements]
  | element hcontent _ ihcontent ih =>
      rw [elements, elements, ihcontent, ih, Split.join_texts hcontent]

/-- What `receiveFilePart` makes of the elements of a document. -/
def receivedParts (decodeBuffer : String → Option (List UInt8)) (file : ClientFileReceiver)
    (document : Content) : Option (List (Except JavaException ClientFileReceiver)) :=
  (ContentHandler.built document).map fun roots => roots.map fun root =>
    file.receiveFilePart decodeBuffer root.2

/-- **When the cuts do not matter.**  Two ways to cut the texts of one document: both give the
element with the whole texts, and the same parts of files, exactly when in both every text comes
in one piece. -/
theorem built_split_iff {name : String} {attributes : List (String × String)}
    {content c₁ c₂ : Content} (h₁ : content.Split c₁) (h₂ : content.Split c₂) :
    (ContentHandler.built (.element name attributes c₁ .nil) =
        ContentHandler.built (.element name attributes c₂ .nil) ∧
      ContentHandler.built (.element name attributes c₁ .nil) =
        some ((elements String.join (.element name attributes content .nil)).map
          fun e => (name, e)) ∧
      ∀ decodeBuffer file,
        receivedParts decodeBuffer file (.element name attributes c₁ .nil) =
          receivedParts decodeBuffer file (.element name attributes c₂ .nil)) ↔
    InOnePiece (.element name attributes c₁ .nil) ∧
      InOnePiece (.element name attributes c₂ .nil) := by
  have hwhole : ∀ c, content.Split c →
      (ContentHandler.built (.element name attributes c .nil) =
        some ((elements String.join (.element name attributes content .nil)).map
          fun e => (name, e)) ↔ InOnePiece (.element name attributes c .nil)) := by
    intro c hc
    have hsplit : (Content.element name attributes content .nil).Split
        (.element name attributes c .nil) := .element hc .nil
    have hjoin := Split.elements_join hsplit
    rw [built_document, ← elements_eq_iff, ← hjoin, Option.some.injEq]
    refine ⟨fun h => List.map_injective_iff.mpr (fun e e' he => congrArg Prod.snd he) h, ?_⟩
    exact congrArg _
  rw [← hwhole c₁ h₁, ← hwhole c₂ h₂]
  constructor
  · rintro ⟨hsame, hfirst, -⟩
    exact ⟨hfirst, hsame.symm.trans hfirst⟩
  · rintro ⟨hfirst, hsecond⟩
    have hsame := hfirst.trans hsecond.symm
    exact ⟨hsame, hfirst, fun decodeBuffer file => by rw [receivedParts, hsame, receivedParts]⟩

/-- A part of a file. -/
def partDocument (content : Content) : Content :=
  .element "part" [("name", "a"), ("part-start", "0"), ("part-end", "3"), ("encoding", "base64")]
    content .nil

/-- Four characters that come in two calls of two. -/
theorem built_split :
    ¬ ∀ (name : String) (attributes : List (String × String)) (content c₁ c₂ : Content),
        content.Split c₁ → content.Split c₂ →
          ContentHandler.built (.element name attributes c₁ .nil) =
            ContentHandler.built (.element name attributes c₂ .nil) := by
  intro h
  have htwo : (Content.text "YWJj" .nil).Split (.text "YW" (.text "Jj" .nil)) :=
    .text (l := ["YW", "Jj"]) .nil
  have hone : (Content.text "YWJj" .nil).Split (.text "YWJj" .nil) := .text (l := ["YWJj"]) .nil
  have hsame := h "part" [] _ _ _ htwo hone
  rw [built_document, built_document] at hsame
  have hdata := congrArg (Option.map (List.map fun root => root.2.data)) hsame
  exact absurd hdata (by decide)

theorem built_one_piece :
    ContentHandler.built (partDocument (.text "YWJj" .nil)) =
      some ((elements String.join (partDocument (.text "YWJj" .nil))).map fun e => ("part", e)) := by
  have hone : (Content.text "YWJj" .nil).Split (.text "YWJj" .nil) := .text (l := ["YWJj"]) .nil
  exact ((built_split_iff hone hone).mpr ⟨by decide, by decide⟩).2.1

end CaptureHpc.Server
