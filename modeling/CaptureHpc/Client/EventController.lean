/-
# `Client.EventController` — the tree of a document of the server

Expat calls `startElement`, `endElement` and `charData`, and the controller
builds the tree of the document behind one pointer.  It keeps no stack: that an
element begins inside another it sees by the name, and character data that
comes in a second piece takes the place of the first.

`delivered_iff` says for which documents the listeners get what was sent.  The
controller makes at most one element for each start tag, so one that it takes
for its parent is missing at the end, whatever happens in between
(`run_weight`); where none is missing, the pointer stands at the innermost open
element (`run_events`).
-/
import CaptureHpc.Client.Element
import CaptureHpc.Java.UrlCodec

namespace CaptureHpc.Client

open Xml

/-- A document: its root element. -/
structure Document where
  name : String
  attributes : List (String × String)
  content : Content

namespace Document

def root (d : Document) : Content := .element d.name d.attributes d.content .nil

/-- What expat calls. -/
def events (d : Document) : List SaxEvent := d.root.events

end Document

/-! ## The callbacks -/

/-- The bytes that expat hands over for a text. -/
def bytes (s : String) : List Nat := s.toList.flatMap Java.utf8

/-- `mbstowcs_s` in the locale of a program that sets none: each byte is one wide character. -/
def mbstowcs (s : String) : String := String.ofList ((bytes s).map Char.ofNat)

structure EventController where
  /-- `currentElement` and the elements it hangs in, the outermost last; none for NULL. -/
  currentElement : List Element := []
  /-- The elements that were handed to the listeners of their name. -/
  delivered : List Element := []

namespace EventController

/-- `notifyListeners` for the root. -/
def notifyListeners (root : Element) (s : EventController) : EventController :=
  if root.name = "" then s
  else { currentElement := [], delivered := s.delivered ++ [root] }

/-- A new `Element` with its attributes. -/
def opened (name : String) (atts : List (String × String)) : Element where
  name := mbstowcs name
  attributes := atts.map fun a => (mbstowcs a.1, mbstowcs a.2)

def startElement (name : String) (atts : List (String × String)) (s : EventController) :
    EventController :=
  match s.currentElement with
  | [] => { s with currentElement := [opened name atts] }
  | e :: up =>
      if e.name ≠ mbstowcs name then { s with currentElement := opened name atts :: e :: up }
      else
        { s with currentElement :=
          { e with attributes := e.attributes ++ (opened name atts).attributes } :: up }

/-- `none` is a null pointer that is dereferenced. -/
def endElement (name : String) (s : EventController) : Option EventController :=
  match s.currentElement with
  | [] => none
  | [root] => some (notifyListeners root s)
  | e :: parent :: up =>
      if e.name = mbstowcs name then
        some { s with currentElement :=
          { parent with childElements := parent.childElements ++ [e] } :: up }
      else some s

def charData (text : String) (s : EventController) : Option EventController :=
  match s.currentElement with
  | [] => none
  | e :: up =>
      some { s with currentElement := { e with data := (bytes text).map UInt8.ofNat } :: up }

def handle (s : EventController) : SaxEvent → Option EventController
  | .startElement name atts => some (startElement name atts s)
  | .endElement name => endElement name s
  | .characters text => charData text s

def run (s : EventController) : List SaxEvent → Option EventController
  | [] => some s
  | e :: events => (handle s e).bind fun s' => run s' events

/-- The controller after a sequence of documents. -/
def receive (docs : List Document) : Option EventController := run {} (docs.flatMap Document.events)

end EventController

/-! ## What the listeners are to get -/

namespace Document

/-- The elements of a content. -/
def children : Content → List Element
  | .nil => []
  | .text _ rest => children rest
  | .element name attributes content rest =>
      { name, attributes, childElements := children content
        data := (bytes (String.join content.texts)).map UInt8.ofNat } :: children rest

/-- The tree of the document. -/
def element (d : Document) : Element where
  name := d.name
  attributes := d.attributes
  childElements := children d.content
  data := (bytes (String.join d.content.texts)).map UInt8.ofNat

/-- A text that the conversion keeps. -/
def Ascii (s : String) : Prop := ∀ c ∈ s.toList, c.toNat < 128

/-- The text of an element comes in one piece. -/
def OnePiece (texts : List String) : Prop := ∀ s ∈ texts.dropLast, s = ""

/-- The tag of an element, whose parent has the name `parent`, and what stands in it. -/
def KeptContent : Option String → Content → Prop
  | _, .nil => True
  | parent, .text _ rest => KeptContent parent rest
  | parent, .element name attributes content rest =>
      some name ≠ parent ∧ Ascii name ∧ (∀ a ∈ attributes, Ascii a.1 ∧ Ascii a.2) ∧
        OnePiece content.texts ∧ KeptContent (some name) content ∧ KeptContent parent rest

instance (s : String) : Decidable (Ascii s) :=
  List.decidableBAll _ s.toList

instance (texts : List String) : Decidable (OnePiece texts) :=
  List.decidableBAll _ texts.dropLast

instance : ∀ (parent : Option String) (c : Content), Decidable (KeptContent parent c)
  | _, .nil => .isTrue trivial
  | parent, .text _ rest => instDecidableKeptContent parent rest
  | parent, .element name attributes content rest =>
      have := instDecidableKeptContent (some name) content
      have := instDecidableKeptContent parent rest
      inferInstanceAs (Decidable (some name ≠ parent ∧ Ascii name ∧
        (∀ a ∈ attributes, Ascii a.1 ∧ Ascii a.2) ∧ OnePiece content.texts ∧
          KeptContent (some name) content ∧ KeptContent parent rest))

/-- **The condition**: no element stands in one of the same name, the text of each element comes in
one piece, and names and attributes are ASCII. -/
def Kept (d : Document) : Prop := KeptContent none d.root

instance (d : Document) : Decidable d.Kept := inferInstanceAs (Decidable (KeptContent none d.root))

end Document

/-! ## Texts -/

open Document

theorem utf8_ascii {c : Char} (h : c.toNat < 128) : Java.utf8 c = [c.toNat] := by
  rw [Java.utf8, if_pos h]

/-- One byte is ASCII. -/
theorem utf8_length_lt {c : Char} (h : ¬ c.toNat < 128) : 1 < (Java.utf8 c).length := by
  unfold Java.utf8
  simp only [if_neg h]
  split
  · simp
  · split <;> simp

theorem length_le_utf8 : ∀ cs : List Char, cs.length ≤ (cs.flatMap Java.utf8).length
  | [] => Nat.le_refl _
  | c :: cs => by
      have hpos := Java.utf8_length_pos c
      have ih := length_le_utf8 cs
      rw [List.flatMap_cons, List.length_append, List.length_cons]
      omega

theorem utf8_chars : ∀ {cs : List Char},
    (cs.flatMap Java.utf8).map Char.ofNat = cs ↔ ∀ c ∈ cs, c.toNat < 128
  | [] => by simp
  | c :: cs => by
      rw [List.flatMap_cons, List.map_append, List.forall_mem_cons, ← utf8_chars]
      by_cases hc : c.toNat < 128
      · rw [utf8_ascii hc]
        simp [hc, Char.ofNat_toNat]
      · -- the bytes are too many
        refine iff_of_false ?_ (fun h => hc h.1)
        intro h
        have hlength := congrArg List.length h
        have hle := length_le_utf8 cs
        have hlt := utf8_length_lt hc
        simp only [List.length_append, List.length_map, List.length_cons] at hlength
        omega

theorem mbstowcs_iff {s : String} : mbstowcs s = s ↔ Ascii s := by
  rw [mbstowcs, bytes, Ascii, ← utf8_chars, ← String.toList_inj, String.toList_ofList]

theorem mbstowcs_ne_empty {s : String} (h : s ≠ "") : mbstowcs s ≠ "" := by
  intro hempty
  have hlength := length_le_utf8 s.toList
  have hlist := congrArg String.toList hempty
  rw [mbstowcs, bytes, String.toList_ofList, String.toList_empty, List.map_eq_nil_iff] at hlist
  rw [hlist, List.length_nil] at hlength
  exact h (String.toList_eq_nil_iff.mp (List.eq_nil_of_length_eq_zero (Nat.le_zero.mp hlength)))

theorem mbstowcs_attributes {attributes : List (String × String)} :
    (attributes.map fun a => (mbstowcs a.1, mbstowcs a.2)) = attributes ↔
      ∀ a ∈ attributes, Ascii a.1 ∧ Ascii a.2 := by
  induction attributes with
  | nil => simp
  | cons a attributes ih =>
      rw [List.map_cons, List.forall_mem_cons, List.cons.injEq, ih, Prod.ext_iff, mbstowcs_iff,
        mbstowcs_iff]

/-- What `setData` leaves of the pieces of a text. -/
def lastData (data : List UInt8) (texts : List String) : List UInt8 :=
  match texts.getLast? with
  | some text => (bytes text).map UInt8.ofNat
  | none => data

theorem bytes_eq_nil {s : String} : bytes s = [] ↔ s = "" := by
  have hlength := length_le_utf8 s.toList
  constructor
  · intro h
    rw [bytes] at h
    rw [h, List.length_nil] at hlength
    exact String.toList_eq_nil_iff.mp (List.eq_nil_of_length_eq_zero (Nat.le_zero.mp hlength))
  · rintro rfl
    rfl

theorem bytes_append (s t : String) : bytes (s ++ t) = bytes s ++ bytes t := by
  rw [bytes, String.toList_append, List.flatMap_append, bytes, bytes]

theorem bytes_join_eq_nil : ∀ {l : List String}, bytes (String.join l) = [] ↔ ∀ s ∈ l, s = ""
  | [] => by simp [bytes_eq_nil]
  | s :: l => by
      rw [String.join_cons, bytes_append, List.append_eq_nil_iff, bytes_eq_nil,
        bytes_join_eq_nil, List.forall_mem_cons]

/-- The last piece is the text if the others are empty. -/
theorem lastData_iff {texts : List String} :
    lastData [] texts = (bytes (String.join texts)).map UInt8.ofNat ↔ OnePiece texts := by
  rcases List.eq_nil_or_concat texts with rfl | ⟨init, text, rfl⟩
  · simp [lastData, OnePiece, bytes_eq_nil.mpr]
  · rw [List.concat_eq_append, lastData, List.getLast?_concat, OnePiece, List.dropLast_concat, ← bytes_join_eq_nil,
      String.join_append, bytes_append, List.map_append]
    simp only [String.join_cons, String.join_nil, String.append_empty]
    constructor
    · intro h
      have hlength := congrArg List.length h
      simp only [List.length_append, List.length_map] at hlength
      exact List.eq_nil_of_length_eq_zero (by omega)
    · intro h
      rw [h, List.map_nil, List.nil_append]

/-! ## What the controller builds -/

/-- The elements it makes for a content, where the names tell them from their parents. -/
def built : Content → List Element
  | .nil => []
  | .text _ rest => built rest
  | .element name attributes content rest =>
      { name := mbstowcs name
        attributes := attributes.map fun a => (mbstowcs a.1, mbstowcs a.2)
        childElements := built content
        data := lastData [] content.texts } :: built rest

/-- The names tell the elements of a content from the parent, and so on below. -/
def Distinct : String → Content → Prop
  | _, .nil => True
  | parent, .text _ rest => Distinct parent rest
  | parent, .element name _ content rest =>
      parent ≠ mbstowcs name ∧ Distinct (mbstowcs name) content ∧ Distinct parent rest

/-- What is built is the tree, exactly if the condition holds. -/
theorem keptContent_iff : ∀ (c : Content) (parent : String),
    KeptContent (some parent) c ↔ Distinct parent c ∧ built c = children c
  | .nil, _ => by simp [KeptContent, Distinct, built, children]
  | .text _ rest, parent => keptContent_iff rest parent
  | .element name attributes content rest, parent => by
      have hcontent := keptContent_iff content name
      have hrest := keptContent_iff rest parent
      rw [KeptContent, Distinct, built, children, List.cons.injEq, Element.mk.injEq, mbstowcs_iff,
        mbstowcs_attributes, lastData_iff, hcontent, hrest]
      constructor
      · rintro ⟨hne, hname, hattributes, hpiece, ⟨hdistinct, hbuilt⟩, hdistinct', hbuilt'⟩
        rw [mbstowcs_iff.mpr hname]
        exact ⟨⟨fun h => hne (h ▸ rfl), hdistinct, hdistinct'⟩,
          ⟨hname, hattributes, hbuilt, hpiece⟩, hbuilt'⟩
      · rintro ⟨⟨hne, hdistinct, hdistinct'⟩, ⟨hname, hattributes, hbuilt, hpiece⟩, hbuilt'⟩
        rw [mbstowcs_iff.mpr hname] at hne hdistinct
        exact ⟨fun h => hne (Option.some.inj h).symm, hname, hattributes, hpiece,
          ⟨hdistinct, hbuilt⟩, hdistinct', hbuilt'⟩

/-- The same for a document. -/
theorem kept_iff {d : Document} :
    d.Kept ↔ Distinct (mbstowcs d.name) d.content ∧ built d.root = children d.root := by
  rw [Kept, root, KeptContent, built, children, List.cons.injEq, Element.mk.injEq, mbstowcs_iff,
    mbstowcs_attributes, lastData_iff, keptContent_iff]
  constructor
  · rintro ⟨-, hname, hattributes, hpiece, ⟨hdistinct, hbuilt⟩, -⟩
    rw [mbstowcs_iff.mpr hname]
    exact ⟨hdistinct, ⟨hname, hattributes, hbuilt, hpiece⟩, rfl⟩
  · rintro ⟨hdistinct, ⟨hname, hattributes, hbuilt, hpiece⟩, -⟩
    rw [mbstowcs_iff.mpr hname] at hdistinct
    exact ⟨nofun, hname, hattributes, hpiece, ⟨hdistinct, hbuilt⟩, trivial⟩

namespace EventController

variable {s s' : EventController} {e : Element} {up : List Element}

theorem run_append : ∀ (events more : List SaxEvent) (s : EventController),
    run s (events ++ more) = (run s events).bind fun s' => run s' more
  | [], _, _ => rfl
  | e :: events, more, s => by
      rw [List.cons_append, run, run]
      cases handle s e with
      | none => rfl
      | some s' => exact run_append events more s'

theorem lastData_nil (data : List UInt8) : lastData data [] = data := rfl

theorem lastData_cons (data : List UInt8) (text : String) (texts : List String) :
    lastData data (text :: texts) = lastData ((bytes text).map UInt8.ofNat) texts := by
  cases texts with
  | nil => rfl
  | cons t texts => simp only [lastData, List.getLast?_cons, Option.getD_some]

theorem handle_start (delivered : List Element) {name : String} (atts : List (String × String))
    (h : e.name ≠ mbstowcs name) :
    handle { currentElement := e :: up, delivered } (.startElement name atts) =
      some { currentElement := opened name atts :: e :: up, delivered } := by
  simp only [handle, startElement]
  rw [if_pos h]

theorem handle_end (e parent : Element) (up delivered : List Element) {name : String}
    (h : e.name = mbstowcs name) :
    handle { currentElement := e :: parent :: up, delivered } (.endElement name) =
      some { currentElement :=
              { parent with childElements := parent.childElements ++ [e] } :: up
             delivered } := by
  simp only [handle, endElement]
  rw [if_pos h]

/-- An element with the content that was read in it. -/
def filled (e : Element) (c : Content) : Element :=
  { e with childElements := e.childElements ++ built c, data := lastData e.data c.texts }

/-- **The run lemma**: the pointer comes back to the element that it started from. -/
theorem run_events (delivered : List Element) : ∀ (c : Content) (e : Element) (up : List Element),
    Distinct e.name c → run { currentElement := e :: up, delivered } c.events =
      some { currentElement := filled e c :: up, delivered }
  | .nil, e, up, _ => by
      obtain ⟨name, attributes, childElements, data⟩ := e
      simp only [Content.events, run, filled, built, List.append_nil, Content.texts, lastData_nil]
  | .text s rest, e, up, h => by
      have ih := run_events delivered rest { e with data := (bytes s).map UInt8.ofNat } up h
      simp only [Content.events, run, handle, charData, Option.bind_some, ih, filled,
        Content.texts, lastData_cons, built]
  | .element name attributes content rest, e, up, h => by
      obtain ⟨hne, hcontent, hrest⟩ := h
      have ihcontent := run_events delivered content (opened name attributes) (e :: up) hcontent
      have ihrest := run_events delivered rest
        { e with childElements := e.childElements ++ [filled (opened name attributes) content] }
        up hrest
      rw [Content.events, run, handle_start delivered attributes hne, Option.bind_some, run_append,
        ihcontent, Option.bind_some, run, handle_end _ e up delivered rfl, Option.bind_some,
        ihrest]
      simp only [filled, opened, List.append_assoc, List.singleton_append, List.nil_append, built,
        Content.texts]

/-- The element that is made for a document. -/
def builtElement (d : Document) : Element := filled (opened d.name d.attributes) d.content

theorem run_document (delivered : List Element) {d : Document} (hname : d.name ≠ "")
    (h : Distinct (mbstowcs d.name) d.content) :
    run { delivered } d.events = some { delivered := delivered ++ [builtElement d] } := by
  have hrun := run_events delivered d.content (opened d.name d.attributes) [] h
  have hne : (filled (opened d.name d.attributes) d.content).name ≠ "" := mbstowcs_ne_empty hname
  rw [Document.events, root, Content.events, run, handle, startElement, Option.bind_some,
    run_append, hrun, Option.bind_some, run, handle, endElement, Option.bind_some, notifyListeners,
    if_neg hne]
  rfl

theorem run_documents : ∀ (docs : List Document) (delivered : List Element),
    (∀ d ∈ docs, d.name ≠ "") → (∀ d ∈ docs, Distinct (mbstowcs d.name) d.content) →
      run { delivered } (docs.flatMap Document.events) =
        some { delivered := delivered ++ docs.map builtElement }
  | [], delivered, _, _ => by
      rw [List.flatMap_nil, List.map_nil, List.append_nil]
      rfl
  | d :: docs, delivered, hnamed, h => by
      rw [List.forall_mem_cons] at hnamed h
      rw [List.flatMap_cons, run_append, run_document delivered hnamed.1 h.1, Option.bind_some,
        run_documents docs _ hnamed.2 h.2, List.map_cons, List.append_assoc, List.singleton_append]

/-! ## No start tag too few -/

mutual

/-- The number of elements in a tree. -/
def weight : Element → Nat
  | ⟨_, _, childElements, _⟩ => weights childElements + 1

def weights : List Element → Nat
  | [] => 0
  | e :: es => weight e + weights es

end

theorem weight_eq : ∀ e : Element, weight e = weights e.childElements + 1
  | ⟨_, _, _, _⟩ => rfl

/-- The elements that there are. -/
def total (s : EventController) : Nat := weights s.currentElement + weights s.delivered

def isStart : SaxEvent → Bool
  | .startElement _ _ => true
  | .endElement _ | .characters _ => false

/-- The number of start tags. -/
def starts (events : List SaxEvent) : Nat := events.countP isStart

theorem weights_append : ∀ es fs : List Element, weights (es ++ fs) = weights es + weights fs
  | [], fs => by rw [List.nil_append, weights, Nat.zero_add]
  | e :: es, fs => by rw [List.cons_append, weights, weights, weights_append es fs, Nat.add_assoc]

theorem starts_append (events more : List SaxEvent) :
    starts (events ++ more) = starts events + starts more := List.countP_append

/-- What a document is to become has an element for each start tag. -/
theorem weights_children : ∀ c : Content, weights (children c) = starts c.events
  | .nil => rfl
  | .text _ rest => weights_children rest
  | .element name attributes content rest => by
      rw [children, weights, weight, weights_children content, weights_children rest,
        Content.events, ← List.singleton_append, starts_append, starts_append]
      show _ = 1 + (starts content.events + starts (.endElement name :: rest.events))
      rw [← List.singleton_append, starts_append]
      show _ = 1 + (starts content.events + (0 + starts rest.events))
      omega

theorem total_startElement (name : String) (atts : List (String × String)) (s : EventController) :
    (startElement name atts s).total ≤ s.total + 1 := by
  unfold startElement total
  cases hcurrent : s.currentElement with
  | nil =>
      simp [weights, weight_eq, opened]
      omega
  | cons e up =>
      simp only
      split
      · simp [weights, weight_eq, opened]
        omega
      · simp [weights, weight_eq]

theorem total_endElement {name : String} (h : endElement name s = some s') : s'.total ≤ s.total := by
  unfold endElement at h
  split at h
  next => cases h
  next root hcurrent =>
    obtain rfl := Option.some.inj h
    unfold notifyListeners total
    split
    · exact Nat.le_refl _
    · rw [hcurrent, weights_append]
      simp [weights]
      omega
  next e parent up hcurrent =>
    split at h
    · obtain rfl := Option.some.inj h
      unfold total
      rw [hcurrent]
      simp [weights, weight_eq, weights_append]
      omega
    · obtain rfl := Option.some.inj h
      exact Nat.le_refl _

theorem total_charData {t : String} (h : charData t s = some s') : s'.total = s.total := by
  unfold charData at h
  split at h
  next => cases h
  next e up hcurrent =>
    obtain rfl := Option.some.inj h
    unfold total
    rw [hcurrent]
    simp [weights, weight_eq]

/-- A callback makes an element at most at a start tag. -/
theorem total_handle {event : SaxEvent} (h : handle s event = some s') :
    s'.total ≤ s.total + starts [event] := by
  cases event with
  | startElement name atts =>
      obtain rfl := Option.some.inj h
      exact total_startElement name atts s
  | endElement name => exact total_endElement h
  | characters text => exact le_of_eq (total_charData h)

theorem run_total : ∀ {events : List SaxEvent} {s s' : EventController}, run s events = some s' →
    s'.total ≤ s.total + starts events
  | [], s, s', h => by
      obtain rfl := Option.some.inj h
      exact Nat.le_refl _
  | event :: events, s, s', h => by
      obtain ⟨s₁, hs₁, hrest⟩ := Option.bind_eq_some_iff.mp h
      have hfirst := total_handle hs₁
      have ih := run_total hrest
      have hstarts := starts_append [event] events
      rw [List.singleton_append] at hstarts
      omega

theorem run_append_total {events more : List SaxEvent} (h : run s (events ++ more) = some s') :
    ∃ s₁, run s events = some s₁ ∧ run s₁ more = some s' ∧ s'.total ≤ s₁.total + starts more := by
  rw [run_append] at h
  obtain ⟨s₁, hs₁, hmore⟩ := Option.bind_eq_some_iff.mp h
  exact ⟨s₁, hs₁, hmore, run_total hmore⟩

/-- An element that is taken for its parent is not made. -/
theorem handle_repeat (up delivered : List Element) {name : String} (atts : List (String × String))
    (h : e.name = mbstowcs name) :
    ∃ s', handle { currentElement := e :: up, delivered } (.startElement name atts) = some s' ∧
      s'.total = total { currentElement := e :: up, delivered } := by
  refine ⟨_, rfl, ?_⟩
  rw [startElement]
  simp only [h, ne_eq, not_true_eq_false, if_false]
  simp [total, weights, weight_eq]

theorem total_opened (name : String) (atts : List (String × String)) (es delivered : List Element) :
    total { currentElement := opened name atts :: es, delivered } =
      total { currentElement := es, delivered } + 1 := by
  simp [total, weights, weight_eq, opened]
  omega

theorem starts_element (name : String) (attributes : List (String × String)) (content rest : Content) :
    starts (Content.element name attributes content rest).events =
      starts content.events + starts rest.events + 1 := by
  have hcons := weights_children (.element name attributes content rest)
  rw [children, weights, weight, weights_children, weights_children] at hcons
  omega

theorem starts_end (name : String) (events : List SaxEvent) :
    starts (.endElement name :: events) = starts events := rfl

/-- **Where names repeat, an element is missing.** -/
theorem run_missing (delivered : List Element) {s' : EventController} :
    ∀ (c : Content) (e : Element) (up : List Element), ¬ Distinct e.name c →
      run { currentElement := e :: up, delivered } c.events = some s' →
        s'.total < total { currentElement := e :: up, delivered } + starts c.events
  | .nil, _, _, h, _ => absurd trivial h
  | .text text rest, e, up, h, hrun => by
      rw [Content.events, run] at hrun
      have ih := run_missing delivered rest { e with data := (bytes text).map UInt8.ofNat } up h hrun
      have htotal : total { currentElement := { e with data := (bytes text).map UInt8.ofNat } :: up
                            delivered } = total { currentElement := e :: up, delivered } :=
        total_charData (s := { currentElement := e :: up, delivered }) (t := text) rfl
      rw [htotal] at ih
      exact ih
  | .element name attributes content rest, e, up, h, hrun => by
      rw [starts_element]
      rw [Content.events, run] at hrun
      by_cases hne : e.name = mbstowcs name
      · obtain ⟨s₁, hs₁, htotal⟩ := handle_repeat up delivered attributes hne
        rw [hs₁, Option.bind_some] at hrun
        have hrest := run_total hrun
        rw [starts_append, starts_end] at hrest
        omega
      · rw [handle_start delivered attributes hne, Option.bind_some] at hrun
        obtain ⟨s₁, hs₁, hrun, htotal⟩ := run_append_total hrun
        rw [starts_end] at htotal
        have hopened := total_opened name attributes (e :: up) delivered
        by_cases hcontent : Distinct (mbstowcs name) content
        · have hfull := run_events delivered content (opened name attributes) (e :: up) hcontent
          have hread := run_total hfull
          obtain rfl := Option.some.inj (hs₁.symm.trans hfull)
          have hend : handle { currentElement := filled (opened name attributes) content :: e :: up
                               delivered } (.endElement name) = _ := handle_end _ e up delivered rfl
          have hclosed := total_handle hend
          rw [run, hend, Option.bind_some] at hrun
          have hlt := run_missing delivered rest { e with childElements := e.childElements ++
            [filled (opened name attributes) content] } up
              (fun hrest => h ⟨hne, hcontent, hrest⟩) hrun
          rw [starts_end] at hclosed
          have hnone : starts [] = 0 := rfl
          omega
        · have hlt := run_missing delivered content (opened name attributes) (e :: up) hcontent hs₁
          omega

theorem run_document_missing {d : Document} {delivered : List Element}
    (h : ¬ Distinct (mbstowcs d.name) d.content) (hrun : run { delivered } d.events = some s') :
    s'.total < total { delivered } + starts d.events := by
  have hopened := total_opened d.name d.attributes [] delivered
  rw [Document.events, root, starts_element]
  rw [Document.events, root, Content.events, run, handle, Option.bind_some] at hrun
  obtain ⟨s₁, hs₁, -, htotal⟩ := run_append_total hrun
  have hlt := run_missing delivered d.content (opened d.name d.attributes) [] h hs₁
  rw [starts_end] at htotal
  omega

theorem run_documents_total : ∀ {docs : List Document} {delivered : List Element},
    (∀ d ∈ docs, d.name ≠ "") → run { delivered } (docs.flatMap Document.events) = some s' →
      (∀ d ∈ docs, Distinct (mbstowcs d.name) d.content) ∨
        s'.total < total { delivered } + starts (docs.flatMap Document.events)
  | [], _, _, _ => .inl nofun
  | d :: docs, delivered, hnamed, hrun => by
      rw [List.forall_mem_cons] at hnamed
      rw [List.flatMap_cons] at hrun ⊢
      rw [starts_append]
      obtain ⟨s₁, hs₁, hrun, htotal⟩ := run_append_total hrun
      by_cases hd : Distinct (mbstowcs d.name) d.content
      · have hfirst := run_total hs₁
        obtain rfl := Option.some.inj (hs₁.symm.trans (run_document delivered hnamed.1 hd))
        obtain hrest | hlt := run_documents_total hnamed.2 hrun
        · exact .inl (List.forall_mem_cons.mpr ⟨hd, hrest⟩)
        · right
          omega
      · right
        have hlt := run_document_missing hd hs₁
        omega

/-! ## What the listeners get -/

/-- **The listeners get the tree of each document, and no null pointer is dereferenced, exactly if
the documents meet the condition.** -/
theorem delivered_iff {docs : List Document} (hnamed : ∀ d ∈ docs, d.name ≠ "") :
    (∃ s, receive docs = some s ∧ s.delivered = docs.map Document.element) ↔
      ∀ d ∈ docs, d.Kept := by
  have hweight : ∀ docs : List Document, weights (docs.map Document.element) =
      starts (docs.flatMap Document.events) := by
    intro docs
    induction docs with
    | nil => rfl
    | cons d docs ih =>
        have hroot : weights [d.element] = starts d.events := weights_children d.root
        rw [List.map_cons, ← List.singleton_append, weights_append, ih, List.flatMap_cons,
          starts_append, hroot]
  constructor
  · rintro ⟨s, hrun, hdelivered⟩
    obtain hdistinct | hlt := run_documents_total hnamed hrun
    · have hbuilt := run_documents docs [] hnamed hdistinct
      rw [receive] at hrun
      obtain rfl := Option.some.inj (hrun.symm.trans hbuilt)
      intro d hd
      have heq : builtElement d = d.element := List.map_inj_left.mp hdelivered d hd
      exact kept_iff.mpr ⟨hdistinct d hd, congrArg (fun e => [e]) heq⟩
    · -- then an element is missing
      have htotal : weights s.delivered ≤ s.total := Nat.le_add_left _ _
      rw [hdelivered, hweight docs] at htotal
      have hempty : total {} = 0 := rfl
      omega
  · intro hkept
    have hdistinct := fun d hd => (kept_iff.mp (hkept d hd)).1
    refine ⟨_, run_documents docs [] hnamed hdistinct, ?_⟩
    exact List.map_inj_left.mpr fun d hd => List.singleton_inj.mp (kept_iff.mp (hkept d hd)).2

/-- A visit of one page. -/
def visit : Document where
  name := "visit-event"
  attributes := [("identifier", "7"), ("program", "iexplore")]
  content := .element "item" [("url", "http%3a%2f%2fa%2f")] .nil .nil

theorem delivered_visit :
    ∃ s, receive [visit] = some s ∧ s.delivered = [visit].map Document.element :=
  (delivered_iff (by decide)).mpr (by decide)

/-- An element in one of the same name. -/
def nested : Document where
  name := "exclusion"
  attributes := []
  content := .element "exclusion" [] .nil .nil

/-- The inner end tag hands the root over, and the outer one finds no element. -/
theorem nested_crash : ¬ ∀ docs : List Document, (∀ d ∈ docs, d.name ≠ "") →
    ∃ s, receive docs = some s ∧ s.delivered = docs.map Document.element := by
  intro hall
  obtain ⟨s, hs, -⟩ := hall [nested] (by decide)
  have hcrash : (receive [nested]).isNone = true := by decide +kernel
  rw [hs] at hcrash
  cases hcrash

end EventController

end CaptureHpc.Client
