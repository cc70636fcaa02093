/-
# `Client.GroupDelivery` — a group on its way to the visitor

The server writes a group as one document: the identifier, the program and the
time, and an empty element for each URL.  Only the URLs are escaped.  A NUL ends
the document, the network cuts the stream, the client puts the pieces together
and parses them, the event controller builds a tree, and the visitor makes a
request of it.

`requests_sent` says that the visitor gets the groups as they were sent and in
their order, however the stream is cut, as long as no piece is of one or two
bytes.  Each URL of a request has the program and the time of the group, also if
the URL asks for others.
-/
import CaptureHpc.Client.EventController
import CaptureHpc.Client.ServerReceive
import CaptureHpc.Client.UrlFidelity
import CaptureHpc.Java.Numbers
import CaptureHpc.Lib.XmlItems

namespace CaptureHpc

open Java

/-! ## The message of the server -/

namespace Server

/-- What `toVisitEvent` reads of a group. -/
structure GroupMessage where
  identifier : Int
  clientProgram : String
  visitTime : Int
  urlList : List Url

namespace GroupMessage

/-- `toVisitEvent`. -/
def toVisitEvent (g : GroupMessage) : String :=
  g.urlList.foldl (fun urlGroupEvent url => urlGroupEvent ++
      ("<item id=\"" ++ url.id ++ "\" url=\"" ++ Url.getEscapedUrl url ++ "\"/>"))
    ("<visit-event " ++ ("identifier=\"" ++ showInt g.identifier ++ "\" program=\"" ++
      g.clientProgram ++ "\" time=\"" ++ showInt g.visitTime ++ "\">")) ++ "</visit-event>"

/-- The attributes that are written of the group. -/
def attributes (g : GroupMessage) : List (String × String) :=
  [("identifier", showInt g.identifier), ("program", g.clientProgram),
    ("time", showInt g.visitTime)]

end GroupMessage

/-- A group of the server, under its identifier. -/
def UrlGroup.message (identifier : Int) (g : GroupRef) (s : ServerState) : GroupMessage where
  identifier
  clientProgram := (s.group g).clientProgram
  visitTime := (s.group g).visitTime
  urlList := (s.group g).urlList.map s.url

end Server

namespace Client

open Xml Document
open Server (GroupMessage)

/-! ## From the stream to the visitor -/

/-- The bytes of a message, as they are written to the socket. -/
def sentBytes (message : String) : List UInt8 := (bytes message).map UInt8.ofNat

-- `other` is what expat makes of a comment, a CDATA section or a processing instruction
variable (other : List Char → Option (Content × List Char))

/-- The document that expat reports; `none` if the text is none. -/
def parseString (xmlDocument : List UInt8) : Option Document :=
  match document other (utf8Decode (xmlDocument.map UInt8.toNat)) with
  | some (.element name attributes content _) => some { name, attributes, content }
  | _ => none

/-- What `onServerEvent` pushes while these pieces come in; `none` if a document is none, or a time
no number. -/
def requests (pieces : List (List UInt8)) : Option (List VisitEvent) := do
  let documents ← (ServerReceive.received pieces).mapM (parseString other)
  let controller ← EventController.receive documents
  let elements := controller.delivered.filter fun e => e.name = "visit-event"
  let visitEvents ← elements.mapM visitEventOf
  return visitEvents.filter fun e => !e.urls.isEmpty

/-! ## What is to arrive -/

/-- The request for a group. -/
def requestFor (g : GroupMessage) : VisitEvent where
  identifier := showInt g.identifier
  program := g.clientProgram
  urls := g.urlList.map fun x =>
    { url := wide (x.url.toList.flatMap Url.seen), program := g.clientProgram,
      visitTime := g.visitTime }

/-- A text that is neither escaped nor converted. -/
def Unescaped (s : String) : Prop := s.toList.all isPlain ∧ Ascii s

instance (s : String) : Decidable (Unescaped s) := inferInstanceAs (Decidable (_ ∧ _))

/-- **What a group has to meet**: it has a URL and the time is an `int`, as for every group of the
server, and the texts that are not escaped need no escape. -/
structure Sendable (g : GroupMessage) : Prop where
  urls : g.urlList ≠ []
  program : Unescaped g.clientProgram
  ids : ∀ x ∈ g.urlList, Unescaped x.id
  time : -2 ^ 31 ≤ g.visitTime ∧ g.visitTime < 2 ^ 31

/-! ## Texts that need no escape -/

theorem unescaped_of_all {s : String} (h : s.toList.all fun c => isPlain c && c.toNat < 128) :
    Unescaped s := by
  rw [List.all_eq_true] at h
  refine ⟨List.all_eq_true.mpr fun c hc => ?_, fun c hc => ?_⟩
  · have hchar := h c hc
    rw [Bool.and_eq_true] at hchar
    exact hchar.1
  · have hchar := h c hc
    rw [Bool.and_eq_true] at hchar
    exact of_decide_eq_true hchar.2

theorem unescaped_showInt (n : Int) : Unescaped (showInt n) := by
  have hall : ∀ k < 128, isDecimal (Char.ofNat k) = true → isPlain (Char.ofNat k) = true := by
    decide +kernel
  refine unescaped_of_all (List.all_eq_true.mpr fun c hc => ?_)
  have hdecimal := List.all_eq_true.mp (showInt_chars n) c hc
  have hlt : c.toNat < 128 := by
    simp only [isDecimal, Char.isDigit, Bool.or_eq_true, Bool.and_eq_true, decide_eq_true_eq]
      at hdecimal
    rcases hdecimal with ⟨-, hnine⟩ | rfl
    · exact Nat.lt_of_le_of_lt hnine (by decide)
    · decide
  have hplain := hall c.toNat hlt (by rwa [Char.ofNat_toNat])
  rw [Char.ofNat_toNat] at hplain
  rw [hplain, decide_eq_true hlt]
  rfl

theorem unescaped_getEscapedUrl (x : Server.Url) : Unescaped (Server.Url.getEscapedUrl x) := by
  have hpercent : ∀ b < 256, ((percent b).map lowerChar).all
      (fun c => isPlain c && decide (c.toNat < 128)) = true := by decide +kernel
  have hunreserved : ∀ k < 128, unreserved (Char.ofNat k) = true →
      isPlain (lowerChar (Char.ofNat k)) = true ∧ (lowerChar (Char.ofNat k)).toNat < 128 := by
    decide +kernel
  refine unescaped_of_all (List.all_eq_true.mpr fun d hd => ?_)
  rw [Server.Url.getEscapedUrl, toLowerCase, urlEncode, String.toList_ofList, String.toList_ofList,
    List.map_flatMap] at hd
  obtain ⟨c, -, hd⟩ := List.mem_flatMap.mp hd
  rw [encodeChar] at hd
  split at hd
  · next hc =>
      obtain rfl := List.mem_singleton.mp hd
      have hchar := hunreserved c.toNat (unreserved_lt hc) (by rwa [Char.ofNat_toNat])
      rw [Char.ofNat_toNat] at hchar
      rw [hchar.1, decide_eq_true hchar.2]
      rfl
  · split at hd
    · obtain rfl := List.mem_singleton.mp hd
      decide
    · rw [List.map_flatMap] at hd
      obtain ⟨b, hb, hd⟩ := List.mem_flatMap.mp hd
      exact List.all_eq_true.mp (hpercent b (utf8_lt c b hb)) d hd

/-! ## The text is a document -/

section Message
variable {g : GroupMessage}

theorem toVisitEvent_eq (g : GroupMessage) : g.toVisitEvent.toList =
    writeItems "visit-event".toList g.attributes "item".toList
      (g.urlList.map fun x => (Url.item x).attributes) := by
  have hitems : ∀ (urls : List Server.Url) (event : String),
      (urls.foldl (fun urlGroupEvent url => urlGroupEvent ++
        ("<item id=\"" ++ url.id ++ "\" url=\"" ++ Server.Url.getEscapedUrl url ++ "\"/>"))
          event).toList =
      event.toList ++ (urls.map fun x => (Url.item x).attributes).flatMap
        (writeTag "item".toList) := by
    intro urls
    induction urls with
    | nil => exact fun event => (List.append_nil _).symm
    | cons x urls ih =>
        intro event
        rw [List.foldl_cons, ih]
        simp [writeTag, writeAttribute, Url.item]
  rw [GroupMessage.toVisitEvent, String.toList_append, hitems]
  simp [writeItems, writeAttribute, GroupMessage.attributes]

theorem Sendable.attributes (h : Sendable g) :
    ∀ a ∈ g.attributes, Unescaped a.1 ∧ Unescaped a.2 := by
  have hnames : ∀ n ∈ g.attributes.map Prod.fst, Unescaped n := by
    show ∀ n ∈ ["identifier", "program", "time"], Unescaped n
    decide
  intro a ha
  refine ⟨hnames a.1 (List.mem_map_of_mem ha), ?_⟩
  simp only [GroupMessage.attributes, List.mem_cons, List.not_mem_nil, or_false] at ha
  rcases ha with rfl | rfl | rfl
  · exact unescaped_showInt _
  · exact h.program
  · exact unescaped_showInt _

theorem Sendable.item (h : Sendable g) :
    ∀ attributes ∈ g.urlList.map fun x => (Url.item x).attributes,
      ∀ a ∈ attributes, Unescaped a.1 ∧ Unescaped a.2 := by
  intro attributes hmem
  obtain ⟨x, hx, rfl⟩ := List.mem_map.mp hmem
  have hnames : ∀ n ∈ (Url.item x).attributes.map Prod.fst, Unescaped n := by
    show ∀ n ∈ ["id", "url"], Unescaped n
    decide
  intro a ha
  refine ⟨hnames a.1 (List.mem_map_of_mem ha), ?_⟩
  simp only [Url.item, List.mem_cons, List.not_mem_nil, or_false] at ha
  rcases ha with rfl | rfl
  · exact h.ids x hx
  · exact unescaped_getEscapedUrl x

/-- The document that is sent for a group. -/
def groupDocument (g : GroupMessage) : Document where
  name := "visit-event"
  attributes := g.attributes
  content := emptyElements "item" (g.urlList.map fun x => (Url.item x).attributes)

theorem document_toVisitEvent (h : Sendable g) :
    document other g.toVisitEvent.toList = some (groupDocument g).root := by
  rw [toVisitEvent_eq, document_writeItems]
  · rw [String.ofList_toList, String.ofList_toList]
    rfl
  · exact .of_names (l := ["identifier", "program", "time"]) rfl (by decide) (by decide)
      (by decide) fun a ha => (h.attributes a ha).2.1
  · intro attributes hmem
    have hplain := h.item attributes hmem
    obtain ⟨x, -, rfl⟩ := List.mem_map.mp hmem
    exact .of_names (l := ["id", "url"]) rfl (by decide) (by decide) (by decide)
      fun a ha => (hplain a ha).2.1

/-! ## The bytes of the text -/

/-- A character that is sent as one byte, and does not end the document. -/
def OneByte (c : Char) : Prop := 0 < c.toNat ∧ c.toNat < 128

instance : DecidablePred OneByte := fun _ => inferInstanceAs (Decidable (_ ∧ _))

theorem Unescaped.oneByte {s : String} (h : Unescaped s) : ∀ c ∈ s.toList, OneByte c := by
  intro c hc
  refine ⟨Nat.pos_of_ne_zero fun hzero => ?_, h.2 c hc⟩
  have hplain := List.all_eq_true.mp h.1 c hc
  have hnul : c = '\x00' := Char.toNat_inj.mp hzero
  rw [hnul] at hplain
  exact absurd hplain (by decide)

theorem toVisitEvent_oneByte (h : Sendable g) : ∀ c ∈ g.toVisitEvent.toList, OneByte c := by
  rw [toVisitEvent_eq]
  exact forall_mem_writeItems (Url.forall_mem_of_all (by decide))
    (Url.forall_mem_of_all (by decide)) (Url.forall_mem_of_all (by decide))
    (fun a ha => ⟨(h.attributes a ha).1.oneByte, (h.attributes a ha).2.oneByte⟩)
    fun l hl a ha => ⟨(h.item l hl a ha).1.oneByte, (h.item l hl a ha).2.oneByte⟩

theorem nul_not_mem_sentBytes {message : String} (h : ∀ c ∈ message.toList, OneByte c) :
    0 ∉ sentBytes message := by
  intro hnul
  obtain ⟨b, hb, hzero⟩ := List.mem_map.mp hnul
  obtain ⟨c, hc, hb⟩ := List.mem_flatMap.mp hb
  obtain ⟨hpos, hlt⟩ := h c hc
  rw [utf8_ascii hlt] at hb
  obtain rfl := List.mem_singleton.mp hb
  have hnat := congrArg UInt8.toNat hzero
  rw [UInt8.toNat_ofNat_of_lt' (by rw [UInt8.size]; omega)] at hnat
  have hzero : (0 : UInt8).toNat = 0 := rfl
  omega

/-- The text is decoded from its bytes. -/
theorem utf8Decode_sentBytes (message : String) :
    utf8Decode ((sentBytes message).map UInt8.toNat) = message.toList := by
  have hbytes : (sentBytes message).map UInt8.toNat = bytes message := by
    rw [sentBytes, List.map_map]
    refine (List.map_congr_left fun b hb => ?_).trans (List.map_id _)
    obtain ⟨c, -, hb⟩ := List.mem_flatMap.mp hb
    exact UInt8.toNat_ofNat_of_lt' (utf8_lt c b hb)
  rw [hbytes, bytes, utf8Decode_utf8]

theorem parseString_toVisitEvent (h : Sendable g) :
    parseString other (sentBytes g.toVisitEvent) = some (groupDocument g) := by
  rw [parseString, utf8Decode_sentBytes, document_toVisitEvent other h]
  rfl

/-! ## The tree of the document -/

theorem kept_items {items : List (List (String × String))}
    (h : ∀ attributes ∈ items, ∀ a ∈ attributes, Ascii a.1 ∧ Ascii a.2) :
    KeptContent (some "visit-event") (emptyElements "item" items) := by
  induction items with
  | nil => trivial
  | cons attributes items ih =>
      rw [List.forall_mem_cons] at h
      exact ⟨by decide, by decide, h.1, nofun, trivial, ih h.2⟩

theorem kept_groupDocument (h : Sendable g) : (groupDocument g).Kept := by
  have hname : Ascii "visit-event" := by decide
  have htexts : (groupDocument g).content.texts = [] := (textless_emptyElements _ _).texts
  refine ⟨nofun, hname, fun a ha => ⟨(h.attributes a ha).1.2, (h.attributes a ha).2.2⟩, ?_,
    kept_items fun l hl a ha => ⟨(h.item l hl a ha).1.2, (h.item l hl a ha).2.2⟩, trivial⟩
  rw [htexts]
  exact nofun

theorem children_emptyElements (items : List (List (String × String))) :
    children (emptyElements "item" items) =
      items.map fun attributes => { name := "item", attributes } := by
  induction items with
  | nil => rfl
  | cons attributes items ih =>
      rw [List.map_cons, ← ih]
      rfl

/-- The element that the visitor is called with. -/
def groupElement (g : GroupMessage) : Element where
  name := "visit-event"
  attributes := g.attributes
  childElements := g.urlList.map Url.item

theorem element_groupDocument (g : GroupMessage) : (groupDocument g).element = groupElement g := by
  have htexts : (groupDocument g).content.texts = [] := (textless_emptyElements _ _).texts
  have hchildren : children (groupDocument g).content = g.urlList.map Url.item := by
    rw [groupDocument, children_emptyElements, List.map_map]
    rfl
  rw [Document.element, htexts, hchildren]
  rfl

/-! ## The request -/

theorem readItems_items (program : String) (visitTime : Int) (urls : List Server.Url) :
    readItems program visitTime (urls.map Url.item) = some (urls.map fun x =>
      { url := wide (x.url.toList.flatMap Url.seen), program, visitTime }) := by
  induction urls with
  | nil => rfl
  | cons x urls ih =>
      rw [List.map_cons, readItems, if_pos (show (Url.item x).name = "item" from rfl),
        Url.createUrl_item, ih]
      rfl

theorem visitEventOf_groupElement (h : Sendable g) :
    visitEventOf (groupElement g) = some (requestFor g) := by
  have htime : (groupElement g).getAttributeValue "time" = showInt g.visitTime := rfl
  have hprogram : (groupElement g).getAttributeValue "program" = g.clientProgram := rfl
  have hidentifier : (groupElement g).getAttributeValue "identifier" = showInt g.identifier := rfl
  rw [visitEventOf, if_pos (show (groupElement g).name = "visit-event" from rfl), htime,
    parseInt_of_showInt h.time, hprogram, hidentifier]
  have hitems := readItems_items g.clientProgram g.visitTime g.urlList
  rw [groupElement]
  simp only [hitems, Option.map_some]
  rfl

end Message

/-- Pieces that are long enough are put together, whatever they are. -/
theorem received_of_long {messages pieces : List (List UInt8)} (hplain : ∀ m ∈ messages, 0 ∉ m)
    (hcut : pieces.flatten = messages.flatMap terminated)
    (hlong : ∀ piece ∈ pieces, 2 < piece.length) : ServerReceive.received pieces = messages := by
  rw [ServerReceive.flatMap_terminated hplain] at hcut
  show ((pieces.map RecvResult.bytes).foldl ServerReceive.receive {}).documents.frames = messages
  rw [ServerReceive.foldl_receive _ hlong, hcut]
  exact congrArg Framing.State.frames (Framing.scan_stream [] hplain)

/-- Documents that are kept are handed to the listeners. -/
theorem receive_kept {docs : List Document} (hnamed : ∀ d ∈ docs, d.name ≠ "")
    (hkept : ∀ d ∈ docs, d.Kept) :
    ∃ s, EventController.receive docs = some s ∧ s.delivered = docs.map Document.element := by
  have hdistinct := fun d hd => (kept_iff.mp (hkept d hd)).1
  refine ⟨_, EventController.run_documents docs [] hnamed hdistinct, ?_⟩
  exact List.map_inj_left.mpr fun d hd =>
    List.singleton_inj.mp (kept_iff.mp (hkept d hd)).2

theorem mapM_map {α β γ : Type} {f : α → β} {p : β → Option γ} {q : α → γ} {l : List α}
    (h : ∀ a ∈ l, p (f a) = some (q a)) : (l.map f).mapM p = some (l.map q) := by
  induction l with
  | nil => rfl
  | cons a l ih =>
      rw [List.forall_mem_cons] at h
      rw [List.map_cons, List.mapM_cons, h.1, ih h.2]
      rfl

/-- **The visitor gets the groups as they were sent, and in their order.** -/
theorem requests_sent {groups : List GroupMessage} {pieces : List (List UInt8)}
    (hsendable : ∀ g ∈ groups, Sendable g)
    (hcut : pieces.flatten = groups.flatMap fun g => terminated (sentBytes g.toVisitEvent))
    (hlong : ∀ piece ∈ pieces, 2 < piece.length) :
    requests other pieces = some (groups.map requestFor) := by
  have hreceived : ServerReceive.received pieces =
      groups.map fun g => sentBytes g.toVisitEvent := by
    refine received_of_long ?_ (by rw [hcut, List.flatMap_map]) hlong
    intro message hmem
    obtain ⟨g, hg, rfl⟩ := List.mem_map.mp hmem
    exact nul_not_mem_sentBytes (toVisitEvent_oneByte (hsendable g hg))
  have hparse : (groups.map fun g => sentBytes g.toVisitEvent).mapM (parseString other) =
      some (groups.map groupDocument) :=
    mapM_map fun g hg => parseString_toVisitEvent other (hsendable g hg)
  have hnamed : ∀ d ∈ groups.map groupDocument, d.name ≠ "" := by
    intro d hd
    obtain ⟨g, -, rfl⟩ := List.mem_map.mp hd
    exact (by decide : "visit-event" ≠ "")
  have hkept : ∀ d ∈ groups.map groupDocument, d.Kept := by
    intro d hd
    obtain ⟨g, hg, rfl⟩ := List.mem_map.mp hd
    exact kept_groupDocument (hsendable g hg)
  obtain ⟨controller, hrun, hdelivered⟩ := receive_kept hnamed hkept
  have helements : controller.delivered = groups.map groupElement := by
    rw [hdelivered, List.map_map]
    exact List.map_congr_left fun g _ => element_groupDocument g
  have hvisits : (groups.map groupElement).filter (fun e => e.name = "visit-event") =
      groups.map groupElement := by
    refine List.filter_eq_self.mpr fun e he => ?_
    obtain ⟨g, -, rfl⟩ := List.mem_map.mp he
    exact decide_eq_true rfl
  have hevents : (groups.map groupElement).mapM visitEventOf = some (groups.map requestFor) :=
    mapM_map fun g hg => visitEventOf_groupElement (hsendable g hg)
  have hpushed : (groups.map requestFor).filter (fun e => !e.urls.isEmpty) =
      groups.map requestFor := by
    refine List.filter_eq_self.mpr fun e he => ?_
    obtain ⟨g, hg, rfl⟩ := List.mem_map.mp he
    cases hurls : g.urlList with
    | nil => exact absurd hurls (hsendable g hg).urls
    | cons x urls =>
        rw [requestFor, hurls]
        rfl
  rw [requests, hreceived, hparse]
  simp only [Option.bind_eq_bind, Option.bind_some, hrun, helements, hvisits, hevents, hpushed]
  rfl

/-- A group of two URLs, of which the second asks for another program. -/
def twoPages : GroupMessage where
  identifier := -7
  clientProgram := "iexplore"
  visitTime := 30
  urlList := [
    { id := "1", url := "http://a.com/?b&c", clientProgram := "iexplore", visitTime := 30 },
    { id := "2", url := "http://a.com/d", clientProgram := "firefox", visitTime := 5 }]

theorem twoPages_sendable : Sendable twoPages where
  urls := List.cons_ne_nil _ _
  program := by decide
  ids := by decide
  time := by decide

/-- The first bytes of the message come in a piece of their own. -/
theorem requests_twoPages :
    requests (fun _ => none) [(sentBytes twoPages.toVisitEvent).take 9,
      (sentBytes twoPages.toVisitEvent).drop 9 ++ [0]] = some [requestFor twoPages] := by
  refine @requests_sent (fun _ => none) [twoPages] _ (fun g hg => ?_) ?_ ?_
  · obtain rfl := List.mem_singleton.mp hg
    exact twoPages_sendable
  · have hnul := nul_not_mem_sentBytes (toVisitEvent_oneByte twoPages_sendable)
    rw [List.flatMap_singleton, ServerReceive.terminated_of_plain hnul]
    simp [← List.append_assoc]
  · decide +kernel

end Client

end CaptureHpc
