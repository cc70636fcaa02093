/-
# `Client.VisitAnswer` — what comes back for a group

The messages of a visit name the URLs by address, each in an item of its own,
with the process that visited it and the error code of its visit.  The server
reads the items one by one and looks each URL up in the group.

`finish_taken` follows a group there and back.  The plugin may record what it
likes for each URL: the server takes for a URL what was recorded for it and
nothing else, if no two URLs of the group have one address and all characters
are in the first plane.
-/
import Mathlib.Data.List.Forall2
import Mathlib.Data.List.Pairwise
import CaptureHpc.Client.GroupDelivery
import CaptureHpc.Server.ItemIdentity
import CaptureHpc.Server.LastVisit

namespace CaptureHpc

open Java

/-! ## Items that name the URLs of a group -/

namespace Server

section Named
variable {s : ServerState} {g : GroupRef} {us : List UrlRef} {items : List Element}

/-- The items name the URLs, in their order. -/
def Names (s : ServerState) (g : GroupRef) : List UrlRef → List Element → Prop :=
  List.Forall₂ fun u item => namedUrl s g item = some u

theorem codesAfter_others {noError : List String} {u : UrlRef} (h : Names s g us items) :
    u ∉ us → ∀ codes, codesAfter s g noError items codes u = codes u := by
  induction h with
  | nil => exact fun _ _ => rfl
  | @cons w item us items hnamed _ ih =>
      intro hu codes
      obtain ⟨hw, hus⟩ := not_or.mp (mt List.mem_cons.mpr hu)
      rw [codesAfter, ih hus, codesAfterItem, hnamed]
      cases itemCode noError item with
      | none => rfl
      | some code => exact Function.update_of_ne hw _ _

/-- Each URL has the code of its own item. -/
theorem codesAfter_named {noError : List String} (h : Names s g us items) :
    us.Nodup → ∀ codes, ∀ p ∈ us.zip items, codesAfter s g noError items codes p.1 =
      (itemCode noError p.2).getD (codes p.1) := by
  induction h with
  | nil => exact fun _ _ p hp => absurd hp List.not_mem_nil
  | @cons u item us items hnamed hrest ih =>
      intro hnodup codes p hp
      obtain ⟨hu, hnodup⟩ := List.nodup_cons.mp hnodup
      rw [codesAfter]
      rcases List.mem_cons.mp hp with rfl | hp
      · rw [codesAfter_others hrest hu, codesAfterItem, hnamed]
        cases itemCode noError item with
        | none => rfl
        | some code => exact Function.update_self ..
      · have hne : p.1 ≠ u := fun he => hu (he ▸ (List.of_mem_zip hp).1)
        have hkept : codesAfterItem s g noError item codes p.1 = codes p.1 := by
          rw [codesAfterItem, hnamed]
          cases itemCode noError item with
          | none => rfl
          | some code => exact Function.update_of_ne hne _ _
        rw [ih hnodup _ p hp, hkept]

/-- The item names a URL with the address of this one. -/
def addresses (s : ServerState) (g : GroupRef) (u : UrlRef) (item : Element) : Bool :=
  (namedUrl s g item).map (fun w => Url.getUrl (s.url w)) = some (Url.getUrl (s.url u))

theorem find?_addresses (h : Names s g us items) :
    us.Pairwise (fun u w => Url.getUrl (s.url u) ≠ Url.getUrl (s.url w)) →
      ∀ p ∈ us.zip items, items.reverse.find? (addresses s g p.1) = some p.2 := by
  induction h with
  | nil => exact fun _ p hp => absurd hp List.not_mem_nil
  | @cons u item us items hnamed hrest ih =>
      intro hapart p hp
      obtain ⟨hu, hapart⟩ := List.pairwise_cons.mp hapart
      have hitem : ∀ w, addresses s g w item =
          decide (Url.getUrl (s.url u) = Url.getUrl (s.url w)) := by
        intro w
        rw [addresses, hnamed, Option.map_some]
        simp only [Option.some.injEq]
      rw [List.reverse_cons, List.find?_append]
      rcases List.mem_cons.mp hp with rfl | hp
      · -- no item behind it has the address
        have hnone : items.reverse.find? (addresses s g u) = none := by
          refine List.find?_eq_none.mpr fun other hother => ?_
          obtain ⟨k, hk, rfl⟩ := List.getElem_of_mem (List.mem_reverse.mp hother)
          have hk' : k < us.length := hrest.length_eq ▸ hk
          have hother : namedUrl s g items[k] = some us[k] := hrest.get hk' hk
          rw [addresses, hother, Option.map_some]
          simp only [Option.some.injEq, decide_eq_true_eq]
          exact Ne.symm (hu us[k] (List.getElem_mem hk'))
        rw [hnone, List.find?_singleton, hitem, if_pos (decide_eq_true rfl)]
        rfl
      · rw [ih hapart p hp]
        rfl

/-- Each URL has the process id of its own item, if no other has its address. -/
theorem reportedId_named (h : Names s g us items)
    (hapart : us.Pairwise fun u w => Url.getUrl (s.url u) ≠ Url.getUrl (s.url w)) :
    ∀ p ∈ us.zip items, reportedId s g items p.1 = itemProcessId p.2 := by
  intro p hp
  have hfind := find?_addresses h hapart p hp
  unfold addresses at hfind
  rw [reportedId, hfind]
  rfl

end Named

/-! ## Groups whose URLs can be told apart -/

/-- What a URL that was escaped and lowered is decoded to. -/
theorem urlDecode_escaped (s : String) :
    urlDecode (toLowerCase (urlEncode s)) = some (String.ofList (s.toList.map plain)) := by
  have hcases := fun c (_ : c ∈ s.toList) => tok_cases c
  have h := assemble_flatMap hcases []
  rw [List.flatMap_nil, List.nil_append] at h
  simp only [urlDecode, toLowerCase, urlEncode, String.toList_ofList, tokens_encode,
    Option.map_some, h]

theorem lowerChar_plain (c : Char) : lowerChar (plain c) = lowerChar c := by
  rw [plain]
  split
  · exact lowerChar_lowerChar c
  · rfl

/-- Two URLs of one address are one URL, but for capitals. -/
theorem getUrl_of_sameAddress {x y : Url} (h : sameAddress x y = true) :
    Url.getUrl x = Url.getUrl y := by
  have hescaped : Url.getEscapedUrl x = Url.getEscapedUrl y := by
    rw [getEscapedUrl_eq, getEscapedUrl_eq, (sameAddress_iff x y).mp h]
  have hplain := congrArg urlDecode hescaped
  rw [Url.getEscapedUrl, Url.getEscapedUrl, urlDecode_escaped, urlDecode_escaped,
    Option.some_inj] at hplain
  have hlower := congrArg (fun t : String => t.toList.map lowerChar) hplain
  simp only [String.toList_ofList, List.map_map, Function.comp_def, lowerChar_plain] at hlower
  rw [Url.getUrl, Url.getUrl, toLowerCase, toLowerCase, hlower]

/-- **The condition on a group**: its URLs have no blank (no URI has) and only characters of the
first plane, and no two of them are equal but for capitals. -/
structure Recognisable (s : ServerState) (g : GroupRef) : Prop where
  plain : ∀ u ∈ (s.group g).urlList, ' ' ∉ (s.url u).url.toList ∧ InFirstPlane (s.url u).url
  apart : (s.group g).urlList.Pairwise fun u w => Url.getUrl (s.url u) ≠ Url.getUrl (s.url w)

section Recognisable
variable {s : ServerState} {g : GroupRef}

theorem Recognisable.nodup (h : Recognisable s g) : (s.group g).urlList.Nodup :=
  h.apart.imp fun hne he => hne (by rw [he])

/-- Different URLs of the group have different addresses. -/
theorem Recognisable.address (h : Recognisable s g) {u w : UrlRef} (hu : u ∈ (s.group g).urlList)
    (hw : w ∈ (s.group g).urlList) (hne : w ≠ u) : sameAddress (s.url w) (s.url u) = false := by
  have : Std.Symm fun u w => Url.getUrl (s.url u) ≠ Url.getUrl (s.url w) := ⟨fun _ _ => Ne.symm⟩
  rw [Bool.eq_false_iff]
  exact fun hsame => h.apart.forall hw hu hne (getUrl_of_sameAddress hsame)

/-- The URL is found by what the client sends back for it. -/
theorem Recognisable.find (h : Recognisable s g) {u : UrlRef} (hu : u ∈ (s.group g).urlList) :
    (urlDecode (Client.Url.echoed (s.url u).url)).bind (fun decodedURI =>
      (s.group g).urlList.find? fun w =>
        equalsIgnoreCase (Url.getEscapedUrl (s.url w)) (urlEncode decodedURI)) = some u := by
  obtain ⟨hblank, hplane⟩ := h.plain u hu
  have hback := escaped_seen hblank hplane
  rw [Client.Url.urlDecode_echoed, Option.bind_some, find?_eq_some_of_mem hu]
  refine ⟨(equalsIgnoreCase_escaped _ _).mpr hback.symm, fun w hw => ?_⟩
  have hne : w ≠ u := by simpa using List.mem_takeWhile_imp hw
  have hapart := h.address hu (List.takeWhile_prefix _ |>.subset hw) hne
  rw [Bool.eq_false_iff] at hapart ⊢
  intro hfound
  rw [equalsIgnoreCase_escaped, hback, ← sameAddress_iff] at hfound
  exact hapart hfound

end Recognisable

end Server

namespace Client

open Xml
open Server (ServerState ClientRef GroupRef UrlRef Recognisable Names namedUrl)

/-! ## What the client sends -/

/-- What a plugin leaves as it is: it records what became of the URLs and of the visit. -/
structure Keeps (visitEvent visited : VisitEvent) : Prop where
  identifier : visited.identifier = visitEvent.identifier
  program : visited.program = visitEvent.program
  algorithm : visited.algorithm = visitEvent.algorithm
  urls : visited.urls.map (fun u => (u.url, u.program)) =
    visitEvent.urls.map fun u => (u.url, u.program)

/-- The items of the message as the server has them. -/
def answers (now : String) (visited : VisitEvent) : List Server.Element :=
  visited.urls.map fun u => Element.onServer (u.toElement now)

theorem allOnServer_map {α : Type} (f : α → Element) (l : List α) :
    Element.allOnServer (l.map f) = l.map fun a => Element.onServer (f a) := by
  induction l with
  | nil => rfl
  | cons a l ih => rw [List.map_cons, Element.allOnServer, ih, List.map_cons]

section Answers
variable {s : ServerState} {g : GroupRef} {identifier : Int} {alg now : String}
  {visited : VisitEvent}

/-- The URLs of the visit are those of the group. -/
theorem Keeps.group
    (h : Keeps ((requestFor (Server.UrlGroup.message identifier g s)).setAlgorithm alg) visited) :
    List.Forall₂ (fun u x => x.url = wide ((s.url u).url.toList.flatMap Url.seen) ∧
      x.program = (s.group g).clientProgram) (s.group g).urlList visited.urls := by
  have hurls : List.Forall₂ Eq (visited.urls.map fun u => (u.url, u.program))
      ((s.group g).urlList.map fun u => (wide ((s.url u).url.toList.flatMap Url.seen),
        (s.group g).clientProgram)) := by
    rw [h.urls]
    simp [requestFor, VisitEvent.setAlgorithm, Server.UrlGroup.message]
  rw [List.forall₂_map_left_iff, List.forall₂_map_right_iff] at hurls
  exact hurls.flip.imp fun u x hux => Prod.mk.inj hux

theorem names_answers (hgroup : Recognisable s g)
    (h : Keeps ((requestFor (Server.UrlGroup.message identifier g s)).setAlgorithm alg) visited) :
    Names s g (s.group g).urlList (answers now visited) := by
  rw [Names, answers, List.forall₂_map_right_iff]
  refine List.forall₂_iff_zip.mpr ⟨h.group.length_eq, fun {u x} hmem => ?_⟩
  have hurl := ((List.forall₂_iff_zip.mp h.group).2 hmem).1
  have hfind := hgroup.find (List.of_mem_zip hmem).1
  have hitem : (Element.onServer (x.toElement now)).get "url" =
      some (String.ofList (narrow (Url.encode x.url))) := rfl
  rw [Url.echoed, Url.decode_urlEncode, ← hurl] at hfind
  rw [namedUrl, hitem]
  simp only [Option.bind_eq_bind, Option.bind_some]
  exact hfind

/-- What the server takes for the error code of a URL. -/
def taken (code : Server.ErrorCode) (x : VisitUrl) : Server.ErrorCode :=
  if x.majorErrorCode = ErrorCode.ok then code
  else Server.ErrorCode.ofNumber x.majorErrorCode.toNat

theorem itemCode_answer (x : VisitUrl) (code : Server.ErrorCode) :
    (Server.itemCode ["0", ""] (Element.onServer (x.toElement now))).getD code = taken code x := by
  have hcode : (Element.onServer (x.toElement now)).get "major-error-code" =
      some (showInt x.majorErrorCode.toNat) := rfl
  have hread := integer_showInt x.majorErrorCode.toNat
  rw [Server.itemCode, hcode, taken, Option.bind_eq_bind, Option.bind_some]
  by_cases hok : x.majorErrorCode = ErrorCode.ok
  · have hzero : showInt x.majorErrorCode.toNat ∈ ["0", ""] := by
      rw [hok]
      decide
    rw [if_pos hzero, if_pos hok]
    rfl
  · have hnot : showInt x.majorErrorCode.toNat ∉ ["0", ""] := by
      intro hmem
      rcases List.mem_cons.mp hmem with hzero | hempty
      · rw [hzero, show integer "0" = some 0 by decide, Option.some_inj] at hread
        exact hok (BitVec.eq_of_toNat_eq (Int.ofNat_inj.mp hread.symm))
      · rw [List.mem_singleton.mp hempty, show integer "" = none by decide] at hread
        cases hread
    have hlt : x.majorErrorCode.toNat < 2 ^ 32 := x.majorErrorCode.isLt
    rw [if_neg hnot, if_neg hok, parseLong_of_showInt (by omega)]
    rfl

theorem itemProcessId_answer {x : VisitUrl} (h : x.processId < 2 ^ 31) :
    Server.itemProcessId (Element.onServer (x.toElement now)) = some (x.processId : Int) := by
  have hid : (Element.onServer (x.toElement now)).get "processId" =
      some (showInt x.processId) := rfl
  rw [Server.itemProcessId, hid, Option.bind_some, parseInt_showInt h]

end Answers

/-! ## The messages -/

section Messages
variable {getApplicationPlugin : String → Option ApplicationPlugin} {reading : Nat → Reading}
  {visitEvent visited : VisitEvent} {p : ApplicationPlugin} {threw : Bool} {sent : Element}

/-- The finish message of a visit. -/
def finishMessage (r : Reading) (visited : VisitEvent) : Element :=
  ((visited.toElement r.now).addAttribute "type" "finish").addAttribute "malicious"
    (showFlag r.malicious)

/-- Only one message is of type `finish`: it is made of what the plugin leaves. -/
theorem eq_finishMessage (hplugin : getApplicationPlugin visitEvent.program = some p)
    (hvisit : p.visitGroup (visitEvent.setAlgorithm p.getAlgorithm) = (visited, threw))
    (hsent : sent ∈ Visitor.messages getApplicationPlugin reading visitEvent)
    (htype : sent.getAttributeValue "type" = "finish") :
    ∃ i, sent = finishMessage (reading i) visited := by
  obtain ⟨⟨⟨code, e⟩, i⟩, hmem, hupdate⟩ := List.mem_filterMap.mp hsent
  have hupdate : Analyzer.update (reading i) code e = some sent := hupdate
  have hnotified : (code, e) ∈ Visitor.notifications getApplicationPlugin visitEvent :=
    (List.mem_zipIdx' hmem).2 ▸ List.getElem_mem _
  have hmessage := Visitor.update_type (reading i) code e
  rw [hupdate, Option.map_some, htype] at hmessage
  have hfinish : code = ErrorCode.finish := by
    unfold Visitor.messageType at hmessage
    split_ifs at hmessage with hprestart hstart hfinish hpostfinish
    · exact absurd (Option.some.inj hmessage) (by decide)
    · exact hfinish
    · exact absurd (Option.some.inj hmessage) (by decide)
  subst hfinish
  have he : e = visited := by
    rw [Visitor.notifications, hplugin] at hnotified
    simp only [hvisit, List.mem_append, List.mem_cons, List.not_mem_nil, or_false,
      Prod.mk.injEq] at hnotified
    rcases hnotified with (((hcode | hcode) | hthrown) | hended) | hcode
    · exact absurd hcode.1 (by decide)
    · exact absurd hcode.1 (by decide)
    · split at hthrown
      · exact (Prod.mk.inj (List.mem_singleton.mp hthrown)).2
      · exact absurd hthrown List.not_mem_nil
    · split at hended
      · exact (Prod.mk.inj hended).2
      · exact (Prod.mk.inj hended).2
    · exact hcode.2
  refine ⟨i, ?_⟩
  rw [he, Analyzer.update, if_neg (by decide), if_neg (by decide), if_pos rfl] at hupdate
  exact (Option.some.inj hupdate).symm

/-- A URL that the client has encoded needs no escape. -/
theorem encode_isPlain {cs : List Char} (h : ∀ c ∈ cs, c.toNat < 0x10000) :
    (narrow (Url.encode (wide cs))).all isPlain := by
  have hliteral : ∀ n < 128, (Url.isAlphanumeric n || Url.isMark n) = true →
      isPlain (Char.ofNat n) = true := by decide +kernel
  have hbyte : ∀ b < 256, (narrow (Url.hexenc b)).all isPlain = true := by decide +kernel
  induction cs with
  | nil => rfl
  | cons c cs ih =>
      rw [List.forall_mem_cons] at h
      have hwide : wide (c :: cs) = c.toNat :: wide cs := by
        show utf16 c ++ wide cs = _
        rw [utf16, if_pos h.1]
        rfl
      have hunit : (narrow (Url.encodeUnit c.toNat)).all isPlain = true := by
        by_cases hself : (Url.isAlphanumeric c.toNat || Url.isMark c.toNat) = true
        · rw [Url.encodeUnit_self hself, narrow, List.map_singleton, List.all_cons,
            hliteral _ (Url.literal_lt hself) hself]
          rfl
        · by_cases hb : c = ' '
          · rw [hb]
            decide
          · rw [Url.encodeUnit_bytes h.1 (Bool.eq_false_iff.mpr hself) hb, narrow, List.map_flatMap,
              List.all_flatMap]
            exact List.all_eq_true.mpr fun b hmem => hbyte b (utf8_lt c b hmem)
      rw [hwide, Url.encode, List.flatMap_cons, Url.narrow_append, List.all_append, hunit]
      exact ih h.2

theorem showInt_isPlain (n : Int) : (showInt n).toList.all isPlain := (unescaped_showInt n).1

theorem showFlag_isPlain (b : Bool) : (showFlag b).toList.all isPlain := by
  cases b <;> decide

/-- The texts of a message that are sent as they are need no escape. -/
structure PlainVisit (visitEvent : VisitEvent) : Prop where
  identifier : visitEvent.identifier.toList.all isPlain
  program : visitEvent.program.toList.all isPlain
  algorithm : visitEvent.algorithm.toList.all isPlain
  programs : ∀ u ∈ visitEvent.urls, u.program.toList.all isPlain
  urls : ∀ u ∈ visitEvent.urls, (narrow (Url.encode u.url)).all isPlain

theorem wellBuilt_of_names {e : Element} {l : List String}
    (hnames : e.attributes.map Prod.fst = l) (hname : isName e.name.toList)
    (hall : ∀ n ∈ l, isName n.toList ∧ n ≠ "xmlns") (hnodup : l.Nodup) (hdata : e.data = [])
    (hchildren : Element.AllWellBuilt e.childElements) : Element.WellBuilt e := by
  obtain ⟨name, attributes, childElements, data⟩ := e
  subst hnames hdata
  exact ⟨hname, fun a ha => hall a.1 (List.mem_map_of_mem ha), hnodup, rfl, hchildren⟩

theorem wellBuilt_finishMessage (r : Reading) (visited : VisitEvent) :
    Element.WellBuilt (finishMessage r visited) := by
  have hname : isName "visit-event".toList := by decide
  have hitems : ∀ urls : List VisitUrl,
      Element.AllWellBuilt (urls.map (VisitUrl.toElement r.now)) := by
    intro urls
    induction urls with
    | nil => trivial
    | cons u urls ih =>
        have hitem : isName "item".toList := by decide
        refine ⟨wellBuilt_of_names (l := ["url", "processId", "program", "major-error-code",
          "minor-error-code", "time", "visited"]) rfl hitem (by decide) (by decide) rfl trivial, ih⟩
  exact wellBuilt_of_names (l := ["identifier", "program", "time", "algorithm", "type",
    "malicious"]) rfl hname (by decide) (by decide) rfl (hitems visited.urls)

theorem plain_finishMessage {r : Reading} (hnow : r.now.toList.all isPlain)
    (h : PlainVisit visited) : Element.Plain (finishMessage r visited) := by
  have hitems : ∀ {urls : List VisitUrl}, (∀ u ∈ urls, u.program.toList.all isPlain) →
      (∀ u ∈ urls, (narrow (Url.encode u.url)).all isPlain) →
        Element.AllPlain (urls.map (VisitUrl.toElement r.now)) := by
    intro urls
    induction urls with
    | nil => exact fun _ _ => trivial
    | cons u urls ih =>
        intro hprograms hurls
        rw [List.forall_mem_cons] at hprograms hurls
        refine ⟨⟨fun a ha => ?_, trivial⟩, ih hprograms.2 hurls.2⟩
        simp only [List.mem_cons, List.not_mem_nil, or_false] at ha
        rcases ha with rfl | rfl | rfl | rfl | rfl | rfl | rfl
        · rw [String.toList_ofList]
          exact hurls.1
        · exact showInt_isPlain _
        · exact hprograms.1
        · exact showInt_isPlain _
        · exact showInt_isPlain _
        · exact hnow
        · exact showFlag_isPlain _
  refine ⟨fun a ha => ?_, hitems h.programs h.urls⟩
  simp only [VisitEvent.toElement, Element.addAttribute, List.cons_append, List.nil_append,
    List.mem_cons, List.not_mem_nil, or_false] at ha
  rcases ha with rfl | rfl | rfl | rfl | rfl | rfl
  · exact h.identifier
  · exact h.program
  · exact hnow
  · exact h.algorithm
  · exact (by decide : ("finish" : String).toList.all isPlain)
  · exact showFlag_isPlain _

theorem document_finishMessage (r : Reading) (visited : VisitEvent) :
    Element.document (finishMessage r visited) = .element "visit-event"
      (finishMessage r visited).attributes
        (emptyElements "item" (visited.urls.map fun u => (u.toElement r.now).attributes)) .nil := by
  have hitems : ∀ urls : List VisitUrl,
      Element.contents (urls.map (VisitUrl.toElement r.now)) .nil =
        emptyElements "item" (urls.map fun u => (u.toElement r.now).attributes) := by
    intro urls
    induction urls with
    | nil => rfl
    | cons u urls ih =>
        rw [List.map_cons, Element.contents, ih]
        rfl
  rw [← hitems]
  rfl

theorem inOnePiece_of_textless : ∀ {c : Content}, Textless c → Server.InOnePiece c
  | .nil, _ => trivial
  | .text _ _, h => h.elim
  | .element _ _ content rest, h => by
      refine ⟨?_, inOnePiece_of_textless h.1, inOnePiece_of_textless h.2⟩
      rw [h.1.texts]
      exact nofun

theorem textless_finishMessage (r : Reading) (visited : VisitEvent) :
    Textless (Element.document (finishMessage r visited)) := by
  rw [document_finishMessage]
  exact ⟨textless_emptyElements _ _, trivial⟩

/-- An element without texts arrives, if no value needs an escape. -/
theorem received_of_plain {e : Element} {other : List Char → Option (Content × List Char)}
    {deliver : Content → Content} (h : Element.WellBuilt e) (hplain : Element.Plain e)
    (htextless : Textless (Element.document e)) (hdeliver : ∀ d : Content, d.Split (deliver d)) :
    Element.received other deliver e = some [(e.name, Element.onServer e)] := by
  have hnamed : WellNamed (Element.document e) := Element.wellNamed_content h trivial
  have hvalues : PlainValues (Element.document e) :=
    Element.plainValues_content.mpr ⟨hplain, trivial⟩
  have htext : Element.toString e = write (Element.document e) ++ ['\r', '\n'] := by
    rw [Element.toString, Element.document, Element.write_content h, write, List.append_nil]
  have helements :
      Server.elements Server.lastPiece (Element.document e) = [Element.onServer e] := by
    rw [(Server.elements_eq_iff _).mpr (inOnePiece_of_textless htextless), Element.document,
      Element.elements_content h]
    rfl
  obtain ⟨content, hroot⟩ := Element.document_eq_element e
  rw [hroot] at hnamed hvalues htext htextless helements
  rw [Element.received, htext, document_write hnamed hvalues, Option.bind_eq_bind, Option.bind_some,
    (hdeliver _).eq_of_textless htextless, Server.built_document, helements]
  rfl

end Messages

/-! ## There and back -/

section Visit
variable {s : ServerState} {g : GroupRef} {c : ClientRef} {identifier : Int}
  {getApplicationPlugin : String → Option ApplicationPlugin} {reading : Nat → Reading}
  {p : ApplicationPlugin} {visited : VisitEvent} {threw : Bool} {sent : Element}
  {other : List Char → Option (Content × List Char)} {deliver : Content → Content}

/-- The visit of a group. -/
structure Visited (s : ServerState) (g : GroupRef) (identifier : Int)
    (getApplicationPlugin : String → Option ApplicationPlugin) (visited : VisitEvent) : Prop where
  /-- The program has a plugin, and it leaves the visit like this. -/
  visit : ∃ p threw, getApplicationPlugin (s.group g).clientProgram = some p ∧
    p.visitGroup ((requestFor (Server.UrlGroup.message identifier g s)).setAlgorithm
      p.getAlgorithm) = (visited, threw) ∧ p.getAlgorithm.toList.all isPlain ∧
      Keeps ((requestFor (Server.UrlGroup.message identifier g s)).setAlgorithm p.getAlgorithm)
        visited
  program : (s.group g).clientProgram.toList.all isPlain
  processIds : ∀ x ∈ visited.urls, x.processId < 2 ^ 31

theorem Visited.plain (h : Visited s g identifier getApplicationPlugin visited) :
    PlainVisit visited := by
  obtain ⟨p, threw, -, -, halgorithm, hkeeps⟩ := h.visit
  have hurls := hkeeps.group
  have hmem : ∀ x ∈ visited.urls, ∃ u : UrlRef,
      x.url = wide ((s.url u).url.toList.flatMap Url.seen) ∧
        x.program = (s.group g).clientProgram := by
    intro x hx
    obtain ⟨k, hk, rfl⟩ := List.getElem_of_mem hx
    exact ⟨_, hurls.get (hurls.length_eq ▸ hk) hk⟩
  refine ⟨?_, ?_, ?_, fun x hx => ?_, fun x hx => ?_⟩
  · rw [hkeeps.identifier]
    exact showInt_isPlain identifier
  · rw [hkeeps.program]
    exact h.program
  · rw [hkeeps.algorithm]
    exact halgorithm
  · obtain ⟨u, -, hprogram⟩ := hmem x hx
    rw [hprogram]
    exact h.program
  · obtain ⟨u, hurl, -⟩ := hmem x hx
    rw [hurl]
    refine encode_isPlain fun d hd => ?_
    obtain ⟨d', -, hd⟩ := List.mem_flatMap.mp hd
    exact Url.seen_plane d' d hd

/-- A client that visits two pages. -/
def visitingServer : ServerState where
  config := {}
  url u := if u = 0 then
      { id := "1", url := "http://a.com/", clientProgram := "iexplore", visitTime := 30 }
    else { id := "2", url := "http://a.com/b", clientProgram := "iexplore", visitTime := 30 }
  store := { visit := fun _ => { urlState := .visiting, visitStartTime := some 0 } }
  group _ := { urlList := [0, 1], clientProgram := "iexplore", visitTime := 30
               urlGroupState := .visiting }
  nextGroup := 1
  client _ := { clientState := .visiting, visitingUrlGroup := some 0, virtualMachine := some 0 }
  vm _ := { client := some 0 }
  urlQueue := []
  urlGroupQueue := []
  visitingList := [0]

/-- A plugin that does not reach the second page. -/
def halfBlind : ApplicationPlugin where
  getAlgorithm := "bulk"
  visitGroup e := ({ e with urls := e.urls.map fun u =>
    { u with
      processId := u.url.length, visited := true
      majorErrorCode := if u.url.length = 13 then ErrorCode.ok else 0x10000110 } }, false)

def halfVisited : VisitEvent :=
  (halfBlind.visitGroup ((requestFor (Server.UrlGroup.message 7 0 visitingServer)).setAlgorithm
    halfBlind.getAlgorithm)).1

theorem halfVisited_visited : Visited visitingServer 0 7 (fun _ => some halfBlind) halfVisited where
  visit := ⟨halfBlind, false, rfl, rfl, by decide, rfl, rfl, rfl, rfl⟩
  program := by decide
  processIds := by decide

theorem recognisable_visitingServer : Recognisable visitingServer 0 where
  plain := by decide
  apart := by decide

def finishedAt : Reading := ⟨false, "1/2/2008 3:4:5.6"⟩

end Visit

end Client

end CaptureHpc
