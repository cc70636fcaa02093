/-
# `Client.Visitor` — the messages of one visit

The visitor takes a visit event, hands it to the plugin of its program and
notifies the analyzer of what happens.  The analyzer makes messages of the
notifications: `start`, `finish`, and `error` for every code it has no case for.

The server counts on a start message and one message that ends the visit.  A
program without a plugin is not visited and nothing is sent.  A plugin that
throws is notified as an exception, an error for the analyzer, and then as
whatever the error code says.  `oneVisit_iff` says that these are the only ways
to go wrong, but for error codes that are codes of the visit itself.
-/
import CaptureHpc.Client.Element
import CaptureHpc.Client.Url
import CaptureHpc.Server.Confinement

namespace CaptureHpc.Client

open Java

/-! ## Error codes -/

/-- An `unsigned long`, or the `int` it is passed as. -/
abbrev ErrorCode := BitVec 32

namespace ErrorCode

def ok : ErrorCode := 0
def prestart : ErrorCode := 0x10000101
def start : ErrorCode := 0x10000102
def finish : ErrorCode := 0x10000103
def postfinish : ErrorCode := 0x10000104
def multipleErrors : ErrorCode := 0x10000113
def exception : ErrorCode := 0x10000200

end ErrorCode

/-! ## Visit events -/

/-- The fields of `Url` that a message shows, and the visit time. -/
structure VisitUrl where
  url : WString
  program : String
  visitTime : Int
  processId : Nat := 0
  visited : Bool := false
  majorErrorCode : ErrorCode := ErrorCode.ok
  minorErrorCode : ErrorCode := ErrorCode.ok

structure VisitEvent where
  identifier : String
  program : String
  algorithm : String := "seq"
  urls : List VisitUrl := []
  errorCode : ErrorCode := ErrorCode.ok

/-- `addAttribute`. -/
def Element.addAttribute (e : Element) (name value : String) : Element :=
  { e with attributes := e.attributes ++ [(name, value)] }

/-- `getAttributeValue`: empty if there is none. -/
def Element.getAttributeValue (e : Element) (name : String) : String :=
  (e.attributes.lookup name).getD ""

/-- `boost::lexical_cast` of a flag. -/
def showFlag (b : Bool) : String := if b then "1" else "0"

/-- `Url::toElement`; `now` is the time. -/
def VisitUrl.toElement (now : String) (u : VisitUrl) : Element where
  name := "item"
  attributes := [("url", String.ofList (narrow (Url.encode u.url))),
    ("processId", showInt u.processId), ("program", u.program),
    ("major-error-code", showInt u.majorErrorCode.toNat),
    ("minor-error-code", showInt u.minorErrorCode.toNat), ("time", now),
    ("visited", showFlag u.visited)]

namespace VisitEvent

def toElement (now : String) (e : VisitEvent) : Element where
  name := "visit-event"
  attributes := [("identifier", e.identifier), ("program", e.program), ("time", now),
    ("algorithm", e.algorithm)]
  childElements := e.urls.map (VisitUrl.toElement now)

def setAlgorithm (alg : String) (e : VisitEvent) : VisitEvent := { e with algorithm := alg }

/-- A second code, whichever it is, makes multiple errors. -/
def setErrorCode (error : ErrorCode) (e : VisitEvent) : VisitEvent :=
  if e.errorCode ≠ ErrorCode.ok then { e with errorCode := ErrorCode.multipleErrors }
  else { e with errorCode := error }

def isError (e : VisitEvent) : Bool := e.errorCode ≠ ErrorCode.ok

end VisitEvent

/-! ## The analyzer -/

/-- What the analyzer reads when it makes a message. -/
structure Reading where
  malicious : Bool
  now : String

/-- `Analyzer::update`: the message that is sent, if one is. -/
def Analyzer.update (r : Reading) (eventType : ErrorCode) (visitEvent : VisitEvent) :
    Option Element :=
  let element := visitEvent.toElement r.now
  let send (type : String) (element : Element) : Option Element :=
    some ((element.addAttribute "type" type).addAttribute "malicious" (showFlag r.malicious))
  if eventType = ErrorCode.prestart then none
  else if eventType = ErrorCode.start then send "start" element
  else if eventType = ErrorCode.finish then send "finish" element
  else if eventType = ErrorCode.postfinish then none
  else send "error" (element.addAttribute "error-code" (showInt eventType.toInt))

/-! ## The visitor -/

/-- A plugin: what it makes of a visit event, and whether it throws. -/
structure ApplicationPlugin where
  getAlgorithm : String
  visitGroup : VisitEvent → VisitEvent × Bool

namespace Visitor

/-- What `run` notifies of one visit event, in order. -/
def notifications (getApplicationPlugin : String → Option ApplicationPlugin)
    (visitEvent : VisitEvent) : List (ErrorCode × VisitEvent) :=
  match getApplicationPlugin visitEvent.program with
  | none => []
  | some applicationPlugin =>
      let visitEvent := visitEvent.setAlgorithm applicationPlugin.getAlgorithm
      let (visited, threw) := applicationPlugin.visitGroup visitEvent
      [(ErrorCode.prestart, visitEvent), (ErrorCode.start, visitEvent)] ++
        (if threw then [(ErrorCode.exception, visited)] else []) ++
        [if visited.isError then (visited.errorCode, visited) else (ErrorCode.finish, visited)] ++
        [(ErrorCode.postfinish, visited)]

/-- The messages that are sent for one visit event; what is read for each. -/
def messages (getApplicationPlugin : String → Option ApplicationPlugin) (reading : Nat → Reading)
    (visitEvent : VisitEvent) : List Element :=
  (notifications getApplicationPlugin visitEvent).zipIdx.filterMap fun (n, i) =>
    Analyzer.update (reading i) n.1 n.2

/-! ## What the server counts on -/

/-- The types of the messages. -/
def types (sent : List Element) : List String := sent.map fun e => e.getAttributeValue "type"

/-- One start message, and then one that ends the visit. -/
def OneVisit (sent : List Element) : Prop := types sent = ["start", "finish"] ∨
  types sent = ["start", "error"]

/-- Whether the client still has its group on the server after messages of these types; `none` if
one of them finds no group. -/
def handled : Bool → List String → Option Bool
  | hasGroup, [] => some hasGroup
  | hasGroup, type :: types =>
      if type = "start" then if hasGroup then handled true types else none
      else if type = "finish" ∨ type = "error" then if hasGroup then handled false types else none
      else handled hasGroup types

/-- The plugin returns, with an error code that is sent; or it throws, with one that is not. -/
def EndsOnce (threw : Bool) (errorCode : ErrorCode) : Prop :=
  if threw then errorCode = ErrorCode.prestart ∨ errorCode = ErrorCode.postfinish
  else errorCode ≠ ErrorCode.prestart ∧ errorCode ≠ ErrorCode.start ∧
    errorCode ≠ ErrorCode.postfinish

/-- **The condition on a visit**: its program has a plugin, which ends the visit once. -/
def Visitable (getApplicationPlugin : String → Option ApplicationPlugin) (visitEvent : VisitEvent) :
    Prop :=
  ∃ applicationPlugin, getApplicationPlugin visitEvent.program = some applicationPlugin ∧
    ∃ visited threw, applicationPlugin.visitGroup
        (visitEvent.setAlgorithm applicationPlugin.getAlgorithm) = (visited, threw) ∧
      EndsOnce threw visited.errorCode

/-! ## The types of the messages -/

/-- The type of the message that is made of a notification. -/
def messageType (eventType : ErrorCode) : Option String :=
  if eventType = ErrorCode.prestart then none
  else if eventType = ErrorCode.start then some "start"
  else if eventType = ErrorCode.finish then some "finish"
  else if eventType = ErrorCode.postfinish then none
  else some "error"

theorem messageType_prestart : messageType ErrorCode.prestart = none := by decide

theorem messageType_start : messageType ErrorCode.start = some "start" := by decide

theorem messageType_finish : messageType ErrorCode.finish = some "finish" := by decide

theorem messageType_postfinish : messageType ErrorCode.postfinish = none := by decide

theorem messageType_exception : messageType ErrorCode.exception = some "error" := by decide

theorem type_of_attributes (l m : List (String × String)) (type : String)
    (h : ∀ a ∈ l, a.1 ≠ "type") : (l ++ ("type", type) :: m).lookup "type" = some type := by
  induction l with
  | nil => exact List.lookup_cons_self
  | cons a l ih =>
      have hne : ("type" == a.1) = false := beq_false_of_ne (h a List.mem_cons_self).symm
      rw [List.cons_append, List.lookup_cons, hne]
      exact ih fun b hb => h b (List.mem_cons_of_mem _ hb)

theorem update_type (r : Reading) (eventType : ErrorCode) (e : VisitEvent) :
    (Analyzer.update r eventType e).map (fun e => e.getAttributeValue "type") =
      messageType eventType := by
  have hsent : ∀ (element : Element) (type : String), (∀ a ∈ element.attributes, a.1 ≠ "type") →
      ((element.addAttribute "type" type).addAttribute "malicious"
        (showFlag r.malicious)).getAttributeValue "type" = type := by
    intro element type h
    have hlookup := type_of_attributes element.attributes [("malicious", showFlag r.malicious)] type h
    simp only [Element.getAttributeValue, Element.addAttribute, List.append_assoc,
      List.cons_append, List.nil_append, hlookup, Option.getD_some]
  have hplain : ∀ a ∈ (e.toElement r.now).attributes, a.1 ≠ "type" := by
    simp [VisitEvent.toElement]
  have hcode : ∀ a ∈ ((e.toElement r.now).addAttribute "error-code"
      (showInt eventType.toInt)).attributes, a.1 ≠ "type" := by
    intro a ha
    rcases List.mem_append.mp ha with ha | ha
    · exact hplain a ha
    · rw [List.mem_singleton.mp ha]
      exact (by decide : "error-code" ≠ "type")
  unfold Analyzer.update messageType
  split_ifs
  · rfl
  · exact congrArg some (hsent _ _ hplain)
  · exact congrArg some (hsent _ _ hplain)
  · rfl
  · exact congrArg some (hsent _ _ hcode)

theorem types_filterMap (reading : Nat → Reading) (l : List (ErrorCode × VisitEvent)) (k : Nat) :
    types ((l.zipIdx k).filterMap fun (n, i) => Analyzer.update (reading i) n.1 n.2) =
      l.filterMap fun n => messageType n.1 := by
  induction l generalizing k with
  | nil => rfl
  | cons n l ih =>
      have htype := update_type (reading k) n.1 n.2
      have hrest := ih (k + 1)
      simp only [List.zipIdx_cons, List.filterMap_cons, ← htype]
      cases Analyzer.update (reading k) n.1 n.2 with
      | none => exact hrest
      | some e => exact congrArg (e.getAttributeValue "type" :: ·) hrest

section Types
variable {getApplicationPlugin : String → Option ApplicationPlugin} {reading : Nat → Reading}
  {visitEvent : VisitEvent}

theorem types_unknown (h : getApplicationPlugin visitEvent.program = none) :
    types (messages getApplicationPlugin reading visitEvent) = [] := by
  rw [messages, types_filterMap, notifications, h]
  rfl

/-- What the plugin has done, and the types of the messages. -/
theorem types_known {applicationPlugin : ApplicationPlugin} {visited : VisitEvent} {threw : Bool}
    (h : getApplicationPlugin visitEvent.program = some applicationPlugin)
    (hvisit : applicationPlugin.visitGroup
      (visitEvent.setAlgorithm applicationPlugin.getAlgorithm) = (visited, threw)) :
    types (messages getApplicationPlugin reading visitEvent) =
      "start" :: (if threw then ["error"] else []) ++
        (messageType (if visited.isError then visited.errorCode else ErrorCode.finish)).toList := by
  have hone : ∀ (c : ErrorCode) (e : VisitEvent),
      [(c, e)].filterMap (fun n => messageType n.1) = (messageType c).toList := by
    intro c e
    cases hm : messageType c <;> simp [hm]
  rw [messages, types_filterMap, notifications, h]
  simp only [hvisit, List.filterMap_append]
  cases threw with
  | true =>
      cases visited.isError with
      | true => simp [hone, messageType_prestart, messageType_start, messageType_exception,
          messageType_postfinish]
      | false => simp [messageType_prestart, messageType_start, messageType_exception,
          messageType_postfinish, messageType_finish]
  | false =>
      cases visited.isError with
      | true => simp [hone, messageType_prestart, messageType_start, messageType_postfinish]
      | false => simp [messageType_prestart, messageType_start, messageType_postfinish,
          messageType_finish]

/-! ## One visit -/

theorem handled_of_oneVisit {sent : List Element} (h : OneVisit sent) :
    handled true (types sent) = some false := by
  rcases h with h | h <;> rw [h] <;> decide

/-- The code of a message that ends the visit. -/
theorem messageType_ends {c : ErrorCode} : (messageType c = some "finish" ∨
    messageType c = some "error") ↔
      c ≠ ErrorCode.prestart ∧ c ≠ ErrorCode.start ∧ c ≠ ErrorCode.postfinish := by
  have hfinish : ErrorCode.finish ≠ ErrorCode.postfinish := by decide
  unfold messageType
  split_ifs with hpre hstart hfin hpost
  · simp [hpre]
  · simp [hstart]
  · subst hfin
    simp [hpre, hstart, hfinish]
  · simp [hpost]
  · simp [hpre, hstart, hpost]

/-- The code of which no message is made. -/
theorem messageType_none {c : ErrorCode} :
    messageType c = none ↔ c = ErrorCode.prestart ∨ c = ErrorCode.postfinish := by
  have hstart : ErrorCode.start ≠ ErrorCode.postfinish := by decide
  have hfinish : ErrorCode.finish ≠ ErrorCode.postfinish := by decide
  unfold messageType
  split_ifs with hpre hsta hfin hpost
  · simp [hpre]
  · subst hsta
    simp [hpre, hstart]
  · subst hfin
    simp [hpre, hfinish]
  · simp [hpost]
  · simp [hpre, hpost]

/-- The last notification before the post-finish is made a message of, as its code says. -/
theorem endsOnce_iff (visited : VisitEvent) (threw : Bool) :
    EndsOnce threw visited.errorCode ↔
      if threw then messageType (if visited.isError then visited.errorCode else ErrorCode.finish) = none
      else messageType (if visited.isError then visited.errorCode else ErrorCode.finish) = some "finish" ∨
        messageType (if visited.isError then visited.errorCode else ErrorCode.finish) = some "error" := by
  by_cases hok : visited.errorCode = ErrorCode.ok
  · have hno : visited.isError = false := by simp [VisitEvent.isError, hok]
    rw [EndsOnce, hno, hok, if_neg Bool.false_ne_true, messageType_finish]
    cases threw <;> decide
  · have hyes : visited.isError = true := by simp [VisitEvent.isError, hok]
    rw [EndsOnce, hyes, if_pos rfl, messageType_ends, messageType_none]

/-- **When a visit is one visit for the server.** -/
theorem oneVisit_iff (getApplicationPlugin : String → Option ApplicationPlugin)
    (reading : Nat → Reading) (visitEvent : VisitEvent) :
    (OneVisit (messages getApplicationPlugin reading visitEvent) ∧
      handled true (types (messages getApplicationPlugin reading visitEvent)) = some false) ↔
        Visitable getApplicationPlugin visitEvent := by
  rw [and_iff_left_of_imp handled_of_oneVisit]
  cases hplugin : getApplicationPlugin visitEvent.program with
  | none =>
      rw [OneVisit, types_unknown hplugin, Visitable, hplugin]
      simp
  | some applicationPlugin =>
      obtain ⟨visited, threw, hvisit⟩ : ∃ visited threw, applicationPlugin.visitGroup
          (visitEvent.setAlgorithm applicationPlugin.getAlgorithm) = (visited, threw) :=
        ⟨_, _, rfl⟩
      have hvisitable : Visitable getApplicationPlugin visitEvent ↔
          EndsOnce threw visited.errorCode := by
        constructor
        · rintro ⟨_, hsome, _, _, hvisited, hends⟩
          obtain rfl := Option.some.inj (hplugin.symm.trans hsome)
          obtain ⟨rfl, rfl⟩ := Prod.mk.inj (hvisit.symm.trans hvisited)
          exact hends
        · exact fun hends => ⟨_, hplugin, _, _, hvisit, hends⟩
      rw [OneVisit, types_known hplugin hvisit, hvisitable, endsOnce_iff]
      generalize messageType (if visited.isError then visited.errorCode else ErrorCode.finish) = m
      cases threw with
      | true => cases m <;> simp
      | false => cases m <;> simp

/-- A program that no plugin knows: nothing is sent for its visit. -/
theorem unknown_program_silent :
    ¬ ∀ (getApplicationPlugin : String → Option ApplicationPlugin) (reading : Nat → Reading)
        (visitEvent : VisitEvent),
      OneVisit (messages getApplicationPlugin reading visitEvent) ∧
        handled true (types (messages getApplicationPlugin reading visitEvent)) = some false := by
  intro h
  have hone := (h (fun _ => none) (fun _ => ⟨false, ""⟩)
    { identifier := "1", program := "opera", urls := [{ url := [97], program := "opera", visitTime := 5 }] }).2
  exact absurd hone (by decide)

end Types

/-! ## On the server -/

section Server
open Server (ServerState ClientRef GroupRef Action)

/-- The client has no group. -/
def NoGroup (c : ClientRef) (s : ServerState) : Prop := (s.client c).visitingUrlGroup = none

variable {c : ClientRef}

theorem parseStart_noGroup {element : Server.Element} {s : ServerState} (hs : NoGroup c s) :
    ((Server.Client.parseStart c element).run s).1 = .error .nullPointer := by
  have hgroup : (s.client c).visitingUrlGroup = none := hs
  rw [Server.Client.parseStart]
  simp only [Exec.run_gets_bind, hgroup]
  cases (s.client c).virtualMachine <;> rfl

theorem parseFinish_noGroup {element : Server.Element} {s : ServerState} (hs : NoGroup c s) :
    ((Server.Client.parseFinish c element).run s).1 = .error .nullPointer := by
  have hgroup : (s.client c).visitingUrlGroup = none := hs
  rw [Server.Client.parseFinish]
  simp only [Exec.run_gets_bind, hgroup]
  rfl

theorem parseError_noGroup {element : Server.Element} {s : ServerState} (hs : NoGroup c s) :
    ((Server.Client.parseError c element).run s).1 = .error .nullPointer := by
  have hgroup : (s.client c).visitingUrlGroup = none := hs
  rw [Server.Client.parseError]
  simp only [Exec.run_gets_bind, hgroup]
  cases element.childElements with
  | nil =>
      cases element.get "error-code" with
      | none => rfl
      | some major => cases (s.client c).virtualMachine <;> rfl
  | cons item items => rfl

theorem leaveGroup_ends {newState : Server.ClientState}
    (h : (Server.Client.setClientState c newState).Within (Server.Confined [] c none)) :
    (Server.Client.leaveGroup c newState).Ends (NoGroup c) := by
  refine ⟨fun s _ s' hrun => ?_⟩
  rw [Server.Client.leaveGroup] at hrun
  simp only [Exec.run_modify_bind] at hrun
  have hnone : NoGroup c (s.setClient c fun x => { x with visitingUrlGroup := none }) := by
    rw [NoGroup, ServerState.client_setClient]
  have hrest := Exec.Within.of_run (R := Server.Confined [] c none) hrun
  exact (hrest ⟨.inl hnone, fun _ hno => by cases hno⟩).1.group.elim id id

instance : (Server.Client.leaveGroup c .disconnected).Ends (NoGroup c) :=
  leaveGroup_ends inferInstance

instance : (Server.Client.leaveGroup c .waiting).Ends (NoGroup c) :=
  leaveGroup_ends inferInstance

instance (element : Server.Element) : (Server.Client.parseFinish c element).Ends (NoGroup c) := by
  unfold Server.Client.parseFinish
  refine Exec.Ends.bind fun client => Exec.Ends.bind fun g => Exec.Ends.bind fun _ => ?_
  refine Exec.Ends.bind fun ended => Exec.Ends.bind fun group => ?_
  dsimp only
  split
  · exact Exec.Ends.bind fun _ => Exec.Ends.bind fun _ => inferInstance
  · exact Exec.Ends.bind fun _ => Exec.Ends.bind fun _ => Exec.Ends.bind fun _ => inferInstance

instance (g : GroupRef) (element : Server.Element) (map : Server.StringMap) (major : String) :
    (Server.Client.retryError c g element map major).Ends (NoGroup c) := by
  unfold Server.Client.retryError
  refine Exec.Ends.bind fun client => Exec.Ends.bind fun config => ?_
  dsimp only
  split
  · exact Exec.Ends.bind fun _ => Exec.Ends.bind fun _ => inferInstance
  · exact Exec.Ends.bind fun _ => inferInstance

instance (g : GroupRef) (element : Server.Element) (map : Server.StringMap) :
    (Server.Client.finalError c g element map).Ends (NoGroup c) := by
  unfold Server.Client.finalError
  infer_instance

instance (element : Server.Element) : (Server.Client.parseError c element).Ends (NoGroup c) := by
  unfold Server.Client.parseError
  refine Exec.Ends.bind fun client => ?_
  dsimp only
  split <;> infer_instance

/-- **On the server a visit ends with its first finish or error message**: a message of a visit that
finds no group throws, and one that ends the visit leaves none. -/
theorem parseVisitEvent_once {element : Server.Element} {s : ServerState} {type : String}
    (hvisit : type = "start" ∨ type = "finish" ∨ type = "error")
    (htype : element.get "type" = some type) :
    (NoGroup c s → ((Server.Client.parseVisitEvent c element).run s).1 = .error .nullPointer) ∧
      (type ≠ "start" → ∀ s', (Server.Client.parseVisitEvent c element).run s = (.ok (), s') →
        NoGroup c s') := by
  have hrun : ∃ s₁ : ServerState, (NoGroup c s → NoGroup c s₁) ∧
      (Server.Client.parseVisitEvent c element).run s = (
        if type = "start" then Server.Client.parseStart c element
        else if type = "finish" then Server.Client.parseFinish c element
        else if type = "error" then Server.Client.parseError c element else pure ()).run s₁ := by
    refine ⟨s.setClient c fun x => { x with algorithm := element.get "algorithm" }, fun hs => ?_, ?_⟩
    · rw [NoGroup, ServerState.client_setClient]
      exact hs
    · rw [Server.Client.parseVisitEvent]
      simp only [Exec.run_modify_bind, htype, Exec.orThrow_some, Exec.pure_bind]
  obtain ⟨s₁, hkeep, hrun⟩ := hrun
  rw [hrun]
  rcases hvisit with rfl | rfl | rfl
  · exact ⟨fun hs => parseStart_noGroup (hkeep hs), fun hne => absurd rfl hne⟩
  · refine ⟨fun hs => parseFinish_noGroup (hkeep hs), fun _ s' h => ?_⟩
    have hends : (Server.Client.parseFinish c element).Ends (NoGroup c) := inferInstance
    exact hends.post _ _ _ h
  · refine ⟨fun hs => parseError_noGroup (hkeep hs), fun _ s' h => ?_⟩
    have hends : (Server.Client.parseError c element).Ends (NoGroup c) := inferInstance
    exact hends.post _ _ _ h

end Server

end Visitor

end CaptureHpc.Client
