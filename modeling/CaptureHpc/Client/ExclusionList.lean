/-
# `Client.ExclusionList` — two ways of an exclusion list to a monitor

A monitor reads a list from its own disk (`loadExclusionList`), or the server
reads it and sends an element for each line, which the handler of the monitor
passes on (`receiveServerEvent`).  Both end in `addExclusion`.

They do not take the same lines.  The monitor wants a sign in front and no
pattern for the action, and it passes over an expression that is not valid; the
server looks at neither, drops empty fields at the end, and writes the fields
into its message as they are.  `loaders_agree_iff` says for which lines all
this is of no account.
-/
import CaptureHpc.Client.EventController
import CaptureHpc.Client.Monitor
import CaptureHpc.Server.ExclusionList

namespace CaptureHpc.Client

open Xml

/-- A field of a line as a `std::wstring`; the bytes are sign-extended. -/
def widen (field : List UInt8) : WString := field.map fun b => (Element.wide b).toNat

/-- The value of an attribute as a `std::wstring`. -/
def wideValue (value : String) : WString := value.toList.map Char.toNat

/-- The monitors that have an exclusion list. -/
inductive MonitorKind where
  | file
  | process
  | registry

def MonitorKind.name : MonitorKind → String
  | .file => "file"
  | .process => "process"
  | .registry => "registry"

/-- The event that `connect_onServerEvent` names. -/
def MonitorKind.eventType : MonitorKind → String
  | .file => "file-exclusion"
  | .process => "process-exclusion"
  | .registry => "registry-exclusion"

namespace Monitor

section Model
variable {ρ : Type} (compile : WString → Option ρ)

/-! ## The list on the client's disk -/

/-- One round of the loop in `loadExclusionList`. -/
def loadLine (memory : Bool) (line : Line) (permissionMap : PermissionMap ρ) : PermissionMap ρ :=
  if line.bytes.length > 0 ∧ line.bytes.head? ≠ some 0x23 then
    if line.bytes.head? = some 0x2B ∨ line.bytes.head? = some 0x2D then
      match line.fields.map widen with
      | [excluded, action, subject, object] =>
          if action = wideLiteral ".*" ∨ action = wideLiteral ".+" then permissionMap
          else
            -- an expression that is not valid is logged
            (addExclusion compile memory { excluded, action, subject, object } permissionMap).getD
              permissionMap
      | _ => permissionMap
    else permissionMap
  else permissionMap

/-- `loadExclusionList`; `memory` is what each new permission holds before it is set. -/
def loadExclusionList : (Nat → Bool) → List Line → PermissionMap ρ → PermissionMap ρ
  | _, [], permissionMap => permissionMap
  | memory, line :: file, permissionMap =>
      loadExclusionList (fun n => memory (n + 1)) file (loadLine compile (memory 0) line permissionMap)

/-! ## The list of the server -/

/-- The loop over the attributes in the handlers. -/
def setAttribute (e : Exclusion) (a : String × String) : Exclusion :=
  if a.1 = "action" then { e with action := wideValue a.2 }
  else if a.1 = "object" then { e with object := wideValue a.2 }
  else if a.1 = "subject" then { e with subject := wideValue a.2 }
  else if a.1 = "excluded" then { e with excluded := wideValue a.2 }
  else e

/-- What a handler reads of an element. -/
def received (element : Element) : Exclusion :=
  element.attributes.foldl setAttribute { excluded := [], action := [], subject := [], object := [] }

/-- `FileMonitor::onFileExclusionReceived`. -/
def onFileExclusionReceived (memory : Bool) (element : Element) (permissionMap : PermissionMap ρ) :
    Option (PermissionMap ρ) :=
  addExclusion compile memory (received element) permissionMap

/-- `ProcessMonitor::onProcessExclusionReceived`. -/
def onProcessExclusionReceived (memory : Bool) (element : Element)
    (permissionMap : PermissionMap ρ) : Option (PermissionMap ρ) :=
  addExclusion compile memory (received element) permissionMap

/-- `RegistryMonitor::onRegistryExclusionReceived`. -/
def onRegistryExclusionReceived (memory : Bool) (element : Element)
    (permissionMap : PermissionMap ρ) : Option (PermissionMap ρ) :=
  addExclusion compile memory (received element) permissionMap

/-- The listener of a monitor is told about an element. -/
def notify (k : MonitorKind) (memory : Bool) (permissionMap : PermissionMap ρ) (element : Element) :
    Option (PermissionMap ρ) :=
  if element.name = k.eventType then
    match k with
    | .file => onFileExclusionReceived compile memory element permissionMap
    | .process => onProcessExclusionReceived compile memory element permissionMap
    | .registry => onRegistryExclusionReceived compile memory element permissionMap
  else some permissionMap

-- `other` is the part of the parser that reads what begins with `<!` or `<?`
variable (other : List Char → Option (Content × List Char))

/-- `receiveServerEvent`; `none` is an exception that ends the client. -/
def receiveServerEvent (k : MonitorKind) (memory : Bool) (message : List Char)
    (permissionMap : PermissionMap ρ) : Option (PermissionMap ρ) :=
  match Xml.document other message with
  | none => some permissionMap
  | some d => do
      let s ← EventController.run {} d.events
      s.delivered.foldlM (notify compile k memory) permissionMap

/-- The messages one after the other. -/
def receiveAll (k : MonitorKind) : (Nat → Bool) → List (List Char) → PermissionMap ρ →
    Option (PermissionMap ρ)
  | _, [], permissionMap => some permissionMap
  | memory, message :: messages, permissionMap => do
      let permissionMap ← receiveServerEvent compile other k (memory 0) message permissionMap
      receiveAll k (fun n => memory (n + 1)) messages permissionMap

end Model

/-- What the server sends for a list. -/
def messages (keySet : List (String × String) → List (String × String)) (k : MonitorKind)
    (file : List Line) : List (List Char) :=
  (Server.ExclusionList.parseExclusionList k.name file).map (Server.Client.sendXMLElement keySet)

/-- Expressions by their texts; those that are valid compile. -/
def compileText (valid : WString → Bool) (expression : WString) : Option WString :=
  if valid expression then some expression else none

section Claim
variable (valid : WString → Bool) (other : List Char → Option (Content × List Char))
  (keySet : List (String × String) → List (String × String)) (k : MonitorKind)

/-- However expressions match, whatever the memory holds and whatever the monitor has already: the
client gets through the messages, and decides as if it had read the list itself. -/
def SameDecisions (file : List Line) : Prop :=
  ∀ (regexMatch : WString → WString → Bool) (memory memory' : Nat → Bool)
      (permissionMap : PermissionMap WString),
    ∃ permissionMap', receiveAll (compileText valid) other k memory' (messages keySet k file)
        permissionMap = some permissionMap' ∧
      ∀ eventType subject object, isEventAllowed regexMatch permissionMap' eventType subject object =
        isEventAllowed regexMatch (loadExclusionList (compileText valid) memory file permissionMap)
          eventType subject object

/-! ## Lines -/

/-- The monitor takes the line: a sign in front, four fields, no pattern for the action, valid
expressions. -/
def Taken (line : Line) : Prop :=
  (line.bytes.head? = some 0x2B ∨ line.bytes.head? = some 0x2D) ∧
    ∃ excluded action subject object, line.fields = [excluded, action, subject, object] ∧
      widen action ≠ wideLiteral ".*" ∧ widen action ≠ wideLiteral ".+" ∧
      valid (cStr (widen subject)) ∧ valid (cStr (widen object))

/-- The server sends the line and it arrives: no comment, four fields with the empty ones at the end
not counted, and a tag with these values is well-formed. -/
def Arrives (line : Line) : Prop :=
  line.bytes.head? ≠ some 0x23 ∧
    ∃ excluded action subject object,
      line.fields.rdropWhile (· = []) = [excluded, action, subject, object] ∧
        (Xml.document other (writeTag k.eventType.toList (keySet (named
          (.ofList (Server.text excluded)) (.ofList (Server.text action))
          (.ofList (Server.text subject)) (.ofList (Server.text object)))))).isSome

/-- A byte that is an ASCII character and stands for itself in an attribute value. -/
def plainByte (b : UInt8) : Bool := b < 0x80 && isPlain (Char.ofNat b.toNat)

/-- The line is taken, its first field is the sign alone, the last is not empty, and no character
needs an escape. -/
def PlainLine (line : Line) : Prop :=
  Taken valid line ∧ ∃ excluded action subject object,
    line.fields = [excluded, action, subject, object] ∧ (excluded = [0x2B] ∨ excluded = [0x2D]) ∧
      object ≠ [] ∧ ∀ field ∈ line.fields, field.all plainByte

/-- Neither takes the line, or it is plain. -/
def Agreed (line : Line) : Prop :=
  (¬ Taken valid line ∧ ¬ Arrives other keySet k line) ∨ PlainLine valid line

end Claim

/-! ## What a line adds -/

section Effect
variable {ρ : Type} {compile : WString → Option ρ} {memory : Bool}
  {permissionMap : PermissionMap ρ}

/-- What `loadLine` passes on. -/
def loaded (line : Line) : Option Exclusion :=
  if line.bytes.head? = some 0x2B ∨ line.bytes.head? = some 0x2D then
    match line.fields.map widen with
    | [excluded, action, subject, object] =>
        if action = wideLiteral ".*" ∨ action = wideLiteral ".+" then none
        else some { excluded, action, subject, object }
    | _ => none
  else none

/-- The permission that an exclusion becomes, and where it is stored. -/
def effect (compile : WString → Option ρ) (memory : Bool) (e : Option Exclusion) :
    Option (WString × Permission ρ) := do
  let e ← e
  let p ← permission compile memory e
  return (lower e.action, p)

def applied (x : Option (WString × Permission ρ)) (permissionMap : PermissionMap ρ) :
    PermissionMap ρ :=
  match x with
  | none => permissionMap
  | some (action, p) => store action p permissionMap

theorem addExclusion_eq (e : Exclusion) : addExclusion compile memory e permissionMap =
    (effect compile memory (some e)).map fun x => applied (some x) permissionMap := by
  simp only [addExclusion, effect, Option.bind_eq_bind, Option.bind_some]
  cases permission compile memory e with
  | none => rfl
  | some p => rfl

theorem loadLine_eq (line : Line) : loadLine compile memory line permissionMap =
    applied (effect compile memory (loaded line)) permissionMap := by
  rw [loadLine, loaded]
  by_cases hsign : line.bytes.head? = some 0x2B ∨ line.bytes.head? = some 0x2D
  · have hline : line.bytes.length > 0 ∧ line.bytes.head? ≠ some 0x23 := by
      cases hbytes : line.bytes with
      | nil => simp [hbytes] at hsign
      | cons b bytes =>
          refine ⟨Nat.succ_pos _, fun hhash => ?_⟩
          rw [hbytes, hhash] at hsign
          exact absurd hsign (by decide)
    rw [if_pos hline, if_pos hsign, if_pos hsign]
    split
    · next excluded action subject object _ =>
        split
        · rfl
        · rw [addExclusion_eq]
          cases effect compile memory (some { excluded, action, subject, object }) with
          | none => rfl
          | some x => rfl
    · rfl
  · rw [if_neg hsign, if_neg hsign]
    exact ite_self _

theorem loaded_eq_some {line : Line} {e : Exclusion} : loaded line = some e ↔
    (line.bytes.head? = some 0x2B ∨ line.bytes.head? = some 0x2D) ∧
      ∃ excluded action subject object, line.fields = [excluded, action, subject, object] ∧
        widen action ≠ wideLiteral ".*" ∧ widen action ≠ wideLiteral ".+" ∧
        e = { excluded := widen excluded, action := widen action, subject := widen subject
              object := widen object } := by
  rw [loaded]
  constructor
  · intro h
    split at h
    · next hsign =>
        refine ⟨hsign, ?_⟩
        split at h
        · next excluded action subject object hfields =>
            obtain ⟨f₁, l₁, h₁, rfl, hmap₁⟩ := List.map_eq_cons_iff.mp hfields
            obtain ⟨f₂, l₂, rfl, rfl, hmap₂⟩ := List.map_eq_cons_iff.mp hmap₁
            obtain ⟨f₃, l₃, rfl, rfl, hmap₃⟩ := List.map_eq_cons_iff.mp hmap₂
            obtain ⟨f₄, l₄, rfl, rfl, hmap₄⟩ := List.map_eq_cons_iff.mp hmap₃
            obtain rfl := List.map_eq_nil_iff.mp hmap₄
            split at h
            · cases h
            · next hpattern =>
                obtain rfl := Option.some.inj h
                rw [not_or] at hpattern
                exact ⟨f₁, f₂, f₃, f₄, h₁, hpattern.1, hpattern.2, rfl⟩
        · cases h
    · cases h
  · rintro ⟨hsign, f₁, f₂, f₃, f₄, hfields, hstar, hplus, rfl⟩
    rw [if_pos hsign, hfields]
    exact if_neg (not_or.mpr ⟨hstar, hplus⟩)

/-- The permission of an exclusion whose expressions are texts. -/
theorem effect_compileText {valid : WString → Bool} {e : Exclusion} {x : WString × Permission WString} :
    effect (compileText valid) memory (some e) = some x ↔
      (valid (cStr e.subject) ∧ valid (cStr e.object)) ∧
        x = (lower e.action, { subjects := [cStr e.subject], objects := [cStr e.object]
                               allow := allow memory e.excluded, permaneant := e.permaneant }) := by
  simp only [effect, permission, compileText, Option.bind_eq_bind, Option.bind_some]
  cases hsubject : valid (cStr e.subject) with
  | false => simp
  | true =>
      cases hobject : valid (cStr e.object) with
      | false => simp
      | true => simp [eq_comm]

/-- A line is taken just if it adds a permission. -/
theorem taken_iff {valid : WString → Bool} {line : Line} (memory : Bool) :
    Taken valid line ↔ (effect (compileText valid) memory (loaded line)).isSome := by
  constructor
  · rintro ⟨hsign, f₁, f₂, f₃, f₄, hfields, hstar, hplus, hvalid⟩
    rw [loaded_eq_some.mpr ⟨hsign, f₁, f₂, f₃, f₄, hfields, hstar, hplus, rfl⟩,
      effect_compileText.mpr ⟨hvalid, rfl⟩]
    rfl
  · intro h
    obtain ⟨x, hx⟩ := Option.isSome_iff_exists.mp h
    cases hloaded : loaded line with
    | none =>
        rw [hloaded] at hx
        cases hx
    | some e =>
        rw [hloaded] at hx
        obtain ⟨hsign, f₁, f₂, f₃, f₄, hfields, hstar, hplus, rfl⟩ := loaded_eq_some.mp hloaded
        exact ⟨hsign, f₁, f₂, f₃, f₄, hfields, hstar, hplus, (effect_compileText.mp hx).1⟩

/-! ### What is added shows -/

/-- One expression matches one text. -/
def only (subject object r text : WString) : Bool :=
  (text = [1] && r = subject) || (text = [2] && r = object)

theorem matches_only {s o : WString} {p : Permission WString} {r t : WString}
    (hsubjects : p.subjects = [r]) (hobjects : p.objects = [t]) :
    p.Matches (only s o) [1] [2] ↔ r = s ∧ t = o := by
  simp [Permission.Matches, hsubjects, hobjects, only, cStr]

theorem mem_stored_applied {x : Option (WString × Permission ρ)} {key : WString}
    {p : Permission ρ} : p ∈ stored (applied x permissionMap) key ↔
      p ∈ stored permissionMap key ∨ x = some (key, p) := by
  cases x with
  | none => simp [applied]
  | some y =>
      obtain ⟨action, q⟩ := y
      rw [applied, stored_store, List.mem_append]
      by_cases hkey : action = key
      · simp [hkey, eq_comm]
      · simp [hkey]

/-- What is added to a list is told from anything else that may be added. -/
theorem eq_of_decisions {action s o : WString} {permits : Bool}
    {x : Option (WString × Permission WString)} (hlower : lower action = action)
    (hx : ∀ key p, x = some (key, p) → ∃ r t a, p = ⟨[r], [t], a, false⟩)
    (h : ∀ (regexMatch : WString → WString → Bool) (permissionMap : PermissionMap WString)
        (eventType subject object : WString),
      isEventAllowed regexMatch (applied x permissionMap) eventType subject object =
        isEventAllowed regexMatch
          (applied (some (action, ⟨[s], [o], permits, false⟩)) permissionMap) eventType subject
          object) :
    x = some (action, ⟨[s], [o], permits, false⟩) := by
  have hmatch : ∀ a, (⟨[s], [o], a, false⟩ : Permission WString).Matches (only s o) [1] [2] :=
    fun a => (matches_only rfl rfl).mpr ⟨rfl, rfl⟩
  -- what `x` adds matches as well, and goes the same way
  have hsame : ∀ {p : Permission WString}, x = some (action, p) →
      p.Matches (only s o) [1] [2] → p.allow = permits →
        x = some (action, ⟨[s], [o], permits, false⟩) := by
    intro p hp hmatches hallow
    obtain ⟨r, t, a, rfl⟩ := hx action p hp
    obtain ⟨rfl, rfl⟩ := (matches_only rfl rfl).mp hmatches
    obtain rfl : a = permits := hallow
    exact hp
  cases permits with
  | true =>
      -- nothing else allows the event
      have hempty : ∀ p : Permission WString, p ∉ stored ([] : PermissionMap WString) action := by
        intro p hp
        cases hp
      have hright := (isEventAllowed_iff
        (applied (some (action, ⟨[s], [o], true, false⟩)) []) action [1] [2]).mpr (by
          rw [hlower]
          refine ⟨⟨_, mem_stored_applied.mpr (.inr rfl), hmatch true, rfl⟩, ?_⟩
          rintro ⟨p, hp, -, hdeny⟩
          cases mem_stored_applied.mp hp with
          | inl hp => exact hempty p hp
          | inr hp =>
              obtain rfl := (Prod.mk.inj (Option.some.inj hp)).2
              exact nomatch hdeny)
      rw [← h, isEventAllowed_iff, hlower] at hright
      obtain ⟨⟨p, hp, hmatches, hallow⟩, -⟩ := hright
      exact hsame ((mem_stored_applied.mp hp).resolve_left (hempty p)) hmatches hallow
  | false =>
      -- the event is allowed, if nothing is added to deny it
      obtain ⟨permissionMap, hmap⟩ : ∃ m : PermissionMap WString,
          m = [(action, [⟨[s], [o], true, false⟩])] := ⟨_, rfl⟩
      have hstored : stored permissionMap action = [⟨[s], [o], true, false⟩] := by
        rw [hmap]
        simp [stored]
      have hright : isEventAllowed (only s o)
          (applied (some (action, ⟨[s], [o], false, false⟩)) permissionMap) action [1] [2] ≠ true := by
        rw [ne_eq, isEventAllowed_iff, hlower]
        rintro ⟨-, hdeny⟩
        exact hdeny ⟨_, mem_stored_applied.mpr (.inr rfl), hmatch false, rfl⟩
      rw [← h, ne_eq, isEventAllowed_iff, hlower, not_and_not_right] at hright
      obtain ⟨p, hp, hmatches, hdeny⟩ := hright ⟨_, mem_stored_applied.mpr (.inl (by
        rw [hstored]
        exact List.mem_singleton_self _)), hmatch true, rfl⟩
      cases mem_stored_applied.mp hp with
      | inl hp =>
          rw [hstored] at hp
          obtain rfl := List.mem_singleton.mp hp
          cases hdeny
      | inr hp => exact hsame hp hmatches hdeny

end Effect

/-! ## What a message adds -/

section Message

theorem wideValue_mbstowcs (value : String) : wideValue (mbstowcs value) = bytes value := by
  have hself : ∀ b ∈ bytes value, (Char.toNat ∘ Char.ofNat) b = b := by
    intro b hb
    obtain ⟨c, -, hb⟩ := List.mem_flatMap.mp hb
    exact Java.toNat_ofNat (.inl (Nat.lt_trans (Java.utf8_lt c b hb) (by decide)))
  rw [wideValue, mbstowcs, String.toList_ofList, List.map_map, List.map_congr_left hself, List.map_id']

theorem mbstowcs_eq {s t : String} (ht : Document.Ascii t) : mbstowcs s = t ↔ s = t := by
  constructor
  · intro h
    have hbytes : bytes s = t.toList.map Char.toNat := by
      rw [← h]
      exact (wideValue_mbstowcs s).symm
    have hascii : ∀ b ∈ bytes s, b < 0x80 := by
      intro b hb
      rw [hbytes] at hb
      obtain ⟨c, hc, rfl⟩ := List.mem_map.mp hb
      exact ht c hc
    have hs : s.toList = (bytes s).map Char.ofNat := Java.eq_of_flatMap_utf8 rfl hascii
    rw [← String.toList_inj, hs, hbytes, List.map_map]
    exact List.map_id'' Char.ofNat_toNat t.toList
  · rintro rfl
    exact mbstowcs_iff.mpr ht

/-- An attribute that the handlers know is the last of its name. -/
theorem foldl_setAttribute {key : String} {get : Exclusion → WString}
    (hget : ∀ e a, get (setAttribute e a) = if a.1 = key then wideValue a.2 else get e) :
    ∀ (attributes : List (String × String)) (e : Exclusion),
      (∃ value, (key, value) ∈ attributes ∧
        get (attributes.foldl setAttribute e) = wideValue value) ∨
      ((∀ a ∈ attributes, a.1 ≠ key) ∧ get (attributes.foldl setAttribute e) = get e) := by
  intro attributes
  induction attributes with
  | nil => exact fun e => .inr ⟨nofun, rfl⟩
  | cons a attributes ih =>
      intro e
      rw [List.foldl_cons]
      cases ih (setAttribute e a) with
      | inl h =>
          obtain ⟨value, hmem, heq⟩ := h
          exact .inl ⟨value, List.mem_cons_of_mem _ hmem, heq⟩
      | inr h =>
          obtain ⟨hnone, heq⟩ := h
          rw [hget] at heq
          split at heq
          · next hkey => exact .inl ⟨a.2, hkey ▸ List.mem_cons_self, heq⟩
          · next hkey => exact .inr ⟨List.forall_mem_cons.mpr ⟨hkey, hnone⟩, heq⟩

/-- A value that the handlers read of an element is that of an attribute, byte by byte, or empty. -/
theorem received_value {key : String} {get : Exclusion → WString} (name : String)
    (read : List (String × String)) (hkey : Document.Ascii key)
    (hget : ∀ e a, get (setAttribute e a) = if a.1 = key then wideValue a.2 else get e)
    (hempty : get { excluded := [], action := [], subject := [], object := [] } = []) :
    (∃ value, (key, value) ∈ read ∧
      get (received (EventController.opened name read)) = bytes value) ∨
    ((∀ a ∈ read, a.1 ≠ key) ∧ get (received (EventController.opened name read)) = []) := by
  cases foldl_setAttribute hget (EventController.opened name read).attributes
    { excluded := [], action := [], subject := [], object := [] } with
  | inl h =>
      obtain ⟨value, hmem, heq⟩ := h
      obtain ⟨⟨n, v⟩, hread, hpair⟩ := List.mem_map.mp hmem
      obtain ⟨hname, rfl⟩ := Prod.mk.inj hpair
      obtain rfl := (mbstowcs_eq hkey).mp hname
      exact .inl ⟨v, hread, heq.trans (wideValue_mbstowcs v)⟩
  | inr h =>
      obtain ⟨hnone, heq⟩ := h
      refine .inr ⟨fun a ha hname => ?_, heq.trans hempty⟩
      exact hnone _ (List.mem_map_of_mem ha) ((mbstowcs_eq hkey).mpr hname)

theorem get_excluded (e : Exclusion) (a : String × String) : (setAttribute e a).excluded =
    if a.1 = "excluded" then wideValue a.2 else e.excluded := by
  unfold setAttribute
  split_ifs <;> simp_all

theorem get_action (e : Exclusion) (a : String × String) : (setAttribute e a).action =
    if a.1 = "action" then wideValue a.2 else e.action := by
  unfold setAttribute
  split_ifs <;> simp_all

theorem get_subject (e : Exclusion) (a : String × String) : (setAttribute e a).subject =
    if a.1 = "subject" then wideValue a.2 else e.subject := by
  unfold setAttribute
  split_ifs <;> simp_all

theorem get_object (e : Exclusion) (a : String × String) : (setAttribute e a).object =
    if a.1 = "object" then wideValue a.2 else e.object := by
  unfold setAttribute
  split_ifs <;> simp_all

theorem permaneant_received (element : Element) : (received element).permaneant = false := by
  have hfold : ∀ (attributes : List (String × String)) (e : Exclusion),
      (attributes.foldl setAttribute e).permaneant = e.permaneant := by
    intro attributes
    induction attributes with
    | nil => exact fun _ => rfl
    | cons a attributes ih =>
        intro e
        rw [List.foldl_cons, ih]
        unfold setAttribute
        split_ifs <;> rfl
  exact hfold _ _

variable {ρ : Type} {compile : WString → Option ρ} {permissionMap : PermissionMap ρ}
  {other : List Char → Option (Content × List Char)}

theorem ascii_eventType (k : MonitorKind) : Document.Ascii k.eventType := by
  cases k <;> decide

theorem isName_eventType (k : MonitorKind) : isName k.eventType.toList := by
  cases k <;> decide

/-- A tag of the monitor's event is handled with the attributes that were read. -/
theorem receiveServerEvent_tag (k : MonitorKind) (memory : Bool) {message : List Char}
    {read : List (String × String)} (h : Xml.document other message =
      some (.element k.eventType read .nil .nil)) :
    receiveServerEvent compile other k memory message permissionMap =
      addExclusion compile memory (received (EventController.opened k.eventType read))
        permissionMap := by
  have hname : k.eventType ≠ "" := by cases k <;> decide
  have hrun := EventController.run_document [] (d := ⟨k.eventType, read, .nil⟩) hname trivial
  have hself : mbstowcs k.eventType = k.eventType := mbstowcs_iff.mpr (ascii_eventType k)
  rw [receiveServerEvent, h]
  simp only
  rw [show (Content.element k.eventType read .nil .nil).events =
    (Document.mk k.eventType read .nil).events from rfl, hrun]
  simp only [Option.bind_eq_bind, Option.bind_some, List.nil_append, List.foldlM_cons,
    List.foldlM_nil]
  have hnotify : notify compile k memory permissionMap
      (EventController.builtElement ⟨k.eventType, read, .nil⟩) = addExclusion compile memory
        (received (EventController.opened k.eventType read)) permissionMap := by
    rw [notify.eq_def, if_pos (show (EventController.builtElement
      ⟨k.eventType, read, .nil⟩).name = k.eventType from hself)]
    cases k <;> rfl
  rw [hnotify]
  exact Option.bind_fun_some _

end Message

/-! ## What is read of a field -/

section Fields
variable {field : List UInt8} {line : Line}

theorem toNat_wide (b : UInt8) :
    (Element.wide b).toNat = if b < 0x80 then b.toNat else 0xFF00 + b.toNat := by
  have hb : b.toNat < 256 := b.toNat_lt
  rw [Element.wide]
  split
  · exact Java.toNat_ofNat (.inl (by omega))
  · exact Java.toNat_ofNat (.inr ⟨by omega, by omega⟩)

theorem wide_lt {b : UInt8} (h : (Element.wide b).toNat < 256) : b < 0x80 := by
  rw [toNat_wide] at h
  split at h
  · next hb => exact hb
  · omega

theorem widen_injective : Function.Injective widen := by
  refine List.map_injective_iff.mpr fun a b h => UInt8.toNat_inj.mp ?_
  have ha : a.toNat < 256 := a.toNat_lt
  have hb : b.toNat < 256 := b.toNat_lt
  simp only [toNat_wide] at h
  split at h <;> split at h <;> omega

theorem ascii_of_widen (h : ∀ x ∈ widen field, x < 256) : ∀ b ∈ field, b < 0x80 :=
  fun _ hb => wide_lt (h _ (List.mem_map_of_mem hb))

theorem widen_ascii (h : ∀ b ∈ field, b < 0x80) : widen field = field.map UInt8.toNat := by
  refine List.map_congr_left fun b hb => ?_
  rw [toNat_wide, if_pos (h b hb)]

theorem toNat_lt_of_ascii (h : ∀ b ∈ field, b < 0x80) : ∀ n ∈ field.map UInt8.toNat, n < 0x80 := by
  intro n hn
  obtain ⟨b, hb, rfl⟩ := List.mem_map.mp hn
  exact UInt8.lt_iff_toNat_lt.mp (h b hb)

theorem text_ascii (h : ∀ b ∈ field, b < 0x80) :
    Server.text field = (field.map UInt8.toNat).map Char.ofNat := by
  have happend := Java.utf8Decode_ascii (y := []) (toNat_lt_of_ascii h)
  rw [List.append_nil] at happend
  exact happend.trans (List.append_nil _)

/-- ASCII comes to the client as it was. -/
theorem bytes_text (h : ∀ b ∈ field, b < 0x80) :
    bytes (.ofList (Server.text field)) = widen field := by
  have hself : ∀ {l : List Nat}, (∀ b ∈ l, b < 0x80) → (l.map Char.ofNat).flatMap Java.utf8 = l := by
    intro l
    induction l with
    | nil => exact fun _ => rfl
    | cons b l ih =>
        intro hl
        rw [List.forall_mem_cons] at hl
        rw [List.map_cons, List.flatMap_cons, Java.utf8_ofNat hl.1, ih hl.2, List.singleton_append]
  rw [bytes, String.toList_ofList, text_ascii h, hself (toNat_lt_of_ascii h), widen_ascii h]

theorem all_plainByte (h : ∀ b ∈ field, b < 0x80) :
    field.all plainByte = (Server.text field).all isPlain := by
  rw [text_ascii h, List.map_map, List.all_map, Bool.eq_iff_iff, List.all_eq_true, List.all_eq_true]
  refine forall₂_congr fun b hb => ?_
  simp [plainByte, h b hb]

theorem ascii_of_plainByte (h : field.all plainByte) : ∀ b ∈ field, b < 0x80 := by
  intro b hb
  have hplain := List.all_eq_true.mp h b hb
  rw [plainByte, Bool.and_eq_true, decide_eq_true_eq] at hplain
  exact hplain.1

theorem bytes_lt (value : String) : ∀ b ∈ bytes value, b < 256 := by
  intro b hb
  obtain ⟨c, -, hb⟩ := List.mem_flatMap.mp hb
  exact Java.utf8_lt c b hb

/-- The expression is read up to a NUL. -/
theorem cStr_widen (field : List UInt8) : cStr (widen field) = widen (field.takeWhile (· ≠ 0)) := by
  rw [cStr, widen, List.takeWhile_map, widen]
  congr 2
  funext b
  have hzero : (Element.wide b).toNat = 0 ↔ b = 0 := by
    have hb : b.toNat < 256 := b.toNat_lt
    rw [toNat_wide, ← UInt8.toNat_inj]
    split
    · rfl
    · next hge =>
        rw [UInt8.lt_iff_toNat_lt] at hge
        simp at hge ⊢
        omega
  simp [hzero]

theorem text_nul {p q : List UInt8} (h : ∀ b ∈ p, b < 0x80) : Server.text (p ++ 0 :: q) =
    (p.map UInt8.toNat).map Char.ofNat ++ '\x00' :: Server.text q := by
  rw [← text_ascii h, Server.text, List.map_append, List.map_cons]
  exact Java.utf8Decode_append_cons (by decide) _ _

/-- A byte of a field is one of its line and ends none. -/
theorem mem_line (hfield : field ∈ line.fields) :
    ∀ b ∈ field, b ≠ 0x09 ∧ b ≠ 0x0A ∧ b ≠ 0x0D := by
  have hsplit : ∀ l : List UInt8, ∀ x ∈ l.splitOn 0x09, ∀ b ∈ x, b ∈ l ∧ b ≠ 0x09 := by
    intro l
    induction l with
    | nil => simp
    | cons c l ih =>
        intro x hx b hb
        rw [List.splitOn_cons_eq_if_modifyHead] at hx
        split at hx
        · cases List.mem_cons.mp hx with
          | inl hnil =>
              rw [hnil] at hb
              cases hb
          | inr hx => exact ⟨List.mem_cons_of_mem _ (ih x hx b hb).1, (ih x hx b hb).2⟩
        · next hc =>
            cases hrest : l.splitOn 0x09 with
            | nil => exact absurd hrest (List.splitOn_ne_nil _ _)
            | cons y rest =>
                rw [hrest] at ih hx
                cases List.mem_cons.mp hx with
                | inl hx =>
                    subst hx
                    cases List.mem_cons.mp hb with
                    | inl hb =>
                        subst hb
                        exact ⟨List.mem_cons_self, fun htab => hc (beq_iff_eq.mpr htab)⟩
                    | inr hb =>
                        have hmem := ih y List.mem_cons_self b hb
                        exact ⟨List.mem_cons_of_mem _ hmem.1, hmem.2⟩
                | inr hx =>
                    have hmem := ih x (List.mem_cons_of_mem _ hx) b hb
                    exact ⟨List.mem_cons_of_mem _ hmem.1, hmem.2⟩
  intro b hb
  obtain ⟨hmem, htab⟩ := hsplit line.bytes field hfield b hb
  obtain ⟨hlf, hcr, -⟩ := line.isLine b hmem
  exact ⟨htab, hlf, hcr⟩

/-- The white space of a field is blanks. -/
theorem space_text (hfield : field ∈ line.fields) :
    ∀ c ∈ Server.text field, isSpace c → c = ' ' := by
  intro c hc hspace
  have hcases : c = ' ' ∨ c = '\t' ∨ c = '\n' ∨ c = '\r' := by
    simpa [isSpace, or_assoc] using hspace
  rcases hcases with rfl | rfl | rfl | rfl
  · rfl
  · exact absurd hc (Server.not_mem_text (b := 0x09) (by decide) rfl fun h => (mem_line hfield _ h).1 rfl)
  · exact absurd hc (Server.not_mem_text (b := 0x0A) (by decide) rfl fun h => (mem_line hfield _ h).2.1 rfl)
  · exact absurd hc (Server.not_mem_text (b := 0x0D) (by decide) rfl fun h => (mem_line hfield _ h).2.2 rfl)

/-- **An expression that arrives as the monitor would have read it** was written plain. -/
theorem plain_of_cStr {w r rest : List Char} (hfield : field ∈ line.fields)
    (hsame : cStr (bytes (.ofList w)) = cStr (widen field))
    (hread : attValue '"' none (Server.text field ++ '"' :: rest) = some (w, r)) :
    (Server.text field).all isPlain := by
  obtain ⟨p, hp⟩ : ∃ p, p = field.takeWhile (· ≠ 0) := ⟨_, rfl⟩
  rw [cStr_widen, ← hp] at hsame
  have hascii : ∀ b ∈ p, b < 0x80 := by
    refine ascii_of_widen fun x hx => bytes_lt (.ofList w) x ?_
    rw [← hsame] at hx
    exact List.takeWhile_subset _ hx
  -- what arrives begins with the field up to a NUL
  have hbytes : w.flatMap Java.utf8 = p.map UInt8.toNat ++
      (bytes (.ofList w)).dropWhile (· ≠ 0) := by
    rw [← widen_ascii hascii, ← hsame, cStr, List.takeWhile_append_dropWhile, bytes,
      String.toList_ofList]
  obtain ⟨w', hw, -⟩ := Java.of_flatMap_utf8 (toNat_lt_of_ascii hascii) hbytes
  have hlong : p.length ≤ w.length := by
    rw [hw, List.length_append, List.length_map, List.length_map]
    exact Nat.le_add_right _ _
  have hsplit : p ++ field.dropWhile (· ≠ 0) = field := by
    rw [hp, List.takeWhile_append_dropWhile]
  cases hdrop : field.dropWhile (· ≠ 0) with
  | nil =>
      rw [hdrop, List.append_nil] at hsplit
      subst hsplit
      have hlength : (Server.text p).length = p.length := by
        rw [text_ascii hascii, List.length_map, List.length_map]
      have hle := attValue_length hread
      exact plain_of_length (space_text hfield) hread (by omega)
  | cons b q =>
      have hzero : b = 0 := by
        have hhead := List.head?_dropWhile_not (fun b : UInt8 => decide (b ≠ 0)) field
        rw [hdrop] at hhead
        simpa using hhead
      rw [hdrop, hzero] at hsplit
      rw [← hsplit, text_nul hascii, List.append_assoc, List.cons_append] at hread
      have hlt := attValue_nul hread
      rw [List.length_map, List.length_map] at hlt
      omega

theorem le_towlower (x : Nat) : x ≤ towlower x := by
  unfold towlower
  split <;> omega

theorem towlower_lt {n x : Nat} (hn : 123 ≤ n) (h : x < n) : towlower x < n := by
  unfold towlower
  split <;> omega

theorem mem_of_lower {n : Nat} {v w : WString} (hn : 123 ≤ n) (h : lower v = lower w)
    (hw : ∀ x ∈ w, x < n) : ∀ x ∈ v, x < n := by
  intro x hx
  have hmem : towlower x ∈ lower w := h ▸ List.mem_map_of_mem hx
  obtain ⟨y, hy, hxy⟩ := List.mem_map.mp hmem
  have hlt := towlower_lt hn (hw y hy)
  rw [hxy] at hlt
  exact Nat.lt_of_le_of_lt (le_towlower x) hlt

/-- The same for an action, of which the letter case is of no account. -/
theorem plain_of_lower {w r rest : List Char} (hfield : field ∈ line.fields)
    (hsame : lower (bytes (.ofList w)) = lower (widen field))
    (hread : attValue '"' none (Server.text field ++ '"' :: rest) = some (w, r)) :
    (Server.text field).all isPlain := by
  have hascii : ∀ b ∈ field, b < 0x80 :=
    ascii_of_widen (mem_of_lower (by decide) hsame.symm (bytes_lt _))
  have hwide := widen_ascii hascii
  have hbytes : ∀ b ∈ bytes (.ofList w), b < 0x80 := by
    refine mem_of_lower (by decide) hsame ?_
    rw [hwide]
    exact toNat_lt_of_ascii hascii
  have hw : w = (bytes (.ofList w)).map Char.ofNat := by
    refine Java.eq_of_flatMap_utf8 ?_ hbytes
    rw [bytes, String.toList_ofList]
  have hlength : w.length = (Server.text field).length := by
    have hlower := congrArg List.length hsame
    rw [lower, lower, List.length_map, List.length_map, hwide] at hlower
    rw [hw, List.length_map, hlower, text_ascii hascii, List.length_map (f := Char.ofNat)]
  exact plain_of_length (space_text hfield) hread hlength

/-- A field that is plain as a text, and ASCII as far as it is read, is plain. -/
theorem plainByte_of_plain (hplain : (Server.text field).all isPlain)
    (hlt : ∀ x ∈ cStr (widen field), x < 256) : field.all plainByte := by
  have hnul : 0 ∉ field := by
    intro hmem
    obtain ⟨p, q, rfl, -⟩ := List.eq_append_cons_of_mem hmem
    have htext : '\x00' ∈ Server.text (p ++ 0 :: q) := by
      rw [Server.text, List.map_append, List.map_cons]
      exact (Java.utf8Decode_append_cons (b := 0) (by decide) _ _) ▸ by simp
    exact absurd (List.all_eq_true.mp hplain _ htext) (by decide)
  have hwhole : field.takeWhile (· ≠ 0) = field := by
    refine List.takeWhile_eq_self_iff.mpr fun b hb => decide_eq_true ?_
    rintro rfl
    exact hnul hb
  rw [cStr_widen, hwhole] at hlt
  rwa [all_plainByte (ascii_of_widen hlt)]

end Fields

/-! ## Plain lines arrive -/

section Arrival
variable {valid : WString → Bool} {other : List Char → Option (Content × List Char)}
  {keySet : List (String × String) → List (String × String)} {k : MonitorKind} {line : Line}

theorem eventType_eq (k : MonitorKind) : k.name ++ "-exclusion" = k.eventType := by
  cases k <;> decide

/-- The message of a line that the server sends. -/
theorem sent_eq (keySet : List (String × String) → List (String × String)) {e : Server.Element}
    (hparse : Server.ExclusionList.parseLine k.name
      (Server.text line.bytes) = some e) :
    line.bytes.head? ≠ some 0x23 ∧ ∃ excluded action subject object,
      line.fields.rdropWhile (· = []) = [excluded, action, subject, object] ∧
        Server.Client.sendXMLElement keySet e = writeTag k.eventType.toList (keySet (named
          (.ofList (Server.text excluded)) (.ofList (Server.text action))
          (.ofList (Server.text subject)) (.ofList (Server.text object)))) := by
  obtain ⟨hhash, f₁, f₂, f₃, f₄, hfields, rfl⟩ :=
    Server.ExclusionList.parseLine_eq_some.mp hparse
  refine ⟨hhash, f₁, f₂, f₃, f₄, hfields, ?_⟩
  rw [Server.Client.sendXMLElement_eq, eventType_eq]

/-- A line arrives just if it is sent and its message is a document. -/
theorem arrives_iff : Arrives other keySet k line ↔ ∃ e, Server.ExclusionList.parseLine k.name
    (Server.text line.bytes) = some e ∧
      (Xml.document other (Server.Client.sendXMLElement keySet e)).isSome := by
  constructor
  · rintro ⟨hhash, f₁, f₂, f₃, f₄, hfields, hdocument⟩
    refine ⟨_, Server.ExclusionList.parseLine_eq_some.mpr ⟨hhash, f₁, f₂, f₃, f₄, hfields, rfl⟩, ?_⟩
    rwa [Server.Client.sendXMLElement_eq, eventType_eq]
  · rintro ⟨e, hparse, hdocument⟩
    obtain ⟨hhash, f₁, f₂, f₃, f₄, hfields, hsent⟩ := sent_eq keySet hparse
    rw [hsent] at hdocument
    exact ⟨hhash, f₁, f₂, f₃, f₄, hfields, hdocument⟩

section Named
variable {excluded action subject object : String}

theorem isName_named : ∀ a ∈ named excluded action subject object, isName a.1.toList := by
  intro a ha
  obtain rfl | rfl | rfl | rfl : a = _ ∨ a = _ ∨ a = _ ∨ a = _ := by simpa [named] using ha
  · show isName "excluded".toList
    decide
  · show isName "action".toList
    decide
  · show isName "subject".toList
    decide
  · show isName "object".toList
    decide

theorem nodup_named : ((named excluded action subject object).map Prod.fst).Nodup := by
  show ["excluded", "action", "subject", "object"].Nodup
  decide

/-- An attribute that was sent, and read as it was, gives the handler its value. -/
theorem received_sent {key value : String} {get : Exclusion → WString}
    {read : List (String × String)} (hkey : Document.Ascii key)
    (hget : ∀ e a, get (setAttribute e a) = if a.1 = key then wideValue a.2 else get e)
    (hempty : get { excluded := [], action := [], subject := [], object := [] } = [])
    (hnodup : (read.map Prod.fst).Nodup) (hmem : (key, value) ∈ read) (name : String) :
    get (received (EventController.opened name read)) = bytes value := by
  cases received_value name read hkey hget hempty with
  | inl h =>
      obtain ⟨value', hmem', heq⟩ := h
      have hsame := List.inj_on_of_nodup_map hnodup hmem hmem' rfl
      rw [heq, (Prod.mk.inj hsame).2]
  | inr h => exact absurd rfl (h.1 _ hmem)

theorem eq_mk {e : Exclusion} {excluded action subject object : WString}
    (h₁ : e.excluded = excluded) (h₂ : e.action = action) (h₃ : e.subject = subject)
    (h₄ : e.object = object) (h₅ : e.permaneant = false) :
    e = { excluded, action, subject, object } := by
  subst h₁ h₂ h₃ h₄
  cases e with
  | mk excluded action subject object permaneant =>
      obtain rfl : permaneant = false := h₅
      rfl

/-- What the handlers read of the four attributes in any order. -/
theorem received_named {read : List (String × String)}
    (hread : read.Perm (named excluded action subject object)) (name : String) :
    received (EventController.opened name read) =
      { excluded := bytes excluded, action := bytes action, subject := bytes subject
        object := bytes object } := by
  have hnodup : (read.map Prod.fst).Nodup := by
    rw [(hread.map Prod.fst).nodup_iff]
    exact nodup_named
  have hmem : ∀ a ∈ named excluded action subject object, a ∈ read := fun a => hread.mem_iff.mpr
  simp only [named, List.forall_mem_cons] at hmem
  obtain ⟨hexcluded, haction, hsubject, hobject, -⟩ := hmem
  exact eq_mk (received_sent (by decide) get_excluded rfl hnodup hexcluded name)
    (received_sent (by decide) get_action rfl hnodup haction name)
    (received_sent (by decide) get_subject rfl hnodup hsubject name)
    (received_sent (by decide) get_object rfl hnodup hobject name) (permaneant_received _)

end Named

/-- **A plain line** is sent and read as the monitor would have read it. -/
theorem PlainLine.arrives (other : List Char → Option (Content × List Char)) (k : MonitorKind)
    (hkeys : ∀ l, (keySet l).Perm l) (h : PlainLine valid line) :
    ∃ e read, Server.ExclusionList.parseLine k.name (Server.text line.bytes) = some e ∧
      Xml.document other (Server.Client.sendXMLElement keySet e) =
        some (.element k.eventType read .nil .nil) ∧
      loaded line = some (received (EventController.opened k.eventType read)) := by
  obtain ⟨⟨hsign, g₁, g₂, g₃, g₄, hg, hstar, hplus, -⟩, f₁, f₂, f₃, f₄, hfields, -, hlast, hplain⟩ := h
  obtain ⟨rfl, rfl, rfl, rfl⟩ : g₁ = f₁ ∧ g₂ = f₂ ∧ g₃ = f₃ ∧ g₄ = f₄ := by
    simpa [hfields, eq_comm] using hg
  have hhash : ¬ line.bytes.head? = some 0x23 := by
    intro hhash
    rw [hhash] at hsign
    exact absurd hsign (by decide)
  have hkept : line.fields.rdropWhile (· = []) = [g₁, g₂, g₃, g₄] := by
    rw [hfields]
    exact List.rdropWhile_eq_self_iff.mpr fun _ => by simpa using hlast
  obtain ⟨sent, hsent⟩ : ∃ sent, sent = named (.ofList (Server.text g₁)) (.ofList (Server.text g₂))
      (.ofList (Server.text g₃)) (.ofList (Server.text g₄)) := ⟨_, rfl⟩
  have hparse : Server.ExclusionList.parseLine k.name (Server.text line.bytes) = some
      { name := k.name ++ "-exclusion", attributes := sent } :=
    Server.ExclusionList.parseLine_eq_some.mpr ⟨hhash, g₁, g₂, g₃, g₄, hkept, hsent ▸ rfl⟩
  have hmem : ∀ {a}, a ∈ keySet sent ↔ a ∈ sent := fun {a} => (hkeys sent).mem_iff
  have hascii : ∀ field ∈ line.fields, ∀ b ∈ field, b < 0x80 :=
    fun field hfield => ascii_of_plainByte (hplain field hfield)
  have htexts : ∀ field ∈ line.fields, (Server.text field).all isPlain := by
    intro field hfield
    rw [← all_plainByte (hascii field hfield)]
    exact hplain field hfield
  rw [hfields] at hascii htexts
  simp only [List.forall_mem_cons] at hascii htexts
  obtain ⟨ha₁, ha₂, ha₃, ha₄, -⟩ := hascii
  obtain ⟨ht₁, ht₂, ht₃, ht₄, -⟩ := htexts
  have hvalues : ∀ a ∈ keySet sent, a.2.toList.all isPlain := by
    intro a ha
    rw [hmem, hsent] at ha
    obtain rfl | rfl | rfl | rfl : a = _ ∨ a = _ ∨ a = _ ∨ a = _ := by simpa [named] using ha
    · simpa using ht₁
    · simpa using ht₂
    · simpa using ht₃
    · simpa using ht₄
  have hnodup : ((keySet sent).map Prod.fst).Nodup := by
    rw [((hkeys sent).map Prod.fst).nodup_iff, hsent]
    exact nodup_named
  have hnames : ∀ a ∈ keySet sent, isName a.1.toList := by
    intro a ha
    rw [hmem, hsent] at ha
    exact isName_named a ha
  refine ⟨_, keySet sent, hparse, ?_, ?_⟩
  · rw [Server.Client.sendXMLElement_eq, eventType_eq,
      document_writeTag (isName_eventType k) hnames hnodup hvalues, String.ofList_toList]
  · refine loaded_eq_some.mpr ⟨hsign, g₁, g₂, g₃, g₄, hfields, hstar, hplus, ?_⟩
    have hperm := hkeys sent
    rw [hsent] at hperm ⊢
    rw [received_named hperm, bytes_text ha₁, bytes_text ha₂, bytes_text ha₃,
      bytes_text ha₄]

end Arrival

/-! ## Lines that are agreed on -/

section Agreement
variable {valid : WString → Bool} {other : List Char → Option (Content × List Char)}
  {keySet : List (String × String) → List (String × String)} {k : MonitorKind} {line : Line}
  {permissionMap : PermissionMap WString}

theorem loadLine_not_taken (memory : Bool) (h : ¬ Taken valid line) :
    loadLine (compileText valid) memory line permissionMap = permissionMap := by
  rw [taken_iff memory, Option.not_isSome_iff_eq_none] at h
  rw [loadLine_eq, h]
  rfl

theorem PlainLine.signed (h : PlainLine valid line) {e : Exclusion} (he : loaded line = some e) :
    Signed e := by
  obtain ⟨-, f₁, f₂, f₃, f₄, hfields, hsign, -, -⟩ := h
  obtain ⟨-, g₁, g₂, g₃, g₄, hg, -, -, rfl⟩ := loaded_eq_some.mp he
  obtain rfl : f₁ = g₁ := (List.cons.inj (hfields.symm.trans hg)).1
  cases hsign with
  | inl hplus => exact .inl (hplus ▸ show widen [0x2B] = wideLiteral "+" by decide)
  | inr hminus => exact .inr (.inr (.inl (hminus ▸ show widen [0x2D] = wideLiteral "-" by decide)))

theorem agreed_unsent (memory : Bool) (hkeys : ∀ l, (keySet l).Perm l)
    (h : Agreed valid other keySet k line)
    (hparse : Server.ExclusionList.parseLine k.name (Server.text line.bytes) = none) :
    loadLine (compileText valid) memory line permissionMap = permissionMap := by
  cases h with
  | inl hneither => exact loadLine_not_taken memory hneither.1
  | inr hplain =>
      obtain ⟨e, read, hsent, -⟩ := hplain.arrives (fun _ => none) k hkeys
      rw [hparse] at hsent
      cases hsent

/-- The message of a line that is agreed on does what the monitor would have done. -/
theorem agreed_sent (memory memory' : Bool) (permissionMap : PermissionMap WString)
    (hkeys : ∀ l, (keySet l).Perm l)
    (h : Agreed valid other keySet k line) {e : Server.Element}
    (hparse : Server.ExclusionList.parseLine k.name (Server.text line.bytes) = some e) :
    receiveServerEvent (compileText valid) other k memory' (Server.Client.sendXMLElement keySet e)
        permissionMap = some (loadLine (compileText valid) memory line permissionMap) := by
  cases h with
  | inl hneither =>
      obtain ⟨htaken, harrives⟩ := hneither
      have hlost : Xml.document other (Server.Client.sendXMLElement keySet e) = none := by
        rw [← Option.not_isSome_iff_eq_none]
        exact fun hdocument => harrives (arrives_iff.mpr ⟨e, hparse, hdocument⟩)
      rw [receiveServerEvent, hlost, loadLine_not_taken memory htaken]
  | inr hplain =>
      obtain ⟨e', read, hsent, hdocument, hloaded⟩ := hplain.arrives other k hkeys
      obtain rfl := Option.some.inj (hparse.symm.trans hsent)
      have hsigned := hplain.signed hloaded
      obtain ⟨x, hx⟩ := Option.isSome_iff_exists.mp ((taken_iff memory).mp hplain.1)
      rw [hloaded] at hx
      have hx' : effect (compileText valid) memory'
          (some (received (EventController.opened k.eventType read))) = some x := by
        rw [effect_compileText] at hx ⊢
        rwa [allow_signed hsigned memory' memory]
      rw [receiveServerEvent_tag k memory' hdocument, addExclusion_eq, hx', loadLine_eq, hloaded, hx]
      rfl

theorem messages_cons (line : Line) (file : List Line) : messages keySet k (line :: file) =
    match Server.ExclusionList.parseLine k.name (Server.text line.bytes) with
    | none => messages keySet k file
    | some e => Server.Client.sendXMLElement keySet e :: messages keySet k file := by
  rw [messages, Server.ExclusionList.parseExclusionList, List.filterMap_cons]
  cases Server.ExclusionList.parseLine k.name (Server.text line.bytes) <;> rfl

/-- **The run lemma**: a list of such lines leaves the same permissions on both ways. -/
theorem receiveAll_agreed (hkeys : ∀ l, (keySet l).Perm l) : ∀ (file : List Line)
    (memory memory' : Nat → Bool) (permissionMap : PermissionMap WString),
      (∀ line ∈ file, Agreed valid other keySet k line) →
        receiveAll (compileText valid) other k memory' (messages keySet k file) permissionMap =
          some (loadExclusionList (compileText valid) memory file permissionMap) := by
  intro file
  induction file with
  | nil => exact fun _ _ _ _ => rfl
  | cons line file ih =>
      intro memory memory' permissionMap h
      rw [List.forall_mem_cons] at h
      rw [messages_cons, loadExclusionList]
      cases hparse : Server.ExclusionList.parseLine k.name (Server.text line.bytes) with
      | none =>
          rw [agreed_unsent (memory 0) hkeys h.1 hparse]
          exact ih _ memory' permissionMap h.2
      | some e =>
          have hfirst := agreed_sent (memory 0) (memory' 0) permissionMap hkeys h.1
            hparse
          simp only [receiveAll, hfirst, Option.bind_eq_bind, Option.bind_some]
          exact ih _ _ _ h.2

/-! ## Lines on which the decisions are the same -/

/-- What a line adds is one expression for the subject and one for the object. -/
theorem effect_loaded {memory : Bool} {x : WString × Permission WString}
    (h : effect (compileText valid) memory (loaded line) = some x) :
    ∃ e, loaded line = some e ∧ (valid (cStr e.subject) ∧ valid (cStr e.object)) ∧
      x = (lower e.action, ⟨[cStr e.subject], [cStr e.object], allow memory e.excluded, false⟩) := by
  cases hloaded : loaded line with
  | none =>
      rw [hloaded] at h
      cases h
  | some e =>
      rw [hloaded] at h
      obtain ⟨hvalid, rfl⟩ := effect_compileText.mp h
      obtain ⟨-, f₁, f₂, f₃, f₄, -, -, -, rfl⟩ := loaded_eq_some.mp hloaded
      exact ⟨_, rfl, hvalid, rfl⟩

/-- A line that changes no decision is not taken. -/
theorem not_taken_of_same (memory : Bool) (h : ∀ (regexMatch : WString → WString → Bool)
    (permissionMap : PermissionMap WString) (eventType subject object : WString),
      isEventAllowed regexMatch permissionMap eventType subject object =
        isEventAllowed regexMatch (loadLine (compileText valid) memory line permissionMap) eventType
          subject object) : ¬ Taken valid line := by
  intro htaken
  obtain ⟨x, hx⟩ := Option.isSome_iff_exists.mp ((taken_iff memory).mp htaken)
  obtain ⟨e, -, -, rfl⟩ := effect_loaded hx
  have hnone : none = some _ := eq_of_decisions (x := none) (lower_idem e.action) nofun
    (fun regexMatch permissionMap eventType subject object => by
      rw [applied, h, loadLine_eq, hx])
  cases hnone

/-- The memory is of no account only for the four. -/
theorem signed_of_allow {excluded : WString} (h : allow true excluded = allow false excluded) :
    excluded = wideLiteral "yes" ∨ excluded = wideLiteral "+" ∨ excluded = wideLiteral "no" ∨
      excluded = wideLiteral "-" := by
  unfold allow at h
  split at h
  · next hyes => exact hyes.elim .inl fun hplus => .inr (.inl hplus)
  · split at h
    · next hno => exact .inr (.inr hno)
    · cases h

/-- The first field of a line that is taken begins with the sign. -/
theorem head_field {field : List UInt8} {fields : List (List UInt8)}
    (hfields : line.fields = field :: fields) (hne : fields ≠ [])
    (hsign : line.bytes.head? = some 0x2B ∨ line.bytes.head? = some 0x2D) :
    field.head? = some 0x2B ∨ field.head? = some 0x2D := by
  have hline : line.bytes = [0x09].intercalate (field :: fields) := by
    rw [← hfields, Line.fields, List.intercalate_splitOn]
  cases fields with
  | nil => exact absurd rfl hne
  | cons next fields =>
      cases field with
      | nil =>
          rw [hline] at hsign
          exact absurd hsign (by simp [List.intercalate])
      | cons b field =>
          rw [hline] at hsign
          simpa [List.intercalate] using hsign

/-- The sign is all of the first field, if the memory is of no account. -/
theorem sign_of_allow {field : List UInt8}
    (hhead : field.head? = some 0x2B ∨ field.head? = some 0x2D)
    (h : allow true (widen field) = allow false (widen field)) :
    field = [0x2B] ∨ field = [0x2D] := by
  have hyes : widen [0x79, 0x65, 0x73] = wideLiteral "yes" := by decide
  have hplus : widen [0x2B] = wideLiteral "+" := by decide
  have hno : widen [0x6E, 0x6F] = wideLiteral "no" := by decide
  have hminus : widen [0x2D] = wideLiteral "-" := by decide
  rcases signed_of_allow h with hfield | hfield | hfield | hfield
  · rw [← hyes] at hfield
    rw [widen_injective hfield] at hhead
    exact absurd hhead (by decide)
  · rw [← hplus] at hfield
    exact .inl (widen_injective hfield)
  · rw [← hno] at hfield
    rw [widen_injective hfield] at hhead
    exact absurd hhead (by decide)
  · rw [← hminus] at hfield
    exact .inr (widen_injective hfield)

/-- What the client makes of the messages of one line. -/
theorem receiveAll_one (memory : Nat → Bool) :
    receiveAll (compileText valid) other k memory (messages keySet k [line]) permissionMap =
      match Server.ExclusionList.parseLine k.name (Server.text line.bytes) with
      | none => some permissionMap
      | some e => receiveServerEvent (compileText valid) other k (memory 0)
          (Server.Client.sendXMLElement keySet e) permissionMap := by
  rw [messages_cons]
  cases Server.ExclusionList.parseLine k.name (Server.text line.bytes) with
  | none => rfl
  | some e => exact Option.bind_fun_some _

theorem received_lt {key name : String} {get : Exclusion → WString}
    {read : List (String × String)} (hkey : Document.Ascii key)
    (hget : ∀ e a, get (setAttribute e a) = if a.1 = key then wideValue a.2 else get e)
    (hempty : get { excluded := [], action := [], subject := [], object := [] } = []) :
    ∀ x ∈ get (received (EventController.opened name read)), x < 256 := by
  intro x hx
  cases received_value name read hkey hget hempty with
  | inl h =>
      obtain ⟨value, -, heq⟩ := h
      exact bytes_lt value x (heq ▸ hx)
  | inr h =>
      rw [h.2] at hx
      cases hx

/-- **A line that arrives as what the monitor would have taken is plain.** -/
theorem plainLine_of_effect {read : List (String × String)} {e : Server.Element}
    (hkeys : ∀ l, (keySet l).Perm l)
    (hparse : Server.ExclusionList.parseLine k.name (Server.text line.bytes) = some e)
    (hnodup : (read.map Prod.fst).Nodup)
    (hread : ∃ fuel empty r, readAttributes fuel ((keySet e.attributes).flatMap writeAttribute ++
      ['/', '>']) = some (read, empty, r))
    (hsame : ∀ memory memory', ∃ x, effect (compileText valid) memory (loaded line) = some x ∧
      effect (compileText valid) memory'
        (some (received (EventController.opened k.eventType read))) = some x) :
    PlainLine valid line := by
  obtain ⟨y, hy⟩ : ∃ y, y = received (EventController.opened k.eventType read) := ⟨_, rfl⟩
  obtain ⟨x, hx, hx'⟩ := hsame true true
  obtain ⟨x₂, hx₂, hx₂'⟩ := hsame false true
  have htaken : Taken valid line := (taken_iff true).mpr (Option.isSome_iff_exists.mpr ⟨x, hx⟩)
  obtain ⟨c, hc, -, rfl⟩ := effect_loaded hx
  obtain ⟨c', hc', -, rfl⟩ := effect_loaded hx₂
  obtain rfl := Option.some.inj (hc.symm.trans hc')
  rw [← hy] at hx' hx₂'
  obtain ⟨-, hx'⟩ := effect_compileText.mp hx'
  obtain ⟨-, hx₂'⟩ := effect_compileText.mp hx₂'
  simp only [Prod.mk.injEq, Permission.mk.injEq, List.cons.injEq, and_true] at hx' hx₂'
  obtain ⟨haction, hsubject, hobject, hallow, -⟩ := hx'
  have hallow₂ := hx₂'.2.2.2.1
  obtain ⟨hsign, f₁, f₂, f₃, f₄, hfields, -, -, rfl⟩ := loaded_eq_some.mp hc
  obtain ⟨-, g₁, g₂, g₃, g₄, hg, rfl⟩ := Server.ExclusionList.parseLine_eq_some.mp hparse
  -- the server counts the same four fields, so the last is not empty
  have hkept : line.fields.rdropWhile (· = []) = line.fields := by
    refine (List.rdropWhile_prefix _ _).eq_of_length ?_
    rw [hg, hfields]
    rfl
  have hlast : f₄ ≠ [] := by
    have hne : line.fields ≠ [] := hfields ▸ List.cons_ne_nil _ _
    have hself := List.rdropWhile_eq_self_iff.mp hkept hne
    simpa [hfields] using hself
  obtain ⟨rfl, rfl, rfl, rfl⟩ : f₁ = g₁ ∧ f₂ = g₂ ∧ f₃ = g₃ ∧ f₄ = g₄ := by
    simpa using hfields.symm.trans (hkept.symm.trans hg)
  have hsigned := sign_of_allow (head_field hfields (List.cons_ne_nil _ _) hsign)
    (hallow.trans hallow₂.symm)
  have hmem : ∀ f ∈ [f₁, f₂, f₃, f₄], f ∈ line.fields := fun f hf => hfields ▸ hf
  have hvalue : ∀ {key : String} {w : List Char} {get : Exclusion → WString},
      Document.Ascii key →
      (∀ e a, get (setAttribute e a) = if a.1 = key then wideValue a.2 else get e) →
      get { excluded := [], action := [], subject := [], object := [] } = [] →
      (key, String.ofList w) ∈ read → get y = bytes (.ofList w) := by
    intro key w get hkey hget hempty hw
    rw [hy]
    exact received_sent hkey hget hempty hnodup hw k.eventType
  have hplain : ∀ a ∈ keySet (named (.ofList (Server.text f₁)) (.ofList (Server.text f₂))
      (.ofList (Server.text f₃)) (.ofList (Server.text f₄))), a.2.toList.all isPlain := by
    obtain ⟨fuel, empty, r, hread⟩ := hread
    refine plain_of_readAttributes_named ?_ hread ?_
    · intro a ha
      exact isName_named a ((hkeys _).mem_iff.mp ha)
    · intro a ha w rest r' hw hattribute
      have ha := (hkeys _).mem_iff.mp ha
      obtain rfl | rfl | rfl | rfl : a = _ ∨ a = _ ∨ a = _ ∨ a = _ := by simpa [named] using ha
      · rcases hsigned with rfl | rfl
        · decide
        · decide
      · rw [String.toList_ofList] at hattribute ⊢
        refine plain_of_lower (hmem f₂ (by simp)) ?_ hattribute
        rw [← hvalue (by decide) get_action rfl hw]
        exact haction.symm
      · rw [String.toList_ofList] at hattribute ⊢
        refine plain_of_cStr (hmem f₃ (by simp)) ?_ hattribute
        rw [← hvalue (by decide) get_subject rfl hw]
        exact hsubject.symm
      · rw [String.toList_ofList] at hattribute ⊢
        refine plain_of_cStr (hmem f₄ (by simp)) ?_ hattribute
        rw [← hvalue (by decide) get_object rfl hw]
        exact hobject.symm
  have htext : ∀ a ∈ named (.ofList (Server.text f₁)) (.ofList (Server.text f₂))
      (.ofList (Server.text f₃)) (.ofList (Server.text f₄)), a.2.toList.all isPlain :=
    fun a ha => hplain a ((hkeys _).mem_iff.mpr ha)
  simp only [named, List.forall_mem_cons, String.toList_ofList] at htext
  obtain ⟨-, ht₂, ht₃, ht₄, -⟩ := htext
  refine ⟨htaken, f₁, f₂, f₃, f₄, hfields, hsigned, hlast, ?_⟩
  rw [hfields]
  simp only [List.forall_mem_cons]
  refine ⟨?_, ?_, ?_, ?_, nofun⟩
  · rcases hsigned with rfl | rfl
    · decide
    · decide
  · refine plainByte_of_plain ht₂ fun x hx => ?_
    refine mem_of_lower (by decide) haction (fun x hx => ?_) x (List.takeWhile_subset _ hx)
    rw [hy] at hx
    exact received_lt (by decide) get_action rfl x hx
  · refine plainByte_of_plain ht₃ fun x hx => ?_
    rw [hsubject, hy] at hx
    exact received_lt (by decide) get_subject rfl x (List.takeWhile_subset _ hx)
  · refine plainByte_of_plain ht₄ fun x hx => ?_
    rw [hobject, hy] at hx
    exact received_lt (by decide) get_object rfl x (List.takeWhile_subset _ hx)

/-- **A line on which the decisions are the same is agreed on.** -/
theorem agreed_of_same (hother : Delimited other) (hkeys : ∀ l, (keySet l).Perm l)
    (h : SameDecisions valid other keySet k [line]) : Agreed valid other keySet k line := by
  -- a list that leaves the client as it was is a line that is not taken
  have hunmoved : (∀ memory permissionMap,
      receiveAll (compileText valid) other k memory (messages keySet k [line]) permissionMap =
        some permissionMap) → ¬ Taken valid line := by
    intro hsame
    refine not_taken_of_same true fun regexMatch permissionMap eventType subject object => ?_
    obtain ⟨permissionMap', hreceived, hdecisions⟩ :=
      h regexMatch (fun _ => true) (fun _ => true) permissionMap
    obtain rfl := Option.some.inj ((hsame _ _).symm.trans hreceived)
    exact hdecisions eventType subject object
  cases hparse : Server.ExclusionList.parseLine k.name (Server.text line.bytes) with
  | none =>
      refine .inl ⟨hunmoved fun memory permissionMap => by rw [receiveAll_one, hparse], ?_⟩
      intro harrives
      obtain ⟨e, he, -⟩ := arrives_iff.mp harrives
      rw [hparse] at he
      cases he
  | some e =>
      cases hdocument : Xml.document other (Server.Client.sendXMLElement keySet e) with
      | none =>
          refine .inl ⟨hunmoved fun memory permissionMap => ?_, ?_⟩
          · rw [receiveAll_one, hparse]
            simp only [receiveServerEvent, hdocument]
          · intro harrives
            obtain ⟨e', he', hsome⟩ := arrives_iff.mp harrives
            obtain rfl := Option.some.inj (hparse.symm.trans he')
            rw [hdocument] at hsome
            cases hsome
      | some d =>
          right
          have hname : e.name = k.eventType := by
            obtain ⟨-, f₁, f₂, f₃, f₄, -, rfl⟩ := Server.ExclusionList.parseLine_eq_some.mp hparse
            exact eventType_eq k
          have htag := hdocument
          rw [Server.Client.sendXMLElement_eq, hname] at htag
          obtain ⟨read, rfl, hnodup, hread⟩ := of_document_tag hother (isName_eventType k) htag
          rw [String.ofList_toList] at hdocument
          refine plainLine_of_effect hkeys hparse hnodup hread fun memory memory' => ?_
          obtain ⟨y, hy⟩ : ∃ y, y = effect (compileText valid) memory'
              (some (received (EventController.opened k.eventType read))) := ⟨_, rfl⟩
          have hreceive : ∀ permissionMap, receiveAll (compileText valid) other k (fun _ => memory')
              (messages keySet k [line]) permissionMap =
                y.map fun x => applied (some x) permissionMap := by
            intro permissionMap
            rw [receiveAll_one, hparse, hy]
            simp only
            rw [receiveServerEvent_tag k memory' hdocument, addExclusion_eq]
          cases y with
          | none =>
              obtain ⟨_, hreceived, -⟩ :=
                h (fun _ _ => true) (fun _ => memory) (fun _ => memory') []
              rw [hreceive] at hreceived
              cases hreceived
          | some y =>
              obtain ⟨-, rfl⟩ := effect_compileText.mp hy.symm
              rw [permaneant_received] at hy hreceive
              refine ⟨_, ?_, hy.symm⟩
              refine eq_of_decisions (lower_idem _) ?_ ?_
              · intro key p hp
                obtain ⟨e, -, -, heq⟩ := effect_loaded hp
                exact ⟨_, _, _, (Prod.mk.inj heq).2⟩
              · intro regexMatch permissionMap eventType subject object
                obtain ⟨permissionMap', hreceived, hdecisions⟩ :=
                  h regexMatch (fun _ => memory) (fun _ => memory') permissionMap
                rw [hreceive] at hreceived
                obtain rfl := Option.some.inj hreceived
                rw [hdecisions, loadExclusionList, loadExclusionList, loadLine_eq]

end Agreement

section Claim
variable (valid : WString → Bool) {other : List Char → Option (Content × List Char)}
  {keySet : List (String × String) → List (String × String)} (k : MonitorKind)

end Claim

/-- A line of ASCII characters. -/
def asciiLine (s : String) (h : (s.toList.map (UInt8.ofNat ∘ Char.toNat)).all fun b =>
    b ≠ 0x0A ∧ b ≠ 0x0D ∧ b ≠ 0x1A) : Line :=
  ⟨s.toList.map (UInt8.ofNat ∘ Char.toNat), fun b hb => of_decide_eq_true (List.all_eq_true.mp h b hb)⟩

/-- A directory with an ampersand in its name. -/
def ampersand : Line := asciiLine "+\tWrite\tword\tR&D" (by decide)

/-- The same for another directory. -/
def noAmpersand : Line := asciiLine "-\tWrite\tword\tR and D" (by decide)

end Monitor

end CaptureHpc.Client
