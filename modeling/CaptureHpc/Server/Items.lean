/-
# `Server.Items` — what the items of a message do to the URLs they name

An item of a start, finish or error message names a URL of the group by its
address, and sets times and error codes of it.  `codesAfter` are the error codes
of all URLs after a list of items: the last item that reports an error for a URL
decides.
-/
import CaptureHpc.Server.Messages
import CaptureHpc.Server.Transitions

namespace CaptureHpc.Server

open Java

/-- The URL of the group that an item names. -/
def namedUrl (s : ServerState) (g : GroupRef) (item : Element) : Option UrlRef := do
  let uri ← item.get "url"
  let decodedURI ← urlDecode (toLowerCase uri)
  (s.group g).urlList.find? fun u =>
    equalsIgnoreCase (Url.getEscapedUrl (s.url u)) (urlEncode decodedURI)

/-- The error code in an item, unless it is one of `noError`. -/
def itemCode (noError : List String) (item : Element) : Option ErrorCode := do
  let code ← item.get "major-error-code"
  if code ∈ noError then none else (parseLong code).map ErrorCode.ofNumber

/-- What an item makes of the error codes. -/
def codesAfterItem (s : ServerState) (g : GroupRef) (noError : List String) (item : Element)
    (codes : UrlRef → ErrorCode) : UrlRef → ErrorCode :=
  match namedUrl s g item, itemCode noError item with
  | some u, some code => Function.update codes u code
  | _, _ => codes

/-- The error codes after a list of items. -/
def codesAfter (s : ServerState) (g : GroupRef) (noError : List String) :
    List Element → (UrlRef → ErrorCode) → UrlRef → ErrorCode
  | [], codes => codes
  | item :: items, codes =>
      codesAfter s g noError items (codesAfterItem s g noError item codes)

/-- The minor error code in an item, unless its major code is one of `noError`. -/
def itemMinor (noError : List String) (item : Element) : Option Int := do
  let code ← item.get "major-error-code"
  if code ∈ noError then none else (item.get "minor-error-code").bind parseLong

/-- What an item makes of the minor error codes. -/
def minorsAfterItem (s : ServerState) (g : GroupRef) (noError : List String) (item : Element)
    (minors : UrlRef → Int) : UrlRef → Int :=
  match namedUrl s g item, itemMinor noError item with
  | some u, some minor => Function.update minors u minor
  | _, _ => minors

/-- The minor error codes after a list of items. -/
def minorsAfter (s : ServerState) (g : GroupRef) (noError : List String) :
    List Element → (UrlRef → Int) → UrlRef → Int
  | [], minors => minors
  | item :: items, minors =>
      minorsAfter s g noError items (minorsAfterItem s g noError item minors)

/-- The minor error codes of the URLs. -/
def minors (s : ServerState) (u : UrlRef) : Int := (s.visit u).minorErrorCode

/-- The error codes of the URLs. -/
def codes (s : ServerState) (u : UrlRef) : ErrorCode := (s.visit u).majorErrorCode

theorem codes_congr {s s' : ServerState} (h : states s' = states s) : codes s' = codes s :=
  funext fun u => congrArg Prod.snd (congrFun h u)

theorem codes_update {s s' : ServerState} {u : UrlRef} {x : UrlState × ErrorCode}
    (h : states s' = Function.update (states s) u x) :
    codes s' = Function.update (codes s) u x.2 := by
  funext w
  show (states s' w).2 = _
  rw [h]
  by_cases hw : w = u
  · subst hw
    rw [Function.update_self, Function.update_self]
  · rw [Function.update_of_ne hw, Function.update_of_ne hw]
    rfl

theorem namedUrl_congr {s s' : ServerState} (hlist : (s'.group g).urlList = (s.group g).urlList)
    (hurl : s'.url = s.url) (item : Element) : namedUrl s' g item = namedUrl s g item := by
  simp only [namedUrl, hlist, hurl]

theorem of_run_getUrl {s s' : ServerState} {uri : String} {u : UrlRef}
    (h : (UrlGroup.getUrl g uri).run s = (.ok u, s')) :
    s' = s ∧ (urlDecode uri).bind (fun decodedURI => (s.group g).urlList.find? fun u =>
      equalsIgnoreCase (Url.getEscapedUrl (s.url u)) (urlEncode decodedURI)) = some u := by
  rw [UrlGroup.getUrl] at h
  obtain ⟨decodedURI, hdec, h⟩ := Exec.of_run_orThrow_bind h
  simp only [Exec.run_gets_bind] at h
  rw [hdec, Option.bind_some]
  cases hfind : (s.group g).urlList.find? fun u =>
      equalsIgnoreCase (Url.getEscapedUrl (s.url u)) (urlEncode decodedURI) with
  | none =>
      rw [hfind] at h
      exact absurd (congrArg Prod.fst h) nofun
  | some w =>
      rw [hfind] at h
      simp only [Exec.orThrow_some, Exec.run_pure, Prod.mk.injEq, Except.ok.injEq] at h
      exact ⟨h.2.symm, by rw [h.1]⟩

theorem minorsAfter_congr {s s' : ServerState} {g : GroupRef}
    (hlist : (s'.group g).urlList = (s.group g).urlList) (hurl : s'.url = s.url)
    (noError : List String) : ∀ (items : List Element) (M : UrlRef → Int),
      minorsAfter s' g noError items M = minorsAfter s g noError items M
  | [], _ => rfl
  | item :: items, M => by
      rw [minorsAfter, minorsAfter, minorsAfterItem, minorsAfterItem, namedUrl_congr hlist hurl,
        minorsAfter_congr hlist hurl noError items]

theorem codesAfter_congr {s s' : ServerState} {g : GroupRef}
    (hlist : (s'.group g).urlList = (s.group g).urlList) (hurl : s'.url = s.url)
    (noError : List String) : ∀ (items : List Element) (K : UrlRef → ErrorCode),
      codesAfter s' g noError items K = codesAfter s g noError items K
  | [], _ => rfl
  | item :: items, K => by
      rw [codesAfter, codesAfter, codesAfterItem, codesAfterItem, namedUrl_congr hlist hurl,
        codesAfter_congr hlist hurl noError items]

/-! ## What lasts -/

/-- A field of a URL that the verdict and the event log leave alone. -/
class Lasting {β : Type} (p : UrlVisit → β) : Prop where
  malicious : ∀ x m, p { x with malicious := m } = p x
  logFile : ∀ x l, p { x with logFile := l } = p x
  firstStateChange : ∀ x d, p { x with firstStateChange := d } = p x

instance : Lasting UrlVisit.minorErrorCode := ⟨fun _ _ => rfl, fun _ _ => rfl, fun _ _ => rfl⟩

instance : Lasting UrlVisit.visitStartTime := ⟨fun _ _ => rfl, fun _ _ => rfl, fun _ _ => rfl⟩

/-- The field is as before, for every URL. -/
abbrev Lasts {β : Type} (p : UrlVisit → β) : ServerState → ServerState → Prop :=
  Exec.Same fun s u => p (s.visit u)

section Lasts
variable {β : Type} {p : UrlVisit → β}

theorem field_setVisit (u : UrlRef) (f : UrlVisit → UrlVisit) (s : ServerState) :
    (fun w => p ((s.setVisit u f).visit w)) =
      Function.update (fun w => p (s.visit w)) u (p (f (s.visit u))) := by
  funext w
  show p ((Function.update s.store.visit u (f (s.store.visit u))) w) = _
  by_cases hw : w = u
  · subst hw
    rw [Function.update_self, Function.update_self]
    rfl
  · rw [Function.update_of_ne hw, Function.update_of_ne hw]
    rfl

theorem lasts_setVisit {u : UrlRef} {f : UrlVisit → UrlVisit} {s : ServerState}
    (h : p (f (s.visit u)) = p (s.visit u)) : Lasts p s (s.setVisit u f) := by
  show (fun w => p ((s.setVisit u f).visit w)) = _
  rw [field_setVisit, h]
  exact Function.update_eq_self u fun w => p (s.visit w)

theorem updateVisit_lasts {u : UrlRef} {f : UrlVisit → UrlVisit} (h : ∀ x, p (f x) = p x) :
    (updateVisit u f).Within (Lasts p) := ⟨fun _ => lasts_setVisit (h _)⟩

instance (call : DatabaseCall) :
    (Exec.modify (ServerState.callDatabase call) : Action Unit).Within (Lasts p) := ⟨fun _ => rfl⟩

instance (g : GroupRef) (f : UrlGroup → UrlGroup) :
    (Exec.modify (ServerState.setGroup g f) : Action Unit).Within (Lasts p) := ⟨fun _ => rfl⟩

variable [hp : Lasting p]

instance (u : UrlRef) (malicious : Bool) : (Url.setMalicious u malicious).Within (Lasts p) :=
  updateVisit_lasts fun x => hp.malicious x _

instance (u : UrlRef) : (Url.openLog u).Within (Lasts p) := by
  have := updateVisit_lasts (u := u) (f := fun x => { x with logFile := some [] }) fun x =>
    hp.logFile x _
  unfold Url.openLog
  infer_instance

instance (u : UrlRef) (event : String) : (Url.noteFirstStateChange u event).Within (Lasts p) := by
  have := fun date => updateVisit_lasts (u := u)
    (f := fun x => { x with firstStateChange := some date }) fun x => hp.firstStateChange x _
  have hdate : ∀ text, (match parseDate text with
      | some date => do
        updateVisit u fun x => { x with firstStateChange := some date }
        return true
      | none => return false : Action Bool).Within (Lasts p) := by
    intro text
    cases parseDate text <;> infer_instance
  unfold Url.noteFirstStateChange
  infer_instance

instance (u : UrlRef) (event : String) : (Url.appendToLog u event).Within (Lasts p) := by
  have := updateVisit_lasts (u := u)
    (f := fun x => { x with logFile := x.logFile.map (· ++ [event]) }) fun x => hp.logFile x _
  unfold Url.appendToLog
  infer_instance

instance (u : UrlRef) (event : String) : (Url.writeEventToLog u event).Within (Lasts p) := by
  unfold Url.writeEventToLog
  infer_instance

instance (g : GroupRef) (map : StringMap) : (UrlGroup.writeEventsToLog g map).Within (Lasts p) := by
  unfold UrlGroup.writeEventsToLog
  refine Exec.Within.bind inferInstance fun group => Exec.Within.forM _ fun u _ => ?_
  refine Exec.Within.bind inferInstance fun x => ?_
  cases map.lookup (Url.getUrl x) <;> infer_instance

instance (g : GroupRef) (algorithm : Option String) (malicious : Bool) (map : Option StringMap) :
    (UrlGroup.setMalicious g algorithm malicious map).Within (Lasts p) := by
  have hsingle : ∀ urlList : List UrlRef, (match urlList with
      | [u] => Url.setMalicious u true
      | _ => pure () : Action Unit).Within (Lasts p) := by
    intro urlList
    split <;> infer_instance
  have hmap : ∀ u, (UrlGroup.setMaliciousFromMap malicious map u).Within (Lasts p) := by
    intro u
    unfold UrlGroup.setMaliciousFromMap
    cases map <;> infer_instance
  unfold UrlGroup.setMalicious
  infer_instance

instance (g : GroupRef) (algorithm : Option String) (map : StringMap) :
    (Client.flushBulk g algorithm map).Within (Lasts p) := by
  unfold Client.flushBulk
  infer_instance

end Lasts

/-! ## What is stored -/

section Store
variable {c : ClientRef} {g : GroupRef} {noError : List String}

theorem of_run_storeItemCodes {u : UrlRef} {item : Element} {s s' : ServerState}
    (h : (Client.storeItemCodes u noError item).run s = (.ok (), s')) :
    codes s' = match itemCode noError item with
      | some code => Function.update (codes s) u code
      | none => codes s := by
  rw [Client.storeItemCodes] at h
  obtain ⟨code, hcode, h₁⟩ := of_run_deref_bind h
  by_cases hmem : code ∈ noError
  · have hnone : itemCode noError item = none := by simp [itemCode, hcode, hmem]
    rw [if_neg (not_not_intro hmem)] at h₁
    obtain rfl : s = s' := congrArg Prod.snd h₁
    rw [hnone]
  · rw [if_pos hmem] at h₁
    obtain ⟨n, hn, h₂⟩ := Exec.of_run_orThrow_bind h₁
    obtain ⟨_, s₁, hmajor, h₃⟩ := Exec.of_run_bind_ok h₂
    obtain ⟨m, hm, h₄⟩ := Exec.of_run_orThrow_bind h₃
    have hsome : itemCode noError item = some (ErrorCode.ofNumber n) := by
      simp [itemCode, hcode, hmem, hn]
    have hminor : states s' = states s₁ := by
      have hkept := Exec.Within.of_run (R := StatesKept) h₄
      exact hkept
    have hstates := states_setMajorErrorCode u s n
    rw [hmajor] at hstates
    rw [hsome, codes_congr hminor]
    exact codes_update hstates

theorem of_run_storeItemCodes_minors {u : UrlRef} {item : Element} {s s' : ServerState}
    (h : (Client.storeItemCodes u noError item).run s = (.ok (), s')) :
    minors s' = match itemMinor noError item with
      | some minor => Function.update (minors s) u minor
      | none => minors s := by
  rw [Client.storeItemCodes] at h
  obtain ⟨code, hcode, h₁⟩ := of_run_deref_bind h
  by_cases hmem : code ∈ noError
  · have hnone : itemMinor noError item = none := by simp [itemMinor, hcode, hmem]
    rw [if_neg (not_not_intro hmem)] at h₁
    obtain rfl : s = s' := congrArg Prod.snd h₁
    rw [hnone]
  · rw [if_pos hmem] at h₁
    obtain ⟨n, hn, h₂⟩ := Exec.of_run_orThrow_bind h₁
    obtain ⟨_, s₁, hmajor, h₃⟩ := Exec.of_run_bind_ok h₂
    obtain ⟨m, hm, h₄⟩ := Exec.of_run_orThrow_bind h₃
    have hsome : itemMinor noError item = some m := by simp [itemMinor, hcode, hmem, hm]
    have hkept : minors s₁ = minors s := by
      obtain rfl : _ = s₁ := congrArg Prod.snd hmajor
      exact lasts_setVisit (p := UrlVisit.minorErrorCode) rfl
    obtain rfl : _ = s' := congrArg Prod.snd h₄
    rw [hsome, ← hkept]
    exact field_setVisit (p := UrlVisit.minorErrorCode) u _ s₁

theorem of_run_endItem_codes {item : Element} {s s' : ServerState} {r : Int × String × String}
    (h : (Client.endItem c g noError item).run s = (.ok r, s')) :
    codes s' = codesAfterItem s g noError item (codes s) ∧
      minors s' = minorsAfterItem s g noError item (minors s) := by
  rw [Client.endItem] at h
  obtain ⟨uri, huri, h₁⟩ := of_run_deref_bind h
  obtain ⟨u, s₁, hget, h₂⟩ := Exec.of_run_bind_ok h₁
  obtain ⟨rfl, hu⟩ := of_run_getUrl hget
  obtain ⟨processId, hid, h₃⟩ := Exec.of_run_orThrow_bind h₂
  simp only [Exec.run_gets_bind] at h₃
  obtain ⟨_, s₂, htime, h₄⟩ := Exec.of_run_bind_ok h₃
  obtain ⟨_, s₃, hcodes, h₅⟩ := Exec.of_run_bind_ok h₄
  obtain rfl : s₃ = s' := congrArg Prod.snd h₅
  have hnamed : namedUrl s₁ g item = some u := by
    simp only [namedUrl, huri, Option.bind_eq_bind, Option.bind_some]
    exact hu
  have hmajors : codes s₂ = codes s₁ := codes_congr (Exec.Within.of_run (R := StatesKept) htime)
  have hfinish := fun date => updateVisit_lasts (u := u) (p := UrlVisit.minorErrorCode)
    (f := fun x => { x with visitFinishTime := some date }) fun _ => rfl
  have hminors : minors s₂ = minors s₁ := by
    rw [Url.setVisitFinishTime] at htime
    exact Exec.Within.of_run (R := Lasts UrlVisit.minorErrorCode) htime
  constructor
  · rw [of_run_storeItemCodes hcodes, hmajors, codesAfterItem, hnamed]
    cases itemCode noError item <;> rfl
  · rw [of_run_storeItemCodes_minors hcodes, hminors, minorsAfterItem, hnamed]
    cases itemMinor noError item <;> rfl

/-- **What the items of a message make of the error codes.** -/
theorem of_run_endItems_codes : ∀ {items : List Element} {s s' : ServerState}
    {r : List Int × StringMap}, (Client.endItems c g noError items).run s = (.ok r, s') →
      codes s' = codesAfter s g noError items (codes s) ∧
        minors s' = minorsAfter s g noError items (minors s)
  | [], s, s', r, h => by
      obtain rfl : s = s' := congrArg Prod.snd h
      exact ⟨rfl, rfl⟩
  | item :: items, s, s', r, h => by
      rw [Client.endItems] at h
      obtain ⟨⟨processId, url, csv⟩, s₁, hitem, h⟩ := Exec.of_run_bind_ok h
      obtain ⟨⟨processIds₁, map₁⟩, s₂, hitems, h⟩ := Exec.of_run_bind_ok h
      obtain rfl : s₂ = s' := congrArg Prod.snd h
      have hkeep : Quiet s s₁ := Exec.Within.of_run hitem
      have hgroup : s₁.group = s.group := by rw [hkeep.rest]
      have hurl : s₁.url = s.url := by rw [hkeep.rest]
      obtain ⟨hcodes, hminors⟩ := of_run_endItem_codes hitem
      obtain ⟨hallCodes, hallMinors⟩ := of_run_endItems_codes hitems
      constructor
      · rw [hallCodes, hcodes, codesAfter, codesAfter_congr (by rw [hgroup]) hurl]
      · rw [hallMinors, hminors, minorsAfter, minorsAfter_congr (by rw [hgroup]) hurl]

instance (u : UrlRef) (item : Element) :
    (Client.storeItemCodes u noError item).Within (Lasts UrlVisit.visitStartTime) := by
  have hmajor := fun n => updateVisit_lasts (u := u) (p := UrlVisit.visitStartTime)
    (f := fun x => { x with majorErrorCode := ErrorCode.ofNumber n }) fun _ => rfl
  have hminor := fun n => updateVisit_lasts (u := u) (p := UrlVisit.visitStartTime)
    (f := fun x => { x with minorErrorCode := n }) fun _ => rfl
  unfold Client.storeItemCodes Url.setMajorErrorCode Url.setMinorErrorCode
  infer_instance

instance (item : Element) :
    (Client.endItem c g noError item).Within (Lasts UrlVisit.visitStartTime) := by
  have hfinish := fun u date => updateVisit_lasts (u := u) (p := UrlVisit.visitStartTime)
    (f := fun x => { x with visitFinishTime := some date }) fun _ => rfl
  unfold Client.endItem UrlGroup.getUrl Url.setVisitFinishTime
  infer_instance

instance (items : List Element) :
    (Client.endItems c g noError items).Within (Lasts UrlVisit.visitStartTime) := by
  induction items with
  | nil => unfold Client.endItems; infer_instance
  | cons item items ih =>
      unfold Client.endItems
      infer_instance

end Store

end CaptureHpc.Server
