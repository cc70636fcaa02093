/-
# `Client.GroupError` — the error code of a group

When a plugin has visited a group it calls `setErrorCode` with the code of every
URL, in the order of the URLs.  The code of the group should be that of the one
URL that failed, or the code for multiple errors if more than one did.

`setErrorCode` looks at the code it has and not at the one it is given, so a URL
that went well counts as a second error once another one failed.
-/
import CaptureHpc.Client.Visitor

namespace CaptureHpc.Client

open Java

namespace VisitEvent

/-- A new event, with the URLs that were added. -/
def create (identifier program : String) (urls : List VisitUrl) : VisitEvent :=
  { identifier, program, urls }

/-- The loop at the end of `visitGroup`. -/
def setErrorCodes (visitEvent : VisitEvent) : VisitEvent :=
  visitEvent.urls.foldl (fun e url => setErrorCode url.majorErrorCode e) visitEvent

/-! ## What the loop makes of the codes -/

/-- The loop over the codes alone. -/
def combine (codes : List ErrorCode) (visitEvent : VisitEvent) : VisitEvent :=
  codes.foldl (fun e error => setErrorCode error e) visitEvent

theorem setErrorCodes_eq (visitEvent : VisitEvent) :
    visitEvent.setErrorCodes = combine (visitEvent.urls.map VisitUrl.majorErrorCode) visitEvent := by
  rw [combine, List.foldl_map]
  rfl

/-- After an error, whatever comes makes multiple errors. -/
theorem combine_failed {codes : List ErrorCode} (hne : codes ≠ []) :
    ∀ {visitEvent : VisitEvent}, visitEvent.errorCode ≠ ErrorCode.ok →
      (combine codes visitEvent).errorCode = ErrorCode.multipleErrors := by
  induction codes with
  | nil => exact absurd rfl hne
  | cons error codes ih =>
      intro visitEvent hfailed
      have hset : (setErrorCode error visitEvent).errorCode = ErrorCode.multipleErrors := by
        rw [setErrorCode, if_pos hfailed]
      cases codes with
      | nil => exact hset
      | cons error' codes =>
          have hmultiple : ErrorCode.multipleErrors ≠ ErrorCode.ok := by decide
          exact ih (List.cons_ne_nil _ _) (hset ▸ hmultiple)

/-- The code of a group: from the first failure on only its length matters. -/
def lastCode : List ErrorCode → ErrorCode
  | [] => ErrorCode.ok
  | [error] => error
  | _ => ErrorCode.multipleErrors

/-- **The loop** passes over what went well until the first failure. -/
theorem combine_eq {codes : List ErrorCode} :
    ∀ {visitEvent : VisitEvent}, visitEvent.errorCode = ErrorCode.ok →
      (combine codes visitEvent).errorCode = lastCode (codes.dropWhile (· = ErrorCode.ok)) := by
  induction codes with
  | nil => exact fun hok => hok
  | cons error codes ih =>
      intro visitEvent hok
      have hset : (setErrorCode error visitEvent).errorCode = error := by
        rw [setErrorCode, if_neg (not_not.mpr hok)]
      show (combine codes (setErrorCode error visitEvent)).errorCode = _
      by_cases herror : error = ErrorCode.ok
      · rw [ih (hset.trans herror), List.dropWhile_cons_of_pos (by simp [herror])]
      · rw [List.dropWhile_cons_of_neg (by simp [herror])]
        cases codes with
        | nil => exact hset
        | cons error' codes =>
            refine combine_failed (List.cons_ne_nil _ _) ?_
            rw [hset]
            exact herror

/-! ## What it should make of them -/

/-- The codes of the URLs that failed. -/
def failures (codes : List ErrorCode) : List ErrorCode := codes.filter (· ≠ ErrorCode.ok)

/-- None failed, one did, or more than one. -/
def aggregate (codes : List ErrorCode) : ErrorCode := lastCode (failures codes)

/-- If just one URL failed, nothing comes behind it, or its code is that of multiple errors. -/
def FailsLast (codes : List ErrorCode) : Prop :=
  ∀ error, failures codes = [error] →
    codes.getLast? = some error ∨ error = ErrorCode.multipleErrors

/-- If just one URL failed, there is no other, or its code is that of multiple errors. -/
def FailsAlone (codes : List ErrorCode) : Prop :=
  ∀ error, failures codes = [error] → codes.length = 1 ∨ error = ErrorCode.multipleErrors

theorem failures_dropWhile (codes : List ErrorCode) :
    failures (codes.dropWhile (· = ErrorCode.ok)) = failures codes := by
  induction codes with
  | nil => rfl
  | cons error codes ih =>
      by_cases herror : error = ErrorCode.ok
      · rw [List.dropWhile_cons_of_pos (by simp [herror]), ih]
        simp [failures, herror]
      · rw [List.dropWhile_cons_of_neg (by simp [herror])]

theorem failures_cons {error : ErrorCode} (h : error ≠ ErrorCode.ok) (codes : List ErrorCode) :
    failures (error :: codes) = error :: failures codes :=
  List.filter_cons_of_pos (by simp [h])

/-- The code that comes last from the first failure on comes last of all. -/
theorem getLast?_of_dropWhile {codes : List ErrorCode} {error : ErrorCode} {rest : List ErrorCode}
    (h : codes.dropWhile (· = ErrorCode.ok) = error :: rest) :
    codes.getLast? = (error :: rest).getLast? := by
  have happend := List.takeWhile_append_dropWhile (p := (· = ErrorCode.ok)) (l := codes)
  rw [h] at happend
  rw [← happend, List.getLast?_append_of_ne_nil _ (List.cons_ne_nil _ _)]

theorem combine_iff {codes : List ErrorCode} {visitEvent : VisitEvent}
    (hok : visitEvent.errorCode = ErrorCode.ok) :
    (combine codes visitEvent).errorCode = aggregate codes ↔ FailsLast codes := by
  have hfailures := failures_dropWhile codes
  rw [combine_eq hok, aggregate, FailsLast, ← hfailures]
  cases hrest : codes.dropWhile (· = ErrorCode.ok) with
  | nil => simp [failures]
  | cons error rest =>
      have herror : error ≠ ErrorCode.ok := by
        have hhead := List.head?_dropWhile_not (· = ErrorCode.ok) codes
        rw [hrest] at hhead
        simpa using hhead
      have hlast := getLast?_of_dropWhile hrest
      rw [failures_cons herror, hlast]
      cases rest with
      | nil => simp [failures, lastCode]
      | cons error' rest =>
          cases hmore : failures (error' :: rest) with
          | nil =>
              -- all that follows went well, so a failure does not come last
              have hok : ∀ e ∈ error' :: rest, e = ErrorCode.ok := by
                simpa [failures] using hmore
              have hnot : (error :: error' :: rest).getLast? ≠ some error := by
                rw [List.getLast?_cons_cons]
                intro h
                exact herror (hok error (List.mem_of_getLast? h))
              simp only [lastCode, List.cons.injEq, and_true, forall_eq', hnot, false_or]
              exact eq_comm
          | cons error'' more => simp [lastCode]

/-! ## Groups -/

theorem errorCode_create (identifier program : String) (urls : List VisitUrl) :
    (create identifier program urls).setErrorCodes.errorCode =
      (combine (urls.map VisitUrl.majorErrorCode) (create identifier program urls)).errorCode :=
  congrArg VisitEvent.errorCode (setErrorCodes_eq _)

theorem failures_singleton {codes order : List ErrorCode} (h : order.Perm codes) {error : ErrorCode}
    (hone : failures codes = [error]) : failures order = [error] := by
  have hperm : (failures order).Perm (failures codes) := h.filter _
  rw [hone] at hperm
  exact List.perm_singleton.mp hperm

theorem aggregate_perm {codes order : List ErrorCode} (h : order.Perm codes) :
    aggregate order = aggregate codes := by
  have hlength : (failures order).length = (failures codes).length := (h.filter _).length_eq
  unfold aggregate
  cases hcodes : failures codes with
  | nil =>
      rw [hcodes] at hlength
      rw [List.length_eq_zero_iff.mp hlength]
  | cons error more =>
      cases more with
      | nil => rw [failures_singleton h hcodes]
      | cons error' more =>
          cases horder : failures order with
          | nil => simp [horder, hcodes] at hlength
          | cons e rest =>
              cases rest with
              | nil => simp [horder, hcodes] at hlength
              | cons e' rest => rfl

/-- A lone failure that comes first does not come last, but if it is alone. -/
theorem alone_of_first {error : ErrorCode} {codes : List ErrorCode}
    (hone : failures (error :: codes) = [error]) (hlast : (error :: codes).getLast? = some error) :
    codes = [] := by
  have herror : error ≠ ErrorCode.ok := by
    have hmem : error ∈ failures (error :: codes) := hone ▸ List.mem_singleton_self _
    simpa [failures] using hmem
  have hok : ∀ e ∈ codes, e = ErrorCode.ok := by
    rw [failures_cons herror] at hone
    simpa [failures] using (List.cons.inj hone).2
  cases codes with
  | nil => rfl
  | cons error' codes =>
      rw [List.getLast?_cons_cons] at hlast
      exact absurd (hok error (List.mem_of_getLast? hlast)) herror

theorem errorCode_eq_iff (identifier program : String) (urls : List VisitUrl) :
    (create identifier program urls).setErrorCodes.errorCode =
      aggregate (urls.map VisitUrl.majorErrorCode) ↔ FailsLast (urls.map VisitUrl.majorErrorCode) := by
  rw [errorCode_create]
  exact combine_iff rfl

theorem errorCode_order_iff (identifier program : String) (urls : List VisitUrl) :
    (∀ order : List VisitUrl, order.Perm urls →
        (create identifier program order).setErrorCodes.errorCode =
          aggregate (urls.map VisitUrl.majorErrorCode)) ↔
      FailsAlone (urls.map VisitUrl.majorErrorCode) := by
  constructor
  · intro hall error hone
    have hmem : error ∈ urls.map VisitUrl.majorErrorCode := by
      have hin : error ∈ failures (urls.map VisitUrl.majorErrorCode) :=
        hone ▸ List.mem_singleton_self _
      exact (List.mem_filter.mp hin).1
    obtain ⟨url, hurl, rfl⟩ := List.mem_map.mp hmem
    obtain ⟨front, back, rfl⟩ := List.append_of_mem hurl
    -- the order in which the URL that failed comes first
    have hperm : (url :: (front ++ back)).Perm (front ++ url :: back) := List.perm_middle.symm
    have hfirst := hall _ hperm
    rw [← aggregate_perm (hperm.map _), errorCode_eq_iff] at hfirst
    have hone' := failures_singleton (hperm.map VisitUrl.majorErrorCode) hone
    refine (hfirst _ hone').imp_left fun hlast => ?_
    have hnil := alone_of_first hone' hlast
    rw [List.map_eq_nil_iff, List.append_eq_nil_iff] at hnil
    rw [hnil.1, hnil.2]
    rfl
  · intro halone order hperm
    rw [← aggregate_perm (hperm.map _), errorCode_eq_iff]
    intro error hone
    refine (halone error (failures_singleton (hperm.map _).symm hone)).imp_left fun hlength => ?_
    rw [← (hperm.map VisitUrl.majorErrorCode).length_eq] at hlength
    obtain ⟨e, he⟩ := List.length_eq_one_iff.mp hlength
    rw [he] at hone ⊢
    have hmem : error ∈ failures [e] := hone ▸ List.mem_singleton_self _
    rw [List.mem_singleton.mp (List.mem_filter.mp hmem).1]
    rfl

/-- **The code of a group is right just if a lone failure comes last**, and in every order of the
URLs just if a lone failure is alone. -/
theorem errorCode_iff (identifier program : String) (urls : List VisitUrl) :
    ((create identifier program urls).setErrorCodes.errorCode =
        aggregate (urls.map VisitUrl.majorErrorCode) ↔
      FailsLast (urls.map VisitUrl.majorErrorCode)) ∧
    ((∀ order : List VisitUrl, order.Perm urls →
        (create identifier program order).setErrorCodes.errorCode =
          aggregate (urls.map VisitUrl.majorErrorCode)) ↔
      FailsAlone (urls.map VisitUrl.majorErrorCode)) :=
  ⟨errorCode_eq_iff identifier program urls, errorCode_order_iff identifier program urls⟩

/-- A URL with that code. -/
def ended (majorErrorCode : ErrorCode) : VisitUrl :=
  { url := [97], program := "iexplore", visitTime := 10, majorErrorCode }

/-- A process error, and then a URL that goes well.  The server retries after a process error, and
takes multiple errors as final. -/
theorem one_failure_counts_twice :
    ¬ (create "1" "iexplore" [ended 0x10000111, ended 0]).setErrorCodes.errorCode =
        aggregate ([ended 0x10000111, ended 0].map VisitUrl.majorErrorCode) ∧
      (create "1" "iexplore" [ended 0x10000111, ended 0]).setErrorCodes.errorCode = 0x10000113 ∧
      Server.Client.isErrorToRetry (showInt (0x10000111 : ErrorCode).toInt) = true ∧
      Server.Client.isErrorToRetry (showInt (0x10000113 : ErrorCode).toInt) = false := by
  refine ⟨?_, ?_, ?_, ?_⟩
  · decide
  · decide
  · decide
  · decide

end VisitEvent

end CaptureHpc.Client
