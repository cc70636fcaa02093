/-
# `Server.Operation` — an operation in the database

The lines of an input file become rows of the database, one for each URL of the
operation, and events, from which `UrlsController` makes the URLs that are
visited.  The status of a row is written by the URL that was made for it.

A row is there before its URL is, and not every event makes one: a line that is
no address is only logged, and an address that is in the queue already is
dropped.  Such a row never gets a status (`Dropped.run`).
`operation_complete` says when all rows have one at the end.
-/
import CaptureHpc.Server.OneUrl
import CaptureHpc.Server.System
import CaptureHpc.Server.UrlFactory

namespace CaptureHpc.Server

open Java

structure OperationConfig extends UrlConfig where
  /-- `import_check` is not "false". -/
  check : Bool
  /-- When the database takes two addresses for the same. -/
  sameUrl : String → String → Bool

structure OperationState where
  server : ServerState
  /-- URLs from here on are not created yet. -/
  created : UrlRef := 0
  /-- `url`: the id and the address. -/
  urlTable : List (String × String)
  /-- The `url_id` of the rows of `url_operation` for the operation. -/
  rows : List String := []
  /-- The URLs that were taken from the queue. -/
  taken : List UrlRef := []

/-- A call of a method of `Url`. -/
inductive UrlCall where
  | setVisitStartTime (time : Option String)
  | setVisitFinishTime (time : Option String)
  | setMalicious (malicious : Bool)
  | setMajorErrorCode (majorErrorCode : Int)
  | setMinorErrorCode (minorErrorCode : Int)
  | writeEventToLog (event : String)
  | closeEventLog
  | setUrlState (newState : UrlState)

def UrlCall.run (u : UrlRef) : UrlCall → Action Unit
  | .setVisitStartTime time => Url.setVisitStartTime u time
  | .setVisitFinishTime time => Url.setVisitFinishTime u time
  | .setMalicious malicious => Url.setMalicious u malicious
  | .setMajorErrorCode majorErrorCode => Url.setMajorErrorCode u majorErrorCode
  | .setMinorErrorCode minorErrorCode => Url.setMinorErrorCode u minorErrorCode
  | .writeEventToLog event => Url.writeEventToLog u event
  | .closeEventLog => Url.closeEventLog u
  | .setUrlState newState => Url.setUrlState u newState

inductive OperationAction where
  /-- A line of the file, with the answers of the database: the id that the address has in `url`,
  and the key of a new row; and with its place in the queue. -/
  | importLine (line : String) (found : Option String) (key : String) (position : Nat)
  | takeUrl
  /-- A method of a URL that was taken. -/
  | call (u : UrlRef) (call : UrlCall)

/-- The line is not empty and no comment. -/
def isUrlLine (line : String) : Bool := line ≠ "" && (trim line).toList.head? ≠ some '#'

namespace OperationState

/-! ## `UrlsController` -/

/-- A new URL. -/
def newUrl (s : OperationState) (url : Url) : OperationState :=
  { s with
    created := s.created + 1
    server := { s.server with
      url := Function.update s.server.url s.created url
      store := { s.server.store with visit := Function.update s.server.store.visit s.created {} } } }

/-- `addUrlEvent`: a line that gives no URL goes to the error log, or ends the import with its
exception; nothing else happens to it. -/
def addUrlEvent (cfg : OperationConfig) (s : OperationState) (id line : String) (position : Nat) :
    OperationState :=
  match UrlFactory.getUrl cfg.toUrlConfig id (toLowerCase line) with
  | some url =>
      let s' := s.newUrl url
      { s' with server := ((UrlsController.addUrl s.created position).run s'.server).2 }
  | none => s

/-! ## `MySQLDatabase` -/

def insertUrl (s : OperationState) (key line : String) : OperationState :=
  { s with urlTable := s.urlTable ++ [(key, line)] }

def insertUrlOperation (s : OperationState) (id : String) : OperationState :=
  { s with rows := s.rows ++ [id] }

/-- A key that the table does not have. -/
def fresh (s : OperationState) (key : String) : Bool := key ∉ s.urlTable.map Prod.fst

/-- The loop of `loadInputUrlFromFile` for one line; `none` if the database does not answer so. -/
def importLine (cfg : OperationConfig) (s : OperationState) (line : String) (found : Option String)
    (key : String) (position : Nat) : Option OperationState :=
  if !isUrlLine line then some s
  else
    let line := trim line
    if !cfg.check then
      if s.fresh key then
        some (((s.insertUrl key line).insertUrlOperation key).addUrlEvent cfg key line position)
      else none
    else
      match found with
      | some id =>
          if s.urlTable.any fun row => row.1 = id && cfg.sameUrl row.2 line then
            if id ∈ s.rows then some s
            else some ((s.insertUrlOperation id).addUrlEvent cfg id line position)
          else none
      | none =>
          if s.fresh key && !s.urlTable.any fun row => cfg.sameUrl row.2 line then
            if key ∈ s.rows then some (s.insertUrl key line)
            else some (((s.insertUrl key line).insertUrlOperation key).addUrlEvent cfg key line position)
          else none

/-- `setStatus` was called for the row. -/
def hasStatus (s : OperationState) (id : String) : Bool :=
  s.server.store.database.any fun
    | .setStatus urlid _ _ => urlid = id
    | _ => false

/-- `resumeLastOperation`: the URLs of the operation that have no status. -/
def resumeLastOperation (s : OperationState) : List (String × String) :=
  (s.rows.filter fun id => !s.hasStatus id).flatMap fun id => s.urlTable.filter fun row => row.1 = id

/-! ## Steps -/

/-- `takeUrl`. -/
def takeUrl (s : OperationState) : Option OperationState :=
  match s.server.urlQueue with
  | u :: urlQueue => some { s with server := { s.server with urlQueue }, taken := s.taken ++ [u] }
  | [] => none

/-- A method of a URL; what it throws is caught elsewhere. -/
def callUrl (s : OperationState) (u : UrlRef) (call : UrlCall) : Option OperationState :=
  if u ∈ s.taken then some { s with server := ((call.run u).run s.server).2 } else none

def next (cfg : OperationConfig) (s : OperationState) : OperationAction → Option OperationState
  | .importLine line found key position => s.importLine cfg line found key position
  | .takeUrl => s.takeUrl
  | .call u call => s.callUrl u call

/-- The operation is new, and `url` may have addresses of earlier ones. -/
def machine (cfg : OperationConfig) : Machine OperationState OperationAction where
  init s := ∃ server urlTable, s = { server, urlTable } ∧ server.config.database = true ∧
    server.store.database = [] ∧ server.urlQueue = []
  next := next cfg

/-! ## What is to hold -/

/-- The visit of a URL has come to an end. -/
def Finished (s : OperationState) (u : UrlRef) : Prop :=
  (s.server.visit u).urlState = .visited ∨ (s.server.visit u).urlState = .error

/-- The queue is empty, and every URL that was taken from it has finished. -/
def Done (s : OperationState) : Prop :=
  s.server.urlQueue = [] ∧ ∀ u ∈ s.taken, s.Finished u

/-- Every row has a status, and there is nothing to resume. -/
def Complete (s : OperationState) : Prop :=
  (∀ id ∈ s.rows, s.hasStatus id = true) ∧ s.resumeLastOperation = []

/-- The row that is inserted for a line. -/
def newRow (cfg : OperationConfig) (s : OperationState) (line : String) (found : Option String)
    (key : String) : Option String :=
  if !isUrlLine line then none
  else if !cfg.check then some key
  else if found.getD key ∈ s.rows then none
  else some (found.getD key)

/-- A URL that is visited in the same way is in the queue. -/
def isQueued (s : OperationState) (url : Url) : Bool :=
  s.server.urlQueue.any fun u₁ =>
    equalsIgnoreCase (Url.getEscapedUrl url) (Url.getEscapedUrl (s.server.url u₁)) &&
      url.clientProgram == (s.server.url u₁).clientProgram &&
        url.visitTime == (s.server.url u₁).visitTime

/-- A line with a new row gives a URL that is not in the queue. -/
def Accepted (cfg : OperationConfig) (s : OperationState) : OperationAction → Prop
  | .importLine line found key _ => ∀ id ∈ s.newRow cfg line found key,
      ∃ url ∈ UrlFactory.getUrl cfg.toUrlConfig id (toLowerCase (trim line)), s.isQueued url = false
  | _ => True

/-- A URL that finishes has the times, and in VISITED the verdict, that are stored. -/
def Storing (s : OperationState) : OperationAction → Prop
  | .call u (.setUrlState .visited) =>
      (s.server.visit u).visitStartTime.isSome = true ∧
        (s.server.visit u).visitFinishTime.isSome = true ∧ (s.server.visit u).malicious.isSome = true
  | .call u (.setUrlState .error) => (s.server.visit u).visitStartTime.isSome = true
  | _ => True

variable {cfg : OperationConfig} {s s' : OperationState}

/-! ## What the steps do -/

/-- In the queue or taken from it. -/
def Live (s : OperationState) (u : UrlRef) : Prop := u ∈ s.server.urlQueue ∨ u ∈ s.taken

/-- A URL that was made is put into the queue. -/
def enqueue (s : OperationState) (u : UrlRef) (position : Nat) : OperationState :=
  { s with server := { s.server with
      urlQueue := s.server.urlQueue.take position ++ u :: s.server.urlQueue.drop position } }

theorem newUrl_url (url : Url) {u : UrlRef} (hu : u < s.created) :
    (s.newUrl url).server.url u = s.server.url u := Function.update_of_ne (Nat.ne_of_lt hu) ..

theorem newUrl_visit (url : Url) {u : UrlRef} (hu : u < s.created) :
    (s.newUrl url).server.visit u = s.server.visit u := Function.update_of_ne (Nat.ne_of_lt hu) ..

theorem newUrl_self (url : Url) : (s.newUrl url).server.url s.created = url :=
  Function.update_self ..

/-- What becomes of an event. -/
theorem addUrlEvent_cases (cfg : OperationConfig) (hqueue : ∀ u ∈ s.server.urlQueue, u < s.created) (id line : String)
    (position : Nat) :
    (UrlFactory.getUrl cfg.toUrlConfig id (toLowerCase line) = none ∧
      s.addUrlEvent cfg id line position = s) ∨
    ∃ url, UrlFactory.getUrl cfg.toUrlConfig id (toLowerCase line) = some url ∧
      ((s.isQueued url = true ∧ s.addUrlEvent cfg id line position = s.newUrl url) ∨
        (s.isQueued url = false ∧
          s.addUrlEvent cfg id line position = (s.newUrl url).enqueue s.created position)) := by
  unfold addUrlEvent
  cases hurl : UrlFactory.getUrl cfg.toUrlConfig id (toLowerCase line) with
  | none => exact .inl ⟨rfl, rfl⟩
  | some url =>
      refine .inr ⟨url, rfl, ?_⟩
      have hqueued : (s.newUrl url).isQueued url = s.isQueued url := by
        rw [isQueued, isQueued, Bool.eq_iff_iff, List.any_eq_true, List.any_eq_true]
        refine exists_congr fun u => and_congr_right fun hu => ?_
        rw [newUrl_url url (hqueue u hu)]
      have hrun : (UrlsController.inUrlQueue s.created).run (s.newUrl url).server =
          (.ok (s.isQueued url), (s.newUrl url).server) := by
        rw [← hqueued]
        unfold UrlsController.inUrlQueue isQueued
        simp only [Exec.run_gets_bind, newUrl_self]
        rfl
      unfold UrlsController.addUrl
      simp only [Exec.run_bind_ok hrun]
      cases s.isQueued url with
      | true => exact .inl ⟨rfl, rfl⟩
      | false => exact .inr ⟨rfl, rfl⟩

/-- A line leaves everything, except perhaps `url`, as it is, or it has a new row and an event. -/
theorem importLine_cases {line : String} {found : Option String} {key : String} {position : Nat}
    (hknown : ∀ id ∈ s.rows, id ∈ s.urlTable.map Prod.fst)
    (h : s.importLine cfg line found key position = some s') :
    ∃ urlTable, s.urlTable ⊆ urlTable ∧
      ((s.newRow cfg line found key = none ∧ s' = { s with urlTable }) ∨
        ∃ id, s.newRow cfg line found key = some id ∧ id ∉ s.rows ∧ id ∈ urlTable.map Prod.fst ∧
          s' = (({ s with urlTable } : OperationState).insertUrlOperation id).addUrlEvent cfg id
            (trim line) position) := by
  have hnew : ∀ {key : String}, s.fresh key = true → key ∉ s.rows := by
    intro key hfresh hrow
    exact of_decide_eq_true hfresh (hknown key hrow)
  have hadded : ∀ row, s.urlTable ⊆ s.urlTable ++ [row] := fun row => List.subset_append_left _ _
  have hkey : ∀ row : String × String, row.1 ∈ (s.urlTable ++ [row]).map Prod.fst := fun row =>
    List.mem_map_of_mem (List.mem_append_right _ (List.mem_singleton.mpr rfl))
  unfold importLine at h
  unfold newRow
  split at h
  · next hline =>
      obtain rfl := Option.some.inj h
      exact ⟨s.urlTable, List.Subset.refl _, .inl ⟨if_pos hline, rfl⟩⟩
  · next hline =>
      rw [if_neg hline]
      simp only at h
      split at h
      · next hcheck =>
          -- without the check there is always a new row
          rw [if_pos hcheck]
          split_ifs at h with hfresh
          obtain rfl := Option.some.inj h
          exact ⟨_, hadded _, .inr ⟨key, rfl, hnew hfresh, hkey (key, trim line), rfl⟩⟩
      · next hcheck =>
          rw [if_neg hcheck]
          cases found with
          | some id =>
              simp only at h
              split_ifs at h with hanswer hrow
              · obtain rfl := Option.some.inj h
                exact ⟨s.urlTable, List.Subset.refl _, .inl ⟨if_pos hrow, rfl⟩⟩
              · obtain rfl := Option.some.inj h
                obtain ⟨row, hmem, hsame⟩ := List.any_eq_true.mp hanswer
                rw [Bool.and_eq_true, decide_eq_true_eq] at hsame
                have hid : id ∈ s.urlTable.map Prod.fst := by
                  rw [← hsame.1]
                  exact List.mem_map_of_mem hmem
                exact ⟨s.urlTable, List.Subset.refl _,
                  .inr ⟨id, if_neg hrow, hrow, hid, rfl⟩⟩
          | none =>
              simp only at h
              split_ifs at h with hanswer hrow
              · obtain rfl := Option.some.inj h
                exact ⟨_, hadded _, .inl ⟨if_pos hrow, rfl⟩⟩
              · obtain rfl := Option.some.inj h
                exact ⟨_, hadded _, .inr ⟨key, if_neg hrow, hrow, hkey (key, trim line), rfl⟩⟩

/-! ## The invariant -/

structure Inv (s : OperationState) : Prop where
  database : s.server.config.database = true
  live : ∀ u, s.Live u → u < s.created ∧ (s.server.url u).id ∈ s.rows
  waiting : ∀ u ∈ s.server.urlQueue, (s.server.visit u).urlState = .none ∧ u ∉ s.taken
  nodup : s.server.urlQueue.Nodup
  known : ∀ id ∈ s.rows, id ∈ s.urlTable.map Prod.fst
  /-- A status comes from a URL that was taken. -/
  stored : ∀ id, s.hasStatus id = true → ∃ u ∈ s.taken, (s.server.url u).id = id

/-- The row has a status, or there is a URL for it that may still give it one. -/
def Covered (s : OperationState) (id : String) : Prop :=
  s.hasStatus id = true ∨ ∃ u, (s.server.url u).id = id ∧
    (u ∈ s.server.urlQueue ∨ u ∈ s.taken ∧ ¬ s.Finished u)

/-- There is no URL for the row. -/
def Dropped (s : OperationState) (id : String) : Prop :=
  id ∈ s.rows ∧ ∀ u, s.Live u → (s.server.url u).id ≠ id

/-! ### A line -/

theorem Inv.insert {urlTable : List (String × String)} {id : String} (hs : s.Inv)
    (htable : s.urlTable ⊆ urlTable) (hid : id ∈ urlTable.map Prod.fst) :
    (({ s with urlTable } : OperationState).insertUrlOperation id).Inv := by
  refine ⟨hs.database, fun u hu => ?_, hs.waiting, hs.nodup, fun x hx => ?_, hs.stored⟩
  · obtain ⟨hcreated, hrow⟩ := hs.live u hu
    exact ⟨hcreated, List.mem_append_left _ hrow⟩
  · obtain hold | hnew := List.mem_append.mp hx
    · exact List.map_subset _ htable (hs.known x hold)
    · rw [List.mem_singleton.mp hnew]
      exact hid

theorem Inv.newUrl (hs : s.Inv) (url : Url) : (s.newUrl url).Inv := by
  refine ⟨hs.database, fun u hu => ?_, fun u hu => ?_, hs.nodup, hs.known, fun id hid => ?_⟩
  · obtain ⟨hcreated, hrow⟩ := hs.live u hu
    rw [newUrl_url url hcreated]
    exact ⟨Nat.lt_succ_of_lt hcreated, hrow⟩
  · rw [newUrl_visit url (hs.live u (.inl hu)).1]
    exact hs.waiting u hu
  · obtain ⟨u, hu, hurl⟩ := hs.stored id hid
    refine ⟨u, hu, ?_⟩
    rw [newUrl_url url (hs.live u (.inr hu)).1]
    exact hurl

theorem mem_enqueue {u v : UrlRef} {position : Nat} :
    v ∈ (s.enqueue u position).server.urlQueue ↔ v = u ∨ v ∈ s.server.urlQueue := by
  show v ∈ s.server.urlQueue.take position ++ u :: s.server.urlQueue.drop position ↔ _
  rw [List.perm_middle.mem_iff, List.mem_cons, List.take_append_drop]

theorem Inv.enqueue (hs : s.Inv) {url : Url} (hid : url.id ∈ s.rows) (position : Nat) :
    ((s.newUrl url).enqueue s.created position).Inv := by
  have hnew := hs.newUrl url
  have hfresh : ∀ u, s.Live u → u ≠ s.created := fun u hu => Nat.ne_of_lt (hs.live u hu).1
  refine ⟨hnew.database, fun u hu => ?_, fun u hu => ?_, ?_, hnew.known, hnew.stored⟩
  · obtain hqueue | htaken := hu
    · obtain rfl | hqueue := mem_enqueue.mp hqueue
      · refine ⟨Nat.lt_succ_self _, ?_⟩
        show ((s.newUrl url).server.url s.created).id ∈ _
        rw [newUrl_self]
        exact hid
      · exact hnew.live u (.inl hqueue)
    · exact hnew.live u (.inr htaken)
  · obtain rfl | hqueue := mem_enqueue.mp hu
    · refine ⟨?_, fun htaken => hfresh _ (.inr htaken) rfl⟩
      show (Function.update s.server.store.visit s.created {} s.created).urlState = _
      rw [Function.update_self]
    · exact hnew.waiting u hqueue
  · show (s.server.urlQueue.take position ++ s.created :: s.server.urlQueue.drop position).Nodup
    rw [List.perm_middle.nodup_iff, List.take_append_drop, List.nodup_cons]
    exact ⟨fun hmem => hfresh _ (.inl hmem) rfl, hs.nodup⟩

theorem Inv.addUrlEvent (cfg : OperationConfig) (hs : s.Inv) {id : String} (hid : id ∈ s.rows) (line : String)
    (position : Nat) : (s.addUrlEvent cfg id line position).Inv := by
  have hqueue : ∀ u ∈ s.server.urlQueue, u < s.created := fun u hu => (hs.live u (.inl hu)).1
  obtain ⟨-, h⟩ | ⟨url, hurl, ⟨-, h⟩ | ⟨-, h⟩⟩ :=
    addUrlEvent_cases cfg hqueue id line position
  · rw [h]
    exact hs
  · rw [h]
    exact hs.newUrl url
  · rw [h]
    refine hs.enqueue ?_ position
    rw [UrlFactory.id_getUrl hurl]
    exact hid

theorem Inv.importLine (hs : s.Inv) {line : String} {found : Option String} {key : String}
    {position : Nat} (h : s.importLine cfg line found key position = some s') : s'.Inv := by
  obtain ⟨urlTable, htable, ⟨-, hsame⟩ | ⟨id, -, -, hid, hevent⟩⟩ := importLine_cases hs.known h
  · rw [hsame]
    exact ⟨hs.database, hs.live, hs.waiting, hs.nodup, fun id hid =>
      List.map_subset _ htable (hs.known id hid), hs.stored⟩
  · rw [hevent]
    have hrow : id ∈ (({ s with urlTable } : OperationState).insertUrlOperation id).rows :=
      List.mem_append_right _ (List.mem_singleton.mpr rfl)
    exact Inv.addUrlEvent cfg (hs.insert htable hid) hrow (trim line) position

/-! ### A URL that is taken -/

/-- The head of the queue is taken. -/
theorem takeUrl_cases (h : s.takeUrl = some s') : ∃ u urlQueue, s.server.urlQueue = u :: urlQueue ∧
    s' = { s with server := { s.server with urlQueue }, taken := s.taken ++ [u] } := by
  unfold takeUrl at h
  cases hqueue : s.server.urlQueue with
  | nil =>
      rw [hqueue] at h
      cases h
  | cons u urlQueue =>
      rw [hqueue] at h
      exact ⟨u, urlQueue, rfl, (Option.some.inj h).symm⟩

theorem live_takeUrl (h : s.takeUrl = some s') (u : UrlRef) : s'.Live u ↔ s.Live u := by
  obtain ⟨v, urlQueue, hqueue, rfl⟩ := takeUrl_cases h
  show u ∈ urlQueue ∨ u ∈ s.taken ++ [v] ↔ u ∈ s.server.urlQueue ∨ u ∈ s.taken
  rw [hqueue, List.mem_append, List.mem_singleton, List.mem_cons]
  tauto

theorem Inv.takeUrl (hs : s.Inv) (h : s.takeUrl = some s') : s'.Inv := by
  have hlive := live_takeUrl h
  obtain ⟨v, urlQueue, hqueue, rfl⟩ := takeUrl_cases h
  have hnodup := hs.nodup
  rw [hqueue, List.nodup_cons] at hnodup
  refine ⟨hs.database, fun u hu => hs.live u ((hlive u).mp hu), fun u hu => ?_, hnodup.2, hs.known,
    fun id hid => ?_⟩
  · obtain ⟨hstate, htaken⟩ := hs.waiting u (by rw [hqueue]; exact List.mem_cons_of_mem v hu)
    refine ⟨hstate, fun hmem => ?_⟩
    obtain hold | hnew := List.mem_append.mp hmem
    · exact htaken hold
    · obtain rfl := List.mem_singleton.mp hnew
      exact hnodup.1 hu
  · obtain ⟨u, hu, hurl⟩ := hs.stored id hid
    exact ⟨u, List.mem_append_left _ hu, hurl⟩

/-! ### A method of a URL -/

instance (u : UrlRef) (call : UrlCall) : (call.run u).Within (Touches u) := by
  cases call <;> unfold UrlCall.run <;> infer_instance

theorem callUrl_cases {u : UrlRef} {call : UrlCall} (h : s.callUrl u call = some s') :
    u ∈ s.taken ∧ s' = { s with server := ((call.run u).run s.server).2 } ∧
      Touches u s.server s'.server := by
  unfold callUrl at h
  split_ifs at h with htaken
  obtain rfl := Option.some.inj h
  exact ⟨htaken, rfl, Exec.Within.post s.server⟩

theorem hasStatus_iff {id : String} : s.hasStatus id = true ↔ StatusStored s.server id := by
  unfold hasStatus StatusStored
  rw [List.any_eq_true]
  constructor
  · rintro ⟨call, hmem, hcall⟩
    cases call with
    | setStatus urlid status time =>
        obtain rfl := of_decide_eq_true hcall
        exact ⟨status, time, hmem⟩
    | storeEvent | storeErrorUrl => cases hcall
  · rintro ⟨status, time, hmem⟩
    exact ⟨_, hmem, decide_eq_true rfl⟩

theorem Inv.callUrl (hs : s.Inv) {u : UrlRef} {call : UrlCall} (h : s.callUrl u call = some s') :
    s'.Inv := by
  obtain ⟨htaken, hs', htouches⟩ := callUrl_cases h
  have hrest := htouches.rest
  have hqueue : s'.server.urlQueue = s.server.urlQueue := by rw [hrest]
  have hurl : s'.server.url = s.server.url := by rw [hrest]
  have hconfig : s'.server.config = s.server.config := by rw [hrest]
  have hsame : s'.taken = s.taken ∧ s'.rows = s.rows ∧ s'.created = s.created ∧
      s'.urlTable = s.urlTable := by
    rw [hs']
    exact ⟨rfl, rfl, rfl, rfl⟩
  obtain ⟨htakenEq, hrows, hcreated, htable⟩ := hsame
  refine ⟨hconfig ▸ hs.database, fun v hv => ?_, fun v hv => ?_, hqueue ▸ hs.nodup, ?_, ?_⟩
  · unfold Live at hv
    rw [hqueue, htakenEq] at hv
    rw [hcreated, hurl, hrows]
    exact hs.live v hv
  · rw [hqueue] at hv
    obtain ⟨hstate, hwaiting⟩ := hs.waiting v hv
    rw [htakenEq, htouches.others v fun heq => hwaiting (heq ▸ htaken)]
    exact ⟨hstate, hwaiting⟩
  · rw [hrows, htable]
    exact hs.known
  · intro id hid
    rw [htakenEq, hurl]
    obtain hold | rfl := htouches.of_statusStored (hasStatus_iff.mp hid)
    · exact hs.stored id (hasStatus_iff.mpr hold)
    · exact ⟨u, htaken, rfl⟩

/-- **One step.** -/
theorem Inv.next (hs : s.Inv) {a : OperationAction} (h : s.next cfg a = some s') : s'.Inv := by
  cases a with
  | importLine line found key position => exact hs.importLine h
  | takeUrl => exact hs.takeUrl h
  | call u call => exact hs.callUrl h

/-! ## Rows that will have a status -/

/-- The URL of a row is there and unfinished in the next state too. -/
theorem Covered.mono {id : String} (h : s.Covered id)
    (hstatus : s.hasStatus id = true → s'.hasStatus id = true)
    (hwaiting : ∀ u ∈ s.server.urlQueue, s'.server.url u = s.server.url u ∧ u ∈ s'.server.urlQueue)
    (htaken : ∀ u ∈ s.taken, s'.server.url u = s.server.url u ∧ u ∈ s'.taken ∧
      s'.server.visit u = s.server.visit u) : s'.Covered id := by
  obtain hstored | ⟨u, hid, hqueue | ⟨hmem, hunfinished⟩⟩ := h
  · exact .inl (hstatus hstored)
  · obtain ⟨hurl, hqueue'⟩ := hwaiting u hqueue
    refine .inr ⟨u, ?_, .inl hqueue'⟩
    rw [hurl]
    exact hid
  · obtain ⟨hurl, hmem', hvisit⟩ := htaken u hmem
    refine .inr ⟨u, ?_, .inr ⟨hmem', ?_⟩⟩
    · rw [hurl]
      exact hid
    · unfold Finished
      rw [hvisit]
      exact hunfinished

theorem Covered.enqueue (hs : s.Inv) {id : String} (h : s.Covered id) (url : Url) (position : Nat) :
    ((s.newUrl url).enqueue s.created position).Covered id := by
  refine h.mono (fun hstored => hstored) (fun u hu => ?_) fun u hu => ?_
  · exact ⟨newUrl_url url (hs.live u (.inl hu)).1, mem_enqueue.mpr (.inr hu)⟩
  · have hcreated := (hs.live u (.inr hu)).1
    exact ⟨newUrl_url url hcreated, hu, newUrl_visit url hcreated⟩

/-- A line that is accepted. -/
theorem covered_importLine (hs : s.Inv) (hall : ∀ id ∈ s.rows, s.Covered id) {line : String}
    {found : Option String} {key : String} {position : Nat}
    (hok : s.Accepted cfg (.importLine line found key position))
    (h : s.importLine cfg line found key position = some s') : ∀ id ∈ s'.rows, s'.Covered id := by
  obtain ⟨urlTable, htable, ⟨-, hsame⟩ | ⟨id, hrow, -, hid, hevent⟩⟩ := importLine_cases hs.known h
  · rw [hsame]
    exact hall
  · obtain ⟨url, hurl, hqueued⟩ := hok id hrow
    let t := ({ s with urlTable } : OperationState).insertUrlOperation id
    have ht : t.Inv := hs.insert htable hid
    have hqueue : ∀ u ∈ t.server.urlQueue, u < t.created := fun u hu => (ht.live u (.inl hu)).1
    have hpushed : s' = (t.newUrl url).enqueue t.created position := by
      rw [hevent]
      obtain ⟨hnone, -⟩ | ⟨url', hurl', ⟨hbusy, -⟩ | ⟨-, hnew⟩⟩ :=
        addUrlEvent_cases cfg hqueue id (trim line) position
      · exact nomatch hnone.symm.trans hurl
      · obtain rfl := Option.some.inj (hurl'.symm.trans hurl)
        exact nomatch hbusy.symm.trans hqueued
      · obtain rfl := Option.some.inj (hurl'.symm.trans hurl)
        exact hnew
    rw [hpushed]
    intro x hx
    obtain hold | hnew := List.mem_append.mp (show x ∈ s.rows ++ [id] from hx)
    · have hcovered : t.Covered x := hall x hold
      exact hcovered.enqueue ht url position
    · refine .inr ⟨t.created, ?_, .inl (mem_enqueue.mpr (.inl rfl))⟩
      show ((t.newUrl url).server.url t.created).id = x
      rw [newUrl_self, UrlFactory.id_getUrl hurl, List.mem_singleton.mp hnew]

theorem covered_takeUrl (hs : s.Inv) {id : String} (hid : s.Covered id)
    (h : s.takeUrl = some s') : s'.Covered id := by
  obtain ⟨v, urlQueue, hqueue, rfl⟩ := takeUrl_cases h
  obtain hstored | ⟨u, hurl, hmem | ⟨htaken, hunfinished⟩⟩ := hid
  · exact .inl hstored
  · rw [hqueue] at hmem
    obtain rfl | hrest := List.mem_cons.mp hmem
    · -- it has not been visited yet
      refine .inr ⟨u, hurl, .inr ⟨List.mem_append_right _ (List.mem_singleton.mpr rfl), ?_⟩⟩
      have hstate := (hs.waiting u (by rw [hqueue]; exact List.mem_cons_self)).1
      rintro (hvisited | herror)
      · exact nomatch hstate.symm.trans hvisited
      · exact nomatch hstate.symm.trans herror
    · exact .inr ⟨u, hurl, .inl hrest⟩
  · exact .inr ⟨u, hurl, .inr ⟨List.mem_append_left _ htaken, hunfinished⟩⟩

/-- Only `setUrlState` changes the state of a URL. -/
theorem urlState_run (u : UrlRef) {call : UrlCall} (hcall : ∀ newState, call ≠ .setUrlState newState)
    (server : ServerState) :
    (((call.run u).run server).2.visit u).urlState = (server.visit u).urlState := by
  have hkept : ∀ {x : Action Unit}, x.Within StatesKept →
      ((x.run server).2.visit u).urlState = (server.visit u).urlState :=
    fun h => congrArg Prod.fst (congrFun (h.post server) u)
  cases call with
  | setVisitStartTime time => exact hkept (x := Url.setVisitStartTime u time) inferInstance
  | setVisitFinishTime time => exact hkept (x := Url.setVisitFinishTime u time) inferInstance
  | setMalicious malicious => exact hkept (x := Url.setMalicious u malicious) inferInstance
  | setMajorErrorCode n =>
      have hstates := congrFun (states_setMajorErrorCode u server n) u
      rw [Function.update_self] at hstates
      exact congrArg Prod.fst hstates
  | setMinorErrorCode n => exact hkept (x := Url.setMinorErrorCode u n) inferInstance
  | writeEventToLog event => exact hkept (x := Url.writeEventToLog u event) inferInstance
  | closeEventLog => exact hkept (x := Url.closeEventLog u) inferInstance
  | setUrlState newState => exact absurd rfl (hcall newState)

/-- A method after which the URL has finished, although it had not before, has stored a status. -/
theorem hasStatus_of_finished (hs : s.Inv) {u : UrlRef} {call : UrlCall}
    (hok : s.Storing (.call u call)) (h : s.callUrl u call = some s') (hbefore : ¬ s.Finished u)
    (hafter : s'.Finished u) : s'.hasStatus (s.server.url u).id = true := by
  obtain ⟨-, rfl, -⟩ := callUrl_cases h
  obtain ⟨hvisited, herror⟩ := not_or.mp hbefore
  by_cases hcall : ∃ newState, call = .setUrlState newState
  · obtain ⟨newState, rfl⟩ := hcall
    have hstate : ((((UrlCall.setUrlState newState).run u).run s.server).2.visit u).urlState =
        newState := by
      have hstates := congrFun (states_setUrlState u s.server newState) u
      rw [Function.update_self] at hstates
      exact congrArg Prod.fst hstates
    rw [hasStatus_iff]
    cases newState with
    | visited =>
        obtain ⟨hstart, hfinish, hmalicious⟩ := hok
        exact setUrlState_visited_stores hs.database hstart hfinish hmalicious hvisited
    | error => exact setUrlState_error_stores hs.database hok herror
    | none | queued | visiting =>
        obtain hafter | hafter := hafter
        · exact nomatch hstate.symm.trans hafter
        · exact nomatch hstate.symm.trans hafter
  · have hstate := urlState_run u (fun newState heq => hcall ⟨newState, heq⟩) s.server
    exact absurd (hafter.imp hstate.symm.trans hstate.symm.trans) hbefore

theorem covered_callUrl (hs : s.Inv) {u : UrlRef} {call : UrlCall}
    (hok : s.Storing (.call u call)) (h : s.callUrl u call = some s') {id : String}
    (hid : s.Covered id) : s'.Covered id := by
  obtain ⟨htaken, hs', htouches⟩ := callUrl_cases h
  have hurl : s'.server.url = s.server.url := by rw [htouches.rest]
  have hqueue : s'.server.urlQueue = s.server.urlQueue := by rw [htouches.rest]
  have htakenEq : s'.taken = s.taken := by rw [hs']
  obtain hstored | ⟨v, hv, hmem | ⟨hmem, hunfinished⟩⟩ := hid
  · exact .inl (hasStatus_iff.mpr (htouches.statusStored (hasStatus_iff.mp hstored)))
  · refine .inr ⟨v, ?_, .inl ?_⟩
    · rw [hurl]
      exact hv
    · rw [hqueue]
      exact hmem
  · by_cases hfinished : s'.Finished v
    · -- it was this URL
      by_cases heq : v = u
      · subst heq
        rw [← hv]
        exact .inl (hasStatus_of_finished hs hok h hunfinished hfinished)
      · unfold Finished at hfinished
        rw [htouches.others v heq] at hfinished
        exact absurd hfinished hunfinished
    · refine .inr ⟨v, ?_, .inr ⟨?_, hfinished⟩⟩
      · rw [hurl]
        exact hv
      · rw [htakenEq]
        exact hmem

/-- **One step** whose line is accepted and whose URL stores its status. -/
theorem covered_next (hs : s.Inv) (hall : ∀ id ∈ s.rows, s.Covered id) {a : OperationAction}
    (haccepted : s.Accepted cfg a) (hstoring : s.Storing a) (h : s.next cfg a = some s') :
    ∀ id ∈ s'.rows, s'.Covered id := by
  cases a with
  | importLine line found key position => exact covered_importLine hs hall haccepted h
  | takeUrl =>
      obtain ⟨v, urlQueue, -, hs'⟩ := takeUrl_cases h
      have hrows : s'.rows = s.rows := by rw [hs']
      rw [hrows]
      exact fun id hid => covered_takeUrl hs (hall id hid) h
  | call u call =>
      have hrows : s'.rows = s.rows := by rw [(callUrl_cases h).2.1]
      rw [hrows]
      exact fun id hid => covered_callUrl hs hstoring h (hall id hid)

/-! ## Rows that will have none -/

/-- No URL is made for a row that is there. -/
theorem Dropped.enqueue (hs : s.Inv) {id : String} (h : s.Dropped id) {url : Url}
    (hurl : url.id ≠ id) (position : Nat) :
    ((s.newUrl url).enqueue s.created position).Dropped id := by
  refine ⟨h.1, fun u hu => ?_⟩
  have hold : s.Live u → ((s.newUrl url).server.url u).id ≠ id := by
    intro hlive
    rw [newUrl_url url (hs.live u hlive).1]
    exact h.2 u hlive
  obtain hqueue | htaken := hu
  · obtain rfl | hqueue := mem_enqueue.mp hqueue
    · show ((s.newUrl url).server.url s.created).id ≠ id
      rw [newUrl_self]
      exact hurl
    · exact hold (.inl hqueue)
  · exact hold (.inr htaken)

theorem Dropped.newUrl (hs : s.Inv) {id : String} (h : s.Dropped id) (url : Url) :
    (s.newUrl url).Dropped id := by
  refine ⟨h.1, fun u hu => ?_⟩
  rw [newUrl_url url (hs.live u hu).1]
  exact h.2 u hu

theorem Dropped.next (hs : s.Inv) {id : String} (h : s.Dropped id) {a : OperationAction}
    (hnext : s.next cfg a = some s') : s'.Dropped id := by
  cases a with
  | importLine line found key position =>
      obtain ⟨urlTable, htable, ⟨-, hsame⟩ | ⟨id', -, hrow, hid, hevent⟩⟩ :=
        importLine_cases hs.known hnext
      · rw [hsame]
        exact h
      · have hne : id' ≠ id := fun heq => hrow (heq ▸ h.1)
        have ht := hs.insert htable hid
        have hdropped : (({ s with urlTable } : OperationState).insertUrlOperation id').Dropped id :=
          ⟨List.mem_append_left _ h.1, h.2⟩
        rw [hevent]
        obtain ⟨-, hnone⟩ | ⟨url, hurl, ⟨-, hnew⟩ | ⟨-, hnew⟩⟩ :=
          addUrlEvent_cases cfg (fun u hu => (ht.live u (.inl hu)).1) id' (trim line) position
        · rw [hnone]
          exact hdropped
        · rw [hnew]
          exact hdropped.newUrl ht url
        · rw [hnew]
          refine hdropped.enqueue ht ?_ position
          rw [UrlFactory.id_getUrl hurl]
          exact hne
  | takeUrl =>
      have hlive := live_takeUrl hnext
      obtain ⟨v, urlQueue, -, rfl⟩ := takeUrl_cases hnext
      exact ⟨h.1, fun u hu => h.2 u ((hlive u).mp hu)⟩
  | call u call =>
      obtain ⟨-, hs', htouches⟩ := callUrl_cases hnext
      have hurl : s'.server.url = s.server.url := by rw [htouches.rest]
      have hqueue : s'.server.urlQueue = s.server.urlQueue := by rw [htouches.rest]
      have hsame : s'.rows = s.rows ∧ s'.taken = s.taken := by
        rw [hs']
        exact ⟨rfl, rfl⟩
      refine ⟨hsame.1 ▸ h.1, fun v hv => ?_⟩
      unfold Live at hv
      rw [hqueue, hsame.2] at hv
      rw [hurl]
      exact h.2 v hv

/-- A line that has a row and is not accepted. -/
theorem exists_dropped (hs : s.Inv) {a : OperationAction} (h : s.next cfg a = some s')
    (hok : ¬ s.Accepted cfg a) : ∃ id, s'.Dropped id := by
  cases a with
  | takeUrl | call => exact absurd trivial hok
  | importLine line found key position =>
      obtain ⟨urlTable, htable, ⟨hnone, -⟩ | ⟨id, hnew, hrow, hid, hevent⟩⟩ :=
        importLine_cases hs.known h
      · refine absurd (fun x hx => ?_) hok
        exact nomatch hnone.symm.trans hx
      · refine ⟨id, ?_⟩
        have ht := hs.insert htable hid
        have hdropped : (({ s with urlTable } : OperationState).insertUrlOperation id).Dropped id := by
          refine ⟨List.mem_append_right _ (List.mem_singleton.mpr rfl), fun u hu heq => hrow ?_⟩
          rw [← heq]
          exact (hs.live u hu).2
        rw [hevent]
        obtain ⟨-, hnone⟩ | ⟨url, hurl, ⟨-, hbusy⟩ | ⟨hfree, -⟩⟩ :=
          addUrlEvent_cases cfg (fun u hu => (ht.live u (.inl hu)).1) id (trim line) position
        · rw [hnone]
          exact hdropped
        · rw [hbusy]
          exact hdropped.newUrl ht url
        · refine absurd (fun x hx => ?_) hok
          obtain rfl := Option.some.inj (hnew.symm.trans hx)
          exact ⟨url, hurl, hfree⟩

/-- **A row without a URL never gets a status.** -/
theorem Dropped.run : ∀ {as : List OperationAction} {s s' : OperationState} {id : String},
    s.Inv → s.Dropped id → (machine cfg).run as s = some s' → s'.Inv ∧ s'.Dropped id
  | [], s, s', id, hs, h, hrun => by
      obtain rfl := Option.some.inj hrun
      exact ⟨hs, h⟩
  | a :: as, s, s', id, hs, h, hrun => by
      obtain ⟨s₁, hnext, hrest⟩ := Option.bind_eq_some_iff.mp hrun
      exact Dropped.run (hs.next hnext) (h.next hs hnext) hrest

/-- It is what `resumeLastOperation` finds. -/
theorem Dropped.resumed (hs : s.Inv) {id : String} (h : s.Dropped id) :
    s.resumeLastOperation ≠ [] := by
  have hopen : s.hasStatus id = false := by
    rw [Bool.eq_false_iff]
    intro hstatus
    obtain ⟨u, hu, hurl⟩ := hs.stored id hstatus
    exact h.2 u (.inr hu) hurl
  obtain ⟨row, hrow, rfl⟩ := List.mem_map.mp (hs.known id h.1)
  refine List.ne_nil_of_mem (a := row) ?_
  refine List.mem_flatMap.mpr ⟨row.1, List.mem_filter.mpr ⟨h.1, ?_⟩, List.mem_filter.mpr ⟨hrow, ?_⟩⟩
  · rw [hopen]
    rfl
  · exact decide_eq_true rfl

/-! ## Whole runs -/

theorem inv_of_init (h : (machine cfg).init s) : s.Inv ∧ ∀ id ∈ s.rows, s.Covered id := by
  obtain ⟨server, urlTable, rfl, hdatabase, hempty, hqueue⟩ := h
  refine ⟨⟨hdatabase, fun u hu => ?_, fun u hu => ?_, ?_, nofun, fun id hid => ?_⟩, nofun⟩
  · obtain hu | hu := hu
    · rw [hqueue] at hu
      cases hu
    · cases hu
  · rw [hqueue] at hu
    cases hu
  · rw [hqueue]
    exact List.nodup_nil
  · unfold hasStatus at hid
    rw [hempty] at hid
    cases hid

/-- The steps that the rows need. -/
def Accepting (cfg : OperationConfig) (s : OperationState) (a : OperationAction) : Prop :=
  s.Accepted cfg a ∧ s.Storing a

theorem covered_run : ∀ {as : List OperationAction} {s s' : OperationState}, s.Inv →
    (∀ id ∈ s.rows, s.Covered id) → (machine cfg).Meets (Accepting cfg) as s →
      (machine cfg).run as s = some s' → ∀ id ∈ s'.rows, s'.Covered id
  | [], s, s', _, hall, _, hrun => by
      obtain rfl := Option.some.inj hrun
      exact hall
  | a :: as, s, s', hs, hall, hmeets, hrun => by
      obtain ⟨s₁, hnext, hrest⟩ := Option.bind_eq_some_iff.mp hrun
      obtain ⟨⟨haccepted, hstoring⟩, hmeets⟩ := hmeets
      rw [hnext] at hmeets
      exact covered_run (hs.next hnext) (covered_next hs hall haccepted hstoring hnext) hmeets hrest

/-- A run in which nothing is left to resume has accepted every line. -/
theorem accepted_of_nothing_left : ∀ {as : List OperationAction} {s s' : OperationState}, s.Inv →
    (machine cfg).run as s = some s' → s'.resumeLastOperation = [] →
      (machine cfg).Meets (Accepted cfg) as s
  | [], _, _, _, _, _ => trivial
  | a :: as, s, s', hs, hrun, hnothing => by
      obtain ⟨s₁, hnext, hrest⟩ := Option.bind_eq_some_iff.mp hrun
      refine ⟨?_, ?_⟩
      · by_contra hok
        obtain ⟨id, hdropped⟩ := exists_dropped hs hnext hok
        obtain ⟨hs', hdropped'⟩ := Dropped.run (hs.next hnext) hdropped hrest
        exact hdropped'.resumed hs' hnothing
      · rw [hnext]
        exact accepted_of_nothing_left (hs.next hnext) hrest hnothing

theorem Complete.of_covered (hall : ∀ id ∈ s.rows, s.Covered id) (hdone : s.Done) : s.Complete := by
  have hstatus : ∀ id ∈ s.rows, s.hasStatus id = true := by
    intro id hid
    obtain hstored | ⟨u, -, hqueue | ⟨htaken, hunfinished⟩⟩ := hall id hid
    · exact hstored
    · rw [hdone.1] at hqueue
      cases hqueue
    · exact absurd (hdone.2 u htaken) hunfinished
  refine ⟨hstatus, ?_⟩
  have hnone : s.rows.filter (fun id => !s.hasStatus id) = [] := by
    refine List.filter_eq_nil_iff.mpr fun id hid => ?_
    rw [hstatus id hid]
    exact nofun
  rw [resumeLastOperation, hnone]
  rfl

/-- **When an operation is complete.**  If every line that has a row gives a URL that is not in the
queue, and every URL that finishes has what is stored with its status, then at the end every row has
a status and there is nothing to resume; and if there is nothing to resume, every such line was
accepted. -/
theorem operation_complete {as : List OperationAction} (hinit : (machine cfg).init s)
    (hrun : (machine cfg).run as s = some s') :
    ((machine cfg).Meets (Accepting cfg) as s → s'.Done → s'.Complete) ∧
      (s'.Complete → (machine cfg).Meets (Accepted cfg) as s) := by
  obtain ⟨hs, hall⟩ := inv_of_init hinit
  constructor
  · intro hmeets hdone
    exact .of_covered (covered_run hs hall hmeets hrun) hdone
  · intro hcomplete
    exact accepted_of_nothing_left hs hrun hcomplete.2

instance (cfg : OperationConfig) (s : OperationState) : ∀ a, Decidable (s.Accepted cfg a)
  | .importLine line found key _ => inferInstanceAs (Decidable (∀ id ∈ s.newRow cfg line found key,
      ∃ url ∈ UrlFactory.getUrl cfg.toUrlConfig id (toLowerCase (trim line)), s.isQueued url = false))
  | .takeUrl => .isTrue trivial
  | .call _ _ => .isTrue trivial

instance (s : OperationState) : ∀ a, Decidable (s.Storing a)
  | .call _ (.setUrlState .visited) => inferInstanceAs (Decidable (_ ∧ _ ∧ _))
  | .call u (.setUrlState .error) =>
      inferInstanceAs (Decidable ((s.server.visit u).visitStartTime.isSome = true))
  | .call _ (.setUrlState .none) | .call _ (.setUrlState .queued) | .call _ (.setUrlState .visiting)
  | .call _ (.setVisitStartTime _) | .call _ (.setVisitFinishTime _) | .call _ (.setMalicious _)
  | .call _ (.setMajorErrorCode _) | .call _ (.setMinorErrorCode _) | .call _ (.writeEventToLog _)
  | .call _ .closeEventLog | .importLine _ _ _ _ | .takeUrl => .isTrue trivial

instance (cfg : OperationConfig) (s : OperationState) (a : OperationAction) :
    Decidable (s.Accepting cfg a) := inferInstanceAs (Decidable (_ ∧ _))

instance (s : OperationState) (u : UrlRef) : Decidable (s.Finished u) :=
  inferInstanceAs (Decidable (_ ∨ _))

instance (s : OperationState) : Decidable s.Done := inferInstanceAs (Decidable (_ ∧ _))

/-- Without the check of `url`; the addresses of the lines are in order as they are. -/
def unchecked : OperationConfig where
  uri := some
  emptyIsLiteral := false
  clientDefault := "iexplore"
  clientDefaultVisitTime := 10
  check := false
  sameUrl u v := u = v

/-- A server with a database and an empty table. -/
def emptyDatabase : OperationState where
  server := startedServer { database := true } (fun _ => ⟨"", "", "", 0⟩) fun _ => .stopped
  urlTable := []

/-- A visit that fails. -/
def failedVisit : List OperationAction :=
  [.takeUrl, .call 0 (.setVisitStartTime (some "1/2/2009 10:00:00.0")), .call 0 (.setUrlState .error)]

theorem one_line_complete :
    ∃ s', (machine unchecked).run (.importLine "http://a/" none "1" 0 :: failedVisit)
      emptyDatabase = some s' ∧ s'.Done ∧ s'.Complete := by
  have hinit : (machine unchecked).init emptyDatabase := ⟨_, _, rfl, rfl, rfl, rfl⟩
  have hmeets : (machine unchecked).Meets (Accepting unchecked)
      (.importLine "http://a/" none "1" 0 :: failedVisit) emptyDatabase := by
    decide +kernel
  have hdone : ((machine unchecked).run (.importLine "http://a/" none "1" 0 :: failedVisit)
      emptyDatabase).any (fun s => decide s.Done) = true := by
    decide +kernel
  obtain ⟨s', hrun, hs'⟩ := (Option.any_eq_true _ _).mp hdone
  have hs' := of_decide_eq_true hs'
  exact ⟨s', hrun, hs', (operation_complete hinit hrun).1 hmeets hs'⟩

/-- The same line twice: the second row is left over when everything is done. -/
theorem same_line_twice_left_over :
    ∃ s', (machine unchecked).init emptyDatabase ∧
      (machine unchecked).run (.importLine "http://a/" none "1" 0 ::
        .importLine "http://a/" none "2" 1 :: failedVisit) emptyDatabase = some s' ∧
          s'.Done ∧ s'.hasStatus "2" = false ∧ s'.resumeLastOperation = [("2", "http://a/")] ∧
            ¬ s'.Complete := by
  have hinit : (machine unchecked).init emptyDatabase := ⟨_, _, rfl, rfl, rfl, rfl⟩
  have hend : ((machine unchecked).run (.importLine "http://a/" none "1" 0 ::
      .importLine "http://a/" none "2" 1 :: failedVisit) emptyDatabase).any (fun s =>
        decide s.Done && !s.hasStatus "2" && s.resumeLastOperation = [("2", "http://a/")]) = true := by
    decide +kernel
  obtain ⟨s', hrun, hs'⟩ := (Option.any_eq_true _ _).mp hend
  rw [Bool.and_eq_true, Bool.and_eq_true, Bool.not_eq_true'] at hs'
  obtain ⟨⟨hdone, hstatus⟩, hresume⟩ := hs'
  have hresume : s'.resumeLastOperation = [("2", "http://a/")] := of_decide_eq_true hresume
  refine ⟨s', hinit, hrun, of_decide_eq_true hdone, hstatus, hresume, fun hcomplete => ?_⟩
  rw [hcomplete.2] at hresume
  cases hresume

end OperationState

end CaptureHpc.Server
