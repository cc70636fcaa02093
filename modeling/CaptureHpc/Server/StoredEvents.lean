/-
# `Server.StoredEvents` — the rows of the table `event`

`writeEventToLog` gives its text to the database as it is, and `storeEvent` takes
it apart by position: it cuts the first and the last character off, splits at
the quotes between fields, and inserts one row with the first six fields.

The text comes from two places.  A single event has these six fields, but the
last character is the end of the line, so the quote behind the last field stays.
The CSV of a bulk visit has the process id as a field of its own, so that
everything behind it is one column off, and may have several lines, of which
only the first gets a row.  What is stored is right in one case only: one state
change whose fields are all the same from the process id on
(`stored_iff_aligned`).
-/
import CaptureHpc.Server.Client

namespace CaptureHpc.Server

open Java StateChange

/-- A row of `event`, as far as the text of an event makes it. -/
structure EventRow where
  urlId : String
  time : Date
  type : String
  process : String
  action : String
  object1 : String
  object2 : String
deriving DecidableEq, Repr

namespace Database

/-- What stands between two fields. -/
def quotes : List Char := ['"', ',', '"']

/-- `event.split("\",\"")`. -/
def split (event : List Char) : List String :=
  (((splitFields event []).reverse.dropWhile List.isEmpty).reverse).map String.ofList

/-- `storeEvent` of `MySQLDatabase` and `PostgreSQLDatabase`.  The one reads the time itself and
the other has the server read it; every exception ends in the `catch`, and then there is no row. -/
def storeEvent (readTime : String → Option Date) (urlid event : String) : Option EventRow :=
  if event.toList.length < 2 then none
  else do
    let str := split event.toList.tail.dropLast
    let time ← str[1]?.bind readTime
    return { urlId := urlid, time, type := ← str[0]?, process := ← str[2]?, action := ← str[3]?
             object1 := ← str[4]?, object2 := ← str[5]? }

/-- The row that a call inserts. -/
def insertedBy (readTime : String → Option Date) : DatabaseCall → Option EventRow
  | .storeEvent id event => storeEvent readTime id event
  | _ => none

/-- The rows that `writeEventToLog` leads to. -/
def rowsStored (readTime : String → Option Date) (u : UrlRef) (event : String) (s : ServerState) :
    List EventRow :=
  (((Url.writeEventToLog u event).run s).2.store.database.drop s.store.database.length).filterMap
    (insertedBy readTime)

/-! ## Splitting -/

theorem splitFields_cons {c : Char} (hc : c ≠ '"') (rest field : List Char) :
    splitFields (c :: rest) field = splitFields rest (field ++ [c]) := by
  rw [splitFields]
  rintro rest' rfl
  exact absurd rfl hc

theorem splitFields_append {cs : List Char} (h : '"' ∉ cs) : ∀ rest field,
    splitFields (cs ++ rest) field = splitFields rest (field ++ cs) := by
  induction cs with
  | nil =>
      intro rest field
      rw [List.nil_append, List.append_nil]
  | cons c cs ih =>
      intro rest field
      have hc : c ≠ '"' := fun heq => h (heq ▸ List.mem_cons_self)
      have hcs : '"' ∉ cs := fun hmem => h (List.mem_cons_of_mem c hmem)
      rw [List.cons_append, splitFields_cons hc, ih hcs, List.append_assoc]
      rfl

/-- The quote at the end of the line stays with the last field. -/
theorem splitFields_fields {last : List Char} (hlast : '"' ∉ last) :
    ∀ {front : List (List Char)}, (∀ cs ∈ front, '"' ∉ cs) →
      splitFields (front.flatMap (· ++ quotes) ++ (last ++ ['"'])) [] =
        front ++ [last ++ ['"']] := by
  intro front
  induction front with
  | nil =>
      intro _
      rw [List.flatMap_nil, List.nil_append, splitFields_append hlast]
      rfl
  | cons cs front ih =>
      intro h
      obtain ⟨hcs, hfront⟩ := List.forall_mem_cons.mp h
      have hrest : ∀ rest, splitFields (quotes ++ rest) cs = cs :: splitFields rest [] :=
        fun rest => rfl
      rw [List.flatMap_cons, List.append_assoc, List.append_assoc, splitFields_append hcs,
        List.nil_append, hrest, ih hfront]
      rfl

theorem split_fields {front : List String} {last : String} (hlast : '"' ∉ last.toList)
    (hfront : ∀ field ∈ front, '"' ∉ field.toList) :
    split ((front.map String.toList).flatMap (· ++ quotes) ++ (last.toList ++ ['"'])) =
      front ++ [last ++ "\""] := by
  have hempty : (last.toList ++ ['"']).isEmpty = false :=
    List.isEmpty_eq_false_iff.mpr (List.append_ne_nil_of_right_ne_nil _ (List.cons_ne_nil _ _))
  have hid : String.ofList ∘ String.toList = id := funext fun _ => String.ofList_toList
  rw [split, splitFields_fields hlast (List.forall_mem_map.mpr hfront), List.reverse_append,
    List.reverse_singleton, List.singleton_append, List.dropWhile_cons_of_neg (by rw [hempty]; exact Bool.false_ne_true), List.reverse_cons, List.reverse_reverse,
    List.map_append, List.map_map, hid, List.map_id, List.map_singleton, String.ofList_append,
    String.ofList_toList]

theorem toList_intercalate_concat (front : List String) (last : String) :
    (String.intercalate "\",\"" (front ++ [last])).toList =
      (front.map String.toList).flatMap (· ++ quotes) ++ last.toList := by
  induction front with
  | nil =>
      rw [List.nil_append, String.intercalate_singleton]
      rfl
  | cons field front ih =>
      have hne : front ++ [last] ≠ [] := List.append_ne_nil_of_right_ne_nil _ (List.cons_ne_nil _ _)
      rw [List.cons_append, String.intercalate_cons_of_ne_nil hne, String.toList_append,
        String.toList_append, ih, List.map_cons, List.flatMap_cons, List.append_assoc (_ ++ _)]
      rfl

/-- The text between the first and the last character of a line. -/
theorem inner_csvLine (front : List String) (last : String) :
    (csvLine (front ++ [last])).toList.tail.dropLast =
      (front.map String.toList).flatMap (· ++ quotes) ++ (last.toList ++ ['"']) := by
  have hline : (csvLine (front ++ [last])).toList =
      '"' :: ((front.map String.toList).flatMap (· ++ quotes) ++ (last.toList ++ ['"']) ++ ['\n']) := by
    rw [csvLine, String.toList_append, String.toList_append, toList_intercalate_concat]
    simp
  rw [hline, List.tail_cons, List.dropLast_concat]

/-- The row of a line with at least six fields. -/
theorem storeEvent_csvLine (readTime : String → Option Date) (urlid : String) {front : List String}
    {last : String} (hlast : '"' ∉ last.toList) (hfront : ∀ field ∈ front, '"' ∉ field.toList) :
    storeEvent readTime urlid (csvLine (front ++ [last])) = (do
      let str := front ++ [last ++ "\""]
      let time ← str[1]?.bind readTime
      return { urlId := urlid, time, type := ← str[0]?, process := ← str[2]?, action := ← str[3]?
               object1 := ← str[4]?, object2 := ← str[5]? }) := by
  have hlong : ¬ (csvLine (front ++ [last])).toList.length < 2 := by
    rw [csvLine]
    simp
  rw [storeEvent, if_neg hlong, inner_csvLine, split_fields hlast hfront]

/-- A line with six fields keeps the quote behind the last one. -/
theorem storeEvent_six (readTime : String → Option Date) (urlid : String)
    {type time process action object1 object2 : String}
    (h : ∀ field ∈ [type, time, process, action, object1, object2], '"' ∉ field.toList) :
    storeEvent readTime urlid (csvLine [type, time, process, action, object1, object2]) =
      (readTime time).map fun time =>
        ⟨urlid, time, type, process, action, object1, object2 ++ "\""⟩ := by
  have hstore := @storeEvent_csvLine readTime urlid [type, time, process, action, object1] object2
    (h object2 (by simp)) (fun field hfield => h field (List.mem_append_left [object2] hfield))
  rw [List.cons_append] at hstore
  refine hstore.trans ?_
  cases hread : readTime time with
  | none => simp [hread]
  | some date => simp [hread]

/-- Of a line with seven fields the first six are taken. -/
theorem storeEvent_seven (readTime : String → Option Date) (urlid : String)
    {type time processId process action object1 object2 : String}
    (h : ∀ field ∈ [type, time, processId, process, action, object1, object2], '"' ∉ field.toList) :
    storeEvent readTime urlid (csvLine [type, time, processId, process, action, object1, object2]) =
      (readTime time).map fun time => ⟨urlid, time, type, processId, process, action, object1⟩ := by
  have hstore := @storeEvent_csvLine readTime urlid
    [type, time, processId, process, action, object1] object2 (h object2 (by simp))
    (fun field hfield => h field (List.mem_append_left [object2] hfield))
  refine hstore.trans ?_
  cases hread : readTime time with
  | none => simp [hread]
  | some date => simp [hread]

/-! ## Writing to the log -/

/-- The log is open, or can be opened. -/
def Opens (u : UrlRef) (s : ServerState) : Prop :=
  (s.visit u).logFile.isSome ∨ (s.visit u).visitStartTime.isSome ∧ s.config.canOpenLog = true

/-- The time of the first event is known, or can be read. -/
def Dates (u : UrlRef) (event : String) (s : ServerState) : Prop :=
  (s.visit u).firstStateChange.isSome ∨ ((secondField event).bind parseDate).isSome

/-- `writeEventToLog` comes as far as the database. -/
def Writes (u : UrlRef) (event : String) (s : ServerState) : Prop :=
  Opens u s ∧ Dates u event s ∧ (s.visit u).logClosed = false ∧ s.config.database = true

instance (u : UrlRef) (event : String) (s : ServerState) : Decidable (Writes u event s) :=
  inferInstanceAs (Decidable ((_ ∨ _ ∧ _) ∧ (_ ∨ _) ∧ _))

/-- What opening the log and noting a time leave as it is. -/
structure Beside (u : UrlRef) (s s' : ServerState) : Prop where
  url : s'.url = s.url
  config : s'.config = s.config
  database : s'.store.database = s.store.database
  logClosed : (s'.visit u).logClosed = (s.visit u).logClosed

section Runs
variable {u : UrlRef} {event : String} {s : ServerState}

theorem Beside.refl (u : UrlRef) (s : ServerState) : Beside u s s := ⟨rfl, rfl, rfl, rfl⟩

theorem Beside.trans {s' s'' : ServerState} (h : Beside u s s') (h' : Beside u s' s'') :
    Beside u s s'' :=
  ⟨h'.url.trans h.url, h'.config.trans h.config, h'.database.trans h.database,
    h'.logClosed.trans h.logClosed⟩

theorem Beside.setVisit {f : UrlVisit → UrlVisit} (h : (f (s.visit u)).logClosed = (s.visit u).logClosed) :
    Beside u s (s.setVisit u f) :=
  ⟨rfl, rfl, rfl, by rw [ServerState.visit_setVisit, h]⟩

theorem run_openLog (u : UrlRef) (s : ServerState) : ∃ r s', (Url.openLog u).run s = (r, s') ∧
    Beside u s s' ∧ (s'.visit u).firstStateChange = (s.visit u).firstStateChange ∧
      (r = .ok true ↔ Opens u s) := by
  cases hlog : (s.visit u).logFile with
  | some lines =>
      refine ⟨.ok true, s, by simp [Url.openLog, hlog], .refl u s, rfl, iff_of_true rfl ?_⟩
      exact .inl (by rw [hlog]; rfl)
  | none =>
      cases hstart : (s.visit u).visitStartTime with
      | none =>
          exact ⟨.error .nullPointer, s, by simp [Url.openLog, hlog, hstart], .refl u s, rfl,
            by simp [Opens, hlog, hstart]⟩
      | some date =>
          cases hopen : s.config.canOpenLog with
          | false =>
              exact ⟨.ok false, s, by simp [Url.openLog, hlog, hstart, hopen], .refl u s, rfl,
                by simp [Opens, hlog, hopen]⟩
          | true =>
              refine ⟨.ok true, _, by simp [Url.openLog, hlog, hstart, hopen]; rfl, .setVisit rfl, ?_,
                by simp [Opens, hstart, hopen]⟩
              rw [ServerState.visit_setVisit]

theorem run_noteFirstStateChange (u : UrlRef) (event : String) (s : ServerState) :
    ∃ r s', (Url.noteFirstStateChange u event).run s = (r, s') ∧ Beside u s s' ∧
      (r = .ok true ↔ Dates u event s) := by
  cases hfirst : (s.visit u).firstStateChange with
  | some date =>
      exact ⟨.ok true, s, by simp [Url.noteFirstStateChange, hfirst], .refl u s,
        by simp [Dates, hfirst]⟩
  | none =>
      cases hsecond : secondField event with
      | none =>
          exact ⟨.error .arrayIndexOutOfBounds, s, by simp [Url.noteFirstStateChange, hfirst, hsecond],
            .refl u s, by simp [Dates, hfirst, hsecond]⟩
      | some text =>
          cases hdate : parseDate text with
          | none =>
              exact ⟨.ok false, s, by simp [Url.noteFirstStateChange, hfirst, hsecond, hdate],
                .refl u s, by simp [Dates, hfirst, hsecond, hdate]⟩
          | some date =>
              exact ⟨.ok true, _, by simp [Url.noteFirstStateChange, hfirst, hsecond, hdate]; rfl,
                .setVisit rfl, by simp [Dates, hsecond, hdate]⟩

theorem run_appendToLog (u : UrlRef) (event : String) (s : ServerState) :
    ((Url.appendToLog u event).run s).2.store.database = s.store.database ++
      if (s.visit u).logClosed = false ∧ s.config.database = true then
        [.storeEvent (s.url u).id event] else [] := by
  cases hclosed : (s.visit u).logClosed with
  | true => simp [Url.appendToLog, hclosed]
  | false =>
      cases hdatabase : s.config.database with
      | false => simp [Url.appendToLog, hclosed, hdatabase, ServerState.setVisit]
      | true =>
          simp [Url.appendToLog, hclosed, hdatabase, ServerState.setVisit, ServerState.callDatabase]

/-- What is done only if a test returns true. -/
theorem run_test {x : Action Bool} {y : Action Unit} {r : Except JavaException Bool}
    {s' : ServerState} (h : x.run s = (r, s')) :
    ((do if ← x then y : Action Unit).run s).2 = if r = .ok true then (y.run s').2 else s' := by
  cases r with
  | error e => rw [Exec.run_bind_error h, if_neg (fun h => by cases h)]
  | ok b =>
      rw [Exec.run_bind_ok h]
      cases b with
      | true => rw [if_pos rfl, if_pos rfl]
      | false =>
          rw [if_neg Bool.false_ne_true, if_neg (fun h => Bool.false_ne_true (Except.ok.inj h))]
          rfl

theorem database_writeEventToLog (u : UrlRef) (event : String) (s : ServerState) :
    ((Url.writeEventToLog u event).run s).2.store.database =
      s.store.database ++ if Writes u event s then [.storeEvent (s.url u).id event] else [] := by
  obtain ⟨r, s₁, hrun, hbeside, hfirst, hopens⟩ := run_openLog u s
  rw [Url.writeEventToLog, run_test hrun]
  by_cases hr : r = .ok true
  · obtain ⟨r', s₂, hrun', hbeside', hdates⟩ := run_noteFirstStateChange u event s₁
    have hsame : Dates u event s₁ ↔ Dates u event s := by rw [Dates, Dates, hfirst]
    rw [if_pos hr, run_test hrun']
    by_cases hr' : r' = .ok true
    · -- both tests return true, and what is left is the file and the option
      have hall := hbeside.trans hbeside'
      have hset : (Url.setMalicious u true).run s₂ =
          (.ok (), s₂.setVisit u fun x => { x with malicious := some true }) := rfl
      have hwrites : Writes u event s ↔ (s.visit u).logClosed = false ∧ s.config.database = true := by
        rw [Writes, and_iff_right (hopens.mp hr), and_iff_right (hsame.mp (hdates.mp hr'))]
      rw [if_pos hr', Exec.run_bind_ok hset, run_appendToLog]
      have hmalicious : Beside u s₂ (s₂.setVisit u fun x => { x with malicious := some true }) :=
        .setVisit rfl
      have hend := hall.trans hmalicious
      rw [hend.database, hend.logClosed, hend.config, hend.url, if_congr hwrites rfl rfl]
    · have hnot : ¬ Writes u event s := fun h => hr' (hdates.mpr (hsame.mpr h.2.1))
      rw [if_neg hr', if_neg hnot, List.append_nil]
      exact (hbeside.trans hbeside').database
  · have hnot : ¬ Writes u event s := fun h => hr (hopens.mpr h.1)
    rw [if_neg hr, if_neg hnot, List.append_nil]
    exact hbeside.database

theorem rowsStored_eq (readTime : String → Option Date) (u : UrlRef) (event : String)
    (s : ServerState) : rowsStored readTime u event s =
      if Writes u event s then (storeEvent readTime (s.url u).id event).toList else [] := by
  rw [rowsStored, database_writeEventToLog, List.drop_left]
  split_ifs
  · cases hrow : storeEvent readTime (s.url u).id event with
    | none => exact List.filterMap_cons_none hrow
    | some row => exact List.filterMap_cons_some hrow
  · rfl

end Runs

/-! ## What is reported -/

/-- What `writeEventToLog` is called with. -/
inductive Report where
  /-- An event, by `parseEvent`. -/
  | single (element : Element)
  /-- The state changes of a process, by `flushStateChangeHandler`. -/
  | bulk (handler : StateChangeHandler) (processId : Int)

namespace Report

def text : Report → String
  | single element => Client.eventLine element
  | bulk handler processId => handler.getStateChangesCSV processId

/-- The process that a change names first. -/
def holder : StateChange → String
  | .inl osc => shown osc.process
  | .inr psc => shown psc.parentProcess

def action : StateChange → String
  | .inl osc => shown osc.action
  | .inr psc => shown psc.action

/-- The object, or the id of the process that was created or terminated. -/
def object1 : StateChange → String
  | .inl osc => shown osc.object1
  | .inr psc => showInt psc.processId

def object2 : StateChange → String
  | .inl osc => shown osc.object2
  | .inr psc => shown psc.process

theorem toCSV_eq (sc : StateChange) : sc.toCSV = csvLine [sc.getType, sc.getTimeString,
    showInt sc.holderId, holder sc, action sc, object1 sc, object2 sc] := by
  cases sc with
  | inl osc => rfl
  | inr psc => rfl

/-- No field has a quote in it. -/
def QuoteFree : Report → Prop
  | single element => ∀ name ∈ ["type", "time", "process", "action", "object1", "object2"],
      '"' ∉ (shown (element.get name)).toList
  | bulk handler processId => ∀ sc ∈ handler.getStateChanges processId,
      ∀ field ∈ [sc.getType, sc.getTimeString, showInt sc.holderId, holder sc, action sc, object1 sc,
        object2 sc], '"' ∉ field.toList

/-- The row of a change. -/
def rowOf (urlId : String) (sc : StateChange) : EventRow :=
  { urlId, time := sc.getTime, type := sc.getType, process := holder sc, action := action sc
    object1 := object1 sc, object2 := object2 sc }

/-- There is one row for each change, with its fields. -/
def Stored (urlId : String) (rows : List EventRow) : Report → Prop
  | single element => ∃ time, parseDate (shown (element.get "time")) = some time ∧ rows =
      [{ urlId, time, type := shown (element.get "type"), process := shown (element.get "process")
         action := shown (element.get "action"), object1 := shown (element.get "object1")
         object2 := shown (element.get "object2") }]
  | bulk handler processId => rows = (handler.getStateChanges processId).map (rowOf urlId)

/-- Shifted by one, the fields of the change are the same. -/
def ShiftInvariant (readTime : String → Option Date) (sc : StateChange) : Prop :=
  readTime sc.getTimeString = some sc.getTime ∧ showInt sc.holderId = holder sc ∧
    holder sc = action sc ∧ action sc = object1 sc ∧ object1 sc = object2 sc

/-- The rows are as they should be. -/
def Aligned (readTime : String → Option Date) (u : UrlRef) (s : ServerState) : Report → Prop
  | single _ => False
  | bulk handler processId =>
      match handler.getStateChanges processId with
      | [] => True
      | [sc] => ShiftInvariant readTime sc ∧ Writes u (handler.getStateChangesCSV processId) s
      | _ :: _ :: _ => False

theorem eventLine_eq (element : Element) : Client.eventLine element =
    csvLine [shown (element.get "type"), shown (element.get "time"), shown (element.get "process"),
      shown (element.get "action"), shown (element.get "object1"), shown (element.get "object2")] := by
  -- `rw [Client.eventLine]` takes seconds over its equation
  delta Client.eventLine
  simp only [csvLine, String.intercalate_cons_cons, String.intercalate_singleton,
    String.append_assoc]

theorem length_rowsStored (readTime : String → Option Date) (u : UrlRef) (event : String)
    (s : ServerState) : (rowsStored readTime u event s).length ≤ 1 := by
  rw [rowsStored_eq]
  split_ifs
  · cases storeEvent readTime (s.url u).id event with
    | none => exact Nat.zero_le 1
    | some row => exact le_refl 1
  · exact Nat.zero_le 1

end Report

/-- A single event is stored with a quote too many. -/
theorem single_not_stored (readTime : String → Option Date) (u : UrlRef) (s : ServerState)
    {element : Element} (h : (Report.single element).QuoteFree) :
    ¬ (Report.single element).Stored (s.url u).id
      (rowsStored readTime u (Client.eventLine element) s) := by
  rintro ⟨time, -, hrows⟩
  have hfields : ∀ field ∈ ["type", "time", "process", "action", "object1", "object2"].map
      fun name => shown (element.get name), '"' ∉ field.toList := List.forall_mem_map.mpr h
  rw [Report.eventLine_eq, rowsStored_eq, storeEvent_six _ _ hfields] at hrows
  split_ifs at hrows
  cases hread : readTime (shown (element.get "time")) with
  | none =>
      rw [hread] at hrows
      cases hrows
  | some date =>
      rw [hread] at hrows
      have hobject2 := congrArg EventRow.object2 (List.cons.inj hrows).1
      have hlen := congrArg String.length hobject2
      rw [String.length_append] at hlen
      exact absurd hlen (Nat.ne_of_gt (Nat.lt_succ_self _))

/-- **When the rows hold what was reported.** -/
theorem stored_iff_aligned (readTime : String → Option Date) (u : UrlRef) (s : ServerState)
    (report : Report) (h : report.QuoteFree) :
    report.Stored (s.url u).id (rowsStored readTime u report.text s) ↔
      report.Aligned readTime u s := by
  cases report with
  | single element =>
      exact iff_of_false (single_not_stored readTime u s h) id
  | bulk handler processId =>
      rw [Report.Stored, Report.Aligned, Report.text]
      have htext : handler.getStateChangesCSV processId =
          StateChangeHandler.csvOf (handler.getStateChanges processId) := rfl
      generalize hchanges : handler.getStateChanges processId = scs at htext
      cases scs with
      | nil =>
          refine iff_of_true ?_ True.intro
          have hnone : storeEvent readTime (s.url u).id (handler.getStateChangesCSV processId) =
              none := by
            rw [htext]
            rfl
          rw [rowsStored_eq, hnone]
          exact ite_self []
      | cons sc rest =>
          cases rest with
          | cons sc' rest =>
              refine iff_of_false ?_ id
              intro hrows
              have hlen := Report.length_rowsStored readTime u
                (handler.getStateChangesCSV processId) s
              rw [hrows] at hlen
              exact absurd (Nat.le_of_succ_le_succ hlen) (Nat.not_succ_le_zero _)
          | nil =>
              have hfields := h sc (by rw [hchanges]; exact List.mem_cons_self)
              have hline : handler.getStateChangesCSV processId = sc.toCSV := by
                rw [htext]
                simp [StateChangeHandler.csvOf]
              have hstore := storeEvent_seven readTime (s.url u).id hfields
              rw [← Report.toCSV_eq, ← hline] at hstore
              rw [rowsStored_eq, hstore]
              by_cases hwrites : Writes u (handler.getStateChangesCSV processId) s
              · rw [if_pos hwrites]
                cases hread : readTime sc.getTimeString with
                | none => simp [Report.ShiftInvariant, hread]
                | some date => simp [Report.ShiftInvariant, Report.rowOf, hread, hwrites]
              · rw [if_neg hwrites]
                exact iff_of_false (fun h => by cases h) fun h => hwrites h.2

/-- The log of the URL is open, and there is a database. -/
def loggingServer : ServerState where
  config := { database := true }
  url _ := { id := "7", url := "http://a/", clientProgram := "iexplore", visitTime := 30 }
  store := { visit := fun _ => { firstStateChange := some 0, logFile := some [] } }
  group _ := { urlList := [0], clientProgram := "iexplore", visitTime := 30 }
  nextGroup := 1
  client _ := {}
  vm _ := {}
  urlQueue := []
  urlGroupQueue := []
  visitingList := []

/-- A change with the same text from the process id on. -/
def sameTextChange : ProcessStateChange where
  type := "process"
  time := 0
  parentProcessId := 4
  parentProcess := some "4"
  action := some "4"
  processId := 4
  process := some "4"
  origin := none

def sameText : StateChangeHandler where
  processTrees := [.node sameTextChange [] []]

theorem sameText_stored : (Report.bulk sameText 4).Stored "7"
    (rowsStored parseDate 0 (sameText.getStateChangesCSV 4) loggingServer) := by
  have hchanges : sameText.getStateChanges 4 = [.inr sameTextChange] := by decide
  refine (stored_iff_aligned parseDate 0 loggingServer (.bulk sameText 4) ?_).mpr ?_
  · intro sc hsc
    rw [hchanges] at hsc
    obtain rfl := List.mem_singleton.mp hsc
    decide
  · rw [Report.Aligned, hchanges]
    exact ⟨by rw [Report.ShiftInvariant]; decide, by decide⟩

/-- A file event. -/
def fileEvent : Element where
  name := "system-event"
  attributes := [("type", "file"), ("time", "1/1/1970 0:0:0.0"), ("processId", "4"), ("process", "a.exe"),
    ("action", "Write"), ("object1", "b.txt"), ("object2", "-1")]

/-- The last column gets a quote too many. -/
theorem quote_stored : ¬ (Report.single fileEvent).Stored "7"
    (rowsStored parseDate 0 (Client.eventLine fileEvent) loggingServer) := by
  refine single_not_stored parseDate 0 loggingServer ?_
  rw [Report.QuoteFree]
  decide

end Database

end CaptureHpc.Server
