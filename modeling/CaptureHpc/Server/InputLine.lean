/-
# `Server.InputLine` — the eight forms of an input line

A line is an address with up to three fields behind it: a client, a visit time
and a suspicion score, each of which may be missing.  `getScoredUrl` is `getUrl`
with what it leaves out, the score and the exception.

Fields are told apart by how many there are and by what can be read as a number.
A line with an address, a time and a score has as many as one with a client in
the middle, and is always taken for that: the branch for it is only reached when
the last field is no number.  The other forms are read as they are meant, unless
a colon at the end of a field runs into the separator behind it, or the client
is empty or has a separator in it (`line_parsed_iff`).
-/
import CaptureHpc.Java.Double
import CaptureHpc.Server.UrlFactory
import Mathlib.Data.List.DropRight
import Mathlib.Data.List.Infix

namespace CaptureHpc.Server

open Java

/-- What `getUrl` throws. -/
inductive UrlException where
  | uriSyntax
  | nullPointer
deriving DecidableEq

/-- A URL and its place in the queue. -/
structure ScoredUrl extends Url where
  priority : Double
deriving DecidableEq

namespace UrlFactory

/-- `0.0`. -/
def defaultPriority : Double := .finite 0

/-- The constructor of `Url`. -/
def newScoredUrl (cfg : UrlConfig) (id u : String) (cProgram : Option String) (vTime : Int)
    (priority : Double) : Except UrlException ScoredUrl :=
  match newUrl cfg id u cProgram vTime with
  | some url => .ok { url with priority }
  | none => .error .uriSyntax

/-- `getUrl`.  Behind the branches there is no address: the constructor has an exception for that,
which cannot be made without one. -/
def getScoredUrl (cfg : UrlConfig) (id tokenizedUrl : String) : Except UrlException ScoredUrl :=
  match splitTokenizedUrl tokenizedUrl with
  | [u] => newScoredUrl cfg id u none cfg.clientDefaultVisitTime defaultPriority
  | [u, field] =>
      match parseInt field with
      | some visitTime => newScoredUrl cfg id u none visitTime defaultPriority
      | none =>
          match parseDouble field with
          | some priority => newScoredUrl cfg id u none cfg.clientDefaultVisitTime priority
          | none => newScoredUrl cfg id u (some field) cfg.clientDefaultVisitTime defaultPriority
  | [u, field, last] =>
      match parseInt last with
      | some visitTime => newScoredUrl cfg id u (some field) visitTime defaultPriority
      | none =>
          match parseDouble last with
          | some priority => newScoredUrl cfg id u (some field) cfg.clientDefaultVisitTime priority
          | none =>
              match parseInt field, parseDouble last with
              | some visitTime, some priority => newScoredUrl cfg id u none visitTime priority
              | _, _ => .error .uriSyntax
  | [u, client, time, score] =>
      match parseInt time, parseDouble score with
      | some visitTime, some priority => newScoredUrl cfg id u (some client) visitTime priority
      | _, _ => .error .uriSyntax
  | _ => .error .nullPointer

theorem toUrl_newScoredUrl (cfg : UrlConfig) (id u : String) (cProgram : Option String) (vTime : Int)
    (priority : Double) : (newScoredUrl cfg id u cProgram vTime priority).toOption.map
      ScoredUrl.toUrl = newUrl cfg id u cProgram vTime := by
  rw [newScoredUrl]
  cases newUrl cfg id u cProgram vTime with
  | none => rfl
  | some url => rfl

/-- Without the score and the exception this is `getUrl`. -/
theorem toUrl_getScoredUrl (cfg : UrlConfig) (id tokenizedUrl : String) :
    (getScoredUrl cfg id tokenizedUrl).toOption.map ScoredUrl.toUrl =
      getUrl cfg id tokenizedUrl := by
  have hparses : ∀ {s x}, parseDouble s = some x → parsesDouble s = true := by
    intro s x h
    cases hs : parsesDouble s with
    | true => rfl
    | false => exact absurd ((parseDouble_eq_none.mpr hs).symm.trans h) (Option.some_ne_none x).symm
  have hfails : ∀ {s}, parseDouble s = none → ¬ parsesDouble s = true :=
    fun h => Bool.eq_false_iff.mp (parseDouble_eq_none.mp h)
  rw [getScoredUrl, getUrl]
  generalize splitTokenizedUrl tokenizedUrl = fields
  rcases fields with _ | ⟨u, _ | ⟨field, _ | ⟨last, _ | ⟨score, _ | ⟨more, fields⟩⟩⟩⟩⟩
  · rfl
  · exact toUrl_newScoredUrl ..
  · cases hint : parseInt field with
    | some n =>
        simp only [hint]
        exact toUrl_newScoredUrl ..
    | none =>
        cases hdouble : parseDouble field with
        | some x =>
            simp only [hint, hdouble, if_pos (hparses hdouble)]
            exact toUrl_newScoredUrl ..
        | none =>
            simp only [hint, hdouble, if_neg (hfails hdouble)]
            exact toUrl_newScoredUrl ..
  · cases hint : parseInt last with
    | some n =>
        simp only [hint]
        exact toUrl_newScoredUrl ..
    | none =>
        cases hdouble : parseDouble last with
        | some x =>
            simp only [hint, hdouble, if_pos (hparses hdouble)]
            exact toUrl_newScoredUrl ..
        | none =>
            simp only [hint, hdouble, if_neg (hfails hdouble)]
            cases parseInt field with
            | none => rfl
            | some n => rfl
  · cases hint : parseInt last with
    | none =>
        simp only [hint]
        rfl
    | some n =>
        cases hdouble : parseDouble score with
        | some x =>
            simp only [hint, hdouble, if_pos (hparses hdouble)]
            exact toUrl_newScoredUrl ..
        | none =>
            simp only [hint, hdouble, if_neg (hfails hdouble)]
            rfl
  · rfl

end UrlFactory


/-! ## Splitting -/

/-- Two colons behind one another. -/
def separator : List Char := [':', ':']

/-- What is in front of the first separator. -/
def beforeColons : List Char → List Char
  | [] => []
  | ':' :: ':' :: _ => []
  | c :: rest => c :: beforeColons rest

theorem splitColons_cons {c : Char} {rest : List Char} (h : c ≠ ':' ∨ rest.head? ≠ some ':')
    (field : List Char) : splitColons (c :: rest) field = splitColons rest (field ++ [c]) := by
  rw [splitColons]
  rintro rest' rfl rfl
  rcases h with h | h
  · exact h rfl
  · exact h rfl

theorem beforeColons_cons {c : Char} {rest : List Char} (h : c ≠ ':' ∨ rest.head? ≠ some ':') :
    beforeColons (c :: rest) = c :: beforeColons rest := by
  rw [beforeColons]
  rintro rest' rfl rfl
  rcases h with h | h
  · exact h rfl
  · exact h rfl

/-- The first character of a text without separators, and what is behind it. -/
theorem whole_cons {c : Char} {cs : List Char} (h : ¬ separator <:+: c :: cs) :
    (c ≠ ':' ∨ cs.head? ≠ some ':') ∧ ¬ separator <:+: cs := by
  constructor
  · by_contra hboth
    obtain ⟨rfl, hhead⟩ := not_or.mp hboth |>.imp not_not.mp not_not.mp
    obtain ⟨rest, rfl⟩ := List.head?_eq_some_iff.mp hhead
    exact h ⟨[], rest, rfl⟩
  · exact fun hcs => h (hcs.trans (List.suffix_cons c cs).isInfix)

theorem splitColons_whole : ∀ {cs : List Char}, ¬ separator <:+: cs → ∀ field,
    splitColons cs field = [field ++ cs] := by
  intro cs
  induction cs with
  | nil =>
      intro _ field
      rw [splitColons, List.append_nil]
  | cons c cs ih =>
      intro h field
      obtain ⟨hc, hcs⟩ := whole_cons h
      rw [splitColons_cons hc, ih hcs, List.append_assoc]
      rfl

/-- A field ends at the separator, if it does not end with a colon itself. -/
theorem splitColons_append : ∀ {cs : List Char}, ¬ separator <:+: cs → cs.getLast? ≠ some ':' →
    ∀ rest field, splitColons (cs ++ ':' :: ':' :: rest) field = (field ++ cs) :: splitColons rest []
      := by
  intro cs
  induction cs with
  | nil =>
      intro _ _ rest field
      rw [List.nil_append, splitColons, List.append_nil]
  | cons c cs ih =>
      intro h hlast rest field
      obtain ⟨hc, hcs⟩ := whole_cons h
      have hnext : c ≠ ':' ∨ (cs ++ ':' :: ':' :: rest).head? ≠ some ':' := by
        cases cs with
        | nil => exact .inl fun hcolon => hlast (congrArg some hcolon)
        | cons d cs => exact hc
      have hlast' : cs.getLast? ≠ some ':' := by
        intro hcolon
        cases cs with
        | nil => cases hcolon
        | cons d cs => exact hlast hcolon
      rw [List.cons_append, splitColons_cons hnext, ih hcs hlast', List.append_assoc]
      rfl

theorem splitColons_head : ∀ (cs field : List Char),
    (splitColons cs field).head? = some (field ++ beforeColons cs) := by
  intro cs
  induction cs with
  | nil =>
      intro field
      rw [splitColons, beforeColons, List.append_nil, List.head?_cons]
  | cons c cs ih =>
      intro field
      by_cases h : c ≠ ':' ∨ cs.head? ≠ some ':'
      · rw [splitColons_cons h, beforeColons_cons h, ih, List.append_assoc]
        rfl
      · obtain ⟨rfl, hhead⟩ := not_or.mp h |>.imp not_not.mp not_not.mp
        obtain ⟨rest, rfl⟩ := List.head?_eq_some_iff.mp hhead
        rw [splitColons, beforeColons, List.append_nil, List.head?_cons]

/-- What is in front of the first separator is in front of every one. -/
theorem length_beforeColons (front rest : List Char) :
    (beforeColons (front ++ ':' :: ':' :: rest)).length ≤ front.length := by
  induction front with
  | nil => exact le_refl _
  | cons c front ih =>
      by_cases h : c ≠ ':' ∨ (front ++ ':' :: ':' :: rest).head? ≠ some ':'
      · rw [List.cons_append, beforeColons_cons h]
        exact Nat.succ_le_succ ih
      · obtain ⟨rfl, hhead⟩ := not_or.mp h |>.imp not_not.mp not_not.mp
        obtain ⟨behind, hbehind⟩ := List.head?_eq_some_iff.mp hhead
        rw [List.cons_append, hbehind, beforeColons]
        exact Nat.zero_le _

theorem whole_of_not_mem {cs : List Char} (h : ':' ∉ cs) : ¬ separator <:+: cs :=
  fun hsep => h (hsep.subset List.mem_cons_self)

theorem last_of_not_mem {cs : List Char} (h : ':' ∉ cs) : cs.getLast? ≠ some ':' :=
  fun hlast => h (List.mem_of_getLast? hlast)

/-- The field ends where the separator behind it begins. -/
def Closed (cs : List Char) : Prop := ¬ separator <:+: cs ∧ cs.getLast? ≠ some ':'

theorem closed_of_not_mem {cs : List Char} (h : ':' ∉ cs) : Closed cs :=
  ⟨whole_of_not_mem h, last_of_not_mem h⟩

theorem splitColons_fields {last : List Char} (hlast : ¬ separator <:+: last) :
    ∀ {front : List (List Char)}, (∀ cs ∈ front, Closed cs) →
      splitColons (front.flatMap (· ++ separator) ++ last) [] = front ++ [last] := by
  intro front
  induction front with
  | nil => exact fun _ => splitColons_whole hlast []
  | cons cs front ih =>
      intro h
      obtain ⟨hcs, hfront⟩ := List.forall_mem_cons.mp h
      have hrest := splitColons_append hcs.1 hcs.2 (front.flatMap (· ++ separator) ++ last) []
      rw [ih hfront] at hrest
      rw [List.flatMap_cons, List.append_assoc, List.append_assoc]
      exact hrest

/-- At most one colon is left in front of what follows. -/
theorem first_front {u v front : List Char}
    (h : u.getLast? ≠ some ':' ∧ v = u ∧ front = [] ∨ u = v ++ [':'] ∧ front = [':']) :
    front = [] ∨ front = [':'] :=
  h.imp (fun h => h.2.2) fun h => h.2

/-- The first field, whether or not a colon at its end runs into the separator. -/
theorem splitColons_first {u : List Char} (hu : ¬ separator <:+: u) : ∃ v front,
    (u.getLast? ≠ some ':' ∧ v = u ∧ front = [] ∨ u = v ++ [':'] ∧ front = [':']) ∧
    ∀ rest, splitColons (u ++ ':' :: ':' :: rest) [] = v :: splitColons (front ++ rest) [] := by
  by_cases hlast : u.getLast? = some ':'
  · obtain ⟨v, rfl⟩ := List.getLast?_eq_some_iff.mp hlast
    have hv : ¬ separator <:+: v := fun h => hu (h.trans (List.prefix_append v [':']).isInfix)
    have hend : v.getLast? ≠ some ':' := by
      intro hcolon
      obtain ⟨w, rfl⟩ := List.getLast?_eq_some_iff.mp hcolon
      exact hu ⟨w, [], by rw [List.append_nil, separator, List.append_assoc]; rfl⟩
    refine ⟨v, [':'], .inr ⟨rfl, rfl⟩, fun rest => ?_⟩
    rw [List.append_assoc]
    exact splitColons_append hv hend (':' :: rest) []
  · exact ⟨u, [], .inl ⟨hlast, rfl, rfl⟩, fun rest => splitColons_append hu hlast rest []⟩

namespace UrlFactory

theorem splitTokenizedUrl_of_last {s : String} {fields : List (List Char)} {last : List Char}
    (h : splitColons s.toList [] = fields ++ [last]) (hlast : last ≠ []) :
    splitTokenizedUrl s = (fields ++ [last]).map String.ofList := by
  have hempty : last.isEmpty = false := List.isEmpty_eq_false_iff.mpr hlast
  rw [splitTokenizedUrl, h]
  cases fields with
  | nil => rfl
  | cons field fields =>
      cases fields with
      | nil =>
          simp only [List.cons_append, List.nil_append, List.reverse_cons, List.reverse_nil,
            List.dropWhile_cons, hempty, Bool.false_eq_true, if_false]
      | cons _ _ =>
          simp only [List.cons_append, List.reverse_cons, List.reverse_append, List.reverse_nil,
            List.nil_append, List.dropWhile_cons, hempty, Bool.false_eq_true, if_false,
            List.reverse_reverse, List.append_assoc]

theorem splitTokenizedUrl_fields {s : String} {front : List String} {last : String}
    (hs : s.toList = (front.map String.toList).flatMap (· ++ separator) ++ last.toList)
    (hfront : ∀ field ∈ front, Closed field.toList) (hlast : ¬ separator <:+: last.toList)
    (hne : last ≠ "") : splitTokenizedUrl s = front ++ [last] := by
  have hne' : last.toList ≠ [] := fun h => hne (String.toList_eq_nil_iff.mp h)
  have hsplit : splitColons s.toList [] = front.map String.toList ++ [last.toList] := by
    rw [hs]
    exact splitColons_fields hlast (List.forall_mem_map.mpr hfront)
  rw [splitTokenizedUrl_of_last hsplit hne', List.map_append, List.map_map]
  have hid : String.ofList ∘ String.toList = id := funext fun _ => String.ofList_toList
  rw [hid, List.map_id, List.map_singleton, String.ofList_toList]

theorem second_of_splitTokenizedUrl {s field : String}
    (h : (splitTokenizedUrl s)[1]? = some field) :
    (splitColons s.toList [])[1]? = some field.toList := by
  rw [splitTokenizedUrl] at h
  split at h
  · cases h
  · rw [List.getElem?_map] at h
    obtain ⟨cs, hcs, rfl⟩ := Option.map_eq_some_iff.mp h
    obtain ⟨behind, hfields⟩ := List.rdropWhile_prefix List.isEmpty (splitColons s.toList [])
    have hlt := (List.getElem?_eq_some_iff.mp hcs).1
    rw [String.toList_ofList, ← hcs]
    exact (congrArg (·[1]?) hfields).symm.trans (List.getElem?_append_left hlt)

end UrlFactory

/-! ## The forms -/

inductive LineForm where
  /-- `<url>` -/
  | url
  /-- `<url>::<visit time>` -/
  | urlTime
  /-- `<url>::<suspicionScore>` -/
  | urlScore
  /-- `<url>::<client>` -/
  | urlClient
  /-- `<url>::<client>::<visit time>` -/
  | urlClientTime
  /-- `<url>::<client>::<suspicionScore>` -/
  | urlClientScore
  /-- `<url>::<visitTime>::<suspicionScore>` -/
  | urlTimeScore
  /-- `<url>::<client>::<visitTime>::<suspicionScore>` -/
  | urlClientTimeScore
deriving DecidableEq

/-- The fields of a line, and what the numbers among them are. -/
structure LineParts where
  url : String
  client : String
  time : String
  score : String
  visitTime : Int
  priority : Double
  url_whole : ¬ separator <:+: url.toList
  client_noInt : parseInt client = none
  client_noDouble : parseDouble client = none
  time_int : parseInt time = some visitTime
  score_double : parseDouble score = some priority
  score_point : '.' ∈ score.toList

namespace LineForm

def line (parts : LineParts) : LineForm → String
  | .url => parts.url
  | .urlTime => parts.url ++ "::" ++ parts.time
  | .urlScore => parts.url ++ "::" ++ parts.score
  | .urlClient => parts.url ++ "::" ++ parts.client
  | .urlClientTime => parts.url ++ "::" ++ parts.client ++ "::" ++ parts.time
  | .urlClientScore => parts.url ++ "::" ++ parts.client ++ "::" ++ parts.score
  | .urlTimeScore => parts.url ++ "::" ++ parts.time ++ "::" ++ parts.score
  | .urlClientTimeScore =>
      parts.url ++ "::" ++ parts.client ++ "::" ++ parts.time ++ "::" ++ parts.score

def hasClient : LineForm → Bool
  | .urlClient | .urlClientTime | .urlClientScore | .urlClientTimeScore => true
  | _ => false

def hasTime : LineForm → Bool
  | .urlTime | .urlClientTime | .urlTimeScore | .urlClientTimeScore => true
  | _ => false

def hasScore : LineForm → Bool
  | .urlScore | .urlClientScore | .urlTimeScore | .urlClientTimeScore => true
  | _ => false

/-- The URL that a line of the form stands for. -/
def expected (cfg : UrlConfig) (id text : String) (parts : LineParts) (form : LineForm) :
    ScoredUrl where
  id := id
  url := text
  clientProgram := if form.hasClient then parts.client else cfg.clientDefault
  visitTime := if form.hasTime then parts.visitTime else cfg.clientDefaultVisitTime
  priority := if form.hasScore then parts.priority else UrlFactory.defaultPriority

/-- What keeps the fields of a line apart. -/
structure Apart (parts : LineParts) (form : LineForm) : Prop where
  not_timeScore : form ≠ .urlTimeScore
  url_end : form = .url ∨ parts.url.toList.getLast? ≠ some ':'
  client_ne : form.hasClient → parts.client ≠ ""
  client_whole : form.hasClient → ¬ separator <:+: parts.client.toList
  client_end : form.hasClient → form = .urlClient ∨ parts.client.toList.getLast? ≠ some ':'

end LineForm

/-! ## What is read -/

namespace UrlFactory

variable {cfg : UrlConfig} {id : String} {url : ScoredUrl}

theorem newScoredUrl_ok {u text : String} (h : cfg.uri u = some text) (cProgram : Option String)
    (vTime : Int) (priority : Double) : newScoredUrl cfg id u cProgram vTime priority = .ok
      { id, url := text, visitTime := vTime, priority
        clientProgram := match cProgram with
          | none => cfg.clientDefault
          | some program =>
              if program = "" ∧ cfg.emptyIsLiteral then cfg.clientDefault else program } := by
  rw [newScoredUrl, newUrl.eq_def, h]
  rfl

theorem newScoredUrl_client {u text program : String} (h : cfg.uri u = some text)
    (hne : program ≠ "") (vTime : Int) (priority : Double) :
    newScoredUrl cfg id u (some program) vTime priority =
      .ok { id, url := text, clientProgram := program, visitTime := vTime, priority } := by
  rw [newScoredUrl_ok h]
  exact congrArg (fun client => Except.ok
    ({ id, url := text, clientProgram := client, visitTime := vTime, priority } : ScoredUrl))
    (if_neg fun hboth => hne hboth.1)

/-- The client of a URL. -/
theorem clientProgram_newScoredUrl {u : String} {cProgram : Option String} {vTime : Int}
    {priority : Double} (h : newScoredUrl cfg id u cProgram vTime priority = .ok url) :
    url.clientProgram = cProgram.elim cfg.clientDefault fun program =>
      if program = "" ∧ cfg.emptyIsLiteral then cfg.clientDefault else program := by
  rw [newScoredUrl, newUrl.eq_def] at h
  cases huri : cfg.uri u with
  | none =>
      rw [huri] at h
      cases h
  | some text =>
      rw [huri] at h
      obtain rfl := Except.ok.inj h
      cases cProgram with
      | none => rfl
      | some program => rfl

theorem clientProgram_some {u program : String} {vTime : Int} {priority : Double}
    (h : newScoredUrl cfg id u (some program) vTime priority = .ok url) :
    url.clientProgram =
      if program = "" ∧ cfg.emptyIsLiteral then cfg.clientDefault else program :=
  clientProgram_newScoredUrl h

/-- The client is the default one or the second field. -/
theorem clientProgram_getScoredUrl (hliteral : cfg.emptyIsLiteral = true) {line : String}
    (h : getScoredUrl cfg id line = .ok url) : url.clientProgram = cfg.clientDefault ∨
      url.clientProgram ≠ "" ∧ (splitTokenizedUrl line)[1]? = some url.clientProgram := by
  have hfield : ∀ {u field : String} {vTime : Int} {priority : Double},
      (splitTokenizedUrl line)[1]? = some field →
      newScoredUrl cfg id u (some field) vTime priority = .ok url →
      url.clientProgram = cfg.clientDefault ∨
        url.clientProgram ≠ "" ∧ (splitTokenizedUrl line)[1]? = some url.clientProgram := by
    intro u field vTime priority hsecond hnew
    have hclient := clientProgram_some hnew
    by_cases hempty : field = ""
    · exact .inl (hclient.trans (if_pos ⟨hempty, hliteral⟩))
    · have heq := hclient.trans (if_neg fun hboth => hempty hboth.1)
      rw [heq]
      exact .inr ⟨hempty, hsecond⟩
  rw [getScoredUrl] at h
  split at h
  next => exact .inl (clientProgram_newScoredUrl h)
  next heq =>
    split at h
    · exact .inl (clientProgram_newScoredUrl h)
    · split at h
      · exact .inl (clientProgram_newScoredUrl h)
      · exact hfield (congrArg (·[1]?) heq) h
  next heq =>
    split at h
    · exact hfield (congrArg (·[1]?) heq) h
    · split at h
      · exact hfield (congrArg (·[1]?) heq) h
      · split at h
        · exact .inl (clientProgram_newScoredUrl h)
        · cases h
  next heq =>
    split at h
    · exact hfield (congrArg (·[1]?) heq) h
    · cases h
  next => cases h

end UrlFactory

namespace LineForm

variable {cfg : UrlConfig} {id text : String} {parts : LineParts} {form : LineForm}

theorem time_closed (parts : LineParts) : Closed parts.time.toList :=
  closed_of_not_mem (parseInt_colon parts.time_int)

theorem score_closed (parts : LineParts) : Closed parts.score.toList :=
  closed_of_not_mem (parseDouble_colon parts.score_double)

theorem time_ne (parts : LineParts) : parts.time ≠ "" := by
  intro h
  have htime := parts.time_int
  rw [h] at htime
  cases htime

theorem score_ne (parts : LineParts) : parts.score ≠ "" := by
  intro h
  have hpoint := parts.score_point
  rw [h] at hpoint
  exact absurd hpoint List.not_mem_nil

theorem score_noInt (parts : LineParts) : parseInt parts.score = none :=
  parseInt_point parts.score_point

/-- A line whose fields are kept apart is read as it is meant. -/
theorem read_of_apart (h : form.Apart parts) (huri : cfg.uri parts.url = some text) :
    UrlFactory.getScoredUrl cfg id (form.line parts) = .ok (form.expected cfg id text parts) := by
  have hurl : form ≠ .url → Closed parts.url.toList :=
    fun hform => ⟨parts.url_whole, h.url_end.resolve_left hform⟩
  have hclient : form.hasClient → form ≠ .urlClient → Closed parts.client.toList :=
    fun hhas hform => ⟨h.client_whole hhas, (h.client_end hhas).resolve_left hform⟩
  have htime := time_closed parts
  have hscore := score_closed parts
  -- the fields of the line, for each form
  have hread : ∀ {front : List String} {last : String},
      (form.line parts).toList =
        (front.map String.toList).flatMap (· ++ separator) ++ last.toList →
      (∀ field ∈ front, Closed field.toList) → ¬ separator <:+: last.toList → last ≠ "" →
      UrlFactory.splitTokenizedUrl (form.line parts) = front ++ [last] :=
    UrlFactory.splitTokenizedUrl_fields
  cases form with
  | url =>
      have hfields : UrlFactory.splitTokenizedUrl parts.url = [parts.url] := by
        rw [UrlFactory.splitTokenizedUrl, splitColons_whole parts.url_whole]
        exact congrArg (fun s => [s]) String.ofList_toList
      rw [UrlFactory.getScoredUrl, line, hfields]
      exact UrlFactory.newScoredUrl_ok huri none _ _
  | urlTime =>
      have hfields := @hread [parts.url] parts.time (by simp [line, separator])
        (List.forall_mem_singleton.mpr (hurl (by decide))) htime.1 (time_ne parts)
      rw [UrlFactory.getScoredUrl, hfields]
      simp only [List.cons_append, List.nil_append, parts.time_int]
      exact UrlFactory.newScoredUrl_ok huri none _ _
  | urlScore =>
      have hfields := @hread [parts.url] parts.score (by simp [line, separator])
        (List.forall_mem_singleton.mpr (hurl (by decide))) hscore.1 (score_ne parts)
      rw [UrlFactory.getScoredUrl, hfields]
      simp only [List.cons_append, List.nil_append, score_noInt parts, parts.score_double]
      exact UrlFactory.newScoredUrl_ok huri none _ _
  | urlClient =>
      have hfields := @hread [parts.url] parts.client (by simp [line, separator])
        (List.forall_mem_singleton.mpr (hurl (by decide))) (h.client_whole rfl) (h.client_ne rfl)
      rw [UrlFactory.getScoredUrl, hfields]
      simp only [List.cons_append, List.nil_append, parts.client_noInt, parts.client_noDouble]
      exact UrlFactory.newScoredUrl_client huri (h.client_ne rfl) _ _
  | urlClientTime =>
      have hfront : ∀ field ∈ [parts.url, parts.client], Closed field.toList :=
        List.forall_mem_cons.mpr ⟨hurl (by decide),
          List.forall_mem_singleton.mpr (hclient rfl (by decide))⟩
      have hfields := @hread [parts.url, parts.client] parts.time (by simp [line, separator])
        hfront htime.1 (time_ne parts)
      rw [UrlFactory.getScoredUrl, hfields]
      simp only [List.cons_append, List.nil_append, parts.time_int]
      exact UrlFactory.newScoredUrl_client huri (h.client_ne rfl) _ _
  | urlClientScore =>
      have hfront : ∀ field ∈ [parts.url, parts.client], Closed field.toList :=
        List.forall_mem_cons.mpr ⟨hurl (by decide),
          List.forall_mem_singleton.mpr (hclient rfl (by decide))⟩
      have hfields := @hread [parts.url, parts.client] parts.score (by simp [line, separator])
        hfront hscore.1 (score_ne parts)
      rw [UrlFactory.getScoredUrl, hfields]
      simp only [List.cons_append, List.nil_append, score_noInt parts, parts.score_double]
      exact UrlFactory.newScoredUrl_client huri (h.client_ne rfl) _ _
  | urlTimeScore => exact absurd rfl h.not_timeScore
  | urlClientTimeScore =>
      have hfront : ∀ field ∈ [parts.url, parts.client, parts.time], Closed field.toList :=
        List.forall_mem_cons.mpr ⟨hurl (by decide), List.forall_mem_cons.mpr
          ⟨hclient rfl (by decide), List.forall_mem_singleton.mpr htime⟩⟩
      have hfields := @hread [parts.url, parts.client, parts.time] parts.score
        (by simp [line, separator]) hfront hscore.1 (score_ne parts)
      rw [UrlFactory.getScoredUrl, hfields]
      simp only [List.cons_append, List.nil_append, parts.time_int, parts.score_double]
      exact UrlFactory.newScoredUrl_client huri (h.client_ne rfl) _ _

/-! ### Where fields run into one another -/

/-- A client that is found again is not empty, and is kept apart from the fields around it. -/
theorem client_of_second {front client behind : List Char} (hfront : front = [] ∨ front = [':'])
    (hne : client ≠ []) (hbehind : behind = [] ∨ ∃ rest, behind = ':' :: ':' :: rest)
    (h : beforeColons (front ++ (client ++ behind)) = client) :
    front = [] ∧ ¬ separator <:+: client ∧ (behind = [] ∨ client.getLast? ≠ some ':') := by
  have hnil : front = [] := by
    rcases hfront with rfl | rfl
    · rfl
    · cases client with
      | nil => exact absurd rfl hne
      | cons c cs =>
          by_cases hc : c = ':'
          · subst hc
            rw [List.singleton_append, List.cons_append, beforeColons] at h
            cases h
          · have hnext : ':' ≠ ':' ∨ (c :: cs ++ behind).head? ≠ some ':' :=
              .inr fun hcolon => hc (Option.some.inj hcolon)
            rw [List.singleton_append, beforeColons_cons hnext] at h
            exact absurd (List.cons.inj h).1.symm hc
  subst hnil
  rw [List.nil_append] at h
  have hshort : ∀ d e, client ++ behind = d ++ ':' :: ':' :: e → client.length ≤ d.length := by
    intro d e heq
    rw [heq] at h
    exact h ▸ length_beforeColons d e
  refine ⟨rfl, ?_, ?_⟩
  · rintro ⟨d, e, rfl⟩
    have hlen := hshort d (e ++ behind) (by simp [separator])
    simp [separator] at hlen
  · rcases hbehind with rfl | ⟨rest, rfl⟩
    · exact .inl rfl
    · right
      intro hlast
      obtain ⟨d, rfl⟩ := List.getLast?_eq_some_iff.mp hlast
      have hlen := hshort d (':' :: rest) (by rw [List.append_assoc]; rfl)
      simp at hlen

theorem ne_append (s : String) : s ≠ s ++ "x" := by
  intro h
  have hlen := congrArg String.length h
  rw [String.length_append] at hlen
  exact absurd hlen (Nat.ne_of_lt (Nat.lt_succ_self _))

/-- A number keeps a colon that runs into it. -/
theorem front_closed {front cs : List Char} (hfront : front = [] ∨ front = [':']) (hcs : ':' ∉ cs)
    (hne : cs ≠ []) : Closed (front ++ cs) := by
  rcases hfront with rfl | rfl
  · exact closed_of_not_mem hcs
  · constructor
    · intro hsep
      rcases List.infix_cons_iff.mp hsep with hprefix | hinfix
      · obtain ⟨rest, hrest⟩ := hprefix
        have htail : ':' :: rest = cs := (List.cons.inj hrest).2
        exact hcs (htail ▸ List.mem_cons_self)
      · exact whole_of_not_mem hcs hinfix
    · intro hlast
      rw [List.getLast?_append_of_ne_nil _ hne] at hlast
      exact last_of_not_mem hcs hlast

/-- A field that a colon has run into is taken for the client. -/
theorem client_of_run {url : ScoredUrl} {number : String} (hcolon : ':' ∉ number.toList)
    (hne : number ≠ "") (hlast : parts.url.toList.getLast? = some ':')
    (h : UrlFactory.getScoredUrl cfg id (parts.url ++ "::" ++ number) = .ok url) :
    url.clientProgram = ":" ++ number := by
  have hne' : number.toList ≠ [] := fun hnil => hne (String.toList_eq_nil_iff.mp hnil)
  obtain ⟨v, front, hcase, hsplit⟩ := splitColons_first parts.url_whole
  have hfront : front = [':'] := by
    rcases hcase with ⟨hother, -, -⟩ | ⟨-, hfront⟩
    · exact absurd hlast hother
    · exact hfront
  have hclosed := front_closed (.inr rfl) hcolon hne'
  have hraw : splitColons (parts.url ++ "::" ++ number).toList [] = [v] ++ [[':'] ++ number.toList] := by
    have htext : (parts.url ++ "::" ++ number).toList =
        parts.url.toList ++ ':' :: ':' :: number.toList := by simp
    rw [htext, hsplit, hfront, splitColons_whole hclosed.1]
    rfl
  have hfields := UrlFactory.splitTokenizedUrl_of_last hraw (List.cons_ne_nil _ _)
  have hfield : String.ofList ([':'] ++ number.toList) = ":" ++ number := by
    rw [String.ofList_append, String.ofList_toList]
  have hmem : ':' ∈ (":" ++ number).toList := by simp
  have hnoInt : parseInt (":" ++ number) = none := by
    cases hint : parseInt (":" ++ number) with
    | none => rfl
    | some n => exact absurd hmem (parseInt_colon hint)
  have hnoDouble : parseDouble (":" ++ number) = none :=
    parseDouble_eq_none.mpr (parsesDouble_colon hmem)
  have hnonempty : ":" ++ number ≠ "" := fun hempty => absurd (hempty ▸ hmem) List.not_mem_nil
  rw [UrlFactory.getScoredUrl, hfields] at h
  simp only [List.cons_append, List.nil_append, List.map_cons, List.map_nil] at h
  rw [List.singleton_append] at hfield
  simp only [hfield, hnoInt, hnoDouble] at h
  exact (UrlFactory.clientProgram_some h).trans (if_neg fun hboth => hnonempty hboth.1)

/-- The field in front of a score is always taken for the client. -/
theorem client_of_timeScore (parts : LineParts) : ∃ client, client ≠ "" ∧
    ∀ {cfg id url}, UrlFactory.getScoredUrl cfg id (line parts .urlTimeScore) = .ok url →
      url.clientProgram = client := by
  have hne' : parts.time.toList ≠ [] := fun hnil => time_ne parts (String.toList_eq_nil_iff.mp hnil)
  have hscore' : parts.score.toList ≠ [] :=
    fun hnil => score_ne parts (String.toList_eq_nil_iff.mp hnil)
  obtain ⟨v, front, hcase, hsplit⟩ := splitColons_first parts.url_whole
  have hfront : front = [] ∨ front = [':'] := first_front hcase
  have hclosed := front_closed hfront (parseInt_colon parts.time_int) hne'
  have hraw : splitColons (line parts .urlTimeScore).toList [] =
      [v, front ++ parts.time.toList] ++ [parts.score.toList] := by
    have htext : (line parts .urlTimeScore).toList = parts.url.toList ++ ':' :: ':' ::
        (parts.time.toList ++ ':' :: ':' :: parts.score.toList) := by simp [line]
    rw [htext, hsplit, ← List.append_assoc, splitColons_append hclosed.1 hclosed.2,
      splitColons_whole (score_closed parts).1]
    rfl
  have hfields := UrlFactory.splitTokenizedUrl_of_last hraw hscore'
  have hnonempty : String.ofList (front ++ parts.time.toList) ≠ "" := by
    intro hempty
    have htext := congrArg String.toList hempty
    rw [String.toList_ofList] at htext
    exact hne' (List.append_eq_nil_iff.mp htext).2
  refine ⟨String.ofList (front ++ parts.time.toList), hnonempty, fun {cfg id url} h => ?_⟩
  rw [UrlFactory.getScoredUrl, hfields] at h
  simp only [List.cons_append, List.nil_append, List.map_cons, List.map_nil, String.ofList_toList,
    score_noInt parts, parts.score_double] at h
  exact (UrlFactory.clientProgram_some h).trans (if_neg fun hboth => hnonempty hboth.1)

/-- A client, and what is behind it on the line. -/
theorem line_client (h : form.hasClient) : ∃ behind,
    (behind = [] ∨ ∃ rest, behind = ':' :: ':' :: rest) ∧ (behind = [] → form = .urlClient) ∧
      (form.line parts).toList =
        parts.url.toList ++ ':' :: ':' :: (parts.client.toList ++ behind) := by
  cases form with
  | url => cases h
  | urlTime => cases h
  | urlScore => cases h
  | urlTimeScore => cases h
  | urlClient => exact ⟨[], .inl rfl, fun _ => rfl, by simp [line]⟩
  | urlClientTime =>
      exact ⟨':' :: ':' :: parts.time.toList, .inr ⟨_, rfl⟩, fun h => absurd h (List.cons_ne_nil _ _),
        by simp [line]⟩
  | urlClientScore =>
      exact ⟨':' :: ':' :: parts.score.toList, .inr ⟨_, rfl⟩, fun h => absurd h (List.cons_ne_nil _ _),
        by simp [line]⟩
  | urlClientTimeScore =>
      exact ⟨':' :: ':' :: (parts.time.toList ++ ':' :: ':' :: parts.score.toList), .inr ⟨_, rfl⟩,
        fun h => absurd h (List.cons_ne_nil _ _), by simp [line]⟩

/-- A line with a client that is read as it is meant. -/
theorem apart_of_client (h : form.hasClient) {url : ScoredUrl} (hliteral : cfg.emptyIsLiteral = true)
    (hdefault : parts.client ≠ cfg.clientDefault)
    (hread : UrlFactory.getScoredUrl cfg id (form.line parts) = .ok url)
    (hclient : url.clientProgram = parts.client) : form.Apart parts := by
  have hsecond := UrlFactory.clientProgram_getScoredUrl hliteral hread
  rw [hclient] at hsecond
  obtain ⟨hne, hsecond⟩ := hsecond.resolve_left hdefault
  have hne' : parts.client.toList ≠ [] := fun hnil => hne (String.toList_eq_nil_iff.mp hnil)
  obtain ⟨behind, hbehind, hform, hline⟩ := @line_client parts form h
  obtain ⟨v, front, hcase, hsplit⟩ := splitColons_first parts.url_whole
  have hfront : front = [] ∨ front = [':'] := first_front hcase
  have hfield : beforeColons (front ++ (parts.client.toList ++ behind)) = parts.client.toList := by
    have hraw := UrlFactory.second_of_splitTokenizedUrl hsecond
    rw [hline, hsplit, List.getElem?_cons_succ, ← List.head?_eq_getElem?, splitColons_head] at hraw
    exact Option.some.inj hraw
  obtain ⟨hnil, hwhole, hlast⟩ := client_of_second hfront hne' hbehind hfield
  have hurl : parts.url.toList.getLast? ≠ some ':' := by
    rcases hcase with ⟨hlast, -, -⟩ | ⟨-, hcolon⟩
    · exact hlast
    · exact absurd (hnil.symm.trans hcolon) (List.cons_ne_nil _ _).symm
  refine ⟨?_, .inr hurl, fun _ => hne, fun _ => hwhole, fun _ => hlast.imp_left hform⟩
  rintro rfl
  cases h

/-- **When a line is read as it is meant**, whatever the defaults are. -/
theorem read_iff (uri : String → Option String) (parts : LineParts) (form : LineForm) {text : String}
    (huri : uri parts.url = some text) :
    (∀ cfg : UrlConfig, cfg.uri = uri → ∀ id,
      UrlFactory.getScoredUrl cfg id (form.line parts) = .ok (form.expected cfg id text parts)) ↔
    form.Apart parts := by
  constructor
  · intro h
    by_cases hclient : form.hasClient
    · have hread := h ⟨uri, true, parts.client ++ "x", 0⟩ rfl ""
      exact apart_of_client hclient rfl (ne_append parts.client) hread (if_pos hclient)
    · have hother : ∀ client, (∀ cfg id url,
          UrlFactory.getScoredUrl cfg id (form.line parts) = .ok url → url.clientProgram = client) →
          False := by
        intro client hall
        have hread := h ⟨uri, true, client ++ "x", 0⟩ rfl ""
        have hdefault := hall _ _ _ hread
        exact ne_append client (hdefault.symm.trans (if_neg hclient))
      have htimeScore : form ≠ .urlTimeScore := by
        rintro rfl
        obtain ⟨client, -, hall⟩ := client_of_timeScore parts
        exact hother client fun _ _ _ => hall
      refine ⟨htimeScore, ?_, fun hhas => absurd hhas hclient, fun hhas => absurd hhas hclient,
        fun hhas => absurd hhas hclient⟩
      cases form with
      | url => exact .inl rfl
      | urlTime =>
          exact .inr fun hlast => hother _ fun _ _ _ =>
            client_of_run (parseInt_colon parts.time_int) (time_ne parts) hlast
      | urlScore =>
          exact .inr fun hlast => hother _ fun _ _ _ =>
            client_of_run (parseDouble_colon parts.score_double) (score_ne parts) hlast
      | urlTimeScore => exact absurd rfl htimeScore
      | urlClient => exact absurd rfl hclient
      | urlClientTime => exact absurd rfl hclient
      | urlClientScore => exact absurd rfl hclient
      | urlClientTimeScore => exact absurd rfl hclient
  · rintro h cfg rfl id
    exact read_of_apart h huri

def sampleLine : LineParts where
  url := "http://a"
  client := "firefox"
  time := "5"
  score := "1.0"
  visitTime := 5
  priority := .finite 1
  url_whole := by decide
  client_noInt := by decide
  client_noDouble := by decide
  time_int := by decide
  score_double := parseDouble_one
  score_point := by decide

theorem read_sample :
    UrlFactory.getScoredUrl ⟨some, false, "iexplore", 30⟩ "1" "http://a::firefox::5::1.0" =
      .ok ⟨⟨"1", "http://a", "firefox", 5⟩, .finite 1⟩ := by
  have hapart : (urlClientTimeScore).Apart sampleLine :=
    ⟨by decide, .inr (by decide), fun _ => by decide, fun _ => by decide, fun _ => .inr (by decide)⟩
  exact (read_iff some sampleLine .urlClientTimeScore rfl).mpr hapart _ rfl "1"

/-- The visit time is taken for the client. -/
theorem time_taken_for_client :
    UrlFactory.getScoredUrl ⟨some, false, "iexplore", 30⟩ "1" (line sampleLine .urlTimeScore) ≠
      .ok (expected ⟨some, false, "iexplore", 30⟩ "1" "http://a" sampleLine .urlTimeScore) := by
  intro h
  have hfields : UrlFactory.splitTokenizedUrl (line sampleLine .urlTimeScore) =
      ["http://a", "5", "1.0"] := by decide
  have hscore : parseInt "1.0" = none := by decide
  rw [UrlFactory.getScoredUrl, hfields] at h
  simp only [hscore, parseDouble_one] at h
  exact absurd (UrlFactory.clientProgram_some h) (by decide)

end LineForm

end CaptureHpc.Server
