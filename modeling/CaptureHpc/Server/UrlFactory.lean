/-
# `Server.UrlFactory` — from a line to a URL

A line of the input is an address, and perhaps a client, a visit time and a
suspicion score behind it, with `::` between them.  `getUrl` finds out which by
what can be read as a number; a line that does not fit gives no URL.

The score only orders the queue, and is not kept; which exception it is that a
line ends in is not kept either.
-/
import CaptureHpc.Server.Url

namespace CaptureHpc.Server

open Java

/-- What is needed of the configuration and of the classes of the platform. -/
structure UrlConfig where
  /-- `new URL(u)`, the `URI` made from its parts, and its text; `none` is an exception. -/
  uri : String → Option String
  /-- An empty field of `split` is the literal `""`. -/
  emptyIsLiteral : Bool
  /-- `client-default`. -/
  clientDefault : String
  /-- `client-default-visit-time`. -/
  clientDefaultVisitTime : Int

/-- The fields of a string between `::`. -/
def splitColons : List Char → List Char → List (List Char)
  | [], field => [field]
  | ':' :: ':' :: rest, field => field :: splitColons rest []
  | c :: rest, field => splitColons rest (field ++ [c])

namespace UrlFactory

/-- `tokenizedUrl.split("::")`: without the empty fields at the end, unless there is one field. -/
def splitTokenizedUrl (tokenizedUrl : String) : List String :=
  match splitColons tokenizedUrl.toList [] with
  | [field] => [String.ofList field]
  | fields => ((fields.reverse.dropWhile List.isEmpty).reverse).map String.ofList

/-- The constructor of `Url`. -/
def newUrl (cfg : UrlConfig) (id u : String) (cProgram : Option String) (vTime : Int) :
    Option Url :=
  (cfg.uri u).map fun url =>
    { id, url
      clientProgram := match cProgram with
        | none => cfg.clientDefault
        | some program => if program = "" ∧ cfg.emptyIsLiteral then cfg.clientDefault else program
      visitTime := vTime }

/-- `getUrl`; `none` is an exception. -/
def getUrl (cfg : UrlConfig) (id tokenizedUrl : String) : Option Url :=
  match splitTokenizedUrl tokenizedUrl with
  | [u] => newUrl cfg id u none cfg.clientDefaultVisitTime
  | [u, field] =>
      match parseInt field with
      | some visitTime => newUrl cfg id u none visitTime
      | none =>
          if parsesDouble field then newUrl cfg id u none cfg.clientDefaultVisitTime
          else newUrl cfg id u (some field) cfg.clientDefaultVisitTime
  | [u, field, last] =>
      match parseInt last with
      | some visitTime => newUrl cfg id u (some field) visitTime
      | none =>
          if parsesDouble last then newUrl cfg id u (some field) cfg.clientDefaultVisitTime
          else
            -- <url>::<visitTime>::<suspiconScore>, which is tried when the score is none
            match parseInt field with
            | some visitTime => if parsesDouble last then newUrl cfg id u none visitTime else none
            | none => none
  | [u, client, time, score] =>
      match parseInt time with
      | some visitTime =>
          if parsesDouble score then newUrl cfg id u (some client) visitTime else none
      | none => none
  | _ => none

theorem id_newUrl {cfg : UrlConfig} {id u : String} {cProgram : Option String} {vTime : Int}
    {url : Url} (h : newUrl cfg id u cProgram vTime = some url) : url.id = id := by
  obtain ⟨text, -, rfl⟩ := Option.map_eq_some_iff.mp h
  rfl

/-- The URL has the id that it was asked for with. -/
theorem id_getUrl {cfg : UrlConfig} {id tokenizedUrl : String} {url : Url}
    (h : getUrl cfg id tokenizedUrl = some url) : url.id = id := by
  unfold getUrl at h
  split at h
  · exact id_newUrl h
  · split at h
    · exact id_newUrl h
    · split_ifs at h
      · exact id_newUrl h
      · exact id_newUrl h
  · split at h
    · exact id_newUrl h
    · split_ifs at h
      · exact id_newUrl h
      · -- the score is none, and is asked for again
        split at h
        · cases h
        · cases h
  · split at h
    · split_ifs at h
      exact id_newUrl h
    · cases h
  · cases h

/-- The fields of a lowered line are the lowered fields. -/
theorem splitColons_lower (cs field : List Char) :
    splitColons (cs.map lowerChar) (field.map lowerChar) =
      (splitColons cs field).map (List.map lowerChar) := by
  have hcolon : ∀ c : Char, lowerChar c = ':' ↔ c = ':' := fun c =>
    lowerChar_eq_iff (by decide) (by decide)
  induction cs, field using splitColons.induct with
  | case1 field => rfl
  | case2 rest field ih =>
      show splitColons (':' :: ':' :: rest.map lowerChar) (field.map lowerChar) = _
      rw [splitColons.eq_2, splitColons.eq_2, List.map_cons, ← ih]
      rfl
  | case3 c rest field hnot ih =>
      rw [splitColons.eq_3 field c rest hnot, ← ih, List.map_append, List.map_cons]
      refine splitColons.eq_3 _ _ _ fun rest' hc hrest => ?_
      obtain ⟨d, rest'', rfl, hd, -⟩ := List.map_eq_cons_iff.mp hrest
      exact hnot rest'' ((hcolon c).mp hc) (by rw [(hcolon d).mp hd])

theorem splitTokenizedUrl_lower (line : String) :
    splitTokenizedUrl (toLowerCase line) = (splitTokenizedUrl line).map toLowerCase := by
  have hfields : splitColons (line.toList.map lowerChar) [] =
      (splitColons line.toList []).map (List.map lowerChar) := splitColons_lower line.toList []
  have hlower : (toLowerCase line).toList = line.toList.map lowerChar := String.toList_ofList
  have htext : ∀ field : List Char,
      String.ofList (field.map lowerChar) = toLowerCase (String.ofList field) := fun field => by
    rw [toLowerCase, String.toList_ofList]
  have hempty : (List.isEmpty ∘ List.map lowerChar) = List.isEmpty := by
    funext field
    exact List.isEmpty_map
  rw [splitTokenizedUrl, splitTokenizedUrl, hlower, hfields]
  generalize splitColons line.toList [] = fields
  rcases fields with _ | ⟨f, _ | ⟨g, fields⟩⟩
  · rfl
  · exact congrArg (fun u => [u]) (htext f)
  · show ((((f :: g :: fields).map (List.map lowerChar)).reverse.dropWhile
      List.isEmpty).reverse).map String.ofList = _
    rw [← List.map_reverse, List.dropWhile_map, hempty, ← List.map_reverse, List.map_map,
      List.map_map]
    exact List.map_congr_left fun field _ => htext field

theorem uri_newUrl {cfg : UrlConfig} {id u : String} {cProgram : Option String} {vTime : Int}
    {url : Url} (h : newUrl cfg id u cProgram vTime = some url) : cfg.uri u = some url.url := by
  obtain ⟨text, htext, rfl⟩ := Option.map_eq_some_iff.mp h
  exact htext

/-- The address is the first field, as the platform reads and writes it. -/
theorem uri_getUrl {cfg : UrlConfig} {id tokenizedUrl : String} {url : Url}
    (h : getUrl cfg id tokenizedUrl = some url) :
    ∃ u, (splitTokenizedUrl tokenizedUrl).head? = some u ∧ cfg.uri u = some url.url := by
  have hhead : ∀ {u : String} {rest : List String}, splitTokenizedUrl tokenizedUrl = u :: rest →
      cfg.uri u = some url.url →
        ∃ u, (splitTokenizedUrl tokenizedUrl).head? = some u ∧ cfg.uri u = some url.url :=
    fun hfields huri => ⟨_, by rw [hfields, List.head?_cons], huri⟩
  unfold getUrl at h
  split at h
  · next hfields => exact hhead hfields (uri_newUrl h)
  · next hfields =>
      refine hhead hfields ?_
      split at h
      · exact uri_newUrl h
      · split_ifs at h
        · exact uri_newUrl h
        · exact uri_newUrl h
  · next hfields =>
      refine hhead hfields ?_
      split at h
      · exact uri_newUrl h
      · split_ifs at h
        · exact uri_newUrl h
        · -- the score is none, and is asked for again
          split at h
          · cases h
          · cases h
  · next hfields =>
      refine hhead hfields ?_
      split at h
      · split_ifs at h
        exact uri_newUrl h
      · cases h
  · cases h

end UrlFactory

end CaptureHpc.Server
