/-
# `Java.NetUrl` — `java.net.URL` and `java.net.URI`

`new URL(spec)` takes a URL apart, and `new URI(scheme, authority, path, query,
fragment)` puts one together.  The first throws away what the parts do not show,
and makes the path canonical; the second quotes every character that may not
stand where it is put, and every percent sign.

Only the protocols of web pages are read here.  Whether the text that comes out
is a URI is not decided either; `URI` throws if it is not.  `parse_text` says
what is read in a text that has an authority, and `of_parse` what the parts are
made of.
-/
import CaptureHpc.Java.UrlCodec
import CaptureHpc.Java.UrlPath
import Mathlib.Data.List.DropRight

namespace Java

/-- What stands before the first `p`, and what behind it if there is one. -/
def cut (p : Char) (cs : List Char) : List Char × Option (List Char) :=
  (cs.takeWhile (· ≠ p), (cs.dropWhile (· ≠ p)).tail?)

/-- The parts of a `URL` that are asked for. -/
structure NetUrl where
  protocol : List Char
  host : List Char
  path : List Char
  query : Option (List Char)

namespace NetUrl

/-! ## Taking apart -/

/-- The host without the port. -/
def hostOfServer : List Char → Option (List Char)
  | '[' :: cs =>
      match cut ']' ('[' :: cs) with
      | (literal, some rest) =>
          if 2 < literal.length ∧ (rest = [] ∨ rest.head? = some ':') then some (literal ++ [']'])
          else none
      | (_, none) => none
  | cs => some (cut ':' cs).1

/-- The host without the user; an authority with two users has no host. -/
def hostOf (authority : List Char) : Option (List Char) :=
  match cut '@' authority with
  | (_, none) => hostOfServer authority
  | (_, some server) => if '@' ∈ server then some [] else hostOfServer server

/-- What follows the protocol, up to the query. -/
def hostAndPath (rest : List Char) : Option (List Char × List Char) :=
  if ['/', '/', '/', '/'].isPrefixOf rest then some ([], rest)
  else if ['/', '/'].isPrefixOf rest then
    (hostOf ((rest.drop 2).takeWhile (· ≠ '/'))).map fun host =>
      (host, (rest.drop 2).dropWhile (· ≠ '/'))
  else some ([], rest)

def trimmed (spec : List Char) : List Char :=
  (spec.dropWhile (· ≤ ' ')).rdropWhile (· ≤ ' ')

/-- Without `url:`. -/
def withoutPrefix (spec : List Char) : List Char :=
  if (spec.take 4).map lowerChar = ['u', 'r', 'l', ':'] then spec.drop 4 else spec

/-- The protocols of web pages. -/
def IsWeb (protocol : List Char) : Prop :=
  protocol = ['h', 't', 't', 'p'] ∨ protocol = ['h', 't', 't', 'p', 's']

instance : DecidablePred IsWeb := fun _ => inferInstanceAs (Decidable (_ ∨ _))

/-- The text has the protocol of a web page. -/
def IsWebUrl (spec : List Char) : Prop :=
  (cut ':' (withoutPrefix (trimmed spec))).2.isSome ∧
    IsWeb ((cut ':' (withoutPrefix (trimmed spec))).1.map lowerChar)

instance : DecidablePred IsWebUrl := fun _ => inferInstanceAs (Decidable (_ ∧ _))

/-- `new URL(spec)`, for `http` and `https`. -/
def parse (spec : List Char) : Option NetUrl :=
  match cut ':' (withoutPrefix (trimmed spec)) with
  | (_, none) => none
  | (protocol, some rest) =>
      let protocol := protocol.map lowerChar
      if IsWeb protocol then
        let (rest, query) := cut '?' (cut '#' rest).1
        (hostAndPath rest).map fun (host, path) =>
          { protocol, host, path := canonical path, query }
      else none

/-! ## Putting together -/

def isAlphanum (c : Char) : Bool :=
  let n := c.toNat
  (97 ≤ n && n ≤ 122) || (65 ≤ n && n ≤ 90) || (48 ≤ n && n ≤ 57)

/-- `unreserved` of the grammar of `URI`. -/
def isUnreserved (c : Char) : Bool := isAlphanum c || "-_.!~*'()".toList.contains c

def legalAuthority (c : Char) : Bool := isUnreserved c || "$,;:@&=+[]".toList.contains c

def legalPath (c : Char) : Bool := isUnreserved c || ":@&=+$,;/".toList.contains c

def legalQuery (c : Char) : Bool := isUnreserved c || ";/?:@&=+$,[]".toList.contains c

/-- `Character.isSpaceChar` or `Character.isISOControl`, from `0x80` on. -/
def isSpaceOrControl (c : Char) : Bool :=
  let n := c.toNat
  n ≤ 0xA0 || n == 0x1680 || (0x2000 ≤ n && n ≤ 0x200A) || n == 0x2028 || n == 0x2029 ||
    n == 0x202F || n == 0x205F || n == 0x3000

/-- The character may stand where it is put. -/
def stands (legal : Char → Bool) (c : Char) : Bool :=
  if c.toNat < 0x80 then legal c else !isSpaceOrControl c

def quoteChar (legal : Char → Bool) (c : Char) : List Char :=
  if stands legal c then [c] else (utf8 c).flatMap percent

/-- `URI.quote`. -/
def quote (legal : Char → Bool) (cs : List Char) : List Char := cs.flatMap (quoteChar legal)

/-- `URI.appendAuthority`: an address in brackets is not quoted. -/
def authorityText (authority : List Char) : List Char :=
  match cut ']' authority with
  | (_, none) => quote legalAuthority authority
  | (literal, some rest) =>
      if authority.head? = some '[' ∧ ':' ∈ authority then
        literal ++ ']' :: quote legalAuthority rest
      else quote legalAuthority authority

/-- `new URI(protocol, host, path, query, null).toString()`. -/
def uriText (x : NetUrl) : List Char :=
  x.protocol ++ ':' :: '/' :: '/' :: (authorityText x.host ++ quote legalPath x.path ++
    match x.query with
    | none => []
    | some query => '?' :: quote legalQuery query)

/-- The text of the `URI` that is made from the parts of a `URL`; `accepts` says for which texts
neither of the two throws. -/
def webUri (accepts : String → Bool) (spec : String) : Option String :=
  if accepts spec then (parse spec.toList).map fun x => String.ofList x.uriText else none

/-! ## Cutting -/

section Cut
variable {p : Char} {a b cs : List Char}

theorem takeWhile_free (h : p ∉ a) : a.takeWhile (· ≠ p) = a :=
  List.takeWhile_eq_self_iff.mpr fun _ hc => decide_eq_true (ne_of_mem_of_not_mem hc h)

theorem dropWhile_free (h : p ∉ a) : a.dropWhile (· ≠ p) = [] :=
  List.dropWhile_eq_nil_iff.mpr fun _ hc => decide_eq_true (ne_of_mem_of_not_mem hc h)

theorem takeWhile_append (h : p ∉ a) : (a ++ p :: b).takeWhile (· ≠ p) = a := by
  rw [List.takeWhile_append_of_pos fun _ hc => decide_eq_true (ne_of_mem_of_not_mem hc h)]
  simp

theorem dropWhile_append (h : p ∉ a) : (a ++ p :: b).dropWhile (· ≠ p) = p :: b := by
  rw [List.dropWhile_append_of_pos fun _ hc => decide_eq_true (ne_of_mem_of_not_mem hc h)]
  simp

theorem cut_append (h : p ∉ a) : cut p (a ++ p :: b) = (a, some b) := by
  rw [cut, takeWhile_append h, dropWhile_append h]
  rfl

theorem cut_free (h : p ∉ a) : cut p a = (a, none) := by
  rw [cut, takeWhile_free h, dropWhile_free h]
  rfl

/-- A text is cut in two, or does not have the character. -/
theorem cut_cases (p : Char) (cs : List Char) :
    (p ∉ cs ∧ cut p cs = (cs, none)) ∨
      ∃ a b, cs = a ++ p :: b ∧ p ∉ a ∧ cut p cs = (a, some b) := by
  by_cases h : p ∈ cs
  · obtain ⟨a, b, rfl, ha⟩ := List.eq_append_cons_of_mem h
    exact .inr ⟨a, b, rfl, ha, cut_append ha⟩
  · exact .inl ⟨h, cut_free h⟩

end Cut

/-! ## Letter case -/

theorem cut_lower {p : Char} (hp : p.toNat < 97) (hp' : lowerChar p = p) (cs : List Char) :
    cut p (cs.map lowerChar) =
      ((cut p cs).1.map lowerChar, (cut p cs).2.map (List.map lowerChar)) := by
  have hsame : (fun c : Char => decide (c ≠ p)) ∘ lowerChar = fun c : Char => decide (c ≠ p) := by
    funext c
    simp only [Function.comp_apply, ne_eq, lowerChar_eq_iff hp hp']
  rw [cut, List.takeWhile_map, List.dropWhile_map, hsame, ← List.map_tail?]
  rfl

theorem trimmed_lower (cs : List Char) :
    trimmed (cs.map lowerChar) = (trimmed cs).map lowerChar := by
  have hsame : (fun c : Char => decide (c ≤ ' ')) ∘ lowerChar = fun c => decide (c ≤ ' ') := by
    funext c
    simp only [Function.comp_apply, lowerChar_le_blank]
  rw [trimmed, trimmed, List.rdropWhile, List.rdropWhile, List.dropWhile_map, ← List.map_reverse,
    List.dropWhile_map, List.map_reverse, hsame]

theorem withoutPrefix_lower (cs : List Char) :
    withoutPrefix (cs.map lowerChar) = (withoutPrefix cs).map lowerChar := by
  have htwice : (lowerChar ∘ lowerChar) = lowerChar := funext lowerChar_lowerChar
  rw [withoutPrefix, withoutPrefix, ← List.map_take, List.map_map, htwice]
  split
  · rw [List.map_drop]
  · rfl

/-- Lowering a text does not change whether it is the URL of a web page. -/
theorem isWebUrl_lower (spec : List Char) : IsWebUrl (spec.map lowerChar) ↔ IsWebUrl spec := by
  have htwice : (lowerChar ∘ lowerChar) = lowerChar := funext lowerChar_lowerChar
  rw [IsWebUrl, IsWebUrl, trimmed_lower, withoutPrefix_lower, cut_lower (by decide) (by decide),
    List.map_map, htwice, Option.isSome_map]

/-! ## Taking apart what was put together -/

/-- The text ends with characters that are no blanks. -/
def EndsVisibly (cs : List Char) : Prop := ∃ a b, cs = a ++ b ∧ b ≠ [] ∧ ∀ c ∈ b, ' ' < c

theorem trimmed_eq {c : Char} {cs : List Char} (hc : ' ' < c) (h : EndsVisibly (c :: cs)) :
    trimmed (c :: cs) = c :: cs := by
  have hfirst : (c :: cs).dropWhile (· ≤ ' ') = c :: cs := by
    rw [List.dropWhile_cons_of_neg]
    simpa using hc
  obtain ⟨a, b, hab, hb, hvisible⟩ := h
  rw [trimmed, hfirst, List.rdropWhile_eq_self_iff]
  intro hne
  have hlast : (c :: cs).getLast hne ∈ b := by
    simp only [hab]
    rw [List.getLast_append_of_ne_nil _ hb]
    exact List.getLast_mem hb
  simpa using hvisible _ hlast

theorem withoutPrefix_eq {c : Char} {cs : List Char} (hc : lowerChar c ≠ 'u') :
    withoutPrefix (c :: cs) = c :: cs := by
  refine if_neg fun h => hc ?_
  exact (List.cons.inj h).1

/-- The query with its question mark. -/
def queryText : Option (List Char) → List Char
  | none => []
  | some query => '?' :: query

theorem cut_queryText {rest : List Char} {query : Option (List Char)} (hrest : '?' ∉ rest) :
    cut '?' (rest ++ queryText query) = (rest, query) := by
  cases query with
  | none =>
      rw [queryText, List.append_nil]
      exact cut_free hrest
  | some query => exact cut_append hrest

/-- An authority without a slash, and what stands behind it. -/
theorem hostAndPath_eq {authority path : List Char} (hslash : '/' ∉ authority)
    (hrooted : Rooted path) : hostAndPath ('/' :: '/' :: (authority ++ path)) =
      if authority = [] ∧ ['/', '/'].isPrefixOf path = true then some ([], '/' :: '/' :: path)
      else (hostOf authority).map fun host => (host, path) := by
  have htake : (authority ++ path).takeWhile (· ≠ '/') = authority := by
    rcases hrooted with rfl | h
    · rw [List.append_nil]
      exact takeWhile_free hslash
    · obtain ⟨cs, rfl⟩ := List.head?_eq_some_iff.mp h
      exact takeWhile_append hslash
  have hdrop : (authority ++ path).dropWhile (· ≠ '/') = path := by
    rcases hrooted with rfl | h
    · rw [List.append_nil]
      exact dropWhile_free hslash
    · obtain ⟨cs, rfl⟩ := List.head?_eq_some_iff.mp h
      exact dropWhile_append hslash
  have hlocal : ['/', '/', '/', '/'].isPrefixOf ('/' :: '/' :: (authority ++ path)) = true ↔
      authority = [] ∧ ['/', '/'].isPrefixOf path = true := by
    cases authority with
    | nil => simp [List.isPrefixOf]
    | cons c cs =>
        have hc : ¬ '/' = c := fun hc => hslash (hc ▸ List.mem_cons_self)
        simp [List.isPrefixOf, hc]
  have hslashes : ['/', '/'].isPrefixOf ('/' :: '/' :: (authority ++ path)) = true := by
    simp [List.isPrefixOf]
  rw [hostAndPath]
  by_cases h : authority = [] ∧ ['/', '/'].isPrefixOf path = true
  · rw [if_pos (hlocal.mpr h), if_pos h, h.1]
    rfl
  · rw [if_neg (mt hlocal.mp h), if_neg h, if_pos hslashes]
    show (hostOf ((authority ++ path).takeWhile (· ≠ '/'))).map
      (fun host => (host, (authority ++ path).dropWhile (· ≠ '/'))) = _
    rw [htake, hdrop]

/-- The text of a URL with an authority. -/
def text (protocol authority path : List Char) (query : Option (List Char)) : List Char :=
  protocol ++ ':' :: '/' :: '/' :: (authority ++ path ++ queryText query)

/-- What `URL` reads in a text that has an authority, and neither blanks at its end nor a
fragment. -/
theorem parse_text {protocol authority path : List Char} {query : Option (List Char)}
    (hweb : IsWeb protocol) (hvisible : EndsVisibly (text protocol authority path query))
    (hauthority : ∀ c ∈ authority, c ≠ '/' ∧ c ≠ '?' ∧ c ≠ '#') (hrooted : Rooted path)
    (hpath : ∀ c ∈ path, c ≠ '?' ∧ c ≠ '#') (hquery : ∀ q ∈ query, '#' ∉ q) :
    parse (text protocol authority path query) =
      if authority = [] ∧ ['/', '/'].isPrefixOf path = true then
        some { protocol, host := [], path := canonical ('/' :: '/' :: path), query }
      else (hostOf authority).map fun host =>
        { protocol, host, path := canonical path, query } := by
  have hfirst : ∃ cs, text protocol authority path query = 'h' :: cs := by
    rcases hweb with rfl | rfl <;> exact ⟨_, rfl⟩
  have hcolon : ':' ∉ protocol := by rcases hweb with rfl | rfl <;> decide
  have hlower : protocol.map lowerChar = protocol := by rcases hweb with rfl | rfl <;> decide
  have hspec : withoutPrefix (trimmed (text protocol authority path query)) =
      text protocol authority path query := by
    obtain ⟨cs, hcs⟩ := hfirst
    rw [hcs] at hvisible ⊢
    rw [trimmed_eq (by decide) hvisible, withoutPrefix_eq (by decide)]
  have hmark : '?' ∉ '/' :: '/' :: (authority ++ path) := by
    simp only [List.mem_cons, List.mem_append, not_or]
    exact ⟨by decide, by decide, fun h => (hauthority _ h).2.1 rfl, fun h => (hpath _ h).1 rfl⟩
  have hhash : '#' ∉ '/' :: '/' :: (authority ++ path ++ queryText query) := by
    have hqueryText : '#' ∉ queryText query := by
      cases query with
      | none => exact List.not_mem_nil
      | some q =>
          rw [queryText, List.mem_cons, not_or]
          exact ⟨by decide, hquery q rfl⟩
    simp only [List.mem_cons, List.mem_append, not_or]
    exact ⟨by decide, by decide, ⟨fun h => (hauthority _ h).2.2 rfl, fun h => (hpath _ h).2 rfl⟩,
      hqueryText⟩
  have hcut : cut ':' (text protocol authority path query) =
      (protocol, some ('/' :: '/' :: (authority ++ path ++ queryText query))) := cut_append hcolon
  have hcutQuery : cut '?' ('/' :: '/' :: (authority ++ path ++ queryText query)) =
      ('/' :: '/' :: (authority ++ path), query) := cut_queryText hmark
  have hslash : '/' ∉ authority := fun h => (hauthority _ h).1 rfl
  rw [parse, hspec, hcut]
  simp only [hlower]
  rw [if_pos hweb, cut_free hhash, hcutQuery, hostAndPath_eq hslash hrooted]
  split
  · rfl
  · rw [Option.map_map]
    rfl

/-! ## What the parts are made of -/

/-- A server without brackets is cut at its port. -/
theorem hostOfServer_name {server : List Char} (h : server.head? ≠ some '[') :
    hostOfServer server = some (cut ':' server).1 := by
  cases server with
  | nil => rfl
  | cons c cs =>
      have hc : c ≠ '[' := fun hc => h (congrArg some hc)
      rw [hostOfServer]
      exact fun _ hcontra => hc (List.cons.inj hcontra).1

theorem mem_cut_fst {p c : Char} {cs : List Char} (h : c ∈ (cut p cs).1) : c ≠ p ∧ c ∈ cs := by
  have hmem : c ∈ cs.takeWhile (· ≠ p) := h
  have hne := List.mem_takeWhile_imp hmem
  exact ⟨of_decide_eq_true hne, (List.takeWhile_sublist _).mem hmem⟩

theorem mem_cut_snd {p c : Char} {cs rest : List Char} (h : (cut p cs).2 = some rest)
    (hc : c ∈ rest) : c ∈ cs := by
  rcases cut_cases p cs with ⟨-, hcut⟩ | ⟨a, b, rfl, -, hcut⟩
  · rw [hcut] at h
    cases h
  · rw [hcut] at h
    obtain rfl := Option.some.inj h
    exact List.mem_append_right _ (List.mem_cons_of_mem _ hc)

theorem cut_slashes {p : Char} (hp : p ≠ '/') (cs : List Char) :
    cut p ('/' :: '/' :: cs) = ('/' :: '/' :: (cut p cs).1, (cut p cs).2) := by
  have hne : decide ('/' ≠ p) = true := decide_eq_true hp.symm
  simp only [cut, List.takeWhile_cons, List.dropWhile_cons, hne, if_true]

theorem mem_hostOfServer {server host : List Char} (h : hostOfServer server = some host) {c : Char}
    (hc : c ∈ host) : c ∈ server := by
  by_cases hbracket : server.head? = some '['
  · obtain ⟨cs, rfl⟩ := List.head?_eq_some_iff.mp hbracket
    rw [hostOfServer] at h
    rcases cut_cases ']' ('[' :: cs) with ⟨-, hcut⟩ | ⟨a, b, hab, -, hcut⟩
    · rw [hcut] at h
      cases h
    · rw [hcut] at h
      simp only at h
      split at h
      · obtain rfl := Option.some.inj h
        rw [hab]
        simp only [List.mem_append, List.mem_cons] at hc ⊢
        tauto
      · cases h
  · rw [hostOfServer_name hbracket] at h
    obtain rfl := Option.some.inj h
    exact (mem_cut_fst hc).2

theorem mem_hostOf {authority host : List Char} (h : hostOf authority = some host) {c : Char}
    (hc : c ∈ host) : c ∈ authority := by
  rw [hostOf] at h
  rcases cut_cases '@' authority with ⟨-, hcut⟩ | ⟨a, b, rfl, -, hcut⟩
  · rw [hcut] at h
    exact mem_hostOfServer h hc
  · rw [hcut] at h
    simp only at h
    split at h
    · obtain rfl := Option.some.inj h
      exact absurd hc List.not_mem_nil
    · exact List.mem_append_right _ (List.mem_cons_of_mem _ (mem_hostOfServer h hc))

/-- What `URL` reads behind `//`. -/
structure FromText (rest : List Char) (x : NetUrl) : Prop where
  host : ∀ c ∈ x.host, c ∈ rest ∧ c ≠ '/' ∧ c ≠ '?' ∧ c ≠ '#'
  rooted : Rooted x.path
  path : ∀ c ∈ x.path, c = '/' ∨ c ∈ rest
  query : ∀ q ∈ x.query, ∀ c ∈ q, c ∈ rest ∧ c ≠ '#'

theorem rooted_dropWhile (cs : List Char) : Rooted (cs.dropWhile (· ≠ '/')) := by
  rcases cut_cases '/' cs with ⟨hfree, -⟩ | ⟨a, b, rfl, ha, -⟩
  · exact .inl (dropWhile_free hfree)
  · rw [dropWhile_append ha]
    exact .inr rfl

theorem of_parse {protocol rest : List Char} {x : NetUrl} (hweb : IsWeb protocol)
    (hvisible : EndsVisibly (protocol ++ ':' :: '/' :: '/' :: rest))
    (h : parse (protocol ++ ':' :: '/' :: '/' :: rest) = some x) :
    FromText rest x := by
  have hspec : withoutPrefix (trimmed (protocol ++ ':' :: '/' :: '/' :: rest)) =
      protocol ++ ':' :: '/' :: '/' :: rest := by
    have hfirst : ∃ cs, protocol ++ ':' :: '/' :: '/' :: rest = 'h' :: cs := by
      rcases hweb with rfl | rfl <;> exact ⟨_, rfl⟩
    obtain ⟨cs, hcs⟩ := hfirst
    rw [hcs] at hvisible ⊢
    rw [trimmed_eq (by decide) hvisible, withoutPrefix_eq (by decide)]
  have hcolon : ':' ∉ protocol := by rcases hweb with rfl | rfl <;> decide
  rw [parse, hspec, cut_append hcolon] at h
  simp only at h
  split at h
  · rw [cut_slashes (by decide), cut_slashes (by decide)] at h
    obtain ⟨⟨host, path⟩, hparts, rfl⟩ := Option.map_eq_some_iff.mp h
    have hfree : ∀ c ∈ (cut '?' (cut '#' rest).1).1, c ∈ rest ∧ c ≠ '?' ∧ c ≠ '#' := by
      intro c hc
      obtain ⟨hmark, hc⟩ := mem_cut_fst hc
      obtain ⟨hhash, hc⟩ := mem_cut_fst hc
      exact ⟨hc, hmark, hhash⟩
    have hquery : ∀ q ∈ (cut '?' (cut '#' rest).1).2, ∀ c ∈ q, c ∈ rest ∧ c ≠ '#' := by
      intro q hq c hc
      obtain ⟨hhash, hc⟩ := mem_cut_fst (mem_cut_snd hq hc)
      exact ⟨hc, hhash⟩
    generalize (cut '?' (cut '#' rest).1).1 = before at hparts hfree
    rw [hostAndPath] at hparts
    split at hparts
    · obtain ⟨rfl, rfl⟩ := Prod.mk.inj (Option.some.inj hparts)
      refine ⟨fun c hc => absurd hc List.not_mem_nil, rooted_canonical (.inr rfl), fun c hc => ?_,
        hquery⟩
      rcases mem_canonical hc with hc | hc
      · exact .inl hc
      · simp only [List.mem_cons] at hc
        rcases hc with hc | hc | hc
        · exact .inl hc
        · exact .inl hc
        · exact .inr (hfree c hc).1
    · obtain ⟨host', hhost, heq⟩ := Option.map_eq_some_iff.mp hparts
      obtain ⟨rfl, rfl⟩ := Prod.mk.inj heq
      refine ⟨fun c hc => ?_, rooted_canonical (rooted_dropWhile _), fun c hc => ?_, hquery⟩
      · have hmem : c ∈ before.takeWhile (· ≠ '/') := mem_hostOf hhost hc
        obtain ⟨hin, hmark, hhash⟩ := hfree c ((List.takeWhile_sublist _).mem hmem)
        have hslash := List.mem_takeWhile_imp hmem
        exact ⟨hin, of_decide_eq_true hslash, hmark, hhash⟩
      · rcases mem_canonical hc with hc | hc
        · exact .inl hc
        · exact .inr (hfree c ((List.dropWhile_sublist _).mem hc)).1
  · cases h

theorem web_of_parse {spec : List Char} {x : NetUrl} (h : parse spec = some x) :
    IsWeb x.protocol := by
  rw [parse] at h
  split at h
  · cases h
  · simp only at h
    split at h
    · next hweb =>
        obtain ⟨parts, -, rfl⟩ := Option.map_eq_some_iff.mp h
        exact hweb
    · cases h

/-! ## Authorities -/

theorem at_not_mem_hostOf {authority host : List Char} (h : hostOf authority = some host) :
    '@' ∉ host := by
  rw [hostOf] at h
  rcases cut_cases '@' authority with ⟨hfree, hcut⟩ | ⟨a, b, rfl, -, hcut⟩
  · rw [hcut] at h
    exact fun hmem => hfree (mem_hostOfServer h hmem)
  · rw [hcut] at h
    simp only at h
    split at h
    · obtain rfl := Option.some.inj h
      exact List.not_mem_nil
    · next hserver => exact fun hmem => hserver (mem_hostOfServer h hmem)

theorem hostOf_server {authority : List Char} (h : '@' ∉ authority) :
    hostOf authority = hostOfServer authority := by
  rw [hostOf, cut_free h]

/-- A server in brackets. -/
theorem hostOfServer_literal {server host : List Char} (hbracket : server.head? = some '[')
    (h : hostOfServer server = some host) :
    ∃ a b, server = '[' :: (a ++ ']' :: b) ∧ ']' ∉ a ∧ 2 ≤ a.length ∧
      host = '[' :: (a ++ [']']) ∧ (b = [] ∨ b.head? = some ':') := by
  obtain ⟨cs, rfl⟩ := List.head?_eq_some_iff.mp hbracket
  rw [hostOfServer] at h
  rcases cut_cases ']' ('[' :: cs) with ⟨-, hcut⟩ | ⟨a, b, hab, ha, hcut⟩
  · rw [hcut] at h
    cases h
  · rw [hcut] at h
    simp only at h
    split at h
    · next hlong =>
        obtain rfl := Option.some.inj h
        cases a with
        | nil => cases hab
        | cons c a =>
            obtain ⟨rfl, rfl⟩ := List.cons.inj hab
            exact ⟨a, b, rfl, fun h => ha (List.mem_cons_of_mem _ h),
              Nat.le_of_succ_le_succ hlong.1, rfl, hlong.2⟩
    · cases h

/-- What is quoted of an authority: all of it, or what stands behind the brackets. -/
theorem authorityText_cases (authority : List Char) :
    authorityText authority = quote legalAuthority authority ∨
      ∃ a b, authority = '[' :: (a ++ ']' :: b) ∧ ']' ∉ a ∧ ':' ∈ authority ∧
        authorityText authority = '[' :: (a ++ ']' :: quote legalAuthority b) := by
  rw [authorityText]
  rcases cut_cases ']' authority with ⟨-, hcut⟩ | ⟨a, b, rfl, ha, hcut⟩
  · rw [hcut]
    exact .inl rfl
  · rw [hcut]
    simp only
    split
    · next h =>
        cases a with
        | nil => cases h.1
        | cons c a =>
            obtain rfl := Option.some.inj h.1
            exact .inr ⟨a, b, rfl, fun hmem => ha (List.mem_cons_of_mem _ hmem), h.2, rfl⟩
    · exact .inl rfl

theorem cut_literal {a : List Char} (ha : ']' ∉ a) :
    cut ']' ('[' :: (a ++ [']'])) = ('[' :: a, some []) := by
  refine cut_append (a := '[' :: a) fun h => ?_
  rcases List.mem_cons.mp h with h | h
  · cases h
  · exact ha h

theorem authorityText_literal {a : List Char} (ha : ']' ∉ a) (hcolon : ':' ∈ a) :
    authorityText ('[' :: (a ++ [']'])) = '[' :: (a ++ [']']) := by
  rw [authorityText, cut_literal ha]
  exact if_pos ⟨rfl, List.mem_cons_of_mem _ (List.mem_append_left _ hcolon)⟩

theorem authorityText_name {host : List Char} (h : host.head? ≠ some '[' ∨ ':' ∉ host) :
    authorityText host = quote legalAuthority host := by
  rcases authorityText_cases host with hquote | ⟨a, b, rfl, -, hcolon, -⟩
  · exact hquote
  · rcases h with h | h
    · exact absurd rfl h
    · exact absurd hcolon h

end NetUrl

end Java
