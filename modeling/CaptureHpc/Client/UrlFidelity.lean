/-
# `Client.UrlFidelity` — the URL of a line and the URL that is visited

A URL is lowered by the factory, taken apart and put together by the classes of
the platform, encoded, lowered again, and decoded by the client.  The URI is made
from the host, the path and the query alone, and quotes what it is given.

`visited_iff` says which URLs come through: those that the two classes leave
alone.  The port, the user and the fragment are lost, capitals are lowered, an
escape is escaped again, and characters outside the first plane are dropped.
-/
import CaptureHpc.Client.VisitQueue
import CaptureHpc.Java.NetUrl
import CaptureHpc.Server.UrlFactory

namespace CaptureHpc.Client

open Java Java.NetUrl

/-! ## Wide strings -/

/-- No character begins another one. -/
theorem utf16_append_inj {c d : Char} {a b : List Nat} (h : utf16 c ++ a = utf16 d ++ b) :
    c = d ∧ a = b := by
  have hsurrogate : ∀ e : Char, e.toNat < 0xD800 ∨ 0xDFFF < e.toNat := fun e => by
    rcases e.valid with h | h
    · exact .inl h
    · exact .inr h.1
  have hc := Url.toNat_lt c
  have hd := Url.toNat_lt d
  have hc' := hsurrogate c
  have hd' := hsurrogate d
  rw [utf16, utf16] at h
  split at h <;> split at h
  · obtain ⟨hunit, hrest⟩ := List.cons.inj h
    exact ⟨Char.toNat_inj.mp hunit, hrest⟩
  · have hunit := (List.cons.inj h).1
    omega
  · have hunit := (List.cons.inj h).1
    omega
  · obtain ⟨hhigh, hlow⟩ := List.cons.inj h
    obtain ⟨hlow, hrest⟩ := List.cons.inj hlow
    exact ⟨Char.toNat_inj.mp (by omega), hrest⟩

theorem wide_injective : ∀ {cs ds : List Char}, wide cs = wide ds → cs = ds
  | [], [], _ => rfl
  | [], d :: ds, h => by
      rw [wide, wide, List.flatMap_cons, utf16] at h
      split at h <;> cases h
  | c :: cs, [], h => by
      rw [wide, wide, List.flatMap_cons, utf16] at h
      split at h <;> cases h
  | c :: cs, d :: ds, h => by
      rw [wide, wide, List.flatMap_cons, List.flatMap_cons] at h
      obtain ⟨rfl, hrest⟩ := utf16_append_inj h
      rw [wide_injective hrest]

namespace Url

/-! ## Characters on the way -/

/-- A character in lower case, and of the first plane. -/
def Passes (c : Char) : Prop := lowerChar c = c ∧ c.toNat < 0x10000

instance : DecidablePred Passes := fun _ => inferInstanceAs (Decidable (_ ∧ _))

theorem seen_passes {c : Char} (hc : Passes c) (hb : c ≠ ' ') : seen c = [c] := by
  rw [seen, if_neg hb, if_pos hc.2, hc.1]
  split <;> rfl

theorem passes_of_mem_seen {c d : Char} (hc : unreserved c = true ∨ lowerChar c = c)
    (hd : d ∈ seen c) : Passes d := by
  rw [seen] at hd
  split at hd
  · next hu =>
      obtain rfl := List.mem_singleton.mp hd
      obtain ⟨-, -, hlower, hself⟩ := unreserved_lower hu
      have hlt := unreserved_lt hlower
      exact ⟨hself, by omega⟩
  · next hu =>
      split at hd
      · obtain rfl := List.mem_singleton.mp hd
        decide
      · split at hd
        · next hplane =>
            obtain rfl := List.mem_singleton.mp hd
            exact ⟨hc.resolve_left hu, hplane⟩
        · cases hd

/-- A property of every character of a fixed text. -/
theorem forall_mem_of_all {p : Char → Prop} [DecidablePred p] {cs : List Char}
    (h : cs.all (fun c => decide (p c)) = true) : ∀ c ∈ cs, p c :=
  fun c hc => of_decide_eq_true (List.all_eq_true.mp h c hc)

/-- What the way to the client may put in. -/
def added : List Char := "+%0123456789abcdef".toList

theorem seen_percent {b : Nat} (hb : b < 256) :
    2 ≤ ((percent b).flatMap seen).length ∧ ∀ d ∈ (percent b).flatMap seen, d ∈ added := by
  have hall : ∀ b < 256, 2 ≤ ((percent b).flatMap seen).length ∧
      ((percent b).flatMap seen).all (fun d => decide (d ∈ added)) = true := by decide +kernel
  exact ⟨(hall b hb).1, forall_mem_of_all (hall b hb).2⟩

/-- What the client sees of a text that was quoted. -/
def carried (legal : Char → Bool) (cs : List Char) : List Char := (quote legal cs).flatMap seen

theorem carried_cons (legal : Char → Bool) (c : Char) (cs : List Char) :
    carried legal (c :: cs) = (quoteChar legal c).flatMap seen ++ carried legal cs := by
  rw [carried, quote, List.flatMap_cons, List.flatMap_append]
  rfl

section Carried
variable {legal : Char → Bool} {c : Char} {cs : List Char}

theorem carried_char (hlegal : legal ' ' = false) (hc : Passes c) :
    (stands legal c = true ∧ (quoteChar legal c).flatMap seen = [c]) ∨
      (stands legal c = false ∧ 2 ≤ ((quoteChar legal c).flatMap seen).length ∧
        ∀ d ∈ (quoteChar legal c).flatMap seen, d ∈ added) := by
  cases h : stands legal c with
  | true =>
      have hb : c ≠ ' ' := by
        rintro rfl
        rw [stands, if_pos (by decide), hlegal] at h
        cases h
      refine .inl ⟨rfl, ?_⟩
      rw [quoteChar, if_pos h, List.flatMap_singleton, seen_passes hc hb]
  | false =>
      refine .inr ⟨rfl, ?_⟩
      have hquote : quoteChar legal c = (utf8 c).flatMap percent := by
        rw [quoteChar, if_neg (by rw [h]; decide)]
      have hbytes := utf8_lt c
      have hpos := utf8_length_pos c
      rw [hquote, List.flatMap_assoc]
      obtain ⟨b, bs, hbs⟩ := List.exists_cons_of_ne_nil (List.ne_nil_of_length_pos hpos)
      refine ⟨?_, fun d hd => ?_⟩
      · rw [hbs, List.flatMap_cons, List.length_append]
        have hb := (seen_percent (hbytes b (hbs ▸ List.mem_cons_self))).1
        omega
      · obtain ⟨b, hb, hd⟩ := List.mem_flatMap.mp hd
        exact (seen_percent (hbytes b hb)).2 d hd

theorem mem_carried (hlegal : legal ' ' = false) (hcs : ∀ c ∈ cs, Passes c) {d : Char}
    (hd : d ∈ carried legal cs) : (d ∈ cs ∧ stands legal d = true) ∨ d ∈ added := by
  induction cs with
  | nil => cases hd
  | cons c cs ih =>
      rw [List.forall_mem_cons] at hcs
      rw [carried_cons] at hd
      rcases List.mem_append.mp hd with hd | hd
      · rcases carried_char hlegal hcs.1 with ⟨hstands, hself⟩ | ⟨-, -, hadded⟩
        · rw [hself] at hd
          obtain rfl := List.mem_singleton.mp hd
          exact .inl ⟨List.mem_cons_self, hstands⟩
        · exact .inr (hadded d hd)
      · exact (ih hcs.2 hd).imp_left fun h => ⟨List.mem_cons_of_mem c h.1, h.2⟩

theorem carried_eq (hlegal : legal ' ' = false) (hcs : ∀ c ∈ cs, Passes c)
    (hstands : ∀ c ∈ cs, stands legal c = true) : carried legal cs = cs := by
  induction cs with
  | nil => rfl
  | cons c cs ih =>
      rw [List.forall_mem_cons] at hcs hstands
      rcases carried_char hlegal hcs.1 with ⟨-, hself⟩ | ⟨hnot, -⟩
      · rw [carried_cons, hself, ih hcs.2 hstands.2]
        rfl
      · rw [hstands.1] at hnot
        cases hnot

/-- A text is not shorter when it comes out, and longer if a character may not stand. -/
theorem length_carried (hlegal : legal ' ' = false) (hcs : ∀ c ∈ cs, Passes c) :
    cs.length ≤ (carried legal cs).length ∧
      ((carried legal cs).length ≤ cs.length → ∀ c ∈ cs, stands legal c = true) := by
  induction cs with
  | nil => exact ⟨Nat.le_refl _, fun _ c hc => absurd hc List.not_mem_nil⟩
  | cons c cs ih =>
      rw [List.forall_mem_cons] at hcs
      obtain ⟨hle, hall⟩ := ih hcs.2
      rw [carried_cons, List.length_append, List.length_cons]
      rcases carried_char hlegal hcs.1 with ⟨hstands, hself⟩ | ⟨-, hlonger, -⟩
      · rw [hself, List.length_singleton]
        refine ⟨by omega, fun h => List.forall_mem_cons.mpr ⟨hstands, hall (by omega)⟩⟩
      · exact ⟨by omega, fun h => by omega⟩

theorem carried_eq_iff (hlegal : legal ' ' = false) (hcs : ∀ c ∈ cs, Passes c) :
    carried legal cs = cs ↔ ∀ c ∈ cs, stands legal c = true :=
  ⟨fun h => (length_carried hlegal hcs).2 (le_of_eq (congrArg List.length h)),
    carried_eq hlegal hcs⟩

end Carried

/-! ## The path on the way -/

section Path
variable {cs : List Char}

theorem segments_carried (hcs : ∀ c ∈ cs, Passes c) :
    segments (carried legalPath cs) = (segments cs).map (carried legalPath) := by
  induction cs with
  | nil => rfl
  | cons c cs ih =>
      rw [List.forall_mem_cons] at hcs
      by_cases hc : c = '/'
      · subst hc
        have hslash : (quoteChar legalPath '/').flatMap seen = ['/'] := by decide
        rw [carried_cons, hslash, segments_slash, List.map_cons, ← ih hcs.2]
        rfl
      · have hfree : '/' ∉ (quoteChar legalPath c).flatMap seen := by
          have hlegal : legalPath ' ' = false := rfl
          rcases carried_char hlegal hcs.1 with ⟨-, hself⟩ | ⟨-, -, hadded⟩
          · rw [hself, List.mem_singleton]
            exact Ne.symm hc
          · exact fun h => absurd (hadded _ h) (by decide)
        rw [carried_cons, segments_before hfree, ih hcs.2, segments_cons hc]
        cases hs : segments cs with
        | nil => exact absurd hs (segments_ne_nil cs)
        | cons t ts =>
            rw [List.map_cons, List.headD_cons, List.headD_cons, List.map_cons, carried_cons]
            rfl

/-- A text to which nothing was added is the text that was sent. -/
theorem carried_eq_of_not_added {legal : Char → Bool} (hlegal : legal ' ' = false)
    (hcs : ∀ c ∈ cs, Passes c) (h : ∀ d ∈ carried legal cs, d ∉ added) : carried legal cs = cs := by
  induction cs with
  | nil => rfl
  | cons c cs ih =>
      rw [List.forall_mem_cons] at hcs
      rw [carried_cons] at h ⊢
      rw [List.forall_mem_append] at h
      rcases carried_char hlegal hcs.1 with ⟨-, hself⟩ | ⟨-, hlong, hadded⟩
      · rw [hself, ih hcs.2 h.2]
        rfl
      · obtain ⟨d, ds, hds⟩ := List.exists_cons_of_ne_nil
          (List.ne_nil_of_length_pos (Nat.lt_of_lt_of_le Nat.zero_lt_two hlong))
        have hmem : d ∈ (quoteChar legal c).flatMap seen := hds ▸ List.mem_cons_self
        exact absurd (hadded d hmem) (h.1 d hmem)

theorem dots_carried (hcs : ∀ c ∈ cs, Passes c) :
    dots (segments (carried legalPath cs)) ≤ dots (segments cs) := by
  rw [segments_carried hcs, dots, List.countP_map]
  refine List.countP_mono_left fun s hs hdots => ?_
  have hplain : ∀ d ∈ carried legalPath s, d ∉ added := by
    simp only [Function.comp_apply, isDots, Bool.or_eq_true, beq_iff_eq] at hdots
    rcases hdots with h | h <;> rw [h] <;> exact forall_mem_of_all (by decide)
  have hself := carried_eq_of_not_added rfl (fun c hc => hcs c (mem_of_mem_segments hs hc)) hplain
  rwa [Function.comp_apply, hself] at hdots

/-- A path that comes back from where it was sent is canonical, and nothing in it is quoted. -/
theorem path_of_carried {path : List Char} (hpath : ∀ c ∈ path, Passes c)
    (h : path = canonical (carried legalPath path)) :
    carried legalPath path = path ∧ canonical path = path := by
  have hcanonical : canonical (carried legalPath path) = carried legalPath path :=
    canonical_eq (h ▸ dots_carried hpath)
  have hself : carried legalPath path = path := (h.trans hcanonical).symm
  rw [hself] at hcanonical
  exact ⟨hself, hcanonical⟩

/-- A path does not come back from where it was sent with two slashes in front. -/
theorem path_ne_carried {path : List Char} (hpath : ∀ c ∈ path, Passes c) :
    path ≠ canonical ('/' :: '/' :: carried legalPath path) := by
  intro h
  have hslashes : dots (segments ('/' :: '/' :: carried legalPath path)) =
      dots (segments (carried legalPath path)) := rfl
  have hcanonical : canonical ('/' :: '/' :: carried legalPath path) =
      '/' :: '/' :: carried legalPath path :=
    canonical_eq (by rw [hslashes, ← h]; exact dots_carried hpath)
  have hlength := congrArg List.length (h.trans hcanonical)
  have hlegal : legalPath ' ' = false := rfl
  have hle := (length_carried hlegal hpath).1
  simp only [List.length_cons] at hlength
  omega

theorem rooted_carried {path : List Char} (h : Rooted path) : Rooted (carried legalPath path) := by
  rcases h with rfl | h
  · exact .inl rfl
  · obtain ⟨cs, rfl⟩ := List.head?_eq_some_iff.mp h
    exact .inr rfl

end Path

/-! ## The host on the way -/

/-- A host that `URL` and `URI` leave alone: a name. -/
def IsName (host : List Char) : Prop :=
  host.head? ≠ some '[' ∧ ':' ∉ host ∧ ∀ c ∈ host, stands legalAuthority c = true

/-- An address in brackets that they leave alone. -/
def IsLiteral (host : List Char) : Prop :=
  ∃ a, host = '[' :: (a ++ [']']) ∧ ']' ∉ a ∧ 2 ≤ a.length ∧
    ' ' ∉ a ∧ (':' ∈ a ∨ ∀ c ∈ a, stands legalAuthority c = true)

def carriedAuthority (authority : List Char) : List Char :=
  (authorityText authority).flatMap seen

theorem seens_passes {cs : List Char} (hcs : ∀ c ∈ cs, Passes c) (hb : ' ' ∉ cs) :
    cs.flatMap seen = cs := by
  induction cs with
  | nil => rfl
  | cons c cs ih =>
      rw [List.forall_mem_cons] at hcs
      rw [List.mem_cons, not_or] at hb
      rw [List.flatMap_cons, seen_passes hcs.1 (Ne.symm hb.1), ih hcs.2 hb.2]
      rfl

theorem length_seen {c : Char} (hc : Passes c) : (seen c).length = 1 := by
  by_cases hb : c = ' '
  · rw [hb]
    rfl
  · rw [seen_passes hc hb]
    rfl

theorem mem_carriedAuthority {host : List Char} (hhost : ∀ c ∈ host, Passes c) {d : Char}
    (hd : d ∈ carriedAuthority host) : d ∈ host ∨ d ∈ added := by
  have hseen : ∀ {cs : List Char}, (∀ c ∈ cs, Passes c) → d ∈ cs.flatMap seen →
      d ∈ cs ∨ d ∈ added := by
    intro cs hcs hd
    obtain ⟨c, hc, hd⟩ := List.mem_flatMap.mp hd
    by_cases hb : c = ' '
    · subst hb
      obtain rfl := List.mem_singleton.mp hd
      exact .inr (by decide)
    · rw [seen_passes (hcs c hc) hb] at hd
      obtain rfl := List.mem_singleton.mp hd
      exact .inl hc
  rw [carriedAuthority] at hd
  rcases authorityText_cases host with hquote | ⟨a, b, rfl, -, -, htext⟩
  · rw [hquote] at hd
    exact (mem_carried rfl hhost hd).imp_left And.left
  · have hsplit : '[' :: (a ++ ']' :: quote legalAuthority b) =
        ('[' :: (a ++ [']'])) ++ quote legalAuthority b := by simp
    rw [htext, hsplit, List.flatMap_append] at hd
    have hfront : ∀ c ∈ '[' :: (a ++ [']']), c ∈ '[' :: (a ++ ']' :: b) := by
      intro c hc
      simp only [List.mem_cons, List.mem_append, List.not_mem_nil, or_false] at hc ⊢
      tauto
    rcases List.mem_append.mp hd with hd | hd
    · exact (hseen (fun c hc => hhost c (hfront c hc)) hd).imp_left (hfront d)
    · have hback : ∀ c ∈ b, c ∈ '[' :: (a ++ ']' :: b) := fun c hc =>
        List.mem_cons_of_mem _ (List.mem_append_right _ (List.mem_cons_of_mem _ hc))
      exact (mem_carried rfl (fun c hc => hhost c (hback c hc)) hd).imp_left fun h => hback d h.1

/-- A host that comes back from where it was sent is one that is left alone. -/
theorem host_of_carried {host : List Char} (hhost : ∀ c ∈ host, Passes c)
    (h : hostOf (carriedAuthority host) = some host) :
    carriedAuthority host = host ∧ (IsName host ∨ IsLiteral host) := by
  have hmem : ∀ d ∈ carriedAuthority host, d ∈ host ∨ d ∈ added := fun d hd =>
    mem_carriedAuthority hhost hd
  have hat : '@' ∉ carriedAuthority host := fun hd =>
    (hmem _ hd).elim (at_not_mem_hostOf h) (by decide)
  rw [hostOf_server hat] at h
  by_cases hbracket : (carriedAuthority host).head? = some '['
  · obtain ⟨a, b, hab, ha, hlong, hliteral, hb⟩ := hostOfServer_literal hbracket h
    by_cases hcolon : ':' ∈ a
    · -- an address is not quoted, and what is behind it has no room
      have hself : carriedAuthority host = host.flatMap seen := by
        rw [carriedAuthority, hliteral, authorityText_literal ha hcolon]
      have hlength : ∀ {cs : List Char}, (∀ c ∈ cs, Passes c) →
          (cs.flatMap seen).length = cs.length := by
        intro cs hcs
        rw [List.length_flatMap, List.map_congr_left fun c hc => length_seen (hcs c hc)]
        simp
      have hsum := hlength hhost
      rw [← hself, hab, hliteral] at hsum
      simp only [List.length_cons, List.length_append, List.length_nil] at hsum
      have hb : b = [] := List.eq_nil_of_length_eq_zero (by omega)
      have hboth : carriedAuthority host = host := by rw [hab, hb, hliteral]
      refine ⟨hboth, .inr ⟨a, hliteral, ha, hlong, fun hblank => ?_, .inl hcolon⟩⟩
      have hmem : ' ' ∈ host.flatMap seen := by
        rw [← hself, hboth, hliteral]
        simp [hblank]
      obtain ⟨c, -, hc⟩ := List.mem_flatMap.mp hmem
      exact blank_not_mem_seen c hc
    · have hfree : ':' ∉ host := by
        rw [hliteral]
        simpa using hcolon
      have hb : b = [] := by
        rcases hb with hb | hb
        · exact hb
        · obtain ⟨rest, rfl⟩ := List.head?_eq_some_iff.mp hb
          have hport : ':' ∈ carriedAuthority host := by rw [hab]; simp
          exact absurd (hmem _ hport) (fun h => h.elim hfree (by decide))
      have hself : carriedAuthority host = host := by rw [hab, hb, hliteral]
      have hquote : carried legalAuthority host = host := by
        rwa [carriedAuthority, authorityText_name (.inr hfree)] at hself
      have hstands := (carried_eq_iff rfl hhost).mp hquote
      refine ⟨hself, .inr ⟨a, hliteral, ha, hlong, ?_, .inr fun c hc => hstands c ?_⟩⟩
      · intro hblank
        have := hstands ' ' (by rw [hliteral]; simp [hblank])
        exact absurd this (by decide)
      · rw [hliteral]
        simp [hc]
  · rw [hostOfServer_name hbracket] at h
    have hcut := Option.some.inj h
    have hfree : ':' ∉ host := fun hcolon => (mem_cut_fst (hcut ▸ hcolon)).1 rfl
    have hport : ':' ∉ carriedAuthority host := fun hcolon =>
      (hmem _ hcolon).elim hfree (by decide)
    rw [cut_free hport] at hcut
    have hself : carriedAuthority host = host := hcut
    have hquote : carried legalAuthority host = host := by
      rwa [carriedAuthority, authorityText_name (.inr hfree)] at hself
    refine ⟨hself, .inl ⟨?_, hfree, (carried_eq_iff rfl hhost).mp hquote⟩⟩
    rwa [hself] at hbracket

theorem hostOf_self {host : List Char} (hat : '@' ∉ host) (h : IsName host ∨ IsLiteral host) :
    hostOf host = some host := by
  rw [hostOf_server hat]
  rcases h with ⟨hbracket, hcolon, -⟩ | ⟨a, rfl, ha, hlong, -⟩
  · rw [hostOfServer_name hbracket, cut_free hcolon]
  · rw [hostOfServer, cut_literal ha]
    exact if_pos ⟨Nat.succ_lt_succ hlong, .inl rfl⟩

theorem carriedAuthority_self {host : List Char} (hhost : ∀ c ∈ host, Passes c)
    (h : IsName host ∨ IsLiteral host) : carriedAuthority host = host := by
  rw [carriedAuthority]
  rcases h with ⟨hbracket, -, hstands⟩ | ⟨a, rfl, ha, -, hblank, hcolon | hstands⟩
  · rw [authorityText_name (.inl hbracket)]
    exact carried_eq rfl hhost hstands
  · rw [authorityText_literal ha hcolon]
    refine seens_passes hhost fun h => hblank ?_
    simpa using h
  · by_cases hcolon : ':' ∈ a
    · rw [authorityText_literal ha hcolon]
      refine seens_passes hhost fun h => hblank ?_
      simpa using h
    · rw [authorityText_name (.inr (by simpa using hcolon))]
      refine carried_eq rfl hhost fun c hc => ?_
      simp only [List.mem_cons, List.mem_append, List.not_mem_nil, or_false] at hc
      rcases hc with rfl | hc | rfl
      · decide
      · exact hstands c hc
      · decide

/-! ## The text on the way -/

theorem visible_of_stands {legal : Char → Bool} (hlegal : ∀ n ≤ 32, legal (Char.ofNat n) = false)
    {c : Char} (h : stands legal c = true) : ' ' < c := by
  have hlt : ∀ d : Char, ' ' < d ↔ 32 < d.toNat := fun d => Iff.rfl
  rw [hlt]
  by_contra hle
  have hself := hlegal c.toNat (Nat.le_of_not_lt hle)
  rw [Char.ofNat_toNat] at hself
  rw [stands, if_pos (by omega), hself] at h
  cases h

/-- The signs that stand for themselves where they are put. -/
def Plain (c : Char) : Prop := unreserved c = true ∨ lowerChar c = c

instance : DecidablePred Plain := fun _ => inferInstanceAs (Decidable (_ ∨ _))

theorem mem_quote {legal : Char → Bool} {cs : List Char} {d : Char} (hd : d ∈ quote legal cs) :
    (d ∈ cs ∧ stands legal d = true) ∨ (Plain d ∧ ' ' < d) := by
  obtain ⟨c, hc, hd⟩ := List.mem_flatMap.mp hd
  rw [quoteChar] at hd
  split at hd
  · next hstands =>
      obtain rfl := List.mem_singleton.mp hd
      exact .inl ⟨hc, hstands⟩
  · obtain ⟨b, hb, hd⟩ := List.mem_flatMap.mp hd
    have hall : ∀ b < 256, (percent b).all (fun d => decide (Plain d ∧ ' ' < d)) = true := by
      decide +kernel
    exact .inr (forall_mem_of_all (hall b (utf8_lt c b hb)) d hd)

theorem visible_quote {legal : Char → Bool} (hlegal : ∀ n ≤ 32, legal (Char.ofNat n) = false)
    {cs : List Char} {d : Char} (hd : d ∈ quote legal cs) : ' ' < d :=
  (mem_quote hd).elim (fun h => visible_of_stands hlegal h.2) And.right

theorem visible_queryQuote {query : Option (List Char)} {d : Char}
    (hd : d ∈ queryText (query.map (quote legalQuery))) : ' ' < d := by
  cases query with
  | none => cases hd
  | some q =>
      rcases List.mem_cons.mp hd with rfl | hd
      · decide
      · exact visible_quote (by decide +kernel) hd

theorem uriText_eq (x : NetUrl) : uriText x = text x.protocol (authorityText x.host)
    (quote legalPath x.path) (x.query.map (quote legalQuery)) := by
  rw [uriText, text]
  cases x.query <;> rfl

/-- The text ends visibly, from a letter or a bracket on. -/
theorem uriText_ends {x : NetUrl} (hweb : IsWeb x.protocol) :
    ∃ a c b, uriText x = a ++ c :: b ∧ Passes c ∧ c ≠ ' ' ∧ ∀ d ∈ c :: b, ' ' < d := by
  have hpath : ∀ d ∈ quote legalPath x.path, ' ' < d := fun d hd =>
    visible_quote (by decide +kernel) hd
  have hquery : ∀ d ∈ queryText (x.query.map (quote legalQuery)), ' ' < d := fun d hd =>
    visible_queryQuote hd
  rw [uriText_eq, text]
  rcases authorityText_cases x.host with hquote | ⟨a, b, -, -, -, hliteral⟩
  · have hhost : ∀ d ∈ authorityText x.host, ' ' < d := by
      rw [hquote]
      exact fun d hd => visible_quote (by decide +kernel) hd
    have hprotocol : ∃ cs, x.protocol = 'h' :: cs ∧ ∀ d ∈ cs, ' ' < d := by
      rcases hweb with h | h <;> rw [h] <;> exact ⟨_, rfl, forall_mem_of_all (by decide)⟩
    obtain ⟨cs, hcs, hvisible⟩ := hprotocol
    rw [hcs]
    refine ⟨[], 'h', cs ++ ':' :: '/' :: '/' :: (authorityText x.host ++ quote legalPath x.path ++
      queryText (x.query.map (quote legalQuery))), rfl, by decide, by decide, fun d hd => ?_⟩
    simp only [List.mem_cons, List.mem_append] at hd
    rcases hd with rfl | hd | rfl | rfl | rfl | (hd | hd) | hd
    · decide
    · exact hvisible d hd
    · decide
    · decide
    · decide
    · exact hhost d hd
    · exact hpath d hd
    · exact hquery d hd
  · rw [hliteral]
    refine ⟨x.protocol ++ ':' :: '/' :: '/' :: '[' :: a, ']', quote legalAuthority b ++
      quote legalPath x.path ++ queryText (x.query.map (quote legalQuery)), by simp, by decide,
      by decide, fun d hd => ?_⟩
    simp only [List.mem_cons, List.mem_append] at hd
    rcases hd with rfl | (hd | hd) | hd
    · decide
    · exact visible_quote (by decide +kernel) hd
    · exact hpath d hd
    · exact hquery d hd

theorem visible_seen {c : Char} (hc : ' ' < c) : ∀ d ∈ seen c, ' ' < d := by
  intro d hd
  rw [seen] at hd
  split at hd
  · obtain rfl := List.mem_singleton.mp hd
    exact (blank_lt_lowerChar c).mpr hc
  · split at hd
    · obtain rfl := List.mem_singleton.mp hd
      decide
    · split at hd
      · obtain rfl := List.mem_singleton.mp hd
        exact hc
      · cases hd

/-- It still does when the client sees it, and when it is lowered. -/
theorem seen_uriText_ends {x : NetUrl} (hweb : IsWeb x.protocol) :
    EndsVisibly (((uriText x).flatMap seen).map lowerChar) := by
  obtain ⟨a, c, b, htext, hpasses, hblank, hvisible⟩ := uriText_ends hweb
  rw [htext, List.flatMap_append, List.map_append]
  refine ⟨_, _, rfl, ?_, fun d hd => ?_⟩
  · rw [List.flatMap_cons, seen_passes hpasses hblank]
    exact List.cons_ne_nil _ _
  · obtain ⟨e, he, rfl⟩ := List.mem_map.mp hd
    obtain ⟨f, hf, he⟩ := List.mem_flatMap.mp he
    exact (blank_lt_lowerChar e).mpr (visible_seen (hvisible f hf) e he)

theorem seen_uriText {x : NetUrl} (hweb : IsWeb x.protocol) : (uriText x).flatMap seen =
    text x.protocol (carriedAuthority x.host) (carried legalPath x.path)
      (x.query.map (carried legalQuery)) := by
  have hprotocol : x.protocol.flatMap seen = x.protocol := by
    rcases hweb with h | h <;> rw [h] <;> decide
  have hquery : (queryText (x.query.map (quote legalQuery))).flatMap seen =
      queryText (x.query.map (carried legalQuery)) := by
    cases x.query <;> rfl
  rw [uriText_eq, text, text, List.flatMap_append, hprotocol, List.flatMap_cons, List.flatMap_cons,
    List.flatMap_cons, List.flatMap_append, List.flatMap_append, hquery]
  rfl

/-- What the client sees of a lowered URL is lowered, and of the first plane. -/
theorem passes_uriText {x : NetUrl} (hweb : IsWeb x.protocol)
    (hhost : ∀ c ∈ x.host, lowerChar c = c) (hpath : ∀ c ∈ x.path, lowerChar c = c)
    (hquery : ∀ q ∈ x.query, ∀ c ∈ q, lowerChar c = c) :
    ∀ d ∈ (uriText x).flatMap seen, Passes d := by
  have hquote : ∀ {legal cs}, (∀ c ∈ cs, lowerChar c = c) → ∀ c ∈ quote legal cs, Plain c :=
    fun hcs c hc => (mem_quote hc).elim (fun h => .inr (hcs c h.1)) And.left
  have hplain : ∀ c ∈ uriText x, Plain c := by
    intro c hc
    rw [uriText_eq, text] at hc
    simp only [List.mem_append, List.mem_cons] at hc
    rcases hc with hc | rfl | rfl | rfl | (hc | hc) | hc
    · rcases hweb with h | h <;> rw [h] at hc <;> revert c <;> exact forall_mem_of_all (by decide)
    · exact .inr (by decide)
    · exact .inr (by decide)
    · exact .inr (by decide)
    · rcases authorityText_cases x.host with htext | ⟨a, b, hab, -, -, htext⟩
      · rw [htext] at hc
        exact hquote hhost c hc
      · rw [hab] at hhost
        rw [htext] at hc
        simp only [List.mem_append, List.mem_cons] at hhost hc
        rcases hc with rfl | hc | rfl | hc
        · exact .inr (by decide)
        · exact .inr (hhost c (.inr (.inl hc)))
        · exact .inr (by decide)
        · exact hquote (fun e he => hhost e (.inr (.inr (.inr he)))) c hc
    · exact hquote hpath c hc
    · cases hq : x.query with
      | none =>
          rw [hq] at hc
          cases hc
      | some q =>
          rw [hq] at hc
          rcases List.mem_cons.mp hc with rfl | hc
          · exact .inr (by decide)
          · exact hquote (hquery q hq) c hc
  intro d hd
  obtain ⟨c, hc, hd⟩ := List.mem_flatMap.mp hd
  exact passes_of_mem_seen (hplain c hc) hd

/-! ## The URLs that arrive -/

/-- The parts of a URL that is left alone everywhere. -/
structure Plainly (protocol host path : List Char) (query : Option (List Char)) : Prop where
  web : IsWeb protocol
  authority : IsName host ∨ IsLiteral host
  delimiters : ∀ c ∈ host, c ≠ '/' ∧ c ≠ '?' ∧ c ≠ '#' ∧ c ≠ '@'
  settled : path = [] ∨ ∃ cs, path = '/' :: cs ∧ Settled (segments cs)
  pathStands : ∀ c ∈ path, stands legalPath c = true
  queryStands : ∀ q ∈ query, ∀ c ∈ q, stands legalQuery c = true
  hasHost : host = [] → ['/', '/'].isPrefixOf path = false

/-- The URL is in lower case and in the first plane, and its parts are left alone. -/
def Faithful (u : List Char) : Prop :=
  (∀ c ∈ u, Passes c) ∧ ∃ protocol host path query,
    u = text protocol host path query ∧ Plainly protocol host path query

theorem lower_passes {cs : List Char} (hcs : ∀ c ∈ cs, Passes c) : cs.map lowerChar = cs :=
  (List.map_congr_left fun c hc => (hcs c hc).1).trans (List.map_id cs)

theorem not_delimiter_of_stands {legal : Char → Bool} {c d : Char} (hd : stands legal d = false)
    (hc : stands legal c = true ∨ c ∈ added) (hadded : d ∉ added) : c ≠ d := by
  rintro rfl
  rcases hc with h | h
  · rw [h] at hd
    cases hd
  · exact hadded h

/-- What arrives is what was sent: the URL is read as itself, and nothing in it is quoted. -/
theorem faithful_of_seen {u : List Char} {x : NetUrl} (h : parse (u.map lowerChar) = some x)
    (hseen : (uriText x).flatMap seen = u) : Faithful u := by
  have hweb := web_of_parse h
  have hu := (seen_uriText hweb).symm.trans hseen
  have hvisible := seen_uriText_ends hweb
  rw [hseen] at hvisible
  -- the parts are made of lowered characters, and so is the text that arrives
  have hlowered : u.map lowerChar = x.protocol ++ ':' :: '/' :: '/' :: (carriedAuthority x.host ++
      carried legalPath x.path ++ queryText (x.query.map (carried legalQuery))).map lowerChar := by
    have hprotocol : x.protocol.map lowerChar = x.protocol := by
      rcases hweb with h | h <;> rw [h] <;> decide
    rw [← hu, text, List.map_append, hprotocol]
    rfl
  have hfrom : FromText ((carriedAuthority x.host ++ carried legalPath x.path ++
      queryText (x.query.map (carried legalQuery))).map lowerChar) x :=
    of_parse hweb (hlowered ▸ hvisible) (hlowered ▸ h)
  have hstable : ∀ {cs : List Char} {c : Char}, c ∈ cs.map lowerChar → lowerChar c = c := by
    intro cs c hc
    obtain ⟨d, -, rfl⟩ := List.mem_map.mp hc
    exact lowerChar_lowerChar d
  have hpasses : ∀ c ∈ u, Passes c := by
    rw [← hseen]
    refine passes_uriText hweb (fun c hc => hstable (hfrom.host c hc).1) (fun c hc => ?_)
      fun q hq c hc => hstable (hfrom.query q hq c hc).1
    rcases hfrom.path c hc with rfl | hc
    · decide
    · exact hstable hc
  have hrest : ∀ c ∈ (carriedAuthority x.host ++ carried legalPath x.path ++
      queryText (x.query.map (carried legalQuery))).map lowerChar, Passes c := by
    have hpasses' := hpasses
    rw [← lower_passes hpasses, hlowered] at hpasses'
    simp only [List.mem_append, List.mem_cons] at hpasses'
    exact fun c hc => hpasses' c (.inr (.inr (.inr (.inr hc))))
  have hhost : ∀ c ∈ x.host, Passes c := fun c hc => hrest c (hfrom.host c hc).1
  have hpath : ∀ c ∈ x.path, Passes c := fun c hc => (hfrom.path c hc).elim
    (fun hslash => hslash ▸ (by decide)) (hrest c)
  have hquery : ∀ q ∈ x.query, ∀ c ∈ q, Passes c := fun q hq c hc =>
    hrest c (hfrom.query q hq c hc).1
  -- so it is read as it arrives
  rw [lower_passes hpasses] at h hvisible
  have hparse := @parse_text x.protocol (carriedAuthority x.host) (carried legalPath x.path)
    (x.query.map (carried legalQuery)) hweb (hu ▸ hvisible) (fun c hc => ?_)
    (rooted_carried hfrom.rooted) (fun c hc => ?_) fun q hq => ?_
  · rw [hu, h] at hparse
    split at hparse
    · have hunc := congrArg NetUrl.path (Option.some.inj hparse)
      exact absurd hunc (path_ne_carried hpath)
    · next hlocal =>
        obtain ⟨host, hhostOf, heq⟩ := Option.map_eq_some_iff.mp hparse.symm
        have hx : host = x.host := congrArg NetUrl.host heq
        rw [hx] at hhostOf
        obtain ⟨hauthority, hplain⟩ := host_of_carried hhost hhostOf
        obtain ⟨hself, hcanonical⟩ := path_of_carried hpath (congrArg NetUrl.path heq).symm
        have hqueries : x.query.map (carried legalQuery) = x.query := congrArg NetUrl.query heq
        rw [hauthority, hself] at hlocal
        refine ⟨hpasses, x.protocol, x.host, x.path, x.query, ?_, ?_⟩
        · rw [← hu, hauthority, hself, hqueries]
        · refine ⟨hweb, hplain, fun c hc => ?_, ?_, (carried_eq_iff rfl hpath).mp hself,
            fun q hq => ?_, fun hempty => ?_⟩
          · obtain ⟨-, hslash, hmark, hhash⟩ := hfrom.host c hc
            exact ⟨hslash, hmark, hhash, fun hat => at_not_mem_hostOf hhostOf (hat ▸ hc)⟩
          · refine hfrom.rooted.imp_right fun hslash => ?_
            obtain ⟨cs, hcs⟩ := List.head?_eq_some_iff.mp hslash
            rw [hcs] at hcanonical
            exact ⟨cs, hcs, (canonical_eq_iff cs).mp hcanonical⟩
          · refine (carried_eq_iff rfl (hquery q hq)).mp ?_
            rw [Option.mem_def.mp hq] at hqueries
            exact Option.some.inj hqueries
          · exact Bool.eq_false_iff.mpr fun hbacks => hlocal ⟨hempty, hbacks⟩
  · have hadded : ∀ c ∈ added, c ≠ '/' ∧ c ≠ '?' ∧ c ≠ '#' := forall_mem_of_all (by decide)
    exact (mem_carriedAuthority hhost hc).elim (fun hc => (hfrom.host c hc).2) (hadded c)
  · have hstands := (mem_carried rfl hpath hc).imp_left And.right
    exact ⟨not_delimiter_of_stands (by decide) hstands (by decide),
      not_delimiter_of_stands (by decide) hstands (by decide)⟩
  · obtain ⟨q', hq', rfl⟩ := Option.map_eq_some_iff.mp hq
    intro hmem
    have hstands := (mem_carried rfl (hquery q' hq') hmem).imp_left And.right
    exact not_delimiter_of_stands (by decide) hstands (by decide) rfl

theorem seen_of_faithful {u : List Char} {x : NetUrl} (h : parse (u.map lowerChar) = some x)
    (hfaithful : Faithful u) : (uriText x).flatMap seen = u := by
  obtain ⟨hpasses, protocol, host, path, query, rfl, hplainly⟩ := hfaithful
  have hmem : ∀ c, (c ∈ host ∨ c ∈ path ∨ ∃ q ∈ query, c ∈ q) → Passes c := by
    intro c hc
    refine hpasses c ?_
    simp only [text, List.mem_append, List.mem_cons]
    rcases hc with hc | hc | ⟨q, hq, hc⟩
    · exact .inr (.inr (.inr (.inr (.inl (.inl hc)))))
    · exact .inr (.inr (.inr (.inr (.inl (.inr hc)))))
    · rw [Option.mem_def.mp hq]
      exact .inr (.inr (.inr (.inr (.inr (List.mem_cons_of_mem _ hc)))))
  have hhost : ∀ c ∈ host, Passes c := fun c hc => hmem c (.inl hc)
  have hpath : ∀ c ∈ path, Passes c := fun c hc => hmem c (.inr (.inl hc))
  have hquery : ∀ q ∈ query, carried legalQuery q = q := fun q hq =>
    carried_eq rfl (fun c hc => hmem c (.inr (.inr ⟨q, hq, hc⟩))) (hplainly.queryStands q hq)
  have hself : (uriText { protocol, host, path, query }).flatMap seen =
      text protocol host path query := by
    have hqueries : query.map (carried legalQuery) = query := by
      cases query with
      | none => rfl
      | some q => exact congrArg some (hquery q rfl)
    rw [seen_uriText hplainly.web, carriedAuthority_self hhost hplainly.authority,
      carried_eq rfl hpath hplainly.pathStands, hqueries]
  have hvisible := @seen_uriText_ends { protocol, host, path, query } hplainly.web
  rw [hself, lower_passes hpasses] at hvisible
  have hrooted : Rooted path := by
    rcases hplainly.settled with h | ⟨cs, h, -⟩
    · exact .inl h
    · exact .inr (h ▸ rfl)
  have hcanonical : canonical path = path := by
    rcases hplainly.settled with rfl | ⟨cs, rfl, hsettled⟩
    · rfl
    · exact (canonical_eq_iff cs).mpr hsettled
  have hparse := @parse_text protocol host path query hplainly.web hvisible
    (fun c hc => ?_) hrooted (fun c hc => ?_) fun q hq hhash => ?_
  · have hlocal : ¬ (host = [] ∧ ['/', '/'].isPrefixOf path = true) := fun hboth => by
      rw [hplainly.hasHost hboth.1] at hboth
      cases hboth.2
    rw [lower_passes hpasses, hparse, if_neg hlocal, hcanonical,
      hostOf_self (fun hat => (hplainly.delimiters _ hat).2.2.2 rfl) hplainly.authority] at h
    rw [← Option.some.inj h]
    exact hself
  · obtain ⟨hslash, hmark, hhash, -⟩ := hplainly.delimiters c hc
    exact ⟨hslash, hmark, hhash⟩
  · have hstands := hplainly.pathStands c hc
    exact ⟨not_delimiter_of_stands (by decide) (.inl hstands) (by decide),
      not_delimiter_of_stands (by decide) (.inl hstands) (by decide)⟩
  · have hstands := hplainly.queryStands q hq _ hhash
    exact absurd hstands (by decide)

/-! ## From the line to the client -/

/-- What `toVisitEvent` writes of a URL. -/
def item (x : Server.Url) : Element where
  name := "item"
  attributes := [("id", x.id), ("url", Server.Url.getEscapedUrl x)]

/-- The address the client visits for it. -/
def visited (x : Server.Url) : Option WString := (createUrl (item x).attributes).map VisitUrl.url

theorem createUrl_item (x : Server.Url) : createUrl (item x).attributes =
    some { url := wide (x.url.toList.flatMap seen), program := "", visitTime := 0 } := by
  have hread : ∀ (u : VisitUrl) (id url : String), readUrl u [("id", id), ("url", url)] =
      some { u with url := wide url.toList } := fun u id url => by
    rw [readUrl, if_neg (by decide), if_neg (by decide), if_neg (by decide), readUrl, if_pos rfl,
      readUrl]
  rw [item, createUrl, hread, Option.map_some, Server.Url.getEscapedUrl, decode_urlEncode]

theorem visited_eq (x : Server.Url) : visited x = some (wide (x.url.toList.flatMap seen)) := by
  rw [visited, createUrl_item, Option.map_some]

/-- A platform that refuses no URL. -/
def anyUri : Server.UrlConfig where
  uri := webUri fun _ => true
  emptyIsLiteral := false
  clientDefault := "iexplore"
  clientDefaultVisitTime := 20

theorem page_faithful : Faithful "http://a.com/b?c".toList := by
  refine ⟨forall_mem_of_all (by decide), "http".toList, "a.com".toList, "/b".toList,
    some "c".toList, by decide, ?_⟩
  refine ⟨.inl rfl, .inl ⟨by decide, by decide, forall_mem_of_all (by decide)⟩,
    forall_mem_of_all (by decide), .inr ⟨['b'], by decide, ?_⟩, forall_mem_of_all (by decide), ?_,
    by decide⟩
  · exact ⟨by decide, fun i hi => absurd hi (by simp [segments]), by decide⟩
  · rintro q ⟨⟩
    exact forall_mem_of_all (by decide)

example : (Server.UrlFactory.getUrl anyUri "1" "http://me@a.com:8080/a%20b#c").map Server.Url.url =
    some "http://a.com/a%2520b" := by decide

end Url

end CaptureHpc.Client
