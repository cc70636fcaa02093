/-
# `Server.ItemIdentity` — the URL that an item of the client means

The server sends the URLs of a group escaped and in lower case, the client
decodes them and sends them back encoded its own way, and `UrlGroup.getUrl`
looks for the URL by its escaped form.  It finds the right one
(`getUrl_echoed_iff`) unless the URL has a character that the decoder of the
client drops, or the same address stands earlier in the group with another
client program or another visit time.
-/
import CaptureHpc.Client.Url
import CaptureHpc.Server.UrlGroup

namespace CaptureHpc.Server

open Java

/-- No character of the text is outside the first plane. -/
def InFirstPlane (s : String) : Prop := ∀ c ∈ s.toList, c.toNat < 0x10000

instance (s : String) : Decidable (InFirstPlane s) :=
  List.decidableBAll _ s.toList

/-- Two URLs that `getUrl` cannot tell apart. -/
def sameAddress (x y : Url) : Bool := equalsIgnoreCase (Url.getEscapedUrl x) (Url.getEscapedUrl y)

/-! ## The escaped form -/

/-- The escaped form of a text in lower case. -/
def escaped (cs : List Char) : List Char := (cs.flatMap encodeChar).map lowerChar

theorem escaped_append (l m : List Char) : escaped (l ++ m) = escaped l ++ escaped m := by
  rw [escaped, List.flatMap_append, List.map_append]
  rfl

theorem escaped_cons (c : Char) (cs : List Char) :
    escaped (c :: cs) = (encodeChar c).map lowerChar ++ escaped cs := by
  rw [escaped, List.flatMap_cons, List.map_append]
  rfl

/-- Lowering the escaped form again changes nothing. -/
theorem escaped_lower (cs : List Char) : (escaped cs).map lowerChar = escaped cs := by
  rw [escaped, List.map_map]
  exact List.map_congr_left fun c _ => lowerChar_lowerChar c

theorem getEscapedUrl_eq (x : Url) : Url.getEscapedUrl x = String.ofList (escaped x.url.toList) := by
  rw [Url.getEscapedUrl, toLowerCase, urlEncode, String.toList_ofList]
  rfl

/-- What `getUrl` compares. -/
theorem equalsIgnoreCase_escaped (x : Url) (cs : List Char) :
    equalsIgnoreCase (Url.getEscapedUrl x) (urlEncode (String.ofList cs)) = true ↔
      escaped x.url.toList = escaped cs := by
  rw [equalsIgnoreCase, getEscapedUrl_eq, urlEncode, String.toList_ofList, String.toList_ofList,
    String.toList_ofList, escaped_lower, beq_iff_eq]
  rfl

theorem sameAddress_iff (x y : Url) :
    sameAddress x y = true ↔ escaped x.url.toList = escaped y.url.toList := by
  rw [sameAddress, equalsIgnoreCase, getEscapedUrl_eq, getEscapedUrl_eq, String.toList_ofList,
    String.toList_ofList, escaped_lower, escaped_lower, beq_iff_eq]

/-! ## What the client makes of it -/

open Client.Url (seen echoed urlDecode_echoed blank_not_mem_seen)

/-- A character that the client sends back as it got it. -/
theorem escaped_seen_char {c : Char} (hb : c ≠ ' ') (hc : c.toNat < 0x10000) :
    escaped (seen c) = (encodeChar c).map lowerChar := by
  have hseen : seen c = [plain c] := by
    rw [seen, if_neg hb, if_pos hc, plain]
    split <;> rfl
  rw [hseen, escaped, List.flatMap_singleton, encodeChar_plain]

theorem escaped_seen {cs : List Char} (hb : ' ' ∉ cs) (hc : ∀ c ∈ cs, c.toNat < 0x10000) :
    escaped (cs.flatMap seen) = escaped cs := by
  induction cs with
  | nil => rfl
  | cons c cs ih =>
      rw [List.mem_cons, not_or] at hb
      rw [List.forall_mem_cons] at hc
      rw [List.flatMap_cons, escaped_append, escaped_cons, ih hb.2 hc.2,
        escaped_seen_char (Ne.symm hb.1) hc.1]

theorem plus_mem_encodeChar {c : Char} (h : '+' ∈ (encodeChar c).map lowerChar) : c = ' ' := by
  rw [encodeChar] at h
  split at h
  · next hu =>
      have hplus := List.mem_singleton.mp h
      exact absurd hplus.symm (unreserved_lower hu).2.1
  · split at h
    · assumption
    · obtain ⟨d, hd, hplus⟩ := List.mem_map.mp h
      obtain ⟨b, hb, hd⟩ := List.mem_flatMap.mp hd
      have hall : ∀ b < 256, (percent b).all (lowerChar · ≠ '+') := by decide +kernel
      have hd' := List.all_eq_true.mp (hall b (utf8_lt c b hb)) d hd
      exact absurd hplus (of_decide_eq_true hd')

/-- The escaped form has a plus for every blank, and no other. -/
theorem plus_mem_escaped {cs : List Char} : '+' ∈ escaped cs ↔ ' ' ∈ cs := by
  induction cs with
  | nil => simp [escaped]
  | cons c cs ih =>
      have hc : '+' ∈ (encodeChar c).map lowerChar ↔ c = ' ' := by
        refine ⟨plus_mem_encodeChar, ?_⟩
        rintro rfl
        decide
      rw [escaped_cons, List.mem_append, hc, ih, List.mem_cons, eq_comm]

theorem encodeChar_length_pos (c : Char) : 0 < (encodeChar c).length := by
  rw [encodeChar]
  split
  · exact Nat.one_pos
  · split
    · exact Nat.one_pos
    · obtain ⟨b, bs, hbs⟩ := List.exists_cons_of_length_pos (utf8_length_pos c)
      rw [hbs, List.flatMap_cons, List.length_append]
      exact Nat.add_pos_left (Nat.succ_pos 2) _

theorem length_escaped_seen_char {c : Char} (hb : c ≠ ' ') :
    (escaped (seen c)).length ≤ (encodeChar c).length := by
  by_cases hc : c.toNat < 0x10000
  · rw [escaped_seen_char hb hc, List.length_map]
  · have hseen : escaped (seen c) = [] := by
      have hu : ¬ unreserved c = true := by
        intro hu
        have := unreserved_lt hu
        omega
      rw [seen, if_neg hu, if_neg hb, if_neg hc]
      rfl
    rw [hseen]
    exact Nat.zero_le _

theorem length_escaped_seen {cs : List Char} (hb : ' ' ∉ cs) :
    (escaped (cs.flatMap seen)).length ≤ (escaped cs).length ∧
      ((∃ c ∈ cs, 0x10000 ≤ c.toNat) →
        (escaped (cs.flatMap seen)).length < (escaped cs).length) := by
  induction cs with
  | nil => exact ⟨Nat.le_refl _, fun ⟨c, hc, _⟩ => absurd hc List.not_mem_nil⟩
  | cons c cs ih =>
      rw [List.mem_cons, not_or] at hb
      obtain ⟨hle, hlt⟩ := ih hb.2
      have hchar := length_escaped_seen_char (Ne.symm hb.1)
      rw [List.flatMap_cons, escaped_append, escaped_cons, List.length_append, List.length_append,
        List.length_map]
      refine ⟨by omega, ?_⟩
      rintro ⟨d, hd, hfar⟩
      rcases List.mem_cons.mp hd with rfl | hd
      · -- the character itself is dropped
        have hseen : seen d = [] := by
          have hu : ¬ unreserved d = true := by
            intro hu
            have := unreserved_lt hu
            omega
          rw [seen, if_neg hu, if_neg (Ne.symm hb.1), if_neg (by omega)]
        have hpos := encodeChar_length_pos d
        have hnil : (escaped []).length = 0 := rfl
        rw [hseen, hnil]
        omega
      · have := hlt ⟨d, hd, hfar⟩
        omega

/-- The client sends back what it got exactly when it neither reads a blank nor drops a character. -/
theorem escaped_seen_iff {cs : List Char} :
    escaped (cs.flatMap seen) = escaped cs ↔ ' ' ∉ cs ∧ ∀ c ∈ cs, c.toNat < 0x10000 := by
  refine ⟨fun h => ?_, fun ⟨hb, hc⟩ => escaped_seen hb hc⟩
  have hb : ' ' ∉ cs := by
    intro hmem
    have hplus := plus_mem_escaped.mpr hmem
    rw [← h, plus_mem_escaped] at hplus
    obtain ⟨c, -, hc⟩ := List.mem_flatMap.mp hplus
    exact blank_not_mem_seen c hc
  refine ⟨hb, fun c hc => ?_⟩
  by_contra hfar
  have hlt := (length_escaped_seen hb).2 ⟨c, hc, by omega⟩
  rw [h] at hlt
  exact Nat.lt_irrefl _ hlt

/-! ## Looking it up -/

/-- The first of a list that passes a test is a given member. -/
theorem find?_eq_some_of_mem {α : Type} [DecidableEq α] {p : α → Bool} {l : List α} {a : α}
    (ha : a ∈ l) :
    l.find? p = some a ↔ p a = true ∧ ∀ b ∈ l.takeWhile (· ≠ a), p b = false := by
  induction l with
  | nil => exact absurd ha List.not_mem_nil
  | cons b l ih =>
      by_cases hb : b = a
      · subst hb
        rw [List.takeWhile_cons_of_neg (by simp)]
        cases hp : p b with
        | true => simp [List.find?_cons_of_pos, hp]
        | false =>
            rw [List.find?_cons_of_neg (by simp [hp])]
            constructor
            · intro h
              have := List.find?_some h
              exact absurd (this.symm.trans hp) nofun
            · exact fun h => absurd h.1 nofun
      · have hmem : a ∈ l := (List.mem_cons.mp ha).resolve_left (Ne.symm hb)
        rw [List.takeWhile_cons_of_pos (by simpa using hb), List.forall_mem_cons]
        cases hp : p b with
        | true =>
            rw [List.find?_cons_of_pos hp]
            simp [hb]
        | false =>
            rw [List.find?_cons_of_neg (by simp [hp]), ih hmem]
            simp

theorem run_getUrl_echoed (g : GroupRef) (x : Url) (s : ServerState) :
    (UrlGroup.getUrl g (echoed x.url)).run s =
      (deref ((s.group g).urlList.find? fun w =>
        escaped (s.url w).url.toList == escaped (x.url.toList.flatMap seen))).run s := by
  have hfind : (fun w => equalsIgnoreCase (Url.getEscapedUrl (s.url w))
      (urlEncode (String.ofList (x.url.toList.flatMap seen)))) =
      fun w => escaped (s.url w).url.toList == escaped (x.url.toList.flatMap seen) := by
    funext w
    rw [Bool.eq_iff_iff, equalsIgnoreCase_escaped, beq_iff_eq]
  rw [UrlGroup.getUrl, urlDecode_echoed]
  simp only [Exec.orThrow_some, Exec.pure_bind, Exec.run_gets_bind, hfind]

/-- **When the server finds the URL that the client means**: it has no blank (no URI has) and no
character outside the first plane, and the group has no URL of the same address before it. -/
theorem getUrl_echoed_iff {s : ServerState} {g : GroupRef} {u : UrlRef}
    (hu : u ∈ (s.group g).urlList) :
    (UrlGroup.getUrl g (echoed (s.url u).url)).run s = (.ok u, s) ↔
      ' ' ∉ (s.url u).url.toList ∧ InFirstPlane (s.url u).url ∧
        ∀ w ∈ (s.group g).urlList.takeWhile (· ≠ u), sameAddress (s.url w) (s.url u) = false := by
  have hrun : ∀ o : Option UrlRef, (deref o : Action UrlRef).run s = (.ok u, s) ↔ o = some u := by
    rintro (_ | w)
    · exact ⟨fun h => absurd (congrArg Prod.fst h) nofun, fun h => absurd h nofun⟩
    · constructor
      · intro h
        injection h with h
        injection h with h
        rw [h]
      · intro h
        injection h with h
        rw [h]
        rfl
  rw [run_getUrl_echoed, hrun, find?_eq_some_of_mem hu, beq_iff_eq, eq_comm, escaped_seen_iff,
    and_assoc]
  refine and_congr_right fun hb => and_congr_right fun hplane => ?_
  have hback := escaped_seen hb hplane
  refine forall₂_congr fun w _ => ?_
  rw [hback, Bool.eq_false_iff, Bool.eq_false_iff, ne_eq, ne_eq, beq_iff_eq, sameAddress_iff]

/-! ## Two groups -/

/-- A server with one URL on its queue. -/
def queuedServer (url : String) : ServerState where
  config := {}
  url _ := { id := "1", url, clientProgram := "iexplore", visitTime := 30 }
  store := { visit := fun _ => {} }
  group _ := { urlList := [], clientProgram := "", visitTime := 0 }
  nextGroup := 0
  client _ := {}
  vm _ := {}
  urlQueue := [0]
  urlGroupQueue := []
  visitingList := []

/-- The group that the controller makes of it. -/
def takenServer (url : String) : ServerState :=
  (UrlGroupsController.takeUrlGroup.run (queuedServer url)).2

theorem getUrl_accented :
    0 ∈ ((takenServer "http://a/ü?q=%2f").group 0).urlList ∧
      (UrlGroup.getUrl 0 (echoed ((takenServer "http://a/ü?q=%2f").url 0).url)).run
        (takenServer "http://a/ü?q=%2f") = (.ok 0, takenServer "http://a/ü?q=%2f") :=
  ⟨by decide, (getUrl_echoed_iff (by decide)).mpr ⟨by decide, by decide, by decide⟩⟩

/-- The decoder of the client drops a character outside the first plane, and the URL is not found. -/
theorem getUrl_dropped : ∃ url,
    0 ∈ ((takenServer url).group 0).urlList ∧
      (UrlGroup.getUrl 0 (echoed ((takenServer url).url 0).url)).run (takenServer url) =
        (.error .nullPointer, takenServer url) := by
  refine ⟨"http://a/😀", by decide, ?_⟩
  have hnone : ((takenServer "http://a/😀").group 0).urlList.find? (fun w =>
      escaped ((takenServer "http://a/😀").url w).url.toList ==
        escaped ("http://a/😀".toList.flatMap seen)) = none := by
    decide +kernel
  exact (run_getUrl_echoed 0 ((takenServer "http://a/😀").url 0) _).trans
    (congrArg (fun o => (deref o : Action UrlRef).run _) hnone)

end CaptureHpc.Server
