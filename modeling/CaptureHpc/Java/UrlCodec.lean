/-
# `Java.UrlCodec` — `URLEncoder` and `URLDecoder` for UTF-8

A URL travels to the client and back in the form `urlEncode` gives it.  The
server lowers the letter case on both ways, so what comes back is not the
string it sent; it decodes and encodes once more before it compares.

`urlDecode_toLowerCase` says that this comparison is sound: decoding the
lowered form succeeds, and what it yields encodes to the same text again, up to
letter case.  Escapes are read as in Java, with its leniency for a sign in
place of the first digit.  Bytes that are no UTF-8 become U+FFFD, as many at a
time as Java's decoder takes for malformed.
-/
import CaptureHpc.Java.Text

namespace Java

/-! ## UTF-8 -/

def utf8 (c : Char) : List Nat :=
  let n := c.toNat
  if n < 0x80 then [n]
  else if n < 0x800 then [0xC0 + n / 0x40, 0x80 + n % 0x40]
  else if n < 0x10000 then [0xE0 + n / 0x1000, 0x80 + n / 0x40 % 0x40, 0x80 + n % 0x40]
  else [0xF0 + n / 0x40000, 0x80 + n / 0x1000 % 0x40, 0x80 + n / 0x40 % 0x40, 0x80 + n % 0x40]

/-- U+FFFD. -/
def replacement : Char := Char.ofNat 0xFFFD

/-- The payload of a continuation byte. -/
def continuation (b : Nat) : Option Nat :=
  if 0x80 ≤ b ∧ b < 0xC0 then some (b - 0x80) else none

/-- The character whose encoding has the bits of a byte list, and how many bytes that takes. -/
def leadingBits : List Nat → Char × Nat
  | [] => (replacement, 1)
  | b :: bs =>
      if b < 0x80 then (Char.ofNat b, 1)
      else if b < 0xE0 then
        match bs.head?.bind continuation with
        | some x => (Char.ofNat ((b - 0xC0) * 0x40 + x), 2)
        | none => (replacement, 1)
      else if b < 0xF0 then
        match bs.head?.bind continuation, bs[1]?.bind continuation with
        | some x, some y => (Char.ofNat ((b - 0xE0) * 0x1000 + x * 0x40 + y), 3)
        | _, _ => (replacement, 1)
      else
        match bs.head?.bind continuation, bs[1]?.bind continuation, bs[2]?.bind continuation with
        | some x, some y, some z =>
            (Char.ofNat ((b - 0xF0) * 0x40000 + x * 0x1000 + y * 0x40 + z), 4)
        | _, _, _ => (replacement, 1)

/-- How many bytes are replaced at once where a byte list begins with no character. -/
def malformedLength : List Nat → Nat
  | b :: x :: bs =>
      if b < 0xE0 ∨ 0xF4 < b ∨ continuation x = none ∨ (b = 0xE0 ∧ x < 0xA0) ∨
          (b = 0xF0 ∧ x < 0x90) ∨ (b = 0xF4 ∧ 0x90 ≤ x) then 1
      else if (bs.head?.bind continuation).isSome then 3
      else 2
  | _ => 1

/-- The first character of a byte list and how many bytes it takes. -/
def firstChar (bs : List Nat) : Char × Nat :=
  let (c, n) := leadingBits bs
  if utf8 c = bs.take n then (c, n) else (replacement, malformedLength bs)

/-- The characters of a byte list, by `fuel` steps; one for each byte is enough. -/
def utf8Chars : Nat → List Nat → List Char
  | 0, _ => []
  | _ + 1, [] => []
  | fuel + 1, b :: bs =>
      match firstChar (b :: bs) with
      | (c, n) => c :: utf8Chars fuel ((b :: bs).drop n)

def utf8Decode (bs : List Nat) : List Char := utf8Chars bs.length bs

theorem continuation_add {n : Nat} (h : n < 0x40) : continuation (0x80 + n) = some n := by
  rw [continuation, if_pos (by omega), Nat.add_sub_cancel_left]

theorem mod_lt_cont (n : Nat) : n % 0x40 < 0x40 := Nat.mod_lt _ (by decide)

theorem leadingBits_utf8 (c : Char) (rest : List Nat) :
    leadingBits (utf8 c ++ rest) = (c, (utf8 c).length) := by
  have hc : c.toNat < 0x110000 := by
    rcases c.valid with h | h
    · exact Nat.lt_trans h (by decide)
    · exact h.2
  have hof : Char.ofNat c.toNat = c := Char.ofNat_toNat c
  by_cases h1 : c.toNat < 0x80
  · simp only [utf8, leadingBits, h1, if_true, List.cons_append, hof, List.length_cons,
      List.length_nil]
  · by_cases h2 : c.toNat < 0x800
    · have hb : ¬ 0xC0 + c.toNat / 0x40 < 0x80 := by omega
      have hb' : 0xC0 + c.toNat / 0x40 < 0xE0 := by omega
      have hn : (0xC0 + c.toNat / 0x40 - 0xC0) * 0x40 + c.toNat % 0x40 = c.toNat := by omega
      simp only [utf8, leadingBits, h1, h2, if_true, if_false, List.cons_append, List.nil_append,
        hb, hb', List.head?_cons, Option.bind_some, continuation_add (mod_lt_cont _), hn, hof,
        List.length_cons, List.length_nil]
    · by_cases h3 : c.toNat < 0x10000
      · have hb : ¬ 0xE0 + c.toNat / 0x1000 < 0x80 := by omega
        have hb' : ¬ 0xE0 + c.toNat / 0x1000 < 0xE0 := by omega
        have hb'' : 0xE0 + c.toNat / 0x1000 < 0xF0 := by omega
        have hn : (0xE0 + c.toNat / 0x1000 - 0xE0) * 0x1000 + c.toNat / 0x40 % 0x40 * 0x40
            + c.toNat % 0x40 = c.toNat := by omega
        simp only [utf8, leadingBits, h1, h2, h3, if_true, if_false, List.cons_append,
          List.nil_append, hb, hb', hb'', List.head?_cons, Option.bind_some,
          List.getElem?_cons_succ, List.getElem?_cons_zero, continuation_add (mod_lt_cont _), hn,
          hof, List.length_cons, List.length_nil]
      · have hb : ¬ 0xF0 + c.toNat / 0x40000 < 0x80 := by omega
        have hb' : ¬ 0xF0 + c.toNat / 0x40000 < 0xE0 := by omega
        have hb'' : ¬ 0xF0 + c.toNat / 0x40000 < 0xF0 := by omega
        have hn : (0xF0 + c.toNat / 0x40000 - 0xF0) * 0x40000 + c.toNat / 0x1000 % 0x40 * 0x1000
            + c.toNat / 0x40 % 0x40 * 0x40 + c.toNat % 0x40 = c.toNat := by omega
        simp only [utf8, leadingBits, h1, h2, h3, if_false, List.cons_append,
          List.nil_append, hb, hb', hb'', List.head?_cons, Option.bind_some,
          List.getElem?_cons_succ, List.getElem?_cons_zero, continuation_add (mod_lt_cont _), hn,
          hof, List.length_cons, List.length_nil]

/-- A byte list that starts with a character reads as that character. -/
theorem firstChar_utf8 (c : Char) (rest : List Nat) :
    firstChar (utf8 c ++ rest) = (c, (utf8 c).length) := by
  rw [firstChar, leadingBits_utf8]
  simp only [List.take_left, if_true]

theorem utf8_length_pos (c : Char) : 0 < (utf8 c).length := by
  unfold utf8
  simp only
  split
  · exact Nat.one_pos
  · split
    · exact Nat.succ_pos _
    · split <;> exact Nat.succ_pos _

theorem utf8Chars_utf8 : ∀ (cs : List Char) (fuel : Nat), (cs.flatMap utf8).length ≤ fuel →
    utf8Chars fuel (cs.flatMap utf8) = cs
  | [], fuel, _ => by cases fuel <;> rfl
  | c :: cs, fuel, h => by
      have hpos := utf8_length_pos c
      rw [List.flatMap_cons, List.length_append] at h
      cases hb : utf8 c ++ cs.flatMap utf8 with
      | nil =>
          have := congrArg List.length hb
          rw [List.length_append, List.length_nil] at this
          omega
      | cons b bs =>
          cases fuel with
          | zero => omega
          | succ fuel =>
              have ih := utf8Chars_utf8 cs fuel (by omega)
              have hfirst := firstChar_utf8 c (cs.flatMap utf8)
              rw [hb] at hfirst
              rw [List.flatMap_cons, hb, utf8Chars, hfirst]
              simp only
              rw [← hb, List.drop_left, ih]

theorem utf8_ofNat {b : Nat} (h : b < 0x80) : utf8 (Char.ofNat b) = [b] := by
  rw [utf8, toNat_ofNat (.inl (Nat.lt_trans h (by decide)))]
  exact if_pos h

theorem firstChar_ascii {b : Nat} (h : b < 0x80) (bs : List Nat) :
    firstChar (b :: bs) = (Char.ofNat b, 1) := by
  have hfirst := firstChar_utf8 (Char.ofNat b) bs
  rwa [utf8_ofNat h] at hfirst

/-- A byte below 0x80 is a character of its own. -/
theorem utf8Decode_cons {b : Nat} (h : b < 0x80) (bs : List Nat) :
    utf8Decode (b :: bs) = Char.ofNat b :: utf8Decode bs := by
  rw [utf8Decode, List.length_cons, utf8Chars, firstChar_ascii h]
  rfl

theorem utf8Decode_utf8 (cs : List Char) : utf8Decode (cs.flatMap utf8) = cs :=
  utf8Chars_utf8 cs _ (Nat.le_refl _)

/-! ### Bytes below 0x80 in a text -/

section Ascii
variable {b : Nat} {x : List Nat}

theorem continuation_ascii (h : b < 0x80) : continuation b = none := by
  rw [continuation, if_neg (by omega)]

/-- A byte below 0x80 is part of no other character. -/
theorem leadingBits_append (h : b < 0x80) (hx : x ≠ []) (y : List Nat) :
    leadingBits (x ++ b :: y) = leadingBits x ∧ (leadingBits x).2 ≤ x.length := by
  have hb := continuation_ascii h
  match x with
  | [] => exact absurd rfl hx
  | [x₁] =>
      simp only [leadingBits, List.cons_append, List.nil_append, List.head?_cons, Option.bind_some,
        hb, List.head?_nil, Option.bind_none, List.length_cons, List.length_nil]
      split_ifs <;> simp
  | [x₁, x₂] =>
      simp only [leadingBits, List.cons_append, List.nil_append, List.head?_cons, Option.bind_some,
        List.getElem?_cons_succ, List.getElem?_cons_zero, hb, List.getElem?_nil, Option.bind_none,
        List.length_cons, List.length_nil]
      cases continuation x₂ <;> split_ifs <;> simp
  | [x₁, x₂, x₃] =>
      simp only [leadingBits, List.cons_append, List.nil_append, List.head?_cons, Option.bind_some,
        List.getElem?_cons_succ, List.getElem?_cons_zero, hb, List.getElem?_nil, Option.bind_none,
        List.length_cons, List.length_nil]
      cases continuation x₂ <;> cases continuation x₃ <;> split_ifs <;> simp
  | x₁ :: x₂ :: x₃ :: x₄ :: x =>
      simp only [leadingBits, List.cons_append, List.head?_cons, Option.bind_some,
        List.getElem?_cons_succ, List.getElem?_cons_zero, List.length_cons, true_and]
      cases continuation x₂ <;> cases continuation x₃ <;> cases continuation x₄ <;> split_ifs <;> simp

theorem malformedLength_append (h : b < 0x80) (hx : x ≠ []) (y : List Nat) :
    malformedLength (x ++ b :: y) = malformedLength x := by
  have hb := continuation_ascii h
  match x with
  | [] => exact absurd rfl hx
  | [x₁] => simp [malformedLength, hb]
  | [x₁, x₂] => simp [malformedLength, hb]
  | x₁ :: x₂ :: x₃ :: x => rfl

theorem malformedLength_le (hx : x ≠ []) : malformedLength x ≤ x.length := by
  match x with
  | [] => exact absurd rfl hx
  | [x₁] => exact Nat.le_refl _
  | [x₁, x₂] =>
      rw [malformedLength]
      split
      · exact Nat.le_succ 1
      · exact Nat.le_refl 2
  | x₁ :: x₂ :: x₃ :: x =>
      have hthree : 3 ≤ (x₁ :: x₂ :: x₃ :: x).length := by simp
      rw [malformedLength]
      split_ifs
      · exact Nat.le_trans (by decide) hthree
      · exact hthree
      · exact Nat.le_trans (by decide) hthree

theorem firstChar_append (h : b < 0x80) (hx : x ≠ []) (y : List Nat) :
    firstChar (x ++ b :: y) = firstChar x ∧ (firstChar x).2 ≤ x.length := by
  obtain ⟨hbits, hle⟩ := leadingBits_append h hx y
  simp only [firstChar]
  rw [hbits, malformedLength_append h hx y, List.take_append_of_le_length hle]
  refine ⟨rfl, ?_⟩
  split
  · exact hle
  · exact malformedLength_le hx

theorem firstChar_pos (bs : List Nat) : 0 < (firstChar bs).2 := by
  have hbits : 0 < (leadingBits bs).2 := by
    rw [leadingBits.eq_def]
    split
    · exact Nat.one_pos
    · split_ifs
      · exact Nat.one_pos
      · split <;> exact Nat.succ_pos _
      · split <;> exact Nat.succ_pos _
      · split <;> exact Nat.succ_pos _
  have hmalformed : 0 < malformedLength bs := by
    rw [malformedLength.eq_def]
    split
    · split_ifs <;> exact Nat.succ_pos _
    · exact Nat.one_pos
  simp only [firstChar]
  split
  · exact hbits
  · exact hmalformed

theorem utf8Chars_fuel : ∀ {fuel fuel' : Nat} {bs : List Nat}, bs.length ≤ fuel →
    bs.length ≤ fuel' → utf8Chars fuel bs = utf8Chars fuel' bs
  | 0, 0, _, _, _ => rfl
  | 0, _ + 1, [], _, _ => rfl
  | _ + 1, 0, [], _, _ => rfl
  | _ + 1, _ + 1, [], _, _ => rfl
  | fuel + 1, fuel' + 1, b :: bs, h, h' => by
      have hpos := firstChar_pos (b :: bs)
      rw [utf8Chars, utf8Chars]
      simp only
      have hlength : ((b :: bs).drop (firstChar (b :: bs)).2).length ≤ bs.length := by
        rw [List.length_drop, List.length_cons]
        omega
      rw [utf8Chars_fuel (Nat.le_trans hlength (Nat.le_of_succ_le_succ h))
        (Nat.le_trans hlength (Nat.le_of_succ_le_succ h'))]

theorem utf8Decode_firstChar (b : Nat) (bs : List Nat) :
    utf8Decode (b :: bs) = (firstChar (b :: bs)).1 ::
      utf8Decode ((b :: bs).drop (firstChar (b :: bs)).2) := by
  have hpos := firstChar_pos (b :: bs)
  rw [utf8Decode, List.length_cons, utf8Chars]
  simp only
  have hlength : ((b :: bs).drop (firstChar (b :: bs)).2).length ≤ bs.length := by
    rw [List.length_drop, List.length_cons]
    omega
  rw [utf8Decode, utf8Chars_fuel hlength (Nat.le_refl _)]

/-- **A byte below 0x80 cuts a text**: what is before it and what is after it are read apart. -/
theorem utf8Decode_append_cons (h : b < 0x80) (y : List Nat) : ∀ x : List Nat,
    utf8Decode (x ++ b :: y) = utf8Decode x ++ Char.ofNat b :: utf8Decode y := by
  intro x
  induction hn : x.length using Nat.strongRecOn generalizing x with
  | ind n ih =>
      cases x with
      | nil => exact utf8Decode_cons h y
      | cons x₁ x =>
          obtain ⟨hfirst, hle⟩ := firstChar_append h (List.cons_ne_nil x₁ x) y
          have hpos := firstChar_pos (x₁ :: x)
          have hshorter : ((x₁ :: x).drop (firstChar (x₁ :: x)).2).length < n := by
            rw [List.length_drop, hn]
            omega
          rw [List.cons_append] at hfirst
          rw [List.cons_append, utf8Decode_firstChar, hfirst, ← List.cons_append,
            List.drop_append_of_le_length hle, ih _ hshorter _ rfl, utf8Decode_firstChar x₁ x]
          rfl

/-- An ASCII character that is read was there. -/
theorem mem_of_mem_utf8Decode {c : Char} (hc : c.toNat < 0x80) : ∀ x : List Nat,
    c ∈ utf8Decode x → c.toNat ∈ x := by
  intro x
  induction hn : x.length using Nat.strongRecOn generalizing x with
  | ind n ih =>
      intro hmem
      cases x with
      | nil => cases hmem
      | cons x₁ x =>
          have hpos := firstChar_pos (x₁ :: x)
          rw [utf8Decode_firstChar] at hmem
          cases List.mem_cons.mp hmem with
          | inl hfirst =>
              simp only [firstChar] at hfirst
              split at hfirst
              · next hself =>
                  have hascii : utf8 c = [c.toNat] := by rw [utf8, if_pos hc]
                  rw [← hfirst, hascii] at hself
                  exact List.mem_of_mem_take (hself ▸ List.mem_singleton_self _)
              · subst hfirst
                exact absurd hc (show ¬ replacement.toNat < 0x80 by decide)
          | inr hrest =>
              have hshorter : ((x₁ :: x).drop (firstChar (x₁ :: x)).2).length < n := by
                rw [List.length_drop, hn, ← hn, List.length_cons]
                omega
              exact List.mem_of_mem_drop (ih _ hshorter _ rfl hrest)

/-- ASCII is read byte by byte. -/
theorem utf8Decode_ascii {y : List Nat} : ∀ {x : List Nat}, (∀ b ∈ x, b < 0x80) →
    utf8Decode (x ++ y) = x.map Char.ofNat ++ utf8Decode y
  | [], _ => rfl
  | b :: x, h => by
      rw [List.forall_mem_cons] at h
      rw [List.cons_append, utf8Decode_cons h.1, utf8Decode_ascii h.2]
      rfl

/-- A text of which the encoding begins with ASCII begins with these characters. -/
theorem of_flatMap_utf8 {y : List Nat} : ∀ {x : List Nat} {cs : List Char}, (∀ b ∈ x, b < 0x80) →
    cs.flatMap utf8 = x ++ y → ∃ cs', cs = x.map Char.ofNat ++ cs' ∧ cs'.flatMap utf8 = y
  | [], cs, _, h => ⟨cs, rfl, h⟩
  | b :: x, [], _, h => nomatch h
  | b :: x, c :: cs, hx, h => by
      rw [List.forall_mem_cons] at hx
      -- a first byte below 0x80 is all of its character
      have hfirst := firstChar_utf8 c (cs.flatMap utf8)
      rw [← List.flatMap_cons, h, List.cons_append, firstChar_ascii hx.1] at hfirst
      obtain ⟨rfl, -⟩ := Prod.mk.inj hfirst
      rw [List.flatMap_cons, utf8_ofNat hx.1] at h
      obtain ⟨cs', rfl, hcs'⟩ := of_flatMap_utf8 hx.2 (List.cons.inj h).2
      exact ⟨cs', rfl, hcs'⟩

/-- A text of which the encoding is ASCII. -/
theorem eq_of_flatMap_utf8 {cs : List Char} (h : cs.flatMap utf8 = x) (hx : ∀ b ∈ x, b < 0x80) :
    cs = x.map Char.ofNat := by
  obtain ⟨rest, hcs, hrest⟩ := of_flatMap_utf8 (y := []) hx (h.trans (List.append_nil x).symm)
  cases rest with
  | nil => rw [hcs, List.append_nil]
  | cons c rest =>
      have hpos := utf8_length_pos c
      rw [List.flatMap_cons, List.append_eq_nil_iff] at hrest
      rw [hrest.1] at hpos
      cases hpos

end Ascii

/-! ## Encoding -/

/-- The characters `URLEncoder` leaves as they are. -/
def unreserved (c : Char) : Bool :=
  let n := c.toNat
  (97 ≤ n && n ≤ 122) || (65 ≤ n && n ≤ 90) || (48 ≤ n && n ≤ 57) ||
    c == '-' || c == '_' || c == '.' || c == '*'

def hexDigit (n : Nat) : Char :=
  if n < 10 then Char.ofNat (48 + n) else Char.ofNat (55 + n)

def percent (b : Nat) : List Char := ['%', hexDigit (b / 16), hexDigit (b % 16)]

def encodeChar (c : Char) : List Char :=
  if unreserved c then [c] else if c = ' ' then ['+'] else (utf8 c).flatMap percent

/-- `URLEncoder.encode(s, "UTF-8")`. -/
def urlEncode (s : String) : String := String.ofList (s.toList.flatMap encodeChar)

/-! ## Decoding -/

def hexValue (c : Char) : Option Nat :=
  let n := c.toNat
  if 48 ≤ n ∧ n ≤ 57 then some (n - 48)
  else if 65 ≤ n ∧ n ≤ 70 then some (n - 55)
  else if 97 ≤ n ∧ n ≤ 102 then some (n - 87)
  else none

/-- `Integer.parseInt` in radix 16 on two characters, when it is not negative. -/
def hexByte (a b : Char) : Option Nat :=
  if a = '+' then hexValue b
  else if a = '-' then (hexValue b).filter (· = 0)
  else do return 16 * (← hexValue a) + (← hexValue b)

/-- The text as characters and escaped bytes; `none` is `IllegalArgumentException`. -/
def tokens : List Char → Option (List (Char ⊕ Nat))
  | [] => some []
  | '%' :: a :: b :: rest => do return .inr (← hexByte a b) :: (← tokens rest)
  | '%' :: _ => none
  | c :: rest => do return .inl (if c = '+' then ' ' else c) :: (← tokens rest)

/-- Runs of bytes read as UTF-8. -/
def assemble : List Nat → List (Char ⊕ Nat) → List Char
  | bytes, [] => utf8Decode bytes
  | bytes, .inr b :: ts => assemble (bytes ++ [b]) ts
  | bytes, .inl c :: ts => utf8Decode bytes ++ c :: assemble [] ts

/-- `URLDecoder.decode(s, "UTF-8")`. -/
def urlDecode (s : String) : Option String :=
  (tokens s.toList).map fun ts => String.ofList (assemble [] ts)

/-! ## The round trip -/

/-- The letter case that survives the trip. -/
def plain (c : Char) : Char := if unreserved c then lowerChar c else c

/-- What the lowered encoding of a character is read as. -/
def tok (c : Char) : List (Char ⊕ Nat) :=
  if unreserved c then [.inl (lowerChar c)]
  else if c = ' ' then [.inl ' '] else (utf8 c).map Sum.inr

theorem utf8_lt (c : Char) : ∀ b ∈ utf8 c, b < 256 := by
  have hc : c.toNat < 0x110000 := by
    rcases c.valid with h | h
    · exact Nat.lt_trans h (by decide)
    · exact h.2
  intro b hb
  by_cases h1 : c.toNat < 0x80
  · simp only [utf8, h1, if_true, List.mem_singleton] at hb
    omega
  · by_cases h2 : c.toNat < 0x800
    · simp only [utf8, h1, h2, if_true, if_false, List.mem_cons, List.not_mem_nil, or_false] at hb
      omega
    · by_cases h3 : c.toNat < 0x10000
      · simp only [utf8, h1, h2, h3, if_true, if_false, List.mem_cons, List.not_mem_nil,
          or_false] at hb
        omega
      · simp only [utf8, h1, h2, h3, if_false, List.mem_cons, List.not_mem_nil, or_false] at hb
        omega

theorem unreserved_lt {c : Char} (h : unreserved c = true) : c.toNat < 128 := by
  simp only [unreserved, Bool.or_eq_true, Bool.and_eq_true, decide_eq_true_eq, beq_iff_eq] at h
  rcases h with (((((h | h) | h) | rfl) | rfl) | rfl) | rfl
  · omega
  · omega
  · omega
  · decide
  · decide
  · decide
  · decide

theorem unreserved_lower {c : Char} (h : unreserved c = true) :
    lowerChar c ≠ '%' ∧ lowerChar c ≠ '+' ∧ unreserved (lowerChar c) = true ∧
      lowerChar (lowerChar c) = lowerChar c := by
  have hall : ∀ n < 128, unreserved (Char.ofNat n) = true →
      lowerChar (Char.ofNat n) ≠ '%' ∧ lowerChar (Char.ofNat n) ≠ '+' ∧
        unreserved (lowerChar (Char.ofNat n)) = true ∧
          lowerChar (lowerChar (Char.ofNat n)) = lowerChar (Char.ofNat n) := by
    decide +kernel
  have := hall c.toNat (unreserved_lt h)
  rw [Char.ofNat_toNat] at this
  exact this h

theorem tokens_cons {c : Char} (hc : c ≠ '%') (rest : List Char) :
    tokens (c :: rest) = (tokens rest).map (.inl (if c = '+' then ' ' else c) :: ·) := by
  rw [tokens.eq_def]
  split
  · next h => cases h
  · next h => exact absurd (List.cons.inj h).1 hc
  · next h => exact absurd (List.cons.inj h).1 hc
  · next h =>
      obtain ⟨rfl, rfl⟩ := List.cons.inj h
      cases tokens _ <;> rfl

theorem tokens_percent {b : Nat} (hb : b < 256) (rest : List Char) :
    tokens ((percent b).map lowerChar ++ rest) = (tokens rest).map (.inr b :: ·) := by
  have hall : ∀ b < 256,
      hexByte (lowerChar (hexDigit (b / 16))) (lowerChar (hexDigit (b % 16))) = some b := by
    decide +kernel
  have hpct : lowerChar '%' = '%' := by decide
  simp only [percent, List.map_cons, List.map_nil, List.cons_append, List.nil_append, hpct, tokens,
    hall b hb]
  cases tokens rest <;> rfl

theorem tokens_percents : ∀ (bs : List Nat), (∀ b ∈ bs, b < 256) → ∀ rest : List Char,
    tokens ((bs.flatMap percent).map lowerChar ++ rest) = (tokens rest).map (bs.map Sum.inr ++ ·)
  | [], _, rest => by simp
  | b :: bs, h, rest => by
      rw [List.flatMap_cons, List.map_append, List.append_assoc,
        tokens_percent (h b List.mem_cons_self),
        tokens_percents bs fun x hx => h x (List.mem_cons_of_mem _ hx)]
      cases tokens rest <;> rfl

theorem tokens_encodeChar (c : Char) (rest : List Char) :
    tokens ((encodeChar c).map lowerChar ++ rest) = (tokens rest).map (tok c ++ ·) := by
  by_cases hu : unreserved c = true
  · obtain ⟨hpct, hplus, -, -⟩ := unreserved_lower hu
    simp only [encodeChar, tok, hu, if_true, List.map_cons, List.map_nil, List.cons_append,
      List.nil_append, tokens_cons hpct, hplus, if_false]
  · by_cases hsp : c = ' '
    · subst hsp
      exact tokens_cons (by decide) rest
    · have htok : tok c = (utf8 c).map Sum.inr := by rw [tok, if_neg hu, if_neg hsp]
      rw [encodeChar, if_neg hu, if_neg hsp, htok]
      exact tokens_percents _ (utf8_lt c) rest

theorem tokens_encode : ∀ cs : List Char,
    tokens ((cs.flatMap encodeChar).map lowerChar) = some (cs.flatMap tok)
  | [] => rfl
  | c :: cs => by
      rw [List.flatMap_cons, List.map_append, tokens_encodeChar, tokens_encode cs]
      rfl

theorem assemble_bytes : ∀ (bs pending : List Nat) (ts : List (Char ⊕ Nat)),
    assemble pending (bs.map Sum.inr ++ ts) = assemble (pending ++ bs) ts
  | [], pending, ts => by rw [List.append_nil]; rfl
  | b :: bs, pending, ts => by
      show assemble (pending ++ [b]) (bs.map Sum.inr ++ ts) = _
      rw [assemble_bytes bs, List.append_assoc]
      rfl

/-- Characters of which each is read from itself or from its bytes. -/
theorem assemble_flatMap {t : Char → List (Char ⊕ Nat)} {f : Char → Char} : ∀ {cs : List Char},
    (∀ c ∈ cs, t c = [.inl (f c)] ∨ (t c = (utf8 c).map Sum.inr ∧ f c = c)) →
      ∀ pending : List Char,
        assemble (pending.flatMap utf8) (cs.flatMap t) = pending ++ cs.map f
  | [], _, pending => by
      rw [List.map_nil, List.append_nil]
      exact utf8Decode_utf8 pending
  | c :: cs, h, pending => by
      rw [List.forall_mem_cons] at h
      obtain ⟨hc, hcs⟩ := h
      rcases hc with hself | ⟨hbytes, hc⟩
      · have ih := assemble_flatMap hcs []
        rw [List.flatMap_cons, hself]
        show utf8Decode (pending.flatMap utf8) ++ f c :: assemble [] (cs.flatMap t) = _
        rw [utf8Decode_utf8, List.map_cons]
        exact congrArg _ (congrArg _ ih)
      · have ih := assemble_flatMap hcs (pending ++ [c])
        rw [List.flatMap_append, List.flatMap_singleton] at ih
        rw [List.flatMap_cons, hbytes, assemble_bytes, ih, List.map_cons, hc, List.append_assoc]
        rfl

theorem tok_cases (c : Char) : tok c = [.inl (plain c)] ∨
    (tok c = (utf8 c).map Sum.inr ∧ plain c = c) := by
  by_cases hu : unreserved c = true
  · exact .inl (by rw [tok, if_pos hu, plain, if_pos hu])
  · have hplain : plain c = c := by rw [plain, if_neg hu]
    by_cases hsp : c = ' '
    · exact .inl (by rw [tok, if_neg hu, if_pos hsp, hplain, hsp])
    · exact .inr ⟨by rw [tok, if_neg hu, if_neg hsp], hplain⟩

theorem encodeChar_plain (c : Char) :
    (encodeChar (plain c)).map lowerChar = (encodeChar c).map lowerChar := by
  by_cases hu : unreserved c = true
  · obtain ⟨-, -, hl, hll⟩ := unreserved_lower hu
    simp only [plain, hu, if_true, encodeChar, hl, List.map_cons, List.map_nil, hll]
  · rw [plain, if_neg hu]

/-- **What comes back from the client decodes, and encodes to what was sent**, up
to letter case. -/
theorem urlDecode_toLowerCase (s : String) :
    ∃ d, urlDecode (toLowerCase (urlEncode s)) = some d ∧
      equalsIgnoreCase (urlEncode d) (urlEncode s) = true := by
  refine ⟨String.ofList (s.toList.map plain), ?_, ?_⟩
  · have hcases := fun c (_ : c ∈ s.toList) => tok_cases c
    have h := assemble_flatMap hcases []
    rw [List.flatMap_nil, List.nil_append] at h
    simp only [urlDecode, toLowerCase, urlEncode, String.toList_ofList, tokens_encode,
      Option.map_some, h]
  · simp only [equalsIgnoreCase, urlEncode, String.toList_ofList, beq_iff_eq, List.map_flatMap,
      List.flatMap_map, encodeChar_plain]

end Java
