/-
# `Client.Url` — the percent codec of the client

The client has its own pair of `URLEncoder` and `URLDecoder`, on wide strings:
lists of UTF-16 units.  `decode` reads the escapes of one, two or three bytes.
A character outside the first plane has four, and the decoder drops it.

`decode_urlEncode` says what the client gets to see of a URL that the server
has encoded, and `urlDecode_encode` what the server gets back.  `round_trip_iff`
is about the two functions of the client alone: `encode` writes a plus for a
blank, and `decode` leaves the plus as it is.
-/
import CaptureHpc.Java.UrlCodec

namespace CaptureHpc.Client

open Java

/-- A `std::wstring`. -/
abbrev WString := List Nat

/-- A string as the client has it. -/
def wide (cs : List Char) : WString := cs.flatMap utf16

/-- A text of the client as the server has it; only ASCII is sent. -/
def narrow (w : WString) : List Char := w.map Char.ofNat

namespace Url

/-! ## The codec -/

def hexDigit (n : Nat) : Nat := if n < 10 then 48 + n else 87 + n

/-- `hexenc[b]`. -/
def hexenc (b : Nat) : WString := [37, hexDigit (b / 16), hexDigit (b % 16)]

def isAlphanumeric (wch : Nat) : Bool :=
  (65 ≤ wch && wch ≤ 90) || (97 ≤ wch && wch ≤ 122) || (48 ≤ wch && wch ≤ 57)

/-- The marks that stay, from `-` to `)`. -/
def isMark (wch : Nat) : Bool := [45, 95, 46, 33, 126, 42, 39, 40, 41].contains wch

def encodeUnit (wch : Nat) : WString :=
  if isAlphanumeric wch then [wch]
  else if wch = 32 then [43]
  else if isMark wch then [wch]
  else if wch ≤ 0x7F then hexenc wch
  else if wch ≤ 0x7FF then hexenc (0xC0 ||| (wch >>> 6)) ++ hexenc (0x80 ||| (wch &&& 0x3F))
  else hexenc (0xE0 ||| (wch >>> 12)) ++ hexenc (0x80 ||| ((wch >>> 6) &&& 0x3F)) ++
    hexenc (0x80 ||| (wch &&& 0x3F))

def encode (text : WString) : WString := text.flatMap encodeUnit

def hexUnit (wch : Nat) : Option Nat :=
  if 48 ≤ wch ∧ wch ≤ 57 then some (wch - 48)
  else if 65 ≤ wch ∧ wch ≤ 70 then some (wch - 55)
  else if 97 ≤ wch ∧ wch ≤ 102 then some (wch - 87)
  else none

/-- `wcstol` on `0x` and two characters: it stops at the first that is no digit. -/
def wcstol (a b : Nat) : Nat :=
  match hexUnit a, hexUnit b with
  | none, _ => 0
  | some x, none => x
  | some x, some y => 16 * x + y

/-- What the decoder remembers of the bytes before. -/
structure Decoder where
  sequence : Int := 0
  conwch : Nat := 0

/-- One escaped byte, and what is appended for it. -/
def decodeByte (d : Decoder) (tconwch : Nat) : Decoder × WString :=
  if tconwch ≤ 0x7F then (d, [tconwch])
  else if tconwch ≤ 0xBF then
    let bits := tconwch &&& 0x3F
    let conwch := d.conwch ||| (if d.sequence = 2 then bits <<< 6 else bits)
    ({ sequence := d.sequence - 1, conwch }, if d.sequence - 1 = 0 then [conwch] else [])
  else if tconwch ≤ 0xDF then ({ sequence := 1, conwch := (tconwch &&& 0x1F) <<< 6 }, [])
  else if tconwch ≤ 0xEF then ({ sequence := 2, conwch := (tconwch &&& 0xF) <<< 12 }, [])
  else (d, [])

def decodeFrom (d : Decoder) : WString → WString
  | [] => []
  | 37 :: a :: b :: rest =>
      (decodeByte d (wcstol a b)).2 ++ decodeFrom (decodeByte d (wcstol a b)).1 rest
  | wch :: rest => wch :: decodeFrom d rest

def decode (text : WString) : WString := decodeFrom {} text

/-! ## Decoding what the server encoded -/

/-- What the client reads for a character: an unreserved one in lower case, for a blank the plus
it is sent as, and nothing if it is outside the first plane. -/
def seen (c : Char) : List Char :=
  if unreserved c then [lowerChar c]
  else if c = ' ' then ['+']
  else if c.toNat < 0x10000 then [c] else []

theorem blank_not_mem_seen (c : Char) : ' ' ∉ seen c := by
  intro h
  rw [seen] at h
  split at h
  · next hu =>
      have hl := (unreserved_lower hu).2.2.1
      rw [← List.mem_singleton.mp h] at hl
      exact absurd hl (by decide)
  · split at h
    · exact absurd (List.mem_singleton.mp h) (by decide)
    · next hb =>
        split at h
        · exact hb (List.mem_singleton.mp h).symm
        · exact absurd h List.not_mem_nil

theorem wide_append (l m : List Char) : wide (l ++ m) = wide l ++ wide m := List.flatMap_append

theorem wide_percent {b : Nat} (hb : b < 256) : wide ((percent b).map lowerChar) = hexenc b := by
  have hall : ∀ b < 256, wide ((percent b).map lowerChar) = hexenc b := by decide +kernel
  exact hall b hb

theorem decodeFrom_hexenc {b : Nat} (hb : b < 256) (d : Decoder) (rest : WString) :
    decodeFrom d (hexenc b ++ rest) =
      (decodeByte d b).2 ++ decodeFrom (decodeByte d b).1 rest := by
  have hall : ∀ b < 256, wcstol (hexDigit (b / 16)) (hexDigit (b % 16)) = b := by decide +kernel
  have hb := hall b hb
  simp only [hexenc, List.cons_append, List.nil_append, decodeFrom, hb]

theorem decodeFrom_cons {wch : Nat} (h : wch ≠ 37) (d : Decoder) (rest : WString) :
    decodeFrom d (wch :: rest) = wch :: decodeFrom d rest := by
  rw [decodeFrom.eq_def]
  split
  · next heq => cases heq
  · next heq => exact absurd (List.cons.inj heq).1 h
  · next heq =>
      obtain ⟨rfl, rfl⟩ := List.cons.inj heq
      rfl

/-- A leading byte of two, and what follows it. -/
theorem decodeByte_two {q : Nat} (hq : q < 32) (d : Decoder) :
    decodeByte d (0xC0 + q) = ({ sequence := 1, conwch := q <<< 6 }, []) := by
  have hmask : (0xC0 + q) &&& 0x1F = q := by
    rw [show (0x1F : Nat) = 2 ^ 5 - 1 by rfl, Nat.and_two_pow_sub_one_eq_mod]
    omega
  rw [decodeByte, if_neg (by omega), if_neg (by omega), if_pos (by omega), hmask]

theorem decodeByte_three {q : Nat} (hq : q < 16) (d : Decoder) :
    decodeByte d (0xE0 + q) = ({ sequence := 2, conwch := q <<< 12 }, []) := by
  have hmask : (0xE0 + q) &&& 0xF = q := by
    rw [show (0xF : Nat) = 2 ^ 4 - 1 by rfl, Nat.and_two_pow_sub_one_eq_mod]
    omega
  rw [decodeByte, if_neg (by omega), if_neg (by omega), if_neg (by omega), if_pos (by omega), hmask]

theorem decodeByte_more {r : Nat} (hr : r < 64) (d : Decoder) :
    decodeByte d (0x80 + r) =
      ({ sequence := d.sequence - 1
         conwch := d.conwch ||| (if d.sequence = 2 then r <<< 6 else r) },
        if d.sequence - 1 = 0 then [d.conwch ||| (if d.sequence = 2 then r <<< 6 else r)] else []) := by
  have hmask : (0x80 + r) &&& 0x3F = r := by
    rw [show (0x3F : Nat) = 2 ^ 6 - 1 by rfl, Nat.and_two_pow_sub_one_eq_mod]
    omega
  rw [decodeByte, if_neg (by omega), if_pos (by omega)]
  simp only [hmask]

theorem decodeByte_four {q : Nat} (hq : 0xF0 ≤ q) (d : Decoder) : decodeByte d q = (d, []) := by
  rw [decodeByte, if_neg (by omega), if_neg (by omega), if_neg (by omega), if_neg (by omega)]

theorem toNat_lt (c : Char) : c.toNat < 0x110000 := by
  rcases c.valid with h | h
  · exact Nat.lt_trans h (by decide)
  · exact h.2

theorem or_eq_add {q r k : Nat} (hr : r < 2 ^ k) : q <<< k ||| r = 2 ^ k * q + r := by
  rw [Nat.shiftLeft_eq, Nat.mul_comm, ← Nat.two_pow_add_eq_or_of_lt hr]

/-- Two escaped bytes are one unit. -/
theorem decodeFrom_two {q r : Nat} (hq : q < 32) (hr : r < 64) (d : Decoder) (rest : WString) :
    ∃ d' : Decoder, d'.sequence = 0 ∧
      decodeFrom d (hexenc (0xC0 + q) ++ (hexenc (0x80 + r) ++ rest)) =
        (64 * q + r) :: decodeFrom d' rest := by
  refine ⟨{ sequence := 0, conwch := q <<< 6 ||| r }, rfl, ?_⟩
  have hsum : q <<< 6 ||| r = 64 * q + r := or_eq_add (k := 6) hr
  rw [decodeFrom_hexenc (by omega), decodeByte_two hq, List.nil_append,
    decodeFrom_hexenc (by omega), decodeByte_more hr, ← hsum]
  rfl

/-- Three escaped bytes are one unit. -/
theorem decodeFrom_three {q r₁ r₂ : Nat} (hq : q < 16) (hr₁ : r₁ < 64) (hr₂ : r₂ < 64)
    (d : Decoder) (rest : WString) :
    ∃ d' : Decoder, d'.sequence = 0 ∧
      decodeFrom d (hexenc (0xE0 + q) ++ (hexenc (0x80 + r₁) ++ (hexenc (0x80 + r₂) ++ rest))) =
        (4096 * q + 64 * r₁ + r₂) :: decodeFrom d' rest := by
  refine ⟨{ sequence := 0, conwch := q <<< 12 ||| r₁ <<< 6 ||| r₂ }, rfl, ?_⟩
  have hsum : q <<< 12 ||| r₁ <<< 6 ||| r₂ = 4096 * q + 64 * r₁ + r₂ := by
    have hlow : r₁ <<< 6 ||| r₂ = 64 * r₁ + r₂ := or_eq_add (k := 6) hr₂
    have hhigh : q <<< 12 ||| (64 * r₁ + r₂) = 4096 * q + (64 * r₁ + r₂) :=
      or_eq_add (k := 12) (by omega)
    rw [Nat.or_assoc, hlow, hhigh, Nat.add_assoc]
  rw [decodeFrom_hexenc (by omega), decodeByte_three hq, List.nil_append,
    decodeFrom_hexenc (by omega), decodeByte_more hr₁, decodeFrom_hexenc (by omega),
    decodeByte_more hr₂, ← hsum]
  rfl

/-- Four escaped bytes are nothing. -/
theorem decodeFrom_four {q r₁ r₂ r₃ : Nat} (hq : q < 16) (hr₁ : r₁ < 64) (hr₂ : r₂ < 64)
    (hr₃ : r₃ < 64) (d : Decoder) (hd : d.sequence ≤ 0) (rest : WString) :
    ∃ d' : Decoder, d'.sequence ≤ 0 ∧
      decodeFrom d (hexenc (0xF0 + q) ++ (hexenc (0x80 + r₁) ++ (hexenc (0x80 + r₂) ++
        (hexenc (0x80 + r₃) ++ rest)))) = decodeFrom d' rest := by
  -- the count of bytes to come is not positive, and only goes down
  have hmore : ∀ (d : Decoder) (r : Nat) (rest : WString), d.sequence ≤ 0 → r < 64 →
      ∃ d' : Decoder, d'.sequence ≤ 0 ∧
        decodeFrom d (hexenc (0x80 + r) ++ rest) = decodeFrom d' rest := by
    intro d r rest hd hr
    have hnot : ¬ d.sequence - 1 = 0 := by omega
    refine ⟨(decodeByte d (0x80 + r)).1, ?_, ?_⟩
    · rw [decodeByte_more hr]
      show d.sequence - 1 ≤ 0
      omega
    · rw [decodeFrom_hexenc (by omega), decodeByte_more hr, if_neg hnot, List.nil_append]
  obtain ⟨d₁, hd₁, h₁⟩ := hmore d r₁ _ hd hr₁
  obtain ⟨d₂, hd₂, h₂⟩ := hmore d₁ r₂ _ hd₁ hr₂
  obtain ⟨d₃, hd₃, h₃⟩ := hmore d₂ r₃ rest hd₂ hr₃
  refine ⟨d₃, hd₃, ?_⟩
  rw [decodeFrom_hexenc (by omega), decodeByte_four (by omega), List.nil_append, h₁, h₂, h₃]

/-- The escapes of a character. -/
theorem decodeFrom_bytes (c : Char) (d : Decoder) (hd : d.sequence ≤ 0) (rest : WString) :
    ∃ d' : Decoder, d'.sequence ≤ 0 ∧ decodeFrom d ((utf8 c).flatMap hexenc ++ rest) =
      wide (if c.toNat < 0x10000 then [c] else []) ++ decodeFrom d' rest := by
  have hc := toNat_lt c
  have hwide : c.toNat < 0x10000 → wide (if c.toNat < 0x10000 then [c] else []) = [c.toNat] := by
    intro h
    simp [h, wide, utf16]
  by_cases h1 : c.toNat < 0x80
  · refine ⟨d, hd, ?_⟩
    rw [hwide (by omega), utf8, if_pos h1, List.flatMap_singleton,
      decodeFrom_hexenc (by omega), decodeByte, if_pos (by omega)]
  · by_cases h2 : c.toNat < 0x800
    · obtain ⟨d', hd', h⟩ := decodeFrom_two (q := c.toNat / 64) (r := c.toNat % 64) (by omega)
        (by omega) d rest
      refine ⟨d', le_of_eq hd', ?_⟩
      have hsum : 64 * (c.toNat / 64) + c.toNat % 64 = c.toNat := by omega
      rw [hsum] at h
      rw [hwide (by omega), utf8, if_neg h1, if_pos h2]
      simpa using h
    · by_cases h3 : c.toNat < 0x10000
      · have hq : c.toNat / 4096 < 16 := by omega
        have hr₁ : c.toNat / 64 % 64 < 64 := by omega
        have hr₂ : c.toNat % 64 < 64 := by omega
        obtain ⟨d', hd', h⟩ := decodeFrom_three hq hr₁ hr₂ d rest
        refine ⟨d', le_of_eq hd', ?_⟩
        have hsum : 4096 * (c.toNat / 4096) + 64 * (c.toNat / 64 % 64) + c.toNat % 64 =
            c.toNat := by omega
        rw [hsum] at h
        rw [hwide (by omega), utf8, if_neg h1, if_neg h2, if_pos h3]
        simpa using h
      · have hq : c.toNat / 262144 < 16 := by omega
        have hr₁ : c.toNat / 4096 % 64 < 64 := by omega
        have hr₂ : c.toNat / 64 % 64 < 64 := by omega
        have hr₃ : c.toNat % 64 < 64 := by omega
        obtain ⟨d', hd', h⟩ := decodeFrom_four hq hr₁ hr₂ hr₃ d hd rest
        refine ⟨d', hd', ?_⟩
        rw [if_neg h3, utf8, if_neg h1, if_neg h2, if_neg h3]
        simpa [wide] using h

theorem wide_percents : ∀ {bs : List Nat}, (∀ b ∈ bs, b < 256) →
    wide ((bs.flatMap percent).map lowerChar) = bs.flatMap hexenc
  | [], _ => rfl
  | b :: bs, h => by
      rw [List.forall_mem_cons] at h
      rw [List.flatMap_cons, List.map_append, wide_append, wide_percent h.1, wide_percents h.2,
        List.flatMap_cons]

/-- One character of a URL. -/
theorem decodeFrom_encodeChar (c : Char) (d : Decoder) (hd : d.sequence ≤ 0) (rest : WString) :
    ∃ d' : Decoder, d'.sequence ≤ 0 ∧
      decodeFrom d (wide ((encodeChar c).map lowerChar) ++ rest) =
        wide (seen c) ++ decodeFrom d' rest := by
  by_cases hu : unreserved c = true
  · refine ⟨d, hd, ?_⟩
    obtain ⟨hpct, -, hlower, -⟩ := unreserved_lower hu
    have hlt := unreserved_lt hlower
    have hunit : wide [lowerChar c] = [(lowerChar c).toNat] := by
      have hplane : (lowerChar c).toNat < 0x10000 := by omega
      simp [wide, utf16, hplane]
    have hne : (lowerChar c).toNat ≠ 37 := by
      intro h
      exact hpct (Char.toNat_inj.mp h)
    rw [encodeChar, if_pos hu, seen, if_pos hu, List.map_cons, List.map_nil, hunit]
    exact decodeFrom_cons hne d rest
  · by_cases hsp : c = ' '
    · subst hsp
      have hplus : 43 ≠ 37 := by decide
      exact ⟨d, hd, decodeFrom_cons hplus d rest⟩
    · rw [encodeChar, if_neg hu, if_neg hsp, seen, if_neg hu, if_neg hsp, wide_percents (utf8_lt c)]
      exact decodeFrom_bytes c d hd rest

theorem decodeFrom_urlEncode : ∀ (cs : List Char) (d : Decoder), d.sequence ≤ 0 →
    decodeFrom d (wide ((cs.flatMap encodeChar).map lowerChar)) = wide (cs.flatMap seen)
  | [], _, _ => rfl
  | c :: cs, d, hd => by
      obtain ⟨d', hd', h⟩ := decodeFrom_encodeChar c d hd
        (wide ((cs.flatMap encodeChar).map lowerChar))
      rw [List.flatMap_cons, List.map_append, wide_append, h, decodeFrom_urlEncode cs d' hd',
        List.flatMap_cons, wide_append]

/-- **What the client sees of a URL that the server encoded and lowered.** -/
theorem decode_urlEncode (s : String) :
    decode (wide (toLowerCase (urlEncode s)).toList) = wide (s.toList.flatMap seen) := by
  rw [toLowerCase, urlEncode, String.toList_ofList, String.toList_ofList]
  exact decodeFrom_urlEncode s.toList {} (Int.le_refl 0)

/-! ## Decoding what the client encoded -/

/-- What the server reads for a character of the client, before it puts bytes together. -/
def sent (c : Char) : List (Char ⊕ Nat) :=
  if isAlphanumeric c.toNat || isMark c.toNat then [.inl (lowerChar c)]
  else if c = ' ' then [.inl ' '] else (utf8 c).map Sum.inr

/-- The letter case that survives the way back. -/
def lowered (c : Char) : Char :=
  if isAlphanumeric c.toNat || isMark c.toNat then lowerChar c else c

theorem narrow_append (l m : WString) : narrow (l ++ m) = narrow l ++ narrow m := List.map_append

theorem narrow_hexenc {b : Nat} (hb : b < 256) :
    (narrow (hexenc b)).map lowerChar = (percent b).map lowerChar := by
  have hall : ∀ b < 256, (narrow (hexenc b)).map lowerChar = (percent b).map lowerChar := by
    decide +kernel
  exact hall b hb

theorem narrow_hexencs : ∀ {bs : List Nat}, (∀ b ∈ bs, b < 256) →
    (narrow (bs.flatMap hexenc)).map lowerChar = (bs.flatMap percent).map lowerChar
  | [], _ => rfl
  | b :: bs, h => by
      rw [List.forall_mem_cons] at h
      rw [List.flatMap_cons, narrow_append, List.map_append, narrow_hexenc h.1, narrow_hexencs h.2,
        List.flatMap_cons, List.map_append]

theorem or_lead {k q r : Nat} (hr : r < 2 ^ k) : 2 ^ k * q ||| r = 2 ^ k * q + r :=
  (Nat.two_pow_add_eq_or_of_lt hr q).symm

theorem encodeUnit_self {wch : Nat} (hself : (isAlphanumeric wch || isMark wch) = true) :
    encodeUnit wch = [wch] := by
  rw [encodeUnit]
  split
  · rfl
  · next halpha =>
      have hmark : isMark wch = true := by simpa [halpha] using hself
      have hblank : wch ≠ 32 := by
        intro h
        rw [h] at hmark
        exact absurd hmark (by decide)
      rw [if_neg hblank, if_pos hmark]

/-- Any other unit is escaped: seven bits in one byte, eleven in two, sixteen in three. -/
theorem encodeUnit_escaped {wch : Nat} (hplane : wch < 0x10000)
    (hself : (isAlphanumeric wch || isMark wch) = false) (hblank : wch ≠ 32) :
    encodeUnit wch =
      if wch ≤ 0x7F then hexenc wch
      else if wch ≤ 0x7FF then hexenc (0xC0 + wch / 64) ++ hexenc (0x80 + wch % 64)
      else hexenc (0xE0 + wch / 4096) ++
        (hexenc (0x80 + wch / 64 % 64) ++ hexenc (0x80 + wch % 64)) := by
  obtain ⟨halpha, hmark⟩ := Bool.or_eq_false_iff.mp hself
  have hlow : wch &&& 0x3F = wch % 64 := by
    rw [show (0x3F : Nat) = 2 ^ 6 - 1 by rfl, Nat.and_two_pow_sub_one_eq_mod]
  have hmid : (wch >>> 6) &&& 0x3F = wch / 64 % 64 := by
    rw [show (0x3F : Nat) = 2 ^ 6 - 1 by rfl, Nat.and_two_pow_sub_one_eq_mod,
      Nat.shiftRight_eq_div_pow]
  have hcont : ∀ r, r < 64 → 0x80 ||| r = 0x80 + r := fun r hr => or_lead (k := 6) (q := 2) hr
  rw [encodeUnit, if_neg (by simp [halpha]), if_neg hblank, if_neg (by simp [hmark])]
  split
  · rfl
  · split
    · have hlead : 0xC0 ||| wch / 64 = 0xC0 + wch / 64 := or_lead (k := 5) (q := 6) (by omega)
      rw [hlow, hcont _ (Nat.mod_lt _ (by decide)), Nat.shiftRight_eq_div_pow, hlead]
    · have hlead : 0xE0 ||| wch / 4096 = 0xE0 + wch / 4096 :=
        or_lead (k := 4) (q := 14) (by omega)
      rw [hlow, hmid, hcont _ (Nat.mod_lt _ (by decide)), hcont _ (Nat.mod_lt _ (by decide)),
        Nat.shiftRight_eq_div_pow, hlead, List.append_assoc]

/-- The encoder writes the bytes of UTF-8. -/
theorem encodeUnit_bytes {c : Char} (hplane : c.toNat < 0x10000)
    (hself : (isAlphanumeric c.toNat || isMark c.toNat) = false) (hsp : c ≠ ' ') :
    encodeUnit c.toNat = (utf8 c).flatMap hexenc := by
  have hblank : c.toNat ≠ 32 := fun h => hsp (Char.toNat_inj.mp h)
  rw [encodeUnit_escaped hplane hself hblank, utf8]
  by_cases h1 : c.toNat < 0x80
  · rw [if_pos (by omega), if_pos h1, List.flatMap_singleton]
  · by_cases h2 : c.toNat < 0x800
    · rw [if_neg (by omega), if_pos (by omega), if_neg h1, if_pos h2]
      simp
    · rw [if_neg (by omega), if_neg (by omega), if_neg h1, if_neg h2, if_pos hplane]
      simp

theorem literal_lt {c : Char} (h : (isAlphanumeric c.toNat || isMark c.toNat) = true) :
    c.toNat < 128 := by
  rcases Bool.or_eq_true_iff.mp h with h | h
  · simp only [isAlphanumeric, Bool.or_eq_true, Bool.and_eq_true, decide_eq_true_eq] at h
    omega
  · have hall : ∀ n ∈ [45, 95, 46, 33, 126, 42, 39, 40, 41], n < 128 := by decide
    exact hall _ (by simpa [isMark] using h)

theorem lowerChar_literal {c : Char} (h : (isAlphanumeric c.toNat || isMark c.toNat) = true) :
    lowerChar c ≠ '%' ∧ lowerChar c ≠ '+' ∧ (unreserved c = false → lowerChar c = c) := by
  have hall : ∀ n < 128, (isAlphanumeric n || isMark n) = true →
      lowerChar (Char.ofNat n) ≠ '%' ∧ lowerChar (Char.ofNat n) ≠ '+' ∧
        (unreserved (Char.ofNat n) = false → lowerChar (Char.ofNat n) = Char.ofNat n) := by
    decide +kernel
  have hc := hall c.toNat (literal_lt h) h
  rwa [Char.ofNat_toNat] at hc

theorem tokens_encodeUnit {c : Char} (hplane : c.toNat < 0x10000) (rest : List Char) :
    tokens ((narrow (encodeUnit c.toNat)).map lowerChar ++ rest) =
      (tokens rest).map (sent c ++ ·) := by
  by_cases hself : (isAlphanumeric c.toNat || isMark c.toNat) = true
  · obtain ⟨hpct, hplus, -⟩ := lowerChar_literal hself
    have hnarrow : narrow [c.toNat] = [c] := by simp [narrow, Char.ofNat_toNat]
    rw [encodeUnit_self hself, hnarrow, sent, if_pos hself]
    simp only [List.map_cons, List.map_nil, List.cons_append, List.nil_append, tokens_cons hpct,
      if_neg hplus]
  · have hself : (isAlphanumeric c.toNat || isMark c.toNat) = false := by simpa using hself
    by_cases hsp : c = ' '
    · subst hsp
      exact tokens_cons (by decide) rest
    · rw [encodeUnit_bytes hplane hself hsp, narrow_hexencs (utf8_lt c), sent,
        if_neg (by simp [hself]), if_neg hsp]
      exact tokens_percents _ (utf8_lt c) rest

theorem tokens_encode : ∀ {cs : List Char}, (∀ c ∈ cs, c.toNat < 0x10000) →
    tokens ((narrow (encode (wide cs))).map lowerChar) = some (cs.flatMap sent)
  | [], _ => rfl
  | c :: cs, h => by
      rw [List.forall_mem_cons] at h
      have hunit : wide (c :: cs) = c.toNat :: wide cs := by
        show utf16 c ++ wide cs = _
        rw [utf16, if_pos h.1]
        rfl
      rw [hunit, encode, List.flatMap_cons, narrow_append, List.map_append, tokens_encodeUnit h.1]
      rw [show (wide cs).flatMap encodeUnit = encode (wide cs) from rfl, tokens_encode h.2]
      rfl

theorem sent_cases (c : Char) : sent c = [.inl (lowered c)] ∨
    (sent c = (utf8 c).map Sum.inr ∧ lowered c = c) := by
  by_cases hself : (isAlphanumeric c.toNat || isMark c.toNat) = true
  · exact .inl (by rw [sent, if_pos hself, lowered, if_pos hself])
  · have hlowered : lowered c = c := by rw [lowered, if_neg hself]
    by_cases hsp : c = ' '
    · exact .inl (by rw [sent, if_neg hself, if_pos hsp, hlowered, hsp])
    · exact .inr ⟨by rw [sent, if_neg hself, if_neg hsp], hlowered⟩

/-- **What the server reads of a URL that the client encoded.** -/
theorem urlDecode_encode {cs : List Char} (h : ∀ c ∈ cs, c.toNat < 0x10000) :
    urlDecode (toLowerCase (String.ofList (narrow (encode (wide cs))))) =
      some (String.ofList (cs.map lowered)) := by
  have hcases : ∀ c ∈ cs, sent c = [.inl (lowered c)] ∨
      (sent c = (utf8 c).map Sum.inr ∧ lowered c = c) := fun c _ => sent_cases c
  have hread := assemble_flatMap hcases []
  rw [List.flatMap_nil, List.nil_append] at hread
  rw [urlDecode, toLowerCase, String.toList_ofList, String.toList_ofList, tokens_encode h,
    Option.map_some, hread]

/-! ## There and back -/

/-- The text of an item that the client sends back for a URL, as the server looks it up. -/
def echoed (s : String) : String :=
  toLowerCase (String.ofList (narrow (encode (decode (wide (toLowerCase (urlEncode s)).toList)))))

theorem seen_plane (c : Char) : ∀ d ∈ seen c, d.toNat < 0x10000 := by
  intro d hd
  rw [seen] at hd
  split at hd
  · next hu =>
      obtain rfl := List.mem_singleton.mp hd
      have := unreserved_lt (unreserved_lower hu).2.2.1
      omega
  · split at hd
    · obtain rfl := List.mem_singleton.mp hd
      decide
    · split at hd
      · next hplane =>
          obtain rfl := List.mem_singleton.mp hd
          exact hplane
      · exact absurd hd List.not_mem_nil

/-- What the client sees is in lower case already. -/
theorem lowered_seen (c : Char) : (seen c).map lowered = seen c := by
  rw [seen]
  split
  · next hu =>
      obtain ⟨-, -, -, hll⟩ := unreserved_lower hu
      have h : lowered (lowerChar c) = lowerChar c := by
        rw [lowered]
        split
        · exact hll
        · rfl
      rw [List.map_cons, h, List.map_nil]
  · next hu =>
      split
      · rfl
      · split
        · have h : lowered c = c := by
            rw [lowered]
            split
            · next hself => exact (lowerChar_literal hself).2.2 (by simpa using hu)
            · rfl
          rw [List.map_cons, h, List.map_nil]
        · rfl

/-- **What the server reads of the URL it sent.** -/
theorem urlDecode_echoed (s : String) :
    urlDecode (echoed s) = some (String.ofList (s.toList.flatMap seen)) := by
  have hplane : ∀ c ∈ s.toList.flatMap seen, c.toNat < 0x10000 := by
    intro c hc
    obtain ⟨c', -, hc⟩ := List.mem_flatMap.mp hc
    exact seen_plane c' c hc
  rw [echoed, decode_urlEncode, urlDecode_encode hplane, List.map_flatMap]
  simp only [lowered_seen]

/-! ## The client's own round trip -/

/-- A `std::wstring` as it comes, with any units: also halves of surrogate pairs and nulls. -/
def units (s : List UInt16) : WString := s.map UInt16.toNat

/-- The unit that comes back: the plus that stands for a blank is not read as one. -/
def returned (wch : Nat) : Nat := if wch = 32 then 43 else wch

theorem self_ne_percent {wch : Nat} (hself : (isAlphanumeric wch || isMark wch) = true) :
    wch ≠ 37 := by
  intro h
  rw [h] at hself
  exact absurd hself (by decide)

/-- One unit, whatever the decoder remembers. -/
theorem decodeFrom_encodeUnit {wch : Nat} (hplane : wch < 0x10000) (d : Decoder)
    (rest : WString) :
    ∃ d' : Decoder, decodeFrom d (encodeUnit wch ++ rest) = returned wch :: decodeFrom d' rest := by
  by_cases hblank : wch = 32
  · subst hblank
    exact ⟨d, decodeFrom_cons (by decide) d rest⟩
  rw [returned, if_neg hblank]
  cases hself : isAlphanumeric wch || isMark wch with
  | true =>
      rw [encodeUnit_self hself]
      exact ⟨d, decodeFrom_cons (self_ne_percent hself) d rest⟩
  | false =>
      rw [encodeUnit_escaped hplane hself hblank]
      split
      next hone =>
        refine ⟨d, ?_⟩
        rw [decodeFrom_hexenc (by omega), decodeByte, if_pos hone]
        rfl
      next =>
        split
        next htwo =>
          obtain ⟨d', -, h⟩ := decodeFrom_two (q := wch / 64) (r := wch % 64) (by omega)
            (by omega) d rest
          refine ⟨d', ?_⟩
          have hsum : 64 * (wch / 64) + wch % 64 = wch := by omega
          rw [List.append_assoc, h, hsum]
        next =>
          have hq : wch / 4096 < 16 := by omega
          have hr₁ : wch / 64 % 64 < 64 := by omega
          have hr₂ : wch % 64 < 64 := by omega
          obtain ⟨d', -, h⟩ := decodeFrom_three hq hr₁ hr₂ d rest
          refine ⟨d', ?_⟩
          have hsum : 4096 * (wch / 4096) + 64 * (wch / 64 % 64) + wch % 64 = wch := by omega
          rw [List.append_assoc, List.append_assoc, h, hsum]

theorem decodeFrom_encode {w : WString} (hplane : ∀ wch ∈ w, wch < 0x10000) (d : Decoder) :
    decodeFrom d (encode w) = w.map returned := by
  induction w generalizing d with
  | nil => rfl
  | cons wch w ih =>
      rw [List.forall_mem_cons] at hplane
      obtain ⟨d', h⟩ := decodeFrom_encodeUnit hplane.1 d (encode w)
      show decodeFrom d (encodeUnit wch ++ encode w) = returned wch :: w.map returned
      rw [h, ih hplane.2]

theorem decode_encode_units (s : List UInt16) :
    decode (encode (units s)) = (units s).map returned := by
  refine decodeFrom_encode ?_ {}
  intro wch hwch
  obtain ⟨u, -, rfl⟩ := List.mem_map.mp hwch
  exact u.toNat_lt

/-- **A text comes back just when there is no blank in it.** -/
theorem round_trip_iff (s : List UInt16) :
    decode (encode (units s)) = units s ↔ 32 ∉ s := by
  have hreturned : ∀ wch, returned wch = wch ↔ wch ≠ 32 := by
    intro wch
    rw [returned]
    split <;> omega
  have hmap : (units s).map returned = units s ↔ ∀ wch ∈ units s, returned wch = wch := by
    constructor
    · intro h
      exact List.map_inj_left.mp (h.trans (List.map_id' _).symm)
    · intro h
      exact (List.map_congr_left h).trans (List.map_id' _)
  rw [decode_encode_units, hmap]
  constructor
  · intro h hblank
    exact (hreturned 32).mp (h 32 (List.mem_map_of_mem hblank)) rfl
  · intro hno wch hwch
    obtain ⟨u, hu, rfl⟩ := List.mem_map.mp hwch
    refine (hreturned _).mpr fun h => hno ?_
    rwa [← UInt16.toNat_inj.mp (h.trans (show (32 : Nat) = (32 : UInt16).toNat from rfl))]

/-- A blank comes back as a plus. -/
theorem blank_returns_as_plus :
    decode (encode (units [32])) = [43] ∧ ¬ decode (encode (units [32])) = units [32] := by
  decide

end Url

end CaptureHpc.Client
