/-
# `Java.Text` — the string and number functions the server calls

The server is a Java program and reads every number, time and flag out of XML
attribute strings.  What it calls for that is defined here once: `parseInt` and
`parseLong` with their ranges, `toLowerCase`, `equalsIgnoreCase`, the UTF-16
order of `compareTo`, and `SimpleDateFormat` for the one pattern shape the
server uses (day, month, year, hour, minute, second, millisecond, all numeric).

All functions recurse on the character list, so a concrete call evaluates in
the kernel.

Three simplifications, none of which a verdict or a queue depends on.
`toLowerCase` maps the Latin, Greek and Cyrillic capitals and leaves the other
scripts alone.  Dates are counted in the proleptic Gregorian calendar and in
UTC, so a `Date` is its number of milliseconds.  A number is read from ASCII
digits.
-/
import Mathlib.Data.List.Sort
import Mathlib.Algebra.Ring.Int.Defs
import Mathlib.Algebra.Ring.Nat
import Mathlib.Data.Int.Order.Basic

namespace Java

/-! ## Characters -/

/-- `Character.toLowerCase` on the blocks listed in the header. -/
def lowerChar (c : Char) : Char :=
  let n := c.toNat
  if 65 ≤ n ∧ n ≤ 90 then Char.ofNat (n + 32)
  else if 0xC0 ≤ n ∧ n ≤ 0xDE ∧ n ≠ 0xD7 then Char.ofNat (n + 32)
  else if 0x391 ≤ n ∧ n ≤ 0x3A9 ∧ n ≠ 0x3A2 then Char.ofNat (n + 32)
  else if 0x410 ≤ n ∧ n ≤ 0x42F then Char.ofNat (n + 32)
  else if 0x400 ≤ n ∧ n ≤ 0x40F then Char.ofNat (n + 80)
  else c

/-- `String.toLowerCase`. -/
def toLowerCase (s : String) : String := String.ofList (s.toList.map lowerChar)

/-- `String.equalsIgnoreCase`. -/
def equalsIgnoreCase (s t : String) : Bool :=
  s.toList.map lowerChar == t.toList.map lowerChar

/-- The UTF-16 code units of a character. -/
def utf16 (c : Char) : List Nat :=
  if c.toNat < 0x10000 then [c.toNat]
  else [0xD800 + (c.toNat - 0x10000) / 0x400, 0xDC00 + (c.toNat - 0x10000) % 0x400]

/-- The sign of `s.compareTo(t)`: lexicographic on UTF-16 code units. -/
def compareTo (s t : String) : Ordering :=
  compare (s.toList.flatMap utf16) (t.toList.flatMap utf16)

/-! ### Lower case -/

theorem toNat_ofNat {n : Nat} (h : n.isValidChar) : (Char.ofNat n).toNat = n := by
  rw [Char.ofNat, dif_pos h]
  rfl

/-- `Character.toLowerCase` on the code of a character. -/
def lowerCode (n : Nat) : Nat :=
  if 65 ≤ n ∧ n ≤ 90 then n + 32
  else if 0xC0 ≤ n ∧ n ≤ 0xDE ∧ n ≠ 0xD7 then n + 32
  else if 0x391 ≤ n ∧ n ≤ 0x3A9 ∧ n ≠ 0x3A2 then n + 32
  else if 0x410 ≤ n ∧ n ≤ 0x42F then n + 32
  else if 0x400 ≤ n ∧ n ≤ 0x40F then n + 80
  else n

theorem toNat_lowerChar (c : Char) : (lowerChar c).toNat = lowerCode c.toNat := by
  have hvalid : ∀ n, n < 0x500 → (Char.ofNat n).toNat = n := fun n hn =>
    toNat_ofNat (.inl (Nat.lt_trans hn (by decide)))
  rw [lowerChar, lowerCode]
  split_ifs
  · exact hvalid _ (by omega)
  · exact hvalid _ (by omega)
  · exact hvalid _ (by omega)
  · exact hvalid _ (by omega)
  · exact hvalid _ (by omega)
  · rfl

/-- A capital is at most `0x42F`, and becomes a character from `0x61` to `0x45F`. -/
theorem lowerCode_cases (n : Nat) : lowerCode n = n ∨
    (65 ≤ n ∧ n ≤ 0x42F ∧ 97 ≤ lowerCode n ∧ lowerCode n ≤ 0x45F) := by
  rw [lowerCode]
  split_ifs <;> omega

theorem lowerCode_lowerCode (n : Nat) : lowerCode (lowerCode n) = lowerCode n := by
  simp only [lowerCode]
  split_ifs <;> omega

theorem lowerChar_lowerChar (c : Char) : lowerChar (lowerChar c) = lowerChar c := by
  rw [← Char.toNat_inj, toNat_lowerChar, toNat_lowerChar, lowerCode_lowerCode]

/-- A character that is no letter comes from no other. -/
theorem lowerChar_eq_iff {c d : Char} (hd : d.toNat < 97) (hd' : lowerChar d = d) :
    lowerChar c = d ↔ c = d := by
  refine ⟨fun h => ?_, fun h => h ▸ hd'⟩
  have hcode := toNat_lowerChar c
  rw [h] at hcode
  rcases lowerCode_cases c.toNat with hself | hcapital
  · exact Char.toNat_inj.mp (hself.symm.trans hcode.symm)
  · omega

theorem lowerChar_le_blank (c : Char) : lowerChar c ≤ ' ' ↔ c ≤ ' ' := by
  have hle : ∀ d : Char, d ≤ ' ' ↔ d.toNat ≤ 32 := fun d => Iff.rfl
  rw [hle, hle, toNat_lowerChar]
  rcases lowerCode_cases c.toNat with hself | hcapital
  · rw [hself]
  · omega

theorem blank_lt_lowerChar (c : Char) : ' ' < lowerChar c ↔ ' ' < c := by
  rw [← Char.not_le, ← Char.not_le, lowerChar_le_blank]

/-! ## Numbers -/

/-- The value of an ASCII digit. -/
def digit (c : Char) : Option Nat :=
  if '0'.toNat ≤ c.toNat ∧ c.toNat ≤ '9'.toNat then some (c.toNat - '0'.toNat) else none

/-- The leading digits of a character list: their value, how many there are, and the rest. -/
def digits : List Char → Nat → Nat → Nat × Nat × List Char
  | [], n, k => (n, k, [])
  | c :: cs, n, k =>
      match digit c with
      | some d => digits cs (10 * n + d) (k + 1)
      | none => (n, k, c :: cs)

/-- A whole string of one or more digits. -/
def unsigned (cs : List Char) : Option Nat :=
  match digits cs 0 0 with
  | (n, k, []) => if 0 < k then some n else none
  | _ => none

/-- An optional sign and one or more digits, and nothing else. -/
def integer (s : String) : Option Int :=
  match s.toList with
  | '-' :: cs => (unsigned cs).map fun n => -(n : Int)
  | '+' :: cs => (unsigned cs).map fun n => (n : Int)
  | cs => (unsigned cs).map fun n => (n : Int)

/-- `Integer.parseInt`; `none` is `NumberFormatException`. -/
def parseInt (s : String) : Option Int :=
  (integer s).filter fun n => -2 ^ 31 ≤ n ∧ n < 2 ^ 31

/-- `Long.parseLong`; `none` is `NumberFormatException`. -/
def parseLong (s : String) : Option Int :=
  (integer s).filter fun n => -2 ^ 63 ≤ n ∧ n < 2 ^ 63

/-! ### Floating-point numbers -/

/-- `String.trim`: without the characters up to the blank at both ends. -/
def trim (s : String) : String :=
  let blank := fun c : Char => decide (c.toNat ≤ 32)
  String.ofList ((s.toList.dropWhile blank).reverse.dropWhile blank).reverse

def dropSign : List Char → List Char
  | '-' :: cs => cs
  | '+' :: cs => cs
  | cs => cs

/-- Digits, perhaps with a point among them, and what is behind them. -/
def significand (isDigit : Char → Bool) (cs : List Char) : Option (List Char) :=
  let whole := cs.takeWhile isDigit
  match cs.dropWhile isDigit with
  | '.' :: rest =>
      if whole.isEmpty && (rest.takeWhile isDigit).isEmpty then none else some (rest.dropWhile isDigit)
  | rest => if whole.isEmpty then none else some rest

/-- An exponent, and what is behind it. -/
def exponent (mark : Char) : List Char → Option (List Char)
  | [] => none
  | c :: cs =>
      let rest := dropSign cs
      if lowerChar c = mark && !(rest.takeWhile Char.isDigit).isEmpty then
        some (rest.dropWhile Char.isDigit)
      else none

def doubleSuffix : List Char → Bool
  | [] => true
  | [c] => lowerChar c = 'f' || lowerChar c = 'd'
  | _ => false

def isHexDigit (c : Char) : Bool :=
  c.isDigit || ('a' ≤ lowerChar c && lowerChar c ≤ 'f')

/-- `Double.parseDouble` returns a number. -/
def parsesDouble (s : String) : Bool :=
  match dropSign (trim s).toList with
  | ['N', 'a', 'N'] => true
  | ['I', 'n', 'f', 'i', 'n', 'i', 't', 'y'] => true
  | '0' :: 'x' :: cs | '0' :: 'X' :: cs =>
      (significand isHexDigit cs).any fun rest => (exponent 'p' rest).any doubleSuffix
  | cs =>
      (significand Char.isDigit cs).any fun rest =>
        doubleSuffix rest || (exponent 'e' rest).any doubleSuffix

example : ["7", " .5e-3d ", "1.", "0x1.8p1", "-Infinity"].map parsesDouble =
    [true, true, true, true, true] := by decide

example : ["", ".", "1e", "0x1.8", "infinity", "1 2"].map parsesDouble =
    [false, false, false, false, false, false] := by decide

/-! ## Dates -/

/-- `java.util.Date`: milliseconds since 1 January 1970. -/
abbrev Date := Int

/-- Days from 1 January 1970 to the given day.  The month may lie outside 1..12
and the day outside its month: the calendar is lenient and carries over. -/
def daysFromCivil (year month day : Int) : Int :=
  let y := year + (month - 1) / 12
  let m := (month - 1) % 12 + 1
  let y' := if m ≤ 2 then y - 1 else y
  let mp := if m ≤ 2 then m + 9 else m - 3
  365 * y' + y' / 4 - y' / 100 + y' / 400 + (153 * mp + 2) / 5 + day - 1 - 719468

/-- The year, month and day of a day count: the inverse of `daysFromCivil`. -/
def civilFromDays (days : Int) : Int × Int × Int :=
  let z := days + 719468
  let era := z / 146097
  let doe := z % 146097
  let yoe := (doe - doe / 1460 + doe / 36524 - doe / 146096) / 365
  let doy := doe - (365 * yoe + yoe / 4 - yoe / 100)
  let mp := (5 * doy + 2) / 153
  let d := doy - (153 * mp + 2) / 5 + 1
  let m := if mp < 10 then mp + 3 else mp - 9
  (yoe + era * 400 + (if m ≤ 2 then 1 else 0), m, d)

/-- A numeric date field: blanks, an optional minus sign, digits. -/
def dateField (cs : List Char) : Option (Int × List Char) :=
  match cs.dropWhile (fun c => c == ' ' || c == '\t') with
  | '-' :: rest =>
      match digits rest 0 0 with
      | (n, k, rest') => if 0 < k then some (-(n : Int), rest') else none
  | rest =>
      match digits rest 0 0 with
      | (n, k, rest') => if 0 < k then some ((n : Int), rest') else none

/-- A literal of the pattern. -/
def dateLiteral (c : Char) : List Char → Option (List Char)
  | [] => none
  | c' :: rest => if c = c' then some rest else none

/-- `SimpleDateFormat.parse` for `d/M/yyyy H:m:s.S`, lenient as by default;
`none` is `ParseException`.  What follows the milliseconds is not read.  The
pattern `dd/MM/yyyy HH:mm:ss.S` parses the same strings to the same dates. -/
def parseDate (s : String) : Option Date := do
  let (day, cs) ← dateField s.toList
  let (month, cs) ← dateField (← dateLiteral '/' cs)
  let (year, cs) ← dateField (← dateLiteral '/' cs)
  let (hour, cs) ← dateField (← dateLiteral ' ' cs)
  let (minute, cs) ← dateField (← dateLiteral ':' cs)
  let (second, cs) ← dateField (← dateLiteral ':' cs)
  let (milli, _) ← dateField (← dateLiteral '.' cs)
  return (((daysFromCivil year month day * 24 + hour) * 60 + minute) * 60 + second) * 1000 + milli

/-- The decimal digits of a number, most significant first, by `fuel` divisions. -/
def decimal : Nat → Nat → List Char
  | 0, _ => []
  | fuel + 1, n =>
      (if n / 10 = 0 then [] else decimal fuel (n / 10)) ++ [Char.ofNat ('0'.toNat + n % 10)]

/-- A non-negative number padded with zeros to `width` digits. -/
def padded (width : Nat) (n : Int) : List Char :=
  let ds := decimal (n.toNat + 1) n.toNat
  List.replicate (width - ds.length) '0' ++ ds

/-- The fields of a date: year, month, day, hour, minute, second, millisecond. -/
def dateFields (d : Date) : (Int × Int × Int) × (Int × Int × Int × Int) :=
  let t := d % 86400000
  (civilFromDays (d / 86400000),
    t / 3600000, t / 60000 % 60, t / 1000 % 60, t % 1000)

/-- `SimpleDateFormat.format` for `dd/MM/yyyy HH:mm:ss.S`. -/
def formatDate (d : Date) : String :=
  match dateFields d with
  | ((year, month, day), hour, minute, second, milli) =>
      String.ofList (padded 2 day ++ '/' :: padded 2 month ++ '/' :: padded 4 year ++ ' ' ::
        padded 2 hour ++ ':' :: padded 2 minute ++ ':' :: padded 2 second ++ '.' :: padded 1 milli)

/-- `SimpleDateFormat.format` for `ddMMyyyy_HHmmss`, the suffix of a log file name. -/
def formatLogfileDate (d : Date) : String :=
  match dateFields d with
  | ((year, month, day), hour, minute, second, _) =>
      String.ofList (padded 2 day ++ padded 2 month ++ padded 4 year ++ '_' ::
        padded 2 hour ++ padded 2 minute ++ padded 2 second)

/-- A number as the concatenation `"" + n` prints it. -/
def showInt (n : Int) : String :=
  String.ofList (if n < 0 then '-' :: padded 1 (-n) else padded 1 n)

/-! ## What the proofs use of them -/

theorem digit_ofNat {d : Nat} (h : d < 10) : digit (Char.ofNat ('0'.toNat + d)) = some d := by
  have hall : ∀ d < 10, digit (Char.ofNat ('0'.toNat + d)) = some d := by decide
  exact hall d h

/-- The digits of a number are read as that number. -/
theorem digits_decimal : ∀ (fuel n : Nat), n < fuel → ∃ k, 0 < k ∧ ∀ (rest : List Char) (m j : Nat),
    digits (decimal fuel n ++ rest) m j = digits rest (m * 10 ^ k + n) (j + k)
  | 0, _, h => absurd h (Nat.not_lt_zero _)
  | fuel + 1, n, h => by
      have hlast : ∀ (rest : List Char) (m j : Nat),
          digits ([Char.ofNat ('0'.toNat + n % 10)] ++ rest) m j =
            digits rest (10 * m + n % 10) (j + 1) := by
        intro rest m j
        rw [List.singleton_append, digits, digit_ofNat (Nat.mod_lt _ (by decide))]
      by_cases hn : n / 10 = 0
      · refine ⟨1, Nat.one_pos, fun rest m j => ?_⟩
        have hsum : 10 * m + n % 10 = m * 10 ^ 1 + n := by omega
        rw [decimal, if_pos hn, List.nil_append, hlast, hsum]
      · obtain ⟨k, hk, ih⟩ := digits_decimal fuel (n / 10) (by omega)
        refine ⟨k + 1, Nat.succ_pos k, fun rest m j => ?_⟩
        have hsum : 10 * (m * 10 ^ k + n / 10) + n % 10 = m * 10 ^ (k + 1) + n := by
          rw [Nat.pow_succ, Nat.mul_add, ← Nat.mul_assoc m, Nat.mul_comm (m * 10 ^ k) 10]
          omega
        rw [decimal, if_neg hn, List.append_assoc, ih, hlast, hsum, Nat.add_assoc]

theorem decimal_ne_nil (fuel n : Nat) : decimal (fuel + 1) n ≠ [] := by
  rw [decimal]
  simp

/-- The first character is a digit. -/
theorem decimal_head : ∀ (fuel n : Nat) (c : Char) (cs : List Char), decimal fuel n = c :: cs →
    (digit c).isSome
  | 0, _, _, _, h => nomatch h
  | fuel + 1, n, c, cs, h => by
      rw [decimal] at h
      split at h
      · obtain ⟨rfl, -⟩ := List.cons.inj h
        rw [digit_ofNat (Nat.mod_lt _ (by decide))]
        rfl
      · cases hmore : decimal fuel (n / 10) with
        | nil =>
            rw [hmore] at h
            obtain ⟨rfl, -⟩ := List.cons.inj h
            rw [digit_ofNat (Nat.mod_lt _ (by decide))]
            rfl
        | cons d ds =>
            rw [hmore] at h
            obtain ⟨rfl, -⟩ := List.cons.inj h
            exact decimal_head fuel _ _ _ hmore

/-- **A number that is printed is read as that number.** -/
theorem parseInt_showInt {n : Nat} (h : n < 2 ^ 31) : parseInt (showInt n) = some (n : Int) := by
  obtain ⟨k, hk, hdigits⟩ := digits_decimal (n + 1) n (Nat.lt_succ_self n)
  have hunsigned : unsigned (decimal (n + 1) n) = some n := by
    have hread := hdigits [] 0 0
    rw [List.append_nil, Nat.zero_mul, Nat.zero_add, Nat.zero_add] at hread
    rw [unsigned, hread, digits]
    exact if_pos hk
  have hpadded : padded 1 (n : Int) = decimal (n + 1) n := by
    have hpos := List.length_pos_iff.mpr (decimal_ne_nil n n)
    have hnone : 1 - (decimal (n + 1) n).length = 0 := by omega
    rw [padded, Int.toNat_natCast, hnone]
    rfl
  have hshow : (showInt n).toList = decimal (n + 1) n := by
    rw [showInt, if_neg (by omega), String.toList_ofList, hpadded]
  have hinteger : integer (showInt n) = some (n : Int) := by
    rw [integer, hshow]
    split
    next cs heq => exact absurd (decimal_head _ _ _ _ heq) (by decide)
    next cs heq => exact absurd (decimal_head _ _ _ _ heq) (by decide)
    next =>
      rw [hunsigned]
      rfl
  rw [parseInt, hinteger, Option.filter_some, if_pos]
  simp only [decide_eq_true_eq]
  omega

theorem compareTo_refl (s : String) : compareTo s s = .eq := by
  simp [compareTo]

example : (parseDate "24/4/2008 16:7:0.140").map formatDate = some "24/04/2008 16:07:00.140" := by
  decide +kernel

end Java
