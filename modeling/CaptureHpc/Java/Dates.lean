/-
# `Java.Dates` — dates whose fields are printed as numbers

`parseDate` reads a date field by field, each up to what is no digit.  So a date
comes back from its fields as they are, without leading zeros, and whatever
they are: the calendar is lenient.
-/
import CaptureHpc.Java.Numbers

namespace Java

/-- A number as its digits. -/
def printed (n : Nat) : List Char := decimal (n + 1) n

/-- A date with numbers for its fields. -/
def dateText (year month day hour minute second milli : Nat) : List Char :=
  printed day ++ '/' :: (printed month ++ '/' :: (printed year ++ ' ' :: (printed hour ++ ':' ::
    (printed minute ++ ':' :: (printed second ++ '.' :: printed milli)))))

/-- The date with these fields. -/
def dateOf (year month day hour minute second milli : Nat) : Date :=
  (((daysFromCivil year month day * 24 + hour) * 60 + minute) * 60 + second) * 1000 + milli

section Dates
variable {n : Nat} {rest : List Char}

/-- **A number** is read up to what is no digit. -/
theorem dateField_printed (h : ∀ c ∈ rest.head?, digit c = none) :
    dateField (printed n ++ rest) = some ((n : Int), rest) := by
  obtain ⟨k, hk, hdigits⟩ := digits_decimal (n + 1) n (Nat.lt_succ_self n)
  have hread : digits (printed n ++ rest) 0 0 = (n, k, rest) := by
    rw [printed, hdigits, Nat.zero_mul, Nat.zero_add, Nat.zero_add]
    cases rest with
    | nil => rfl
    | cons c rest => rw [digits, h c rfl]
  cases hprinted : printed n with
  | nil => exact absurd hprinted (decimal_ne_nil n n)
  | cons c cs =>
      have hdigit := decimal_head _ _ _ _ hprinted
      have hne : ∀ d, digit d = none → c ≠ d := by
        rintro d hd rfl
        rw [hd] at hdigit
        cases hdigit
      have hblank : (c == ' ' || c == '\t') = false := by
        simp [hne ' ' (by decide), hne '\t' (by decide)]
      rw [hprinted, List.cons_append] at hread
      rw [List.cons_append, dateField, List.dropWhile_cons_of_neg (by simp [hblank])]
      split
      · next heq => exact absurd (List.cons.inj heq).1 (hne '-' (by decide))
      · rw [hread]
        exact if_pos hk

theorem dateField_separated {c : Char} (h : digit c = none) :
    dateField (printed n ++ c :: rest) = some ((n : Int), c :: rest) :=
  dateField_printed fun _ hc => Option.some.inj hc ▸ h

theorem dateField_last : dateField (printed n) = some ((n : Int), []) := by
  have hread := @dateField_printed n [] fun c hc => absurd hc (Option.not_mem_none c)
  rwa [List.append_nil] at hread

theorem dateLiteral_self (c : Char) (rest : List Char) : dateLiteral c (c :: rest) = some rest :=
  if_pos rfl

theorem toList_showInt_natCast (n : Nat) : (showInt (n : Int)).toList = printed n := by
  rw [toList_showInt, if_neg (by omega)]
  rfl

/-- A number without a sign is an `int` if it is below 2³¹. -/
theorem parseInt_showInt_natCast (n : Nat) :
    parseInt (showInt (n : Int)) = if n < 2 ^ 31 then some (n : Int) else none := by
  split
  · next h => exact parseInt_showInt h
  · next h =>
      rw [parseInt, integer_showInt, Option.filter_some, if_neg]
      simp only [decide_eq_true_eq]
      omega

/-- **The date comes back** from its fields. -/
theorem parseDate_dateText (year month day hour minute second milli : Nat) :
    parseDate (String.ofList (dateText year month day hour minute second milli)) =
      some (dateOf year month day hour minute second milli) := by
  have hslash : digit '/' = none := by decide
  have hspace : digit ' ' = none := by decide
  have hcolon : digit ':' = none := by decide
  have hpoint : digit '.' = none := by decide
  rw [parseDate, String.toList_ofList, dateText]
  simp only [dateField_separated hslash, dateField_separated hspace, dateField_separated hcolon,
    dateField_separated hpoint, dateField_last, dateLiteral_self, Option.bind_eq_bind,
    Option.bind_some]
  rfl

end Dates

end Java
