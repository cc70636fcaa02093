/-
# `Java.Numbers` — numbers that are printed and read

Every number goes between the programs as decimal text: an optional sign and
digits.  What `showInt` prints is read as the number it was printed from, by
whichever of the parsers has it in range, and its characters are digits and the
sign.
-/
import CaptureHpc.Java.Text

namespace Java

/-! ## The characters of a number -/

/-- What a number is printed with. -/
def isDecimal (c : Char) : Bool := c.isDigit || c = '-'

theorem decimal_chars : ∀ (fuel n : Nat), (decimal fuel n).all isDecimal
  | 0, _ => rfl
  | fuel + 1, n => by
      have hlast : isDecimal (Char.ofNat ('0'.toNat + n % 10)) = true := by
        have hall : ∀ d < 10, isDecimal (Char.ofNat ('0'.toNat + d)) = true := by decide
        exact hall _ (Nat.mod_lt _ (by decide))
      rw [decimal, List.all_append, List.all_cons, hlast]
      split
      · rfl
      · rw [decimal_chars fuel]
        rfl

theorem padded_natCast (n : Nat) : padded 1 (n : Int) = decimal (n + 1) n := by
  have hpos := List.length_pos_iff.mpr (decimal_ne_nil n n)
  have hnone : 1 - (decimal (n + 1) n).length = 0 := by omega
  rw [padded, Int.toNat_natCast, hnone]
  rfl

/-- How a number is printed. -/
theorem toList_showInt (n : Int) : (showInt n).toList =
    if n < 0 then '-' :: decimal (n.natAbs + 1) n.natAbs else decimal (n.natAbs + 1) n.natAbs := by
  rw [showInt, String.toList_ofList]
  split
  · have habs : -n = (n.natAbs : Int) := by omega
    rw [habs, padded_natCast]
  · have habs : n = (n.natAbs : Int) := by omega
    rw [← padded_natCast, ← habs]

theorem showInt_chars (n : Int) : (showInt n).toList.all isDecimal := by
  have hdecimal := decimal_chars (n.natAbs + 1) n.natAbs
  rw [toList_showInt]
  split
  · rw [List.all_cons, hdecimal]
    rfl
  · exact hdecimal

/-! ## What is read -/

theorem unsigned_decimal (n : Nat) : unsigned (decimal (n + 1) n) = some n := by
  obtain ⟨k, hk, hdigits⟩ := digits_decimal (n + 1) n (Nat.lt_succ_self n)
  have hread := hdigits [] 0 0
  rw [List.append_nil, Nat.zero_mul, Nat.zero_add, Nat.zero_add] at hread
  rw [unsigned, hread, digits]
  exact if_pos hk

/-- **A number that is printed is read as that number.** -/
theorem integer_showInt (n : Int) : integer (showInt n) = some n := by
  rw [integer, toList_showInt]
  split
  next cs heq =>
    split at heq
    · next hneg =>
        obtain ⟨-, rfl⟩ := List.cons.inj heq
        have habs : -(n.natAbs : Int) = n := by omega
        rw [unsigned_decimal]
        exact congrArg some habs
    · exact absurd (decimal_head _ _ _ _ heq) (by decide)
  next cs heq =>
    split at heq
    · exact absurd (List.cons.inj heq).1 (by decide)
    · exact absurd (decimal_head _ _ _ _ heq) (by decide)
  next hminus _ =>
    split at hminus
    · exact absurd rfl (hminus _)
    · next hpos =>
        have habs : (n.natAbs : Int) = n := by omega
        rw [if_neg hpos, unsigned_decimal]
        exact congrArg some habs

theorem parseInt_of_showInt {n : Int} (h : -2 ^ 31 ≤ n ∧ n < 2 ^ 31) :
    parseInt (showInt n) = some n := by
  rw [parseInt, integer_showInt, Option.filter_some, if_pos (decide_eq_true h)]

theorem parseLong_of_showInt {n : Int} (h : -2 ^ 63 ≤ n ∧ n < 2 ^ 63) :
    parseLong (showInt n) = some n := by
  rw [parseLong, integer_showInt, Option.filter_some, if_pos (decide_eq_true h)]

end Java
