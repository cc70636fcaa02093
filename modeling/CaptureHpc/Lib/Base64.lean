/-
# `Lib.Base64` — the standard decoder

Four characters stand for three bytes, six bits each.  The last four may end in
one or two `=`, and then stand for two bytes or one.  The decoder is strict: it
takes no line ends and no padding in the middle.
-/
import Mathlib.Data.List.Basic

namespace StandardBase64

def alphabet : List Char :=
  "ABCDEFGHIJKLMNOPQRSTUVWXYZabcdefghijklmnopqrstuvwxyz0123456789+/".toList

/-- The six bits that a character stands for. -/
def value (c : Char) : Option Nat := alphabet.idxOf? c

/-- The bytes of four characters. -/
def group (a b c d : Char) : Option (List UInt8) := do
  let x ← value a
  let y ← value b
  let first := UInt8.ofNat (x * 4 + y / 16)
  if c = '=' ∧ d = '=' then return [first]
  let z ← value c
  let second := UInt8.ofNat (y % 16 * 16 + z / 4)
  if d = '=' then return [first, second]
  let w ← value d
  return [first, second, UInt8.ofNat (z % 4 * 64 + w)]

def decode : List Char → Option (List UInt8)
  | [] => some []
  | a :: b :: c :: d :: rest =>
      if d = '=' ∧ rest ≠ [] then none
      else do
        let bytes ← group a b c d
        let more ← decode rest
        return bytes ++ more
  | _ => none

/-- The character of six bits. -/
def char (n : Nat) : Char := alphabet.getD n '='

theorem value_char {n : Nat} (h : n < 64) : value (char n) = some n := by
  have hall : ∀ n < 64, value (char n) = some n := by decide +kernel
  exact hall n h

theorem char_ne_pad {n : Nat} (h : n < 64) : char n ≠ '=' := by
  have hall : ∀ n < 64, char n ≠ '=' := by decide +kernel
  exact hall n h

/-! ## Four characters -/

section Groups
variable {x y z w : Nat}

theorem group_three (hx : x < 64) (hy : y < 64) (hz : z < 64) (hw : w < 64) :
    group (char x) (char y) (char z) (char w) = some [UInt8.ofNat (x * 4 + y / 16),
      UInt8.ofNat (y % 16 * 16 + z / 4), UInt8.ofNat (z % 4 * 64 + w)] := by
  simp [group, value_char, char_ne_pad, hx, hy, hz, hw]

theorem group_two (hx : x < 64) (hy : y < 64) (hz : z < 64) :
    group (char x) (char y) (char z) '=' =
      some [UInt8.ofNat (x * 4 + y / 16), UInt8.ofNat (y % 16 * 16 + z / 4)] := by
  simp [group, value_char, char_ne_pad, hx, hy, hz]

theorem group_one (hx : x < 64) (hy : y < 64) :
    group (char x) (char y) '=' '=' = some [UInt8.ofNat (x * 4 + y / 16)] := by
  simp [group, value_char, hx, hy]

/-- A whole group in front. -/
theorem decode_group (hx : x < 64) (hy : y < 64) (hz : z < 64) (hw : w < 64) (rest : List Char) :
    decode (char x :: char y :: char z :: char w :: rest) = (decode rest).map
      ([UInt8.ofNat (x * 4 + y / 16), UInt8.ofNat (y % 16 * 16 + z / 4),
        UInt8.ofNat (z % 4 * 64 + w)] ++ ·) := by
  rw [decode, if_neg (fun h => char_ne_pad hw h.1), group_three hx hy hz hw]
  cases decode rest with
  | none => rfl
  | some more => rfl

/-- A group at the end. -/
theorem decode_last {a b c d : Char} {bytes : List UInt8} (h : group a b c d = some bytes) :
    decode [a, b, c, d] = some bytes := by
  rw [decode, if_neg (fun h => h.2 rfl), h]
  simp [decode]

end Groups

end StandardBase64
