/-
# `Java.Lines` — a stream that is read line by line

`BufferedReader.readLine` ends a line at a line feed, at a carriage return, or
at both behind one another.  What is left at the end of the stream is a line
too, if there is anything left.
-/
import Mathlib.Data.List.TakeWhile

namespace Java

/-- A character that does not end a line. -/
def inLine (c : Char) : Bool := c ≠ '\n' && c ≠ '\r'

/-- What `readLine` returns, until it returns null. -/
def readLines : List Char → List (List Char)
  | [] => []
  | '\r' :: '\n' :: cs => [] :: readLines cs
  | c :: cs =>
      if inLine c then
        match readLines cs with
        | [] => [[c]]
        | line :: lines => (c :: line) :: lines
      else [] :: readLines cs

section Lines
variable {line rest : List Char} {c : Char}

theorem readLines_inLine (h : inLine c) (cs : List Char) :
    readLines (c :: cs) = match readLines cs with
      | [] => [[c]]
      | line :: lines => (c :: line) :: lines := by
  rw [readLines, if_pos h]
  rintro cs' rfl rfl
  cases h

theorem readLines_break (h : ¬ inLine c) (cs : List Char) :
    ∃ lines, readLines (c :: cs) = [] :: lines := by
  rw [readLines.eq_def]
  split
  · next heq => cases heq
  · exact ⟨_, rfl⟩
  · next heq =>
      obtain ⟨rfl, rfl⟩ := List.cons.inj heq
      rw [if_neg h]
      exact ⟨_, rfl⟩

/-- **A line that is ended** is read, and what is behind it is not touched. -/
theorem readLines_terminated : ∀ {line : List Char}, line.all inLine →
    readLines (line ++ '\r' :: '\n' :: rest) = line :: readLines rest
  | [], _ => by rw [List.nil_append, readLines]
  | c :: line, h => by
      rw [List.all_cons, Bool.and_eq_true] at h
      rw [List.cons_append, readLines_inLine h.1, readLines_terminated h.2]

/-- The first line. -/
theorem readLines_first : ∀ {cs : List Char}, cs ≠ [] →
    ∃ lines, readLines cs = cs.takeWhile inLine :: lines
  | [], h => absurd rfl h
  | c :: cs, _ => by
      by_cases hc : inLine c
      · rw [readLines_inLine hc, List.takeWhile_cons_of_pos hc]
        cases cs with
        | nil => exact ⟨[], rfl⟩
        | cons d cs =>
            obtain ⟨lines, hlines⟩ := readLines_first (List.cons_ne_nil d cs)
            rw [hlines]
            exact ⟨lines, rfl⟩
      · rw [List.takeWhile_cons_of_neg hc]
        exact readLines_break hc cs

end Lines

example : readLines "a\r\n\nb\rc".toList = ["a".toList, [], "b".toList, "c".toList] := by decide

end Java
