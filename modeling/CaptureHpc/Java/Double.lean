/-
# `Java.Double` — the numbers behind `Double.parseDouble`

A `double` is a rational number, one of the two infinities, or no number.  A
literal stands for a rational number and is rounded once; a product is rounded
again.  The cast to `int` cuts the fraction off, stops at the ends of the range,
and takes what is no number for zero.

The two zeros are one here: nothing that the server computes tells them apart.
-/
import CaptureHpc.Java.Text
import CaptureHpc.Lib.Rounding
import Mathlib.Data.List.TakeWhile

namespace Java

inductive Double where
  | nan
  | infinite (negative : Bool)
  | finite (value : ℚ)
deriving DecidableEq

namespace Double

/-- The format: 53 bits, and the least quantum is `Double.MIN_VALUE`. -/
def binary64 : Rounding.Format := ⟨53, -1074⟩

/-- The numbers from here on are infinite. -/
@[irreducible] def limit : ℚ := 2 ^ 1024

/-- A number of the format, or the infinity that stands for it. -/
def bounded (value : ℚ) : Double :=
  if limit ≤ value then .infinite false
  else if value ≤ -limit then .infinite true
  else .finite value

/-- The `double` closest to a number. -/
def round (q : ℚ) : Double := bounded (binary64.signed q)

/-- `x <= y`. -/
def Le : Double → Double → Prop
  | .nan, _ | _, .nan => False
  | .infinite true, _ | _, .infinite false => True
  | .finite x, .finite y => x ≤ y
  | _, _ => False

/-- `x * 100`. -/
def timesHundred : Double → Double
  | .nan => .nan
  | .infinite negative => .infinite negative
  | .finite x => round (x * 100)

/-- Without the fraction. -/
def truncate (q : ℚ) : Int := if q < 0 then -⌊-q⌋ else ⌊q⌋

/-- `(int) x`. -/
def toInt : Double → Int
  | .nan => 0
  | .infinite true => -2 ^ 31
  | .infinite false => 2 ^ 31 - 1
  | .finite x => max (-2 ^ 31) (min (2 ^ 31 - 1) (truncate x))

/-! ### Rounding keeps the order -/

theorem infinite_le_bounded (y : ℚ) : Le (.infinite true) (bounded y) := by
  rw [bounded]
  split_ifs
  · exact True.intro
  · exact True.intro
  · exact True.intro

theorem bounded_le_infinite (x : ℚ) : Le (bounded x) (.infinite false) := by
  rw [bounded]
  split_ifs
  · exact True.intro
  · exact True.intro
  · exact True.intro

theorem bounded_mono {x y : ℚ} (h : x ≤ y) : Le (bounded x) (bounded y) := by
  by_cases hy : limit ≤ y
  · rw [bounded.eq_def y, if_pos hy]
    exact bounded_le_infinite x
  by_cases hx : x ≤ -limit
  · have hsmall : ¬ limit ≤ x := fun hx => hy (hx.trans h)
    rw [bounded, if_neg hsmall, if_pos hx]
    exact infinite_le_bounded y
  · have hsmall : ¬ limit ≤ x := fun hx => hy (hx.trans h)
    have hlarge : ¬ y ≤ -limit := fun hy => hx (h.trans hy)
    rw [bounded, if_neg hsmall, if_neg hx, bounded, if_neg hy, if_neg hlarge]
    exact h

theorem round_mono {x y : ℚ} (h : x ≤ y) : Le (round x) (round y) :=
  bounded_mono (Rounding.Format.signed_mono (by decide) h)

theorem timesHundred_mono : ∀ {x y : Double}, Le x y → Le x.timesHundred y.timesHundred
  | .finite x, .finite y, h => round_mono (mul_le_mul_of_nonneg_right h (by norm_num))
  | .infinite true, .infinite _, _ => True.intro
  | .infinite false, .infinite false, _ => True.intro
  | .infinite true, .finite y, _ => infinite_le_bounded _
  | .finite x, .infinite false, _ => bounded_le_infinite _

theorem truncate_mono {x y : ℚ} (h : x ≤ y) : truncate x ≤ truncate y := by
  rw [truncate, truncate]
  split_ifs with hx hy hy
  · exact neg_le_neg (Int.floor_mono (neg_le_neg h))
  · have hleft : 0 ≤ ⌊-x⌋ := Int.floor_nonneg.mpr (neg_nonneg.mpr hx.le)
    have hright : 0 ≤ ⌊y⌋ := Int.floor_nonneg.mpr (not_lt.mp hy)
    omega
  · exact absurd (h.trans_lt hy) hx
  · exact Int.floor_mono h

/-- An integer of at most 53 bits is a `double`. -/
theorem round_intCast {n : Int} (h : n.natAbs < 2 ^ 53) : round n = .finite n := by
  have hsigned := Rounding.Format.signed_intCast (f := binary64) (by decide) h
  have hlimit : ((2 ^ 53 : Int) : ℚ) < limit := by
    rw [limit, Int.cast_pow, Int.cast_ofNat]
    exact pow_lt_pow_right₀ one_lt_two (by decide)
  have hbelow : (n : ℚ) < limit := by
    have hint : n < 2 ^ 53 := by omega
    exact (Int.cast_lt.mpr hint).trans hlimit
  have habove : -limit < (n : ℚ) := by
    have hint : -2 ^ 53 < n := by omega
    have hcast : -((2 ^ 53 : Int) : ℚ) < n := by
      rw [← Int.cast_neg]
      exact Int.cast_lt.mpr hint
    exact (neg_lt_neg hlimit).trans hcast
  rw [round, hsigned, bounded, if_neg (not_le.mpr hbelow), if_neg (not_le.mpr habove)]

theorem timesHundred_intCast {n : Int} (h : (n * 100).natAbs < 2 ^ 53) :
    timesHundred (.finite n) = .finite (n * 100 : Int) := by
  rw [timesHundred, ← round_intCast h, Int.cast_mul, Int.cast_ofNat]

theorem truncate_intCast (n : Int) : truncate n = n := by
  rw [truncate]
  split_ifs
  · rw [← Int.cast_neg, Int.floor_intCast, neg_neg]
  · exact Int.floor_intCast n

end Double

/-! ## Literals -/

/-- The value of a decimal or hexadecimal digit. -/
def digitValue (c : Char) : Nat :=
  if c.isDigit then c.toNat - '0'.toNat else (lowerChar c).toNat - 'a'.toNat + 10

def digitsValue (base : Nat) (cs : List Char) : Nat :=
  cs.foldl (fun n c => base * n + digitValue c) 0

/-- The number in front of the exponent. -/
def significandValue (base : Nat) (isDigit : Char → Bool) (cs : List Char) : ℚ :=
  let whole := cs.takeWhile isDigit
  match cs.dropWhile isDigit with
  | '.' :: rest =>
      let fraction := rest.takeWhile isDigit
      digitsValue base (whole ++ fraction) / base ^ fraction.length
  | _ => digitsValue base whole

/-- The exponent, zero if there is none. -/
def exponentValue (mark : Char) : List Char → Int
  | [] => 0
  | c :: cs =>
      if lowerChar c = mark then
        let n : Int := digitsValue 10 ((dropSign cs).takeWhile Char.isDigit)
        if cs.head? = some '-' then -n else n
      else 0

/-- The number that a literal without its sign stands for. -/
def literalValue : List Char → ℚ
  | '0' :: 'x' :: cs | '0' :: 'X' :: cs =>
      significandValue 16 isHexDigit cs *
        2 ^ ((significand isHexDigit cs).elim 0 (exponentValue 'p'))
  | cs =>
      significandValue 10 Char.isDigit cs *
        10 ^ ((significand Char.isDigit cs).elim 0 (exponentValue 'e'))

/-- `Double.parseDouble`; `none` is `NumberFormatException`. -/
def parseDouble (s : String) : Option Double :=
  if parsesDouble s then
    let text := (trim s).toList
    let negative := text.head? == some '-'
    some <|
      match dropSign text with
      | ['N', 'a', 'N'] => .nan
      | ['I', 'n', 'f', 'i', 'n', 'i', 't', 'y'] => .infinite negative
      | cs => Double.round (if negative then -literalValue cs else literalValue cs)
  else none

/-! ### What literals are made of -/

theorem digit_of_digits : ∀ (cs : List Char) (n k m j : Nat), digits cs n k = (m, j, []) →
    ∀ c ∈ cs, (digit c).isSome := by
  intro cs
  induction cs with
  | nil => exact fun _ _ _ _ _ c hc => absurd hc List.not_mem_nil
  | cons d cs ih =>
      intro n k m j h
      rw [digits] at h
      cases hd : digit d with
      | none =>
          rw [hd] at h
          cases h
      | some x =>
          rw [hd] at h
          intro c hc
          rcases List.mem_cons.mp hc with rfl | hc
          · exact Option.isSome_iff_exists.mpr ⟨x, hd⟩
          · exact ih _ _ _ _ h c hc

theorem digit_of_unsigned {cs : List Char} {n : Nat} (h : unsigned cs = some n) :
    ∀ c ∈ cs, (digit c).isSome := by
  rw [unsigned] at h
  split at h
  · exact digit_of_digits _ _ _ _ _ ‹_›
  · cases h

/-- An integer has no other characters than its sign and its digits. -/
theorem mem_of_parseInt {s : String} {n : Int} (h : parseInt s = some n) :
    ∀ c ∈ s.toList, c = '-' ∨ c = '+' ∨ (digit c).isSome := by
  obtain ⟨h, -⟩ := Option.filter_eq_some_iff.mp h
  rw [integer] at h
  split at h
  next cs heq =>
    obtain ⟨m, hread, -⟩ := Option.map_eq_some_iff.mp h
    obtain ⟨k, hm, -⟩ := Option.bind_eq_some_iff.mp hread
    rw [heq]
    intro c hc
    rcases List.mem_cons.mp hc with rfl | hc
    · exact .inl rfl
    · exact .inr (.inr (digit_of_unsigned hm c hc))
  next cs heq =>
    obtain ⟨m, hread, -⟩ := Option.map_eq_some_iff.mp h
    obtain ⟨k, hm, -⟩ := Option.bind_eq_some_iff.mp hread
    rw [heq]
    intro c hc
    rcases List.mem_cons.mp hc with rfl | hc
    · exact .inr (.inl rfl)
    · exact .inr (.inr (digit_of_unsigned hm c hc))
  next =>
    obtain ⟨m, hread, -⟩ := Option.map_eq_some_iff.mp h
    obtain ⟨k, hm, -⟩ := Option.bind_eq_some_iff.mp hread
    exact fun c hc => .inr (.inr (digit_of_unsigned hm c hc))

theorem parseInt_colon {s : String} {n : Int} (h : parseInt s = some n) : ':' ∉ s.toList := by
  have hother : ¬ (':' = '-' ∨ ':' = '+' ∨ (digit ':').isSome) := by decide
  exact fun hc => hother (mem_of_parseInt h ':' hc)

/-- What has a point is no integer. -/
theorem parseInt_point {s : String} (h : '.' ∈ s.toList) : parseInt s = none := by
  have hother : ¬ ('.' = '-' ∨ '.' = '+' ∨ (digit '.').isSome) := by decide
  cases hn : parseInt s with
  | none => rfl
  | some n => exact absurd (mem_of_parseInt hn '.' h) hother

theorem mem_dropWhile {p : Char → Bool} {c : Char} (hp : p c = false) {cs : List Char}
    (hc : c ∈ cs) : c ∈ cs.dropWhile p := by
  rw [← List.takeWhile_append_dropWhile (p := p) (l := cs)] at hc
  rcases List.mem_append.mp hc with hc | hc
  · exact absurd (hp.symm.trans (List.mem_takeWhile_imp hc)) Bool.false_ne_true
  · exact hc

theorem colon_trim {s : String} (h : ':' ∈ s.toList) : ':' ∈ (trim s).toList := by
  have hblank : decide (':'.toNat ≤ 32) = false := by decide
  rw [trim, String.toList_ofList]
  exact List.mem_reverse.mpr (mem_dropWhile hblank
    (List.mem_reverse.mpr (mem_dropWhile hblank h)))

theorem colon_dropSign {cs : List Char} (h : ':' ∈ cs) : ':' ∈ dropSign cs := by
  unfold dropSign
  split
  · exact List.mem_of_ne_of_mem (by decide) h
  · exact List.mem_of_ne_of_mem (by decide) h
  · exact h

theorem colon_significand {isDigit : Char → Bool} (hdigit : isDigit ':' = false)
    {cs rest : List Char} (h : ':' ∈ cs) (hrest : significand isDigit cs = some rest) :
    ':' ∈ rest := by
  have hmem := mem_dropWhile hdigit h
  rw [significand] at hrest
  generalize cs.dropWhile isDigit = behind at hmem hrest
  split at hrest
  · split_ifs at hrest
    obtain rfl := Option.some.inj hrest
    exact mem_dropWhile hdigit (List.mem_of_ne_of_mem (by decide) hmem)
  · split_ifs at hrest
    obtain rfl := Option.some.inj hrest
    exact hmem

theorem colon_exponent {mark : Char} (hmark : mark ≠ ':') {cs rest : List Char} (h : ':' ∈ cs)
    (hrest : exponent mark cs = some rest) : ':' ∈ rest := by
  cases cs with
  | nil => cases hrest
  | cons c cs =>
      rw [exponent] at hrest
      split_ifs at hrest with hc
      obtain rfl := Option.some.inj hrest
      have hlower : lowerChar c = mark := (Bool.and_eq_true_iff.mp hc).1 |> of_decide_eq_true
      have hne : ':' ≠ c := by
        rintro rfl
        exact hmark (hlower.symm.trans (by decide))
      exact mem_dropWhile (by decide) (colon_dropSign (List.mem_of_ne_of_mem hne h))

theorem colon_doubleSuffix {cs : List Char} (h : ':' ∈ cs) : doubleSuffix cs = false := by
  cases cs with
  | nil => exact absurd h List.not_mem_nil
  | cons c cs =>
      cases cs with
      | nil =>
          obtain rfl := List.mem_singleton.mp h
          decide
      | cons d cs => rfl

theorem any_exponent_colon {mark : Char} (hmark : mark ≠ ':') {cs : List Char} (h : ':' ∈ cs) :
    (exponent mark cs).any doubleSuffix = false := by
  cases hrest : exponent mark cs with
  | none => rfl
  | some rest => exact colon_doubleSuffix (colon_exponent hmark h hrest)

/-- **A number has no colon.** -/
theorem parsesDouble_colon {s : String} (h : ':' ∈ s.toList) : parsesDouble s = false := by
  have hmem := colon_dropSign (colon_trim h)
  have hhex : ∀ {cs : List Char}, ':' ∈ cs →
      ((significand isHexDigit cs).any fun rest => (exponent 'p' rest).any doubleSuffix) = false := by
    intro cs hcs
    cases hrest : significand isHexDigit cs with
    | none => rfl
    | some rest => exact any_exponent_colon (by decide) (colon_significand (by decide) hcs hrest)
  rw [parsesDouble]
  generalize dropSign (trim s).toList = text at hmem
  split
  · exact absurd hmem (by decide)
  · exact absurd hmem (by decide)
  · have hcs := List.mem_of_ne_of_mem (by decide) (List.mem_of_ne_of_mem (by decide) hmem)
    exact hhex hcs
  · have hcs := List.mem_of_ne_of_mem (by decide) (List.mem_of_ne_of_mem (by decide) hmem)
    exact hhex hcs
  · cases hrest : significand Char.isDigit text with
    | none => rfl
    | some rest =>
        have hbehind := colon_significand (by decide) hmem hrest
        have hsuffix := colon_doubleSuffix hbehind
        have hexponent : (exponent 'e' rest).any doubleSuffix = false :=
          any_exponent_colon (by decide) hbehind
        rw [Option.any_some, hsuffix, hexponent]
        rfl

theorem parseDouble_eq_none {s : String} : parseDouble s = none ↔ parsesDouble s = false := by
  rw [parseDouble, ite_eq_right_iff]
  cases parsesDouble s with
  | true => exact iff_of_false (fun h => Option.some_ne_none _ (h rfl)) (fun h => Bool.noConfusion h)
  | false => exact iff_of_true (fun h => absurd h Bool.false_ne_true) rfl

theorem parseDouble_colon {s : String} {x : Double} (h : parseDouble s = some x) :
    ':' ∉ s.toList := by
  intro hc
  rw [parseDouble_eq_none.mpr (parsesDouble_colon hc)] at h
  cases h

/-- A literal that stands for an integer. -/
theorem parseDouble_literal {s : String} (negative : Bool) {c : Char} {cs : List Char} {n : Int}
    (htext : (trim s).toList = (if negative then ['-'] else []) ++ c :: cs) (hc : c.isDigit = true)
    (hparses : parsesDouble s = true) (hvalue : literalValue (c :: cs) = n)
    (hn : n.natAbs < 2 ^ 53) :
    parseDouble s = some (.finite (if negative then -n else n : Int)) := by
  have hne : ∀ {d : Char}, d.isDigit = false → c ≠ d := by
    rintro d hd rfl
    exact Bool.false_ne_true (hd.symm.trans hc)
  have hround : ∀ text, text = c :: cs → (match text with
      | ['N', 'a', 'N'] => Double.nan
      | ['I', 'n', 'f', 'i', 'n', 'i', 't', 'y'] => .infinite negative
      | cs => Double.round (if negative then -literalValue cs else literalValue cs)) =
        .finite (if negative then -n else n : Int) := by
    intro text heq
    split
    · exact absurd (List.cons.inj heq).1.symm (hne (by decide))
    · exact absurd (List.cons.inj heq).1.symm (hne (by decide))
    · rw [heq, hvalue]
      cases negative with
      | false => exact Double.round_intCast hn
      | true =>
          have hneg := Double.round_intCast (n := -n) (by rwa [Int.natAbs_neg])
          rw [Int.cast_neg] at hneg
          exact hneg.trans (congrArg Double.finite (Int.cast_neg n).symm)
  rw [parseDouble, if_pos hparses, htext]
  cases negative with
  | true =>
      have hdrop : dropSign ('-' :: c :: cs) = c :: cs := rfl
      exact congrArg some (hround _ hdrop)
  | false =>
      have hminus := hne (d := '-') (by decide)
      have hdrop : dropSign (c :: cs) = c :: cs := by
        rw [dropSign]
        · exact fun rest h => hminus (List.cons.inj h).1
        · exact fun rest h => hne (d := '+') (by decide) (List.cons.inj h).1
      have hsign : ((c :: cs).head? == some '-') = false :=
        beq_eq_false_iff_ne.mpr fun h => hminus (Option.some.inj h)
      simp only [Bool.false_eq_true, if_false, List.nil_append, hsign]
      exact congrArg some (hround _ hdrop)

theorem parseDouble_one : parseDouble "1.0" = some (.finite 1) := by
  have hvalue : literalValue ['1', '.', '0'] = (1 : Int) := by
    have hdigits : digitsValue 10 ['1', '0'] = 10 := by decide
    change (digitsValue 10 ['1', '0'] : ℚ) / (10 : Nat) ^ 1 * 10 ^ (0 : Int) = (1 : Int)
    rw [hdigits]
    norm_num
  exact parseDouble_literal false (by decide) (by decide) (by decide) hvalue (by decide)

end Java
