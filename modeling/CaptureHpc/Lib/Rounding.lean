/-
# `Lib.Rounding` — binary numbers of a fixed precision

A format has numbers with so many bits and no finer than a least quantum.
`Format.nearest` takes a number to the closest one of the format, and to the
even one of two that are equally close.

It keeps the order (`Format.nearest_mono`).  The quantum grows with the number,
and the two sides of a place where it does are kept apart by the power of two
between them, which every quantum up to there divides.
-/
import Mathlib.Data.Int.Log
import Mathlib.Data.Rat.Floor
import Mathlib.Algebra.Order.Field.Power
import Mathlib.Algebra.Ring.Int.Defs
import Mathlib.Data.Int.ConditionallyCompleteOrder
import Mathlib.Tactic.Linarith

namespace Rounding

/-- The closest integer, and the even one of two. -/
def halfEven (q : ℚ) : Int :=
  let n := ⌊q⌋
  if q - n < 1 / 2 ∨ q - n = 1 / 2 ∧ n % 2 = 0 then n else n + 1

theorem halfEven_intCast (n : Int) : halfEven n = n := by
  rw [halfEven, Int.floor_intCast, if_pos]
  left
  rw [sub_self]
  norm_num

theorem floor_le_halfEven (q : ℚ) : ⌊q⌋ ≤ halfEven q := by
  rw [halfEven]
  split_ifs
  · exact le_refl _
  · exact Int.le_add_one (le_refl _)

theorem halfEven_le (q : ℚ) : halfEven q ≤ ⌊q⌋ + 1 := by
  rw [halfEven]
  split_ifs
  · exact Int.le_add_one (le_refl _)
  · exact le_refl _

theorem halfEven_mono : Monotone halfEven := by
  intro q r hqr
  rcases lt_or_eq_of_le (Int.floor_mono hqr) with hlt | heq
  · exact (halfEven_le q).trans ((Int.add_one_le_iff.mpr hlt).trans (floor_le_halfEven r))
  · have hdown : r - ⌊r⌋ < 1 / 2 ∨ r - ⌊r⌋ = 1 / 2 ∧ ⌊r⌋ % 2 = 0 →
        q - ⌊r⌋ < 1 / 2 ∨ q - ⌊r⌋ = 1 / 2 ∧ ⌊r⌋ % 2 = 0 := by
      rintro (hlow | ⟨hhalf, heven⟩)
      · left
        linarith
      · rcases lt_or_eq_of_le hqr with hless | rfl
        · left
          linarith
        · exact .inr ⟨hhalf, heven⟩
    rw [halfEven, halfEven, heq]
    split_ifs with hq hr
    · exact le_refl _
    · exact Int.le_add_one (le_refl _)
    · exact absurd (hdown ‹_›) hq
    · exact le_refl _

theorem halfEven_nonneg {q : ℚ} (h : 0 ≤ q) : 0 ≤ halfEven q :=
  (Int.floor_nonneg.mpr h).trans (floor_le_halfEven q)

structure Format where
  /-- The bits of a number. -/
  precision : Nat
  /-- The exponent of the least quantum. -/
  least : Int

namespace Format

variable (f : Format)

/-- The exponent of the last bit of a number. -/
def quantum (q : ℚ) : Int := max (Int.log 2 q + 1 - f.precision) f.least

/-- The closest number of the format, for a number that is not negative. -/
def nearest (q : ℚ) : ℚ := halfEven (q / 2 ^ f.quantum q) * 2 ^ f.quantum q

theorem nearest_zero : f.nearest 0 = 0 := by
  have hzero : halfEven 0 = 0 := halfEven_intCast 0
  rw [nearest, zero_div, hzero, Int.cast_zero, zero_mul]

theorem nearest_nonneg {q : ℚ} (h : 0 ≤ q) : 0 ≤ f.nearest q := by
  have hpow : (0 : ℚ) < 2 ^ f.quantum q := zpow_pos two_pos _
  have hint := halfEven_nonneg (div_nonneg h hpow.le)
  exact mul_nonneg (Int.cast_nonneg hint) hpow.le

/-- A number of the format is the closest to itself. -/
theorem nearest_of_multiple {q : ℚ} {n : Int} (h : q = n * 2 ^ f.quantum q) : f.nearest q = q := by
  have hpow : (2 : ℚ) ^ f.quantum q ≠ 0 := (zpow_pos two_pos _).ne'
  have hdiv : q / 2 ^ f.quantum q = n := (div_eq_iff hpow).mpr h
  rw [nearest, hdiv, halfEven_intCast, ← h]

variable {f} {q r : ℚ}

theorem quantum_mono (hq : 0 < q) (hqr : q ≤ r) : f.quantum q ≤ f.quantum r := by
  have hlog := Int.log_mono_right (b := 2) hq hqr
  exact max_le_max (by omega) (le_refl _)

theorem lt_zpow_quantum (q : ℚ) : q < 2 ^ (f.quantum q + f.precision) := by
  have hlog : Int.log 2 q + 1 ≤ f.quantum q + f.precision := by
    have hmax := le_max_left (Int.log 2 q + 1 - f.precision) f.least
    rw [quantum]
    omega
  have hlt : q < 2 ^ (Int.log 2 q + 1) := Int.lt_zpow_succ_log_self Nat.one_lt_two q
  exact hlt.trans_le (zpow_le_zpow_right₀ one_le_two hlog)

/-- Rounding does not leave the numbers up to a power of two. -/
theorem nearest_le {q : ℚ} (e : Nat) (h : q ≤ 2 ^ (f.quantum q + e)) :
    f.nearest q ≤ 2 ^ (f.quantum q + e) := by
  have hpow : (0 : ℚ) < 2 ^ f.quantum q := zpow_pos two_pos _
  have hsplit : (2 : ℚ) ^ (f.quantum q + e) = ((2 ^ e : Int) : ℚ) * 2 ^ f.quantum q := by
    rw [zpow_add₀ two_ne_zero, mul_comm, zpow_natCast, Int.cast_pow, Int.cast_ofNat]
  rw [hsplit] at h ⊢
  have hint : halfEven (q / 2 ^ f.quantum q) ≤ 2 ^ e := by
    have hmono := halfEven_mono ((div_le_iff₀ hpow).mpr h)
    rwa [halfEven_intCast] at hmono
  exact mul_le_mul_of_nonneg_right (Int.cast_le.mpr hint) hpow.le

theorem le_nearest {q : ℚ} (e : Nat) (h : 2 ^ (f.quantum q + e) ≤ q) :
    2 ^ (f.quantum q + e) ≤ f.nearest q := by
  have hpow : (0 : ℚ) < 2 ^ f.quantum q := zpow_pos two_pos _
  have hsplit : (2 : ℚ) ^ (f.quantum q + e) = ((2 ^ e : Int) : ℚ) * 2 ^ f.quantum q := by
    rw [zpow_add₀ two_ne_zero, mul_comm, zpow_natCast, Int.cast_pow, Int.cast_ofNat]
  rw [hsplit] at h ⊢
  have hint : 2 ^ e ≤ halfEven (q / 2 ^ f.quantum q) := by
    have hmono := halfEven_mono ((le_div_iff₀ hpow).mpr h)
    rwa [halfEven_intCast] at hmono
  exact mul_le_mul_of_nonneg_right (Int.cast_le.mpr hint) hpow.le

/-- **Rounding keeps the order.** -/
theorem nearest_mono (hbits : 0 < f.precision) (hq : 0 ≤ q) (hqr : q ≤ r) :
    f.nearest q ≤ f.nearest r := by
  rcases hq.eq_or_lt with rfl | hpos
  · rw [nearest_zero]
    exact f.nearest_nonneg hqr
  rcases (quantum_mono (f := f) hpos hqr).eq_or_lt with heq | hlt
  · have hpow : (0 : ℚ) < 2 ^ f.quantum r := zpow_pos two_pos _
    have hint := halfEven_mono (div_le_div_of_nonneg_right hqr hpow.le)
    rw [nearest, nearest, heq]
    exact mul_le_mul_of_nonneg_right (Int.cast_le.mpr hint) hpow.le
  · -- the quantum of the larger number is its own
    have hleast : f.least ≤ f.quantum q := le_max_right _ _
    have hlog : f.quantum r = Int.log 2 r + 1 - f.precision := by
      rcases max_choice (Int.log 2 r + 1 - f.precision) f.least with hown | hbound
      · exact hown
      · have heq : f.quantum r = f.least := hbound
        omega
    have hrpos := hpos.trans_le hqr
    have hright : 2 ^ (f.quantum r + (f.precision - 1 : Nat)) ≤ r := by
      have hexp : f.quantum r + (f.precision - 1 : Nat) = Int.log 2 r := by omega
      rw [hexp]
      exact Int.zpow_log_le_self Nat.one_lt_two hrpos
    calc f.nearest q ≤ 2 ^ (f.quantum q + f.precision) :=
          nearest_le f.precision (lt_zpow_quantum q).le
      _ ≤ 2 ^ (f.quantum r + (f.precision - 1 : Nat)) :=
          zpow_le_zpow_right₀ one_le_two (by omega)
      _ ≤ f.nearest r := le_nearest _ hright

/-- An integer with no more bits than the format has is in it. -/
theorem nearest_natCast {n : Nat} (hleast : f.least ≤ 0) (h : n < 2 ^ f.precision) :
    f.nearest n = n := by
  rcases Nat.eq_zero_or_pos n with rfl | hpos
  · rw [Nat.cast_zero, nearest_zero]
  have hlog : Int.log 2 (n : ℚ) + 1 ≤ f.precision := by
    have hlt := Nat.log_lt_of_lt_pow hpos.ne' h
    rw [Int.log_natCast]
    omega
  have hquantum : f.quantum n ≤ 0 := max_le (by omega) hleast
  obtain ⟨k, hk⟩ : ∃ k : Nat, f.quantum n = -k := ⟨(-f.quantum n).toNat, by omega⟩
  have hpow : ((2 : ℚ) ^ k) ≠ 0 := pow_ne_zero k two_ne_zero
  refine f.nearest_of_multiple (n := n * 2 ^ k) ?_
  rw [hk, zpow_neg, zpow_natCast, Int.cast_mul, Int.cast_natCast, Int.cast_pow, Int.cast_ofNat,
    mul_assoc, mul_inv_cancel₀ hpow, mul_one]

/-- The closest number of the format. -/
def signed (f : Format) (q : ℚ) : ℚ := if q < 0 then -f.nearest (-q) else f.nearest q

theorem signed_mono (hbits : 0 < f.precision) : Monotone f.signed := by
  intro q r hqr
  rw [signed, signed]
  split_ifs with hq hr hr
  · exact neg_le_neg (nearest_mono hbits (neg_nonneg.mpr hr.le) (neg_le_neg hqr))
  · have hleft := f.nearest_nonneg (neg_nonneg.mpr hq.le)
    have hright := f.nearest_nonneg (not_lt.mp hr)
    exact (neg_nonpos.mpr hleft).trans hright
  · exact absurd (hqr.trans_lt hr) hq
  · exact nearest_mono hbits (not_lt.mp hq) hqr

theorem signed_intCast {n : Int} (hleast : f.least ≤ 0) (h : n.natAbs < 2 ^ f.precision) :
    f.signed n = n := by
  have hnat := nearest_natCast hleast h
  rw [signed]
  split_ifs with hneg
  · have habs : (-(n : ℚ)) = (n.natAbs : ℚ) := by
      have hint : -n = n.natAbs := by
        have hlt : n < 0 := Int.cast_lt_zero.mp hneg
        omega
      rw [← Int.cast_neg, hint, Int.cast_natCast]
    rw [habs, hnat, ← habs, neg_neg]
  · have habs : (n : ℚ) = (n.natAbs : ℚ) := by
      have hint : n = n.natAbs := by
        have hle : 0 ≤ n := Int.cast_nonneg_iff.mp (not_lt.mp hneg)
        omega
      rw [← Int.cast_natCast, ← hint]
    rw [habs, hnat]

end Format

end Rounding
