/-
# `Lib.Memory` — bytes, words and bits at addresses

A memory has a byte at every address.  Numbers of 32 bits are stored in four
bytes, the lowest first, and a bitmap is a row of bytes whose bits are counted
from the lowest bit of the first byte on.

Two programs may have different ideas of where something begins.  What they do
to each other is read off with `bit_base`, and the frame lemmas (`write_outside`
and the like) say what a write leaves alone.
-/
import Mathlib.Algebra.Ring.Nat
import Mathlib.Logic.Function.Basic

/-- The byte at each address. -/
abbrev Memory := Nat → BitVec 8

namespace Memory

variable (m : Memory)

/-! ## Bytes -/

/-- Bytes written one after the other from an address on. -/
def write (a : Nat) (bytes : List (BitVec 8)) : Memory :=
  fun x => if a ≤ x then (bytes[x - a]?).getD (m x) else m x

def writeByte (a : Nat) (v : BitVec 8) : Memory := Function.update m a v

/-- The `n` bytes from an address on. -/
def bytesAt (a n : Nat) : List (BitVec 8) := (List.range n).map fun i => m (a + i)

variable {m} {m' : Memory} {a b n x : Nat} {bytes : List (BitVec 8)}

theorem write_outside (h : x < a ∨ a + bytes.length ≤ x) : write m a bytes x = m x := by
  unfold write
  split
  · rw [List.getElem?_eq_none (by omega), Option.getD_none]
  · rfl

theorem write_inside {i : Nat} (h : i < bytes.length) : write m a bytes (a + i) = bytes[i] := by
  rw [write, if_pos (Nat.le_add_right a i), Nat.add_sub_cancel_left, List.getElem?_eq_getElem h,
    Option.getD_some]

theorem length_bytesAt (m : Memory) (a n : Nat) : (bytesAt m a n).length = n := by
  rw [bytesAt, List.length_map, List.length_range]

theorem getElem_bytesAt {i : Nat} (h : i < (bytesAt m a n).length) :
    (bytesAt m a n)[i] = m (a + i) := by
  simp [bytesAt]

theorem bytesAt_congr (h : ∀ x, a ≤ x → x < a + n → m x = m' x) : bytesAt m a n = bytesAt m' a n := by
  refine List.map_congr_left fun i hi => ?_
  have hi := List.mem_range.mp hi
  exact h (a + i) (Nat.le_add_right a i) (by omega)

theorem bytesAt_moved (h : ∀ d < n, m' (b + d) = m (a + d)) : bytesAt m' b n = bytesAt m a n := by
  refine List.map_congr_left fun i hi => ?_
  exact h i (List.mem_range.mp hi)

theorem bytesAt_write (m : Memory) (a : Nat) (bytes : List (BitVec 8)) :
    bytesAt (write m a bytes) a bytes.length = bytes := by
  refine List.ext_getElem (length_bytesAt ..) fun i h₁ h₂ => ?_
  rw [getElem_bytesAt, write_inside h₂]

/-! ## Numbers of 32 bits -/

/-- The four bytes of a number. -/
def ulongBytes (v : Nat) : List (BitVec 8) :=
  [BitVec.ofNat 8 v, BitVec.ofNat 8 (v / 2 ^ 8), BitVec.ofNat 8 (v / 2 ^ 16),
    BitVec.ofNat 8 (v / 2 ^ 24)]

def writeULong (m : Memory) (a v : Nat) : Memory := write m a (ulongBytes v)

def readULong (m : Memory) (a : Nat) : Nat :=
  (m a).toNat + 2 ^ 8 * (m (a + 1)).toNat + 2 ^ 16 * (m (a + 2)).toNat + 2 ^ 24 * (m (a + 3)).toNat

theorem writeULong_outside {v : Nat} (h : x < a ∨ a + 4 ≤ x) : writeULong m a v x = m x :=
  write_outside h

theorem readULong_congr (h : ∀ x, a ≤ x → x < a + 4 → m x = m' x) :
    readULong m a = readULong m' a := by
  unfold readULong
  rw [h a (by omega) (by omega), h (a + 1) (by omega) (by omega), h (a + 2) (by omega) (by omega),
    h (a + 3) (by omega) (by omega)]

/-- A number that was moved. -/
theorem readULong_moved (h : ∀ d < 4, m' (b + d) = m (a + d)) : readULong m' b = readULong m a := by
  have h₀ : m' b = m a := h 0 (by decide)
  unfold readULong
  rw [h₀, h 1 (by decide), h 2 (by decide), h 3 (by decide)]

theorem readULong_writeULong {v : Nat} (h : v < 2 ^ 32) : readULong (writeULong m a v) a = v := by
  have hbyte : ∀ i (hi : i < 4), writeULong m a v (a + i) = (ulongBytes v)[i] :=
    fun i hi => write_inside hi
  have h₀ := hbyte 0 (by decide)
  have h₁ := hbyte 1 (by decide)
  have h₂ := hbyte 2 (by decide)
  have h₃ := hbyte 3 (by decide)
  rw [Nat.add_zero] at h₀
  unfold readULong
  rw [h₀, h₁, h₂, h₃]
  simp only [ulongBytes, List.getElem_cons_zero, List.getElem_cons_succ, BitVec.toNat_ofNat]
  omega

theorem readULong_write_other (h : b + 4 ≤ a ∨ a + bytes.length ≤ b) :
    readULong (write m a bytes) b = readULong m b :=
  readULong_congr fun _ _ _ => write_outside (by omega)

theorem bytesAt_write_other (h : b + n ≤ a ∨ a + bytes.length ≤ b) :
    bytesAt (write m a bytes) b n = bytesAt m b n :=
  bytesAt_congr fun _ _ _ => write_outside (by omega)

theorem readULong_zeros {n : Nat} (h : a ≤ b) (hn : b + 4 ≤ a + n) :
    readULong (write m a (List.replicate n 0)) b = 0 := by
  have hzero : ∀ x, b ≤ x → x < b + 4 → write m a (List.replicate n 0) x = 0 := by
    intro x hle hlt
    have hin : x - a < (List.replicate n (0 : BitVec 8)).length := by
      rw [List.length_replicate]
      omega
    have hx : x = a + (x - a) := by omega
    rw [hx, write_inside hin, List.getElem_replicate]
  unfold readULong
  rw [hzero b (by omega) (by omega), hzero (b + 1) (by omega) (by omega),
    hzero (b + 2) (by omega) (by omega), hzero (b + 3) (by omega) (by omega)]
  rfl

theorem readULong_writeULong_other {v : Nat} (h : b + 4 ≤ a ∨ a + 4 ≤ b) :
    readULong (writeULong m a v) b = readULong m b :=
  readULong_congr fun _ _ _ => writeULong_outside (by omega)

theorem writeByte_self (m : Memory) (a : Nat) (v : BitVec 8) : writeByte m a v a = v :=
  Function.update_self ..

theorem writeByte_outside {v : BitVec 8} (h : x ≠ a) : writeByte m a v x = m x :=
  Function.update_of_ne h ..

theorem readULong_writeByte_other {v : BitVec 8} (h : a < b ∨ b + 4 ≤ a) :
    readULong (writeByte m a v) b = readULong m b :=
  readULong_congr fun _ _ _ => writeByte_outside (by omega)

/-! ## Numbers of 16 bits -/

/-- The bytes of a row of numbers. -/
def unitBytes (units : List (BitVec 16)) : List (BitVec 8) :=
  units.flatMap fun (u : BitVec 16) => [u.setWidth 8, (u >>> 8).setWidth 8]

/-- The row of `n` numbers from an address on. -/
def unitsAt (m : Memory) (a n : Nat) : List (BitVec 16) :=
  (List.range n).map fun i => (m (a + 2 * i + 1) ++ m (a + 2 * i) : BitVec (8 + 8))

theorem length_unitBytes (units : List (BitVec 16)) :
    (unitBytes units).length = 2 * units.length := by
  induction units with
  | nil => rfl
  | cons u units ih =>
      show (unitBytes units).length + 2 = 2 * (units.length + 1)
      omega

theorem unitsAt_congr (h : ∀ x, a ≤ x → x < a + 2 * n → m x = m' x) :
    unitsAt m a n = unitsAt m' a n := by
  refine List.map_congr_left fun i hi => ?_
  have hi := List.mem_range.mp hi
  rw [h _ (by omega) (by omega), h _ (by omega) (by omega)]

theorem unitsAt_moved (h : ∀ d < 2 * n, m' (b + d) = m (a + d)) :
    unitsAt m' b n = unitsAt m a n := by
  refine List.map_congr_left fun i hi => ?_
  have hi := List.mem_range.mp hi
  have hhigh := h (2 * i + 1) (by omega)
  rw [← Nat.add_assoc, ← Nat.add_assoc] at hhigh
  rw [hhigh, h (2 * i) (by omega)]

theorem unitsAt_succ (m : Memory) (a n : Nat) :
    unitsAt m a (n + 1) = (m (a + 1) ++ m a : BitVec (8 + 8)) :: unitsAt m (a + 2) n := by
  unfold unitsAt
  rw [List.range_succ_eq_map, List.map_cons, List.map_map]
  refine congrArg _ (List.map_congr_left fun i _ => ?_)
  have hone : a + 2 * (i + 1) = a + 2 + 2 * i := by omega
  show (m (a + 2 * (i + 1) + 1) ++ m (a + 2 * (i + 1)) : BitVec (8 + 8)) = _
  rw [hone]

theorem unitsAt_concat (m : Memory) (a n : Nat) :
    unitsAt m a (n + 1) =
      unitsAt m a n ++ [(m (a + 2 * n + 1) ++ m (a + 2 * n) : BitVec (8 + 8))] := by
  unfold unitsAt
  rw [List.range_succ, List.map_append]
  rfl

theorem unit_bytes (u : BitVec 16) :
    ((u >>> 8).setWidth 8 ++ u.setWidth 8 : BitVec (8 + 8)) = u := by
  refine BitVec.eq_of_getLsbD_eq fun i hi => ?_
  rw [BitVec.getLsbD_append, BitVec.getLsbD_setWidth, BitVec.getLsbD_setWidth]
  by_cases hlow : i < 8
  · simp [hlow]
  · have hhigh : i - 8 < 8 := by omega
    have hsum : 8 + (i - 8) = i := by omega
    simp [hlow, hhigh, hsum]

theorem unitsAt_write (m : Memory) (a : Nat) (units : List (BitVec 16)) :
    unitsAt (write m a (unitBytes units)) a units.length = units := by
  have hall : ∀ (units : List (BitVec 16)) (m' : Memory) (a : Nat),
      (∀ i (hi : i < (unitBytes units).length), m' (a + i) = (unitBytes units)[i]) →
        unitsAt m' a units.length = units := by
    intro units
    induction units with
    | nil =>
        intro m' a _
        rfl
    | cons u units ih =>
        intro m' a hbytes
        have hlength : (unitBytes (u :: units)).length = (unitBytes units).length + 2 := rfl
        have hrest := ih m' (a + 2) fun i hi => by
          have hbyte := hbytes (i + 2) (by omega)
          rw [show a + 2 + i = a + (i + 2) by omega]
          exact hbyte
        have hlow : m' a = u.setWidth 8 := hbytes 0 (by omega)
        have hhigh : m' (a + 1) = (u >>> 8).setWidth 8 := hbytes 1 (by omega)
        rw [List.length_cons, unitsAt_succ, hrest, hlow, hhigh]
        exact congrArg (· :: units) (unit_bytes u)
  exact hall units _ a fun i hi => write_inside hi

theorem unitsAt_write_other (h : b + 2 * n ≤ a ∨ a + bytes.length ≤ b) :
    unitsAt (write m a bytes) b n = unitsAt m b n :=
  unitsAt_congr fun _ _ _ => write_outside (by omega)

theorem unitsAt_writeULong_other {v : Nat} (h : b + 2 * n ≤ a ∨ a + 4 ≤ b) :
    unitsAt (writeULong m a v) b n = unitsAt m b n :=
  unitsAt_write_other h

theorem unitsAt_writeByte_other {v : BitVec 8} (h : a < b ∨ b + 2 * n ≤ a) :
    unitsAt (writeByte m a v) b n = unitsAt m b n :=
  unitsAt_congr fun _ _ _ => writeByte_outside (by omega)

theorem bytesAt_writeULong_other {v : Nat} (h : b + n ≤ a ∨ a + 4 ≤ b) :
    bytesAt (writeULong m a v) b n = bytesAt m b n :=
  bytesAt_write_other h

/-! ## Bits -/

/-- Bit `i` of the bitmap that begins at `base`. -/
def bit (m : Memory) (base i : Nat) : Bool := (m (base + i / 8)).getLsbD (i % 8)

/-- The same bit of a bitmap that begins earlier. -/
theorem bit_base (m : Memory) (base d i : Nat) : bit m (base + d) i = bit m base (i + 8 * d) := by
  unfold bit
  rw [Nat.add_mul_mod_self_left, Nat.add_mul_div_left i d (by decide), Nat.add_assoc,
    Nat.add_comm d]

theorem bit_congr {base i : Nat} (h : m (base + i / 8) = m' (base + i / 8)) :
    bit m base i = bit m' base i := by
  rw [bit, bit, h]

/-- One bit set. -/
def setBit (m : Memory) (base i : Nat) : Memory :=
  Function.update m (base + i / 8) (m (base + i / 8) ||| BitVec.twoPow 8 (i % 8))

/-- `n` bits set from bit `i` on. -/
def setBits (m : Memory) (base i : Nat) : Nat → Memory
  | 0 => m
  | n + 1 => setBit (setBits m base i n) base (i + n)

theorem bit_setBit (m : Memory) (base i j : Nat) :
    bit (setBit m base i) base j = (bit m base j || i = j) := by
  unfold bit setBit
  by_cases hbyte : base + j / 8 = base + i / 8
  · rw [hbyte, Function.update_self, BitVec.getLsbD_or, BitVec.getLsbD_twoPow]
    have hsame : (i % 8 < 8 && decide (i % 8 = j % 8)) = decide (i = j) := by
      rw [Bool.and_eq_right_iff_imp.mpr fun _ => by simp; omega, decide_eq_decide]
      omega
    rw [hsame]
  · rw [Function.update_of_ne hbyte]
    have hne : i ≠ j := fun h => hbyte (by rw [h])
    simp [hne]

/-- What setting bits does to a bit. -/
theorem bit_setBits (m : Memory) (base i n j : Nat) :
    bit (setBits m base i n) base j = (bit m base j || (i ≤ j && j < i + n)) := by
  induction n with
  | zero =>
      have hnone : (decide (i ≤ j) && decide (j < i + 0)) = false := by
        simp
      rw [hnone, Bool.or_false]
      rfl
  | succ n ih =>
      rw [setBits, bit_setBit, ih, Bool.or_assoc]
      congr 1
      rw [Bool.eq_iff_iff]
      simp
      omega

theorem setBits_outside {base i : Nat} (h : x < base + i / 8 ∨ base + (i + n + 7) / 8 ≤ x) :
    setBits m base i n x = m x := by
  induction n with
  | zero => rfl
  | succ n ih =>
      rw [setBits, setBit, Function.update_of_ne (by omega), ih (by omega)]

end Memory
