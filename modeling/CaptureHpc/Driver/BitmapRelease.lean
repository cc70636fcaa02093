/-
# `Driver.BitmapRelease` — giving blocks back, with the numbers of the program

`Driver.EventBuffer` has `BufferClearBits` as a function on natural numbers.
Here it is as it is written, with `ULONG`s that wrap around and a loop that may
go on for ever or leave the bitmap.

It does neither.  `release_exact` says that for any bitmap, block and size it
ends and clears just the bits of the range that are in the bitmap, and that what
was reserved before is free again.  All of it is about one declaration of the
buffer, whichever it is; what a program does to the bitmap of another
declaration is in `Driver.EventBuffer` (`release_bit`).
-/
import CaptureHpc.Driver.EventBuffer
import CaptureHpc.Lib.While

namespace CaptureHpc.Driver

abbrev ULong := BitVec 32

/-- `ALIGN_UP(size, Block) / BLOCK_SIZE`. -/
def blockCount (size : ULong) : ULong := ((size + 16 - 1) &&& ~~~(16#32 - 1)) / 16

/-- The index of the block that begins at an offset. -/
def blockIndex (o : Offsets) (data : ULong) : ULong := (data - BitVec.ofNat 32 o.buffer) / 16

def sizeOfBitMap (o : Offsets) (m : Memory) : ULong := BitVec.ofNat 32 (m.readULong o.sizeOfBitMap)

/-- The variables of the loop. -/
structure ClearBits where
  memory : Memory
  position : Nat
  bits : ULong
  index : ULong

namespace ClearBits

def shift (s : ClearBits) : ULong := s.index &&& 7

/-- The number of bits to clear in this position. -/
def count (s : ClearBits) : ULong := if s.bits > 8 - s.shift then 8 - s.shift else s.bits

/-- The body of the loop. -/
def round (s : ClearBits) : ClearBits :=
  { memory := Function.update s.memory s.position (((s.memory s.position).setWidth 32 &&&
      ~~~(~~~(0xFF#32 <<< s.count) <<< s.shift)).setWidth 8)
    position := s.position + 1
    bits := s.bits - s.count
    index := s.index + s.count }

/-- The loop begins. -/
def start (o : Offsets) (m : Memory) (data size : ULong) : ClearBits :=
  let bits := blockCount size
  let index := blockIndex o data
  { memory := m
    position := o.bitmap + (index / 8).toNat
    bits := if index + bits > sizeOfBitMap o m then sizeOfBitMap o m - index else bits
    index }

end ClearBits

/-- `BufferClearBits` returns, and has accessed the bytes at these addresses of the bitmap. -/
inductive Releases (o : Offsets) (m : Memory) (data size : ULong) : List Nat → Memory → Prop
  | nothing : blockIndex o data ≥ sizeOfBitMap o m ∨ blockCount size = 0 →
      Releases o m data size [] m
  | cleared {visited : List ClearBits} {s : ClearBits} :
      ¬ (blockIndex o data ≥ sizeOfBitMap o m ∨ blockCount size = 0) →
      While (fun s => s.bits ≠ 0) ClearBits.round (ClearBits.start o m data size) visited s →
      Releases o m data size (visited.map ClearBits.position) s.memory

/-- `ReserveSpace`, when `RtlFindClearBitsAndSet` finds this position: the bits are clear, and are
set. -/
def reserveSpaceAt (o : Offsets) (m : Memory) (position size : ULong) : Option (ULong × Memory) :=
  if position ≠ 0xFFFFFFFF ∧
      position.toNat + (blockCount size).toNat ≤ (sizeOfBitMap o m).toNat ∧
      ∀ b < (blockCount size).toNat, m.bit o.bitmap (position.toNat + b) = false then
    some (BitVec.ofNat 32 o.buffer + position * 16,
      (m.setBits o.bitmap position.toNat (blockCount size).toNat).writeULong o.hint position.toNat)
  else none

/-! ## What a release is to do -/

/-- The bytes of the bitmap. -/
def InBitmap (o : Offsets) (m : Memory) (x : Nat) : Prop :=
  o.bitmap ≤ x ∧ x < o.bitmap + ((sizeOfBitMap o m).toNat + 7) / 8

/-- The blocks of data of some size. -/
def InRange (o : Offsets) (data size : ULong) (i : Nat) : Prop :=
  (blockIndex o data).toNat ≤ i ∧ i < (blockIndex o data).toNat + (size.toNat + 15) / 16

/-- The members of the buffer do not overlap. -/
structure Offsets.InOrder (o : Offsets) : Prop where
  sizeOfBitMap : o.sizeOfBitMap + 4 ≤ o.hint
  hint : o.hint + 4 ≤ o.bitmap

/-- The bits of the range that are in the bitmap are cleared, and nothing else is changed. -/
structure Exact (o : Offsets) (m : Memory) (data size : ULong) (touched : List Nat) (m' : Memory) :
    Prop where
  cleared : ∀ i, InRange o data size i → i < (sizeOfBitMap o m).toNat →
    m'.bit o.bitmap i = false
  unchanged : ∀ i, ¬ (InRange o data size i ∧ i < (sizeOfBitMap o m).toNat) →
    m'.bit o.bitmap i = m.bit o.bitmap i
  outside : ∀ x, ¬ InBitmap o m x → m' x = m x
  touched : ∀ x ∈ touched, InBitmap o m x
  /-- If it was just reserved, the bitmap is what it was before.  No bitmap has more blocks than
  there are addresses for. -/
  restored : ∀ m₀ position, o.InOrder → 16 * (sizeOfBitMap o m₀).toNat ≤ 2 ^ 32 →
    reserveSpaceAt o m₀ position size = some (data, m) →
    sizeOfBitMap o m' = sizeOfBitMap o m₀ ∧
      ∀ i < (sizeOfBitMap o m₀).toNat, m'.bit o.bitmap i = m₀.bit o.bitmap i

/-! ## The numbers -/

theorem alignDown_eq (x : ULong) : (x &&& ~~~(16#32 - 1)).toNat = x.toNat / 16 * 16 := by
  have hmask : ∀ i < 32, (~~~(16#32 - 1)).getLsbD i = !decide (i < 4) := by decide
  have hshift : x &&& ~~~(16#32 - 1) = x >>> 4 <<< 4 := by
    refine BitVec.eq_of_getLsbD_eq fun i hi => ?_
    rw [BitVec.getLsbD_and, hmask i hi, BitVec.getLsbD_shiftLeft, BitVec.getLsbD_ushiftRight]
    by_cases hlow : i < 4
    · simp [hlow]
    · have hsum : 4 + (i - 4) = i := by omega
      simp [hlow, hi, hsum]
  have hx := x.isLt
  rw [hshift, BitVec.toNat_shiftLeft, BitVec.toNat_ushiftRight, Nat.shiftLeft_eq,
    Nat.shiftRight_eq_div_pow]
  omega

/-- The number of blocks is what it is in `bitsOf`. -/
theorem toNat_blockCount (size : ULong) : (blockCount size).toNat = bitsOf size.toNat := by
  have hsum : (size + 16 - 1).toNat = (size.toNat + 15) % 2 ^ 32 := by bv_omega
  rw [blockCount, BitVec.toNat_udiv, alignDown_eq, hsum, bitsOf_eq]
  exact Nat.mul_div_cancel _ (by decide)

theorem toNat_blockIndex {o : Offsets} (ho : o.buffer ≤ 2 ^ 32) (data : ULong) :
    (blockIndex o data).toNat = (data.toNat + 2 ^ 32 - o.buffer) % 2 ^ 32 / blockSize := by
  have hsub : (data - BitVec.ofNat 32 o.buffer).toNat =
      (data.toNat + 2 ^ 32 - o.buffer) % 2 ^ 32 := by
    rw [BitVec.toNat_sub, BitVec.toNat_ofNat]
    omega
  rw [blockIndex, BitVec.toNat_udiv, hsub]
  rfl

/-- Neither of them is so large that their sum wraps around. -/
theorem blockIndex_lt (o : Offsets) (data : ULong) : (blockIndex o data).toNat < 2 ^ 28 := by
  have hlt := (data - BitVec.ofNat 32 o.buffer).isLt
  rw [blockIndex, BitVec.toNat_udiv]
  exact Nat.div_lt_of_lt_mul hlt

theorem blockCount_lt (size : ULong) : (blockCount size).toNat < 2 ^ 28 := by
  rw [toNat_blockCount, bitsOf_eq]
  omega

theorem toNat_sizeOfBitMap (o : Offsets) (m : Memory) :
    (sizeOfBitMap o m).toNat = m.readULong o.sizeOfBitMap := by
  have h₀ := (m o.sizeOfBitMap).isLt
  have h₁ := (m (o.sizeOfBitMap + 1)).isLt
  have h₂ := (m (o.sizeOfBitMap + 2)).isLt
  have h₃ := (m (o.sizeOfBitMap + 3)).isLt
  rw [sizeOfBitMap, BitVec.toNat_ofNat, Memory.readULong]
  omega

theorem toNat_shift (index : ULong) : (index &&& 7).toNat = index.toNat % 8 := by
  rw [BitVec.toNat_and]
  exact Nat.and_two_pow_sub_one_eq_mod _ 3

/-! ## The loop -/

namespace ClearBits

/-- What the loop has done, of a bitmap that begins at `base` and the bits from `index` on. -/
structure Cleared (base : Nat) (m : Memory) (index bits : Nat) (s : ClearBits) : Prop where
  range : s.index.toNat + s.bits.toNat = index + bits
  begun : index ≤ s.index.toNat
  position : s.bits ≠ 0 → s.position = base + s.index.toNat / 8
  bit : ∀ i, s.memory.bit base i = (m.bit base i && !(index ≤ i && i < s.index.toNat))
  outside : ∀ x, x < base + index / 8 ∨ base + (index + bits + 7) / 8 ≤ x → s.memory x = m x

theorem toNat_count (s : ClearBits) :
    s.count.toNat = min (8 - s.index.toNat % 8) s.bits.toNat := by
  have hshift : s.shift.toNat = s.index.toNat % 8 := toNat_shift s.index
  have hsub : (8 - s.shift).toNat = 8 - s.index.toNat % 8 := by
    rw [← hshift]
    bv_omega
  rw [count]
  split
  · next hmore =>
      rw [gt_iff_lt, BitVec.lt_def, hsub] at hmore
      rw [hsub]
      omega
  · next hlast =>
      rw [gt_iff_lt, BitVec.lt_def, hsub] at hlast
      omega

/-- The numbers after a round. -/
theorem toNat_round_index (s : ClearBits) (hfits : s.index.toNat + s.bits.toNat < 2 ^ 32) :
    s.round.index.toNat = s.index.toNat + s.count.toNat := by
  have hcount := s.toNat_count
  rw [ClearBits.round, BitVec.toNat_add]
  exact Nat.mod_eq_of_lt (by omega)

theorem toNat_round_bits (s : ClearBits) : s.round.bits.toNat = s.bits.toNat - s.count.toNat := by
  have hcount := s.toNat_count
  exact BitVec.toNat_sub_of_le (BitVec.le_def.mpr (by omega))

theorem round_memory (s : ClearBits) : s.round.memory = Function.update s.memory s.position
    (((s.memory s.position).setWidth 32 &&&
      mask (s.index.toNat % 8) s.count.toNat).setWidth 8) := by
  rw [← toNat_shift]
  rfl

theorem toNat_bits_ne {s : ClearBits} (h : s.bits ≠ 0) : s.bits.toNat ≠ 0 := by
  intro hzero
  exact h (BitVec.eq_of_toNat_eq hzero)

variable {base index bits : Nat} {m : Memory} {s : ClearBits}

/-- **One round** clears a bit at least. -/
theorem Cleared.round (h : Cleared base m index bits s) (hfits : index + bits < 2 ^ 32)
    (hbits : s.bits ≠ 0) :
    Cleared base m index bits s.round ∧ s.round.bits.toNat < s.bits.toNat := by
  obtain ⟨hrange, hbegun, hposition, hbit, houtside⟩ := h
  have hposition := hposition hbits
  have hcount := s.toNat_count
  have hpos := toNat_bits_ne hbits
  have hindex := s.toNat_round_index (by omega)
  have hless := s.toNat_round_bits
  have hmemory := s.round_memory
  rw [hposition] at hmemory
  refine ⟨⟨?_, ?_, ?_, ?_, ?_⟩, ?_⟩
  · omega
  · omega
  · intro hmore
    have hmore := toNat_bits_ne hmore
    show s.position + 1 = _
    omega
  · intro i
    rw [hmemory, bit_round _ _ _ _ _ (by omega), hbit, Bool.and_assoc, hindex]
    congr 1
    rw [Bool.eq_iff_iff]
    simp
    omega
  · intro x hx
    rw [hmemory, Function.update_of_ne (by omega), houtside x hx]
  · omega

/-- **The loop ends**, and has cleared its bits. -/
theorem exists_cleared (h : Cleared base m index bits s) (hfits : index + bits < 2 ^ 32) :
    ∃ visited s', While (fun s => s.bits ≠ 0) ClearBits.round s visited s' ∧
      Cleared base m index bits s' ∧ s'.index.toNat = index + bits ∧
      ∀ x ∈ visited, base + index / 8 ≤ x.position ∧
        x.position < base + (index + bits + 7) / 8 := by
  obtain ⟨visited, s', hwhile⟩ := While.exists_of_variant (fun s : ClearBits => s.bits.toNat)
    (fun s hs hbits => Cleared.round hs hfits hbits) h
  obtain ⟨⟨hend, hnone⟩, hvisited⟩ := hwhile.invariant h
    fun s hs hbits => (Cleared.round hs hfits hbits).1
  refine ⟨visited, s', hwhile, hend, ?_, ?_⟩
  · have hrange := hend.range
    rw [Decidable.not_not.mp hnone] at hrange
    exact hrange
  · intro x hx
    obtain ⟨hin, hbits⟩ := hvisited x hx
    have hpos := toNat_bits_ne hbits
    have hrange := hin.range
    have hbegun := hin.begun
    rw [hin.position hbits]
    omega

end ClearBits

/-! ## The release -/

section Release
variable {o : Offsets} {m m' : Memory} {data size : ULong} {touched : List Nat}

theorem Releases.unique {t₁ t₂ : List Nat} {m₁ m₂ : Memory} (h₁ : Releases o m data size t₁ m₁)
    (h₂ : Releases o m data size t₂ m₂) : t₁ = t₂ ∧ m₁ = m₂ := by
  cases h₁ with
  | nothing hnone =>
      cases h₂ with
      | nothing _ => exact ⟨rfl, rfl⟩
      | cleared hsome _ => exact absurd hnone hsome
  | cleared hsome hwhile =>
      cases h₂ with
      | nothing hnone => exact absurd hnone hsome
      | cleared _ hwhile' =>
          obtain ⟨rfl, rfl⟩ := hwhile.unique hwhile'
          exact ⟨rfl, rfl⟩

/-- The number of bits that are cleared. -/
def clearedBits (o : Offsets) (m : Memory) (data size : ULong) : Nat :=
  min (bitsOf size.toNat) ((sizeOfBitMap o m).toNat - (blockIndex o data).toNat)

theorem toNat_start_bits (h : ¬ (blockIndex o data ≥ sizeOfBitMap o m ∨ blockCount size = 0)) :
    (ClearBits.start o m data size).bits.toNat = clearedBits o m data size := by
  have hindex := blockIndex_lt o data
  have hcount := blockCount_lt size
  have hin : blockIndex o data < sizeOfBitMap o m := by
    rw [← BitVec.not_le]
    exact fun hge => h (.inl hge)
  rw [BitVec.lt_def] at hin
  have hsum : (blockIndex o data + blockCount size).toNat =
      (blockIndex o data).toNat + (blockCount size).toNat := by
    rw [BitVec.toNat_add]
    exact Nat.mod_eq_of_lt (by omega)
  have hsub : (sizeOfBitMap o m - blockIndex o data).toNat =
      (sizeOfBitMap o m).toNat - (blockIndex o data).toNat :=
    BitVec.toNat_sub_of_le (BitVec.le_def.mpr (by omega))
  rw [clearedBits, ← toNat_blockCount]
  show (if blockIndex o data + blockCount size > sizeOfBitMap o m then
    sizeOfBitMap o m - blockIndex o data else blockCount size).toNat = _
  split
  · next hmore =>
      rw [gt_iff_lt, BitVec.lt_def, hsum] at hmore
      omega
  · next hfits =>
      rw [gt_iff_lt, BitVec.lt_def, hsum] at hfits
      omega

theorem clearedBits_eq_zero (h : blockIndex o data ≥ sizeOfBitMap o m ∨ blockCount size = 0) :
    clearedBits o m data size = 0 := by
  rw [clearedBits]
  obtain hpast | hnone := h
  · have hpast := BitVec.le_def.mp hpast
    omega
  · have hbits : bitsOf size.toNat = 0 := by
      rw [← toNat_blockCount, hnone]
      rfl
    omega

/-- **A release ends**, and clears its bits. -/
theorem exists_releases (o : Offsets) (m : Memory) (data size : ULong) :
    ∃ touched m', Releases o m data size touched m' ∧
      (∀ i, m'.bit o.bitmap i = (m.bit o.bitmap i && !((blockIndex o data).toNat ≤ i &&
        i < (blockIndex o data).toNat + clearedBits o m data size))) ∧
      (∀ x, ¬ InBitmap o m x → m' x = m x) ∧ ∀ x ∈ touched, InBitmap o m x := by
  by_cases hnone : blockIndex o data ≥ sizeOfBitMap o m ∨ blockCount size = 0
  · refine ⟨[], m, .nothing hnone, fun i => ?_, fun x _ => rfl, List.forall_mem_nil _⟩
    rw [clearedBits_eq_zero hnone, bit_none]
  have hbits := toNat_start_bits hnone
  have hin : (blockIndex o data).toNat + clearedBits o m data size ≤ (sizeOfBitMap o m).toNat := by
    have hlt : ¬ sizeOfBitMap o m ≤ blockIndex o data := fun hge => hnone (.inl hge)
    rw [BitVec.le_def] at hlt
    rw [clearedBits]
    omega
  have hbegin : ClearBits.Cleared o.bitmap m (blockIndex o data).toNat (clearedBits o m data size)
      (ClearBits.start o m data size) := by
    refine ⟨?_, Nat.le_refl _, fun _ => ?_, fun i => ?_, fun x _ => rfl⟩
    · rw [hbits]
      rfl
    · show o.bitmap + (blockIndex o data / 8).toNat = _
      rw [BitVec.toNat_udiv]
      rfl
    · exact (bit_none _ i _).symm
  obtain ⟨visited, s', hwhile, hend, hlast, hvisited⟩ := ClearBits.exists_cleared hbegin
    (Nat.lt_of_le_of_lt hin (sizeOfBitMap o m).isLt)
  refine ⟨visited.map ClearBits.position, s'.memory, .cleared hnone hwhile, fun i => ?_, ?_, ?_⟩
  · rw [hend.bit, hlast]
  · intro x hx
    refine hend.outside x ?_
    unfold InBitmap at hx
    omega
  · intro x hx
    obtain ⟨s, hs, rfl⟩ := List.mem_map.mp hx
    have hposition := hvisited s hs
    unfold InBitmap
    omega

/-- A size that is rounded up past the end of the numbers is taken for none. -/
theorem releases_overflow (h : 2 ^ 32 ≤ size.toNat + 15) : Releases o m data size [] m := by
  refine .nothing (.inr (BitVec.eq_of_toNat_eq ?_))
  have hsize := size.isLt
  rw [toNat_blockCount, bitsOf_eq]
  show (size.toNat + 15) % 2 ^ 32 / 16 = 0
  omega

/-! ## What was reserved -/

/-- **What a reservation does**: its bits, which were clear, are set. -/
theorem reserveSpaceAt_cases {m₀ : Memory} {position : ULong} (ho : o.InOrder)
    (h : reserveSpaceAt o m₀ position size = some (data, m)) :
    data = BitVec.ofNat 32 o.buffer + position * 16 ∧
    position.toNat + bitsOf size.toNat ≤ (sizeOfBitMap o m₀).toNat ∧
    sizeOfBitMap o m = sizeOfBitMap o m₀ ∧
    (∀ b < bitsOf size.toNat, m₀.bit o.bitmap (position.toNat + b) = false) ∧
    ∀ i, m.bit o.bitmap i = (m₀.bit o.bitmap i ||
      (position.toNat ≤ i && i < position.toNat + bitsOf size.toNat)) := by
  unfold reserveSpaceAt at h
  rw [toNat_blockCount] at h
  obtain ⟨⟨-, hfits, hclear⟩, h⟩ := Option.ite_none_right_eq_some.mp h
  obtain ⟨rfl, rfl⟩ := Prod.mk.inj (Option.some.inj h)
  have hsize := ho.sizeOfBitMap
  have hhint := ho.hint
  refine ⟨rfl, hfits, ?_, hclear, fun i => ?_⟩
  · refine congrArg (BitVec.ofNat 32) (Memory.readULong_congr fun x _ hx => ?_)
    rw [Memory.writeULong_outside (by omega), Memory.setBits_outside (by omega)]
  · rw [← Memory.bit_setBits]
    exact Memory.bit_congr (Memory.writeULong_outside (by omega))

theorem blockIndex_reserved (o : Offsets) {position : ULong} (h : position.toNat < 2 ^ 28) :
    (blockIndex o (BitVec.ofNat 32 o.buffer + position * 16)).toNat = position.toNat := by
  have hmul : (position * 16).toNat = position.toNat * 16 := by
    rw [BitVec.toNat_mul]
    exact Nat.mod_eq_of_lt (by show position.toNat * 16 < _; omega)
  have hcancel : BitVec.ofNat 32 o.buffer + position * 16 - BitVec.ofNat 32 o.buffer =
      position * 16 := by
    bv_omega
  rw [blockIndex, hcancel, BitVec.toNat_udiv, hmul]
  exact Nat.mul_div_cancel _ (by decide)

theorem sizeOfBitMap_reserved {m₀ : Memory} {position : ULong} (ho : o.InOrder)
    (h : reserveSpaceAt o m₀ position size = some (data, m))
    (houtside : ∀ x, ¬ InBitmap o m x → m' x = m x) : sizeOfBitMap o m' = sizeOfBitMap o m₀ := by
  obtain ⟨-, -, hsame, -⟩ := reserveSpaceAt_cases ho h
  have hsize := ho.sizeOfBitMap
  have hhint := ho.hint
  rw [← hsame]
  refine congrArg (BitVec.ofNat 32) (Memory.readULong_congr fun x _ hx => houtside x ?_)
  unfold InBitmap
  omega

/-- The bits that are cleared are those that were set, and were clear before. -/
theorem bit_restored {m₀ : Memory} {position : ULong} (ho : o.InOrder)
    (hblocks : 16 * (sizeOfBitMap o m₀).toNat ≤ 2 ^ 32)
    (h : reserveSpaceAt o m₀ position size = some (data, m)) (i : Nat) :
    (m.bit o.bitmap i && !((blockIndex o data).toNat ≤ i &&
      i < (blockIndex o data).toNat + clearedBits o m data size)) = m₀.bit o.bitmap i := by
  obtain ⟨rfl, hfits, hsame, hclear, hset⟩ := reserveSpaceAt_cases ho h
  by_cases hzero : bitsOf size.toNat = 0
  · have hnone : clearedBits o m (BitVec.ofNat 32 o.buffer + position * 16) size = 0 := by
      rw [clearedBits, hzero, Nat.zero_min]
    have hfalse : (decide (position.toNat ≤ i) && decide (i < position.toNat + 0)) = false := by
      rw [← Bool.decide_and, decide_eq_false (by omega)]
    rw [hnone, bit_none, hset, hzero, hfalse, Bool.or_false]
  · have hindex := @blockIndex_reserved o position (by omega)
    have hall : clearedBits o m (BitVec.ofNat 32 o.buffer + position * 16) size =
        bitsOf size.toNat := by
      rw [clearedBits, hindex, hsame]
      omega
    rw [hindex, hall, hset]
    by_cases hin : position.toNat ≤ i ∧ i < position.toNat + bitsOf size.toNat
    · have hwas := hclear (i - position.toNat) (by omega)
      rw [Nat.add_sub_cancel' hin.1] at hwas
      rw [← Bool.decide_and, decide_eq_true hin, hwas]
      rfl
    · rw [← Bool.decide_and, decide_eq_false hin, Bool.or_false, Bool.not_false, Bool.and_true]

/-- **A release is exact.** -/
theorem release_exact (o : Offsets) (m : Memory) (data size : ULong)
    (hsize : size.toNat + 15 < 2 ^ 32) :
    ∃ touched m', (∀ t m'', Releases o m data size t m'' ↔ t = touched ∧ m'' = m') ∧
      Exact o m data size touched m' := by
  obtain ⟨touched, m', hreleases, hbit, houtside, htouched⟩ := exists_releases o m data size
  have hcount : bitsOf size.toNat = (size.toNat + 15) / 16 := by
    rw [bitsOf_eq, Nat.mod_eq_of_lt hsize]
  have hcleared : ∀ i, ((blockIndex o data).toNat ≤ i ∧
      i < (blockIndex o data).toNat + clearedBits o m data size) ↔
        InRange o data size i ∧ i < (sizeOfBitMap o m).toNat := by
    intro i
    unfold InRange clearedBits
    omega
  refine ⟨touched, m', fun t m'' => ?_, ?_, ?_, houtside, htouched, ?_⟩
  · constructor
    · exact fun h => h.unique hreleases
    · rintro ⟨rfl, rfl⟩
      exact hreleases
  · intro i hrange hin
    obtain ⟨hle, hlt⟩ := (hcleared i).mpr ⟨hrange, hin⟩
    rw [hbit]
    simp [hle, hlt]
  · intro i hnot
    have hfalse := decide_eq_false fun h => hnot ((hcleared i).mp h)
    rw [hbit, ← Bool.decide_and, hfalse, Bool.not_false, Bool.and_true]
  · intro m₀ position ho hblocks hreserve
    exact ⟨sizeOfBitMap_reserved ho hreserve houtside, fun i _ =>
      (hbit i).trans (bit_restored ho hblocks hreserve i)⟩

/-- Three bits of a byte, the next byte, and two bits of the one behind it. -/
theorem release_exact_kernel : (200 : ULong).toNat + 15 < 2 ^ 32 ∧ ∃ touched m',
    (∀ t m'', Releases kernel (initialiseBufferManager fun _ => 0) 4200 200 t m'' ↔
      t = touched ∧ m'' = m') ∧
    Exact kernel (initialiseBufferManager fun _ => 0) 4200 200 touched m' :=
  ⟨by decide, release_exact kernel (initialiseBufferManager fun _ => 0) 4200 200 (by decide)⟩

/-! ## The same on natural numbers -/

/-- The loop does what it does there. -/
theorem ClearBits.memory_eq_clearLoop {s s' : ClearBits} {visited : List ClearBits}
    (h : While (fun s => s.bits ≠ 0) ClearBits.round s visited s') : ∀ rounds,
    s.bits.toNat ≤ rounds → s.index.toNat + s.bits.toNat < 2 ^ 32 →
      s'.memory = clearLoop rounds s.memory s.position s.index.toNat s.bits.toNat := by
  induction h with
  | @done s hnone =>
      intro rounds _ _
      rw [Decidable.not_not.mp hnone]
      exact (clearLoop_zero ..).symm
  | @again s s' visited hbits _ ih =>
      intro rounds hrounds hfits
      have hpos := toNat_bits_ne hbits
      have hcount := s.toNat_count
      cases rounds with
      | zero => omega
      | succ rounds =>
          have hindex := s.toNat_round_index hfits
          have hless := s.toNat_round_bits
          have hsame : (if s.bits.toNat > 8 - s.index.toNat % 8 then 8 - s.index.toNat % 8
              else s.bits.toNat) = s.count.toNat := by
            rw [hcount]
            split <;> omega
          rw [ih rounds (by omega) (by omega), clearLoop, if_neg hpos, hindex, hless,
            s.round_memory]
          simp only [hsame]
          rfl

/-- **`bufferClearBits`** is what a release does. -/
theorem Releases.eq_bufferClearBits (ho : o.buffer ≤ 2 ^ 32)
    (h : Releases o m data size touched m') :
    m' = bufferClearBits o m data.toNat size.toNat := by
  have hnothing : (blockIndex o data ≥ sizeOfBitMap o m ∨ blockCount size = 0) ↔
      ((blockIndex o data).toNat ≥ (sizeOfBitMap o m).toNat ∨ (blockCount size).toNat = 0) := by
    rw [ge_iff_le, BitVec.le_def, ← BitVec.toNat_inj]
    rfl
  unfold bufferClearBits
  rw [← toNat_blockIndex ho, ← toNat_blockCount, ← toNat_sizeOfBitMap]
  cases h with
  | nothing hnone => exact (if_pos (hnothing.mp hnone)).symm
  | @cleared visited s hsome hwhile =>
      have hbits := toNat_start_bits hsome
      have hindex := blockIndex_lt o data
      have hcount := blockCount_lt size
      have hsame : (if (blockIndex o data).toNat + (blockCount size).toNat >
            (sizeOfBitMap o m).toNat then (sizeOfBitMap o m).toNat - (blockIndex o data).toNat
          else (blockCount size).toNat) = (ClearBits.start o m data size).bits.toNat := by
        rw [hbits, clearedBits, ← toNat_blockCount]
        rw [hnothing] at hsome
        split <;> omega
      have hfits : (blockIndex o data).toNat + (ClearBits.start o m data size).bits.toNat <
          2 ^ 32 := by
        rw [hbits, clearedBits, ← toNat_blockCount]
        omega
      rw [ClearBits.memory_eq_clearLoop hwhile _ (Nat.le_refl _) hfits]
      refine Eq.trans ?_ (if_neg (hnothing.not.mp hsome)).symm
      simp only [hsame]
      show clearLoop _ m (o.bitmap + (blockIndex o data / 8).toNat) _ _ = _
      rw [BitVec.toNat_udiv]
      rfl

theorem reserveSpaceAt_kernel (hblocks : m.readULong kernel.sizeOfBitMap = blocks)
    (position size : ULong) :
    (reserveSpaceAt kernel m position size).map Prod.snd =
      reserveSpace m position.toNat size.toNat := by
  have hsize : (sizeOfBitMap kernel m).toNat = blocks := by rw [toNat_sizeOfBitMap, hblocks]
  have hfound : position.toNat + bitsOf size.toNat ≤ blocks → position ≠ 0xFFFFFFFF := by
    rintro hfits rfl
    rw [blocks_eq] at hfits
    have hlarge : (0xFFFFFFFF : ULong).toNat = 4294967295 := rfl
    omega
  unfold reserveSpaceAt reserveSpace
  rw [toNat_blockCount, hsize]
  by_cases hfree : position.toNat + bitsOf size.toNat ≤ blocks ∧
      ∀ b < bitsOf size.toNat, m.bit kernel.bitmap (position.toNat + b) = false
  · rw [if_pos hfree, if_pos ⟨hfound hfree.1, hfree⟩]
    rfl
  · rw [if_neg hfree, if_neg fun h => hfree h.2]
    rfl

theorem kernel_inOrder : kernel.InOrder := by
  rw [kernel_eq]
  exact ⟨by decide, by decide⟩

/-- In the driver's own buffer, what was reserved is free again. -/
theorem kernel_restored {m₀ : Memory} {position : ULong}
    (hblocks : m₀.readULong kernel.sizeOfBitMap = blocks)
    (hreserve : reserveSpaceAt kernel m₀ position size = some (data, m))
    (hrelease : Releases kernel m data size touched m') (b : Nat) :
    m'.bit kernel.bitmap b = m₀.bit kernel.bitmap b := by
  obtain ⟨t, m'', hreleases, hbit, -, -⟩ := exists_releases kernel m data size
  obtain ⟨rfl, rfl⟩ := hrelease.unique hreleases
  have hsize : 16 * (sizeOfBitMap kernel m₀).toNat ≤ 2 ^ 32 := by
    rw [toNat_sizeOfBitMap, hblocks, blocks_eq]
    decide
  exact (hbit b).trans (bit_restored kernel_inOrder hsize hreserve b)

end Release

end CaptureHpc.Driver
