/-
# `Driver.EventBuffer` — the buffer of network events

The network driver and the client share a block of memory with a list of events
and a bitmap of the blocks that the events take up.  The driver reserves
blocks, the client gives them back, and each has its own declaration of the
structures.  The client's `Buffer` lacks the spin lock, so everything behind it
is four bytes further on for the driver, and the client clears the bits of
blocks that are 32 blocks before those it releases (`release_bit`).

`layouts_agree_iff` says that a run goes well just as long as nothing is
released, and `same_layout_agrees` that with one declaration every run does.
-/
import CaptureHpc.Lib.Layout
import CaptureHpc.Lib.Machine
import CaptureHpc.Lib.Memory
import Mathlib.Data.List.Pairwise
import Mathlib.Data.Nat.Find

namespace CaptureHpc.Driver

open CLayout

/-! ## The declarations -/

/-- Types of 32-bit programs. -/
def ulong (name : String) : Field := { name, size := 4, align := 4 }

def pointer (name : String) : Field := { name, size := 4, align := 4 }

def spinLock (name : String) : Field := { name, size := 4, align := 4 }

def bytes (name : String) (n : Nat) : Field := { name, size := n, align := 1 }

def ulongs (name : String) (n : Nat) : Field := { name, size := 4 * n, align := 4 }

def block : List Field := [bytes "data" 16]

def blockSize : Nat := structSize block

def bufferSize : Nat := 512 * 1024

/-- The macro without its parentheses is read from left to right. -/
def bufferBitmapSize : Nat := 512 * 1024 / (4 * blockSize * 8)

def rtlBitmap : List Field := [ulong "SizeOfBitMap", pointer "Buffer"]

def kernelBuffer : List Field :=
  [nested "bitmap" rtlBitmap, spinLock "bitmap_lock", ulong "bitmap_hint_index",
    ulongs "buffer_bitmap" bufferBitmapSize, bytes "buffer" bufferSize]

/-- The client's `Buffer`. -/
def clientBuffer : List Field :=
  [ulong "SizeOfBitMap", pointer "Buffer", ulong "bitmap_hint_index",
    ulongs "buffer_bitmap" bufferBitmapSize, bytes "buffer" bufferSize]

def dataContainer : List Field := [ulong "next", ulong "key", ulong "type", ulong "size", bytes "data" 0]

def event : List Field :=
  [ulong "next", ulong "previous", ulong "ready", ulong "head", ulong "tail"]

def eventList (buffer : List Field) : List Field :=
  [ulong "head", ulong "tail", nested "buffer" buffer]

/-- Where a declaration has the fields of the buffer, from the beginning of the list. -/
structure Offsets where
  sizeOfBitMap : Nat
  hint : Nat
  bitmap : Nat
  buffer : Nat
  deriving DecidableEq

def offsets (buffer : List Field) (sizeOfBitMap : Nat) : Offsets :=
  let start := offsetOf (eventList buffer) "buffer"
  { sizeOfBitMap := start + sizeOfBitMap
    hint := start + offsetOf buffer "bitmap_hint_index"
    bitmap := start + offsetOf buffer "buffer_bitmap"
    buffer := start + offsetOf buffer "buffer" }

def kernel : Offsets :=
  offsets kernelBuffer (offsetOf kernelBuffer "bitmap" + offsetOf rtlBitmap "SizeOfBitMap")

def client : Offsets := offsets clientBuffer (offsetOf clientBuffer "SizeOfBitMap")

theorem kernel_eq : kernel = { sizeOfBitMap := 8, hint := 20, bitmap := 24, buffer := 4120 } :=
  rfl

theorem client_eq : client = { sizeOfBitMap := 8, hint := 16, bitmap := 20, buffer := 4116 } :=
  rfl

/-! ## Reserving -/

/-- `BUFFER_BITMAP_SIZE * (sizeof(ULONG)*8)`. -/
def blocks : Nat := bufferBitmapSize * (4 * 8)

/-- `ALIGN_UP(size, Block) / BLOCK_SIZE`, with 32 bits. -/
def bitsOf (size : Nat) : Nat := (size + blockSize - 1) % 2 ^ 32 / blockSize * blockSize / blockSize

/-- What was reserved: the position that was found and the size that was asked for. -/
structure Allocation where
  position : Nat
  size : Nat
  deriving DecidableEq

/-- The offset of what was reserved. -/
def Allocation.address (a : Allocation) : Nat := kernel.buffer + a.position * blockSize

/-- The allocation covers a block. -/
def Allocation.Covers (a : Allocation) (b : Nat) : Prop :=
  a.position ≤ b ∧ b < a.position + bitsOf a.size

instance (a : Allocation) (b : Nat) : Decidable (a.Covers b) :=
  inferInstanceAs (Decidable (_ ∧ _))

/-- `InitialiseBufferManager`, on memory that was not initialised. -/
def initialiseBufferManager (m : Memory) : Memory :=
  let zero : Memory := m.write (offsetOf (eventList kernelBuffer) "buffer")
    (List.replicate (structSize kernelBuffer) 0)
  zero.writeULong kernel.sizeOfBitMap blocks

/-- `ReserveSpace`, when `RtlFindClearBitsAndSet` finds this position: the bits are clear, and are
set. -/
def reserveSpace (m : Memory) (position size : Nat) : Option Memory :=
  if position + bitsOf size ≤ blocks ∧
      ∀ b < bitsOf size, m.bit kernel.bitmap (position + b) = false then
    some ((m.setBits kernel.bitmap position (bitsOf size)).writeULong kernel.hint position)
  else none

/-! ## Releasing -/

/-- The mask in `BufferClearBits`, as an `int`. -/
def mask (shift count : Nat) : BitVec 32 := ~~~(~~~(0xFF#32 <<< count) <<< shift)

/-- The loop; each round clears a bit at least, so it has ended after `bits` rounds. -/
def clearLoop : Nat → Memory → Nat → Nat → Nat → Memory
  | 0, m, _, _, _ => m
  | rounds + 1, m, position, index, bits =>
      if bits = 0 then m
      else
        let shift := index % 8
        let count := if bits > 8 - shift then 8 - shift else bits
        clearLoop rounds
          (Function.update m position (((m position).setWidth 32 &&& mask shift count).setWidth 8))
          (position + 1) (index + count) (bits - count)

/-- `BufferClearBits`, by a program that has the buffer at these offsets.  `data` is an offset
too. -/
def bufferClearBits (o : Offsets) (m : Memory) (data size : Nat) : Memory :=
  let bitmapSize := m.readULong o.sizeOfBitMap
  let bits := bitsOf size
  let index := (data + 2 ^ 32 - o.buffer) % 2 ^ 32 / blockSize
  if index ≥ bitmapSize ∨ bits = 0 then m
  else
    let bits := if index + bits > bitmapSize then bitmapSize - index else bits
    clearLoop bits m (o.bitmap + index / 8) index bits

/-! ### The numbers -/

theorem blocks_eq : blocks = 32768 := rfl

theorem blockSize_eq : blockSize = 16 := rfl

theorem bitsOf_eq (size : Nat) : bitsOf size = (size + 15) % 2 ^ 32 / 16 := by
  rw [bitsOf, blockSize_eq, Nat.mul_div_cancel _ (by decide)]
  rfl

/-! ## What the loop clears -/

/-- The mask clears `count` bits from bit `shift` on. -/
theorem mask_bit {shift count j : Nat} (hj : j < 8) (hcount : shift + count ≤ 8) :
    (mask shift count).getLsbD j = !(shift ≤ j && j < shift + count) := by
  have hall : ∀ shift ≤ 8, ∀ count ≤ 8, shift + count ≤ 8 → ∀ j < 8,
      (mask shift count).getLsbD j = !(decide (shift ≤ j) && decide (j < shift + count)) := by
    decide +kernel
  exact hall shift (by omega) count (by omega) hcount j hj

/-- One round. -/
theorem bit_round (m : Memory) (base index count i : Nat) (hcount : index % 8 + count ≤ 8) :
    Memory.bit (Function.update m (base + index / 8)
      (((m (base + index / 8)).setWidth 32 &&& mask (index % 8) count).setWidth 8)) base i =
        (m.bit base i && !(index ≤ i && i < index + count)) := by
  unfold Memory.bit
  by_cases hbyte : base + i / 8 = base + index / 8
  · have hj : i % 8 < 8 := Nat.mod_lt _ (by decide)
    rw [hbyte, Function.update_self, BitVec.getLsbD_setWidth, BitVec.getLsbD_and,
      BitVec.getLsbD_setWidth, mask_bit hj hcount]
    have hsame : (decide (index % 8 ≤ i % 8) && decide (i % 8 < index % 8 + count)) =
        (decide (index ≤ i) && decide (i < index + count)) := by
      rw [Bool.eq_iff_iff]
      simp
      omega
    rw [hsame]
    have h32 : i % 8 < 32 := by omega
    simp [hj, h32]
  · rw [Function.update_of_ne hbyte]
    have hout : (decide (index ≤ i) && decide (i < index + count)) = false := by
      rw [Bool.eq_false_iff]
      simp
      omega
    rw [hout]
    simp

theorem clearLoop_zero (rounds : Nat) (m : Memory) (position index : Nat) :
    clearLoop rounds m position index 0 = m := by
  cases rounds <;> rfl

/-- The loop after one round that is not the last. -/
theorem clearLoop_more {rounds index bits : Nat} (m : Memory) (base : Nat)
    (hmore : 8 - index % 8 < bits) :
    clearLoop (rounds + 1) m (base + index / 8) index bits =
      clearLoop rounds (Function.update m (base + index / 8)
        (((m (base + index / 8)).setWidth 32 &&& mask (index % 8) (8 - index % 8)).setWidth 8))
        (base + (index + (8 - index % 8)) / 8) (index + (8 - index % 8)) (bits - (8 - index % 8)) := by
  have hposition : base + index / 8 + 1 = base + (index + (8 - index % 8)) / 8 := by omega
  rw [clearLoop, if_neg (by omega), hposition]
  simp only [if_pos hmore]

/-- The last round. -/
theorem clearLoop_last {rounds index bits : Nat} (m : Memory) (position : Nat) (hbits : bits ≠ 0)
    (hlast : ¬ 8 - index % 8 < bits) :
    clearLoop (rounds + 1) m position index bits = Function.update m position
      (((m position).setWidth 32 &&& mask (index % 8) bits).setWidth 8) := by
  rw [clearLoop, if_neg hbits]
  simp only [if_neg hlast, Nat.sub_self, clearLoop_zero]

theorem bit_none (b : Bool) (i index : Nat) :
    (b && !(decide (index ≤ i) && decide (i < index + 0))) = b := by
  have hnone : (decide (index ≤ i) && decide (i < index + 0)) = false := by
    rw [Bool.eq_false_iff]
    simp
  rw [hnone, Bool.not_false, Bool.and_true]

/-- **The loop** clears its bits, of a bitmap wherever it begins. -/
theorem bit_clearLoop (base i : Nat) : ∀ rounds m index bits, bits ≤ rounds →
    Memory.bit (clearLoop rounds m (base + index / 8) index bits) base i =
      (m.bit base i && !(index ≤ i && i < index + bits)) := by
  intro rounds
  induction rounds with
  | zero =>
      intro m index bits hbits
      obtain rfl : bits = 0 := by omega
      rw [clearLoop_zero, bit_none]
  | succ rounds ih =>
      intro m index bits hbits
      by_cases hzero : bits = 0
      · rw [hzero, clearLoop_zero, bit_none]
      by_cases hmore : 8 - index % 8 < bits
      · rw [clearLoop_more m base hmore, ih _ _ _ (by omega), bit_round m base index _ i (by omega),
          Bool.and_assoc]
        congr 1
        rw [Bool.eq_iff_iff]
        simp
        omega
      · rw [clearLoop_last m _ hzero hmore, bit_round m base index bits i (by omega)]

theorem clearLoop_outside (base x : Nat) : ∀ rounds m index bits,
    (x < base + index / 8 ∨ base + (index + bits + 7) / 8 ≤ x) →
      clearLoop rounds m (base + index / 8) index bits x = m x := by
  intro rounds
  induction rounds with
  | zero =>
      intro m index bits _
      rfl
  | succ rounds ih =>
      intro m index bits hx
      by_cases hzero : bits = 0
      · rw [hzero, clearLoop_zero]
      by_cases hmore : 8 - index % 8 < bits
      · rw [clearLoop_more m base hmore, ih _ _ _ (by omega), Function.update_of_ne (by omega)]
      · rw [clearLoop_last m _ hzero hmore, Function.update_of_ne (by omega)]

/-! ## What a release clears -/

/-- The buffer is `early` bytes earlier in a declaration, and the size of the bitmap where it is
for the driver. -/
structure Offsets.Earlier (o : Offsets) (early : Nat) : Prop where
  sizeOfBitMap : o.sizeOfBitMap = kernel.sizeOfBitMap
  bitmap : kernel.bitmap = o.bitmap + early
  buffer : kernel.buffer = o.buffer + early
  few : early ≤ 12

theorem client_earlier : client.Earlier 4 := by
  refine ⟨?_, ?_, ?_, by decide⟩
  · rw [client_eq, kernel_eq]
  · rw [client_eq, kernel_eq]
  · rw [client_eq, kernel_eq]

theorem kernel_earlier : kernel.Earlier 0 := ⟨rfl, rfl, rfl, by decide⟩

variable {o : Offsets} {early : Nat} {m m' : Memory} {a : Allocation}

/-- What is held of an allocation that was made. -/
def Allocation.Fits (a : Allocation) : Prop := a.position + bitsOf a.size ≤ blocks

/-- The index that is computed is the position. -/
theorem index_eq (ho : o.Earlier early) (hfits : a.Fits) :
    (a.address + 2 ^ 32 - o.buffer) % 2 ^ 32 / blockSize = a.position := by
  have hbuffer := ho.buffer
  have hfew := ho.few
  unfold Allocation.Fits at hfits
  rw [blocks_eq] at hfits
  rw [kernel_eq] at hbuffer
  have hbuffer : 4120 = o.buffer + early := hbuffer
  rw [Allocation.address, kernel_eq, blockSize_eq]
  show (4120 + a.position * 16 + 2 ^ 32 - o.buffer) % 2 ^ 32 / 16 = a.position
  omega

/-- **A release clears the bits of other blocks**: those that are as many bits before the blocks of
the allocation as the bitmap is earlier in the declaration of the program. -/
theorem release_bit (ho : o.Earlier early) (hfits : a.Fits)
    (hsize : m.readULong kernel.sizeOfBitMap = blocks) (b : Nat) :
    (bufferClearBits o m a.address a.size).bit kernel.bitmap b =
      (m.bit kernel.bitmap b && !decide (a.Covers (b + 8 * early))) := by
  unfold bufferClearBits
  rw [ho.sizeOfBitMap, hsize]
  by_cases hzero : bitsOf a.size = 0
  · have hnone : ¬ a.Covers (b + 8 * early) := by
      unfold Allocation.Covers
      omega
    simp [hzero, hnone]
  · have hfits' : a.position + bitsOf a.size ≤ blocks := hfits
    have hindex := index_eq ho hfits
    simp only [hindex]
    rw [if_neg (by omega), if_neg (by omega), ho.bitmap, Memory.bit_base, bit_clearLoop _ _ _ _ _ _ (Nat.le_refl _),
      Memory.bit_base]
    congr 2
    rw [Bool.eq_iff_iff]
    simp only [Bool.and_eq_true, decide_eq_true_eq]
    rfl

/-- What a release leaves alone. -/
theorem release_outside (ho : o.Earlier early) (hfits : a.Fits)
    (hsize : m.readULong kernel.sizeOfBitMap = blocks) {x : Nat}
    (hx : x < o.bitmap ∨ o.bitmap + blocks / 8 ≤ x) :
    bufferClearBits o m a.address a.size x = m x := by
  unfold bufferClearBits
  rw [ho.sizeOfBitMap, hsize]
  by_cases hzero : bitsOf a.size = 0
  · simp [hzero]
  · have hfits' : a.position + bitsOf a.size ≤ blocks := hfits
    have hindex := index_eq ho hfits
    simp only [hindex]
    rw [if_neg (by omega), if_neg (by omega)]
    refine clearLoop_outside _ _ _ _ _ _ ?_
    rw [blocks_eq] at hfits' hx
    omega

/-! ## Runs -/

/-- The shared memory and what is reserved in it, with the number of the event that it belongs to.
The first allocation of an event is the event. -/
structure BufferState where
  memory : Memory
  live : List (Nat × Allocation) := []
  /-- The number of the next event. -/
  events : Nat := 0

inductive BufferAction where
  /-- `CreateEvent`; the position that is found, if there is room. -/
  | createEvent (position : Option Nat)
  /-- `AddEventData` for an event. -/
  | addEventData (event size : Nat) (position : Option Nat)
  /-- The client releases the data of an event, and the event. -/
  | release (event : Nat)

namespace BufferState

/-- The allocations of an event. -/
def allocations (s : BufferState) (event : Nat) : List Allocation :=
  (s.live.filter fun entry => entry.1 = event).map Prod.snd

/-- Space for an event, where it was found. -/
def reserve (s : BufferState) (event size : Nat) : Option Nat → Option BufferState
  | none => some s
  | some position => do
      let memory ← reserveSpace s.memory position size
      return { s with memory, live := s.live ++ [(event, { position, size })] }

/-- The data of an event in the order of its list, and then the event. -/
def release (o : Offsets) (s : BufferState) (event : Nat) : BufferState :=
  let allocations := s.allocations event
  { s with
    memory := (allocations.tail ++ allocations.take 1).foldl
      (fun m a => bufferClearBits o m a.address a.size) s.memory
    live := s.live.filter fun entry => entry.1 ≠ event }

def next (o : Offsets) (s : BufferState) : BufferAction → Option BufferState
  | .createEvent position =>
      (s.reserve s.events (structSize event) position).map fun s => { s with events := s.events + 1 }
  | .addEventData event size position =>
      if s.allocations event = [] then none
      else s.reserve event ((structSize dataContainer + size) % 2 ^ 32) position
  | .release event => if s.allocations event = [] then none else some (s.release o event)

/-- The driver and a client that has the buffer at these offsets. -/
def machine (o : Offsets) : Machine BufferState BufferAction where
  init s := ∃ m, s = { memory := initialiseBufferManager m }
  next := next o

/-- The block is reserved. -/
def Reserved (s : BufferState) (b : Nat) : Prop := s.memory.bit kernel.bitmap b = true

/-- A block of an event. -/
def Covers (allocations : List Allocation) (b : Nat) : Prop := ∃ a ∈ allocations, a.Covers b

/-- No block belongs to two live allocations, and none stays reserved that belongs to none. -/
structure Clean (s : BufferState) : Prop where
  apart : s.live.Pairwise fun x y => ∀ b, ¬ (x.2.Covers b ∧ y.2.Covers b)
  reserved : ∀ b < blocks, s.Reserved b → Covers (s.live.map Prod.snd) b

/-- What a step is to do: a release clears the bits of the blocks of its event, and afterwards all
is clean. -/
structure Agreed (s : BufferState) (a : BufferAction) (s' : BufferState) : Prop where
  release : ∀ event, a = .release event → ∀ b < blocks,
    (s'.Reserved b ↔ s.Reserved b ∧ ¬ Covers (s.allocations event) b)
  clean : s'.Clean

/-! ### What the steps do to the bits -/

variable {s s' : BufferState}

theorem reserveSpace_cases {position size : Nat} (h : reserveSpace m position size = some m') :
    position + bitsOf size ≤ blocks ∧
    (∀ b < bitsOf size, m.bit kernel.bitmap (position + b) = false) ∧
    m' = (m.setBits kernel.bitmap position (bitsOf size)).writeULong kernel.hint position := by
  unfold reserveSpace at h
  split at h
  · rename_i hfree
    exact ⟨hfree.1, hfree.2, (Option.some.inj h).symm⟩
  · cases h

/-- Reserving sets the bits of the allocation, and leaves what is outside of the bitmap and the
hint. -/
theorem reserved_bits {position size : Nat} (h : reserveSpace m position size = some m') :
    (∀ b, m'.bit kernel.bitmap b =
      (m.bit kernel.bitmap b || decide (Allocation.Covers { position, size } b))) ∧
    ∀ x, x < kernel.hint ∨ kernel.bitmap + blocks / 8 ≤ x → m' x = m x := by
  obtain ⟨hfits, -, rfl⟩ := reserveSpace_cases h
  rw [blocks_eq] at hfits
  constructor
  · intro b
    have hbit : ((m.setBits kernel.bitmap position (bitsOf size)).writeULong kernel.hint
        position).bit kernel.bitmap b =
          (m.setBits kernel.bitmap position (bitsOf size)).bit kernel.bitmap b := by
      refine Memory.bit_congr (Memory.writeULong_outside ?_)
      rw [kernel_eq]
      show _ ∨ 20 + 4 ≤ 24 + b / 8
      omega
    rw [hbit, Memory.bit_setBits]
    congr 1
    rw [Bool.eq_iff_iff]
    simp only [Bool.and_eq_true, decide_eq_true_eq]
    rfl
  · intro x hx
    rw [kernel_eq, blocks_eq] at hx
    have hx : x < 20 ∨ 24 + 32768 / 8 ≤ x := hx
    rw [Memory.writeULong_outside, Memory.setBits_outside]
    · rw [kernel_eq]
      show x < 24 + position / 8 ∨ 24 + (position + bitsOf size + 7) / 8 ≤ x
      omega
    · rw [kernel_eq]
      show x < 20 ∨ 20 + 4 ≤ x
      omega

/-- All of a list is released. -/
theorem releaseAll_bits (ho : o.Earlier early) (allocations : List Allocation) : ∀ m : Memory,
    (∀ a ∈ allocations, a.Fits) → m.readULong kernel.sizeOfBitMap = blocks →
      let m' := allocations.foldl (fun m a => bufferClearBits o m a.address a.size) m
      m'.readULong kernel.sizeOfBitMap = blocks ∧
        ∀ b, m'.bit kernel.bitmap b = true ↔
          m.bit kernel.bitmap b = true ∧ ¬ Covers allocations (b + 8 * early) := by
  induction allocations with
  | nil =>
      intro m _ hsize
      exact ⟨hsize, fun b => ⟨fun h => ⟨h, fun ⟨_, ha, _⟩ => nomatch ha⟩, fun h => h.1⟩⟩
  | cons a allocations ih =>
      intro m hfits hsize
      have hfit := hfits a List.mem_cons_self
      have hsize' : (bufferClearBits o m a.address a.size).readULong kernel.sizeOfBitMap = blocks := by
        rw [← hsize]
        refine Memory.readULong_congr fun x _ hx => release_outside ho hfit hsize (.inl ?_)
        have hbitmap := ho.bitmap
        have hfew := ho.few
        rw [kernel_eq] at hbitmap hx
        have hbitmap : 24 = o.bitmap + early := hbitmap
        have hx : x < 8 + 4 := hx
        omega
      obtain ⟨hsizes, hbits⟩ := ih _ (fun a' ha' => hfits a' (List.mem_cons_of_mem _ ha')) hsize'
      refine ⟨hsizes, fun b => ?_⟩
      rw [List.foldl_cons, hbits, release_bit ho hfit hsize]
      have hcons : Covers (a :: allocations) (b + 8 * early) ↔
          a.Covers (b + 8 * early) ∨ Covers allocations (b + 8 * early) := List.exists_mem_cons_iff ..
      rw [hcons]
      simp only [Bool.and_eq_true, Bool.not_eq_true', decide_eq_false_iff_not]
      tauto

/-! ### The invariant -/

/-- All is clean, and what is live is reserved. -/
structure Kept (s : BufferState) : Prop where
  size : s.memory.readULong kernel.sizeOfBitMap = blocks
  fits : ∀ entry ∈ s.live, entry.2.Fits
  clean : s.Clean
  held : ∀ entry ∈ s.live, ∀ b, entry.2.Covers b → s.Reserved b
  some : ∀ event, s.allocations event ≠ [] → ∃ b, Covers (s.allocations event) b

theorem mem_allocations {event : Nat} {a : Allocation} :
    a ∈ s.allocations event ↔ (event, a) ∈ s.live := by
  unfold allocations
  rw [List.mem_map]
  constructor
  · rintro ⟨entry, hentry, rfl⟩
    obtain ⟨hmem, hevent⟩ := List.mem_filter.mp hentry
    have hevent : entry.1 = event := by simpa using hevent
    exact hevent ▸ hmem
  · intro hmem
    exact ⟨(event, a), List.mem_filter.mpr ⟨hmem, by simp⟩, rfl⟩

theorem allocations_reserve (memory : Memory) (event size position other : Nat) :
    allocations { s with memory, live := s.live ++ [(event, { position, size })] } other =
      s.allocations other ++ if event = other then [Allocation.mk position size] else [] := by
  unfold allocations
  rw [List.filter_append, List.map_append]
  by_cases hevent : event = other
  · simp [hevent]
  · simp [hevent]

/-- Reserving keeps the invariant, for an event that has blocks or gets some. -/
theorem Kept.reserve (hs : s.Kept) {event size : Nat} {position : Option Nat}
    (hblocks : s.allocations event ≠ [] ∨ 0 < bitsOf size)
    (h : s.reserve event size position = Option.some s') : s'.Kept := by
  cases position with
  | none =>
      obtain rfl := Option.some.inj h
      exact hs
  | some position =>
      obtain ⟨memory, hmemory, h⟩ := Option.bind_eq_some_iff.mp h
      obtain rfl := Option.some.inj h
      obtain ⟨hfits, hfree, -⟩ := reserveSpace_cases hmemory
      obtain ⟨hbits, houtside⟩ := reserved_bits hmemory
      have hreserved : ∀ b, memory.bit kernel.bitmap b = true ↔
          s.Reserved b ∨ Allocation.Covers { position, size } b := by
        intro b
        rw [hbits, Bool.or_eq_true, decide_eq_true_eq]
        rfl
      have hnew : ∀ b, Allocation.Covers { position, size } b → ¬ s.Reserved b := by
        intro b hb hreservedb
        obtain ⟨hle, hlt⟩ : position ≤ b ∧ b < position + bitsOf size := hb
        have hclear := hfree (b - position) (by omega)
        rw [Nat.add_sub_cancel' hle] at hclear
        exact absurd (hclear.symm.trans hreservedb) (by decide)
      constructor
      · rw [← hs.size]
        refine Memory.readULong_congr fun x _ hx => houtside x (.inl ?_)
        rw [kernel_eq] at hx ⊢
        have hx : x < 8 + 4 := hx
        show x < 20
        omega
      · intro entry hentry
        obtain hentry | hentry := List.mem_append.mp hentry
        · exact hs.fits entry hentry
        · obtain rfl := List.mem_singleton.mp hentry
          exact hfits
      · constructor
        · refine List.pairwise_append.mpr ⟨hs.clean.apart, List.pairwise_singleton .., ?_⟩
          intro x hx y hy b hboth
          obtain rfl := List.mem_singleton.mp hy
          exact hnew b hboth.2 (hs.held x hx b hboth.1)
        · intro b hb hreservedb
          show Covers ((s.live ++ _).map Prod.snd) b
          rw [List.map_append]
          obtain hold | hcovers := (hreserved b).mp hreservedb
          · obtain ⟨a, ha, hcovers⟩ := hs.clean.reserved b hb hold
            exact ⟨a, List.mem_append_left _ ha, hcovers⟩
          · exact ⟨_, List.mem_append_right _ (List.mem_singleton.mpr rfl), hcovers⟩
      · intro entry hentry b hcovers
        refine (hreserved b).mpr ?_
        obtain hentry | hentry := List.mem_append.mp hentry
        · exact .inl (hs.held entry hentry b hcovers)
        · obtain rfl := List.mem_singleton.mp hentry
          exact .inr hcovers
      · intro other hother
        rw [allocations_reserve] at hother ⊢
        by_cases hold : s.allocations other = []
        · by_cases hevent : event = other
          · subst hevent
            have hsize := hblocks.resolve_left (not_not_intro hold)
            rw [if_pos rfl]
            exact ⟨position, _, List.mem_append_right _ (List.mem_singleton.mpr rfl),
              Nat.le_refl _, Nat.lt_add_of_pos_right hsize⟩
          · rw [hold, if_neg hevent] at hother
            exact absurd rfl hother
        · obtain ⟨b, a, ha, hcovers⟩ := hs.some other hold
          exact ⟨b, a, List.mem_append_left _ ha, hcovers⟩

theorem release_list (event : Nat) (b : Nat) :
    Covers ((s.allocations event).tail ++ (s.allocations event).take 1) b ↔
      Covers (s.allocations event) b := by
  cases s.allocations event with
  | nil => exact Iff.rfl
  | cons a allocations =>
      simp [Covers, or_comm]

/-- What is reserved after a release. -/
theorem Kept.reserved_release (hs : s.Kept) (ho : o.Earlier early) (event b : Nat) :
    (s.release o event).Reserved b ↔
      s.Reserved b ∧ ¬ Covers (s.allocations event) (b + 8 * early) := by
  have hall := (releaseAll_bits ho ((s.allocations event).tail ++ (s.allocations event).take 1)
    s.memory (fun a ha => ?_) hs.size).2 b
  · rw [← release_list]
    exact hall
  · have hmem : a ∈ s.allocations event := by
      obtain ha | ha := List.mem_append.mp ha
      · exact List.mem_of_mem_tail ha
      · exact List.mem_of_mem_take ha
    exact hs.fits _ (mem_allocations.mp hmem)

/-- With the same declaration a release does what it is to do. -/
theorem Kept.release_agreed (hs : s.Kept) (ho : o.Earlier 0) (event : Nat) :
    (s.release o event).Kept ∧ s.Agreed (.release event) (s.release o event) := by
  have hreserved : ∀ b, (s.release o event).Reserved b ↔
      s.Reserved b ∧ ¬ Covers (s.allocations event) b := hs.reserved_release ho event
  have hlive : ∀ entry ∈ (s.release o event).live, entry ∈ s.live ∧ entry.1 ≠ event := by
    intro entry hentry
    obtain ⟨hmem, hne⟩ := List.mem_filter.mp hentry
    exact ⟨hmem, by simpa using hne⟩
  have hclean : (s.release o event).Clean := by
    refine ⟨hs.clean.apart.filter _, fun b hb hreservedb => ?_⟩
    obtain ⟨hold, hnot⟩ := (hreserved b).mp hreservedb
    obtain ⟨a, ha, hcovers⟩ := hs.clean.reserved b hb hold
    obtain ⟨entry, hentry, rfl⟩ := List.mem_map.mp ha
    refine ⟨entry.2, List.mem_map.mpr ⟨entry, List.mem_filter.mpr ⟨hentry, ?_⟩, rfl⟩, hcovers⟩
    have hne : entry.1 ≠ event := fun heq =>
      hnot ⟨entry.2, mem_allocations.mpr (heq ▸ hentry), hcovers⟩
    simpa using hne
  have hother : ∀ other, (s.release o event).allocations other =
      if other = event then [] else s.allocations other := by
    intro other
    unfold allocations BufferState.release
    rw [List.filter_filter]
    by_cases hsame : other = event
    · rw [if_pos hsame, List.map_eq_nil_iff, List.filter_eq_nil_iff]
      intro entry _
      simp [hsame]
    · rw [if_neg hsame]
      congr 1
      refine List.filter_congr fun entry _ => ?_
      have hboth : entry.1 = other → entry.1 ≠ event := fun h heq => hsame (h.symm.trans heq)
      simpa using hboth
  refine ⟨⟨?_, fun entry hentry => hs.fits entry (hlive entry hentry).1, hclean, ?_, ?_⟩, ?_, hclean⟩
  · exact (releaseAll_bits ho _ s.memory (fun a ha => by
      have hmem : a ∈ s.allocations event := by
        obtain ha | ha := List.mem_append.mp ha
        · exact List.mem_of_mem_tail ha
        · exact List.mem_of_mem_take ha
      exact hs.fits _ (mem_allocations.mp hmem)) hs.size).1
  · intro entry hentry b hcovers
    obtain ⟨hmem, hne⟩ := hlive entry hentry
    refine (hreserved b).mpr ⟨hs.held entry hmem b hcovers, fun ⟨a, ha, hown⟩ => ?_⟩
    have hsymm : Std.Symm fun x y : Nat × Allocation =>
        ∀ b, ¬ (x.2.Covers b ∧ y.2.Covers b) := ⟨fun _ _ h b hb => h b hb.symm⟩
    have hdiffer : entry ≠ (event, a) := fun heq => hne (congrArg Prod.fst heq)
    exact hs.clean.apart.forall hmem (mem_allocations.mp ha) hdiffer b ⟨hcovers, hown⟩
  · intro other hsome
    rw [hother] at hsome ⊢
    split_ifs at hsome ⊢ with hsame
    · exact absurd rfl hsome
    · exact hs.some other hsome
  · intro other hother b _
    obtain rfl := BufferAction.release.inj hother
    exact hreserved b

/-- With the buffer earlier, the last block of the event stays reserved. -/
theorem Kept.release_not_agreed (hs : s.Kept) (ho : o.Earlier early) (hearly : 0 < early)
    {event : Nat} (hevent : s.allocations event ≠ []) :
    ¬ s.Agreed (.release event) (s.release o event) := by
  intro hagreed
  -- the last block of the event
  obtain ⟨b, hb, hlast⟩ : ∃ b, Covers (s.allocations event) b ∧
      ∀ b', Covers (s.allocations event) b' → b' ≤ b := by
    classical
    have hbound : ∀ b', Covers (s.allocations event) b' → b' ≤ blocks := fun b' ⟨a, ha, hcovers⟩ =>
      Nat.le_of_lt (Nat.lt_of_lt_of_le hcovers.2 (hs.fits _ (mem_allocations.mp ha)))
    obtain ⟨b₀, hb₀⟩ := hs.some event hevent
    exact ⟨Nat.findGreatest (Covers (s.allocations event)) blocks,
      Nat.findGreatest_spec (hbound b₀ hb₀) hb₀,
      fun b' hb' => Nat.le_findGreatest (hbound b' hb') hb'⟩
  obtain ⟨a, ha, hcovers⟩ := hb
  have hin := mem_allocations.mp ha
  have hfits : a.position + bitsOf a.size ≤ blocks := hs.fits _ hin
  have hlt : b < blocks := Nat.lt_of_lt_of_le hcovers.2 hfits
  have hstays : (s.release o event).Reserved b := by
    refine (hs.reserved_release ho event b).mpr ⟨hs.held _ hin b hcovers, fun hmore => ?_⟩
    have hle := hlast _ hmore
    omega
  exact ((hagreed.release event rfl b hlt).mp hstays).2 ⟨a, ha, hcovers⟩

/-! ### Every run -/

/-- A step that reserves keeps the invariant and does what it is to do. -/
theorem Kept.next_agreed (hs : s.Kept) {a : BufferAction} (ha : ∀ event, a ≠ .release event)
    (h : s.next o a = Option.some s') : s'.Kept ∧ s.Agreed a s' := by
  have hkept : s'.Kept := by
    cases a with
    | createEvent position =>
        obtain ⟨s₁, hs₁, rfl⟩ := Option.map_eq_some_iff.mp h
        have hsize : 0 < bitsOf (structSize Driver.event) := Nat.le_of_ble_eq_true rfl
        have hkept := hs.reserve (.inr hsize) hs₁
        exact ⟨hkept.size, hkept.fits, ⟨hkept.clean.apart, hkept.clean.reserved⟩, hkept.held,
          hkept.some⟩
    | addEventData event size position =>
        rw [BufferState.next] at h
        split_ifs at h with hnone
        exact hs.reserve (.inl hnone) h
    | release event => exact absurd rfl (ha event)
  exact ⟨hkept, fun event hevent => absurd hevent (ha event), hkept.clean⟩

theorem kept_init (m : Memory) : Kept { memory := initialiseBufferManager m } := by
  have hzero : ∀ b < blocks, ¬ BufferState.Reserved { memory := initialiseBufferManager m } b := by
    intro b hb hreserved
    rw [blocks_eq] at hb
    have hsize : structSize kernelBuffer = 528400 := rfl
    have hstart : offsetOf (eventList kernelBuffer) "buffer" = 8 := rfl
    have hbyte : initialiseBufferManager m (kernel.bitmap + b / 8) = 0 := by
      unfold initialiseBufferManager
      rw [hsize, hstart, kernel_eq]
      have hbehind : 8 + 4 ≤ 24 + b / 8 := by omega
      rw [Memory.writeULong_outside (.inr hbehind)]
      show Memory.write m 8 (List.replicate 528400 0) (24 + b / 8) = 0
      have hin : 16 + b / 8 < (List.replicate 528400 (0 : BitVec 8)).length := by
        rw [List.length_replicate]
        omega
      have haddress : 24 + b / 8 = 8 + (16 + b / 8) := by omega
      rw [haddress, Memory.write_inside hin, List.getElem_replicate]
    have hbit : (initialiseBufferManager m (kernel.bitmap + b / 8)).getLsbD (b % 8) = true :=
      hreserved
    rw [hbyte] at hbit
    simp at hbit
  refine ⟨?_, nofun, ⟨List.Pairwise.nil, fun b hb h => absurd h (hzero b hb)⟩, nofun, ?_⟩
  · exact Memory.readULong_writeULong (by rw [blocks_eq]; decide)
  · intro event hevent
    exact absurd rfl hevent

/-- The machine with its steps. -/
def traced (o : Offsets) :
    Machine (BufferState × List (BufferState × BufferAction × BufferState)) BufferAction :=
  (machine o).recording [] fun steps s a s' => (s, a, s') :: steps

/-- **The two declarations.**  A run of the driver and its client goes well just if nothing is
released in it. -/
theorem layouts_agree_iff (m : Memory) (as : List BufferAction)
    (x : BufferState × List (BufferState × BufferAction × BufferState))
    (hrun : (traced client).run as ({ memory := initialiseBufferManager m }, []) = Option.some x) :
    (∀ step ∈ x.2, step.1.Agreed step.2.1 step.2.2) ↔
      ∀ a ∈ as, ∀ event, a ≠ .release event := by
  have hstep : ∀ (x : BufferState × List (BufferState × BufferAction × BufferState)) a x',
      ((∀ step ∈ x.2, step.1.Agreed step.2.1 step.2.2) → x.1.Kept) →
      (traced client).next x a = Option.some x' →
      ((∀ step ∈ x'.2, step.1.Agreed step.2.1 step.2.2) → x'.1.Kept) ∧
        ((∀ step ∈ x'.2, step.1.Agreed step.2.1 step.2.2) ↔
          (∀ step ∈ x.2, step.1.Agreed step.2.1 step.2.2) ∧ ∀ event, a ≠ .release event) := by
    intro x a x' hkept hnext
    obtain ⟨hs, htrace⟩ := Machine.of_recording_next hnext
    have hs : x.1.next client a = Option.some x'.1 := hs
    rw [htrace, List.forall_mem_cons]
    -- a release is not agreed
    have hnot : x.1.Kept → x.1.Agreed a x'.1 → ∀ event, a ≠ .release event := by
      rintro hx hagreed event rfl
      rw [BufferState.next] at hs
      split_ifs at hs with hnone
      obtain hs := Option.some.inj hs
      rw [← hs] at hagreed
      exact hx.release_not_agreed client_earlier (by decide) hnone hagreed
    refine ⟨fun hall => ?_, ⟨fun hall => ⟨hall.2, hnot (hkept hall.2) hall.1⟩, fun hall => ?_⟩⟩
    · exact ((hkept hall.2).next_agreed (hnot (hkept hall.2) hall.1) hs).1
    · exact ⟨((hkept hall.1).next_agreed hall.2 hs).2, hall.1⟩
  have hiff := Machine.run_meets_iff hstep (fun _ => kept_init m) hrun
  rw [hiff, Machine.meets_iff_forall hrun]
  simp

/-- An event with two data, and another event. -/
def reservations : List BufferAction :=
  [.createEvent (some 0), .addEventData 0 4 (some 2), .addEventData 0 16 (some 4),
    .createEvent (some 6)]

theorem reservations_agree :
    ∃ x, (traced client).run reservations
        ({ memory := initialiseBufferManager fun _ => 0 }, []) = Option.some x ∧
      x.2.length = 4 ∧ ∀ step ∈ x.2, step.1.Agreed step.2.1 step.2.2 := by
  have hrun : ((traced client).run reservations
      ({ memory := initialiseBufferManager fun _ => 0 }, [])).map (fun x => x.2.length) =
        Option.some 4 := by
    decide +kernel
  obtain ⟨x, hx, hlength⟩ := Option.map_eq_some_iff.mp hrun
  refine ⟨x, hx, hlength, (layouts_agree_iff _ _ x hx).mpr ?_⟩
  intro a ha event hrelease
  rw [hrelease] at ha
  simp [reservations] at ha

/-- An event is created and released, and its blocks stay reserved. -/
theorem released_stays_reserved :
    ¬ ∀ (m : Memory) (as : List BufferAction)
      (x : BufferState × List (BufferState × BufferAction × BufferState)),
      (traced client).run as ({ memory := initialiseBufferManager m }, []) = Option.some x →
        ∀ step ∈ x.2, step.1.Agreed step.2.1 step.2.2 := by
  intro hall
  have hrun : ((traced client).run [.createEvent (some 0), .release 0]
      ({ memory := initialiseBufferManager fun _ => 0 }, [])).map (fun x =>
        x.2.head?.map fun step => (step.2.2.memory.bit kernel.bitmap 0, step.2.2.live)) =
          Option.some (Option.some (true, [])) := by
    decide +kernel
  obtain ⟨x, hx, hhead⟩ := Option.map_eq_some_iff.mp hrun
  obtain ⟨step, hstep, hboth⟩ := Option.map_eq_some_iff.mp hhead
  obtain ⟨hreserved, hlive⟩ := Prod.mk.inj hboth
  have hclean := (hall _ _ x hx step (List.mem_of_mem_head? hstep)).clean
  obtain ⟨a, ha, -⟩ := hclean.reserved 0 (by rw [blocks_eq]; decide) hreserved
  rw [hlive] at ha
  cases ha

/-- With the driver's own declaration every run goes well. -/
theorem same_layout_agrees (m : Memory) (as : List BufferAction)
    (x : BufferState × List (BufferState × BufferAction × BufferState))
    (hrun : (traced kernel).run as ({ memory := initialiseBufferManager m }, []) = Option.some x) :
    ∀ step ∈ x.2, step.1.Agreed step.2.1 step.2.2 := by
  have hreachable : (traced kernel).Reachable Machine.AnyStep x :=
    Machine.reachable_of_run ⟨⟨m, rfl⟩, rfl⟩ hrun
  have hinv : x.1.Kept ∧ ∀ step ∈ x.2, step.1.Agreed step.2.1 step.2.2 := by
    refine hreachable.invariant (P := fun x => x.1.Kept ∧
      ∀ step ∈ x.2, step.1.Agreed step.2.1 step.2.2) ?_ ?_
    · rintro ⟨s, steps⟩ ⟨⟨m, hs⟩, hsteps⟩
      obtain rfl : s = _ := hs
      obtain rfl : steps = [] := hsteps
      exact ⟨kept_init m, nofun⟩
    · intro x a x' ⟨hkept, hall⟩ _ hnext
      obtain ⟨hs, htrace⟩ := Machine.of_recording_next hnext
      have hs : x.1.next kernel a = Option.some x'.1 := hs
      have hstep : x'.1.Kept ∧ x.1.Agreed a x'.1 := by
        by_cases hrelease : ∀ event, a ≠ .release event
        · exact hkept.next_agreed hrelease hs
        · obtain ⟨event, hevent⟩ := not_forall.mp hrelease
          obtain rfl := not_not.mp hevent
          rw [BufferState.next] at hs
          split_ifs at hs
          obtain hs := Option.some.inj hs
          rw [← hs]
          exact hkept.release_agreed kernel_earlier event
      rw [htrace, List.forall_mem_cons]
      exact ⟨hstep.1, hstep.2, hall⟩
  exact hinv.2

end BufferState

end CaptureHpc.Driver
