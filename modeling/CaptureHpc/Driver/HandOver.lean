/-
# `Driver.HandOver` — events from the driver to the client

With one declaration of the shared structures on both sides, the driver builds
events in the buffer and inserts them at the tail of a list, and the client
takes the event at the head, releases its data, moves the head on and releases
the event.  They share no lock.

The client does not touch the tail.  When it takes the last event the head is
0 and the tail goes on naming the event that was released, and an event that
the driver inserts after the client has read that there is no next one is lost.
`fifo_iff` says that a run keeps the list and hands over each event once and in
order just if the head is never moved on to 0.
-/
import CaptureHpc.Driver.EventBuffer
import CaptureHpc.Lib.Linked
import Mathlib.Data.List.Perm.Basic

namespace CaptureHpc.Driver

open CLayout BufferState

/-! ## The driver -/

/-- The offset of a block of the buffer. -/
def addressOf (position : Nat) : Nat := kernel.buffer + position * blockSize

/-- What is appended to an event. -/
structure Item where
  key : Nat
  type : Nat
  data : List (BitVec 8)
  deriving DecidableEq

/-- What C can pass: two numbers of 32 bits and a block of memory. -/
def Item.WellFormed (i : Item) : Prop :=
  i.key < 2 ^ 32 ∧ i.type < 2 ^ 32 ∧ i.data.length < 2 ^ 31

instance (i : Item) : Decidable i.WellFormed := inferInstanceAs (Decidable (_ ∧ _))

/-- `sizeof(DataContainer) + size`. -/
def containerSize (size : Nat) : Nat := (structSize dataContainer + size) % 2 ^ 32

/-- `CreateEvent`, at the position that is found. -/
def createEvent (m : Memory) (position : Nat) : Option Memory := do
  let m ← reserveSpace m position (structSize event)
  return m.write (addressOf position) (List.replicate (structSize event) 0)

/-- The new container of `AddEventData`. -/
def fillContainer (m : Memory) (container : Nat) (item : Item) : Memory :=
  let m := m.write container (List.replicate (structSize dataContainer) 0)
  let m := m.writeULong (container + offsetOf dataContainer "key") item.key
  let m := m.writeULong (container + offsetOf dataContainer "type") item.type
  let m := m.writeULong (container + offsetOf dataContainer "size") item.data.length
  m.write (container + offsetOf dataContainer "data") item.data

/-- A node is linked to the end of a list with a head and a tail. -/
def link (m : Memory) (head tail node : Nat) : Memory :=
  let m := if m.readULong head = 0 then m.writeULong head node else m
  if m.readULong tail ≠ 0 then m.writeULong (m.readULong tail) node else m

/-- `AddEventData` for the event at this offset. -/
def addEventData (m : Memory) (event : Nat) (item : Item) (position : Nat) : Option Memory := do
  let m ← reserveSpace m position (containerSize item.data.length)
  let m := fillContainer m (addressOf position) item
  let m := link m (event + offsetOf Driver.event "head") (event + offsetOf Driver.event "tail")
    (addressOf position)
  return m.writeULong (event + offsetOf Driver.event "tail") (addressOf position)

def listHead : Nat := offsetOf (eventList kernelBuffer) "head"

def listTail : Nat := offsetOf (eventList kernelBuffer) "tail"

/-- `InsertEvent`, up to the assignment to the tail. -/
def insertEvent (m : Memory) (event : Nat) : Memory :=
  let m := m.writeULong (event + offsetOf Driver.event "ready") 1
  let m := m.writeULong (event + offsetOf Driver.event "previous") (m.readULong listTail)
  link m listHead listTail event

/-! ## The client -/

/-- What the client reads of a container. -/
def readItem (m : Memory) (container : Nat) : Item where
  key := m.readULong (container + offsetOf dataContainer "key")
  type := m.readULong (container + offsetOf dataContainer "type")
  data := m.bytesAt (container + offsetOf dataContainer "data")
    (m.readULong (container + offsetOf dataContainer "size"))

/-- Where the client is in `processTcpEvents` or `processUdpEvents`. -/
inductive Phase where
  | idle
  /-- In the loop over the data. -/
  | data (kernelEvent dataOffset : Nat) (seen : List Item)
  /-- `kernel_event->next` has been read. -/
  | store (kernelEvent next : Nat) (seen : List Item)
  /-- The head has been moved on. -/
  | free (kernelEvent : Nat)

/-! ## Both -/

/-- An event in the buffer, with its containers. -/
structure KernelEvent where
  position : Nat
  items : List (Nat × Item) := []

structure HandOver where
  memory : Memory
  /-- The events that threads of the driver are building; each thread knows the address of its
  own. -/
  pending : List KernelEvent := []
  /-- The event of the thread that holds the lock of the list and has still to set the tail. -/
  inserting : Option Nat := none
  client : Phase := .idle
  /-- What was read of the events that were taken from the list. -/
  taken : List (List Item) := []
  /-- The event that the client is at, with the containers that it has not released; nobody reads
  this and what follows. -/
  hand : Option KernelEvent := none
  /-- The other events in the list. -/
  queue : List KernelEvent := []
  inserted : List (List Item) := []

inductive HandOverAction where
  | createEvent (position : Nat)
  | addEventData (thread : Nat) (item : Item) (position : Nat)
  | insertEvent (thread : Nat)
  /-- The driver sets the tail, which ends `InsertEvent`. -/
  | setTail
  | client

namespace HandOver

/-- One access of the client to the list, or one release. -/
def clientStep (s : HandOver) : Option HandOver :=
  match s.client with
  | .idle =>
      let head := s.memory.readULong listHead
      if head ≠ 0 then
        some { s with
          client := .data head (s.memory.readULong (head + offsetOf event "head")) []
          hand := s.queue.head?
          queue := s.queue.tail }
      else none
  | .data kernelEvent dataOffset seen =>
      if dataOffset ≠ 0 then
        let item := readItem s.memory dataOffset
        some { s with
          client := .data kernelEvent
            (s.memory.readULong (dataOffset + offsetOf dataContainer "next")) (seen ++ [item])
          memory := bufferClearBits kernel s.memory dataOffset (containerSize item.data.length)
          hand := s.hand.map fun e => { e with items := e.items.tail } }
      else
        some { s with
          client := .store kernelEvent
            (s.memory.readULong (kernelEvent + offsetOf event "next")) seen }
  | .store kernelEvent next seen =>
      some { s with
        client := .free kernelEvent
        memory := s.memory.writeULong listHead next
        taken := s.taken ++ [seen] }
  | .free kernelEvent =>
      some { s with
        client := .idle
        memory := bufferClearBits kernel s.memory kernelEvent (structSize event)
        hand := none }

def next (s : HandOver) : HandOverAction → Option HandOver
  | .createEvent position => do
      let memory ← createEvent s.memory position
      return { s with memory, pending := s.pending ++ [{ position }] }
  | .addEventData thread item position => do
      let e ← s.pending[thread]?
      let memory ← addEventData s.memory (addressOf e.position) item position
      if item.WellFormed then
        some { s with
          memory
          pending := { e with items := e.items ++ [(position, item)] } ::
            s.pending.eraseIdx thread }
      else none
  | .insertEvent thread => do
      let e ← s.pending[thread]?
      if s.inserting.isNone then
        some { s with
          memory := insertEvent s.memory (addressOf e.position)
          inserting := some (addressOf e.position)
          pending := s.pending.eraseIdx thread
          queue := s.queue ++ [e]
          inserted := s.inserted ++ [e.items.map Prod.snd] }
      else none
  | .setTail => do
      let event ← s.inserting
      return { s with memory := s.memory.writeULong listTail event, inserting := none }
  | .client => s.clientStep

def machine : Machine HandOver HandOverAction where
  init s := ∃ m : Memory, s = { memory := initialiseBufferManager m } ∧
    m.readULong listHead = 0 ∧ m.readULong listTail = 0
  next := next

/-! ## What is to hold -/

/-- The events of the list that have not been taken. -/
def listed (s : HandOver) : List KernelEvent :=
  match s.client with
  | .data _ _ _ | .store _ _ _ => s.hand.toList ++ s.queue
  | _ => s.queue

/-- The event that was taken and is to be released. -/
def unlisted (s : HandOver) : List KernelEvent :=
  match s.client with
  | .free _ => s.hand.toList
  | _ => []

def chain (s : HandOver) : List Nat := s.listed.map KernelEvent.position

/-- What there is to be read of the events that have not been taken. -/
def untaken (s : HandOver) : List (List Item) :=
  match s.client with
  | .data _ _ seen | .store _ _ seen =>
      s.hand.toList.map (fun e => seen ++ e.items.map Prod.snd) ++
        s.queue.map fun e => e.items.map Prod.snd
  | _ => s.queue.map fun e => e.items.map Prod.snd

/-- The event at this position names the next one. -/
def Names (m : Memory) (position next : Nat) : Prop :=
  m.readULong (addressOf position + offsetOf event "next") = next

/-- The head and the tail delimit the events that have not been taken; where the tail is still to be
set, it is to be set to the last of them. -/
structure Delimits (s : HandOver) : Prop where
  head : s.memory.readULong listHead = Linked.first addressOf s.chain
  tail : s.inserting.getD (s.memory.readULong listTail) = Linked.last addressOf s.chain
  links : Linked.Chain addressOf (Names s.memory) s.chain

/-- The list is in order, and the events that were taken are those that were inserted first, with all
that was appended to them. -/
structure Good (s : HandOver) : Prop where
  delimits : s.Delimits
  fifo : s.taken ++ s.untaken = s.inserted

/-- **The condition on a step**: the client does not move the head on to 0. -/
def FollowedOn (s : HandOver) : HandOverAction → Prop
  | .client => match s.client with
      | .store _ next _ => next ≠ 0
      | _ => True
  | _ => True

instance (s : HandOver) : ∀ a, Decidable (s.FollowedOn a)
  | .client =>
      match hclient : s.client with
      | .store _ next _ => decidable_of_iff (next ≠ 0) (by simp only [FollowedOn, hclient])
      | .idle => .isTrue (by simp only [FollowedOn, hclient])
      | .data _ _ _ => .isTrue (by simp only [FollowedOn, hclient])
      | .free _ => .isTrue (by simp only [FollowedOn, hclient])
  | .createEvent _ => .isTrue trivial
  | .addEventData _ _ _ => .isTrue trivial
  | .insertEvent _ => .isTrue trivial
  | .setTail => .isTrue trivial

/-! ## The buffer -/

/-- Two allocations have no block in common. -/
def Allocation.Apart (a b : Allocation) : Prop :=
  a.position + bitsOf a.size ≤ b.position ∨ b.position + bitsOf b.size ≤ a.position

def eventAt (position : Nat) : Allocation := { position, size := structSize event }

def containerAt (p : Nat × Item) : Allocation :=
  { position := p.1, size := containerSize p.2.data.length }

/-- The allocations of an event. -/
def allocations (e : KernelEvent) : List Allocation := eventAt e.position :: e.items.map containerAt

/-- An allocation of some bytes that has room for them. -/
def Allocation.Roomy (a : Allocation) : Prop := 0 < a.size ∧ a.size + 15 < 2 ^ 32

/-- What is live is reserved and apart. -/
structure Heap (m : Memory) (live : List Allocation) : Prop where
  size : m.readULong kernel.sizeOfBitMap = blocks
  fits : ∀ a ∈ live, a.Fits
  roomy : ∀ a ∈ live, Allocation.Roomy a
  apart : live.Pairwise Allocation.Apart
  reserved : ∀ a ∈ live, ∀ b, a.Covers b → m.bit kernel.bitmap b = true

variable {m m' : Memory} {live live' : List Allocation} {a b : Allocation}

theorem bitsOf_roomy (h : Allocation.Roomy a) : bitsOf a.size = (a.size + 15) / 16 := by
  have h := h.2
  rw [bitsOf_eq, Nat.mod_eq_of_lt h]

theorem Heap.perm (h : Heap m live) (hperm : live.Perm live') : Heap m live' where
  size := h.size
  fits a ha := h.fits a (hperm.mem_iff.mpr ha)
  roomy a ha := h.roomy a (hperm.mem_iff.mpr ha)
  apart := (hperm.pairwise_iff fun hab => Or.symm hab).mp h.apart
  reserved a ha := h.reserved a (hperm.mem_iff.mpr ha)

/-- What is written to the list and to the blocks does not concern the bitmap. -/
theorem Heap.congr (h : Heap m live) (hsame : ∀ x, 8 ≤ x → x < 4120 → m' x = m x) : Heap m' live where
  size := by
    rw [← h.size, kernel_eq]
    exact Memory.readULong_congr fun x hle hlt => hsame x hle (by
      have hlt : x < 8 + 4 := hlt
      omega)
  fits := h.fits
  roomy := h.roomy
  apart := h.apart
  reserved a ha b hcovers := by
    have hfits : a.position + bitsOf a.size ≤ blocks := h.fits a ha
    have hlt := hcovers.2
    rw [blocks_eq] at hfits
    rw [← h.reserved a ha b hcovers]
    refine Memory.bit_congr (hsame _ ?_ ?_)
    · rw [kernel_eq]
      show 8 ≤ 24 + b / 8
      omega
    · rw [kernel_eq]
      show 24 + b / 8 < 4120
      omega

/-- Only the bitmap and the hint have changed. -/
def BitmapOnly (m m' : Memory) : Prop := ∀ x, x < 8 ∨ 4120 ≤ x → m' x = m x

theorem Heap.reserve {position size : Nat} (h : Heap m live)
    (hroomy : Allocation.Roomy { position, size }) (hm : reserveSpace m position size = some m') :
    Heap m' ({ position, size } :: live) ∧ BitmapOnly m m' := by
  obtain ⟨hfits, hfree, -⟩ := reserveSpace_cases hm
  obtain ⟨hbits, houtside⟩ := reserved_bits hm
  rw [kernel_eq, blocks_eq] at houtside
  have houtside : ∀ x, x < 20 ∨ 24 + 32768 / 8 ≤ x → m' x = m x := houtside
  refine ⟨⟨?_, ?_, ?_, ?_, ?_⟩, fun x hx => houtside x (by omega)⟩
  · rw [← h.size, kernel_eq]
    exact Memory.readULong_congr fun x _ hx => houtside x (by
      have hx : x < 8 + 4 := hx
      omega)
  · exact List.forall_mem_cons.mpr ⟨hfits, h.fits⟩
  · exact List.forall_mem_cons.mpr ⟨hroomy, h.roomy⟩
  · refine List.pairwise_cons.mpr ⟨fun a ha => ?_, h.apart⟩
    by_contra hoverlap
    have hnew : bitsOf size = (size + 15) / 16 := bitsOf_roomy (a := { position, size }) hroomy
    have hold := bitsOf_roomy (h.roomy a ha)
    have hnew' : 0 < size := hroomy.1
    have hold' := (h.roomy a ha).1
    unfold Allocation.Apart at hoverlap
    have hoverlap : ¬ (position + bitsOf size ≤ a.position ∨
      a.position + bitsOf a.size ≤ position) := hoverlap
    -- the first block that both have is reserved and free
    have hreserved := h.reserved a ha (max position a.position) (by
      unfold Allocation.Covers
      omega)
    have hclear := hfree (max position a.position - position) (by omega)
    rw [Nat.add_sub_cancel' (Nat.le_max_left ..)] at hclear
    exact absurd (hclear.symm.trans hreserved) (by decide)
  · intro a ha b hcovers
    rw [hbits, Bool.or_eq_true, decide_eq_true_eq]
    obtain rfl | ha := List.mem_cons.mp ha
    · exact .inr hcovers
    · exact .inl (h.reserved a ha b hcovers)

theorem Heap.release (h : Heap m (a :: live)) :
    Heap (bufferClearBits kernel m a.address a.size) live ∧
      BitmapOnly m (bufferClearBits kernel m a.address a.size) := by
  have hfits := h.fits a List.mem_cons_self
  have houtside : ∀ x, x < 24 ∨ 4120 ≤ x → bufferClearBits kernel m a.address a.size x = m x := by
    intro x hx
    refine release_outside kernel_earlier hfits h.size ?_
    rw [kernel_eq, blocks_eq]
    show x < 24 ∨ 24 + 32768 / 8 ≤ x
    omega
  obtain ⟨hapart, hpairwise⟩ := List.pairwise_cons.mp h.apart
  refine ⟨⟨?_, ?_, ?_, hpairwise, ?_⟩, fun x hx => houtside x (by omega)⟩
  · rw [← h.size, kernel_eq]
    exact Memory.readULong_congr fun x _ hx => houtside x (by
      have hx : x < 8 + 4 := hx
      omega)
  · exact fun a' ha' => h.fits a' (List.mem_cons_of_mem _ ha')
  · exact fun a' ha' => h.roomy a' (List.mem_cons_of_mem _ ha')
  · intro a' ha' b hcovers
    rw [release_bit kernel_earlier hfits h.size, Bool.and_eq_true]
    refine ⟨h.reserved a' (List.mem_cons_of_mem _ ha') b hcovers, ?_⟩
    have hnot : ¬ a.Covers b := by
      intro hboth
      have hboth : a.position ≤ b ∧ b < a.position + bitsOf a.size := hboth
      have hcovers : a'.position ≤ b ∧ b < a'.position + bitsOf a'.size := hcovers
      have hapart : a.position + bitsOf a.size ≤ a'.position ∨
        a'.position + bitsOf a'.size ≤ a.position := hapart a' ha'
      omega
    simpa using hnot

/-! ## What is in the blocks -/

/-- The bytes of an allocation are the same. -/
def Untouched (m m' : Memory) (a : Allocation) : Prop :=
  ∀ x, a.address ≤ x → x < a.address + a.size → m' x = m x

theorem address_eq (a : Allocation) : a.address = 4120 + a.position * 16 := by
  rw [Allocation.address, kernel_eq, blockSize_eq]

theorem addressOf_eq (position : Nat) : addressOf position = 4120 + position * 16 := by
  rw [addressOf, kernel_eq, blockSize_eq]

theorem addressOf_ne_zero (position : Nat) : addressOf position ≠ 0 := by
  rw [addressOf_eq]
  omega

/-- The bytes of two allocations that are apart. -/
theorem address_apart (hapart : Allocation.Apart a b) (ha : Allocation.Roomy a)
    (hb : Allocation.Roomy b) :
    a.address + a.size ≤ b.address ∨ b.address + b.size ≤ a.address := by
  have hsizea := bitsOf_roomy ha
  have hsizeb := bitsOf_roomy hb
  have hapart : a.position + bitsOf a.size ≤ b.position ∨
    b.position + bitsOf b.size ≤ a.position := hapart
  rw [address_eq, address_eq]
  omega

/-- What is written in one allocation leaves one that is apart. -/
theorem untouched_of_apart (hapart : Allocation.Apart a b) (ha : Allocation.Roomy a)
    (hb : Allocation.Roomy b)
    (hm : ∀ x, 4120 ≤ x → x < a.address ∨ a.address + a.size ≤ x → m' x = m x) :
    Untouched m m' b := by
  intro x hle hlt
  have haddress := address_apart hapart ha hb
  have hb := address_eq b
  exact hm x (by omega) (by omega)

theorem BitmapOnly.untouched (h : BitmapOnly m m') (a : Allocation) : Untouched m m' a := by
  intro x hle _
  rw [address_eq] at hle
  exact h x (.inr (by omega))

/-- The container holds the item and names the next one. -/
def Contains (m : Memory) (p : Nat × Item) (next : Nat) : Prop :=
  m.readULong (addressOf p.1 + offsetOf dataContainer "next") = next ∧
    readItem m (addressOf p.1) = p.2

/-- The containers of an event, from the first to the last. -/
def Items (m : Memory) (items : List (Nat × Item)) : Prop :=
  Linked.Chain (fun p => addressOf p.1) (Contains m) items ∧ ∀ p ∈ items, p.2.WellFormed

/-- The event has its containers. -/
structure Body (m : Memory) (e : KernelEvent) : Prop where
  head : m.readULong (addressOf e.position + offsetOf event "head") =
    Linked.first (fun p => addressOf p.1) e.items
  tail : m.readULong (addressOf e.position + offsetOf event "tail") =
    Linked.last (fun p => addressOf p.1) e.items
  items : Items m e.items

theorem containerSize_eq {item : Item} (h : item.WellFormed) :
    containerSize item.data.length = 16 + item.data.length := by
  have hlength := h.2.2
  have hsize : structSize dataContainer = 16 := rfl
  rw [containerSize, hsize, Nat.mod_eq_of_lt (by omega)]

theorem eventSize : structSize event = 20 := rfl

section Offsets

theorem container_next : offsetOf dataContainer "next" = 0 := rfl
theorem container_key : offsetOf dataContainer "key" = 4 := rfl
theorem container_type : offsetOf dataContainer "type" = 8 := rfl
theorem container_size : offsetOf dataContainer "size" = 12 := rfl
theorem container_data : offsetOf dataContainer "data" = 16 := rfl
theorem event_next : offsetOf event "next" = 0 := rfl
theorem event_previous : offsetOf event "previous" = 4 := rfl
theorem event_ready : offsetOf event "ready" = 8 := rfl
theorem event_head : offsetOf event "head" = 12 := rfl
theorem event_tail : offsetOf event "tail" = 16 := rfl
theorem listHead_eq : listHead = 0 := rfl
theorem listTail_eq : listTail = 4 := rfl

end Offsets

/-! ### Frames -/

theorem Names.congr {position next : Nat} (h : Names m position next)
    (hsame : ∀ x, addressOf position ≤ x → x < addressOf position + 4 → m' x = m x) :
    Names m' position next := by
  unfold Names at h ⊢
  rw [event_next, Nat.add_zero] at h ⊢
  rw [← h]
  exact Memory.readULong_congr hsame

/-- What is read of a container is behind its first field. -/
theorem readItem_congr {container : Nat} {item : Item} (h : readItem m container = item)
    (hsame : ∀ x, container + 4 ≤ x → x < container + (16 + item.data.length) → m' x = m x) :
    readItem m' container = item := by
  have hfield : ∀ d, 4 ≤ d → d + 4 ≤ 16 →
      m'.readULong (container + d) = m.readULong (container + d) := by
    intro d hle hd
    exact Memory.readULong_congr fun x hle hlt => hsame x (by omega) (by omega)
  have hlength : m.readULong (container + 12) = item.data.length := by
    rw [← h, readItem, Memory.length_bytesAt, container_size]
  have hdata : m'.bytesAt (container + 16) item.data.length =
      m.bytesAt (container + 16) item.data.length :=
    Memory.bytesAt_congr fun x hle hlt => hsame x (by omega) (by omega)
  rw [← h]
  unfold readItem
  rw [container_key, container_type, container_size, container_data, hfield 4 (by omega) (by omega),
    hfield 8 (by omega) (by omega), hfield 12 (by omega) (by omega), hlength, hdata]

theorem Contains.congr {p : Nat × Item} {next : Nat} (h : Contains m p next)
    (hwf : p.2.WellFormed) (hsame : Untouched m m' (containerAt p)) : Contains m' p next := by
  obtain ⟨hnext, hitem⟩ := h
  have hsame : ∀ x, addressOf p.1 ≤ x → x < addressOf p.1 + (16 + p.2.data.length) → m' x = m x := by
    rw [← containerSize_eq hwf]
    exact hsame
  refine ⟨?_, readItem_congr hitem fun x hle hlt => hsame x (by omega) hlt⟩
  rw [← hnext, container_next]
  exact Memory.readULong_congr fun x hle hlt => hsame x hle (by omega)

theorem Items.congr {items : List (Nat × Item)} (h : Items m items)
    (hsame : ∀ p ∈ items, Untouched m m' (containerAt p)) : Items m' items :=
  ⟨h.1.mono fun p hp _ hc => hc.congr (h.2 p hp) (hsame p hp), h.2⟩

theorem Body.congr {e : KernelEvent} (h : Body m e)
    (hevent : ∀ x, addressOf e.position + 12 ≤ x → x < addressOf e.position + 20 → m' x = m x)
    (hitems : ∀ p ∈ e.items, Untouched m m' (containerAt p)) : Body m' e where
  head := by
    rw [← h.head, event_head]
    exact Memory.readULong_congr fun x hle hlt => hevent x hle (by omega)
  tail := by
    rw [← h.tail, event_tail]
    exact Memory.readULong_congr fun x hle hlt => hevent x (by omega) hlt
  items := h.items.congr hitems

/-- An event none of whose allocations has changed. -/
theorem Body.of_untouched {e : KernelEvent} (h : Body m e)
    (hsame : ∀ a ∈ allocations e, Untouched m m' a) : Body m' e := by
  have hevent := hsame (eventAt e.position) List.mem_cons_self
  refine h.congr (fun x hle hlt => hevent x ?_ ?_) fun p hp => ?_
  · show addressOf e.position ≤ x
    omega
  · show x < addressOf e.position + structSize event
    rw [eventSize]
    exact hlt
  · exact hsame _ (List.mem_cons_of_mem _ (List.mem_map.mpr ⟨p, hp, rfl⟩))

theorem Names.of_untouched {position next : Nat} (h : Names m position next)
    (hsame : Untouched m m' (eventAt position)) : Names m' position next := by
  refine h.congr fun x hle hlt => hsame x hle ?_
  show x < addressOf position + structSize event
  rw [eventSize]
  omega

/-! ### Filling a container -/

theorem fillContainer_outside {container : Nat} {item : Item} {x : Nat}
    (hx : x < container ∨ container + (16 + item.data.length) ≤ x) :
    fillContainer m container item x = m x := by
  unfold fillContainer
  have hsize : structSize dataContainer = 16 := rfl
  rw [container_key, container_type, container_size, container_data, hsize]
  rw [Memory.write_outside (by omega), Memory.writeULong_outside (by omega),
    Memory.writeULong_outside (by omega), Memory.writeULong_outside (by omega),
    Memory.write_outside (by rw [List.length_replicate]; omega)]

theorem fillContainer_contains {position : Nat} {item : Item} (hwf : item.WellFormed) :
    Contains (fillContainer m (addressOf position) item) (position, item) 0 := by
  obtain ⟨hkey, htype, hlength⟩ := hwf
  have hsize : structSize dataContainer = 16 := rfl
  unfold Contains readItem fillContainer
  rw [container_next, container_key, container_type, container_size, container_data, hsize]
  generalize addressOf position = c
  have hlengthRead : Memory.readULong (Memory.write (Memory.writeULong (Memory.writeULong
      (Memory.writeULong (Memory.write m c (List.replicate 16 0)) (c + 4) item.key) (c + 8) item.type)
      (c + 12) item.data.length) (c + 16) item.data) (c + 12) = item.data.length := by
    rw [Memory.readULong_write_other (by omega), Memory.readULong_writeULong (by omega)]
  constructor
  · rw [Memory.readULong_write_other (by omega), Memory.readULong_writeULong_other (by omega),
      Memory.readULong_writeULong_other (by omega), Memory.readULong_writeULong_other (by omega),
      Memory.readULong_zeros (by omega) (by omega)]
  · rw [hlengthRead, Memory.bytesAt_write, Memory.readULong_write_other (by omega),
      Memory.readULong_writeULong_other (by omega), Memory.readULong_writeULong_other (by omega),
      Memory.readULong_writeULong hkey, Memory.readULong_write_other (by omega),
      Memory.readULong_writeULong_other (by omega), Memory.readULong_writeULong htype]

/-! ### Linking a node -/

theorem Untouched.trans {m₁ m₂ m₃ : Memory} (h : Untouched m₁ m₂ a) (h' : Untouched m₂ m₃ a) :
    Untouched m₁ m₃ a :=
  fun x hle hlt => (h' x hle hlt).trans (h x hle hlt)

/-- A list with a head and a tail gets a node: the head names it, or the node that was the last
does. -/
theorem link_cases {α : Type} {address : α → Nat} {xs : List α} {head tail : Nat} (node : Nat)
    (hpos : ∀ x ∈ xs, address x ≠ 0) (happart : head + 4 ≤ tail)
    (hhead : m.readULong head = Linked.first address xs)
    (htail : m.readULong tail = Linked.last address xs) :
    (xs = [] ∧ link m head tail node = m.writeULong head node) ∨
      ∃ ys y, xs = ys ++ [y] ∧ link m head tail node = m.writeULong (address y) node := by
  obtain rfl | ⟨ys, y, rfl⟩ := xs.eq_nil_or_concat
  · have htail' : (m.writeULong head node).readULong tail = 0 := by
      rw [Memory.readULong_writeULong_other (.inr happart), htail]
      rfl
    have hhead : m.readULong head = 0 := hhead
    refine .inl ⟨rfl, ?_⟩
    unfold link
    rw [if_pos hhead]
    simp only [htail']
    exact if_neg (not_not_intro rfl)
  · rw [List.concat_eq_append] at hpos hhead htail
    have hne : m.readULong head ≠ 0 := by
      rw [hhead]
      exact fun h => by simpa using (Linked.first_eq_zero hpos).mp h
    rw [Linked.last_concat] at htail
    refine .inr ⟨ys, y, List.concat_eq_append, ?_⟩
    unfold link
    rw [if_neg hne]
    simp only [htail]
    exact if_pos (hpos y (by simp))

/-! ## The driver's steps -/

/-- The new allocation is apart from what is live, so writing to it leaves that alone. -/
theorem Heap.untouched (h : Heap m (a :: live)) (hb : b ∈ live) {m₁ m₂ : Memory}
    (hm : ∀ x, 4120 ≤ x → x < a.address ∨ a.address + a.size ≤ x → m₂ x = m₁ x) :
    Untouched m₁ m₂ b :=
  untouched_of_apart (List.rel_of_pairwise_cons h.apart hb) (h.roomy a List.mem_cons_self)
    (h.roomy b (List.mem_cons_of_mem _ hb)) hm

/-- `CreateEvent` makes an event without data and leaves everything else. -/
theorem createEvent_spec {position : Nat} (h : Heap m live)
    (hm : createEvent m position = some m') :
    Heap m' (allocations { position } ++ live) ∧ Body m' { position } ∧ Names m' position 0 ∧
      (∀ x < 8, m' x = m x) ∧ ∀ a ∈ live, Untouched m m' a := by
  obtain ⟨m₁, hm₁, hm'⟩ := Option.bind_eq_some_iff.mp hm
  have hm' : m' = m₁.write (addressOf position) (List.replicate (structSize event) 0) :=
    (Option.some.inj hm').symm
  have hroomy : Allocation.Roomy (eventAt position) := by
    unfold Allocation.Roomy eventAt
    rw [eventSize]
    show 0 < 20 ∧ 20 + 15 < 2 ^ 32
    decide
  obtain ⟨hheap, honly⟩ := h.reserve hroomy hm₁
  rw [eventSize] at hm'
  have haddress := addressOf_eq position
  have houtside : ∀ x, x < addressOf position ∨ addressOf position + 20 ≤ x → m' x = m₁ x := by
    intro x hx
    rw [hm']
    exact Memory.write_outside (by rw [List.length_replicate]; exact hx)
  have hzero : ∀ d, d + 4 ≤ 20 → m'.readULong (addressOf position + d) = 0 := by
    intro d hd
    rw [hm']
    exact Memory.readULong_zeros (by omega) (by omega)
  refine ⟨hheap.congr fun x _ hx => houtside x (.inl (by omega)), ?_, ?_, ?_, ?_⟩
  · refine ⟨?_, ?_, trivial, nofun⟩
    · rw [event_head]
      exact hzero 12 (by omega)
    · rw [event_tail]
      exact hzero 16 (by omega)
  · unfold Names
    rw [event_next]
    exact hzero 0 (by omega)
  · intro x hx
    rw [houtside x (.inl (by omega)), honly x (.inl hx)]
  · intro a ha
    refine (honly.untouched a).trans (hheap.untouched ha fun x _ hx => houtside x ?_)
    have hx : x < addressOf position ∨ addressOf position + structSize event ≤ x := hx
    rwa [eventSize] at hx

/-- What is written where `AddEventData` links its container. -/
def LinkWrites (e : KernelEvent) (m m' : Memory) : Prop :=
  ∀ x, x < addressOf e.position + 12 ∨ addressOf e.position + 20 ≤ x →
    (∀ l, e.items.getLast? = some l → x < addressOf l.1 ∨ addressOf l.1 + 4 ≤ x) → m' x = m x

theorem address_eventAt (position : Nat) : (eventAt position).address = addressOf position := rfl

theorem address_containerAt (p : Nat × Item) : (containerAt p).address = addressOf p.1 := rfl

theorem size_eventAt (position : Nat) : (eventAt position).size = 20 := eventSize

theorem roomy_eventAt (position : Nat) : Allocation.Roomy (eventAt position) := by
  unfold Allocation.Roomy
  rw [size_eventAt]
  decide

theorem roomy_containerAt {p : Nat × Item} (hwf : p.2.WellFormed) :
    Allocation.Roomy (containerAt p) := by
  unfold Allocation.Roomy containerAt
  have hlength := hwf.2.2
  show 0 < containerSize p.2.data.length ∧ containerSize p.2.data.length + 15 < 2 ^ 32
  rw [containerSize_eq hwf]
  omega

theorem size_containerAt {p : Nat × Item} (hwf : p.2.WellFormed) : 4 ≤ (containerAt p).size := by
  show 4 ≤ containerSize p.2.data.length
  rw [containerSize_eq hwf]
  omega

/-- An allocation apart from the event and its containers. -/
theorem LinkWrites.untouched {e : KernelEvent} (h : LinkWrites e m m') (hb : Allocation.Roomy b)
    (hevent : Allocation.Apart (eventAt e.position) b)
    (hroomy : Allocation.Roomy (eventAt e.position))
    (hitems : ∀ l, e.items.getLast? = some l → l.2.WellFormed ∧ Allocation.Apart (containerAt l) b) :
    Untouched m m' b := by
  intro x hle hlt
  refine h x ?_ fun l hl => ?_
  · have hout := address_apart hevent hroomy hb
    rw [address_eventAt, size_eventAt] at hout
    omega
  · obtain ⟨hwf, hapart⟩ := hitems l hl
    have hout := address_apart hapart (roomy_containerAt hwf) hb
    have hsize := size_containerAt hwf
    rw [address_containerAt] at hout
    omega

/-- Linking a container that has been filled. -/
theorem linkContainer_writes {e : KernelEvent} (container : Nat) (hbody : Body m e) :
    let m' := (link m (addressOf e.position + offsetOf event "head")
      (addressOf e.position + offsetOf event "tail") container).writeULong
        (addressOf e.position + offsetOf event "tail") container
    LinkWrites e m m' ∧
      (e.items = [] → m' = (m.writeULong (addressOf e.position + 12) container).writeULong
        (addressOf e.position + 16) container) ∧
      ∀ l, e.items.getLast? = some l → m' = (m.writeULong (addressOf l.1) container).writeULong
        (addressOf e.position + 16) container := by
  have hpos : ∀ p ∈ e.items, addressOf p.1 ≠ 0 := fun p _ => addressOf_ne_zero p.1
  have hhead := hbody.head
  have htail := hbody.tail
  rw [event_head] at hhead ⊢
  rw [event_tail] at htail ⊢
  obtain ⟨hnil, hlink⟩ | ⟨ys, y, hitems, hlink⟩ :=
    link_cases container hpos (by omega) hhead htail
  · rw [hlink]
    refine ⟨fun x hx _ => ?_, fun _ => rfl, fun l hl => ?_⟩
    · rw [Memory.writeULong_outside (by omega), Memory.writeULong_outside (by omega)]
    · rw [hnil] at hl
      cases hl
  · have hlast : e.items.getLast? = some y := by rw [hitems, List.getLast?_concat]
    rw [hlink]
    refine ⟨fun x hx hout => ?_, fun hnil => ?_, fun l hl => ?_⟩
    · have hout := hout y hlast
      rw [Memory.writeULong_outside (by omega), Memory.writeULong_outside (by omega)]
    · rw [hnil] at hitems
      simp at hitems
    · obtain rfl := Option.some.inj (hlast.symm.trans hl)
      rfl

/-- `AddEventData` appends its item to the event and leaves everything else, and the bitmap as the
reservation leaves it. -/
theorem addEventData_full {e : KernelEvent} {item : Item} {position : Nat}
    (h : Heap m (allocations e ++ live)) (hwf : item.WellFormed) (hbody : Body m e)
    (hnames : Names m e.position 0)
    (hm : addEventData m (addressOf e.position) item position = some m') :
    (∃ m₁, reserveSpace m position (containerSize item.data.length) = some m₁ ∧
        ∀ x < 4120, m' x = m₁ x) ∧
      Heap m' (allocations { e with items := e.items ++ [(position, item)] } ++ live) ∧
      Body m' { e with items := e.items ++ [(position, item)] } ∧ Names m' e.position 0 ∧
      (∀ x < 8, m' x = m x) ∧ ∀ a ∈ live, Untouched m m' a := by
  obtain ⟨m₁, hm₁, hm'⟩ := Option.bind_eq_some_iff.mp hm
  have hm' := (Option.some.inj hm').symm
  have hnew : Allocation.Roomy (containerAt (position, item)) := roomy_containerAt hwf
  obtain ⟨heap, honly⟩ := h.reserve hnew hm₁
  have heap : Heap m₁ (containerAt (position, item) :: (allocations e ++ live)) := heap
  -- the container is filled
  have hfill : ∀ x, x < addressOf position ∨ addressOf position + (containerAt (position, item)).size ≤ x →
      fillContainer m₁ (addressOf position) item x = m₁ x := by
    intro x hx
    refine fillContainer_outside ?_
    have hsize : (containerAt (position, item)).size = 16 + item.data.length := containerSize_eq hwf
    rwa [hsize] at hx
  have hfilled : ∀ a ∈ allocations e ++ live,
      Untouched m (fillContainer m₁ (addressOf position) item) a := by
    intro a ha
    exact (honly.untouched a).trans (heap.untouched ha fun x _ hx => hfill x hx)
  have hcontains : Contains (fillContainer m₁ (addressOf position) item) (position, item) 0 :=
    fillContainer_contains hwf
  have hfilledBody : Body (fillContainer m₁ (addressOf position) item) e :=
    hbody.of_untouched fun a ha => hfilled a (List.mem_append_left _ ha)
  -- it is linked
  obtain ⟨hwrites, hnil, hlast⟩ := linkContainer_writes (addressOf position) hfilledBody
  rw [← hm'] at hwrites hnil hlast
  -- which allocations are apart
  obtain ⟨hnewApart, hpair⟩ := List.pairwise_cons.mp heap.apart
  obtain ⟨heventApart, hpair⟩ := List.pairwise_cons.mp hpair
  obtain ⟨hpairItems, -, hcross⟩ := List.pairwise_append.mp hpair
  have hevent : Allocation.Roomy (eventAt e.position) := roomy_eventAt e.position
  have hwell : ∀ p ∈ e.items, p.2.WellFormed := hbody.items.2
  have hcontainer : ∀ p ∈ e.items, containerAt p ∈ e.items.map containerAt :=
    fun p hp => List.mem_map_of_mem hp
  have hlastIn : ∀ l, e.items.getLast? = some l → l ∈ e.items := fun l => List.mem_of_getLast?
  have hposition : addressOf position < 2 ^ 32 := by
    have hfits : position + bitsOf (containerAt (position, item)).size ≤ blocks :=
      heap.fits _ List.mem_cons_self
    rw [blocks_eq] at hfits
    rw [addressOf_eq]
    omega
  have hnewUntouched : Untouched (fillContainer m₁ (addressOf position) item) m'
      (containerAt (position, item)) := by
    refine hwrites.untouched hnew (Or.symm (hnewApart _ List.mem_cons_self)) hevent fun l hl => ?_
    have hin := hlastIn l hl
    exact ⟨hwell l hin, Or.symm (hnewApart _ (List.mem_append_left _
      (List.mem_cons_of_mem _ (hcontainer l hin))))⟩
  have hlow : ∀ x < 4120, m' x = m₁ x := by
    intro x hx
    have hA := addressOf_eq e.position
    rw [hwrites x (by omega) fun l _ => by
      have hl := addressOf_eq l.1
      omega]
    have hC := addressOf_eq position
    have haddress := address_containerAt (position, item)
    exact hfill x (.inl (by omega))
  have hlastOut : ∀ l, e.items.getLast? = some l →
      addressOf e.position + 20 ≤ addressOf l.1 ∨
        addressOf l.1 + (16 + l.2.data.length) ≤ addressOf e.position := by
    intro l hl
    have hin := hlastIn l hl
    have hout := address_apart (heventApart _ (List.mem_append_left _ (hcontainer l hin))) hevent
      (roomy_containerAt (hwell l hin))
    rw [address_eventAt, size_eventAt, address_containerAt] at hout
    have hsize : (containerAt l).size = 16 + l.2.data.length := containerSize_eq (hwell l hin)
    omega
  refine ⟨⟨m₁, hm₁, hlow⟩, ?_, ⟨?_, ?_, ?_, ?_⟩, ?_, ?_, ?_⟩
  · refine (heap.congr fun x _ hx => hlow x hx).perm ?_
    have hlist : allocations { e with items := e.items ++ [(position, item)] } ++ live =
        eventAt e.position :: (e.items.map containerAt ++ containerAt (position, item) :: live) := by
      simp [allocations]
    rw [hlist]
    exact (List.Perm.swap _ _ _).trans (List.perm_middle.symm.cons _)
  · show m'.readULong (addressOf e.position + offsetOf event "head") = _
    rw [event_head]
    obtain hempty | ⟨ys, l, hcat⟩ := e.items.eq_nil_or_concat
    · rw [hempty, hnil hempty, Memory.readULong_writeULong_other (by omega),
        Memory.readULong_writeULong hposition]
      rfl
    · rw [List.concat_eq_append] at hcat
      have hl : e.items.getLast? = some l := by rw [hcat, List.getLast?_concat]
      have hne : e.items ≠ [] := by
        rw [hcat]
        simp
      have hout := hlastOut l hl
      rw [Linked.first_append, if_neg hne, ← hfilledBody.head, event_head, hlast l hl,
        Memory.readULong_writeULong_other (by omega), Memory.readULong_writeULong_other (by omega)]
  · show m'.readULong (addressOf e.position + offsetOf event "tail") = _
    rw [event_tail, Linked.last_concat]
    obtain hempty | ⟨ys, l, hcat⟩ := e.items.eq_nil_or_concat
    · rw [hnil hempty, Memory.readULong_writeULong hposition]
    · rw [hlast l (by rw [hcat, List.concat_eq_append, List.getLast?_concat]),
        Memory.readULong_writeULong hposition]
  · refine hfilledBody.items.1.concat ?_ ?_ (hcontains.congr hwf hnewUntouched)
    · intro p hp n hcontainsp
      have hin := List.dropLast_subset _ hp
      refine hcontainsp.congr (hwell p hin) (hwrites.untouched (roomy_containerAt (hwell p hin))
        (heventApart _ (List.mem_append_left _ (hcontainer p hin))) hevent fun l hl => ?_)
      refine ⟨hwell l (hlastIn l hl), ?_⟩
      -- the container is before the last
      obtain ⟨ys, hcat⟩ := List.getLast?_eq_some_iff.mp hl
      rw [hcat, List.dropLast_concat] at hp
      rw [hcat, List.map_append, List.pairwise_append] at hpairItems
      exact Or.symm (hpairItems.2.2 _ (List.mem_map_of_mem hp) _ List.mem_cons_self)
    · intro l hl hcontainsl
      have hout := hlastOut l hl
      refine ⟨?_, readItem_congr hcontainsl.2 fun x hle hlt => ?_⟩
      · rw [container_next, Nat.add_zero, hlast l hl,
          Memory.readULong_writeULong_other (by omega), Memory.readULong_writeULong hposition]
      · rw [hlast l hl, Memory.writeULong_outside (by omega), Memory.writeULong_outside (by omega)]
  · intro p hp
    obtain hp | hp := List.mem_append.mp hp
    · exact hwell p hp
    · rw [List.mem_singleton.mp hp]
      exact hwf
  · refine (hnames.of_untouched (hfilled _ (List.mem_append_left _ List.mem_cons_self))).congr ?_
    intro x hle hlt
    refine hwrites x (.inl (by omega)) fun l hl => ?_
    have hout := hlastOut l hl
    omega
  · intro x hx
    rw [hlow x (by omega), honly x (.inl hx)]
  · intro a ha
    refine (hfilled a (List.mem_append_right _ ha)).trans
      (hwrites.untouched (h.roomy a (List.mem_append_right _ ha)) (heventApart a (List.mem_append_right _ ha)) hevent fun l hl => ?_)
    have hin := hlastIn l hl
    exact ⟨hwell l hin, hcross _ (hcontainer l hin) a ha⟩

/-- `AddEventData` appends its item to the event and leaves everything else. -/
theorem addEventData_spec {e : KernelEvent} {item : Item} {position : Nat}
    (h : Heap m (allocations e ++ live)) (hwf : item.WellFormed) (hbody : Body m e)
    (hnames : Names m e.position 0)
    (hm : addEventData m (addressOf e.position) item position = some m') :
    Heap m' (allocations { e with items := e.items ++ [(position, item)] } ++ live) ∧
      Body m' { e with items := e.items ++ [(position, item)] } ∧ Names m' e.position 0 ∧
      (∀ x < 8, m' x = m x) ∧ ∀ a ∈ live, Untouched m m' a :=
  (addEventData_full h hwf hbody hnames hm).2

/-- The allocations of two events. -/
def EventsApart (e e' : KernelEvent) : Prop :=
  ∀ a ∈ allocations e, ∀ b ∈ allocations e', Allocation.Apart a b

instance : Std.Symm EventsApart where
  symm _ _ h a ha b hb := Or.symm (h b hb a ha)

theorem Heap.events_apart {es : List KernelEvent} (h : Heap m (es.flatMap allocations)) :
    es.Pairwise EventsApart :=
  (List.pairwise_flatMap.mp h.apart).2

theorem Heap.containers_apart {es : List KernelEvent} (h : Heap m (es.flatMap allocations))
    {e : KernelEvent} (he : e ∈ es) {p : Nat × Item} (hp : p ∈ e.items) :
    Allocation.Apart (eventAt e.position) (containerAt p) :=
  List.rel_of_pairwise_cons ((List.pairwise_flatMap.mp h.apart).1 e he) (List.mem_map_of_mem hp)

theorem EventsApart.address {e e' : KernelEvent} (h : EventsApart e e') :
    addressOf e.position + 20 ≤ addressOf e'.position ∨
      addressOf e'.position + 20 ≤ addressOf e.position := by
  have hapart := address_apart (h _ List.mem_cons_self _ List.mem_cons_self)
    (roomy_eventAt e.position) (roomy_eventAt e'.position)
  rwa [address_eventAt, address_eventAt, size_eventAt, size_eventAt] at hapart

/-- Where an event is, what is not for the list of events is nowhere else. -/
theorem Heap.outside {es : List KernelEvent} (h : Heap m (es.flatMap allocations))
    {e e' : KernelEvent} (he : e ∈ es) (he' : e' ∈ es) :
    (∀ x, addressOf e.position + 12 ≤ x → x < addressOf e.position + 20 →
        x < addressOf e'.position ∨ addressOf e'.position + 12 ≤ x) ∧
      ∀ p ∈ e.items, ∀ x, (containerAt p).address ≤ x →
        x < (containerAt p).address + (containerAt p).size →
          x < addressOf e'.position ∨ addressOf e'.position + 12 ≤ x := by
  have hapart : e = e' ∨ EventsApart e' e := by
    by_cases hsame : e = e'
    · exact .inl hsame
    · exact .inr (h.events_apart.forall he' he (Ne.symm hsame))
  have hcontainers : ∀ p ∈ e.items, Allocation.Apart (eventAt e'.position) (containerAt p) := by
    intro p hp
    obtain rfl | hapart := hapart
    · exact h.containers_apart he hp
    · exact hapart _ List.mem_cons_self _ (List.mem_cons_of_mem _ (List.mem_map_of_mem hp))
  constructor
  · intro x hle hlt
    obtain rfl | hapart := hapart
    · exact .inr hle
    · have haddress := hapart.address
      omega
  · intro p hp x hle hlt
    have hroomy : Allocation.Roomy (containerAt p) := h.roomy _ (List.mem_flatMap.mpr
      ⟨e, he, List.mem_cons_of_mem _ (List.mem_map_of_mem hp)⟩)
    have haddress := address_apart (hcontainers p hp) (roomy_eventAt e'.position) hroomy
    rw [address_eventAt, size_eventAt] at haddress
    omega

theorem Heap.address_lt {es : List KernelEvent} (h : Heap m (es.flatMap allocations))
    {e : KernelEvent} (he : e ∈ es) : addressOf e.position < 2 ^ 32 := by
  have hfits : e.position + bitsOf (eventAt e.position).size ≤ blocks :=
    h.fits _ (List.mem_flatMap.mpr ⟨e, he, List.mem_cons_self⟩)
  rw [blocks_eq] at hfits
  rw [addressOf_eq]
  omega

/-- Of an event, what is not for the list of events. -/
structure Steady (m m' : Memory) (e : KernelEvent) : Prop where
  event : ∀ x, addressOf e.position + 12 ≤ x → x < addressOf e.position + 20 → m' x = m x
  containers : ∀ p ∈ e.items, Untouched m m' (containerAt p)

/-- What is written where an event is linked: the head, and what is for the list in the event and in
the one that was the last. -/
def InsertWrites (position : Nat) (lastPosition : Option Nat) (m m' : Memory) : Prop :=
  ∀ x, 4 ≤ x → (x < addressOf position ∨ addressOf position + 12 ≤ x) →
    (∀ l, lastPosition = some l → x < addressOf l ∨ addressOf l + 4 ≤ x) → m' x = m x

theorem insertEvent_writes {position : Nat} {chain : List Nat}
    (hposition : addressOf position < 2 ^ 32) (hapart : ∀ l, chain.getLast? = some l →
      addressOf l + 20 ≤ addressOf position ∨ addressOf position + 20 ≤ addressOf l)
    (hhead : m.readULong listHead = Linked.first addressOf chain)
    (htail : m.readULong listTail = Linked.last addressOf chain) :
    InsertWrites position chain.getLast? m (insertEvent m (addressOf position)) ∧
      (insertEvent m (addressOf position)).readULong listHead =
        Linked.first addressOf (chain ++ [position]) ∧
      (∀ l, chain.getLast? = some l → Names (insertEvent m (addressOf position)) l
        (addressOf position)) ∧
      ∀ n, Names m position n → Names (insertEvent m (addressOf position)) position n := by
  have haddress := addressOf_eq position
  -- the event is made ready
  obtain ⟨m₂, hm₂, hinsert⟩ : ∃ m₂ : Memory,
      (∀ x, x < addressOf position + 4 ∨ addressOf position + 12 ≤ x → m₂ x = m x) ∧
        insertEvent m (addressOf position) = link m₂ listHead listTail (addressOf position) := by
    refine ⟨_, fun x hx => ?_, rfl⟩
    rw [event_ready, event_previous, Memory.writeULong_outside (by omega),
      Memory.writeULong_outside (by omega)]
  have hread : ∀ d, d + 4 ≤ addressOf position + 4 ∨ addressOf position + 12 ≤ d →
      m₂.readULong d = m.readULong d := by
    intro d hd
    exact Memory.readULong_congr fun x hle hlt => hm₂ x (by omega)
  rw [listHead_eq] at hhead hinsert ⊢
  rw [listTail_eq] at htail hinsert
  rw [← hread 0 (by omega)] at hhead
  rw [← hread 4 (by omega)] at htail
  obtain ⟨hnil, hlink⟩ | ⟨ys, y, hchain, hlink⟩ :=
    link_cases (addressOf position) (fun p _ => addressOf_ne_zero p) (by decide) hhead htail
  · rw [hinsert, hlink, hnil]
    refine ⟨fun x hx hout _ => ?_, ?_, nofun, fun n hn => hn.congr fun x hle hlt => ?_⟩
    · rw [Memory.writeULong_outside (by omega), hm₂ x (by omega)]
    · exact Memory.readULong_writeULong hposition
    · rw [Memory.writeULong_outside (by omega), hm₂ x (by omega)]
  · have hlast : chain.getLast? = some y := by rw [hchain, List.getLast?_concat]
    have hy := hapart y hlast
    have hyaddress := addressOf_eq y
    rw [hinsert, hlink]
    refine ⟨fun x hx hout hlastOut => ?_, ?_, fun l hl => ?_, fun n hn => hn.congr fun x hle hlt => ?_⟩
    · have hlastOut := hlastOut y hlast
      rw [Memory.writeULong_outside (by omega), hm₂ x (by omega)]
    · have hne : chain ≠ [] := by
        rw [hchain]
        simp
      rw [Memory.readULong_writeULong_other (by omega), hhead, Linked.first_append, if_neg hne]
    · obtain rfl := Option.some.inj (hlast.symm.trans hl)
      unfold Names
      rw [event_next, Nat.add_zero]
      exact Memory.readULong_writeULong hposition
    · rw [Memory.writeULong_outside (by omega), hm₂ x (by omega)]

/-- `InsertEvent` links its event to the end of the list and leaves everything else. -/
theorem insertEvent_spec {others chain : List KernelEvent} {e : KernelEvent}
    (h : Heap m ((others ++ (chain ++ [e])).flatMap allocations))
    (hhead : m.readULong listHead = Linked.first addressOf (chain.map KernelEvent.position))
    (htail : m.readULong listTail = Linked.last addressOf (chain.map KernelEvent.position))
    (hlinks : Linked.Chain addressOf (Names m) (chain.map KernelEvent.position))
    (hnames : Names m e.position 0) (m' : Memory) (hm' : m' = insertEvent m (addressOf e.position)) :
    Heap m' ((others ++ (chain ++ [e])).flatMap allocations) ∧
      m'.readULong listHead =
        Linked.first addressOf (chain.map KernelEvent.position ++ [e.position]) ∧
      Linked.Chain addressOf (Names m') (chain.map KernelEvent.position ++ [e.position]) ∧
      (∀ f ∈ others ++ (chain ++ [e]), Steady m m' f) ∧
      ∀ f ∈ others, ∀ n, Names m f.position n → Names m' f.position n := by
  obtain ⟨-, hlisted, hothers⟩ := List.pairwise_append.mp h.events_apart
  obtain ⟨hchainApart, -, hnew⟩ := List.pairwise_append.mp hlisted
  have he : e ∈ others ++ (chain ++ [e]) := by simp
  have hlastIn : ∀ l, (chain.map KernelEvent.position).getLast? = some l →
      ∃ g ∈ chain, g.position = l := by
    intro l hl
    exact List.mem_map.mp (List.mem_of_getLast? hl)
  have hlastApart : ∀ l, (chain.map KernelEvent.position).getLast? = some l →
      addressOf l + 20 ≤ addressOf e.position ∨ addressOf e.position + 20 ≤ addressOf l := by
    intro l hl
    obtain ⟨g, hg, rfl⟩ := hlastIn l hl
    exact (hnew g hg e List.mem_cons_self).address
  obtain ⟨hwrites, hhead', hlastNames, hown⟩ :=
    insertEvent_writes (h.address_lt he) hlastApart hhead htail
  rw [← hm'] at hwrites hhead' hlastNames hown
  refine ⟨h.congr fun x hle hlt => ?_, hhead', ?_, fun f hf => ⟨?_, ?_⟩, ?_⟩
  · have haddress := addressOf_eq e.position
    refine hwrites x (by omega) (.inl (by omega)) fun l _ => ?_
    have hl := addressOf_eq l
    omega
  · refine hlinks.concat ?_ (fun l hl _ => hlastNames l hl) (hown 0 hnames)
    intro q hq n hn
    refine hn.congr fun x hle hlt => ?_
    have hq' := addressOf_eq q
    obtain ⟨g, hg, rfl⟩ := List.mem_map.mp (List.dropLast_subset _ hq)
    have hge := (hnew g hg e List.mem_cons_self).address
    refine hwrites x (by omega) (by omega) fun l hl => ?_
    -- the event is before the last
    obtain ⟨ys, hcat⟩ := List.getLast?_eq_some_iff.mp hl
    have hpair : (chain.map KernelEvent.position).Pairwise fun p q =>
        addressOf p + 20 ≤ addressOf q ∨ addressOf q + 20 ≤ addressOf p :=
      List.pairwise_map.mpr (hchainApart.imp EventsApart.address)
    rw [hcat, List.dropLast_concat] at hq
    rw [hcat, List.pairwise_append] at hpair
    have hgl := hpair.2.2 _ hq l List.mem_cons_self
    omega
  · intro x hle hlt
    have hf' := addressOf_eq f.position
    refine hwrites x (by omega) ((h.outside hf he).1 x hle hlt) fun l hl => ?_
    obtain ⟨g, hg, rfl⟩ := hlastIn l hl
    have hout := (h.outside hf (List.mem_append_right _ (List.mem_append_left _ hg))).1 x hle hlt
    omega
  · intro p hp x hle hlt
    have hp' := address_eq (containerAt p)
    refine hwrites x (by omega) ((h.outside hf he).2 p hp x hle hlt) fun l hl => ?_
    obtain ⟨g, hg, rfl⟩ := hlastIn l hl
    have hout := (h.outside hf (List.mem_append_right _ (List.mem_append_left _ hg))).2 p hp x hle hlt
    omega
  · intro f hf n hn
    refine hn.congr fun x hle hlt => ?_
    have hf' := addressOf_eq f.position
    have hfe := (hothers f hf e (by simp)).address
    refine hwrites x (by omega) (by omega) fun l hl => ?_
    obtain ⟨g, hg, rfl⟩ := hlastIn l hl
    have hfg := (hothers f hf g (List.mem_append_left _ hg)).address
    omega

/-! ## The invariant -/

variable {s s' : HandOver}

/-- The events that have blocks. -/
def all (s : HandOver) : List KernelEvent := s.pending ++ (s.unlisted ++ s.listed)

/-- What the client knows of the event that it is at. -/
def AtHand (s : HandOver) : Prop :=
  match s.client with
  | .idle => s.hand = none
  | .data kernelEvent dataOffset _ => ∃ e, s.hand = some e ∧ kernelEvent = addressOf e.position ∧
      dataOffset = Linked.first (fun p => addressOf p.1) e.items ∧ Items s.memory e.items
  | .store kernelEvent next _ => ∃ e, s.hand = some e ∧ kernelEvent = addressOf e.position ∧
      e.items = [] ∧
        (next = 0 ∨ next = Linked.first addressOf (s.queue.map KernelEvent.position))
  | .free kernelEvent => ∃ e, s.hand = some e ∧ kernelEvent = addressOf e.position ∧ e.items = []

/-- What every step keeps while the head is not moved on to 0. -/
structure Kept (s : HandOver) : Prop where
  heap : Heap s.memory (s.all.flatMap allocations)
  pending : ∀ e ∈ s.pending, Body s.memory e ∧ Names s.memory e.position 0
  queue : ∀ e ∈ s.queue, Body s.memory e
  hand : s.AtHand
  good : s.Good

theorem mem_listed_of_queue {e : KernelEvent} (he : e ∈ s.queue) : e ∈ s.listed := by
  unfold listed
  split
  · exact List.mem_append_right _ he
  · exact List.mem_append_right _ he
  · exact he

/-- The client is where it was, and so is the event that it would read next. -/
theorem AtHand.congr (h : s.AtHand) (hclient : s'.client = s.client) (hhand : s'.hand = s.hand)
    (hitems : ∀ e ∈ s.listed, ∀ p ∈ e.items, Untouched s.memory s'.memory (containerAt p))
    (hqueue : s.queue = [] ∨ Linked.first addressOf (s'.queue.map KernelEvent.position) =
      Linked.first addressOf (s.queue.map KernelEvent.position)) : s'.AtHand := by
  unfold AtHand at h ⊢
  rw [hclient, hhand]
  cases hphase : s.client with
  | idle => simpa only [hphase] using h
  | data ev off seen =>
      simp only [hphase] at h
      obtain ⟨e, he, hev, hoff, hcontainers⟩ := h
      refine ⟨e, he, hev, hoff, hcontainers.congr fun p hp => hitems e ?_ p hp⟩
      unfold listed
      simp [hphase, he]
  | store ev next seen =>
      simp only [hphase] at h
      obtain ⟨e, he, hev, hnil, hnext⟩ := h
      refine ⟨e, he, hev, hnil, ?_⟩
      obtain hqueue | hqueue := hqueue
      · -- there was no next event
        rw [hqueue] at hnext
        exact .inl (hnext.elim id id)
      · rwa [hqueue]
  | free ev => simpa only [hphase] using h

/-- The list, when its head, its tail and its events are left alone. -/
theorem Delimits.congr (h : s.Delimits) (hchain : s'.chain = s.chain)
    (hinserting : s'.inserting = s.inserting) (hlow : ∀ x < 8, s'.memory x = s.memory x)
    (hsame : ∀ p ∈ s.chain, Untouched s.memory s'.memory (eventAt p)) : s'.Delimits := by
  have hread : ∀ d, d + 4 ≤ 8 → s'.memory.readULong d = s.memory.readULong d :=
    fun d hd => Memory.readULong_congr fun x hle hlt => hlow x (by omega)
  obtain ⟨hhead, htail, hlinks⟩ := h
  refine ⟨?_, ?_, ?_⟩
  · rw [hchain, ← hhead, listHead_eq]
    exact hread 0 (by omega)
  · rw [hchain, ← htail, hinserting, listTail_eq, hread 4 (by omega)]
  · rw [hchain]
    exact hlinks.mono fun p hp _ hn => hn.of_untouched (hsame p hp)

/-- The driver works elsewhere in the buffer, on events that are not in the list. -/
theorem Kept.elsewhere (hs : s.Kept) {m' : Memory} {pending' : List KernelEvent}
    (hlow : ∀ x < 8, m' x = s.memory x)
    (hsame : ∀ e ∈ s.unlisted ++ s.listed, ∀ a ∈ allocations e, Untouched s.memory m' a)
    (hheap : Heap m' ((pending' ++ (s.unlisted ++ s.listed)).flatMap allocations))
    (hpending : ∀ e ∈ pending', Body m' e ∧ Names m' e.position 0) :
    Kept { s with memory := m', pending := pending' } where
  heap := hheap
  pending := hpending
  queue e he := (hs.queue e he).of_untouched
    (hsame e (List.mem_append_right _ (mem_listed_of_queue he)))
  hand := hs.hand.congr rfl rfl (fun e he p hp => hsame e (List.mem_append_right _ he) _
    (List.mem_cons_of_mem _ (List.mem_map_of_mem hp))) (.inr rfl)
  good := by
    refine ⟨hs.good.delimits.congr rfl rfl hlow fun p hp => ?_, hs.good.fifo⟩
    obtain ⟨e, he, rfl⟩ := List.mem_map.mp hp
    exact hsame e (List.mem_append_right _ he) _ List.mem_cons_self

theorem kept_init (m : Memory) (hhead : m.readULong listHead = 0)
    (htail : m.readULong listTail = 0) :
    Kept { memory := initialiseBufferManager m } := by
  have hsame : ∀ x < 8, initialiseBufferManager m x = m x := by
    intro x hx
    have hstart : offsetOf (eventList kernelBuffer) "buffer" = 8 := rfl
    unfold initialiseBufferManager
    rw [hstart, kernel_eq, Memory.writeULong_outside (.inl (by exact hx)),
      Memory.write_outside (.inl hx)]
  have hread : ∀ d, d + 4 ≤ 8 → (initialiseBufferManager m).readULong d = m.readULong d :=
    fun d hd => Memory.readULong_congr fun x hle hlt => hsame x (by omega)
  rw [listHead_eq] at hhead
  rw [listTail_eq] at htail
  refine ⟨⟨?_, nofun, nofun, List.Pairwise.nil, nofun⟩, nofun, nofun, rfl, ⟨⟨?_, ?_, trivial⟩, rfl⟩⟩
  · exact Memory.readULong_writeULong (by rw [blocks_eq]; decide)
  · rw [listHead_eq]
    exact (hread 0 (by omega)).trans hhead
  · rw [listTail_eq]
    exact (hread 4 (by omega)).trans htail

theorem Kept.createEvent (hs : s.Kept) {position : Nat}
    (h : s.next (.createEvent position) = some s') : s'.Kept := by
  obtain ⟨m', hm', hs'⟩ := Option.bind_eq_some_iff.mp h
  obtain rfl := Option.some.inj hs'
  obtain ⟨hheap, hbody, hnames, hlow, hsame⟩ := createEvent_spec hs.heap hm'
  have hall : ∀ e ∈ s.all, ∀ a ∈ allocations e, Untouched s.memory m' a :=
    fun e he a ha => hsame a (List.mem_flatMap.mpr ⟨e, he, ha⟩)
  refine hs.elsewhere hlow (fun e he => hall e (List.mem_append_right _ he)) ?_ ?_
  · have hperm : (KernelEvent.mk position [] :: s.all).Perm
        (s.pending ++ [KernelEvent.mk position []] ++ (s.unlisted ++ s.listed)) := by
      rw [List.append_assoc]
      exact List.perm_middle.symm
    exact hheap.perm (hperm.flatMap_right allocations)
  · intro e he
    obtain he | he := List.mem_append.mp he
    · obtain ⟨hold, hlast⟩ := hs.pending e he
      have huntouched := hall e (List.mem_append_left _ he)
      exact ⟨hold.of_untouched huntouched, hlast.of_untouched (huntouched _ List.mem_cons_self)⟩
    · rw [List.mem_singleton.mp he]
      exact ⟨hbody, hnames⟩

/-- One of the events that are being built. -/
theorem pick {thread : Nat} {e : KernelEvent} (he : s.pending[thread]? = some e) :
    s.pending.Perm (e :: s.pending.eraseIdx thread) := by
  obtain ⟨hlt, rfl⟩ := List.getElem?_eq_some_iff.mp he
  exact (List.getElem_cons_eraseIdx_perm hlt).symm

theorem Kept.addEventData (hs : s.Kept) {thread position : Nat} {item : Item}
    (h : s.next (.addEventData thread item position) = some s') : s'.Kept := by
  obtain ⟨e, he, h⟩ := Option.bind_eq_some_iff.mp h
  obtain ⟨m', hm', h⟩ := Option.bind_eq_some_iff.mp h
  split_ifs at h with hwf
  obtain rfl := Option.some.inj h
  have hpick := pick he
  have hin : e ∈ s.pending := hpick.mem_iff.mpr List.mem_cons_self
  obtain ⟨hbody, hnames⟩ := hs.pending e hin
  have hall : s.all.Perm (e :: (s.pending.eraseIdx thread ++ (s.unlisted ++ s.listed))) :=
    hpick.append_right _
  obtain ⟨hheap, hbody', hnames', hlow, hsame⟩ :=
    addEventData_spec (hs.heap.perm (hall.flatMap_right allocations)) hwf hbody hnames hm'
  have hothers : ∀ f ∈ s.pending.eraseIdx thread ++ (s.unlisted ++ s.listed),
      ∀ a ∈ allocations f, Untouched s.memory m' a :=
    fun f hf a ha => hsame a (List.mem_flatMap.mpr ⟨f, hf, ha⟩)
  refine hs.elsewhere hlow (fun f hf => hothers f (List.mem_append_right _ hf)) hheap ?_
  intro f hf
  obtain rfl | hf := List.mem_cons.mp hf
  · exact ⟨hbody', hnames'⟩
  · obtain ⟨hold, hlast⟩ := hs.pending f (hpick.mem_iff.mpr (List.mem_cons_of_mem _ hf))
    have huntouched := hothers f (List.mem_append_left _ hf)
    exact ⟨hold.of_untouched huntouched, hlast.of_untouched (huntouched _ List.mem_cons_self)⟩

/-- Another event in the list. -/
theorem listed_append (s : HandOver) (e : KernelEvent) :
    { s with queue := s.queue ++ [e] }.listed = s.listed ++ [e] := by
  unfold listed
  split <;> simp_all

theorem untaken_append (s : HandOver) (e : KernelEvent) :
    { s with queue := s.queue ++ [e] }.untaken = s.untaken ++ [e.items.map Prod.snd] := by
  unfold untaken
  split <;> simp_all

theorem Kept.insertEvent (hs : s.Kept) {thread : Nat}
    (h : s.next (.insertEvent thread) = some s') : s'.Kept := by
  obtain ⟨e, he, h⟩ := Option.bind_eq_some_iff.mp h
  split_ifs at h with hfree
  obtain ⟨m', hm'⟩ : ∃ m', m' = Driver.insertEvent s.memory (addressOf e.position) := ⟨_, rfl⟩
  rw [← hm'] at h
  obtain rfl := Option.some.inj h
  have hpick := pick he
  obtain ⟨hbody, hnames⟩ := hs.pending e (hpick.mem_iff.mpr List.mem_cons_self)
  have hlisted := listed_append s e
  have huntaken := untaken_append s e
  have hall : s.all.Perm (s.pending.eraseIdx thread ++ s.unlisted ++ (s.listed ++ [e])) := by
    refine (hpick.append_right _).trans ?_
    rw [← List.append_assoc, ← List.append_assoc]
    exact (List.perm_append_singleton _ _).symm
  obtain ⟨⟨hhead, htail, hlinks⟩, hfifo⟩ := hs.good
  rw [Option.isNone_iff_eq_none.mp hfree, Option.getD_none] at htail
  obtain ⟨hheap, hhead', hlinks', hsteady, hothers⟩ := insertEvent_spec
    (hs.heap.perm (hall.flatMap_right allocations)) hhead htail hlinks hnames m' hm'
  have hchain : ({ s with queue := s.queue ++ [e] } : HandOver).chain =
      s.chain ++ [e.position] := by
    unfold chain
    rw [hlisted, List.map_append]
    rfl
  have hin : ∀ f ∈ s.listed ++ [e], Steady s.memory m' f :=
    fun f hf => hsteady f (List.mem_append_right _ hf)
  refine ⟨?_, ?_, ?_, ?_, ⟨⟨?_, ?_, ?_⟩, ?_⟩⟩
  · show Heap _ ((s.pending.eraseIdx thread ++ (s.unlisted ++
      { s with queue := s.queue ++ [e] }.listed)).flatMap allocations)
    rw [hlisted, ← List.append_assoc]
    exact hheap
  · intro f hf
    obtain ⟨hold, hlast⟩ := hs.pending f (hpick.mem_iff.mpr (List.mem_cons_of_mem _ hf))
    have hf := List.mem_append_left s.unlisted hf
    obtain ⟨hevent, hitems⟩ := hsteady f (List.mem_append_left _ hf)
    exact ⟨hold.congr hevent hitems, hothers f hf 0 hlast⟩
  · intro f hf
    obtain hf | hf := List.mem_append.mp hf
    · obtain ⟨hevent, hitems⟩ := hin f (List.mem_append_left _ (mem_listed_of_queue hf))
      exact (hs.queue f hf).congr hevent hitems
    · rw [List.mem_singleton.mp hf]
      obtain ⟨hevent, hitems⟩ := hin e (by simp)
      exact hbody.congr hevent hitems
  · refine hs.hand.congr rfl rfl (fun f hf => (hin f (List.mem_append_left _ hf)).containers) ?_
    obtain hnil | hne := eq_or_ne s.queue []
    · exact .inl hnil
    · refine .inr ?_
      rw [List.map_append]
      exact (Linked.first_append _ e.position).trans (if_neg (by simpa using hne))
  · exact hhead'.trans (congrArg _ hchain.symm)
  · show addressOf e.position = Linked.last addressOf ({ s with queue := s.queue ++ [e] } : HandOver).chain
    rw [hchain, Linked.last_concat]
  · show Linked.Chain addressOf _ ({ s with queue := s.queue ++ [e] } : HandOver).chain
    rw [hchain]
    exact hlinks'
  · show s.taken ++ ({ s with queue := s.queue ++ [e] } : HandOver).untaken = _
    rw [huntaken, ← List.append_assoc, hfifo]

/-- Only the head and the tail of the list are behind the buffer. -/
theorem untouched_of_buffer {m m' : Memory} (h : ∀ x, 8 ≤ x → m' x = m x) (a : Allocation) :
    Untouched m m' a := by
  intro x hle _
  rw [address_eq] at hle
  exact h x (by omega)

theorem Kept.last_lt (hs : s.Kept) : Linked.last addressOf s.chain < 2 ^ 32 := by
  obtain hnil | ⟨ps, p, hchain⟩ := s.chain.eq_nil_or_concat
  · rw [hnil]
    decide
  · rw [List.concat_eq_append] at hchain
    obtain ⟨e, he, hp⟩ : ∃ e ∈ s.listed, e.position = p := by
      refine List.mem_map.mp ?_
      show p ∈ s.chain
      rw [hchain]
      simp
    rw [hchain, Linked.last_concat, ← hp]
    exact hs.heap.address_lt (List.mem_append_right _ (List.mem_append_right _ he))

theorem Kept.setTail (hs : s.Kept) (h : s.next .setTail = some s') : s'.Kept := by
  obtain ⟨ev, hev, hs'⟩ := Option.bind_eq_some_iff.mp h
  obtain rfl := Option.some.inj hs'
  obtain ⟨⟨hhead, htail, hlinks⟩, hfifo⟩ := hs.good
  rw [hev, Option.getD_some] at htail
  have hlt := hs.last_lt
  rw [← htail] at hlt
  rw [listTail_eq]
  rw [listHead_eq] at hhead
  have houtside : ∀ x, 8 ≤ x → s.memory.writeULong 4 ev x = s.memory x :=
    fun x hx => Memory.writeULong_outside (.inr hx)
  have hsame := untouched_of_buffer houtside
  refine ⟨hs.heap.congr fun x hx _ => houtside x hx, fun e he => ?_, fun e he => ?_, ?_,
    ⟨⟨?_, ?_, ?_⟩, hfifo⟩⟩
  · obtain ⟨hbody, hnames⟩ := hs.pending e he
    exact ⟨hbody.of_untouched fun a _ => hsame a, hnames.of_untouched (hsame _)⟩
  · exact (hs.queue e he).of_untouched fun a _ => hsame a
  · exact hs.hand.congr rfl rfl (fun _ _ _ _ => hsame _) (.inr rfl)
  · rw [listHead_eq]
    exact (Memory.readULong_writeULong_other (.inl (Nat.le_refl 4))).trans hhead
  · rw [listTail_eq]
    exact (Memory.readULong_writeULong hlt).trans htail
  · exact Linked.Chain.mono hlinks fun p _ n hn => hn.of_untouched (hsame _)

/-! ### The client -/

theorem Kept.start (hs : s.Kept) (hclient : s.client = .idle) (h : s.clientStep = some s') :
    s'.Kept := by
  obtain ⟨memory, pending, inserting, client, taken, hand, queue, inserted⟩ := s
  obtain rfl : client = .idle := hclient
  obtain ⟨hheap, hpending, hqueue, hhand, ⟨⟨hhead, htail, hlinks⟩, hfifo⟩⟩ := hs
  unfold clientStep at h
  simp only at h
  split_ifs at h with hne
  obtain rfl := Option.some.inj h
  have hhead : memory.readULong listHead = Linked.first addressOf (queue.map KernelEvent.position) :=
    hhead
  cases queue with
  | nil => exact absurd hhead hne
  | cons e queue =>
      have hhead : memory.readULong listHead = addressOf e.position := hhead
      have hbody : Body memory e := hqueue e List.mem_cons_self
      refine ⟨hheap, hpending, fun f hf => hqueue f (List.mem_cons_of_mem _ hf), ?_,
        ⟨⟨hhead, htail, hlinks⟩, hfifo⟩⟩
      refine ⟨e, rfl, hhead, ?_, hbody.items⟩
      rw [hhead]
      exact hbody.head

/-- A release leaves what is still live. -/
theorem Heap.released (h : Heap m live) (hperm : live.Perm (a :: live')) :
    Heap (bufferClearBits kernel m a.address a.size) live' ∧
      (∀ x < 8, bufferClearBits kernel m a.address a.size x = m x) ∧
      ∀ b, Untouched m (bufferClearBits kernel m a.address a.size) b := by
  obtain ⟨hheap, honly⟩ := (h.perm hperm).release
  exact ⟨hheap, fun x hx => honly x (.inl hx), honly.untouched⟩

theorem Kept.readData (hs : s.Kept) {ev off : Nat} {seen : List Item}
    (hclient : s.client = .data ev off seen) (h : s.clientStep = some s') : s'.Kept := by
  obtain ⟨memory, pending, inserting, client, taken, hand, queue, inserted⟩ := s
  obtain rfl : client = .data ev off seen := hclient
  obtain ⟨hheap, hpending, hqueue, ⟨e, rfl, hev, hoff, hitems⟩, ⟨⟨hhead, htail, hlinks⟩, hfifo⟩⟩ := hs
  obtain ⟨position, items⟩ := e
  cases items with
  | nil =>
      -- the data have been read
      obtain rfl : off = 0 := hoff
      obtain rfl := Option.some.inj h
      refine ⟨hheap, hpending, hqueue, ⟨_, rfl, hev, rfl, .inr ?_⟩, ⟨⟨hhead, htail, hlinks⟩, hfifo⟩⟩
      rw [hev]
      exact hlinks.1
  | cons p ps =>
      have hoff : off = addressOf p.1 := hoff
      have hne : off ≠ 0 := by
        rw [hoff]
        exact addressOf_ne_zero p.1
      obtain ⟨⟨⟨hnext, hitem⟩, hrest⟩, hwell⟩ := hitems
      have hstep : clientStep ⟨memory, pending, inserting, .data ev off seen, taken,
          some ⟨position, p :: ps⟩, queue, inserted⟩ = some ⟨bufferClearBits kernel memory
            (containerAt p).address (containerAt p).size, pending, inserting,
            .data ev (Linked.first (fun p => addressOf p.1) ps) (seen ++ [p.2]), taken,
            some ⟨position, ps⟩, queue, inserted⟩ := by
        unfold clientStep
        simp only [if_pos hne]
        rw [hoff, hnext, hitem]
        rfl
      obtain rfl := Option.some.inj (hstep.symm.trans h)
      have hperm : ((pending ++ ⟨position, p :: ps⟩ :: queue).flatMap allocations).Perm
          (containerAt p :: (pending ++ ⟨position, ps⟩ :: queue).flatMap allocations) := by
        have hsplit : (pending ++ ⟨position, p :: ps⟩ :: queue).flatMap allocations =
            (pending.flatMap allocations ++ [eventAt position]) ++
              containerAt p :: (ps.map containerAt ++ queue.flatMap allocations) := by
          simp [allocations]
        have hrest : (pending ++ ⟨position, ps⟩ :: queue).flatMap allocations =
            (pending.flatMap allocations ++ [eventAt position]) ++
              (ps.map containerAt ++ queue.flatMap allocations) := by
          simp [allocations]
        rw [hsplit, hrest]
        exact List.perm_middle
      obtain ⟨hheap', hlow, hsame⟩ := hheap.released hperm
      refine ⟨hheap', fun f hf => ?_, fun f hf => ?_, ⟨_, rfl, hev, rfl, ?_⟩,
        ⟨Delimits.congr ⟨hhead, htail, hlinks⟩ rfl rfl hlow fun _ _ => hsame _, ?_⟩⟩
      · obtain ⟨hbody, hnames⟩ := hpending f hf
        exact ⟨hbody.of_untouched fun a _ => hsame a, hnames.of_untouched (hsame _)⟩
      · exact (hqueue f hf).of_untouched fun a _ => hsame a
      · exact Items.congr ⟨hrest, fun q hq => hwell q (List.mem_cons_of_mem _ hq)⟩ fun _ _ => hsame _
      · rw [← hfifo]
        simp [untaken]

/-- The head is moved on to another event. -/
theorem Kept.store (hs : s.Kept) {ev next : Nat} {seen : List Item}
    (hclient : s.client = .store ev next seen) (hne : next ≠ 0) (h : s.clientStep = some s') :
    s'.Kept := by
  obtain ⟨memory, pending, inserting, client, taken, hand, queue, inserted⟩ := s
  obtain rfl : client = .store ev next seen := hclient
  obtain ⟨hheap, hpending, hqueue, ⟨e, rfl, hev, hnil, hnext⟩, ⟨⟨hhead, htail, hlinks⟩, hfifo⟩⟩ := hs
  obtain rfl := Option.some.inj h
  obtain ⟨position, items⟩ := e
  obtain rfl : items = [] := hnil
  obtain hnext | hnext := hnext
  · exact absurd hnext hne
  cases queue with
  | nil => exact absurd hnext hne
  | cons f queue =>
      have hnext : next = addressOf f.position := hnext
      have hlt : next < 2 ^ 32 := by
        rw [hnext]
        exact hheap.address_lt (List.mem_append_right _ (List.mem_cons_of_mem _ List.mem_cons_self))
      rw [listHead_eq]
      have houtside : ∀ x, 4 ≤ x → memory.writeULong 0 next x = memory x :=
        fun x hx => Memory.writeULong_outside (.inr hx)
      have hsame := untouched_of_buffer fun x hx => houtside x (by omega)
      refine ⟨hheap.congr fun x hx _ => houtside x (by omega), fun g hg => ?_, fun g hg => ?_,
        ⟨_, rfl, hev, rfl⟩, ⟨⟨?_, ?_, ?_⟩, ?_⟩⟩
      · obtain ⟨hbody, hnames⟩ := hpending g hg
        exact ⟨hbody.of_untouched fun a _ => hsame a, hnames.of_untouched (hsame _)⟩
      · exact (hqueue g hg).of_untouched fun a _ => hsame a
      · rw [listHead_eq]
        exact (Memory.readULong_writeULong hlt).trans hnext
      · rw [listTail_eq] at htail ⊢
        show inserting.getD ((memory.writeULong 0 next).readULong 4) = _
        rw [Memory.readULong_writeULong_other (.inr (by decide))]
        -- the last event is behind the one that is taken
        exact htail
      · exact Linked.Chain.mono hlinks.2 fun p _ n hn => hn.of_untouched (hsame _)
      · rw [← hfifo]
        simp [untaken]

theorem Kept.free (hs : s.Kept) {ev : Nat} (hclient : s.client = .free ev)
    (h : s.clientStep = some s') : s'.Kept := by
  obtain ⟨memory, pending, inserting, client, taken, hand, queue, inserted⟩ := s
  obtain rfl : client = .free ev := hclient
  obtain ⟨hheap, hpending, hqueue, ⟨e, rfl, hev, hnil⟩, ⟨hdelimits, hfifo⟩⟩ := hs
  obtain rfl := Option.some.inj h
  obtain ⟨position, items⟩ := e
  obtain rfl : items = [] := hnil
  have hperm : ((pending ++ ⟨position, []⟩ :: queue).flatMap allocations).Perm
      (eventAt position :: (pending ++ queue).flatMap allocations) := by
    rw [List.flatMap_append, List.flatMap_append]
    exact List.perm_middle
  obtain ⟨hheap', hlow, hsame⟩ := hheap.released hperm
  rw [hev]
  refine ⟨hheap', fun f hf => ?_, fun f hf => ?_, rfl,
    ⟨hdelimits.congr rfl rfl hlow fun _ _ => hsame _, hfifo⟩⟩
  · obtain ⟨hbody, hnames⟩ := hpending f hf
    exact ⟨hbody.of_untouched fun a _ => hsame a, hnames.of_untouched (hsame _)⟩
  · exact (hqueue f hf).of_untouched fun a _ => hsame a

/-- The head is moved on to 0, and the tail goes on naming an event. -/
theorem Kept.not_good_of_emptied (hs : s.Kept) {ev : Nat} {seen : List Item}
    (hclient : s.client = .store ev 0 seen) (h : s.clientStep = some s') : ¬ s'.Good := by
  obtain ⟨memory, pending, inserting, client, taken, hand, queue, inserted⟩ := s
  obtain rfl : client = .store ev 0 seen := hclient
  obtain ⟨-, -, -, ⟨e, rfl, -⟩, ⟨⟨-, htail, -⟩, -⟩⟩ := hs
  obtain rfl := Option.some.inj h
  rintro ⟨⟨hhead', htail', -⟩, -⟩
  have hhead' : (memory.writeULong listHead 0).readULong listHead =
      Linked.first addressOf (queue.map KernelEvent.position) := hhead'
  rw [Memory.readULong_writeULong (by decide)] at hhead'
  have hnil := (Linked.first_eq_zero fun p _ => addressOf_ne_zero p).mp hhead'.symm
  have htail : inserting.getD (memory.readULong listTail) =
      Linked.last addressOf (e.position :: queue.map KernelEvent.position) := htail
  have htail' : inserting.getD ((memory.writeULong listHead 0).readULong listTail) =
      Linked.last addressOf (queue.map KernelEvent.position) := htail'
  have happart : listHead + 4 ≤ listTail := by
    rw [listHead_eq, listTail_eq]
  rw [Memory.readULong_writeULong_other (.inr happart), htail, hnil] at htail'
  exact addressOf_ne_zero e.position htail'

theorem Kept.client (hs : s.Kept) (hok : s.FollowedOn .client) (h : s.clientStep = some s') :
    s'.Kept := by
  cases hclient : s.client with
  | idle => exact hs.start hclient h
  | data ev off seen => exact hs.readData hclient h
  | store ev next seen =>
      have hne : next ≠ 0 := by simpa only [FollowedOn, hclient] using hok
      exact hs.store hclient hne h
  | free ev => exact hs.free hclient h

theorem Kept.next (hs : s.Kept) {a : HandOverAction} (hok : s.FollowedOn a)
    (h : s.next a = some s') : s'.Kept := by
  cases a with
  | createEvent position => exact hs.createEvent h
  | addEventData thread item position => exact hs.addEventData h
  | insertEvent thread => exact hs.insertEvent h
  | setTail => exact hs.setTail h
  | client => exact hs.client hok h

theorem Kept.followedOn (hs : s.Kept) {a : HandOverAction} (h : s.next a = some s')
    (hgood : s'.Good) : s.FollowedOn a := by
  cases a with
  | client =>
      cases hclient : s.client with
      | store ev next seen =>
          have hne : next ≠ 0 := by
            rintro rfl
            exact hs.not_good_of_emptied hclient h hgood
          simpa only [FollowedOn, hclient] using hne
      | _ => simp only [FollowedOn, hclient]
  | _ => trivial

/-! ### Every run -/

/-- The machine with the states that it has been in. -/
def recorded : Machine (HandOver × List HandOver) HandOverAction :=
  machine.recording [] fun states _ _ s' => s' :: states

/-- **First in, first out, and once.**  A run keeps the list, and hands over the events that were
inserted, just if the client does not move the head on to 0 in it. -/
theorem fifo_iff (m : Memory) (hhead : m.readULong listHead = 0) (htail : m.readULong listTail = 0)
    (as : List HandOverAction) (x : HandOver × List HandOver)
    (hrun : recorded.run as ({ memory := initialiseBufferManager m }, []) = some x) :
    (∀ s ∈ x.2, s.Good) ↔ recorded.Meets (fun x a => x.1.FollowedOn a) as
      ({ memory := initialiseBufferManager m }, []) := by
  have hstep : ∀ (x : HandOver × List HandOver) a x', ((∀ s ∈ x.2, s.Good) → x.1.Kept) →
      recorded.next x a = some x' →
      ((∀ s ∈ x'.2, s.Good) → x'.1.Kept) ∧
        ((∀ s ∈ x'.2, s.Good) ↔ (∀ s ∈ x.2, s.Good) ∧ x.1.FollowedOn a) := by
    intro x a x' hkept hnext
    obtain ⟨hs, hstates⟩ := Machine.of_recording_next hnext
    have hs : x.1.next a = some x'.1 := hs
    rw [hstates, List.forall_mem_cons]
    refine ⟨fun hall => ?_, fun hall => ?_, fun hall => ?_⟩
    · exact (hkept hall.2).next ((hkept hall.2).followedOn hs hall.1) hs
    · exact ⟨hall.2, (hkept hall.2).followedOn hs hall.1⟩
    · exact ⟨((hkept hall.1).next hall.2 hs).good, hall.1⟩
  have hiff := Machine.run_meets_iff hstep (fun _ => kept_init m hhead htail) hrun
  rw [hiff]
  exact and_iff_right nofun

/-- Two events are inserted, the first with an item, and the first is taken. -/
def firstTaken : List HandOverAction :=
  [.createEvent 0, .addEventData 0 { key := 0, type := 1, data := [4, 0, 0, 0] } 2, .insertEvent 0,
    .setTail, .createEvent 6, .insertEvent 0, .setTail, .client, .client, .client, .client, .client]

theorem firstTaken_good :
    ∃ x, recorded.run firstTaken ({ memory := initialiseBufferManager fun _ => 0 }, []) = some x ∧
      x.2.length = 12 ∧ ∀ s ∈ x.2, s.Good := by
  have hrun : (recorded.run firstTaken ({ memory := initialiseBufferManager fun _ => 0 }, [])).map
      (fun x => x.2.length) = some 12 := by
    decide +kernel
  have hmeets : recorded.Meets (fun x a => x.1.FollowedOn a) firstTaken
      ({ memory := initialiseBufferManager fun _ => 0 }, []) := by
    decide +kernel
  obtain ⟨x, hx, hlength⟩ := Option.map_eq_some_iff.mp hrun
  exact ⟨x, hx, hlength, (fifo_iff _ (by decide) (by decide) firstTaken x hx).mpr hmeets⟩

/-- The only event is taken, and the tail goes on naming it. -/
theorem tail_stays :
    ¬ ∀ (m : Memory), m.readULong listHead = 0 → m.readULong listTail = 0 →
      ∀ (as : List HandOverAction) (x : HandOver × List HandOver),
        recorded.run as ({ memory := initialiseBufferManager m }, []) = some x →
          ∀ s ∈ x.2, s.Good := by
  intro hall
  have hrun : (recorded.run [.createEvent 0, .insertEvent 0, .setTail, .client, .client, .client]
      ({ memory := initialiseBufferManager fun _ => 0 }, [])).map (fun x => x.2.head?.map fun s =>
        (s.inserting.getD (s.memory.readULong listTail), s.chain)) = some (some (4120, [])) := by
    decide +kernel
  obtain ⟨x, hx, hhead⟩ := Option.map_eq_some_iff.mp hrun
  obtain ⟨s, hs, hboth⟩ := Option.map_eq_some_iff.mp hhead
  obtain ⟨htail, hchain⟩ := Prod.mk.inj hboth
  have hgood := hall _ (by decide) (by decide) _ x hx s (List.mem_of_mem_head? hs)
  have hlast := hgood.delimits.tail
  rw [htail, hchain] at hlast
  cases hlast

end HandOver

end CaptureHpc.Driver
