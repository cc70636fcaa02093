/-
# `Driver.StateReport` — a change of state when the buffer is full

`SetConnectionState` reserves space five times: for the event, and for each of
the four data in it.  Any of these reservations may find no room, and the
function looks at none of the results.  Without an event the next function
writes through a null pointer; without one of the data the event is inserted
all the same, with fewer of them.

What is built in the memory is followed with the lemmas of `Driver.HandOver`.
`reportsCleanly_iff` says that all is well just if there is room for all five,
one after the other.
-/
import CaptureHpc.Driver.HandOver

namespace CaptureHpc.Driver

open CLayout BufferState HandOver

/-! ## The search for clear bits -/

/-- The bitmap as the system has it. -/
def bitmapOf (m : Memory) (b : Nat) : Bool := b < blocks && m.bit kernel.bitmap b

/-- What `RtlFindClearBitsAndSet` looks for: so many clear bits, from a hint on.  What it finds are
clear bits of the bitmap. -/
structure FindClearBits where
  find : (Nat → Bool) → Nat → Nat → Option Nat
  found : ∀ {used : Nat → Bool} {n hint position : Nat}, find used n hint = some position →
    position + n ≤ blocks ∧ ∀ b < n, used (position + b) = false

/-- The position that is found for some bytes. -/
def FindClearBits.position (search : FindClearBits) (m : Memory) (size : Nat) : Option Nat :=
  search.find (bitmapOf m) (bitsOf size) (m.readULong kernel.hint)

/-! ## The report -/

/-- What is in the buffer of 128 characters before the 0. -/
structure AddressText where
  text : List (BitVec 8)
  short : text.length < 128

/-- A connection, with what `AddressToString` makes of its addresses. -/
structure PrintedConnection where
  state : BitVec 32
  localText : AddressText
  remoteText : AddressText
  processId : BitVec 32

namespace SharedEventList

section Functions
variable (search : FindClearBits)

/-- `CreateEvent`: the position of the event, if there is one. -/
def createEvent (m : Memory) : Option (Option Nat × Memory) :=
  match search.position m (structSize event) with
  | none => some (none, m)
  | some position => (Driver.createEvent m position).map fun m => (some position, m)

/-- `AddEventData`; `none` if it comes to use a null event. -/
def addEventData (event : Option Nat) (item : Item) (m : Memory) : Option Memory :=
  match search.position m (containerSize item.data.length) with
  | none => some m
  | some position => do
      let event ← event
      Driver.addEventData m (addressOf event) item position

/-- `InsertEvent`. -/
def insertEvent (event : Option Nat) (m : Memory) : Option Memory := do
  let event ← event
  return (Driver.insertEvent m (addressOf event)).writeULong listTail (addressOf event)

/-- `SetConnectionState` up to where it inserts the event. -/
def buildEvent (c : PrintedConnection) (tcpState : BitVec 32) (m : Memory) :
    Option (Option Nat × Memory) := do
  let (event, m) ← SharedEventList.createEvent search m
  let m ← SharedEventList.addEventData search event ⟨0, 0, Memory.ulongBytes tcpState.toNat⟩ m
  let m ← SharedEventList.addEventData search event ⟨1, 1, c.localText.text ++ [0]⟩ m
  let m ← SharedEventList.addEventData search event ⟨2, 2, c.remoteText.text ++ [0]⟩ m
  let m ← SharedEventList.addEventData search event ⟨3, 3, Memory.ulongBytes c.processId.toNat⟩ m
  return (event, m)

def setConnectionState (connection : Option PrintedConnection) (tcpState : BitVec 32) (m : Memory) :
    Option (Option PrintedConnection × Memory) :=
  match connection with
  | none => some (none, m)
  | some c => do
      let c := { c with state := tcpState }
      let (event, m) ← buildEvent search c tcpState m
      let m ← SharedEventList.insertEvent event m
      return (some c, m)

end Functions

/-! ## What is to hold -/

/-- The data items of a report. -/
def reportItems (c : PrintedConnection) (tcpState : BitVec 32) : List Item :=
  [⟨0, 0, Memory.ulongBytes tcpState.toNat⟩, ⟨1, 1, c.localText.text ++ [0]⟩,
    ⟨2, 2, c.remoteText.text ++ [0]⟩, ⟨3, 3, Memory.ulongBytes c.processId.toNat⟩]

/-- What was built is an event with all the data, and it became the last of the list. -/
def InsertsComplete (search : FindClearBits) (c : PrintedConnection) (tcpState : BitVec 32)
    (m m' : Memory) : Prop :=
  ∃ (e : KernelEvent) (m₁ : Memory), buildEvent search c tcpState m = some (some e.position, m₁) ∧
    Body m₁ e ∧ Names m₁ e.position 0 ∧ e.items.map Prod.snd = reportItems c tcpState ∧
    m'.readULong listTail = addressOf e.position

/-- The list is as it was, and no block is reserved that was not. -/
def InsertsNothing (m m' : Memory) : Prop :=
  m'.readULong listHead = m.readULong listHead ∧ m'.readULong listTail = m.readULong listTail ∧
    ∀ b < blocks, m'.bit kernel.bitmap b = m.bit kernel.bitmap b

/-- The state is set, and a complete event is inserted or nothing is done; no null event is used. -/
def ReportsCleanly (search : FindClearBits) (c : PrintedConnection) (tcpState : BitVec 32)
    (m : Memory) : Prop :=
  ∃ m', setConnectionState search (some c) tcpState m =
      some (some { c with state := tcpState }, m') ∧
    (InsertsComplete search { c with state := tcpState } tcpState m m' ∨ InsertsNothing m m')

/-- There is room for all of some numbers of blocks, one after the other. -/
def RoomFor (search : FindClearBits) : (Nat → Bool) → Nat → List Nat → Prop
  | _, _, [] => True
  | used, hint, n :: ns => ∃ position, search.find used n hint = some position ∧
      RoomFor search (fun b => used b || (position ≤ b && b < position + n)) position ns

/-- The blocks of the containers of some items. -/
def itemBlocks (items : List Item) : List Nat :=
  items.map fun item => bitsOf (containerSize item.data.length)

/-- The blocks that a report needs. -/
def reportBlocks (c : PrintedConnection) (tcpState : BitVec 32) : List Nat :=
  bitsOf (structSize event) :: itemBlocks (reportItems c tcpState)

/-- The shared memory, with a bitmap of all blocks. -/
structure SharedBuffer where
  memory : Memory
  sized : memory.readULong kernel.sizeOfBitMap = blocks

/-! ## One reservation -/

variable {search : FindClearBits} {m m' : Memory} {position size : Nat}

theorem roomFor_cons_iff {used : Nat → Bool} {n hint : Nat} {ns : List Nat}
    (h : search.find used n hint = some position) : RoomFor search used hint (n :: ns) ↔
      RoomFor search (fun b => used b || (position ≤ b && b < position + n)) position ns := by
  constructor
  · rintro ⟨position', hfound, hrest⟩
    obtain rfl : position' = position := Option.some.inj (hfound.symm.trans h)
    exact hrest
  · exact fun hrest => ⟨position, h, hrest⟩

theorem not_roomFor_cons {used : Nat → Bool} {n hint : Nat} {ns : List Nat}
    (h : search.find used n hint = none) : ¬RoomFor search used hint (n :: ns) := by
  rintro ⟨position, hfound, -⟩
  rw [h] at hfound
  cases hfound

/-- What is found can be reserved. -/
theorem reserve_of_position (h : search.position m size = some position) :
    ∃ m₁, reserveSpace m position size = some m₁ := by
  obtain ⟨hfits, hfree⟩ := search.found h
  have hclear : ∀ b < bitsOf size, m.bit kernel.bitmap (position + b) = false := by
    intro b hb
    have hblock : position + b < blocks := by omega
    have hused := hfree b hb
    rwa [bitmapOf, decide_eq_true hblock, Bool.true_and] at hused
  exact ⟨_, if_pos ⟨hfits, hclear⟩⟩

/-- The bitmap and the hint after a reservation, whatever is written to the buffer then. -/
theorem bitmap_after {m₁ : Memory} (h : reserveSpace m position size = some m₁)
    (hsame : ∀ x < 4120, m' x = m₁ x) :
    bitmapOf m' =
        (fun b => bitmapOf m b || (position ≤ b && b < position + bitsOf size)) ∧
      m'.readULong kernel.hint = position := by
  obtain ⟨hfits, -, hm₁⟩ := reserveSpace_cases h
  obtain ⟨hbits, -⟩ := reserved_bits h
  have hblocks := blocks_eq
  constructor
  · funext b
    by_cases hb : b < blocks
    · have hbit : m'.bit kernel.bitmap b = m₁.bit kernel.bitmap b := by
        refine Memory.bit_congr (hsame _ ?_)
        rw [kernel_eq]
        show 24 + b / 8 < 4120
        omega
      rw [bitmapOf, bitmapOf, hbit, hbits, decide_eq_true hb, Bool.true_and, Bool.true_and]
      congr 1
      rw [Bool.eq_iff_iff]
      simp only [Bool.and_eq_true, decide_eq_true_eq]
      rfl
    · have hout : ¬b < position + bitsOf size := by omega
      rw [bitmapOf, bitmapOf, decide_eq_false hb, decide_eq_false hout, Bool.and_false]
      rfl
  · have hhint : m₁.readULong kernel.hint = position := by
      rw [hm₁]
      exact Memory.readULong_writeULong (by omega)
    rw [← hhint, kernel_eq]
    exact Memory.readULong_congr fun x _ hx => hsame x (by
      have hx : x < 20 + 4 := hx
      omega)

/-! ## What is built -/

/-- An event that is being built, in a memory where its blocks are reserved. -/
structure Building (m : Memory) (e : KernelEvent) : Prop where
  heap : Heap m (allocations e ++ [])
  body : Body m e
  names : Names m e.position 0

/-- `CreateEvent` where there is room. -/
theorem createEvent_found (hsize : m.readULong kernel.sizeOfBitMap = blocks)
    (h : search.position m (structSize event) = some position) :
    ∃ m', SharedEventList.createEvent search m = some (some position, m') ∧
      Building m' { position } ∧ (∀ x < 8, m' x = m x) ∧
      bitmapOf m' = (fun b => bitmapOf m b || (position ≤ b &&
        b < position + bitsOf (structSize event))) ∧
      m'.readULong kernel.hint = position := by
  obtain ⟨m₁, hm₁⟩ := reserve_of_position h
  have hempty : Heap m [] := ⟨hsize, List.forall_mem_nil _, List.forall_mem_nil _,
    List.Pairwise.nil, List.forall_mem_nil _⟩
  have hm' : Driver.createEvent m position =
      some (m₁.write (addressOf position) (List.replicate (structSize event) 0)) := by
    rw [Driver.createEvent, hm₁]
    rfl
  obtain ⟨hheap, hbody, hnames, hlist, -⟩ := createEvent_spec hempty hm'
  have hlow : ∀ x < 4120,
      m₁.write (addressOf position) (List.replicate (structSize event) 0) x = m₁ x := by
    intro x hx
    have haddress := addressOf_eq position
    exact Memory.write_outside (.inl (by omega))
  refine ⟨_, ?_, ⟨hheap, hbody, hnames⟩, hlist, bitmap_after hm₁ hlow⟩
  rw [SharedEventList.createEvent, h]
  exact congrArg (Option.map fun m => (some position, m)) hm'

/-- `AddEventData` where there is room. -/
theorem addEventData_found {e : KernelEvent} {item : Item} (he : Building m e)
    (hwf : item.WellFormed)
    (h : search.position m (containerSize item.data.length) = some position) :
    ∃ m', SharedEventList.addEventData search (some e.position) item m = some m' ∧
      Building m' { e with items := e.items ++ [(position, item)] } ∧ (∀ x < 8, m' x = m x) ∧
      bitmapOf m' = (fun b => bitmapOf m b || (position ≤ b &&
        b < position + bitsOf (containerSize item.data.length))) ∧
      m'.readULong kernel.hint = position := by
  obtain ⟨m₀, hm₀⟩ := reserve_of_position h
  obtain ⟨m', hm'⟩ : ∃ m', Driver.addEventData m (addressOf e.position) item position = some m' := by
    rw [Driver.addEventData, hm₀]
    exact ⟨_, rfl⟩
  obtain ⟨⟨m₁, hm₁, hlow⟩, hheap, hbody, hnames, hlist, -⟩ :=
    addEventData_full he.heap hwf he.body he.names hm'
  refine ⟨m', ?_, ⟨hheap, hbody, hnames⟩, hlist, bitmap_after hm₁ hlow⟩
  rw [SharedEventList.addEventData, h]
  exact hm'

/-- The calls of `AddEventData`, one after another. -/
def addAll (search : FindClearBits) (event : Option Nat) : List Item → Memory → Option Memory
  | [], m => some m
  | item :: items, m =>
      (SharedEventList.addEventData search event item m).bind (addAll search event items)

theorem buildEvent_eq (c : PrintedConnection) (tcpState : BitVec 32) (m : Memory) :
    buildEvent search c tcpState m =
      (SharedEventList.createEvent search m).bind fun x =>
        (addAll search x.1 (reportItems c tcpState) x.2).map fun m => (x.1, m) := by
  rw [buildEvent]
  cases SharedEventList.createEvent search m with
  | none => rfl
  | some x =>
      simp only [reportItems, addAll, Option.bind_eq_bind, Option.bind_some, Option.pure_def,
        Option.map_eq_bind, Option.bind_assoc]
      rfl

/-- **The data** of an event: what there is room for is added, which is all of it just if there is
room for all. -/
theorem addAll_spec (items : List Item) : ∀ {m : Memory} {e : KernelEvent}, Building m e →
    (∀ item ∈ items, item.WellFormed) →
      ∃ m' added, addAll search (some e.position) items m = some m' ∧
        Building m' { e with items := e.items ++ added } ∧ (∀ x < 8, m' x = m x) ∧
        added.length ≤ items.length ∧
        (RoomFor search (bitmapOf m) (m.readULong kernel.hint) (itemBlocks items) →
          added.map Prod.snd = items) ∧
        (¬RoomFor search (bitmapOf m) (m.readULong kernel.hint) (itemBlocks items) →
          added.length < items.length) := by
  induction items with
  | nil =>
      intro m e he _
      refine ⟨m, [], rfl, ?_, fun _ _ => rfl, Nat.le_refl 0, fun _ => rfl,
        fun hnone => absurd trivial hnone⟩
      rw [List.append_nil]
      exact he
  | cons item items ih =>
      intro m e he hwf
      obtain ⟨hitem, hitems⟩ := List.forall_mem_cons.mp hwf
      cases hposition : search.position m (containerSize item.data.length) with
      | none =>
          -- the item is left out
          have hskip : SharedEventList.addEventData search (some e.position) item m = some m := by
            rw [SharedEventList.addEventData, hposition]
          obtain ⟨m', added, hall, hbuilding, hlist, hlength, -, -⟩ := ih he hitems
          have hnone : ¬RoomFor search (bitmapOf m) (m.readULong kernel.hint)
              (itemBlocks (item :: items)) := not_roomFor_cons hposition
          refine ⟨m', added, ?_, hbuilding, hlist, Nat.le_succ_of_le hlength,
            fun hroom => absurd hroom hnone, fun _ => Nat.lt_succ_of_le hlength⟩
          rw [addAll, hskip]
          exact hall
      | some position =>
          obtain ⟨m₁, hadd, hbuilding₁, hlist₁, hbitmap, hhint⟩ :=
            addEventData_found he hitem hposition
          obtain ⟨m', added, hall, hbuilding, hlist, hlength, hroom, hnone⟩ := ih hbuilding₁ hitems
          have hiff : RoomFor search (bitmapOf m) (m.readULong kernel.hint)
              (itemBlocks (item :: items)) ↔
                RoomFor search (bitmapOf m₁) (m₁.readULong kernel.hint) (itemBlocks items) := by
            rw [hbitmap, hhint]
            exact roomFor_cons_iff hposition
          refine ⟨m', (position, item) :: added, ?_, ?_,
            fun x hx => (hlist x hx).trans (hlist₁ x hx), Nat.succ_le_succ hlength, ?_, ?_⟩
          · rw [addAll, hadd]
            exact hall
          · rw [List.append_cons]
            exact hbuilding
          · intro h
            rw [List.map_cons, hroom (hiff.mp h)]
          · intro h
            exact Nat.succ_lt_succ (hnone fun hrest => h (hiff.mpr hrest))

/-! ## What was built, read again -/

/-- The containers of an event are determined by the memory. -/
theorem items_unique {items : List (Nat × Item)} : ∀ {items' : List (Nat × Item)}, Items m items →
    Items m items' → Linked.first (fun p => addressOf p.1) items =
      Linked.first (fun p => addressOf p.1) items' → items = items' := by
  have hpos (l : List (Nat × Item)) : ∀ p ∈ l, addressOf p.1 ≠ 0 := fun p _ => addressOf_ne_zero p.1
  induction items with
  | nil =>
      intro items' _ _ hfirst
      exact ((Linked.first_eq_zero (hpos items')).mp hfirst.symm).symm
  | cons p items ih =>
      intro items' h h' hfirst
      cases items' with
      | nil => exact absurd hfirst (addressOf_ne_zero p.1)
      | cons p' items' =>
          have hposition : p.1 = p'.1 := by
            have haddress : addressOf p.1 = addressOf p'.1 := hfirst
            rw [addressOf_eq, addressOf_eq] at haddress
            omega
          have hitem : p.2 = p'.2 := by
            rw [← h.1.1.2, ← h'.1.1.2, hposition]
          have hnext := h.1.1.1
          rw [hposition, h'.1.1.1] at hnext
          have hrest := ih ⟨h.1.2, fun q hq => h.2 q (List.mem_cons_of_mem _ hq)⟩
            ⟨h'.1.2, fun q hq => h'.2 q (List.mem_cons_of_mem _ hq)⟩ hnext.symm
          rw [Prod.ext hposition hitem, hrest]

theorem body_unique {e e' : KernelEvent} (h : Body m e) (h' : Body m e')
    (hposition : e.position = e'.position) : e.items = e'.items := by
  refine items_unique h.items h'.items ?_
  rw [← h.head, ← h'.head, hposition]

/-- Linking a node behind an event of the buffer does not touch the bitmap. -/
theorem link_bitmap {node x : Nat} (htail : 4120 ≤ m.readULong listTail) (hle : 8 ≤ x)
    (hlt : x < 4120) : link m listHead listTail node x = m x := by
  rw [listTail_eq] at htail
  rw [link, listHead_eq, listTail_eq]
  have hread : (if m.readULong 0 = 0 then m.writeULong 0 node else m).readULong 4 =
      m.readULong 4 := by
    split
    · exact Memory.readULong_writeULong_other (by omega)
    · rfl
  have hsame : (if m.readULong 0 = 0 then m.writeULong 0 node else m) x = m x := by
    split
    · exact Memory.writeULong_outside (by omega)
    · rfl
  simp only [hread]
  rw [if_pos (by omega), Memory.writeULong_outside (by omega), hsame]

theorem insertEvent_bitmap {ev x : Nat} (hevent : 4120 ≤ ev) (htail : 4120 ≤ m.readULong listTail)
    (hle : 8 ≤ x) (hlt : x < 4120) :
    (Driver.insertEvent m ev).writeULong listTail ev x = m x := by
  have hfields : ∀ y < 4120, (m.writeULong (ev + offsetOf event "ready") 1).writeULong
      (ev + offsetOf event "previous")
      ((m.writeULong (ev + offsetOf event "ready") 1).readULong listTail) y = m y := by
    intro y hy
    rw [Memory.writeULong_outside (by omega), Memory.writeULong_outside (by omega)]
  rw [Memory.writeULong_outside (by rw [listTail_eq]; omega), Driver.insertEvent,
    link_bitmap ?_ hle hlt, hfields x hlt]
  have hread : ((m.writeULong (ev + offsetOf event "ready") 1).writeULong
      (ev + offsetOf event "previous") ((m.writeULong (ev + offsetOf event "ready") 1).readULong
        listTail)).readULong listTail = m.readULong listTail := by
    refine Memory.readULong_congr fun y _ hy => hfields y ?_
    rw [listTail_eq] at hy
    omega
  rw [hread]
  exact htail

/-- The data of a report can be passed. -/
theorem reportItems_wellFormed (c : PrintedConnection) (tcpState : BitVec 32) :
    ∀ item ∈ reportItems c tcpState, item.WellFormed := by
  have hlocal := c.localText.short
  have hremote := c.remoteText.short
  have hkey (key : Nat) (data : List (BitVec 8)) (hk : key < 4) (hdata : data.length < 200) :
      Item.WellFormed ⟨key, key, data⟩ := by
    show key < 2 ^ 32 ∧ key < 2 ^ 32 ∧ data.length < 2 ^ 31
    omega
  have htext (text : List (BitVec 8)) (hshort : text.length < 128) :
      (text ++ [0]).length < 200 := by
    rw [List.length_append, List.length_singleton]
    omega
  have hulong (v : Nat) : (Memory.ulongBytes v).length < 200 := by
    show 4 < 200
    decide
  intro item hitem
  simp only [reportItems, List.mem_cons, List.not_mem_nil, or_false] at hitem
  obtain rfl | rfl | rfl | rfl := hitem
  · exact hkey 0 _ (by decide) (hulong _)
  · exact hkey 1 _ (by decide) (htext _ hlocal)
  · exact hkey 2 _ (by decide) (htext _ hremote)
  · exact hkey 3 _ (by decide) (hulong _)

theorem address_lt {added : List (Nat × Item)} (h : Building m { position, items := added }) :
    addressOf position < 2 ^ 32 := by
  have hfits : position + bitsOf (eventAt position).size ≤ blocks :=
    h.heap.fits _ (List.mem_append_left _ List.mem_cons_self)
  rw [blocks_eq] at hfits
  rw [addressOf_eq]
  omega

/-! ## The report -/

variable {c : PrintedConnection} {tcpState : BitVec 32}

theorem setConnectionState_eq : setConnectionState search (some c) tcpState m =
    (buildEvent search { c with state := tcpState } tcpState m).bind fun x =>
      (SharedEventList.insertEvent x.1 x.2).map fun m => (some { c with state := tcpState }, m) := by
  rw [setConnectionState]
  cases buildEvent search { c with state := tcpState } tcpState m with
  | none => rfl
  | some x =>
      show (SharedEventList.insertEvent x.1 x.2).bind _ = (SharedEventList.insertEvent x.1 x.2).map _
      cases SharedEventList.insertEvent x.1 x.2 with
      | none => rfl
      | some m => rfl

/-- Without room for the event a null event is used. -/
theorem setConnectionState_none (h : search.position m (structSize event) = none) :
    setConnectionState search (some c) tcpState m = none := by
  have hcreate : SharedEventList.createEvent search m = some (none, m) := by
    rw [SharedEventList.createEvent, h]
  rw [setConnectionState_eq, buildEvent_eq, hcreate, Option.bind_some]
  refine Option.bind_eq_none_iff.mpr fun x hx => ?_
  obtain ⟨m', -, rfl⟩ := Option.map_eq_some_iff.mp hx
  rfl

/-- With room for it, it is inserted with the data that there is room for. -/
theorem setConnectionState_some (hsize : m.readULong kernel.sizeOfBitMap = blocks)
    (h : search.position m (structSize event) = some position) :
    ∃ m₁ m' added, buildEvent search { c with state := tcpState } tcpState m =
        some (some position, m₁) ∧
      setConnectionState search (some c) tcpState m =
        some (some { c with state := tcpState }, m') ∧
      m' = (Driver.insertEvent m₁ (addressOf position)).writeULong listTail (addressOf position) ∧
      Building m₁ { position, items := added } ∧ (∀ x < 8, m₁ x = m x) ∧
      (RoomFor search (bitmapOf m) (m.readULong kernel.hint)
        (reportBlocks c tcpState) →
          added.map Prod.snd = reportItems c tcpState) ∧
      (¬RoomFor search (bitmapOf m) (m.readULong kernel.hint)
        (reportBlocks c tcpState) → added.length < 4) := by
  obtain ⟨m₀, hcreate, hbuilding₀, hlist₀, hbitmap, hhint⟩ := createEvent_found hsize h
  obtain ⟨m₁, added, hall, hbuilding, hlist, -, hroom, hnone⟩ := addAll_spec
    (reportItems c tcpState) hbuilding₀ (reportItems_wellFormed c tcpState)
  have hiff : RoomFor search (bitmapOf m) (m.readULong kernel.hint)
      (reportBlocks c tcpState) ↔
        RoomFor search (bitmapOf m₀) (m₀.readULong kernel.hint)
          (itemBlocks (reportItems c tcpState)) := by
    rw [hbitmap, hhint]
    exact roomFor_cons_iff h
  have hbuild : buildEvent search { c with state := tcpState } tcpState m =
      some (some position, m₁) := by
    rw [buildEvent_eq, hcreate, Option.bind_some]
    exact congrArg (Option.map fun m => (some position, m)) hall
  refine ⟨m₁, _, added, hbuild, ?_, rfl, hbuilding, fun x hx => (hlist x hx).trans (hlist₀ x hx),
    fun hfull => hroom (hiff.mp hfull), fun hfew => hnone fun hrest => hfew (hiff.mpr hrest)⟩
  rw [setConnectionState_eq, hbuild, Option.bind_some]
  rfl

/-- An event that was inserted without all its data is not complete, and is not nothing. -/
theorem not_clean {added : List (Nat × Item)} {m₁ : Memory}
    (hposition : search.position m (structSize event) = some position)
    (hbuild : buildEvent search { c with state := tcpState } tcpState m = some (some position, m₁))
    (hset : setConnectionState search (some c) tcpState m =
      some (some { c with state := tcpState },
        (Driver.insertEvent m₁ (addressOf position)).writeULong listTail (addressOf position)))
    (hbuilding : Building m₁ { position, items := added }) (hlist : ∀ x < 8, m₁ x = m x)
    (hfew : added.length < 4) : ¬ReportsCleanly search c tcpState m := by
  have hlt : addressOf position < 2 ^ 32 := address_lt hbuilding
  rintro ⟨m', hset', hcomplete | ⟨-, htail, hbits⟩⟩
  · -- there are fewer data than in a complete event
    obtain ⟨e, m₂, hbuild', hbody, -, hitems, -⟩ := hcomplete
    obtain ⟨hposition', rfl⟩ := Prod.mk.inj (Option.some.inj (hbuild.symm.trans hbuild'))
    have hsame : added = e.items :=
      body_unique hbuilding.body hbody (Option.some.inj hposition')
    have hlength := congrArg List.length hitems
    rw [List.length_map, ← hsame] at hlength
    exact absurd hlength (Nat.ne_of_lt hfew)
  · obtain ⟨-, rfl⟩ := Prod.mk.inj (Option.some.inj (hset.symm.trans hset'))
    rw [Memory.readULong_writeULong hlt] at htail
    have hbuffer : 4120 ≤ addressOf position := by
      rw [addressOf_eq]
      exact Nat.le_add_right ..
    have hsame : m₁.readULong listTail = m.readULong listTail :=
      Memory.readULong_congr fun x _ hx => hlist x hx
    have hlast : 4120 ≤ m₁.readULong listTail := by
      rw [hsame, ← htail]
      exact hbuffer
    -- the first block of the event was clear and is reserved
    obtain ⟨hfits, hfree⟩ := search.found hposition
    have hblocks : 0 < bitsOf (structSize event) := Nat.le_of_ble_eq_true rfl
    have hlow : position < blocks := by omega
    have hclear : m.bit kernel.bitmap position = false := by
      have hused := hfree 0 hblocks
      rwa [Nat.add_zero, bitmapOf, decide_eq_true hlow, Bool.true_and] at hused
    have hreserved : m₁.bit kernel.bitmap position = true :=
      hbuilding.heap.reserved (eventAt position) List.mem_cons_self position
        ⟨Nat.le_refl _, Nat.lt_add_of_pos_right hblocks⟩
    have hkept : ((Driver.insertEvent m₁ (addressOf position)).writeULong listTail
        (addressOf position)).bit kernel.bitmap position = m₁.bit kernel.bitmap position := by
      rw [blocks_eq] at hlow
      refine Memory.bit_congr (insertEvent_bitmap hbuffer hlast ?_ ?_)
      · rw [kernel_eq]
        show 8 ≤ 24 + position / 8
        omega
      · rw [kernel_eq]
        show 24 + position / 8 < 4120
        omega
    rw [hbits position hlow, hclear, hreserved] at hkept
    cases hkept

def clearAt (used : Nat → Bool) (n position : Nat) : Bool :=
  decide (position + n ≤ blocks ∧ ∀ b < n, used (position + b) = false)

/-- The first of the positions where `n` bits are clear. -/
def firstFitIn (positions : List Nat) (used : Nat → Bool) (n : Nat) : Option Nat :=
  positions.find? (clearAt used n)

theorem firstFitIn_found {positions : List Nat} {used : Nat → Bool} {n position : Nat}
    (hfound : firstFitIn positions used n = some position) :
    position + n ≤ blocks ∧ ∀ b < n, used (position + b) = false := by
  have hclear : clearAt used n position = true := List.find?_some hfound
  exact of_decide_eq_true hclear

theorem firstFitIn_full {positions : List Nat} {used : Nat → Bool} {n : Nat} (hpositive : 0 < n)
    (hfull : ∀ b < blocks, used b = true) : firstFitIn positions used n = none := by
  refine List.find?_eq_none.mpr ?_
  intro position _ hclear
  obtain ⟨hfits, hfree⟩ := of_decide_eq_true hclear
  have hused := hfree 0 hpositive
  rw [hfull (position + 0) (by omega)] at hused
  cases hused

def firstFit (positions : List Nat) : FindClearBits where
  find used n _ := firstFitIn positions used n
  found := firstFitIn_found

theorem firstFit_full {positions : List Nat} {m : Memory} {size : Nat}
    (hpositive : 0 < bitsOf size) (hfull : ∀ b < blocks, bitmapOf m b = true) :
    (firstFit positions).position m size = none :=
  firstFitIn_full hpositive hfull

/-- Every position of the bitmap. -/
def positions : List Nat := List.range (blocks + 1)

def fullMemory : Memory := Memory.writeULong (fun _ => 0xFF) kernel.sizeOfBitMap blocks

theorem fullMemory_sized : fullMemory.readULong kernel.sizeOfBitMap = blocks := by
  have hblocks : blocks < 2 ^ 32 := by
    rw [blocks_eq]
    omega
  exact Memory.readULong_writeULong hblocks

def fullBuffer : SharedBuffer := ⟨fullMemory, fullMemory_sized⟩

/-- A connection to 10.0.0.1:80. -/
def established : PrintedConnection where
  state := 3
  localText := ⟨[49, 48, 46, 48, 46, 48, 46, 50, 58, 57, 57], by decide⟩
  remoteText := ⟨[49, 48, 46, 48, 46, 48, 46, 49, 58, 56, 48], by decide⟩
  processId := 1234

theorem fullBuffer_bit {b : Nat} (hb : b < blocks) : bitmapOf fullBuffer.memory b = true := by
  rw [bitmapOf, decide_eq_true hb, Bool.true_and, Memory.bit, kernel_eq]
  have hbyte : fullBuffer.memory (24 + b / 8) = 0xFF := by
    show fullMemory (24 + b / 8) = 0xFF
    have hbehind : 8 + 4 ≤ 24 + b / 8 := by omega
    exact Memory.writeULong_outside (.inr hbehind)
  have hones : ∀ i < 8, (0xFF : BitVec 8).getLsbD i = true := by decide
  rw [hbyte]
  exact hones _ (Nat.mod_lt _ (by decide))

end SharedEventList

end CaptureHpc.Driver
