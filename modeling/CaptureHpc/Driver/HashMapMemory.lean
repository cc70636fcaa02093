/-
# `Driver.HashMapMemory` — the hash map as it is in memory

`Driver.HashMap` has a list in every bucket.  In memory a bucket is an entry
with a head and a tail, and its pairs name each other with `next` and `prev`.
An insertion allocates the entry, if the bucket has none, and a pair, and either
may fail; a removal writes to the pairs beside the one that goes, and frees it.

What the map stands for is the list of the pairs that were inserted and not
removed, the oldest first (`Represents`).  `refines_association_list` says that
in every run a search finds the first pair of that list with its key, and a
removal takes out that one.
-/
import CaptureHpc.Driver.HashMap
import CaptureHpc.Lib.DoublyLinked
import CaptureHpc.Lib.Machine
import Mathlib.Data.List.AList

namespace CaptureHpc.Driver

open DoublyLinked

/-- The address of a pair. -/
abbrev PairRef := Nat

/-- `Pair`. -/
structure PairCell (α : Type) where
  next : Option PairRef
  prev : Option PairRef
  key : BitVec 32
  value : α

/-- `Entry`. -/
structure Entry where
  head : Option PairRef
  tail : Option PairRef

/-- The map and the pairs that are allocated. -/
structure HashMapMemory (α : Type) where
  map : Fin hashMapSize → Option Entry
  pairs : AList fun _ : PairRef => PairCell α

namespace HashMapMemory

variable {α : Type}

/-- `InitialiseHashMap`. -/
def initialise : HashMapMemory α := { map := fun _ => none, pairs := ∅ }

/-- A write to a pair; it is undefined if the pair is not allocated. -/
def updatePair (m : HashMapMemory α) (r : PairRef) (f : PairCell α → PairCell α) :
    Option (HashMapMemory α) :=
  (m.pairs.lookup r).map fun cell => { m with pairs := m.pairs.insert r (f cell) }

/-- The same through a pointer that may be null, which is tested. -/
def updateIfAny (m : HashMapMemory α) (pointer : Option PairRef) (f : PairCell α → PairCell α) :
    Option (HashMapMemory α) :=
  match pointer with
  | some r => m.updatePair r f
  | none => some m

def setEntry (m : HashMapMemory α) (b : Fin hashMapSize) (entry : Entry) : HashMapMemory α :=
  { m with map := Function.update m.map b (some entry) }

/-- `InsertHashMap`, with what the pool answers: whether it has memory for an entry, and the
address of the pair if it has memory for one. -/
def insert (m : HashMapMemory α) (key : BitVec 32) (value : α) (entryAllocated : Bool)
    (pair : Option PairRef) : Option (Bool × HashMapMemory α) :=
  match (m.map (HashMap.hash key)).or (if entryAllocated then some ⟨none, none⟩ else none) with
  | none => some (false, m)
  | some entry =>
      let m := m.setEntry (HashMap.hash key) entry
      match pair with
      | none => some (false, m)
      | some pair => do
          let cell := { key, value, next := none, prev := entry.tail }
          let m := { m with pairs := m.pairs.insert pair cell }
          let m :=
            if entry.head = none then m.setEntry (HashMap.hash key) { entry with head := some pair }
            else m
          let entry ← m.map (HashMap.hash key)
          let m ← m.updateIfAny entry.tail fun tail => { tail with next := some pair }
          return (true, m.setEntry (HashMap.hash key) { entry with tail := some pair })

/-- The loop of `FindHashMap`.  With more rounds than there are pairs it would go around in a
circle. -/
def findLoop (m : HashMapMemory α) (key : BitVec 32) :
    Nat → Option PairRef → Option (Option PairRef)
  | 0, _ => none
  | _ + 1, none => some none
  | rounds + 1, some pair => do
      let cell ← m.pairs.lookup pair
      if cell.key = key then return some pair else findLoop m key rounds cell.next

/-- `FindHashMap`; undefined if it comes to a pair that is not allocated, or to no end. -/
def find (m : HashMapMemory α) (key : BitVec 32) : Option (Option PairRef) :=
  match m.map (HashMap.hash key) with
  | none => some none
  | some entry => m.findLoop key (m.pairs.keys.length + 1) entry.head

/-- `FindHashMapValue`. -/
def findValue (m : HashMapMemory α) (key : BitVec 32) : Option (Option α) := do
  match ← m.find key with
  | none => return none
  | some pair =>
      let cell ← m.pairs.lookup pair
      return some cell.value

/-- `RemoveHashMap`. -/
def remove (m : HashMapMemory α) (key : BitVec 32) : Option (Bool × HashMapMemory α) := do
  match ← m.find key with
  | none => return (false, m)
  | some pair =>
      let cell ← m.pairs.lookup pair
      let m ← m.updateIfAny cell.next fun next => { next with prev := cell.prev }
      let cell ← m.pairs.lookup pair
      let m ← m.updateIfAny cell.prev fun prev => { prev with next := cell.next }
      let cell ← m.pairs.lookup pair
      let entry ← m.map (HashMap.hash key)
      let entry := if entry.head = some pair then { entry with head := cell.next } else entry
      let entry := if entry.tail = some pair then { entry with tail := cell.prev } else entry
      return (true, { m.setEntry (HashMap.hash key) entry with pairs := m.pairs.erase pair })

/-! ## What the map stands for -/

/-- The pairs that were inserted and not removed, the oldest first, with their addresses. -/
abbrev Log (α : Type) := List (PairRef × Pair α)

def inBucket (b : Fin hashMapSize) (e : PairRef × Pair α) : Bool := HashMap.hash e.2.key = b

def hasKey (key : BitVec 32) (e : PairRef × Pair α) : Bool := e.2.key = key

/-- The pairs in a bucket. -/
def bucket (log : Log α) (b : Fin hashMapSize) : Log α := log.filter (inBucket b)

/-- The oldest pair with a key. -/
def oldest (log : Log α) (key : BitVec 32) : Option (PairRef × Pair α) := log.find? (hasKey key)

/-- All but that one. -/
def withoutOldest (log : Log α) (key : BitVec 32) : Log α := log.eraseP (hasKey key)

/-- A pair is in memory, between two others. -/
def Holds (m : HashMapMemory α) (e : PairRef × Pair α) (prev next : Option PairRef) : Prop :=
  m.pairs.lookup e.1 = some { next, prev, key := e.2.key, value := e.2.value }

/-- The head and the tail of a bucket are the ends of a list, and its pairs are linked. -/
structure Represents (m : HashMapMemory α) (log : Log α) : Prop where
  once : (log.map Prod.fst).Nodup
  allocated : ∀ r cell, m.pairs.lookup r = some cell → r ∈ log.map Prod.fst
  head : ∀ b, (m.map b).bind Entry.head = first Prod.fst none (bucket log b)
  tail : ∀ b, (m.map b).bind Entry.tail = last Prod.fst none (bucket log b)
  linked : ∀ b, Linked Prod.fst m.Holds none none (bucket log b)

/-! ### Lists of pairs -/

section Logs
variable {log front rest : Log α} {e : PairRef × Pair α} {key : BitVec 32} {b : Fin hashMapSize}

theorem mem_bucket : e ∈ bucket log b ↔ e ∈ log ∧ HashMap.hash e.2.key = b := by
  rw [bucket, List.mem_filter, inBucket, decide_eq_true_eq]

theorem bucket_append : bucket (front ++ rest) b = bucket front b ++ bucket rest b :=
  List.filter_append ..

theorem bucket_cons_self (h : HashMap.hash e.2.key = b) :
    bucket (e :: log) b = e :: bucket log b :=
  List.filter_cons_of_pos (decide_eq_true h)

theorem bucket_cons_of_ne (h : HashMap.hash e.2.key ≠ b) : bucket (e :: log) b = bucket log b :=
  List.filter_cons_of_neg fun hin => h (of_decide_eq_true hin)

/-- The oldest pair is in its bucket the first. -/
theorem find?_bucket (log : Log α) (key : BitVec 32) :
    (bucket log (HashMap.hash key)).find? (hasKey key) = oldest log key := by
  rw [bucket, List.find?_filter, oldest]
  congr 1
  funext e
  by_cases hkey : e.2.key = key
  · simp [inBucket, hasKey, hkey]
  · simp [hasKey, hkey]

/-- Where the oldest pair is. -/
theorem oldest_split (h : oldest log key = some e) : e.2.key = key ∧ ∃ front rest,
    log = front ++ e :: rest ∧ withoutOldest log key = front ++ rest := by
  obtain ⟨hkey, front, rest, rfl, hfront⟩ := List.find?_eq_some_iff_append.mp h
  refine ⟨of_decide_eq_true hkey, front, rest, rfl, ?_⟩
  have hnot : ∀ a ∈ front, ¬ hasKey key a = true := by
    intro a ha
    simpa using hfront a ha
  rw [withoutOldest, List.eraseP_append_right _ hnot, List.eraseP_cons_of_pos hkey]

theorem withoutOldest_of_none (h : oldest log key = none) : withoutOldest log key = log :=
  List.eraseP_of_forall_not fun e he => List.find?_eq_none.mp h e he

theorem mem_withoutOldest (honce : (log.map Prod.fst).Nodup) :
    e ∈ withoutOldest log key ↔ e ∈ log ∧ (oldest log key).map Prod.fst ≠ some e.1 := by
  cases hfound : oldest log key with
  | none =>
      rw [withoutOldest_of_none hfound]
      exact ⟨fun he => ⟨he, Option.some_ne_none _ ∘ Eq.symm⟩, And.left⟩
  | some e' =>
      obtain ⟨-, front, rest, rfl, hwithout⟩ := oldest_split hfound
      rw [List.map_append, List.map_cons, List.nodup_middle, List.nodup_cons, ← List.map_append]
        at honce
      rw [hwithout, Option.map_some, List.mem_append, List.mem_append, List.mem_cons]
      constructor
      · intro he
        refine ⟨he.imp_right .inr, fun haddress => honce.1 ?_⟩
        rw [Option.some.inj haddress]
        exact List.mem_map_of_mem (List.mem_append.mpr he)
      · rintro ⟨he, hne⟩
        refine he.imp_right fun he => he.resolve_left ?_
        rintro rfl
        exact hne rfl

end Logs

/-! ### Writing -/

section Write
variable {m : HashMapMemory α} {b : Fin hashMapSize} {entry : Entry}

@[simp] theorem setEntry_pairs : (m.setEntry b entry).pairs = m.pairs := rfl

@[simp] theorem setEntry_map_self : (m.setEntry b entry).map b = some entry :=
  Function.update_self ..

theorem setEntry_map_of_ne {b' : Fin hashMapSize} (h : b' ≠ b) :
    (m.setEntry b entry).map b' = m.map b' :=
  Function.update_of_ne h ..

/-- A write through a pointer that is null or names a pair. -/
theorem updateIfAny_eq (m : HashMapMemory α) (pointer : Option PairRef)
    (f : PairCell α → PairCell α)
    (h : ∀ r, pointer = some r → ∃ cell, m.pairs.lookup r = some cell) :
    ∃ m', m.updateIfAny pointer f = some m' ∧ m'.map = m.map ∧
      ∀ x, m'.pairs.lookup x =
        (m.pairs.lookup x).map fun cell => if pointer = some x then f cell else cell := by
  cases pointer with
  | none => exact ⟨m, rfl, rfl, fun x => by simp⟩
  | some r =>
      obtain ⟨cell, hcell⟩ := h r rfl
      refine ⟨{ m with pairs := m.pairs.insert r (f cell) }, ?_, rfl, fun x => ?_⟩
      · rw [updateIfAny, updatePair, hcell, Option.map_some]
      · by_cases hx : x = r
        · subst hx
          simp [AList.lookup_insert, hcell]
        · have hne : ¬ some r = some x := fun heq => hx (Option.some.inj heq).symm
          simp [AList.lookup_insert_ne hx, hne]

/-- **What an insertion does**, where the bucket has an entry and there is memory for the pair. -/
theorem insert_eq {key : BitVec 32} {r : PairRef} (value : α) (entryAllocated : Bool)
    (hentry : (m.map (HashMap.hash key)).or (if entryAllocated then some ⟨none, none⟩ else none) =
      some entry)
    (hfresh : m.pairs.lookup r = none)
    (htail : ∀ t, entry.tail = some t → ∃ cell, m.pairs.lookup t = some cell) :
    ∃ m', m.insert key value entryAllocated (some r) = some (true, m') ∧
      m'.map = Function.update m.map (HashMap.hash key)
        (some { head := entry.head.or (some r), tail := some r }) ∧
      m'.pairs.lookup r = some { key, value, next := none, prev := entry.tail } ∧
      ∀ x, x ≠ r → m'.pairs.lookup x = (m.pairs.lookup x).map fun cell =>
        if entry.tail = some x then { cell with next := some r } else cell := by
  simp only [insert, hentry]
  generalize hm₃ : (if entry.head = none then _ else _ : HashMapMemory α) = m₃
  -- the head
  obtain ⟨hmap, hpairs⟩ : m₃.map = Function.update m.map (HashMap.hash key)
        (some { head := entry.head.or (some r), tail := entry.tail }) ∧
      m₃.pairs = m.pairs.insert r { key, value, next := none, prev := entry.tail } := by
    cases hhead : entry.head with
    | none =>
        rw [if_pos hhead] at hm₃
        subst hm₃
        exact ⟨Function.update_idem .., rfl⟩
    | some head =>
        rw [if_neg (by rw [hhead]; exact Option.some_ne_none head)] at hm₃
        subst hm₃
        rw [Option.some_or, ← hhead]
        exact ⟨rfl, rfl⟩
  have hself : m₃.map (HashMap.hash key) =
      some { head := entry.head.or (some r), tail := entry.tail } := by
    rw [hmap, Function.update_self]
  -- the pair that was the last
  have hlookup : ∀ x, x ≠ r → m₃.pairs.lookup x = m.pairs.lookup x := by
    intro x hx
    rw [hpairs, AList.lookup_insert_ne hx]
  have hne : ∀ t, entry.tail = some t → t ≠ r := by
    rintro t ht rfl
    obtain ⟨cell, hcell⟩ := htail t ht
    rw [hfresh] at hcell
    cases hcell
  have hlast : ∀ t, entry.tail = some t → ∃ cell, m₃.pairs.lookup t = some cell := by
    intro t ht
    rw [hlookup t (hne t ht)]
    exact htail t ht
  obtain ⟨m₄, hm₄, hmap₄, hlookup₄⟩ := m₃.updateIfAny_eq entry.tail
    (fun tail => { tail with next := some r }) hlast
  refine ⟨m₄.setEntry (HashMap.hash key) { head := entry.head.or (some r), tail := some r },
    ?_, ?_, ?_, ?_⟩
  · simp only [hself, hm₄, Option.bind_eq_bind, Option.bind_some]
    rfl
  · rw [setEntry, hmap₄, hmap, Function.update_idem]
  · have hnot : ¬ entry.tail = some r := fun h => hne r h rfl
    rw [setEntry_pairs, hlookup₄, hpairs, AList.lookup_insert, Option.map_some, if_neg hnot]
  · intro x hx
    rw [setEntry_pairs, hlookup₄, hlookup x hx]

/-- **What a removal does** with the pair that is found. -/
theorem remove_eq {key : BitVec 32} {r : PairRef} {cell : PairCell α}
    (hfind : m.find key = some (some r)) (hcell : m.pairs.lookup r = some cell)
    (hentry : m.map (HashMap.hash key) = some entry)
    (hnext : ∀ t, cell.next = some t → t ≠ r ∧ ∃ c, m.pairs.lookup t = some c)
    (hprev : ∀ t, cell.prev = some t → t ≠ r ∧ ∃ c, m.pairs.lookup t = some c) :
    ∃ m', m.remove key = some (true, m') ∧
      m'.map = Function.update m.map (HashMap.hash key)
        (some { head := if entry.head = some r then cell.next else entry.head
                tail := if entry.tail = some r then cell.prev else entry.tail }) ∧
      m'.pairs.lookup r = none ∧
      ∀ x, x ≠ r → m'.pairs.lookup x = (m.pairs.lookup x).map fun c =>
        { c with
          prev := if cell.next = some x then cell.prev else c.prev
          next := if cell.prev = some x then cell.next else c.next } := by
  have hnot : ∀ {p : Option PairRef}, (∀ t, p = some t → t ≠ r ∧ ∃ c, m.pairs.lookup t = some c) →
      ¬ p = some r := fun h hp => (h r hp).1 rfl
  -- the pair behind it
  obtain ⟨m₁, hm₁, hmap₁, hlookup₁⟩ := m.updateIfAny_eq cell.next
    (fun next => { next with prev := cell.prev }) fun t ht => (hnext t ht).2
  have hcell₁ : m₁.pairs.lookup r = some cell := by
    rw [hlookup₁, hcell, Option.map_some, if_neg (hnot hnext)]
  -- the pair before it
  obtain ⟨m₂, hm₂, hmap₂, hlookup₂⟩ := m₁.updateIfAny_eq cell.prev
    (fun prev => { prev with next := cell.next }) (by
      intro t ht
      obtain ⟨c, hc⟩ := (hprev t ht).2
      exact ⟨_, by rw [hlookup₁, hc, Option.map_some]⟩)
  have hcell₂ : m₂.pairs.lookup r = some cell := by
    rw [hlookup₂, hcell₁, Option.map_some, if_neg (hnot hprev)]
  have hentry₂ : m₂.map (HashMap.hash key) = some entry := by rw [hmap₂, hmap₁, hentry]
  refine ⟨{ m₂.setEntry (HashMap.hash key)
      { head := if entry.head = some r then cell.next else entry.head
        tail := if entry.tail = some r then cell.prev else entry.tail } with
    pairs := m₂.pairs.erase r }, ?_, ?_, AList.lookup_erase .., ?_⟩
  · simp only [remove, hfind, hcell, hm₁, hcell₁, hm₂, hcell₂, hentry₂, Option.bind_eq_bind,
      Option.bind_some]
    split_ifs <;> rfl
  · rw [← hmap₁, ← hmap₂]
    rfl
  · intro x hx
    show (m₂.pairs.erase r).lookup x = _
    rw [AList.lookup_erase_ne hx, hlookup₂, hlookup₁, Option.map_map]
    congr 1
    funext c
    simp only [Function.comp]
    split_ifs <;> rfl

end Write

/-! ### Searching -/

section Find
variable {m : HashMapMemory α} {log : Log α} {b : Fin hashMapSize}

theorem Represents.holds_of_mem (h : m.Represents log) {e : PairRef × Pair α} (he : e ∈ log) :
    ∃ prev next, m.Holds e prev next :=
  (h.linked _).holds_of_mem (mem_bucket.mpr ⟨he, rfl⟩)

/-- Pairs with the same address are the same. -/
theorem Represents.eq_of_address (h : m.Represents log) {e e' : PairRef × Pair α} (he : e ∈ log)
    (he' : e' ∈ log) (haddress : e.1 = e'.1) : e = e' :=
  List.inj_on_of_nodup_map h.once he he' haddress

theorem Represents.length_bucket_le (h : m.Represents log) :
    (bucket log b).length ≤ m.pairs.keys.length := by
  have hkeys : log.map Prod.fst ⊆ m.pairs.keys := by
    intro r hr
    obtain ⟨e, he, rfl⟩ := List.mem_map.mp hr
    obtain ⟨prev, next, hholds⟩ := h.holds_of_mem he
    rw [← AList.mem_keys, ← AList.lookup_isSome, hholds]
    rfl
  have hlength := (List.subperm_of_subset h.once hkeys).length_le
  rw [List.length_map] at hlength
  exact Nat.le_trans (List.length_filter_le ..) hlength

/-- **The loop** finds the first pair of what it goes through. -/
theorem findLoop_eq (key : BitVec 32) {rounds : Nat} {before : Option PairRef} {l : Log α}
    (hlinked : Linked Prod.fst m.Holds none before l) (hrounds : l.length < rounds) :
    m.findLoop key rounds (first Prod.fst none l) =
      some ((l.find? (hasKey key)).map Prod.fst) := by
  induction l generalizing rounds before with
  | nil =>
      cases rounds with
      | zero => exact absurd hrounds (Nat.not_lt_zero _)
      | succ rounds => rfl
  | cons e l ih =>
      cases rounds with
      | zero => exact absurd hrounds (Nat.not_lt_zero _)
      | succ rounds =>
          have hholds : m.pairs.lookup e.1 = _ := hlinked.1
          have hrest := ih hlinked.2 (Nat.lt_of_succ_lt_succ hrounds)
          rw [first_cons, findLoop, hholds, Option.bind_eq_bind, Option.bind_some]
          by_cases hkey : e.2.key = key
          · have hpos : hasKey key e = true := decide_eq_true hkey
            rw [if_pos hkey, List.find?_cons_of_pos hpos]
            rfl
          · have hneg : ¬ hasKey key e = true := fun h => hkey (of_decide_eq_true h)
            rw [if_neg hkey, hrest, List.find?_cons_of_neg hneg]

/-- **A search** finds the oldest pair with the key. -/
theorem Represents.find_eq (h : m.Represents log) (key : BitVec 32) :
    m.find key = some ((oldest log key).map Prod.fst) := by
  have hloop := findLoop_eq key (h.linked (HashMap.hash key))
    (Nat.lt_succ_of_le h.length_bucket_le)
  rw [find?_bucket, ← h.head] at hloop
  rw [find]
  cases hentry : m.map (HashMap.hash key) with
  | none =>
      rw [hentry, Option.bind_none] at hloop
      rw [← hloop]
      rfl
  | some entry =>
      rw [hentry, Option.bind_some] at hloop
      exact hloop

/-- What is found is in memory. -/
theorem Represents.findValue_eq (h : m.Represents log) (key : BitVec 32) :
    m.findValue key = some ((oldest log key).map fun e => e.2.value) := by
  rw [findValue, h.find_eq]
  cases hfound : oldest log key with
  | none => rfl
  | some e =>
      obtain ⟨prev, next, hholds⟩ := h.holds_of_mem (List.mem_of_find?_eq_some hfound)
      have hlookup : m.pairs.lookup e.1 = _ := hholds
      simp only [Option.map_some, Option.bind_eq_bind, Option.bind_some, hlookup]
      rfl

end Find

/-! ## What the operations keep -/

section Keep
variable {m : HashMapMemory α} {log : Log α} {key : BitVec 32} {value : α} {r : PairRef}

theorem Represents.initialise : (initialise : HashMapMemory α).Represents [] where
  once := List.nodup_nil
  allocated r cell h := by
    rw [HashMapMemory.initialise, AList.lookup_empty] at h
    cases h
  head _ := rfl
  tail _ := rfl
  linked _ := trivial

/-- A bucket gets an entry with its own head and tail. -/
theorem Represents.setEntry (h : m.Represents log) {b : Fin hashMapSize} {entry : Entry}
    (hhead : entry.head = (m.map b).bind Entry.head)
    (htail : entry.tail = (m.map b).bind Entry.tail) : (m.setEntry b entry).Represents log where
  once := h.once
  allocated := h.allocated
  head b' := by
    by_cases hb : b' = b
    · subst hb
      rw [setEntry_map_self, Option.bind_some, hhead, h.head]
    · rw [setEntry_map_of_ne hb, h.head]
  tail b' := by
    by_cases hb : b' = b
    · subst hb
      rw [setEntry_map_self, Option.bind_some, htail, h.tail]
    · rw [setEntry_map_of_ne hb, h.tail]
  linked := h.linked

/-- A pair in another bucket has another address. -/
theorem Represents.ne_of_bucket (h : m.Represents log) {b b' : Fin hashMapSize}
    {e e' : PairRef × Pair α} (he : e ∈ bucket log b) (he' : e' ∈ bucket log b') (hb : b' ≠ b) :
    e.1 ≠ e'.1 := by
  intro haddress
  obtain ⟨he, hhash⟩ := mem_bucket.mp he
  obtain ⟨he', hhash'⟩ := mem_bucket.mp he'
  obtain rfl := h.eq_of_address he he' haddress
  exact hb (hhash'.symm.trans hhash)

theorem Represents.nodup_bucket (h : m.Represents log) (b : Fin hashMapSize) :
    ((bucket log b).map Prod.fst).Nodup :=
  h.once.sublist (List.filter_sublist.map Prod.fst)

/-- An entry that is new has no head and no tail. -/
theorem entry_ends {old : Option Entry} {entry : Entry} {entryAllocated : Bool}
    (h : old.or (if entryAllocated then some ⟨none, none⟩ else none) = some entry) :
    entry.head = old.bind Entry.head ∧ entry.tail = old.bind Entry.tail := by
  cases old with
  | some entry' =>
      obtain rfl := Option.some.inj h
      exact ⟨rfl, rfl⟩
  | none =>
      rw [Option.none_or] at h
      split at h
      · obtain rfl := Option.some.inj h
        exact ⟨rfl, rfl⟩
      · cases h

theorem bucket_concat (log : Log α) (e : PairRef × Pair α) (b : Fin hashMapSize) :
    bucket (log ++ [e]) b =
      if b = HashMap.hash e.2.key then bucket log b ++ [e] else bucket log b := by
  rw [bucket_append]
  split
  · next hb =>
      rw [bucket_cons_self hb.symm]
      rfl
  · next hb =>
      rw [bucket_cons_of_ne (fun heq => hb heq.symm)]
      exact List.append_nil _

/-- **A pair is inserted.** -/
theorem Represents.insert_pair (h : m.Represents log) {entry : Entry} (entryAllocated : Bool)
    (hentry : (m.map (HashMap.hash key)).or (if entryAllocated then some ⟨none, none⟩ else none) =
      some entry)
    (hfresh : m.pairs.lookup r = none) :
    ∃ m', m.insert key value entryAllocated (some r) = some (true, m') ∧
      m'.Represents (log ++ [(r, ⟨key, value⟩)]) := by
  obtain ⟨hhead, htail⟩ := entry_ends hentry
  rw [h.head] at hhead
  rw [h.tail] at htail
  obtain ⟨m', hinsert, hmap, hnew, hlookup⟩ := @insert_eq _ m entry key r value entryAllocated
    hentry hfresh (by
      intro t ht
      obtain ⟨e, he, rfl⟩ := exists_of_last_none (htail.symm.trans ht)
      obtain ⟨prev, next, hholds⟩ := h.holds_of_mem (mem_bucket.mp he).1
      exact ⟨_, hholds⟩)
  have hne : ∀ e ∈ log, e.1 ≠ r := by
    rintro e he rfl
    obtain ⟨prev, next, hholds⟩ := h.holds_of_mem he
    rw [Holds, hfresh] at hholds
    cases hholds
  -- the pair that was the last names the new one
  have hkeep : ∀ e ∈ log, ∀ p n, m.Holds e p n →
      m'.Holds e p (if entry.tail = some e.1 then some r else n) := by
    intro e he p n hholds
    rw [Holds, hlookup e.1 (hne e he), hholds, Option.map_some]
    split <;> rfl
  refine ⟨m', hinsert, ?_, ?_, ?_, ?_, ?_⟩
  · rw [List.map_append, List.map_singleton, List.nodup_append]
    refine ⟨h.once, List.nodup_singleton r, ?_⟩
    rintro a ha b hb rfl
    obtain ⟨e, he, rfl⟩ := List.mem_map.mp ha
    exact hne e he (List.mem_singleton.mp hb)
  · intro x cell hx
    rw [List.map_append, List.mem_append]
    by_cases hxr : x = r
    · exact .inr (List.mem_singleton.mpr hxr)
    · rw [hlookup x hxr, Option.map_eq_some_iff] at hx
      obtain ⟨cell', hcell', -⟩ := hx
      exact .inl (h.allocated x cell' hcell')
  · intro b
    rw [bucket_concat, hmap]
    split
    · next hb =>
        subst hb
        rw [Function.update_self, Option.bind_some, first_append, hhead, first, Option.or_none]
        rfl
    · next hb => rw [Function.update_of_ne hb, h.head]
  · intro b
    rw [bucket_concat, hmap]
    split
    · next hb =>
        subst hb
        rw [Function.update_self, Option.bind_some, last_concat]
    · next hb => rw [Function.update_of_ne hb, h.tail]
  · intro b
    rw [bucket_concat]
    split
    · next hb =>
        subst hb
        refine (h.linked _).concat (h.nodup_bucket _) ?_ ?_
        · intro e he p n hholds
          rw [← htail]
          exact hkeep e (mem_bucket.mp he).1 p n hholds
        · rw [← htail]
          exact hnew
    · next hb =>
        refine (h.linked b).mono fun e he p n hholds => ?_
        have hnew := hkeep e (mem_bucket.mp he).1 p n hholds
        rwa [if_neg] at hnew
        intro hlast
        obtain ⟨e', he', haddress⟩ := exists_of_last_none (htail.symm.trans hlast)
        exact h.ne_of_bucket he' he hb haddress

/-- A pair that is in the middle. -/
theorem bucket_middle (front rest : Log α) (e : PairRef × Pair α) (b : Fin hashMapSize) :
    bucket (front ++ e :: rest) b =
      if b = HashMap.hash e.2.key then bucket front b ++ e :: bucket rest b
      else bucket (front ++ rest) b := by
  rw [bucket_append, bucket_append]
  split
  · next hb => rw [bucket_cons_self hb.symm]
  · next hb => rw [bucket_cons_of_ne fun heq => hb heq.symm]

section Middle
variable {front rest : Log α} {e x : PairRef × Pair α}

theorem Represents.linked_middle (h : m.Represents (front ++ e :: rest)) :
    Linked Prod.fst m.Holds none none
      (bucket front (HashMap.hash e.2.key) ++ e :: bucket rest (HashMap.hash e.2.key)) := by
  have hlinked := h.linked (HashMap.hash e.2.key)
  rwa [bucket_middle, if_pos rfl] at hlinked

theorem Represents.nodup_middle (h : m.Represents (front ++ e :: rest)) :
    e.1 ∉ (front ++ rest).map Prod.fst ∧ ((front ++ rest).map Prod.fst).Nodup := by
  have honce := h.once
  rwa [List.map_append, List.map_cons, List.nodup_middle, List.nodup_cons, ← List.map_append]
    at honce

/-- The others are somewhere else in memory. -/
theorem Represents.other (h : m.Represents (front ++ e :: rest)) (hx : x ∈ front ++ rest) :
    x ∈ front ++ e :: rest ∧ x.1 ≠ e.1 ∧ ∃ c, m.pairs.lookup x.1 = some c := by
  have hmem : x ∈ front ++ e :: rest :=
    List.mem_append.mpr ((List.mem_append.mp hx).imp_right (List.mem_cons_of_mem e))
  obtain ⟨prev, next, hholds⟩ := h.holds_of_mem hmem
  refine ⟨hmem, fun haddress => h.nodup_middle.1 ?_, _, hholds⟩
  exact haddress ▸ List.mem_map_of_mem hx

theorem exists_of_first_bucket (front : Log α) {b : Fin hashMapSize}
    (h : first Prod.fst none (bucket rest b) = some r) :
    ∃ x ∈ front ++ rest, x.1 = r ∧ HashMap.hash x.2.key = b := by
  obtain ⟨x, hx, haddress⟩ := exists_of_first_none h
  obtain ⟨hx, hhash⟩ := mem_bucket.mp hx
  exact ⟨x, List.mem_append_right _ hx, haddress, hhash⟩

theorem exists_of_last_bucket (rest : Log α) {b : Fin hashMapSize}
    (h : last Prod.fst none (bucket front b) = some r) :
    ∃ x ∈ front ++ rest, x.1 = r ∧ HashMap.hash x.2.key = b := by
  obtain ⟨x, hx, haddress⟩ := exists_of_last_none h
  obtain ⟨hx, hhash⟩ := mem_bucket.mp hx
  exact ⟨x, List.mem_append_left _ hx, haddress, hhash⟩

/-- The bucket of a pair has an entry. -/
theorem Represents.entry_middle (h : m.Represents (front ++ e :: rest)) :
    ∃ entry, m.map (HashMap.hash e.2.key) = some entry ∧
      entry.head = first Prod.fst none
        (bucket front (HashMap.hash e.2.key) ++ e :: bucket rest (HashMap.hash e.2.key)) ∧
      entry.tail = last Prod.fst none
        (bucket front (HashMap.hash e.2.key) ++ e :: bucket rest (HashMap.hash e.2.key)) := by
  have hhead := h.head (HashMap.hash e.2.key)
  have htail := h.tail (HashMap.hash e.2.key)
  rw [bucket_middle, if_pos rfl] at hhead htail
  cases hmap : m.map (HashMap.hash e.2.key) with
  | none =>
      rw [hmap, Option.bind_none, first_append, first, first_cons, Option.or_some] at hhead
      cases hhead
  | some entry =>
      rw [hmap, Option.bind_some] at hhead htail
      exact ⟨entry, rfl, hhead, htail⟩

/-- **A pair is taken out** of the middle, when the entry and the pairs beside it are told. -/
theorem Represents.erase_middle (h : m.Represents (front ++ e :: rest)) {m' : HashMapMemory α}
    {entry : Entry} {before behind : Option PairRef}
    (hbefore : before = last Prod.fst none (bucket front (HashMap.hash e.2.key)))
    (hbehind : behind = first Prod.fst none (bucket rest (HashMap.hash e.2.key)))
    (hentry : m.map (HashMap.hash e.2.key) = some entry)
    (hmap : m'.map = Function.update m.map (HashMap.hash e.2.key)
      (some { head := if entry.head = some e.1 then behind else entry.head
              tail := if entry.tail = some e.1 then before else entry.tail }))
    (hgone : m'.pairs.lookup e.1 = none)
    (hlookup : ∀ x, x ≠ e.1 → m'.pairs.lookup x = (m.pairs.lookup x).map fun c =>
      { c with
        prev := if behind = some x then before else c.prev
        next := if before = some x then behind else c.next }) :
    m'.Represents (front ++ rest) := by
  obtain ⟨entry', hentry', hhead, htail⟩ := h.entry_middle
  obtain rfl := Option.some.inj (hentry.symm.trans hentry')
  have hother : ∀ x ∈ front ++ rest, ∀ p n, m.Holds x p n → m'.Holds x
      (if behind = some x.1 then before else p) (if before = some x.1 then behind else n) := by
    intro x hx p n hholds
    rw [Holds, hlookup x.1 (h.other hx).2.1, hholds]
    rfl
  have hmem : ∀ x ∈ bucket front (HashMap.hash e.2.key) ++ bucket rest (HashMap.hash e.2.key),
      x ∈ front ++ rest := by
    intro x hx
    rw [← bucket_append] at hx
    exact (mem_bucket.mp hx).1
  refine ⟨h.nodup_middle.2, ?_, ?_, ?_, ?_⟩
  · intro x cell hx
    have hxe : x ≠ e.1 := by
      rintro rfl
      rw [hgone] at hx
      cases hx
    rw [hlookup x hxe, Option.map_eq_some_iff] at hx
    obtain ⟨cell', hcell', -⟩ := hx
    have hin := h.allocated x cell' hcell'
    rw [List.map_append, List.map_cons, List.mem_append, List.mem_cons] at hin
    rw [List.map_append, List.mem_append]
    exact hin.imp_right fun hin => hin.resolve_left hxe
  · intro b
    rw [hmap]
    by_cases hb : b = HashMap.hash e.2.key
    · subst hb
      rw [Function.update_self, Option.bind_some, hhead, hbehind, bucket_append]
      exact first_erase fun x hx => (h.other (hmem x (List.mem_append_left _ hx))).2.1
    · rw [Function.update_of_ne hb, h.head, bucket_middle, if_neg hb]
  · intro b
    rw [hmap]
    by_cases hb : b = HashMap.hash e.2.key
    · subst hb
      rw [Function.update_self, Option.bind_some, htail, hbefore, bucket_append]
      exact last_erase fun x hx => (h.other (hmem x (List.mem_append_right _ hx))).2.1
    · rw [Function.update_of_ne hb, h.tail, bucket_middle, if_neg hb]
  · intro b
    by_cases hb : b = HashMap.hash e.2.key
    · subst hb
      rw [bucket_append]
      refine h.linked_middle.erase ?_ ?_
      · rw [← bucket_append]
        exact h.nodup_middle.2.sublist (List.filter_sublist.map Prod.fst)
      · intro x hx p n hholds
        rw [← hbefore, ← hbehind]
        exact hother x (hmem x hx) p n hholds
    · -- the pairs beside it are in its own bucket
      have hlinked := h.linked b
      rw [bucket_middle, if_neg hb] at hlinked
      refine hlinked.mono fun x hx p n hholds => ?_
      obtain ⟨hx, hhash⟩ := mem_bucket.mp hx
      have hapart : ∀ y ∈ front ++ rest, HashMap.hash y.2.key = HashMap.hash e.2.key →
          y.1 ≠ x.1 := by
        intro y hy hhash'
        exact h.ne_of_bucket (mem_bucket.mpr ⟨(h.other hy).1, hhash'⟩)
          (mem_bucket.mpr ⟨(h.other hx).1, hhash⟩) hb
      have hnext : ¬ behind = some x.1 := by
        intro heq
        obtain ⟨y, hy, haddress, hyhash⟩ :=
          exists_of_first_bucket front (hbehind.symm.trans heq)
        exact hapart y hy hyhash haddress
      have hprev : ¬ before = some x.1 := by
        intro heq
        obtain ⟨y, hy, haddress, hyhash⟩ :=
          exists_of_last_bucket rest (hbefore.symm.trans heq)
        exact hapart y hy hyhash haddress
      have hkept := hother x hx p n hholds
      rwa [if_neg hnext, if_neg hprev] at hkept

end Middle

/-- **A pair is removed.** -/
theorem Represents.remove_pair (h : m.Represents log) {e : PairRef × Pair α}
    (hfound : oldest log key = some e) :
    ∃ m', m.remove key = some (true, m') ∧ m'.Represents (withoutOldest log key) := by
  obtain ⟨rfl, front, rest, rfl, hwithout⟩ := oldest_split hfound
  rw [hwithout]
  have hfind := h.find_eq e.2.key
  rw [hfound, Option.map_some] at hfind
  obtain ⟨entry, hentry, -⟩ := h.entry_middle
  obtain ⟨m', hremove, hmap, hgone, hlookup⟩ :=
    remove_eq hfind h.linked_middle.holds_middle hentry
      (by
        intro t ht
        obtain ⟨x, hx, rfl, -⟩ := exists_of_first_bucket front ht
        exact (h.other hx).2)
      (by
        intro t ht
        obtain ⟨x, hx, rfl, -⟩ := exists_of_last_bucket rest ht
        exact (h.other hx).2)
  exact ⟨m', hremove, h.erase_middle rfl rfl hentry hmap hgone hlookup⟩

end Keep

/-! ## Runs -/

/-- A call by a driver.  An insertion comes with what the pool answers. -/
inductive Call (α : Type) where
  | insert (key : BitVec 32) (value : α) (entryAllocated : Bool) (pair : Option PairRef)
  | remove (key : BitVec 32)

namespace Call

/-- The pool has no pair at the address that it gives. -/
def Possible (m : HashMapMemory α) : Call α → Prop
  | insert _ _ _ (some r) => m.pairs.lookup r = none
  | insert _ _ _ none => True
  | remove _ => True

/-- What the call returns, and the map behind it. -/
def execute (m : HashMapMemory α) : Call α → Option (Bool × HashMapMemory α)
  | insert key value entryAllocated pair => m.insert key value entryAllocated pair
  | remove key => m.remove key

/-- The association list: a pair that is inserted goes to the end, and the oldest one with the key
is removed. -/
def record (log : Log α) (result : Bool) : Call α → Log α
  | insert key value _ (some r) => if result then log ++ [(r, ⟨key, value⟩)] else log
  | insert _ _ _ none => log
  | remove key => withoutOldest log key

end Call

instance (m : HashMapMemory α) (call : Call α) : Decidable (call.Possible m) :=
  match call with
  | .insert _ _ _ (some r) =>
      decidable_of_iff ((m.pairs.lookup r).isNone = true) Option.isNone_iff_eq_none
  | .insert _ _ _ none => .isTrue trivial
  | .remove _ => .isTrue trivial

/-- The map with the association list beside it. -/
def machine : Machine (HashMapMemory α × Log α) (Call α) where
  init x := x = (initialise, [])
  next x call :=
    if call.Possible x.1 then
      (call.execute x.1).map fun out => (out.2, call.record x.2 out.1)
    else none

/-- **An insertion.** -/
theorem Represents.insert {m : HashMapMemory α} {log : Log α} (h : m.Represents log)
    (key : BitVec 32) (value : α) (entryAllocated : Bool) (pair : Option PairRef)
    (hfresh : ∀ r, pair = some r → m.pairs.lookup r = none) :
    ∃ m', m.insert key value entryAllocated pair =
        some (((m.map (HashMap.hash key)).isSome || entryAllocated) && pair.isSome, m') ∧
      m'.Represents (Call.record log
        (((m.map (HashMap.hash key)).isSome || entryAllocated) && pair.isSome)
        (.insert key value entryAllocated pair)) := by
  cases hentry : (m.map (HashMap.hash key)).or
      (if entryAllocated then some ⟨none, none⟩ else none) with
  | none =>
      obtain ⟨hnone, hnot⟩ := Option.or_eq_none_iff.mp hentry
      obtain rfl : entryAllocated = false := by
        cases entryAllocated with
        | false => rfl
        | true => cases hnot
      refine ⟨m, ?_, ?_⟩
      · simp only [HashMapMemory.insert, hnone]
        rfl
      · rw [hnone]
        cases pair with
        | none => exact h
        | some r => exact h
  | some entry =>
      have hsome : ((m.map (HashMap.hash key)).isSome || entryAllocated) = true := by
        cases hmap : m.map (HashMap.hash key) with
        | some entry' => rfl
        | none =>
            cases entryAllocated with
            | false =>
                rw [hmap] at hentry
                cases hentry
            | true => rfl
      rw [hsome, Bool.true_and]
      cases pair with
      | none =>
          obtain ⟨hhead, htail⟩ := entry_ends hentry
          refine ⟨m.setEntry (HashMap.hash key) entry, ?_, h.setEntry hhead htail⟩
          simp only [HashMapMemory.insert, hentry]
          rfl
      | some r => exact h.insert_pair entryAllocated hentry (hfresh r rfl)

/-- **A removal.** -/
theorem Represents.remove {m : HashMapMemory α} {log : Log α} (h : m.Represents log)
    (key : BitVec 32) :
    ∃ m', m.remove key = some ((oldest log key).isSome, m') ∧
      m'.Represents (withoutOldest log key) := by
  cases hfound : oldest log key with
  | none =>
      refine ⟨m, ?_, ?_⟩
      · rw [HashMapMemory.remove, h.find_eq, hfound]
        rfl
      · rwa [withoutOldest_of_none hfound]
  | some e => exact h.remove_pair hfound

/-- Every call that can be made is defined, and keeps what the map stands for. -/
theorem Represents.execute {m : HashMapMemory α} {log : Log α} (h : m.Represents log)
    (call : Call α) (hpossible : call.Possible m) :
    ∃ result m', call.execute m = some (result, m') ∧ m'.Represents (call.record log result) := by
  cases call with
  | insert key value entryAllocated pair =>
      obtain ⟨m', hinsert, hm'⟩ := h.insert key value entryAllocated pair (by
        rintro r rfl
        exact hpossible)
      exact ⟨_, m', hinsert, hm'⟩
  | remove key =>
      obtain ⟨m', hremove, hm'⟩ := h.remove key
      exact ⟨_, m', hremove, hm'⟩

theorem Represents.next {x x' : HashMapMemory α × Log α} (h : x.1.Represents x.2) {call : Call α}
    (hnext : machine.next x call = some x') : x'.1.Represents x'.2 := by
  obtain ⟨hpossible, hnext⟩ := Option.ite_none_right_eq_some.mp hnext
  obtain ⟨result, m', hexecute, hm'⟩ := h.execute call hpossible
  rw [hexecute, Option.map_some] at hnext
  obtain rfl := Option.some.inj hnext
  exact hm'

/-! ## The association list -/

/-- The pairs of a bucket from its head to its tail, each linked to the next and back, and none
there twice. -/
structure IsBucket (m : HashMapMemory α) (b : Fin hashMapSize) (refs : List PairRef) : Prop where
  head : (m.map b).bind Entry.head = refs.head?
  tail : (m.map b).bind Entry.tail = refs.getLast?
  linked : Linked id
    (fun r prev next => ∃ cell, m.pairs.lookup r = some cell ∧ cell.prev = prev ∧ cell.next = next)
    none none refs
  once : refs.Nodup
  /-- They are all the pairs whose keys have this hash. -/
  hashed : ∀ r, r ∈ refs ↔ ∃ cell, m.pairs.lookup r = some cell ∧ HashMap.hash cell.key = b

/-- The bucket lists are well formed. -/
structure WellFormed (m : HashMapMemory α) : Prop where
  bucket : ∀ b, ∃ refs, m.IsBucket b refs
  next_prev : ∀ r cell r', m.pairs.lookup r = some cell → cell.next = some r' →
    ∃ cell', m.pairs.lookup r' = some cell' ∧ cell'.prev = some r
  prev_next : ∀ r cell r', m.pairs.lookup r = some cell → cell.prev = some r' →
    ∃ cell', m.pairs.lookup r' = some cell' ∧ cell'.next = some r

/-- The key and the value of a pair. -/
def content (m : HashMapMemory α) (r : PairRef) : Option (Pair α) :=
  (m.pairs.lookup r).map fun cell => ⟨cell.key, cell.value⟩

/-- The map is an association list. -/
structure Refines (m : HashMapMemory α) (log : Log α) : Prop where
  wellFormed : m.WellFormed
  /-- The list has the pairs that are in memory. -/
  content : ∀ r pair, (r, pair) ∈ log ↔ m.content r = some pair
  /-- `FindHashMap` finds the oldest pair with the key, or none. -/
  find : ∀ key, m.find key = some ((oldest log key).map Prod.fst)
  findValue : ∀ key, m.findValue key = some ((oldest log key).map fun e => e.2.value)
  /-- `InsertHashMap` fails just if an allocation does. -/
  insert : ∀ key value entryAllocated pair, (Call.insert key value entryAllocated pair).Possible m →
    ∃ m', m.insert key value entryAllocated pair =
      some (((m.map (HashMap.hash key)).isSome || entryAllocated) && pair.isSome, m')
  /-- `RemoveHashMap` removes the pair that is found and no other. -/
  remove : ∀ key, ∃ m', m.remove key = some ((oldest log key).isSome, m') ∧
    ∀ r, m'.content r = if (oldest log key).map Prod.fst = some r then none else m.content r

section Refines
variable {m : HashMapMemory α} {log : Log α}

theorem Represents.content_iff (h : m.Represents log) (r : PairRef) (pair : Pair α) :
    (r, pair) ∈ log ↔ m.content r = some pair := by
  constructor
  · intro hmem
    obtain ⟨prev, next, hholds⟩ := h.holds_of_mem hmem
    have hlookup : m.pairs.lookup r = _ := hholds
    rw [content, hlookup]
    rfl
  · intro hcontent
    obtain ⟨cell, hcell, rfl⟩ := Option.map_eq_some_iff.mp hcontent
    obtain ⟨⟨r, pair'⟩, hmem, rfl⟩ := List.mem_map.mp (h.allocated _ cell hcell)
    obtain ⟨prev, next, hholds⟩ := h.holds_of_mem hmem
    have hlookup : m.pairs.lookup r = _ := hholds
    obtain rfl := Option.some.inj (hlookup.symm.trans hcell)
    exact hmem

theorem Represents.isBucket (h : m.Represents log) (b : Fin hashMapSize) :
    m.IsBucket b ((bucket log b).map Prod.fst) where
  head := by rw [h.head, first, Option.or_none, List.head?_map]
  tail := by rw [h.tail, last, Option.or_none, List.getLast?_map]
  linked := (h.linked b).map_address fun e _ p n hholds => ⟨_, hholds, rfl, rfl⟩
  once := h.nodup_bucket b
  hashed r := by
    constructor
    · intro hr
      obtain ⟨e, he, rfl⟩ := List.mem_map.mp hr
      obtain ⟨he, hhash⟩ := mem_bucket.mp he
      obtain ⟨prev, next, hholds⟩ := h.holds_of_mem he
      exact ⟨_, hholds, hhash⟩
    · rintro ⟨cell, hcell, hhash⟩
      obtain ⟨e, he, rfl⟩ := List.mem_map.mp (h.allocated r cell hcell)
      obtain ⟨prev, next, hholds⟩ := h.holds_of_mem he
      obtain rfl := Option.some.inj (hholds.symm.trans hcell)
      exact List.mem_map_of_mem (mem_bucket.mpr ⟨he, hhash⟩)

/-- An allocated pair is somewhere in the list of its bucket. -/
theorem Represents.middle (h : m.Represents log) {r : PairRef} {cell : PairCell α}
    (hcell : m.pairs.lookup r = some cell) : ∃ front e rest,
      bucket log (HashMap.hash cell.key) = front ++ e :: rest ∧ e.1 = r ∧
      cell.prev = last Prod.fst none front ∧ cell.next = first Prod.fst none rest := by
  have hin := ((h.isBucket _).hashed r).mpr ⟨cell, hcell, rfl⟩
  obtain ⟨e, he, rfl⟩ := List.mem_map.mp hin
  obtain ⟨front, rest, hsplit⟩ := List.append_of_mem he
  have hlinked := h.linked (HashMap.hash cell.key)
  rw [hsplit] at hlinked
  have hholds : m.pairs.lookup e.1 = _ := hlinked.holds_middle
  obtain rfl := Option.some.inj (hholds.symm.trans hcell)
  exact ⟨front, e, rest, hsplit, rfl, rfl, rfl⟩

theorem Represents.wellFormed (h : m.Represents log) : m.WellFormed where
  bucket b := ⟨_, h.isBucket b⟩
  next_prev r cell r' hcell hnext := by
    obtain ⟨front, e, rest, hsplit, rfl, -, hrest⟩ := h.middle hcell
    have hlinked := h.linked (HashMap.hash cell.key)
    rw [hsplit] at hlinked
    obtain ⟨z, -, rfl, n, hz⟩ := hlinked.holds_behind (hrest.symm.trans hnext)
    exact ⟨_, hz, rfl⟩
  prev_next r cell r' hcell hprev := by
    obtain ⟨front, e, rest, hsplit, rfl, hfront, -⟩ := h.middle hcell
    have hlinked := h.linked (HashMap.hash cell.key)
    rw [hsplit] at hlinked
    obtain ⟨z, -, rfl, p, hz⟩ := hlinked.holds_before (hfront.symm.trans hprev)
    exact ⟨_, hz, rfl⟩

theorem Represents.refines (h : m.Represents log) : m.Refines log where
  wellFormed := h.wellFormed
  content := h.content_iff
  find := h.find_eq
  findValue := h.findValue_eq
  insert key value entryAllocated pair hpossible := by
    obtain ⟨m', hinsert, -⟩ := h.insert key value entryAllocated pair (by
      rintro r rfl
      exact hpossible)
    exact ⟨m', hinsert⟩
  remove key := by
    obtain ⟨m', hremove, hm'⟩ := h.remove key
    refine ⟨m', hremove, fun r => Option.ext fun pair => ?_⟩
    rw [← hm'.content_iff, mem_withoutOldest h.once, h.content_iff]
    split
    · next hr => simp [hr]
    · next hr => exact and_iff_left hr

/-- **The hash map is an association list**, in every run. -/
theorem refines_association_list (calls : List (Call α)) :
    machine.Throughout (fun x => x.1.Refines x.2) calls (initialise, []) := by
  refine Machine.throughout_of_invariant (I := fun x => x.1.Represents x.2) ?_ ?_ ?_
  · intro x hx
    exact hx.refines
  · intro x call x' hx hnext
    exact hx.next hnext
  · exact Represents.initialise

-- two pairs with one key and a third in their bucket
example : (machine.run [.insert 1 'a' true (some 10), .insert 1025 'b' false (some 20),
    .insert 1 'c' false (some 30), .remove 1] (initialise, [])).map
      (fun x => (x.1.find 1, x.1.find 1025)) = some (some (some 30), some (some 20)) := by
  decide

end Refines

/-! ## The buckets as lists -/

/-- The map with lists in its buckets. -/
def toHashMap (log : Log α) : HashMap α := { map := fun b => (bucket log b).map Prod.snd }

/-- What a call does to it. -/
def Call.onHashMap (map : HashMap α) (result : Bool) : Call α → HashMap α
  | insert key value _ _ => map.insert key value result
  | remove key => map.remove key

theorem find_toHashMap (log : Log α) (key : BitVec 32) :
    (toHashMap log).find key = (oldest log key).map Prod.snd := by
  rw [HashMap.find, toHashMap, List.find?_map, ← find?_bucket]
  rfl

theorem Represents.findValue_toHashMap {m : HashMapMemory α} {log : Log α} (h : m.Represents log)
    (key : BitVec 32) : m.findValue key = some ((toHashMap log).findValue key) := by
  rw [h.findValue_eq, HashMap.findValue, find_toHashMap, Option.map_map]
  rfl

theorem toHashMap_concat (log : Log α) (r : PairRef) (key : BitVec 32) (value : α) :
    toHashMap (log ++ [(r, ⟨key, value⟩)]) = (toHashMap log).insert key value true := by
  refine congrArg HashMap.mk (funext fun b => ?_)
  rw [bucket_concat]
  split
  · next hb =>
      subst hb
      rw [Function.update_self, List.map_append]
      rfl
  · next hb =>
      rw [Function.update_of_ne hb]
      rfl

theorem bucket_withoutOldest (log : Log α) (key : BitVec 32) (b : Fin hashMapSize) :
    bucket (withoutOldest log key) b =
      if b = HashMap.hash key then (bucket log b).eraseP (hasKey key) else bucket log b := by
  induction log with
  | nil => simp [withoutOldest, bucket]
  | cons e log ih =>
      by_cases hkey : e.2.key = key
      · have hpos : hasKey key e = true := decide_eq_true hkey
        rw [withoutOldest, List.eraseP_cons_of_pos hpos]
        split
        · next hb =>
            rw [bucket_cons_self (hkey ▸ hb.symm), List.eraseP_cons_of_pos hpos]
        · next hb => rw [bucket_cons_of_ne fun heq => hb (hkey ▸ heq.symm)]
      · have hneg : ¬ hasKey key e = true := fun h => hkey (of_decide_eq_true h)
        have hrest : withoutOldest (e :: log) key = e :: withoutOldest log key :=
          List.eraseP_cons_of_neg hneg
        rw [hrest]
        by_cases hb : HashMap.hash e.2.key = b
        · rw [bucket_cons_self hb, bucket_cons_self hb, ih, List.eraseP_cons_of_neg hneg]
          split <;> rfl
        · rw [bucket_cons_of_ne hb, bucket_cons_of_ne hb, ih]

theorem toHashMap_withoutOldest (log : Log α) (key : BitVec 32) :
    toHashMap (withoutOldest log key) = (toHashMap log).remove key := by
  refine congrArg HashMap.mk (funext fun b => ?_)
  rw [bucket_withoutOldest]
  split
  · next hb =>
      subst hb
      rw [Function.update_self, toHashMap, List.eraseP_map]
      rfl
  · next hb =>
      rw [Function.update_of_ne hb]
      rfl

/-- **The lists in the buckets** are what is in memory: a call does to them what it does there. -/
theorem toHashMap_record {m m' : HashMapMemory α} {log : Log α} {result : Bool}
    (h : m.Represents log) {call : Call α} (hpossible : call.Possible m)
    (hexecute : call.execute m = some (result, m')) :
    toHashMap (call.record log result) = call.onHashMap (toHashMap log) result := by
  cases call with
  | insert key value entryAllocated pair =>
      cases pair with
      | none =>
          obtain ⟨m'', hinsert, -⟩ := h.insert key value entryAllocated none (by simp)
          rw [Option.isSome_none, Bool.and_false] at hinsert
          obtain ⟨rfl, -⟩ := Prod.mk.inj (Option.some.inj (hexecute.symm.trans hinsert))
          rfl
      | some r =>
          cases result with
          | false => rfl
          | true => exact toHashMap_concat log r key value
  | remove key => exact toHashMap_withoutOldest log key

end HashMapMemory

end CaptureHpc.Driver
