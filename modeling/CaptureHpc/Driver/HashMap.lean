/-
# `Driver.HashMap` — the hash map of the network driver

The map has 1024 buckets, each a list of pairs in the order they were inserted.
`InsertHashMap` does not look whether the key is there already, a search takes
the first pair with the key, and `RemoveHashMap` takes out that pair only.
`Distinct` says that every key is there once, in its own bucket: whoever looks
before inserting keeps it, and then the map is a partial function.
-/
import Mathlib.Data.List.FinRange
import Mathlib.Data.List.Nodup
import Mathlib.Logic.Function.Basic

namespace CaptureHpc.Driver

/-- `HASH_MAP_SIZE`. -/
abbrev hashMapSize : Nat := 1024

structure Pair (α : Type) where
  key : BitVec 32
  value : α

/-- A bucket that was not allocated yet is an empty one. -/
structure HashMap (α : Type) where
  map : Fin hashMapSize → List (Pair α)

namespace HashMap

variable {α : Type}

/-- `key % HASH_MAP_SIZE`. -/
def hash (key : BitVec 32) : Fin hashMapSize := Fin.ofNat hashMapSize key.toNat

/-- `InitialiseHashMap`. -/
def initialise : HashMap α := { map := fun _ => [] }

/-- `InsertHashMap`; nothing is inserted where the pool has no memory. -/
def insert (m : HashMap α) (key : BitVec 32) (value : α) (allocated : Bool) : HashMap α :=
  if allocated then
    { map := Function.update m.map (hash key) (m.map (hash key) ++ [{ key, value }]) }
  else m

/-- `FindHashMap`. -/
def find (m : HashMap α) (key : BitVec 32) : Option (Pair α) :=
  (m.map (hash key)).find? fun pair => pair.key == key

/-- `FindHashMapValue`. -/
def findValue (m : HashMap α) (key : BitVec 32) : Option α := (m.find key).map Pair.value

/-- `RemoveHashMap`. -/
def remove (m : HashMap α) (key : BitVec 32) : HashMap α :=
  { map := Function.update m.map (hash key)
      ((m.map (hash key)).eraseP fun pair => pair.key == key) }

/-- A write to the value found for a key, through the pointer in its pair. -/
def modify (m : HashMap α) (key : BitVec 32) (f : α → α) : HashMap α :=
  { map := Function.update m.map (hash key)
      ((m.map (hash key)).map fun pair =>
        if pair.key = key then { pair with value := f pair.value } else pair) }

/-- The pairs in the order in which `IterateHashMap` visits them. -/
def pairs (m : HashMap α) : List (Pair α) := (List.finRange hashMapSize).flatMap m.map

/-- Every key is there once, in its own bucket. -/
structure Distinct (m : HashMap α) : Prop where
  hashed : ∀ b, ∀ pair ∈ m.map b, hash pair.key = b
  once : ∀ b, ((m.map b).map Pair.key).Nodup

/-! ## What a search finds -/

@[simp] theorem findValue_initialise (key : BitVec 32) :
    (initialise : HashMap α).findValue key = none := rfl

@[simp] theorem pairs_initialise : (initialise : HashMap α).pairs = [] := by
  simp [pairs, initialise]

@[simp] theorem insert_failed (m : HashMap α) (key : BitVec 32) (value : α) :
    m.insert key value false = m := rfl

theorem find_key {m : HashMap α} {key : BitVec 32} {pair : Pair α} (h : m.find key = some pair) :
    pair.key = key := by
  have hbeq : (pair.key == key) = true := List.find?_some (p := fun pair : Pair α => pair.key == key) h
  exact beq_iff_eq.mp hbeq

theorem find_update_of_ne (m : HashMap α) {b : Fin hashMapSize} {key : BitVec 32}
    (l : List (Pair α)) (h : hash key ≠ b) :
    ({ map := Function.update m.map b l } : HashMap α).find key = m.find key := by
  simp only [find, Function.update_of_ne h]

theorem findValue_insert_self {m : HashMap α} {key : BitVec 32} (value : α)
    (h : m.findValue key = none) : (m.insert key value true).findValue key = some value := by
  have hnone : (m.map (hash key)).find? (fun pair => pair.key == key) = none :=
    Option.map_eq_none_iff.mp h
  simp [findValue, find, insert, hnone]

theorem findValue_insert_of_ne (m : HashMap α) {key key' : BitVec 32} (value : α) (allocated : Bool)
    (h : key' ≠ key) : (m.insert key value allocated).findValue key' = m.findValue key' := by
  cases allocated with
  | false => rfl
  | true =>
      rw [findValue, findValue, insert, if_pos rfl]
      by_cases hb : hash key' = hash key
      · have hne : ((key == key') = false) := beq_false_of_ne (Ne.symm h)
        simp [find, hb, hne]
      · rw [find_update_of_ne m _ hb]

/-- Another pair is found as before. -/
theorem find?_eraseP_of_ne {key key' : BitVec 32} (h : key' ≠ key) : ∀ l : List (Pair α),
    (l.eraseP fun pair => pair.key == key).find? (fun pair => pair.key == key') =
      l.find? fun pair => pair.key == key'
  | [] => rfl
  | pair :: l => by
      by_cases hkey : pair.key = key
      · have hne : (pair.key == key') = false := beq_false_of_ne fun he => h (he ▸ hkey)
        rw [List.eraseP_cons_of_pos (by simpa using hkey), List.find?_cons_of_neg (by simp [hne])]
      · rw [List.eraseP_cons_of_neg (by simpa using hkey), List.find?_cons, List.find?_cons,
          find?_eraseP_of_ne h l]

theorem findValue_remove_of_ne (m : HashMap α) {key key' : BitVec 32} (h : key' ≠ key) :
    (m.remove key).findValue key' = m.findValue key' := by
  rw [findValue, findValue, remove]
  by_cases hb : hash key' = hash key
  · simp [find, hb, find?_eraseP_of_ne h]
  · rw [find_update_of_ne m _ hb]

theorem findValue_remove_self {m : HashMap α} (hm : m.Distinct) (key : BitVec 32) :
    (m.remove key).findValue key = none := by
  have herase : ∀ l : List (Pair α), (l.map Pair.key).Nodup →
      (l.eraseP fun pair => pair.key == key).find? (fun pair => pair.key == key) = none := by
    intro l hl
    induction l with
    | nil => rfl
    | cons pair l ih =>
        obtain ⟨hnot, hl⟩ := List.nodup_cons.mp hl
        by_cases hkey : pair.key = key
        · rw [List.eraseP_cons_of_pos (by simpa using hkey), List.find?_eq_none]
          intro other hother he
          exact hnot (List.mem_map.mpr ⟨other, hother, (beq_iff_eq.mp he).trans hkey.symm⟩)
        · rw [List.eraseP_cons_of_neg (by simpa using hkey),
            List.find?_cons_of_neg (by simpa using hkey), ih hl]
  simp [findValue, find, remove, herase _ (hm.once (hash key))]

theorem findValue_modify (m : HashMap α) (key key' : BitVec 32) (f : α → α) :
    (m.modify key f).findValue key' =
      if key' = key then (m.findValue key').map f else m.findValue key' := by
  have hmap : ∀ l : List (Pair α),
      (l.map fun pair => if pair.key = key then { pair with value := f pair.value } else pair).find?
        (fun pair => pair.key == key') = (l.find? fun pair => pair.key == key').map fun pair =>
          if pair.key = key then { pair with value := f pair.value } else pair := by
    intro l
    rw [List.find?_map]
    congr 2
    funext pair
    simp only [Function.comp]
    split <;> rfl
  by_cases hb : hash key' = hash key
  · have hfind : (m.modify key f).find key' = (m.find key').map fun pair =>
        if pair.key = key then { pair with value := f pair.value } else pair := by
      simp only [find, modify, hb, Function.update_self, hmap]
    rw [findValue, findValue, hfind]
    cases hfound : m.find key' with
    | none => simp
    | some pair =>
        have hkey := find_key hfound
        by_cases hkk : key' = key <;> simp [hkey, hkk]
  · have hkk : key' ≠ key := fun h => hb (congrArg hash h)
    rw [findValue, findValue, modify, find_update_of_ne m _ hb, if_neg hkk]

/-! ## The map as a partial function -/

theorem Distinct.initialise : (initialise : HashMap α).Distinct where
  hashed _ _ h := nomatch h
  once _ := List.nodup_nil

theorem Distinct.insert {m : HashMap α} (hm : m.Distinct) {key : BitVec 32} (value : α)
    (allocated : Bool) (h : m.findValue key = none) : (m.insert key value allocated).Distinct := by
  cases allocated with
  | false => exact hm
  | true =>
      have hnone : (m.map (hash key)).find? (fun pair => pair.key == key) = none :=
        Option.map_eq_none_iff.mp h
      have hfresh : key ∉ (m.map (hash key)).map Pair.key := by
        intro hmem
        obtain ⟨pair, hpair, hkey⟩ := List.mem_map.mp hmem
        exact List.find?_eq_none.mp hnone pair hpair (beq_iff_eq.mpr hkey)
      constructor
      · intro b pair hpair
        by_cases hb : b = hash key
        · subst hb
          simp only [HashMap.insert, if_true, Function.update_self, List.mem_append,
            List.mem_singleton] at hpair
          rcases hpair with hpair | rfl
          · exact hm.hashed _ pair hpair
          · rfl
        · simp only [HashMap.insert, if_true, Function.update_of_ne hb] at hpair
          exact hm.hashed b pair hpair
      · intro b
        by_cases hb : b = hash key
        · subst hb
          simp only [HashMap.insert, if_true, Function.update_self, List.map_append, List.map_cons,
            List.map_nil]
          exact List.Nodup.append (hm.once _) (List.nodup_singleton key)
            (List.disjoint_singleton.mpr hfresh)
        · simp only [HashMap.insert, if_true, Function.update_of_ne hb]
          exact hm.once b

theorem Distinct.modify {m : HashMap α} (hm : m.Distinct) (key : BitVec 32) (f : α → α) :
    (m.modify key f).Distinct := by
  have hkeys : ∀ l : List (Pair α),
      (l.map fun pair => if pair.key = key then { pair with value := f pair.value } else pair).map
        Pair.key = l.map Pair.key := by
    intro l
    rw [List.map_map]
    refine List.map_congr_left fun pair _ => ?_
    simp only [Function.comp]
    split <;> rfl
  constructor
  · intro b pair hpair
    by_cases hb : b = hash key
    · subst hb
      simp only [HashMap.modify, Function.update_self] at hpair
      have hkey : pair.key ∈ (m.map (hash key)).map Pair.key := by
        rw [← hkeys]
        exact List.mem_map_of_mem hpair
      obtain ⟨old, hold, hsame⟩ := List.mem_map.mp hkey
      exact hsame ▸ hm.hashed _ old hold
    · simp only [HashMap.modify, Function.update_of_ne hb] at hpair
      exact hm.hashed b pair hpair
  · intro b
    by_cases hb : b = hash key
    · subst hb
      simp only [HashMap.modify, Function.update_self, hkeys]
      exact hm.once _
    · simp only [HashMap.modify, Function.update_of_ne hb]
      exact hm.once b

theorem Distinct.remove {m : HashMap α} (hm : m.Distinct) (key : BitVec 32) :
    (m.remove key).Distinct := by
  constructor
  · intro b pair hpair
    by_cases hb : b = hash key
    · subst hb
      simp only [HashMap.remove, Function.update_self] at hpair
      exact hm.hashed _ pair (List.mem_of_mem_eraseP hpair)
    · simp only [HashMap.remove, Function.update_of_ne hb] at hpair
      exact hm.hashed b pair hpair
  · intro b
    by_cases hb : b = hash key
    · subst hb
      simp only [HashMap.remove, Function.update_self]
      exact (hm.once _).sublist ((List.eraseP_sublist).map Pair.key)
    · simp only [HashMap.remove, Function.update_of_ne hb]
      exact hm.once b

/-- What is visited is what a search finds. -/
theorem Distinct.mem_pairs {m : HashMap α} (hm : m.Distinct) {pair : Pair α} :
    pair ∈ m.pairs ↔ m.findValue pair.key = some pair.value := by
  constructor
  · intro hpair
    obtain ⟨b, -, hb⟩ := List.mem_flatMap.mp hpair
    obtain rfl := hm.hashed b pair hb
    cases hfind : m.find pair.key with
    | none => exact absurd (beq_self_eq_true pair.key) (List.find?_eq_none.mp hfind pair hb)
    | some other =>
        have hsame : other = pair := List.inj_on_of_nodup_map (hm.once _)
          (List.mem_of_find?_eq_some hfind) hb (find_key hfind)
        simp [findValue, hfind, hsame]
  · intro hfind
    obtain ⟨other, hother, hvalue⟩ := Option.map_eq_some_iff.mp hfind
    have hkey : other.key = pair.key := find_key hother
    have hsame : other = pair := by
      cases other
      cases pair
      cases hkey
      cases hvalue
      rfl
    exact hsame ▸ List.mem_flatMap.mpr
      ⟨hash pair.key, List.mem_finRange _, List.mem_of_find?_eq_some hother⟩

/-- Every key is visited once. -/
theorem Distinct.nodup_pairs {m : HashMap α} (hm : m.Distinct) : (m.pairs.map Pair.key).Nodup := by
  rw [pairs, List.map_flatMap]
  refine List.nodup_flatMap.mpr ⟨fun b _ => hm.once b, ?_⟩
  refine (List.nodup_finRange hashMapSize).imp fun {b b'} hne => ?_
  intro key hkey hkey'
  obtain ⟨pair, hpair, rfl⟩ := List.mem_map.mp hkey
  obtain ⟨pair', hpair', hsame⟩ := List.mem_map.mp hkey'
  exact hne ((hm.hashed b pair hpair).symm.trans (hsame ▸ hm.hashed b' pair' hpair'))

end HashMap

end CaptureHpc.Driver
