/-
# `Driver.HashMapDestroy` — going through the whole hash map

`IterateHashMap` calls a visitor for every pair, and `DestroyHashMap` frees all
that was allocated for the map.  Both go through the buckets one after the other
and through each from its head, so they rely on the lists of `HashMapMemory`:
the destruction reads the next pair before it frees one, and frees the entry of
a bucket when its pairs are gone.

What is freed is not cleared in the map.  So `Pool` has what is still allocated,
beside the map that is gone through, and a read or a free of what is not there
is undefined.
-/
import CaptureHpc.Driver.HashMapMemory

namespace CaptureHpc.Driver.HashMapMemory

open DoublyLinked

variable {α σ : Type}

/-- The loop of `IterateHashMap` over a bucket. -/
def iterateLoop (m : HashMapMemory α) (visitor : σ → BitVec 32 → α → σ) :
    Nat → Option PairRef → σ → Option σ
  | 0, _, _ => none
  | _ + 1, none, context => some context
  | rounds + 1, some pair, context => do
      let cell ← m.pairs.lookup pair
      iterateLoop m visitor rounds cell.next (visitor context cell.key cell.value)

/-- `IterateHashMap`, with what the visitor makes of its context. -/
def iterate (m : HashMapMemory α) (visitor : σ → BitVec 32 → α → σ) (context : σ) : Option σ :=
  (List.finRange hashMapSize).foldlM (fun context b =>
    match m.map b with
    | none => some context
    | some entry => m.iterateLoop visitor (m.pairs.keys.length + 1) entry.head context) context

/-- What is allocated for a map. -/
structure Pool (α : Type) where
  entries : Fin hashMapSize → Option Entry
  pairs : AList fun _ : PairRef => PairCell α

namespace Pool

/-- Nothing. -/
def empty : Pool α := { entries := fun _ => none, pairs := ∅ }

/-- `ExFreePoolWithTag` of a pair. -/
def freePair (pool : Pool α) (pair : PairRef) : Option (Pool α) :=
  (pool.pairs.lookup pair).map fun _ => { pool with pairs := pool.pairs.erase pair }

/-- `ExFreePoolWithTag` of the entry of a bucket. -/
def freeEntry (pool : Pool α) (b : Fin hashMapSize) : Option (Pool α) :=
  (pool.entries b).map fun _ => { pool with entries := Function.update pool.entries b none }

/-- The loop of `DestroyHashMap` over a bucket. -/
def destroyLoop : Nat → Option PairRef → Pool α → Option (Pool α)
  | 0, _, _ => none
  | _ + 1, none, pool => some pool
  | rounds + 1, some pair, pool => do
      let cell ← pool.pairs.lookup pair
      let pool ← pool.freePair pair
      destroyLoop rounds cell.next pool

end Pool

/-- A round of `DestroyHashMap`. -/
def destroyBucket (m : HashMapMemory α) (pool : Pool α) (b : Fin hashMapSize) :
    Option (Pool α) := do
  match m.map b with
  | none => return pool
  | some _ =>
      let entry ← pool.entries b
      let pool ← Pool.destroyLoop (m.pairs.keys.length + 1) entry.head pool
      pool.freeEntry b

/-- `DestroyHashMap`, and what is allocated behind it. -/
def destroy (m : HashMapMemory α) : Option (Pool α) :=
  (List.finRange hashMapSize).foldlM m.destroyBucket { entries := m.map, pairs := m.pairs }

/-! ## The order -/

/-- The pairs in the order of their buckets. -/
def inBuckets (log : Log α) : Log α := (List.finRange hashMapSize).flatMap (bucket log)

section Order
variable {log : Log α} {b : Fin hashMapSize}

theorem bucket_bucket (log : Log α) (b b' : Fin hashMapSize) :
    bucket (bucket log b) b' = if b = b' then bucket log b' else [] := by
  split
  · next hb =>
      subst hb
      exact List.filter_eq_self.mpr fun e he => (List.mem_filter.mp he).2
  · next hb =>
      refine List.filter_eq_nil_iff.mpr fun e he hin => hb ?_
      rw [← (mem_bucket.mp he).2]
      exact of_decide_eq_true hin

/-- The order within a bucket is kept. -/
theorem bucket_inBuckets (log : Log α) (b : Fin hashMapSize) :
    bucket (inBuckets log) b = bucket log b := by
  have hone : ∀ bs : List (Fin hashMapSize), bs.Nodup →
      bucket (bs.flatMap (bucket log)) b = if b ∈ bs then bucket log b else [] := by
    intro bs
    induction bs with
    | nil => exact fun _ => rfl
    | cons b' bs ih =>
        intro hnodup
        obtain ⟨hb', hbs⟩ := List.nodup_cons.mp hnodup
        rw [List.flatMap_cons, bucket_append, bucket_bucket, ih hbs]
        by_cases hb : b' = b
        · subst hb
          rw [if_pos rfl, if_neg hb', List.append_nil, if_pos List.mem_cons_self]
        · rw [if_neg hb, List.nil_append]
          simp [List.mem_cons, Ne.symm hb]
  rw [inBuckets, hone _ (List.nodup_finRange _), if_pos (List.mem_finRange b)]

/-- Every pair is there once. -/
theorem perm_inBuckets (hnodup : log.Nodup) : (inBuckets log).Perm log := by
  have hinto : (inBuckets log).Nodup := by
    refine List.nodup_flatMap.mpr ⟨fun b _ => hnodup.filter _, ?_⟩
    refine (List.nodup_finRange hashMapSize).imp fun hne e he he' => hne ?_
    rw [← (mem_bucket.mp he).2, (mem_bucket.mp he').2]
  refine (List.perm_ext_iff_of_nodup hinto hnodup).mpr fun e => ?_
  rw [inBuckets, List.mem_flatMap]
  constructor
  · rintro ⟨b, -, he⟩
    exact (mem_bucket.mp he).1
  · intro he
    exact ⟨_, List.mem_finRange _, mem_bucket.mpr ⟨he, rfl⟩⟩

theorem toHashMap_pairs (log : Log α) : (toHashMap log).pairs = (inBuckets log).map Prod.snd := by
  rw [inBuckets, List.map_flatMap]
  rfl

end Order

/-! ## The visits -/

section Visits
variable {m : HashMapMemory α} {log : Log α}

theorem Represents.nodup (h : m.Represents log) : log.Nodup := h.once.of_map

/-- **A bucket** is gone through from its head. -/
theorem iterateLoop_eq (visitor : σ → BitVec 32 → α → σ) {l : Log α} :
    ∀ {rounds : Nat} {before : Option PairRef} (context : σ),
      Linked Prod.fst m.Holds none before l → l.length < rounds →
      m.iterateLoop visitor rounds (first Prod.fst none l) context =
        some (l.foldl (fun context e => visitor context e.2.key e.2.value) context) := by
  induction l with
  | nil =>
      intro rounds before context _ hrounds
      obtain ⟨rounds, rfl⟩ := Nat.exists_eq_succ_of_ne_zero (Nat.ne_of_gt hrounds)
      rfl
  | cons e l ih =>
      intro rounds before context hlinked hrounds
      obtain ⟨rounds, rfl⟩ := Nat.exists_eq_succ_of_ne_zero (Nat.ne_of_gt (Nat.zero_lt_of_lt hrounds))
      have hholds : m.pairs.lookup e.1 = _ := hlinked.1
      have hrest := ih (visitor context e.2.key e.2.value) hlinked.2 (Nat.lt_of_succ_lt_succ hrounds)
      rw [first_cons, iterateLoop, hholds, Option.bind_eq_bind, Option.bind_some]
      exact hrest

theorem Represents.iterate_eq (h : m.Represents log) (visitor : σ → BitVec 32 → α → σ)
    (context : σ) : m.iterate visitor context =
      some ((inBuckets log).foldl (fun context e => visitor context e.2.key e.2.value) context) := by
  have hbuckets : ∀ (bs : List (Fin hashMapSize)) (context : σ),
      bs.foldlM (fun context b => match m.map b with
        | none => some context
        | some entry => m.iterateLoop visitor (m.pairs.keys.length + 1) entry.head context) context =
      some ((bs.flatMap (bucket log)).foldl
        (fun context e => visitor context e.2.key e.2.value) context) := by
    intro bs
    induction bs with
    | nil => exact fun _ => rfl
    | cons b bs ih =>
        intro context
        have hloop := iterateLoop_eq visitor context (h.linked b)
          (Nat.lt_succ_of_le h.length_bucket_le)
        have hhead := h.head b
        rw [List.foldlM_cons, List.flatMap_cons, List.foldl_append]
        cases hentry : m.map b with
        | none =>
            rw [hentry, Option.bind_none] at hhead
            rw [← hhead] at hloop
            have hsame : context = _ := Option.some.inj hloop
            rw [← hsame]
            exact ih context
        | some entry =>
            rw [hentry, Option.bind_some] at hhead
            rw [← hhead] at hloop
            simp only [hloop, Option.bind_eq_bind, Option.bind_some]
            exact ih _
  exact hbuckets _ context

/-- The visits are those of the lists in the buckets. -/
theorem Represents.iterate_toHashMap (h : m.Represents log) (visitor : σ → BitVec 32 → α → σ)
    (context : σ) : m.iterate visitor context =
      some ((toHashMap log).pairs.foldl (fun context e => visitor context e.key e.value) context) := by
  rw [h.iterate_eq, toHashMap_pairs, List.foldl_map]

end Visits

/-! ## The frees -/

section Frees
variable {m : HashMapMemory α} {log : Log α}

theorem Pool.freePair_eq {pool : Pool α} {pair : PairRef} {cell : PairCell α}
    (h : pool.pairs.lookup pair = some cell) :
    pool.freePair pair = some { pool with pairs := pool.pairs.erase pair } := by
  rw [freePair, h, Option.map_some]

/-- **The pairs of a bucket** are freed, and no others. -/
theorem destroyLoop_eq {l : Log α} : ∀ {rounds : Nat} {before : Option PairRef} {pool : Pool α},
    Linked Prod.fst m.Holds none before l → (l.map Prod.fst).Nodup → l.length < rounds →
    (∀ e ∈ l, pool.pairs.lookup e.1 = m.pairs.lookup e.1) →
    ∃ pairs, Pool.destroyLoop rounds (first Prod.fst none l) pool = some { pool with pairs } ∧
      ∀ r, pairs.lookup r = if r ∈ l.map Prod.fst then none else pool.pairs.lookup r := by
  induction l with
  | nil =>
      intro rounds before pool _ _ hrounds _
      obtain ⟨rounds, rfl⟩ := Nat.exists_eq_succ_of_ne_zero (Nat.ne_of_gt hrounds)
      exact ⟨pool.pairs, rfl, fun r => (if_neg List.not_mem_nil).symm⟩
  | cons e l ih =>
      intro rounds before pool hlinked hnodup hrounds hpool
      obtain ⟨rounds, rfl⟩ := Nat.exists_eq_succ_of_ne_zero (Nat.ne_of_gt (Nat.zero_lt_of_lt hrounds))
      rw [List.map_cons, List.nodup_cons] at hnodup
      have hholds : m.pairs.lookup e.1 = _ := hlinked.1
      have hcell := (hpool e List.mem_cons_self).trans hholds
      have hothers : ∀ x ∈ l, (pool.pairs.erase e.1).lookup x.1 = m.pairs.lookup x.1 := by
        intro x hx
        have hne : x.1 ≠ e.1 := fun heq => hnodup.1 (heq ▸ List.mem_map_of_mem hx)
        rw [AList.lookup_erase_ne hne, hpool x (List.mem_cons_of_mem e hx)]
      obtain ⟨pairs, hloop, hpairs⟩ := @ih rounds _ { pool with pairs := pool.pairs.erase e.1 }
        hlinked.2 hnodup.2 (Nat.lt_of_succ_lt_succ hrounds) hothers
      refine ⟨pairs, ?_, fun r => ?_⟩
      · simp only [first_cons, Pool.destroyLoop, hcell, Pool.freePair_eq hcell,
          Option.bind_eq_bind, Option.bind_some]
        exact hloop
      · rw [hpairs, List.map_cons]
        by_cases hr : r = e.1
        · subst hr
          rw [if_neg hnodup.1, if_pos List.mem_cons_self, AList.lookup_erase]
        · have hmem : r ∈ e.1 :: l.map Prod.fst ↔ r ∈ l.map Prod.fst := by
            rw [List.mem_cons, or_iff_right hr]
          simp only [hmem, AList.lookup_erase_ne hr]

/-- What is allocated when some buckets are done. -/
structure Left (m : HashMapMemory α) (log : Log α) (bs : List (Fin hashMapSize)) (pool : Pool α) :
    Prop where
  /-- The entries of the buckets that are to come. -/
  entries : ∀ b, pool.entries b = if b ∈ bs then m.map b else none
  pairs : ∀ e ∈ log, pool.pairs.lookup e.1 =
    if HashMap.hash e.2.key ∈ bs then m.pairs.lookup e.1 else none
  others : ∀ r, r ∉ log.map Prod.fst → pool.pairs.lookup r = none

/-- The pairs of a bucket are gone, and its entry. -/
theorem Left.freed (h : m.Represents log) {b : Fin hashMapSize} {bs : List (Fin hashMapSize)}
    {pool : Pool α} (hleft : Left m log (b :: bs) pool) (hb : b ∉ bs)
    {pairs : AList fun _ : PairRef => PairCell α} (hpairs : ∀ r, pairs.lookup r =
      if r ∈ (bucket log b).map Prod.fst then none else pool.pairs.lookup r) :
    Left m log bs { entries := Function.update pool.entries b none, pairs } where
  entries b' := by
    by_cases hb' : b' = b
    · subst hb'
      exact (Function.update_self ..).trans (if_neg hb).symm
    · have hmem : b' ∈ b :: bs ↔ b' ∈ bs := by rw [List.mem_cons, or_iff_right hb']
      refine (Function.update_of_ne hb' ..).trans ?_
      simp only [hleft.entries b', hmem]
  pairs e he := by
    refine (hpairs e.1).trans ?_
    by_cases hhash : HashMap.hash e.2.key = b
    · have hin : e.1 ∈ (bucket log b).map Prod.fst :=
        List.mem_map_of_mem (mem_bucket.mpr ⟨he, hhash⟩)
      rw [if_pos hin, hhash, if_neg hb]
    · have hin : e.1 ∉ (bucket log b).map Prod.fst := by
        intro hin
        obtain ⟨e', he', heq⟩ := List.mem_map.mp hin
        obtain ⟨he', hhash'⟩ := mem_bucket.mp he'
        exact hhash (h.eq_of_address he' he heq ▸ hhash')
      have hmem : HashMap.hash e.2.key ∈ b :: bs ↔ HashMap.hash e.2.key ∈ bs := by
        rw [List.mem_cons, or_iff_right hhash]
      simp only [if_neg hin, hleft.pairs e he, hmem]
  others r hr := by
    refine (hpairs r).trans ?_
    rw [hleft.others r hr, ite_self]

/-- **A round** frees what a bucket has. -/
theorem Left.destroyBucket (h : m.Represents log) {b : Fin hashMapSize}
    {bs : List (Fin hashMapSize)} {pool : Pool α} (hleft : Left m log (b :: bs) pool)
    (hb : b ∉ bs) : ∃ pool', m.destroyBucket pool b = some pool' ∧ Left m log bs pool' := by
  have hin : ∀ e ∈ bucket log b, pool.pairs.lookup e.1 = m.pairs.lookup e.1 := by
    intro e he
    obtain ⟨he, hhash⟩ := mem_bucket.mp he
    rw [hleft.pairs e he, if_pos (hhash ▸ List.mem_cons_self)]
  obtain ⟨pairs, hloop, hpairs⟩ := destroyLoop_eq (h.linked b) (h.nodup_bucket b)
    (Nat.lt_succ_of_le h.length_bucket_le) hin
  have hfreed := hleft.freed h hb hpairs
  have hhead := h.head b
  have hentry := hleft.entries b
  rw [if_pos List.mem_cons_self] at hentry
  cases hmap : m.map b with
  | none =>
      rw [hmap, Option.bind_none] at hhead
      rw [← hhead] at hloop
      have hsame : pool = { pool with pairs } := Option.some.inj hloop
      have hentries : Function.update pool.entries b none = pool.entries := by
        rw [← hmap, ← hentry, Function.update_eq_self]
      rw [hentries, ← hsame] at hfreed
      exact ⟨pool, by simp only [HashMapMemory.destroyBucket, hmap, pure], hfreed⟩
  | some entry =>
      rw [hmap, Option.bind_some] at hhead
      rw [← hhead] at hloop
      rw [hmap] at hentry
      refine ⟨_, ?_, hfreed⟩
      simp only [HashMapMemory.destroyBucket, hmap, hentry, hloop, Option.bind_eq_bind,
        Option.bind_some, Pool.freeEntry, Option.map_some]

theorem Left.eq_empty {pool : Pool α} (hleft : Left m log [] pool) : pool = .empty := by
  have hpairs : ∀ r, pool.pairs.lookup r = none := by
    intro r
    by_cases hr : r ∈ log.map Prod.fst
    · obtain ⟨e, he, rfl⟩ := List.mem_map.mp hr
      rw [hleft.pairs e he, if_neg List.not_mem_nil]
    · exact hleft.others r hr
  obtain ⟨entries, pairs⟩ := pool
  have hentries : entries = fun _ => none := by
    funext b
    rw [← if_neg (t := m.map b) (e := none) (List.not_mem_nil (a := b))]
    exact hleft.entries b
  have hpairs : pairs = ∅ := by
    refine AList.ext (List.eq_nil_iff_forall_not_mem.mpr fun s hs => ?_)
    have hkey : s.1 ∈ pairs := List.mem_map_of_mem hs
    rw [← AList.lookup_isSome, hpairs s.1] at hkey
    cases hkey
  rw [hentries, hpairs]
  rfl

theorem Represents.destroy_eq (h : m.Represents log) : m.destroy = some .empty := by
  have hbuckets : ∀ (bs : List (Fin hashMapSize)) (pool : Pool α), bs.Nodup →
      Left m log bs pool → bs.foldlM m.destroyBucket pool = some .empty := by
    intro bs
    induction bs with
    | nil =>
        intro pool _ hleft
        rw [List.foldlM_nil, hleft.eq_empty]
        rfl
    | cons b bs ih =>
        intro pool hnodup hleft
        obtain ⟨hb, hbs⟩ := List.nodup_cons.mp hnodup
        obtain ⟨pool', hround, hleft'⟩ := hleft.destroyBucket h hb
        rw [List.foldlM_cons, hround, Option.bind_eq_bind, Option.bind_some]
        exact ih pool' hbs hleft'
  refine hbuckets _ _ (List.nodup_finRange _) ⟨fun b => ?_, fun e _ => ?_, fun r hr => ?_⟩
  · rw [if_pos (List.mem_finRange b)]
  · rw [if_pos (List.mem_finRange _)]
  · cases hlookup : m.pairs.lookup r with
    | none => rfl
    | some cell => exact absurd (h.allocated r cell hlookup) hr

end Frees

/-- **All that was inserted and not removed** is visited once, the oldest of a bucket first, and
all that was allocated is freed once, in every run. -/
theorem visited_and_freed (visitor : σ → BitVec 32 → α → σ) (context : σ)
    (calls : List (Call α)) :
    machine.Throughout (fun x =>
      x.1.iterate visitor context = some
        ((inBuckets x.2).foldl (fun context e => visitor context e.2.key e.2.value) context) ∧
      (inBuckets x.2).Perm x.2 ∧ (∀ b, bucket (inBuckets x.2) b = bucket x.2 b) ∧
      x.1.destroy = some .empty) calls (initialise, []) := by
  refine Machine.throughout_of_invariant (I := fun x => x.1.Represents x.2) ?_ ?_ ?_
  · intro x hx
    exact ⟨hx.iterate_eq visitor context, perm_inBuckets hx.nodup, bucket_inBuckets x.2,
      hx.destroy_eq⟩
  · intro x call x' hx hnext
    exact hx.next hnext
  · exact Represents.initialise

end CaptureHpc.Driver.HashMapMemory
