/-
# `Lib.Requests` — a queue handed over in buffers

One side has a queue of records of different lengths.  The other one asks with
a buffer: records are copied into it one behind the other until the next one
does not fit, which is put back, and the other side takes them apart by their
lengths.

`Kept` is the invariant, with one lemma for each operation (`Kept.put`,
`Kept.ask`, `Kept.serve`).  While every record fits every buffer, what was taken
apart, what is on its way and what is queued are the records in order, and an
answer is empty only if the queue was.
-/
import CaptureHpc.Lib.Packing

namespace Requests

/-- How records lie in a memory. -/
structure Format (β : Type) where
  read : Memory → Nat → β
  size : β → Nat
  /-- The length of what every record has. -/
  header : Nat
  positive : 0 < header
  least : ∀ x, header ≤ size x
  /-- A record is read the same way wherever its bytes are. -/
  moved : ∀ {m m' : Memory} {p q : Nat}, (∀ d < size (read m p), m' (q + d) = m (p + d)) →
    read m' q = read m p

theorem Format.within {β : Type} (F : Format β) : Packing.WithinSize F.read F.size := by
  intro m m' p hsame
  exact F.moved fun d hd => hsame (p + d) (Nat.le_add_right p d) (Nat.add_lt_add_left hd p)

/-- A request that is being served. -/
structure Request where
  space : Nat
  used : Nat
  /-- There was a record when it came. -/
  nonEmpty : Bool

structure Answer (β : Type) where
  space : Nat
  returned : Nat
  nonEmpty : Bool
  records : List β

structure State (β : Type) where
  /-- The blocks of the records. -/
  queue : List Memory
  request : Option Request
  /-- The block that was removed from the head. -/
  removed : Option Memory
  buffer : Memory
  answers : List (Answer β)
  /-- The records that there were. -/
  given : List β

/-- What comes back fits the buffer, and there is a record in it if there was one. -/
def Answer.Good {β : Type} (a : Answer β) : Prop :=
  a.returned ≤ a.space ∧ (a.nonEmpty = true → a.records ≠ [])

variable {β : Type} (F : Format β)

/-! ## Taking a buffer apart -/

/-- The loop over the records of a buffer, with addresses of 32 bits. -/
def unpackLoop : Nat → Memory → Nat → Nat → List β
  | 0, _, _, _ => []
  | rounds + 1, m, offset, returned =>
      let x := F.read m offset
      let offset := (offset + F.size x) % 2 ^ 32
      x :: if offset < returned then unpackLoop rounds m offset returned else []

/-- A record is not empty, so `returned` rounds are enough. -/
def unpack (m : Memory) (returned : Nat) : List β :=
  if returned ≥ F.header then unpackLoop F returned m 0 returned else []

variable {F} {m : Memory} {used : Nat}

theorem unpackLoop_packed (hused : used < 2 ^ 32) :
    ∀ (rounds : Nat) (x : β) (xs : List β) (offset : Nat), xs.length < rounds →
      Packing.Packed F.read F.size m offset (x :: xs) used →
        unpackLoop F rounds m offset used = x :: xs := by
  intro rounds
  induction rounds with
  | zero =>
      intro x xs offset hrounds
      exact absurd hrounds (Nat.not_lt_zero _)
  | succ rounds ih =>
      intro x xs offset hrounds ⟨hread, hrest⟩
      have hle := hrest.le
      have hoffset : (offset + F.size x) % 2 ^ 32 = offset + F.size x :=
        Nat.mod_eq_of_lt (Nat.lt_of_le_of_lt hle hused)
      rw [unpackLoop, hread]
      simp only [hoffset]
      cases xs with
      | nil =>
          have hend : offset + F.size x = used := hrest
          rw [if_neg (Nat.not_lt.mpr (Nat.le_of_eq hend.symm))]
      | cons y ys =>
          have hnext := hrest.2.le
          have hpositive := F.positive
          have hleast := F.least y
          rw [if_pos (by omega), ih y ys _ (Nat.lt_of_succ_lt_succ hrounds) hrest]

/-- **What was packed is taken apart again.** -/
theorem unpack_packed {xs : List β} (hused : used < 2 ^ 32)
    (h : Packing.Packed F.read F.size m 0 xs used) : unpack F m used = xs := by
  have hlength := h.length_le F.least
  have hpositive := F.positive
  unfold unpack
  cases xs with
  | nil =>
      obtain rfl : 0 = used := h
      rw [if_neg (Nat.not_le.mpr hpositive)]
  | cons x xs =>
      rw [List.length_cons, Nat.mul_succ] at hlength
      have hrounds : xs.length ≤ F.header * xs.length := Nat.le_mul_of_pos_left _ hpositive
      rw [if_pos (by omega)]
      exact unpackLoop_packed hused used x xs 0 (by omega) h

theorem unpack_zero : unpack F m 0 = [] := if_neg (Nat.not_le.mpr F.positive)

/-- A record is copied behind the others. -/
theorem packed_copy (block : Memory) {xs : List β}
    (h : Packing.Packed F.read F.size m 0 xs used) :
    let x := F.read block 0
    Packing.Packed F.read F.size (m.write used (block.bytesAt 0 (F.size x))) 0 (xs ++ [x])
      (used + F.size x) := by
  intro x
  have hbefore : Packing.Packed F.read F.size (m.write used (block.bytesAt 0 (F.size x))) 0 xs used :=
    h.congr F.within fun y _ hy => Memory.write_outside (.inl hy)
  refine hbefore.concat (F.moved fun d hd => ?_)
  have hin : d < (block.bytesAt 0 (F.size x)).length := by
    rw [Memory.length_bytesAt]
    exact hd
  rw [Memory.write_inside hin, Memory.getElem_bytesAt]

/-! ## The operations -/

namespace State

section Operations

variable (F) (s : State β)

/-- One more record is queued. -/
def put (block : Memory) : State β :=
  { s with queue := s.queue ++ [block], given := s.given ++ [F.read block 0] }

/-- A request with a buffer. -/
def ask (space : Nat) (buffer : Memory) : State β :=
  { s with
    buffer
    request := some { space, used := 0, nonEmpty := !s.queue.isEmpty } }

/-- The buffer goes back and is taken apart. -/
def answer (r : Request) : State β :=
  { s with
    request := none
    answers := s.answers ++ [{
      space := r.space
      returned := r.used
      nonEmpty := r.nonEmpty
      records := unpack F s.buffer r.used }] }

/-- The head is removed, if there may be room for it. -/
def remove (r : Request) : State β :=
  match s.queue with
  | block :: blocks =>
      if r.used < r.space ∧ r.space - r.used ≥ F.header then
        { s with queue := blocks, removed := some block }
      else s.answer F r
  | [] => s.answer F r

/-- What was removed is copied or put back. -/
def place (r : Request) (block : Memory) : State β :=
  let size := F.size (F.read block 0)
  if r.space - r.used ≥ size then
    { s with
      buffer := s.buffer.write r.used (block.bytesAt 0 size)
      request := some { r with used := r.used + size }
      removed := none }
  else
    ({ s with queue := block :: s.queue, removed := none } : State β).answer F r

/-- A step of the loop that serves a request. -/
def serve (r : Request) : State β :=
  match s.removed with
  | none => s.remove F r
  | some block => s.place F r block

/-! ## What is to hold -/

/-- What was taken apart. -/
def decoded : List β := s.answers.flatMap Answer.records

/-- What is in the buffer of a request that is being served, and what was removed. -/
def underWay : List β :=
  match s.request with
  | some r => unpack F s.buffer r.used ++ s.removed.toList.map fun block => F.read block 0
  | none => []

def queued : List β := s.queue.map fun block => F.read block 0

end Operations

/-- What the invariant says of a request: the buffer so far, and what there is to come for it. -/
structure Serving (F : Format β) (most : Nat) (s : State β) (r : Request) : Prop where
  packed : ∃ xs, Packing.Packed F.read F.size s.buffer 0 xs r.used
  used : r.used ≤ r.space
  space : most ≤ r.space ∧ r.space < 2 ^ 32
  first : r.nonEmpty = true → r.used = 0 → s.removed ≠ none ∨ s.queue ≠ []

/-- Nothing is lost, doubled, changed or out of order, and every answer is good. -/
structure Good (F : Format β) (s : State β) : Prop where
  records : s.decoded ++ s.underWay F ++ s.queued F = s.given
  answers : ∀ a ∈ s.answers, a.Good

/-- No record is longer than `most`, and every buffer has room for that. -/
structure Kept (F : Format β) (most : Nat) (s : State β) : Prop where
  short : ∀ block ∈ s.removed.toList ++ s.queue, F.size (F.read block 0) ≤ most
  idle : s.request = none → s.removed = none
  serving : ∀ r, s.request = some r → s.Serving F most r
  good : s.Good F

/-! ## The steps -/

variable {most : Nat} {s : State β} {r : Request}

theorem Kept.put (hs : s.Kept F most) {block : Memory} (hblock : F.size (F.read block 0) ≤ most) :
    (s.put F block).Kept F most := by
  refine ⟨fun b hb => ?_, hs.idle, fun r hr => ?_, ?_, hs.good.answers⟩
  · have hb : b ∈ s.removed.toList ++ (s.queue ++ [block]) := hb
    rw [← List.append_assoc] at hb
    obtain hold | hnew := List.mem_append.mp hb
    · exact hs.short b hold
    · rw [List.mem_singleton.mp hnew]
      exact hblock
  · obtain ⟨hpacked, hused, hspace, hfirst⟩ := hs.serving r hr
    refine ⟨hpacked, hused, hspace, fun hnonEmpty hzero => ?_⟩
    exact (hfirst hnonEmpty hzero).imp_right fun _ => List.append_ne_nil_of_right_ne_nil _
      (List.cons_ne_nil _ _)
  · show s.decoded ++ s.underWay F ++ List.map _ (s.queue ++ _) = s.given ++ _
    rw [List.map_append, ← List.append_assoc, ← hs.good.records]
    rfl

theorem Kept.ask (hs : s.Kept F most) (hidle : s.request = none) {space : Nat} (buffer : Memory)
    (hspace : most ≤ space ∧ space < 2 ^ 32) : (s.ask space buffer).Kept F most := by
  have hremoved := hs.idle hidle
  have hrecords := hs.good.records
  refine ⟨hs.short, nofun, ?_, ?_, hs.good.answers⟩
  · rintro r hr
    obtain rfl := Option.some.inj hr
    refine ⟨⟨[], rfl⟩, Nat.zero_le _, hspace, fun hnonEmpty _ => .inr ?_⟩
    simpa [State.ask] using hnonEmpty
  · unfold decoded underWay queued at hrecords ⊢
    rw [hidle] at hrecords
    simpa [State.ask, hremoved, unpack_zero] using hrecords

/-- The request ends. -/
theorem Kept.answer (hs : s.Kept F most) (hr : s.request = some r) (hremoved : s.removed = none)
    (hsome : r.nonEmpty = true → r.used ≠ 0) : (s.answer F r).Kept F most := by
  obtain ⟨⟨xs, hpacked⟩, hused, hspace, -⟩ := hs.serving r hr
  have hunpack := unpack_packed (by omega) hpacked
  refine ⟨hs.short, fun _ => hremoved, nofun, ?_, ?_⟩
  · have hrecords := hs.good.records
    unfold decoded underWay at hrecords ⊢
    rw [hr, hremoved] at hrecords
    simpa [State.answer, queued] using hrecords
  · intro a ha
    obtain hold | hnew := List.mem_append.mp ha
    · exact hs.good.answers a hold
    · rw [List.mem_singleton.mp hnew]
      refine ⟨hused, fun hnonEmpty => ?_⟩
      show unpack F s.buffer r.used ≠ []
      rw [hunpack]
      rintro rfl
      exact hsome hnonEmpty hpacked.symm

theorem Kept.remove (hs : s.Kept F most) (hr : s.request = some r) (hremoved : s.removed = none) :
    (s.remove F r).Kept F most := by
  obtain ⟨hpacked, hused, hspace, hfirst⟩ := hs.serving r hr
  have hrecords := hs.good.records
  unfold State.remove
  cases hqueue : s.queue with
  | nil =>
      refine hs.answer hr hremoved fun hnonEmpty hzero => ?_
      obtain hsome | hsome := hfirst hnonEmpty hzero
      · exact hsome hremoved
      · exact hsome hqueue
  | cons block blocks =>
      have hshort := hs.short block (by simp [hqueue])
      have hleast := F.least (F.read block 0)
      have hpositive := F.positive
      simp only
      split_ifs with hroom
      · refine ⟨fun b hb => hs.short b ?_, fun hnone => (nomatch hr.symm.trans hnone), ?_, ?_,
          hs.good.answers⟩
        · rw [hremoved, hqueue]
          exact hb
        · rintro r' hr'
          obtain rfl := Option.some.inj (hr.symm.trans hr')
          exact ⟨hpacked, hused, hspace, fun _ _ => .inl nofun⟩
        · unfold decoded underWay queued at hrecords ⊢
          rw [hr, hremoved, hqueue] at hrecords
          simpa [hr] using hrecords
      · -- at the beginning there is room for every record
        refine hs.answer hr hremoved fun _ hzero => ?_
        omega

theorem Kept.place (hs : s.Kept F most) (hr : s.request = some r) {block : Memory}
    (hremoved : s.removed = some block) : (s.place F r block).Kept F most := by
  obtain ⟨⟨xs, hpacked⟩, hused, hspace, -⟩ := hs.serving r hr
  have hrecords := hs.good.records
  have hunpack := unpack_packed (by omega) hpacked
  have hshort := hs.short block (by simp [hremoved])
  have hleast := F.least (F.read block 0)
  have hpositive := F.positive
  unfold State.place
  simp only
  split_ifs with hroom
  · have hcopy := packed_copy block hpacked
    have hunpack' := unpack_packed (by omega) hcopy
    refine ⟨fun b hb => hs.short b (List.mem_append_right _ hb), nofun, ?_, ?_, hs.good.answers⟩
    · rintro r' hr'
      obtain rfl := Option.some.inj hr'
      refine ⟨⟨_, hcopy⟩, ?_, hspace, fun _ hzero => ?_⟩
      · show r.used + F.size (F.read block 0) ≤ r.space
        omega
      · have hzero : r.used + F.size (F.read block 0) = 0 := hzero
        omega
    · unfold decoded underWay queued at hrecords ⊢
      rw [hr, hremoved] at hrecords
      simp only [hunpack] at hrecords
      simp only [hunpack']
      simpa using hrecords
  · have hback : Kept F most { s with queue := block :: s.queue, removed := none } := by
      refine ⟨fun b hb => hs.short b ?_, fun _ => rfl, ?_, ?_, hs.good.answers⟩
      · rw [hremoved]
        exact hb
      · rintro r' hr'
        obtain rfl := Option.some.inj (hr.symm.trans hr')
        exact ⟨⟨xs, hpacked⟩, hused, hspace, fun _ _ => .inr (List.cons_ne_nil _ _)⟩
      · unfold decoded underWay queued at hrecords ⊢
        rw [hr, hremoved] at hrecords
        simpa [hr] using hrecords
    refine hback.answer hr rfl fun _ hzero => ?_
    omega

/-- **A step of the loop.** -/
theorem Kept.serve (hs : s.Kept F most) (hr : s.request = some r) : (s.serve F r).Kept F most := by
  unfold State.serve
  cases hremoved : s.removed with
  | none => exact hs.remove hr hremoved
  | some block => exact hs.place hr hremoved

/-- At the beginning. -/
theorem Kept.init (F : Format β) (most : Nat) (buffer : Memory) :
    Kept F most { queue := [], request := none, removed := none, buffer, answers := [], given := [] } :=
  ⟨nofun, fun _ => rfl, nofun, rfl, nofun⟩

/-! ## A record that does not fit -/

/-- At the head there is a record that is longer than the buffers, and nothing is in the buffer of
the request that is being served. -/
structure Stuck (F : Format β) (space : Nat) (x : β) (s : State β) : Prop where
  long : space < F.size x
  head : ∃ block blocks, s.removed.toList ++ s.queue = block :: blocks ∧ F.read block 0 = x
  empty : ∀ r, s.request = some r → r.used = 0 ∧ r.space = space

variable {space : Nat} {x : β}

theorem Stuck.put (hs : s.Stuck F space x) (block : Memory) : (s.put F block).Stuck F space x := by
  obtain ⟨hlong, ⟨first, blocks, hhead, hx⟩, hempty⟩ := hs
  refine ⟨hlong, ⟨first, blocks ++ [block], ?_, hx⟩, hempty⟩
  show s.removed.toList ++ (s.queue ++ [block]) = _
  rw [← List.append_assoc, hhead]
  rfl

theorem Stuck.ask (hs : s.Stuck F space x) (buffer : Memory) :
    (s.ask space buffer).Stuck F space x := by
  refine ⟨hs.long, hs.head, ?_⟩
  rintro r hr
  obtain rfl := Option.some.inj hr
  exact ⟨rfl, rfl⟩

theorem Stuck.answer (hs : s.Stuck F space x) (hr : s.request = some r) :
    (s.answer F r).Stuck F space x ∧ (s.answer F r).decoded = s.decoded := by
  refine ⟨⟨hs.long, hs.head, nofun⟩, ?_⟩
  have hnothing : unpack F s.buffer r.used = [] := by
    rw [(hs.empty r hr).1]
    exact unpack_zero
  simp [State.answer, decoded, hnothing]

/-- **The record stays where it is**, and nothing more is handed over. -/
theorem Stuck.serve (hs : s.Stuck F space x) (hr : s.request = some r) :
    (s.serve F r).Stuck F space x ∧ (s.serve F r).decoded = s.decoded := by
  obtain ⟨block, blocks, hhead, hx⟩ := hs.head
  unfold State.serve
  cases hremoved : s.removed with
  | none =>
      rw [hremoved] at hhead
      have hqueue : s.queue = block :: blocks := hhead
      simp only [State.remove, hqueue]
      split_ifs with hroom
      · exact ⟨⟨hs.long, ⟨block, blocks, rfl, hx⟩, hs.empty⟩, rfl⟩
      · exact hs.answer hr
  | some removed =>
      rw [hremoved] at hhead
      obtain ⟨rfl, hblocks⟩ := List.cons.inj hhead
      obtain ⟨hzero, hspace⟩ := hs.empty r hr
      have hlong := hs.long
      have hroom : ¬ r.space - r.used ≥ F.size (F.read removed 0) := by
        rw [hx]
        omega
      simp only [State.place, if_neg hroom]
      have hback : Stuck F space x { s with queue := removed :: s.queue, removed := none } :=
        ⟨hs.long, ⟨removed, s.queue, rfl, hx⟩, hs.empty⟩
      exact hback.answer hr

/-- The next request gets nothing, although there is a record. -/
theorem Stuck.unanswered (hs : s.Stuck F space x) (hremoved : s.removed = none)
    (hspace : F.header ≤ space) (buffer : Memory) :
    let r : Request := { space, used := 0, nonEmpty := !s.queue.isEmpty }
    ¬ (((s.ask space buffer).serve F r).serve F r).Good F := by
  intro r hgood
  obtain ⟨block, blocks, hhead, hx⟩ := hs.head
  rw [hremoved] at hhead
  have hqueue : s.queue = block :: blocks := hhead
  have hlong := hs.long
  have hpositive := F.positive
  have hfirst : (s.ask space buffer).serve F r =
      { s.ask space buffer with queue := blocks, removed := some block } := by
    have hroom : r.used < r.space ∧ r.space - r.used ≥ F.header :=
      ⟨Nat.lt_of_lt_of_le hpositive hspace, hspace⟩
    simp only [State.serve, State.ask, hremoved, State.remove, hqueue, if_pos hroom]
  rw [hfirst] at hgood
  have hlarge : ¬ r.space - r.used ≥ F.size (F.read block 0) := by
    rw [hx]
    exact Nat.not_le.mpr hlong
  have hnonEmpty : r.nonEmpty = true := by
    show (!s.queue.isEmpty) = true
    rw [hqueue]
    rfl
  simp only [State.serve, State.place, if_neg hlarge] at hgood
  obtain ⟨-, hrecord⟩ := hgood.answers _ (List.mem_append_right _ (List.mem_singleton.mpr rfl))
  exact hrecord hnonEmpty unpack_zero

end State

end Requests
