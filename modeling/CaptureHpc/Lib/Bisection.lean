/-
# `Lib.Bisection` — finding bad items by testing groups

A test of a group tells whether one of its items is bad, but not which.  A group
without a bad item is acquitted as a whole, a single bad item is convicted, and
any other group with a bad item is cut in two halves that are tested later.
Several groups may be tested at a time, and their tests may end in any order.

`Sound` is what every search keeps: each item waits, is in one group or has a
verdict, no group is empty, the verdicts are right, and the tests are paid for
by the verdicts, the groups and the items that are still open.  From it come the
bound on the tests (`Sound.tests_le`) and what a search ends with
(`Sound.verdict_of_ended`).
-/
import Mathlib.Data.Multiset.Bind
import Mathlib.Logic.Relation

/-- A search for the bad items of a list. -/
structure Bisection (α : Type) where
  /-- The items that have been in no group yet. -/
  waiting : List α
  /-- The groups that are to be tested. -/
  stack : List (List α) := []
  /-- The groups that are being tested. -/
  held : Multiset (List α) := 0
  verdicts : List (α × Bool) := []
  /-- How many tests have begun. -/
  tests : Nat := 0
  /-- How many groups were made of items that waited. -/
  drawn : Nat := 0

namespace Bisection

variable {α : Type} {bad : α → Prop} {items : List α} {b b' : Bisection α}

/-- One step of a search. -/
inductive Step (bad : α → Prop) (b : Bisection α) : Bisection α → Prop
  | draw {group rest : List α} : b.waiting = group ++ rest → group ≠ [] →
      Step bad b { b with waiting := rest, held := group ::ₘ b.held, tests := b.tests + 1
                          drawn := b.drawn + 1 }
  | take {group : List α} {rest : List (List α)} : b.stack = group :: rest →
      Step bad b { b with stack := rest, held := group ::ₘ b.held, tests := b.tests + 1 }
  | acquit {group : List α} {rest : Multiset (List α)} : b.held = group ::ₘ rest →
      (∀ a ∈ group, ¬ bad a) →
        Step bad b { b with held := rest, verdicts := b.verdicts ++ group.map (·, false) }
  | convict {a : α} {rest : Multiset (List α)} : b.held = [a] ::ₘ rest → bad a →
      Step bad b { b with held := rest, verdicts := b.verdicts ++ [(a, true)] }
  | cut {group : List α} {rest : Multiset (List α)} : b.held = group ::ₘ rest →
      1 < group.length → (∃ a ∈ group, bad a) →
        Step bad b { b with
          held := rest
          stack := group.drop (group.length / 2) :: group.take (group.length / 2) :: b.stack }

/-- A group that is judged as a whole: it is acquitted, or it is a single item that is convicted. -/
theorem Step.judge {group : List α} {rest : Multiset (List α)} {v : Bool}
    (hheld : b.held = group ::ₘ rest) (hone : v = true → ∃ a, group = [a])
    (hright : ∀ a ∈ group, v = true ↔ bad a) :
    Step bad b { b with held := rest, verdicts := b.verdicts ++ group.map (·, v) } := by
  cases v with
  | false => exact .acquit hheld fun a ha hbad => Bool.noConfusion ((hright a ha).mpr hbad)
  | true =>
      obtain ⟨a, rfl⟩ := hone rfl
      exact .convict hheld ((hright a List.mem_cons_self).mp rfl)

/-- All items, wherever they are. -/
def contents (b : Bisection α) : Multiset α :=
  b.waiting + b.stack.flatten + b.held.bind (fun group => (group : Multiset α)) +
    b.verdicts.map Prod.fst

/-- **What a search keeps.** -/
structure Sound (bad : α → Prop) (items : List α) (b : Bisection α) : Prop where
  contents : b.contents = items
  filled : ∀ group, group ∈ b.stack ∨ group ∈ b.held → group ≠ []
  right : ∀ a v, (a, v) ∈ b.verdicts → (v = true ↔ bad a)
  paid : b.tests + b.drawn ≤ 2 * b.verdicts.length + b.stack.length + 2 * b.held.card
  begun : b.drawn = 0 → b.tests = 0 ∧ b.stack = [] ∧ b.held = 0 ∧ b.verdicts = []

theorem Sound.start : Sound bad items { waiting := items } where
  contents := by simp [Bisection.contents]
  filled := by simp
  right := by simp
  paid := Nat.le_refl _
  begun := fun _ => ⟨rfl, rfl, rfl, rfl⟩

/-- A new item waits. -/
theorem Sound.enter (h : Sound bad items b) {a : α} {waiting : List α}
    (hwaiting : (waiting : Multiset α) = a ::ₘ (b.waiting : Multiset α)) :
    Sound bad (a :: items) { b with waiting } where
  contents := by
    have hall := h.contents
    rw [Bisection.contents] at hall
    rw [Bisection.contents, ← Multiset.cons_coe, ← hall, hwaiting]
    simp only [Multiset.cons_add]
  filled := h.filled
  right := h.right
  paid := h.paid
  begun := h.begun

theorem halves_filled {group : List α} (h : 1 < group.length) :
    group.drop (group.length / 2) ≠ [] ∧ group.take (group.length / 2) ≠ [] := by
  constructor
  · intro hnil
    have := congrArg List.length hnil
    rw [List.length_drop, List.length_nil] at this
    omega
  · intro hnil
    have := congrArg List.length hnil
    rw [List.length_take, List.length_nil] at this
    omega

theorem contents_halves (group : List α) (n : Nat) :
    (group.drop n : Multiset α) + group.take n = group := by
  rw [add_comm, Multiset.coe_add, List.take_append_drop]

/-- **A step keeps it.** -/
theorem Sound.step (h : Sound bad items b) (hstep : Step bad b b') : Sound bad items b' := by
  have hall := h.contents
  have hpaid := h.paid
  rw [Bisection.contents] at hall
  cases hstep with
  | draw hwaiting hgroup =>
      refine ⟨?_, ?_, h.right, ?_, nofun⟩
      · rw [← hall, hwaiting, ← Multiset.coe_add]
        simp only [Bisection.contents, Multiset.cons_bind]
        ac_rfl
      · rintro other (hother | hother)
        · exact h.filled other (.inl hother)
        · rcases Multiset.mem_cons.mp hother with rfl | hother
          · exact hgroup
          · exact h.filled other (.inr hother)
      · simp only [Multiset.card_cons]
        omega
  | take hstack =>
      refine ⟨?_, ?_, h.right, ?_, fun hnone => ?_⟩
      · rw [← hall, hstack, List.flatten_cons, ← Multiset.coe_add]
        simp only [Bisection.contents, Multiset.cons_bind]
        ac_rfl
      · rintro other (hother | hother)
        · exact h.filled other (.inl (by rw [hstack]; exact List.mem_cons_of_mem _ hother))
        · rcases Multiset.mem_cons.mp hother with rfl | hother
          · exact h.filled other (.inl (by rw [hstack]; exact List.mem_cons_self))
          · exact h.filled other (.inr hother)
      · rw [hstack, List.length_cons] at hpaid
        simp only [Multiset.card_cons]
        omega
      · rw [(h.begun hnone).2.1] at hstack
        cases hstack
  | @acquit group rest hheld hgood =>
      have hgroup : group ≠ [] :=
        h.filled group (.inr (by rw [hheld]; exact Multiset.mem_cons_self ..))
      have hfilled : 0 < group.length := List.length_pos_iff.mpr hgroup
      refine ⟨?_, ?_, ?_, ?_, fun hnone => ?_⟩
      · rw [← hall, hheld, Multiset.cons_bind]
        simp only [Bisection.contents, List.map_append, List.map_map, ← Multiset.coe_add]
        have hfst : group.map (Prod.fst ∘ fun a => (a, false)) = group := List.map_id' group
        rw [hfst]
        ac_rfl
      · rintro other (hother | hother)
        · exact h.filled other (.inl hother)
        · exact h.filled other (.inr (by rw [hheld]; exact Multiset.mem_cons_of_mem hother))
      · intro a v hmem
        rcases List.mem_append.mp hmem with hmem | hmem
        · exact h.right a v hmem
        · obtain ⟨a', ha, heq⟩ := List.mem_map.mp hmem
          obtain ⟨rfl, rfl⟩ := Prod.mk.inj heq
          exact iff_of_false Bool.noConfusion (hgood _ ha)
      · rw [hheld, Multiset.card_cons] at hpaid
        simp only [List.length_append, List.length_map]
        omega
      · rw [(h.begun hnone).2.2.1] at hheld
        exact absurd hheld.symm (Multiset.cons_ne_zero)
  | @convict a rest hheld hbad =>
      refine ⟨?_, ?_, ?_, ?_, fun hnone => ?_⟩
      · rw [← hall, hheld, Multiset.cons_bind]
        simp only [Bisection.contents, List.map_append, ← Multiset.coe_add]
        rw [List.map_cons, List.map_nil]
        ac_rfl
      · rintro other (hother | hother)
        · exact h.filled other (.inl hother)
        · exact h.filled other (.inr (by rw [hheld]; exact Multiset.mem_cons_of_mem hother))
      · intro a' v hmem
        rcases List.mem_append.mp hmem with hmem | hmem
        · exact h.right a' v hmem
        · obtain ⟨rfl, rfl⟩ := Prod.mk.inj (List.mem_singleton.mp hmem)
          exact iff_of_true rfl hbad
      · rw [hheld, Multiset.card_cons] at hpaid
        simp only [List.length_append, List.length_singleton]
        omega
      · rw [(h.begun hnone).2.2.1] at hheld
        exact absurd hheld.symm (Multiset.cons_ne_zero)
  | @cut group rest hheld hlong _ =>
      obtain ⟨hsecond, hfirst⟩ := halves_filled hlong
      refine ⟨?_, ?_, h.right, ?_, fun hnone => ?_⟩
      · rw [← hall, hheld, Multiset.cons_bind, ← contents_halves group (group.length / 2)]
        simp only [Bisection.contents, List.flatten_cons, ← Multiset.coe_add]
        ac_rfl
      · rintro other (hother | hother)
        · rcases List.mem_cons.mp hother with rfl | hother
          · exact hsecond
          · rcases List.mem_cons.mp hother with rfl | hother
            · exact hfirst
            · exact h.filled other (.inl hother)
        · exact h.filled other (.inr (by rw [hheld]; exact Multiset.mem_cons_of_mem hother))
      · rw [hheld, Multiset.card_cons] at hpaid
        simp only [List.length_cons]
        omega
      · rw [(h.begun hnone).2.2.1] at hheld
        exact absurd hheld.symm (Multiset.cons_ne_zero)

/-! ## What follows -/

theorem card_le_bind {held : Multiset (List α)} (h : ∀ group ∈ held, group ≠ []) :
    held.card ≤ (held.bind fun group => (group : Multiset α)).card := by
  induction held using Multiset.induction with
  | empty => exact Nat.zero_le _
  | cons group rest ih =>
      have hgroup := List.length_pos_iff.mpr (h group (Multiset.mem_cons_self ..))
      have hrest := ih fun other hother => h other (Multiset.mem_cons_of_mem hother)
      rw [Multiset.cons_bind, Multiset.card_add, Multiset.card_cons, Multiset.coe_card]
      omega

theorem length_le_flatten {stack : List (List α)} (h : ∀ group ∈ stack, group ≠ []) :
    stack.length ≤ stack.flatten.length := by
  induction stack with
  | nil => exact Nat.le_refl _
  | cons group rest ih =>
      obtain ⟨hgroup, hrest⟩ := List.forall_mem_cons.mp h
      have := List.length_pos_iff.mpr hgroup
      have := ih hrest
      rw [List.flatten_cons, List.length_append, List.length_cons]
      omega

/-- Where keys are distinct, a key has one value. -/
theorem filter_key [DecidableEq α] {β : Type} {a : α} {v : β} : ∀ {l : List (α × β)},
    (l.map Prod.fst).Nodup → (a, v) ∈ l → l.filter (fun p => p.1 = a) = [(a, v)]
  | [], _, hmem => absurd hmem List.not_mem_nil
  | (a', v') :: l, hnodup, hmem => by
      obtain ⟨hnot, hrest⟩ := List.nodup_cons.mp hnodup
      rcases List.mem_cons.mp hmem with heq | hmem
      · obtain ⟨rfl, rfl⟩ := Prod.mk.inj heq
        rw [List.filter_cons_of_pos (by simp), List.filter_eq_nil_iff.mpr]
        intro p hp heq
        rw [decide_eq_true_eq] at heq
        exact hnot (List.mem_map.mpr ⟨p, hp, heq⟩)
      · have hne : a' ≠ a := by
          rintro rfl
          exact hnot (List.mem_map.mpr ⟨(a', v), hmem, rfl⟩)
        rw [List.filter_cons_of_neg (by simpa using hne), filter_key hrest hmem]

/-- The item has no verdict yet. -/
def IsOpen (b : Bisection α) (a : α) : Prop :=
  a ∈ b.waiting ∨ ∃ group, (group ∈ b.stack ∨ group ∈ b.held) ∧ a ∈ group

/-- Nothing is left to be tested. -/
def Ended (b : Bisection α) : Prop := b.waiting = [] ∧ b.stack = [] ∧ b.held = 0

/-- The verdicts on an item. -/
def verdictsOf [DecidableEq α] (b : Bisection α) (a : α) : List Bool :=
  (b.verdicts.filter fun p => p.1 = a).map Prod.snd

theorem verdictsOf_judged [DecidableEq α] {group : List α} {v : Bool} (hgroup : group.Nodup)
    (h : b'.verdicts = b.verdicts ++ group.map (·, v)) (a : α) :
    b'.verdictsOf a = b.verdictsOf a ++ if a ∈ group then [v] else [] := by
  have hnew : ((group.map (·, v)).filter fun p => p.1 = a).map Prod.snd =
      if a ∈ group then [v] else [] := by
    split
    · next ha =>
        rw [filter_key (v := v) ?_ (List.mem_map.mpr ⟨a, ha, rfl⟩)]
        · rfl
        · rw [List.map_map]
          exact (List.map_id' group).symm ▸ hgroup
    · next ha =>
        rw [List.filter_eq_nil_iff.mpr]
        · rfl
        · intro p hp heq
          obtain ⟨a', ha', rfl⟩ := List.mem_map.mp hp
          rw [decide_eq_true_eq] at heq
          exact ha (heq ▸ ha')
  rw [verdictsOf, h, List.filter_append, List.map_append, hnew, ← verdictsOf]

theorem verdictsOf_nil [DecidableEq α] {a : α} (ha : a ∉ b.verdicts.map Prod.fst) :
    b.verdictsOf a = [] := by
  have hnone : b.verdicts.filter (fun p => p.1 = a) = [] := by
    refine List.filter_eq_nil_iff.mpr fun p hp heq => ha ?_
    rw [decide_eq_true_eq] at heq
    exact List.mem_map.mpr ⟨p, hp, heq⟩
  rw [verdictsOf, hnone]
  rfl

namespace Sound
variable (h : Sound bad items b)
include h

/-- **The number of tests.** -/
theorem tests_le : b.tests + b.drawn ≤ 2 * items.length := by
  have hstack := length_le_flatten fun group hgroup => h.filled group (.inl hgroup)
  have hheld := card_le_bind fun group hgroup => h.filled group (.inr hgroup)
  have hcard := congrArg Multiset.card h.contents
  simp only [Bisection.contents, Multiset.card_add, Multiset.coe_card, List.length_map] at hcard
  have hpaid := h.paid
  omega

theorem tests_lt (hitems : items ≠ []) : b.tests < 2 * items.length := by
  have hle := h.tests_le
  have hpos := List.length_pos_iff.mpr hitems
  by_cases hdrawn : b.drawn = 0
  · rw [(h.begun hdrawn).1]
    omega
  · omega

theorem isOpen_or {a : α} (ha : a ∈ items) : b.IsOpen a ∨ a ∈ b.verdicts.map Prod.fst := by
  have hmem : a ∈ b.contents := by
    rw [h.contents]
    exact ha
  simp only [Bisection.contents, Multiset.mem_add, Multiset.mem_coe, List.mem_flatten,
    Multiset.mem_bind] at hmem
  rcases hmem with ((hwaiting | ⟨group, hgroup, hmem⟩) | ⟨group, hgroup, hmem⟩) | hverdict
  · exact .inl (.inl hwaiting)
  · exact .inl (.inr ⟨group, .inl hgroup, hmem⟩)
  · exact .inl (.inr ⟨group, .inr hgroup, hmem⟩)
  · exact .inr hverdict

theorem mem_of_verdict {a : α} (ha : a ∈ b.verdicts.map Prod.fst) : a ∈ items := by
  have hmem : a ∈ b.contents := Multiset.mem_add.mpr (.inr ha)
  rw [h.contents] at hmem
  exact hmem

variable (hitems : items.Nodup)
include hitems

theorem nodup_contents : b.contents.Nodup := by
  rw [h.contents]
  exact Multiset.coe_nodup.mpr hitems

theorem nodup_verdicts : (b.verdicts.map Prod.fst).Nodup := by
  have hnodup := h.nodup_contents hitems
  exact Multiset.coe_nodup.mp (Multiset.nodup_add.mp hnodup).2.1

/-- An item that has a verdict is nowhere else. -/
theorem not_isOpen {a : α} (ha : a ∈ b.verdicts.map Prod.fst) : ¬ b.IsOpen a := by
  have hdisjoint := (Multiset.nodup_add.mp (h.nodup_contents hitems)).2.2
  intro hopen
  refine Multiset.disjoint_left.mp hdisjoint ?_ ha
  simp only [Multiset.mem_add, Multiset.mem_coe, List.mem_flatten, Multiset.mem_bind]
  rcases hopen with hwaiting | ⟨group, hstack | hheld, hmem⟩
  · exact .inl (.inl hwaiting)
  · exact .inl (.inr ⟨group, hstack, hmem⟩)
  · exact .inr ⟨group, hheld, hmem⟩

/-- A group that is being tested has its items to itself. -/
theorem apart {group : List α} {rest : Multiset (List α)} (hheld : b.held = group ::ₘ rest) :
    group.Nodup ∧ ∀ a ∈ group, a ∉ b.waiting ∧ (∀ other ∈ b.stack, a ∉ other) ∧
      (∀ other ∈ rest, a ∉ other) ∧ a ∉ b.verdicts.map Prod.fst := by
  have hnodup := h.nodup_contents hitems
  have hsplit : b.contents = group + (b.waiting + b.stack.flatten +
      rest.bind (fun group => (group : Multiset α)) + b.verdicts.map Prod.fst) := by
    rw [Bisection.contents, hheld, Multiset.cons_bind]
    ac_rfl
  rw [hsplit] at hnodup
  obtain ⟨hgroup, -, hdisjoint⟩ := Multiset.nodup_add.mp hnodup
  refine ⟨Multiset.coe_nodup.mp hgroup, fun a ha => ?_⟩
  have hnot := Multiset.disjoint_left.mp hdisjoint (Multiset.mem_coe.mpr ha)
  simp only [Multiset.mem_add, Multiset.mem_coe, List.mem_flatten, Multiset.mem_bind, not_or,
    not_exists, not_and] at hnot
  exact ⟨hnot.1.1.1, hnot.1.1.2, hnot.1.2, hnot.2⟩

variable [DecidableEq α] [DecidablePred bad]

theorem verdictsOf_eq {a : α} (ha : a ∈ b.verdicts.map Prod.fst) :
    b.verdictsOf a = [decide (bad a)] := by
  obtain ⟨⟨a, v⟩, hmem, rfl⟩ := List.mem_map.mp ha
  have hv : v = decide (bad a) := by
    rw [Bool.eq_iff_iff, h.right a v hmem, decide_eq_true_eq]
  rw [verdictsOf, filter_key (h.nodup_verdicts hitems) hmem, hv]
  rfl

/-- **Each item that is not open any more has one verdict, the right one.** -/
theorem verdictsOf_cases {a : α} (ha : a ∈ items) :
    (b.IsOpen a ∧ b.verdictsOf a = []) ∨ (¬ b.IsOpen a ∧ b.verdictsOf a = [decide (bad a)]) := by
  rcases h.isOpen_or ha with hopen | hverdict
  · exact .inl ⟨hopen, verdictsOf_nil fun hverdict => h.not_isOpen hitems hverdict hopen⟩
  · exact .inr ⟨h.not_isOpen hitems hverdict, h.verdictsOf_eq hitems hverdict⟩

/-- **What a search ends with.** -/
theorem verdict_of_ended (hended : b.Ended) {a : α} (ha : a ∈ items) :
    b.verdictsOf a = [decide (bad a)] := by
  obtain ⟨hwaiting, hstack, hheld⟩ := hended
  rcases h.verdictsOf_cases hitems ha with ⟨hopen | ⟨group, hgroup | hgroup, -⟩, -⟩ | ⟨-, hone⟩
  · rw [hwaiting] at hopen
    exact absurd hopen List.not_mem_nil
  · rw [hstack] at hgroup
    exact absurd hgroup List.not_mem_nil
  · rw [hheld] at hgroup
    exact absurd hgroup (Multiset.notMem_zero _)
  · exact hone

end Sound

end Bisection
