/-
# `Client.ExclusionMap` — the exclusions of a monitor in memory

`permissionMap` maps an event type to a list, and in the list are addresses of
permissions.  `add` is what `addExclusion` does there, and `view` is the map as
`Client.Monitor` has it.

`clearExclusionList` is to take the exclusions of the server out and to keep the
permanent ones.  It takes an exclusion out of the list it is walking along, and
then advances the iterator of the node that is gone.  `cleared_iff` says when
this does no harm: when there is nothing to take out.
-/
import CaptureHpc.Client.Monitor
import CaptureHpc.Lib.NodeList
import Mathlib.Logic.Function.Basic

namespace CaptureHpc.Client

open NodeList

variable {ρ : Type}

/-- The permissions at their addresses; `delete` leaves nothing. -/
abbrev PermissionHeap (ρ : Type) := Nat → Option (Permission ρ)

/-- `permissionMap`, in the order in which the map is walked. -/
structure ExclusionMap (ρ : Type) where
  entries : List (WString × List (Node Nat))
  heap : PermissionHeap ρ
  distinct : ∀ e ∈ entries, (e.2.map Node.name).Nodup
  alive : ∀ e ∈ entries, ∀ x ∈ e.2, (heap x.value).isSome

namespace ExclusionMap

/-- The permissions of an entry. -/
def permissions (heap : PermissionHeap ρ) (lp : List (Node Nat)) : List (Permission ρ) :=
  lp.filterMap fun x => heap x.value

/-- The map without addresses. -/
def view (m : ExclusionMap ρ) : PermissionMap ρ := m.entries.map fun e => (e.1, permissions m.heap e.2)

/-! ## Adding an exclusion -/

/-- The end of `addExclusion`: a list with the address at its end, under its key. -/
def put (action : WString) (x : Node Nat) :
    List (WString × List (Node Nat)) → List (WString × List (Node Nat))
  | [] => [(action, [x])]
  | (key, lp) :: entries =>
      if action = key then (key, lp ++ [x]) :: entries else (key, lp) :: put action x entries

/-- An entry afterwards is one from before, perhaps with the new node at its end. -/
theorem mem_put {action : WString} {x : Node Nat} {e : WString × List (Node Nat)} :
    ∀ {entries : List (WString × List (Node Nat))}, e ∈ put action x entries →
      e = (action, [x]) ∨ e ∈ entries ∨ ∃ e' ∈ entries, e = (e'.1, e'.2 ++ [x])
  | [], h => .inl (List.mem_singleton.mp h)
  | (key, lp) :: entries, h => by
      rw [put] at h
      split at h
      · cases List.mem_cons.mp h with
        | inl heq => exact .inr (.inr ⟨(key, lp), List.mem_cons_self, heq⟩)
        | inr hmem => exact .inr (.inl (List.mem_cons_of_mem _ hmem))
      · cases List.mem_cons.mp h with
        | inl heq => exact .inr (.inl (heq ▸ List.mem_cons_self))
        | inr hmem =>
            rcases mem_put hmem with hnew | hold | ⟨e', he', heq⟩
            · exact .inl hnew
            · exact .inr (.inl (List.mem_cons_of_mem _ hold))
            · exact .inr (.inr ⟨e', List.mem_cons_of_mem _ he', heq⟩)

/-- A permission at a new address, in a new node. -/
def add (m : ExclusionMap ρ) (action : WString) (p : Permission ρ) (x : Node Nat)
    (hname : ∀ e ∈ m.entries, ∀ y ∈ e.2, y.name ≠ x.name) : ExclusionMap ρ where
  entries := put action x m.entries
  heap := Function.update m.heap x.value (some p)
  distinct e he := by
    rcases mem_put he with rfl | hold | ⟨e', he', rfl⟩
    · exact List.nodup_singleton _
    · exact m.distinct e hold
    · rw [List.map_append, List.nodup_append]
      refine ⟨m.distinct e' he', List.nodup_singleton _, ?_⟩
      intro n hn n' hn'
      obtain ⟨y, hy, rfl⟩ := List.mem_map.mp hn
      obtain rfl := List.mem_singleton.mp hn'
      exact hname e' he' y hy
  alive e he y hy := by
    by_cases hy' : y.value = x.value
    · simp [hy']
    rw [Function.update_of_ne hy']
    rcases mem_put he with rfl | hold | ⟨e', he', rfl⟩
    · exact absurd (congrArg Node.value (List.mem_singleton.mp hy)) hy'
    · exact m.alive e hold y hy
    · cases List.mem_append.mp hy with
      | inl hold => exact m.alive e' he' y hold
      | inr hnew => exact absurd (congrArg Node.value (List.mem_singleton.mp hnew)) hy'

theorem permissions_update {heap : PermissionHeap ρ} {lp : List (Node Nat)} {address : Nat}
    (hnew : ∀ y ∈ lp, y.value ≠ address) (p : Option (Permission ρ)) :
    permissions (Function.update heap address p) lp = permissions heap lp := by
  refine List.filterMap_congr ?_
  intro y hy
  exact Function.update_of_ne (hnew y hy) _ _

theorem map_put (heap : PermissionHeap ρ) (action : WString) (p : Permission ρ) (x : Node Nat) :
    ∀ {entries : List (WString × List (Node Nat))},
      (∀ e ∈ entries, ∀ y ∈ e.2, y.value ≠ x.value) →
      (put action x entries).map
          (fun e => (e.1, permissions (Function.update heap x.value (some p)) e.2)) =
        Monitor.store action p (entries.map fun e => (e.1, permissions heap e.2))
  | [], _ => by simp [put, Monitor.store, permissions]
  | (key, lp) :: entries, hnew => by
      obtain ⟨hlp, hrest⟩ := List.forall_mem_cons.mp hnew
      have hsame : permissions (Function.update heap x.value (some p)) lp = permissions heap lp :=
        permissions_update hlp (some p)
      have hmap : entries.map
            (fun e => (e.1, permissions (Function.update heap x.value (some p)) e.2)) =
          entries.map fun e => (e.1, permissions heap e.2) := by
        refine List.map_congr_left ?_
        intro e he
        rw [permissions_update (hrest e he)]
      rw [put, List.map_cons, Monitor.store]
      split
      · rw [List.map_cons, hmap]
        have happend : permissions (Function.update heap x.value (some p)) (lp ++ [x]) =
            permissions heap lp ++ [p] := by
          rw [permissions, List.filterMap_append]
          exact congr (congrArg _ hsame) (by simp)
        rw [happend]
      · rw [List.map_cons, hsame, map_put heap action p x hrest]

/-- **Memory follows the map.** -/
theorem view_add (m : ExclusionMap ρ) (action : WString) (p : Permission ρ) {x : Node Nat}
    (hname : ∀ e ∈ m.entries, ∀ y ∈ e.2, y.name ≠ x.name) (hfree : m.heap x.value = none) :
    (m.add action p x hname).view = Monitor.store action p m.view := by
  refine map_put m.heap action p x ?_
  intro e he y hy hvalue
  have halive := m.alive e he y hy
  rw [hvalue, hfree] at halive
  exact absurd halive Bool.false_ne_true

/-! ## Clearing -/

/-- The list that is walked along, and the heap. -/
structure Walk (ρ : Type) where
  lp : List (Node Nat)
  heap : PermissionHeap ρ

/-- The body of the inner loop. -/
def clearOne (p : Nat) (s : Walk ρ) : Option (Walk ρ) := do
  let permission ← s.heap p
  if !permission.permaneant then
    return { lp := remove p s.lp, heap := Function.update s.heap p none }
  else return s

/-- The loop over the map; the lists change, and the map itself does not. -/
def clearEntries (fuel : Nat) : List (WString × List (Node Nat)) → PermissionHeap ρ →
    Result (List (WString × List (Node Nat)) × PermissionHeap ρ)
  | [], heap => .ended ([], heap)
  | (key, lp) :: entries, heap =>
      (loop Walk.lp clearOne fuel (first lp) { lp, heap }).bind fun s =>
        (clearEntries fuel entries s.heap).bind fun r => .ended ((key, s.lp) :: r.1, r.2)

/-- `clearExclusionList`. -/
def clearExclusionList (m : ExclusionMap ρ) (fuel : Nat) :
    Result (List (WString × List (Node Nat)) × PermissionHeap ρ) :=
  clearEntries fuel m.entries m.heap

/-- `p->permaneant`. -/
def permaneant (heap : PermissionHeap ρ) (p : Nat) : Bool := (heap p).any (·.permaneant)

/-- The permissions to be taken out. -/
def Removable (m : ExclusionMap ρ) (p : Nat) : Prop :=
  ∃ e ∈ m.entries, ∃ x ∈ e.2, x.value = p ∧ permaneant m.heap p = false

/-- What is to come of it: every list without the permissions that are not permanent and in the old
order, these permissions deleted, and no other. -/
structure Cleared (m : ExclusionMap ρ)
    (r : List (WString × List (Node Nat)) × PermissionHeap ρ) : Prop where
  lists : r.1 = m.entries.map fun e => (e.1, e.2.filter fun x => permaneant m.heap x.value)
  deleted : ∀ p, m.Removable p → r.2 p = none
  kept : ∀ p, ¬ m.Removable p → r.2 p = m.heap p

theorem clearOne_permaneant {p : Nat} {s : Walk ρ} (h : permaneant s.heap p = true) :
    clearOne p s = some s := by
  unfold permaneant at h
  cases hp : s.heap p with
  | none => simp [hp] at h
  | some permission => simp_all [clearOne]

theorem lp_clearOne {p : Nat} {s s' : Walk ρ} (h : permaneant s.heap p = false)
    (hs : clearOne p s = some s') : s'.lp = remove p s.lp := by
  unfold permaneant at h
  cases hp : s.heap p with
  | none => simp [clearOne, hp] at hs
  | some permission =>
      have hnot : permission.permaneant = false := by simpa [hp] using h
      simp only [clearOne, hp, hnot, Option.bind_eq_bind, Option.bind_some, Bool.not_false, if_true,
        Option.pure_def, Option.some.injEq] at hs
      rw [← hs]

/-- A list in which all is permanent. -/
theorem clearList_permaneant {heap : PermissionHeap ρ} {lp : List (Node Nat)}
    (hdistinct : (lp.map Node.name).Nodup) (hall : ∀ x ∈ lp, permaneant heap x.value = true)
    (fuel : Nat) : loop Walk.lp clearOne fuel (first lp) { lp, heap } =
      if lp.length < fuel then .ended { lp, heap } else .running :=
  have hquiet : ∀ x ∈ lp, clearOne x.value { lp, heap } = some { lp, heap } :=
    fun x hx => clearOne_permaneant (hall x hx)
  loop_quiet (List.nil_append lp).symm hdistinct hquiet fuel

/-- A list in which something is not: up to the first such permission nothing has changed; this one
goes, and its node with it. -/
theorem clearList_not_ended {heap : PermissionHeap ρ} {lp : List (Node Nat)}
    (hdistinct : (lp.map Node.name).Nodup) (hsome : ∃ x ∈ lp, permaneant heap x.value = false)
    (fuel : Nat) (s : Walk ρ) :
    loop Walk.lp clearOne fuel (first lp) { lp, heap } ≠ .ended s := by
  cases hfind : lp.find? fun x => !permaneant heap x.value with
  | none =>
      obtain ⟨x, hx, hnot⟩ := hsome
      exact absurd (List.find?_eq_none.mp hfind x hx) (by simp [hnot])
  | some x =>
      obtain ⟨hx, quiet, rest, rfl, hquiet⟩ := List.find?_eq_some_iff_append.mp hfind
      have hs : Walk.lp { lp := quiet ++ x :: rest, heap } = [] ++ (quiet ++ x :: rest) := rfl
      refine loop_erased hs hdistinct ?_ ?_ fuel s
      · intro y hy
        exact clearOne_permaneant (by simpa using hquiet y hy)
      · intro s' hs'
        rw [lp_clearOne (by simpa using hx) hs']
        exact advance_remove hdistinct (List.mem_append_right _ List.mem_cons_self)

theorem clearEntries_permaneant {heap : PermissionHeap ρ} {fuel : Nat}
    {entries : List (WString × List (Node Nat))}
    (hdistinct : ∀ e ∈ entries, (e.2.map Node.name).Nodup)
    (hfuel : ∀ e ∈ entries, e.2.length < fuel)
    (hall : ∀ e ∈ entries, ∀ x ∈ e.2, permaneant heap x.value = true) :
    clearEntries fuel entries heap = .ended (entries, heap) := by
  induction entries with
  | nil => rfl
  | cons e entries ih =>
      obtain ⟨key, lp⟩ := e
      rw [List.forall_mem_cons] at hdistinct hfuel hall
      rw [clearEntries, clearList_permaneant hdistinct.1 hall.1, if_pos hfuel.1, Result.bind,
        ih hdistinct.2 hfuel.2 hall.2]
      rfl

/-- **It comes to the end only where all is permanent.** -/
theorem permaneant_of_ended {heap : PermissionHeap ρ} {fuel : Nat}
    {entries : List (WString × List (Node Nat))}
    (hdistinct : ∀ e ∈ entries, (e.2.map Node.name).Nodup)
    {r : List (WString × List (Node Nat)) × PermissionHeap ρ}
    (hended : clearEntries fuel entries heap = .ended r) :
    ∀ e ∈ entries, ∀ x ∈ e.2, permaneant heap x.value = true := by
  induction entries generalizing r with
  | nil => exact fun e he => absurd he List.not_mem_nil
  | cons e entries ih =>
      obtain ⟨key, lp⟩ := e
      rw [List.forall_mem_cons] at hdistinct ⊢
      obtain ⟨s, hloop, hrest⟩ := Result.bind_eq_ended.mp hended
      have hlp : ∀ x ∈ lp, permaneant heap x.value = true := by
        intro x hx
        by_contra hnot
        exact clearList_not_ended hdistinct.1 ⟨x, hx, Bool.eq_false_iff.mpr hnot⟩ fuel s hloop
      refine ⟨hlp, ?_⟩
      rw [clearList_permaneant hdistinct.1 hlp] at hloop
      split at hloop
      · -- the heap is still the same for the lists that follow
        cases hloop
        obtain ⟨r', hr', -⟩ := Result.bind_eq_ended.mp hrest
        exact ih hdistinct.2 hr'
      · cases hloop

theorem mem_view (m : ExclusionMap ρ) :
    (∀ e ∈ m.view, ∀ p ∈ e.2, p.permaneant = true) ↔
      ∀ e ∈ m.entries, ∀ x ∈ e.2, permaneant m.heap x.value = true := by
  simp only [view, List.forall_mem_map, permissions, List.mem_filterMap]
  constructor
  · intro h e he x hx
    obtain ⟨p, hp⟩ := Option.isSome_iff_exists.mp (m.alive e he x hx)
    rw [permaneant, hp]
    exact h e he p ⟨x, hx, hp⟩
  · rintro h e he p ⟨x, hx, hp⟩
    have hx := h e he x hx
    rwa [permaneant, hp] at hx

/-- **The exclusions are cleared just when there are none to clear.** -/
theorem cleared_iff (m : ExclusionMap ρ) :
    (∃ fuel r, m.clearExclusionList fuel = .ended r ∧ m.Cleared r) ↔
      ∀ e ∈ m.view, ∀ p ∈ e.2, p.permaneant = true := by
  rw [mem_view]
  constructor
  · rintro ⟨fuel, r, hended, -⟩
    exact permaneant_of_ended m.distinct hended
  intro hall
  have hfuel : ∀ e ∈ m.entries, e.2.length < (m.entries.flatMap Prod.snd).length + 1 := by
    intro e he
    obtain ⟨before, after, hentries⟩ := List.append_of_mem he
    rw [hentries]
    simp only [List.flatMap_append, List.flatMap_cons, List.length_append]
    omega
  refine ⟨_, _, clearEntries_permaneant m.distinct hfuel hall, ?_, ?_, fun _ _ => rfl⟩
  · -- nothing is filtered out
    refine (List.map_congr_left (g := id) ?_).trans (List.map_id _) |>.symm
    intro e he
    rw [List.filter_eq_self.mpr (hall e he)]
    rfl
  · rintro p ⟨e, he, x, hx, rfl, hnot⟩
    rw [hall e he x hx] at hnot
    cases hnot

/-- A monitor with one exclusion from a list. -/
def oneExclusion : ExclusionMap WString :=
  { entries := [], heap := fun _ => none, distinct := by simp, alive := by simp : ExclusionMap WString }.add
    (wideLiteral "write")
    { subjects := [wideLiteral ".*"], objects := [wideLiteral ".*"], allow := true, permaneant := false }
    { name := 1, value := 1 } (by simp)

/-- The iterator is advanced from the node that is gone. -/
theorem one_exclusion_not_cleared :
    ¬ ∃ fuel r, oneExclusion.clearExclusionList fuel = .ended r ∧ oneExclusion.Cleared r := by
  rintro ⟨fuel, r, hended, -⟩
  have hall := permaneant_of_ended oneExclusion.distinct hended
  have hone := hall (wideLiteral "write", [{ name := 1, value := 1 }]) List.mem_cons_self
    { name := 1, value := 1 } List.mem_cons_self
  exact absurd hone (by decide)

end ExclusionMap

end CaptureHpc.Client
