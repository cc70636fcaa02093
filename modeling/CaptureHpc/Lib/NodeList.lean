/-
# `Lib.NodeList` — lists that are walked with an iterator while they change

The nodes of a list have names, and an iterator is the name of a node, or
`none` at the end.  An iterator of a node that was erased is of no use any more:
to read it or to advance it has no defined behaviour.

`loop` is `for(it = l.begin(); it != l.end(); it++)` with any body.  A body that
leaves everything as it is at the nodes it meets comes to the end
(`loop_quiet`), and one that erases the node it is at does not (`loop_erased`).
-/
import Mathlib.Data.List.Nodup
import Mathlib.Data.List.TakeWhile

structure Node (α : Type) where
  name : Nat
  value : α
  deriving DecidableEq

namespace NodeList

variable {α σ : Type}

/-- `begin()`. -/
def first (l : List (Node α)) : Option Nat := l.head?.map Node.name

/-- The nodes from a name on. -/
def suffix (l : List (Node α)) (n : Nat) : List (Node α) := l.dropWhile (·.name ≠ n)

/-- `*it`. -/
def read (l : List (Node α)) (n : Nat) : Option α := (suffix l n).head?.map Node.value

/-- `it++`; the iterator behind the last node is the end. -/
def advance (l : List (Node α)) (n : Nat) : Option (Option Nat) :=
  match suffix l n with
  | [] => none
  | _ :: rest => some (first rest)

/-- `remove(v)`. -/
def remove [DecidableEq α] (v : α) (l : List (Node α)) : List (Node α) :=
  l.filter (·.value ≠ v)

/-- How a loop ends. -/
inductive Result (σ : Type) where
  | ended (s : σ)
  | undefined
  | running

def Result.bind {τ : Type} : Result σ → (σ → Result τ) → Result τ
  | .ended s, f => f s
  | .undefined, _ => .undefined
  | .running, _ => .running

theorem Result.bind_eq_ended {τ : Type} {r : Result σ} {f : σ → Result τ} {t : τ} :
    r.bind f = .ended t ↔ ∃ s, r = .ended s ∧ f s = .ended t := by
  cases r with
  | ended s => simp [Result.bind]
  | undefined => simp [Result.bind]
  | running => simp [Result.bind]

/-- The loop, as far as the fuel goes.  A body is `none` where its behaviour is undefined. -/
def loop (nodes : σ → List (Node α)) (body : α → σ → Option σ) : Nat → Option Nat → σ → Result σ
  | 0, _, _ => .running
  | _ + 1, none, s => .ended s
  | fuel + 1, some n, s =>
      match (read (nodes s) n).bind (body · s) with
      | none => .undefined
      | some s' =>
          match advance (nodes s') n with
          | none => .undefined
          | some it => loop nodes body fuel it s'

/-! ## Iterators -/

section Iterators
variable {front rest : List (Node α)} {x : Node α}

theorem suffix_append (hnodup : ((front ++ x :: rest).map Node.name).Nodup) :
    suffix (front ++ x :: rest) x.name = x :: rest := by
  have hfront : ∀ y ∈ front, (decide (y.name ≠ x.name)) = true := by
    intro y hy
    rw [List.map_append, List.nodup_append] at hnodup
    exact decide_eq_true
      (hnodup.2.2 _ (List.mem_map_of_mem hy) _ (List.mem_map_of_mem List.mem_cons_self))
  rw [suffix, List.dropWhile_append_of_pos hfront, List.dropWhile_cons_of_neg (by simp)]

theorem read_append (hnodup : ((front ++ x :: rest).map Node.name).Nodup) :
    read (front ++ x :: rest) x.name = some x.value := by
  rw [read, suffix_append hnodup]
  rfl

theorem advance_append (hnodup : ((front ++ x :: rest).map Node.name).Nodup) :
    advance (front ++ x :: rest) x.name = some (first rest) := by
  rw [advance, suffix_append hnodup]

/-- A node that is gone. -/
theorem advance_erased {l : List (Node α)} {n : Nat} (h : ∀ y ∈ l, y.name ≠ n) :
    advance l n = none := by
  have hnil : suffix l n = [] := by
    rw [suffix, List.dropWhile_eq_nil_iff]
    intro y hy
    exact decide_eq_true (h y hy)
  rw [advance, hnil]

/-- `remove` erases the node that an iterator is at, if it holds the value. -/
theorem advance_remove [DecidableEq α] {l : List (Node α)} (hnodup : (l.map Node.name).Nodup)
    (hx : x ∈ l) : advance (remove x.value l) x.name = none := by
  refine advance_erased ?_
  intro y hy hname
  rw [remove, List.mem_filter] at hy
  obtain rfl : y = x := List.inj_on_of_nodup_map hnodup hy.1 hx hname
  exact of_decide_eq_true hy.2 rfl

end Iterators

/-! ## The loop -/

section Loop
variable {nodes : σ → List (Node α)} {body : α → σ → Option σ} {s : σ}

/-- **Where nothing changes** it comes to the end, with fuel for every node and one more. -/
theorem loop_quiet {front rest : List (Node α)} (hs : nodes s = front ++ rest)
    (hnodup : ((nodes s).map Node.name).Nodup) (hquiet : ∀ x ∈ rest, body x.value s = some s)
    (fuel : Nat) : loop nodes body fuel (first rest) s =
      if rest.length < fuel then .ended s else .running := by
  induction rest generalizing front fuel with
  | nil =>
      cases fuel with
      | zero => rfl
      | succ fuel => rfl
  | cons x rest ih =>
      cases fuel with
      | zero => rfl
      | succ fuel =>
          have hs' : nodes s = (front ++ [x]) ++ rest := by simpa using hs
          have hnext := ih hs' (fun y hy => hquiet y (List.mem_cons_of_mem _ hy)) fuel
          have hnodup' := hs ▸ hnodup
          show loop nodes body (fuel + 1) (some x.name) s = _
          simp only [loop, hs, read_append hnodup', Option.bind_some,
            hquiet x List.mem_cons_self, advance_append hnodup', hnext, List.length_cons,
            Nat.succ_lt_succ_iff]

/-- **Where the node goes that the iterator is at**, the loop comes to no end. -/
theorem loop_erased {front quiet rest : List (Node α)} {x : Node α}
    (hs : nodes s = front ++ (quiet ++ x :: rest)) (hnodup : ((nodes s).map Node.name).Nodup)
    (hquiet : ∀ y ∈ quiet, body y.value s = some s)
    (herased : ∀ s', body x.value s = some s' → advance (nodes s') x.name = none)
    (fuel : Nat) (t : σ) : loop nodes body fuel (first (quiet ++ x :: rest)) s ≠ .ended t := by
  induction quiet generalizing front fuel with
  | nil =>
      cases fuel with
      | zero => simp [loop]
      | succ fuel =>
          have hread : read (nodes s) x.name = some x.value := by
            rw [hs] at hnodup ⊢
            exact read_append hnodup
          show loop nodes body (fuel + 1) (some x.name) s ≠ .ended t
          rw [loop, hread, Option.bind_some]
          cases hbody : body x.value s with
          | none => simp
          | some s' => simp [herased s' hbody]
  | cons y quiet ih =>
      cases fuel with
      | zero => simp [loop]
      | succ fuel =>
          have hs' : nodes s = (front ++ [y]) ++ (quiet ++ x :: rest) := by simpa using hs
          have hnext := ih hs' (fun z hz => hquiet z (List.mem_cons_of_mem _ hz)) fuel
          have hnodup' := hs ▸ hnodup
          show loop nodes body (fuel + 1) (some y.name) s ≠ .ended t
          rw [List.cons_append] at hs hnodup'
          simpa only [loop, hs, read_append hnodup', Option.bind_some, hquiet y List.mem_cons_self,
            advance_append hnodup'] using hnext

end Loop

end NodeList
