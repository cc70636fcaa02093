/-
# `Java.UrlPath` — the canonical path of a `java.net.URL`

`new URL(spec)` takes the dots out of a path: a segment `.` goes, and a segment
`..` goes with the segment before it.  The class does this by text, in four
loops; here the path is the list of its segments, and the loops are four
functions on it.

Not every dot goes.  `canonical_eq_iff` says which paths are left alone: those
without `.` in which every `..` has nothing to take back.
-/
import Mathlib.Tactic.Tauto
import Mathlib.Data.List.TakeWhile

namespace Java.NetUrl

/-! ## Segments and dots -/

/-- What stands between the slashes. -/
def segments : List Char → List (List Char)
  | [] => [[]]
  | c :: cs =>
      if c = '/' then [] :: segments cs
      else (c :: (segments cs).headD []) :: (segments cs).tail

def joined : List (List Char) → List Char
  | [] => []
  | [s] => s
  | s :: ss => s ++ '/' :: joined ss

/-- Without `/./`. -/
def dropDots : List (List Char) → List (List Char)
  | [] => []
  | [s] => [s]
  | s :: ss => if s = ['.'] then dropDots ss else s :: dropDots ss

/-- Without `/../` and the segment before it.  What stands in front of it is a stack; a `/../` at
the beginning of a path stays, and so does the one behind it. -/
def cancel (rooted : Bool) : List (List Char) → List (List Char) → List (List Char)
  | stack, [] => stack.reverse
  | stack, [s] => (s :: stack).reverse
  | stack, s :: ss =>
      if s = ['.', '.'] ∧ stack ≠ [] ∧ (rooted = true → stack ≠ [['.', '.']]) then
        cancel rooted stack.tail ss
      else cancel rooted (s :: stack) ss

/-- Two dots at the end take the path back to the first segment that begins with two dots. -/
def cutBack (ss : List (List Char)) : List (List Char) :=
  let front := ss.takeWhile fun s => !(['.', '.'].isPrefixOf s)
  if ss.getLast? = some ['.', '.'] ∧ front ≠ [] then front.dropLast ++ [[]] else ss

/-- Without `/.` at the end. -/
def dropLastDot (ss : List (List Char)) : List (List Char) :=
  if ss.getLast? = some ['.'] then ss.dropLast ++ [[]] else ss

/-- The segments of a canonical path. -/
def canonicalSegments : List (List Char) → List (List Char)
  | [] => []
  | first :: ss =>
      let ss := cutBack (cancel first.isEmpty [] (dropDots ss))
      if first = ['.'] ∧ ss ≠ [] ∧ ss ≠ [[]] then
        match ss with
        | [] => []
        | second :: ss => second :: dropLastDot ss
      else first :: dropLastDot ss

def canonical (path : List Char) : List Char := joined (canonicalSegments (segments path))

/-! ## Segments -/

theorem segments_slash (cs : List Char) : segments ('/' :: cs) = [] :: segments cs := rfl

theorem segments_cons {c : Char} (h : c ≠ '/') (cs : List Char) :
    segments (c :: cs) = (c :: (segments cs).headD []) :: (segments cs).tail := if_neg h

theorem segments_ne_nil (cs : List Char) : segments cs ≠ [] := by
  cases cs with
  | nil => exact List.cons_ne_nil _ _
  | cons c cs =>
      by_cases h : c = '/'
      · rw [h, segments_slash]
        exact List.cons_ne_nil _ _
      · rw [segments_cons h]
        exact List.cons_ne_nil _ _

theorem joined_cons {s : List Char} {ss : List (List Char)} (h : ss ≠ []) :
    joined (s :: ss) = s ++ '/' :: joined ss := by
  cases ss with
  | nil => exact absurd rfl h
  | cons t ts => rfl

theorem joined_segments : ∀ cs : List Char, joined (segments cs) = cs
  | [] => rfl
  | c :: cs => by
      have ih := joined_segments cs
      by_cases h : c = '/'
      · rw [h, segments_slash, joined_cons (segments_ne_nil cs), ih]
        rfl
      · rw [segments_cons h]
        cases hs : segments cs with
        | nil => exact absurd hs (segments_ne_nil cs)
        | cons s ss =>
            rw [hs] at ih
            cases ss with
            | nil => rw [← ih]; rfl
            | cons t ts => rw [← ih]; rfl

/-- Characters in front of the first slash. -/
theorem segments_before {s : List Char} (h : '/' ∉ s) (cs : List Char) :
    segments (s ++ cs) = (s ++ (segments cs).headD []) :: (segments cs).tail := by
  induction s with
  | nil =>
      cases hs : segments cs with
      | nil => exact absurd hs (segments_ne_nil cs)
      | cons t ts => exact hs
  | cons c s ih =>
      have hc : c ≠ '/' := fun hc => h (hc ▸ List.mem_cons_self)
      rw [List.cons_append, segments_cons hc, ih fun hs => h (List.mem_cons_of_mem c hs)]
      rfl

/-- A segment in front. -/
theorem segments_append {s : List Char} (h : '/' ∉ s) (cs : List Char) :
    segments (s ++ '/' :: cs) = s :: segments cs := by
  rw [segments_before h, segments_slash, List.headD_cons, List.append_nil, List.tail_cons]

theorem segments_free {s : List Char} (h : '/' ∉ s) : segments s = [s] := by
  have hself := segments_before h []
  rwa [List.append_nil, segments, List.headD_cons, List.append_nil, List.tail_cons] at hself

theorem segments_joined : ∀ {ss : List (List Char)}, ss ≠ [] → (∀ s ∈ ss, '/' ∉ s) →
    segments (joined ss) = ss
  | [], hne, _ => absurd rfl hne
  | [s], _, h => segments_free (h s List.mem_cons_self)
  | s :: t :: ts, _, h => by
      rw [joined_cons (List.cons_ne_nil t ts), segments_append (h s List.mem_cons_self),
        segments_joined (List.cons_ne_nil t ts) fun r hr => h r (List.mem_cons_of_mem s hr)]

theorem slash_not_mem_segments : ∀ (cs : List Char), ∀ s ∈ segments cs, '/' ∉ s
  | [], s, hs => by
      obtain rfl := List.mem_singleton.mp hs
      exact List.not_mem_nil
  | c :: cs, s, hs => by
      have ih := slash_not_mem_segments cs
      by_cases h : c = '/'
      · rw [h, segments_slash] at hs
        rcases List.mem_cons.mp hs with rfl | hs
        · exact List.not_mem_nil
        · exact ih s hs
      · rw [segments_cons h] at hs
        rcases List.mem_cons.mp hs with rfl | hs
        · intro hmem
          rcases List.mem_cons.mp hmem with hc | hmem
          · exact h hc.symm
          · cases hss : segments cs with
            | nil => exact absurd hss (segments_ne_nil cs)
            | cons t ts =>
                rw [hss] at hmem ih
                exact ih t List.mem_cons_self hmem
        · exact ih s (List.mem_of_mem_tail hs)

/-! ## The canonical path -/

/-- One dot, or two. -/
def isDots (s : List Char) : Bool := s == ['.'] || s == ['.', '.']

/-- How many segments are one dot or two. -/
def dots (ss : List (List Char)) : Nat := ss.countP isDots

theorem dots_append (ss ts : List (List Char)) : dots (ss ++ ts) = dots ss + dots ts :=
  List.countP_append

theorem dots_cons (s : List Char) (ss : List (List Char)) : dots (s :: ss) = dots [s] + dots ss :=
  dots_append [s] ss

/-- The list stays, or loses segments that are dots; what is new is empty. -/
structure Reduces (ss r : List (List Char)) : Prop where
  dots : r = ss ∨ dots r < dots ss
  mem : ∀ s ∈ r, s ∈ ss ∨ s = []
  nonempty : ss ≠ [] → r ≠ []

section Reduces
variable {ss r ts : List (List Char)} {s : List Char}

theorem Reduces.refl (ss : List (List Char)) : Reduces ss ss := ⟨.inl rfl, fun _ => .inl, id⟩

theorem Reduces.dots_le (h : Reduces ss r) : NetUrl.dots r ≤ NetUrl.dots ss := by
  rcases h.dots with rfl | hlt
  · exact Nat.le_refl _
  · exact Nat.le_of_lt hlt

theorem Reduces.trans (h : Reduces ss r) (h' : Reduces r ts) : Reduces ss ts := by
  refine ⟨?_, fun s hs => ?_, fun hne => h'.nonempty (h.nonempty hne)⟩
  · rcases h.dots with rfl | hlt
    · exact h'.dots
    · exact .inr (Nat.lt_of_le_of_lt h'.dots_le hlt)
  · rcases h'.mem s hs with hs | hs
    · exact h.mem s hs
    · exact .inr hs

theorem Reduces.cons (s : List Char) (h : Reduces ss r) : Reduces (s :: ss) (s :: r) := by
  refine ⟨?_, fun t ht => ?_, fun _ => List.cons_ne_nil s r⟩
  · rcases h.dots with rfl | hlt
    · exact .inl rfl
    · refine .inr ?_
      rw [dots_cons, dots_cons s ss]
      exact Nat.add_lt_add_left hlt _
  · rcases List.mem_cons.mp ht with rfl | ht
    · exact .inl List.mem_cons_self
    · exact (h.mem t ht).imp_left (List.mem_cons_of_mem s)

theorem reduces_dropDots : ∀ ss : List (List Char), Reduces ss (dropDots ss)
  | [] => .refl []
  | [s] => .refl [s]
  | s :: t :: ts => by
      have ih := reduces_dropDots (t :: ts)
      by_cases hs : s = ['.']
      · have hdrop : dropDots (s :: t :: ts) = dropDots (t :: ts) := if_pos hs
        rw [hdrop]
        refine ⟨.inr ?_, fun r hr => ?_, fun _ => ih.nonempty (List.cons_ne_nil t ts)⟩
        · have hone : dots [s] = 1 := by rw [hs]; rfl
          rw [dots_cons s, hone]
          have hle := ih.dots_le
          omega
        · exact (ih.mem r hr).imp_left (List.mem_cons_of_mem s)
      · have hkeep : dropDots (s :: t :: ts) = s :: dropDots (t :: ts) := if_neg hs
        rw [hkeep]
        exact ih.cons s

theorem reduces_cancel (rooted : Bool) : ∀ (ss stack : List (List Char)),
    Reduces (stack.reverse ++ ss) (cancel rooted stack ss)
  | [], stack => by
      rw [List.append_nil]
      exact .refl _
  | [s], stack => by
      have hlast : cancel rooted stack [s] = stack.reverse ++ [s] := List.reverse_cons
      rw [hlast]
      exact .refl _
  | s :: t :: ts, stack => by
      by_cases h : s = ['.', '.'] ∧ stack ≠ [] ∧ (rooted = true → stack ≠ [['.', '.']])
      · have hpop : cancel rooted stack (s :: t :: ts) = cancel rooted stack.tail (t :: ts) :=
          if_pos h
        rw [hpop]
        obtain ⟨hs, hne, -⟩ := h
        obtain ⟨top, rest, rfl⟩ := List.exists_cons_of_ne_nil hne
        refine Reduces.trans ?_ (reduces_cancel rooted (t :: ts) rest)
        have hone : dots [s] = 1 := by rw [hs]; rfl
        refine ⟨.inr ?_, fun r hr => .inl ?_, fun _ => List.append_ne_nil_of_right_ne_nil _ ?_⟩
        · rw [List.reverse_cons, dots_append, dots_append, dots_append, dots_cons s, hone]
          omega
        · rw [List.reverse_cons]
          simp only [List.mem_append, List.mem_cons] at hr ⊢
          tauto
        · exact List.cons_ne_nil t ts
      · have hpush : cancel rooted stack (s :: t :: ts) = cancel rooted (s :: stack) (t :: ts) :=
          if_neg h
        have ih := reduces_cancel rooted (t :: ts) (s :: stack)
        rw [List.reverse_cons, List.append_assoc] at ih
        rw [hpush]
        exact ih

theorem reduces_cutBack (ss : List (List Char)) : Reduces ss (cutBack ss) := by
  by_cases h : ss.getLast? = some ['.', '.'] ∧
      (ss.takeWhile fun s => !(['.', '.'].isPrefixOf s)) ≠ []
  · have hcut : cutBack ss =
        (ss.takeWhile fun s => !(['.', '.'].isPrefixOf s)).dropLast ++ [[]] := if_pos h
    rw [hcut]
    have hsplit := List.takeWhile_append_dropWhile
      (p := fun s : List Char => !(['.', '.'].isPrefixOf s)) (l := ss)
    refine ⟨.inr ?_, fun s hs => ?_, fun _ => ?_⟩
    · have hlast : ['.', '.'] ∈ ss.dropWhile fun s => !(['.', '.'].isPrefixOf s) := by
        have hmem := List.mem_of_getLast? h.1
        rw [← hsplit] at hmem
        rcases List.mem_append.mp hmem with hfront | hrest
        · exact absurd (List.mem_takeWhile_imp hfront) (by decide)
        · exact hrest
      have hrest : 0 < dots (ss.dropWhile fun s => !(['.', '.'].isPrefixOf s)) :=
        List.countP_pos_iff.mpr ⟨_, hlast, by decide⟩
      have hsum := congrArg dots hsplit
      rw [dots_append] at hsum
      have hfront : dots (ss.takeWhile fun s => !(['.', '.'].isPrefixOf s)).dropLast ≤
          dots (ss.takeWhile fun s => !(['.', '.'].isPrefixOf s)) :=
        (List.dropLast_sublist _).countP_le
      have hnil : dots [[]] = 0 := rfl
      rw [dots_append, hnil]
      omega
    · rcases List.mem_append.mp hs with hs | hs
      · exact .inl ((List.takeWhile_sublist _).mem (List.dropLast_subset _ hs))
      · exact .inr (List.mem_singleton.mp hs)
    · exact List.append_ne_nil_of_right_ne_nil _ (List.cons_ne_nil _ _)
  · have hkeep : cutBack ss = ss := if_neg h
    rw [hkeep]
    exact .refl ss

theorem reduces_dropLastDot (ss : List (List Char)) : Reduces ss (dropLastDot ss) := by
  by_cases h : ss.getLast? = some ['.']
  · have hdrop : dropLastDot ss = ss.dropLast ++ [[]] := if_pos h
    obtain ⟨front, rfl⟩ := List.getLast?_eq_some_iff.mp h
    rw [hdrop, List.dropLast_concat]
    refine ⟨.inr ?_, fun s hs => ?_, fun _ => ?_⟩
    · rw [dots_append, dots_append]
      exact Nat.lt_succ_self _
    · rcases List.mem_append.mp hs with hs | hs
      · exact .inl (List.mem_append_left _ hs)
      · exact .inr (List.mem_singleton.mp hs)
    · exact List.append_ne_nil_of_right_ne_nil _ (List.cons_ne_nil _ _)
  · have hkeep : dropLastDot ss = ss := if_neg h
    rw [hkeep]
    exact .refl ss

theorem reduces_canonical (ss : List (List Char)) : Reduces ss (canonicalSegments ss) := by
  cases ss with
  | nil => exact .refl []
  | cons first ss =>
      have hinner : Reduces ss (cutBack (cancel first.isEmpty [] (dropDots ss))) :=
        (reduces_dropDots ss).trans ((reduces_cancel first.isEmpty (dropDots ss) []).trans
          (reduces_cutBack _))
      have hfirst : Reduces (first :: ss)
          (first :: cutBack (cancel first.isEmpty [] (dropDots ss))) := hinner.cons first
      rw [canonicalSegments]
      generalize cutBack (cancel first.isEmpty [] (dropDots ss)) = ts at hinner hfirst
      split
      · next h =>
          obtain ⟨second, us, rfl⟩ := List.exists_cons_of_ne_nil h.2.1
          refine hfirst.trans (Reduces.trans ?_ ((reduces_dropLastDot us).cons second))
          have hone : dots [first] = 1 := by rw [h.1]; rfl
          refine ⟨.inr ?_, fun s hs => .inl (List.mem_cons_of_mem first hs), fun _ => ?_⟩
          · rw [dots_cons first, hone]
            omega
          · exact List.cons_ne_nil second us
      · exact (hinner.trans (reduces_dropLastDot ts)).cons first

end Reduces

/-- A canonical path has the canonical segments. -/
theorem segments_canonical (path : List Char) :
    segments (canonical path) = canonicalSegments (segments path) := by
  have hreduces := reduces_canonical (segments path)
  refine segments_joined (hreduces.nonempty (segments_ne_nil path)) fun s hs => ?_
  rcases hreduces.mem s hs with hs | rfl
  · exact slash_not_mem_segments path s hs
  · exact List.not_mem_nil

/-- A path that keeps its dots is canonical. -/
theorem canonical_eq {path : List Char}
    (h : dots (segments path) ≤ dots (segments (canonical path))) : canonical path = path := by
  rw [segments_canonical] at h
  rcases (reduces_canonical (segments path)).dots with heq | hlt
  · rw [canonical, heq, joined_segments]
  · exact absurd h (Nat.not_le_of_lt hlt)

theorem mem_joined : ∀ {ss : List (List Char)} {c : Char}, c ∈ joined ss →
    c = '/' ∨ ∃ s ∈ ss, c ∈ s
  | [], _, h => absurd h List.not_mem_nil
  | [s], _, h => .inr ⟨s, List.mem_cons_self, h⟩
  | s :: t :: ts, c, h => by
      rw [joined_cons (List.cons_ne_nil t ts)] at h
      rcases List.mem_append.mp h with h | h
      · exact .inr ⟨s, List.mem_cons_self, h⟩
      · rcases List.mem_cons.mp h with h | h
        · exact .inl h
        · exact (mem_joined h).imp_right fun ⟨r, hr, hc⟩ => ⟨r, List.mem_cons_of_mem s hr, hc⟩

theorem mem_of_mem_segments : ∀ {cs s : List Char} {c : Char}, s ∈ segments cs → c ∈ s → c ∈ cs
  | [], s, c, hs, hc => by
      obtain rfl := List.mem_singleton.mp hs
      exact hc
  | d :: cs, s, c, hs, hc => by
      by_cases h : d = '/'
      · rw [h, segments_slash] at hs
        rcases List.mem_cons.mp hs with rfl | hs
        · exact absurd hc List.not_mem_nil
        · exact List.mem_cons_of_mem d (mem_of_mem_segments hs hc)
      · rw [segments_cons h] at hs
        rcases List.mem_cons.mp hs with rfl | hs
        · rcases List.mem_cons.mp hc with rfl | hc
          · exact List.mem_cons_self
          · cases hss : segments cs with
            | nil => exact absurd hss (segments_ne_nil cs)
            | cons t ts =>
                rw [hss] at hc
                refine List.mem_cons_of_mem d (mem_of_mem_segments (s := t) ?_ hc)
                rw [hss]
                exact List.mem_cons_self
        · exact List.mem_cons_of_mem d (mem_of_mem_segments (List.mem_of_mem_tail hs) hc)

/-- A canonical path has no other characters than the path, and slashes. -/
theorem mem_canonical {path : List Char} {c : Char} (h : c ∈ canonical path) :
    c = '/' ∨ c ∈ path := by
  rcases mem_joined h with hc | ⟨s, hs, hc⟩
  · exact .inl hc
  · rcases (reduces_canonical (segments path)).mem s hs with hs | rfl
    · exact .inr (mem_of_mem_segments hs hc)
    · exact absurd hc List.not_mem_nil

/-- The path is empty, or begins with a slash. -/
def Rooted (path : List Char) : Prop := path = [] ∨ path.head? = some '/'

theorem rooted_canonical {path : List Char} (h : Rooted path) : Rooted (canonical path) := by
  rcases h with rfl | h
  · exact .inl rfl
  · obtain ⟨cs, rfl⟩ := List.head?_eq_some_iff.mp h
    refine .inr ?_
    have hinner : Reduces (segments cs)
        (dropLastDot (cutBack (cancel true [] (dropDots (segments cs))))) :=
      (reduces_dropDots _).trans ((reduces_cancel true _ []).trans
        ((reduces_cutBack _).trans (reduces_dropLastDot _)))
    have hsegments : canonicalSegments ([] :: segments cs) =
        [] :: dropLastDot (cutBack (cancel true [] (dropDots (segments cs)))) := by
      rw [canonicalSegments]
      exact if_neg fun h => List.cons_ne_nil _ _ h.1.symm
    rw [canonical, segments_slash, hsegments, joined_cons (hinner.nonempty (segments_ne_nil cs))]
    rfl

/-! ## Which paths are canonical -/

/-- The dots of the path stay: there is no `.`, and no `..` that would take something back. -/
structure Settled (ss : List (List Char)) : Prop where
  dot : ['.'] ∉ ss
  middle : ∀ i, i + 1 < ss.length → ss[i]? = some ['.', '.'] →
    i = 0 ∨ (i = 1 ∧ ss[0]? = some ['.', '.'])
  last : ss.getLast? = some ['.', '.'] → ∃ s, ss.head? = some s ∧ ['.', '.'].isPrefixOf s = true

section Settled
variable {ss : List (List Char)}

theorem dots_dot : dots [['.']] = 1 := rfl

theorem dots_back : dots [['.', '.']] = 1 := rfl

theorem dropDots_eq_iff : ∀ {ss : List (List Char)}, dropDots ss = ss ↔ ['.'] ∉ ss.dropLast
  | [] => ⟨fun _ => List.not_mem_nil, fun _ => rfl⟩
  | [s] => ⟨fun _ => List.not_mem_nil, fun _ => rfl⟩
  | s :: t :: ts => by
      have ih : dropDots (t :: ts) = t :: ts ↔ ['.'] ∉ (t :: ts).dropLast := dropDots_eq_iff
      have hlast : (s :: t :: ts).dropLast = s :: (t :: ts).dropLast := rfl
      rw [hlast, List.mem_cons, not_or, ← ih]
      by_cases hs : s = ['.']
      · have hdrop : dropDots (s :: t :: ts) = dropDots (t :: ts) := if_pos hs
        have hle := (reduces_dropDots (t :: ts)).dots_le
        refine ⟨fun h => ?_, fun h => absurd hs.symm h.1⟩
        rw [hdrop] at h
        rw [h, hs, dots_cons, dots_dot] at hle
        omega
      · have hkeep : dropDots (s :: t :: ts) = s :: dropDots (t :: ts) := if_neg hs
        rw [hkeep, List.cons_inj_right]
        exact ⟨fun h => ⟨Ne.symm hs, h⟩, fun h => h.2⟩

theorem dropLastDot_eq_iff : dropLastDot ss = ss ↔ ss.getLast? ≠ some ['.'] := by
  by_cases h : ss.getLast? = some ['.']
  · have hdrop : dropLastDot ss = ss.dropLast ++ [[]] := if_pos h
    obtain ⟨front, rfl⟩ := List.getLast?_eq_some_iff.mp h
    rw [hdrop, List.dropLast_concat]
    refine ⟨fun heq => ?_, fun hne => absurd h hne⟩
    exact absurd (List.append_cancel_left heq) (by decide)
  · exact ⟨fun _ => h, fun _ => if_neg h⟩

theorem cutBack_eq_iff : cutBack ss = ss ↔ (ss.getLast? = some ['.', '.'] →
    ∃ s, ss.head? = some s ∧ ['.', '.'].isPrefixOf s = true) := by
  have hfront : (ss.takeWhile fun s => !(['.', '.'].isPrefixOf s)) ≠ [] ↔
      ∃ s, ss.head? = some s ∧ ['.', '.'].isPrefixOf s = false := by
    cases ss with
    | nil => simp
    | cons s ss => cases h : ['.', '.'].isPrefixOf s <;> simp [h]
  by_cases h : ss.getLast? = some ['.', '.'] ∧
      (ss.takeWhile fun s => !(['.', '.'].isPrefixOf s)) ≠ []
  · have hcut : cutBack ss =
        (ss.takeWhile fun s => !(['.', '.'].isPrefixOf s)).dropLast ++ [[]] := if_pos h
    rw [hcut]
    refine ⟨fun heq => ?_, fun hback => ?_⟩
    · have hlast := h.1
      rw [← heq, List.getLast?_concat] at hlast
      cases hlast
    · obtain ⟨s, hs, hbacks⟩ := hback h.1
      obtain ⟨t, ht, hnot⟩ := hfront.mp h.2
      obtain rfl := Option.some.inj (hs.symm.trans ht)
      rw [hbacks] at hnot
      cases hnot
  · have hkeep : cutBack ss = ss := if_neg h
    refine ⟨fun _ hlast => ?_, fun _ => hkeep⟩
    have hnone := not_and.mp h hlast
    rw [hfront] at hnone
    obtain ⟨s, ss, rfl⟩ := List.exists_cons_of_ne_nil (l := ss) (by rintro rfl; cases hlast)
    refine ⟨s, rfl, ?_⟩
    cases hbacks : ['.', '.'].isPrefixOf s with
    | false => exact absurd ⟨s, rfl, hbacks⟩ hnone
    | true => rfl

/-- `cancel` leaves a list alone if every `..` in it stands on nothing, or on another one. -/
theorem cancel_eq_iff : ∀ {ss stack : List (List Char)},
    cancel true stack ss = stack.reverse ++ ss ↔
      ∀ i, i + 1 < ss.length → ss[i]? = some ['.', '.'] →
        (ss.take i).reverse ++ stack = [] ∨ (ss.take i).reverse ++ stack = [['.', '.']]
  | [], stack => by
      refine ⟨fun _ i hi => absurd hi (Nat.not_lt_zero _), fun _ => ?_⟩
      rw [cancel, List.append_nil]
  | [s], stack => by
      refine ⟨fun _ i hi => ?_, fun _ => ?_⟩
      · exact absurd (Nat.lt_of_succ_lt_succ hi) (Nat.not_lt_zero i)
      · exact List.reverse_cons
  | s :: t :: ts, stack => by
      by_cases h : s = ['.', '.'] ∧ stack ≠ [] ∧ (true = true → stack ≠ [['.', '.']])
      · have hpop : cancel true stack (s :: t :: ts) = cancel true stack.tail (t :: ts) := if_pos h
        obtain ⟨hs, hne, hnot⟩ := h
        rw [hpop]
        refine ⟨fun heq => ?_, fun hall => ?_⟩
        · obtain ⟨top, rest, rfl⟩ := List.exists_cons_of_ne_nil hne
          have hle := (reduces_cancel true (t :: ts) rest).dots_le
          rw [List.tail_cons] at heq
          rw [heq, List.reverse_cons, dots_append, dots_append, dots_append, dots_cons s, hs,
            dots_back] at hle
          omega
        · have hfirst := hall 0 (by simp) (congrArg some hs)
          rcases hfirst with hnil | hback
          · exact absurd hnil hne
          · exact absurd hback (hnot rfl)
      · have hpush : cancel true stack (s :: t :: ts) = cancel true (s :: stack) (t :: ts) :=
          if_neg h
        have ih := @cancel_eq_iff (t :: ts) (s :: stack)
        rw [List.reverse_cons, List.append_assoc] at ih
        rw [hpush]
        refine ih.trans ⟨fun hall i hi hback => ?_, fun hall i hi hback => ?_⟩
        · cases i with
          | zero =>
              by_contra hstack
              rw [List.take_zero, List.reverse_nil, List.nil_append, not_or] at hstack
              exact h ⟨Option.some.inj hback, hstack.1, fun _ => hstack.2⟩
          | succ i =>
              rw [List.take_succ_cons, List.reverse_cons, List.append_assoc]
              exact hall i (Nat.lt_of_succ_lt_succ hi) hback
        · have hnext := hall (i + 1) (Nat.succ_lt_succ hi) hback
          rwa [List.take_succ_cons, List.reverse_cons, List.append_assoc] at hnext

theorem cancel_nil_iff : cancel true [] ss = ss ↔
    ∀ i, i + 1 < ss.length → ss[i]? = some ['.', '.'] →
      i = 0 ∨ (i = 1 ∧ ss[0]? = some ['.', '.']) := by
  refine cancel_eq_iff.trans (forall_congr' fun i => imp_congr_right fun hi => ?_)
  refine imp_congr_right fun _ => ?_
  rw [List.append_nil, List.reverse_eq_nil_iff, List.reverse_eq_cons_iff, List.reverse_nil,
    List.nil_append]
  have hlength : (ss.take i).length = i := List.length_take_of_le (by omega)
  match i, hi, hlength with
  | 0, _, _ => simp
  | 1, hi, _ =>
      have hpos : 0 < ss.length := Nat.lt_of_succ_lt (Nat.lt_of_succ_lt hi)
      obtain ⟨s, ts, rfl⟩ := List.exists_cons_of_ne_nil (List.ne_nil_of_length_pos hpos)
      simp
  | i + 2, _, hlength =>
      constructor
      · rintro (h | h)
        · rw [h] at hlength
          cases hlength
        · rw [h] at hlength
          cases hlength
      · rintro (h | h)
        · cases h
        · cases h.1

/-- What a path has to be to be canonical. -/
theorem canonicalSegments_eq_iff : canonicalSegments ([] :: ss) = [] :: ss ↔ Settled ss := by
  have hsegments : canonicalSegments ([] :: ss) =
      [] :: dropLastDot (cutBack (cancel true [] (dropDots ss))) := by
    rw [canonicalSegments]
    exact if_neg fun h => List.cons_ne_nil _ _ h.1.symm
  rw [hsegments, List.cons_inj_right]
  have h₁ := reduces_dropDots ss
  have h₂ := reduces_cancel true (dropDots ss) []
  rw [List.reverse_nil, List.nil_append] at h₂
  have h₃ := reduces_cutBack (cancel true [] (dropDots ss))
  have h₄ := reduces_dropLastDot (cutBack (cancel true [] (dropDots ss)))
  -- no step may take dots away, so every step leaves the list alone
  have hsteps : dropLastDot (cutBack (cancel true [] (dropDots ss))) = ss ↔
      dropDots ss = ss ∧ cancel true [] ss = ss ∧ cutBack ss = ss ∧ dropLastDot ss = ss := by
    refine ⟨fun h => ?_, fun ⟨hdrop, hcancel, hcut, hlast⟩ => by rw [hdrop, hcancel, hcut, hlast]⟩
    have hdots := h₄.dots_le
    rw [h] at hdots
    have hdrop : dropDots ss = ss := h₁.dots.resolve_right fun hlt =>
      absurd (h₂.dots_le.trans_lt hlt) (Nat.not_lt_of_le (hdots.trans h₃.dots_le))
    rw [hdrop] at h h₂ h₃ hdots
    have hcancel : cancel true [] ss = ss := h₂.dots.resolve_right fun hlt =>
      absurd hlt (Nat.not_lt_of_le (hdots.trans h₃.dots_le))
    rw [hcancel] at h h₃ hdots
    have hcut : cutBack ss = ss := h₃.dots.resolve_right (Nat.not_lt_of_le hdots)
    rw [hcut] at h
    exact ⟨hdrop, hcancel, hcut, h⟩
  have hmem : ['.'] ∉ ss ↔ ['.'] ∉ ss.dropLast ∧ ss.getLast? ≠ some ['.'] := by
    rcases List.eq_nil_or_concat ss with rfl | ⟨front, s, rfl⟩
    · simp
    · rw [List.concat_eq_append, List.dropLast_concat, List.getLast?_concat, List.mem_append,
        List.mem_singleton, not_or, Option.some_inj.ne, ne_comm]
  rw [hsteps, dropDots_eq_iff, cancel_nil_iff, cutBack_eq_iff, dropLastDot_eq_iff]
  refine ⟨fun ⟨hdot, hmiddle, hlast, hend⟩ => ⟨hmem.mpr ⟨hdot, hend⟩, hmiddle, hlast⟩, fun h => ?_⟩
  obtain ⟨hdot, hend⟩ := hmem.mp h.dot
  exact ⟨hdot, h.middle, h.last, hend⟩

end Settled

/-- A path that begins with a slash is canonical if its dots stay. -/
theorem canonical_eq_iff (cs : List Char) :
    canonical ('/' :: cs) = '/' :: cs ↔ Settled (segments cs) := by
  rw [← canonicalSegments_eq_iff, ← segments_slash, ← segments_canonical]
  refine ⟨congrArg segments, fun h => ?_⟩
  have hjoined := congrArg joined h
  rwa [joined_segments, joined_segments] at hjoined

end Java.NetUrl
