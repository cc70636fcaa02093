/-
# `Server.UrlQueue` — the queue of `UrlsController` by itself

An event adds a URL to the queue or removes it, and a group takes one out.  A
URL is added unless the queue has one that would be visited in the same way, so
there never are two of them (`NoTwo`).

A remove event makes a new URL from its line and asks the queue for that.  The
queue asks the objects whether they are equal, and `Url` does not say when two
are: the new one is none of those in the queue, and nothing is removed
(`removeUrlEvent_urlQueue`).

The queue hands out the URL whose priority comes first.  Priorities are compared
as whole hundredths, cut to an `int` and subtracted.  That is the order of the
hundredths as long as those in the queue lie less than `2 ^ 31` apart and none
of them is changed by the cut (`priority_iff`).
-/
import CaptureHpc.Lib.Comparator
import CaptureHpc.Lib.Machine
import CaptureHpc.Server.InputLine

namespace CaptureHpc.Server

open Java

/-- A URL as an object. -/
structure QueuedUrl where
  ref : Nat
  url : ScoredUrl
deriving DecidableEq

/-- An event `url`: its id and its line. -/
inductive UrlEvent where
  | add (id line : String)
  | remove (id line : String)

structure UrlsQueue where
  /-- Objects from here on are not made yet. -/
  created : Nat := 0
  urlQueue : List QueuedUrl := []
  /-- The lines with INVALID_URL. -/
  errorLog : List String := []
deriving DecidableEq

/-- The comparison in `inUrlQueue`. -/
def sameVisit (x y : ScoredUrl) : Bool :=
  equalsIgnoreCase (Url.getEscapedUrl x.toUrl) (Url.getEscapedUrl y.toUrl) &&
    x.clientProgram == y.clientProgram && x.visitTime == y.visitTime

namespace UrlsQueue

def inUrlQueue (s : UrlsQueue) (url : ScoredUrl) : Bool :=
  s.urlQueue.any fun v => sameVisit url v.url

/-- `new Url`. -/
def newUrl (s : UrlsQueue) (url : ScoredUrl) : QueuedUrl × UrlsQueue :=
  (⟨s.created, url⟩, { s with created := s.created + 1 })

def addUrl (s : UrlsQueue) (u : QueuedUrl) : UrlsQueue :=
  if s.inUrlQueue u.url then s else { s with urlQueue := s.urlQueue ++ [u] }

/-- `urlQueue.contains`, which asks `equals`. -/
def contains (s : UrlsQueue) (u : QueuedUrl) : Bool := s.urlQueue.any fun v => v.ref == u.ref

/-- `urlQueue.remove`. -/
def remove (s : UrlsQueue) (u : QueuedUrl) : UrlsQueue :=
  { s with urlQueue := s.urlQueue.eraseP fun v => v.ref == u.ref }

/-- `addUrlEvent`; only the `URISyntaxException` is caught. -/
def addUrlEvent (cfg : UrlConfig) (s : UrlsQueue) (id line : String) :
    Except UrlException UrlsQueue :=
  match UrlFactory.getScoredUrl cfg id (toLowerCase line) with
  | .ok url =>
      let (u, s') := s.newUrl url
      .ok (s'.addUrl u)
  | .error .uriSyntax => .ok { s with errorLog := s.errorLog ++ [line] }
  | .error .nullPointer => .error .nullPointer

def removeUrlEvent (cfg : UrlConfig) (s : UrlsQueue) (id line : String) :
    Except UrlException UrlsQueue :=
  match UrlFactory.getScoredUrl cfg id (toLowerCase line) with
  | .ok url =>
      let (u, s') := s.newUrl url
      .ok (if s'.contains u then s'.remove u else s')
  | .error .uriSyntax => .ok s
  | .error .nullPointer => .error .nullPointer

/-- `update`. -/
def update (cfg : UrlConfig) (s : UrlsQueue) : UrlEvent → Except UrlException UrlsQueue
  | .add id line => s.addUrlEvent cfg id line
  | .remove id line => s.removeUrlEvent cfg id line

theorem sameVisit_refl (x : ScoredUrl) : sameVisit x x = true := by
  rw [sameVisit, equalsIgnoreCase, beq_self_eq_true, beq_self_eq_true, beq_self_eq_true]
  rfl

/-! ## Events and takes in any order -/

inductive Step where
  | event (e : UrlEvent)
  /-- `takeUrl` hands this one out. -/
  | takeUrl (u : QueuedUrl)

/-- The machine.  An exception goes to the thread that has the event, and nothing was changed. -/
def machine (cfg : UrlConfig) : Machine UrlsQueue Step where
  init s := s = {}
  next s
    | .event e =>
        match s.update cfg e with
        | .ok s' => some s'
        | .error _ => some s
    | .takeUrl u =>
        if u ∈ s.urlQueue then some { s with urlQueue := s.urlQueue.erase u } else none

/-- The machine with the lines that were added. -/
abbrev recorded (cfg : UrlConfig) : Machine (UrlsQueue × List String) Step :=
  (machine cfg).recording [] fun lines _ a _ =>
    match a with
    | .event (.add _ line) => line :: lines
    | _ => lines

/-- No two URLs in the queue would be visited in the same way. -/
def NoTwo (s : UrlsQueue) : Prop := s.urlQueue.Pairwise fun v w => sameVisit v.url w.url = false

/-- The URL is one that the line of an event stands for. -/
def ofLine (cfg : UrlConfig) (id line : String) (v : QueuedUrl) : Bool :=
  match UrlFactory.getScoredUrl cfg id (toLowerCase line) with
  | .ok url => sameVisit url v.url
  | .error _ => false

/-- A remove event for a line that was added takes the URLs of the line out, and no other. -/
def Undone (cfg : UrlConfig) (x : UrlsQueue × List String) (a : Step) : Prop :=
  ∀ id line, a = .event (.remove id line) → line ∈ x.2 → ∀ s', (machine cfg).next x.1 a = some s' →
    s'.urlQueue = x.1.urlQueue.filter fun v => !ofLine cfg id line v

/-- There is nothing to take out. -/
def NothingToUndo (cfg : UrlConfig) (x : UrlsQueue × List String) (a : Step) : Prop :=
  ∀ id line, a = .event (.remove id line) → line ∈ x.2 →
    ∀ v ∈ x.1.urlQueue, ofLine cfg id line v = false

theorem sameVisit_comm (x y : ScoredUrl) : sameVisit x y = sameVisit y x := by
  rw [sameVisit, sameVisit, equalsIgnoreCase, equalsIgnoreCase, Bool.beq_comm,
    Bool.beq_comm (a := x.clientProgram), Bool.beq_comm (a := x.visitTime)]

/-- What holds of the queue in every run. -/
structure Inv (s : UrlsQueue) : Prop where
  fresh : ∀ v ∈ s.urlQueue, v.ref < s.created
  noTwo : s.NoTwo

section Steps
variable {cfg : UrlConfig} {s s' : UrlsQueue} {id line : String}

theorem inv_init : Inv {} := ⟨fun _ hv => absurd hv List.not_mem_nil, List.Pairwise.nil⟩

theorem Inv.sublist (hs : s.Inv) {queue : List QueuedUrl} (h : queue.Sublist s.urlQueue)
    (created : Nat) (hcreated : s.created ≤ created) (errorLog : List String) :
    Inv ⟨created, queue, errorLog⟩ :=
  ⟨fun v hv => (hs.fresh v (h.subset hv)).trans_le hcreated, hs.noTwo.sublist h⟩

theorem Inv.addUrl (hs : s.Inv) (url : ScoredUrl) :
    Inv ((s.newUrl url).2.addUrl (s.newUrl url).1) := by
  have hnew : Inv (s.newUrl url).2 := hs.sublist (List.Sublist.refl _) _ (Nat.le_succ _) _
  rw [UrlsQueue.addUrl]
  split_ifs with hqueued
  · exact hnew
  · constructor
    · intro v hv
      rcases List.mem_append.mp hv with hv | hv
      · exact hnew.fresh v hv
      · obtain rfl := List.mem_singleton.mp hv
        exact Nat.lt_succ_self _
    · refine List.pairwise_append.mpr ⟨hs.noTwo, List.pairwise_singleton _ _, ?_⟩
      intro v hv w hw
      obtain rfl := List.mem_singleton.mp hw
      rw [sameVisit_comm]
      exact Bool.eq_false_iff.mpr fun hsame => hqueued (List.any_eq_true.mpr ⟨v, hv, hsame⟩)

/-- The new object is none of those in the queue. -/
theorem not_contains (hs : s.Inv) (url : ScoredUrl) :
    (s.newUrl url).2.contains (s.newUrl url).1 = false := by
  rw [contains, List.any_eq_false]
  intro v hv heq
  exact absurd (eq_of_beq heq) (Nat.ne_of_lt (hs.fresh v hv))

/-- **Nothing is removed.** -/
theorem removeUrlEvent_urlQueue (hs : s.Inv) (h : s.removeUrlEvent cfg id line = .ok s') :
    s'.urlQueue = s.urlQueue ∧ s.created ≤ s'.created := by
  rw [removeUrlEvent] at h
  split at h
  next url _ =>
    have hnot : ¬ (s.newUrl url).2.contains (s.newUrl url).1 = true :=
      Bool.eq_false_iff.mp (not_contains hs url)
    obtain rfl : (s.newUrl url).2 = s' := (if_neg hnot).symm.trans (Except.ok.inj h)
    exact ⟨rfl, Nat.le_succ _⟩
  next =>
    obtain rfl := Except.ok.inj h
    exact ⟨rfl, le_refl _⟩
  next => cases h

theorem next_remove (hs : s.Inv) (h : (machine cfg).next s (.event (.remove id line)) = some s') :
    s'.urlQueue = s.urlQueue ∧ s.created ≤ s'.created := by
  cases hupdate : s.removeUrlEvent cfg id line with
  | ok s₁ =>
      have hnext : (machine cfg).next s (.event (.remove id line)) = some s₁ := by
        simp only [machine, update, hupdate]
      obtain rfl := Option.some.inj (hnext.symm.trans h)
      exact removeUrlEvent_urlQueue hs hupdate
  | error e =>
      have hnext : (machine cfg).next s (.event (.remove id line)) = some s := by
        simp only [machine, update, hupdate]
      obtain rfl := Option.some.inj (hnext.symm.trans h)
      exact ⟨rfl, le_refl _⟩

/-- An event is always taken. -/
theorem exists_next_event (cfg : UrlConfig) (s : UrlsQueue) (e : UrlEvent) :
    ∃ s', (machine cfg).next s (.event e) = some s' := by
  cases h : s.update cfg e with
  | ok s' => exact ⟨s', by simp only [machine, h]⟩
  | error _ => exact ⟨s, by simp only [machine, h]⟩

theorem Inv.next (hs : s.Inv) {a : Step} (h : (machine cfg).next s a = some s') : s'.Inv := by
  cases a with
  | event e =>
      cases e with
      | remove id line =>
          obtain ⟨hqueue, hcreated⟩ := next_remove hs h
          exact hs.sublist (hqueue ▸ List.Sublist.refl _) s'.created hcreated s'.errorLog
      | add id line =>
          cases hurl : UrlFactory.getScoredUrl cfg id (toLowerCase line) with
          | ok url =>
              simp only [machine, update, addUrlEvent, hurl] at h
              obtain rfl := Option.some.inj h
              exact hs.addUrl url
          | error e =>
              cases e with
              | uriSyntax =>
                  simp only [machine, update, addUrlEvent, hurl] at h
                  obtain rfl := Option.some.inj h
                  exact hs.sublist (List.Sublist.refl _) _ (le_refl _) _
              | nullPointer =>
                  simp only [machine, update, addUrlEvent, hurl] at h
                  obtain rfl := Option.some.inj h
                  exact hs
  | takeUrl u =>
      simp only [machine] at h
      split_ifs at h
      obtain rfl := Option.some.inj h
      exact hs.sublist List.erase_sublist _ (le_refl _) _

/-- A line that gives a URL has one in the queue after it was added. -/
theorem line_queued {url : ScoredUrl}
    (hurl : UrlFactory.getScoredUrl cfg id (toLowerCase line) = .ok url)
    (h : (machine cfg).next s (.event (.add id line)) = some s') :
    ∃ v ∈ s'.urlQueue, ofLine cfg id line v = true := by
  have hline : ∀ v : QueuedUrl, ofLine cfg id line v = sameVisit url v.url := by
    intro v
    rw [ofLine, hurl]
  simp only [machine, update, addUrlEvent, hurl] at h
  obtain rfl := Option.some.inj h
  by_cases hqueued : (s.newUrl url).2.inUrlQueue (s.newUrl url).1.url
  · obtain ⟨v, hv, hsame⟩ := List.any_eq_true.mp hqueued
    refine ⟨v, ?_, (hline v).trans hsame⟩
    rw [addUrl, if_pos hqueued]
    exact hv
  · refine ⟨⟨s.created, url⟩, ?_, (hline _).trans (sameVisit_refl url)⟩
    rw [addUrl, if_neg hqueued]
    exact List.mem_append_right _ List.mem_cons_self

/-- A remove event does what it is for just if that is nothing. -/
theorem undone_iff (hs : s.Inv) (lines : List String) (a : Step) :
    Undone cfg (s, lines) a ↔ NothingToUndo cfg (s, lines) a := by
  simp only [Undone, NothingToUndo]
  constructor
  · rintro h id line rfl hline v hv
    obtain ⟨s', hnext⟩ := exists_next_event cfg s (.remove id line)
    have hqueue := h id line rfl hline s' hnext
    rw [(next_remove hs hnext).1] at hqueue
    have hkept := List.filter_eq_self.mp hqueue.symm v hv
    rwa [Bool.not_eq_true'] at hkept
  · rintro h id line rfl hline s' hnext
    rw [(next_remove hs hnext).1, List.filter_eq_self.mpr]
    intro v hv
    rw [h id line rfl hline v hv]
    rfl

end Steps

/-- **When remove events undo.**  The queue never has two URLs that would be visited in the same
way; a remove event undoes nothing. -/
theorem undone_throughout_iff (cfg : UrlConfig) (as : List Step) :
    ((recorded cfg).Throughout (fun x => x.1.NoTwo) as ({}, []) ∧
      (recorded cfg).Meets (Undone cfg) as ({}, [])) ↔
    (recorded cfg).Meets (NothingToUndo cfg) as ({}, []) := by
  have hinit : Inv ((({}, []) : UrlsQueue × List String)).1 := inv_init
  have hstep : ∀ x a x', x.1.Inv → (recorded cfg).next x a = some x' → x'.1.Inv :=
    fun x a x' hx hnext => hx.next (Machine.of_recording_next hnext).1
  have hno : (recorded cfg).Throughout (fun x => x.1.NoTwo) as ({}, []) :=
    Machine.throughout_of_invariant (fun x hx => hx.noTwo) hstep hinit
  rw [and_iff_right hno]
  exact Machine.meets_congr hstep (fun x a hx => undone_iff hx x.2 a) hinit

/-- A URL that was added is still there after its line was removed. -/
theorem removed_line_stays : ¬ (recorded ⟨some, false, "iexplore", 30⟩).Meets
    (Undone ⟨some, false, "iexplore", 30⟩)
    [.event (.add "1" "http://a/"), .event (.remove "1" "http://a/")] ({}, []) := by
  intro h
  have hadd : (recorded ⟨some, false, "iexplore", 30⟩).next ({}, [])
      (.event (.add "1" "http://a/")) =
        some (⟨1, [⟨0, ⟨⟨"1", "http://a/", "iexplore", 30⟩, .finite 0⟩⟩], []⟩, ["http://a/"]) := rfl
  have hremove : (machine ⟨some, false, "iexplore", 30⟩).next
      ⟨1, [⟨0, ⟨⟨"1", "http://a/", "iexplore", 30⟩, .finite 0⟩⟩], []⟩
      (.event (.remove "1" "http://a/")) =
        some ⟨2, [⟨0, ⟨⟨"1", "http://a/", "iexplore", 30⟩, .finite 0⟩⟩], []⟩ := rfl
  rw [Machine.Meets, hadd] at h
  have hqueue := h.2.1 "1" "http://a/" rfl List.mem_cons_self _ hremove
  have hline : ofLine ⟨some, false, "iexplore", 30⟩ "1" "http://a/"
      ⟨0, ⟨⟨"1", "http://a/", "iexplore", 30⟩, .finite 0⟩⟩ = true := by decide
  rw [List.filter_cons_of_neg (by rw [hline]; exact Bool.false_ne_true)] at hqueue
  cases hqueue

/-! ## The order of the queue -/

/-- The comparator of the queue. -/
def compare (o1 o2 : ScoredUrl) : Int :=
  (o2.priority.timesHundred.toInt - o1.priority.timesHundred.toInt).bmod (2 ^ 32)

/-- A priority in whole hundredths.  What is no number counts as none. -/
def hundredths (priority : Double) : WithBot (WithTop Int) :=
  match priority.timesHundred with
  | .nan => ((0 : Int) : WithTop Int)
  | .infinite true => ⊥
  | .infinite false => (⊤ : WithTop Int)
  | .finite x => (Double.truncate x : WithTop Int)

/-- The closest `int`. -/
def limited : WithBot (WithTop Int) → Int
  | ⊥ => -2 ^ 31
  | (⊤ : WithTop Int) => 2 ^ 31 - 1
  | ((n : Int) : WithTop Int) => max (-2 ^ 31) (min (2 ^ 31 - 1) n)

/-- The queue hands out URLs by descending priority, at a resolution of one hundredth. -/
structure Prioritised (queue : List ScoredUrl) : Prop where
  lawful : Comparator.Lawful compare (· ∈ queue)
  descending : ∀ a ∈ queue, ∀ b ∈ queue,
    hundredths b.priority < hundredths a.priority → compare a b < 0
  never_first : ∀ a ∈ queue, ∀ b ∈ queue, a.priority.Le b.priority → 0 ≤ compare a b
  head_maximal : ∀ a, Comparator.Head compare queue a →
    ∀ b ∈ queue, hundredths b.priority ≤ hundredths a.priority

/-- As `int`s two numbers of hundredths do not become the same, and do not lie `2 ^ 31` apart. -/
def Representable (x y : WithBot (WithTop Int)) : Prop :=
  limited x < limited y ∧ limited y < limited x + 2 ^ 31

theorem toInt_timesHundred (x : Double) : x.timesHundred.toInt = limited (hundredths x) := by
  rw [hundredths]
  cases x.timesHundred with
  | nan => rfl
  | infinite negative => cases negative <;> rfl
  | finite q => rfl

theorem limited_bounds (x : WithBot (WithTop Int)) : -2 ^ 31 ≤ limited x ∧ limited x < 2 ^ 31 := by
  induction x with
  | bot => decide
  | coe x =>
      induction x with
      | top => decide
      | coe n =>
          change -2 ^ 31 ≤ max (-2 ^ 31) (min (2 ^ 31 - 1) n) ∧
            max (-2 ^ 31) (min (2 ^ 31 - 1) n) < 2 ^ 31
          omega

theorem limited_mono {x y : WithBot (WithTop Int)} (h : x ≤ y) : limited x ≤ limited y := by
  have hx := limited_bounds x
  have hy := limited_bounds y
  induction x with
  | bot => exact hy.1
  | coe x =>
      induction y with
      | bot => exact absurd h (WithBot.not_coe_le_bot x)
      | coe y =>
          have hle := WithBot.coe_le_coe.mp h
          induction y with
          | top => exact Int.le_sub_one_of_lt hx.2
          | coe n =>
              induction x with
              | top => exact absurd hle (WithTop.not_top_le_coe n)
              | coe m =>
                  have hmn := WithTop.coe_le_coe.mp hle
                  exact max_le_max_left _ (min_le_min_left _ hmn)

/-- A higher priority has no fewer hundredths. -/
theorem hundredths_mono {x y : Double} (h : x.Le y) : hundredths x ≤ hundredths y := by
  have hmono := Double.timesHundred_mono h
  rw [hundredths, hundredths]
  cases hx : x.timesHundred with
  | nan =>
      rw [hx] at hmono
      exact hmono.elim
  | infinite negative =>
      cases negative with
      | true => exact bot_le
      | false =>
          cases hy : y.timesHundred with
          | infinite negative =>
              cases negative with
              | false => exact le_refl _
              | true =>
                  rw [hx, hy] at hmono
                  exact hmono.elim
          | nan =>
              rw [hx, hy] at hmono
              exact hmono.elim
          | finite q =>
              rw [hx, hy] at hmono
              exact hmono.elim
  | finite p =>
      cases hy : y.timesHundred with
      | infinite negative =>
          cases negative with
          | false => exact WithBot.coe_le_coe.mpr le_top
          | true =>
              rw [hx, hy] at hmono
              exact hmono.elim
      | nan =>
          rw [hx, hy] at hmono
          exact hmono.elim
      | finite q =>
          rw [hx, hy] at hmono
          exact WithBot.coe_le_coe.mpr (WithTop.coe_le_coe.mpr (Double.truncate_mono hmono))

theorem compare_eq (a b : ScoredUrl) : compare a b =
    (limited (hundredths b.priority) - limited (hundredths a.priority)).bmod (2 ^ 32) := by
  rw [compare, toInt_timesHundred, toInt_timesHundred]

/-- **When the queue is in the order of the priorities.** -/
theorem prioritised_iff (queue : List ScoredUrl) : Prioritised queue ↔
    ∀ a ∈ queue, ∀ b ∈ queue, hundredths b.priority < hundredths a.priority →
      Representable (hundredths b.priority) (hundredths a.priority) := by
  constructor
  · intro h a ha b hb hlt
    have hle := limited_mono hlt.le
    have hbounds := limited_bounds (hundredths b.priority)
    have hbounds' := limited_bounds (hundredths a.priority)
    have hbefore := h.descending a ha b hb hlt
    have hafter := (h.lawful.antisymm b a hb ha).mpr hbefore
    rw [compare_eq, Int.bmod_def] at hbefore hafter
    constructor
    · by_contra heq
      split_ifs at hbefore <;> omega
    · by_contra hfar
      split_ifs at hbefore hafter <;> omega
  · intro h
    have hnear : ∀ a ∈ queue, ∀ b ∈ queue,
        limited (hundredths a.priority) < limited (hundredths b.priority) + 2 ^ 31 := by
      intro a ha b hb
      rcases lt_or_ge (hundredths b.priority) (hundredths a.priority) with hlt | hge
      · exact (h a ha b hb hlt).2
      · have hle := limited_mono hge
        omega
    -- no comparison wraps around
    have hcompare : ∀ a ∈ queue, ∀ b ∈ queue, compare a b =
        limited (hundredths b.priority) - limited (hundredths a.priority) := by
      intro a ha b hb
      have hab := hnear a ha b hb
      have hba := hnear b hb a ha
      rw [compare_eq]
      exact Int.bmod_eq_of_le (by omega) (by omega)
    refine ⟨⟨?_, ?_⟩, ?_, ?_, ?_⟩
    · intro a b ha hb
      rw [hcompare a ha b hb, hcompare b hb a ha]
      omega
    · intro a b c ha hb hc hab hbc
      rw [hcompare a ha b hb] at hab
      rw [hcompare b hb c hc] at hbc
      rw [hcompare a ha c hc]
      omega
    · intro a ha b hb hlt
      have hless := (h a ha b hb hlt).1
      rw [hcompare a ha b hb]
      omega
    · intro a ha b hb hle
      have hmono := limited_mono (hundredths_mono hle)
      rw [hcompare a ha b hb]
      omega
    · rintro a ⟨ha, hfirst⟩ b hb
      by_contra hnot
      have hless := (h b hb a ha (not_le.mp hnot)).1
      have hle := hfirst b hb
      rw [hcompare a ha b hb] at hle
      omega

theorem hundredths_intCast {n : Int} (h : (n * 100).natAbs < 2 ^ 53) :
    hundredths (.finite n) = ((n * 100 : Int) : WithTop Int) := by
  rw [hundredths, Double.timesHundred_intCast h]
  exact congrArg (fun n : Int => ((n : WithTop Int) : WithBot (WithTop Int)))
    (Double.truncate_intCast _)

theorem parseDouble_high : parseDouble "30000000.0" = some (.finite (30000000 : Int)) := by
  have hvalue : literalValue ("30000000.0".toList) = (30000000 : Int) := by
    have hdigits : digitsValue 10 "300000000".toList = 300000000 := by decide
    change (digitsValue 10 "300000000".toList : ℚ) / (10 : Nat) ^ 1 * 10 ^ (0 : Int) = _
    rw [hdigits]
    norm_num
  exact parseDouble_literal false (by decide) (by decide) (by decide) hvalue (by decide)

theorem parseDouble_low : parseDouble "-1.0" = some (.finite (-1 : Int)) := by
  have hvalue : literalValue ("1.0".toList) = (1 : Int) := by
    have hdigits : digitsValue 10 "10".toList = 10 := by decide
    change (digitsValue 10 "10".toList : ℚ) / (10 : Nat) ^ 1 * 10 ^ (0 : Int) = _
    rw [hdigits]
    norm_num
  exact parseDouble_literal true (by decide) (by decide) (by decide) hvalue (by decide)

/-- Of these two the one with the lower priority comes first. -/
theorem low_priority_first : ∃ a b,
    UrlFactory.getScoredUrl ⟨some, false, "iexplore", 30⟩ "1" "http://a::30000000.0" = .ok a ∧
    UrlFactory.getScoredUrl ⟨some, false, "iexplore", 30⟩ "2" "http://b::-1.0" = .ok b ∧
    ¬ Prioritised [a, b] := by
  have hsplit : UrlFactory.splitTokenizedUrl "http://a::30000000.0" = ["http://a", "30000000.0"] := by
    decide
  have hsplit' : UrlFactory.splitTokenizedUrl "http://b::-1.0" = ["http://b", "-1.0"] := by decide
  have hnoInt : parseInt "30000000.0" = none := by decide
  have hnoInt' : parseInt "-1.0" = none := by decide
  refine ⟨⟨⟨"1", "http://a", "iexplore", 30⟩, .finite (30000000 : Int)⟩,
    ⟨⟨"2", "http://b", "iexplore", 30⟩, .finite (-1 : Int)⟩, ?_, ?_, ?_⟩
  · rw [UrlFactory.getScoredUrl, hsplit]
    simp only [hnoInt, parseDouble_high]
    rfl
  · rw [UrlFactory.getScoredUrl, hsplit']
    simp only [hnoInt', parseDouble_low]
    rfl
  · intro h
    have hundred := hundredths_intCast (n := 30000000) (by decide)
    have hundred' := hundredths_intCast (n := -1) (by decide)
    have hbefore := h.descending _ List.mem_cons_self _
      (List.mem_cons_of_mem _ List.mem_cons_self) (by
        rw [hundred, hundred']
        decide)
    rw [compare_eq, hundred, hundred'] at hbefore
    exact absurd hbefore (by decide)

end UrlsQueue

end CaptureHpc.Server
