/-
# `Server.DivideAndConquer` — the groups of the server as a search

The URLs that wait, the groups that are queued and the groups that someone has
are a search of `Lib.Bisection` for the bad URLs (`Tracks`).  What the messages
of `Server.GroupVisit` leave behind is no step of the search, or it is one: a
group is cut in two, or it is judged.
-/
import CaptureHpc.Server.GroupVisit

namespace CaptureHpc.Server

open Java

/-- What was counted: the URLs that the queue has taken, how many groups were taken for a visit, and
how many of these were made of URLs from the queue. -/
structure Search where
  queued : List UrlRef := []
  visits : Nat := 0
  drawn : Nat := 0

/-- Who has which group. -/
abbrev Custody := List (ClientRef × GroupRef)

variable {bad : UrlRef → Bool} {n : Search} {c : ClientRef} {g : GroupRef} {s s' : ServerState}
  {custody rest : Custody} {b : Bisection UrlRef}

/-- **The groups of the server are the groups of the search.** -/
structure Tracks (bad : UrlRef → Bool) (n : Search) (s : ServerState) (custody : Custody)
    (b : Bisection UrlRef) : Prop where
  sound : b.Sound (fun u => bad u = true) n.queued
  nodup : n.queued.Nodup
  visits : b.tests = n.visits
  drawn : b.drawn = n.drawn
  waiting : b.waiting = s.urlQueue
  stack : b.stack = s.urlGroupQueue.map fun g => (s.group g).urlList
  held : b.held = (custody.map fun p => (s.group p.2).urlList : List (List UrlRef))
  refs : (s.urlGroupQueue ++ custody.map Prod.snd).Nodup
  created : ∀ g ∈ s.urlGroupQueue ++ custody.map Prod.snd, g < s.nextGroup
  clients : (custody.map Prod.fst).Nodup
  benign : ∀ g ∈ s.urlGroupQueue, (s.group g).malicious = false
  guilty : ∀ p ∈ custody, (s.group p.2).malicious = true →
    ∃ u, (s.group p.2).urlList = [u] ∧ bad u = true
  unjudged : ∀ u ∉ b.verdicts.map Prod.fst,
    (∀ p ∈ custody, (s.group p.2).malicious = true → u ∉ (s.group p.2).urlList) →
      verdicts s u = none
  codes : ∀ u, codes s u = .ok
  logged : ∀ u, logged s u = b.verdictsOf u
  closed : ∀ u v, (u, v) ∈ b.verdicts → states s u = (.visited, .ok) ∧ verdicts s u = some v

namespace Tracks

/-- The order in which groups are held does not matter. -/
theorem perm (h : Tracks bad n s custody b) (hperm : custody.Perm rest) :
    Tracks bad n s rest b where
  sound := h.sound
  nodup := h.nodup
  visits := h.visits
  drawn := h.drawn
  waiting := h.waiting
  stack := h.stack
  held := h.held.trans (Multiset.coe_eq_coe.mpr (hperm.map _))
  refs := ((hperm.map Prod.snd).append_left _).nodup_iff.mp h.refs
  created g hg := h.created g (((hperm.map Prod.snd).append_left _).mem_iff.mpr hg)
  clients := (hperm.map Prod.fst).nodup_iff.mp h.clients
  benign := h.benign
  guilty p hp := h.guilty p (hperm.mem_iff.mpr hp)
  unjudged u hu hother := h.unjudged u hu fun p hp => hother p (hperm.mem_iff.mp hp)
  codes := h.codes
  logged := h.logged
  closed := h.closed

/-- A group that is held may come first. -/
theorem exists_cons (h : Tracks bad n s custody b) (hmem : (c, g) ∈ custody) :
    ∃ rest, custody.Perm ((c, g) :: rest) ∧ Tracks bad n s ((c, g) :: rest) b := by
  have hperm := List.perm_cons_erase hmem
  exact ⟨_, hperm, h.perm hperm⟩

section Held
variable (h : Tracks bad n s ((c, g) :: rest) b)
include h

theorem held_cons : b.held = (s.group g).urlList ::ₘ
    (rest.map fun p => (s.group p.2).urlList : List (List UrlRef)) := h.held

theorem list_nodup : (s.group g).urlList.Nodup := (h.sound.apart h.nodup h.held_cons).1

/-- The URLs of a group that is held are open, and in no other group. -/
theorem apart {u : UrlRef} (hu : u ∈ (s.group g).urlList) : u ∉ b.verdicts.map Prod.fst ∧
    ∀ p ∈ rest, u ∉ (s.group p.2).urlList := by
  obtain ⟨-, -, hother, hnot⟩ := (h.sound.apart h.nodup h.held_cons).2 u hu
  refine ⟨hnot, fun p hp => hother _ ?_⟩
  exact Multiset.mem_coe.mpr (List.mem_map.mpr ⟨p, hp, rfl⟩)

/-- Nor is the group itself held twice, or queued. -/
theorem ne_of_mem {g' : GroupRef} (hg' : g' ∈ s.urlGroupQueue ++ rest.map Prod.snd) : g' ≠ g := by
  rintro rfl
  have hperm : (s.urlGroupQueue ++ ((c, g') :: rest).map Prod.snd).Perm
      (g' :: (s.urlGroupQueue ++ rest.map Prod.snd)) := List.perm_middle
  exact (List.nodup_cons.mp (hperm.nodup_iff.mp h.refs)).1 hg'

theorem refs_rest : (s.urlGroupQueue ++ rest.map Prod.snd).Nodup := by
  have hperm : (s.urlGroupQueue ++ ((c, g) :: rest).map Prod.snd).Perm
      (g :: (s.urlGroupQueue ++ rest.map Prod.snd)) := List.perm_middle
  exact (List.nodup_cons.mp (hperm.nodup_iff.mp h.refs)).2

theorem created_rest : ∀ g' ∈ s.urlGroupQueue ++ rest.map Prod.snd, g' < s.nextGroup := by
  intro g' hg'
  refine h.created g' ?_
  rcases List.mem_append.mp hg' with hg' | hg'
  · exact List.mem_append_left _ hg'
  · exact List.mem_append_right _ (List.mem_cons_of_mem _ hg')

theorem created_self : g < s.nextGroup :=
  h.created g (List.mem_append_right _ List.mem_cons_self)

/-- Nothing is said of the URLs of a group that is held and not malicious. -/
theorem verdicts_none (hbenign : (s.group g).malicious = false) {u : UrlRef}
    (hu : u ∈ (s.group g).urlList) : verdicts s u = none := by
  obtain ⟨hnot, hother⟩ := h.apart hu
  refine h.unjudged u hnot fun p hp hmalicious => ?_
  rcases List.mem_cons.mp hp with rfl | hp
  · exact absurd (hmalicious.symm.trans hbenign) Bool.noConfusion
  · exact hother p hp

end Held

/-! ## Steps of the server that are none of the search -/

/-- Clients and machines do not matter. -/
theorem congr (h : Tracks bad n s custody b) (hstore : s'.store = s.store)
    (hgroup : s'.group = s.group) (hnext : s'.nextGroup = s.nextGroup)
    (hurls : s'.urlQueue = s.urlQueue) (hqueue : s'.urlGroupQueue = s.urlGroupQueue) :
    Tracks bad n s' custody b where
  sound := h.sound
  nodup := h.nodup
  visits := h.visits
  drawn := h.drawn
  waiting := h.waiting.trans hurls.symm
  stack := by rw [hqueue, hgroup]; exact h.stack
  held := by rw [hgroup]; exact h.held
  refs := by rw [hqueue]; exact h.refs
  created := by rw [hqueue, hnext]; exact h.created
  clients := h.clients
  benign := by rw [hqueue, hgroup]; exact h.benign
  guilty := by rw [hgroup]; exact h.guilty
  unjudged u hu hother := by
    rw [hgroup] at hother
    rw [verdicts, ServerState.visit, hstore]
    exact h.unjudged u hu hother
  codes u := by
    rw [Server.codes, ServerState.visit, hstore]
    exact h.codes u
  logged u := by
    rw [Server.logged, hstore]
    exact h.logged u
  closed u v huv := by
    rw [states, verdicts, ServerState.visit, hstore]
    exact h.closed u v huv

/-- A URL is queued. -/
theorem enqueue (h : Tracks bad n s custody b) {u : UrlRef} (hu : u ∉ n.queued) (position : Nat) :
    ∃ b', Tracks bad { n with queued := u :: n.queued }
      { s with urlQueue := s.urlQueue.take position ++ u :: s.urlQueue.drop position }
        custody b' := by
  have hperm : (s.urlQueue.take position ++ u :: s.urlQueue.drop position).Perm
      (u :: s.urlQueue) := by
    refine List.perm_middle.trans ?_
    rw [List.take_append_drop]
  exact ⟨{ b with waiting := s.urlQueue.take position ++ u :: s.urlQueue.drop position },
    { sound := h.sound.enter (by rw [h.waiting]; exact Multiset.coe_eq_coe.mpr hperm)
      nodup := List.nodup_cons.mpr ⟨hu, h.nodup⟩
      visits := h.visits, drawn := h.drawn, waiting := rfl, stack := h.stack, held := h.held
      refs := h.refs, created := h.created, clients := h.clients, benign := h.benign
      guilty := h.guilty, unjudged := h.unjudged, codes := h.codes, logged := h.logged
      closed := h.closed }⟩

section Held
variable (h : Tracks bad n s ((c, g) :: rest) b)
include h

/-- A verdict that was passed stays where nothing happens outside of the group. -/
theorem closed_of_others (hothers : ∀ w ∉ (s.group g).urlList, s'.visit w = s.visit w) (u : UrlRef)
    (v : Bool) (huv : (u, v) ∈ b.verdicts) :
    states s' u = (.visited, .ok) ∧ verdicts s' u = some v := by
  have hnot : u ∉ (s.group g).urlList :=
    fun hu => (h.apart hu).1 (List.mem_map.mpr ⟨(u, v), huv, rfl⟩)
  rw [states, verdicts, hothers u hnot]
  exact h.closed u v huv

/-- Something happens to a group that is held, and to its URLs. -/
theorem touch (hurls : s'.urlQueue = s.urlQueue) (hqueue : s'.urlGroupQueue = s.urlGroupQueue)
    (hnext : s'.nextGroup = s.nextGroup) (hgroups : ∀ g' ≠ g, s'.group g' = s.group g')
    (hlist : (s'.group g).urlList = (s.group g).urlList)
    (hstays : (s.group g).malicious = true → (s'.group g).malicious = true)
    (hguilty : (s'.group g).malicious = true → ∃ u, (s.group g).urlList = [u] ∧ bad u = true)
    (hothers : ∀ w ∉ (s.group g).urlList, s'.visit w = s.visit w)
    (hverdicts : (s'.group g).malicious = false → verdicts s' = verdicts s)
    (hcodes : Server.codes s' = Server.codes s) (hlogged : Server.logged s' = Server.logged s) :
    Tracks bad n s' ((c, g) :: rest) b := by
  have hqueued : ∀ g' ∈ s.urlGroupQueue, s'.group g' = s.group g' :=
    fun g' hg' => hgroups g' (h.ne_of_mem (List.mem_append_left _ hg'))
  have hrest : ∀ p ∈ rest, s'.group p.2 = s.group p.2 :=
    fun p hp => hgroups p.2 (h.ne_of_mem (List.mem_append_right _ (List.mem_map_of_mem hp)))
  have hlists : ∀ p ∈ (c, g) :: rest, (s'.group p.2).urlList = (s.group p.2).urlList := by
    intro p hp
    rcases List.mem_cons.mp hp with rfl | hp
    · exact hlist
    · rw [hrest p hp]
  exact
    { sound := h.sound, nodup := h.nodup, visits := h.visits, drawn := h.drawn
      waiting := h.waiting.trans hurls.symm
      stack := by
        rw [hqueue, h.stack]
        exact List.map_congr_left fun g' hg' => by rw [hqueued g' hg']
      held := by
        rw [h.held]
        exact congrArg _ (List.map_congr_left fun p hp => (hlists p hp).symm)
      refs := by rw [hqueue]; exact h.refs
      created := by rw [hqueue, hnext]; exact h.created
      clients := h.clients
      benign := by
        intro g' hg'
        rw [hqueue] at hg'
        rw [hqueued g' hg']
        exact h.benign g' hg'
      guilty := by
        intro p hp hmalicious
        rw [hlists p hp]
        rcases List.mem_cons.mp hp with rfl | hmem
        · exact hguilty hmalicious
        · rw [hrest p hmem] at hmalicious
          exact h.guilty p hp hmalicious
      unjudged := by
        intro u hu hother
        have hsame : verdicts s' u = verdicts s u := by
          by_cases hmem : u ∈ (s.group g).urlList
          · have hbenign : (s'.group g).malicious = false := by
              refine Bool.eq_false_iff.mpr fun hmalicious => ?_
              exact hother _ List.mem_cons_self hmalicious (by rw [hlist]; exact hmem)
            rw [hverdicts hbenign]
          · rw [verdicts, hothers u hmem, verdicts]
        rw [hsame]
        refine h.unjudged u hu fun p hp hmalicious => ?_
        rw [← hlists p hp]
        refine hother p hp ?_
        rcases List.mem_cons.mp hp with rfl | hmem
        · exact hstays hmalicious
        · rw [hrest p hmem]
          exact hmalicious
      codes := by rw [hcodes]; exact h.codes
      logged := by rw [hlogged]; exact h.logged
      closed := h.closed_of_others hothers }

/-- A start message. -/
theorem started (hstarted : Started c g s s') : Tracks bad n s' ((c, g) :: rest) b := by
  obtain ⟨date, hgroup⟩ := hstarted.group
  refine h.touch ?_ ?_ ?_ hstarted.groups ?_ ?_ ?_ hstarted.others (fun _ => hstarted.verdicts)
    hstarted.codes hstarted.logged
  · rw [hstarted.rest]
  · rw [hstarted.rest]
  · rw [hstarted.rest]
  · rw [hgroup]
  · rw [hgroup]
    exact id
  · rw [hgroup]
    exact h.guilty _ List.mem_cons_self

/-- An event that is seen while a single URL is visited. -/
theorem noted {u : UrlRef} (hnoted : Noted c g s s') (hone : (s.group g).urlList = [u])
    (hbad : bad u = true) : Tracks bad n s' ((c, g) :: rest) b := by
  refine h.touch ?_ ?_ ?_ hnoted.groups ?_ ?_ ?_ hnoted.others ?_ hnoted.codes hnoted.logged
  · rw [hnoted.rest]
  · rw [hnoted.rest]
  · rw [hnoted.rest]
  · rw [hnoted.group]
  · exact fun _ => by rw [hnoted.group]
  · exact fun _ => ⟨u, hone, hbad⟩
  · intro hbenign
    rw [hnoted.group] at hbenign
    cases hbenign

end Held

/-! ## Steps of the search -/

/-- The groups that are left are not touched. -/
theorem rest_kept (h : Tracks bad n s ((c, g) :: rest) b) (hconcluded : Concluded c g s s')
    {g' : GroupRef} (hg' : g' ∈ s.urlGroupQueue ++ rest.map Prod.snd) :
    s'.group g' = s.group g' :=
  hconcluded.groups g' (h.created_rest g' hg') (h.ne_of_mem hg')

/-- **A group is cut in two.** -/
theorem cut (h : Tracks bad n s ((c, g) :: rest) b) (hlong : 1 < (s.group g).urlList.length)
    (hbad : ∃ u ∈ (s.group g).urlList, bad u = true) (hconcluded : Concluded c g s s')
    (hhalved : Halved (s.group g).urlList s s') (hverdicts : verdicts s' = verdicts s)
    (hlogged : Server.logged s' = Server.logged s) : ∃ b', Tracks bad n s' rest b' := by
  have hqueued : ∀ g' ∈ s.urlGroupQueue, s'.group g' = s.group g' :=
    fun g' hg' => h.rest_kept hconcluded (List.mem_append_left _ hg')
  have hrest : ∀ p ∈ rest, s'.group p.2 = s.group p.2 :=
    fun p hp => h.rest_kept hconcluded (List.mem_append_right _ (List.mem_map_of_mem hp))
  have hnew : ∀ g' ∈ s.urlGroupQueue ++ rest.map Prod.snd, g' < s.nextGroup := h.created_rest
  refine ⟨{ b with
      held := (rest.map fun p => (s.group p.2).urlList : List (List UrlRef))
      stack := (s.group g).urlList.drop ((s.group g).urlList.length / 2) ::
        (s.group g).urlList.take ((s.group g).urlList.length / 2) :: b.stack },
    { sound := h.sound.step (.cut h.held_cons hlong hbad), nodup := h.nodup, visits := h.visits
      drawn := h.drawn, waiting := h.waiting.trans hconcluded.urlQueue.symm, stack := ?_, held := ?_
      refs := ?_, created := ?_, clients := (List.nodup_cons.mp h.clients).2, benign := ?_
      guilty := ?_, unjudged := ?_, codes := ?_, logged := ?_
      closed := h.closed_of_others hconcluded.others }⟩
  · rw [hhalved.queue, List.map_cons, List.map_cons, hhalved.first, hhalved.second, h.stack]
    exact congrArg _ (congrArg _ (List.map_congr_left fun g' hg' => by rw [hqueued g' hg']))
  · exact congrArg _ (List.map_congr_left fun p hp => by rw [hrest p hp])
  · rw [hhalved.queue]
    refine List.nodup_cons.mpr ⟨fun hmem => ?_, List.nodup_cons.mpr ⟨fun hmem => ?_, h.refs_rest⟩⟩
    · rcases List.mem_cons.mp hmem with heq | hmem
      · exact absurd heq (Nat.succ_ne_self _)
      · exact absurd (Nat.lt_of_succ_lt (hnew _ hmem)) (Nat.lt_irrefl _)
    · exact absurd (hnew _ hmem) (Nat.lt_irrefl _)
  · intro g' hg'
    rw [hhalved.queue] at hg'
    rw [hhalved.nextGroup]
    rcases List.mem_cons.mp hg' with rfl | hg'
    · exact Nat.lt_succ_self _
    · rcases List.mem_cons.mp hg' with rfl | hg'
      · exact Nat.lt_add_of_pos_right (by decide)
      · exact Nat.lt_add_right 2 (hnew g' hg')
  · intro g' hg'
    rw [hhalved.queue] at hg'
    rcases List.mem_cons.mp hg' with rfl | hg'
    · exact hhalved.secondBenign
    · rcases List.mem_cons.mp hg' with rfl | hg'
      · exact hhalved.firstBenign
      · rw [hqueued g' hg']
        exact h.benign g' hg'
  · intro p hp
    rw [hrest p hp]
    exact h.guilty p (List.mem_cons_of_mem _ hp)
  · intro u hu hother
    rw [hverdicts]
    refine h.unjudged u hu fun p hp hmalicious => ?_
    rcases List.mem_cons.mp hp with rfl | hmem
    · -- a malicious group that is held is a single URL
      obtain ⟨w, hone, -⟩ := h.guilty _ List.mem_cons_self hmalicious
      rw [hone] at hlong
      exact absurd hlong (Nat.lt_irrefl 1)
    · rw [← hrest p hmem] at hmalicious ⊢
      exact hother p hmem hmalicious
  · rw [hconcluded.codes fun u _ => h.codes u]
    exact h.codes
  · rw [hlogged]
    exact h.logged

/-- **A group is judged.** -/
theorem judge {m : Bool} (h : Tracks bad n s ((c, g) :: rest) b)
    (hone : m = true → ∃ u, (s.group g).urlList = [u])
    (hright : ∀ u ∈ (s.group g).urlList, m = true ↔ bad u = true)
    (hconcluded : Concluded c g s s') (hjudged : Judgement g m s s') :
    ∃ b', Tracks bad n s' rest b' := by
  have hqueued : ∀ g' ∈ s.urlGroupQueue, s'.group g' = s.group g' :=
    fun g' hg' => h.rest_kept hconcluded (List.mem_append_left _ hg')
  have hrest : ∀ p ∈ rest, s'.group p.2 = s.group p.2 :=
    fun p hp => h.rest_kept hconcluded (List.mem_append_right _ (List.mem_map_of_mem hp))
  refine ⟨{ b with
      held := (rest.map fun p => (s.group p.2).urlList : List (List UrlRef))
      verdicts := b.verdicts ++ (s.group g).urlList.map (·, m) },
    { sound := h.sound.step (.judge h.held_cons hone hright), nodup := h.nodup, visits := h.visits
      drawn := h.drawn, waiting := h.waiting.trans hconcluded.urlQueue.symm, stack := ?_, held := ?_
      refs := by rw [hjudged.queue]; exact h.refs_rest
      created := by rw [hjudged.queue, hjudged.nextGroup]; exact h.created_rest
      clients := (List.nodup_cons.mp h.clients).2, benign := ?_, guilty := ?_, unjudged := ?_
      codes := ?_, logged := ?_, closed := ?_ }⟩
  · rw [hjudged.queue, h.stack]
    exact List.map_congr_left fun g' hg' => by rw [hqueued g' hg']
  · exact congrArg _ (List.map_congr_left fun p hp => by rw [hrest p hp])
  · intro g' hg'
    rw [hjudged.queue] at hg'
    rw [hqueued g' hg']
    exact h.benign g' hg'
  · intro p hp
    rw [hrest p hp]
    exact h.guilty p (List.mem_cons_of_mem _ hp)
  · intro u hu hother
    rw [List.map_append, List.mem_append, not_or, List.map_map] at hu
    have hnot : u ∉ (s.group g).urlList :=
      fun hmem => hu.2 (List.mem_map.mpr ⟨u, hmem, rfl⟩)
    rw [verdicts, hconcluded.others u hnot]
    refine h.unjudged u hu.1 fun p hp hmalicious => ?_
    rcases List.mem_cons.mp hp with rfl | hmem
    · exact hnot
    · rw [← hrest p hmem] at hmalicious ⊢
      exact hother p hmem hmalicious
  · rw [hconcluded.codes fun u _ => h.codes u]
    exact h.codes
  · intro u
    rw [hjudged.logged, h.logged]
    exact (Bisection.verdictsOf_judged h.list_nodup rfl u).symm
  · intro u v huv
    rcases List.mem_append.mp huv with huv | huv
    · exact h.closed_of_others hconcluded.others u v huv
    · obtain ⟨w, hw, heq⟩ := List.mem_map.mp huv
      obtain ⟨rfl, rfl⟩ := Prod.mk.inj heq
      exact ⟨hconcluded.states w hw, hjudged.verdicts w hw⟩

/-- **The head of the queue is taken.** -/
theorem pop (h : Tracks bad n s custody b) {queue : List GroupRef}
    (hqueue : s.urlGroupQueue = g :: queue) (hc : c ∉ custody.map Prod.fst) :
    ∃ b', Tracks bad { n with visits := n.visits + 1 } { s with urlGroupQueue := queue }
      ((c, g) :: custody) b' := by
  have hstack := h.stack
  have hrefs := h.refs
  have hcreated := h.created
  have hbenign := h.benign
  rw [hqueue] at hstack hrefs hcreated hbenign
  have hperm : (queue ++ ((c, g) :: custody).map Prod.snd).Perm
      (g :: queue ++ custody.map Prod.snd) := List.perm_middle
  refine ⟨{ b with
      stack := queue.map fun g => (s.group g).urlList
      held := (s.group g).urlList ::ₘ b.held
      tests := b.tests + 1 },
    { sound := h.sound.step (.take hstack), nodup := h.nodup
      visits := congrArg Nat.succ h.visits, drawn := h.drawn, waiting := h.waiting, stack := rfl
      held := congrArg _ h.held, refs := hperm.nodup_iff.mpr hrefs
      created := fun g' hg' => hcreated g' (hperm.mem_iff.mp hg')
      clients := List.nodup_cons.mpr ⟨hc, h.clients⟩
      benign := fun g' hg' => hbenign g' (List.mem_cons_of_mem _ hg')
      guilty := ?_
      unjudged := fun u hu hother =>
        h.unjudged u hu fun p hp => hother p (List.mem_cons_of_mem _ hp)
      codes := h.codes, logged := h.logged, closed := h.closed }⟩
  intro p hp hmalicious
  rcases List.mem_cons.mp hp with rfl | hp
  · exact absurd (hmalicious.symm.trans (hbenign g List.mem_cons_self)) Bool.noConfusion
  · exact h.guilty p hp hmalicious

/-- **A group is made of URLs that waited.** -/
theorem draw (h : Tracks bad n s custody b) {urls queue : List UrlRef} {x : UrlGroup}
    (hurls : s.urlQueue = urls ++ queue) (hne : urls ≠ []) (hx : x.urlList = urls)
    (hbenign : x.malicious = false) (hc : c ∉ custody.map Prod.fst) :
    ∃ b', Tracks bad { n with visits := n.visits + 1, drawn := n.drawn + 1 }
      { s with urlQueue := queue, nextGroup := s.nextGroup + 1
               group := Function.update s.group s.nextGroup x }
      ((c, s.nextGroup) :: custody) b' := by
  have hold : ∀ g' ∈ s.urlGroupQueue ++ custody.map Prod.snd,
      Function.update s.group s.nextGroup x g' = s.group g' :=
    fun g' hg' => Function.update_of_ne (Nat.ne_of_lt (h.created g' hg')) ..
  have hqueued : ∀ g' ∈ s.urlGroupQueue, Function.update s.group s.nextGroup x g' = s.group g' :=
    fun g' hg' => hold g' (List.mem_append_left _ hg')
  have hrest : ∀ p ∈ custody, Function.update s.group s.nextGroup x p.2 = s.group p.2 :=
    fun p hp => hold p.2 (List.mem_append_right _ (List.mem_map_of_mem hp))
  have hself : Function.update s.group s.nextGroup x s.nextGroup = x := Function.update_self ..
  have hperm : (s.urlGroupQueue ++ ((c, s.nextGroup) :: custody).map Prod.snd).Perm
      (s.nextGroup :: (s.urlGroupQueue ++ custody.map Prod.snd)) := List.perm_middle
  refine ⟨{ b with
      waiting := queue, held := urls ::ₘ b.held, tests := b.tests + 1, drawn := b.drawn + 1 },
    { sound := h.sound.step (.draw (h.waiting.trans hurls) hne), nodup := h.nodup
      visits := congrArg Nat.succ h.visits, drawn := congrArg Nat.succ h.drawn, waiting := rfl
      stack := ?_, held := ?_, refs := hperm.nodup_iff.mpr (List.nodup_cons.mpr ⟨?_, h.refs⟩)
      created := ?_, clients := List.nodup_cons.mpr ⟨hc, h.clients⟩, benign := ?_, guilty := ?_
      unjudged := ?_, codes := h.codes, logged := h.logged, closed := h.closed }⟩
  · exact h.stack.trans (List.map_congr_left fun g' hg' =>
      congrArg UrlGroup.urlList (hqueued g' hg').symm)
  · show urls ::ₘ b.held = ((Function.update s.group s.nextGroup x s.nextGroup).urlList :: _ :
      List (List UrlRef))
    rw [hself, hx, h.held]
    exact congrArg _ (congrArg _ (List.map_congr_left fun p hp =>
      congrArg UrlGroup.urlList (hrest p hp).symm))
  · exact fun hmem => Nat.lt_irrefl _ (h.created _ hmem)
  · intro g' hg'
    rcases List.mem_cons.mp (hperm.mem_iff.mp hg') with rfl | hg'
    · exact Nat.lt_succ_self _
    · exact Nat.lt_succ_of_lt (h.created g' hg')
  · intro g' hg'
    show (Function.update s.group s.nextGroup x g').malicious = false
    rw [hqueued g' hg']
    exact h.benign g' hg'
  · intro p hp hmalicious
    change (Function.update s.group s.nextGroup x p.2).malicious = true at hmalicious
    show ∃ u, (Function.update s.group s.nextGroup x p.2).urlList = [u] ∧ bad u = true
    rcases List.mem_cons.mp hp with rfl | hp
    · rw [hself] at hmalicious
      exact absurd (hmalicious.symm.trans hbenign) Bool.noConfusion
    · rw [hrest p hp] at hmalicious ⊢
      exact h.guilty p hp hmalicious
  · intro u hu hother
    refine h.unjudged u hu fun p hp hmalicious => ?_
    have hone := hother p (List.mem_cons_of_mem _ hp)
    change (Function.update s.group s.nextGroup x p.2).malicious = true →
      u ∉ (Function.update s.group s.nextGroup x p.2).urlList at hone
    rw [hrest p hp] at hone
    exact hone hmalicious

end Tracks

end CaptureHpc.Server
