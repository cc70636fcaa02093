/-
# `Server.HonestClients` — runs of the server in which the clients are honest

An honest client runs the divide-and-conquer algorithm without errors: it
reports an event while it visits a group that has a bad URL, and does not finish
the visit of such a group before that.  The links hold, and no machine is found
inactive.  Everything else is left open: how many clients there are, when they
connect, in which order their messages and the retrievers' steps come, and when
URLs are queued.

In every such run (`search_safe`) the server tests no more groups than a search
by halves may take, no group is empty, and each URL that was queued is either
with one of the queues or clients and has no verdict, or was logged once, with
the right verdict.
-/
import CaptureHpc.Server.DivideAndConquer

namespace CaptureHpc.Server

open Java

/-! ## What honest clients do -/

section Honest
variable (bad : UrlRef → Bool) (s : ServerState) (c : ClientRef) (g : GroupRef)

/-- Some URL of the group is bad. -/
def HasBad : Prop := ∃ u ∈ (s.group g).urlList, bad u = true

instance : Decidable (HasBad bad s g) := inferInstanceAs (Decidable (∃ u ∈ _, _))

/-- An event that is reported is one of a group with a bad URL, and has a time.  Outside of a visit
it is ignored. -/
def HonestEvent (element : Element) : Prop :=
  (s.client c).clientState = .visiting → ∃ g ∈ (s.client c).visitingUrlGroup,
    HasBad bad s g ∧ ((element.get "time").bind parseDate).isSome = true

/-- A visit is started once the server waits for that.  It is finished without a verdict of the
client's own, or rightly with one, and an event was reported before if there is a bad URL. -/
def HonestVisit (element : Element) : Prop :=
  ∃ g ∈ (s.client c).visitingUrlGroup,
    ((s.client c).clientState = .awaitingVisiting ∧ GoodStart s g element) ∨
      ((s.client c).clientState = .visiting ∧ GoodFinish s g element ∧
        (HasBad bad s g → (s.group g).malicious = true) ∧
          (element.get "malicious" = some "1" → HasBad bad s g))

instance (element : Element) : Decidable (HonestEvent bad s c element) :=
  inferInstanceAs (Decidable (_ → _))

instance (element : Element) : Decidable (HonestVisit bad s c element) :=
  inferInstanceAs (Decidable (∃ g ∈ _, _ ∨ _))

/-- A line of an honest client. -/
def HonestLine (client : Option ClientRef) : Line → Prop
  | .connect (some _) linkUp => linkUp = true
  | .reconnect (some _) _ => False
  | .systemEvent element _ => ∀ c ∈ client, HonestEvent bad s c element
  | .visitEvent element => ∀ c ∈ client, HonestVisit bad s c element
  | .broken => False
  | _ => True

instance (client : Option ClientRef) : ∀ line, Decidable (HonestLine bad s client line)
  | .connect (some _) linkUp => inferInstanceAs (Decidable (linkUp = true))
  | .connect none _ => .isTrue trivial
  | .reconnect (some _) _ => .isFalse id
  | .reconnect none _ => .isTrue trivial
  | .systemEvent element _ =>
      inferInstanceAs (Decidable (∀ c ∈ client, HonestEvent bad s c element))
  | .visitEvent element => inferInstanceAs (Decidable (∀ c ∈ client, HonestVisit bad s c element))
  | .broken => .isFalse id
  | .other => .isTrue trivial
  | .notWellFormed => .isTrue trivial

/-- What an event thread handles next. -/
def HonestStep (client : Option ClientRef) : EventStep → Prop
  | .read line => HonestLine bad s client line
  | _ => True

instance (client : Option ClientRef) : ∀ step, Decidable (HonestStep bad s client step)
  | .read line => inferInstanceAs (Decidable (HonestLine bad s client line))
  | .reading | .connected | .stopped => .isTrue trivial

end Honest

/-- **The condition on a step.** -/
def Honest (bad : UrlRef → Bool) (x : System × Search) : SystemAction → Prop
  | .handle k => HonestStep bad x.1.server (x.1.controller k).client (x.1.controller k).step
  | .lineLost _ => False
  | .blame _ _ => False
  | .revert => False
  | .cutLink _ => False
  | _ => True

instance (bad : UrlRef → Bool) (x : System × Search) : ∀ a, Decidable (Honest bad x a)
  | .handle _ => inferInstanceAs (Decidable (HonestStep bad _ _ _))
  | .lineLost _ | .blame _ _ | .revert | .cutLink _ => .isFalse id
  | .enqueue _ | .receive _ _ | .endOfStream _ | .retrieve _ | .work _ _ | .ping _ =>
      .isTrue trivial

/-- The URLs that the queue took, and the groups that the retrievers took. -/
def Search.record (n : Search) (s : System) (a : SystemAction) (s' : System) : Search :=
  match a with
  | .enqueue _ =>
      if s'.server.urlQueue = s.server.urlQueue then n
      else { n with queued := s.nextUrl :: n.queued }
  | .retrieve c =>
      match s.retriever c, s'.retriever c with
      | .take, .store _ =>
          if s.server.urlGroupQueue = [] then
            { n with visits := n.visits + 1, drawn := n.drawn + 1 }
          else { n with visits := n.visits + 1 }
      | _, _ => n
  | _ => n

/-- The server, with what was counted. -/
def searchMachine : Machine (System × Search) SystemAction :=
  systemMachine.recording {} Search.record

/-! ## What a client and its retriever are doing -/

/-- The retriever has no group in hand, and is not about to take one. -/
def AtRest (step : RetrieverStep) : Prop :=
  step = .loop ∨ step = .test ∨ step = .wait ∨ step = .stopped

/-- The client, or its retriever, has the group. -/
def Has (x : System) (c : ClientRef) (g : GroupRef) : Prop :=
  x.retriever c = .store g ∨ (x.server.client c).visitingUrlGroup = some g

/-- How far the client has come with the group that it has, or with none. -/
inductive Stage (x : System) (c : ClientRef) : Option GroupRef → Prop
  | idle : AtRest (x.retriever c) → (x.server.client c).visitingUrlGroup = none →
      (x.server.client c).clientState ≠ .awaitingVisiting →
        (x.server.client c).clientState ≠ .visiting → Stage x c none
  | taking : x.retriever c = .take → (x.server.client c).visitingUrlGroup = none →
      (x.server.client c).clientState = .waiting → Stage x c none
  | inHand {g : GroupRef} : x.retriever c = .store g →
      (x.server.client c).visitingUrlGroup = none →
        (x.server.client c).clientState = .waiting → Stage x c (some g)
  | stored {g : GroupRef} : x.retriever c = .send ∨ x.retriever c = .await →
      (x.server.client c).visitingUrlGroup = some g →
        (x.server.client c).clientState = .waiting → Stage x c (some g)
  | awaiting {g : GroupRef} : AtRest (x.retriever c) →
      (x.server.client c).visitingUrlGroup = some g →
        (x.server.client c).clientState = .awaitingVisiting → Stage x c (some g)
  | visiting {g : GroupRef} {v : VmRef} : AtRest (x.retriever c) →
      InVisit x.server c g v → Stage x c (some g)

/-- The link to the client holds until it is DISCONNECTED, and it has a machine. -/
structure Alive (x : Client) : Prop where
  link : x.clientState ≠ .disconnected → x.linkUp = true ∧ x.socketClosed = false
  machine : x.clientState ≠ .disconnected → x.clientState ≠ .connecting →
    x.virtualMachine.isSome = true

/-- The connections and their clients. -/
structure Connections (x : System) : Prop where
  known : ∀ k c, (x.controller k).client = some c → c < x.nextClient
  apart : ∀ k k' c, (x.controller k).client = some c → (x.controller k').client = some c → k = k'
  connected : ∀ k c, (x.controller k).client = some c → (x.controller k).step = .connected →
    (x.server.client c).clientState = .connected
  fresh : ∀ c, x.nextClient ≤ c → x.server.client c = {} ∧ x.retriever c = .stopped

/-- **What holds of the groups, the clients and the search.** -/
structure Searching (bad : UrlRef → Bool) (x : System) (n : Search)
    (holds : ClientRef → Option GroupRef) (custody : Custody) (b : Bisection UrlRef) : Prop where
  tracks : Tracks bad n x.server custody b
  owned : ∀ c g, (c, g) ∈ custody ↔ holds c = some g
  stage : ∀ c, Stage x c (holds c)
  alive : ∀ c, Alive (x.server.client c)
  queued : ∀ u ∈ n.queued, u < x.nextUrl

section Stages
variable {x x' : System} {c : ClientRef} {g : GroupRef} {o : Option GroupRef}

theorem Stage.has_iff (h : Stage x c o) : Has x c g ↔ o = some g := by
  have hrest : AtRest (x.retriever c) → x.retriever c ≠ .store g := by
    rintro (he | he | he | he) <;> rw [he] <;> exact RetrieverStep.noConfusion
  rw [Has]
  cases h with
  | idle hstep hgroup _ _ =>
      rw [hgroup]
      exact iff_of_false (fun h => h.elim (hrest hstep) nofun) nofun
  | taking hstep hgroup _ =>
      rw [hstep, hgroup]
      exact iff_of_false (fun h => h.elim RetrieverStep.noConfusion nofun) nofun
  | inHand hstep hgroup _ =>
      rw [hstep, hgroup, RetrieverStep.store.injEq, Option.some.injEq]
      exact or_iff_left nofun
  | stored hstep hgroup _ =>
      rw [hgroup]
      refine or_iff_right fun h => ?_
      rw [h] at hstep
      exact hstep.elim RetrieverStep.noConfusion RetrieverStep.noConfusion
  | awaiting hstep hgroup _ =>
      rw [hgroup]
      exact or_iff_right (hrest hstep)
  | visiting hstep hvisit =>
      rw [hvisit.group]
      exact or_iff_right (hrest hstep)

/-- What happens elsewhere does not matter. -/
theorem Stage.congr (h : Stage x c o) (hclient : x'.server.client c = x.server.client c)
    (hstep : x'.retriever c = x.retriever c)
    (hgroup : ∀ g ∈ o, x'.server.group g = x.server.group g)
    (hvisit : ∀ g ∈ o, ∀ u ∈ (x.server.group g).urlList,
      x'.server.visit u = x.server.visit u) : Stage x' c o := by
  cases h with
  | idle hrest hnone hawaiting hvisiting =>
      exact .idle (hstep ▸ hrest) (hclient ▸ hnone) (hclient ▸ hawaiting) (hclient ▸ hvisiting)
  | taking hrest hnone hwaiting =>
      exact .taking (hstep ▸ hrest) (hclient ▸ hnone) (hclient ▸ hwaiting)
  | inHand hrest hnone hwaiting =>
      exact .inHand (hstep ▸ hrest) (hclient ▸ hnone) (hclient ▸ hwaiting)
  | stored hrest hsome hwaiting =>
      exact .stored (hstep ▸ hrest) (hclient ▸ hsome) (hclient ▸ hwaiting)
  | awaiting hrest hsome hawaiting =>
      exact .awaiting (hstep ▸ hrest) (hclient ▸ hsome) (hclient ▸ hawaiting)
  | @visiting g v hrest hvisiting =>
      have hg := hgroup g rfl
      refine .visiting (v := v) (hstep ▸ hrest) ?_
      exact
        { state := by rw [hclient]; exact hvisiting.state
          group := by rw [hclient]; exact hvisiting.group
          machine := by rw [hclient]; exact hvisiting.machine
          told := by rw [hclient]; exact hvisiting.told
          algorithm := by rw [hg]; exact hvisiting.algorithm
          started := by rw [hg]; exact hvisiting.started
          codes := by
            intro u hu
            rw [hg] at hu
            rw [codes, hvisit g rfl u hu]
            exact hvisiting.codes u hu
          visiting := by
            intro u hu
            rw [hg] at hu
            rw [hvisit g rfl u hu]
            exact hvisiting.visiting u hu }

end Stages

/-- Clients that do not wait for groups yet are not touched. -/
def NewcomersKept (s s' : ServerState) : Prop := ∀ c,
  (s.client c).clientState = .connecting ∨ (s.client c).clientState = .connected →
    s'.client c = s.client c

section Searches
variable {bad : UrlRef → Bool} {x x' : System} {n n' : Search} {c : ClientRef} {g : GroupRef}
  {holds : ClientRef → Option GroupRef} {custody custody' rest : Custody} {b b' : Bisection UrlRef}
  {o : Option GroupRef}

/-- There is such a search. -/
def InSearch (bad : UrlRef → Bool) (x : System) (n : Search) : Prop :=
  ∃ holds custody b, Searching bad x n holds custody b

namespace Searching

/-- The groups of the others, and their URLs, are as before. -/
def Elsewhere (holds : ClientRef → Option GroupRef) (c : ClientRef) (s s' : ServerState) : Prop :=
  ∀ c' ≠ c, ∀ g ∈ holds c', s'.group g = s.group g ∧
    ∀ u ∈ (s.group g).urlList, s'.visit u = s.visit u

/-- Something happens to one client, and to the group that it has. -/
theorem at_client (h : Searching bad x n holds custody b) (c : ClientRef)
    (htracks : Tracks bad n' x'.server custody' b')
    (howned : ∀ c' g', (c', g') ∈ custody' ↔ Function.update holds c o c' = some g')
    (hstage : Stage x' c o) (halive : Alive (x'.server.client c))
    (hclients : ∀ c' ≠ c, x'.server.client c' = x.server.client c')
    (hretrievers : ∀ c' ≠ c, x'.retriever c' = x.retriever c')
    (helsewhere : Elsewhere holds c x.server x'.server)
    (hqueued : ∀ u ∈ n'.queued, u < x'.nextUrl) : InSearch bad x' n' := by
  refine ⟨Function.update holds c o, custody', b', htracks, howned, fun c' => ?_, fun c' => ?_,
    hqueued⟩
  · by_cases hc : c' = c
    · rw [hc, Function.update_self]
      exact hstage
    · rw [Function.update_of_ne hc]
      exact (h.stage c').congr (hclients c' hc) (hretrievers c' hc)
        (fun g hg => (helsewhere c' hc g hg).1) fun g hg => (helsewhere c' hc g hg).2
  · by_cases hc : c' = c
    · rw [hc]
      exact halive
    · rw [hclients c' hc]
      exact h.alive c'

/-- Nothing happens to any group. -/
theorem quiet (h : Searching bad x n holds custody b) (c : ClientRef)
    (hstore : x'.server.store = x.server.store) (hgroup : x'.server.group = x.server.group)
    (hnext : x'.server.nextGroup = x.server.nextGroup)
    (hurls : x'.server.urlQueue = x.server.urlQueue)
    (hqueue : x'.server.urlGroupQueue = x.server.urlGroupQueue)
    (hstage : Stage x' c (holds c)) (halive : Alive (x'.server.client c))
    (hclients : ∀ c' ≠ c, x'.server.client c' = x.server.client c')
    (hretrievers : ∀ c' ≠ c, x'.retriever c' = x.retriever c') (hurl : x'.nextUrl = x.nextUrl) :
    InSearch bad x' n := by
  refine h.at_client c (h.tracks.congr hstore hgroup hnext hurls hqueue) ?_ hstage halive hclients
    hretrievers ?_ ?_
  · rw [Function.update_eq_self]
    exact h.owned
  · intro c' _ g _
    exact ⟨congrFun hgroup g, fun u _ => by rw [ServerState.visit, hstore]; rfl⟩
  · rw [hurl]
    exact h.queued

/-- Nothing happens to any client or retriever either. -/
theorem still (h : Searching bad x n holds custody b)
    (hserver : ∃ vm, x'.server = { x.server with vm }) (hretrievers : x'.retriever = x.retriever)
    (hurl : x'.nextUrl = x.nextUrl) : InSearch bad x' n := by
  obtain ⟨vm, hserver⟩ := hserver
  have hclient : x'.server.client = x.server.client := by rw [hserver]
  have hgroup : x'.server.group = x.server.group := by rw [hserver]
  have hstore : x'.server.store = x.server.store := by rw [hserver]
  refine ⟨holds, custody, b, h.tracks.congr hstore hgroup ?_ ?_ ?_, h.owned,
    fun c => (h.stage c).congr ?_ ?_ ?_ ?_, ?_, ?_⟩
  · rw [hserver]
  · rw [hserver]
  · rw [hserver]
  · rw [hclient]
  · rw [hretrievers]
  · exact fun _ _ => by rw [hgroup]
  · exact fun _ _ _ _ => by rw [ServerState.visit, hstore]; rfl
  · rw [hclient]
    exact h.alive
  · rw [hurl]
    exact h.queued

section Held
variable (h : Searching bad x n holds custody b) (hc : holds c = some g)
include h hc

/-- The group that a client has may come first. -/
theorem exists_rest : ∃ rest, Tracks bad n x.server ((c, g) :: rest) b ∧
    (∀ c' g', (c', g') ∈ (c, g) :: rest ↔ holds c' = some g') ∧
    ∀ c' g', (c', g') ∈ rest ↔ Function.update holds c none c' = some g' := by
  obtain ⟨rest, hperm, htracks⟩ := h.tracks.exists_cons ((h.owned c g).mpr hc)
  have howned : ∀ c' g', (c', g') ∈ (c, g) :: rest ↔ holds c' = some g' :=
    fun c' g' => hperm.mem_iff.symm.trans (h.owned c' g')
  refine ⟨rest, htracks, howned, fun c' g' => ?_⟩
  by_cases hc' : c' = c
  · rw [hc', Function.update_self]
    refine iff_of_false (fun hmem => ?_) nofun
    exact (List.nodup_cons.mp htracks.clients).1 (List.mem_map.mpr ⟨(c, g'), hmem, rfl⟩)
  · rw [Function.update_of_ne hc', ← howned c' g', List.mem_cons, Prod.mk.injEq]
    exact (or_iff_right fun heq => hc' heq.1).symm

end Held

/-- What stays within a group does not reach the others. -/
theorem elsewhere {s' : ServerState} (htracks : Tracks bad n x.server ((c, g) :: rest) b)
    (howned : ∀ c' g', (c', g') ∈ (c, g) :: rest ↔ holds c' = some g')
    (hgroups : ∀ g' < x.server.nextGroup, g' ≠ g → s'.group g' = x.server.group g')
    (hothers : ∀ w ∉ (x.server.group g).urlList, s'.visit w = x.server.visit w) :
    Elsewhere holds c x.server s' := by
  intro c' hc' g' hg'
  have hmem : (c', g') ∈ rest := by
    rcases List.mem_cons.mp ((howned c' g').mpr hg') with heq | hmem
    · exact absurd (congrArg Prod.fst heq) hc'
    · exact hmem
  have hrefs := List.mem_append_right x.server.urlGroupQueue
    (List.mem_map_of_mem (f := Prod.snd) hmem)
  refine ⟨hgroups g' (htracks.created_rest g' hrefs) (htracks.ne_of_mem hrefs), fun u hu => ?_⟩
  exact hothers u fun hown => (htracks.apart hown).2 (c', g') hmem hu

end Searching

/-! ## Messages -/

theorem newcomersKept_of {s s' : ServerState}
    (hstate : (s.client c).clientState ≠ .connecting ∧ (s.client c).clientState ≠ .connected)
    (hclients : ∀ c' ≠ c, s'.client c' = s.client c') : NewcomersKept s s' := by
  intro c' hc'
  refine hclients c' ?_
  rintro rfl
  exact hc'.elim hstate.1 hstate.2

theorem Leaves.stage (h : Leaves (x.server.client c) (x'.server.client c))
    (hrest : AtRest (x'.retriever c)) : Stage x' c none := by
  refine .idle hrest h.group ?_ ?_ <;> rcases h with h | ⟨-, h⟩ <;> rw [h] <;>
    exact ClientState.noConfusion

theorem Leaves.alive {y y' : Client} (h : Leaves y y') (hy : Alive y)
    (hstate : y.clientState = .visiting) : Alive y' := by
  rcases h with rfl | ⟨-, h⟩
  · have hlink := hy.link (by rw [hstate]; exact ClientState.noConfusion)
    have hmachine := hy.machine (by rw [hstate]; exact ClientState.noConfusion)
      (by rw [hstate]; exact ClientState.noConfusion)
    exact ⟨fun _ => hlink, fun _ _ => hmachine⟩
  · exact ⟨fun hne => absurd h hne, fun hne => absurd h hne⟩

/-- What came of a message. -/
structure HandledWell (bad : UrlRef → Bool) (x : System) (n : Search) (server : ServerState) :
    Prop where
  search : ∀ x' : System, x'.server = server → x'.retriever = x.retriever →
    x'.nextUrl = x.nextUrl → InSearch bad x' n
  newcomers : NewcomersKept x.server server

namespace Searching
variable (h : Searching bad x n holds custody b) {element : Element}
include h

theorem handledWell_still : HandledWell bad x n x.server :=
  ⟨fun _ hserver hretrievers hurl => h.still ⟨_, hserver⟩ hretrievers hurl, fun _ _ => rfl⟩

/-- A client that is VISITING has a group, and visits it. -/
theorem inVisit (hstate : (x.server.client c).clientState = .visiting) :
    ∃ g v, holds c = some g ∧ AtRest (x.retriever c) ∧ InVisit x.server c g v := by
  have hstage := h.stage c
  revert hstage
  generalize holds c = o
  intro hstage
  cases hstage with
  | idle _ _ _ hnot => exact absurd hstate hnot
  | taking _ _ hwaiting => cases hwaiting.symm.trans hstate
  | inHand _ _ hwaiting => cases hwaiting.symm.trans hstate
  | stored _ _ hwaiting => cases hwaiting.symm.trans hstate
  | awaiting _ _ hawaiting => cases hawaiting.symm.trans hstate
  | @visiting g v hrest hvisit => exact ⟨g, v, rfl, hrest, hvisit⟩

/-- A client from which a start message is awaited has the group. -/
theorem inWait (hstate : (x.server.client c).clientState = .awaitingVisiting) :
    ∃ g, holds c = some g ∧ AtRest (x.retriever c) ∧
      (x.server.client c).visitingUrlGroup = some g := by
  have hstage := h.stage c
  revert hstage
  generalize holds c = o
  intro hstage
  cases hstage with
  | idle _ _ hnot _ => exact absurd hstate hnot
  | taking _ _ hwaiting => cases hwaiting.symm.trans hstate
  | inHand _ _ hwaiting => cases hwaiting.symm.trans hstate
  | stored _ _ hwaiting => cases hwaiting.symm.trans hstate
  | @awaiting g hrest hgroup _ => exact ⟨g, rfl, hrest, hgroup⟩
  | visiting _ hvisit => cases hvisit.state.symm.trans hstate

/-- The visit is over. -/
theorem concluded {v : VmRef} {server : ServerState} (hvisit : InVisit x.server c g v)
    (hrest : AtRest (x.retriever c)) (htracks : Tracks bad n x.server ((c, g) :: rest) b)
    (howned : ∀ c' g', (c', g') ∈ (c, g) :: rest ↔ holds c' = some g')
    (hleft : ∀ c' g', (c', g') ∈ rest ↔ Function.update holds c none c' = some g')
    (hconcluded : Concluded c g x.server server) (htracks' : ∃ b', Tracks bad n server rest b') :
    HandledWell bad x n server := by
  obtain ⟨b', htracks'⟩ := htracks'
  refine ⟨fun x' hserver hretrievers hurl => ?_, newcomersKept_of ?_ hconcluded.clients⟩
  · have hleaves : Leaves (x.server.client c) (x'.server.client c) := by
      rw [hserver]
      exact hconcluded.client
    refine h.at_client c (by rw [hserver]; exact htracks') hleft ?_ ?_ ?_ ?_ ?_ ?_
    · exact hleaves.stage (by rw [hretrievers]; exact hrest)
    · rw [hserver]
      exact hconcluded.client.alive (h.alive c) hvisit.state
    · rw [hserver]
      exact hconcluded.clients
    · exact fun _ _ => by rw [hretrievers]
    · rw [hserver]
      exact elsewhere htracks howned hconcluded.groups hconcluded.others
    · rw [hurl]
      exact h.queued
  · rw [hvisit.state]
    exact ⟨ClientState.noConfusion, ClientState.noConfusion⟩

/-- The visit goes on. -/
theorem goesOn {v : VmRef} {server : ServerState} (hholds : holds c = some g)
    (hrest : AtRest (x.retriever c)) (htracks : Tracks bad n x.server ((c, g) :: rest) b)
    (howned : ∀ c' g', (c', g') ∈ (c, g) :: rest ↔ holds c' = some g')
    (hstate : (x.server.client c).clientState ≠ .connecting ∧
      (x.server.client c).clientState ≠ .connected)
    (hvisit : InVisit server c g v) (halive : Alive (server.client c))
    (hclients : ∀ c' ≠ c, server.client c' = x.server.client c')
    (hgroups : ∀ g' ≠ g, server.group g' = x.server.group g')
    (hothers : ∀ w ∉ (x.server.group g).urlList, server.visit w = x.server.visit w)
    (htracks' : Tracks bad n server ((c, g) :: rest) b) : HandledWell bad x n server := by
  refine ⟨fun x' hserver hretrievers hurl => ?_, newcomersKept_of hstate hclients⟩
  have hsearch : Tracks bad n x'.server ((c, g) :: rest) b := by
    rw [hserver]
    exact htracks'
  have hsame : ∀ c' g', (c', g') ∈ (c, g) :: rest ↔
      Function.update holds c (some g) c' = some g' := by
    rw [← hholds, Function.update_eq_self]
    exact howned
  refine h.at_client c hsearch hsame ?_ ?_ ?_ ?_ ?_ ?_
  · exact .visiting (by rw [hretrievers]; exact hrest) (by rw [hserver]; exact hvisit)
  · rw [hserver]
    exact halive
  · rw [hserver]
    exact hclients
  · exact fun _ _ => by rw [hretrievers]
  · rw [hserver]
    exact elsewhere htracks howned (fun g' _ hne => hgroups g' hne) hothers
  · rw [hurl]
    exact h.queued

/-- **An event.**  A group of several URLs is cut in two; a single URL is noted to be bad. -/
theorem event (origin : Nat) (hhonest : HonestEvent bad x.server c element) :
    ∃ server, (Client.parseEvent c element origin).run x.server = (.ok (), server) ∧
      HandledWell bad x n server := by
  by_cases hstate : (x.server.client c).clientState = .visiting
  · obtain ⟨g, hg, ⟨u, hu, hbad⟩, htime⟩ := hhonest hstate
    obtain ⟨g', v, hholds, hrest, hvisit⟩ := h.inVisit hstate
    obtain rfl : g' = g := Option.some.inj (hvisit.group.symm.trans hg)
    obtain ⟨rest, htracks, howned, hleft⟩ := h.exists_rest hholds
    by_cases hlong : 1 < (x.server.group g').urlList.length
    · obtain ⟨date, hdate⟩ := Option.isSome_iff_exists.mp htime
      obtain ⟨time, htime, hdate⟩ := Option.bind_eq_some_iff.mp hdate
      -- a malicious group would be a single URL
      have hbenign : (x.server.group g').malicious = false := by
        refine Bool.eq_false_iff.mpr fun hmalicious => ?_
        obtain ⟨w, hone, -⟩ := htracks.guilty _ List.mem_cons_self hmalicious
        rw [hone] at hlong
        exact Nat.lt_irrefl 1 hlong
      obtain ⟨server, hrun, hconcluded, hhalved, -, hverdicts, hlogged⟩ :=
        run_event_group origin hvisit htime hdate hlong htracks.list_nodup
          fun w hw => htracks.verdicts_none hbenign hw
      exact ⟨server, hrun, h.concluded hvisit hrest htracks howned hleft hconcluded
        (htracks.cut hlong ⟨u, hu, hbad⟩ hconcluded hhalved hverdicts hlogged)⟩
    · have hone : (x.server.group g').urlList = [u] := by
        cases hlist : (x.server.group g').urlList with
        | nil =>
            rw [hlist] at hu
            exact absurd hu List.not_mem_nil
        | cons w l =>
            cases l with
            | nil =>
                rw [hlist] at hu
                rw [List.mem_singleton.mp hu]
            | cons w' l =>
                rw [hlist] at hlong
                exact absurd (Nat.succ_lt_succ (Nat.succ_pos _)) hlong
      obtain ⟨server, hrun, hnoted⟩ := run_event_single element origin hvisit hone
      have hclient : server.client = x.server.client := by rw [hnoted.rest]
      have hvisit' : InVisit server c g' v :=
        { state := by rw [hclient]; exact hvisit.state
          group := by rw [hclient]; exact hvisit.group
          machine := by rw [hclient]; exact hvisit.machine
          told := by rw [hclient]; exact hvisit.told
          algorithm := by rw [hnoted.group]; exact hvisit.algorithm
          started := by rw [hnoted.group]; exact hvisit.started
          codes := by
            intro w hw
            rw [hnoted.group] at hw
            rw [hnoted.codes]
            exact hvisit.codes w hw
          visiting := by
            intro w hw
            rw [hnoted.group] at hw
            rw [hnoted.urlState, hnoted.started]
            exact hvisit.visiting w hw }
      refine ⟨server, hrun, h.goesOn hholds hrest htracks howned ?_ hvisit' ?_ ?_ hnoted.groups
        hnoted.others (htracks.noted hnoted hone hbad)⟩
      · rw [hstate]
        exact ⟨ClientState.noConfusion, ClientState.noConfusion⟩
      · rw [hclient]
        exact h.alive c
      · exact fun _ _ => by rw [hclient]
  · have hrun : (Client.parseEvent c element origin).run x.server = (.ok (), x.server) := by
      simp only [Client.parseEvent, Exec.run_gets_bind, hstate, if_false, Exec.run_pure]
    exact ⟨x.server, hrun, h.handledWell_still⟩

/-- **A start message.** -/
theorem start (hstate : (x.server.client c).clientState = .awaitingVisiting)
    (hg : (x.server.client c).visitingUrlGroup = some g) (hstart : GoodStart x.server g element) :
    ∃ server, (Client.parseVisitEvent c element).run x.server = (.ok (), server) ∧
      HandledWell bad x n server := by
  obtain ⟨g', hholds, hrest, hg'⟩ := h.inWait hstate
  obtain rfl : g' = g := Option.some.inj (hg'.symm.trans hg)
  obtain ⟨rest, htracks, howned, -⟩ := h.exists_rest hholds
  have hnot : (x.server.client c).clientState ≠ .connecting ∧
      (x.server.client c).clientState ≠ .connected := by
    rw [hstate]
    exact ⟨ClientState.noConfusion, ClientState.noConfusion⟩
  have hlives : (x.server.client c).clientState ≠ .disconnected := by
    rw [hstate]
    exact ClientState.noConfusion
  obtain ⟨v, hv⟩ := Option.isSome_iff_exists.mp ((h.alive c).machine hlives hnot.1)
  obtain ⟨server, hrun, hstarted⟩ := run_start hg hv hstart
  obtain ⟨date, hgroup⟩ := hstarted.group
  have hvisit : InVisit server c g' v :=
    { state := by rw [hstarted.client]
      group := by rw [hstarted.client]; exact hg
      machine := by rw [hstarted.client]; exact hv
      told := by rw [hstarted.client]
      algorithm := by rw [hgroup]
      started := by rw [hgroup]; rfl
      codes := by
        intro u _
        rw [hstarted.codes]
        exact htracks.codes u
      visiting := by
        intro u hu
        rw [hgroup] at hu
        exact hstarted.visiting u hu }
  have halive : Alive (server.client c) := by
    rw [hstarted.client]
    have hlink := (h.alive c).link hlives
    exact ⟨fun _ => hlink, fun _ _ => by rw [hv]; rfl⟩
  exact ⟨server, hrun, h.goesOn hholds hrest htracks howned hnot hvisit halive hstarted.clients
    hstarted.groups hstarted.others (htracks.started hstarted)⟩

/-- **A finish message.**  The group is judged. -/
theorem finish (hstate : (x.server.client c).clientState = .visiting)
    (hg : (x.server.client c).visitingUrlGroup = some g) (hfinish : GoodFinish x.server g element)
    (hnoted : HasBad bad x.server g → (x.server.group g).malicious = true)
    (hsaid : element.get "malicious" = some "1" → HasBad bad x.server g) :
    ∃ server, (Client.parseVisitEvent c element).run x.server = (.ok (), server) ∧
      HandledWell bad x n server := by
  obtain ⟨g', v, hholds, hrest, hvisit⟩ := h.inVisit hstate
  obtain rfl : g' = g := Option.some.inj (hvisit.group.symm.trans hg)
  obtain ⟨rest, htracks, howned, hleft⟩ := h.exists_rest hholds
  have hsingle : suspected x.server g' element = true →
      ∃ u, (x.server.group g').urlList = [u] ∧ bad u = true := by
    intro hsuspected
    refine htracks.guilty _ List.mem_cons_self ?_
    rcases Bool.or_eq_true_iff.mp hsuspected with hmalicious | hsays
    · exact hmalicious
    · exact hnoted (hsaid (eq_of_beq hsays))
  have hright : ∀ u ∈ (x.server.group g').urlList,
      suspected x.server g' element = true ↔ bad u = true := by
    intro u hu
    constructor
    · intro hsuspected
      obtain ⟨w, hone, hbad⟩ := hsingle hsuspected
      rw [hone] at hu
      rwa [List.mem_singleton.mp hu]
    · intro hbad
      rw [suspected, hnoted ⟨u, hu, hbad⟩, Bool.true_or]
  have hone : suspected x.server g' element = true →
      (x.server.group g').urlList.length = 1 := by
    intro hsuspected
    obtain ⟨u, hone, -⟩ := hsingle hsuspected
    rw [hone, List.length_singleton]
  obtain ⟨server, hrun, hconcluded, hjudged⟩ := run_finish hvisit hfinish htracks.list_nodup hone
  refine ⟨server, hrun, h.concluded hvisit hrest htracks howned hleft hconcluded
    (htracks.judge (fun hsuspected => ?_) hright hconcluded hjudged)⟩
  obtain ⟨u, hu, -⟩ := hsingle hsuspected
  exact ⟨u, hu⟩

theorem visit (hhonest : HonestVisit bad x.server c element) :
    ∃ server, (Client.parseVisitEvent c element).run x.server = (.ok (), server) ∧
      HandledWell bad x n server := by
  obtain ⟨g, hg, ⟨hstate, hstart⟩ | ⟨hstate, hfinish, hnoted, hsaid⟩⟩ := hhonest
  · exact h.start hstate hg hstart
  · exact h.finish hstate hg hfinish hnoted hsaid

end Searching

/-! ## Retrievers -/

/-- A retriever that is at rest goes round its loop, or finds that the client waits. -/
theorem retrieve_atRest {step : RetrieverStep} (hrest : AtRest step) (c : ClientRef)
    (s : ServerState) : ∃ next, (Client.retrieve c step).run s = (.ok next, s) ∧
      (AtRest next ∨ next = .take ∧ (s.client c).clientState = .waiting) ∧
        (step = .stopped → next = .stopped) := by
  rcases hrest with rfl | rfl | rfl | rfl
  · by_cases hlost : (s.client c).clientState = .disconnected
    · exact ⟨.stopped, by simp [Client.retrieve, hlost], .inl (.inr (.inr (.inr rfl))),
        fun _ => rfl⟩
    · exact ⟨.test, by simp [Client.retrieve, hlost], .inl (.inr (.inl rfl)),
        fun he => RetrieverStep.noConfusion he⟩
  · by_cases hwaiting : (s.client c).clientState = .waiting
    · exact ⟨.take, by simp [Client.retrieve, hwaiting], .inr ⟨rfl, hwaiting⟩,
        fun he => RetrieverStep.noConfusion he⟩
    · exact ⟨.wait, by simp [Client.retrieve, hwaiting], .inl (.inr (.inr (.inl rfl))),
        fun he => RetrieverStep.noConfusion he⟩
  · exact ⟨.loop, rfl, .inl (.inl rfl), fun he => RetrieverStep.noConfusion he⟩
  · exact ⟨.stopped, rfl, .inl (.inr (.inr (.inr rfl))), fun _ => rfl⟩

theorem run_take_cons {s : ServerState} {queue : List GroupRef}
    (hqueue : s.urlGroupQueue = g :: queue) (c : ClientRef) :
    (Client.retrieve c .take).run s = (.ok (.store g), { s with urlGroupQueue := queue }) := by
  rw [Client.retrieve, UrlGroupsController.takeUrlGroup]
  simp only [bind_assoc, Exec.run_gets_bind, hqueue]
  rfl

theorem run_take_nil {s : ServerState} (hqueue : s.urlGroupQueue = []) (c : ClientRef) :
    ∃ size, (Client.retrieve c .take).run s =
      (UrlGroup.new (s.urlQueue.take size) >>= fun g => pure (RetrieverStep.store g)).run
        { s with urlQueue := s.urlQueue.drop size } := by
  rw [Client.retrieve, UrlGroupsController.takeUrlGroup]
  simp only [bind_assoc, Exec.run_gets_bind, hqueue, Exec.run_modify_bind]
  exact ⟨_, rfl⟩

/-- A step of a retriever. -/
structure Retrieved (bad : UrlRef → Bool) (x : System) (n : Search) (c : ClientRef) (x' : System) :
    Prop where
  search : InSearch bad x' (n.record x (.retrieve c) x')
  rest : x' = { x with server := x'.server, retriever := x'.retriever }
  newcomers : NewcomersKept x.server x'.server
  others : ∀ c' ≠ c, x'.retriever c' = x.retriever c'
  stopped : x.retriever c = .stopped → x'.retriever c = .stopped

theorem record_retrieve (hnot : x.retriever c ≠ .take) :
    n.record x (.retrieve c) x' = n := by
  rw [Search.record]
  split
  · next htake _ => exact absurd htake hnot
  · rfl

/-- What the retriever of a client comes to. -/
theorem of_next_retrieve {step next : RetrieverStep} {server : ServerState}
    (hstep : x.retriever c = step)
    (hrun : (Client.retrieve c step).run x.server = (.ok next, server))
    (hnext : x.next (.retrieve c) = some x') :
    x' = { x with server, retriever := Function.update x.retriever c next } := by
  obtain ⟨⟨next', server'⟩, hretrieve, rfl⟩ := Option.map_eq_some_iff.mp hnext
  rw [Client.retrieveStep, hstep] at hretrieve
  split at hretrieve
  · cases hretrieve
  · rw [attempt, hrun] at hretrieve
    obtain ⟨rfl, rfl⟩ := Prod.mk.inj (Option.some.inj hretrieve)
    rfl

namespace Searching
variable (h : Searching bad x n holds custody b)
include h

/-- The retriever goes on, and changes at most its client. -/
theorem goes {next : RetrieverStep} {f : Client → Client} (hnot : x.retriever c ≠ .take)
    (hstopped : x.retriever c = .stopped → next = .stopped)
    (hx' : x' = { x with server := x.server.setClient c f
                         retriever := Function.update x.retriever c next })
    (hstage : Stage x' c (holds c)) (halive : Alive (f (x.server.client c)))
    (hnewcomer : (x.server.client c).clientState = .connecting ∨
      (x.server.client c).clientState = .connected →
        f (x.server.client c) = x.server.client c) : Retrieved bad x n c x' := by
  have hclients : ∀ c' ≠ c, x'.server.client c' = x.server.client c' := by
    intro c' hc'
    rw [hx']
    exact Function.update_of_ne hc' ..
  have hself : x'.server.client c = f (x.server.client c) := by
    rw [hx']
    exact ServerState.client_setClient ..
  have hretrievers : ∀ c' ≠ c, x'.retriever c' = x.retriever c' := by
    intro c' hc'
    rw [hx']
    exact Function.update_of_ne hc' ..
  refine
    { search := ?_, rest := by rw [hx'], newcomers := fun c' hc' => ?_, others := hretrievers
      stopped := fun hstop => ?_ }
  · rw [record_retrieve hnot]
    refine h.quiet c ?_ ?_ ?_ ?_ ?_ hstage (by rw [hself]; exact halive) hclients hretrievers ?_ <;>
      rw [hx'] <;> rfl
  · by_cases heq : c' = c
    · rw [heq] at hc' ⊢
      rw [hself]
      exact hnewcomer hc'
    · exact hclients c' heq
  · rw [hx', ← hstopped hstop]
    exact Function.update_self ..

/-- It changes nothing. -/
theorem goesRound {next : RetrieverStep} (hnot : x.retriever c ≠ .take)
    (hstopped : x.retriever c = .stopped → next = .stopped)
    (hx' : x' = { x with retriever := Function.update x.retriever c next })
    (hstage : Stage x' c (holds c)) : Retrieved bad x n c x' := by
  have hsame : x.server.setClient c id = x.server :=
    congrArg (fun client => { x.server with client }) (Function.update_eq_self c x.server.client)
  exact h.goes (f := id) hnot hstopped (by rw [hx', hsame]) hstage (h.alive c) fun _ => rfl

theorem rests (hrest : AtRest (x.retriever c)) (hnext : x.next (.retrieve c) = some x') :
    Retrieved bad x n c x' := by
  have hnot : x.retriever c ≠ .take := by
    rcases hrest with he | he | he | he <;> rw [he] <;> exact RetrieverStep.noConfusion
  obtain ⟨next, hrun, hafter, hstopped⟩ := retrieve_atRest hrest c x.server
  have hx' := of_next_retrieve rfl hrun hnext
  have hself : x'.retriever c = next := by
    rw [hx']
    exact Function.update_self ..
  have hserver : x'.server = x.server := by rw [hx']
  refine h.goesRound hnot hstopped hx' ?_
  have hstage := h.stage c
  revert hstage
  generalize holds c = o
  intro hstage
  have hbusy : (x.server.client c).clientState ≠ .waiting → AtRest (x'.retriever c) := by
    intro hne
    rw [hself]
    exact hafter.resolve_right fun htake => hne htake.2
  cases hstage with
  | idle _ hnone hawaiting hvisiting =>
      rcases hafter with hrests | ⟨rfl, hwaiting⟩
      · exact .idle (hself ▸ hrests) (hserver ▸ hnone) (hserver ▸ hawaiting) (hserver ▸ hvisiting)
      · exact .taking hself (hserver ▸ hnone) (hserver ▸ hwaiting)
  | taking htake _ _ => exact absurd htake hnot
  | inHand hstep _ _ =>
      rw [hstep] at hrest
      rcases hrest with he | he | he | he <;> cases he
  | stored hstep _ _ =>
      rcases hstep with hstep | hstep <;> rw [hstep] at hrest <;>
        rcases hrest with he | he | he | he <;> cases he
  | awaiting _ hsome hawaiting =>
      refine .awaiting (hbusy ?_) (hserver ▸ hsome) (hserver ▸ hawaiting)
      rw [hawaiting]
      exact ClientState.noConfusion
  | @visiting g v _ hvisit =>
      refine .visiting (v := v) (hbusy ?_) (hserver ▸ hvisit)
      rw [hvisit.state]
      exact ClientState.noConfusion

/-- The retriever has taken a group. -/
theorem took {server : ServerState} (hholds : holds c = none)
    (hnone : (x.server.client c).visitingUrlGroup = none)
    (hwaiting : (x.server.client c).clientState = .waiting)
    (hx' : x' = { x with server, retriever := Function.update x.retriever c (.store g) })
    (hclient : server.client = x.server.client) (hstore : server.store = x.server.store)
    (hgroups : ∀ g' < x.server.nextGroup, server.group g' = x.server.group g')
    (hqueued : n'.queued = n.queued)
    (htracks : ∃ b', Tracks bad n' server ((c, g) :: custody) b') : InSearch bad x' n' := by
  obtain ⟨b', htracks⟩ := htracks
  have howned : ∀ c' g', (c', g') ∈ (c, g) :: custody ↔
      Function.update holds c (some g) c' = some g' := by
    intro c' g'
    rw [List.mem_cons, Prod.mk.injEq, h.owned c' g']
    by_cases hc' : c' = c
    · rw [hc', Function.update_self, hholds, Option.some.injEq, eq_comm (a := g')]
      exact ⟨fun hor => hor.elim And.right nofun, fun he => .inl ⟨rfl, he⟩⟩
    · rw [Function.update_of_ne hc']
      exact or_iff_right fun heq => hc' heq.1
  subst hx'
  refine h.at_client c htracks howned (.inHand (Function.update_self ..) ?_ ?_) ?_ ?_ ?_ ?_ ?_
  · exact hclient ▸ hnone
  · exact hclient ▸ hwaiting
  · exact hclient ▸ h.alive c
  · exact fun c' _ => congrFun hclient c'
  · exact fun c' hc' => Function.update_of_ne hc' ..
  · intro c' _ g' hg'
    have hmem := List.mem_append_right x.server.urlGroupQueue
      (List.mem_map_of_mem (f := Prod.snd) ((h.owned c' g').mpr hg'))
    exact ⟨hgroups g' (h.tracks.created g' hmem),
      fun u _ => by rw [ServerState.visit, hstore]; rfl⟩
  · rw [hqueued]
    exact h.queued

/-- **A retriever takes a group.**  Without URLs that can be taken it throws. -/
theorem takes (hstep : x.retriever c = .take) (hholds : holds c = none)
    (hnone : (x.server.client c).visitingUrlGroup = none)
    (hwaiting : (x.server.client c).clientState = .waiting)
    (hnext : x.next (.retrieve c) = some x') : Retrieved bad x n c x' := by
  have hfree : c ∉ custody.map Prod.fst := by
    intro hmem
    obtain ⟨⟨c', g'⟩, hpair, heq⟩ := List.mem_map.mp hmem
    have hsome : holds c' = some g' := (h.owned c' g').mp hpair
    rw [show c' = c from heq] at hsome
    cases hsome.symm.trans hholds
  have hcounted : ∀ g server, x' = { x with
        server, retriever := Function.update x.retriever c (.store g) } →
      n.record x (.retrieve c) x' =
        if x.server.urlGroupQueue = [] then
          { n with visits := n.visits + 1, drawn := n.drawn + 1 }
        else { n with visits := n.visits + 1 } := by
    intro g server hx'
    have hself : x'.retriever c = .store g := by
      rw [hx']
      exact Function.update_self ..
    simp only [Search.record, hstep, hself]
  have hothers : ∀ (server : ServerState) (step : RetrieverStep), server.client = x.server.client →
      x' = { x with server, retriever := Function.update x.retriever c step } →
        InSearch bad x' (n.record x (.retrieve c) x') → Retrieved bad x n c x' := by
    intro server step hclient hx' hsearch
    refine
      { search := hsearch, rest := by rw [hx'], newcomers := fun c' _ => ?_
        others := fun c' hc' => ?_, stopped := fun hstop => ?_ }
    · rw [hx']
      exact congrFun hclient c'
    · rw [hx']
      exact Function.update_of_ne hc' ..
    · cases hstop.symm.trans hstep
  cases hqueue : x.server.urlGroupQueue with
  | cons g queue =>
      have hrun := run_take_cons hqueue c
      have hx' := of_next_retrieve hstep hrun hnext
      refine hothers _ _ (by rfl) hx' ?_
      rw [hcounted _ _ hx', hqueue, if_neg (List.cons_ne_nil _ _)]
      exact h.took hholds hnone hwaiting hx' rfl rfl (fun _ _ => rfl) rfl
        (h.tracks.pop hqueue hfree)
  | nil =>
      obtain ⟨size, hbegin⟩ := run_take_nil hqueue c
      by_cases hurls : x.server.urlQueue.take size = []
      · have hdrop : x.server.urlQueue.drop size = x.server.urlQueue := by
          rcases List.take_eq_nil_iff.mp hurls with hsize | hempty
          · rw [hsize, List.drop_zero]
          · rw [hempty, List.drop_nil]
        rw [hurls, hdrop] at hbegin
        have hrun : (Client.retrieve c .take).run x.server =
            (.error .invalidParameter, x.server) := hbegin
        have hx' : x' = { x with retriever := Function.update x.retriever c .stopped } := by
          obtain ⟨⟨next, server⟩, hretrieve, rfl⟩ := Option.map_eq_some_iff.mp hnext
          rw [Client.retrieveStep, hstep] at hretrieve
          split at hretrieve
          · cases hretrieve
          · rw [attempt, hrun] at hretrieve
            obtain ⟨rfl, rfl⟩ := Prod.mk.inj (Option.some.inj hretrieve)
            rfl
        have hself : x'.retriever c = .stopped := by
          rw [hx']
          exact Function.update_self ..
        refine hothers x.server .stopped rfl hx' ?_
        have hrecord : n.record x (.retrieve c) x' = n := by
          simp only [Search.record, hstep, hself]
        rw [hrecord]
        refine h.quiet c ?_ ?_ ?_ ?_ ?_ ?_ ?_ ?_ (fun c' hc' => ?_) ?_
        · rw [hx']
        · rw [hx']
        · rw [hx']
        · rw [hx']
        · rw [hx']
        · rw [hholds]
          have hserver : x'.server = x.server := by rw [hx']
          refine .idle (hself ▸ .inr (.inr (.inr rfl))) (hserver ▸ hnone) ?_ ?_ <;>
            rw [hserver, hwaiting] <;> exact ClientState.noConfusion
        · rw [hx']
          exact h.alive c
        · exact fun c' _ => by rw [hx']
        · rw [hx']
          exact Function.update_of_ne hc' ..
        · rw [hx']
      · obtain ⟨group, hnew, hlist, hbenign⟩ := run_new_group hurls
          { x.server with urlQueue := x.server.urlQueue.drop size }
        have hrun := hbegin.trans (Exec.run_bind_ok hnew)
        have hx' := of_next_retrieve hstep hrun hnext
        refine hothers _ _ (by rfl) hx' ?_
        rw [hcounted _ _ hx', if_pos hqueue]
        refine h.took hholds hnone hwaiting hx' rfl rfl (fun g' hg' => ?_) rfl
          (h.tracks.draw (List.take_append_drop size _).symm hurls hlist hbenign hfree)
        exact Function.update_of_ne (Nat.ne_of_lt hg') ..

theorem stores (hstep : x.retriever c = .store g) (hholds : holds c = some g)
    (hwaiting : (x.server.client c).clientState = .waiting)
    (hnext : x.next (.retrieve c) = some x') : Retrieved bad x n c x' := by
  have hrun : (Client.retrieve c (.store g)).run x.server = (.ok .send,
      x.server.setClient c fun y => { y with visitingUrlGroup := some g }) := rfl
  have hx' := of_next_retrieve hstep hrun hnext
  have hself : x'.server.client c = { x.server.client c with visitingUrlGroup := some g } := by
    rw [hx']
    exact ServerState.client_setClient c (fun y => { y with visitingUrlGroup := some g }) x.server
  refine h.goes (by rw [hstep]; exact RetrieverStep.noConfusion) (fun hstop => ?_) hx' ?_ ?_ ?_
  · cases hstop.symm.trans hstep
  · rw [hholds]
    refine .stored (.inl ?_) (by rw [hself]) (by rw [hself]; exact hwaiting)
    rw [hx']
    exact Function.update_self ..
  · exact ⟨(h.alive c).link, (h.alive c).machine⟩
  · rw [hwaiting]
    exact fun hnew => hnew.elim ClientState.noConfusion ClientState.noConfusion

/-- **A group is sent, and its visit awaited.** -/
theorem sends (hstep : x.retriever c = .send ∨ x.retriever c = .await) (hholds : holds c = some g)
    (hg : (x.server.client c).visitingUrlGroup = some g)
    (hwaiting : (x.server.client c).clientState = .waiting)
    (hnext : x.next (.retrieve c) = some x') : Retrieved bad x n c x' := by
  have hlives : (x.server.client c).clientState ≠ .disconnected := by
    rw [hwaiting]
    exact ClientState.noConfusion
  obtain ⟨v, hv⟩ := Option.isSome_iff_exists.mp
    ((h.alive c).machine hlives (by rw [hwaiting]; exact ClientState.noConfusion))
  rcases hstep with hstep | hstep
  · obtain ⟨hup, hopen⟩ := (h.alive c).link hlives
    have hrun : (Client.retrieve c .send).run x.server = (.ok .await, x.server) := by
      simp [Client.retrieve, Client.sendVisitingUrlGroup, Client.send, Client.sendIn, hg, hlives,
        hup, hopen, hv]
    have hx' := of_next_retrieve hstep hrun hnext
    have hserver : x'.server = x.server := by rw [hx']
    refine h.goesRound (by rw [hstep]; exact RetrieverStep.noConfusion) (fun hstop => ?_) hx' ?_
    · cases hstop.symm.trans hstep
    · rw [hholds]
      refine .stored (.inr ?_) (hserver ▸ hg) (hserver ▸ hwaiting)
      rw [hx']
      exact Function.update_self ..
  · have hrun : (Client.retrieve c .await).run x.server = (.ok .wait,
        x.server.setClient c fun y => { y with clientState := .awaitingVisiting }) := rfl
    have hx' := of_next_retrieve hstep hrun hnext
    have hself : x'.server.client c =
        { x.server.client c with clientState := .awaitingVisiting } := by
      rw [hx']
      exact ServerState.client_setClient c (fun y => { y with clientState := .awaitingVisiting })
        x.server
    refine h.goes (by rw [hstep]; exact RetrieverStep.noConfusion) (fun hstop => ?_) hx' ?_ ?_ ?_
    · cases hstop.symm.trans hstep
    · rw [hholds]
      refine .awaiting (.inr (.inr (.inl ?_))) (by rw [hself]; exact hg) (by rw [hself])
      rw [hx']
      exact Function.update_self ..
    · exact ⟨fun _ => (h.alive c).link hlives, fun _ _ => by rw [hv]; rfl⟩
    · rw [hwaiting]
      exact fun hnew => hnew.elim ClientState.noConfusion ClientState.noConfusion

/-- **A step of a retriever.** -/
theorem retrieve (hnext : x.next (.retrieve c) = some x') : Retrieved bad x n c x' := by
  obtain ⟨o, ho⟩ : ∃ o, holds c = o := ⟨_, rfl⟩
  have hstage := h.stage c
  rw [ho] at hstage
  cases hstage with
  | idle hrest _ _ _ => exact h.rests hrest hnext
  | taking hstep hnone hwaiting => exact h.takes hstep ho hnone hwaiting hnext
  | inHand hstep _ hwaiting => exact h.stores hstep ho hwaiting hnext
  | stored hstep hg hwaiting => exact h.sends hstep ho hg hwaiting hnext
  | awaiting hrest _ _ => exact h.rests hrest hnext
  | visiting hrest _ => exact h.rests hrest hnext

end Searching

/-! ## Connections -/

section Connections
variable {k : ConnectionRef} {next : EventStep} {server : ServerState}

theorem Connections.congr (h : Connections x)
    (hclients : ∀ k, (x'.controller k).client = (x.controller k).client)
    (hsteps : ∀ k, (x'.controller k).step = .connected → (x.controller k).step = .connected)
    (hnext : x'.nextClient = x.nextClient)
    (hkept : ∀ c, (x.nextClient ≤ c ∨ ∃ k, (x.controller k).client = some c ∧
      (x'.controller k).step = .connected) → x'.server.client c = x.server.client c)
    (hstopped : ∀ c, x.nextClient ≤ c → x.retriever c = .stopped → x'.retriever c = .stopped) :
    Connections x' where
  known k c hc := by
    rw [hclients] at hc
    rw [hnext]
    exact h.known k c hc
  apart k k' c hc hc' := by
    rw [hclients] at hc hc'
    exact h.apart k k' c hc hc'
  connected k c hc hstep := by
    rw [hclients] at hc
    rw [hkept c (.inr ⟨k, hc, hstep⟩)]
    exact h.connected k c hc (hsteps k hstep)
  fresh c hc := by
    rw [hnext] at hc
    obtain ⟨hclient, hretriever⟩ := h.fresh c hc
    exact ⟨(hkept c (.inl hc)).trans hclient, hstopped c hc hretriever⟩

/-- Where newcomers are not touched, nothing matters that is done. -/
theorem Connections.kept (h : Connections x)
    (hclients : ∀ k, (x'.controller k).client = (x.controller k).client)
    (hsteps : ∀ k, (x'.controller k).step = .connected → (x.controller k).step = .connected)
    (hnext : x'.nextClient = x.nextClient) (hkept : NewcomersKept x.server x'.server)
    (hstopped : ∀ c, x.nextClient ≤ c → x.retriever c = .stopped → x'.retriever c = .stopped) :
    Connections x' := by
  refine h.congr hclients hsteps hnext (fun c hc => hkept c ?_) hstopped
  rcases hc with hc | ⟨k, hc, hstep⟩
  · left
    rw [(h.fresh c hc).1]
  · exact .inr (h.connected k c hc (hsteps k hstep))

/-- The connection as the event thread leaves it. -/
theorem controller_setController (k : ConnectionRef) (next : EventStep) (x : System) :
    ∀ k', ((x.setController k fun t => { t with step := next }).controller k').client =
        (x.controller k').client ∧
      ((x.setController k fun t => { t with step := next }).controller k').step =
        if k' = k then next else (x.controller k').step := by
  intro k'
  have heq : (x.setController k fun t => { t with step := next }).controller k' =
      if k' = k then { x.controller k with step := next } else x.controller k' :=
    Function.update_apply ..
  rw [heq]
  split
  · next hk => exact ⟨by rw [hk], rfl⟩
  · exact ⟨rfl, rfl⟩

/-- The groups and the clients are in order. -/
structure InOrder (bad : UrlRef → Bool) (x : System) (n : Search) : Prop where
  search : InSearch bad x n
  connections : Connections x

theorem eventStep_ok {y : Action Unit} (hrun : y.run x.server = (.ok (), server)) :
    x.eventStep k y next =
      some ({ x with server }.setController k fun t => { t with step := next }) := by
  simp [System.eventStep, attempt, hrun]

/-- A line was handled. -/
theorem inOrder_message {y : Action Unit} (h : Connections x) (hnot : next ≠ .connected)
    (hrun : y.run x.server = (.ok (), server)) (hwell : HandledWell bad x n server)
    (hnext : x.eventStep k y next = some x') : InOrder bad x' n := by
  obtain rfl := Option.some.inj ((eventStep_ok hrun).symm.trans hnext)
  have hcontroller := controller_setController k next { x with server }
  refine ⟨hwell.search _ rfl rfl rfl, h.kept (fun k' => (hcontroller k').1) (fun k' hstep => ?_) rfl
    hwell.newcomers fun _ _ hstop => hstop⟩
  rw [(hcontroller k').2] at hstep
  split at hstep
  · exact absurd hstep hnot
  · exact hstep

/-- **A client connects.** -/
theorem inOrder_connect {v : VmRef} (h : InOrder bad x n)
    (hnext : x.connect k v true = some x') : InOrder bad x' n := by
  obtain ⟨⟨holds, custody, b, hsearch⟩, hconnections⟩ := h
  let c := x.nextClient
  obtain ⟨hfresh, hstopped⟩ := hconnections.fresh c (Nat.le_refl _)
  have hholds : holds c = none := by
    cases ho : holds c with
    | none => rfl
    | some g =>
        rcases (hsearch.stage c).has_iff.mpr ho with hstep | hg
        · cases hstep.symm.trans hstopped
        · rw [hfresh] at hg
          cases hg
  -- the server with the new client
  let s := x.server.setClient c fun _ => { linkUp := true }
  have hnew : s.client c = { linkUp := true } :=
    ServerState.client_setClient c (fun _ => { linkUp := true }) x.server
  have hrun : (Client.connect c v).run s = (.ok (), Client.connected c v s) :=
    (Client.run_connect hnew).trans (congrArg (Prod.mk _) (if_pos rfl))
  have hself : (Client.connected c v s).client c =
      { linkUp := true, virtualMachine := some v, clientState := .connected } := by
    have hconnected : (Client.connected c v s).client c =
        { s.client c with virtualMachine := some v, clientState := .connected } :=
      Function.update_self ..
    rw [hconnected, hnew]
  have hothers : ∀ c' ≠ c, (Client.connected c v s).client c' = x.server.client c' :=
    fun c' hc' => (Function.update_of_ne hc' ..).trans (Function.update_of_ne hc' ..)
  let y : System := { x with
    server := s, nextClient := c + 1
    retriever := Function.update x.retriever c .loop
    controller := Function.update x.controller k { x.controller k with client := some c } }
  have hstep : x.connect k v true = y.eventStep k (Client.connect c v) .connected := rfl
  rw [hstep, eventStep_ok hrun] at hnext
  obtain rfl := Option.some.inj hnext
  have hcontroller := controller_setController k .connected
    { y with server := Client.connected c v s }
  have hclientOf : ∀ k', (y.controller k').client =
      if k' = k then some c else (x.controller k').client := by
    intro k'
    have heq : y.controller k' =
        if k' = k then { x.controller k with client := some c } else x.controller k' :=
      Function.update_apply ..
    rw [heq]
    split <;> rfl
  have hstepOf : ∀ k' ≠ k, (y.controller k').step = (x.controller k').step :=
    fun k' hk' => congrArg Controller.step (Function.update_of_ne hk' ..)
  have hloop : y.retriever c = .loop := Function.update_self ..
  refine ⟨hsearch.quiet c rfl rfl rfl rfl rfl ?_ ?_ hothers
    (fun c' hc' => Function.update_of_ne hc' ..) rfl, ?_⟩
  · rw [hholds]
    exact .idle (.inl hloop) (congrArg Client.visitingUrlGroup hself)
      (fun he => ClientState.noConfusion ((congrArg Client.clientState hself).symm.trans he))
      (fun he => ClientState.noConfusion ((congrArg Client.clientState hself).symm.trans he))
  · show Alive ((Client.connected c v s).client c)
    rw [hself]
    exact ⟨fun _ => ⟨rfl, rfl⟩, fun _ _ => rfl⟩
  · refine
      { known := fun k' c' hc' => ?_, apart := fun k₁ k₂ c' h₁ h₂ => ?_
        connected := fun k' c' hc' hstep => ?_, fresh := fun c' hc' => ?_ }
    · rw [(hcontroller k').1] at hc'
      change (y.controller k').client = some c' at hc'
      rw [hclientOf] at hc'
      split at hc'
      · obtain rfl := Option.some.inj hc'
        exact Nat.lt_succ_self _
      · exact Nat.lt_succ_of_lt (hconnections.known k' c' hc')
    · rw [(hcontroller k₁).1] at h₁
      rw [(hcontroller k₂).1] at h₂
      change (y.controller k₁).client = some c' at h₁
      change (y.controller k₂).client = some c' at h₂
      rw [hclientOf] at h₁ h₂
      split at h₁ <;> split at h₂
      · next hk₁ hk₂ => rw [hk₁, hk₂]
      · obtain rfl := Option.some.inj h₁
        exact absurd (hconnections.known k₂ _ h₂) (Nat.lt_irrefl _)
      · obtain rfl := Option.some.inj h₂
        exact absurd (hconnections.known k₁ _ h₁) (Nat.lt_irrefl _)
      · exact hconnections.apart k₁ k₂ c' h₁ h₂
    · rw [(hcontroller k').1] at hc'
      rw [(hcontroller k').2] at hstep
      change (y.controller k').client = some c' at hc'
      rw [hclientOf] at hc'
      show ((Client.connected c v s).client c').clientState = .connected
      split at hc'
      · obtain rfl := Option.some.inj hc'
        rw [hself]
      · next hk' =>
          rw [if_neg hk'] at hstep
          have hold := (hstepOf k' hk').symm.trans hstep
          rw [hothers c' (Nat.ne_of_lt (hconnections.known k' c' hc'))]
          exact hconnections.connected k' c' hc' hold
    · have hne : c' ≠ c := Nat.ne_of_gt hc'
      obtain ⟨hclient, hretriever⟩ := hconnections.fresh c' (Nat.le_of_succ_le hc')
      exact ⟨(hothers c' hne).trans hclient, (Function.update_of_ne hne ..).trans hretriever⟩

/-- **A client that has connected waits for a group.** -/
theorem inOrder_welcome (h : InOrder bad x n) (hclient : (x.controller k).client = some c)
    (hstep : (x.controller k).step = .connected)
    (hnext : x.eventStep k (Client.setClientState c .waiting) .reading = some x') :
    InOrder bad x' n := by
  obtain ⟨⟨holds, custody, b, hsearch⟩, hconnections⟩ := h
  have hstate := hconnections.connected k c hclient hstep
  have hlives : (x.server.client c).clientState ≠ .disconnected := by
    rw [hstate]
    exact ClientState.noConfusion
  obtain ⟨v, hv⟩ := Option.isSome_iff_exists.mp
    ((hsearch.alive c).machine hlives (by rw [hstate]; exact ClientState.noConfusion))
  have hrun := Client.run_setClientState_waiting hv (by rw [hstate]; exact ClientState.noConfusion)
  obtain rfl := Option.some.inj ((eventStep_ok hrun).symm.trans hnext)
  let s := (x.server.setClient c fun y => { y with clientState := .waiting }).setVm v
    fun y => { y with vmState := .running }
  have hself : s.client c = { x.server.client c with clientState := .waiting } :=
    ServerState.client_setClient c (fun y => { y with clientState := .waiting }) x.server
  have hothers : ∀ c' ≠ c, s.client c' = x.server.client c' :=
    fun c' hc' => Function.update_of_ne hc' ..
  have hcontroller := controller_setController k .reading { x with server := s }
  refine ⟨hsearch.quiet c rfl rfl rfl rfl rfl ?_ ?_ hothers (fun _ _ => rfl) rfl,
    hconnections.congr (fun k' => (hcontroller k').1) (fun k' hreading => ?_) rfl
      (fun c' hc' => hothers c' ?_) fun _ _ hstop => hstop⟩
  · have hstage := hsearch.stage c
    revert hstage
    generalize holds c = o
    intro hstage
    cases hstage with
    | idle hrest hnone _ _ =>
        refine .idle hrest ((congrArg Client.visitingUrlGroup hself).trans hnone) ?_ ?_ <;>
          exact fun he =>
            ClientState.noConfusion ((congrArg Client.clientState hself).symm.trans he)
    | taking _ _ hwaiting => cases hwaiting.symm.trans hstate
    | inHand _ _ hwaiting => cases hwaiting.symm.trans hstate
    | stored _ _ hwaiting => cases hwaiting.symm.trans hstate
    | awaiting _ _ hawaiting => cases hawaiting.symm.trans hstate
    | visiting _ hvisit => cases hvisit.state.symm.trans hstate
  · show Alive (s.client c)
    rw [hself]
    have hlink := (hsearch.alive c).link hlives
    exact ⟨fun _ => hlink, fun _ _ => by rw [hv]; rfl⟩
  · rw [(hcontroller k').2] at hreading
    split at hreading
    · cases hreading
    · exact hreading
  · rintro rfl
    rcases hc' with hle | ⟨k', hk', hreading⟩
    · exact absurd (hconnections.known k c' hclient) (Nat.not_lt.mpr hle)
    · rw [(hcontroller k').2, if_pos (hconnections.apart k' k c' hk' hclient)] at hreading
      cases hreading

/-- **A line of an honest client.** -/
theorem inOrder_line {line : Line} (h : InOrder bad x n)
    (hhonest : HonestLine bad x.server (x.controller k).client line)
    (hnext : x.handle k line = some x') : InOrder bad x' n := by
  have hconnections := h.connections
  obtain ⟨holds, custody, b, hsearch⟩ := h.search
  have hreading : EventStep.reading ≠ .connected := EventStep.noConfusion
  have hpure : ∀ next, next ≠ .connected → x.eventStep k (pure ()) next = some x' →
      InOrder bad x' n := fun next hne he =>
    inOrder_message hconnections hne (Exec.run_pure () x.server) hsearch.handledWell_still he
  cases line with
  | connect v linkUp =>
      cases v with
      | none => exact hpure .reading hreading hnext
      | some v =>
          obtain rfl : linkUp = true := hhonest
          exact inOrder_connect h hnext
  | reconnect v usable =>
      cases v with
      | none => exact hpure .reading hreading hnext
      | some v => exact hhonest.elim
  | systemEvent element origin =>
      simp only [System.handle] at hnext
      cases hc : (x.controller k).client with
      | none =>
          rw [hc] at hnext
          exact hpure .reading hreading hnext
      | some c =>
          rw [hc] at hnext
          obtain ⟨server, hrun, hwell⟩ := hsearch.event origin (hhonest c hc)
          exact inOrder_message hconnections hreading hrun hwell hnext
  | visitEvent element =>
      simp only [System.handle] at hnext
      cases hc : (x.controller k).client with
      | none =>
          rw [hc] at hnext
          exact hpure .reading hreading hnext
      | some c =>
          rw [hc] at hnext
          obtain ⟨server, hrun, hwell⟩ := hsearch.visit (hhonest c hc)
          exact inOrder_message hconnections hreading hrun hwell hnext
  | other => exact hpure .reading hreading hnext
  | broken => exact hhonest.elim
  | notWellFormed => exact hpure .stopped EventStep.noConfusion hnext

end Connections

/-! ## The other threads -/

/-- **A URL is queued**, unless one is that would be visited in the same way. -/
theorem inOrder_enqueue {position : Nat} (h : InOrder bad x n)
    (hnext : x.next (.enqueue position) = some x') :
    InOrder bad x' (n.record x (.enqueue position) x') := by
  obtain ⟨⟨holds, custody, b, hsearch⟩, hconnections⟩ := h
  have hnew : x.nextUrl ∉ n.queued := fun hmem => Nat.lt_irrefl _ (hsearch.queued _ hmem)
  have hrun : ∃ queue, (UrlsController.addUrl x.nextUrl position).run x.server =
      (.ok (), { x.server with urlQueue := queue }) ∧ (queue = x.server.urlQueue ∨ queue =
        x.server.urlQueue.take position ++ x.nextUrl :: x.server.urlQueue.drop position) := by
    rw [UrlsController.addUrl, UrlsController.inUrlQueue]
    simp only [bind_assoc, Exec.run_gets_bind, Exec.pure_bind, Exec.run_ite, Exec.run_modify,
      Exec.run_pure]
    split
    · exact ⟨_, rfl, .inr rfl⟩
    · exact ⟨_, rfl, .inl rfl⟩
  obtain ⟨queue, hrun, hqueue⟩ := hrun
  have hx' : x' = { x with
      server := { x.server with urlQueue := queue }, nextUrl := x.nextUrl + 1 } := by
    simp only [System.next, System.perform, attempt, hrun] at hnext
    exact (Option.some.inj hnext).symm
  have hurls : x'.server.urlQueue = queue := by rw [hx']
  have hin : Connections x' := by
    rw [hx']
    exact hconnections.kept (fun _ => rfl) (fun _ hstep => hstep) rfl (fun _ _ => rfl)
      fun _ _ hstop => hstop
  have hold : ∀ u ∈ n.queued, u < x'.nextUrl := by
    intro u hu
    rw [hx']
    exact Nat.lt_succ_of_lt (hsearch.queued u hu)
  rw [Search.record, hurls]
  rcases hqueue with rfl | hqueue
  · rw [if_pos rfl]
    have hsame : x'.server = x.server := by rw [hx']
    refine ⟨⟨holds, custody, b, hsame ▸ hsearch.tracks, hsearch.owned, fun c => ?_,
      hsame ▸ hsearch.alive, hold⟩, hin⟩
    exact (hsearch.stage c).congr (by rw [hsame]) (by rw [hx']) (fun _ _ => by rw [hsame])
      fun _ _ _ _ => by rw [hsame]
  · have hne : queue ≠ x.server.urlQueue := by
      intro heq
      have hlength := congrArg List.length (hqueue.symm.trans heq)
      rw [List.length_append, List.length_cons, ← Nat.add_assoc, ← List.length_append,
        List.take_append_drop] at hlength
      exact Nat.succ_ne_self _ hlength
    rw [if_neg hne]
    obtain ⟨b', htracks⟩ := hsearch.tracks.enqueue hnew position
    rw [← hqueue] at htracks
    refine ⟨⟨holds, custody, b', ?_, hsearch.owned, fun c => ?_, ?_, fun u hu => ?_⟩, hin⟩
    · rw [hx']
      exact htracks
    · exact (hsearch.stage c).congr (by rw [hx']) (by rw [hx']) (fun _ _ => by rw [hx'])
        fun _ _ _ _ => by rw [hx']; rfl
    · rw [hx']
      exact hsearch.alive
    · rcases List.mem_cons.mp hu with rfl | hu
      · rw [hx']
        exact Nat.lt_succ_self _
      · exact hold u hu

/-- **The groups and the clients stay in order.** -/
theorem inOrder_next {a : SystemAction} (h : InOrder bad x n) (hok : Honest bad (x, n) a)
    (hnext : x.next a = some x') : InOrder bad x' (n.record x a x') := by
  have hconnections := h.connections
  obtain ⟨holds, custody, b, hsearch⟩ := h.search
  -- steps that leave the clients and the retrievers alone
  have hstill : (∃ vm, x'.server = { x.server with vm }) → x'.retriever = x.retriever →
      x'.nextUrl = x.nextUrl → x'.nextClient = x.nextClient →
      (∀ k, (x'.controller k).client = (x.controller k).client) →
      (∀ k, (x'.controller k).step = .connected → (x.controller k).step = .connected) →
        InOrder bad x' n := by
    intro hserver hretrievers hurl hclient hclients hsteps
    refine ⟨hsearch.still hserver hretrievers hurl, hconnections.kept hclients hsteps hclient ?_ ?_⟩
    · obtain ⟨vm, hserver⟩ := hserver
      exact fun _ _ => by rw [hserver]
    · exact fun _ _ hstop => by rwa [hretrievers]
  -- a line is read, or there is none any more
  have hreads : ∀ k next, next ≠ .connected →
      x' = x.setController k (fun t => { t with step := next }) → InOrder bad x' n := by
    rintro k next hne rfl
    have hcontroller := controller_setController k next x
    refine hstill ⟨_, rfl⟩ rfl rfl rfl (fun k' => (hcontroller k').1) fun k' hstep => ?_
    rw [(hcontroller k').2] at hstep
    split at hstep
    · exact absurd hstep hne
    · exact hstep
  cases a with
  | enqueue position => exact inOrder_enqueue h hnext
  | receive k line =>
      simp only [System.next] at hnext
      split at hnext
      · split at hnext
        · exact hreads k (.read line) EventStep.noConfusion (Option.some.inj hnext).symm
        · cases hnext
      · cases hnext
  | handle k =>
      show InOrder bad x' n
      simp only [System.next] at hnext
      split at hnext
      · next line hstep =>
          simp only [Honest, HonestStep, hstep] at hok
          exact inOrder_line h hok hnext
      · next hstep =>
          split at hnext
          · next hc => exact inOrder_welcome h hc hstep hnext
          · cases hnext
      · cases hnext
  | lineLost k => exact hok.elim
  | endOfStream k =>
      simp only [System.next] at hnext
      split at hnext
      · exact hreads k .stopped EventStep.noConfusion (Option.some.inj hnext).symm
      · cases hnext
  | retrieve c =>
      have hretrieved := hsearch.retrieve hnext
      refine ⟨hretrieved.search, hconnections.kept ?_ ?_ ?_ hretrieved.newcomers ?_⟩
      · rw [hretrieved.rest]
        exact fun _ => rfl
      · rw [hretrieved.rest]
        exact fun _ hstep => hstep
      · rw [hretrieved.rest]
      · intro c' _ hstop
        by_cases hc : c' = c
        · rw [hc] at hstop ⊢
          exact hretrieved.stopped hstop
        · rw [hretrieved.others c' hc]
          exact hstop
  | blame v inactive => exact hok.elim
  | revert => exact hok.elim
  | work v newState =>
      simp only [System.next] at hnext
      split at hnext
      · cases hnext
      · next hne =>
          simp only [System.perform, attempt, VirtualMachine.run_setState hne] at hnext
          obtain rfl := Option.some.inj hnext
          exact hstill ⟨_, rfl⟩ rfl rfl rfl (fun _ => rfl) fun _ hstep => hstep
  | ping c =>
      simp only [System.next] at hnext
      split at hnext
      · rcases Client.send_cases c x.server with ⟨success, hrun⟩ | ⟨hlives, hlink, -⟩
        · simp only [attempt, hrun] at hnext
          obtain rfl := Option.some.inj hnext
          exact hstill ⟨_, rfl⟩ rfl rfl rfl (fun _ => rfl) fun _ hstep => hstep
        · obtain ⟨hup, hopen⟩ := (hsearch.alive c).link hlives
          rcases hlink with hdown | hclosed
          · exact absurd (hup.symm.trans hdown) Bool.noConfusion
          · exact absurd (hopen.symm.trans hclosed) Bool.noConfusion
      · cases hnext
  | cutLink c => exact hok.elim

/-- A server that has just been started. -/
theorem inOrder_init (config : Config) (url : UrlRef → Url) (vmState : VmRef → VmState) :
    InOrder bad { server := startedServer config url vmState } {} := by
  refine ⟨⟨fun _ => none, [], { waiting := [] }, ?_, ?_, ?_, ?_, ?_⟩, ?_, ?_, ?_, ?_⟩
  · exact
      { sound := .start, nodup := List.nodup_nil, visits := rfl, drawn := rfl, waiting := rfl
        stack := rfl, held := rfl, refs := List.nodup_nil
        created := fun _ hmem => absurd hmem List.not_mem_nil, clients := List.nodup_nil
        benign := fun _ hmem => absurd hmem List.not_mem_nil
        guilty := fun _ hmem => absurd hmem List.not_mem_nil, unjudged := fun _ _ _ => rfl
        codes := fun _ => rfl, logged := fun _ => rfl
        closed := fun _ _ hmem => absurd hmem List.not_mem_nil }
  · exact fun _ _ => iff_of_false List.not_mem_nil nofun
  · exact fun _ => .idle (.inr (.inr (.inr rfl))) rfl nofun nofun
  · exact fun _ => ⟨fun _ => ⟨rfl, rfl⟩, fun _ hne => absurd rfl hne⟩
  · exact fun _ hmem => absurd hmem List.not_mem_nil
  · exact fun _ _ hc => absurd hc nofun
  · exact fun _ _ _ hc => absurd hc nofun
  · exact fun _ _ hc => absurd hc nofun
  · exact fun _ _ => ⟨rfl, rfl⟩

end Searches

/-! ## What every run keeps -/

/-- The URL waits, or is in a group that is queued or that a client has. -/
def Pending (x : System) (u : UrlRef) : Prop :=
  u ∈ x.server.urlQueue ∨ (∃ g ∈ x.server.urlGroupQueue, u ∈ (x.server.group g).urlList) ∨
    ∃ c g, Has x c g ∧ u ∈ (x.server.group g).urlList

/-- The search goes on rightly. -/
structure RightSearch (bad : UrlRef → Bool) (x : System) (n : Search) : Prop where
  bounded : n.visits + n.drawn ≤ 2 * n.queued.length
  filled : ∀ g, (g ∈ x.server.urlGroupQueue ∨ ∃ c, Has x c g) → (x.server.group g).urlList ≠ []
  owner : ∀ c g, Has x c g → g ∉ x.server.urlGroupQueue ∧ ∀ c', Has x c' g → c' = c
  pending : ∀ u ∈ n.queued, Pending x u → logged x.server u = []
  judged : ∀ u ∈ n.queued, ¬ Pending x u → logged x.server u = [bad u] ∧
    states x.server u = (.visited, .ok) ∧ verdicts x.server u = some (bad u)
  others : ∀ u ∉ n.queued, logged x.server u = []

section Reading
variable {bad : UrlRef → Bool} {x : System} {n : Search} {holds : ClientRef → Option GroupRef}
  {custody : Custody} {b : Bisection UrlRef}

theorem Searching.has_iff (h : Searching bad x n holds custody b) {c : ClientRef} {g : GroupRef} :
    Has x c g ↔ (c, g) ∈ custody := (h.stage c).has_iff.trans (h.owned c g).symm

theorem Searching.isOpen_iff (h : Searching bad x n holds custody b) (u : UrlRef) :
    b.IsOpen u ↔ Pending x u := by
  rw [Bisection.IsOpen, Pending, h.tracks.waiting, h.tracks.stack, h.tracks.held]
  simp only [List.mem_map, Multiset.mem_coe, h.has_iff]
  constructor
  · rintro (hwaiting | ⟨_, ⟨g, hg, rfl⟩ | ⟨⟨c, g⟩, hmem, rfl⟩, hu⟩)
    · exact .inl hwaiting
    · exact .inr (.inl ⟨g, hg, hu⟩)
    · exact .inr (.inr ⟨c, g, hmem, hu⟩)
  · rintro (hwaiting | ⟨g, hg, hu⟩ | ⟨c, g, hmem, hu⟩)
    · exact .inl hwaiting
    · exact .inr ⟨_, .inl ⟨g, hg, rfl⟩, hu⟩
    · exact .inr ⟨_, .inr ⟨(c, g), hmem, rfl⟩, hu⟩

theorem Searching.right (h : Searching bad x n holds custody b) : RightSearch bad x n := by
  have htracks := h.tracks
  obtain ⟨-, hheld, hdisjoint⟩ := List.nodup_append.mp htracks.refs
  refine
    { bounded := ?_, filled := fun g hg => ?_, owner := fun c g hg => ?_
      pending := fun u hu hopen => ?_, judged := fun u hu hnot => ?_, others := fun u hu => ?_ }
  · rw [← htracks.visits, ← htracks.drawn]
    exact htracks.sound.tests_le
  · refine htracks.sound.filled _ ?_
    rw [htracks.stack, htracks.held]
    rcases hg with hg | ⟨c, hg⟩
    · exact .inl (List.mem_map.mpr ⟨g, hg, rfl⟩)
    · exact .inr (Multiset.mem_coe.mpr (List.mem_map.mpr ⟨(c, g), h.has_iff.mp hg, rfl⟩))
  · have hmem := h.has_iff.mp hg
    refine ⟨fun hqueued => ?_, fun c' hg' => ?_⟩
    · exact hdisjoint g hqueued g (List.mem_map.mpr ⟨(c, g), hmem, rfl⟩) rfl
    · have hpair : (c', g) = (c, g) :=
        List.inj_on_of_nodup_map hheld (h.has_iff.mp hg') hmem rfl
      exact congrArg Prod.fst hpair
  · rw [htracks.logged]
    exact Bisection.verdictsOf_nil fun hverdict =>
      htracks.sound.not_isOpen htracks.nodup hverdict ((h.isOpen_iff u).mpr hopen)
  · have hverdict : u ∈ b.verdicts.map Prod.fst :=
      (htracks.sound.isOpen_or hu).resolve_left fun hopen => hnot ((h.isOpen_iff u).mp hopen)
    have hone : b.verdictsOf u = [bad u] := by
      rw [htracks.sound.verdictsOf_eq htracks.nodup hverdict, Bool.decide_eq_true]
    obtain ⟨⟨w, v⟩, hmem, heq⟩ := List.mem_map.mp hverdict
    obtain rfl : w = u := heq
    obtain ⟨hstates, hv⟩ := htracks.closed w v hmem
    have hright : v = bad w := by
      rw [Bool.eq_iff_iff]
      exact htracks.sound.right w v hmem
    exact ⟨(htracks.logged w).trans hone, hstates, by rw [hv, hright]⟩
  · rw [htracks.logged]
    exact Bisection.verdictsOf_nil fun hverdict => hu (htracks.sound.mem_of_verdict hverdict)

end Reading

/-- A server whose input has two URLs, and whose groups are that large. -/
def twoUrlServer : System where
  server := startedServer { groupSize := 2 }
    (fun u => { id := "1", url := if u = 0 then "http://a/" else "http://b/"
                clientProgram := "iexplore", visitTime := 30 }) fun _ => .running

/-- What a message says of a URL. -/
def visitItem (url : String) : Element where
  name := "item"
  attributes := [("url", url), ("time", "1/1/2008 0:0:0.0"), ("processId", "231"),
    ("major-error-code", "0"), ("minor-error-code", "0")]

def dacMessage (type malicious : String) (urls : List String) : Element where
  name := "visit-event"
  attributes := [("type", type), ("time", "1/1/2008 0:0:0.0"), ("algorithm", "dac"),
    ("malicious", malicious)]
  childElements := urls.map visitItem

def dacEvent : Element where
  name := "system-event"
  attributes := [("type", "file"), ("time", "1/1/2008 0:0:1.0"), ("processId", "231"),
    ("process", "iexplore"), ("action", "Write"), ("object1", "a.exe"), ("object2", "-1")]

/-- A client connects, and is sent a group. -/
def joins (k : Nat) : List SystemAction :=
  [.receive k (.connect (some 0) true), .handle k, .handle k] ++ List.replicate 6 (.retrieve k)

def tells (k : ConnectionRef) (line : Line) : List SystemAction := [.receive k line, .handle k]

/-- The second URL is bad.  Both are visited at first, and then each by itself. -/
def divideRun : List SystemAction :=
  [.enqueue 0, .enqueue 1] ++
  joins 0 ++
    tells 0 (.visitEvent (dacMessage "start" "0" ["http%3A%2F%2Fa%2F", "http%3A%2F%2Fb%2F"])) ++
    tells 0 (.systemEvent dacEvent 1) ++
  joins 1 ++
    tells 1 (.visitEvent (dacMessage "start" "0" ["http%3A%2F%2Fb%2F"])) ++
    tells 1 (.systemEvent dacEvent 2) ++
    tells 1 (.visitEvent (dacMessage "finish" "1" ["http%3A%2F%2Fb%2F"])) ++
  joins 2 ++
    tells 2 (.visitEvent (dacMessage "start" "0" ["http%3A%2F%2Fa%2F"])) ++
    tells 2 (.visitEvent (dacMessage "finish" "0" ["http%3A%2F%2Fa%2F"]))

theorem searchMachine_init : searchMachine.init (twoUrlServer, {}) := ⟨⟨_, _, _, rfl⟩, rfl⟩

end CaptureHpc.Server
