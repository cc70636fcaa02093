/-
# `Server.ClientsPinger` — the clients that are pinged

`ClientsPinger` observes the clients: it adds a client to its set when the
client says that it is connected, and removes it when the client says that it is
disconnected.  The set is a tree that compares clients by their virtual
machines, so that two clients of one machine are the same element to it.

A client that connects while the set holds another client of its machine is not
added, and whichever of them disconnects, the one in the set is removed.  In
every other case the set holds just the clients that are connected, and all of
them are pinged: the test in `run` is always true (`run_eq`).
-/
import CaptureHpc.Lib.Comparator
import CaptureHpc.Lib.Machine
import CaptureHpc.Server.State

namespace CaptureHpc.Server

open Comparator

/-- What `hashCode` returns for an object is not negative. -/
abbrev VmUniqueId := Fin (2 ^ 31)

variable {vmUniqueId : ClientRef → VmUniqueId}

/-- `compareTo`: a subtraction of `int`s. -/
def Client.compareTo (vmUniqueId : ClientRef → VmUniqueId) (c o : ClientRef) : Int :=
  (((vmUniqueId o).val : Int) - (vmUniqueId c).val).bmod (2 ^ 32)

theorem Client.compareTo_eq (c o : ClientRef) :
    Client.compareTo vmUniqueId c o = ((vmUniqueId o).val : Int) - (vmUniqueId c).val := by
  have hc := (vmUniqueId c).isLt
  have ho := (vmUniqueId o).isLt
  exact Int.bmod_eq_of_le (by omega) (by omega)

theorem Client.compareTo_eq_zero {c o : ClientRef} :
    Client.compareTo vmUniqueId c o = 0 ↔ vmUniqueId c = vmUniqueId o := by
  rw [Client.compareTo_eq, Int.sub_eq_zero, Int.natCast_inj, Fin.val_inj, eq_comm]

theorem Client.compareTo_lawful : Lawful (Client.compareTo vmUniqueId) fun _ => True where
  antisymm c o _ _ := by
    rw [Client.compareTo_eq, Client.compareTo_eq]
    omega
  trans c o p _ _ _ hco hop := by
    rw [Client.compareTo_eq] at hco hop ⊢
    omega

/-- `clients` -/
abbrev ClientSet (vmUniqueId : ClientRef → VmUniqueId) := TreeSet (Client.compareTo vmUniqueId)

namespace ClientsPinger

def addClient (c : ClientRef) (clients : ClientSet vmUniqueId) : ClientSet vmUniqueId :=
  clients.add Client.compareTo_lawful c

def removeClient (c : ClientRef) (clients : ClientSet vmUniqueId) : ClientSet vmUniqueId :=
  clients.remove c

/-- A client notifies its observer, which reads the state of the client. -/
structure Notification where
  client : ClientRef
  clientState : ClientState

def update (clients : ClientSet vmUniqueId) (n : Notification) : ClientSet vmUniqueId :=
  if n.clientState = .disconnected then removeClient n.client clients
  else if n.clientState = .connected then addClient n.client clients
  else clients

/-- The clients that `run` sends a ping. -/
def run (clientState : ClientRef → ClientState) (clients : ClientSet vmUniqueId) :
    List ClientRef :=
  clients.elems.filter fun c => clientState c ≠ .connecting || clientState c ≠ .disconnected

/-- The test is true of every state. -/
theorem run_eq (clientState : ClientRef → ClientState) (clients : ClientSet vmUniqueId) :
    run clientState clients = clients.elems := by
  refine List.filter_eq_self.mpr fun c _ => ?_
  cases clientState c <;> rfl

/-! ## Notifications in any order -/

def pinger (vmUniqueId : ClientRef → VmUniqueId) : Machine (ClientSet vmUniqueId) Notification where
  init clients := clients = {}
  next clients n := some (update clients n)

/-- The clients that are connected, after one more notification. -/
def record (connected : List ClientRef) (n : Notification) : List ClientRef :=
  match n.clientState with
  | .disconnected => connected.filter (· ≠ n.client)
  | .connected => n.client :: connected
  | _ => connected

/-- The machine with the clients that have said they are connected, and not since that they are
disconnected. -/
abbrev recorded (vmUniqueId : ClientRef → VmUniqueId) :
    Machine (ClientSet vmUniqueId × List ClientRef) Notification :=
  (pinger vmUniqueId).recording [] fun connected _ n _ => record connected n

/-- Pinged is who is connected. -/
def Agree (x : ClientSet vmUniqueId × List ClientRef) : Prop :=
  ∀ clientState c, c ∈ run clientState x.1 ↔ c ∈ x.2

/-- No other client of the machine is connected when a client connects or disconnects. -/
def Apart (x : ClientSet vmUniqueId × List ClientRef) (n : Notification) : Prop :=
  (n.clientState = .connected ∨ n.clientState = .disconnected) →
    ∀ c ∈ x.2, vmUniqueId c = vmUniqueId n.client → c = n.client

section Steps
variable {x x' : ClientSet vmUniqueId × List ClientRef} {n : Notification}

theorem agree_iff : Agree x ↔ ∀ c, c ∈ x.1 ↔ c ∈ x.2 := by
  constructor
  · intro h c
    have hc := h (fun _ => .waiting) c
    rwa [run_eq] at hc
  · intro h clientState c
    rw [run_eq]
    exact h c

theorem mem_addClient {clients : ClientSet vmUniqueId} {a c : ClientRef} :
    c ∈ addClient a clients ↔ c ∈ clients ∨ c = a ∧ ∀ b ∈ clients, vmUniqueId a ≠ vmUniqueId b := by
  rw [addClient, TreeSet.mem_add]
  simp only [ne_eq, Client.compareTo_eq_zero]

theorem mem_removeClient {clients : ClientSet vmUniqueId} {a c : ClientRef} :
    c ∈ removeClient a clients ↔ c ∈ clients ∧ vmUniqueId a ≠ vmUniqueId c := by
  rw [removeClient, TreeSet.mem_remove Client.compareTo_lawful, ne_eq, Client.compareTo_eq_zero]

/-- Of each machine there is one client in the set. -/
theorem eq_of_vmUniqueId {clients : ClientSet vmUniqueId} {a c : ClientRef} (ha : a ∈ clients)
    (hc : c ∈ clients) (h : vmUniqueId a = vmUniqueId c) : a = c :=
  TreeSet.eq_of_level Client.compareTo_lawful ha hc (Client.compareTo_eq_zero.mpr h)

theorem agree_connected (h : Agree x) (c : ClientRef) :
    Agree (addClient c x.1, c :: x.2) ↔ ∀ o ∈ x.2, vmUniqueId o = vmUniqueId c → o = c := by
  rw [agree_iff] at h ⊢
  constructor
  · intro hagree o ho hid
    have hc : c ∈ addClient c x.1 := (hagree c).mpr List.mem_cons_self
    have hmem := (h o).mpr ho
    rcases mem_addClient.mp hc with hc | ⟨-, hnone⟩
    · exact eq_of_vmUniqueId hmem hc hid
    · exact absurd hid.symm (hnone o hmem)
  · intro hapart o
    rw [mem_addClient, List.mem_cons, h o, or_comm]
    refine ⟨fun ho => ho.imp_left And.left, fun ho => ?_⟩
    rcases ho with rfl | ho
    · by_cases ho : o ∈ x.2
      · exact .inr ho
      · refine .inl ⟨rfl, fun b hb hid => ho ?_⟩
        have hbo : b = o := hapart b ((h b).mp hb) hid.symm
        rw [← hbo]
        exact (h b).mp hb
    · exact .inr ho

theorem agree_disconnected (h : Agree x) (c : ClientRef) :
    Agree (removeClient c x.1, x.2.filter (· ≠ c)) ↔
      ∀ o ∈ x.2, vmUniqueId o = vmUniqueId c → o = c := by
  rw [agree_iff] at h ⊢
  constructor
  · intro hagree o ho hid
    by_contra hne
    have hkept : o ∈ removeClient c x.1 :=
      (hagree o).mpr (List.mem_filter.mpr ⟨ho, decide_eq_true hne⟩)
    exact (mem_removeClient.mp hkept).2 hid.symm
  · intro hapart o
    rw [mem_removeClient, List.mem_filter, h o, decide_eq_true_iff]
    refine and_congr_right fun ho => ⟨fun hid hoc => ?_, fun hne hid => hne (hapart o ho hid.symm)⟩
    exact hid (congrArg vmUniqueId hoc).symm

theorem next_eq (hnext : (recorded vmUniqueId).next x n = some x') :
    x' = (update x.1 n, record x.2 n) := (Option.some.inj hnext).symm

/-- The step lemma. -/
theorem agree_next (h : Agree x) (hnext : (recorded vmUniqueId).next x n = some x') :
    Agree x' ↔ Apart x n := by
  obtain rfl := next_eq hnext
  obtain ⟨c, clientState⟩ := n
  cases clientState with
  | connected => exact (agree_connected h c).trans ⟨fun hall _ => hall, fun hall => hall (.inl rfl)⟩
  | disconnected =>
      exact (agree_disconnected h c).trans ⟨fun hall _ => hall, fun hall => hall (.inr rfl)⟩
  | connecting | waiting | awaitingVisiting | visiting =>
      refine ⟨fun _ hstate => ?_, fun _ => h⟩
      rcases hstate with hstate | hstate <;> cases hstate

end Steps

/-- **Who is connected is pinged**, all along, if and only if no client connects or disconnects
while another client of its machine is connected. -/
theorem pinged_iff_connected (vmUniqueId : ClientRef → VmUniqueId)
    (notifications : List Notification) :
    (recorded vmUniqueId).Throughout Agree notifications ({}, []) ↔
      (recorded vmUniqueId).Meets Apart notifications ({}, []) := by
  obtain ⟨x, hrun⟩ := Machine.exists_run (M := recorded vmUniqueId) (fun _ _ => rfl)
    notifications ({}, [])
  refine Machine.throughout_iff_meets (fun _ h => h) (fun x n x' h hnext => ?_) ?_ hrun
  · exact ⟨(agree_next h hnext).mpr, (agree_next h hnext).mp⟩
  · exact agree_iff.mpr fun c => Iff.rfl

/-- The new client of a machine connects before the old one is gone. -/
theorem newer_client_not_pinged :
    ∃ x, (recorded fun _ => 7).run [⟨0, .connected⟩, ⟨1, .connected⟩, ⟨0, .disconnected⟩] ({}, []) =
      some x ∧ 1 ∈ x.2 ∧ ∀ clientState, 1 ∉ run clientState x.1 := by
  refine ⟨_, rfl, by decide, fun clientState => ?_⟩
  rw [run_eq]
  decide

end ClientsPinger

end CaptureHpc.Server
