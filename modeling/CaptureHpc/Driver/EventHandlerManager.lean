/-
# `Driver.EventHandlerManager` — the hooks of the TDI event handlers

A client of the transport sets a handler for each event type of a file object
with a `TDI_SET_EVENT_HANDLER` request.  The driver keeps that handler in a slot
and lets the transport have one of its own, with the slot as context.  When the
driver is unloaded it sets the handlers in the slots again.

`num_handlers` of a node is never counted up.  `sound_throughout_iff` says that
the slots and the counter agree in a run just if no handler is hooked in it.
The hooks themselves do what they are for as long as the counter, which starts
at 0 and is counted down, does not come to 0 again (`forwards_last`,
`restores_hooked`).
-/
import CaptureHpc.Driver.HashMap
import CaptureHpc.Lib.Machine
import Mathlib.Algebra.Ring.Nat
import Mathlib.Data.Fintype.Card

namespace CaptureHpc.Driver

/-! ## The manager -/

/-- `PFILE_OBJECT`. -/
abbrev FileObject := BitVec 32

/-- `TDI_EVENT_HANDLERS_MAX`. -/
abbrev tdiEventHandlersMax : Nat := 11

/-- `TDI_REQUEST_KERNEL_SET_EVENT`.  The event types are the `TDI_EVENT_` numbers, and 0 is NULL. -/
structure TdiEventHandler where
  eventType : Nat := 0
  eventHandler : BitVec 32 := 0
  eventContext : BitVec 32 := 0
deriving DecidableEq

inductive HookRoutine where
  | tdiConnectEventHandler
  | tdiDisconnectEventHandler
  | tdiErrorEventHandler
  | tdiReceiveEventHandler
  | tdiReceiveDatagramEventHandler
  | tdiReceiveExpeditedEventHandler
  | tdiSendPossibleEventHandler
  | tdiChainedReceiveEventHandler
  | tdiChainedReceiveDatagramEventHandler
  | tdiChainedReceiveExpeditedEventHandler
  | tdiErrorExEventHandler
deriving DecidableEq

/-- `TdiEventHandlers`. -/
def tdiEventHandlers (eventType : Fin tdiEventHandlersMax) : Option HookRoutine :=
  [.tdiConnectEventHandler, .tdiDisconnectEventHandler, .tdiErrorEventHandler,
    .tdiReceiveEventHandler, .tdiReceiveDatagramEventHandler, .tdiReceiveExpeditedEventHandler,
    .tdiSendPossibleEventHandler, .tdiChainedReceiveEventHandler,
    .tdiChainedReceiveDatagramEventHandler, .tdiChainedReceiveExpeditedEventHandler,
    .tdiErrorExEventHandler][eventType.val]?

/-- `EventHandler`, a slot. -/
structure EventHandler where
  node : FileObject := 0
  originalHandler : TdiEventHandler := {}
deriving DecidableEq

structure NodeEventHandler where
  node : FileObject
  numHandlers : BitVec 32
  handlers : Fin tdiEventHandlersMax → EventHandler

/-- A node event handler as it is allocated. -/
def NodeEventHandler.create (node : FileObject) : NodeEventHandler :=
  { node, numHandlers := 0, handlers := fun _ => {} }

/-- Where a handler is hooked: the slot keeps the original one. -/
def NodeEventHandler.hook (v : NodeEventHandler) (eventType : Fin tdiEventHandlersMax)
    (original : TdiEventHandler) (node : FileObject) : NodeEventHandler :=
  { v with
    handlers := Function.update v.handlers eventType { node, originalHandler := original } }

/-- Where one is removed: the slot is cleared. -/
def NodeEventHandler.unhook (v : NodeEventHandler) (eventType : Fin tdiEventHandlersMax) :
    NodeEventHandler :=
  { v with
    numHandlers := v.numHandlers - 1
    handlers := Function.update v.handlers eventType {} }

/-- What the transport calls for an event. -/
inductive Callback where
  | original (eventHandler eventContext : BitVec 32)
  /-- A handler of the driver, with a slot of the node event handler at this address. -/
  | hooked (routine : HookRoutine) (nodeEventHandler : Nat) (eventType : Fin tdiEventHandlersMax)
deriving DecidableEq

def Callback.isHooked : Callback → Bool
  | .original _ _ => false
  | .hooked _ _ _ => true

/-- Whether the pools have memory for a node event handler and for a pair of the map. -/
structure PoolMemory where
  node : Bool := true
  pair : Bool := true

structure EventHandlerManager where
  eventHandlers : HashMap Nat := .initialise
  /-- What is at an address of the lookaside list. -/
  eventHandlersPool : Nat → Option NodeEventHandler := fun _ => none
  /-- How many were allocated; the next address. -/
  allocated : Nat := 0

namespace EventHandlerManager

/-- `CreateNodeEventHandler`, with the address. -/
def createNodeEventHandler (m : EventHandlerManager) (node : FileObject) (memory : PoolMemory) :
    Option (Nat × EventHandlerManager) :=
  if memory.node then
    some (m.allocated,
      { eventHandlers := m.eventHandlers.insert node m.allocated memory.pair
        eventHandlersPool := Function.update m.eventHandlersPool m.allocated (some (.create node))
        allocated := m.allocated + 1 })
  else none

/-- A change of the node event handler at an address. -/
def write (m : EventHandlerManager) (address : Nat) (f : NodeEventHandler → NodeEventHandler) :
    EventHandlerManager :=
  { m with
    eventHandlersPool :=
      Function.update m.eventHandlersPool address ((m.eventHandlersPool address).map f) }

/-- `RemoveEventHandler`. -/
def removeEventHandler (m : EventHandlerManager) (hooked : TdiEventHandler) (node : FileObject) :
    EventHandlerManager :=
  if h : hooked.eventType < tdiEventHandlersMax then
    match m.eventHandlers.findValue node with
    | none => m
    | some address =>
        let m := m.write address fun v => v.unhook ⟨hooked.eventType, h⟩
        if (m.eventHandlersPool address).any (·.numHandlers == 0) then
          { m with
            eventHandlersPool := Function.update m.eventHandlersPool address none
            eventHandlers := m.eventHandlers.remove node }
        else m
  else m

/-- `SetEventHandler`, with the handler and the context that it leaves in the request. -/
def setEventHandler (m : EventHandlerManager) (original : TdiEventHandler) (node : FileObject)
    (memory : PoolMemory) : Callback × EventHandlerManager :=
  let unchanged := (.original original.eventHandler original.eventContext, m)
  if h : original.eventType < tdiEventHandlersMax then
    let eventType : Fin tdiEventHandlersMax := ⟨original.eventType, h⟩
    match tdiEventHandlers eventType with
    | none => unchanged
    | some routine =>
        let nodeEventHandler := match m.eventHandlers.findValue node with
          | some address => some (address, m)
          | none => m.createNodeEventHandler node memory
        match nodeEventHandler with
        | none => unchanged
        | some (address, m) =>
            (.hooked routine address eventType, m.write address fun v => v.hook eventType original node)
  else unchanged

/-- What `TdiSetEventHandler` asks of the manager. -/
def tdiSetEventHandler (m : EventHandlerManager) (node : FileObject) (eventHandler : TdiEventHandler)
    (memory : PoolMemory) : Callback × EventHandlerManager :=
  if eventHandler.eventHandler = 0 ∧ eventHandler.eventContext = 0 then
    (.original 0 0, m.removeEventHandler eventHandler node)
  else m.setEventHandler eventHandler node memory

/-- The request that sets the handler in a slot again, if there is one; `irp` says whether the
request could be built. -/
def restore (irp : FileObject → Fin tdiEventHandlersMax → Bool) (slot : EventHandler)
    (i : Fin tdiEventHandlersMax) : Option (FileObject × TdiEventHandler) :=
  if slot.originalHandler.eventHandler = 0 then none
  else if irp slot.node i then some (slot.node, slot.originalHandler) else none

/-- `DestroyNodeEventHandlerVisitor`: the requests that are sent down. -/
def destroyNodeEventHandlerVisitor (irp : FileObject → Fin tdiEventHandlersMax → Bool)
    (v : NodeEventHandler) : List (FileObject × TdiEventHandler) :=
  (List.finRange tdiEventHandlersMax).filterMap fun i => restore irp (v.handlers i) i

/-- `DestroyEventHandlerManager`. -/
def destroyEventHandlerManager (m : EventHandlerManager)
    (irp : FileObject → Fin tdiEventHandlersMax → Bool) : List (FileObject × TdiEventHandler) :=
  m.eventHandlers.pairs.flatMap fun pair =>
    match m.eventHandlersPool pair.value with
    | none => []
    | some v => destroyNodeEventHandlerVisitor irp v

/-- The handler and the context that are called in the end. -/
def forwardsTo (m : EventHandlerManager) : Callback → Option (BitVec 32 × BitVec 32)
  | .original eventHandler eventContext => some (eventHandler, eventContext)
  | .hooked _ address eventType => (m.eventHandlersPool address).map fun v =>
      let original := (v.handlers eventType).originalHandler
      (original.eventHandler, original.eventContext)

end EventHandlerManager

/-! ## The driver and the transport -/

/-- A `TDI_SET_EVENT_HANDLER` request. -/
structure SetEventRequest where
  node : FileObject
  eventHandler : TdiEventHandler
  memory : PoolMemory := {}

structure HookedTransport where
  manager : EventHandlerManager := {}
  /-- What the transport has for the event types of a file object. -/
  transport : FileObject → Fin tdiEventHandlersMax → Callback := fun _ _ => .original 0 0
  /-- The handler and the context of the last request for them; nobody reads it. -/
  last : FileObject → Fin tdiEventHandlersMax → BitVec 32 × BitVec 32 := fun _ _ => (0, 0)

/-- A handler is hooked for the first time on this file object, or once more. -/
def SetEventRequest.Hooks (r : SetEventRequest) : Prop :=
  r.eventHandler.eventType < tdiEventHandlersMax ∧
    ¬(r.eventHandler.eventHandler = 0 ∧ r.eventHandler.eventContext = 0) ∧ r.memory.node = true

/-- The request has memory, and what it sets is a handler. -/
structure SetEventRequest.Proper (r : SetEventRequest) : Prop where
  memory : r.memory.pair = true
  handler : r.eventHandler.eventHandler = 0 → r.eventHandler.eventContext = 0

namespace HookedTransport

/-- The driver sends the request down with this callback. -/
def send (s : HookedTransport) (r : SetEventRequest) (handled : Callback × EventHandlerManager) :
    HookedTransport :=
  if h : r.eventHandler.eventType < tdiEventHandlersMax then
    let eventType : Fin tdiEventHandlersMax := ⟨r.eventHandler.eventType, h⟩
    { manager := handled.2
      transport := Function.update s.transport r.node
        (Function.update (s.transport r.node) eventType handled.1)
      last := Function.update s.last r.node
        (Function.update (s.last r.node) eventType
          (r.eventHandler.eventHandler, r.eventHandler.eventContext)) }
  else { s with manager := handled.2 }

/-- The request goes through the driver down to the transport. -/
def set (s : HookedTransport) (r : SetEventRequest) : HookedTransport :=
  s.send r (s.manager.tdiSetEventHandler r.node r.eventHandler r.memory)

def machine : Machine HookedTransport SetEventRequest where
  init s := s = {}
  next s r := some (s.set r)

/-- The event types of a file object for which the transport calls the driver. -/
def hookedSlots (s : HookedTransport) (node : FileObject) : Finset (Fin tdiEventHandlersMax) :=
  Finset.univ.filter fun eventType => (s.transport node eventType).isHooked

/-- The slots, the counters and the map agree. -/
structure Sound (s : HookedTransport) : Prop where
  counted : ∀ node address, s.manager.eventHandlers.findValue node = some address →
    ∃ v, s.manager.eventHandlersPool address = some v ∧
      v.numHandlers.toNat = (s.hookedSlots node).card
  managed : ∀ node, (s.manager.eventHandlers.findValue node).isSome ↔ 0 < (s.hookedSlots node).card
  forwards : ∀ node, ∀ eventType ∈ s.hookedSlots node,
    s.manager.forwardsTo (s.transport node eventType) = some (s.last node eventType)
  restoredOnce : (s.manager.destroyEventHandlerManager fun _ _ => true).Nodup
  restored : ∀ node original,
    (node, original) ∈ s.manager.destroyEventHandlerManager (fun _ _ => true) ↔
      ∃ eventType ∈ s.hookedSlots node, original.eventType = eventType.val ∧
        (original.eventHandler, original.eventContext) = s.last node eventType

end HookedTransport

/-! ## What a request does -/

namespace EventHandlerManager

variable {m m' : EventHandlerManager} {node : FileObject} {e : TdiEventHandler} {memory : PoolMemory}

theorem tdiEventHandlers_isSome : ∀ eventType, (tdiEventHandlers eventType).isSome := by decide

/-- The outcomes of a request. -/
inductive Handled (m : EventHandlerManager) (node : FileObject) (e : TdiEventHandler)
    (memory : PoolMemory) : Callback × EventHandlerManager → Prop
  | unmanaged (h : tdiEventHandlersMax ≤ e.eventType ∨ m.eventHandlers.findValue node = none ∧
      ((e.eventHandler = 0 ∧ e.eventContext = 0) ∨ memory.node = false)) :
      Handled m node e memory (.original e.eventHandler e.eventContext, m)
  | removed {address : Nat} (h : e.eventType < tdiEventHandlersMax)
      (hnull : e.eventHandler = 0 ∧ e.eventContext = 0)
      (hfind : m.eventHandlers.findValue node = some address)
      (hkept : (m.eventHandlersPool address).any (fun v => v.numHandlers - 1 == 0) = false) :
      Handled m node e memory (.original 0 0, m.write address fun v => v.unhook ⟨e.eventType, h⟩)
  | deleted {address : Nat} (h : e.eventType < tdiEventHandlersMax)
      (hnull : e.eventHandler = 0 ∧ e.eventContext = 0)
      (hfind : m.eventHandlers.findValue node = some address)
      (hzero : (m.eventHandlersPool address).any (fun v => v.numHandlers - 1 == 0) = true) :
      Handled m node e memory (.original 0 0,
        { m with
          eventHandlersPool := Function.update m.eventHandlersPool address none
          eventHandlers := m.eventHandlers.remove node })
  | replaced {address : Nat} {routine : HookRoutine} (h : e.eventType < tdiEventHandlersMax)
      (hset : ¬(e.eventHandler = 0 ∧ e.eventContext = 0))
      (hroutine : tdiEventHandlers ⟨e.eventType, h⟩ = some routine)
      (hfind : m.eventHandlers.findValue node = some address) :
      Handled m node e memory (.hooked routine address ⟨e.eventType, h⟩,
        m.write address fun v => v.hook ⟨e.eventType, h⟩ e node)
  | created {routine : HookRoutine} (h : e.eventType < tdiEventHandlersMax)
      (hset : ¬(e.eventHandler = 0 ∧ e.eventContext = 0))
      (hroutine : tdiEventHandlers ⟨e.eventType, h⟩ = some routine)
      (hfind : m.eventHandlers.findValue node = none) (hmemory : memory.node = true) :
      Handled m node e memory (.hooked routine m.allocated ⟨e.eventType, h⟩,
        { eventHandlers := m.eventHandlers.insert node m.allocated memory.pair
          eventHandlersPool := Function.update m.eventHandlersPool m.allocated
            (some ((NodeEventHandler.create node).hook ⟨e.eventType, h⟩ e node))
          allocated := m.allocated + 1 })

theorem handled (m : EventHandlerManager) (node : FileObject) (e : TdiEventHandler)
    (memory : PoolMemory) : Handled m node e memory (m.tdiSetEventHandler node e memory) := by
  by_cases h : e.eventType < tdiEventHandlersMax
  · by_cases hnull : e.eventHandler = 0 ∧ e.eventContext = 0
    · rw [tdiSetEventHandler, if_pos hnull, removeEventHandler, dif_pos h]
      cases hfind : m.eventHandlers.findValue node with
      | none =>
          have hun : Handled m node e memory _ := .unmanaged (.inr ⟨hfind, .inl hnull⟩)
          rwa [hnull.1, hnull.2] at hun
      | some address =>
          have hread : ((m.write address fun v => v.unhook ⟨e.eventType, h⟩).eventHandlersPool
              address).any (fun v => v.numHandlers == 0) =
                (m.eventHandlersPool address).any (fun v => v.numHandlers - 1 == 0) := by
            simp only [write, Function.update_self, Option.any_map]
            rfl
          cases hzero : (m.eventHandlersPool address).any (fun v => v.numHandlers - 1 == 0) with
          | false =>
              simp only [hread, hzero]
              exact .removed h hnull hfind hzero
          | true =>
              have hwrite : Function.update (Function.update m.eventHandlersPool address
                  ((m.eventHandlersPool address).map fun v => v.unhook ⟨e.eventType, h⟩)) address none =
                    Function.update m.eventHandlersPool address none := Function.update_idem ..
              simp only [hread, hzero]
              simp only [write, hwrite]
              exact .deleted h hnull hfind hzero
    · rw [tdiSetEventHandler, if_neg hnull, setEventHandler, dif_pos h]
      obtain ⟨routine, hroutine⟩ := Option.isSome_iff_exists.mp
        (tdiEventHandlers_isSome ⟨e.eventType, h⟩)
      cases hfind : m.eventHandlers.findValue node with
      | some address =>
          simp only [hroutine]
          exact .replaced h hnull hroutine hfind
      | none =>
          cases hmemory : memory.node with
          | false =>
              simp only [hroutine, createNodeEventHandler, hmemory]
              exact .unmanaged (.inr ⟨hfind, .inr hmemory⟩)
          | true =>
              have hwrite := Handled.created h hnull hroutine hfind hmemory
              simpa [hroutine, createNodeEventHandler, hmemory, write] using hwrite
  · have hlarge : tdiEventHandlersMax ≤ e.eventType := Nat.le_of_not_lt h
    by_cases hnull : e.eventHandler = 0 ∧ e.eventContext = 0
    · have hun : Handled m node e memory _ := .unmanaged (.inl hlarge)
      rw [tdiSetEventHandler, if_pos hnull, removeEventHandler, dif_neg h]
      rwa [hnull.1, hnull.2] at hun
    · rw [tdiSetEventHandler, if_neg hnull, setEventHandler, dif_neg h]
      exact .unmanaged (.inl hlarge)

end EventHandlerManager

namespace HookedTransport

variable {s : HookedTransport} {r : SetEventRequest}

/-! ## The counter -/

/-- Nothing was ever hooked. -/
structure Untouched (s : HookedTransport) : Prop where
  manager : s.manager = {}
  unhooked : ∀ node eventType, (s.transport node eventType).isHooked = false

theorem Untouched.hookedSlots (hs : s.Untouched) (node : FileObject) : s.hookedSlots node = ∅ :=
  Finset.filter_eq_empty_iff.mpr fun eventType _ => by simp [hs.unhooked node eventType]

theorem Untouched.sound (hs : s.Untouched) : s.Sound where
  counted node address h := by simp [hs.manager] at h
  managed node := by simp [hs.manager, hs.hookedSlots]
  forwards node eventType h := by simp [hs.hookedSlots] at h
  restoredOnce := by simp [hs.manager, EventHandlerManager.destroyEventHandlerManager]
  restored node original := by
    simp [hs.manager, hs.hookedSlots, EventHandlerManager.destroyEventHandlerManager]

@[simp] theorem send_manager (s : HookedTransport) (r : SetEventRequest)
    (handled : Callback × EventHandlerManager) : (s.send r handled).manager = handled.2 := by
  rw [send]
  split <;> rfl

/-- The transport has the callback in the slot of the request. -/
theorem send_transport_self (s : HookedTransport) (r : SetEventRequest)
    (handled : Callback × EventHandlerManager) (h : r.eventHandler.eventType < tdiEventHandlersMax) :
    (s.send r handled).transport r.node ⟨r.eventHandler.eventType, h⟩ = handled.1 := by
  simp [send, h]

theorem send_last_self (s : HookedTransport) (r : SetEventRequest)
    (handled : Callback × EventHandlerManager) (h : r.eventHandler.eventType < tdiEventHandlersMax) :
    (s.send r handled).last r.node ⟨r.eventHandler.eventType, h⟩ =
      (r.eventHandler.eventHandler, r.eventHandler.eventContext) := by
  simp [send, h]

/-- Every other slot is as before. -/
theorem send_of_ne (s : HookedTransport) (r : SetEventRequest)
    (handled : Callback × EventHandlerManager) {node : FileObject} {eventType : Fin tdiEventHandlersMax}
    (h : ¬(node = r.node ∧ eventType.val = r.eventHandler.eventType)) :
    (s.send r handled).transport node eventType = s.transport node eventType ∧
      (s.send r handled).last node eventType = s.last node eventType := by
  rw [send]
  split
  · next hlt =>
      by_cases hnode : node = r.node
      · subst hnode
        have hne : eventType ≠ ⟨r.eventHandler.eventType, hlt⟩ := fun he =>
          h ⟨rfl, congrArg Fin.val he⟩
        simp [Function.update_of_ne hne]
      · simp [Function.update_of_ne hnode]
  · exact ⟨rfl, rfl⟩

/-- What a request sends on is what the manager made of it. -/
theorem exists_handled (s : HookedTransport) (r : SetEventRequest) : ∃ handled,
    EventHandlerManager.Handled s.manager r.node r.eventHandler r.memory handled ∧
      s.set r = s.send r handled :=
  ⟨_, EventHandlerManager.handled s.manager r.node r.eventHandler r.memory, rfl⟩

theorem mem_hookedSlots {node : FileObject} {eventType : Fin tdiEventHandlersMax} :
    eventType ∈ s.hookedSlots node ↔ (s.transport node eventType).isHooked = true := by
  simp [hookedSlots]

theorem hookedSlots_send_pos (s : HookedTransport) (r : SetEventRequest)
    (handled : Callback × EventHandlerManager) (h : r.eventHandler.eventType < tdiEventHandlersMax)
    (hooked : handled.1.isHooked = true) : 0 < ((s.send r handled).hookedSlots r.node).card := by
  refine Finset.card_pos.mpr ⟨⟨r.eventHandler.eventType, h⟩, mem_hookedSlots.mpr ?_⟩
  rw [send_transport_self]
  exact hooked

/-- A request that hooks nothing leaves all as it is. -/
theorem Untouched.set (hs : s.Untouched) (hr : ¬r.Hooks) : (s.set r).Untouched := by
  have hnone : s.manager.eventHandlers.findValue r.node = none := by simp [hs.manager]
  obtain ⟨handled, hhandled, hsent⟩ := s.exists_handled r
  rw [hsent]
  cases hhandled with
  | unmanaged _ =>
      refine ⟨by rw [send_manager, hs.manager], fun node eventType => ?_⟩
      by_cases hself : node = r.node ∧ eventType.val = r.eventHandler.eventType
      · obtain ⟨rfl, heq⟩ := hself
        have hlt : r.eventHandler.eventType < tdiEventHandlersMax := heq ▸ eventType.isLt
        have hfin : eventType = ⟨r.eventHandler.eventType, hlt⟩ := Fin.ext heq
        rw [hfin, send_transport_self]
        rfl
      · rw [(send_of_ne s r _ hself).1]
        exact hs.unhooked node eventType
  | removed h hnull hfind hkept => simp [hnone] at hfind
  | deleted h hnull hfind hzero => simp [hnone] at hfind
  | replaced h hset hroutine hfind => simp [hnone] at hfind
  | created h hset hroutine hfind hmemory => exact absurd ⟨h, hset, hmemory⟩ hr

/-- Where one is hooked in an untouched node, the counter is behind. -/
theorem Untouched.not_sound (hs : s.Untouched) (hr : r.Hooks) : ¬(s.set r).Sound := by
  obtain ⟨hlt, hset, hmemory⟩ := hr
  have hnone : s.manager.eventHandlers.findValue r.node = none := by simp [hs.manager]
  obtain ⟨handled, hhandled, hsent⟩ := s.exists_handled r
  rw [hsent]
  cases hhandled with
  | unmanaged h =>
      rcases h with hlarge | ⟨-, hnull | hfull⟩
      · exact absurd hlt (Nat.not_lt.mpr hlarge)
      · exact absurd hnull hset
      · simp [hmemory] at hfull
  | removed h hnull hfind hkept => exact absurd hnull hset
  | deleted h hnull hfind hzero => exact absurd hnull hset
  | replaced h hset hroutine hfind => simp [hnone] at hfind
  | @created routine h hset hroutine hfind hmemory =>
      intro hsound
      obtain ⟨address, hfound⟩ := Option.isSome_iff_exists.mp
        ((hsound.managed r.node).mpr (hookedSlots_send_pos s r _ h rfl))
      obtain ⟨v, hv, hcount⟩ := hsound.counted r.node address hfound
      rw [send_manager] at hfound hv
      cases hpair : r.memory.pair with
      | false => simp [hpair, hnone] at hfound
      | true =>
          have haddress : s.manager.allocated = address := by
            simpa [hpair, HashMap.findValue_insert_self _ hnone] using hfound
          have hzero : v.numHandlers = 0 := by
            obtain rfl : _ = v := by simpa [← haddress] using hv
            rfl
          rw [hzero] at hcount
          exact hcount.not_lt (hookedSlots_send_pos s r _ h rfl)

/-- **The slots and the counters agree all along just if nothing is hooked.** -/
theorem sound_throughout_iff (requests : List SetEventRequest) :
    machine.Throughout Sound requests {} ↔ ∀ r ∈ requests, ¬r.Hooks := by
  have hrun : ∀ (rs : List SetEventRequest) (s : HookedTransport), ∃ s', machine.run rs s = some s' := by
    intro rs
    induction rs with
    | nil => exact fun s => ⟨s, rfl⟩
    | cons r rs ih => exact fun s => ih (s.set r)
  obtain ⟨s', hs'⟩ := hrun requests {}
  rw [← Machine.meets_iff_forall hs']
  refine Machine.throughout_iff_meets (fun s hs => Untouched.sound hs) ?_
    ⟨rfl, fun _ _ => rfl⟩ hs'
  intro s r s₁ hs hnext
  obtain rfl : s.set r = s₁ := Option.some.inj hnext
  refine ⟨hs.set, fun hsound => ?_⟩
  intro hhooks
  exact hs.not_sound hhooks hsound

/-- A handler for connections on one file object. -/
def listening : SetEventRequest where
  node := 1
  eventHandler := { eventType := 0, eventHandler := 0x1000, eventContext := 0x2000 }

/-- One slot is hooked, and the counter of the node is 0. -/
theorem first_hook_not_counted : ¬machine.Throughout Sound [listening] {} := by
  rintro ⟨-, hsound⟩
  obtain ⟨v, hv, hcount⟩ := Sound.counted hsound 1 0 rfl
  obtain rfl : (NodeEventHandler.create 1).hook 0 listening.eventHandler 1 = v := Option.some.inj hv
  have hone : ((({} : HookedTransport).set listening).hookedSlots 1).card = 1 := by decide
  have hzero : ((NodeEventHandler.create 1).hook 0 listening.eventHandler 1).numHandlers.toNat = 0 := rfl
  exact absurd (hzero.symm.trans (hcount.trans hone)) (by decide)

/-! ## The hooks while the counter does not come round -/

/-- After `n` requests: the map and the slots behind the hooks. -/
structure Tracked (n : Nat) (s : HookedTransport) : Prop where
  distinct : s.manager.eventHandlers.Distinct
  bounded : ∀ address v, s.manager.eventHandlersPool address = some v →
    address < s.manager.allocated
  mapped : ∀ node address, s.manager.eventHandlers.findValue node = some address →
    ∃ v, s.manager.eventHandlersPool address = some v ∧ v.node = node ∧
      (v.numHandlers = 0 ∨ 2 ^ 32 ≤ v.numHandlers.toNat + n)
  hooked : ∀ node eventType routine address slot,
    s.transport node eventType = .hooked routine address slot →
      slot = eventType ∧ ∃ v, s.manager.eventHandlersPool address = some v ∧ v.node = node ∧
        v.handlers eventType =
          { node
            originalHandler := ⟨eventType, (s.last node eventType).1, (s.last node eventType).2⟩ }

theorem Tracked.init : Tracked 0 {} where
  distinct := HashMap.Distinct.initialise
  bounded _ _ h := nomatch h
  mapped _ _ h := nomatch h
  hooked _ _ _ _ _ h := nomatch h

/-- The slots of the hooks, where every node event handler is kept but for the slot of the request. -/
theorem Tracked.hooked_send {n : Nat} (hs : s.Tracked n) {handled : Callback × EventHandlerManager}
    (hframe : ∀ address v, s.manager.eventHandlersPool address = some v →
      ∃ v', handled.2.eventHandlersPool address = some v' ∧ v'.node = v.node ∧
        ∀ eventType : Fin tdiEventHandlersMax,
          ¬(v.node = r.node ∧ eventType.val = r.eventHandler.eventType) →
            v'.handlers eventType = v.handlers eventType)
    (hnew : ∀ routine address slot, handled.1 = .hooked routine address slot →
      slot.val = r.eventHandler.eventType ∧
        ∃ v, handled.2.eventHandlersPool address = some v ∧ v.node = r.node ∧
          v.handlers slot = { node := r.node, originalHandler := r.eventHandler }) :
    ∀ node eventType routine address slot,
      (s.send r handled).transport node eventType = .hooked routine address slot →
        slot = eventType ∧ ∃ v, handled.2.eventHandlersPool address = some v ∧ v.node = node ∧
          v.handlers eventType =
            { node
              originalHandler := ⟨eventType, ((s.send r handled).last node eventType).1,
                ((s.send r handled).last node eventType).2⟩ } := by
  intro node eventType routine address slot htransport
  by_cases hself : node = r.node ∧ eventType.val = r.eventHandler.eventType
  · obtain ⟨rfl, heq⟩ := hself
    have hlt : r.eventHandler.eventType < tdiEventHandlersMax := heq ▸ eventType.isLt
    obtain rfl : eventType = ⟨r.eventHandler.eventType, hlt⟩ := Fin.ext heq
    rw [send_transport_self] at htransport
    obtain ⟨hslot, v, hv, hnode, hhandler⟩ := hnew routine address slot htransport
    obtain rfl : slot = ⟨r.eventHandler.eventType, hlt⟩ := Fin.ext hslot
    rw [send_last_self]
    exact ⟨rfl, v, hv, hnode, hhandler⟩
  · obtain ⟨hkept, hlast⟩ := send_of_ne s r handled hself
    rw [hkept] at htransport
    obtain ⟨rfl, v, hv, rfl, hhandler⟩ := hs.hooked node eventType routine address slot htransport
    obtain ⟨v', hv', hnode', hhandlers⟩ := hframe address v hv
    rw [hlast]
    exact ⟨rfl, v', hv', hnode', (hhandlers _ hself).trans hhandler⟩

/-- One more removed: the counter is below 0 by one more. -/
theorem counter_unhook {c : BitVec 32} {n : Nat} (hn : n + 1 < 2 ^ 32)
    (h : c = 0 ∨ 2 ^ 32 ≤ c.toNat + n) : c - 1 ≠ 0 ∧ 2 ^ 32 ≤ (c - 1).toNat + (n + 1) := by
  rcases h with rfl | h
  · exact ⟨by decide, by simp; omega⟩
  · have hc := c.isLt
    constructor
    · intro hzero
      have hone : c = 1 := by bv_omega
      rw [hone] at h
      simp at h
      omega
    · bv_omega

theorem counter_succ {c : BitVec 32} {n : Nat} (h : c = 0 ∨ 2 ^ 32 ≤ c.toNat + n) :
    c = 0 ∨ 2 ^ 32 ≤ c.toNat + (n + 1) :=
  h.imp_right fun hle => hle.trans (Nat.le_succ _)

theorem Tracked.mapped_succ {n : Nat} (hs : s.Tracked n) {node : FileObject} {address : Nat}
    (hfind : s.manager.eventHandlers.findValue node = some address) :
    ∃ v, s.manager.eventHandlersPool address = some v ∧
      v.node = node ∧ (v.numHandlers = 0 ∨ 2 ^ 32 ≤ v.numHandlers.toNat + (n + 1)) := by
  obtain ⟨v, hv, hnode, hcounter⟩ := hs.mapped node address hfind
  exact ⟨v, hv, hnode, counter_succ hcounter⟩

/-- A write to the slot of the request in the node event handler that is there already. -/
theorem Tracked.send_write {n : Nat} (hs : s.Tracked n) {address : Nat}
    (hfind : s.manager.eventHandlers.findValue r.node = some address)
    {f : NodeEventHandler → NodeEventHandler} {callback : Callback}
    (hnode : ∀ v, (f v).node = v.node)
    (hcounter : ∀ v, v.numHandlers = 0 ∨ 2 ^ 32 ≤ v.numHandlers.toNat + n →
      (f v).numHandlers = 0 ∨ 2 ^ 32 ≤ (f v).numHandlers.toNat + (n + 1))
    (hhandlers : ∀ v (eventType : Fin tdiEventHandlersMax),
      eventType.val ≠ r.eventHandler.eventType → (f v).handlers eventType = v.handlers eventType)
    (hnew : ∀ routine address' slot, callback = .hooked routine address' slot →
      address' = address ∧ slot.val = r.eventHandler.eventType ∧
        ∀ v, (f v).handlers slot = { node := r.node, originalHandler := r.eventHandler }) :
    (s.send r (callback, s.manager.write address f)).Tracked (n + 1) := by
  obtain ⟨v, hv, hvnode, hvcounter⟩ := hs.mapped r.node address hfind
  have hself : (s.manager.write address f).eventHandlersPool address = some (f v) := by
    simp [EventHandlerManager.write, hv]
  have hother : ∀ address', address' ≠ address →
      (s.manager.write address f).eventHandlersPool address' =
        s.manager.eventHandlersPool address' := fun address' h => Function.update_of_ne h _ _
  constructor
  · rw [send_manager]
    exact hs.distinct
  · rw [send_manager]
    intro address' v' hv'
    by_cases haddress : address' = address
    · exact haddress ▸ hs.bounded address v hv
    · exact hs.bounded address' v' ((hother address' haddress).symm.trans hv')
  · rw [send_manager]
    intro node address' hfind'
    by_cases haddress : address' = address
    · subst haddress
      obtain ⟨v', hv', hnode', -⟩ := hs.mapped node address' hfind'
      obtain rfl : v = v' := Option.some.inj (hv.symm.trans hv')
      exact ⟨f v, hself, (hnode v).trans hnode', hcounter v hvcounter⟩
    · obtain ⟨v', hv', hrest⟩ := hs.mapped_succ hfind'
      exact ⟨v', (hother address' haddress).trans hv', hrest⟩
  · rw [send_manager]
    refine hs.hooked_send ?_ ?_
    · intro address' v' hv'
      by_cases haddress : address' = address
      · subst haddress
        obtain rfl : v = v' := Option.some.inj (hv.symm.trans hv')
        exact ⟨f v, hself, hnode v, fun eventType hne => hhandlers v eventType fun he =>
          hne ⟨hvnode, he⟩⟩
      · exact ⟨v', (hother address' haddress).trans hv', rfl, fun _ _ => rfl⟩
    · intro routine address' slot hcallback
      obtain ⟨rfl, hslot, hhandler⟩ := hnew routine address' slot hcallback
      exact ⟨hslot, f v, hself, (hnode v).trans hvnode, hhandler v⟩

/-- The hooks keep their slots, by what the request does. -/
theorem Tracked.set {n : Nat} (hs : s.Tracked n) (hn : n + 1 < 2 ^ 32) (r : SetEventRequest) :
    (s.set r).Tracked (n + 1) := by
  obtain ⟨handled, hhandled, hsent⟩ := s.exists_handled r
  rw [hsent]
  cases hhandled with
  | unmanaged _ =>
      constructor
      · rw [send_manager]
        exact hs.distinct
      · rw [send_manager]
        exact hs.bounded
      · rw [send_manager]
        exact fun node address hfind => hs.mapped_succ hfind
      · rw [send_manager]
        refine hs.hooked_send (fun address v hv => ⟨v, hv, rfl, fun _ _ => rfl⟩) ?_
        intro routine address slot h
        cases h
  | removed h hnull hfind hkept =>
      refine hs.send_write hfind (fun v => rfl) (fun v hv => .inr (counter_unhook hn hv).2) ?_ ?_
      · intro v eventType hne
        exact Function.update_of_ne (fun he => hne (congrArg Fin.val he)) _ _
      · intro routine address slot h'
        cases h'
  | deleted h hnull hfind hzero =>
      obtain ⟨v, hv, hnode, hcounter⟩ := hs.mapped r.node _ hfind
      simp [hv] at hzero
      exact absurd hzero (counter_unhook hn hcounter).1
  | replaced h hset hroutine hfind =>
      refine hs.send_write hfind (fun v => rfl) (fun v hv => counter_succ hv) ?_ ?_
      · intro v eventType hne
        exact Function.update_of_ne (fun he => hne (congrArg Fin.val he)) _ _
      · intro routine address slot h'
        cases h'
        exact ⟨rfl, rfl, fun v => Function.update_self ..⟩
  | created h hset hroutine hfind hmemory =>
      have hfresh : ∀ address v, s.manager.eventHandlersPool address = some v →
          address ≠ s.manager.allocated := fun address v hv => Nat.ne_of_lt (hs.bounded address v hv)
      constructor
      · rw [send_manager]
        exact hs.distinct.insert _ _ hfind
      · rw [send_manager]
        intro address v hv
        by_cases haddress : address = s.manager.allocated
        · exact haddress ▸ Nat.lt_succ_self _
        · exact Nat.lt_succ_of_lt (hs.bounded address v
            ((Function.update_of_ne haddress _ _).symm.trans hv))
      · rw [send_manager]
        intro node address hfind'
        by_cases hnode : node = r.node
        · subst hnode
          cases hpair : r.memory.pair with
          | false => simp [hpair, hfind] at hfind'
          | true =>
              obtain rfl : s.manager.allocated = address := by
                simpa [hpair, HashMap.findValue_insert_self _ hfind] using hfind'
              exact ⟨_, Function.update_self .., rfl, .inl rfl⟩
        · have hfound : s.manager.eventHandlers.findValue node = some address := by
            simpa [HashMap.findValue_insert_of_ne _ _ _ hnode] using hfind'
          obtain ⟨v, hv, hrest⟩ := hs.mapped_succ hfound
          exact ⟨v, (Function.update_of_ne (hfresh address v hv) _ _).trans hv, hrest⟩
      · rw [send_manager]
        refine hs.hooked_send ?_ ?_
        · intro address v hv
          exact ⟨v, (Function.update_of_ne (hfresh address v hv) _ _).trans hv, rfl, fun _ _ => rfl⟩
        · intro routine address slot h'
          cases h'
          exact ⟨rfl, _, Function.update_self .., rfl, Function.update_self ..⟩

theorem Tracked.run : ∀ {requests : List SetEventRequest} {n : Nat} {s s' : HookedTransport},
    s.Tracked n → n + requests.length < 2 ^ 32 → machine.run requests s = some s' →
      s'.Tracked (n + requests.length)
  | [], _, _, _, hs, _, hrun => by
      obtain rfl := Option.some.inj hrun
      exact hs
  | r :: requests, n, s, s', hs, hn, hrun => by
      rw [List.length_cons, Nat.add_comm requests.length 1, ← Nat.add_assoc] at hn ⊢
      exact Tracked.run (hs.set (by omega) r) hn hrun

theorem Tracked.forwards {n : Nat} (hs : s.Tracked n) {node : FileObject}
    {eventType : Fin tdiEventHandlersMax} (h : eventType ∈ s.hookedSlots node) :
    s.manager.forwardsTo (s.transport node eventType) = some (s.last node eventType) := by
  rw [mem_hookedSlots] at h
  cases htransport : s.transport node eventType with
  | original _ _ =>
      rw [htransport] at h
      cases h
  | hooked routine address slot =>
      obtain ⟨rfl, v, hv, hnode, hhandler⟩ := hs.hooked node eventType routine address slot htransport
      simp [EventHandlerManager.forwardsTo, hv, hhandler]

/-- **Every hook forwards to what was set last for its slot**, for as long as the counter of a node
cannot have come round. -/
theorem forwards_last {requests : List SetEventRequest} (hlength : requests.length < 2 ^ 32)
    (hrun : machine.run requests {} = some s) (node : FileObject)
    (eventType : Fin tdiEventHandlersMax) (h : eventType ∈ s.hookedSlots node) :
    s.manager.forwardsTo (s.transport node eventType) = some (s.last node eventType) :=
  (Tracked.init.run (by rwa [Nat.zero_add]) hrun).forwards h

/-! ## What is set again at the end -/

/-- The hooks are in the map, and a slot that is not hooked is clear. -/
structure Managed (s : HookedTransport) : Prop where
  managed : ∀ node eventType routine address slot,
    s.transport node eventType = .hooked routine address slot →
      s.manager.eventHandlers.findValue node = some address
  filled : ∀ node address v eventType, s.manager.eventHandlers.findValue node = some address →
    s.manager.eventHandlersPool address = some v →
      (v.handlers eventType).originalHandler.eventHandler ≠ 0 → eventType ∈ s.hookedSlots node
  handler : ∀ node, ∀ eventType ∈ s.hookedSlots node, (s.last node eventType).1 ≠ 0

theorem Managed.init : Managed {} where
  managed _ _ _ _ _ h := nomatch h
  filled _ _ _ _ h := nomatch h
  handler node eventType h := by simp [mem_hookedSlots, Callback.isHooked] at h

/-- The slots of the other event types and file objects. -/
theorem mem_hookedSlots_send_of_ne {handled : Callback × EventHandlerManager} {node : FileObject}
    {eventType : Fin tdiEventHandlersMax}
    (h : ¬(node = r.node ∧ eventType.val = r.eventHandler.eventType)) :
    eventType ∈ (s.send r handled).hookedSlots node ↔ eventType ∈ s.hookedSlots node := by
  rw [mem_hookedSlots, mem_hookedSlots, (send_of_ne s r handled h).1]

/-- The handlers that are hooked are real ones if that of the request is. -/
theorem Managed.handler_send (hs : s.Managed) {handled : Callback × EventHandlerManager}
    (hnew : handled.1.isHooked = true → r.eventHandler.eventHandler ≠ 0) :
    ∀ node, ∀ eventType ∈ (s.send r handled).hookedSlots node,
      ((s.send r handled).last node eventType).1 ≠ 0 := by
  intro node eventType hmem
  by_cases hself : node = r.node ∧ eventType.val = r.eventHandler.eventType
  · obtain ⟨rfl, heq⟩ := hself
    have hlt : r.eventHandler.eventType < tdiEventHandlersMax := heq ▸ eventType.isLt
    obtain rfl : eventType = ⟨r.eventHandler.eventType, hlt⟩ := Fin.ext heq
    rw [mem_hookedSlots, send_transport_self] at hmem
    rw [send_last_self]
    exact hnew hmem
  · rw [(send_of_ne s r handled hself).2]
    exact hs.handler node eventType ((mem_hookedSlots_send_of_ne hself).mp hmem)

/-- The request at the slot of a hook, or the hook of before. -/
theorem transport_send_cases {handled : Callback × EventHandlerManager} {node : FileObject}
    {eventType : Fin tdiEventHandlersMax} {callback : Callback}
    (h : (s.send r handled).transport node eventType = callback) :
    (node = r.node ∧ eventType.val = r.eventHandler.eventType ∧ handled.1 = callback) ∨
      (¬(node = r.node ∧ eventType.val = r.eventHandler.eventType) ∧
        s.transport node eventType = callback) := by
  by_cases hself : node = r.node ∧ eventType.val = r.eventHandler.eventType
  · obtain ⟨rfl, heq⟩ := hself
    have hlt : r.eventHandler.eventType < tdiEventHandlersMax := heq ▸ eventType.isLt
    obtain rfl : eventType = ⟨r.eventHandler.eventType, hlt⟩ := Fin.ext heq
    rw [send_transport_self] at h
    exact .inl ⟨rfl, rfl, h⟩
  · exact .inr ⟨hself, (send_of_ne s r handled hself).1 ▸ h⟩

/-- A slot of the node event handler that was written is clear or hooked. -/
theorem Managed.filled_write {n : Nat} (hs : s.Managed) (ht : s.Tracked n) {address : Nat}
    (hfind : s.manager.eventHandlers.findValue r.node = some address)
    {f : NodeEventHandler → NodeEventHandler} {callback : Callback}
    (hhandlers : ∀ v (eventType : Fin tdiEventHandlersMax),
      eventType.val ≠ r.eventHandler.eventType → (f v).handlers eventType = v.handlers eventType)
    (hslot : ∀ v (eventType : Fin tdiEventHandlersMax), eventType.val = r.eventHandler.eventType →
      ((f v).handlers eventType).originalHandler.eventHandler ≠ 0 → callback.isHooked = true) :
    ∀ node address' v eventType, s.manager.eventHandlers.findValue node = some address' →
      (s.manager.write address f).eventHandlersPool address' = some v →
        (v.handlers eventType).originalHandler.eventHandler ≠ 0 →
          eventType ∈ (s.send r (callback, s.manager.write address f)).hookedSlots node := by
  intro node address' v eventType hfind' hv hfilled
  obtain ⟨v₀, hv₀, hnode₀, -⟩ := ht.mapped r.node address hfind
  by_cases haddress : address' = address
  · subst haddress
    obtain ⟨v₁, hv₁, hnode₁, -⟩ := ht.mapped node address' hfind'
    obtain rfl : v₀ = v₁ := Option.some.inj (hv₀.symm.trans hv₁)
    obtain rfl : r.node = node := hnode₀.symm.trans hnode₁
    obtain rfl : f v₀ = v := by simpa [EventHandlerManager.write, hv₀] using hv
    by_cases heq : eventType.val = r.eventHandler.eventType
    · have hlt : r.eventHandler.eventType < tdiEventHandlersMax := heq ▸ eventType.isLt
      obtain rfl : eventType = ⟨r.eventHandler.eventType, hlt⟩ := Fin.ext heq
      rw [mem_hookedSlots, send_transport_self]
      exact hslot v₀ _ heq hfilled
    · rw [hhandlers v₀ eventType heq] at hfilled
      exact (mem_hookedSlots_send_of_ne fun h => heq h.2).mpr
        (hs.filled _ _ v₀ eventType hfind hv₀ hfilled)
  · have hnode : node ≠ r.node := by
      rintro rfl
      exact haddress (Option.some.inj (hfind'.symm.trans hfind))
    have hbefore : s.manager.eventHandlersPool address' = some v :=
      (Function.update_of_ne haddress _ _).symm.trans hv
    exact (mem_hookedSlots_send_of_ne fun h => hnode h.1).mpr
      (hs.filled node address' v eventType hfind' hbefore hfilled)

theorem Managed.set {n : Nat} (hs : s.Managed) (ht : s.Tracked n) (hn : n + 1 < 2 ^ 32)
    (hr : r.Proper) : (s.set r).Managed := by
  obtain ⟨handled, hhandled, hsent⟩ := s.exists_handled r
  rw [hsent]
  have hreal : ¬(r.eventHandler.eventHandler = 0 ∧ r.eventHandler.eventContext = 0) →
      r.eventHandler.eventHandler ≠ 0 := fun hset hzero => hset ⟨hzero, hr.handler hzero⟩
  cases hhandled with
  | unmanaged hun =>
      constructor
      · intro node eventType routine address slot htransport
        rw [send_manager]
        rcases transport_send_cases htransport with ⟨-, -, hcallback⟩ | ⟨-, hbefore⟩
        · cases hcallback
        · exact hs.managed node eventType routine address slot hbefore
      · rw [send_manager]
        intro node address v eventType hfind hv hfilled
        refine (mem_hookedSlots_send_of_ne ?_).mpr (hs.filled node address v eventType hfind hv hfilled)
        rintro ⟨rfl, heq⟩
        rcases hun with hlarge | ⟨hnone, -⟩
        · exact absurd (heq ▸ eventType.isLt) (Nat.not_lt.mpr hlarge)
        · simp [hnone] at hfind
      · refine hs.handler_send ?_
        intro h
        cases h
  | @removed address h hnull hfind hkept =>
      constructor
      · intro node eventType routine address slot htransport
        rw [send_manager]
        rcases transport_send_cases htransport with ⟨-, -, hcallback⟩ | ⟨-, hbefore⟩
        · cases hcallback
        · exact hs.managed node eventType routine address slot hbefore
      · rw [send_manager]
        refine hs.filled_write ht hfind ?_ ?_
        · intro v eventType hne
          exact Function.update_of_ne (fun he => hne (congrArg Fin.val he)) _ _
        · intro v eventType heq hfilled
          obtain rfl : eventType = ⟨r.eventHandler.eventType, h⟩ := Fin.ext heq
          simp [NodeEventHandler.unhook] at hfilled
      · refine hs.handler_send ?_
        intro h
        cases h
  | deleted h hnull hfind hzero =>
      obtain ⟨v, hv, hnode, hcounter⟩ := ht.mapped r.node _ hfind
      simp [hv] at hzero
      exact absurd hzero (counter_unhook hn hcounter).1
  | @replaced address routine h hset hroutine hfind =>
      constructor
      · intro node eventType routine' address' slot htransport
        rw [send_manager]
        rcases transport_send_cases htransport with ⟨rfl, -, hcallback⟩ | ⟨-, hbefore⟩
        · cases hcallback
          exact hfind
        · exact hs.managed node eventType routine' address' slot hbefore
      · rw [send_manager]
        refine hs.filled_write ht hfind ?_ (fun _ _ _ _ => rfl)
        intro v eventType hne
        exact Function.update_of_ne (fun he => hne (congrArg Fin.val he)) _ _
      · exact hs.handler_send fun _ => hreal hset
  | @created routine h hset hroutine hfind hmemory =>
      constructor
      · intro node eventType routine' address slot htransport
        rw [send_manager]
        rcases transport_send_cases htransport with ⟨rfl, -, hcallback⟩ | ⟨hother, hbefore⟩
        · cases hcallback
          rw [hr.memory]
          exact HashMap.findValue_insert_self _ hfind
        · have hfound := hs.managed node eventType routine' address slot hbefore
          have hnode : node ≠ r.node := by
            rintro rfl
            simp [hfind] at hfound
          simpa [HashMap.findValue_insert_of_ne _ _ _ hnode] using hfound
      · rw [send_manager]
        intro node address v eventType hfind' hv hfilled
        by_cases hnode : node = r.node
        · subst hnode
          obtain rfl : s.manager.allocated = address := by
            simpa [hr.memory, HashMap.findValue_insert_self _ hfind] using hfind'
          simp only [Function.update_self] at hv
          obtain rfl : _ = v := Option.some.inj hv
          by_cases heq : eventType = ⟨r.eventHandler.eventType, h⟩
          · rw [heq, mem_hookedSlots, send_transport_self]
            rfl
          · simp [NodeEventHandler.hook, NodeEventHandler.create, Function.update_of_ne heq] at hfilled
        · have hfound : s.manager.eventHandlers.findValue node = some address := by
            simpa [HashMap.findValue_insert_of_ne _ _ _ hnode] using hfind'
          obtain ⟨v', hv', -⟩ := ht.mapped node address hfound
          have hne : address ≠ s.manager.allocated := Nat.ne_of_lt (ht.bounded address v' hv')
          exact (mem_hookedSlots_send_of_ne fun h => hnode h.1).mpr
            (hs.filled node address v eventType hfound
              ((Function.update_of_ne hne _ _).symm.trans hv) hfilled)
      · exact hs.handler_send fun _ => hreal hset

theorem Managed.run : ∀ {requests : List SetEventRequest} {n : Nat} {s s' : HookedTransport},
    s.Tracked n → s.Managed → n + requests.length < 2 ^ 32 → (∀ r ∈ requests, r.Proper) →
      machine.run requests s = some s' → s'.Managed
  | [], _, _, _, _, hs, _, _, hrun => by
      obtain rfl := Option.some.inj hrun
      exact hs
  | r :: requests, n, s, s', ht, hs, hn, hproper, hrun => by
      rw [List.length_cons] at hn
      obtain ⟨hr, hrest⟩ := List.forall_mem_cons.mp hproper
      exact Managed.run (ht.set (by omega) r) (hs.set ht (by omega) hr) (by omega) hrest hrun

/-- What is sent for the slots of a node: one request for each that is hooked. -/
theorem restore_eq_some {n : Nat} (ht : s.Tracked n) (hs : s.Managed) {node : FileObject}
    {address : Nat} {v : NodeEventHandler}
    (hfind : s.manager.eventHandlers.findValue node = some address)
    (hv : s.manager.eventHandlersPool address = some v) {eventType : Fin tdiEventHandlersMax}
    {x : FileObject × TdiEventHandler} :
    EventHandlerManager.restore (fun _ _ => true) (v.handlers eventType) eventType = some x ↔
      eventType ∈ s.hookedSlots node ∧
        x = (node, ⟨eventType, (s.last node eventType).1, (s.last node eventType).2⟩) := by
  have hslot : eventType ∈ s.hookedSlots node → v.handlers eventType =
      { node, originalHandler := ⟨eventType, (s.last node eventType).1, (s.last node eventType).2⟩ } := by
    intro hmem
    rw [mem_hookedSlots] at hmem
    cases htransport : s.transport node eventType with
    | original _ _ =>
        rw [htransport] at hmem
        cases hmem
    | hooked routine address' slot =>
        obtain ⟨-, v', hv', -, hhandler⟩ := ht.hooked node eventType routine address' slot htransport
        have hsame := hs.managed node eventType routine address' slot htransport
        obtain rfl : address = address' := Option.some.inj (hfind.symm.trans hsame)
        obtain rfl : v = v' := Option.some.inj (hv.symm.trans hv')
        exact hhandler
  constructor
  · intro hx
    by_cases hzero : (v.handlers eventType).originalHandler.eventHandler = 0
    · rw [EventHandlerManager.restore, if_pos hzero] at hx
      cases hx
    · have hmem := hs.filled node address v eventType hfind hv hzero
      rw [EventHandlerManager.restore, if_neg hzero, if_pos rfl, hslot hmem] at hx
      exact ⟨hmem, (Option.some.inj hx).symm⟩
  · rintro ⟨hmem, rfl⟩
    rw [EventHandlerManager.restore, hslot hmem, if_neg (hs.handler node eventType hmem), if_pos rfl]

theorem mem_visitor {n : Nat} (ht : s.Tracked n) (hs : s.Managed) {node : FileObject} {address : Nat}
    {v : NodeEventHandler} (hfind : s.manager.eventHandlers.findValue node = some address)
    (hv : s.manager.eventHandlersPool address = some v) {x : FileObject × TdiEventHandler} :
    x ∈ EventHandlerManager.destroyNodeEventHandlerVisitor (fun _ _ => true) v ↔
      ∃ eventType ∈ s.hookedSlots node, x = (node,
        ⟨eventType, (s.last node eventType).1, (s.last node eventType).2⟩) := by
  simp only [EventHandlerManager.destroyNodeEventHandlerVisitor, List.mem_filterMap,
    List.mem_finRange, true_and, restore_eq_some ht hs hfind hv]

theorem nodup_visitor {n : Nat} (ht : s.Tracked n) (hs : s.Managed) {node : FileObject}
    {address : Nat} {v : NodeEventHandler}
    (hfind : s.manager.eventHandlers.findValue node = some address)
    (hv : s.manager.eventHandlersPool address = some v) :
    (EventHandlerManager.destroyNodeEventHandlerVisitor (fun _ _ => true) v).Nodup := by
  refine (List.nodup_finRange tdiEventHandlersMax).filterMap ?_
  intro i i' x hx hx'
  obtain ⟨-, rfl⟩ := (restore_eq_some ht hs hfind hv).mp hx
  obtain ⟨-, hsame⟩ := (restore_eq_some ht hs hfind hv).mp hx'
  exact Fin.ext (congrArg (fun x : FileObject × TdiEventHandler => x.2.eventType) hsame)

/-- **What is set again is what was set last for the slots still hooked**, once each, where every
request had memory and set a real handler. -/
theorem restores_hooked {requests : List SetEventRequest} (hlength : requests.length < 2 ^ 32)
    (hproper : ∀ r ∈ requests, r.Proper) (hrun : machine.run requests {} = some s) :
    (s.manager.destroyEventHandlerManager fun _ _ => true).Nodup ∧
      ∀ node original,
        (node, original) ∈ s.manager.destroyEventHandlerManager (fun _ _ => true) ↔
          ∃ eventType ∈ s.hookedSlots node, original.eventType = eventType.val ∧
            (original.eventHandler, original.eventContext) = s.last node eventType := by
  have ht := Tracked.init.run (by rwa [Nat.zero_add]) hrun
  have hs := Managed.init.run Tracked.init (by rwa [Nat.zero_add]) hproper hrun
  have hpair : ∀ pair ∈ s.manager.eventHandlers.pairs, ∃ v,
      s.manager.eventHandlersPool pair.value = some v ∧
        s.manager.eventHandlers.findValue pair.key = some pair.value := by
    intro pair hmem
    have hfind := ht.distinct.mem_pairs.mp hmem
    obtain ⟨v, hv, -⟩ := ht.mapped pair.key pair.value hfind
    exact ⟨v, hv, hfind⟩
  constructor
  · refine List.nodup_flatMap.mpr ⟨?_, ?_⟩
    · intro pair hmem
      obtain ⟨v, hv, hfind⟩ := hpair pair hmem
      simp only [hv]
      exact nodup_visitor ht hs hfind hv
    · refine (List.Nodup.of_map _ ht.distinct.nodup_pairs).imp_of_mem ?_
      intro pair pair' hmem hmem' hne x hx hx'
      obtain ⟨v, hv, hfind⟩ := hpair pair hmem
      obtain ⟨v', hv', hfind'⟩ := hpair pair' hmem'
      simp only [hv, mem_visitor ht hs hfind hv] at hx
      simp only [hv', mem_visitor ht hs hfind' hv'] at hx'
      obtain ⟨_, _, hsame⟩ := hx
      obtain ⟨_, _, hsame'⟩ := hx'
      have hkey : pair.key = pair'.key := congrArg Prod.fst (hsame.symm.trans hsame')
      exact hne (List.inj_on_of_nodup_map ht.distinct.nodup_pairs hmem hmem' hkey)
  · intro node original
    rw [EventHandlerManager.destroyEventHandlerManager, List.mem_flatMap]
    constructor
    · rintro ⟨pair, hmem, hx⟩
      obtain ⟨v, hv, hfind⟩ := hpair pair hmem
      simp only [hv, mem_visitor ht hs hfind hv] at hx
      obtain ⟨eventType, hhooked, hsame⟩ := hx
      cases hsame
      exact ⟨eventType, hhooked, rfl, rfl⟩
    · rintro ⟨eventType, hhooked, htype, hlast⟩
      have hisHooked := mem_hookedSlots.mp hhooked
      cases htransport : s.transport node eventType with
      | original _ _ =>
          rw [htransport] at hisHooked
          cases hisHooked
      | hooked routine address slot =>
          have hfind := hs.managed node eventType routine address slot htransport
          obtain ⟨v, hv, -⟩ := ht.mapped node address hfind
          refine ⟨{ key := node, value := address }, ht.distinct.mem_pairs.mpr hfind, ?_⟩
          simp only [hv, mem_visitor ht hs hfind hv]
          refine ⟨eventType, hhooked, ?_⟩
          rw [← hlast, ← htype]

end HookedTransport

end CaptureHpc.Driver
