/-
# `Driver.OwnReports` — the events of careful steps

What a block holds is followed through the handlers: a block that belongs to a
connection has what was set for it last (`Assigned.HeldBy`), blocks that are
used again belong to one connection at a time, and a node has a pointer to a
block that is still its own.  Nothing of the kind is known of the routines that
are called later, so a careful step looks at the pointer of these itself.

Each write, each creation and each removal keeps `Consistent`; the handlers are
sequences of them.
-/
import CaptureHpc.Driver.NetworkReports
import Mathlib.Data.List.GetD

namespace CaptureHpc.Driver

namespace NetworkReports

/-! ## What was set and what is in the block -/

/-- Nothing that was set is missing. -/
structure Assigned.Within (set set' : Assigned) : Prop where
  localNodeAddresses : set.localNodeAddresses ⊆ set'.localNodeAddresses
  remoteNodeAddresses : set.remoteNodeAddresses ⊆ set'.remoteNodeAddresses
  processIds : set.processIds ⊆ set'.processIds

theorem Assigned.Within.refl (set : Assigned) : set.Within set :=
  ⟨List.Subset.refl _, List.Subset.refl _, List.Subset.refl _⟩

theorem Report.Own.mono {placeholders : Placeholders} {r : Report} {set set' : Assigned}
    (h : r.Own placeholders set) (hwithin : set.Within set') : r.Own placeholders set' where
  localAddress := h.localAddress.imp_right fun ⟨a, ha, htext⟩ =>
    ⟨a, hwithin.localNodeAddresses ha, htext⟩
  remoteAddress := h.remoteAddress.imp_right fun ⟨a, ha, htext⟩ =>
    ⟨a, hwithin.remoteNodeAddresses ha, htext⟩
  processId := h.processId.imp_right fun hid => hwithin.processIds hid

/-- A block has what was set last. -/
structure Assigned.HeldBy (set : Assigned) (c : Connection) : Prop where
  localAddress : ∀ a ∈ set.localNodeAddresses.head?, a.Whole →
    c.localNodeAddress.IsIp ∧ c.localNodeAddress.text = a.text
  remoteAddress : ∀ a ∈ set.remoteNodeAddresses.head?, a.Whole →
    c.remoteNodeAddress.IsIp ∧ c.remoteNodeAddress.text = a.text
  processId : ∀ v ∈ set.processIds.head?, c.processId = v

/-- Where nothing was set a block may have anything. -/
theorem Assigned.HeldBy.empty (c : Connection) : ({} : Assigned).HeldBy c where
  localAddress a h := absurd h (Option.not_mem_none a)
  remoteAddress a h := absurd h (Option.not_mem_none a)
  processId v h := absurd h (Option.not_mem_none v)

/-- A whole address hides what was in the buffer. -/
theorem setNodeAddress_whole {address : TaAddress} (addressBuffer : TaAddress) (h : address.Whole) :
    (setNodeAddress addressBuffer address).IsIp ∧
      (setNodeAddress addressBuffer address).text = address.text := by
  obtain ⟨hip, hlength⟩ := h
  refine ⟨hip, ?_⟩
  have hbyte : ∀ i < 6, (setNodeAddress addressBuffer address).byte i = address.byte i := by
    intro i hi
    have hlt : i < address.address.length := Nat.lt_of_lt_of_le hi hlength
    exact congrArg BitVec.toNat (List.getD_append _ _ _ _ hlt)
  rw [TaAddress.text, TaAddress.text, hbyte 0 (by decide), hbyte 1 (by decide),
    hbyte 2 (by decide), hbyte 3 (by decide), hbyte 4 (by decide), hbyte 5 (by decide)]

theorem addressToString_ip {address : TaAddress} (h : address.IsIp) (buffer : String) :
    addressToString (some address) buffer = address.text :=
  if_pos h

namespace Manager

variable {m m' : Manager} {p : ConnectionPointer} {node : FileObject} {sys : Surroundings}
  {placeholders : Placeholders}

/-- The process id of a connection was set. -/
def Identified (m : Manager) (p : ConnectionPointer) : Prop :=
  (m.assigned p.connection).processIds ≠ []

/-- If the connection is still there, it is where the pointer says. -/
def Placed (m : Manager) (p : ConnectionPointer) : Prop :=
  p.connection < m.created ∧ ∀ address, m.owner address = some p.connection → address = p.address

/-- What careful steps keep. -/
structure Consistent (placeholders : Placeholders) (m : Manager) : Prop where
  held : ∀ address c, m.owner address = some c → (m.assigned c).HeldBy (m.memory address)
  bound : ∀ address c, m.owner address = some c → c < m.created
  sole : ∀ address address' c, m.owner address = some c → m.owner address' = some c →
    address = address'
  fresh : ∀ c, m.created ≤ c → m.assigned c = {}
  distinct : m.connections.Distinct
  valid : ∀ node p, m.getConnection node = some p → m.Valid p
  unique : ∀ node node' p, m.getConnection node = some p → m.getConnection node' = some p →
    node = node'
  identified : ∀ node p, m.getConnection node = some p → m.Identified p
  awaited : ∀ routine ∈ m.pending, m.Identified routine.connection
  placed : ∀ routine ∈ m.pending, m.Placed routine.connection
  own : OwnReports placeholders m

theorem consistent_init (placeholders : Placeholders) (deviceType : DeviceType)
    (memory : Nat → Connection) : Consistent placeholders { deviceType, memory } where
  held _ c h := absurd h.symm (Option.some_ne_none c)
  bound _ c h := absurd h.symm (Option.some_ne_none c)
  sole _ _ c h := absurd h.symm (Option.some_ne_none c)
  fresh _ _ := rfl
  distinct := HashMap.Distinct.initialise
  valid _ p h := absurd h.symm (Option.some_ne_none p)
  unique _ _ p h := absurd h.symm (Option.some_ne_none p)
  identified _ p h := absurd h.symm (Option.some_ne_none p)
  awaited := List.forall_mem_nil _
  placed := List.forall_mem_nil _
  own := List.forall_mem_nil _

theorem Valid.harmless (h : m.Valid p) : m.Harmless p :=
  fun _ howner => Option.some.inj (howner.symm.trans h)

theorem Consistent.placed_of_valid (h : m.Consistent placeholders) (hvalid : m.Valid p) :
    m.Placed p :=
  ⟨h.bound _ _ hvalid, fun address howner => h.sole address _ _ howner hvalid⟩

/-! ## Writes to the block of a connection -/

theorem assigned_record_self (g : Assigned → Assigned) :
    (m.record p g).assigned p.connection = g (m.assigned p.connection) :=
  Function.update_self ..

theorem assigned_record_of_ne (g : Assigned → Assigned) {c : Nat} (hc : c ≠ p.connection) :
    (m.record p g).assigned c = m.assigned c :=
  Function.update_of_ne hc ..

theorem memory_write_self (f : Connection → Connection) :
    (m.write p f).memory p.address = f (m.memory p.address) :=
  Function.update_self ..

theorem memory_write_of_ne (f : Connection → Connection) {address : Nat} (h : address ≠ p.address) :
    (m.write p f).memory address = m.memory address :=
  Function.update_of_ne h ..

theorem within_record {g : Assigned → Assigned} (hwithin : ∀ set, Assigned.Within set (g set))
    (c : Nat) : (m.assigned c).Within ((m.record p g).assigned c) := by
  by_cases hc : c = p.connection
  · subst hc
    rw [assigned_record_self]
    exact hwithin _
  · rw [assigned_record_of_ne g hc]
    exact .refl _

theorem Identified.within {set : Assigned} (h : m.Identified p)
    (hwithin : (m.assigned p.connection).Within set) : set.processIds ≠ [] := by
  intro hempty
  exact h (List.subset_nil.mp (hempty ▸ hwithin.processIds))

/-- What is set for a connection is written to its block, or to none. -/
theorem Consistent.assign (h : m.Consistent placeholders) (hplaced : m.Placed p)
    (hharmless : m.Harmless p) {f : Connection → Connection} {g : Assigned → Assigned}
    (hheld : ∀ set c, Assigned.HeldBy set c → (g set).HeldBy (f c))
    (hwithin : ∀ set, Assigned.Within set (g set)) :
    ((m.write p f).record p g).Consistent placeholders where
  held address c howner := by
    have hold := h.held address c howner
    by_cases hc : c = p.connection
    · obtain rfl : address = p.address := hplaced.2 address (hc ▸ howner)
      subst hc
      have hblock : ((m.write p f).record p g).memory p.address = f (m.memory p.address) :=
        memory_write_self f
      rw [assigned_record_self, hblock]
      exact hheld _ _ hold
    · have haddress : address ≠ p.address := by
        rintro rfl
        exact hc (hharmless c howner)
      have hblock : ((m.write p f).record p g).memory address = m.memory address :=
        memory_write_of_ne f haddress
      rw [assigned_record_of_ne g hc, hblock]
      exact hold
  bound := h.bound
  sole := h.sole
  fresh c hc := by
    have hne : c ≠ p.connection := Nat.ne_of_gt (Nat.lt_of_lt_of_le hplaced.1 hc)
    exact (assigned_record_of_ne g hne).trans (h.fresh c hc)
  distinct := h.distinct
  valid := h.valid
  unique := h.unique
  identified node q hq := (h.identified node q hq).within (within_record (m := m.write p f) hwithin _)
  awaited routine hmem :=
    (h.awaited routine hmem).within (within_record (m := m.write p f) hwithin _)
  placed := h.placed
  own r hr := (h.own r hr).mono (within_record (m := m.write p f) hwithin _)

/-- A write to other fields of a block. -/
theorem Consistent.write (h : m.Consistent placeholders) (hvalid : m.Valid p)
    {f : Connection → Connection}
    (hother : ∀ c, (f c).localNodeAddress = c.localNodeAddress ∧
      (f c).remoteNodeAddress = c.remoteNodeAddress ∧ (f c).processId = c.processId) :
    (m.write p f).Consistent placeholders := by
  have hsame : (m.write p f).record p id = m.write p f := by
    rw [record, id, Function.update_eq_self]
  rw [← hsame]
  refine h.assign (h.placed_of_valid hvalid) hvalid.harmless ?_ .refl
  intro set c hheld
  obtain ⟨hlocal, hremote, hprocess⟩ := hother c
  refine ⟨?_, ?_, ?_⟩
  · rw [hlocal]
    exact hheld.localAddress
  · rw [hremote]
    exact hheld.remoteAddress
  · rw [hprocess]
    exact hheld.processId

theorem Consistent.setProcessId (h : m.Consistent placeholders) (hvalid : m.Valid p)
    (processId : BitVec 32) : (m.setProcessId p processId).Consistent placeholders := by
  refine h.assign (h.placed_of_valid hvalid) hvalid.harmless ?_ ?_
  · intro set c hheld
    exact ⟨hheld.localAddress, hheld.remoteAddress, fun v hv => Option.some.inj hv⟩
  · intro set
    exact ⟨List.Subset.refl _, List.Subset.refl _, List.subset_cons_self _ _⟩

theorem Consistent.setLocalNodeAddress (h : m.Consistent placeholders) (hplaced : m.Placed p)
    (hharmless : m.Harmless p) (address : TaAddress) : (m.setLocalNodeAddress p address).Consistent placeholders := by
  refine h.assign hplaced hharmless ?_ ?_
  · intro set c hheld
    refine ⟨?_, hheld.remoteAddress, hheld.processId⟩
    intro a ha hwhole
    obtain rfl := Option.some.inj ha
    exact setNodeAddress_whole _ hwhole
  · intro set
    exact ⟨List.subset_cons_self _ _, List.Subset.refl _, List.Subset.refl _⟩

theorem Consistent.setRemoteNodeAddress (h : m.Consistent placeholders) (hvalid : m.Valid p)
    (address : TaAddress) : (m.setRemoteNodeAddress p address).Consistent placeholders := by
  refine h.assign (h.placed_of_valid hvalid) hvalid.harmless ?_ ?_
  · intro set c hheld
    refine ⟨hheld.localAddress, ?_, hheld.processId⟩
    intro a ha hwhole
    obtain rfl := Option.some.inj ha
    exact setNodeAddress_whole _ hwhole
  · intro set
    exact ⟨List.Subset.refl _, List.subset_cons_self _ _, List.Subset.refl _⟩

/-- A routine is pending with a connection whose process id was set. -/
theorem Consistent.append (h : m.Consistent placeholders) {routine : Routine}
    (hvalid : m.Valid routine.connection) (hidentified : m.Identified routine.connection) :
    { m with pending := m.pending ++ [routine] }.Consistent placeholders := by
  refine { h with awaited := ?_, placed := ?_ }
  · intro r hr
    rcases List.mem_append.mp hr with hold | hnew
    · exact h.awaited r hold
    · exact List.mem_singleton.mp hnew ▸ hidentified
  · intro r hr
    rcases List.mem_append.mp hr with hold | hnew
    · exact h.placed r hold
    · rw [List.mem_singleton.mp hnew]
      exact h.placed_of_valid hvalid

theorem Consistent.await (h : m.Consistent placeholders) {routine : Routine}
    (hvalid : m.Valid routine.connection) (hidentified : m.Identified routine.connection) (sys : Surroundings) :
    (m.await routine sys).Consistent placeholders := by
  rw [Manager.await]
  split
  · exact h.append hvalid hidentified
  · exact h

theorem Consistent.getLocalAddress (h : m.Consistent placeholders) (hvalid : m.Valid p)
    (hidentified : m.Identified p) (sys : Surroundings) :
    (m.getLocalAddress p sys).Consistent placeholders := by
  rw [Manager.getLocalAddress]
  split
  · exact h
  · exact h.setLocalNodeAddress (h.placed_of_valid hvalid) hvalid.harmless _
  · exact h.append hvalid hidentified

/-! ## Events -/

/-- **The event of a connection that is known.** -/
theorem report_own (h : m.Consistent placeholders) (hknown : m.Known p)
    (hidentified : m.Identified p) (state : ConnectionState) (sys : Surroundings) :
    (m.report p state sys).Own placeholders (m.assigned p.connection) := by
  have hheld := h.held p.address p.connection hknown.valid
  obtain ⟨a, ha, hwhole⟩ := hknown.localAddress
  obtain ⟨b, hb, hwhole'⟩ := hknown.remoteAddress
  obtain ⟨hip, htext⟩ := hheld.localAddress a ha hwhole
  obtain ⟨hip', htext'⟩ := hheld.remoteAddress b hb hwhole'
  obtain ⟨v, hv⟩ := Option.ne_none_iff_exists'.mp
    (fun hnone => hidentified (List.head?_eq_none_iff.mp hnone))
  refine ⟨.inr ⟨a, List.mem_of_mem_head? ha, ?_⟩, .inr ⟨b, List.mem_of_mem_head? hb, ?_⟩, .inr ?_⟩
  · exact (addressToString_ip hip _).trans htext
  · exact (addressToString_ip hip' _).trans htext'
  · have hprocess : (m.report p state sys).processId = v := hheld.processId v hv
    rw [hprocess]
    exact List.mem_of_mem_head? hv

theorem Consistent.setConnectionState (h : m.Consistent placeholders) (hknown : m.Known p)
    (hidentified : m.Identified p) (state : ConnectionState) (sys : Surroundings) :
    (m.setConnectionState p state sys).Consistent placeholders := by
  have hwrite : (m.write p fun c => { c with state }).Consistent placeholders :=
    h.write hknown.valid fun _ => ⟨rfl, rfl, rfl⟩
  refine { hwrite with own := ?_ }
  intro r hr
  rcases List.mem_append.mp hr with hold | hnew
  · exact h.own r hold
  · rw [List.mem_singleton.mp hnew]
    exact report_own h hknown hidentified state sys

/-! ## Addresses that are known -/

section Known

variable {address : TaAddress} {c : Nat}

theorem owner_getLocalAddress (m : Manager) (p : ConnectionPointer) (sys : Surroundings) :
    (m.getLocalAddress p sys).owner = m.owner := by
  rw [getLocalAddress]
  split <;> rfl

/-- Setting a local address leaves the rest of what was set. -/
theorem assigned_setLocalNodeAddress (address : TaAddress) (c : Nat) :
    ((m.setLocalNodeAddress p address).assigned c).remoteNodeAddresses =
        (m.assigned c).remoteNodeAddresses ∧
      ((m.setLocalNodeAddress p address).assigned c).processIds = (m.assigned c).processIds := by
  by_cases hc : c = p.connection
  · subst hc
    rw [setLocalNodeAddress, assigned_record_self]
    exact ⟨rfl, rfl⟩
  · rw [setLocalNodeAddress, assigned_record_of_ne _ hc]
    exact ⟨rfl, rfl⟩

theorem assigned_setRemoteNodeAddress (address : TaAddress) (c : Nat) :
    ((m.setRemoteNodeAddress p address).assigned c).localNodeAddresses =
        (m.assigned c).localNodeAddresses ∧
      ((m.setRemoteNodeAddress p address).assigned c).processIds = (m.assigned c).processIds := by
  by_cases hc : c = p.connection
  · subst hc
    rw [setRemoteNodeAddress, assigned_record_self]
    exact ⟨rfl, rfl⟩
  · rw [setRemoteNodeAddress, assigned_record_of_ne _ hc]
    exact ⟨rfl, rfl⟩

theorem assigned_getLocalAddress (sys : Surroundings) (c : Nat) :
    ((m.getLocalAddress p sys).assigned c).remoteNodeAddresses =
        (m.assigned c).remoteNodeAddresses ∧
      ((m.getLocalAddress p sys).assigned c).processIds = (m.assigned c).processIds := by
  rw [getLocalAddress]
  split
  · exact ⟨rfl, rfl⟩
  · exact assigned_setLocalNodeAddress _ c
  · exact ⟨rfl, rfl⟩

theorem LocalKnown.congr {answer : LocalAddress} (h : m.LocalKnown c answer)
    (hsame : (m'.assigned c).localNodeAddresses = (m.assigned c).localNodeAddresses) :
    m'.LocalKnown c answer := by
  cases answer with
  | failed => exact (congrArg NewestIsWhole hsame).mpr h
  | answered address => exact h
  | late => exact (congrArg NewestIsWhole hsame).mpr h

theorem RemoteKnown.congr {answer : Option TaAddress} (h : m.RemoteKnown c answer)
    (hsame : (m'.assigned c).remoteNodeAddresses = (m.assigned c).remoteNodeAddresses) :
    m'.RemoteKnown c answer := by
  cases answer with
  | none => exact (congrArg NewestIsWhole hsame).mpr h
  | some address => exact h

theorem localKnown_getLocalAddress (h : m.LocalKnown p.connection sys.localAddress) :
    (m.getLocalAddress p sys).LocalKnown p.connection .failed := by
  rw [getLocalAddress]
  cases hanswer : sys.localAddress with
  | failed =>
      rw [hanswer] at h
      exact h
  | answered address =>
      rw [hanswer] at h
      have hnewest : ((m.setLocalNodeAddress p address).assigned p.connection).localNodeAddresses =
          address :: (m.assigned p.connection).localNodeAddresses := by
        rw [setLocalNodeAddress, assigned_record_self]
        rfl
      refine ⟨address, ?_, h⟩
      rw [hnewest]
      rfl
  | late =>
      rw [hanswer] at h
      exact h

theorem remoteKnown_setRemoteNodeAddress (h : address.Whole) :
    (m.setRemoteNodeAddress p address).RemoteKnown p.connection none := by
  have hnewest : ((m.setRemoteNodeAddress p address).assigned p.connection).remoteNodeAddresses =
      address :: (m.assigned p.connection).remoteNodeAddresses := by
    rw [setRemoteNodeAddress, assigned_record_self]
    rfl
  refine ⟨address, ?_, h⟩
  rw [hnewest]
  rfl

/-- The local address is asked for, the remote one is set, and both are reported. -/
theorem Consistent.tell (h : m.Consistent placeholders) (hvalid : m.Valid p)
    (hidentified : m.Identified p) (hlocal : m.LocalKnown p.connection sys.localAddress)
    (hremote : address.Whole) (state : ConnectionState) :
    (((m.getLocalAddress p sys).setRemoteNodeAddress p address).setConnectionState p state
        sys).Consistent placeholders ∧
      (((m.getLocalAddress p sys).setRemoteNodeAddress p address).setConnectionState p state
        sys).Identified p := by
  have hvalid' : (m.getLocalAddress p sys).Valid p := by
    rw [Valid, owner_getLocalAddress]
    exact hvalid
  have hidentified' : ((m.getLocalAddress p sys).setRemoteNodeAddress p address).Identified p := by
    rw [Identified, (assigned_setRemoteNodeAddress address p.connection).2,
      (assigned_getLocalAddress sys p.connection).2]
    exact hidentified
  have hknown : ((m.getLocalAddress p sys).setRemoteNodeAddress p address).Known p := by
    refine ⟨hvalid', ?_, remoteKnown_setRemoteNodeAddress hremote⟩
    exact (localKnown_getLocalAddress hlocal).congr
      (assigned_setRemoteNodeAddress address p.connection).1
  exact ⟨((h.getLocalAddress hvalid hidentified sys).setRemoteNodeAddress hvalid' address
    ).setConnectionState hknown hidentified' state sys, hidentified'⟩

end Known

/-! ## The nodes -/

/-- There are fewer nodes, or nodes with fewer connections. -/
theorem Consistent.restrict (h : m.Consistent placeholders) {connections : HashMap ConnectionNode}
    (hdistinct : connections.Distinct)
    (hfewer : ∀ node p, { m with connections }.getConnection node = some p →
      m.getConnection node = some p) : { m with connections }.Consistent placeholders where
  held := h.held
  bound := h.bound
  sole := h.sole
  fresh := h.fresh
  distinct := hdistinct
  valid node q hq := h.valid node q (hfewer node q hq)
  unique node node' q hq hq' := h.unique node node' q (hfewer node q hq) (hfewer node' q hq')
  identified node q hq := h.identified node q (hfewer node q hq)
  awaited := h.awaited
  placed := h.placed
  own := h.own

/-- The block of a connection that no node has is free again. -/
theorem Consistent.removeConnection (h : m.Consistent placeholders) (hvalid : m.Valid p)
    (hunheld : ∀ node, m.getConnection node ≠ some p) :
    (m.removeConnection p).Consistent placeholders := by
  have hfewer : ∀ address c, (m.removeConnection p).owner address = some c →
      address ≠ p.address ∧ m.owner address = some c := by
    intro address c howner
    by_cases haddress : address = p.address
    · subst haddress
      have hfree : (m.removeConnection p).owner p.address = none := Function.update_self ..
      exact absurd (howner.symm.trans hfree) (Option.some_ne_none c)
    · have hsame : (m.removeConnection p).owner address = m.owner address :=
        Function.update_of_ne haddress ..
      exact ⟨haddress, hsame.symm.trans howner⟩
  refine { h with held := ?_, bound := ?_, sole := ?_, valid := ?_, placed := ?_ }
  · intro address c howner
    exact h.held address c (hfewer address c howner).2
  · intro address c howner
    exact h.bound address c (hfewer address c howner).2
  · intro address address' c howner howner'
    exact h.sole address address' c (hfewer address c howner).2 (hfewer address' c howner').2
  · intro node q hq
    have hvalid' : m.Valid q := h.valid node q hq
    have haddress : q.address ≠ p.address := by
      intro hsame
      have hconnection : q.connection = p.connection := by
        have howner : m.owner p.address = some q.connection := hsame ▸ hvalid'
        exact Option.some.inj (howner.symm.trans hvalid)
      have hpointer : q = p := by
        cases q
        cases p
        cases hsame
        cases hconnection
        rfl
      exact hunheld node (hpointer ▸ hq)
    exact (Function.update_of_ne haddress _ _).trans hvalid'
  · intro routine hr
    obtain ⟨hnumber, hplace⟩ := h.placed routine hr
    exact ⟨hnumber, fun address howner => hplace address (hfewer address _ howner).2⟩

theorem getConnection_setNodeConnection {v : ConnectionNode} {connection : Option ConnectionPointer}
    (h : m.connections.findValue node = some v) (node' : FileObject) :
    (m.setNodeConnection node connection).getConnection node' =
      if node' = node then connection else m.getConnection node' := by
  rw [getConnection, setNodeConnection, HashMap.findValue_modify]
  split
  · next hnode =>
      subst hnode
      rw [h]
      rfl
  · rfl

/-- A node gets a connection that no node has. -/
theorem Consistent.setNodeConnection (h : m.Consistent placeholders) {v : ConnectionNode}
    (hfind : m.connections.findValue node = some v) (hvalid : m.Valid p)
    (hidentified : m.Identified p) (hunheld : ∀ node', m.getConnection node' ≠ some p) :
    (m.setNodeConnection node (some p)).Consistent placeholders := by
  have hheld : ∀ node' q, (m.setNodeConnection node (some p)).getConnection node' = some q →
      (node' = node ∧ q = p) ∨ (node' ≠ node ∧ m.getConnection node' = some q) := by
    intro node' q hq
    rw [getConnection_setNodeConnection hfind] at hq
    split at hq
    · next hnode => exact .inl ⟨hnode, (Option.some.inj hq).symm⟩
    · next hnode => exact .inr ⟨hnode, hq⟩
  have hdistinct : (m.setNodeConnection node (some p)).connections.Distinct :=
    h.distinct.modify node fun v => { v with connection := some p }
  refine { h with distinct := hdistinct, valid := ?_, unique := ?_, identified := ?_ }
  · intro node' q hq
    rcases hheld node' q hq with ⟨-, rfl⟩ | ⟨-, hold⟩
    · exact hvalid
    · exact h.valid node' q hold
  · intro node₁ node₂ q hq₁ hq₂
    rcases hheld node₁ q hq₁ with ⟨rfl, rfl⟩ | ⟨-, hold₁⟩
    · rcases hheld node₂ q hq₂ with ⟨rfl, -⟩ | ⟨-, hold₂⟩
      · rfl
      · exact absurd hold₂ (hunheld node₂)
    · rcases hheld node₂ q hq₂ with ⟨-, rfl⟩ | ⟨-, hold₂⟩
      · exact absurd hold₁ (hunheld node₁)
      · exact h.unique node₁ node₂ q hold₁ hold₂
  · intro node' q hq
    rcases hheld node' q hq with ⟨-, rfl⟩ | ⟨-, hold⟩
    · exact hidentified
    · exact h.identified node' q hold

/-! ## The handlers -/

/-- The manager with a connection that was created. -/
structure Creates (m : Manager) (p : ConnectionPointer) (m' : Manager) : Prop where
  number : p.connection = m.created
  valid : m'.Valid p
  unheld : ∀ node, m'.getConnection node ≠ some p
  deviceType : m'.deviceType = m.deviceType
  connections : m'.connections = m.connections
  assigned : m'.assigned = m.assigned

/-- What a creation changes. -/
theorem createConnection_cases (hcreate : m.createConnection sys = (some p, m')) :
    ∃ address memory, p = ⟨address, m.created⟩ ∧ m.owner address = none ∧
      (∀ address' ≠ address, memory address' = m.memory address') ∧
      m' = { m with
        memory
        owner := Function.update m.owner address (some m.created)
        created := m.created + 1 } := by
  rw [createConnection] at hcreate
  cases hallocate : m.allocate sys with
  | none =>
      rw [hallocate] at hcreate
      exact absurd (congrArg Prod.fst hcreate).symm (Option.some_ne_none p)
  | some address =>
      rw [hallocate] at hcreate
      obtain ⟨hp, hm'⟩ := Prod.mk.inj hcreate
      obtain ⟨block, -, hblock⟩ := Option.bind_eq_some_iff.mp hallocate
      split at hblock
      · next hfree =>
          obtain rfl := Option.some.inj hblock
          exact ⟨block, _, (Option.some.inj hp).symm, hfree,
            fun address' haddress => Function.update_of_ne haddress .., hm'.symm⟩
      · exact absurd hblock.symm (Option.some_ne_none _)

theorem Consistent.createConnection (h : m.Consistent placeholders)
    (hcreate : m.createConnection sys = (some p, m')) :
    m'.Consistent placeholders ∧ Creates m p m' := by
  obtain ⟨address, memory, rfl, hfree, hother, rfl⟩ := createConnection_cases hcreate
  have hnew : ∀ address' c, Function.update m.owner address (some m.created) address' = some c →
      (address' = address ∧ c = m.created) ∨ (address' ≠ address ∧ m.owner address' = some c) := by
    intro address' c howner
    by_cases haddress : address' = address
    · subst haddress
      rw [Function.update_self] at howner
      exact .inl ⟨rfl, (Option.some.inj howner).symm⟩
    · rw [Function.update_of_ne haddress] at howner
      exact .inr ⟨haddress, howner⟩
  have hempty : m.assigned m.created = {} := h.fresh _ (Nat.le_refl _)
  refine ⟨⟨?_, ?_, ?_, ?_, h.distinct, ?_, h.unique, h.identified, h.awaited, ?_, h.own⟩,
    ⟨rfl, Function.update_self .., ?_, rfl, rfl, rfl⟩⟩
  · intro address' c howner
    rcases hnew address' c howner with ⟨-, rfl⟩ | ⟨haddress, hold⟩
    · show (m.assigned m.created).HeldBy _
      rw [hempty]
      exact .empty _
    · show (m.assigned c).HeldBy (memory address')
      rw [hother address' haddress]
      exact h.held address' c hold
  · intro address' c howner
    rcases hnew address' c howner with ⟨-, rfl⟩ | ⟨-, hold⟩
    · exact Nat.lt_succ_self _
    · exact Nat.lt_succ_of_lt (h.bound address' c hold)
  · intro a₁ a₂ c h₁ h₂
    rcases hnew a₁ c h₁ with ⟨rfl, rfl⟩ | ⟨-, hold₁⟩
    · rcases hnew a₂ _ h₂ with ⟨rfl, -⟩ | ⟨-, hold₂⟩
      · rfl
      · exact absurd (h.bound _ _ hold₂) (Nat.lt_irrefl _)
    · rcases hnew a₂ c h₂ with ⟨-, rfl⟩ | ⟨-, hold₂⟩
      · exact absurd (h.bound _ _ hold₁) (Nat.lt_irrefl _)
      · exact h.sole a₁ a₂ c hold₁ hold₂
  · intro c hc
    exact h.fresh c (Nat.le_of_succ_le hc)
  · intro node q hq
    have hold : m.owner q.address = some q.connection := h.valid node q hq
    have haddress : q.address ≠ address := by
      intro hsame
      rw [hsame, hfree] at hold
      exact absurd hold.symm (Option.some_ne_none _)
    exact (Function.update_of_ne haddress ..).trans hold
  · intro routine hr
    obtain ⟨hnumber, hplace⟩ := h.placed routine hr
    refine ⟨Nat.lt_succ_of_lt hnumber, fun address' howner => ?_⟩
    rcases hnew address' _ howner with ⟨-, hsame⟩ | ⟨-, hold⟩
    · exact absurd hsame (Nat.ne_of_lt hnumber)
    · exact hplace address' hold
  · intro node hheld
    exact Nat.lt_irrefl _ (h.bound _ _ (h.valid node _ hheld))

/-- The nodes and the process id of a connection are set, and a node gets it. -/
theorem Creates.fill {v : ConnectionNode} (hcreates : Creates m p m')
    (h : m'.Consistent placeholders) (hfind : m.connections.findValue node = some v)
    (localNode remoteNode : FileObject) (processId : BitVec 32) :
    ((((m'.setLocalNode p localNode).setRemoteNode p remoteNode).setProcessId p
        processId).setNodeConnection node (some p)).Consistent placeholders ∧
      ((((m'.setLocalNode p localNode).setRemoteNode p remoteNode).setProcessId p
        processId).setNodeConnection node (some p)).getConnection node = some p := by
  have hlocal : (m'.setLocalNode p localNode).Consistent placeholders :=
    h.write hcreates.valid fun _ => ⟨rfl, rfl, rfl⟩
  have hremote : ((m'.setLocalNode p localNode).setRemoteNode p remoteNode).Consistent placeholders :=
    hlocal.write hcreates.valid fun _ => ⟨rfl, rfl, rfl⟩
  have hidentified : (((m'.setLocalNode p localNode).setRemoteNode p remoteNode).setProcessId p
      processId).Identified p := by
    rw [Identified, setProcessId, assigned_record_self]
    exact List.cons_ne_nil _ _
  have hfind' : (((m'.setLocalNode p localNode).setRemoteNode p remoteNode).setProcessId p
      processId).connections.findValue node = some v := by
    rw [← hfind, ← hcreates.connections]
    rfl
  refine ⟨(hremote.setProcessId hcreates.valid processId).setNodeConnection hfind' hcreates.valid
    hidentified hcreates.unheld, ?_⟩
  rw [getConnection_setNodeConnection hfind', if_pos rfl]

/-- A connection that was created for a node. -/
theorem Consistent.createFor (h : m.Consistent placeholders) {v : ConnectionNode}
    (hfind : m.connections.findValue node = some v) {remoteNode : FileObject}
    (hcreate : m.createFor node v remoteNode sys = some m') :
    m'.Consistent placeholders ∧ ∃ p, m'.getConnection node = some p ∧ p.connection = m.created ∧
      (m'.assigned p.connection).localNodeAddresses = (m.assigned m.created).localNodeAddresses ∧
      (m'.assigned p.connection).remoteNodeAddresses = (m.assigned m.created).remoteNodeAddresses := by
  rw [Manager.createFor] at hcreate
  rcases hc : m.createConnection sys with ⟨created, m₁⟩
  rw [hc] at hcreate
  cases created with
  | none => exact absurd hcreate.symm (Option.some_ne_none _)
  | some p =>
      obtain ⟨hm₁, hcreates⟩ := h.createConnection hc
      obtain ⟨hfilled, hget⟩ := hcreates.fill hm₁ hfind v.node remoteNode sys.processId
      obtain rfl := Option.some.inj hcreate
      have hset : ((((m₁.setLocalNode p v.node).setRemoteNode p remoteNode).setProcessId p
          sys.processId).setNodeConnection node (some p)).assigned p.connection =
            { m₁.assigned p.connection with
              processIds := sys.processId :: (m₁.assigned p.connection).processIds } :=
        Function.update_self ..
      refine ⟨hfilled, p, hget, hcreates.number, ?_, ?_⟩
      · rw [hset, hcreates.assigned, hcreates.number]
      · rw [hset, hcreates.assigned, hcreates.number]

theorem Consistent.associate (h : m.Consistent placeholders) (localNode : Option FileObject)
    (sys : Surroundings) : (m.tdiAssociateAddressHandler node localNode sys).Consistent placeholders := by
  cases localNode with
  | none => exact h
  | some localNode =>
      rw [tdiAssociateAddressHandler]
      rcases hc : m.createConnection sys with ⟨created, m₁⟩
      cases created with
      | none =>
          have hsame : m₁ = m := by
            rw [Manager.createConnection] at hc
            split at hc
            · exact (Prod.mk.inj hc).2.symm
            · exact absurd (congrArg Prod.fst hc) (Option.some_ne_none _)
          exact hsame ▸ h
      | some p =>
          obtain ⟨hm₁, hcreates⟩ := h.createConnection hc
          cases hremote : m.connections.findValue node with
          | none => exact hm₁
          | some v =>
              cases m.connections.findValue localNode with
              | none => exact hm₁
              | some v' => exact (hcreates.fill hm₁ hremote localNode node sys.processId).1

/-- The remote address is set, or was set before. -/
theorem Consistent.setRemoteIp (h : m.Consistent placeholders) (hvalid : m.Valid p)
    (hidentified : m.Identified p) {remoteAddress : Option TaAddress}
    (hremote : m.RemoteKnown p.connection (remoteAddress.filter fun a => a.IsIp)) :
    (m.setRemoteIp p remoteAddress).Consistent placeholders ∧
      (m.setRemoteIp p remoteAddress).Valid p ∧ (m.setRemoteIp p remoteAddress).Identified p ∧
      ((m.setRemoteIp p remoteAddress).assigned p.connection).localNodeAddresses =
        (m.assigned p.connection).localNodeAddresses ∧
      (m.setRemoteIp p remoteAddress).RemoteKnown p.connection none := by
  cases remoteAddress with
  | none => exact ⟨h, hvalid, hidentified, rfl, hremote⟩
  | some address =>
      by_cases hip : address.IsIp
      · rw [Option.filter_some, if_pos (decide_eq_true hip)] at hremote
        have hset := assigned_setRemoteNodeAddress (m := m) (p := p) address p.connection
        rw [Manager.setRemoteIp, if_pos hip]
        refine ⟨h.setRemoteNodeAddress hvalid address, hvalid, ?_, hset.1,
          remoteKnown_setRemoteNodeAddress hremote⟩
        rw [Identified, hset.2]
        exact hidentified
      · rw [Option.filter_some, decide_eq_false hip] at hremote
        rw [Manager.setRemoteIp, if_neg hip]
        exact ⟨h, hvalid, hidentified, rfl, hremote⟩

theorem Consistent.startConnect (h : m.Consistent placeholders) {remoteAddress : Option TaAddress}
    (hcareful : ∀ p, m.getConnection node = some p → m.LocalKnown p.connection sys.localAddress ∧
      m.RemoteKnown p.connection (remoteAddress.filter fun a => a.IsIp)) :
    (m.startConnect node remoteAddress sys).Consistent placeholders := by
  rw [Manager.startConnect]
  cases hget : m.getConnection node with
  | none => exact h
  | some p =>
      obtain ⟨hlocal, hremote⟩ := hcareful p hget
      obtain ⟨hset, hvalid, hidentified, hlocals, hremote'⟩ :=
        h.setRemoteIp (h.valid node p hget) (h.identified node p hget) hremote
      have hassigned :=
        assigned_getLocalAddress (m := m.setRemoteIp p remoteAddress) (p := p) sys p.connection
      have hvalid' : ((m.setRemoteIp p remoteAddress).getLocalAddress p sys).Valid p := by
        rw [Valid, owner_getLocalAddress]
        exact hvalid
      have hidentified' : ((m.setRemoteIp p remoteAddress).getLocalAddress p sys).Identified p := by
        rw [Identified, hassigned.2]
        exact hidentified
      have hknown : ((m.setRemoteIp p remoteAddress).getLocalAddress p sys).Known p :=
        ⟨hvalid', localKnown_getLocalAddress (hlocal.congr hlocals), hremote'.congr hassigned.1⟩
      have hreported :=
        (hset.getLocalAddress hvalid hidentified sys).setConnectionState hknown hidentified'
      refine (hreported _ sys).await ?_ ?_ sys
      · exact hvalid'
      · exact hidentified'

theorem Consistent.connect (h : m.Consistent placeholders) {remoteAddress : Option TaAddress}
    (hcareful : m.Careful (.connect node remoteAddress, sys))
    (hnext : m.tdiConnectHandler node remoteAddress sys = some m') : m'.Consistent placeholders := by
  rw [tdiConnectHandler] at hnext
  cases hfind : m.connections.findValue node with
  | none =>
      rw [hfind] at hnext
      exact Option.some.inj hnext ▸ h
  | some v =>
      rw [hfind] at hnext
      cases hdevice : m.deviceType with
      | tcpDevice =>
          simp only [hdevice] at hnext
          obtain rfl := Option.some.inj hnext
          refine h.startConnect fun p hget => hcareful p.connection ?_
          rw [connects, hdevice, hget]
          rfl
      | udpDevice =>
          simp only [hdevice] at hnext
          obtain ⟨m₁, hcreate, rfl⟩ := Option.map_eq_some_iff.mp hnext
          obtain ⟨hm₁, p, hget, hnumber, hlocals, hremotes⟩ := h.createFor hfind hcreate
          obtain ⟨hlocal, hremote⟩ := hcareful m.created (by rw [connects, hdevice, hfind]; rfl)
          refine hm₁.startConnect fun q hq => ?_
          obtain rfl : p = q := Option.some.inj (hget.symm.trans hq)
          rw [hnumber] at hlocals hremotes ⊢
          exact ⟨hlocal.congr hlocals, hremote.congr hremotes⟩

theorem Consistent.sendDatagram (h : m.Consistent placeholders) {remoteAddress : TaAddress}
    (hcareful : ∀ p, m.getConnection node = some p →
      m.LocalKnown p.connection sys.localAddress ∧ remoteAddress.Whole) :
    (m.sendDatagram node remoteAddress sys).Consistent placeholders := by
  rw [Manager.sendDatagram]
  cases hget : m.getConnection node with
  | none => exact h
  | some p =>
      obtain ⟨hlocal, hremote⟩ := hcareful p hget
      exact (h.tell (h.valid node p hget) (h.identified node p hget) hlocal hremote _).1

theorem Consistent.send (h : m.Consistent placeholders) {remoteAddress : TaAddress}
    (hcareful : m.Careful (.sendDatagram node remoteAddress, sys))
    (hnext : m.tdiSendDatagramHandler node remoteAddress sys = some m') :
    m'.Consistent placeholders := by
  rw [tdiSendDatagramHandler] at hnext
  cases hfind : m.connections.findValue node with
  | none =>
      rw [hfind] at hnext
      exact Option.some.inj hnext ▸ h
  | some v =>
      rw [hfind] at hnext
      cases hconnection : v.connection with
      | some p =>
          simp only [hconnection] at hnext
          obtain rfl := Option.some.inj hnext
          refine h.sendDatagram fun q hq => hcareful q.connection ?_
          have hget : m.getConnection node = some p := by
            rw [getConnection, hfind]
            exact hconnection
          obtain rfl : p = q := Option.some.inj (hget.symm.trans hq)
          rw [sends, hfind]
          simp only [Option.map_some, hconnection]
          rfl
      | none =>
          simp only [hconnection] at hnext
          obtain ⟨m₁, hcreate, rfl⟩ := Option.map_eq_some_iff.mp hnext
          obtain ⟨hm₁, p, hget, hnumber, hlocals, -⟩ := h.createFor hfind hcreate
          have hsends : m.created ∈ m.sends node := by
            rw [sends, hfind]
            simp only [Option.map_some, hconnection]
            rfl
          obtain ⟨hlocal, hremote⟩ := hcareful m.created hsends
          refine hm₁.sendDatagram fun q hq => ?_
          obtain rfl : p = q := Option.some.inj (hget.symm.trans hq)
          rw [hnumber] at hlocals ⊢
          exact ⟨hlocal.congr hlocals, hremote⟩

theorem Consistent.accept (h : m.Consistent placeholders) {remoteAddress : TaAddress}
    (hcareful : m.Careful (.accept node remoteAddress, sys)) :
    (m.tdiConnectEventHandler node remoteAddress sys).Consistent placeholders := by
  rw [tdiConnectEventHandler]
  cases hget : m.getConnection node with
  | none => exact h
  | some p =>
      obtain ⟨hlocal, hremote⟩ := hcareful p hget
      obtain ⟨htold, hidentified⟩ :=
        h.tell (h.valid node p hget) (h.identified node p hget) hlocal hremote .tcpStateSynRcvd
      refine htold.await ?_ ?_ sys
      · rw [Routine.connection, Valid]
        exact (congrFun (owner_getLocalAddress m p sys) p.address).trans (h.valid node p hget)
      · exact hidentified

theorem Consistent.disconnect (h : m.Consistent placeholders) {requestFlags : Nat}
    (hcareful : m.Careful (.disconnect node requestFlags, sys)) :
    (m.tdiDisconnectHandler node requestFlags sys).Consistent placeholders := by
  rw [tdiDisconnectHandler]
  cases hget : m.getConnection node with
  | none => exact h
  | some p =>
      cases hstate : stateToDisconnect (m.memory p.address).state requestFlags with
      | none =>
          simp only [hstate]
          exact h
      | some state =>
          simp only [hstate]
          have hreports : (stateToDisconnect (m.memory p.address).state requestFlags).isSome := by
            rw [hstate]
            rfl
          exact h.setConnectionState (hcareful p hget hreports) (h.identified node p hget) state sys

theorem Consistent.create (h : m.Consistent placeholders) (kind : FileKind) (sys : Surroundings) :
    (m.tdiCreateHandler node kind sys).Consistent placeholders := by
  have hadd : (m.addConnectionNode none node sys).Consistent placeholders := by
    rw [addConnectionNode]
    cases hfind : m.connections.findValue node with
    | some v => exact h
    | none =>
        refine h.restrict (h.distinct.insert _ _ hfind) ?_
        intro node' p hp
        by_cases hnode : node' = node
        · subst hnode
          cases hallocated : sys.node with
          | false =>
              rw [hallocated] at hp
              exact hp
          | true =>
              rw [hallocated, getConnection, HashMap.findValue_insert_self _ hfind] at hp
              exact absurd hp.symm (Option.some_ne_none p)
        · rw [getConnection, HashMap.findValue_insert_of_ne _ _ _ hnode] at hp
          exact hp
  cases kind with
  | transportAddress => exact hadd
  | connectionContext => exact hadd
  | other => exact h

/-- What a node had is not held when it was cleared. -/
theorem Consistent.clear (h : m.Consistent placeholders) (hget : m.getConnection node = some p) :
    (m.setNodeConnection node none).Consistent placeholders ∧
      ∀ node', (m.setNodeConnection node none).getConnection node' ≠ some p := by
  obtain ⟨v, hfind, -⟩ := Option.bind_eq_some_iff.mp hget
  have hcleared : ∀ node', (m.setNodeConnection node none).getConnection node' =
      if node' = node then none else m.getConnection node' := getConnection_setNodeConnection hfind
  constructor
  · refine h.restrict (h.distinct.modify node fun v => { v with connection := none }) ?_
    intro node' q hq
    have hq' := (hcleared node').symm.trans hq
    split at hq'
    · exact absurd hq'.symm (Option.some_ne_none q)
    · exact hq'
  · intro node' hheld
    rw [hcleared] at hheld
    split at hheld
    · exact absurd hheld.symm (Option.some_ne_none p)
    · next hnode => exact hnode (h.unique node' node p hheld hget)

theorem Consistent.disassociate (h : m.Consistent placeholders) (hnode : node ≠ 0) :
    (m.tdiDisassociateAddressHandler node).Consistent placeholders := by
  rw [tdiDisassociateAddressHandler]
  cases hget : m.getConnection node with
  | none => exact h
  | some p =>
      have hvalid := h.valid node p hget
      simp only [releaseConnectionNode, if_neg hnode]
      have hwritten : (m.write p fun c =>
          { c with
            localNode := if c.localNode = node then 0 else c.localNode
            remoteNode := if c.remoteNode = node then 0 else c.remoteNode }).Consistent placeholders :=
        h.write hvalid fun _ => ⟨rfl, rfl, rfl⟩
      obtain ⟨hcleared, hunheld⟩ := hwritten.clear hget
      exact hcleared.removeConnection hvalid hunheld

theorem Consistent.close (h : m.Consistent placeholders) (node : FileObject) :
    (m.removeConnectionNode node).Consistent placeholders := by
  have hgone : { m with connections := m.connections.remove node }.getConnection node = none := by
    rw [getConnection, HashMap.findValue_remove_self h.distinct]
    rfl
  have hother : ∀ node' ≠ node,
      { m with connections := m.connections.remove node }.getConnection node' =
        m.getConnection node' := by
    intro node' hnode
    rw [getConnection, HashMap.findValue_remove_of_ne _ hnode]
    rfl
  have hfewer : ∀ node' q,
      { m with connections := m.connections.remove node }.getConnection node' = some q →
        node' ≠ node ∧ m.getConnection node' = some q := by
    intro node' q hq
    by_cases hnode : node' = node
    · subst hnode
      exact absurd (hq.symm.trans hgone) (Option.some_ne_none q)
    · exact ⟨hnode, (hother node' hnode).symm.trans hq⟩
  have hremoved : { m with connections := m.connections.remove node }.Consistent placeholders :=
    h.restrict (h.distinct.remove node) fun node' q hq => (hfewer node' q hq).2
  rw [removeConnectionNode]
  cases hfind : m.connections.findValue node with
  | none => exact h
  | some v =>
      cases hconnection : v.connection with
      | none =>
          simp only [hconnection]
          exact hremoved
      | some p =>
          simp only [hconnection]
          have hget : m.getConnection node = some p := by
            rw [getConnection, hfind]
            exact hconnection
          have hfreed := hremoved.removeConnection (h.valid node p hget)
          refine hfreed fun node' hheld => ?_
          obtain ⟨hnode, hold⟩ := hfewer node' p hheld
          exact hnode (h.unique node' node p hold hget)

/-- A routine that finds its connection as it needs it. -/
theorem Consistent.call (h : m.Consistent placeholders) {routine : Routine} {success : Bool}
    (hplaced : m.Placed routine.connection) (hidentified : m.Identified routine.connection)
    (hcareful : m.RoutineCareful success sys routine) :
    (m.call routine success sys).Consistent placeholders := by
  cases routine with
  | tdiConnectHandlerComplete p =>
      cases success with
      | false => exact h
      | true =>
          have hreported := h.setConnectionState (hcareful rfl) hidentified
          rw [Manager.call, tdiConnectHandlerComplete, if_pos rfl]
          split
          · exact hreported _ sys
          · exact hreported _ sys
  | tdiConnectEventHandlerComplete p =>
      have hreported := h.setConnectionState hcareful hidentified
      rw [Manager.call, tdiConnectEventHandlerComplete]
      split
      · exact hreported _ sys
      · exact hreported _ sys
  | tdiDisconnectEventHandler p disconnectFlags =>
      rw [Manager.call, tdiDisconnectEventHandlerRest]
      cases hstate : stateDisconnected (m.memory p.address).state disconnectFlags with
      | none => exact h
      | some state =>
          have hreports : (stateDisconnected (m.memory p.address).state disconnectFlags).isSome := by
            rw [hstate]
            rfl
          exact h.setConnectionState (hcareful hreports) hidentified state sys
  | getLocalAddressComplete p =>
      rw [Manager.call, getLocalAddressComplete]
      split
      · next address hanswer => exact h.setLocalNodeAddress hplaced (hcareful address hanswer) address
      · exact h

/-- **A careful step.** -/
theorem Consistent.next {a : Action × Surroundings} (h : m.Consistent placeholders)
    (hcareful : m.Careful a) (hnext : NetworkReports.next m a = some m') :
    m'.Consistent placeholders := by
  obtain ⟨action, sys⟩ := a
  cases action with
  | create node kind => exact Option.some.inj hnext ▸ h.create kind sys
  | associate node localNode =>
      obtain ⟨-, hnext⟩ := Option.ite_none_left_eq_some.mp hnext
      exact Option.some.inj hnext ▸ h.associate localNode sys
  | disassociate node =>
      obtain ⟨hnode, hnext⟩ := Option.ite_none_left_eq_some.mp hnext
      exact Option.some.inj hnext ▸ h.disassociate hnode
  | connect node remoteAddress =>
      obtain ⟨-, hnext⟩ := Option.ite_none_left_eq_some.mp hnext
      exact h.connect hcareful hnext
  | disconnect node requestFlags =>
      obtain ⟨-, hnext⟩ := Option.ite_none_left_eq_some.mp hnext
      exact Option.some.inj hnext ▸ h.disconnect hcareful
  | send node =>
      obtain ⟨-, hnext⟩ := Option.ite_none_left_eq_some.mp hnext
      rw [← Option.some.inj hnext, tdiSendHandler]
      cases hget : m.getConnection node with
      | none => exact h
      | some p => exact h.getLocalAddress (h.valid node p hget) (h.identified node p hget) sys
  | sendDatagram node remoteAddress =>
      obtain ⟨-, hnext⟩ := Option.ite_none_left_eq_some.mp hnext
      exact h.send hcareful hnext
  | setEventHandler node eventHandler =>
      obtain ⟨-, hnext⟩ := Option.ite_none_left_eq_some.mp hnext
      rw [tdiSetEventHandler, if_neg hcareful] at hnext
      exact Option.some.inj hnext ▸ h
  | close node => exact Option.some.inj hnext ▸ h.close node
  | accept node remoteAddress => exact Option.some.inj hnext ▸ h.accept hcareful
  | disconnected node disconnectFlags =>
      rw [← Option.some.inj hnext, tdiDisconnectEventHandler]
      cases hget : m.getConnection node with
      | none => exact h
      | some p =>
          refine h.append ?_ ?_
          · exact h.valid node p hget
          · exact h.identified node p hget
  | complete i success =>
      obtain ⟨routine, hroutine, rfl⟩ := Option.map_eq_some_iff.mp hnext
      have hidentified : m.Identified routine.connection :=
        h.awaited routine (List.mem_of_getElem? hroutine)
      have hpending : { m with pending := m.pending.eraseIdx i }.Consistent placeholders :=
        { h with
          awaited := fun r hr => h.awaited r (List.mem_of_mem_eraseIdx hr)
          placed := fun r hr => h.placed r (List.mem_of_mem_eraseIdx hr) }
      have hplaced : m.Placed routine.connection :=
        h.placed routine (List.mem_of_getElem? hroutine)
      refine hpending.call hplaced hidentified ?_
      have hroutineCareful := hcareful routine hroutine
      cases routine with
      | tdiConnectHandlerComplete p => exact fun hs => ⟨(hroutineCareful hs).valid,
          (hroutineCareful hs).localAddress, (hroutineCareful hs).remoteAddress⟩
      | tdiConnectEventHandlerComplete p => exact ⟨hroutineCareful.valid,
          hroutineCareful.localAddress, hroutineCareful.remoteAddress⟩
      | tdiDisconnectEventHandler p flags => exact fun hs => ⟨(hroutineCareful hs).valid,
          (hroutineCareful hs).localAddress, (hroutineCareful hs).remoteAddress⟩
      | getLocalAddressComplete p => exact hroutineCareful
  | elsewhere address content =>
      rw [NetworkReports.next] at hnext
      split at hnext
      · next hfree =>
          obtain rfl := Option.some.inj hnext
          refine { h with held := ?_ }
          intro address' c howner
          have haddress : address' ≠ address := by
            rintro rfl
            exact absurd (howner.symm.trans hfree) (Option.some_ne_none c)
          show (m.assigned c).HeldBy (Function.update m.memory address content address')
          rw [Function.update_of_ne haddress]
          exact h.held address' c howner
      · exact absurd hnext.symm (Option.some_ne_none m')

end Manager

/-! ## Runs -/

variable {m : Manager}

/-- **The events of a careful run carry nothing but what was set for their connections.** -/
theorem reports_own (placeholders : Placeholders) {actions : List (Action × Surroundings)}
    (hinit : machine.init m) (hcareful : machine.Meets Manager.Careful actions m) :
    machine.Throughout (OwnReports placeholders) actions m := by
  obtain ⟨deviceType, memory, rfl⟩ := hinit
  refine Machine.throughout_of_meets (I := Manager.Consistent placeholders) (fun _ h => h.own) ?_
    (Manager.consistent_init placeholders deviceType memory) hcareful
  intro m a m' h hstep hnext
  exact h.next hstep hnext

/-- 10.0.0.1:80. -/
def webServer : TaAddress := ⟨tdiAddressTypeIp, [0, 80, 10, 0, 0, 1, 0, 0, 0, 0, 0, 0, 0, 0]⟩

/-- 10.0.0.2:1025. -/
def webClient : TaAddress := ⟨tdiAddressTypeIp, [4, 1, 10, 0, 0, 2, 0, 0, 0, 0, 0, 0, 0, 0]⟩

example : webClient.text = "10.0.0.2:1025" := by decide

/-- A connection to a server, in a block that another one has left. -/
theorem connect_reports_own : machine.Throughout (OwnReports ⟨noAddress, noAddress, 0⟩)
    [(.create 1 .transportAddress, {}), (.create 2 .connectionContext, {}),
      (.associate 2 (some 1), { block := some 0, processId := 1234 }),
      (.connect 2 (some webServer), { localAddress := .answered webClient }), (.complete 0 true, {})]
    { deviceType := .tcpDevice, memory := fun _ => { processId := 99 } } := by
  have hserver : webServer.Whole := ⟨rfl, by decide⟩
  have hclient : webClient.Whole := ⟨rfl, by decide⟩
  refine reports_own _ ⟨_, _, rfl⟩ ⟨trivial, trivial, trivial, ?_, ?_, trivial⟩
  · intro connection _
    exact ⟨hclient, hserver⟩
  · intro routine hroutine
    obtain rfl := Option.some.inj hroutine
    exact fun _ => ⟨rfl, ⟨webClient, rfl, hclient⟩, ⟨webServer, rfl, hserver⟩⟩

/-- The process id in the event of a listening socket is what was in the block, and what that is
nothing fixes. -/
theorem listen_reports_the_block :
    ¬∃ placeholders, ∀ (deviceType : DeviceType) (memory : Nat → Connection)
      (actions : List (Action × Surroundings)),
        machine.Throughout (OwnReports placeholders) actions { deviceType, memory } := by
  rintro ⟨placeholders, hown⟩
  have hreports := (hown .tcpDevice (fun _ => { processId := placeholders.processId + 1 })
    [(.create 1 .transportAddress, {}),
      (.setEventHandler 1 { eventHandler := 1 },
        { block := some 0, localAddress := .answered webServer })]).run rfl
  have hprocess := (hreports _ (List.mem_singleton_self _)).processId
  rcases hprocess with hfixed | hset
  · have hnext : placeholders.processId + 1 = placeholders.processId := hfixed
    bv_omega
  · exact absurd hset List.not_mem_nil

end NetworkReports

end CaptureHpc.Driver
