/-
# `Server.StateChangeHandler` — the process trees of one client

`StateChangeHandler` keeps a list of process trees.  A change goes into the
first tree that accepts it.  A process change that none accepts opens a tree.
An object change that none accepts opens one too, under a process change that
the handler infers from it: created by `CaptureClient.exe`, parent id 0.

Which changes open a tree can be read off the sequence alone, without building
the trees.  A change is filed under a process id (`holderId`), and that id
occurs among the trees exactly when an earlier change had it as its own process
id (`mem_processIds`).  So a change opens a tree exactly when no earlier change
has the process id it is to be filed under: `openers`, and `addAll_roots` says
that the roots of the trees are these, in order of arrival.
-/
import CaptureHpc.Server.StateChange

namespace CaptureHpc.Server

open Java KeyedForest

/-- `StateChangeHandler`: its one field. -/
structure StateChangeHandler where
  processTrees : List ProcessTree := []

namespace StateChangeHandler

/-- The process change inferred for an object change without a process.  The
source passes the id and the time through strings that the constructor reads
back. -/
def inferred (osc : ObjectStateChange) : ProcessStateChange where
  type := "process"
  time := osc.time
  parentProcessId := 0
  parentProcess := some "CaptureClient.exe"
  action := some "created"
  processId := osc.processId
  process := osc.process
  origin := none

/-- `addStateChange`, with the flag it returns. -/
def addStateChange (h : StateChangeHandler) (sc : StateChange) : StateChangeHandler × Bool :=
  match hangFirst ProcessStateChange.processId sc.holderId sc h.processTrees with
  | some trees => (⟨trees⟩, true)
  | none =>
      match sc with
      | .inr newPsc => (⟨h.processTrees ++ [.leaf newPsc]⟩, true)
      | .inl osc =>
          match ProcessTree.addStateChange (.leaf (inferred osc)) (.inl osc) with
          | some t => (⟨h.processTrees ++ [t]⟩, true)
          | none => (⟨h.processTrees ++ [.leaf (inferred osc)]⟩, false)

/-- The changes of a sequence, added in order. -/
def addAll (h : StateChangeHandler) (scs : List StateChange) : StateChangeHandler :=
  scs.foldl (fun h sc => (h.addStateChange sc).1) h

/-- The tree test of `getStateChangesCSV`. -/
def answersTo (processId : Int) (root : ProcessStateChange) : Bool :=
  root.processId == processId || root.parentProcessId == processId

/-- The tree `getStateChangesCSV` reports: the first that answers, or the only
one for process id 0. -/
def treeOf (h : StateChangeHandler) (processId : Int) : Option ProcessTree :=
  match h.processTrees.find? (fun t => answersTo processId t.root) with
  | some t => some t
  | none => if h.processTrees.length = 1 ∧ processId = 0 then h.processTrees.head? else none

/-- The changes whose lines `getStateChangesCSV` returns, in order. -/
def getStateChanges (h : StateChangeHandler) (processId : Int) : List StateChange :=
  match h.treeOf processId with
  | some t => ProcessTree.getAllStateChanges t
  | none => []

/-- The changes whose lines `getRemainderStateChangesCSV` returns, in order. -/
def getRemainderStateChanges (h : StateChangeHandler) (processIds : List Int) : List StateChange :=
  (h.processTrees.filter fun t => !processIds.contains (ProcessTree.getProcessId t)).flatMap
    ProcessTree.getAllStateChanges

/-- `getCSVofTree`, on the report of the tree. -/
def csvOf (scs : List StateChange) : String := String.join (scs.map StateChange.toCSV)

def getStateChangesCSV (h : StateChangeHandler) (processId : Int) : String :=
  csvOf (h.getStateChanges processId)

def getRemainderStateChangesCSV (h : StateChangeHandler) (processIds : List Int) : String :=
  csvOf (h.getRemainderStateChanges processIds)

/-! ## One change -/

theorem leaf_addStateChange (osc : ObjectStateChange) :
    ProcessTree.addStateChange (.leaf (inferred osc)) (.inl osc)
      = some (.node (inferred osc) [osc] []) := by
  simp [ProcessTree.addStateChange, Tree.leaf, Tree.hang, StateChange.holderId, inferred,
    Tree.addHere]

/-- The tree a change opens when none accepts it. -/
def opened : StateChange → ProcessTree
  | .inr psc => .leaf psc
  | .inl osc => .node (inferred osc) [osc] []

theorem addStateChange_cases (h : StateChangeHandler) (sc : StateChange) :
    (∃ trees, hangFirst ProcessStateChange.processId sc.holderId sc h.processTrees = some trees ∧
        h.addStateChange sc = (⟨trees⟩, true)) ∨
    (hangFirst ProcessStateChange.processId sc.holderId sc h.processTrees = none ∧
        h.addStateChange sc = (⟨h.processTrees ++ [opened sc]⟩, true)) := by
  cases hf : hangFirst ProcessStateChange.processId sc.holderId sc h.processTrees with
  | some trees => exact .inl ⟨trees, rfl, by simp only [addStateChange, hf]⟩
  | none =>
      refine .inr ⟨rfl, ?_⟩
      cases sc with
      | inr psc => simp only [addStateChange, hf, opened]
      | inl osc => simp only [addStateChange, hf, leaf_addStateChange, opened]

theorem addStateChange_added (h : StateChangeHandler) (sc : StateChange) :
    (h.addStateChange sc).2 = true := by
  rcases h.addStateChange_cases sc with ⟨trees, -, he⟩ | ⟨-, he⟩ <;> rw [he]

/-! ## Everything stored, and the process ids among it -/

/-- All changes in the trees, the inferred ones included. -/
def stored (h : StateChangeHandler) : List StateChange := elemsList h.processTrees

/-- The process ids of the nodes. -/
def processIds (h : StateChangeHandler) : List Int :=
  (valuesList h.processTrees).map ProcessStateChange.processId

/-- The root process changes, in the order of the trees. -/
def roots (h : StateChangeHandler) : List ProcessStateChange := h.processTrees.map Tree.root

theorem hangFirst_eq_none_iff (h : StateChangeHandler) (sc : StateChange) :
    hangFirst ProcessStateChange.processId sc.holderId sc h.processTrees = none
      ↔ sc.holderId ∉ h.processIds := by
  rw [hangFirst_eq_none, processIds, List.mem_map]
  constructor
  · rintro hne ⟨psc, hpsc, hid⟩
    exact hne psc hpsc hid
  · intro hmem psc hpsc hid
    exact hmem ⟨psc, hpsc, hid⟩

/-- The change that stands at the root of an opened tree. -/
def openingProcess : StateChange → ProcessStateChange
  | .inr psc => psc
  | .inl osc => inferred osc

theorem opened_root (sc : StateChange) : (opened sc).root = openingProcess sc := by
  cases sc <;> rfl

@[simp] theorem openingProcess_processId (sc : StateChange) :
    (openingProcess sc).processId = sc.getProcessId := by
  cases sc <;> rfl

/-- What is stored after one more change: it, and the process inferred for it
if it is an orphaned object change. -/
theorem stored_addStateChange (h : StateChangeHandler) (sc : StateChange) :
    (h.addStateChange sc).1.stored.Perm (sc :: h.stored) ∨
    (∃ osc, sc = .inl osc ∧ sc.holderId ∉ h.processIds ∧
      (h.addStateChange sc).1.stored.Perm (sc :: .inr (inferred osc) :: h.stored)) := by
  rcases h.addStateChange_cases sc with ⟨trees, hf, he⟩ | ⟨hf, he⟩
  · left
    rw [he]
    exact (hangFirst_elems hf).symm
  · rw [hangFirst_eq_none_iff] at hf
    cases sc with
    | inr psc =>
        left
        rw [he]
        simp only [stored, elemsList_eq_flatMap, List.flatMap_append, opened, Tree.leaf,
          List.flatMap_cons, List.flatMap_nil, Tree.elems, List.map_nil, List.nil_append,
          List.append_nil]
        exact List.perm_append_comm
    | inl osc =>
        refine .inr ⟨osc, rfl, hf, ?_⟩
        rw [he]
        simp only [stored, elemsList_eq_flatMap, List.flatMap_append, opened,
          List.flatMap_cons, List.flatMap_nil, Tree.elems, List.map_cons, List.map_nil,
          List.append_nil]
        exact List.perm_append_comm

/-- The process ids after one more change. -/
theorem mem_processIds_addStateChange (h : StateChangeHandler) (sc : StateChange) (p : Int) :
    p ∈ (h.addStateChange sc).1.processIds ↔ p = sc.getProcessId ∨ p ∈ h.processIds := by
  have hin : ∀ (h' : StateChangeHandler) (q : Int),
      q ∈ h'.processIds ↔ ∃ psc, Sum.inr psc ∈ h'.stored ∧ psc.processId = q := by
    intro h' q
    simp only [processIds, stored, List.mem_map, mem_elemsList_inr]
  rw [hin, hin]
  rcases h.stored_addStateChange sc with hp | ⟨osc, rfl, horphan, hp⟩
  · simp only [hp.mem_iff, List.mem_cons]
    constructor
    · rintro ⟨psc, rfl | hmem, rfl⟩
      · exact .inl rfl
      · exact .inr ⟨psc, hmem, rfl⟩
    · rintro (rfl | ⟨psc, hmem, rfl⟩)
      · cases sc with
        | inr psc => exact ⟨psc, .inl rfl, rfl⟩
        | inl osc =>
            -- filed without a new tree, so its process was there already
            rcases h.addStateChange_cases (.inl osc) with ⟨trees, hf, -⟩ | ⟨-, he⟩
            · have hid : osc.processId ∈ h.processIds := by
                by_contra hno
                rw [(h.hangFirst_eq_none_iff (.inl osc)).mpr hno] at hf
                cases hf
              obtain ⟨psc, hmem, hpsc⟩ := (hin h _).mp hid
              exact ⟨psc, .inr hmem, hpsc⟩
            · have hlen := hp.length_eq
              rw [he] at hlen
              simp only [stored, elemsList_eq_flatMap, List.flatMap_append, opened,
                List.flatMap_cons, List.flatMap_nil, Tree.elems, List.map_cons, List.map_nil,
                List.append_nil, List.length_append, List.length_cons, List.length_nil] at hlen
              omega
      · exact ⟨psc, .inr hmem, rfl⟩
  · simp only [hp.mem_iff, List.mem_cons, reduceCtorEq, false_or, Sum.inr.injEq]
    constructor
    · rintro ⟨psc, rfl | hmem, rfl⟩
      · exact .inl rfl
      · exact .inr ⟨psc, hmem, rfl⟩
    · rintro (rfl | ⟨psc, hmem, rfl⟩)
      · exact ⟨inferred osc, .inl rfl, rfl⟩
      · exact ⟨psc, .inr hmem, rfl⟩

/-! ## A sequence of changes -/

/-- The process ids after a sequence: those before and those of its changes. -/
theorem mem_processIds_addAll : ∀ (scs : List StateChange) (h : StateChangeHandler) (p : Int),
    p ∈ (h.addAll scs).processIds ↔ p ∈ scs.map StateChange.getProcessId ∨ p ∈ h.processIds
  | [], h, p => by simp [addAll]
  | sc :: scs, h, p => by
      have ih := mem_processIds_addAll scs (h.addStateChange sc).1 p
      rw [addAll] at ih
      rw [addAll, List.foldl_cons, ih, mem_processIds_addStateChange, List.map_cons,
        List.mem_cons]
      tauto

/-- The root processes of the trees a sequence opens, after changes with the
process ids `seen`. -/
def openersFrom (seen : List Int) : List StateChange → List ProcessStateChange
  | [] => []
  | sc :: scs =>
      if sc.holderId ∈ seen then openersFrom (sc.getProcessId :: seen) scs
      else openingProcess sc :: openersFrom (sc.getProcessId :: seen) scs

/-- The root processes of the trees a sequence opens in a fresh handler. -/
abbrev openers (scs : List StateChange) : List ProcessStateChange := openersFrom [] scs

theorem roots_addStateChange (h : StateChangeHandler) (sc : StateChange) :
    (h.addStateChange sc).1.roots =
      h.roots ++ if sc.holderId ∈ h.processIds then [] else [openingProcess sc] := by
  rcases h.addStateChange_cases sc with ⟨trees, hf, he⟩ | ⟨hf, he⟩
  · have hin : sc.holderId ∈ h.processIds := by
      by_contra hno
      rw [(h.hangFirst_eq_none_iff sc).mpr hno] at hf
      cases hf
    rw [he, if_pos hin, List.append_nil]
    exact hangFirst_roots hf
  · rw [hangFirst_eq_none_iff] at hf
    rw [he, if_neg hf]
    simp only [roots, List.map_append, List.map_cons, List.map_nil, opened_root]

theorem roots_addAll : ∀ (scs : List StateChange) (h : StateChangeHandler) (seen : List Int),
    (∀ p, p ∈ seen ↔ p ∈ h.processIds) →
      (h.addAll scs).roots = h.roots ++ openersFrom seen scs
  | [], h, seen, _ => by simp [addAll, openersFrom]
  | sc :: scs, h, seen, hseen => by
      have hseen' : ∀ p, p ∈ sc.getProcessId :: seen ↔ p ∈ (h.addStateChange sc).1.processIds := by
        intro p
        rw [List.mem_cons, mem_processIds_addStateChange, hseen]
      have ih := roots_addAll scs (h.addStateChange sc).1 _ hseen'
      rw [addAll] at ih
      rw [addAll, List.foldl_cons, ih, roots_addStateChange, openersFrom]
      by_cases hin : sc.holderId ∈ seen
      · rw [if_pos hin, if_pos ((hseen _).mp hin), List.append_nil]
      · rw [if_neg hin, if_neg (fun hc => hin ((hseen _).mpr hc)), List.append_assoc,
          List.singleton_append]

/-- The roots of the trees are the openers of the sequence. -/
theorem addAll_roots (scs : List StateChange) :
    (addAll {} scs).roots = openers scs := by
  rw [roots_addAll scs {} [] (fun p => by simp [processIds, valuesList])]
  rfl

/-! ## What is stored is what was received -/

/-- Received from the client, not inferred. -/
def received (sc : StateChange) : Bool := sc.origin.isSome

/-- The changes of the sequence are stored, each once, and everything else
stored is inferred. -/
theorem stored_addAll : ∀ (scs : List StateChange) (h : StateChangeHandler),
    (∀ sc ∈ scs, received sc) →
      ((h.addAll scs).stored.filter received).Perm (scs ++ h.stored.filter received)
  | [], h, _ => List.Perm.refl _
  | sc :: scs, h, hrec => by
      have ih := stored_addAll scs (h.addStateChange sc).1
        (fun x hx => hrec x (List.mem_cons_of_mem _ hx))
      have hsc : received sc = true := hrec sc List.mem_cons_self
      have hstep : ((h.addStateChange sc).1.stored.filter received).Perm
          (sc :: h.stored.filter received) := by
        rcases h.stored_addStateChange sc with hp | ⟨osc, rfl, -, hp⟩
        · have := hp.filter received
          rwa [List.filter_cons_of_pos hsc] at this
        · have := hp.filter received
          rwa [List.filter_cons_of_pos hsc, List.filter_cons_of_neg (by
            simp [received, StateChange.origin, inferred])] at this
      rw [addAll] at ih
      rw [addAll, List.foldl_cons]
      exact (ih.trans (hstep.append_left scs)).trans List.perm_middle

/-- Every tree holds a received change: the one that opened it. -/
theorem received_mem_tree : ∀ (scs : List StateChange) (h : StateChangeHandler),
    (∀ sc ∈ scs, received sc) →
      (∀ t ∈ h.processTrees, ∃ sc ∈ t.elems, received sc) →
        ∀ t ∈ (h.addAll scs).processTrees, ∃ sc ∈ t.elems, received sc
  | [], _, _, hall => hall
  | sc :: scs, h, hrec, hall => by
      have hsc := hrec sc List.mem_cons_self
      rw [addAll, List.foldl_cons]
      refine received_mem_tree scs _ (fun x hx => hrec x (List.mem_cons_of_mem _ hx)) ?_
      rcases h.addStateChange_cases sc with ⟨trees, hf, he⟩ | ⟨-, he⟩
      · rw [he]
        intro t' ht'
        rcases hangFirst_back hf t' ht' with ht | ⟨t, ht, hhang⟩
        · exact hall t' ht
        · obtain ⟨y, hy, hyr⟩ := hall t ht
          exact ⟨y, (hang_elems hhang).subset (List.mem_cons_of_mem _ hy), hyr⟩
      · rw [he]
        intro t ht
        rcases List.mem_append.mp ht with ht | ht
        · exact hall t ht
        · obtain rfl := List.mem_singleton.mp ht
          refine ⟨sc, ?_, hsc⟩
          cases sc <;> simp [opened, Tree.leaf, Tree.elems]

end StateChangeHandler

end CaptureHpc.Server
