/-
# `Server.StateChange` — state changes and the process tree they form

A client reports what a visit did to its machine as *state changes*: a process
was created or terminated, or a process touched an object (a file, a registry
key, a connection).  The server files them under the process that caused them.
A `ProcessStateChange` is at once a change and a node: it holds the object
changes of its process and the process changes of its child processes.

The tree is `KeyedForest.Tree` with the process id as key.  An object change
goes to the first node that has its process id, a process change below the
first node that has its *parent's* process id; that is `addStateChange`, with
the node test, the children loop and the early returns of the source.

`origin` is not in the source.  It tells the objects apart: a change the server
received carries the number of its message, and the process change that
`StateChangeHandler` infers for an orphan carries none.  No function reads it.
-/
import CaptureHpc.Java.Text
import CaptureHpc.Lib.KeyedForest

namespace CaptureHpc.Server

open Java KeyedForest

/-- The fields of `ProcessStateChange` and of its superclass. -/
structure ProcessStateChange where
  type : String
  time : Date
  parentProcessId : Int
  parentProcess : Option String
  action : Option String
  processId : Int
  process : Option String
  origin : Option Nat
deriving DecidableEq

/-- The fields of `ObjectStateChange` and of its superclass. -/
structure ObjectStateChange where
  type : String
  time : Date
  processId : Int
  process : Option String
  action : Option String
  object1 : Option String
  object2 : Option String
  origin : Option Nat
deriving DecidableEq

/-- `StateChange`, the abstract superclass: one of the two. -/
abbrev StateChange := ObjectStateChange ⊕ ProcessStateChange

instance : LawfulBEq StateChange where
  eq_of_beq {a b} h := by
    cases a with
    | inl x => cases b with
      | inl y => exact congrArg Sum.inl (eq_of_beq (α := ObjectStateChange) h)
      | inr y => cases h
    | inr x => cases b with
      | inl y => cases h
      | inr y => exact congrArg Sum.inr (eq_of_beq (α := ProcessStateChange) h)
  rfl {a} := by
    cases a with
    | inl x => exact beq_self_eq_true x
    | inr x => exact beq_self_eq_true x

/-- A process change with the changes filed under it. -/
abbrev ProcessTree := Tree ProcessStateChange ObjectStateChange

namespace StateChange

def getProcessId : StateChange → Int
  | .inl osc => osc.processId
  | .inr psc => psc.processId

def getTime : StateChange → Date
  | .inl osc => osc.time
  | .inr psc => psc.time

def getType : StateChange → String
  | .inl osc => osc.type
  | .inr psc => psc.type

def origin : StateChange → Option Nat
  | .inl osc => osc.origin
  | .inr psc => psc.origin

/-- The process under which the change is filed: its own for an object change,
the parent for a process change. -/
def holderId : StateChange → Int
  | .inl osc => osc.processId
  | .inr psc => psc.parentProcessId

/-! ## The CSV line of a change -/

/-- String concatenation prints a null reference as `null`. -/
def shown (s : Option String) : String := s.getD "null"

/-- One CSV line: every field in quotes. -/
def csvLine (fields : List String) : String :=
  "\"" ++ String.intercalate "\",\"" fields ++ "\"\n"

/-- `getTimeString`. -/
def getTimeString (sc : StateChange) : String := formatDate sc.getTime

/-- `ProcessStateChange.toCSV` and `ObjectStateChange.toCSV`. -/
def toCSV (sc : StateChange) : String :=
  match sc with
  | .inr psc =>
      csvLine [psc.type, sc.getTimeString, showInt psc.parentProcessId, shown psc.parentProcess,
        shown psc.action, showInt psc.processId, shown psc.process]
  | .inl osc =>
      csvLine [osc.type, sc.getTimeString, showInt osc.processId, shown osc.process,
        shown osc.action, shown osc.object1, shown osc.object2]

theorem toCSV_ne_empty (sc : StateChange) : sc.toCSV ≠ "" := by
  intro h
  have hl : sc.toCSV.toList = [] := by rw [h]; rfl
  cases sc <;> simp [toCSV, csvLine] at hl

end StateChange

/-! ## The constructors -/

/-- The constructor of `ProcessStateChange`; `none` is `ParseException`.  A
process id that is no `int` becomes `-1`. -/
def ProcessStateChange.ofStrings (type time : String)
    (parentProcessId parentProcess action processId process : Option String)
    (origin : Option Nat) : Option ProcessStateChange := do
  let time ← parseDate time
  return { type, time, action, process, parentProcess, origin
           processId := (processId.bind parseInt).getD (-1)
           parentProcessId := (parentProcessId.bind parseInt).getD (-1) }

/-! ## The tree -/

namespace ProcessTree

/-- `getProcessId` of the root. -/
def getProcessId (t : ProcessTree) : Int := t.root.processId

/-- `getParentProcessId` of the root. -/
def getParentProcessId (t : ProcessTree) : Int := t.root.parentProcessId

/-- `ProcessStateChange.addStateChange`: the tree with the change filed, or
`none` where the source returns `false` and leaves the tree as it was. -/
def addStateChange (t : ProcessTree) (sc : StateChange) : Option ProcessTree :=
  t.hang ProcessStateChange.processId sc.holderId sc

/-- The comparator of `getAllStateChanges`: by time, and at one time by type in
descending order.  `notAfter a b` says that it does not return a positive number. -/
def notAfter (a b : StateChange) : Prop :=
  a.getTime < b.getTime ∨ (a.getTime = b.getTime ∧ compareTo b.getType a.getType ≠ .gt)

instance : DecidableRel notAfter := fun _ _ => inferInstanceAs (Decidable (_ ∨ _))

mutual
/-- `getAllStateChanges`: the object changes of the process, then the changes of
its children, then the process itself, in a stable sort. -/
def getAllStateChanges : ProcessTree → List StateChange
  | .node psc stateChanges childProcesses =>
      (stateChanges.map Sum.inl ++ childStateChanges childProcesses ++ [Sum.inr psc]).insertionSort
        notAfter
/-- The loop over the children. -/
def childStateChanges : List ProcessTree → List StateChange
  | [] => []
  | t :: ts => getAllStateChanges t ++ childStateChanges ts
end

mutual
/-- The report of a tree is its content, reordered. -/
theorem getAllStateChanges_perm : ∀ t : ProcessTree, (getAllStateChanges t).Perm t.elems
  | .node psc stateChanges childProcesses => by
      rw [getAllStateChanges, Tree.elems]
      refine (List.perm_insertionSort _ _).trans ?_
      exact ((childStateChanges_perm childProcesses).append_left _).append_right _
theorem childStateChanges_perm :
    ∀ ts : List ProcessTree, (childStateChanges ts).Perm (elemsList ts)
  | [] => List.Perm.refl _
  | t :: ts => by
      rw [childStateChanges, elemsList]
      exact (getAllStateChanges_perm t).append (childStateChanges_perm ts)
end

end ProcessTree

end CaptureHpc.Server
