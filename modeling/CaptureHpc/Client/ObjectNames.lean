/-
# `Client.ObjectNames` — names of the kernel as the client shows them

The file monitor puts the DOS name of a volume in the place of its device name,
and the registry monitor the name of a hive in the place of its root.  Both take
the first entry that the name begins with.  A device name may be the beginning
of another one, and so may a root: `conversions_iff` says when the outcome is
the right one all the same.
-/
import CaptureHpc.Client.ProcessManager
import CaptureHpc.Lib.PrefixMap

namespace CaptureHpc.Client

open PrefixMap

/-! ## Strings -/

/-- `s.rfind(key, position)`; `none` is `npos`. -/
def rfind (s key : WString) (position : Nat) : Option Nat :=
  (List.range (position + 1)).reverse.find? fun i =>
    i + key.length ≤ s.length && key.isPrefixOf (s.drop i)

/-- `s.replace(position, length, other)`. -/
def replace (s : WString) (position length : Nat) (other : WString) : WString :=
  s.take position ++ other ++ s.drop (position + length)

theorem rfind_zero (s key : WString) :
    rfind s key 0 = if key.isPrefixOf s then some 0 else none := by
  have hlength : key.isPrefixOf s = true → key.length ≤ s.length := fun h =>
    (List.isPrefixOf_iff_prefix.mp h).length_le
  cases hbegins : key.isPrefixOf s with
  | true => simp [rfind, hbegins, hlength hbegins]
  | false => simp [rfind, hbegins]

/-! ## The maps -/

/-- `dosNameMap`, in the order in which it is walked. -/
structure DosNameMap where
  entries : List (WString × WString)
  distinct : (entries.map Prod.fst).Nodup

namespace DosNameMap

/-- `insert`: what is there already stays. -/
def insert (m : DosNameMap) (volume driveLetter : WString) : DosNameMap :=
  if h : volume ∈ m.entries.map Prod.fst then m
  else { entries := (volume, driveLetter) :: m.entries
         distinct := List.nodup_cons.mpr ⟨h, m.distinct⟩ }

/-- `initialiseDosNameMap`, for the volumes that the filter manager lists; some have no DOS name. -/
def initialise (volumes : List (WString × Option WString)) : DosNameMap :=
  volumes.foldl (fun m v => match v.2 with
    | some driveLetter => m.insert v.1 driveLetter
    | none => m) { entries := [], distinct := List.nodup_nil }

end DosNameMap

/-- `objectNameMap`, with the root of the current user. -/
def objectNameMap (szTemp : WString) : List (WString × WString) :=
  [(szTemp ++ wideLiteral "_CLASSES", wideLiteral "HKCR"), (szTemp, wideLiteral "HKCU"),
    (wideLiteral "\\REGISTRY\\MACHINE", wideLiteral "HKLM"),
    (wideLiteral "\\REGISTRY\\USER", wideLiteral "HKU"),
    (wideLiteral "\\Registry\\Machine", wideLiteral "HKLM")]

/-! ## The conversions -/

/-- The loop over a map. -/
def convertObjectName : List (WString × WString) → WString → WString
  | [], objectName => objectName
  | (first, second) :: map, objectName =>
      match rfind objectName first 0 with
      | some position => replace objectName position first.length second
      | none => convertObjectName map objectName

def convertFileObjectNameToDosName (dosNameMap : List (WString × WString))
    (fileObjectName : WString) : WString :=
  convertObjectName dosNameMap fileObjectName

def convertRegistryObjectNameToHiveName (objectNameMap : List (WString × WString))
    (registryObjectName : WString) : WString :=
  convertObjectName objectNameMap registryObjectName

theorem convertObjectName_eq (map : List (WString × WString)) (objectName : WString) :
    convertObjectName map objectName = convert map objectName := by
  induction map with
  | nil => rfl
  | cons e map ih =>
      obtain ⟨first, second⟩ := e
      rw [convertObjectName, rfind_zero]
      cases hbegins : first.isPrefixOf objectName with
      | true =>
          rw [convert_cons (List.isPrefixOf_iff_prefix.mp hbegins)]
          simp [replace, replaced]
      | false =>
          rw [convert, firstHit, List.find?_cons_of_neg (by simp [hbegins])]
          simpa [convert, firstHit] using ih

/-! ## When they are right -/

/-- Whatever the order of the map: the longest device name that ends where a component ends is
replaced, and where there is none the name stays as it is. -/
def ConvertsLongest (m : DosNameMap) (fileObjectName : WString) : Prop :=
  ∀ order : List (WString × WString), order.Perm m.entries →
    Converted ProcessManager.backslash m.entries fileObjectName
      (convertFileObjectNameToDosName order fileObjectName)

/-- A root is replaced only where a component ends. -/
def ReplacesWhole (roots : List (WString × WString)) (registryObjectName : WString) : Prop :=
  convertRegistryObjectNameToHiveName roots registryObjectName = registryObjectName ∨
    ∃ e ∈ roots, Whole ProcessManager.backslash e.1 registryObjectName ∧
      convertRegistryObjectNameToHiveName roots registryObjectName = replaced e registryObjectName

/-- Every device name that the name begins with agrees with the longest one that ends where a
component ends; if there is none, it stands for itself. -/
def DevicesAgree (m : DosNameMap) (fileObjectName : WString) : Prop :=
  ∀ e ∈ m.entries, e.1 <+: fileObjectName →
    (∀ e', Longest ProcessManager.backslash m.entries fileObjectName e' → Agree e e') ∧
      ((∀ e' ∈ m.entries, ¬ Whole ProcessManager.backslash e'.1 fileObjectName) → e.2 = e.1)

/-- The first root that the name begins with stands for itself or agrees with one that ends where a
component ends; in particular it may end there. -/
def RootAgrees (roots : List (WString × WString)) (registryObjectName : WString) : Prop :=
  ∀ e, firstHit roots registryObjectName = some e →
    e.2 = e.1 ∨ ∃ e' ∈ roots, Whole ProcessManager.backslash e'.1 registryObjectName ∧ Agree e e'

/-- **Both conversions are right just if the entries that a name begins with agree.** -/
theorem conversions_iff (m : DosNameMap) (fileObjectName : WString)
    (roots : List (WString × WString)) (registryObjectName : WString) :
    (ConvertsLongest m fileObjectName ↔ DevicesAgree m fileObjectName) ∧
      (ReplacesWhole roots registryObjectName ↔ RootAgrees roots registryObjectName) := by
  constructor
  · unfold ConvertsLongest convertFileObjectNameToDosName
    simp only [convertObjectName_eq]
    exact converted_iff m.distinct
  · unfold ReplacesWhole convertRegistryObjectNameToHiveName
    rw [convertObjectName_eq]
    exact whole_iff

/-- Ten volumes or more. -/
def volumes : DosNameMap :=
  .initialise [(wideLiteral "\\Device\\HarddiskVolume10", some (wideLiteral "J:")),
    (wideLiteral "\\Device\\HarddiskVolume1", some (wideLiteral "C:"))]

/-- The tenth volume is taken for the first, and the keys of one user for another's. -/
theorem tenth_volume_converted :
    ¬ ConvertsLongest volumes (wideLiteral "\\Device\\HarddiskVolume10\\a") ∧
      ¬ ReplacesWhole (objectNameMap (wideLiteral "\\REGISTRY\\USER\\S-1-5-21-500"))
        (wideLiteral "\\REGISTRY\\USER\\S-1-5-21-5001\\Run") := by
  constructor
  · intro h
    have hfirst := h volumes.entries (List.Perm.refl _)
    have hresult : convertFileObjectNameToDosName volumes.entries
        (wideLiteral "\\Device\\HarddiskVolume10\\a") = wideLiteral "C:0\\a" := by decide
    rw [hresult] at hfirst
    generalize hr : wideLiteral "C:0\\a" = r at hfirst
    cases hfirst with
    | unchanged => exact absurd hr (by decide)
    | @replaced e hlongest =>
        have htenth := hlongest.max (wideLiteral "\\Device\\HarddiskVolume10", wideLiteral "J:")
          (by decide) ⟨wideLiteral "\\a", by decide, .inr (by decide)⟩
        have hmem := hlongest.mem
        have hall : ∀ e ∈ volumes.entries, wideLiteral "C:0\\a" =
            replaced e (wideLiteral "\\Device\\HarddiskVolume10\\a") →
            e.1.length < (wideLiteral "\\Device\\HarddiskVolume10").length := by decide
        exact absurd htenth (Nat.not_le_of_lt (hall e hmem hr))
  · rintro (h | ⟨e, he, ⟨rest, hname, hrest⟩, h⟩)
    · exact absurd h (by decide)
    · have hall : ∀ e ∈ objectNameMap (wideLiteral "\\REGISTRY\\USER\\S-1-5-21-500"),
          convertRegistryObjectNameToHiveName
              (objectNameMap (wideLiteral "\\REGISTRY\\USER\\S-1-5-21-500"))
              (wideLiteral "\\REGISTRY\\USER\\S-1-5-21-5001\\Run") =
            replaced e (wideLiteral "\\REGISTRY\\USER\\S-1-5-21-5001\\Run") →
          (wideLiteral "\\REGISTRY\\USER\\S-1-5-21-5001\\Run").drop e.1.length =
            wideLiteral "1\\Run" := by decide
      have hdrop := hall e he h
      rw [hname, List.drop_left] at hdrop
      rw [hdrop] at hrest
      revert hrest
      decide

end CaptureHpc.Client
