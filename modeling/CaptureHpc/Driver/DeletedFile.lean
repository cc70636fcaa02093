/-
# `Driver.DeletedFile` — the directories for the copy of a deleted file

When a file is marked for deletion, the file monitor driver copies it to the log
directory, under the name of its drive and its directory there.  Before that it
creates all the directories of this path (`createAllDirectories`), by a loop
that cuts the path at its separators and appends the pieces to the log
directory.

The strings have buffers of a maximum length, which is a number of 16 bits.  For
the strings that it builds the driver adds the maximum lengths of the others,
and adds 2; where the sum is too long for 16 bits the buffer is too short, and
what does not fit is cut off.  `creates_iff` says that all the directories are
created just if the buffers are long enough, and no name has a 0 in it.
-/
import CaptureHpc.Lib.Directories
import Mathlib.Data.List.TakeWhile

namespace CaptureHpc.Driver

open Directories

/-! ## Strings -/

/-- A `UNICODE_STRING`: the bytes that there are for it, and its text. -/
structure UnicodeString where
  maximumLength : BitVec 16
  text : List (BitVec 16)
  even : maximumLength.toNat % 2 = 0
  fits : 2 * text.length ≤ maximumLength.toNat

namespace UnicodeString

/-- `Length`. -/
def length (s : UnicodeString) : Nat := 2 * s.text.length

/-- A counter of 16 bits over the characters does not wrap. -/
theorem length_lt (s : UnicodeString) : s.text.length < 2 ^ 15 := by
  have hfits := s.fits
  have hlt := s.maximumLength.isLt
  omega

/-- The sum of the maximum lengths of some strings, and 2, in 16 bits. -/
def room (strings : List UnicodeString) : BitVec 16 :=
  strings.foldr (fun s sum => s.maximumLength + sum) 2

theorem even_room (strings : List UnicodeString) : (room strings).toNat % 2 = 0 := by
  induction strings with
  | nil => rfl
  | cons s strings ih =>
      have hs := s.even
      rw [room, List.foldr_cons, BitVec.toNat_add]
      unfold room at ih
      omega

/-- A string with that maximum length, and no text yet. -/
def allocate (strings : List UnicodeString) : UnicodeString where
  maximumLength := room strings
  text := []
  even := even_room strings
  fits := Nat.zero_le _

end UnicodeString

/-- The functions of `ntstrsafe.h`; what does not fit is cut off. -/
structure SafeStrings where
  /-- `RtlUnicodeStringCat` -/
  cat : UnicodeString → UnicodeString → UnicodeString
  /-- `RtlUnicodeStringCatString`; the second string ends before its first 0. -/
  catString : UnicodeString → List (BitVec 16) → UnicodeString
  cat_maximumLength : ∀ s t, (cat s t).maximumLength = s.maximumLength
  cat_text : ∀ s t, (cat s t).text = (s.text ++ t.text).take (s.maximumLength.toNat / 2)
  catString_maximumLength : ∀ s t, (catString s t).maximumLength = s.maximumLength
  catString_text : ∀ s t, (catString s t).text =
    (s.text ++ t.takeWhile (· ≠ 0)).take (s.maximumLength.toNat / 2)

/-! ## The driver -/

/-- The character `\`. -/
def dirSeperator : BitVec 16 := 0x005C

/-- Which allocations are successful; those of the loop by the index of the separator. -/
structure Allocations where
  dosName : Bool
  completeFilePath : Bool
  fileDirectory : Bool
  totalDirectory : Bool
  dir : Nat → Bool

def Allocations.successful : Allocations where
  dosName := true
  completeFilePath := true
  fileDirectory := true
  totalDirectory := true
  dir _ := true

section Functions
variable (lib : SafeStrings) (allocations : Allocations)

/-- The loop of `CreateAllDirectories`, from an index on: the paths that `CreateADirectory` is
called with. -/
def directoryLoop (buffer : List (BitVec 16)) :
    List (BitVec 16) → Nat → Nat → UnicodeString → List (List (BitVec 16))
  | [], _, _, _ => []
  | tempChar :: rest, i, prevDirPosition, totalDirectory =>
      if dirSeperator = tempChar ∧ i ≠ 0 then
        if allocations.dir i then
          let size := i - prevDirPosition
          let dir := (buffer.drop prevDirPosition).take size ++ [0]
          let totalDirectory := lib.catString totalDirectory dir
          totalDirectory.text :: directoryLoop buffer rest (i + 1) i totalDirectory
        else []
      else directoryLoop buffer rest (i + 1) prevDirPosition totalDirectory

/-- `CreateAllDirectories`. -/
def createAllDirectories (rootDirectory directory : UnicodeString) : List (List (BitVec 16)) :=
  if allocations.totalDirectory then
    let totalDirectory := lib.cat (.allocate [rootDirectory, directory]) rootDirectory
    directoryLoop lib allocations directory.text directory.text 0 0 totalDirectory
  else []

/-- What `IoVolumeDeviceToDosName` returns. -/
structure VolumeName extends UnicodeString where
  short : maximumLength.toNat + 2 < 2 ^ 16

/-- `GetDosDeviceName`, on what `IoVolumeDeviceToDosName` returns if it is successful. -/
def getDosDeviceName (volume : Option VolumeName) (shareName : UnicodeString) : UnicodeString :=
  match volume with
  | some tempDosDrive =>
      { maximumLength := tempDosDrive.maximumLength + 2
        text := if allocations.dosName then
            dirSeperator :: tempDosDrive.text.filter (· ≠ 0x003A)
          else []
        even := by
          have heven := tempDosDrive.even
          have h2 : (2 : BitVec 16).toNat = 2 := rfl
          rw [BitVec.toNat_add]
          omega
        fits := by
          have hfits := tempDosDrive.fits
          have hshort := tempDosDrive.short
          have hfilter := List.length_filter_le (fun c => decide (c ≠ 0x003A)) tempDosDrive.text
          have h2 : (2 : BitVec 16).toNat = 2 := rfl
          rw [BitVec.toNat_add]
          split
          · rw [List.length_cons]
            omega
          · exact Nat.zero_le _ }
  | none =>
      { shareName with
        text := if allocations.dosName then shareName.text else []
        fits := by
          split
          · exact shareName.fits
          · exact Nat.zero_le _ }

/-- The calls that make the copy. -/
inductive DriverCall where
  | createADirectory (directoryPath : List (BitVec 16))
  | copyFile (completeFilePath : List (BitVec 16))

/-- `completeFilePath` in `CopyFileIfBeingDeleted`. -/
def completeFilePath (logDirectory fileDosDrive parentDir finalComponent : UnicodeString) :
    UnicodeString :=
  let path := .allocate [logDirectory, fileDosDrive, finalComponent, parentDir]
  if allocations.completeFilePath then
    let path := lib.cat path logDirectory
    let path := lib.cat path fileDosDrive
    let path := lib.cat path parentDir
    lib.cat path finalComponent
  else path

/-- `fileDirectory` there. -/
def fileDirectory (fileDosDrive parentDir : UnicodeString) : UnicodeString :=
  let directory := .allocate [parentDir, fileDosDrive]
  if allocations.fileDirectory then lib.cat (lib.cat directory fileDosDrive) parentDir
  else directory

/-- What `CopyFileIfBeingDeleted` does with the names of a file. -/
def backUp (logDirectory fileDosDrive parentDir finalComponent : UnicodeString) : List DriverCall :=
  let completeFilePath :=
    completeFilePath lib allocations logDirectory fileDosDrive parentDir finalComponent
  let fileDirectory := fileDirectory lib allocations fileDosDrive parentDir
  (createAllDirectories lib allocations logDirectory fileDirectory).map .createADirectory ++
    [.copyFile completeFilePath.text]

/-- What `CopyFileIfBeingDeleted` reads of an operation. -/
structure DeleteOperation where
  isDirectory : Bool
  majorFunction : BitVec 8
  fileInformationClass : BitVec 32
  deleteFile : Bool
  /-- `FltIsOperationSynchronous` -/
  synchronous : Bool
  /-- `FltParseFileNameInformation` is successful. -/
  parsed : Bool
  volume : Option VolumeName
  share : UnicodeString
  parentDir : UnicodeString
  finalComponent : UnicodeString

/-- `IRP_MJ_SET_INFORMATION`. -/
def irpMjSetInformation : BitVec 8 := 0x06

/-- `FileDispositionInformation`. -/
def fileDispositionInformation : BitVec 32 := 13

/-- `CopyFileIfBeingDeleted`, with the settings of the file manager. -/
def copyFileIfBeingDeleted (bCollectDeletedFiles : Bool) (logDirectory : UnicodeString)
    (op : DeleteOperation) : List DriverCall :=
  if op.isDirectory then []
  else if op.majorFunction = irpMjSetInformation ∧
      op.fileInformationClass = fileDispositionInformation then
    if op.deleteFile ∧ op.synchronous ∧ op.parsed ∧ bCollectDeletedFiles then
      backUp lib allocations logDirectory (getDosDeviceName allocations op.volume op.share)
        op.parentDir op.finalComponent
    else []
  else []

end Functions

/-! ## What is to hold -/

/-- A log directory, the name of a drive, and a file in a directory of it. -/
structure Backup where
  logDirectory : UnicodeString
  fileDosDrive : UnicodeString
  parentDir : UnicodeString
  finalComponent : UnicodeString
  drive : Name dirSeperator
  directories : List (Name dirSeperator)
  logDirectory_end : logDirectory.text.getLast? ≠ some dirSeperator
  fileDosDrive_text : fileDosDrive.text = path dirSeperator [drive.val]
  parentDir_text : parentDir.text =
    path dirSeperator (directories.map Subtype.val) ++ [dirSeperator]
  finalComponent_name : dirSeperator ∉ finalComponent.text
  combined : logDirectory.length + fileDosDrive.length + parentDir.length < 65536

namespace Backup

/-- The drive and the directories. -/
def names (b : Backup) : List (List (BitVec 16)) := b.drive.val :: b.directories.map Subtype.val

/-- The directories that the copy is in. -/
def expected (b : Backup) : List (List (BitVec 16)) :=
  below dirSeperator b.logDirectory.text b.names

section Specification
variable (lib : SafeStrings) (b : Backup)

/-- The paths that the driver calls `CreateADirectory` with. -/
def created : List (List (BitVec 16)) :=
  createAllDirectories lib .successful b.logDirectory
    (fileDirectory lib .successful b.fileDosDrive b.parentDir)

/-- The path that it calls `CopyFile` with. -/
def copied : List (BitVec 16) :=
  (completeFilePath lib .successful b.logDirectory b.fileDosDrive b.parentDir
    b.finalComponent).text

/-- Just the directories of the path are created, each once and its parent before it; so every
directory is there that the path of the copy goes through. -/
structure Creates : Prop where
  calls : b.created lib = b.expected
  once : (b.created lib).Nodup
  parents : (b.created lib).Pairwise fun p q => p ++ [dirSeperator] <+: q
  onTheWay : ∀ p, p ++ [dirSeperator] <+: b.copied lib →
    b.logDirectory.text.length < p.length → p ∈ b.created lib

/-- There is room for the texts, and no name has a 0 in it. -/
structure HasRoom : Prop where
  fileDirectory : b.fileDosDrive.length + b.parentDir.length ≤
    (UnicodeString.room [b.parentDir, b.fileDosDrive]).toNat
  /-- The last separator is not needed. -/
  totalDirectory : b.logDirectory.length + b.fileDosDrive.length + b.parentDir.length ≤
    (UnicodeString.room [b.logDirectory, .allocate [b.parentDir, b.fileDosDrive]]).toNat + 2
  noZero : ∀ name ∈ b.names, 0 ∉ name

end Specification

end Backup

/-! ## The loop -/

/-- What is appended of a name: what is before its first 0. -/
def untilZero (name : List (BitVec 16)) : List (BitVec 16) := name.takeWhile (· ≠ 0)

theorem untilZero_terminated (name : List (BitVec 16)) :
    (name ++ [0]).takeWhile (· ≠ 0) = untilZero name := by
  induction name with
  | nil => rfl
  | cons c name ih =>
      by_cases hc : c = 0
      · subst hc
        rfl
      · rw [untilZero, List.cons_append, List.takeWhile_cons_of_pos (by simpa using hc),
          List.takeWhile_cons_of_pos (by simpa using hc), ih, untilZero]

theorem untilZero_separator (name : List (BitVec 16)) :
    untilZero (dirSeperator :: name) = dirSeperator :: untilZero name := by
  rw [untilZero, List.takeWhile_cons_of_pos (by decide), untilZero]

theorem untilZero_eq_self {name : List (BitVec 16)} (h : 0 ∉ name) : untilZero name = name := by
  rw [untilZero, List.takeWhile_eq_self_iff]
  intro c hc
  exact decide_eq_true fun hzero => h (hzero ▸ hc)

theorem length_untilZero_le (name : List (BitVec 16)) :
    (untilZero name).length ≤ name.length := (List.takeWhile_prefix _).length_le

theorem length_untilZero_lt {name : List (BitVec 16)} (h : 0 ∈ name) :
    (untilZero name).length < name.length := by
  refine Nat.lt_of_le_of_ne (length_untilZero_le name) fun hlength => ?_
  have hwhole : untilZero name = name := (List.takeWhile_prefix _).eq_of_length hlength
  rw [← hwhole] at h
  exact absurd (List.mem_takeWhile_imp h) (by decide)

/-- Cutting off before something is appended makes no difference. -/
theorem take_append_of_take {α : Type} (n : Nat) (s t : List α) :
    (s.take n ++ t).take n = (s ++ t).take n := by
  rw [List.take_append, List.take_append, List.take_take, Nat.min_self, List.length_take]
  congr 2
  omega

section Loop
variable {lib : SafeStrings} {allocations : Allocations} {buffer word rest : List (BitVec 16)}
  {i prevDirPosition : Nat} {totalDirectory : UnicodeString}

/-- A word without a separator is passed over. -/
theorem directoryLoop_word (hword : dirSeperator ∉ word) :
    directoryLoop lib allocations buffer (word ++ rest) i prevDirPosition totalDirectory =
      directoryLoop lib allocations buffer rest (i + word.length) prevDirPosition
        totalDirectory := by
  induction word generalizing i with
  | nil => rfl
  | cons c word ih =>
      have hc : dirSeperator ≠ c := fun h => hword (h ▸ List.mem_cons_self)
      have hrest : dirSeperator ∉ word := fun h => hword (List.mem_cons_of_mem _ h)
      rw [List.cons_append, directoryLoop, if_neg (fun h => hc h.1), ih hrest, List.length_cons,
        Nat.add_assoc, Nat.add_comm 1]

/-- Nothing is done at the first character. -/
theorem directoryLoop_first {c : BitVec 16} (h : word = c :: rest) :
    directoryLoop lib allocations buffer word 0 prevDirPosition totalDirectory =
      directoryLoop lib allocations buffer rest 1 prevDirPosition totalDirectory := by
  rw [h, directoryLoop, if_neg fun h => h.2 rfl]

/-- A name, and the separator where it ends: the name is appended. -/
theorem directoryLoop_name {front name : List (BitVec 16)} (more : List (BitVec 16))
    (hname : dirSeperator ∉ name) (hbuffer : buffer = front ++ dirSeperator :: name ++ more) :
    directoryLoop lib .successful buffer (name ++ dirSeperator :: rest) (front.length + 1)
        front.length totalDirectory =
      (lib.catString totalDirectory (dirSeperator :: name ++ [0])).text ::
        directoryLoop lib .successful buffer rest ((front ++ dirSeperator :: name).length + 1)
          (front ++ dirSeperator :: name).length
          (lib.catString totalDirectory (dirSeperator :: name ++ [0])) := by
  have hi : front.length + 1 + name.length = (front ++ dirSeperator :: name).length := by
    rw [List.length_append, List.length_cons]
    omega
  have hdir : (buffer.drop front.length).take
      ((front ++ dirSeperator :: name).length - front.length) = dirSeperator :: name := by
    rw [hbuffer, List.append_assoc, List.drop_left, List.length_append, Nat.add_sub_cancel_left,
      List.take_left]
  rw [directoryLoop_word hname, hi, directoryLoop, if_pos ⟨rfl, by omega⟩]
  simp only [Allocations.successful, if_true, hdir]

/-- What is there when a name was appended. -/
theorem catString_name {base : List (BitVec 16)} (name : List (BitVec 16))
    (htext : totalDirectory.text = base.take (totalDirectory.maximumLength.toNat / 2)) :
    (lib.catString totalDirectory (dirSeperator :: name ++ [0])).text =
      (base ++ dirSeperator :: untilZero name).take (totalDirectory.maximumLength.toNat / 2) := by
  rw [lib.catString_text, untilZero_terminated, untilZero_separator, htext, take_append_of_take]

/-- **The loop** appends one name after the other, each up to a 0 and as far as there is room. -/
theorem directoryLoop_eq {front name base : List (BitVec 16)} {names : List (List (BitVec 16))}
    (hnames : ∀ w ∈ name :: names, dirSeperator ∉ w)
    (hbuffer : buffer = front ++ path dirSeperator (name :: names) ++ [dirSeperator])
    (htext : totalDirectory.text = base.take (totalDirectory.maximumLength.toNat / 2)) :
    directoryLoop lib .successful buffer (name ++ (path dirSeperator names ++ [dirSeperator]))
        (front.length + 1) front.length totalDirectory =
      (below dirSeperator base ((name :: names).map untilZero)).map
        (·.take (totalDirectory.maximumLength.toNat / 2)) := by
  induction names generalizing front name base totalDirectory with
  | nil =>
      rw [path_nil, List.nil_append,
        directoryLoop_name [dirSeperator] (hnames name List.mem_cons_self) (by rw [hbuffer]; simp),
        catString_name name htext]
      rfl
  | cons name' names ih =>
      have hmaximum := lib.catString_maximumLength totalDirectory (dirSeperator :: name ++ [0])
      have hrest := @ih (lib.catString totalDirectory (dirSeperator :: name ++ [0]))
        (front ++ dirSeperator :: name) name' (base ++ dirSeperator :: untilZero name)
        (fun w hw => hnames w (List.mem_cons_of_mem _ hw)) (by rw [hbuffer]; simp)
        (by rw [hmaximum]; exact catString_name name htext)
      rw [path_cons, List.append_assoc, List.cons_append,
        directoryLoop_name (path dirSeperator (name' :: names) ++ [dirSeperator])
          (hnames name List.mem_cons_self) (by rw [hbuffer]; simp),
        catString_name name htext, hrest, hmaximum]
      rfl

/-- A directory for every separator behind the first, at most. -/
theorem length_directoryLoop_le :
    (directoryLoop lib allocations buffer rest i prevDirPosition totalDirectory).length ≤
      rest.count dirSeperator := by
  induction rest generalizing i prevDirPosition totalDirectory with
  | nil => exact Nat.le_refl 0
  | cons c rest ih =>
      rw [directoryLoop]
      split
      · next h =>
          rw [← h.1, List.count_cons_self]
          split
          · exact Nat.succ_le_succ ih
          · exact Nat.zero_le _
      · exact Nat.le_trans ih (List.count_le_count_cons)

/-- Without memory for the next name the loop ends. -/
theorem directoryLoop_isPrefix :
    directoryLoop lib allocations buffer rest i prevDirPosition totalDirectory <+:
      directoryLoop lib .successful buffer rest i prevDirPosition totalDirectory := by
  induction rest generalizing i prevDirPosition totalDirectory with
  | nil => exact List.prefix_refl _
  | cons c rest ih =>
      rw [directoryLoop, directoryLoop]
      split
      · split
        · exact List.cons_prefix_cons.mpr ⟨rfl, ih⟩
        · exact List.nil_prefix
      · exact ih

end Loop

/-! ## The directories that are created -/

section Created
variable {lib : SafeStrings} {allocations : Allocations} {rootDirectory directory : UnicodeString}
  {names : List (List (BitVec 16))}

/-- The first character makes no directory. -/
theorem length_createAllDirectories_le :
    (createAllDirectories lib allocations rootDirectory directory).length ≤
      directory.text.tail.count dirSeperator := by
  rw [createAllDirectories]
  split
  · cases h : directory.text with
    | nil => exact Nat.le_refl 0
    | cons c rest =>
        rw [directoryLoop_first rfl]
        exact length_directoryLoop_le
  · exact Nat.zero_le _

/-- **The directories that are created** from a path that ends in a separator: those of the names
up to a 0, and as far as there is room. -/
theorem createAllDirectories_eq (hsome : names ≠ []) (hnames : ∀ w ∈ names, dirSeperator ∉ w)
    (h : directory.text = path dirSeperator names ++ [dirSeperator]) :
    createAllDirectories lib .successful rootDirectory directory =
      (below dirSeperator rootDirectory.text (names.map untilZero)).map
        (·.take ((UnicodeString.room [rootDirectory, directory]).toNat / 2)) := by
  cases names with
  | nil => exact absurd rfl hsome
  | cons name names =>
      let totalDirectory := lib.cat (.allocate [rootDirectory, directory]) rootDirectory
      have hmaximum : totalDirectory.maximumLength =
          UnicodeString.room [rootDirectory, directory] := lib.cat_maximumLength _ _
      have htext : totalDirectory.text =
          rootDirectory.text.take (totalDirectory.maximumLength.toNat / 2) := by
        rw [hmaximum]
        exact lib.cat_text _ _
      have hloop := @directoryLoop_eq lib directory.text totalDirectory [] name rootDirectory.text
        names hnames h htext
      have hfirst : directory.text =
          dirSeperator :: (name ++ (path dirSeperator names ++ [dirSeperator])) := by
        rw [h]
        simp
      rw [hmaximum] at hloop
      rw [← hloop]
      exact directoryLoop_first hfirst

/-- **When memory runs out** the directories that were created are the first ones. -/
theorem createAllDirectories_isPrefix :
    createAllDirectories lib allocations rootDirectory directory <+:
      createAllDirectories lib .successful rootDirectory directory := by
  rw [createAllDirectories]
  split
  · exact directoryLoop_isPrefix
  · exact List.nil_prefix

/-- The drive of a volume is a name behind a separator. -/
theorem getDosDeviceName_volume (volume : VolumeName) (shareName : UnicodeString)
    (h : dirSeperator ∉ volume.text) : ∃ drive : Name dirSeperator,
      (getDosDeviceName .successful (some volume) shareName).text =
        path dirSeperator [drive.val] := by
  refine ⟨⟨volume.text.filter (· ≠ 0x003A), fun hmem => h (List.mem_filter.mp hmem).1⟩, ?_⟩
  rw [path_cons, path_nil, List.append_nil]
  rfl

end Created

/-! ## When all are created -/

section Room
variable {base : List (BitVec 16)} {names : List (List (BitVec 16))}

theorem length_path_untilZero_le (names : List (List (BitVec 16))) :
    (path dirSeperator (names.map untilZero)).length ≤ (path dirSeperator names).length := by
  induction names with
  | nil => exact Nat.le_refl _
  | cons name names ih =>
      have hname := length_untilZero_le name
      simp only [List.map_cons, path_cons, List.length_append, List.length_cons]
      omega

theorem length_path_untilZero_lt {name : List (BitVec 16)} (hmem : name ∈ names)
    (hzero : 0 ∈ name) :
    (path dirSeperator (names.map untilZero)).length < (path dirSeperator names).length := by
  induction names with
  | nil => cases hmem
  | cons name' names ih =>
      simp only [List.map_cons, path_cons, List.length_append, List.length_cons]
      obtain rfl | hmem := List.mem_cons.mp hmem
      · have hname := length_untilZero_lt hzero
        have hrest := length_path_untilZero_le names
        omega
      · have hname := length_untilZero_le name'
        have hrest := ih hmem
        omega

/-- **Names that are cut off** are the names just if there is room for all, and no 0. -/
theorem take_below_eq_iff {n : Nat} (hsome : names ≠ []) :
    (below dirSeperator base (names.map untilZero)).map (·.take n) = below dirSeperator base names ↔
      base.length + (path dirSeperator names).length ≤ n ∧ ∀ name ∈ names, 0 ∉ name := by
  constructor
  · intro h
    have hsome' : names.map untilZero ≠ [] := fun h => hsome (List.map_eq_nil_iff.mp h)
    have hlast := congrArg List.getLast? h
    rw [List.getLast?_map, getLast?_below hsome', getLast?_below hsome] at hlast
    have hlength := congrArg List.length (Option.some.inj hlast)
    rw [List.length_take, List.length_append, List.length_append] at hlength
    have hle := length_path_untilZero_le names
    refine ⟨by omega, fun name hmem hzero => ?_⟩
    have hlt := length_path_untilZero_lt hmem hzero
    omega
  · rintro ⟨hroom, hzero⟩
    have hnames : names.map untilZero = names :=
      (List.map_congr_left fun name hmem => untilZero_eq_self (hzero name hmem)).trans
        (List.map_id names)
    rw [hnames]
    refine (List.map_congr_left fun p hp => ?_).trans (List.map_id _)
    refine List.take_of_length_le (Nat.le_trans (isPrefix_of_mem_below hp).length_le ?_)
    rwa [List.length_append]

end Room

namespace Backup

variable {lib : SafeStrings} {b : Backup}

theorem names_ne_nil (b : Backup) : b.names ≠ [] := List.cons_ne_nil _ _

theorem names_separator (b : Backup) : ∀ name ∈ b.names, dirSeperator ∉ name := by
  intro name hname
  obtain rfl | hname := List.mem_cons.mp hname
  · exact b.drive.property
  · obtain ⟨directory, -, rfl⟩ := List.mem_map.mp hname
    exact directory.property

/-- The drive and the directory behind it. -/
theorem fileDirectory_path (b : Backup) : b.fileDosDrive.text ++ b.parentDir.text =
    path dirSeperator b.names ++ [dirSeperator] := by
  rw [b.fileDosDrive_text, b.parentDir_text, names, path_cons, path_cons]
  simp

theorem fileDirectory_maximumLength (lib : SafeStrings) (fileDosDrive parentDir : UnicodeString) :
    (fileDirectory lib .successful fileDosDrive parentDir).maximumLength =
      UnicodeString.room [parentDir, fileDosDrive] :=
  (lib.cat_maximumLength _ _).trans (lib.cat_maximumLength _ _)

theorem fileDirectory_text (lib : SafeStrings) (fileDosDrive parentDir : UnicodeString) :
    (fileDirectory lib .successful fileDosDrive parentDir).text =
      (fileDosDrive.text ++ parentDir.text).take
        ((UnicodeString.room [parentDir, fileDosDrive]).toNat / 2) := by
  show (lib.cat (lib.cat _ _) _).text = _
  rw [lib.cat_text, lib.cat_text, lib.cat_maximumLength, take_append_of_take]
  rfl

theorem completeFilePath_text (lib : SafeStrings)
    (logDirectory fileDosDrive parentDir finalComponent : UnicodeString) :
    (completeFilePath lib .successful logDirectory fileDosDrive parentDir finalComponent).text =
      (logDirectory.text ++ fileDosDrive.text ++ parentDir.text ++ finalComponent.text).take
        ((UnicodeString.room [logDirectory, fileDosDrive, finalComponent, parentDir]).toNat / 2) := by
  show (lib.cat (lib.cat (lib.cat (lib.cat _ _) _) _) _).text = _
  simp only [lib.cat_text, lib.cat_maximumLength, take_append_of_take]
  rfl

/-- What does not fit has a separator at the end, and its directory is not created. -/
theorem length_created_lt (h : (UnicodeString.room [b.parentDir, b.fileDosDrive]).toNat <
    b.fileDosDrive.length + b.parentDir.length) :
    (b.created lib).length < b.names.length := by
  have htext := fileDirectory_text lib b.fileDosDrive b.parentDir
  have hlength := congrArg List.length b.fileDirectory_path
  rw [List.length_append, List.length_append, List.length_singleton] at hlength
  have hshort : (UnicodeString.room [b.parentDir, b.fileDosDrive]).toNat / 2 ≤
      (path dirSeperator b.names).length := by
    unfold UnicodeString.length at h
    omega
  rw [b.fileDirectory_path, List.take_append_of_le_length hshort, names, path_cons,
    List.cons_append] at htext
  refine Nat.lt_of_le_of_lt length_createAllDirectories_le ?_
  rw [htext]
  cases hroom : (UnicodeString.room [b.parentDir, b.fileDosDrive]).toNat / 2 with
  | zero => exact Nat.succ_pos _
  | succ n =>
      have hcount := count_path b.names_separator
      rw [names, path_cons, List.cons_append, List.count_cons_self] at hcount
      rw [List.take_succ_cons, List.tail_cons, names, ← hcount]
      exact Nat.lt_succ_of_le ((List.take_sublist _ _).count_le _)

/-- What is created where the directory was not cut off. -/
theorem created_eq (h : b.fileDosDrive.length + b.parentDir.length ≤
    (UnicodeString.room [b.parentDir, b.fileDosDrive]).toNat) :
    b.created lib = (below dirSeperator b.logDirectory.text (b.names.map untilZero)).map
      (·.take ((UnicodeString.room [b.logDirectory,
        .allocate [b.parentDir, b.fileDosDrive]]).toNat / 2)) := by
  have htext := fileDirectory_text lib b.fileDosDrive b.parentDir
  have hroom : (b.fileDosDrive.text ++ b.parentDir.text).length ≤
      (UnicodeString.room [b.parentDir, b.fileDosDrive]).toNat / 2 := by
    unfold UnicodeString.length at h
    rw [List.length_append]
    omega
  rw [List.take_of_length_le hroom, b.fileDirectory_path] at htext
  have hcreated := @createAllDirectories_eq lib b.logDirectory _ b.names b.names_ne_nil
    b.names_separator htext
  rw [created, hcreated]
  simp only [UnicodeString.room, List.foldr_cons, List.foldr_nil, fileDirectory_maximumLength,
    UnicodeString.allocate]

/-- A directory that the path of the copy goes through is an expected one. -/
theorem mem_expected (b : Backup) {p : List (BitVec 16)}
    (h : p ++ [dirSeperator] <+: b.copied lib) (hlong : b.logDirectory.text.length < p.length) :
    p ∈ b.expected := by
  have hwhole : b.logDirectory.text ++ b.fileDosDrive.text ++ b.parentDir.text ++
      b.finalComponent.text = b.logDirectory.text ++ path dirSeperator b.names ++
        dirSeperator :: b.finalComponent.text := by
    have hpath := b.fileDirectory_path
    rw [List.append_assoc b.logDirectory.text, hpath]
    simp
  refine mem_below_of_isPrefix b.names_separator b.finalComponent_name hlong ?_
  rw [← hwhole]
  rw [copied, completeFilePath_text] at h
  exact h.trans (List.take_prefix _ _)

theorem length_names (b : Backup) : b.fileDosDrive.text.length + b.parentDir.text.length =
    (path dirSeperator b.names).length + 1 := by
  have hlength := congrArg List.length b.fileDirectory_path
  rwa [List.length_append, List.length_append, List.length_singleton] at hlength

theorem Creates.hasRoom (h : b.Creates lib) : b.HasRoom := by
  have hfile : b.fileDosDrive.length + b.parentDir.length ≤
      (UnicodeString.room [b.parentDir, b.fileDosDrive]).toNat := by
    refine Nat.le_of_not_lt fun hshort => ?_
    have hlt := @length_created_lt lib b hshort
    rw [h.calls, expected, length_below] at hlt
    exact Nat.lt_irrefl _ hlt
  have hcalls := h.calls
  rw [created_eq hfile] at hcalls
  obtain ⟨hroom, hzero⟩ := (take_below_eq_iff b.names_ne_nil).mp hcalls
  refine ⟨hfile, ?_, hzero⟩
  have hlength := b.length_names
  unfold UnicodeString.length
  omega

theorem HasRoom.created_eq_expected (h : b.HasRoom) : b.created lib = b.expected := by
  rw [created_eq h.fileDirectory]
  refine (take_below_eq_iff b.names_ne_nil).mpr ⟨?_, h.noZero⟩
  have hroom := h.totalDirectory
  have hlength := b.length_names
  unfold UnicodeString.length at hroom
  omega

/-- **All the directories are created just if there is room for them.** -/
theorem creates_iff (lib : SafeStrings) (b : Backup) : b.Creates lib ↔ b.HasRoom := by
  refine ⟨Creates.hasRoom, fun h => ?_⟩
  have hcalls : b.created lib = b.expected := h.created_eq_expected
  constructor
  · exact hcalls
  · rw [hcalls]
    exact nodup_below _ _ _
  · rw [hcalls]
    exact below_parents _ _ _
  · intro p hp hlong
    rw [hcalls]
    exact b.mem_expected hp hlong

/-- There is room where the maximum lengths are not too long together. -/
theorem hasRoom_of_lt (h : b.logDirectory.maximumLength.toNat + b.fileDosDrive.maximumLength.toNat +
    b.parentDir.maximumLength.toNat + 4 < 2 ^ 16) (hzero : ∀ name ∈ b.names, 0 ∉ name) :
    b.HasRoom := by
  have hlog := b.logDirectory.fits
  have hdrive := b.fileDosDrive.fits
  have hparent := b.parentDir.fits
  have h2 : (2 : BitVec 16).toNat = 2 := rfl
  have hfile : (UnicodeString.room [b.parentDir, b.fileDosDrive]).toNat =
      b.parentDir.maximumLength.toNat + b.fileDosDrive.maximumLength.toNat + 2 := by
    simp only [UnicodeString.room, List.foldr_cons, List.foldr_nil, BitVec.toNat_add]
    omega
  have htotal : (UnicodeString.room
      [b.logDirectory, .allocate [b.parentDir, b.fileDosDrive]]).toNat =
        b.logDirectory.maximumLength.toNat +
          (UnicodeString.room [b.parentDir, b.fileDosDrive]).toNat + 2 := by
    rw [hfile]
    simp only [UnicodeString.room, UnicodeString.allocate, List.foldr_cons, List.foldr_nil,
      BitVec.toNat_add]
    omega
  refine ⟨?_, ?_, hzero⟩
  · unfold UnicodeString.length
    omega
  · unfold UnicodeString.length
    omega

/-- **The copy of a deleted file**: its directories, and then the file. -/
theorem HasRoom.copyFileIfBeingDeleted_eq (h : b.HasRoom) {op : DeleteOperation}
    (hfile : op.isDirectory = false)
    (hoperation : op.majorFunction = irpMjSetInformation ∧
      op.fileInformationClass = fileDispositionInformation)
    (hdelete : op.deleteFile ∧ op.synchronous ∧ op.parsed)
    (hdrive : getDosDeviceName .successful op.volume op.share = b.fileDosDrive)
    (hparent : op.parentDir = b.parentDir) (hfinal : op.finalComponent = b.finalComponent) :
    copyFileIfBeingDeleted lib .successful true b.logDirectory op =
      b.expected.map .createADirectory ++ [.copyFile (b.copied lib)] := by
  obtain ⟨hdeleteFile, hsynchronous, hparsed⟩ := hdelete
  rw [copyFileIfBeingDeleted, hfile, if_neg Bool.false_ne_true, if_pos hoperation,
    if_pos ⟨hdeleteFile, hsynchronous, hparsed, rfl⟩, hdrive, hparent, hfinal,
    ← @HasRoom.created_eq_expected lib b h]
  rfl

/-! ### A deep directory -/

/-- The functions of `ntstrsafe.h`, as they are documented. -/
def cutOff : SafeStrings where
  cat s t :=
    { s with
      text := (s.text ++ t.text).take (s.maximumLength.toNat / 2)
      fits := by
        have hlength := List.length_take_le (s.maximumLength.toNat / 2) (s.text ++ t.text)
        omega }
  catString s t :=
    { s with
      text := (s.text ++ t.takeWhile (· ≠ 0)).take (s.maximumLength.toNat / 2)
      fits := by
        have hlength := List.length_take_le (s.maximumLength.toNat / 2)
          (s.text ++ t.takeWhile (· ≠ 0))
        omega }
  cat_maximumLength _ _ := rfl
  cat_text _ _ := rfl
  catString_maximumLength _ _ := rfl
  catString_text _ _ := rfl

/-- A file on drive `\C`, in a directory with a path of 32513 characters; that of the log directory
has 247. -/
def deepDirectory (log : List (BitVec 16)) (directories : List (Name dirSeperator))
    (hlog : log.length = 247) (hend : log.getLast? ≠ some dirSeperator)
    (hpath : (path dirSeperator (directories.map Subtype.val) ++ [dirSeperator]).length = 32513) :
    Backup where
  logDirectory :=
    { maximumLength := 498
      text := log
      even := by decide
      fits := by
        rw [hlog]
        decide }
  fileDosDrive := { maximumLength := 8, text := [92, 67], even := by decide, fits := by decide }
  parentDir :=
    { maximumLength := 65026
      text := path dirSeperator (directories.map Subtype.val) ++ [dirSeperator]
      even := by decide
      fits := by
        rw [hpath]
        decide }
  finalComponent := { maximumLength := 2, text := [97], even := by decide, fits := by decide }
  drive := ⟨[67], by decide⟩
  directories
  logDirectory_end := hend
  fileDosDrive_text := rfl
  parentDir_text := rfl
  finalComponent_name := by decide
  combined := by
    unfold UnicodeString.length
    rw [hlog, hpath]
    decide

/-- The maximum length is 0. -/
theorem deepDirectory_hasNoRoom {log : List (BitVec 16)} {directories : List (Name dirSeperator)}
    (hlog : log.length = 247) (hend : log.getLast? ≠ some dirSeperator)
    (hpath : (path dirSeperator (directories.map Subtype.val) ++ [dirSeperator]).length = 32513) :
    ¬ (deepDirectory log directories hlog hend hpath).HasRoom := by
  intro h
  have htotal := h.totalDirectory
  have hroom : UnicodeString.room [(deepDirectory log directories hlog hend hpath).logDirectory,
      .allocate [(deepDirectory log directories hlog hend hpath).parentDir,
        (deepDirectory log directories hlog hend hpath).fileDosDrive]] = 0 := by
    simp only [UnicodeString.room, UnicodeString.allocate, List.foldr_cons, List.foldr_nil,
      deepDirectory]
    decide
  rw [hroom] at htotal
  simp only [deepDirectory, UnicodeString.length, hlog, hpath] at htotal
  exact absurd htotal (by decide)

/-- A name of 255 letters. -/
def longName : Name dirSeperator :=
  ⟨List.replicate 255 97, fun h => absurd (List.eq_of_mem_replicate h) (by decide)⟩

theorem length_longPath :
    (path dirSeperator ((List.replicate 127 longName).map Subtype.val) ++ [dirSeperator]).length =
      32513 := by
  have hname : longName.val.length = 255 := List.length_replicate
  rw [List.length_append, length_path, List.map_replicate, List.map_replicate, hname,
    List.sum_replicate_nat]
  rfl

/-- With 127 such names, in the log directory `\??\C:\` and a name of 240 letters, not all the
directories are created. -/
theorem deep_directory_not_created : ¬ ∀ (lib : SafeStrings) (b : Backup), b.Creates lib := by
  intro hall
  have hlog : ([92, 63, 63, 92, 67, 58, 92] ++ List.replicate 240 97 : List (BitVec 16)).length =
      247 := by
    rw [List.length_append, List.length_replicate]
    rfl
  have hend : ([92, 63, 63, 92, 67, 58, 92] ++ List.replicate 240 97 : List (BitVec 16)).getLast? ≠
      some dirSeperator := by
    rw [List.getLast?_append, List.getLast?_replicate]
    decide
  exact deepDirectory_hasNoRoom hlog hend length_longPath (hall cutOff _).hasRoom

end Backup

end CaptureHpc.Driver
