/-
# `Server.FileTransfer` — files that a client sends

A client announces a file, sends its parts, and says when it has finished.  The
transfers of a connection are kept by the announced name.  The file that is
written has another name: it is derived from the visiting group and the type.

The constructor of `ClientFileReceiver` opens its file before anyone looks
whether the name is new, and two names may lead to one file.  `Undisturbed` is
the condition that this does not happen, and under it each transfer is stored
as its own parts (`transfers_safe`).
-/
import CaptureHpc.Java.Streams
import CaptureHpc.Lib.Base64
import CaptureHpc.Lib.Machine
import CaptureHpc.Server.ContentHandler

namespace CaptureHpc.Server

open Java

/-! ## The handler -/

/-- A `ClientFileReceiver`: what it has written, and the stream it writes to. -/
structure Transfer where
  file : ClientFileReceiver
  stream : Stream

structure Transfers where
  clientFileReceivers : List (Option String × Transfer) := []
  disk : Disk := fun _ => []
  /-- The names in the `file-accept` messages. -/
  accepted : List String := []

/-- What the constructor finds: the client, if there is one, with the file name of the group it is
visiting, and whether the file can be opened. -/
structure Surroundings where
  client : Option (Option String)
  canOpen : Bool

namespace Transfers

/-- The fields of the constructor: the path of the file, `none` if there is no client. -/
def outputPath (around : Surroundings) (e : Element) : Except JavaException (Option String) := do
  let _ ← intAttribute e "size"
  match around.client with
  | none => return none
  | some (some group) => return some ("log/" ++ group ++ "." ++ shown (e.get "type"))
  | some none =>
      match e.get "name" with
      | some name => return some name
      | none => throw .nullPointer

/-- The constructor of `ClientFileReceiver`. -/
def construct (s : Transfers) (around : Surroundings) (e : Element) :
    Except JavaException (Transfers × Transfer) := do
  match ← outputPath around e with
  | none => return (s, { file := { outputFile := none }, stream := { path := "" } })
  | some path =>
      if around.canOpen then
        return ({ s with disk := (Stream.create s.disk path).1, accepted := s.accepted ++ [path] },
          { file := { outputFile := some [] }, stream := (Stream.create s.disk path).2 })
      else return (s, { file := { outputFile := none }, stream := { path } })

/-- `endElement` for `file`. -/
def receiveFile (s : Transfers) (around : Surroundings) (e : Element) :
    Except JavaException Transfers := do
  let (s, file) ← construct s around e
  let fileName := e.get "name"
  if (s.clientFileReceivers.lookup fileName).isNone then
    return { s with clientFileReceivers := s.clientFileReceivers ++ [(fileName, file)] }
  else return s

/-- A transfer after its entry has changed. -/
def replace (name : Option String) (t : Transfer) (receivers : List (Option String × Transfer)) :
    List (Option String × Transfer) :=
  receivers.map fun entry => if entry.1 = name then (name, t) else entry

/-- What was written since then. -/
def since (before after : ClientFileReceiver) : List UInt8 :=
  match before.outputFile, after.outputFile with
  | some old, some new => new.drop old.length
  | _, _ => []

/-- `endElement` for `part`. -/
def receivePart (decodeBuffer : String → Option (List UInt8)) (s : Transfers) (e : Element) :
    Except JavaException Transfers := do
  let fileName := e.get "name"
  match s.clientFileReceivers.lookup fileName with
  | none => return s
  | some t =>
      let file ← t.file.receiveFilePart decodeBuffer e
      let bytes := since t.file file
      return { s with
        disk := (t.stream.write s.disk bytes).1
        clientFileReceivers := replace fileName { file, stream := (t.stream.write s.disk bytes).2 }
          s.clientFileReceivers }

/-- `endElement` for `file-finished`, with `receiveFileEnd`. -/
def receiveFinished (s : Transfers) (e : Element) : Except JavaException Transfers := do
  let fileName := e.get "name"
  match s.clientFileReceivers.lookup fileName with
  | none => return s
  | some t =>
      if t.file.outputFile.isNone then throw .nullPointer
      return { s with
        disk := (t.stream.flush s.disk).1
        clientFileReceivers := s.clientFileReceivers.filter fun entry => entry.1 ≠ fileName }

/-- The branches of `endElement` for files. -/
def endElement (decodeBuffer : String → Option (List UInt8)) (s : Transfers) (around : Surroundings)
    (e : Element) : Except JavaException Transfers :=
  if e.name = "file" then receiveFile s around e
  else if e.name = "part" then receivePart decodeBuffer s e
  else if e.name = "file-finished" then receiveFinished s e
  else .ok s

/-- The messages of a connection, one after the other. -/
def handleAll (decodeBuffer : String → Option (List UInt8)) (s : Transfers) :
    List (Surroundings × Element) → Except JavaException Transfers
  | [] => .ok s
  | m :: ms => do
      let s ← endElement decodeBuffer s m.1 m.2
      handleAll decodeBuffer s ms

/-! ## What a message does -/

variable {decodeBuffer : String → Option (List UInt8)} {s s' : Transfers} {around : Surroundings}
  {e : Element}

/-- What the constructor can do: it opens a file, or it does nothing. -/
theorem construct_cases {s₁ : Transfers} {t : Transfer} (h : construct s around e = .ok (s₁, t)) :
    (s₁ = s ∧ t.file.outputFile = none ∧
      ¬ (around.canOpen = true ∧ ∃ path, outputPath around e = .ok (some path))) ∨
    ∃ path, outputPath around e = .ok (some path) ∧ around.canOpen = true ∧
      s₁ = { s with disk := (Stream.create s.disk path).1, accepted := s.accepted ++ [path] } ∧
      t = { file := { outputFile := some [] }, stream := (Stream.create s.disk path).2 } := by
  unfold construct at h
  cases hpath : outputPath around e with
  | error x =>
      rw [hpath] at h
      cases h
  | ok path =>
      rw [hpath] at h
      cases path with
      | none =>
          obtain ⟨rfl, rfl⟩ := Prod.mk.inj (Except.ok.inj h)
          exact .inl ⟨rfl, rfl, fun hopen => nomatch hopen.2⟩
      | some path =>
          by_cases hopen : around.canOpen = true
          · have h := h
            simp only [hopen, if_true] at h
            obtain ⟨rfl, rfl⟩ := Prod.mk.inj (Except.ok.inj h)
            exact .inr ⟨path, rfl, hopen, rfl, rfl⟩
          · simp only [hopen] at h
            obtain ⟨rfl, rfl⟩ := Prod.mk.inj (Except.ok.inj h)
            exact .inl ⟨rfl, rfl, fun h => hopen h.1⟩

/-- What a `file` message can do, for a name that is received already and for a new one. -/
theorem receiveFile_cases (h : receiveFile s around e = .ok s') :
    ∃ s₁ t, construct s around e = .ok (s₁, t) ∧
      (((s.clientFileReceivers.lookup (e.get "name")).isSome ∧ s' = s₁) ∨
        (s.clientFileReceivers.lookup (e.get "name") = none ∧
          s' = { s₁ with clientFileReceivers := s.clientFileReceivers ++ [(e.get "name", t)] })) := by
  unfold receiveFile at h
  cases hconstruct : construct s around e with
  | error x =>
      rw [hconstruct] at h
      cases h
  | ok r =>
      obtain ⟨s₁, t⟩ := r
      rw [hconstruct] at h
      have hreceivers : s₁.clientFileReceivers = s.clientFileReceivers := by
        obtain ⟨rfl, -⟩ | ⟨path, -, -, rfl, -⟩ := construct_cases hconstruct
        · rfl
        · rfl
      refine ⟨s₁, t, rfl, ?_⟩
      cases hlookup : s.clientFileReceivers.lookup (e.get "name") with
      | none =>
          simp only [bind, Except.bind, hreceivers, hlookup] at h
          exact .inr ⟨rfl, (Except.ok.inj h).symm⟩
      | some old =>
          simp only [bind, Except.bind, hreceivers, hlookup] at h
          exact .inl ⟨rfl, (Except.ok.inj h).symm⟩

/-- What a part can do to its transfer. -/
theorem receivePart_cases (h : receivePart decodeBuffer s e = .ok s') :
    (s.clientFileReceivers.lookup (e.get "name") = none ∧ s' = s) ∨
    ∃ t file, s.clientFileReceivers.lookup (e.get "name") = some t ∧
      t.file.receiveFilePart decodeBuffer e = .ok file ∧
      s' = { s with
        disk := (t.stream.write s.disk (since t.file file)).1
        clientFileReceivers := replace (e.get "name")
          { file, stream := (t.stream.write s.disk (since t.file file)).2 }
          s.clientFileReceivers } := by
  unfold receivePart at h
  cases hlookup : s.clientFileReceivers.lookup (e.get "name") with
  | none =>
      simp only [hlookup] at h
      exact .inl ⟨rfl, (Except.ok.inj h).symm⟩
  | some t =>
      simp only [hlookup] at h
      cases hfile : t.file.receiveFilePart decodeBuffer e with
      | error x =>
          rw [hfile] at h
          cases h
      | ok file =>
          rw [hfile] at h
          exact .inr ⟨t, file, rfl, hfile, (Except.ok.inj h).symm⟩

theorem receiveFinished_cases (h : receiveFinished s e = .ok s') :
    (s.clientFileReceivers.lookup (e.get "name") = none ∧ s' = s) ∨
    ∃ t, s.clientFileReceivers.lookup (e.get "name") = some t ∧ t.file.outputFile.isSome ∧
      s' = { s with
        disk := (t.stream.flush s.disk).1
        clientFileReceivers :=
          s.clientFileReceivers.filter fun entry => entry.1 ≠ e.get "name" } := by
  unfold receiveFinished at h
  cases hlookup : s.clientFileReceivers.lookup (e.get "name") with
  | none =>
      simp only [hlookup] at h
      exact .inl ⟨rfl, (Except.ok.inj h).symm⟩
  | some t =>
      cases hfile : t.file.outputFile with
      | none =>
          simp only [hlookup, hfile] at h
          cases h
      | some written =>
          simp only [hlookup, hfile] at h
          exact .inr ⟨t, rfl, by rw [hfile]; rfl, (Except.ok.inj h).symm⟩

theorem handleAll_cons {m : Surroundings × Element} {ms : List (Surroundings × Element)}
    (h : handleAll decodeBuffer s (m :: ms) = .ok s') :
    ∃ s₁, endElement decodeBuffer s m.1 m.2 = .ok s₁ ∧ handleAll decodeBuffer s₁ ms = .ok s' := by
  rw [handleAll] at h
  cases hs₁ : endElement decodeBuffer s m.1 m.2 with
  | error x =>
      rw [hs₁] at h
      cases h
  | ok s₁ =>
      rw [hs₁] at h
      exact ⟨s₁, rfl, h⟩

/-! ### The transfers by name -/

/-- One step of `lookup`. -/
theorem lookup_cons_eq {key k : Option String} (t : Transfer)
    (receivers : List (Option String × Transfer)) :
    List.lookup key ((k, t) :: receivers) =
      if key = k then some t else receivers.lookup key := by
  rw [List.lookup_cons]
  split_ifs with hkey
  · rw [beq_iff_eq.mpr hkey]
  · rw [beq_false_of_ne hkey]

theorem lookup_replace (name key : Option String) (t : Transfer) :
    ∀ receivers : List (Option String × Transfer), (replace name t receivers).lookup key =
      if key = name then (receivers.lookup key).map fun _ => t else receivers.lookup key
  | [] => by simp [replace]
  | (k, old) :: receivers => by
      have ih := lookup_replace name key t receivers
      have hcons : replace name t ((k, old) :: receivers) =
          (if k = name then (name, t) else (k, old)) :: replace name t receivers := rfl
      rw [hcons]
      by_cases hk : k = name
      · subst hk
        rw [if_pos rfl, lookup_cons_eq, lookup_cons_eq, ih]
        by_cases hkey : key = k
        · simp only [if_pos hkey, Option.map_some]
        · simp only [if_neg hkey]
      · rw [if_neg hk, lookup_cons_eq, lookup_cons_eq, ih]
        by_cases hkey : key = k
        · have hne : key ≠ name := fun h => hk (hkey.symm.trans h)
          simp only [if_pos hkey, if_neg hne]
        · simp only [if_neg hkey]

theorem lookup_filter {name key : Option String} (hkey : key ≠ name) :
    ∀ receivers : List (Option String × Transfer),
      (receivers.filter fun entry => entry.1 ≠ name).lookup key = receivers.lookup key
  | [] => rfl
  | (k, old) :: receivers => by
      have ih := lookup_filter hkey receivers
      by_cases hk : k = name
      · rw [List.filter_cons_of_neg (by simpa using hk), lookup_cons_eq, ih,
          if_neg (fun h => hkey (h.trans hk))]
      · rw [List.filter_cons_of_pos (by simpa using hk), lookup_cons_eq, lookup_cons_eq, ih]

theorem lookup_concat {key k : Option String} (t : Transfer)
    (receivers : List (Option String × Transfer)) : (receivers ++ [(k, t)]).lookup key =
      (receivers.lookup key).or (if key = k then some t else none) := by
  rw [List.lookup_append, lookup_cons_eq, List.lookup_nil]

/-- A message about the file of this name. -/
def Concerns (name : Option String) (e : Element) : Prop :=
  (e.name = "file" ∨ e.name = "part" ∨ e.name = "file-finished") ∧ e.get "name" = name

instance (name : Option String) (e : Element) : Decidable (Concerns name e) :=
  inferInstanceAs (Decidable (_ ∧ _))

/-- A message about another file leaves a transfer alone. -/
theorem lookup_endElement {name : Option String} (h : endElement decodeBuffer s around e = .ok s')
    (hother : ¬ Concerns name e) :
    s'.clientFileReceivers.lookup name = s.clientFileReceivers.lookup name := by
  unfold endElement at h
  split_ifs at h with hfile hpart hfinished
  · have hne : name ≠ e.get "name" := fun hname => hother ⟨.inl hfile, hname.symm⟩
    obtain ⟨s₁, t, hconstruct, ⟨-, rfl⟩ | ⟨-, rfl⟩⟩ := receiveFile_cases h
    · obtain ⟨rfl, -⟩ | ⟨path, -, -, rfl, -⟩ := construct_cases hconstruct
      · rfl
      · rfl
    · rw [lookup_concat, if_neg hne, Option.or_none]
  · have hne : name ≠ e.get "name" := fun hname => hother ⟨.inr (.inl hpart), hname.symm⟩
    obtain ⟨-, rfl⟩ | ⟨t, file, -, -, rfl⟩ := receivePart_cases h
    · rfl
    · rw [lookup_replace, if_neg hne]
  · have hne : name ≠ e.get "name" := fun hname => hother ⟨.inr (.inr hfinished), hname.symm⟩
    obtain ⟨-, rfl⟩ | ⟨t, -, -, rfl⟩ := receiveFinished_cases h
    · rfl
    · exact lookup_filter hne _
  · obtain rfl := Except.ok.inj h
    rfl

/-! ## What is stored -/

/-- What a part adds to a file. -/
def partBytes (decodeBuffer : String → Option (List UInt8)) (e : Element) : List UInt8 :=
  match ClientFileReceiver.receiveFilePart decodeBuffer { outputFile := some [] } e with
  | .ok { outputFile := some bytes } => bytes
  | _ => []

/-- The parts of each transfer since it was announced, put together, and for each one that has
finished what was stored and its own parts. -/
structure History where
  parts : Option String → List UInt8 := fun _ => []
  finished : List (List UInt8 × List UInt8) := []

def History.setParts (h : History) (name : Option String) (bytes : List UInt8) : History :=
  { h with parts := Function.update h.parts name bytes }

def History.record (decodeBuffer : String → Option (List UInt8)) (h : History) (s : Transfers)
    (a : Surroundings × Element) (s' : Transfers) : History :=
  let name := a.2.get "name"
  match s.clientFileReceivers.lookup name with
  | none =>
      if a.2.name = "file" then h.setParts name [] else h
  | some t =>
      if a.2.name = "part" then h.setParts name (h.parts name ++ partBytes decodeBuffer a.2)
      else if a.2.name = "file-finished" then
        { h with finished := (s'.disk t.stream.path, h.parts name) :: h.finished }
      else h

/-- A connection; an exception ends it. -/
def connection (decodeBuffer : String → Option (List UInt8)) :
    Machine Transfers (Surroundings × Element) where
  init s := s = {}
  next s a := (endElement decodeBuffer s a.1 a.2).toOption

def transfersMachine (decodeBuffer : String → Option (List UInt8)) :
    Machine (Transfers × History) (Surroundings × Element) :=
  (connection decodeBuffer).recording {} (History.record decodeBuffer)

/-- The files that transfers have open. -/
def openPaths (s : Transfers) : List String :=
  (s.clientFileReceivers.filter fun entry => entry.2.file.outputFile.isSome).map
    fun entry => entry.2.stream.path

/-- **The condition on a message**: an announcement that opens a file is one of a new name, and its
file is not that of a transfer in progress. -/
def Undisturbed (x : Transfers × History) (a : Surroundings × Element) : Prop :=
  a.2.name = "file" → a.1.canOpen = true → ∀ path, outputPath a.1 a.2 = .ok (some path) →
    x.1.clientFileReceivers.lookup (a.2.get "name") = none ∧ path ∉ openPaths x.1

instance (x : Transfers × History) (a : Surroundings × Element) : Decidable (Undisturbed x a) :=
  match hpath : outputPath a.1 a.2 with
  | .error _ => .isTrue fun _ _ _ h => nomatch hpath.symm.trans h
  | .ok none => .isTrue fun _ _ _ h => nomatch hpath.symm.trans h
  | .ok (some path) => decidable_of_iff
      (a.2.name = "file" → a.1.canOpen = true →
        (x.1.clientFileReceivers.lookup (a.2.get "name")).isNone ∧ path ∉ openPaths x.1)
      ⟨fun h hfile hopen p hp => by
          obtain rfl := Option.some.inj (Except.ok.inj (hpath.symm.trans hp))
          exact ⟨Option.isNone_iff_eq_none.mp (h hfile hopen).1, (h hfile hopen).2⟩,
        fun h hfile hopen =>
          ⟨Option.isNone_iff_eq_none.mpr (h hfile hopen path hpath).1,
            (h hfile hopen path hpath).2⟩⟩

/-! ### The invariant -/

/-- What holds of each transfer. -/
def Stored (s : Transfers) (h : History) (entry : Option String × Transfer) : Prop :=
  ∀ written, entry.2.file.outputFile = some written →
    entry.2.stream.Holds s.disk written ∧ written = h.parts entry.1

/-- What holds of all. -/
structure Kept (x : Transfers × History) : Prop where
  names : ∀ a ∈ x.1.clientFileReceivers, ∀ b ∈ x.1.clientFileReceivers, a.1 = b.1 → a = b
  paths : ∀ a ∈ x.1.clientFileReceivers, ∀ b ∈ x.1.clientFileReceivers,
    a.2.file.outputFile.isSome → b.2.file.outputFile.isSome →
      a.2.stream.path = b.2.stream.path → a = b
  stored : ∀ entry ∈ x.1.clientFileReceivers, Stored x.1 x.2 entry
  finished : ∀ f ∈ x.2.finished, f.1 = f.2

section Invariant
variable {h : History}

theorem mem_of_lookup {name : Option String} {t : Transfer} :
    ∀ {receivers : List (Option String × Transfer)}, receivers.lookup name = some t →
      (name, t) ∈ receivers := by
  intro receivers
  induction receivers with
  | nil =>
      intro hlookup
      cases hlookup
  | cons entry receivers ih =>
      intro hlookup
      obtain ⟨k, old⟩ := entry
      rw [lookup_cons_eq] at hlookup
      split_ifs at hlookup with hk
      · obtain rfl := Option.some.inj hlookup
        exact hk ▸ List.mem_cons_self
      · exact List.mem_cons_of_mem _ (ih hlookup)

theorem ne_of_lookup_none {name : Option String} :
    ∀ {receivers : List (Option String × Transfer)}, receivers.lookup name = none →
      ∀ entry ∈ receivers, entry.1 ≠ name := by
  intro receivers
  induction receivers with
  | nil =>
      intro _ entry hentry
      cases hentry
  | cons first receivers ih =>
      intro hlookup entry hentry
      obtain ⟨k, old⟩ := first
      rw [lookup_cons_eq] at hlookup
      split_ifs at hlookup with hk
      obtain rfl | hentry := List.mem_cons.mp hentry
      · exact fun hname => hk hname.symm
      · exact ih hlookup entry hentry

theorem mem_openPaths {path : String} : path ∈ openPaths s ↔ ∃ entry ∈ s.clientFileReceivers,
    entry.2.file.outputFile.isSome ∧ entry.2.stream.path = path := by
  rw [openPaths, List.mem_map]
  simp only [List.mem_filter]
  constructor
  · rintro ⟨entry, ⟨hentry, hopen⟩, hpath⟩
    exact ⟨entry, hentry, hopen, hpath⟩
  · rintro ⟨entry, hentry, hopen, hpath⟩
    exact ⟨entry, ⟨hentry, hopen⟩, hpath⟩

/-- What a part does to what a transfer has written. -/
theorem of_receiveFilePart {file file' : ClientFileReceiver}
    (hpart : file.receiveFilePart decodeBuffer e = .ok file') :
    (file.outputFile = none ∧ file'.outputFile = none) ∨ ∃ written,
      file.outputFile = some written ∧
        file'.outputFile = some (written ++ partBytes decodeBuffer e) := by
  unfold partBytes
  unfold ClientFileReceiver.receiveFilePart at hpart ⊢
  cases hstart : intAttribute e "part-start" with
  | error x =>
      rw [hstart] at hpart
      cases hpart
  | ok partStart =>
      cases hend : intAttribute e "part-end" with
      | error x =>
          rw [hstart, hend] at hpart
          cases hpart
      | ok partEnd =>
          -- what is left to write nothing, and to write the bytes
          have hnothing : file' = file → (file.outputFile = none ∧ file'.outputFile = none) ∨
              ∃ written, file.outputFile = some written ∧
                file'.outputFile = some (written ++ []) := by
            rintro rfl
            cases hfile : file'.outputFile with
            | none => exact .inl ⟨rfl, rfl⟩
            | some written => exact .inr ⟨written, rfl, by rw [List.append_nil]⟩
          simp only [hstart, hend, bind, Except.bind] at hpart ⊢
          cases hencoding : e.get "encoding" with
          | none =>
              rw [hencoding] at hpart
              cases hpart
          | some encoding =>
              simp only [hencoding] at hpart ⊢
              by_cases hbase : encoding = "base64"
              · simp only [hbase, if_true] at hpart ⊢
                cases hdata : decodeBuffer e.data with
                | none =>
                    simp only [hdata] at hpart ⊢
                    exact hnothing (Except.ok.inj hpart).symm
                | some buffer =>
                    simp only [hdata] at hpart ⊢
                    split_ifs at hpart ⊢ with hlength
                    · cases hfile : file.outputFile with
                      | none =>
                          rw [hfile] at hpart
                          cases hpart
                      | some written =>
                          rw [hfile] at hpart
                          obtain rfl := Except.ok.inj hpart
                          exact .inr ⟨written, rfl, rfl⟩
                    · exact hnothing (Except.ok.inj hpart).symm
              · simp only [if_neg hbase] at hpart ⊢
                exact hnothing (Except.ok.inj hpart).symm

/-- A new transfer.  If it has a file open, no other one has. -/
theorem Kept.announce (hx : Kept (s, h)) {name : Option String} {t : Transfer} {disk : Disk}
    (accepted : List String) (hname : s.clientFileReceivers.lookup name = none)
    (hpath : t.file.outputFile.isSome → t.stream.path ∉ openPaths s)
    (hdisk : ∀ entry ∈ s.clientFileReceivers, entry.2.file.outputFile.isSome →
      disk entry.2.stream.path = s.disk entry.2.stream.path)
    (hholds : ∀ written, t.file.outputFile = some written →
      t.stream.Holds disk written ∧ written = []) :
    Kept ({ disk, accepted, clientFileReceivers := s.clientFileReceivers ++ [(name, t)] },
      h.setParts name []) := by
  have hnew := ne_of_lookup_none hname
  have hother : ∀ entry ∈ s.clientFileReceivers, entry.2.file.outputFile.isSome →
      t.file.outputFile.isSome → entry.2.stream.path ≠ t.stream.path := by
    intro entry hentry hopen hopent heq
    exact hpath hopent (mem_openPaths.mpr ⟨entry, hentry, hopen, heq⟩)
  constructor
  · intro a ha b hb hab
    obtain ha | ha := List.mem_append.mp ha
    · obtain hb | hb := List.mem_append.mp hb
      · exact hx.names a ha b hb hab
      · obtain rfl := List.mem_singleton.mp hb
        exact absurd hab (hnew a ha)
    · obtain rfl := List.mem_singleton.mp ha
      obtain hb | hb := List.mem_append.mp hb
      · exact absurd hab.symm (hnew b hb)
      · exact (List.mem_singleton.mp hb).symm
  · intro a ha b hb hopena hopenb hab
    obtain ha | ha := List.mem_append.mp ha
    · obtain hb | hb := List.mem_append.mp hb
      · exact hx.paths a ha b hb hopena hopenb hab
      · obtain rfl := List.mem_singleton.mp hb
        exact absurd hab (hother a ha hopena hopenb)
    · obtain rfl := List.mem_singleton.mp ha
      obtain hb | hb := List.mem_append.mp hb
      · exact absurd hab.symm (hother b hb hopenb hopena)
      · exact (List.mem_singleton.mp hb).symm
  · intro entry hentry written hwritten
    show entry.2.stream.Holds disk written ∧ written = Function.update h.parts name [] entry.1
    obtain hentry | hentry := List.mem_append.mp hentry
    · obtain ⟨holds, hparts⟩ := hx.stored entry hentry written hwritten
      have hopen : entry.2.file.outputFile.isSome := by rw [hwritten]; rfl
      rw [Function.update_of_ne (hnew entry hentry)]
      exact ⟨holds.of_disk (hdisk entry hentry hopen), hparts⟩
    · obtain rfl := List.mem_singleton.mp hentry
      rw [Function.update_self]
      exact hholds written hwritten
  · exact hx.finished

/-- A transfer that is replaced by one to the same file, if to any. -/
theorem Kept.replaced (hx : Kept (s, h)) {name : Option String} {t t' : Transfer} {disk : Disk}
    (parts : List UInt8) (ht : s.clientFileReceivers.lookup name = some t)
    (hopen : t'.file.outputFile.isSome → t.file.outputFile.isSome)
    (hpath : t'.stream.path = t.stream.path)
    (hdisk : ∀ entry ∈ s.clientFileReceivers, entry.2.file.outputFile.isSome → entry.1 ≠ name →
      disk entry.2.stream.path = s.disk entry.2.stream.path)
    (hholds : ∀ written, t'.file.outputFile = some written →
      t'.stream.Holds disk written ∧ written = parts) :
    Kept ({ s with disk, clientFileReceivers := replace name t' s.clientFileReceivers },
      h.setParts name parts) := by
  have hmem := mem_of_lookup ht
  -- every entry is an old one, or the new one in the place of the old one
  have hentries : ∀ entry ∈ replace name t' s.clientFileReceivers,
      (entry ∈ s.clientFileReceivers ∧ entry.1 ≠ name) ∨ entry = (name, t') := by
    intro entry hentry
    obtain ⟨old, hold, rfl⟩ := List.mem_map.mp hentry
    split_ifs with hname
    · exact .inr rfl
    · exact .inl ⟨hold, hname⟩
  have hfirst : ∀ entry ∈ s.clientFileReceivers, entry.1 ≠ name → entry.2.file.outputFile.isSome →
      t'.file.outputFile.isSome → entry.2.stream.path ≠ t'.stream.path := by
    intro entry hentry hne hopen₁ hopen₂ heq
    have hsame := hx.paths entry hentry (name, t) hmem hopen₁ (hopen hopen₂) (heq.trans hpath)
    exact hne (congrArg Prod.fst hsame)
  constructor
  · intro a ha b hb hab
    obtain ⟨ha, hane⟩ | rfl := hentries a ha
    · obtain ⟨hb, -⟩ | rfl := hentries b hb
      · exact hx.names a ha b hb hab
      · exact absurd hab hane
    · obtain ⟨-, hbne⟩ | rfl := hentries b hb
      · exact absurd hab.symm hbne
      · rfl
  · intro a ha b hb hopena hopenb hab
    obtain ⟨ha, hane⟩ | rfl := hentries a ha
    · obtain ⟨hb, -⟩ | rfl := hentries b hb
      · exact hx.paths a ha b hb hopena hopenb hab
      · exact absurd hab (hfirst a ha hane hopena hopenb)
    · obtain ⟨hb, hbne⟩ | rfl := hentries b hb
      · exact absurd hab.symm (hfirst b hb hbne hopenb hopena)
      · rfl
  · intro entry hentry written hwritten
    show entry.2.stream.Holds disk written ∧ written = Function.update h.parts name parts entry.1
    obtain ⟨hentry, hne⟩ | rfl := hentries entry hentry
    · obtain ⟨holds, hparts⟩ := hx.stored entry hentry written hwritten
      have hopened : entry.2.file.outputFile.isSome := by rw [hwritten]; rfl
      rw [Function.update_of_ne hne]
      exact ⟨holds.of_disk (hdisk entry hentry hopened hne), hparts⟩
    · rw [Function.update_self]
      exact hholds written hwritten
  · exact hx.finished

/-- A part of a transfer. -/
theorem Kept.part (hx : Kept (s, h)) {t : Transfer} {file : ClientFileReceiver}
    (ht : s.clientFileReceivers.lookup (e.get "name") = some t)
    (hfile : t.file.receiveFilePart decodeBuffer e = .ok file) :
    Kept ({ s with
        disk := (t.stream.write s.disk (since t.file file)).1
        clientFileReceivers := replace (e.get "name")
          { file, stream := (t.stream.write s.disk (since t.file file)).2 } s.clientFileReceivers },
      h.setParts (e.get "name") (h.parts (e.get "name") ++ partBytes decodeBuffer e)) := by
  have hmem := mem_of_lookup ht
  obtain ⟨hclosed, hclosed'⟩ | ⟨written, hwritten, hwritten'⟩ := of_receiveFilePart hfile
  · -- nothing is written to a file that could not be opened
    have hsince : since t.file file = [] := by rw [since, hclosed]
    have hwrite : t.stream.write s.disk (since t.file file) = (s.disk, t.stream) := by
      rw [hsince]
      exact Stream.write_nil s.disk t.stream
    rw [hwrite]
    refine hx.replaced _ ht ?_ rfl (fun _ _ _ _ => rfl) ?_
    · intro hopen
      rw [hclosed'] at hopen
      cases hopen
    · intro written hwritten
      rw [hclosed'] at hwritten
      cases hwritten
  · obtain ⟨holds, hparts⟩ := hx.stored _ hmem written hwritten
    have hopen : t.file.outputFile.isSome := by rw [hwritten]; rfl
    have hsince : since t.file file = partBytes decodeBuffer e := by
      rw [since, hwritten, hwritten']
      exact List.drop_left
    refine hx.replaced _ ht (fun _ => hopen) (Stream.write_path ..) ?_ ?_
    · intro entry hentry hopened hne
      refine Stream.write_other s.disk _ fun heq => hne ?_
      exact congrArg Prod.fst (hx.paths entry hentry _ hmem hopened hopen heq)
    · intro all hall
      have hall : file.outputFile = some all := hall
      obtain rfl := Option.some.inj (hwritten'.symm.trans hall)
      rw [hsince, ← hparts]
      exact ⟨holds.write _, rfl⟩

/-- A transfer that has finished. -/
theorem Kept.finish (hx : Kept (s, h)) {name : Option String} {t : Transfer}
    (ht : s.clientFileReceivers.lookup name = some t) (hopen : t.file.outputFile.isSome) :
    Kept ({ s with
        disk := (t.stream.flush s.disk).1
        clientFileReceivers := s.clientFileReceivers.filter fun entry => entry.1 ≠ name },
      { h with finished := ((t.stream.flush s.disk).1 t.stream.path, h.parts name) ::
        h.finished }) := by
  have hmem := mem_of_lookup ht
  have hentries : ∀ entry ∈ s.clientFileReceivers.filter fun entry => entry.1 ≠ name,
      entry ∈ s.clientFileReceivers ∧ entry.1 ≠ name := by
    intro entry hentry
    obtain ⟨hentry, hne⟩ := List.mem_filter.mp hentry
    exact ⟨hentry, by simpa using hne⟩
  constructor
  · intro a ha b hb hab
    exact hx.names a (hentries a ha).1 b (hentries b hb).1 hab
  · intro a ha b hb hopena hopenb hab
    exact hx.paths a (hentries a ha).1 b (hentries b hb).1 hopena hopenb hab
  · intro entry hentry written hwritten
    obtain ⟨hentry, hne⟩ := hentries entry hentry
    obtain ⟨holds, hparts⟩ := hx.stored entry hentry written hwritten
    have hopened : entry.2.file.outputFile.isSome := by rw [hwritten]; rfl
    refine ⟨holds.of_disk (Stream.flush_other s.disk fun heq => hne ?_), hparts⟩
    exact congrArg Prod.fst (hx.paths entry hentry _ hmem hopened hopen heq)
  · intro f hf
    obtain rfl | hf := List.mem_cons.mp hf
    · obtain ⟨written, hwritten⟩ := Option.isSome_iff_exists.mp hopen
      obtain ⟨holds, hparts⟩ := hx.stored _ hmem written hwritten
      exact holds.flushed.trans hparts
    · exact hx.finished f hf

theorem Kept.file (hx : Kept (s, h)) (hfile : e.name = "file") (hok : Undisturbed (s, h) (around, e))
    (hs : receiveFile s around e = .ok s') :
    Kept (s', h.record decodeBuffer s (around, e) s') ∧
      ((s.clientFileReceivers.lookup (e.get "name")).isSome → s' = s) := by
  obtain ⟨s₁, t, hconstruct, ⟨hold, rfl⟩ | ⟨hnew, rfl⟩⟩ := receiveFile_cases hs
  · obtain ⟨t', ht'⟩ := Option.isSome_iff_exists.mp hold
    have hrecord : h.record decodeBuffer s (around, e) s' = h := by
      simp [History.record, ht', hfile]
    obtain ⟨rfl, -⟩ | ⟨path, hpath, hopen, -, -⟩ := construct_cases hconstruct
    · rw [hrecord]
      exact ⟨hx, fun _ => rfl⟩
    · have hnone := (hok hfile hopen path hpath).1
      rw [ht'] at hnone
      cases hnone
  · have hrecord : ∀ s', h.record decodeBuffer s (around, e) s' = h.setParts (e.get "name") [] := by
      intro s'
      simp [History.record, hnew, hfile]
    rw [hrecord]
    refine ⟨?_, fun hold => by rw [hnew] at hold; exact nomatch hold⟩
    obtain ⟨rfl, hclosed, -⟩ | ⟨path, hpath, hopen, rfl, rfl⟩ := construct_cases hconstruct
    · refine hx.announce s₁.accepted hnew ?_ (fun _ _ _ => rfl) ?_
      · intro hopen
        rw [hclosed] at hopen
        cases hopen
      · intro written hwritten
        rw [hclosed] at hwritten
        cases hwritten
    · have hfree := (hok hfile hopen path hpath).2
      refine hx.announce _ hnew (fun _ => hfree) ?_ ?_
      · intro entry hentry hopened
        refine Stream.create_other s.disk fun heq => hfree ?_
        exact mem_openPaths.mpr ⟨entry, hentry, hopened, heq⟩
      · intro written hwritten
        obtain rfl := Option.some.inj hwritten
        exact ⟨Stream.holds_create s.disk path, rfl⟩

theorem Kept.endElement (hx : Kept (s, h)) (hok : Undisturbed (s, h) (around, e))
    (hs : endElement decodeBuffer s around e = .ok s') :
    Kept (s', h.record decodeBuffer s (around, e) s') := by
  unfold Transfers.endElement at hs
  split_ifs at hs with hfile hpart hfinished
  · exact (hx.file hfile hok hs).1
  · obtain ⟨hnone, rfl⟩ | ⟨t, file, ht, hpartOf, rfl⟩ := receivePart_cases hs
    · have hrecord : h.record decodeBuffer s' (around, e) s' = h := by
        simp [History.record, hnone, hpart]
      rw [hrecord]
      exact hx
    · have hrecord : ∀ s', h.record decodeBuffer s (around, e) s' = h.setParts (e.get "name")
          (h.parts (e.get "name") ++ partBytes decodeBuffer e) := by
        intro s'
        simp [History.record, ht, hpart]
      rw [hrecord]
      exact hx.part ht hpartOf
  · obtain ⟨hnone, rfl⟩ | ⟨t, ht, hopen, rfl⟩ := receiveFinished_cases hs
    · have hrecord : h.record decodeBuffer s' (around, e) s' = h := by
        simp [History.record, hnone, hfinished]
      rw [hrecord]
      exact hx
    · have hrecord : ∀ s', h.record decodeBuffer s (around, e) s' =
          { h with finished := (s'.disk t.stream.path, h.parts (e.get "name")) :: h.finished } := by
        intro s'
        simp [History.record, ht, hfinished]
      rw [hrecord]
      exact hx.finish ht hopen
  · obtain rfl := Except.ok.inj hs
    have hrecord : h.record decodeBuffer s (around, e) s = h := by
      cases hl : s.clientFileReceivers.lookup (e.get "name") with
      | none => simp [History.record, hl, hfile]
      | some t => simp [History.record, hl, hpart, hfinished]
    rw [hrecord]
    exact hx

end Invariant

/-! ## Every run -/

variable {x x' : Transfers × History} {a : Surroundings × Element}

theorem of_transfers_next (h : (transfersMachine decodeBuffer).next x a = some x') :
    Transfers.endElement decodeBuffer x.1 a.1 a.2 = .ok x'.1 ∧
      x'.2 = x.2.record decodeBuffer x.1 a x'.1 := by
  obtain ⟨hs, hh⟩ := Machine.of_recording_next h
  refine ⟨?_, hh⟩
  have hs : (Transfers.endElement decodeBuffer x.1 a.1 a.2).toOption = some x'.1 := hs
  cases hend : Transfers.endElement decodeBuffer x.1 a.1 a.2 with
  | error error =>
      rw [hend] at hs
      cases hs
  | ok s' =>
      rw [hend] at hs
      exact congrArg Except.ok (Option.some.inj hs)

theorem kept_of_reachable
    (hx : (transfersMachine decodeBuffer).Reachable Undisturbed x) : Kept x := by
  refine hx.invariant ?_ ?_
  · rintro ⟨s, h⟩ ⟨hs, hh⟩
    obtain rfl : s = {} := hs
    obtain rfl : h = {} := hh
    exact ⟨nofun, nofun, nofun, nofun⟩
  · intro x a x' hkept hok hnext
    obtain ⟨hs, hh⟩ := of_transfers_next hnext
    have hx' : x' = (x'.1, x.2.record decodeBuffer x.1 a x'.1) := Prod.ext rfl hh
    rw [hx']
    exact hkept.endElement hok hs

/-- **Each transfer is stored as its own parts**, and an announcement of a name that is received
already does nothing. -/
theorem transfers_safe (hx : (transfersMachine decodeBuffer).Reachable Undisturbed x) :
    (∀ f ∈ x.2.finished, f.1 = f.2) ∧
      ∀ a x', Undisturbed x a → (transfersMachine decodeBuffer).next x a = some x' →
        a.2.name = "file" → (x.1.clientFileReceivers.lookup (a.2.get "name")).isSome →
          x'.1 = x.1 := by
  have hkept := kept_of_reachable hx
  refine ⟨hkept.finished, fun a x' hok hnext hfile hold => ?_⟩
  obtain ⟨hs, -⟩ := of_transfers_next hnext
  unfold Transfers.endElement at hs
  rw [if_pos hfile] at hs
  have hboth : Kept (x'.1, x.2.record decodeBuffer x.1 a x'.1) ∧ _ := hkept.file hfile hok hs
  exact hboth.2 hold

/-! ### Two runs -/

def standardDecoder (data : String) : Option (List UInt8) := StandardBase64.decode data.toList

/-- Messages of a client that is visiting a group. -/
def visiting (group : String) (e : Element) : Surroundings × Element :=
  ({ client := some (some group), canOpen := true }, e)

def fileMessage (name size type : String) : Element :=
  { name := "file", attributes := [("name", name), ("size", size), ("type", type)] }

def partMessage (name stop data : String) : Element :=
  { name := "part"
    attributes := [("name", name), ("part-start", "0"), ("part-end", stop), ("encoding", "base64")]
    data }

def finishedMessage (name size : String) : Element :=
  { name := "file-finished", attributes := [("name", name), ("size", size)] }

/-- Two archives during one visit: both are written to `log/http_a.zip`. -/
def twoArchives : List (Surroundings × Element) :=
  [fileMessage "a.zip" "3" "zip", fileMessage "b.zip" "1" "zip", partMessage "a.zip" "3" "YWFh",
    partMessage "b.zip" "1" "Yg==", finishedMessage "a.zip" "3", finishedMessage "b.zip" "1"].map
    (visiting "http_a")

/-- The second archive is stored as `baa`. -/
theorem archives_mixed :
    ¬ ∀ x, (transfersMachine standardDecoder).Reachable Machine.AnyStep x →
      (∀ f ∈ x.2.finished, f.1 = f.2) ∧
        ∀ a x', (transfersMachine standardDecoder).next x a = some x' →
          a.2.name = "file" → (x.1.clientFileReceivers.lookup (a.2.get "name")).isSome →
            x'.1 = x.1 := by
  intro hall
  have hinit : (transfersMachine standardDecoder).init ({}, {}) := ⟨rfl, rfl⟩
  have hrun : ((transfersMachine standardDecoder).run twoArchives ({}, {})).map
      (fun x => x.2.finished.head?) = some (some ([98, 97, 97], [98])) := by
    decide +kernel
  obtain ⟨x, hx, hhead⟩ := Option.map_eq_some_iff.mp hrun
  have hstored := (hall x (Machine.reachable_of_run hinit hx)).1 _
    (List.mem_of_mem_head? hhead)
  exact absurd hstored (by decide)

/-- One archive and one picture of the same visit. -/
def archiveAndPicture : List (Surroundings × Element) :=
  [fileMessage "a.zip" "3" "zip", fileMessage "b.png" "1" "png", partMessage "a.zip" "3" "YWFh",
    partMessage "b.png" "1" "Yg==", finishedMessage "a.zip" "3", finishedMessage "b.png" "1"].map
    (visiting "http_a")

theorem archive_picture_stored :
    ∃ x, (transfersMachine standardDecoder).run archiveAndPicture ({}, {}) = some x ∧
      x.2.finished.length = 2 ∧ ∀ f ∈ x.2.finished, f.1 = f.2 := by
  have hinit : (transfersMachine standardDecoder).init ({}, {}) := ⟨rfl, rfl⟩
  have hmeets : (transfersMachine standardDecoder).Meets Undisturbed archiveAndPicture ({}, {}) := by
    decide +kernel
  have hrun : ((transfersMachine standardDecoder).run archiveAndPicture ({}, {})).map
      (fun x => x.2.finished.length) = some 2 := by
    decide +kernel
  obtain ⟨x, hx, hlength⟩ := Option.map_eq_some_iff.mp hrun
  exact ⟨x, hx, hlength, (transfers_safe ((Machine.Reachable.init hinit).run hmeets hx)).1⟩

end Transfers

end CaptureHpc.Server
