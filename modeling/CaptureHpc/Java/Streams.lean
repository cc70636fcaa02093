/-
# `Java.Streams` — a buffered stream into a file

`new FileOutputStream(file)` empties the file, and the stream keeps its own
position in it.  A `BufferedOutputStream` around it holds back what is short.
`Holds` is what can be said of a stream as long as no other one writes to its
file: what is on the disk and what is held back are together what was written.
-/
import Mathlib.Data.List.Basic

namespace Java

/-- The contents of the files, by path. -/
abbrev Disk := String → List UInt8

/-- A `BufferedOutputStream` around a `FileOutputStream`. -/
structure Stream where
  path : String
  position : Nat := 0
  buffer : List UInt8 := []
deriving DecidableEq

/-- The size of the buffer. -/
def bufferSize : Nat := 8192

def Disk.set (disk : Disk) (path : String) (content : List UInt8) : Disk :=
  fun p => if p = path then content else disk p

@[simp] theorem Disk.set_same (disk : Disk) (path : String) (content : List UInt8) :
    disk.set path content path = content := if_pos rfl

theorem Disk.set_other {disk : Disk} {path p : String} {content : List UInt8} (h : p ≠ path) :
    disk.set path content p = disk p := if_neg h

/-- Bytes written at a position of a file, with zeros in a gap. -/
def writeAt (content : List UInt8) (position : Nat) (bytes : List UInt8) : List UInt8 :=
  content.take position ++ List.replicate (position - content.length) 0 ++ bytes ++
    content.drop (position + bytes.length)

theorem writeAt_end (content bytes : List UInt8) :
    writeAt content content.length bytes = content ++ bytes := by
  rw [writeAt, List.take_length, Nat.sub_self, List.replicate_zero, List.append_nil,
    List.drop_of_length_le (Nat.le_add_right _ _), List.append_nil]

namespace Stream

/-- `new FileOutputStream(path)`. -/
def create (disk : Disk) (path : String) : Disk × Stream := (disk.set path [], { path })

/-- `FileOutputStream.write`. -/
def writeThrough (disk : Disk) (s : Stream) (bytes : List UInt8) : Disk × Stream :=
  (disk.set s.path (writeAt (disk s.path) s.position bytes),
    { s with position := s.position + bytes.length })

/-- `flush`. -/
def flush (disk : Disk) (s : Stream) : Disk × Stream :=
  if s.buffer = [] then (disk, s)
  else writeThrough disk { s with buffer := [] } s.buffer

/-- `BufferedOutputStream.write`. -/
def write (disk : Disk) (s : Stream) (bytes : List UInt8) : Disk × Stream :=
  if bufferSize ≤ bytes.length then writeThrough (flush disk s).1 (flush disk s).2 bytes
  else if bufferSize - s.buffer.length < bytes.length then
    ((flush disk s).1, { (flush disk s).2 with buffer := (flush disk s).2.buffer ++ bytes })
  else (disk, { s with buffer := s.buffer ++ bytes })

theorem write_nil (disk : Disk) (s : Stream) : write disk s [] = (disk, s) := by
  have hsize : ¬ bufferSize ≤ ([] : List UInt8).length := by decide
  have hroom : ¬ bufferSize - s.buffer.length < ([] : List UInt8).length := Nat.not_lt_zero _
  rw [write, if_neg hsize, if_neg hroom, List.append_nil]

/-! ## One stream to a file -/

/-- What was written, with what is held back. -/
structure Holds (disk : Disk) (s : Stream) (written : List UInt8) : Prop where
  position : s.position = (disk s.path).length
  content : disk s.path ++ s.buffer = written

variable {disk : Disk} {s : Stream} {written bytes : List UInt8}

theorem holds_create (disk : Disk) (path : String) :
    Holds (create disk path).1 (create disk path).2 [] where
  position := by simp [create]
  content := by simp [create]

theorem writeThrough_path (disk : Disk) (s : Stream) (bytes : List UInt8) :
    (writeThrough disk s bytes).2.path = s.path := rfl

theorem Holds.writeThrough (h : Holds disk s written) (hbuffer : s.buffer = [])
    (bytes : List UInt8) :
    Holds (writeThrough disk s bytes).1 (writeThrough disk s bytes).2 (written ++ bytes) := by
  have hcontent := h.content
  rw [hbuffer, List.append_nil] at hcontent
  have hdisk : (Stream.writeThrough disk s bytes).1 s.path = written ++ bytes := by
    rw [Stream.writeThrough]
    simp only [Disk.set_same]
    rw [h.position, writeAt_end, hcontent]
  constructor
  · rw [writeThrough_path, hdisk, List.length_append, ← hcontent, ← h.position]
    rfl
  · rw [writeThrough_path, hdisk]
    show _ ++ s.buffer = _
    rw [hbuffer, List.append_nil]

theorem flush_path (disk : Disk) (s : Stream) : (flush disk s).2.path = s.path := by
  unfold flush
  split <;> rfl

theorem flush_buffer (disk : Disk) (s : Stream) : (flush disk s).2.buffer = [] := by
  unfold flush
  split
  next h => exact h
  next => rfl

theorem Holds.flush (h : Holds disk s written) :
    Holds (flush disk s).1 (flush disk s).2 written := by
  by_cases hbuffer : s.buffer = []
  · rw [Stream.flush, if_pos hbuffer]
    exact h
  · rw [Stream.flush, if_neg hbuffer]
    have hempty : Holds disk { s with buffer := [] } (disk s.path) :=
      ⟨h.position, List.append_nil _⟩
    have hwritten := hempty.writeThrough rfl s.buffer
    rwa [h.content] at hwritten

/-- After a flush the file is what was written. -/
theorem Holds.flushed (h : Holds disk s written) : (Stream.flush disk s).1 s.path = written := by
  have hflush := h.flush.content
  rwa [flush_buffer, flush_path, List.append_nil] at hflush

theorem Holds.write (h : Holds disk s written) (bytes : List UInt8) :
    Holds (write disk s bytes).1 (write disk s bytes).2 (written ++ bytes) := by
  unfold Stream.write
  split
  · exact h.flush.writeThrough (flush_buffer disk s) bytes
  · split
    · exact ⟨h.flush.position, by rw [← List.append_assoc, h.flush.content]⟩
    · exact ⟨h.position, by rw [← List.append_assoc, h.content]⟩

theorem write_path (disk : Disk) (s : Stream) (bytes : List UInt8) :
    (write disk s bytes).2.path = s.path := by
  unfold write
  split
  · exact flush_path disk s
  · split
    · exact flush_path disk s
    · rfl

/-! ## Other files -/

variable {path : String}

theorem create_other (disk : Disk) {p : String} (h : p ≠ path) :
    (create disk path).1 p = disk p := Disk.set_other h

theorem flush_other (disk : Disk) (h : path ≠ s.path) : (flush disk s).1 path = disk path := by
  unfold flush
  split
  · rfl
  · exact Disk.set_other h

theorem write_other (disk : Disk) (bytes : List UInt8) (h : path ≠ s.path) :
    (write disk s bytes).1 path = disk path := by
  unfold write
  split
  · exact (Disk.set_other (by rwa [flush_path])).trans (flush_other disk h)
  · split
    · exact flush_other disk h
    · rfl

/-- Whatever happens to other files. -/
theorem Holds.of_disk {disk' : Disk} (h : Holds disk s written)
    (hdisk : disk' s.path = disk s.path) : Holds disk' s written :=
  ⟨by rw [hdisk]; exact h.position, by rw [hdisk]; exact h.content⟩

end Stream

end Java
