/-
# `Client.ServerReceive` — messages of the server, cut out of the byte stream

The server writes a NUL after each message, and the client reads the stream in
pieces as the network delivers them.  Pieces of three bytes or more are added
up correctly, however they are cut.  The receive loop takes a piece of one or
two bytes for the end of the connection: the piece is dropped, and with it the
message that was begun.
-/
import Mathlib.Data.List.Flatten
import CaptureHpc.Lib.Framing

namespace CaptureHpc.Client

/-- What `recv` returns: bytes, or a socket error. -/
inductive RecvResult where
  | bytes (buffer : List UInt8)
  | error
deriving DecidableEq

/-- `ServerReceive`, while it is running and the server is connected. -/
structure ServerReceive where
  /-- `xmlDocument`, and the documents `receiveServerEvent` was called with. -/
  documents : Framing.State UInt8 := {}
  reconnects : Nat := 0
deriving DecidableEq

/-- The bytes that `Client.send` of the server writes. -/
def terminated (message : List UInt8) : List UInt8 :=
  if message.getLast? = some 0 then message else message ++ [0]

namespace ServerReceive

/-- The body of the inner loop: one byte after the other, a NUL ends the document. -/
def receiveBytes (buffer : List UInt8) (r : ServerReceive) : ServerReceive :=
  { r with documents := Framing.scan 0 r.documents buffer }

/-- The outer loop begins again, with an empty document. -/
def restart (r : ServerReceive) : ServerReceive :=
  { r with documents := { r.documents with pending := [] } }

/-- What `run` does with one result of `recv`. -/
def receive (r : ServerReceive) : RecvResult → ServerReceive
  | .bytes buffer => if 2 < buffer.length then receiveBytes buffer r else restart r
  | .error => restart { r with reconnects := r.reconnects + 1 }

def run (results : List RecvResult) : ServerReceive := results.foldl receive {}

/-- The documents that were handed to the event controller while these pieces came in. -/
def received (pieces : List (List UInt8)) : List (List UInt8) :=
  (run (pieces.map .bytes)).documents.frames

/-! ## Whole pieces -/

theorem foldl_receive : ∀ {pieces : List (List UInt8)} (r : ServerReceive),
    (∀ piece ∈ pieces, 2 < piece.length) →
      (pieces.map RecvResult.bytes).foldl receive r = receiveBytes pieces.flatten r
  | [], _, _ => rfl
  | piece :: pieces, r, h => by
      rw [List.forall_mem_cons] at h
      have hfirst : receive r (.bytes piece) = receiveBytes piece r := if_pos h.1
      rw [List.map_cons, List.foldl_cons, hfirst, foldl_receive _ h.2, List.flatten_cons]
      simp only [receiveBytes, Framing.scan_append]

theorem terminated_of_plain {message : List UInt8} (h : 0 ∉ message) :
    terminated message = message ++ [0] :=
  if_neg fun hlast => h (List.mem_of_getLast? hlast)

/-- What the server writes for some messages. -/
theorem flatMap_terminated {messages : List (List UInt8)} (h : ∀ m ∈ messages, 0 ∉ m) :
    messages.flatMap terminated = Framing.stream 0 messages :=
  List.flatMap_congr fun m hm => terminated_of_plain (h m hm)

/-! ## What is lost -/

/-- NULs and other bytes of the pieces that are long enough. -/
def taken (pieces : List (List UInt8)) : List UInt8 :=
  (pieces.filter fun piece => 2 < piece.length).flatten

theorem taken_long {piece : List UInt8} (h : 2 < piece.length) (pieces : List (List UInt8)) :
    taken (piece :: pieces) = piece ++ taken pieces := by
  simp [taken, h]

theorem taken_short {piece : List UInt8} (h : ¬ 2 < piece.length) (pieces : List (List UInt8)) :
    taken (piece :: pieces) = taken pieces := by
  simp [taken, h]

/-- No more documents than NULs were taken, and no more bytes than other bytes. -/
theorem received_le : ∀ (pieces : List (List UInt8)) (r : ServerReceive),
    ((pieces.map RecvResult.bytes).foldl receive r).documents.frames.length ≤
        r.documents.frames.length + (taken pieces).count 0 ∧
      ((pieces.map RecvResult.bytes).foldl receive r).documents.size + (taken pieces).count 0 ≤
        r.documents.size + (taken pieces).length
  | [], _ => ⟨Nat.le_refl _, Nat.le_refl _⟩
  | piece :: pieces, r => by
      obtain ⟨hframes, hsize⟩ := received_le pieces (receive r (.bytes piece))
      rw [List.map_cons, List.foldl_cons]
      by_cases hlong : 2 < piece.length
      · have hrecv : receive r (.bytes piece) = receiveBytes piece r := if_pos hlong
        have hcount : (Framing.scan 0 r.documents piece).frames.length =
            r.documents.frames.length + piece.count 0 := Framing.scan_frames_length piece _
        have hsum : (Framing.scan 0 r.documents piece).size + piece.count 0 =
            r.documents.size + piece.length := Framing.scan_size piece _
        rw [hrecv] at hframes hsize ⊢
        rw [taken_long hlong, List.count_append, List.length_append]
        simp only [receiveBytes] at hframes hsize ⊢
        omega
      · have hrecv : receive r (.bytes piece) = restart r := if_neg hlong
        have hless : (restart r).documents.size ≤ r.documents.size := by
          simp [restart, Framing.State.size]
        have hsame : (restart r).documents.frames = r.documents.frames := rfl
        rw [hrecv, hsame] at hframes
        rw [hrecv] at hsize ⊢
        rw [taken_short hlong]
        exact ⟨hframes, by omega⟩

theorem count_stream (messages : List (List UInt8)) (h : ∀ m ∈ messages, 0 ∉ m) :
    (Framing.stream 0 messages).count 0 = messages.length ∧
      (Framing.stream 0 messages).length = messages.length + (messages.map List.length).sum := by
  induction messages with
  | nil => exact ⟨rfl, rfl⟩
  | cons m messages ih =>
      rw [List.forall_mem_cons] at h
      obtain ⟨hcount, hlength⟩ := ih h.2
      have hcons : Framing.stream 0 (m :: messages) = (m ++ [0]) ++ Framing.stream 0 messages := rfl
      have hplain : m.count 0 = 0 := List.count_eq_zero.mpr h.1
      rw [hcons]
      simp only [List.count_append, List.length_append, hcount, hlength, hplain,
        List.count_singleton_self, List.length_nil, List.length_cons, List.map_cons,
        List.sum_cons]
      omega

theorem taken_length_lt {pieces : List (List UInt8)} {piece : List UInt8} (hmem : piece ∈ pieces)
    (hne : piece ≠ []) (hshort : ¬ 2 < piece.length) :
    (taken pieces).length < pieces.flatten.length := by
  induction pieces with
  | nil => exact absurd hmem List.not_mem_nil
  | cons p pieces ih =>
      have hle : (taken pieces).length ≤ pieces.flatten.length :=
        (List.filter_sublist.flatten).length_le
      have hp : 0 < piece.length := List.length_pos_iff.mpr hne
      rcases List.mem_cons.mp hmem with rfl | hmem
      · rw [taken_short hshort, List.flatten_cons, List.length_append]
        omega
      · have ih := ih hmem
        rw [List.flatten_cons, List.length_append]
        by_cases hlong : 2 < p.length
        · rw [taken_long hlong, List.length_append]
          omega
        · rw [taken_short hlong]
          omega

/-- **When the messages of the server arrive.**  However the stream is cut into pieces: exactly
when none of them is of one or two bytes. -/
theorem documents_iff {messages pieces : List (List UInt8)} (hplain : ∀ m ∈ messages, 0 ∉ m)
    (hcut : pieces.flatten = messages.flatMap terminated) (hne : ∀ piece ∈ pieces, piece ≠ []) :
    received pieces = messages ↔ ∀ piece ∈ pieces, 2 < piece.length := by
  rw [flatMap_terminated hplain] at hcut
  constructor
  · intro hall piece hmem
    by_contra hshort
    obtain ⟨hframes, hsize⟩ := received_le pieces {}
    obtain ⟨hcount, hlength⟩ := count_stream messages hplain
    have hlost := taken_length_lt hmem (hne piece hmem) hshort
    have hdocuments : (List.foldl receive {} (pieces.map RecvResult.bytes)).documents.frames =
        messages := hall
    rw [hcut, hlength] at hlost
    rw [Framing.State.size, hdocuments] at hsize
    rw [hdocuments] at hframes
    have hzero : Framing.State.size (β := UInt8) {} = 0 := rfl
    have hnone : (ServerReceive.documents {}).frames.length = 0 := rfl
    have hempty : (ServerReceive.documents {}).size = 0 := rfl
    omega
  · intro hlong
    show (List.foldl receive {} (pieces.map RecvResult.bytes)).documents.frames = messages
    rw [foldl_receive _ hlong, hcut]
    exact congrArg Framing.State.frames (Framing.scan_stream [] hplain)

/-- The first byte of `<a/>` comes alone, and is lost. -/
theorem received_short :
    ¬ ∀ messages pieces : List (List UInt8), (∀ m ∈ messages, m ≠ [] ∧ 0 ∉ m) →
        pieces.flatten = messages.flatMap terminated → (∀ piece ∈ pieces, piece ≠ []) →
          received pieces = messages := by
  intro h
  have hall := h [[60, 97, 47, 62]] [[60], [97, 47, 62, 0]] (by decide) (by decide) (by decide)
  exact absurd hall (by decide)

theorem received_two_pieces : received [[60, 97, 47], [62, 0, 60, 98], [47, 62, 0]] =
    [[60, 97, 47, 62], [60, 98, 47, 62]] :=
  (documents_iff (by decide) (by decide) (by decide)).mpr (by decide)

end ServerReceive

end CaptureHpc.Client
