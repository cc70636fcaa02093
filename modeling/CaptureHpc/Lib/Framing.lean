/-
# `Lib.Framing` — a stream of symbols cut into frames by a terminator

A sender writes frames one after the other and a terminator after each.  A
receiver adds what it reads to the frame it has begun, and hands the frame over
at the terminator.  How the stream is cut into pieces on the way does not
matter (`scan_append`), and nothing is lost or made up: the terminators become
frames (`scan_frames_length`), the other symbols their contents
(`scan_size`).
-/
import Mathlib.Algebra.Ring.Nat
import Mathlib.Data.List.Basic

namespace Framing

variable {β : Type} [DecidableEq β]

/-- The frame that was begun, and the frames that were handed over. -/
structure State (β : Type) where
  pending : List β := []
  frames : List (List β) := []
deriving DecidableEq

/-- One symbol is read. -/
def step (terminator : β) (s : State β) (b : β) : State β :=
  if b = terminator then { pending := [], frames := s.frames ++ [s.pending] }
  else { s with pending := s.pending ++ [b] }

def scan (terminator : β) (s : State β) (symbols : List β) : State β :=
  symbols.foldl (step terminator) s

/-- What is written for some frames. -/
def stream (terminator : β) (frames : List (List β)) : List β :=
  frames.flatMap fun frame => frame ++ [terminator]

/-- The symbols in a state. -/
def State.size (s : State β) : Nat := s.pending.length + (s.frames.map List.length).sum

variable {terminator : β}

@[simp] theorem scan_nil (s : State β) : scan terminator s [] = s := rfl

theorem scan_cons (s : State β) (b : β) (symbols : List β) :
    scan terminator s (b :: symbols) = scan terminator (step terminator s b) symbols := rfl

/-- Two pieces are read like one. -/
theorem scan_append (s : State β) (l m : List β) :
    scan terminator s (l ++ m) = scan terminator (scan terminator s l) m :=
  List.foldl_append

/-- Symbols that are no terminators are kept. -/
theorem scan_plain : ∀ {symbols : List β} (s : State β), terminator ∉ symbols →
    scan terminator s symbols = { s with pending := s.pending ++ symbols }
  | [], s, _ => by rw [scan_nil, List.append_nil]
  | b :: symbols, s, h => by
      rw [List.mem_cons, not_or] at h
      have hstep : step terminator s b = { s with pending := s.pending ++ [b] } :=
        if_neg fun hb => h.1 hb.symm
      rw [scan_cons, hstep, scan_plain _ h.2]
      simp

/-- **What is written is what is read.** -/
theorem scan_stream : ∀ {frames : List (List β)} (done : List (List β)),
    (∀ frame ∈ frames, terminator ∉ frame) →
      scan terminator { frames := done } (stream terminator frames) =
        { frames := done ++ frames }
  | [], done, _ => by rw [List.append_nil]; rfl
  | frame :: frames, done, h => by
      rw [List.forall_mem_cons] at h
      have hcons : stream terminator (frame :: frames) =
          (frame ++ [terminator]) ++ stream terminator frames := rfl
      rw [hcons, scan_append, scan_append, scan_plain _ h.1, scan_cons, scan_nil]
      have hstep : step terminator { pending := [] ++ frame, frames := done } terminator =
          { frames := done ++ [frame] } := by rw [step, if_pos rfl, List.nil_append]
      rw [hstep, scan_stream _ h.2, List.append_assoc]
      rfl

/-- Every terminator ends a frame. -/
theorem scan_frames_length : ∀ (symbols : List β) (s : State β),
    (scan terminator s symbols).frames.length = s.frames.length + symbols.count terminator
  | [], _ => rfl
  | b :: symbols, s => by
      rw [scan_cons, scan_frames_length symbols, step]
      split
      · next h =>
          rw [h, List.count_cons_self, List.length_append, List.length_singleton]
          omega
      · next h => rw [List.count_cons_of_ne h]

theorem step_size_terminator (s : State β) : (step terminator s terminator).size = s.size := by
  rw [step, if_pos rfl]
  simp [State.size]
  omega

theorem step_size_plain {b : β} (h : b ≠ terminator) (s : State β) :
    (step terminator s b).size = s.size + 1 := by
  rw [step, if_neg h]
  simp [State.size]
  omega

/-- Every other symbol is kept. -/
theorem scan_size : ∀ (symbols : List β) (s : State β),
    (scan terminator s symbols).size + symbols.count terminator = s.size + symbols.length
  | [], _ => rfl
  | b :: symbols, s => by
      have ih := scan_size symbols (step terminator s b)
      rw [scan_cons, List.length_cons]
      rcases Decidable.eq_or_ne b terminator with rfl | hb
      · rw [step_size_terminator] at ih
        rw [List.count_cons_self]
        omega
      · rw [step_size_plain hb] at ih
        rw [List.count_cons_of_ne hb]
        omega

end Framing
