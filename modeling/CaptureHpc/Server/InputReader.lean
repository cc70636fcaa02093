/-
# `Server.InputReader` — the thread that reads the input lines

`Preprocessor` reads its file line by line.  Empty lines and comments are left
out, `end` stops it, and every other line becomes an add event.  `UrlsController`
catches what `getUrl` declares, the `URISyntaxException`; anything else goes
through it and through the loop, and the thread is over.

One thing else there is.  A line with no field at all, or with more than four, is
not in one of the branches of `getUrl`, and behind them a URL is made without an
address: the exception that says so cannot be made either, and a
`NullPointerException` takes its place.  All other lines are queued, found to be
there already or logged (`reader_continues_iff`).
-/
import CaptureHpc.Server.UrlQueue

namespace CaptureHpc.Server

open Java

inductive ReaderStatus where
  | reading
  /-- `end` was read. -/
  | ended
  /-- An exception left the loop. -/
  | died
deriving DecidableEq

structure Reader where
  queue : UrlsQueue := {}
  status : ReaderStatus := .reading
deriving DecidableEq

namespace Preprocessor

def isEnd (line : String) : Bool := line ≠ "" && equalsIgnoreCase (trim line) "end"

/-- The line goes to `preprocess`. -/
def passedOn (line : String) : Bool := line ≠ "" && (trim line).toList.head? ≠ some '#'

/-- `addUrlToCaptureQueue`: the event has no id. -/
def addUrlToCaptureQueue (cfg : UrlConfig) (s : UrlsQueue) (url : String) :
    Except UrlException UrlsQueue :=
  s.update cfg (.add "" url)

/-- The loop of `readInputUrls` for one line. -/
def readLine (cfg : UrlConfig) (r : Reader) (line : String) : Reader :=
  if isEnd line then { r with status := .ended }
  else if passedOn line then
    match addUrlToCaptureQueue cfg r.queue (trim line) with
    | .ok queue => { r with queue }
    | .error _ => { r with status := .died }
  else r

def readInputUrls (cfg : UrlConfig) : Machine Reader String where
  init r := r = {}
  next r line := if r.status = .reading then some (readLine cfg r line) else none

/-- What may become of a line. -/
inductive Handled (cfg : UrlConfig) (s : UrlsQueue) (line : String) : UrlsQueue → Prop
  | queued (url : ScoredUrl) : s.inUrlQueue url = false →
      UrlFactory.getScoredUrl cfg "" (toLowerCase line) = .ok url →
      Handled cfg s line
        { s with created := s.created + 1, urlQueue := s.urlQueue ++ [⟨s.created, url⟩] }
  | duplicate (url : ScoredUrl) : s.inUrlQueue url = true →
      UrlFactory.getScoredUrl cfg "" (toLowerCase line) = .ok url →
      Handled cfg s line { s with created := s.created + 1 }
  | logged : Handled cfg s line { s with errorLog := s.errorLog ++ [line] }

/-- The line is handled, and the reader goes on. -/
def Continues (cfg : UrlConfig) (r : Reader) (line : String) : Prop :=
  r.status = .reading → isEnd line = false → passedOn line = true → ∃ queue,
    addUrlToCaptureQueue cfg r.queue (trim line) = .ok queue ∧
      Handled cfg r.queue (trim line) queue ∧
      (readInputUrls cfg).next r line = some { r with queue }

/-- The line has as many fields as a branch of `getUrl`. -/
def Fits (line : String) : Prop :=
  let fields := UrlFactory.splitTokenizedUrl (toLowerCase (trim line))
  1 ≤ fields.length ∧ fields.length ≤ 4

/-- The exception that is not caught is thrown where no branch fits. -/
theorem getScoredUrl_nullPointer (cfg : UrlConfig) (id line : String) :
    UrlFactory.getScoredUrl cfg id line = .error .nullPointer ↔
      ¬ (1 ≤ (UrlFactory.splitTokenizedUrl line).length ∧
        (UrlFactory.splitTokenizedUrl line).length ≤ 4) := by
  have hnew : ∀ u cProgram vTime priority,
      UrlFactory.newScoredUrl cfg id u cProgram vTime priority ≠ .error .nullPointer := by
    intro u cProgram vTime priority h
    rw [UrlFactory.newScoredUrl] at h
    split at h
    · cases h
    · cases h
  rw [UrlFactory.getScoredUrl]
  generalize UrlFactory.splitTokenizedUrl line = fields
  rcases fields with _ | ⟨u, _ | ⟨field, _ | ⟨last, _ | ⟨score, _ | ⟨more, fields⟩⟩⟩⟩⟩
  · exact iff_of_true rfl (by simp)
  · exact iff_of_false (hnew _ _ _ _) (by simp)
  · refine iff_of_false ?_ (by simp)
    intro h
    simp only at h
    split at h
    · exact hnew _ _ _ _ h
    · split at h
      · exact hnew _ _ _ _ h
      · exact hnew _ _ _ _ h
  · refine iff_of_false ?_ (by simp)
    intro h
    simp only at h
    split at h
    · exact hnew _ _ _ _ h
    · split at h
      · exact hnew _ _ _ _ h
      · split at h
        · exact hnew _ _ _ _ h
        · cases h
  · refine iff_of_false ?_ (by simp)
    intro h
    simp only at h
    split at h
    · exact hnew _ _ _ _ h
    · cases h
  · exact iff_of_true rfl (by simp)

section Lines
variable {cfg : UrlConfig} {r : Reader} {line : String}

/-- A line that fits is handled. -/
theorem handled_of_fits (h : Fits line) : ∃ queue,
    addUrlToCaptureQueue cfg r.queue (trim line) = .ok queue ∧
      Handled cfg r.queue (trim line) queue := by
  have hnull := mt (getScoredUrl_nullPointer cfg "" (toLowerCase (trim line))).mp (not_not.mpr h)
  cases hurl : UrlFactory.getScoredUrl cfg "" (toLowerCase (trim line)) with
  | error e =>
      cases e with
      | nullPointer => exact absurd hurl hnull
      | uriSyntax =>
          refine ⟨_, ?_, .logged⟩
          simp only [addUrlToCaptureQueue, UrlsQueue.update, UrlsQueue.addUrlEvent, hurl]
  | ok url =>
      have hadd : addUrlToCaptureQueue cfg r.queue (trim line) =
          .ok ((r.queue.newUrl url).2.addUrl (r.queue.newUrl url).1) := by
        simp only [addUrlToCaptureQueue, UrlsQueue.update, UrlsQueue.addUrlEvent, hurl]
      refine ⟨_, hadd, ?_⟩
      rw [UrlsQueue.addUrl]
      by_cases hqueued : (r.queue.newUrl url).2.inUrlQueue (r.queue.newUrl url).1.url
      · rw [if_pos hqueued]
        exact .duplicate url hqueued hurl
      · rw [if_neg hqueued]
        exact .queued url (Bool.eq_false_iff.mpr hqueued) hurl

theorem addUrlToCaptureQueue_not_fits (h : ¬ Fits line) :
    addUrlToCaptureQueue cfg r.queue (trim line) = .error .nullPointer := by
  have hnull := (getScoredUrl_nullPointer cfg "" (toLowerCase (trim line))).mpr h
  simp only [addUrlToCaptureQueue, UrlsQueue.update, UrlsQueue.addUrlEvent, hnull]

theorem continues_iff (hr : r.status = .reading) (hend : isEnd line = false) :
    Continues cfg r line ↔ (passedOn line = true → Fits line) := by
  constructor
  · intro h hpassed
    by_contra hfits
    obtain ⟨queue, hok, -⟩ := h hr hend hpassed
    rw [addUrlToCaptureQueue_not_fits hfits] at hok
    cases hok
  · intro h _ _ hpassed
    obtain ⟨queue, hok, hhandled⟩ := @handled_of_fits cfg r line (h hpassed)
    refine ⟨queue, hok, hhandled, ?_⟩
    have hread : readLine cfg r line = { r with queue } := by
      rw [readLine, if_neg (Bool.eq_false_iff.mp hend), if_pos hpassed, hok]
    exact (if_pos hr).trans (congrArg some hread)

end Lines

/-- **When the reader goes on.**  Every line up to `end` is handled just if each has between one
and four fields. -/
theorem reader_continues_iff (cfg : UrlConfig) (queue : UrlsQueue) (lines : List String) :
    (readInputUrls cfg).Meets (Continues cfg) lines { queue } ↔
      ∀ line ∈ lines.takeWhile (!isEnd ·), passedOn line = true → Fits line := by
  induction lines generalizing queue with
  | nil => exact iff_of_true True.intro fun _ h => absurd h List.not_mem_nil
  | cons line lines ih =>
      have hnext : (readInputUrls cfg).next { queue } line = some (readLine cfg { queue } line) :=
        rfl
      rw [Machine.Meets, hnext]
      by_cases hend : isEnd line
      · -- the thread is over, whatever is behind `end`
        have hread : readLine cfg { queue } line = { queue, status := .ended } := by
          rw [readLine, if_pos hend]
        have hover : ∀ {lines : List String} {queue : UrlsQueue},
            (readInputUrls cfg).Meets (Continues cfg) lines { queue, status := .ended } := by
          intro lines queue
          cases lines with
          | nil => exact True.intro
          | cons line lines => exact ⟨fun h => ReaderStatus.noConfusion h, True.intro⟩
        rw [hread, List.takeWhile_cons_of_neg (by rw [hend]; exact Bool.false_ne_true)]
        exact iff_of_true ⟨fun _ hnot => absurd hend (Bool.eq_false_iff.mp hnot), hover⟩
          fun _ h => absurd h List.not_mem_nil
      · have hnot := Bool.eq_false_iff.mpr hend
        rw [continues_iff rfl hnot, List.takeWhile_cons_of_pos (by rw [hnot]; rfl),
          List.forall_mem_cons]
        refine and_congr_right fun hline => ?_
        by_cases hpassed : passedOn line
        · obtain ⟨queue', hok, -⟩ := @handled_of_fits cfg { queue } line (hline hpassed)
          have hread : readLine cfg { queue } line = { queue := queue' } := by
            rw [readLine, if_neg hend, if_pos hpassed, hok]
          rw [hread]
          exact ih queue'
        · have hread : readLine cfg { queue } line = { queue } := by
            rw [readLine, if_neg hend, if_neg hpassed]
          rw [hread]
          exact ih queue

/-- The line of a separator ends the thread. -/
theorem separator_ends_reader : ¬ (readInputUrls ⟨some, false, "iexplore", 30⟩).Meets
    (Continues ⟨some, false, "iexplore", 30⟩) ["::"] {} := by
  intro h
  obtain ⟨queue, hok, -⟩ := h.1 rfl (by decide) (by decide)
  cases hok

end Preprocessor

end CaptureHpc.Server
