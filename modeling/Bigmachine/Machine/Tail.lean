import Bigmachine.Io.Lines
import Bigmachine.Io.Sink
import Bigmachine.Rpc.Wire
import Mathlib.Data.List.TakeWhile

/-!
# The goroutine that relays the log of a machine

`Machine.loop` of an owned machine starts a goroutine that scans the log, which the system's
`Tail` returns as a stream, and writes it to the standard error of the driver, line by line, until
a line ends with the sync marker, the stream ends, or a write fails. When it returns it closes
`tailDone`.

The scanner is that of package bufio with its default limit. It is fed byte by byte, so what the
goroutine does depends only on the bytes that have come and not on the reads that brought them: at
any time the lines it has written are those that have ended before the first one that ends the scan
(`read_eq_relayed`). Bytes never come together with an error, since every `Tail` returns the end
of a pipe.
-/

namespace Bigmachine.Machine.Tail

open Errors Io
open Rpc (Bytes)

/-! ## Scanning -/

def newline : UInt8 := 10

def logSyncMarker : Bytes :=
  "========\\/\\/ Bigmachine Done \\/\\/========".toList.map fun c => UInt8.ofNat c.toNat

/-- `bufio.MaxScanTokenSize`. -/
def maxTokenSize : Nat := 64 * 1024

def errTooLong : Err := .text "bufio.Scanner: token too long"

/-- `ScanLines` takes one carriage return from the end of a line. -/
def dropCR (line : Bytes) : Bytes := if line.getLast? = some 13 then line.dropLast else line

/-- How the goroutine returns: whether its last line ends with the marker, and what the deferred
function finds in `err`. -/
structure Ended where
  marker : Bool
  err : Option Err
  deriving DecidableEq, Repr

/-- `line` is what the scanner holds, the bytes since the last newline. `ended` is `some` when
`tailDone` is closed. -/
structure Relay where
  line : Bytes := []
  w : Sink UInt8 Err
  ended : Option Ended := none

namespace Relay

/-- The body of the loop, for a scanned line. `scErr` is what `sc.Err()` returns. -/
def scanned (r : Relay) (line : Bytes) (scErr : Option Err) : Relay :=
  let line := dropCR line
  if logSyncMarker <:+ line then { r with ended := some ⟨true, scErr⟩ }
  else
    -- the newline that `append` puts after the line overwrites only bytes that are scanned
    match r.w.put (line ++ [newline]) with
    | (w, none) => { r with w := w }
    | (w, some err) => { r with w := w, ended := some ⟨false, some err⟩ }

/-- The next byte of the stream. A line that fills the buffer of the scanner ends the scan. -/
def feed (r : Relay) (b : UInt8) : Relay :=
  if r.ended.isSome then r
  else if b = newline then { r with line := [] }.scanned r.line none
  else if r.line.length + 1 < maxTokenSize then { r with line := r.line ++ [b] }
  else { r with line := r.line ++ [b], ended := some ⟨false, some errTooLong⟩ }

/-- A read that returns bytes. -/
def read (r : Relay) (bs : Bytes) : Relay := bs.foldl feed r

/-- A read that returns the error `e`. The scanner gives out what it holds as a last line. -/
def close (r : Relay) (e : Err) : Relay :=
  if r.ended.isSome then r
  else
    let scErr := if e = .eof then none else some e
    let r := if r.line = [] then r else { r with line := [] }.scanned r.line scErr
    if r.ended.isSome then r else { r with ended := some ⟨false, scErr⟩ }

/-- `system.Tail` returns the error `e`. -/
def refused (r : Relay) (e : Err) : Relay := { r with ended := some ⟨false, some e⟩ }

end Relay

theorem Relay.scanned_of_not_marker (r : Relay) {line : Bytes} (scErr : Option Err)
    (h : ¬ logSyncMarker <:+ dropCR line) :
    r.scanned line scErr = { r with
      w := (r.w.put (dropCR line ++ [newline])).1
      ended := match (r.w.put (dropCR line ++ [newline])).2 with
        | none => r.ended
        | some err => some ⟨false, some err⟩ } := by
  simp only [scanned, h, if_false]
  generalize r.w.put (dropCR line ++ [newline]) = p
  obtain ⟨w, err⟩ := p
  cases err <;> rfl

/-- The end of the stream: what the scanner holds, if anything, is a last line. -/
theorem Relay.close_cases {r : Relay} (h : r.ended = none) (e : Err) :
    ∃ e', (r.close e).ended = some e' ∧
      ((r.line = [] ∧ (r.close e).w = r.w ∧ e'.marker = false) ∨
        (logSyncMarker <:+ dropCR r.line ∧ (r.close e).w = r.w) ∨
        ((r.close e).w = (r.w.put (dropCR r.line ++ [newline])).1 ∧ e'.marker = false)) := by
  unfold close
  rw [h]
  simp only [Option.isSome_none, Bool.false_eq_true, if_false]
  by_cases hline : r.line = []
  · simp [hline, h]
  · rw [if_neg hline]
    by_cases hmark : logSyncMarker <:+ dropCR r.line
    · simp [scanned, hmark]
    · rw [scanned_of_not_marker _ _ hmark]
      cases (r.w.put (dropCR r.line ++ [newline])).2 <;> simp [hmark, hline]

theorem Relay.close_ended (r : Relay) (e : Err) : (r.close e).ended.isSome = true := by
  cases h : r.ended with
  | none =>
    obtain ⟨e', he', -⟩ := close_cases h e
    rw [he']
    rfl
  | some e' => simp [close, h]

theorem Relay.read_of_ended {r : Relay} (h : r.ended.isSome = true) (bs : Bytes) :
    r.read bs = r := by
  induction bs with
  | nil => rfl
  | cons b bs ih =>
    have hfeed : r.feed b = r := if_pos h
    rwa [Relay.read, List.foldl_cons, hfeed]

/-! ## What has been relayed -/

/-- The scan goes on after the line. -/
def Ordinary (line : Bytes) : Prop :=
  line.length < maxTokenSize ∧ ¬ logSyncMarker <:+ dropCR line

instance (line : Bytes) : Decidable (Ordinary line) :=
  inferInstanceAs (Decidable (line.length < maxTokenSize ∧ ¬ logSyncMarker <:+ dropCR line))

/-- What is written for a line. -/
def terminated (line : Bytes) : Bytes := dropCR line ++ [newline]

/-- The writes for a text: one for each line before the first that ends the scan, up to the first
write that fails. -/
def relayed (w : Sink UInt8 Err) (c : Cut UInt8) : Sink UInt8 Err × Option Err :=
  w.putAll ((c.lines.takeWhile (Ordinary ·)).map terminated)

/-- How the scan of a text has ended, if it has. -/
def verdict (w : Sink UInt8 Err) (c : Cut UInt8) : Option Ended :=
  match (relayed w c).2, c.lines.dropWhile (Ordinary ·) with
  | some err, _ => some ⟨false, some err⟩
  | none, line :: _ =>
    some (if line.length < maxTokenSize then ⟨true, none⟩ else ⟨false, some errTooLong⟩)
  | none, [] => if c.rest.length < maxTokenSize then none else some ⟨false, some errTooLong⟩

theorem newline_not_mem_logSyncMarker : newline ∉ logSyncMarker := by decide

/-- A line that ends with the marker has no carriage return to drop. -/
theorem not_ordinary_of_marker (line : Bytes) : ¬ Ordinary (line ++ logSyncMarker) := by
  have hlast : logSyncMarker.getLast? = some 61 := by decide
  have hdrop : dropCR (line ++ logSyncMarker) = line ++ logSyncMarker := by
    unfold dropCR
    rw [List.getLast?_append, hlast, Option.some_or]
    exact if_neg (by decide)
  intro h
  rw [Ordinary, hdrop] at h
  exact h.2 (List.suffix_append _ _)

theorem terminated_ne_nil (line : Bytes) : terminated line ≠ [] := by simp [terminated]

theorem putAll_terminated (w : Sink UInt8 Err) (line : Bytes) :
    w.putAll [terminated line] = w.put (terminated line) := by
  cases h : terminated line with
  | nil => exact absurd h (terminated_ne_nil line)
  | cons b bs =>
    simp only [Sink.putAll]
    generalize w.put (b :: bs) = p
    obtain ⟨t, err⟩ := p
    cases err <;> rfl

/-- While the scan goes on, all lines so far are ordinary, and all were written. -/
theorem of_verdict_eq_none {w : Sink UInt8 Err} {c : Cut UInt8} (h : verdict w c = none) :
    (∀ l ∈ c.lines, decide (Ordinary l) = true) ∧ (relayed w c).2 = none ∧
      c.rest.length < maxTokenSize := by
  unfold verdict at h
  split at h
  · cases h
  · cases h
  · rename_i herr hdrop
    refine ⟨List.dropWhile_eq_nil_iff.mp hdrop, herr, ?_⟩
    by_contra hlen
    rw [if_neg hlen] at h
    cases h

/-- A scan that has ended at the marker has written all lines before it. -/
theorem of_verdict_marker {w : Sink UInt8 Err} {c : Cut UInt8} {e : Ended}
    (h : verdict w c = some e) (hmarker : e.marker = true) :
    (relayed w c).2 = none ∧ ∃ line rest, c.lines.dropWhile (Ordinary ·) = line :: rest ∧
      logSyncMarker <:+ dropCR line := by
  unfold verdict at h
  split at h
  · cases h
    cases hmarker
  · rename_i line rest herr hdrop
    refine ⟨herr, line, rest, hdrop, ?_⟩
    have hord : ¬ Ordinary line := by
      have hhead := List.head_dropWhile_not (fun l => decide (Ordinary l)) (l := c.lines)
        (by rw [hdrop]; exact List.cons_ne_nil _ _)
      simpa [hdrop] using hhead
    have hlen : line.length < maxTokenSize := by
      by_contra hlong
      rw [if_neg hlong] at h
      cases h
      cases hmarker
    by_contra hmark
    exact hord ⟨hlen, hmark⟩
  · split at h
    · cases h
    · cases h
      cases hmarker

theorem relayed_of_ordinary {w : Sink UInt8 Err} {c : Cut UInt8}
    (h : ∀ l ∈ c.lines, decide (Ordinary l) = true) :
    relayed w c = w.putAll (c.lines.map terminated) ∧ c.lines.dropWhile (Ordinary ·) = [] := by
  refine ⟨?_, List.dropWhile_eq_nil_iff.mpr h⟩
  rw [relayed, List.takeWhile_eq_self_iff.mpr h]

/-- One more line after a line that ends the scan. -/
theorem snoc_of_dropWhile {ls : List Bytes} {l : Bytes} {rest : List Bytes}
    (h : ls.dropWhile (Ordinary ·) = l :: rest) (line : Bytes) :
    (ls ++ [line]).takeWhile (Ordinary ·) = ls.takeWhile (Ordinary ·) ∧
      (ls ++ [line]).dropWhile (Ordinary ·) = l :: (rest ++ [line]) := by
  have hlen : (ls.takeWhile (Ordinary ·)).length ≠ ls.length := by
    intro heq
    have happ := congrArg List.length
      (List.takeWhile_append_dropWhile (p := (Ordinary ·)) (l := ls))
    rw [List.length_append, heq, h] at happ
    simp at happ
  rw [List.takeWhile_append, if_neg hlen, List.dropWhile_append, h]
  simp

/-- One more line after ordinary lines. -/
theorem relayed_snoc {w : Sink UInt8 Err} {c : Cut UInt8}
    (h : ∀ l ∈ c.lines, decide (Ordinary l) = true) (line rest : Bytes) :
    relayed w ⟨c.lines ++ [line], rest⟩ =
        w.putAll (c.lines.map terminated ++ ([line].takeWhile (Ordinary ·)).map terminated) ∧
      (c.lines ++ [line]).dropWhile (Ordinary ·) = [line].dropWhile (Ordinary ·) := by
  refine ⟨?_, List.dropWhile_append_of_pos h⟩
  rw [relayed, List.takeWhile_append_of_pos h, List.map_append]

/-- A scan that has ended does nothing more. -/
theorem relayed_feed_of_ended {w : Sink UInt8 Err} {c : Cut UInt8} {e : Ended}
    (h : verdict w c = some e) (b : UInt8) :
    relayed w (c.feed newline b) = relayed w c ∧ verdict w (c.feed newline b) = some e := by
  by_cases hb : b = newline
  · subst hb
    rw [Cut.feed_sep]
    unfold verdict at h ⊢
    cases hdrop : c.lines.dropWhile (Ordinary ·) with
    | cons l rest =>
      obtain ⟨htake, hdrop'⟩ := snoc_of_dropWhile hdrop c.rest
      have heq : relayed w ⟨c.lines ++ [c.rest], []⟩ = relayed w c := by rw [relayed, htake]; rfl
      rw [hdrop] at h
      rw [heq, hdrop']
      cases herr : (relayed w c).2 <;> simp_all
    | nil =>
      have hall : ∀ l ∈ c.lines, decide (Ordinary l) = true := List.dropWhile_eq_nil_iff.mp hdrop
      obtain ⟨hsnoc, hdrop'⟩ := relayed_snoc (w := w) hall c.rest []
      have hbefore := (relayed_of_ordinary (w := w) hall).1
      rw [hdrop] at h
      cases herr : (relayed w c).2 with
      | some err =>
        have heq : relayed w ⟨c.lines ++ [c.rest], []⟩ = relayed w c := by
          rw [hbefore] at herr ⊢
          rw [hsnoc, Sink.putAll_append_of_error herr]
        simp_all
      | none =>
        -- the rest has filled the buffer: it is a line that ends the scan
        have hlong : ¬ c.rest.length < maxTokenSize := by
          intro hlt
          simp [herr, hlt] at h
        have hord : decide (Ordinary c.rest) = false := by simp [Ordinary, hlong]
        have heq : relayed w ⟨c.lines ++ [c.rest], []⟩ = relayed w c := by
          rw [hsnoc, hbefore]
          simp [hord]
        simp_all
  · rw [Cut.feed_of_ne _ hb]
    refine ⟨rfl, ?_⟩
    have hrel : relayed w ⟨c.lines, c.rest ++ [b]⟩ = relayed w c := rfl
    unfold verdict at h ⊢
    rw [hrel]
    cases herr : (relayed w c).2 with
    | some err => simpa [herr] using h
    | none =>
      cases hdrop : c.lines.dropWhile (Ordinary ·) with
      | cons l rest => simpa [herr, hdrop] using h
      | nil =>
        simp only [herr, hdrop] at h
        split at h
        · cases h
        · rename_i hlen
          have hlen' : ¬ (c.rest ++ [b]).length < maxTokenSize := by
            rw [List.length_append]
            omega
          rw [if_neg hlen']
          exact h

/-- The state of the goroutine after the bytes `bs`. -/
structure After (w : Sink UInt8 Err) (bs : Bytes) (r : Relay) : Prop where
  written : r.w = (relayed w (cut newline bs)).1
  ended : r.ended = verdict w (cut newline bs)
  line : r.ended = none → r.line = (cut newline bs).rest

/-- A line is scanned while the scan goes on. -/
theorem After.scanned {w : Sink UInt8 Err} {bs : Bytes} {r : Relay} (h : After w bs r)
    (hrun : r.ended = none) :
    After w (bs ++ [newline]) ({ r with line := [] }.scanned r.line none) := by
  obtain ⟨hall, herr, hlen⟩ := of_verdict_eq_none (h.ended ▸ hrun)
  obtain ⟨hsnoc, hdrop⟩ := relayed_snoc (w := w) hall (cut newline bs).rest []
  have hcut : cut newline (bs ++ [newline]) =
      ⟨(cut newline bs).lines ++ [(cut newline bs).rest], []⟩ := by
    rw [cut_snoc, Cut.feed_sep]
  rw [h.line hrun]
  by_cases hmark : logSyncMarker <:+ dropCR (cut newline bs).rest
  · have hord : decide (Ordinary (cut newline bs).rest) = false := by simp [Ordinary, hmark]
    have hrel : relayed w (cut newline (bs ++ [newline])) = relayed w (cut newline bs) := by
      rw [hcut, hsnoc, (relayed_of_ordinary hall).1]
      simp [hord]
    have hver : verdict w (cut newline (bs ++ [newline])) = some ⟨true, none⟩ := by
      unfold verdict
      rw [hrel, herr, hcut, hdrop]
      simp [hord, hlen]
    have hscan : ({ r with line := [] } : Relay).scanned (cut newline bs).rest none =
        { r with line := [], ended := some ⟨true, none⟩ } := if_pos hmark
    rw [hscan]
    exact ⟨by rw [hrel]; exact h.written, hver.symm, by simp⟩
  · have hord : decide (Ordinary (cut newline bs).rest) = true := by simp [Ordinary, hmark, hlen]
    have hrel : relayed w (cut newline (bs ++ [newline])) =
        r.w.put (terminated (cut newline bs).rest) := by
      rw [(relayed_of_ordinary hall).1] at herr
      rw [hcut, hsnoc, h.written, (relayed_of_ordinary hall).1, Sink.putAll_append_of_ok herr,
        ← putAll_terminated]
      simp [hord]
    have hver : verdict w (cut newline (bs ++ [newline])) =
        (r.w.put (terminated (cut newline bs).rest)).2.map (⟨false, some ·⟩) := by
      unfold verdict
      rw [hrel, hcut, hdrop]
      cases (r.w.put (terminated (cut newline bs).rest)).2 <;> simp [hord, maxTokenSize]
    have hscan : ({ r with line := [] } : Relay).scanned (cut newline bs).rest none =
        { r with
          line := []
          w := (r.w.put (terminated (cut newline bs).rest)).1
          ended := (r.w.put (terminated (cut newline bs).rest)).2.map (⟨false, some ·⟩) } := by
      rw [Relay.scanned_of_not_marker _ _ hmark, hrun, terminated]
      cases (r.w.put (dropCR (cut newline bs).rest ++ [newline])).2 <;> rfl
    rw [hscan]
    refine ⟨by rw [hrel], by rw [hver], fun _ => ?_⟩
    rw [hcut]

theorem After.feed {w : Sink UInt8 Err} {bs : Bytes} {r : Relay} (h : After w bs r) (b : UInt8) :
    After w (bs ++ [b]) (r.feed b) := by
  cases hrun : r.ended with
  | some e =>
    obtain ⟨hrel, hver⟩ := relayed_feed_of_ended (h.ended ▸ hrun) b
    have hsame : r.feed b = r := by simp [Relay.feed, hrun]
    rw [hsame]
    refine ⟨?_, ?_, ?_⟩
    · rw [cut_snoc, hrel, h.written]
    · rw [cut_snoc, hver, hrun]
    · simp [hrun]
  | none =>
    by_cases hb : b = newline
    · have hscan : r.feed b = { r with line := [] }.scanned r.line none := by
        simp [Relay.feed, hrun, hb]
      rw [hscan, hb]
      exact h.scanned hrun
    · obtain ⟨hall, herr, -⟩ := of_verdict_eq_none (h.ended ▸ hrun)
      have hcut : cut newline (bs ++ [b]) =
          ⟨(cut newline bs).lines, (cut newline bs).rest ++ [b]⟩ := by
        rw [cut_snoc, Cut.feed_of_ne _ hb]
      have hver : verdict w (cut newline (bs ++ [b])) =
          if r.line.length + 1 < maxTokenSize then none else some ⟨false, some errTooLong⟩ := by
        have hrel : relayed w (cut newline (bs ++ [b])) = relayed w (cut newline bs) := by
          rw [hcut]
          rfl
        unfold verdict
        rw [hrel, herr, hcut, (relayed_of_ordinary (w := w) hall).2, h.line hrun]
        simp
      have hfeed : r.feed b = { r with
          line := r.line ++ [b]
          ended := if r.line.length + 1 < maxTokenSize then none
            else some ⟨false, some errTooLong⟩ } := by
        simp only [Relay.feed, hrun, hb, Option.isSome_none, Bool.false_eq_true, if_false]
        split <;> rfl
      rw [hfeed]
      refine ⟨?_, hver.symm, fun _ => ?_⟩
      · rw [hcut]
        exact h.written
      · rw [hcut, h.line hrun]

theorem After.read {w : Sink UInt8 Err} {bs : Bytes} {r : Relay} (h : After w bs r) (cs : Bytes) :
    After w (bs ++ cs) (r.read cs) := by
  induction cs generalizing bs r with
  | nil => simpa [Relay.read] using h
  | cons c cs ih => simpa [Relay.read] using ih (h.feed c)

theorem After.start (w : Sink UInt8 Err) : After w [] { w := w } :=
  ⟨rfl, rfl, fun _ => rfl⟩

/-- **Relaying.** At any time, whatever the reads that brought the bytes, the goroutine has written
the lines that have ended before the first line that ends the scan, each once and in order, up to
the first write that failed; and it has returned exactly when the scan of these bytes has ended. -/
theorem read_eq_relayed (w : Sink UInt8 Err) (chunks : List Bytes) :
    (chunks.foldl Relay.read { w := w }).w = (relayed w (cut newline chunks.flatten)).1 ∧
      (chunks.foldl Relay.read { w := w }).ended = verdict w (cut newline chunks.flatten) := by
  suffices h : ∀ {bs : Bytes} {r : Relay}, After w bs r →
      After w (bs ++ chunks.flatten) (chunks.foldl Relay.read r) by
    have hall := h (After.start w)
    exact ⟨hall.written, hall.ended⟩
  induction chunks with
  | nil => simp
  | cons c cs ih =>
    intro bs r h
    simpa using ih (h.read c)

end Bigmachine.Machine.Tail
