import Bigmachine.Io.Scanner
import Bigmachine.Machine.Lifecycle
import Bigmachine.Machine.Tail

/-!
# Kills in the log of the kernel

`tryMonitorOOMs` scans the log of the kernel for a text that says that the supervised process was
killed, and fails the machine then. It looks for the text anywhere in a line, and the text ends
with the process id; so it also takes lines about other processes for it, those whose process id
goes on after the digits of its own. Which lines it sees does not depend on the pieces in which the
log comes; a last line without a newline counts when the log ends, and a line that does not fit
into the buffer of the scanner ends the scan (`oom_detected_iff`).

The kernel escapes what is not printable ASCII, so that a character of the log is a byte.
-/

namespace Bigmachine.Machine.Oom

open Io Loop

/-! ## Decimal numbers -/

/-- A line, with the two steps of `setError` if it is a kill. -/
def script (pid : Nat) (text : String) : List MonitorOutcome :=
  .line text :: if contains text (look pid) then [.ok, .ok] else []

def dropCR (line : List Char) : List Char :=
  if line.getLast? = some '\r' then line.dropLast else line

/-- The scanner of the log, which has come in pieces and has ended or not. -/
def scanner (pieces : List (List Char)) (ended : Bool) : Scanner Char :=
  let s := pieces.foldl (Scanner.read '\n' Tail.maxTokenSize) {}
  if ended then s.finish else s

/-- What the goroutine meets: the texts that the scanner has given out, and the end of the scan. -/
def outcomes (pid : Nat) (pieces : List (List Char)) (ended : Bool) : List MonitorOutcome :=
  ((scanner pieces ended).tokens.map fun line => String.ofList (dropCR line)).flatMap
      (script pid) ++
    if ended || (scanner pieces ended).full then [.eof] else []

/-- The lines of the log that the scanner gives out. -/
def seen (log : List Char) (ended : Bool) : List (List Char) :=
  (if ended then (cut '\n' log).allLines else (cut '\n' log).lines).takeWhile fun line =>
    line.length < Tail.maxTokenSize

end Bigmachine.Machine.Oom
