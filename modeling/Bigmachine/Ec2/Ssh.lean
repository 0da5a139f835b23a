import Bigmachine.Machine.Tail
import Bigmachine.Transition.System

/-!
# The log of an EC2 machine, over ssh

The `Tail` of the EC2 system runs journalctl on the instance, over ssh, and hands the output to its
caller through a pipe. When the connection fails, the goroutine of `run` waits and runs the command
again, so that the reader gets the output of all tries, one after the other. A write to the pipe
returns when its bytes are read. The reader is the goroutine that relays the log (`Machine.Tail`).

The two goroutines move in any order, and the tries can print and fail in any way.

* What the reader gets is the output of all tries, and the error at its end is that of the last one,
  or that of the wait after it (`run_concatenates`).
* A try prints the log from its start, so all its lines are relayed again, after those of the tries
  before it; its first line has the beginning of a line in front at which those were cut off
  (`tries_relayed`). The marker is looked for at the end of a line, and so it is found.
* `run` does not look at the context while a command runs, and the reader is not closed when the
  relay returns. With output left to write, the goroutine of `run` then never moves again
  (`run_blocks`).
-/

namespace Bigmachine.Ec2.Ssh

open Errors Io Transition
open Rpc (Bytes)
open Machine.Tail

/-! ## The system -/

/-- An error of `runSSH`, and whether it is an `*ssh.ExitError`. -/
structure SshErr where
  err : Err
  exitError : Bool
  deriving DecidableEq, Repr

def authFailed : String := "ssh: unable to authenticate"

/-- The command is not run again after the error. -/
def final (P : Package) (e : SshErr) : Bool :=
  decide (authFailed.toList <+: (P.errorText e.err).toList) || e.exitError

/-- In `runSSH`, in `retry.Wait`, or done with the pipe closed. -/
inductive RunPc
  | running (retries : Nat)
  | waiting (retries : Nat)
  | returned (err : Option Err)
  deriving DecidableEq, Repr

/-- `pending` is what is left of the write to the pipe that is in progress, `out` the output of the
last try, and `past` that of the tries before it. `failed` are the errors of the tries, and `waited`
is that of `retry.Wait`, which is not called again after it. `read` is what the relay has read. -/
structure World where
  run : RunPc := .running 0
  pending : Bytes := []
  relay : Relay
  past : List Bytes := []
  out : Bytes := []
  failed : List SshErr := []
  waited : Option Err := none
  read : Bytes := []

/-- The output of each try. -/
def World.tries (s : World) : List Bytes := s.past ++ [s.out]

def init (w : Sink UInt8 Err) : World := { relay := { w := w } }

/-- A write of the session, of its standard output or its standard error; `runSSH` or `retry.Wait`
returns; the relay reads, or gets the error of the pipe. -/
inductive Action
  | output (bs : Bytes)
  | exit (e : Option SshErr)
  | wait (e : Option Err)
  | receive (n : Nat)
  | close
  deriving DecidableEq, Repr

def step (P : Package) (s : World) : Action → Option World
  | .output bs =>
    match s.run with
    | .running _ =>
      -- the writes of a session take turns
      if s.pending = [] ∧ bs ≠ [] then some { s with pending := bs, out := s.out ++ bs } else none
    | _ => none
  | .exit e =>
    match s.run with
    | .running k =>
      if s.pending = [] then
        match e with
        | none => some { s with run := .returned none }
        | some e =>
          some { s with
            run := if final P e then .returned (some e.err) else .waiting k
            failed := s.failed ++ [e] }
      else none
    | _ => none
  | .wait e =>
    match s.run with
    | .waiting k =>
      match e with
      | none =>
        some { s with run := .running (k + 1), past := s.past ++ [s.out], out := [] }
      | some e => some { s with run := .returned (some e), waited := some e }
    | _ => none
  | .receive n =>
    if s.relay.ended = none ∧ 0 < n ∧ n ≤ s.pending.length then
      some { s with
        pending := s.pending.drop n
        relay := s.relay.read (s.pending.take n)
        read := s.read ++ s.pending.take n }
    else none
  | .close =>
    match s.run with
    | .returned err =>
      if s.relay.ended = none then some { s with relay := s.relay.close (err.getD .eof) } else none
    | _ => none

def system (P : Package) (w : Sink UInt8 Err) : System World Action := ⟨init w, step P⟩

/-! ## The tries -/

/-- How the tries have ended when the goroutine closes the pipe with `err`: all but the last with
an error after which the command is run again, and the last one without an error, with the error
`err`, or with one after which `retry.Wait` has returned `err`. -/
def Outcome (P : Package) (tries : Nat) (failed : List SshErr) (waited : Option Err) :
    Option Err → Prop
  | none => failed.length + 1 = tries ∧ (∀ f ∈ failed, final P f = false) ∧ waited = none
  | some err => ∃ fs f, failed = fs ++ [f] ∧ fs.length + 1 = tries ∧
      (∀ g ∈ fs, final P g = false) ∧
      if final P f then err = f.err ∧ waited = none else waited = some err

/-- How the tries have gone so far. -/
def Tried (P : Package) (tries : Nat) (failed : List SshErr) (waited : Option Err) : RunPc → Prop
  | .running k =>
    tries = k + 1 ∧ failed.length = k ∧ (∀ f ∈ failed, final P f = false) ∧ waited = none
  | .waiting k =>
    tries = k + 1 ∧ failed.length = k + 1 ∧ (∀ f ∈ failed, final P f = false) ∧ waited = none
  | .returned err => Outcome P tries failed waited err

structure Inv (P : Package) (w : Sink UInt8 Err) (s : World) : Prop where
  bytes : s.read ++ s.pending = s.tries.flatten
  idle : (∀ k, s.run ≠ .running k) → s.pending = []
  tried : Tried P s.tries.length s.failed s.waited s.run
  scanned : s.relay.ended = none → After w s.read s.relay

theorem tried_exit {P : Package} {tries k : Nat} {failed : List SshErr} {waited : Option Err}
    (h : Tried P tries failed waited (.running k)) (e : SshErr) :
    Tried P tries (failed ++ [e]) waited
      (if final P e then .returned (some e.err) else .waiting k) := by
  obtain ⟨htries, hlen, hall, hwaited⟩ := h
  by_cases he : final P e = true
  · rw [if_pos he]
    exact ⟨failed, e, rfl, by omega, hall, by rw [if_pos he]; exact ⟨rfl, hwaited⟩⟩
  · rw [if_neg he]
    refine ⟨htries, by simp [hlen], fun f hf => ?_, hwaited⟩
    rcases List.mem_append.mp hf with hf | hf
    · exact hall f hf
    · rw [List.mem_singleton.mp hf]
      exact Bool.eq_false_iff.mpr he

theorem outcome_wait {P : Package} {tries k : Nat} {failed : List SshErr} {waited : Option Err}
    (h : Tried P tries failed waited (.waiting k)) (err : Err) :
    Outcome P tries failed (some err) (some err) := by
  obtain ⟨htries, hlen, hall, -⟩ := h
  obtain rfl | ⟨fs, f, rfl⟩ := List.eq_nil_or_concat' failed
  · cases hlen
  have hf : final P f = false := hall f (by simp)
  exact ⟨fs, f, rfl, by simpa [htries] using hlen, fun g hg => hall g (by simp [hg]),
    by rw [hf, if_neg Bool.false_ne_true]⟩

theorem inv_step {P : Package} {w : Sink UInt8 Err} {s t : World} {a : Action} (hi : Inv P w s)
    (h : step P s a = some t) : Inv P w t := by
  obtain ⟨hbytes, hidle, htried, hscanned⟩ := hi
  cases a with
  | output bs =>
    cases hrun : s.run with
    | running k =>
      simp only [step, hrun] at h
      split at h
      · rename_i hcond
        cases h
        rw [hcond.1, List.append_nil] at hbytes
        refine ⟨?_, fun hne => absurd rfl (hne k), ?_, hscanned⟩
        · simp [World.tries, hbytes]
        · simpa [World.tries, hrun] using htried
      · cases h
    | waiting k => simp [step, hrun] at h
    | returned err => simp [step, hrun] at h
  | exit e =>
    cases hrun : s.run with
    | running k =>
      rw [hrun] at htried
      simp only [step, hrun] at h
      split at h
      · rename_i hpending
        cases e with
        | none =>
          cases h
          obtain ⟨htries, hlen, hall⟩ := htried
          exact ⟨hbytes, fun _ => hpending, ⟨hlen ▸ htries.symm, hall⟩, hscanned⟩
        | some e =>
          cases h
          exact ⟨hbytes, fun _ => hpending, tried_exit htried e, hscanned⟩
      · cases h
    | waiting k => simp [step, hrun] at h
    | returned err => simp [step, hrun] at h
  | wait e =>
    cases hrun : s.run with
    | waiting k =>
      rw [hrun] at htried
      have hpending := hidle (by simp [hrun])
      simp only [step, hrun] at h
      cases e with
      | none =>
        cases h
        refine ⟨by simpa [World.tries] using hbytes, fun _ => hpending, ?_, hscanned⟩
        obtain ⟨htries, hlen, hall⟩ := htried
        exact ⟨by simpa [World.tries] using htries, hlen, hall⟩
      | some err =>
        cases h
        exact ⟨hbytes, fun _ => hpending, outcome_wait htried err, hscanned⟩
    | running k => simp [step, hrun] at h
    | returned err => simp [step, hrun] at h
  | receive n =>
    simp only [step] at h
    split at h
    · rename_i hcond
      cases h
      refine ⟨?_, fun hne => ?_, htried, fun _ => (hscanned hcond.1).read _⟩
      · simpa [World.tries] using hbytes
      · simp [hidle hne]
    · cases h
  | close =>
    cases hrun : s.run with
    | returned err =>
      simp only [step, hrun] at h
      split at h
      · cases h
        refine ⟨hbytes, fun _ => hidle (by simp [hrun]), hrun ▸ htried, fun hended => ?_⟩
        have hclosed := s.relay.close_ended (err.getD .eof)
        rw [hended] at hclosed
        cases hclosed
      · cases h
    | running k => simp [step, hrun] at h
    | waiting k => simp [step, hrun] at h

theorem reachable_inv {P : Package} {w : Sink UInt8 Err} {tr : List Action} {s : World}
    (h : Steps (system P w) Always (system P w).init tr s) : Inv P w s :=
  h.invariant (I := Inv P w) (fun _ _ _ hi _ hstep => inv_step hi hstep)
    ⟨rfl, fun _ => rfl, ⟨rfl, rfl, by simp [system, init]⟩, fun _ => After.start w⟩

/-- **The reader gets the output of all tries**, one after the other; and when the pipe is closed,
its error is that of the last try, or that of `retry.Wait` after it. -/
theorem run_concatenates (P : Package) (w : Sink UInt8 Err) (tr : List Action) (s : World)
    (h : Steps (system P w) Always (system P w).init tr s) :
    s.read ++ s.pending = s.tries.flatten ∧
      ∀ err, s.run = .returned err →
        s.read = s.tries.flatten ∧ Outcome P s.tries.length s.failed s.waited err := by
  have hinv := reachable_inv h
  refine ⟨hinv.bytes, fun err hrun => ?_⟩
  have hpending := hinv.idle (by simp [hrun])
  have hbytes := hinv.bytes
  have htried := hinv.tried
  rw [hpending, List.append_nil] at hbytes
  rw [hrun] at htried
  exact ⟨hbytes, htried⟩

/-- The connection fails in the middle of a line, and the second try prints the log again. -/
theorem run_concatenates_two_tries :
    ∃ s, Steps (system Reference.package {}) Always (system Reference.package {}).init
        [.output [97, 10, 98], .receive 3, .exit (some ⟨.text "ssh: disconnected", false⟩),
          .wait none, .output [97, 10, 98, 10], .receive 1, .receive 3, .exit none] s ∧
      s.read = [97, 10, 98, 97, 10, 98, 10] ∧ s.read = s.tries.flatten ∧
      Outcome Reference.package s.tries.length s.failed s.waited none := by
  obtain ⟨s, hs, hrun, hread⟩ := exists_steps (system Reference.package {}) Always
    (system Reference.package {}).init
    [.output [97, 10, 98], .receive 3, .exit (some ⟨.text "ssh: disconnected", false⟩),
      .wait none, .output [97, 10, 98, 10], .receive 1, .receive 3, .exit none]
    (fun s => s.run = .returned none ∧ s.read = [97, 10, 98, 97, 10, 98, 10]) (by decide +kernel)
  exact ⟨s, hs, hread, (run_concatenates _ _ _ s hs).2 none hrun⟩

/-! ## The relay -/

/-- A line that ends with the marker does so with anything before it. -/
theorem not_ordinary_of_suffix {line line' : Bytes} (h : logSyncMarker <:+ line)
    (h' : line <:+ line') : ¬ Ordinary line' := by
  obtain ⟨before, rfl⟩ := h.trans h'
  exact not_ordinary_of_marker before

/-- **All tries are relayed.** When the relay has read all output and goes on, the lines of each try
were written one after the other, after those of the tries before it, where the first of them comes
with the part of a line at which those were cut off; and no try has printed the marker at the end of
a line. -/
theorem tries_relayed (P : Package) (w : Sink UInt8 Err) (tr : List Action) (s : World)
    (h : Steps (system P w) Always (system P w).init tr s) (hpending : s.pending = [])
    (hrun : s.relay.ended = none) :
    ∃ lines : List Bytes, s.relay.w = (w.putAll (lines.map terminated)).1 ∧
      (w.putAll (lines.map terminated)).2 = none ∧
      ∀ before out after, s.tries = before ++ out :: after →
        (cut newline before.flatten).lines ++
          (cut newline out).lines.modifyHead ((cut newline before.flatten).rest ++ ·) <+: lines ∧
        ∀ line ∈ (cut newline out).lines, ¬ logSyncMarker <:+ line := by
  have hinv := reachable_inv h
  have hafter := hinv.scanned hrun
  have hbytes := hinv.bytes
  rw [hpending, List.append_nil] at hbytes
  rw [hbytes] at hafter
  obtain ⟨hall, herr, -⟩ := of_verdict_eq_none (hafter.ended ▸ hrun)
  have hrel := (relayed_of_ordinary (w := w) hall).1
  refine ⟨(cut newline s.tries.flatten).lines, hrel ▸ hafter.written, hrel ▸ herr, ?_⟩
  intro before out after htries
  have hflat : s.tries.flatten = before.flatten ++ out ++ after.flatten := by simp [htries]
  have hpart := @cut_part _ _ newline before.flatten out after.flatten
  rw [← hflat] at hpart
  refine ⟨hpart, fun line hline hmarker => ?_⟩
  obtain ⟨line', hline', hsuffix⟩ :=
    exists_suffix_modifyHead hline (cut newline before.flatten).rest
  have hord : Ordinary line' :=
    of_decide_eq_true (hall line' (hpart.subset (List.mem_append_right _ hline')))
  exact not_ordinary_of_suffix hmarker hsuffix hord

/-- The second try begins after a line that was cut off. -/
theorem tries_relayed_two_tries :
    ∃ s, Steps (system Reference.package {}) Always (system Reference.package {}).init
        [.output [97, 10, 98], .receive 3, .exit (some ⟨.text "ssh: disconnected", false⟩),
          .wait none, .output [97, 10, 98, 10], .receive 4] s ∧
      s.tries = [[97, 10, 98], [97, 10, 98, 10]] ∧
      ∃ lines : List Bytes,
        s.relay.w = ((({} : Sink UInt8 Err).putAll (lines.map terminated)).1) ∧
        [[97], [98, 97], [98]] <+: lines := by
  obtain ⟨s, hs, hpending, hrun, htries⟩ := exists_steps (system Reference.package {}) Always
    (system Reference.package {}).init
    [.output [97, 10, 98], .receive 3, .exit (some ⟨.text "ssh: disconnected", false⟩),
      .wait none, .output [97, 10, 98, 10], .receive 4]
    (fun s => s.pending = [] ∧ s.relay.ended = none ∧
      s.tries = [[97, 10, 98], [97, 10, 98, 10]]) (by decide +kernel)
  obtain ⟨lines, hw, -, hall⟩ := tries_relayed _ _ _ s hs hpending hrun
  exact ⟨s, hs, htries, lines, hw, (hall [[97, 10, 98]] [97, 10, 98, 10] [] htries).1⟩

/-- **A relay that has returned blocks the goroutine of `run`.** When there is output that the relay
has not read, nothing can happen any more: the command is never done, and neither the session nor
the pipe is closed. -/
theorem run_blocks (P : Package) (w : Sink UInt8 Err) (tr : List Action) (s : World)
    (h : Steps (system P w) Always (system P w).init tr s) (hpending : s.pending ≠ [])
    (hended : s.relay.ended ≠ none) :
    (∃ retries, s.run = .running retries) ∧ ∀ a, step P s a = none := by
  have hidle := (reachable_inv h).idle
  have hrunning : ∃ retries, s.run = .running retries := by
    by_contra hnone
    exact hpending (hidle (not_exists.mp hnone))
  obtain ⟨k, hrun⟩ := hrunning
  refine ⟨⟨k, hrun⟩, fun a => ?_⟩
  cases a with
  | output bs => simp [step, hrun, hpending]
  | exit e => simp [step, hrun, hpending]
  | wait e => simp [step, hrun]
  | receive n => simp [step, hended]
  | close => simp [step, hrun]

/-- The relay returns at the marker, and then the service prints one more line. -/
theorem run_blocks_after_marker :
    ∃ s, Steps (system Reference.package {}) Always (system Reference.package {}).init
        [.output (logSyncMarker ++ [newline]), .receive 42, .output [98, 121, 101, 10]] s ∧
      s.pending = [98, 121, 101, 10] ∧ ∀ a, step Reference.package s a = none := by
  obtain ⟨s, hs, hpending, hended⟩ := exists_steps (system Reference.package {}) Always
    (system Reference.package {}).init
    [.output (logSyncMarker ++ [newline]), .receive 42, .output [98, 121, 101, 10]]
    (fun s => s.pending = [98, 121, 101, 10] ∧ s.relay.ended ≠ none) (by decide +kernel)
  exact ⟨s, hs, hpending, (run_blocks _ _ _ s hs (by simp [hpending]) hended).2⟩

end Bigmachine.Ec2.Ssh
