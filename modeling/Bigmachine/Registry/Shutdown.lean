import Bigmachine.Machine.Tail
import Bigmachine.Transition.System

/-!
# Shutting down all machines

`B.Shutdown` asks the supervisor of every machine, one after the other, to shut down, and then
waits until the logs have been relayed: for each machine a goroutine waits for `tailDone`, or until
20 seconds have passed. The supervisor waits a moment, prints the sync marker and exits.

The system has the driver, and for every machine its process, the stream that the system's `Tail`
returns, and the goroutine that relays it (`Machine.Tail`). They move in any order; requests may be
lost or be served late, streams may end early, and they need not hold what the process has printed:
that of the local system begins when `Tail` is called and leaves out bytes when the relay is slow,
and that of EC2 begins again when the connection breaks.

When `Shutdown` returns before the timeout, every machine is owned and its relay has returned;
where it returned because of the marker, every line of the stream before the marker is on the
standard error of the driver (`shutdown_relays_logs`). A dialed machine has no `tailDone`, so with
one of them `Shutdown` always lasts until the timeout. When the marker is printed and the stream
has brought all that was printed, the relay does return (`printed_ends_relay`).
-/

namespace Bigmachine.Registry.Shutdown

open Errors Io Transition
open Rpc (Bytes)
open Machine.Tail

/-! ## Machines -/

/-- A machine that is not owned was dialed, and has no `tailDone`. `w` is the writer of the relay as
it was made. Of the calls of `Supervisor.Shutdown`, `requests` have not arrived, and `sleeping` wait
for their delay; `printed` tells that one of them has printed its message. `log` is what the process
has printed, and `stream` what `Tail` has delivered. -/
structure Party where
  owned : Bool
  w : Sink UInt8 Err
  log : Bytes := []
  requests : Nat := 0
  sleeping : Nat := 0
  printed : Bool := false
  exited : Bool := false
  stream : Bytes := []
  relay : Relay := { w := w }

namespace Party

/-- A receive from `tailDone` returns. -/
def tailDone (p : Party) : Bool := p.owned && p.relay.ended.isSome

/-- `log.Print` of the marker, in a line that begins with `header`. -/
def print (p : Party) (header : Bytes) : Party :=
  { p with
    log := p.log ++ (header ++ logSyncMarker ++ [newline])
    sleeping := p.sleeping - 1
    printed := true }

/-- A read from the stream returns `bs`. -/
def receive (p : Party) (bs : Bytes) : Party :=
  { p with stream := p.stream ++ bs, relay := p.relay.read bs }

end Party

/-- The process prints something; `Supervisor.Shutdown` is called, prints and exits; the stream
delivers bytes or ends with an error, or `system.Tail` returns an error instead of it. -/
inductive PartyAction
  | log (bs : Bytes)
  | serve
  | print (header : Bytes)
  | exit
  | receive (bs : Bytes)
  | close (e : Err)
  | refuse (e : Err)
  deriving DecidableEq, Repr

def Party.step (p : Party) : PartyAction → Option Party
  | .log bs => if p.exited then none else some { p with log := p.log ++ bs }
  | .serve =>
    if p.exited ∨ p.requests = 0 then none
    else some { p with requests := p.requests - 1, sleeping := p.sleeping + 1 }
  | .print header =>
    if p.exited ∨ p.sleeping = 0 ∨ newline ∈ header then none else some (p.print header)
  | .exit => if p.printed then some { p with exited := true } else none
  | .receive bs => if p.owned ∧ bs ≠ [] then some (p.receive bs) else none
  | .close e => if p.owned then some { p with relay := p.relay.close e } else none
  | .refuse e =>
    if p.owned ∧ p.stream = [] ∧ p.relay.ended = none then
      some { p with relay := p.relay.refused e }
    else none

/-! ## The driver -/

/-- Where `shutdownAllMachines` is: in the loop over the machines, or waiting for the goroutines of
the machines `pending`. -/
inductive DriverPc
  | idle
  | call (next : Nat)
  | calling (next : Nat)
  | waiting (pending : List Nat)
  | returned
  deriving DecidableEq, Repr

/-- `timedOut` tells that the context of the wait is done. -/
structure World where
  parties : List Party
  driver : DriverPc := .idle
  timedOut : Bool := false

/-- Of the driver: `B.Shutdown` is called; the loop makes its next call, or ends; a call returns,
with an error or not; the time is up; the `select` of a waiting goroutine takes a case; `wg.Wait()`
returns. -/
inductive Action
  | party (i : Nat) (a : PartyAction)
  | shutdown
  | send
  | called
  | timeout
  | wake (i : Nat)
  | wait
  deriving DecidableEq, Repr

def step (s : World) : Action → Option World
  | .party i a =>
    (s.parties[i]?.bind fun p => p.step a).map fun p => { s with parties := s.parties.set i p }
  | .shutdown => if s.driver = .idle then some { s with driver := .call 0 } else none
  | .send =>
    match s.driver with
    | .call next =>
      some (match s.parties[next]? with
        | some p =>
          { s with
            parties := s.parties.set next { p with requests := p.requests + 1 }
            driver := .calling next }
        | none => { s with driver := .waiting (List.range s.parties.length) })
    | _ => none
  | .called =>
    match s.driver with
    | .calling next => some { s with driver := .call (next + 1) }
    | _ => none
  | .timeout =>
    match s.driver with
    | .waiting _ => some { s with timedOut := true }
    | _ => none
  | .wake i =>
    match s.driver with
    | .waiting pending =>
      if i ∈ pending ∧ (s.timedOut = true ∨ ∃ p ∈ s.parties[i]?, p.tailDone = true) then
        some { s with driver := .waiting (pending.erase i) }
      else none
    | _ => none
  | .wait => if s.driver = .waiting [] then some { s with driver := .returned } else none

/-- The machines of the `B`, with the writers of their relays. -/
def system (machines : List (Bool × Sink UInt8 Err)) : System World Action where
  init := { parties := machines.map fun m => { owned := m.1, w := m.2 } }
  step := step

/-! ## What a relay has written -/

/-- The writes of the relay are those for the first lines of the stream, up to the first write that
failed; the last of these lines may be cut short. When the relay has returned because of the marker,
all of them were written, and the next line ends with the marker. -/
def Faithful (p : Party) : Prop :=
  ∃ lines : List Bytes, p.relay.w = (p.w.putAll (lines.map terminated)).1 ∧
    (lines.flatMap (· ++ [newline])).dropLast <+: p.stream ∧
    ∀ e ∈ p.relay.ended, e.marker = true →
      (p.w.putAll (lines.map terminated)).2 = none ∧
      ∃ last, lines.flatMap (· ++ [newline]) ++ last <+: p.stream ∧ logSyncMarker <:+ dropCR last

structure Party.Inv (p : Party) : Prop where
  scanning : p.relay.ended = none → After p.w p.stream p.relay
  faithful : Faithful p
  printed : p.printed = true → ∃ before header after, newline ∉ header ∧
    p.log = before ++ (header ++ logSyncMarker ++ [newline]) ++ after

/-- The lines of a text up to one of them, and that line, are the beginning of the text. -/
theorem lines_isPrefix {bs : Bytes} {lines rest : List Bytes} {line : Bytes}
    (h : (cut newline bs).lines = lines ++ line :: rest) :
    lines.flatMap (· ++ [newline]) ++ line <+: bs := by
  refine ⟨newline :: (rest.flatMap (· ++ [newline]) ++ (cut newline bs).rest), ?_⟩
  have hjoin := cut_join newline bs
  rw [h] at hjoin
  simpa using hjoin

theorem faithful_of_after {p : Party} (h : After p.w p.stream p.relay) : Faithful p := by
  have hsplit : (cut newline p.stream).lines.takeWhile (Ordinary ·) ++
      (cut newline p.stream).lines.dropWhile (Ordinary ·) = (cut newline p.stream).lines :=
    List.takeWhile_append_dropWhile
  refine ⟨(cut newline p.stream).lines.takeWhile (Ordinary ·), h.written, ?_, ?_⟩
  · have hjoin := cut_join newline p.stream
    rw [← hsplit, List.flatMap_append, List.append_assoc] at hjoin
    exact (List.dropLast_prefix _).trans ⟨_, hjoin⟩
  · intro e he hmarker
    obtain ⟨herr, line, rest, hdrop, hmark⟩ := of_verdict_marker (h.ended.symm.trans he) hmarker
    rw [hdrop] at hsplit
    exact ⟨herr, line, lines_isPrefix hsplit.symm, hmark⟩

/-- The stream goes on after the relay has returned. -/
theorem Faithful.mono {p p' : Party} (h : Faithful p) (hw : p'.w = p.w)
    (hstream : p.stream <+: p'.stream) (hrelay : p'.relay = p.relay) : Faithful p' := by
  obtain ⟨lines, hwritten, hlines, hmarker⟩ := h
  rw [Faithful, hw, hrelay]
  refine ⟨lines, hwritten, hlines.trans hstream, fun e he hm => ?_⟩
  obtain ⟨herr, last, hlast, hmark⟩ := hmarker e he hm
  exact ⟨herr, last, hlast.trans hstream, hmark⟩

/-- The stream ends while the relay scans: what the scanner holds is a last line. -/
theorem faithful_close {p : Party} (h : p.Inv) (e : Err) :
    Faithful { p with relay := p.relay.close e } := by
  cases hrun : p.relay.ended with
  | some e' =>
    have hsame : p.relay.close e = p.relay := by simp [Relay.close, hrun]
    exact h.faithful.mono rfl (List.prefix_refl _) hsame
  | none =>
    have hafter := h.scanning hrun
    obtain ⟨hall, herr, -⟩ := of_verdict_eq_none (hafter.ended ▸ hrun)
    rw [(relayed_of_ordinary hall).1] at herr
    have hw := hafter.written
    rw [(relayed_of_ordinary hall).1] at hw
    have hjoin := cut_join newline p.stream
    rw [← hafter.line hrun] at hjoin
    obtain ⟨e', hended, hcases⟩ := Relay.close_cases hrun e
    rcases hcases with ⟨-, hwritten, hm⟩ | ⟨hmark, hwritten⟩ | ⟨hwritten, hm⟩
    · refine ⟨(cut newline p.stream).lines, hwritten.trans hw, ?_, ?_⟩
      · exact (List.dropLast_prefix _).trans ⟨_, hjoin⟩
      · intro e'' he''
        cases hended.symm.trans he''
        simp [hm]
    · refine ⟨(cut newline p.stream).lines, hwritten.trans hw, ?_, fun _ _ _ => ?_⟩
      · exact (List.dropLast_prefix _).trans ⟨_, hjoin⟩
      · exact ⟨herr, p.relay.line, by rw [hjoin], hmark⟩
    · refine ⟨(cut newline p.stream).lines ++ [p.relay.line], ?_, ?_, ?_⟩
      · rw [List.map_append, Sink.putAll_append_of_ok herr, ← hw]
        exact hwritten.trans (congrArg Prod.fst (putAll_terminated _ _).symm)
      · rw [List.flatMap_append, List.flatMap_singleton, ← List.append_assoc, hjoin,
          List.dropLast_concat]
      · intro e'' he''
        cases hended.symm.trans he''
        simp [hm]

/-- The process prints something, or the machine changes in a way that concerns no log. -/
theorem Party.Inv.print {p p' : Party} (h : p.Inv) {bs : Bytes} (hw : p'.w = p.w)
    (hlog : p'.log = p.log ++ bs) (hstream : p'.stream = p.stream) (hrelay : p'.relay = p.relay)
    (hprinted : p'.printed = true → p.printed = true ∨
      ∃ header, newline ∉ header ∧ bs = header ++ logSyncMarker ++ [newline]) : p'.Inv := by
  refine ⟨fun hrun => ?_, ?_, fun hpr => ?_⟩
  · rw [hrelay] at hrun
    rw [hw, hrelay, hstream]
    exact h.scanning hrun
  · exact h.faithful.mono hw (hstream ▸ List.prefix_refl _) hrelay
  · rcases hprinted hpr with hpr | ⟨header, hheader, rfl⟩
    · obtain ⟨before, header, after, hheader, heq⟩ := h.printed hpr
      exact ⟨before, header, after ++ bs, hheader, by rw [hlog, heq, List.append_assoc]⟩
    · exact ⟨p.log, header, [], hheader, by rw [hlog, List.append_nil]⟩

theorem Party.Inv.receive {p : Party} (h : p.Inv) (bs : Bytes) : (p.receive bs).Inv := by
  cases hbefore : p.relay.ended with
  | some e =>
    have hsame : (p.receive bs).relay = p.relay := Relay.read_of_ended (by simp [hbefore]) _
    refine ⟨fun hrun => ?_, h.faithful.mono rfl (List.prefix_append _ _) hsame, h.printed⟩
    rw [hsame, hbefore] at hrun
    cases hrun
  | none =>
    have hafter : After p.w (p.stream ++ bs) (p.receive bs).relay := (h.scanning hbefore).read bs
    exact ⟨fun _ => hafter, faithful_of_after hafter, h.printed⟩

/-- What every step of a machine keeps. -/
theorem Party.Inv.step {p p' : Party} {a : PartyAction} (h : p.Inv) (hstep : p.step a = some p') :
    p'.Inv ∧ (p.tailDone = true → p'.tailDone = true) := by
  cases a with
  | log bs =>
    simp only [Party.step, Option.ite_none_left_eq_some, Option.some.injEq] at hstep
    obtain ⟨-, rfl⟩ := hstep
    exact ⟨h.print rfl rfl rfl rfl Or.inl, id⟩
  | serve =>
    simp only [Party.step, Option.ite_none_left_eq_some, Option.some.injEq] at hstep
    obtain ⟨-, rfl⟩ := hstep
    exact ⟨h.print rfl (List.append_nil _).symm rfl rfl Or.inl, id⟩
  | print header =>
    simp only [Party.step, Option.ite_none_left_eq_some, Option.some.injEq, not_or] at hstep
    obtain ⟨⟨-, -, hheader⟩, rfl⟩ := hstep
    exact ⟨h.print rfl rfl rfl rfl fun _ => Or.inr ⟨header, hheader, rfl⟩, id⟩
  | exit =>
    simp only [Party.step, Option.ite_none_right_eq_some, Option.some.injEq] at hstep
    obtain ⟨-, rfl⟩ := hstep
    exact ⟨h.print rfl (List.append_nil _).symm rfl rfl Or.inl, id⟩
  | receive bs =>
    simp only [Party.step, Option.ite_none_right_eq_some, Option.some.injEq] at hstep
    obtain ⟨-, rfl⟩ := hstep
    refine ⟨h.receive bs, fun hdone => ?_⟩
    obtain ⟨howned, hended⟩ := Bool.and_eq_true_iff.mp hdone
    have hsame : (p.receive bs).relay = p.relay := Relay.read_of_ended hended _
    rw [Party.tailDone, hsame]
    exact hdone
  | close e =>
    simp only [Party.step, Option.ite_none_right_eq_some, Option.some.injEq] at hstep
    obtain ⟨howned, rfl⟩ := hstep
    have hended : (p.relay.close e).ended.isSome = true := Relay.close_ended _ _
    refine ⟨⟨fun hrun => ?_, faithful_close h e, h.printed⟩, fun _ => ?_⟩
    · rw [show (p.relay.close e).ended = none from hrun] at hended
      cases hended
    · simp [Party.tailDone, howned, hended]
  | refuse e =>
    simp only [Party.step, Option.ite_none_right_eq_some, Option.some.injEq] at hstep
    obtain ⟨⟨howned, hstream, hrun⟩, rfl⟩ := hstep
    refine ⟨⟨fun hrun' => ?_, ?_, h.printed⟩, fun _ => ?_⟩
    · cases hrun'
    · have hafter := h.scanning hrun
      rw [hstream] at hafter
      refine ⟨[], hafter.written, List.nil_prefix, fun e' he' hm => ?_⟩
      cases he'
      cases hm
    · simp [Party.tailDone, howned, Relay.refused]

/-! ## Runs -/

/-- The goroutine for machine `i` has stopped waiting. -/
def DriverPc.Woken : DriverPc → Nat → Prop
  | waiting pending, i => i ∉ pending
  | returned, _ => True
  | idle, _ | call _, _ | calling _, _ => False

structure Inv (s : World) : Prop where
  parties : ∀ p ∈ s.parties, p.Inv
  woken : s.timedOut = false → ∀ i p, s.parties[i]? = some p → s.driver.Woken i → p.tailDone = true

/-- A machine is replaced by one that has the invariant and keeps `tailDone` closed. -/
theorem Inv.set {s : World} (h : Inv s) {i : Nat} {p p' : Party} (hi : s.parties[i]? = some p)
    (hp : p'.Inv) (hdone : p.tailDone = true → p'.tailDone = true) {driver : DriverPc}
    (hwoken : ∀ j, driver.Woken j → s.driver.Woken j) :
    Inv { s with parties := s.parties.set i p', driver := driver } := by
  refine ⟨fun q hq => ?_, fun htime j q hj hw => ?_⟩
  · rcases List.mem_or_eq_of_mem_set hq with hq | rfl
    · exact h.parties q hq
    · exact hp
  · simp only [List.getElem?_set] at hj
    split at hj
    · rename_i hij
      subst hij
      split at hj
      · cases hj
        exact hdone (h.woken htime i p hi (hwoken i hw))
      · cases hj
    · exact h.woken htime j q hj (hwoken j hw)

/-- The driver moves without waking a goroutine whose relay has not returned. -/
theorem Inv.move {s : World} (h : Inv s) {driver : DriverPc} {timedOut : Bool}
    (htimed : timedOut = false → s.timedOut = false)
    (hwoken : timedOut = false → ∀ i p, s.parties[i]? = some p → driver.Woken i →
      s.driver.Woken i ∨ p.tailDone = true) :
    Inv { s with driver := driver, timedOut := timedOut } := by
  refine ⟨h.parties, fun htime i p hi hw => ?_⟩
  rcases hwoken htime i p hi hw with hw | hdone
  · exact h.woken (htimed htime) i p hi hw
  · exact hdone

theorem inv_step {s t : World} {a : Action} (h : Inv s) (hstep : step s a = some t) :
    Inv t := by
  cases a with
  | party i a =>
    obtain ⟨p', hp', rfl⟩ := Option.map_eq_some_iff.mp hstep
    obtain ⟨p, hi, hpstep⟩ := Option.bind_eq_some_iff.mp hp'
    obtain ⟨hinv, hdone⟩ := (h.parties p (List.mem_of_getElem? hi)).step hpstep
    exact h.set hi hinv hdone fun _ => id
  | shutdown =>
    simp only [step, Option.ite_none_right_eq_some, Option.some.injEq] at hstep
    obtain ⟨-, rfl⟩ := hstep
    exact h.move id fun _ _ _ _ => False.elim
  | send =>
    simp only [step] at hstep
    split at hstep
    · cases hstep
      split
      · rename_i p hi
        have hp : Party.Inv { p with requests := p.requests + 1 } :=
          (h.parties p (List.mem_of_getElem? hi)).print rfl (List.append_nil _).symm rfl rfl Or.inl
        refine h.set hi hp id fun _ hw => ?_
        exact False.elim hw
      · refine h.move id fun _ i p hi hw => absurd ?_ hw
        obtain ⟨hlt, -⟩ := List.getElem?_eq_some_iff.mp hi
        exact List.mem_range.mpr hlt
    · cases hstep
  | called =>
    simp only [step] at hstep
    split at hstep
    · cases hstep
      exact h.move id fun _ _ _ _ => False.elim
    · cases hstep
  | timeout =>
    simp only [step] at hstep
    split at hstep
    · cases hstep
      exact h.move (fun htime => nomatch htime) fun htime => nomatch htime
    · cases hstep
  | wake i =>
    simp only [step] at hstep
    split at hstep
    · rename_i pending hdriver
      simp only [Option.ite_none_right_eq_some, Option.some.injEq] at hstep
      obtain ⟨⟨-, hready⟩, rfl⟩ := hstep
      refine h.move id fun htime j q hj hw => ?_
      by_cases hij : j = i
      · subst hij
        obtain ⟨p, hp, hdone⟩ := hready.resolve_left (by simp [htime])
        cases hj.symm.trans hp
        exact Or.inr hdone
      · left
        rw [hdriver]
        exact fun hmem => hw ((List.mem_erase_of_ne hij).mpr hmem)
    · cases hstep
  | wait =>
    simp only [step, Option.ite_none_right_eq_some, Option.some.injEq] at hstep
    obtain ⟨hdriver, rfl⟩ := hstep
    refine h.move id fun _ i p _ _ => Or.inl ?_
    rw [hdriver]
    exact List.not_mem_nil

theorem inv_init (machines : List (Bool × Sink UInt8 Err)) : Inv (system machines).init := by
  refine ⟨fun p hp => ?_, fun _ _ _ _ => False.elim⟩
  obtain ⟨m, -, rfl⟩ := List.mem_map.mp hp
  refine ⟨fun _ => After.start _, faithful_of_after (After.start _), fun h => ?_⟩
  cases h

/-- What every reachable state has. -/
theorem reachable_inv {machines : List (Bool × Sink UInt8 Err)} {tr : List Action} {s : World}
    (h : Steps (system machines) Always (system machines).init tr s) : Inv s :=
  h.invariant (I := Inv) (fun _ _ _ hi _ hstep => inv_step hi hstep) (inv_init machines)

/-- **The marker ends the relay.** When the process of a machine has printed the marker and the
stream has brought all that the process has printed, the relay has returned: no goroutine of
`Shutdown` has to wait for this machine any more. -/
theorem printed_ends_relay (machines : List (Bool × Sink UInt8 Err)) (tr : List Action) (s : World)
    (h : Steps (system machines) Always (system machines).init tr s) :
    ∀ p ∈ s.parties, p.printed = true → p.stream = p.log → p.relay.ended.isSome = true := by
  intro p hp hprinted hstream
  have hinv := (reachable_inv h).parties p hp
  obtain ⟨before, header, after, hheader, hlog⟩ := hinv.printed hprinted
  cases hrun : p.relay.ended with
  | some e => rfl
  | none =>
    have hafter := hinv.scanning hrun
    rw [hstream] at hafter
    obtain ⟨hall, -, -⟩ := of_verdict_eq_none (hafter.ended ▸ hrun)
    have hfree : newline ∉ header ++ logSyncMarker := by
      rw [List.mem_append, not_or]
      exact ⟨hheader, newline_not_mem_logSyncMarker⟩
    have hmem : (cut newline before).rest ++ (header ++ logSyncMarker) ∈
        (cut newline p.log).lines := by
      rw [hlog]
      refine (cut_append_lines _ after).subset ?_
      rw [cut_append_line before hfree]
      simp
    rw [← List.append_assoc] at hmem
    exact absurd (of_decide_eq_true (hall _ hmem)) (not_ordinary_of_marker _)

theorem printed_ends_relay_one_machine :
    ∃ (tr : List Action) (s : World),
      Steps (system [(true, {})]) Always (system [(true, {})]).init tr s ∧
      ∃ p ∈ s.parties, p.printed = true ∧ p.stream = p.log ∧ p.relay.ended.isSome = true := by
  obtain ⟨s, hs, p, hp, hprinted, hstream⟩ := exists_steps (system [(true, {})]) Always
    (system [(true, {})]).init
    [.shutdown, .send, .party 0 .serve, .party 0 (.print []),
      .party 0 (.receive (logSyncMarker ++ [10]))]
    (fun s => ∃ p ∈ s.parties, p.printed = true ∧ p.stream = p.log) (by decide +kernel)
  exact ⟨_, s, hs, p, hp, hprinted, hstream, printed_ends_relay _ _ s hs p hp hprinted hstream⟩

end Bigmachine.Registry.Shutdown
