import Bigmachine.Machine.Loop

/-!
# Calls on a machine

`Machine.Call`, with `Machine.RetryCall` around it, as one more goroutine beside the loop
and the monitor. A plain `Call` is the part of a run up to its `returned` program counter.

The RPC itself is a parameter: it returns whatever the label says, except that it returns
one of the two bare context errors only when its context is done with that error
(`Finishes`). The caller's context may end at any time; the derived context of the call
sees that in a later step (`Label.propagate`).

The last section says what a step of the machine's own goroutines can do to a call: a
stopped machine stays stopped once the loop is beyond its `setState(Running)`, and a
derived context ends only because the machine is stopped.
-/

namespace Bigmachine.Machine.Call

open Errors Transition
open Loop (World Config)

/-! ## The call -/

/-- Where a `Call`, or the `RetryCall` around it, is. `poll` is the `switch` on `m.State()`,
`derive` is `m.context(ctx)`, `compare` is `err == nil || err != ctxCall.Err()`, and `recheck` is
`m.State() != Stopped`. `stopped` is `case Stopped`, with the context when it was fallen into;
`wait` is `m.Wait(Running)`, and `leave` is the deferred release of the derived context. `backoff`
is `retry.Wait`, and `finished` is the return of `RetryCall`. -/
inductive Pc
  | poll
  | derive
  | issue (c : Ctx)
  | inFlight (c : Ctx)
  | compare (c : Ctx) (r : Option Err)
  | recheck (c : Ctx) (e : Err)
  | stopped (c : Option Ctx)
  | wait
  | select (ch : Chan)
  | leave (c : Ctx) (r : Option Err)
  | returned (r : Option Err)
  | backoff
  | finished (r : Option Err)
  deriving DecidableEq, Repr

/-- What the environment gives to one step of the call: the result of the RPC, or the case that the
`select` has taken, that of the context (`ctxDone`) or that of the machine (`reached`). -/
inductive Input
  | go
  | rpc (r : Option Err)
  | ctxDone
  | reached
  | waited
  | waitErr (e : Err)
  deriving DecidableEq, Repr

/-- `caller` is the error of the caller's context. The ghost fields `observed`, `issued` and
`result` are about the current `Call`: that it has seen the state `Running`, the number of RPCs it
has issued, and what its RPC returned. `rpcs` counts those of all `Call`s of the `RetryCall`. -/
structure Calling where
  w : World := {}
  pc : Pc := .poll
  caller : Option CtxErr := none
  observed : Bool := false
  issued : Nat := 0
  result : Option (Option Err) := none
  rpcs : Nat := 0

/-- The RPC on the derived context `c` may return `r`. -/
def Finishes (m : Machine) (c : Ctx) : Option Err → Prop
  | some (.ctx e) => (m.ctxs c).err = some e
  | _ => True

instance (m : Machine) (c : Ctx) : (r : Option Err) → Decidable (Finishes m c r)
  | some (.ctx _) => inferInstanceAs (Decidable (_ = _))
  | none | some .eof | some (.text _) | some (.leaf _ _ _) | some (.wrap _ _ _ _) => isTrue trivial

/-- The error of a call on a stopped machine. -/
def stoppedError (cfg : Config) (m : Machine) : Err :=
  let msg := "machine " ++ cfg.addr ++ " stopped"
  match m.err with
  | some e => cfg.errors.E [.severity .fatal, .kind .unavailable, .text msg, .err e]
  | none => cfg.errors.E [.severity .fatal, .kind .unavailable, .text msg]

def advance (cfg : Config) (s : Calling) : Pc → Input → Option Calling
  | .poll, .go =>
    match s.w.m.state with
    | .running => some { s with pc := .derive, observed := true }
    | .stopped => some { s with pc := .stopped none }
    | .unstarted | .starting => some { s with pc := .wait }
  | .derive, .go =>
    let d := s.w.m.context s.caller
    some { s with w := { s.w with m := d.1 }, pc := .issue d.2 }
  | .issue c, .go =>
    some { s with pc := .inFlight c, issued := s.issued + 1, rpcs := s.rpcs + 1 }
  | .inFlight c, .rpc r =>
    if Finishes s.w.m c r then some { s with pc := .compare c r, result := some r } else none
  | .compare c none, .go => some { s with pc := .leave c none }
  | .compare c (some e), .go =>
    if (s.w.m.ctxs c).err.map .ctx = some e then some { s with pc := .recheck c e }
    else some { s with pc := .leave c (some e) }
  | .recheck c e, .go =>
    if s.w.m.state = .stopped then some { s with pc := .stopped (some c) }
    else some { s with pc := .leave c (some e) }
  | .stopped (some c), .go => some { s with pc := .leave c (some (stoppedError cfg s.w.m)) }
  | .stopped none, .go => some { s with pc := .returned (some (stoppedError cfg s.w.m)) }
  | .wait, .go =>
    let d := s.w.m.wait .running
    some { s with w := { s.w with m := d.1 }, pc := .select d.2 }
  | .select ch, .reached => if ch ∈ s.w.m.closed then some { s with pc := .poll } else none
  | .select _, .ctxDone => s.caller.map fun e => { s with pc := .returned (some (.ctx e)) }
  | .leave c r, .go => some { s with w := { s.w with m := s.w.m.release c }, pc := .returned r }
  | .returned none, .go => some { s with pc := .finished none }
  | .returned (some e), .go =>
    if cfg.errors.isTemporary e then some { s with pc := .backoff }
    else some { s with pc := .finished (some e) }
  | .backoff, .waited => some { s with pc := .poll, observed := false, issued := 0, result := none }
  | .backoff, .waitErr e =>
    some { s with pc := .finished (some (cfg.errors.E [.severity .fatal, .err e])) }
  | _, _ => none

/-! ## The system -/

/-- `machine` is a step of the machine's goroutines or of its other users. The end of the caller's
context (`callerDone`) reaches the derived one later (`propagate`). -/
inductive Label
  | machine (a : Loop.Action)
  | callerDone (e : CtxErr)
  | propagate
  | call (i : Input)
  deriving DecidableEq, Repr

/-- The derived context that the call holds. -/
def Pc.ctx : Pc → Option Ctx
  | issue c | inFlight c | compare c _ | recheck c _ | leave c _ => some c
  | stopped c => c
  | _ => none

/-- The release function of the call's own context is called by the call alone. -/
def Foreign (pc : Pc) : Loop.Action → Prop
  | .client (.release c) => pc.ctx ≠ some c
  | _ => True

instance (pc : Pc) : (a : Loop.Action) → Decidable (Foreign pc a)
  | .client (.release _) => inferInstanceAs (Decidable (_ ≠ _))
  | .client (.wait _) | .client (.context _) | .loop _ | .loopClose | .monitor _ | .monitorClose
  | .cancel => isTrue trivial

def step (cfg : Config) (s : Calling) : Label → Option Calling
  | .machine a =>
    if Foreign s.pc a then (Loop.step cfg s.w a).map fun w => { s with w := w } else none
  | .callerDone e => some { s with caller := some (s.caller.getD e) }
  | .propagate =>
    match s.caller, s.pc.ctx with
    | some e, some c => some { s with w := { s.w with m := s.w.m.parentDone c e } }
    | _, _ => none
  | .call i => advance cfg s s.pc i

def system (cfg : Config) : System Calling Label := ⟨{}, step cfg⟩

/-! ## What the machine's goroutines do to a call -/

/-- Once the loop is beyond its `setState(Running)`, it stays so, and a stopped machine
stays stopped. -/
theorem loop_step_beyond {cfg : Config} {w w' : World} {a : Loop.Action}
    (h : Loop.step cfg w a = some w') (hb : w.loop.pc.beyond = true) :
    w'.loop.pc.beyond = true ∧ (w.m.state = .stopped → w'.m.state = .stopped) := by
  obtain ⟨o, eff, pc, -, -, hn, rfl⟩ | ⟨o, eff, pc, -, -, hn, rfl⟩ | ⟨c, cs, -, rfl⟩ |
    ⟨c, cs, -, rfl⟩ | ⟨-, rfl⟩ | ⟨op, -, rfl⟩ := Loop.step_cases h
  · refine ⟨(Loop.LoopPc.next_forward hn).2 hb, ?_⟩
    intro hs
    cases eff with
    | setState s =>
      rcases Loop.LoopPc.next_setState hn with ⟨hpc, -, -⟩ | ⟨hpc, -, -⟩ | ⟨-, rfl, -⟩
      · rw [hpc] at hb
        cases hb
      · rw [hpc] at hb
        cases hb
      · exact setState_state _ _
    | none | setErr e | spawn | cancel => exact hs
  · obtain ⟨rfl, -, -⟩ | ⟨pid, -, rfl, rfl⟩ | ⟨pid, -, rfl, rfl⟩ := Loop.MonitorPc.next_cases hn
    · exact ⟨hb, id⟩
    · exact ⟨hb, id⟩
    · exact ⟨hb, fun _ => setState_state _ _⟩
  · exact ⟨hb, id⟩
  · exact ⟨hb, id⟩
  · exact ⟨hb, id⟩
  · have hstate : (op.apply w.m).state = w.m.state := (op.apply_spec w.m).1
    exact ⟨hb, hstate.trans⟩

/-- A machine that is `Running` has a loop beyond its `setState(Running)`. -/
def Settled (w : World) : Prop := w.m.state = .running → w.loop.pc.beyond = true

theorem loop_step_settled {cfg : Config} {w w' : World} {a : Loop.Action}
    (h : Loop.step cfg w a = some w') (hw : Settled w) : Settled w' := by
  intro hr
  obtain ⟨o, eff, pc, -, -, hn, rfl⟩ | ⟨o, eff, pc, -, -, hn, rfl⟩ | ⟨c, cs, -, rfl⟩ |
    ⟨c, cs, -, rfl⟩ | ⟨-, rfl⟩ | ⟨op, -, rfl⟩ := Loop.step_cases h
  · cases eff with
    | setState s =>
      simp only [World.apply, setState_state] at hr
      rcases Loop.LoopPc.next_setState hn with ⟨-, hs, -⟩ | ⟨-, -, hb⟩ | ⟨-, hs, -⟩
      · rw [hs] at hr
        cases hr
      · exact hb
      · rw [hs] at hr
        cases hr
    | none | setErr e | spawn | cancel => exact (Loop.LoopPc.next_forward hn).2 (hw hr)
  · obtain ⟨rfl, -, -⟩ | ⟨pid, -, rfl, rfl⟩ | ⟨pid, -, rfl, rfl⟩ := Loop.MonitorPc.next_cases hn
    · exact hw hr
    · exact hw hr
    · simp only [World.apply, setState_state] at hr
      cases hr
  · exact hw hr
  · exact hw hr
  · exact hw hr
  · have hstate : (op.apply w.m).state = w.m.state := (op.apply_spec w.m).1
    exact hw (hstate.symm.trans hr)

/-- Between the two machines a context keeps its error, or ends because the machine is
stopped. -/
structure CtxKept (m m' : Machine) : Prop where
  nextCtx : m.nextCtx ≤ m'.nextCtx
  err : ∀ c < m.nextCtx, (m'.ctxs c).err = (m.ctxs c).err ∨
    ((m.ctxs c).err = none ∧ m'.state = .stopped)

theorem CtxKept.of_eq {m m' : Machine} (hn : m'.nextCtx = m.nextCtx) (hc : m'.ctxs = m.ctxs) :
    CtxKept m m' :=
  ⟨hn.ge, fun c _ => Or.inl (by rw [hc])⟩

theorem apply_ctxKept (w : World) (eff : Loop.Effect) : CtxKept w.m (w.apply eff).1.m := by
  cases eff with
  | setState s =>
    refine ⟨(setState_nextCtx w.m s).ge, ?_⟩
    intro c _
    have herr := setState_ctx_err w.m s c
    simpa only [World.apply, setState_state] using herr
  | none | setErr e | spawn | cancel => exact CtxKept.of_eq rfl rfl

theorem client_ctxKept (m : Machine) (op : Loop.Client) : CtxKept m (op.apply m) := by
  cases op with
  | wait s => exact CtxKept.of_eq (wait_nextCtx m s) (wait_ctxs m s)
  | context p =>
    refine ⟨(Nat.le_succ _).trans (context_nextCtx m p).ge, ?_⟩
    intro c hc
    left
    rw [Loop.Client.apply, context_ctxs_of_lt p hc]
  | release c => exact CtxKept.of_eq rfl rfl

theorem loop_step_ctxKept {cfg : Config} {w w' : World} {a : Loop.Action}
    (h : Loop.step cfg w a = some w') : CtxKept w.m w'.m := by
  obtain ⟨o, eff, pc, -, -, -, rfl⟩ | ⟨o, eff, pc, -, -, -, rfl⟩ | ⟨c, cs, -, rfl⟩ |
    ⟨c, cs, -, rfl⟩ | ⟨-, rfl⟩ | ⟨op, -, rfl⟩ := Loop.step_cases h
  · exact apply_ctxKept w eff
  · exact apply_ctxKept w eff
  · exact CtxKept.of_eq rfl rfl
  · exact CtxKept.of_eq rfl rfl
  · exact CtxKept.of_eq rfl rfl
  · exact client_ctxKept w.m op

end Bigmachine.Machine.Call
