import Bigmachine.Machine.State
import Bigmachine.Transition.System

/-!
# The machine goroutines

`Machine.loop` and the `tryMonitorOOMs` goroutine it spawns, as two program counters over
the shared machine. `LoopPc.next` and `MonitorPc.next` are the control flow of the two
goroutines: the next program counter and the one effect of the step on the machine. Every
atomic section of the source is one step; in particular `setError` is two steps (the error
is written, then the state is set), and each `close` after `setState` is a step of its own.

What a step depends on (results of calls, kernel log lines, which goroutine moves) is in
the label. The machine is also used by other goroutines, which call `Wait`, `context` and
the release functions (`Client`) and may cancel the machine at any time.
-/

namespace Bigmachine.Machine.Loop

open Errors Transition

/-- What `loop` reads but does not change: `hasSystem` is `system != nil`, the services are in the
order in which `range m.services` gives them, and the timeouts are as `%s` prints them. -/
structure Config where
  errors : Package
  addr : String
  owner : Bool
  noExec : Bool
  hasSystem : Bool
  services : List String
  keepaliveTimeout : String
  keepaliveRpcTimeout : String

/-! ## Control flow -/

/-- Where `loop` is. `bootPing` is the ping of the machine as the system started it. `dialed` and
`setRunning` are `m.setState(Running)`, of a machine that is not owned and of one that is, and
`spawn` starts `m.tryMonitorOOMs`. `fail` and `stop` are the two statements of `setError`. In
`returned` the caller of `loop` has still to cancel the context. -/
inductive LoopPc
  | start
  | bootPing
  | exec
  | ping
  | dialed
  | pinging
  | register (names : List String)
  | spawn
  | setRunning
  | keepalive
  | saveProfile
  | saveExpvars
  | select
  | fail (e : Err)
  | stop
  | returned
  | done
  deriving DecidableEq, Repr

inductive MonitorPc
  | idle -- not spawned
  | getpid
  | read (pid : Nat)
  | scan (pid : Nat)
  | fail (pid : Nat)
  | stop (pid : Nat)
  | done
  deriving DecidableEq, Repr

/-- What the environment gives to one step of `loop`. It is `ok` when the call returns nil, when
the timer fires, and when the step depends on nothing; `unhealthy` when `Supervisor.Keepalive`
returns nil and an unhealthy reply; `err` when the call fails with `e` after `elapsed`; and
`ctxDone` when the `select` takes the case of the context. -/
inductive Outcome
  | ok
  | unhealthy
  | err (e : Err) (elapsed : String)
  | ctxDone
  deriving DecidableEq, Repr

inductive MonitorOutcome
  | pid (n : Nat)
  | ok
  | line (text : String)
  | err (e : Err)
  | eof -- `scan.Scan()` returned false
  deriving DecidableEq, Repr

/-- The effect of one step on the machine. -/
inductive Effect
  | none
  | setState (s : State)
  | setErr (e : Err)
  | spawn
  | cancel
  deriving DecidableEq, Repr

/-- The error of `m.errorf` in the two keepalive loops. -/
def Config.failed (cfg : Config) (what elapsed : String) (e : Err) : Err :=
  .text (what ++ " failed after " ++ elapsed ++ " (timeout=" ++ cfg.keepaliveTimeout ++
    ", rpc timeout=" ++ cfg.keepaliveRpcTimeout ++ "): " ++ cfg.errors.errorText e)

/-- `none` when the outcome does not fit the step. `canceled` tells whether the context
of the loop is done. -/
def LoopPc.next (cfg : Config) (canceled : Bool) : LoopPc → Outcome → Option (Effect × LoopPc)
  | start, .ok => some (.setState .starting, if cfg.owner && !cfg.noExec then bootPing else ping)
  | bootPing, .ok => some (.none, exec)
  | bootPing, .err e _ => some (.none, fail e)
  | exec, .ok => some (.none, ping)
  | exec, .err e _ => some (.none, if cfg.errors.is .net e then ping else fail e)
  | ping, .ok => some (.none, if cfg.owner then register cfg.services else dialed)
  | ping, .err e _ => some (.none, fail e)
  | dialed, .ok => some (.setState .running, pinging)
  | pinging, .ok => some (.none, pinging)
  | pinging, .err e elapsed => some (.none, fail (cfg.failed "ping" elapsed e))
  | register [], .ok => some (.none, if cfg.hasSystem then spawn else setRunning)
  | register (_ :: names), .ok => some (.none, register names)
  | register (name :: _), .err e _ =>
    some (.none, fail (cfg.errors.E [.err e, .text ("Supervisor.Register " ++ name)]))
  | spawn, .ok => some (.spawn, setRunning)
  | setRunning, .ok => some (.setState .running, keepalive)
  | keepalive, .ok => some (.none, select)
  | keepalive, .unhealthy => some (.none, saveProfile)
  | keepalive, .err e elapsed => some (.none, fail (cfg.failed "keepalive" elapsed e))
  -- errors of the two dumps are only logged
  | saveProfile, .ok | saveProfile, .err _ _ => some (.none, saveExpvars)
  | saveExpvars, .ok | saveExpvars, .err _ _ => some (.none, select)
  | select, .ok => some (.none, keepalive)
  | select, .ctxDone => if canceled then some (.none, fail (.ctx .canceled)) else none
  | fail e, .ok => some (.setErr e, stop)
  | stop, .ok => some (.setState .stopped, returned)
  | returned, .ok => some (.cancel, done)
  | _, _ => none

/-- The text that marks an out-of-memory kill of the supervised process. -/
def look (pid : Nat) : String := "Out of memory: Kill process " ++ toString pid

/-- `strings.Contains`. -/
def contains (text part : String) : Bool := decide (part.toList <:+: text.toList)

def oomError (P : Package) : Err :=
  P.E [.kind .oom, .text "bigmachine process killed by the kernel"]

def MonitorPc.next (cfg : Config) : MonitorPc → MonitorOutcome → Option (Effect × MonitorPc)
  | getpid, .pid n => some (.none, read n)
  | getpid, .err _ => some (.none, done)
  | read pid, .ok => some (.none, scan pid)
  | read _, .err _ => some (.none, done)
  | scan pid, .line text => some (.none, if contains text (look pid) then fail pid else scan pid)
  | scan _, .eof => some (.none, done)
  | fail pid, .ok => some (.setErr (oomError cfg.errors), stop pid)
  -- the scan goes on after an out-of-memory kill was found
  | stop pid, .ok => some (.setState .stopped, scan pid)
  | _, _ => none

/-! ## The system -/

/-- A goroutine: its program counter, and the channels its last `setState` has still to
close. -/
structure Goroutine (α : Type) where
  pc : α
  closes : List Chan := []

/-- What other goroutines do to the machine. -/
inductive Client
  | wait (s : State)
  | context (parent : Option CtxErr)
  | release (c : Ctx)
  deriving DecidableEq, Repr

def Client.apply (m : Machine) : Client → Machine
  | wait s => (m.wait s).1
  | context parent => (m.context parent).1
  | release c => m.release c

structure World where
  m : Machine := {}
  loop : Goroutine LoopPc := ⟨.start, []⟩
  monitor : Goroutine MonitorPc := ⟨.idle, []⟩
  canceled : Bool := false -- the context of the loop is done

inductive Action
  | loop (o : Outcome)
  | loopClose
  | monitor (o : MonitorOutcome)
  | monitorClose
  | cancel -- `Machine.Cancel`
  | client (op : Client)
  deriving DecidableEq, Repr

def World.apply (w : World) : Effect → World × List Chan
  | .none => (w, [])
  | .setState s => ({ w with m := (w.m.setState s).1 }, (w.m.setState s).2)
  | .setErr e => ({ w with m := w.m.setErr e }, [])
  | .spawn => ({ w with monitor := ⟨.getpid, []⟩ }, [])
  | .cancel => ({ w with canceled := true }, [])

def step (cfg : Config) (w : World) : Action → Option World
  | .loop o =>
    if w.loop.closes = [] then
      (w.loop.pc.next cfg w.canceled o).map fun (eff, pc) =>
        { (w.apply eff).1 with loop := ⟨pc, (w.apply eff).2⟩ }
    else none
  | .loopClose =>
    match w.loop.closes with
    | [] => none
    | c :: cs => some { w with m := w.m.close c, loop := ⟨w.loop.pc, cs⟩ }
  | .monitor o =>
    if w.monitor.closes = [] then
      (w.monitor.pc.next cfg o).map fun (eff, pc) =>
        { (w.apply eff).1 with monitor := ⟨pc, (w.apply eff).2⟩ }
    else none
  | .monitorClose =>
    match w.monitor.closes with
    | [] => none
    | c :: cs => some { w with m := w.m.close c, monitor := ⟨w.monitor.pc, cs⟩ }
  | .cancel => some { w with canceled := true }
  | .client op => some { w with m := op.apply w.m }

def system (cfg : Config) : System World Action := ⟨{}, step cfg⟩

/-! ## What a step can do -/

theorem step_cases {cfg : Config} {w w' : World} {a : Action} (h : step cfg w a = some w') :
    (∃ o eff pc, a = .loop o ∧ w.loop.closes = [] ∧
      w.loop.pc.next cfg w.canceled o = some (eff, pc) ∧
      w' = { (w.apply eff).1 with loop := ⟨pc, (w.apply eff).2⟩ }) ∨
    (∃ o eff pc, a = .monitor o ∧ w.monitor.closes = [] ∧
      w.monitor.pc.next cfg o = some (eff, pc) ∧
      w' = { (w.apply eff).1 with monitor := ⟨pc, (w.apply eff).2⟩ }) ∨
    (∃ c cs, a = .loopClose ∧ w' = { w with m := w.m.close c, loop := ⟨w.loop.pc, cs⟩ }) ∨
    (∃ c cs, a = .monitorClose ∧
      w' = { w with m := w.m.close c, monitor := ⟨w.monitor.pc, cs⟩ }) ∨
    (a = .cancel ∧ w' = { w with canceled := true }) ∨
    (∃ op, a = .client op ∧ w' = { w with m := op.apply w.m }) := by
  cases a with
  | loop o =>
    simp only [step] at h
    split at h
    · rename_i hc
      obtain ⟨⟨eff, pc⟩, hn, rfl⟩ := Option.map_eq_some_iff.mp h
      exact Or.inl ⟨o, eff, pc, rfl, hc, hn, rfl⟩
    · cases h
  | monitor o =>
    simp only [step] at h
    split at h
    · rename_i hc
      obtain ⟨⟨eff, pc⟩, hn, rfl⟩ := Option.map_eq_some_iff.mp h
      exact Or.inr (Or.inl ⟨o, eff, pc, rfl, hc, hn, rfl⟩)
    · cases h
  | loopClose =>
    simp only [step] at h
    split at h
    · cases h
    · rename_i c cs _
      exact Or.inr (Or.inr (Or.inl ⟨c, cs, rfl, (Option.some.inj h).symm⟩))
  | monitorClose =>
    simp only [step] at h
    split at h
    · cases h
    · rename_i c cs _
      exact Or.inr (Or.inr (Or.inr (Or.inl ⟨c, cs, rfl, (Option.some.inj h).symm⟩)))
  | cancel =>
    exact Or.inr (Or.inr (Or.inr (Or.inr (Or.inl ⟨rfl, (Option.some.inj h).symm⟩))))
  | client op =>
    exact Or.inr (Or.inr (Or.inr (Or.inr (Or.inr ⟨op, rfl, (Option.some.inj h).symm⟩))))

/-- The loop has made its `setState(Running)` call or will never make it. -/
def LoopPc.beyond : LoopPc → Bool
  | start | bootPing | exec | ping | dialed | register _ | spawn | setRunning => false
  | _ => true

/-- The goroutine is about to set `Stopped`, or to write the error of the machine. -/
def MonitorPc.stopping : MonitorPc → Bool
  | stop _ => true
  | _ => false

def MonitorPc.failing : MonitorPc → Bool
  | fail _ => true
  | _ => false

def LoopPc.failing : LoopPc → Bool
  | fail _ => true
  | _ => false

/-- The steps of the loop that set the state. -/
theorem LoopPc.next_setState {cfg : Config} {c : Bool} {pc pc' : LoopPc} {o : Outcome}
    {s : State} (h : pc.next cfg c o = some (.setState s, pc')) :
    (pc = .start ∧ s = .starting ∧ pc' ≠ .start ∧ pc'.beyond = false) ∨
      (pc.beyond = false ∧ s = .running ∧ pc'.beyond = true) ∨
      (pc = .stop ∧ s = .stopped ∧ pc' = .returned) := by
  unfold LoopPc.next at h
  split at h <;> first | cases h | (split at h <;> cases h)
  case h_1 => left; split_ifs <;> simp [LoopPc.beyond]
  all_goals simp [LoopPc.beyond]

theorem LoopPc.next_setErr {cfg : Config} {c : Bool} {pc pc' : LoopPc} {o : Outcome}
    {e : Err} (h : pc.next cfg c o = some (.setErr e, pc')) : pc = .fail e ∧ pc' = .stop := by
  unfold LoopPc.next at h
  split at h <;> first | cases h | (split at h <;> cases h)
  exact ⟨rfl, rfl⟩

/-- After its first step the loop is never at its start again, and it does not go back
before its `setState(Running)` call. -/
theorem LoopPc.next_forward {cfg : Config} {c : Bool} {pc pc' : LoopPc} {o : Outcome}
    {eff : Effect} (h : pc.next cfg c o = some (eff, pc')) :
    pc' ≠ .start ∧ (pc.beyond = true → pc'.beyond = true) := by
  unfold LoopPc.next at h
  split at h <;> first | cases h | (split at h <;> cases h)
  all_goals try split_ifs
  all_goals simp [LoopPc.beyond]

/-- The state is set to `Stopped` only by a goroutine that has written the error. -/
theorem LoopPc.next_stop {cfg : Config} {c : Bool} {pc pc' : LoopPc} {o : Outcome}
    {eff : Effect} (h : pc.next cfg c o = some (eff, pc')) (hstop : pc' = .stop) :
    ∃ e, eff = .setErr e := by
  subst hstop
  unfold LoopPc.next at h
  split at h <;> simp only [Option.some.injEq, Prod.mk.injEq, reduceCtorEq, and_false, and_true,
    Option.ite_none_right_eq_some] at h
  all_goals first | (split_ifs at h <;> simp at h) | exact ⟨_, h.symm⟩

theorem MonitorPc.next_cases {cfg : Config} {pc pc' : MonitorPc} {o : MonitorOutcome}
    {eff : Effect} (h : pc.next cfg o = some (eff, pc')) :
    (eff = .none ∧ pc ≠ .idle ∧ ∀ pid, pc' ≠ .stop pid) ∨
      (∃ pid, pc = .fail pid ∧ eff = .setErr (oomError cfg.errors) ∧ pc' = .stop pid) ∨
      (∃ pid, pc = .stop pid ∧ eff = .setState .stopped ∧ pc' = .scan pid) := by
  unfold MonitorPc.next at h
  split at h <;> cases h
  all_goals try split_ifs
  all_goals simp

theorem Client.apply_spec (op : Client) (m : Machine) :
    (op.apply m).state = m.state ∧ (op.apply m).err = m.err ∧
      (op.apply m).history = m.history := by
  cases op <;> simp [Client.apply, Machine.release]

end Bigmachine.Machine.Loop
