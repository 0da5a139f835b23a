import Bigmachine.Machine.Loop
import Bigmachine.Supervisor.Environment

/-!
# Bootstrapping a machine

A machine boots with a process whose only task is to receive a binary and execute it. The loop of
an owned machine waits for that process, uploads the binary of the driver together with its
arguments and the environment (`Machine.exec`), asks for the process to be replaced, waits for the
new process, and registers the services with it.

The call of `Supervisor.Exec` never gets a reply when it succeeds, so the loop goes on after an
error of kind `Net`. It does so whichever call of `exec` the error comes from, and whether the
request has taken effect or not: it may be lost, and `syscall.Exec` may fail. When each call before
`Exec` fails only with other errors, and `Exec` takes effect, the machine becomes `Running` with the
process that was asked for: the uploaded binary, with the arguments and the environment of the
driver, and with all services registered (`running_runs_image`). Otherwise it may become `Running`
with the bootstrap process (`running_without_exec`).
-/

namespace Bigmachine.Machine.Bootstrap

open Errors Transition
open Loop (LoopPc Config Outcome)
open Supervisor.Environment (Process Image)

/-! ## The process of the machine -/

/-- The process that serves the address of the machine, the services that the driver has registered
with it, and the file that `Setbinary` has written. The bootstrap process has no `image`. -/
structure Host where
  image : Option Image := none
  environ : List String
  supervisor : Process := {}
  uploaded : Option String := none
  services : List String := []

/-- What the driver gives to the machine: `m.environ` and `os.Args`; and what it finds there: the
environment of the bootstrap process, and the system that it is built for. -/
structure Params where
  cfg : Config
  base : List String
  environ : List String
  args : List String
  goos : String
  goarch : String

/-- The steps of `Machine.exec`: `fatbin.Self`, `self.Stat`, `self.Open`, and the calls. -/
inductive ExecPc
  | self
  | info
  | stat
  | setenv
  | setargs
  | keepalive
  | openBinary
  | setbinary
  | exec
  deriving DecidableEq, Repr

def ExecPc.next : ExecPc → ExecPc
  | self => info
  | info => stat
  | stat => setenv
  | setenv => setargs
  | setargs => keepalive
  | keepalive => openBinary
  | openBinary => setbinary
  | setbinary => exec
  | exec => exec

/-- What a call that takes effect does to the process that serves it; `path` is the temporary file
that `Setbinary` has written. -/
def Host.handle (p : Params) (path : String) (h : Host) : ExecPc → Host
  | .setenv => { h with supervisor := h.supervisor.setenv p.environ }
  | .setargs => { h with supervisor := h.supervisor.setargs p.args }
  | .setbinary => { h with supervisor := h.supervisor.setbinary path, uploaded := some path }
  | .exec =>
    match h.supervisor.exec p.cfg.errors h.environ with
    | .ok image => { image := some image, environ := image.environ, uploaded := h.uploaded }
    | .error _ => h
  | .self | .info | .stat | .keepalive | .openBinary => h

/-! ## The system -/

/-- `state` is the state that the loop has set last. `sent` tells that a request for `Exec` is still
under way. -/
structure World where
  loop : LoopPc := .start
  state : State := .unstarted
  exec : ExecPc := .self
  host : Host
  sent : Bool := false

/-- A step of `exec` returns `r`, and has taken effect or not; a request for `Exec` can do so after
its call has returned. An attempt to register a service is served, whether its call succeeds or
not. -/
inductive Action
  | loop (o : Outcome)
  | exec (effect : Bool) (path : String) (r : Option Err)
  | late
  | register (name : String)
  deriving DecidableEq, Repr

/-- The error of `exec` when the driver has no binary for the machine. -/
def Params.noImage (p : Params) : Err :=
  p.cfg.errors.E [.severity .fatal, .text "no image for ", .text p.goos, .text "/", .text p.goarch]

/-- The result fits the call: a reply needs a request that is served, files have names, there is
no reply to `Exec`, and `exec` makes the error of `self.Stat` itself. -/
def Fits (p : Params) (pc : ExecPc) (effect : Bool) (path : String) (r : Option Err) : Prop :=
  (r = none → effect = true) ∧ path ≠ "" ∧ (pc = .exec → r ≠ none) ∧
    (pc = .stat → ∀ e ∈ r, e = p.noImage)

instance (p : Params) (pc : ExecPc) (effect : Bool) (path : String) (r : Option Err) :
    Decidable (Fits p pc effect path r) :=
  inferInstanceAs (Decidable ((r = none → effect = true) ∧ path ≠ "" ∧ (pc = .exec → r ≠ none) ∧
    (pc = .stat → ∀ e ∈ r, e = p.noImage)))

/-- The services of a call of the loop that returns nil are registered with the current process. -/
def Registered (h : Host) : LoopPc → Outcome → Prop
  | .register (name :: _), .ok => name ∈ h.services
  | _, _ => True

instance (h : Host) : (pc : LoopPc) → (o : Outcome) → Decidable (Registered h pc o)
  | .register (name :: _), .ok => inferInstanceAs (Decidable (name ∈ h.services))
  | .register (_ :: _), .unhealthy | .register (_ :: _), .err _ _ | .register (_ :: _), .ctxDone =>
    isTrue trivial
  | .register [], _ | .start, _ | .bootPing, _ | .exec, _ | .ping, _ | .dialed, _ | .pinging, _
  | .spawn, _ | .setRunning, _ | .keepalive, _ | .saveProfile, _ | .saveExpvars, _ | .select, _
  | .fail _, _ | .stop, _ | .returned, _ | .done, _ => isTrue trivial

/-- The state after a step of the loop with the effect `eff`. -/
@[simp]
def stateAfter (before : State) : Loop.Effect → State
  | .setState st => st
  | .none | .setErr _ | .spawn | .cancel => before

def step (p : Params) (s : World) : Action → Option World
  | .loop o =>
    if s.loop ≠ .exec ∧ Registered s.host s.loop o then
      -- the context of the loop may be done at any time
      (s.loop.next p.cfg true o).map fun n =>
        { s with loop := n.2, state := stateAfter s.state n.1 }
    else none
  | .exec effect path r =>
    if s.loop = .exec ∧ Fits p s.exec effect path r then
      let host := if effect then s.host.handle p path s.exec else s.host
      let sent := decide (s.exec = .exec) && !effect
      match r with
      | none => some { s with host := host, exec := s.exec.next }
      | some e =>
        -- the error of `Keepalive` is only logged
        if s.exec = .keepalive then some { s with host := host, exec := s.exec.next }
        else
          (LoopPc.exec.next p.cfg true (.err e "")).map fun n =>
            { s with host := host, loop := n.2, sent := sent }
    else none
  | .late =>
    if s.sent then some { s with host := s.host.handle p "" .exec, sent := false } else none
  | .register name =>
    match s.loop with
    | .register (n :: _) =>
      if n = name then
        some { s with host := { s.host with services := s.host.services ++ [name] } }
      else none
    | _ => none

def system (p : Params) : System World Action := ⟨{ host := { environ := p.base } }, step p⟩

/-! ## What the calls leave behind -/

def ExecPc.rank : ExecPc → Nat
  | self => 0
  | info => 1
  | stat => 2
  | setenv => 3
  | setargs => 4
  | keepalive => 5
  | openBinary => 6
  | setbinary => 7
  | exec => 8

/-- The bootstrap process, with what the calls before `pc` have set. -/
structure Uploaded (p : Params) (h : Host) (pc : ExecPc) : Prop where
  image : h.image = none
  base : h.environ = p.base
  environ : ExecPc.setenv.rank < pc.rank → h.supervisor.environ = p.environ
  args : ExecPc.setargs.rank < pc.rank → h.supervisor.args = p.args
  binary : ExecPc.setbinary.rank < pc.rank →
    h.supervisor.binaryPath ≠ "" ∧ h.uploaded = some h.supervisor.binaryPath

/-- The process has been replaced by what the driver asked for. -/
def Replaced (p : Params) (h : Host) : Prop :=
  ∃ path, h.uploaded = some path ∧ h.image = some ⟨path, p.args, p.base ++ p.environ⟩

/-- A step of `exec` that returns nil, or that of the keepalive, which may fail. -/
theorem Uploaded.next {p : Params} {h : Host} {pc : ExecPc} (hup : Uploaded p h pc) {path : String}
    (hpath : path ≠ "") (hpc : pc ≠ .exec) {effect : Bool}
    (heffect : effect = true ∨ pc = .keepalive) :
    Uploaded p (if effect then h.handle p path pc else h) pc.next := by
  have hhost : (if effect then h.handle p path pc else h) = h.handle p path pc := by
    rcases heffect with rfl | rfl
    · rfl
    · cases effect <;> rfl
  rw [hhost]
  cases pc with
  | setenv =>
    exact ⟨hup.image, hup.base, fun _ => rfl, fun hlt => absurd hlt (by decide),
      fun hlt => absurd hlt (by decide)⟩
  | setargs =>
    exact ⟨hup.image, hup.base, fun _ => hup.environ (by decide), fun _ => rfl,
      fun hlt => absurd hlt (by decide)⟩
  | setbinary =>
    exact ⟨hup.image, hup.base, fun _ => hup.environ (by decide), fun _ => hup.args (by decide),
      fun _ => ⟨hpath, rfl⟩⟩
  | self | info | stat | keepalive | openBinary =>
    refine ⟨hup.image, hup.base, fun hlt => hup.environ ?_, fun hlt => hup.args ?_,
      fun hlt => hup.binary ?_⟩ <;> revert hlt <;> decide
  | exec => exact absurd rfl hpc

/-- The request for `Exec` takes effect. -/
theorem Uploaded.exec {p : Params} {h : Host} (hup : Uploaded p h .exec) (path : String) :
    Replaced p (h.handle p path .exec) := by
  obtain ⟨hbin, huploaded⟩ := hup.binary (by decide)
  have hexec : h.supervisor.exec p.cfg.errors h.environ =
      .ok ⟨h.supervisor.binaryPath, p.args, p.base ++ p.environ⟩ := by
    rw [Process.exec, hup.environ (by decide), hup.args (by decide), hup.base]
    exact if_neg hbin
  rw [Host.handle, hexec]
  exact ⟨_, huploaded, rfl⟩

/-! ## The loop -/

/-- Where the loop of an owned machine is while the machine is `Running`. -/
def serving : LoopPc → Bool
  | .keepalive | .saveProfile | .saveExpvars | .select | .fail _ | .stop => true
  | _ => false

/-- What holds of the process at each step of the loop, when the process satisfies `R` once `exec`
has returned. -/
def At (p : Params) (R : Host → Prop) (call : ExecPc) (h : Host) : LoopPc → Prop
  | .start | .bootPing => call = .self ∧ Uploaded p h .self
  | .exec => Uploaded p h call
  | .ping => R h
  | .register names => R h ∧ ∀ name ∈ p.cfg.services, name ∈ names ∨ name ∈ h.services
  | .spawn | .setRunning | .keepalive | .saveProfile | .saveExpvars | .select =>
    R h ∧ ∀ name ∈ p.cfg.services, name ∈ h.services
  | .dialed | .pinging => False
  | .fail _ | .stop | .returned | .done => True

theorem at_loop {p : Params} (howner : p.cfg.owner = true) (hexec : p.cfg.noExec = false)
    {R : Host → Prop} {call : ExecPc} {h : Host} {pc pc' : LoopPc} {o : Outcome}
    {eff : Loop.Effect} (hne : pc ≠ .exec) (hreg : Registered h pc o)
    (hnext : pc.next p.cfg true o = some (eff, pc')) (hat : At p R call h pc) :
    At p R call h pc' := by
  match pc, o with
  | .start, .ok =>
    cases hnext
    rw [howner, hexec]
    exact hat
  | .bootPing, .ok =>
    cases hnext
    obtain ⟨rfl, hup⟩ := hat
    exact hup
  | .ping, .ok =>
    cases hnext
    rw [howner]
    exact ⟨hat, fun name hname => Or.inl hname⟩
  | .register [], .ok =>
    cases hnext
    have hall : R h ∧ ∀ name ∈ p.cfg.services, name ∈ h.services :=
      ⟨hat.1, fun name hname => (hat.2 name hname).resolve_left (List.not_mem_nil)⟩
    split <;> exact hall
  | .register (n :: names), .ok =>
    cases hnext
    refine ⟨hat.1, fun name hname => ?_⟩
    rcases hat.2 name hname with hmem | hmem
    · rcases List.mem_cons.mp hmem with rfl | hmem
      · exact Or.inr hreg
      · exact Or.inl hmem
    · exact Or.inr hmem
  | .spawn, .ok | .setRunning, .ok | .keepalive, .ok | .keepalive, .unhealthy | .saveProfile, .ok
  | .saveProfile, .err _ _ | .saveExpvars, .ok | .saveExpvars, .err _ _ | .select, .ok =>
    cases hnext
    exact hat
  | .dialed, .ok | .pinging, .ok | .pinging, .err _ _ => exact hat.elim
  | .bootPing, .err _ _ | .ping, .err _ _ | .register (_ :: _), .err _ _ | .keepalive, .err _ _
  | .select, .ctxDone | .fail _, .ok | .stop, .ok | .returned, .ok =>
    cases hnext
    trivial
  | .exec, _ => exact absurd rfl hne

/-- No request for `Exec` takes effect after its call has failed. -/
def Prompt (_ : World) : Action → Prop
  | .late => False
  | _ => True

/-- Besides, the request for `Exec` takes effect, and the calls before it do not fail with an error
of kind `Net`. -/
def Delivered (p : Params) (s : World) : Action → Prop
  | .exec effect _ r =>
    if s.exec = .exec then effect = true else ∀ e ∈ r, p.cfg.errors.is .net e = false
  | .late => False
  | _ => True

instance (p : Params) (s : World) : (a : Action) → Decidable (Delivered p s a)
  | .exec effect _ r => inferInstanceAs (Decidable
      (if s.exec = .exec then effect = true else ∀ e ∈ r, p.cfg.errors.is .net e = false))
  | .late => isFalse id
  | .loop _ | .register _ => isTrue trivial

theorem step_at {p : Params} (howner : p.cfg.owner = true) (hexec : p.cfg.noExec = false)
    {R : Host → Prop} (hservices : ∀ h services, R h → R { h with services := services })
    {s t : World} {a : Action} (hprompt : a ≠ .late)
    (hend : ∀ effect path e, a = .exec effect path (some e) → p.cfg.errors.is .net e = true →
      s.exec ≠ .keepalive → Uploaded p s.host s.exec →
      R (if effect then s.host.handle p path s.exec else s.host))
    (hstep : step p s a = some t) (hat : At p R s.exec s.host s.loop) :
    At p R t.exec t.host t.loop := by
  cases a with
  | loop o =>
    simp only [step, Option.ite_none_right_eq_some] at hstep
    obtain ⟨⟨hne, hreg⟩, hstep⟩ := hstep
    obtain ⟨⟨eff, pc⟩, hnext, rfl⟩ := Option.map_eq_some_iff.mp hstep
    exact at_loop howner hexec hne hreg hnext hat
  | exec effect path r =>
    simp only [step, Option.ite_none_right_eq_some] at hstep
    obtain ⟨⟨hloop, hfits⟩, hstep⟩ := hstep
    rw [hloop] at hat
    cases r with
    | none =>
      cases hstep
      rw [hloop]
      exact hat.next hfits.2.1 (fun hpc => hfits.2.2.1 hpc rfl) (Or.inl (hfits.1 rfl))
    | some e =>
      dsimp only at hstep
      split at hstep
      · rename_i hkeep
        cases hstep
        rw [hloop]
        exact hat.next hfits.2.1 (by rw [hkeep]; decide) (Or.inr hkeep)
      · rename_i hkeep
        obtain ⟨n, hnext, rfl⟩ := Option.map_eq_some_iff.mp hstep
        cases hnext
        cases hnet : p.cfg.errors.is .net e with
        | true => exact hend effect path e rfl hnet hkeep hat
        | false => trivial
  | late => exact absurd rfl hprompt
  | register name =>
    simp only [step] at hstep
    split at hstep
    · rename_i n names hloop
      simp only [Option.ite_none_right_eq_some, Option.some.injEq] at hstep
      obtain ⟨-, rfl⟩ := hstep
      rw [hloop] at hat ⊢
      refine ⟨hservices _ _ hat.1, fun m hm => ?_⟩
      exact (hat.2 m hm).imp_right fun hmem => List.mem_append_left _ hmem
    · cases hstep

theorem init_at (p : Params) (R : Host → Prop) :
    At p R (system p).init.exec (system p).init.host (system p).init.loop := by
  refine ⟨rfl, ⟨rfl, rfl, ?_, ?_, ?_⟩⟩ <;> exact fun hlt => absurd hlt (by decide)

/-- The loop sets the state to `Running` when the services are registered, and to another one when
it is done. -/
theorem running_loop {p : Params} {R : Host → Prop} {call : ExecPc} {h : Host} {pc pc' : LoopPc}
    {o : Outcome} {eff : Loop.Effect} {st : State}
    (hnext : pc.next p.cfg true o = some (eff, pc')) (hat : At p R call h pc)
    (hi : st = .running → serving pc = true ∧ R h ∧ ∀ name ∈ p.cfg.services, name ∈ h.services) :
    stateAfter st eff = .running →
      serving pc' = true ∧ R h ∧ ∀ name ∈ p.cfg.services, name ∈ h.services := by
  match pc, o with
  | .setRunning, .ok =>
    cases hnext
    exact fun _ => ⟨rfl, hat⟩
  | .dialed, .ok => exact hat.elim
  | .start, .ok | .stop, .ok =>
    cases hnext
    intro hrunning
    cases hrunning
  | .keepalive, .ok | .keepalive, .unhealthy | .keepalive, .err _ _ | .saveProfile, .ok
  | .saveProfile, .err _ _ | .saveExpvars, .ok | .saveExpvars, .err _ _ | .select, .ok
  | .select, .ctxDone | .fail _, .ok =>
    cases hnext
    exact fun hrunning => ⟨rfl, (hi hrunning).2⟩
  | .bootPing, .ok | .bootPing, .err _ _ | .exec, .ok | .exec, .err _ _ | .ping, .ok
  | .ping, .err _ _ | .pinging, .ok | .pinging, .err _ _ | .register [], .ok
  | .register (_ :: _), .ok | .register (_ :: _), .err _ _ | .spawn, .ok | .returned, .ok =>
    cases hnext
    exact fun hrunning => absurd (hi hrunning).1 Bool.false_ne_true

structure Inv (p : Params) (R : Host → Prop) (s : World) : Prop where
  control : At p R s.exec s.host s.loop
  running : s.state = .running →
    serving s.loop = true ∧ R s.host ∧ ∀ name ∈ p.cfg.services, name ∈ s.host.services

/-- The calls of `exec` do not change the state. -/
theorem step_exec_state {p : Params} {s t : World} {effect : Bool} {path : String}
    {r : Option Err} (hstep : step p s (.exec effect path r) = some t) :
    s.loop = .exec ∧ t.state = s.state := by
  simp only [step, Option.ite_none_right_eq_some] at hstep
  obtain ⟨⟨hloop, -⟩, hstep⟩ := hstep
  refine ⟨hloop, ?_⟩
  cases r with
  | none =>
    cases hstep
    rfl
  | some e =>
    dsimp only at hstep
    split at hstep
    · cases hstep
      rfl
    · obtain ⟨n, -, rfl⟩ := Option.map_eq_some_iff.mp hstep
      rfl

/-- Neither `exec` nor a registration is served while the machine is `Running`. -/
theorem Inv.not_running {p : Params} {R : Host → Prop} {s : World} (h : Inv p R s)
    (hloop : serving s.loop = false) : s.state ≠ .running := by
  intro hrunning
  rw [(h.running hrunning).1] at hloop
  cases hloop

theorem inv_step {p : Params} (howner : p.cfg.owner = true) (hexec : p.cfg.noExec = false)
    {R : Host → Prop} (hservices : ∀ h services, R h → R { h with services := services })
    {s t : World} {a : Action} (hprompt : a ≠ .late)
    (hend : ∀ effect path e, a = .exec effect path (some e) → p.cfg.errors.is .net e = true →
      s.exec ≠ .keepalive → Uploaded p s.host s.exec →
      R (if effect then s.host.handle p path s.exec else s.host))
    (hstep : step p s a = some t) (hi : Inv p R s) : Inv p R t := by
  refine ⟨step_at howner hexec hservices hprompt hend hstep hi.control, ?_⟩
  cases a with
  | loop o =>
    simp only [step, Option.ite_none_right_eq_some] at hstep
    obtain ⟨-, hstep⟩ := hstep
    obtain ⟨⟨eff, pc⟩, hnext, rfl⟩ := Option.map_eq_some_iff.mp hstep
    exact running_loop hnext hi.control hi.running
  | exec effect path r =>
    obtain ⟨hloop, hstate⟩ := step_exec_state hstep
    exact fun hrunning => absurd (hstate ▸ hrunning) (hi.not_running (by rw [hloop]; rfl))
  | late => exact absurd rfl hprompt
  | register name =>
    simp only [step] at hstep
    split at hstep
    · rename_i hloop
      simp only [Option.ite_none_right_eq_some, Option.some.injEq] at hstep
      obtain ⟨-, rfl⟩ := hstep
      exact fun hrunning => absurd hrunning (hi.not_running (by rw [hloop]; rfl))
    · cases hstep

theorem inv_init (p : Params) (R : Host → Prop) : Inv p R (system p).init :=
  ⟨init_at p R, fun hrunning => nomatch hrunning⟩

/-- A machine with one service. -/
def reference : Params where
  cfg :=
    { errors := Reference.package
      addr := "https://localhost:4000/"
      owner := true
      noExec := false
      hasSystem := true
      services := ["Svc"]
      keepaliveTimeout := "2m0s"
      keepaliveRpcTimeout := "10s" }
  base := ["HOME=/"]
  environ := ["A=1"]
  args := ["worker"]
  goos := "linux"
  goarch := "amd64"

/-- The connection breaks when the process is replaced. -/
def lostReply : Err := .wrap .net .temporary "" (.text "EOF")

/-- **Bootstrapping.** While the machine is `Running`, all its services are registered with the
process that serves its address, unless a request for `Exec` takes effect late. And when `Exec`
takes effect in time, and no call of `exec` before it fails with an error of kind `Net`, this
process is the file that `Setbinary` has written, run with the arguments of the driver and with the
environment of the machine, the entries of the driver after those of the bootstrap process. -/
theorem running_runs_image (p : Params) (howner : p.cfg.owner = true)
    (hexec : p.cfg.noExec = false) :
    (∀ tr s, Steps (system p) Prompt (system p).init tr s → s.state = .running →
      ∀ name ∈ p.cfg.services, name ∈ s.host.services) ∧
    (∀ tr s, Steps (system p) (Delivered p) (system p).init tr s → s.state = .running →
      (∀ name ∈ p.cfg.services, name ∈ s.host.services) ∧
      ∃ path, s.host.uploaded = some path ∧
        s.host.image = some ⟨path, p.args, p.base ++ p.environ⟩) := by
  constructor
  · intro tr s h hrunning
    have hinv : Inv p (fun _ => True) s := h.invariant (I := Inv p (fun _ => True))
      (fun s a t hi hprompt hstep => inv_step howner hexec (fun _ _ => id)
        (by rintro rfl; exact hprompt) (fun _ _ _ _ _ _ _ => trivial) hstep hi)
      (inv_init p _)
    exact (hinv.running hrunning).2.2
  · intro tr s h hrunning
    have hinv : Inv p (Replaced p) s := by
      refine h.invariant (I := Inv p (Replaced p)) ?_ (inv_init p _)
      intro s a t hi hdelivered hstep
      refine inv_step howner hexec (fun _ _ hr => hr) (by rintro rfl; exact hdelivered) ?_ hstep hi
      rintro effect path e rfl hnet - hup
      simp only [Delivered] at hdelivered
      split at hdelivered
      · rename_i hpc
        rw [hpc] at hup ⊢
        rw [hdelivered, if_pos rfl]
        exact hup.exec path
      · rw [hdelivered e rfl] at hnet
        cases hnet
    exact (hinv.running hrunning).2.symm

/-- One service with one binary, and the reply to `Exec` lost. -/
theorem running_runs_image_one_service :
    ∃ s, Steps (system reference) (Delivered reference) (system reference).init
        ([.loop .ok, .loop .ok] ++ List.replicate 8 (.exec true "/tmp/bin" none) ++
          [.exec true "/tmp/other" (some lostReply), .loop .ok, .register "Svc", .loop .ok,
            .loop .ok, .loop .ok, .loop .ok]) s ∧
      s.state = .running ∧ s.host.uploaded = some "/tmp/bin" ∧ "Svc" ∈ s.host.services ∧
      s.host.image = some ⟨"/tmp/bin", ["worker"], ["HOME=/", "A=1"]⟩ := by
  obtain ⟨s, hs, hrunning, huploaded⟩ := exists_steps (system reference) (Delivered reference)
    (system reference).init
    ([.loop .ok, .loop .ok] ++ List.replicate 8 (.exec true "/tmp/bin" none) ++
      [.exec true "/tmp/other" (some lostReply), .loop .ok, .register "Svc", .loop .ok, .loop .ok,
        .loop .ok, .loop .ok])
    (fun s => s.state = .running ∧ s.host.uploaded = some "/tmp/bin") (by decide +kernel)
  obtain ⟨hservices, path, hpath, himage⟩ :=
    (running_runs_image reference rfl rfl).2 _ s hs hrunning
  cases huploaded.symm.trans hpath
  exact ⟨s, hs, hrunning, huploaded, hservices "Svc" (by decide), himage⟩

/-! ## Errors of kind `Net` before `Exec` -/

/-- The services are registered one after the other. -/
theorem steps_register (p : Params) (names : List String) (s : World)
    (hloop : s.loop = .register names) :
    ∃ tr t, Steps (system p) Prompt s tr t ∧ t.loop = .register [] ∧
      t.host.image = s.host.image := by
  induction names generalizing s with
  | nil => exact ⟨[], s, .nil s, hloop, rfl⟩
  | cons name names ih =>
    let u : World := { s with host := { s.host with services := s.host.services ++ [name] } }
    have hserve : step p s (.register name) = some u := by
      simp [step, hloop, u]
    have hnext : step p u (.loop .ok) = some { u with loop := .register names } := by
      simp [step, hloop, u, Registered, LoopPc.next]
    obtain ⟨tr, t, hsteps, ht, himage⟩ := ih { u with loop := .register names } rfl
    exact ⟨_, t, .cons (a := Action.register name) trivial hserve
      (.cons (a := Action.loop .ok) trivial hnext hsteps), ht, himage⟩

/-- When all services are registered, the machine becomes `Running`. -/
theorem steps_running (p : Params) (s : World) (hloop : s.loop = .register []) :
    ∃ tr t, Steps (system p) Prompt s tr t ∧ t.state = .running ∧ t.loop = .keepalive ∧
      t.host.image = s.host.image := by
  have hrun : step p { s with loop := .setRunning } (.loop .ok) =
      some { s with loop := .keepalive, state := .running } := by
    simp [step, Registered, LoopPc.next]
  cases hsystem : p.cfg.hasSystem with
  | true =>
    have hnext : step p s (.loop .ok) = some { s with loop := .spawn } := by
      simp [step, hloop, Registered, LoopPc.next, hsystem]
    have hspawn : step p { s with loop := .spawn } (.loop .ok) =
        some { s with loop := .setRunning } := by
      simp [step, Registered, LoopPc.next]
    exact ⟨_, _, .cons (a := Action.loop .ok) trivial hnext
      (.cons (a := Action.loop .ok) trivial hspawn
        (.single (a := Action.loop .ok) trivial hrun)), rfl, rfl, rfl⟩
  | false =>
    have hnext : step p s (.loop .ok) = some { s with loop := .setRunning } := by
      simp [step, hloop, Registered, LoopPc.next, hsystem]
    exact ⟨_, _, .cons (a := Action.loop .ok) trivial hnext
      (.single (a := Action.loop .ok) trivial hrun), rfl, rfl, rfl⟩

/-- `exec` can get to the call `pc`, the process being the bootstrap process. -/
def Reachable (p : Params) (pc : ExecPc) : Prop :=
  ∃ tr s, Steps (system p) Prompt (system p).init tr s ∧ s.loop = .exec ∧ s.exec = pc ∧
    s.host.image = none

theorem reachable_self (p : Params) (howner : p.cfg.owner = true) (hexec : p.cfg.noExec = false) :
    Reachable p .self := by
  have hstart : step p (system p).init (.loop .ok) =
      some { (system p).init with loop := .bootPing, state := .starting } := by
    simp [system, step, Registered, LoopPc.next, howner, hexec]
  have hping : step p { (system p).init with loop := .bootPing, state := .starting } (.loop .ok) =
      some { (system p).init with loop := .exec, state := .starting } := by
    simp [system, step, Registered, LoopPc.next]
  exact ⟨_, _, .cons (a := Action.loop .ok) trivial hstart
    (.single (a := Action.loop .ok) trivial hping), rfl, rfl, rfl⟩

theorem Reachable.next {p : Params} {pc : ExecPc} (h : Reachable p pc) (hpc : pc ≠ .exec) :
    Reachable p pc.next := by
  obtain ⟨tr, s, hs, hloop, rfl, himage⟩ := h
  have hstep : step p s (.exec true "bin" none) =
      some { s with host := s.host.handle p "bin" s.exec, exec := s.exec.next } := by
    simp [step, hloop, Fits, hpc]
  refine ⟨_, _, hs.append (.single (a := Action.exec true "bin" none) trivial hstep), hloop,
    rfl, ?_⟩
  cases h : s.exec with
  | exec => exact absurd h hpc
  | self | info | stat | setenv | setargs | keepalive | openBinary | setbinary =>
    simp [Host.handle, himage]

theorem reachable (p : Params) (howner : p.cfg.owner = true) (hexec : p.cfg.noExec = false)
    (call : ExecPc) : Reachable p call := by
  have hself := reachable_self p howner hexec
  have hinfo : Reachable p .info := hself.next (by decide)
  have hstat : Reachable p .stat := hinfo.next (by decide)
  have hsetenv : Reachable p .setenv := hstat.next (by decide)
  have hsetargs : Reachable p .setargs := hsetenv.next (by decide)
  have hkeepalive : Reachable p .keepalive := hsetargs.next (by decide)
  have hopen : Reachable p .openBinary := hkeepalive.next (by decide)
  have hsetbinary : Reachable p .setbinary := hopen.next (by decide)
  have hlast : Reachable p .exec := hsetbinary.next (by decide)
  cases call <;> assumption

/-- **A network error passes for a success.** Whichever step of `exec` fails with an error of kind
`Net` without having taken effect, that of the keepalive apart, the loop goes on as if the process
had been replaced, and the machine can become `Running` with the bootstrap process. -/
theorem running_without_exec (p : Params) (howner : p.cfg.owner = true)
    (hexec : p.cfg.noExec = false) (call : ExecPc) (hcall : call ≠ .keepalive) (e : Err)
    (hstat : call = .stat → e = p.noImage) (hnet : p.cfg.errors.is .net e = true) :
    ∃ tr s tr' t, Steps (system p) Prompt (system p).init tr s ∧ s.loop = .exec ∧ s.exec = call ∧
      Steps (system p) Prompt s (.exec false "bin" (some e) :: tr') t ∧
      t.state = .running ∧ t.loop = .keepalive ∧ t.host.image = none := by
  obtain ⟨tr, s, hs, hloop, rfl, himage⟩ := reachable p howner hexec call
  let u : World := { s with loop := .ping, sent := decide (s.exec = .exec) }
  have hfits : Fits p s.exec false "bin" (some e) := by
    simpa [Fits] using hstat
  have hfail : step p s (.exec false "bin" (some e)) = some u := by
    simp [step, hloop, hfits, hcall, LoopPc.next, hnet, u]
  have hping : step p u (.loop .ok) = some { u with loop := .register p.cfg.services } := by
    simp [step, Registered, LoopPc.next, howner, u]
  obtain ⟨tr₁, v, hregister, hregistered, himage₁⟩ := steps_register p p.cfg.services
    { u with loop := .register p.cfg.services } rfl
  obtain ⟨tr₂, w, hrunning, hstate, hkeepalive, himage₂⟩ := steps_running p v hregistered
  exact ⟨tr, s, _, w, hs, hloop, rfl, .cons (a := Action.exec false "bin" (some e)) trivial hfail
    (.cons (a := Action.loop .ok) trivial hping (hregister.append hrunning)), hstate, hkeepalive,
    himage₂.trans (himage₁.trans himage)⟩

theorem running_without_exec_info :
    ∃ tr s tr' t, Steps (system reference) Prompt (system reference).init tr s ∧
      s.loop = .exec ∧ s.exec = .info ∧
      Steps (system reference) Prompt s (.exec false "bin" (some lostReply) :: tr') t ∧
      t.state = .running ∧ t.loop = .keepalive ∧ t.host.image = none :=
  running_without_exec reference rfl rfl .info (by decide) lostReply (fun h => nomatch h)
    (by decide)

end Bigmachine.Machine.Bootstrap
