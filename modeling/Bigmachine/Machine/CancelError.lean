import Bigmachine.Machine.Lifecycle
import Bigmachine.Machine.RetryCall
import Bigmachine.Rpc.Classification

/-!
# The error of a canceled machine

`Machine.Cancel` is documented to stop the machine with an error of `context.Canceled`. The
canceled context reaches `loop` through whatever `loop` is doing: a call that is cut short, the
wait of `retryCall` after it, or the `select` of the keepalive loop. The pings before the
machine is running, the registration of services and the `select` keep the error. The keepalive
and the ping loop do not, `errorf` makes a text of it; and `exec` does not when the reply of one
of its calls is cut, which makes an error of kind `Invalid` (`canceled_iff`).
-/

namespace Bigmachine.Machine.Loop

open Errors Transition RetryCall Rpc

/-- The error is `context.Canceled`, or an `*errors.Error` of kind `Canceled` that wraps it. -/
def IsCanceled (e : Err) : Prop :=
  e = .ctx .canceled ∨ e.IsError ∧ e.kind = .canceled ∧ e.Wraps (.ctx .canceled)

/-! ## Calls that are cut -/

/-- The error of a call that would have succeeded, had its context not been canceled: either the
POST returns the error of the context, or the body of the reply ends with it. -/
def CanceledCall (P : Package) (e : Err) : Prop :=
  ∃ (T V : Type) (wire : Transport.Decoders T V) (rpcPrefix addr serviceMethod : String)
    (post : Request → Except Err Transport.Arrival) (arg : Client.CallArg V)
    (target : Client.ReplyTarget T) (body : Bytes),
    Transport.requestBody wire.toWire arg = .ok body ∧
    (post ⟨"POST", Client.url rpcPrefix addr serviceMethod, body⟩ = .error (.ctx .canceled) ∨
      ∃ resp, post ⟨"POST", Client.url rpcPrefix addr serviceMethod, body⟩ = .ok resp ∧
        resp.status = 200 ∧ resp.body.err = .ctx .canceled) ∧
    (Transport.call P wire rpcPrefix post addr serviceMethod arg target).result = .error e

theorem CanceledCall.cases {P : Package} {e : Err} (h : CanceledCall P e) :
    e = .ctx .canceled ∨
      ∃ text err, e = P.E [.kind .invalid, .severity .temporary, .text text, .err err] := by
  obtain ⟨T, V, wire, rpcPrefix, addr, serviceMethod, post, arg, target, body, hbody, hpost,
    hcall⟩ := h
  obtain ⟨err, herr, -⟩ | ⟨n, body', hbody', hsend⟩ :=
    Transport.call_cases P wire rpcPrefix post addr serviceMethod arg target
  · rw [hbody] at herr
    cases herr
  · obtain rfl : body = body' := Except.ok.inj (hbody.symm.trans hbody')
    rw [hsend] at hcall
    obtain ⟨c, hp, hs⟩ | ⟨err, hp, hne, -⟩ | ⟨resp, hp, hs⟩ := Transport.send_cases P wire
      (Client.url rpcPrefix addr serviceMethod) serviceMethod post target n body
    · rw [hs] at hcall
      cases hcall
      rcases hpost with hpost | ⟨resp, hpost, -⟩ <;> rw [hp] at hpost <;> cases hpost
      exact Or.inl rfl
    · rcases hpost with hpost | ⟨resp, hpost, -⟩ <;> rw [hp] at hpost <;> cases hpost
      exact absurd rfl (hne _)
    · rcases hpost with hpost | ⟨resp', hpost, hstatus, -⟩ <;> rw [hp] at hpost <;> cases hpost
      rw [hs] at hcall
      obtain ⟨-, ⟨r, hr⟩ | ⟨text, err, hr⟩⟩ | ⟨h590, -⟩ | ⟨h200, -⟩ := Transport.receive_cases P
        wire (Client.url rpcPrefix addr serviceMethod) serviceMethod target resp
      · rw [hr] at hcall
        cases hcall
      · rw [hr] at hcall
        exact Or.inr ⟨text, err, (Except.error.inj hcall).symm⟩
      · rw [hstatus] at h590
        cases h590
      · exact absurd hstatus h200

theorem CanceledCall.severity_ne {P : Package} (hS : P.SetsSeverity) {e : Err}
    (h : CanceledCall P e) (he : e.IsError) : e.severity ≠ .fatal := by
  rcases h.cases with rfl | ⟨text, err, rfl⟩
  · cases he
  · rw [hS _ .temporary (by simp) (by simp) (by simp)]
    decide

/-! ## `retryCall` in a canceled context -/

/-- The context of the call is canceled at the time `T`, early enough for the attempts, none of
which has failed fatally. -/
structure Cut (P : Package) (c : Call) (env : Env c) (T : Nat) : Prop where
  deadline : env.deadline = none
  canceled : env.canceled = some T
  room : T + c.rpcTimeout + 5 * second ≤ c.overallTimeout
  outcome : ∀ k e, (env.round k).outcome = some e → CanceledCall P e ∨ e.severity ≠ .fatal

section

variable {P : Package} {c : Call} {env : Env c} {T : Nat} (h : Cut P c env T)

include h

theorem Cut.limit_eq : env.limit = c.overallTimeout := by
  simp [Env.limit, h.deadline]

theorem Cut.done_eq : env.done = T := by
  have hroom := h.room
  simp only [Env.done, h.limit_eq, h.canceled, Option.getD_some]
  omega

theorem Cut.doneErr_eq : env.doneErr = .canceled := by
  have hroom := h.room
  simp only [Env.doneErr, h.canceled, h.limit_eq]
  rw [if_pos (by omega)]

/-- A wait either succeeds before the context is canceled or returns its error. -/
theorem Cut.wait_cases (k : Nat) {t : Nat} (ht : t ≤ T + c.rpcTimeout) :
    (∃ t', env.wait k t = (t', some (.ctx .canceled))) ∨
      ∃ t', env.wait k t = (t', none) ∧ t' ≤ T := by
  have hroom := h.room
  have hback := (env.backoff k).2
  simp only [Env.wait, h.limit_eq, h.done_eq, h.doneErr_eq]
  rw [if_neg (by omega)]
  split
  · exact Or.inl ⟨_, rfl⟩
  · split
    · exact Or.inl ⟨_, rfl⟩
    · exact Or.inr ⟨_, rfl, by omega⟩

theorem Cut.loop_result (hS : P.SetsSeverity) (hM : P.MatchesFatal) (fuel k : Nat) {t : Nat}
    (ht : t ≤ T) {r : Report} (hr : RetryCall.loop P c env fuel k t = some r) :
    r.result = none ∨ r.result = some (P.E [.severity .fatal, .err (.ctx .canceled)]) := by
  induction fuel generalizing k t r with
  | zero => cases hr
  | succ fuel ih =>
    have hdur := env.inTime k
    simp only [RetryCall.loop] at hr
    cases ho : (env.round k).outcome with
    | none =>
      simp only [ho, Option.some.injEq] at hr
      subst hr
      exact Or.inl rfl
    | some err =>
      have hnot : ¬ P.matchFatal err = true := by
        intro hf
        obtain ⟨herr, hsev⟩ := (hM err).mp hf
        rcases h.outcome k err ho with hcut | hne
        · exact hcut.severity_ne hS herr hsev
        · exact hne hsev
      simp only [ho] at hr
      rw [if_neg hnot] at hr
      obtain ⟨t', hw⟩ | ⟨t', hw, ht'⟩ := h.wait_cases k (t := t + (env.round k).duration) (by omega)
      · rw [hw] at hr
        cases hr
        exact Or.inr rfl
      · rw [hw] at hr
        obtain ⟨r', hr', rfl⟩ := Option.map_eq_some_iff.mp hr
        have hres := ih (k + 1) ht' hr'
        exact hres

end

/-- `e` is what `retryCall` returns when its context is canceled. -/
def CutRetry (P : Package) (c : Call) (e : Err) : Prop :=
  ∃ env T r, Cut P c env T ∧ retryCall P c env = some r ∧ r.result = some e

theorem CutRetry.eq {P : Package} (hS : P.SetsSeverity) (hM : P.MatchesFatal) {c : Call} {e : Err}
    (h : CutRetry P c e) : e = P.E [.severity .fatal, .err (.ctx .canceled)] := by
  obtain ⟨env, T, r, hcut, hr, he⟩ := h
  rcases hcut.loop_result hS hM _ 0 (Nat.zero_le T) hr with hn | hs
  · rw [he] at hn
    cases hn
  · exact Option.some.inj (he.symm.trans hs)

/-- The call of `ping`. -/
def pingCall : Call := ⟨9 * 60 * second, 3 * 60 * second, "Supervisor.Ping"⟩

def registerCall : Call := ⟨5 * 60 * second, 25 * second, "Supervisor.Register"⟩

/-! ## `exec` -/

/-- What the parts of `exec` return. -/
structure ExecCalls where
  self : Except Err Unit -- `fatbin.Self`
  info : Except Err (String × String)
  image : String → String → Bool
  setenv : Except Err Unit
  setargs : Except Err Unit
  opened : Except Err Unit
  setbinary : Except Err Unit
  exec : Except Err Unit

/-- `Machine.exec`. -/
def exec (P : Package) (x : ExecCalls) : Except Err Unit := do
  x.self
  let (goos, goarch) ← x.info
  unless x.image goos goarch do
    throw (P.E [.severity .fatal, .text "no image for ", .text goos, .text "/", .text goarch])
  x.setenv
  x.setargs
  -- an error of `Supervisor.Keepalive` is only logged
  x.opened
  x.setbinary
  x.exec

/-- The call succeeds, unless the context is canceled. -/
def Succeeding (P : Package) (canceled : Bool) {α : Type} (r : Except Err α) : Prop :=
  ∀ e, r = .error e → canceled = true ∧ CanceledCall P e

/-- All calls succeed, unless the context is canceled; the last one can fail with an error of
kind `Net`, since the process that should reply is replaced. -/
structure ExecCalls.Succeeding (P : Package) (canceled : Bool) (x : ExecCalls) : Prop where
  self : x.self = .ok ()
  info : Loop.Succeeding P canceled x.info
  image : ∀ goos goarch, x.image goos goarch = true
  setenv : Loop.Succeeding P canceled x.setenv
  setargs : Loop.Succeeding P canceled x.setargs
  opened : x.opened = .ok ()
  setbinary : Loop.Succeeding P canceled x.setbinary
  exec : ∀ e, x.exec = .error e → P.is .net e = true ∨ canceled = true ∧ CanceledCall P e

/-- The error of a sequence is that of its first part or of the rest. -/
theorem bind_error {α β : Type} {x : Except Err α} {f : α → Except Err β} {e : Err}
    (h : x >>= f = .error e) : x = .error e ∨ ∃ a, f a = .error e := by
  cases x with
  | error e' =>
    cases h
    exact Or.inl rfl
  | ok a => exact Or.inr ⟨a, h⟩

theorem exec_error {P : Package} {canceled : Bool} {x : ExecCalls}
    (h : x.Succeeding P canceled) {e : Err} (he : exec P x = .error e) :
    P.is .net e = true ∨ CanceledCall P e := by
  simp only [exec] at he
  rcases bind_error he with he | ⟨-, he⟩
  · rw [h.self] at he
    cases he
  rcases bind_error he with he | ⟨⟨goos, goarch⟩, he⟩
  · exact Or.inr (h.info e he).2
  rw [if_pos (h.image goos goarch)] at he
  rcases bind_error he with he | ⟨-, he⟩
  · exact Or.inr (h.setenv e he).2
  rcases bind_error he with he | ⟨-, he⟩
  · exact Or.inr (h.setargs e he).2
  rcases bind_error he with he | ⟨-, he⟩
  · rw [h.opened] at he
    cases he
  rcases bind_error he with he | ⟨-, he⟩
  · exact Or.inr (h.setbinary e he).2
  · exact (h.exec e he).imp_right And.right

/-! ## Runs of a machine that is canceled -/

/-- Nothing fails, except for the context that is canceled: the calls of the loop fail only when
it is, and the kernel log never reports that the process was killed. -/
def Succeeds (cfg : Config) (w : World) : Action → Prop
  | .loop (.err e _) =>
    match w.loop.pc with
    | .bootPing | .ping => w.canceled = true ∧ CutRetry cfg.errors pingCall e
    | .exec => ∃ x, ExecCalls.Succeeding cfg.errors w.canceled x ∧ exec cfg.errors x = .error e
    | .register _ => w.canceled = true ∧ CutRetry cfg.errors registerCall e
    | .pinging | .keepalive => w.canceled = true
    | _ => True
  | .monitor (.line text) => ∀ pid, w.monitor.pc = .scan pid → contains text (look pid) = false
  | _ => True

/-- The error of the context is not lost in this step: it does not come from the keepalive or
the ping loop, nor from an `exec` that makes another error of it. -/
def Survives (cfg : Config) (w : World) : Action → Prop
  | .loop (.err e _) =>
    match w.loop.pc with
    | .pinging | .keepalive => False
    | .exec => cfg.errors.is .net e = true ∨ e = .ctx .canceled
    | _ => True
  | _ => True

instance (cfg : Config) (w : World) : (a : Action) → Decidable (Survives cfg w a)
  | .loop (.err e elapsed) => by
    simp only [Survives]
    split <;> infer_instance
  | .loop .ok | .loop .unhealthy | .loop .ctxDone => isTrue trivial
  | .monitor _ | .loopClose | .monitorClose | .cancel | .client _ => isTrue trivial

/-- The loop has written the error of the machine. -/
def LoopPc.ended : LoopPc → Bool
  | stop | returned | done => true
  | _ => false

/-- The ways in which the loop fails. -/
theorem LoopPc.next_fail {cfg : Config} {c : Bool} {pc pc' : LoopPc} {o : Outcome} {eff : Effect}
    {e : Err} (h : pc.next cfg c o = some (eff, pc')) (hfail : pc' = .fail e) :
    (∃ elapsed, (pc = .bootPing ∨ pc = .ping) ∧ o = .err e elapsed) ∨
    (∃ elapsed, pc = .exec ∧ o = .err e elapsed ∧ ¬ cfg.errors.is .net e = true) ∨
    (∃ e' elapsed what, (pc = .pinging ∨ pc = .keepalive) ∧ o = .err e' elapsed ∧
      e = cfg.failed what elapsed e') ∨
    (∃ e' elapsed name names, pc = .register (name :: names) ∧ o = .err e' elapsed ∧
      e = cfg.errors.E [.err e', .text ("Supervisor.Register " ++ name)]) ∨
    (pc = .select ∧ o = .ctxDone ∧ e = .ctx .canceled) := by
  unfold LoopPc.next at h
  split at h <;> first | cases h | (split at h <;> cases h)
  all_goals try split_ifs at hfail
  all_goals cases hfail
  all_goals first
    | exact Or.inl ⟨_, Or.inl rfl, rfl⟩
    | exact Or.inl ⟨_, Or.inr rfl, rfl⟩
    | exact Or.inr (Or.inl ⟨_, rfl, rfl, ‹_›⟩)
    | exact Or.inr (Or.inr (Or.inl ⟨_, _, _, Or.inl rfl, rfl, rfl⟩))
    | exact Or.inr (Or.inr (Or.inl ⟨_, _, _, Or.inr rfl, rfl, rfl⟩))
    | exact Or.inr (Or.inr (Or.inr (Or.inl ⟨_, _, _, _, rfl, rfl, rfl⟩)))
    | exact Or.inr (Or.inr (Or.inr (Or.inr ⟨rfl, rfl, rfl⟩)))

theorem LoopPc.next_ended {cfg : Config} {c : Bool} {pc pc' : LoopPc} {o : Outcome} {eff : Effect}
    (h : pc.next cfg c o = some (eff, pc')) (hend : pc'.ended = true) :
    (∃ e, pc = .fail e ∧ eff = .setErr e) ∨ (pc.ended = true ∧ ∀ e, eff ≠ .setErr e) := by
  unfold LoopPc.next at h
  split at h <;> first | cases h | (split at h <;> cases h)
  all_goals try split_ifs at hend
  all_goals simp_all [LoopPc.ended]

theorem LoopPc.next_over {cfg : Config} {c : Bool} {pc pc' : LoopPc} {o : Outcome}
    {eff : Effect} (h : pc.next cfg c o = some (eff, pc'))
    (hover : pc.failing = true ∨ pc.ended = true) : pc'.ended = true := by
  unfold LoopPc.next at h
  split at h <;> first | cases h | (split at h <;> cases h)
  all_goals simp_all [LoopPc.failing, LoopPc.ended]

theorem MonitorPc.next_quiet {cfg : Config} {pc pc' : MonitorPc} {o : MonitorOutcome}
    {eff : Effect} (h : pc.next cfg o = some (eff, pc'))
    (hpc : pc.failing = false ∧ pc.stopping = false)
    (hline : ∀ text pid, o = .line text → pc = .scan pid → contains text (look pid) = false) :
    eff = .none ∧ pc'.failing = false ∧ pc'.stopping = false := by
  unfold MonitorPc.next at h
  split at h <;> cases h
  case h_5 pid text => simp [hline text pid rfl rfl, MonitorPc.failing, MonitorPc.stopping]
  all_goals simp_all [MonitorPc.failing, MonitorPc.stopping]

/-- The monitor has nothing to report, and the error with which the loop ends has the property
`Q`. -/
structure Ending (Q : Err → Prop) (w : World) : Prop where
  quiet : w.monitor.pc.failing = false ∧ w.monitor.pc.stopping = false
  fails : ∀ e, w.loop.pc = .fail e → Q e
  stops : w.loop.pc.ended = true → ∃ e, w.m.err = some e ∧ Q e
  stopped : w.m.state = .stopped → w.loop.pc.ended = true

theorem Ending.loop {cfg : Config} {Q : Err → Prop} {w : World} (h : Ending Q w) {o : Outcome}
    {eff : Effect} {pc : LoopPc} (hn : w.loop.pc.next cfg w.canceled o = some (eff, pc))
    (hfail : ∀ e, pc = .fail e → Q e) :
    Ending Q { (w.apply eff).1 with loop := ⟨pc, (w.apply eff).2⟩ } where
  quiet := by
    cases eff with
    | spawn => exact ⟨rfl, rfl⟩
    | none | setState _ | setErr _ | cancel => exact h.quiet
  fails := hfail
  stops hend := by
    obtain ⟨e, hpc, rfl⟩ | ⟨hended, hne⟩ := LoopPc.next_ended hn hend
    · exact ⟨e, rfl, h.fails e hpc⟩
    · cases eff with
      | setErr e => exact absurd rfl (hne e)
      | setState s => simpa only [World.apply, setState_err] using h.stops hended
      | none | spawn | cancel => exact h.stops hended
  stopped hs := by
    cases eff with
    | setState s =>
      obtain ⟨-, rfl, -⟩ | ⟨-, rfl, -⟩ | ⟨-, -, rfl⟩ := LoopPc.next_setState hn
      · simp [World.apply] at hs
      · simp [World.apply] at hs
      · rfl
    | none | setErr _ | spawn | cancel => exact LoopPc.next_over hn (Or.inr (h.stopped hs))

theorem Ending.step {cfg : Config} {Q : Err → Prop} {w w' : World} {a : Action} (h : Ending Q w)
    (hok : Succeeds cfg w a) (hs : step cfg w a = some w')
    (hfail : ∀ o eff pc e, a = .loop o → w.loop.pc.next cfg w.canceled o = some (eff, pc) →
      pc = .fail e → Q e) : Ending Q w' := by
  obtain ⟨o, eff, pc, ha, -, hn, rfl⟩ | ⟨o, eff, pc, rfl, -, hn, rfl⟩ | ⟨c, cs, -, rfl⟩ |
    ⟨c, cs, -, rfl⟩ | ⟨-, rfl⟩ | ⟨op, -, rfl⟩ := step_cases hs
  · exact h.loop hn (fun e he => hfail o eff pc e ha hn he)
  · have hline : ∀ text pid, o = .line text → w.monitor.pc = .scan pid →
        contains text (look pid) = false := by
      rintro text pid rfl hpc
      exact hok pid hpc
    obtain ⟨rfl, hquiet⟩ := MonitorPc.next_quiet hn h.quiet hline
    exact ⟨hquiet, h.fails, h.stops, h.stopped⟩
  · exact ⟨h.quiet, h.fails, h.stops, h.stopped⟩
  · exact ⟨h.quiet, h.fails, h.stops, h.stopped⟩
  · exact ⟨h.quiet, h.fails, h.stops, h.stopped⟩
  · obtain ⟨hstate, herr, -⟩ := op.apply_spec w.m
    refine ⟨h.quiet, h.fails, ?_, ?_⟩ <;> simp only [hstate, herr]
    · exact h.stops
    · exact h.stopped

theorem Ending.init (cfg : Config) (Q : Err → Prop) : Ending Q (system cfg).init :=
  ⟨⟨rfl, rfl⟩, nofun, nofun, nofun⟩

section

variable {cfg : Config} (hE : cfg.errors.ReturnsError) (hK : cfg.errors.SetsKind)
  (hS : cfg.errors.SetsSeverity) (hI : cfg.errors.InheritsKind) (hC : cfg.errors.KeepsCanceled)
  (hM : cfg.errors.MatchesFatal)

include hE hS hI hC hM in
/-- What `retryCall` makes of the canceled context. -/
theorem isCanceled_retry {c : Call} {e : Err} (h : CutRetry cfg.errors c e) :
    e.IsError ∧ e.kind = .canceled ∧ e.Wraps (.ctx .canceled) := by
  rw [h.eq hS hM]
  exact ⟨hE _, hI.canceled _ (by simp) (by simp) (by simp),
    hC _ (.ctx .canceled) (Or.inl rfl) (by simp) (by simp)⟩

include hE hS hI hC hM in
theorem isCanceled_of_survives {w : World} {o : Outcome} {eff : Effect} {pc : LoopPc} {e : Err}
    (hok : Succeeds cfg w (.loop o)) (hsurv : Survives cfg w (.loop o))
    (hn : w.loop.pc.next cfg w.canceled o = some (eff, pc)) (hfail : pc = .fail e) :
    IsCanceled e := by
  obtain ⟨elapsed, hpc, rfl⟩ | ⟨elapsed, hpc, rfl, hnet⟩ | ⟨e', elapsed, what, hpc, rfl, -⟩ |
    ⟨e', elapsed, name, names, hpc, rfl, rfl⟩ | ⟨-, -, rfl⟩ := LoopPc.next_fail hn hfail
  · have hcut : CutRetry cfg.errors pingCall e := by
      rcases hpc with hpc | hpc <;> simp only [Succeeds, hpc] at hok <;> exact hok.2
    exact Or.inr (isCanceled_retry hE hS hI hC hM hcut)
  · simp only [Survives, hpc] at hsurv
    exact Or.inl (hsurv.resolve_left hnet)
  · rcases hpc with hpc | hpc <;> simp only [Survives, hpc] at hsurv
  · simp only [Succeeds, hpc] at hok
    obtain ⟨herr, hkind, hwraps⟩ := isCanceled_retry hE hS hI hC hM hok.2
    refine Or.inr ⟨hE _, ?_, hC _ e' (Or.inr hwraps) (by simp) (by simp)⟩
    rw [hI.error _ e' herr (by simp) (by simp) (by simp), hkind]
  · exact Or.inl rfl

include hK in
/-- The error of a step that does not survive it. -/
theorem not_isCanceled {w : World} {a : Action} {w' : World} (hok : Succeeds cfg w a)
    (hnot : ¬ Survives cfg w a) (hs : step cfg w a = some w') :
    ∃ e, w'.loop.pc = .fail e ∧ ¬ IsCanceled e := by
  have htext : ∀ text, ¬ IsCanceled (.text text) := by
    rintro text (h | ⟨h, -⟩) <;> cases h
  obtain ⟨o, eff, pc, rfl, -, hn, rfl⟩ | ⟨o, eff, pc, rfl, -, hn, rfl⟩ | ⟨c, cs, rfl, rfl⟩ |
    ⟨c, cs, rfl, rfl⟩ | ⟨rfl, rfl⟩ | ⟨op, rfl, rfl⟩ := step_cases hs
  · cases o with
    | err e elapsed =>
      cases hpc : w.loop.pc with
      | pinging | keepalive =>
        rw [hpc] at hn
        cases hn
        exact ⟨_, rfl, htext _⟩
      | exec =>
        simp only [Survives, hpc, not_or] at hnot
        simp only [Succeeds, hpc] at hok
        obtain ⟨x, hx, he⟩ := hok
        rw [hpc] at hn
        simp only [LoopPc.next, if_neg hnot.1] at hn
        cases hn
        refine ⟨e, rfl, ?_⟩
        have hcut : CanceledCall cfg.errors e := (exec_error hx he).resolve_left hnot.1
        obtain ⟨text, err, rfl⟩ := hcut.cases.resolve_left hnot.2
        rintro (h | ⟨-, hkind, -⟩)
        · exact hnot.2 h
        · rw [hK _ .invalid (by simp) (by simp) (by simp)] at hkind
          cases hkind
      | _ => simp [Survives, hpc] at hnot
    | ok | unhealthy | ctxDone => exact absurd trivial hnot
  all_goals exact absurd trivial hnot

/-- The loop fails, or has failed, with another error. -/
def Doomed (w : World) : Prop :=
  Ending (fun e => ¬ IsCanceled e) w ∧ (w.loop.pc.failing = true ∨ w.loop.pc.ended = true)

theorem Doomed.step {w w' : World} {a : Action} (h : Doomed w) (hok : Succeeds cfg w a)
    (hs : step cfg w a = some w') : Doomed w' := by
  obtain ⟨hend, hover⟩ := h
  refine ⟨hend.step hok hs ?_, ?_⟩
  · rintro o eff pc e - hn rfl
    cases LoopPc.next_over hn hover
  · obtain ⟨o, eff, pc, -, -, hn, rfl⟩ | ⟨o, eff, pc, -, -, hn, rfl⟩ | ⟨c, cs, -, rfl⟩ |
      ⟨c, cs, -, rfl⟩ | ⟨-, rfl⟩ | ⟨op, -, rfl⟩ := step_cases hs
    · exact Or.inr (LoopPc.next_over hn hover)
    · cases eff <;> exact hover
    all_goals exact hover

include hE hK hS hI hC hM

/-- **The error of a canceled machine.** In every run of a machine whose calls all succeed
unless the context is canceled, for every moment of the cancellation: once the machine is
`Stopped`, its error is `context.Canceled`, or wraps it and is of kind `Canceled`, exactly when
every step of the run has kept the error of the context. -/
theorem canceled_iff {tr : List Action} {w : World}
    (h : Steps (system cfg) (Succeeds cfg) (system cfg).init tr w) (hs : w.m.state = .stopped) :
    (∃ e, w.m.err = some e ∧ IsCanceled e) ↔
      Steps (system cfg) (fun w a => Succeeds cfg w a ∧ Survives cfg w a) (system cfg).init tr
        w := by
  constructor
  · rintro ⟨e, he, hcanceled⟩
    have hstep : ∀ w a w', Ending (fun _ => True) w → Succeeds cfg w a → step cfg w a = some w' →
        Ending (fun _ => True) w' :=
      fun _ _ _ hi hok hstep => hi.step hok hstep (fun _ _ _ _ _ _ _ => trivial)
    refine h.avoid (I := Ending fun _ => True) (D := Doomed) hstep ?_ ?_ (Ending.init cfg _) ?_
    · intro w a w' hi hok hnot hstep'
      obtain ⟨e, hpc, hother⟩ := not_isCanceled hK hok hnot hstep'
      have hi' := hstep w a w' hi hok hstep'
      have hended : w'.loop.pc.ended = false := by rw [hpc]; rfl
      refine ⟨⟨hi'.quiet, ?_, fun hend => ?_, hi'.stopped⟩, Or.inl (by rw [hpc]; rfl)⟩
      · intro e' he'
        cases hpc.symm.trans he'
        exact hother
      · rw [hended] at hend
        cases hend
    · exact fun w a w' _ hd hok hstep' => hd.step hok hstep'
    · rintro ⟨hend, -⟩
      obtain ⟨e', he', hother⟩ := hend.stops (hend.stopped hs)
      rw [he] at he'
      cases he'
      exact hother hcanceled
  · intro hrun
    have hend : Ending IsCanceled w := by
      refine hrun.invariant (I := Ending IsCanceled) ?_ (Ending.init cfg _)
      rintro w a w' hi ⟨hok, hsurv⟩ hstep
      refine hi.step hok hstep ?_
      rintro o eff pc e rfl hn hfail
      exact isCanceled_of_survives hE hS hI hC hM hok hsurv hn hfail
    exact hend.stops (hend.stopped hs)

end

/-! ## Runs -/

/-- The first ping is cut after a second. -/
def cutPing : Env pingCall where
  round _ := ⟨some (.ctx .canceled), second, second, false⟩
  inTime _ := by decide
  backoff _ := by decide
  canceled := some second
  outOfTime := .leaf (.unnamed 2) .unknown "ran out of time while waiting for retry"

/-- What `retryCall` returns then. -/
def canceledPing : Err := .wrap .canceled .fatal "" (.ctx .canceled)

theorem canceledPing_cutRetry : CutRetry Reference.package pingCall canceledPing := by
  refine ⟨cutPing, second, ⟨[⟨0, some (.ctx .canceled)⟩], second, some canceledPing⟩, ?_,
    by rfl, rfl⟩
  exact ⟨rfl, rfl, by decide, fun k e he => Or.inr (by cases he; decide)⟩

/-- The reply to `Supervisor.Info` is cut. -/
def canceledInfo : Err := Reference.package.E
  [.kind .invalid, .severity .temporary, .text "error while decoding reply for Supervisor.Info",
    .err (.ctx .canceled)]

theorem canceledInfo_canceledCall : CanceledCall Reference.package canceledInfo := by
  refine ⟨Unit, Bytes, Transport.Reference.decoders, "/bigrpc/", "https://localhost:4000/",
    "Supervisor.Info", fun _ => .ok ⟨200, "", "", { last := [1], err := .ctx .canceled }⟩,
    .value [1], .gob (some ()), [1], rfl, Or.inr ⟨_, rfl, rfl, rfl⟩, rfl⟩

/-- An `exec` of which only the first and the last call can fail. -/
def execCalls (info : Except Err (String × String)) (last : Except Err Unit) : ExecCalls :=
  ⟨.ok (), info, fun _ _ => true, .ok (), .ok (), .ok (), .ok (), last⟩

/-- Errors that can be told by themselves to come from the canceled context. -/
def Plain (w : World) : Action → Prop
  | .loop (.err e _) =>
    match w.loop.pc with
    | .bootPing | .ping => w.canceled = true ∧ e = canceledPing
    | .exec => Reference.package.is .net e = true ∨ w.canceled = true ∧ e = canceledInfo
    | .pinging | .keepalive => w.canceled = true
    | _ => False
  | .monitor _ => False
  | _ => True

instance (w : World) : (a : Action) → Decidable (Plain w a)
  | .loop (.err e elapsed) => by
    simp only [Plain]
    split <;> infer_instance
  | .loop .ok | .loop .unhealthy | .loop .ctxDone => isTrue trivial
  | .monitor _ => isFalse id
  | .loopClose | .monitorClose | .cancel | .client _ => isTrue trivial

theorem Plain.succeeds (cfg : Config) (hcfg : cfg.errors = Reference.package) (w : World)
    (a : Action) (h : Plain w a) : Succeeds cfg w a := by
  cases a with
  | loop o =>
    cases o with
    | err e elapsed =>
      cases hpc : w.loop.pc with
      | bootPing | ping =>
        simp only [Plain, hpc] at h
        simp only [Succeeds, hpc, hcfg, h.2]
        exact ⟨h.1, canceledPing_cutRetry⟩
      | exec =>
        simp only [Plain, hpc] at h
        simp only [Succeeds, hpc, hcfg]
        rcases h with hnet | ⟨hc, rfl⟩
        · refine ⟨execCalls (.ok ("linux", "amd64")) (.error e), ?_, rfl⟩
          exact ⟨rfl, nofun, fun _ _ => rfl, nofun, nofun, rfl, nofun, by
            rintro e' ⟨⟩
            exact Or.inl hnet⟩
        · refine ⟨execCalls (.error canceledInfo) (.ok ()), ?_, rfl⟩
          exact ⟨rfl, by
            rintro e' ⟨⟩
            exact ⟨hc, canceledInfo_canceledCall⟩, fun _ _ => rfl, nofun, nofun, rfl, nofun, nofun⟩
      | pinging | keepalive =>
        simp only [Plain, hpc] at h
        simpa only [Succeeds, hpc] using h
      | _ => simp [Plain, hpc] at h
    | ok | unhealthy | ctxDone => trivial
  | monitor o => exact h.elim
  | loopClose | monitorClose | cancel | client _ => trivial

/-- The machine is canceled while it restarts with the new binary. -/
def restartRun : List Action :=
  [.loop .ok, .loop .ok, .loop (.err (.leaf .net .temporary "EOF") "0s"), .cancel,
    .loop (.err canceledPing "1s"), .loop .ok, .loop .ok]

theorem canceled_iff_restartRun :
    ∃ w, Steps (system ownedConfig) (Succeeds ownedConfig) (system ownedConfig).init restartRun w ∧
      w.m.state = .stopped ∧ ∃ e, w.m.err = some e ∧ IsCanceled e := by
  obtain ⟨w, h, hs⟩ := exists_steps (system ownedConfig)
    (fun w a => Plain w a ∧ Survives ownedConfig w a) (system ownedConfig).init restartRun
    (fun w => w.m.state = .stopped) (by decide +kernel)
  have hrun := h.mono fun w a hok => And.imp_left (Plain.succeeds ownedConfig rfl w a) hok
  have hsucceeds := hrun.mono fun w a hok => hok.1
  exact ⟨w, hsucceeds, hs, (canceled_iff Reference.returnsError Reference.setsKind
    Reference.setsSeverity Reference.inheritsKind Reference.keepsCanceled Reference.matchesFatal
    hsucceeds hs).mpr hrun⟩

/-- The machine is canceled during a keepalive. -/
def keepaliveRun : List Action :=
  bootRun ++ [.loop .ok, .cancel, .loop (.err canceledPing "1s"), .loop .ok, .loop .ok]

/-- A canceled machine is stopped with an error that is only a text. -/
theorem keepalive_loses_canceled :
    ¬ ∀ (cfg : Config) (tr : List Action) (w : World),
      Steps (system cfg) (Succeeds cfg) (system cfg).init tr w → w.m.state = .stopped →
      ∃ e, w.m.err = some e ∧ IsCanceled e := by
  intro h
  obtain ⟨w, hrun, hs, herr⟩ := exists_steps (system ownedConfig) Plain (system ownedConfig).init
    keepaliveRun (fun w => w.m.state = .stopped ∧
      w.m.err = some (ownedConfig.failed "keepalive" "1s" canceledPing)) (by decide +kernel)
  obtain ⟨e, he, hcanceled⟩ :=
    h ownedConfig keepaliveRun w (hrun.mono (Plain.succeeds ownedConfig rfl)) hs
  cases he.symm.trans herr
  rcases hcanceled with h | ⟨h, -⟩ <;> cases h

-- The same in the ping loop of a machine that is not owned, and when the reply to the first call
-- of `exec` is cut.
example : (system { ownedConfig with owner := false }).Leads Plain {}
    [.loop .ok, .loop .ok, .loop .ok, .cancel, .loop (.err canceledPing "1s"), .loop .ok, .loop .ok]
    (fun w => w.m.state = .stopped ∧
      w.m.err = some (ownedConfig.failed "ping" "1s" canceledPing)) = true := by
  decide +kernel

example : (system ownedConfig).Leads Plain {}
    [.loop .ok, .loop .ok, .cancel, .loop (.err canceledInfo "1s"), .loop .ok, .loop .ok]
    (fun w => w.m.state = .stopped ∧ w.m.err = some canceledInfo) = true := by
  decide +kernel

end Bigmachine.Machine.Loop
