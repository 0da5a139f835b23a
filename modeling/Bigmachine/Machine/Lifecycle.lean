import Bigmachine.Machine.Loop

/-!
# The life of a machine: its states and its error

The type `State` is documented as monotone: states can only increase in value. `setState`
does not compare with the current state, so this rests on the order in which the loop and
the out-of-memory monitor call it. The monitor is spawned before the loop sets `Running`,
and an early match in the kernel log lets the loop set `Running` on a stopped machine
(`monitor_stops_before_running`). When the monitor's `setState(Stopped)` only comes after
the loop's `setState(Running)`, the state never decreases (`state_monotone`).

The error of a stopped machine is written by both goroutines, and a later write replaces
the earlier one (`keepalive_error_replaces_oom`). When one goroutine stops the machine and the
other neither has failed by then nor fails later, the error is there and stays (`error_stable`).
-/

namespace Bigmachine.Machine.Loop

open Errors Transition

/-! ## Monotone states -/

/-- The monitor sets `Stopped` only once the loop is beyond its `setState(Running)`. -/
def StopsAfterRunning (w : World) : Action → Prop
  | .monitor _ => w.monitor.pc.stopping = true → w.loop.pc.beyond = true
  | _ => True

instance (w : World) : (a : Action) → Decidable (StopsAfterRunning w a)
  | .monitor _ => inferInstanceAs (Decidable (_ → _))
  | .loop _ | .loopClose | .monitorClose | .cancel | .client _ => isTrue trivial

/-- The state is low enough for what the loop has yet to set. -/
structure Early (w : World) : Prop where
  atStart : w.loop.pc = .start → w.m.state = .unstarted
  early : w.loop.pc.beyond = false → w.m.state ≤ .starting

theorem early_loop {cfg : Config} {w : World} (h : Early w) {o : Outcome} {eff : Effect}
    {pc : LoopPc} (hn : w.loop.pc.next cfg w.canceled o = some (eff, pc)) :
    Early { (w.apply eff).1 with loop := ⟨pc, (w.apply eff).2⟩ } ∧
      w.m.state ≤ (w.apply eff).1.m.state := by
  obtain ⟨hstart, hbeyond⟩ := LoopPc.next_forward hn
  have hearly : pc.beyond = false → w.loop.pc.beyond = false := by
    intro hp
    by_contra hw
    have hpb : pc.beyond = true := hbeyond (by simpa using hw)
    rw [hpb] at hp
    cases hp
  cases eff with
  | setState s =>
    simp only [World.apply, setState_state]
    rcases LoopPc.next_setState hn with ⟨hpc, rfl, -, -⟩ | ⟨hpc, rfl, hb⟩ | ⟨-, rfl, rfl⟩
    · have hinit : w.m.state = .unstarted := h.atStart hpc
      refine ⟨⟨fun hs => absurd hs hstart, fun _ => ?_⟩, ?_⟩
      · rw [setState_state]
      · rw [hinit]
        decide
    · have hlow : w.m.state ≤ .starting := h.early hpc
      refine ⟨⟨fun hs => absurd hs hstart, fun hp => ?_⟩, hlow.trans (by decide)⟩
      have hpb : pc.beyond = false := hp
      rw [hb] at hpb
      cases hpb
    · exact ⟨⟨fun hs => absurd hs hstart, fun hp => by cases hp⟩, State.le_stopped _⟩
  | none | setErr e | spawn | cancel =>
    exact ⟨⟨fun hs => absurd hs hstart, fun hp => h.early (hearly hp)⟩, le_rfl⟩

theorem early_monitor {cfg : Config} {w : World} (h : Early w) {o : MonitorOutcome}
    {eff : Effect} {pc : MonitorPc} (hn : w.monitor.pc.next cfg o = some (eff, pc))
    (hok : StopsAfterRunning w (.monitor o)) :
    Early { (w.apply eff).1 with monitor := ⟨pc, (w.apply eff).2⟩ } ∧
      w.m.state ≤ (w.apply eff).1.m.state := by
  obtain ⟨rfl, -, -⟩ | ⟨pid, -, rfl, rfl⟩ | ⟨pid, hpc, rfl, rfl⟩ := MonitorPc.next_cases hn
  · exact ⟨⟨h.atStart, h.early⟩, le_rfl⟩
  · exact ⟨⟨h.atStart, h.early⟩, le_rfl⟩
  · have hb : w.loop.pc.beyond = true := hok (by rw [hpc]; rfl)
    have hup : w.m.state ≤ (w.apply (.setState .stopped)).1.m.state := by
      simpa [World.apply] using State.le_stopped _
    refine ⟨⟨fun hs => ?_, fun hp => ?_⟩, hup⟩
    · have hs' : w.loop.pc = .start := hs
      rw [hs'] at hb
      cases hb
    · have hp' : w.loop.pc.beyond = false := hp
      rw [hp'] at hb
      cases hb

theorem step_early {cfg : Config} {w w' : World} {a : Action} (h : Early w)
    (hok : StopsAfterRunning w a) (hs : step cfg w a = some w') :
    Early w' ∧ w.m.state ≤ w'.m.state := by
  obtain ⟨o, eff, pc, -, -, hn, rfl⟩ | ⟨o, eff, pc, rfl, -, hn, rfl⟩ | ⟨c, cs, -, rfl⟩ |
    ⟨c, cs, -, rfl⟩ | ⟨-, rfl⟩ | ⟨op, -, rfl⟩ := step_cases hs
  · exact early_loop h hn
  · exact early_monitor h hn hok
  · exact ⟨⟨h.atStart, h.early⟩, le_rfl⟩
  · exact ⟨⟨h.atStart, h.early⟩, le_rfl⟩
  · exact ⟨⟨h.atStart, h.early⟩, le_rfl⟩
  · have hstate : (op.apply w.m).state = w.m.state := (op.apply_spec w.m).1
    refine ⟨⟨?_, ?_⟩, hstate.ge⟩
    · intro hp
      exact hstate.trans (h.atStart hp)
    · intro hp
      exact hstate.trans_le (h.early hp)

/-- **Monotone states.** In every run in which the monitor sets `Stopped` only after the
loop's `setState(Running)`, the state never decreases; in particular a machine that has
become `Stopped` stays so. -/
theorem state_monotone (cfg : Config) {tr₁ tr₂ : List Action} {w₁ w₂ : World}
    (h₁ : Steps (system cfg) StopsAfterRunning (system cfg).init tr₁ w₁)
    (h₂ : Steps (system cfg) StopsAfterRunning w₁ tr₂ w₂) :
    w₁.m.state ≤ w₂.m.state ∧ (w₁.m.state = .stopped → w₂.m.state = .stopped) := by
  have hkeep : ∀ w a w', Early w → StopsAfterRunning w a → step cfg w a = some w' → Early w' :=
    fun _ _ _ hi hok hs => (step_early hi hok hs).1
  have hinit : Early (system cfg).init :=
    ⟨fun _ => rfl, fun _ => (by decide : State.unstarted ≤ .starting)⟩
  have hw₁ : Early w₁ := h₁.invariant hkeep hinit
  have hle : w₁.m.state ≤ w₂.m.state :=
    h₂.relation (R := fun w w' => w.m.state ≤ w'.m.state) hkeep (fun _ => le_rfl)
      (fun _ _ _ => le_trans) (fun _ _ _ hi hok hs => (step_early hi hok hs).2) hw₁
  refine ⟨hle, ?_⟩
  intro hs
  rw [hs] at hle
  exact State.stopped_le_iff.mp hle

/-- An owned machine with one service, on a system that has a kernel log. -/
def ownedConfig : Config where
  errors := Reference.package
  addr := "https://localhost:4000/"
  owner := true
  noExec := false
  hasSystem := true
  services := ["PI"]
  keepaliveTimeout := "2m0s"
  keepaliveRpcTimeout := "10s"

/-- The loop boots an owned machine and spawns the monitor. -/
def bootRun : List Action :=
  [.loop .ok, .loop .ok, .loop (.err (.leaf .net .temporary "EOF") "0s"), .loop .ok,
    .loop .ok, .loop .ok, .loop .ok]

/-- The monitor finds that process 7, the supervised one, was killed. -/
def oomRun : List Action :=
  [.monitor (.pid 7), .monitor .ok, .monitor (.line "Out of memory: Kill process 7 (pi)"),
    .monitor .ok, .monitor .ok]

theorem state_monotone_ownedConfig :
    ∃ tr₁ tr₂ w₁ w₂, Steps (system ownedConfig) StopsAfterRunning (system ownedConfig).init tr₁ w₁ ∧
      Steps (system ownedConfig) StopsAfterRunning w₁ tr₂ w₂ ∧ w₁.m.state = .running ∧
      w₂.m.state = .stopped ∧ w₁.m.state ≤ w₂.m.state := by
  obtain ⟨w₁, w₂, h₁, h₂, hw₁, hw₂⟩ := exists_steps_twice (system ownedConfig)
    StopsAfterRunning (system ownedConfig).init (bootRun ++ [.loop .ok]) oomRun
    (fun w => w.m.state = .running) (fun w => w.m.state = .stopped) (by decide +kernel)
  exact ⟨_, _, w₁, w₂, h₁, h₂, hw₁, hw₂, (state_monotone ownedConfig h₁ h₂).1⟩

/-- The kernel log reports the kill before the loop sets `Running`: the machine becomes
`Stopped`, then `Running`. -/
theorem monitor_stops_before_running :
    ¬ ∀ (cfg : Config) (tr₁ tr₂ : List Action) (w₁ w₂ : World),
      Steps (system cfg) Always (system cfg).init tr₁ w₁ → Steps (system cfg) Always w₁ tr₂ w₂ →
      w₁.m.state ≤ w₂.m.state := by
  intro h
  obtain ⟨w₁, w₂, h₁, h₂, hw₁, hw₂⟩ := exists_steps_twice (system ownedConfig) Always
    (system ownedConfig).init (bootRun ++ oomRun) [.loop .ok] (fun w => w.m.state = .stopped)
    (fun w => w.m.state = .running) (by decide +kernel)
  have hle : w₁.m.state ≤ w₂.m.state := h ownedConfig _ _ w₁ w₂ h₁ h₂
  rw [hw₁, hw₂] at hle
  exact absurd hle (by decide)

/-! ## The error of a stopped machine -/

/-- A call of the loop fails, or its `select` takes the context. Errors of the two dumps are only
logged. -/
def LoopPc.fails : LoopPc → Outcome → Bool
  | .saveProfile, .err _ _ | .saveExpvars, .err _ _ => false
  | _, .err _ _ | _, .ctxDone => true
  | _, .ok | _, .unhealthy => false

/-- The line reports the kill of the process that the monitor looks for. -/
def MonitorPc.matches : MonitorPc → MonitorOutcome → Bool
  | .scan pid, .line text => contains text (look pid)
  | _, _ => false

/-- Only the goroutine that stops the machine has failed: when it sets `Stopped`, the other one is
not about to write an error of its own, and from then on no call of the loop fails and no further
line of the kernel log matches. -/
def FailsOnce (w : World) : Action → Prop
  | .loop o =>
    if .stopped ∈ w.m.history then w.loop.pc.fails o = false
    else w.loop.pc = .stop → w.monitor.pc.failing = false
  | .monitor o =>
    if .stopped ∈ w.m.history then w.monitor.pc.matches o = false
    else w.monitor.pc.stopping = true → w.loop.pc.failing = false
  | _ => True

instance (w : World) : (a : Action) → Decidable (FailsOnce w a)
  | .loop o => inferInstanceAs (Decidable (if .stopped ∈ w.m.history then w.loop.pc.fails o = false
      else w.loop.pc = .stop → w.monitor.pc.failing = false))
  | .monitor o => inferInstanceAs (Decidable (if .stopped ∈ w.m.history
      then w.monitor.pc.matches o = false
      else w.monitor.pc.stopping = true → w.loop.pc.failing = false))
  | .loopClose | .monitorClose | .cancel | .client _ => isTrue trivial

/-- Whoever sets `Stopped` has written an error before. -/
structure Recorded (w : World) : Prop where
  loop : w.loop.pc = .stop → w.m.err ≠ none
  monitor : w.monitor.pc.stopping = true → w.m.err ≠ none
  stopped : .stopped ∈ w.m.history → w.m.err ≠ none
  current : w.m.state ∈ w.m.history

theorem Recorded.setState {w : World} (h : Recorded w) {s : State}
    (hs : s = .stopped → w.m.err ≠ none) :
    (.stopped ∈ (w.m.setState s).1.history → (w.m.setState s).1.err ≠ none) ∧
      (w.m.setState s).1.state ∈ (w.m.setState s).1.history := by
  simp only [setState_history, setState_err, setState_state, List.mem_append,
    List.mem_singleton, or_true, and_true]
  rintro (hmem | hmem)
  · exact h.stopped hmem
  · exact hs hmem.symm

theorem recorded_loop {cfg : Config} {w : World} (h : Recorded w) {o : Outcome} {eff : Effect}
    {pc : LoopPc} (hn : w.loop.pc.next cfg w.canceled o = some (eff, pc)) :
    Recorded { (w.apply eff).1 with loop := ⟨pc, (w.apply eff).2⟩ } := by
  have hstop : (∀ e, eff ≠ .setErr e) → pc ≠ .stop := by
    intro hne hp
    obtain ⟨e, he⟩ := LoopPc.next_stop hn hp
    exact hne e he
  cases eff with
  | setState s =>
    have hs : s = .stopped → w.m.err ≠ none := by
      rintro rfl
      rcases LoopPc.next_setState hn with ⟨-, hs, -⟩ | ⟨-, hs, -⟩ | ⟨hpc, -⟩
      · cases hs
      · cases hs
      · exact h.loop hpc
    obtain ⟨hstopped, hcur⟩ := h.setState hs
    refine ⟨fun hp => absurd hp (hstop (by simp)), ?_, hstopped, hcur⟩
    intro hp
    simpa only [World.apply, setState_err] using h.monitor hp
  | setErr e =>
    have herr : some e ≠ none := Option.some_ne_none e
    exact ⟨fun _ => herr, fun _ => herr, fun _ => herr, h.current⟩
  | spawn =>
    exact ⟨fun hp => absurd hp (hstop (by simp)), fun hp => (by cases hp), h.stopped, h.current⟩
  | none | cancel =>
    exact ⟨fun hp => absurd hp (hstop (by simp)), h.monitor, h.stopped, h.current⟩

theorem recorded_monitor {cfg : Config} {w : World} (h : Recorded w) {o : MonitorOutcome}
    {eff : Effect} {pc : MonitorPc} (hn : w.monitor.pc.next cfg o = some (eff, pc)) :
    Recorded { (w.apply eff).1 with monitor := ⟨pc, (w.apply eff).2⟩ } := by
  obtain ⟨rfl, -, hpc⟩ | ⟨pid, -, rfl, rfl⟩ | ⟨pid, hpc, rfl, rfl⟩ := MonitorPc.next_cases hn
  · refine ⟨h.loop, fun hp => ?_, h.stopped, h.current⟩
    cases pc with
    | stop pid => exact absurd rfl (hpc pid)
    | _ => cases hp
  · have herr : some (oomError cfg.errors) ≠ none := Option.some_ne_none _
    exact ⟨fun _ => herr, fun _ => herr, fun _ => herr, h.current⟩
  · have herr : w.m.err ≠ none := h.monitor (by rw [hpc]; rfl)
    obtain ⟨hstopped, hcur⟩ := h.setState (s := .stopped) (fun _ => herr)
    refine ⟨fun hp => ?_, fun hp => (by cases hp), hstopped, hcur⟩
    simpa only [World.apply, setState_err] using h.loop hp

theorem step_recorded {cfg : Config} {w w' : World} {a : Action} (h : Recorded w)
    (hs : step cfg w a = some w') : Recorded w' := by
  obtain ⟨o, eff, pc, -, -, hn, rfl⟩ | ⟨o, eff, pc, -, -, hn, rfl⟩ | ⟨c, cs, -, rfl⟩ |
    ⟨c, cs, -, rfl⟩ | ⟨-, rfl⟩ | ⟨op, -, rfl⟩ := step_cases hs
  · exact recorded_loop h hn
  · exact recorded_monitor h hn
  · exact ⟨h.loop, h.monitor, h.stopped, h.current⟩
  · exact ⟨h.loop, h.monitor, h.stopped, h.current⟩
  · exact ⟨h.loop, h.monitor, h.stopped, h.current⟩
  · obtain ⟨hstate, herr, hhist⟩ := op.apply_spec w.m
    refine ⟨?_, ?_, ?_, ?_⟩ <;> simp only [hstate, herr, hhist]
    · exact h.loop
    · exact h.monitor
    · exact h.stopped
    · exact h.current

/-- Between the two states, a machine that has been `Stopped` keeps its error. -/
def KeepsError (w w' : World) : Prop :=
  .stopped ∈ w.m.history → .stopped ∈ w'.m.history ∧ w'.m.err = w.m.err

theorem KeepsError.trans {w w' w'' : World} (h : KeepsError w w') (h' : KeepsError w' w'') :
    KeepsError w w'' := by
  intro hw
  obtain ⟨hw', he⟩ := h hw
  obtain ⟨hw'', he'⟩ := h' hw'
  exact ⟨hw'', he'.trans he⟩

/-- Once the machine has been `Stopped`, no goroutine is about to write an error. -/
structure Settled (w : World) : Prop where
  loop : .stopped ∈ w.m.history → w.loop.pc.failing = false
  monitor : .stopped ∈ w.m.history → w.monitor.pc.failing = false

theorem LoopPc.fails_of_next {cfg : Config} {c : Bool} {pc pc' : LoopPc} {o : Outcome}
    {eff : Effect} (h : pc.next cfg c o = some (eff, pc')) (hfail : pc'.failing = true) :
    pc.fails o = true := by
  unfold LoopPc.next at h
  split at h
  all_goals first | cases h | (split at h <;> cases h)
  all_goals first | rfl | (split at hfail <;> cases hfail) | cases hfail

theorem MonitorPc.matches_of_next {cfg : Config} {pc pc' : MonitorPc} {o : MonitorOutcome}
    {eff : Effect} (h : pc.next cfg o = some (eff, pc')) (hfail : pc'.failing = true) :
    pc.matches o = true := by
  unfold MonitorPc.next at h
  split at h <;> cases h
  case h_5 pid text =>
    by_cases hmatch : contains text (look pid) = true
    · exact hmatch
    · rw [if_neg hmatch] at hfail
      cases hfail
  all_goals cases hfail

theorem settled_loop {cfg : Config} {w : World} (h : Settled w) {o : Outcome} {eff : Effect}
    {pc : LoopPc} (hn : w.loop.pc.next cfg w.canceled o = some (eff, pc))
    (hok : FailsOnce w (.loop o)) :
    Settled { (w.apply eff).1 with loop := ⟨pc, (w.apply eff).2⟩ } := by
  simp only [FailsOnce] at hok
  by_cases hmem : .stopped ∈ w.m.history
  · rw [if_pos hmem] at hok
    have hpc : pc.failing = false := by
      by_contra hfail
      have hfails := LoopPc.fails_of_next hn (by simpa using hfail)
      rw [hok] at hfails
      cases hfails
    refine ⟨fun _ => hpc, fun _ => ?_⟩
    cases eff with
    | spawn => rfl
    | none | setErr e | cancel | setState s => exact h.monitor hmem
  · rw [if_neg hmem] at hok
    cases eff with
    | setState s =>
      rcases LoopPc.next_setState hn with ⟨-, rfl, -⟩ | ⟨-, rfl, -⟩ | ⟨hpc, rfl, rfl⟩
      · exact ⟨fun hs => absurd hs (by simp [World.apply, hmem]),
          fun hs => absurd hs (by simp [World.apply, hmem])⟩
      · exact ⟨fun hs => absurd hs (by simp [World.apply, hmem]),
          fun hs => absurd hs (by simp [World.apply, hmem])⟩
      · exact ⟨fun _ => rfl, fun _ => hok hpc⟩
    | none | setErr e | cancel | spawn =>
      exact ⟨fun hs => absurd hs hmem, fun hs => absurd hs hmem⟩

theorem settled_monitor {cfg : Config} {w : World} (h : Settled w) {o : MonitorOutcome}
    {eff : Effect} {pc : MonitorPc} (hn : w.monitor.pc.next cfg o = some (eff, pc))
    (hok : FailsOnce w (.monitor o)) :
    Settled { (w.apply eff).1 with monitor := ⟨pc, (w.apply eff).2⟩ } := by
  simp only [FailsOnce] at hok
  by_cases hmem : .stopped ∈ w.m.history
  · rw [if_pos hmem] at hok
    have hpc : pc.failing = false := by
      by_contra hfail
      have hmatch := MonitorPc.matches_of_next hn (by simpa using hfail)
      rw [hok] at hmatch
      cases hmatch
    refine ⟨fun _ => ?_, fun _ => hpc⟩
    cases eff <;> exact h.loop hmem
  · rw [if_neg hmem] at hok
    obtain ⟨rfl, -, -⟩ | ⟨pid, -, rfl, rfl⟩ | ⟨pid, hpc, rfl, rfl⟩ := MonitorPc.next_cases hn
    · exact ⟨fun hs => absurd hs hmem, fun hs => absurd hs hmem⟩
    · exact ⟨fun hs => absurd hs hmem, fun hs => absurd hs hmem⟩
    · exact ⟨fun _ => hok (by rw [hpc]; rfl), fun _ => rfl⟩

theorem step_settled {cfg : Config} {w w' : World} {a : Action} (h : Settled w)
    (hok : FailsOnce w a) (hs : step cfg w a = some w') : Settled w' := by
  obtain ⟨o, eff, pc, rfl, -, hn, rfl⟩ | ⟨o, eff, pc, rfl, -, hn, rfl⟩ | ⟨c, cs, -, rfl⟩ |
    ⟨c, cs, -, rfl⟩ | ⟨-, rfl⟩ | ⟨op, -, rfl⟩ := step_cases hs
  · exact settled_loop h hn hok
  · exact settled_monitor h hn hok
  · exact ⟨h.loop, h.monitor⟩
  · exact ⟨h.loop, h.monitor⟩
  · exact ⟨h.loop, h.monitor⟩
  · have hhist : (op.apply w.m).history = w.m.history := (op.apply_spec w.m).2.2
    refine ⟨?_, ?_⟩ <;> simp only [hhist]
    · exact h.loop
    · exact h.monitor

theorem step_keepsError {cfg : Config} {w w' : World} {a : Action} (h : Settled w)
    (hs : step cfg w a = some w') : KeepsError w w' := by
  intro hw
  have heffect : ∀ eff : Effect, (∀ e, eff ≠ .setErr e) →
      .stopped ∈ (w.apply eff).1.m.history ∧ (w.apply eff).1.m.err = w.m.err := by
    intro eff heff
    cases eff with
    | setState s => simp [World.apply, hw]
    | setErr e => exact absurd rfl (heff e)
    | none | spawn | cancel => exact ⟨hw, rfl⟩
  obtain ⟨o, eff, pc, rfl, -, hn, rfl⟩ | ⟨o, eff, pc, rfl, -, hn, rfl⟩ | ⟨c, cs, -, rfl⟩ |
    ⟨c, cs, -, rfl⟩ | ⟨-, rfl⟩ | ⟨op, -, rfl⟩ := step_cases hs
  · refine heffect eff ?_
    rintro e rfl
    have hpc : w.loop.pc = .fail e := (LoopPc.next_setErr hn).1
    have hfailing := h.loop hw
    rw [hpc] at hfailing
    cases hfailing
  · refine heffect eff ?_
    rintro e rfl
    obtain ⟨he, -⟩ | ⟨pid, hpc, -⟩ | ⟨pid, -, he, -⟩ := MonitorPc.next_cases hn
    · cases he
    · have hfailing := h.monitor hw
      rw [hpc] at hfailing
      cases hfailing
    · cases he
  · exact ⟨hw, rfl⟩
  · exact ⟨hw, rfl⟩
  · exact ⟨hw, rfl⟩
  · obtain ⟨-, herr, hhist⟩ := op.apply_spec w.m
    exact ⟨by rw [hhist]; exact hw, herr⟩

/-- **The error of a stopped machine is stable.** In every run in which, when one goroutine stops
the machine, the other has not failed and does not fail afterwards: from any moment at which the
state is `Stopped`, the error is there and does not change. -/
theorem error_stable (cfg : Config) {tr₁ tr₂ : List Action} {w₁ w₂ : World}
    (h₁ : Steps (system cfg) FailsOnce (system cfg).init tr₁ w₁)
    (h₂ : Steps (system cfg) FailsOnce w₁ tr₂ w₂) (hs : w₁.m.state = .stopped) :
    ∃ e, w₁.m.err = some e ∧ w₂.m.err = some e := by
  have hinit : Recorded (system cfg).init :=
    ⟨fun hp => (by cases hp), fun hp => (by cases hp), fun hp => (by simp [system] at hp),
      List.mem_singleton_self _⟩
  have hrec : Recorded w₁ := h₁.invariant (I := Recorded)
    (fun _ _ _ hi _ hstep => step_recorded hi hstep) hinit
  have hmem : .stopped ∈ w₁.m.history := hs ▸ hrec.current
  have hsettled : ∀ w a w', Settled w → FailsOnce w a → step cfg w a = some w' → Settled w' :=
    fun _ _ _ hi hok hstep => step_settled hi hok hstep
  have hw₁ : Settled w₁ := h₁.invariant hsettled ⟨fun _ => rfl, fun _ => rfl⟩
  have hkeep : KeepsError w₁ w₂ :=
    h₂.relation (R := KeepsError) hsettled (fun _ hw => ⟨hw, rfl⟩)
      (fun _ _ _ => KeepsError.trans) (fun _ _ _ hi _ hstep => step_keepsError hi hstep) hw₁
  have hsame : w₂.m.err = w₁.m.err := (hkeep hmem).2
  obtain ⟨e, he⟩ := Option.ne_none_iff_exists'.mp (hrec.stopped hmem)
  exact ⟨e, he, hsame.trans he⟩

/-- The monitor stops the machine; after that a keepalive succeeds, and the log reports the kill of
another process. -/
theorem error_stable_ownedConfig :
    ∃ tr₁ tr₂ w₁ w₂, Steps (system ownedConfig) FailsOnce (system ownedConfig).init tr₁ w₁ ∧
      Steps (system ownedConfig) FailsOnce w₁ tr₂ w₂ ∧ w₁.m.state = .stopped ∧
      tr₂ ≠ [] ∧ ∃ e, w₁.m.err = some e ∧ w₂.m.err = some e := by
  obtain ⟨w₁, w₂, h₁, h₂, hw₁, -⟩ := exists_steps_twice (system ownedConfig) FailsOnce
    (system ownedConfig).init (bootRun ++ [.loop .ok] ++ oomRun)
    [.loop .ok, .loop .ok, .monitor (.line "Out of memory: Kill process 9 (pi)")]
    (fun w => w.m.state = .stopped) (fun _ => True) (by decide +kernel)
  exact ⟨_, _, w₁, w₂, h₁, h₂, hw₁, by simp, error_stable ownedConfig h₁ h₂ hw₁⟩

/-- The monitor stops the machine with the out-of-memory error; then the keepalive fails
and its error replaces that one. -/
theorem keepalive_error_replaces_oom :
    ¬ ∀ (cfg : Config) (tr₁ tr₂ : List Action) (w₁ w₂ : World),
      Steps (system cfg) Always (system cfg).init tr₁ w₁ → Steps (system cfg) Always w₁ tr₂ w₂ →
      w₁.m.state = .stopped → ∃ e, w₁.m.err = some e ∧ w₂.m.err = some e := by
  intro h
  obtain ⟨w₁, w₂, h₁, h₂, ⟨hs, hw₁⟩, hw₂⟩ := exists_steps_twice (system ownedConfig) Always
    (system ownedConfig).init (bootRun ++ [.loop .ok] ++ oomRun)
    [.loop (.err (.text "connection refused") "2m0s"), .loop .ok]
    (fun w => w.m.state = .stopped ∧
      w.m.err = some (.leaf .oom .unknown "bigmachine process killed by the kernel"))
    (fun w => w.m.err ≠ some (.leaf .oom .unknown "bigmachine process killed by the kernel"))
    (by decide +kernel)
  obtain ⟨e, he₁, he₂⟩ := h ownedConfig _ _ w₁ w₂ h₁ h₂ hs
  rw [hw₁] at he₁
  rw [he₂, ← he₁] at hw₂
  exact hw₂ rfl

end Bigmachine.Machine.Loop
