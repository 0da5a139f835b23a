import Bigmachine.Machine.Loop

/-!
# The keepalive schedule and the watchdog

The watchdog of a supervisor ends the process when the deadline set by the last keepalive
has passed; the first deadline is two minutes after the start. The driver's loop makes the
keepalives, and between them it waits for its timer and makes other calls: the ping and the
registrations before the first one, two dumps after the reply of an unhealthy machine.

The system runs the control flow of `Machine.loop` (`LoopPc.next`) from the ping of the new
process on, beside the watchdog, over one clock. Calls take any time up to their timeouts;
pings, registrations and keepalives succeed, and a keepalive takes no time.

`work` is the time spent in calls since the last keepalive, or since the start, and
`allowance` the time that the watchdog grants: two minutes, later five. The timer of the
loop never breaks the deadline, so the deadline is met exactly while `work ≤ allowance`
(`deadline_met_iff_work_le`). Nothing in the loop ensures that: with seven registrations of 24
seconds the watchdog exits before the first keepalive (`registrations_starve_watchdog`), and so it
does when the dumps take over five minutes.
-/

namespace Bigmachine.Supervisor.Schedule

open Errors Transition
open Machine.Loop (LoopPc Config Outcome)

/-! ## The watchdog -/

/-- Times and durations are in nanoseconds, times since the start of the supervisor. -/
def second : Nat := 1000000000

def minute : Nat := 60 * second

def memProfilePeriod : Nat := minute

structure Watchdog where
  next : Nat
  lastMemProfile : Option Nat := none
  healthy : Bool := true
  exited : Bool := false

/-- What `watchdog` does when it wakes up, given the percentage of memory in use, if it
could be found out. -/
def Watchdog.wake (w : Watchdog) (now : Nat) (used : Option ℚ) : Watchdog :=
  let w := { w with exited := w.exited || decide (w.next < now) }
  if w.lastMemProfile.all (fun last => memProfilePeriod < now - last) then
    match used with
    | none => w
    | some u => { w with healthy := decide (u ≤ 95), lastMemProfile := some now }
  else w

/-- `Supervisor.Keepalive`: the watchdog receives the new deadline; the time until then is
the reply. -/
def Watchdog.keepalive (w : Watchdog) (now next : Nat) (used : Option ℚ) : Watchdog × Nat :=
  let t := now + next
  ({ w with next := t }.wake now used, t - now)

@[simp] theorem Watchdog.wake_next (w : Watchdog) (now : Nat) (used : Option ℚ) :
    (w.wake now used).next = w.next := by
  unfold Watchdog.wake
  dsimp only
  split
  · split <;> rfl
  · rfl

@[simp] theorem Watchdog.wake_exited (w : Watchdog) (now : Nat) (used : Option ℚ) :
    (w.wake now used).exited = (w.exited || decide (w.next < now)) := by
  unfold Watchdog.wake
  dsimp only
  split
  · split <;> rfl
  · rfl

/-! ## The driver's loop over time -/

/-- The interval that the loop asks for. -/
def keepalive : Nat := 5 * minute

/-- `inCall` is the time since the current step of the loop began, and `nextc` is when the timer of
the loop fires. The ghost fields are the time of the last keepalive, or of the start (`since`), the
time spent in calls since then (`work`), and what the watchdog granted then (`allowance`). -/
structure World where
  pc : LoopPc := .ping
  now : Nat := 0
  inCall : Nat := 0
  nextc : Nat := 0
  watchdog : Watchdog := { next := 2 * minute }
  since : Nat := 0
  work : Nat := 0
  allowance : Nat := 2 * minute

/-- Time passes while the loop is in a call or waits for its timer, the current step of the loop
ends (`loop`), a keepalive is made and answered, or the watchdog receives a tick. -/
inductive Action
  | pass (d : Nat)
  | loop (o : Outcome)
  | keepalive (o : Outcome) (used : Option ℚ)
  | tick (used : Option ℚ)

/-- How long a step of the loop may take. -/
def limit : LoopPc → Nat
  | .ping => 3 * minute
  | .register (_ :: _) => 25 * second
  | .saveProfile => minute
  -- a `retryCall` with 5 minutes in all and 25 seconds for each RPC
  | .saveExpvars => 5 * minute + 25 * second
  | _ => 0

def MayPass (s : World) (d : Nat) : Prop :=
  if s.pc = .select then s.now + d ≤ s.nextc else s.inCall + d ≤ limit s.pc

instance (s : World) (d : Nat) : Decidable (MayPass s d) := by
  unfold MayPass; infer_instance

/-- Pings, registrations and keepalives succeed. -/
def Succeeds : LoopPc → Outcome → Bool
  | .ping, .err _ _ | .register _, .err _ _ | .keepalive, .err _ _ => false
  | _, _ => true

def step (cfg : Config) (keepalivePeriod : Nat) (s : World) : Action → Option World
  | .pass d =>
    if MayPass s d then
      some { s with
        now := s.now + d
        inCall := s.inCall + d
        work := if s.pc = .select then s.work else s.work + d }
    else none
  | .loop o =>
    if s.pc ≠ .keepalive ∧ Succeeds s.pc o ∧ (s.pc = .select → s.nextc ≤ s.now) then
      (s.pc.next cfg false o).map fun n => { s with pc := n.2, inCall := 0 }
    else none
  | .keepalive o used =>
    if s.pc = .keepalive ∧ Succeeds s.pc o then
      (s.pc.next cfg false o).map fun n =>
        let called := s.watchdog.keepalive s.now keepalive used
        let next := if called.2 > keepalivePeriod then keepalivePeriod else called.2
        { pc := n.2, now := s.now, inCall := 0, nextc := s.now + next / 2, watchdog := called.1,
          since := s.now, work := 0, allowance := keepalive }
    else none
  | .tick used => some { s with watchdog := s.watchdog.wake s.now used }

def system (cfg : Config) (keepalivePeriod : Nat) : System World Action :=
  ⟨{}, step cfg keepalivePeriod⟩

/-! ## Phases of the loop -/

inductive Phase
  | boot | beat | dump | wait | other
  deriving DecidableEq, Repr

def phase : LoopPc → Phase
  | .ping | .register _ | .spawn | .setRunning => .boot
  | .keepalive => .beat
  | .saveProfile | .saveExpvars => .dump
  | .select => .wait
  | _ => .other

/-- The order of the phases: boot, then keepalives with a wait between them, and a dump
before some of the waits. -/
theorem next_phase {cfg : Config} (howner : cfg.owner = true) {pc pc' : LoopPc} {o : Outcome}
    {eff : Machine.Loop.Effect} (hs : Succeeds pc o = true)
    (h : pc.next cfg false o = some (eff, pc')) :
    (phase pc = .boot → phase pc' = .boot ∨ phase pc' = .beat) ∧
    (phase pc = .beat → phase pc' = .wait ∨ phase pc' = .dump) ∧
    (phase pc = .dump → phase pc' = .dump ∨ phase pc' = .wait) ∧
    (phase pc = .wait → phase pc' = .beat) := by
  match pc, o with
  | .ping, .ok | .register (_ :: _), .ok | .spawn, .ok | .setRunning, .ok | .keepalive, .ok
  | .keepalive, .unhealthy | .saveProfile, .ok | .saveProfile, .err _ _ | .saveExpvars, .ok
  | .saveExpvars, .err _ _ | .select, .ok =>
    cases h
    simp [phase, howner]
  | .register [], .ok =>
    cases h
    split <;> simp [phase]
  | .start, _ | .bootPing, _ | .exec, _ | .dialed, _ | .pinging, _ | .fail _, _ | .stop, _
  | .returned, _ | .done, _ => simp [phase]

theorem phase_eq_wait {pc : LoopPc} : phase pc = .wait ↔ pc = .select := by
  cases pc <;> simp [phase]

theorem phase_eq_beat {pc : LoopPc} : phase pc = .beat ↔ pc = .keepalive := by
  cases pc <;> simp [phase]

/-! ## The clock in each phase -/

/-- In calls the clock runs with `work`; beyond that it runs only while the loop waits for
its timer, which is set to at most half of the allowance. -/
def Clocked (s : World) : Phase → Prop
  | .boot => s.now = s.since + s.work
  | .dump => s.now = s.since + s.work ∧ s.nextc ≤ s.since + keepalive / 2 ∧ s.allowance = keepalive
  | .wait => s.since + s.work ≤ s.now ∧ (s.now = s.since + s.work ∨ s.now ≤ s.nextc) ∧
      s.nextc ≤ s.since + keepalive / 2 ∧ s.allowance = keepalive
  | .beat => s.since + s.work ≤ s.now ∧ (s.now = s.since + s.work ∨
      (s.now ≤ s.since + keepalive / 2 ∧ s.allowance = keepalive))
  | .other => False

structure Timing (s : World) : Prop where
  deadline : s.watchdog.next = s.since + s.allowance
  clock : Clocked s (phase s.pc)

theorem Timing.pass {s : World} (h : Timing s) {d : Nat} (hd : MayPass s d) :
    Timing { s with
      now := s.now + d
      inCall := s.inCall + d
      work := if s.pc = .select then s.work else s.work + d } := by
  refine ⟨h.deadline, ?_⟩
  have hclock := h.clock
  unfold MayPass at hd
  cases hp : phase s.pc with
  | boot | dump =>
    have hsel : s.pc ≠ .select := by
      intro hs
      simp [hs, phase] at hp
    rw [hp] at hclock
    simp only [Clocked, hsel, if_false] at hclock ⊢
    omega
  | wait =>
    have hsel : s.pc = .select := phase_eq_wait.mp hp
    rw [hp] at hclock
    rw [if_pos hsel] at hd
    simp only [Clocked, hsel, if_true] at hclock ⊢
    omega
  | beat =>
    have hbeat : s.pc = .keepalive := phase_eq_beat.mp hp
    rw [hp] at hclock
    simp only [hbeat, limit, reduceCtorEq, if_false] at hd
    simp only [Clocked, hbeat, reduceCtorEq, if_false] at hclock ⊢
    omega
  | other =>
    rw [hp] at hclock
    exact hclock.elim

theorem Timing.loop {cfg : Config} (howner : cfg.owner = true) {s : World} (h : Timing s)
    {o : Outcome} {eff : Machine.Loop.Effect} {pc : LoopPc} (hbeat : s.pc ≠ .keepalive)
    (hs : Succeeds s.pc o = true) (hn : s.pc.next cfg false o = some (eff, pc)) :
    Timing { s with pc := pc, inCall := 0 } := by
  refine ⟨h.deadline, ?_⟩
  have hclock := h.clock
  obtain ⟨hboot, -, hdump, hwait⟩ := next_phase howner hs hn
  cases hp : phase s.pc with
  | boot =>
    rw [hp] at hclock
    rcases hboot hp with hp' | hp' <;> simp only [hp', Clocked] at hclock ⊢
    · exact hclock
    · exact ⟨hclock.ge, Or.inl hclock⟩
  | dump =>
    rw [hp] at hclock
    rcases hdump hp with hp' | hp' <;> simp only [hp', Clocked] at hclock ⊢
    · exact hclock
    · exact ⟨hclock.1.ge, Or.inl hclock.1, hclock.2⟩
  | wait =>
    rw [hp] at hclock
    simp only [hwait hp, Clocked] at hclock ⊢
    omega
  | beat => exact absurd (phase_eq_beat.mp hp) hbeat
  | other =>
    rw [hp] at hclock
    exact hclock.elim

theorem Timing.beat {cfg : Config} (howner : cfg.owner = true) {s : World}
    {o : Outcome} {eff : Machine.Loop.Effect} {pc : LoopPc} (hbeat : s.pc = .keepalive)
    (hs : Succeeds s.pc o = true) (hn : s.pc.next cfg false o = some (eff, pc))
    {next : Nat} (hnext : next ≤ keepalive) {w : Watchdog}
    (hw : w.next = s.now + keepalive) :
    Timing { pc := pc, now := s.now, inCall := 0, nextc := s.now + next / 2, watchdog := w,
             since := s.now, work := 0, allowance := keepalive } := by
  have hhalf : next / 2 ≤ keepalive / 2 := Nat.div_le_div_right hnext
  have htimer : s.now + next / 2 ≤ s.now + keepalive / 2 := Nat.add_le_add_left hhalf _
  have hphase : phase pc = .wait ∨ phase pc = .dump :=
    (next_phase howner hs hn).2.1 (phase_eq_beat.mpr hbeat)
  refine ⟨hw, ?_⟩
  change Clocked _ (phase pc)
  rcases hphase with hp | hp <;> rw [hp]
  · exact ⟨le_rfl, Or.inl rfl, htimer, rfl⟩
  · exact ⟨rfl, htimer, rfl⟩

theorem step_timing {cfg : Config} (howner : cfg.owner = true) {period : Nat} {s s' : World}
    {a : Action} (h : Timing s) (hstep : step cfg period s a = some s') : Timing s' := by
  cases a with
  | pass d =>
    simp only [step] at hstep
    split at hstep
    · rename_i hd
      cases hstep
      exact h.pass hd
    · cases hstep
  | loop o =>
    simp only [step] at hstep
    split at hstep
    · rename_i hg
      obtain ⟨⟨eff, pc⟩, hn, rfl⟩ := Option.map_eq_some_iff.mp hstep
      exact h.loop howner hg.1 hg.2.1 hn
    · cases hstep
  | keepalive o used =>
    simp only [step] at hstep
    split at hstep
    · rename_i hg
      obtain ⟨⟨eff, pc⟩, hn, rfl⟩ := Option.map_eq_some_iff.mp hstep
      refine Timing.beat howner hg.1 hg.2 hn ?_ (by simp [Watchdog.keepalive])
      simp only [Watchdog.keepalive, Nat.add_sub_cancel_left]
      split <;> omega
    · cases hstep
  | tick used =>
    cases hstep
    exact ⟨(Watchdog.wake_next _ _ _).trans h.deadline, h.clock⟩

theorem Timing.now_le_iff {s : World} (h : Timing s) :
    s.now ≤ s.watchdog.next ↔ s.work ≤ s.allowance := by
  have hclock := h.clock
  have hhalf : keepalive / 2 ≤ keepalive := Nat.div_le_self _ _
  rw [h.deadline]
  cases hp : phase s.pc <;> rw [hp] at hclock <;> simp only [Clocked] at hclock <;> omega

/-! ## The schedule -/

/-- Time does not pass in calls beyond the allowance. -/
def WithinAllowance (s : World) : Action → Prop
  | .pass d => s.pc = .select ∨ s.work + d ≤ s.allowance
  | _ => True

instance (s : World) : (a : Action) → Decidable (WithinAllowance s a)
  | .pass d => inferInstanceAs (Decidable (s.pc = .select ∨ s.work + d ≤ s.allowance))
  | .loop _ | .keepalive _ _ | .tick _ => isTrue trivial

/-- The calls are within their allowance and the watchdog has not exited. -/
def Alive (s : World) : Prop :=
  Timing s ∧ s.work ≤ s.allowance ∧ s.watchdog.exited = false

theorem step_alive {cfg : Config} (howner : cfg.owner = true) {period : Nat} {s s' : World}
    {a : Action} (h : Alive s) (hok : WithinAllowance s a)
    (hstep : step cfg period s a = some s') : Alive s' := by
  obtain ⟨htiming, hwork, hexit⟩ := h
  refine ⟨step_timing howner htiming hstep, ?_⟩
  cases a with
  | pass d =>
    simp only [step] at hstep
    split at hstep
    · cases hstep
      refine ⟨?_, hexit⟩
      rcases hok with hsel | hle
      · simpa only [hsel, if_true] using hwork
      · dsimp only
        split
        · exact hwork
        · exact hle
    · cases hstep
  | loop o =>
    simp only [step] at hstep
    split at hstep
    · obtain ⟨n, -, rfl⟩ := Option.map_eq_some_iff.mp hstep
      exact ⟨hwork, hexit⟩
    · cases hstep
  | keepalive o used =>
    simp only [step] at hstep
    split at hstep
    · obtain ⟨n, -, rfl⟩ := Option.map_eq_some_iff.mp hstep
      refine ⟨Nat.zero_le _, ?_⟩
      simp [Watchdog.keepalive, hexit]
    · cases hstep
  | tick used =>
    cases hstep
    have hnow : s.now ≤ s.watchdog.next := htiming.now_le_iff.mpr hwork
    refine ⟨hwork, ?_⟩
    simp [hexit, hnow]

theorem init_timing (cfg : Config) (period : Nat) : Timing (system cfg period).init :=
  ⟨(Nat.zero_add _).symm, rfl⟩

/-- **The deadline is met exactly while the calls are within the allowance.** In every
state of every run on an owned machine, the deadline of the watchdog has not passed if and
only if the calls since the last keepalive took at most five minutes, or those since the
start at most two. In runs that keep to this, every keepalive comes in time and the
watchdog never exits, whenever it wakes up. -/
theorem deadline_met_iff_work_le (cfg : Config) (howner : cfg.owner = true) (period : Nat) :
    (∀ tr s, Steps (system cfg period) Always (system cfg period).init tr s →
      (s.now ≤ s.watchdog.next ↔ s.work ≤ s.allowance)) ∧
    (∀ tr s, Steps (system cfg period) WithinAllowance (system cfg period).init tr s →
      s.now ≤ s.watchdog.next ∧ s.watchdog.exited = false) := by
  constructor
  · intro tr s h
    have hs : Timing s := h.invariant (I := Timing)
      (fun _ _ _ hi _ hstep => step_timing howner hi hstep) (init_timing cfg period)
    exact hs.now_le_iff
  · intro tr s h
    have hinit : Alive (system cfg period).init := ⟨init_timing cfg period, Nat.zero_le _, rfl⟩
    have hs : Alive s := h.invariant (I := Alive)
      (fun _ _ _ hi hok hstep => step_alive howner hi hok hstep) hinit
    obtain ⟨htiming, hwork, hexit⟩ := hs
    exact ⟨htiming.now_le_iff.mpr hwork, hexit⟩

/-- An owned machine with the given services and without a kernel log. -/
def config (services : List String) : Config where
  errors := Reference.package
  addr := "https://localhost:4000/"
  owner := true
  noExec := false
  hasSystem := false
  services := services
  keepaliveTimeout := "2m0s"
  keepaliveRpcTimeout := "10s"

/-- A service is registered in 24 seconds. -/
def slowRegister : List Action := [.pass (24 * second), .loop .ok]

theorem deadline_met_iff_work_le_config :
    ∃ s, Steps (system (config ["PI"]) minute) WithinAllowance
        (system (config ["PI"]) minute).init
        ([.loop .ok] ++ slowRegister ++ [.loop .ok, .loop .ok, .keepalive .ok none,
          .pass (30 * second), .loop .ok]) s ∧
      s.pc = .keepalive ∧ s.now = 54 * second ∧ s.now ≤ s.watchdog.next ∧
      s.watchdog.exited = false := by
  obtain ⟨s, h, hpc, hnow⟩ := exists_steps (system (config ["PI"]) minute) WithinAllowance
    (system (config ["PI"]) minute).init
    ([Action.loop .ok] ++ slowRegister ++ [Action.loop .ok, Action.loop .ok,
      Action.keepalive .ok none, Action.pass (30 * second), Action.loop .ok])
    (fun s => s.pc = .keepalive ∧ s.now = 54 * second) (by decide +kernel)
  have hmet := (deadline_met_iff_work_le (config ["PI"]) rfl minute).2 _ s h
  exact ⟨s, h, hpc, hnow, hmet.1, hmet.2⟩

/-- Seven services are registered in 24 seconds each: the deadline passes before the first
keepalive, and the watchdog exits at its tick after two and a half minutes. -/
theorem registrations_starve_watchdog :
    ¬ ∀ (cfg : Config) (period : Nat) (tr : List Action) (s : World), cfg.owner = true →
      Steps (system cfg period) Always (system cfg period).init tr s →
      (s.pc = .keepalive → s.now ≤ s.watchdog.next) ∧ s.watchdog.exited = false := by
  intro h
  obtain ⟨s, hs, -, hexit⟩ := exists_steps
    (system (config ["A", "B", "C", "D", "E", "F", "G"]) minute) Always
    (system (config ["A", "B", "C", "D", "E", "F", "G"]) minute).init
    ([Action.loop .ok] ++ (List.replicate 6 slowRegister).flatten ++
      [Action.pass (6 * second), Action.tick none, Action.pass (18 * second), Action.loop .ok,
        Action.loop .ok, Action.loop .ok])
    (fun s => (s.pc = .keepalive ∧ ¬ s.now ≤ s.watchdog.next) ∧ s.watchdog.exited = true)
    (by decide +kernel)
  have halive : s.watchdog.exited = false := (h _ _ _ s rfl hs).2
  rw [hexit] at halive
  cases halive

end Bigmachine.Supervisor.Schedule
