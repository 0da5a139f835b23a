import Bigmachine.Supervisor.Watchdog

/-!
# Machines that lose their driver

The watchdog by itself, driven by its ticker and by keepalives that may come at any time, from any
driver and with any interval that is not negative, or not at all. It looks at the clock every 30
seconds and at every keepalive, so a process exits only after its deadline, and at the latest 30
seconds after it: when the driver crashes, or can no longer reach the machine, the machine shuts
itself down (`orphan_exits`).

The watchdog also decides whether the machine is healthy, from the memory in use. It looks at most
once a minute, and then at its next tick: what it reports is never older than 90 seconds
(`health_fresh`).
-/

namespace Bigmachine.Supervisor.Expiry

open Transition
open Schedule (Watchdog second minute memProfilePeriod)

/-! ## The watchdog and its ticker -/

def tickPeriod : Nat := 30 * second

/-- `sample` is the last reading of the memory in use, with its time. -/
structure World where
  now : Nat := 0
  nextTick : Nat := tickPeriod
  watchdog : Watchdog := { next := 2 * minute }
  sample : Option (Nat × ℚ) := none

/-- The interval of a keepalive is a `time.Duration`, a signed number; the systems' are positive,
and those of a driver that sends a negative one, which ends the process at once, are left out. -/
inductive Action
  | pass (d : Nat)
  | tick (used : Option ℚ)
  | keepalive (next : Nat) (used : Option ℚ)

/-- The watchdog reads the memory in use when it wakes up. -/
def due (w : Watchdog) (now : Nat) : Bool :=
  w.lastMemProfile.all fun last => memProfilePeriod < now - last

def sampled (s : World) (used : Option ℚ) : Option (Nat × ℚ) :=
  if due s.watchdog s.now then (used.map fun u => (s.now, u)).or s.sample else s.sample

/-- The watchdog handles a tick before the clock goes on. -/
def step (s : World) : Action → Option World
  | .pass d => if s.now + d ≤ s.nextTick then some { s with now := s.now + d } else none
  | .tick used =>
    if s.now = s.nextTick then
      some { s with
        nextTick := s.now + tickPeriod
        watchdog := s.watchdog.wake s.now used
        sample := sampled s used }
    else none
  | .keepalive next used =>
    some { s with
      watchdog := (s.watchdog.keepalive s.now next used).1
      sample := sampled s used }

def system : System World Action := ⟨{}, step⟩

/-! ## The deadline -/

/-- The clock is between two ticks, and at the last of them the deadline had not passed. -/
structure Ticking (s : World) : Prop where
  now_le : s.now ≤ s.nextTick
  le_now : s.nextTick ≤ s.now + tickPeriod
  deadline : s.watchdog.exited = false → s.nextTick ≤ s.watchdog.next + tickPeriod

theorem ticking_step {s t : World} {a : Action} (h : Ticking s) (hstep : step s a = some t) :
    Ticking t := by
  cases a with
  | pass d =>
    simp only [step, Option.ite_none_right_eq_some, Option.some.injEq] at hstep
    obtain ⟨hd, rfl⟩ := hstep
    exact ⟨hd, h.le_now.trans (by dsimp only; omega), h.deadline⟩
  | tick used =>
    simp only [step, Option.ite_none_right_eq_some, Option.some.injEq] at hstep
    obtain ⟨-, rfl⟩ := hstep
    refine ⟨Nat.le_add_right _ _, Nat.le_refl _, fun hexit => ?_⟩
    rw [Watchdog.wake_exited, Bool.or_eq_false_iff, decide_eq_false_iff_not, Nat.not_lt] at hexit
    rw [Watchdog.wake_next]
    exact Nat.add_le_add_right hexit.2 _
  | keepalive next used =>
    simp only [step, Option.some.injEq] at hstep
    subst hstep
    refine ⟨h.now_le, h.le_now, fun _ => ?_⟩
    simp only [Watchdog.keepalive, Watchdog.wake_next]
    have hle := h.le_now
    omega

theorem ticking_init : Ticking system.init :=
  ⟨Nat.zero_le _, Nat.le_refl _, fun _ => Nat.le_add_left _ _⟩

/-- No keepalive comes. -/
def Silent (_ : World) : Action → Prop
  | .keepalive _ _ => False
  | _ => True

instance (s : World) : (a : Action) → Decidable (Silent s a)
  | .keepalive _ _ => isFalse id
  | .pass _ | .tick _ => isTrue trivial

/-- Without a keepalive the deadline stays, and `Exit` is not taken back. -/
theorem silent_step {s t : World} {a : Action} (hsilent : Silent s a) (hstep : step s a = some t) :
    t.watchdog.next = s.watchdog.next := by
  cases a with
  | pass d =>
    simp only [step, Option.ite_none_right_eq_some, Option.some.injEq] at hstep
    obtain ⟨-, rfl⟩ := hstep
    rfl
  | tick used =>
    simp only [step, Option.ite_none_right_eq_some, Option.some.injEq] at hstep
    obtain ⟨-, rfl⟩ := hstep
    exact Watchdog.wake_next _ _ _
  | keepalive next used => exact hsilent.elim

/-- At a tick the deadline has not passed. -/
def InTime (s : World) : Action → Prop
  | .tick _ => s.now ≤ s.watchdog.next
  | _ => True

instance (s : World) : (a : Action) → Decidable (InTime s a)
  | .tick _ => inferInstanceAs (Decidable (s.now ≤ s.watchdog.next))
  | .pass _ | .keepalive _ _ => isTrue trivial

theorem inTime_step {s t : World} {a : Action} (hexit : s.watchdog.exited = false)
    (htime : InTime s a) (hstep : step s a = some t) : t.watchdog.exited = false := by
  cases a with
  | pass d =>
    simp only [step, Option.ite_none_right_eq_some, Option.some.injEq] at hstep
    obtain ⟨-, rfl⟩ := hstep
    exact hexit
  | tick used =>
    simp only [step, Option.ite_none_right_eq_some, Option.some.injEq] at hstep
    obtain ⟨-, rfl⟩ := hstep
    rw [Watchdog.wake_exited, hexit, Bool.false_or, decide_eq_false_iff_not]
    exact Nat.not_lt.mpr htime
  | keepalive next used =>
    simp only [step, Option.some.injEq] at hstep
    subst hstep
    simp [Watchdog.keepalive, hexit]

/-- **Orphans exit.** When no keepalive comes any more, the process of a machine has exited once 30
seconds have passed since its deadline; and a watchdog whose deadline has not passed at any tick
never exits. -/
theorem orphan_exits :
    (∀ tr s tr' t, Steps system Always system.init tr s → Steps system Silent s tr' t →
      s.watchdog.next + tickPeriod < t.now → t.watchdog.exited = true) ∧
    (∀ tr s, Steps system InTime system.init tr s → s.watchdog.exited = false) := by
  constructor
  · intro tr s tr' t h h' hlate
    have hs : Ticking s := h.invariant (I := Ticking)
      (fun _ _ _ hi _ hstep => ticking_step hi hstep) ticking_init
    have ht : Ticking t := h'.invariant (I := Ticking)
      (fun _ _ _ hi _ hstep => ticking_step hi hstep) hs
    have hnext : t.watchdog.next = s.watchdog.next :=
      h'.invariant (I := fun u => u.watchdog.next = s.watchdog.next)
        (fun _ _ _ hi hsilent hstep => (silent_step hsilent hstep).trans hi) rfl
    by_contra hexit
    have hdeadline := ht.deadline (Bool.eq_false_iff.mpr hexit)
    have hnow := ht.now_le
    omega
  · intro tr s h
    exact h.invariant (I := fun u => u.watchdog.exited = false)
      (fun _ _ _ hi htime hstep => inTime_step hi htime hstep) rfl

/-- A keepalive for five minutes comes after 20 seconds, and then no other. In the other run the
deadline passes between two ticks, and a keepalive comes before the second. -/
theorem orphan_exits_after_keepalive :
    ∃ s t, Steps system Always system.init
        [.pass (20 * second), .keepalive (5 * minute) none] s ∧
      Steps system Silent s
        ([.pass (10 * second), .tick none] ++
          (List.replicate 11 [.pass (30 * second), .tick none]).flatten) t ∧
      s.watchdog.next = 5 * minute + 20 * second ∧ t.now = 6 * minute ∧
      t.watchdog.exited = true ∧
      ∃ u, Steps system InTime system.init
        [.pass (20 * second), .keepalive (5 * second) none, .pass (9 * second),
          .keepalive minute none, .pass second, .tick none] u ∧ u.watchdog.exited = false := by
  obtain ⟨s, hs, hnext, hleads⟩ := exists_steps system Always system.init
    [.pass (20 * second), .keepalive (5 * minute) none]
    (fun s => s.watchdog.next = 5 * minute + 20 * second ∧ system.Leads Silent s
      ([.pass (10 * second), .tick none] ++
        (List.replicate 11 [.pass (30 * second), .tick none]).flatten)
      (fun t => t.now = 6 * minute) = true) (by decide +kernel)
  obtain ⟨t, ht, hnow⟩ := exists_steps system Silent s _ _ hleads
  obtain ⟨u, hu, -⟩ := exists_steps system InTime system.init
    [.pass (20 * second), .keepalive (5 * second) none, .pass (9 * second),
      .keepalive minute none, .pass second, .tick none] (fun _ => True) (by decide +kernel)
  refine ⟨s, t, hs, ht, hnext, hnow, orphan_exits.1 _ s _ t hs ht ?_, u, hu,
    orphan_exits.2 _ u hu⟩
  rw [hnext, hnow]
  decide

/-! ## The health of the machine -/

theorem wake_lastMemProfile (w : Watchdog) (now : Nat) (used : Option ℚ) :
    (w.wake now used).lastMemProfile =
      if due w now then (used.map fun _ => now).or w.lastMemProfile else w.lastMemProfile := by
  unfold Watchdog.wake due
  dsimp only
  split
  · cases used <;> rfl
  · rfl

theorem wake_healthy (w : Watchdog) (now : Nat) (used : Option ℚ) :
    (w.wake now used).healthy =
      if due w now then (used.map fun u => decide (u ≤ 95)).getD w.healthy else w.healthy := by
  unfold Watchdog.wake due
  dsimp only
  split
  · cases used <;> rfl
  · rfl

/-- The watchdog reports the last reading; without one the machine is healthy. -/
structure Reported (s : World) : Prop where
  time : s.watchdog.lastMemProfile = s.sample.map Prod.fst
  healthy : s.watchdog.healthy = s.sample.all fun p => decide (p.2 ≤ 95)

theorem reported_wake {s : World} (h : Reported s) (used : Option ℚ) :
    (s.watchdog.wake s.now used).lastMemProfile = (sampled s used).map Prod.fst ∧
      (s.watchdog.wake s.now used).healthy = (sampled s used).all fun p => decide (p.2 ≤ 95) := by
  rw [wake_lastMemProfile, wake_healthy, sampled, h.time, h.healthy]
  split
  · cases used <;> simp
  · exact ⟨rfl, rfl⟩

theorem reported_step {s t : World} {a : Action} (h : Reported s) (hstep : step s a = some t) :
    Reported t := by
  cases a with
  | pass d =>
    simp only [step, Option.ite_none_right_eq_some, Option.some.injEq] at hstep
    obtain ⟨-, rfl⟩ := hstep
    exact ⟨h.time, h.healthy⟩
  | tick used =>
    simp only [step, Option.ite_none_right_eq_some, Option.some.injEq] at hstep
    obtain ⟨-, rfl⟩ := hstep
    obtain ⟨htime, hhealthy⟩ := reported_wake h used
    exact ⟨htime, hhealthy⟩
  | keepalive next used =>
    simp only [step, Option.some.injEq] at hstep
    subst hstep
    -- the new deadline has no part in it
    have h' : Reported { s with watchdog := { s.watchdog with next := s.now + next } } :=
      ⟨h.time, h.healthy⟩
    obtain ⟨htime, hhealthy⟩ := reported_wake h' used
    exact ⟨htime, hhealthy⟩

/-- The memory in use can be found out. -/
def Readable (_ : World) : Action → Prop
  | .pass _ => True
  | .tick used | .keepalive _ used => used.isSome = true

instance (s : World) : (a : Action) → Decidable (Readable s a)
  | .pass _ => isTrue trivial
  | .tick used => inferInstanceAs (Decidable (used.isSome = true))
  | .keepalive _ used => inferInstanceAs (Decidable (used.isSome = true))

/-- The next tick comes at most 90 seconds after the last reading. -/
structure Fresh (s : World) : Prop where
  ticking : Ticking s
  reported : Reported s
  first : s.sample = none → s.nextTick = tickPeriod
  sampled : ∀ p ∈ s.sample, p.1 ≤ s.now ∧ s.nextTick ≤ p.1 + memProfilePeriod + tickPeriod

/-- The reading after a wake-up is a new one, or at most a minute old. -/
theorem sampled_cases {s : World} (h : Fresh s) (u : ℚ) :
    ∃ p, sampled s (some u) = some p ∧ p.1 ≤ s.now ∧ s.now ≤ p.1 + memProfilePeriod ∧
      (p.1 = s.now ∨ sampled s (some u) = s.sample) := by
  unfold Expiry.sampled
  by_cases hdue : due s.watchdog s.now = true
  · exact ⟨(s.now, u), by simp [hdue], Nat.le_refl _, Nat.le_add_right _ _, Or.inl rfl⟩
  · rw [if_neg hdue]
    rw [due, h.reported.time] at hdue
    cases hsample : s.sample with
    | none => simp [hsample] at hdue
    | some p =>
      have hle := (h.sampled p hsample).1
      rw [hsample] at hdue
      simp only [Option.map_some, Option.all_some, decide_eq_true_eq, Nat.not_lt] at hdue
      exact ⟨p, rfl, hle, by omega, Or.inr rfl⟩

theorem fresh_step {s t : World} {a : Action} (h : Fresh s) (hread : Readable s a)
    (hstep : step s a = some t) : Fresh t := by
  have hticking := ticking_step h.ticking hstep
  have hreported := reported_step h.reported hstep
  cases a with
  | pass d =>
    simp only [step, Option.ite_none_right_eq_some, Option.some.injEq] at hstep
    obtain ⟨-, rfl⟩ := hstep
    refine ⟨hticking, hreported, h.first, fun p hp => ?_⟩
    obtain ⟨hle, htick⟩ := h.sampled p hp
    exact ⟨hle.trans (Nat.le_add_right _ _), htick⟩
  | tick used =>
    simp only [step, Option.ite_none_right_eq_some, Option.some.injEq] at hstep
    obtain ⟨-, rfl⟩ := hstep
    obtain ⟨u, rfl⟩ := Option.isSome_iff_exists.mp hread
    obtain ⟨p, hp, hle, hage, -⟩ := sampled_cases h u
    refine ⟨hticking, hreported, fun hnone => ?_, fun q hq => ?_⟩
    · cases hp.symm.trans hnone
    · cases hp.symm.trans hq
      exact ⟨hle, Nat.add_le_add_right hage _⟩
  | keepalive next used =>
    simp only [step, Option.some.injEq] at hstep
    subst hstep
    obtain ⟨u, rfl⟩ := Option.isSome_iff_exists.mp hread
    obtain ⟨p, hp, hle, hage, hcases⟩ := sampled_cases h u
    refine ⟨hticking, hreported, fun hnone => ?_, fun q hq => ?_⟩
    · cases hp.symm.trans hnone
    · cases hp.symm.trans hq
      rcases hcases with hnow | hsame
      · have htick := h.ticking.le_now
        refine ⟨hle, ?_⟩
        dsimp only
        omega
      · exact h.sampled p (hsame.symm.trans hp)

theorem fresh_init : Fresh system.init :=
  ⟨ticking_init, ⟨rfl, rfl⟩, fun _ => rfl, fun _ hp => nomatch hp⟩

/-- **Health is fresh.** What the watchdog reports is always its last reading of the memory in use;
and when the memory in use can be read, from the first tick on that reading is at most 90 seconds
old, however the keepalives fall. -/
theorem health_fresh :
    (∀ tr s, Steps system Always system.init tr s →
      s.watchdog.healthy = s.sample.all fun p => decide (p.2 ≤ 95)) ∧
    (∀ tr s, Steps system Readable system.init tr s → tickPeriod < s.now →
      ∃ p, s.sample = some p ∧ s.now ≤ p.1 + 90 * second ∧
        s.watchdog.healthy = decide (p.2 ≤ 95)) := by
  constructor
  · intro tr s h
    have hs : Reported s := h.invariant (I := Reported)
      (fun _ _ _ hi _ hstep => reported_step hi hstep) ⟨rfl, rfl⟩
    exact hs.healthy
  · intro tr s h hnow
    have hs : Fresh s := h.invariant (I := Fresh)
      (fun _ _ _ hi hread hstep => fresh_step hi hread hstep) fresh_init
    have hle := hs.ticking.now_le
    cases hsample : s.sample with
    | none =>
      have hfirst := hs.first hsample
      omega
    | some p =>
      have htick := (hs.sampled p hsample).2
      have hninety : memProfilePeriod + tickPeriod = 90 * second := rfl
      refine ⟨p, rfl, by omega, ?_⟩
      rw [hs.reported.healthy, hsample, Option.all_some]

theorem health_fresh_after_minute :
    ∃ s, Steps system Readable system.init
        [.pass (30 * second), .tick (some 97), .pass (30 * second), .tick (some 12),
          .pass (20 * second)] s ∧
      ∃ p, s.sample = some p ∧ s.now ≤ p.1 + 90 * second ∧
        s.watchdog.healthy = decide (p.2 ≤ 95) := by
  obtain ⟨s, hs, hnow⟩ := exists_steps system Readable system.init
    [.pass (30 * second), .tick (some 97), .pass (30 * second), .tick (some 12),
      .pass (20 * second)]
    (fun s => tickPeriod < s.now) (by decide +kernel)
  exact ⟨s, hs, health_fresh.2 _ s hs hnow⟩

end Bigmachine.Supervisor.Expiry
