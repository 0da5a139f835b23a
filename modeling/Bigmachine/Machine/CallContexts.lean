import Bigmachine.Machine.CallSemantics

/-!
# The contexts of many calls

Any number of calls on one machine, all with the same caller's context. The calls take the steps of
`advance`; their RPCs return anything, and the state of the machine changes in any way.

`context` derives a context with `context.WithCancel`, which ties it to the caller's until its
cancel function is called. The function that `context` returns does not call it: it only takes the
context out of `m.cancelers`. So a call that returns while its context is alive leaves the context
behind, and after `n` such calls there are `n` of them (`calls_accumulate`). If no call does so,
every context that is alive is held by a call in progress (`Held`).
-/

namespace Bigmachine.Machine.Call

open Errors Transition
open Loop (Config)

def Pc.inProgress : Pc → Bool
  | returned _ | backoff | finished _ => false
  | _ => true

/-- `pcs` has the calls in the order of their start, also those that have returned, and `closes`
the channels that `setState` has still to close. -/
structure Calls where
  m : Machine := {}
  closes : List Chan := []
  caller : Option CtxErr := none
  pcs : List Pc := []

namespace Calls

/-- `start` begins a call, and `call` is a step of the `i`-th one. `wait` is a `Wait` of another
goroutine, and in `propagate` the derived context `c` sees the end of the caller's. -/
inductive Action
  | start
  | call (i : Nat) (x : Input)
  | setState (s : State)
  | close (ch : Chan)
  | setErr (e : Err)
  | wait (s : State)
  | callerDone (e : CtxErr)
  | propagate (c : Ctx)
  deriving DecidableEq, Repr

/-- One step of a call, with the machine and the program counter after it. -/
def next (cfg : Config) (s : Calls) : Pc → Input → Option (Machine × Pc)
  | .inFlight c, .rpc r => some (s.m, .compare c r)
  | .returned _, _ => none
  | pc, x =>
    (advance cfg { w := { m := s.m }, caller := s.caller } pc x).map fun t => (t.w.m, t.pc)

def step (cfg : Config) (s : Calls) : Action → Option Calls
  | .start => some { s with pcs := s.pcs ++ [.poll] }
  | .call i x =>
    (s.pcs[i]?).bind fun pc => (next cfg s pc x).map fun (m, pc) =>
      { s with m := m, pcs := s.pcs.set i pc }
  | .setState st =>
    some { s with m := (s.m.setState st).1, closes := s.closes ++ (s.m.setState st).2 }
  | .close ch =>
    if ch ∈ s.closes then some { s with m := s.m.close ch, closes := s.closes.erase ch } else none
  | .setErr e => some { s with m := s.m.setErr e }
  | .wait st => some { s with m := (s.m.wait st).1 }
  | .callerDone e => some { s with caller := some (s.caller.getD e) }
  | .propagate c =>
    match s.caller with
    | some e => if c < s.m.nextCtx then some { s with m := s.m.parentDone c e } else none
    | none => none

def system (cfg : Config) : System Calls Action := ⟨{}, step cfg⟩

/-! ## What is counted -/

/-- The context is not canceled, and its cancel function has not been called. -/
def Alive (m : Machine) (c : Ctx) : Prop := (m.ctxs c).err = none ∧ (m.ctxs c).byMachine = false

instance (m : Machine) (c : Ctx) : Decidable (Alive m c) := inferInstanceAs (Decidable (_ ∧ _))

/-- The contexts made by `context` that are alive. -/
def alive (s : Calls) : List Ctx := (List.range s.m.nextCtx).filter (Alive s.m ·)

/-- The number of calls in progress. -/
def inProgress (s : Calls) : Nat := s.pcs.countP Pc.inProgress

/-! ## What one step does -/

/-- A step of a call makes its context, leaves it or keeps it. -/
theorem advance_ctx {cfg : Config} {s s' : Calling} {pc : Pc} {x : Input}
    (h : advance cfg s pc x = some s') :
    (pc = .derive ∧ s'.w.m = (s.w.m.context s.caller).1 ∧ s'.pc = .issue s.w.m.nextCtx) ∨
    (∃ c r, pc = .leave c r ∧ s'.w.m = s.w.m.release c ∧ s'.pc = .returned r) ∨
    (s'.w.m.ctxs = s.w.m.ctxs ∧ s'.w.m.nextCtx = s.w.m.nextCtx ∧ s'.pc.ctx = pc.ctx) := by
  match pc, x with
  | .derive, .go =>
    cases h
    exact Or.inl ⟨rfl, rfl, by simp⟩
  | .leave c r, .go =>
    cases h
    exact Or.inr (Or.inl ⟨c, r, rfl, rfl, rfl⟩)
  | .wait, .go =>
    cases h
    exact Or.inr (Or.inr ⟨by simp, by simp, rfl⟩)
  | .poll, .go | .inFlight _, .rpc _ | .compare _ (some _), .go | .recheck _ _, .go
  | .select _, .reached | .returned (some _), .go =>
    simp only [advance] at h
    split at h <;> cases h <;> exact Or.inr (Or.inr ⟨rfl, rfl, rfl⟩)
  | .select _, .ctxDone =>
    obtain ⟨e, -, rfl⟩ := Option.map_eq_some_iff.mp h
    exact Or.inr (Or.inr ⟨rfl, rfl, rfl⟩)
  | .issue _, .go | .compare _ none, .go | .stopped (some _), .go | .stopped none, .go
  | .returned none, .go | .backoff, .waitErr _ | .backoff, .waited =>
    cases h
    exact Or.inr (Or.inr ⟨rfl, rfl, rfl⟩)

theorem next_ctx {cfg : Config} {s : Calls} {pc pc' : Pc} {x : Input} {m : Machine}
    (h : next cfg s pc x = some (m, pc')) :
    (pc = .derive ∧ m = (s.m.context s.caller).1 ∧ pc' = .issue s.m.nextCtx) ∨
    (∃ c r, pc = .leave c r ∧ m = s.m.release c ∧ pc' = .returned r) ∨
    (m.ctxs = s.m.ctxs ∧ m.nextCtx = s.m.nextCtx ∧ pc'.ctx = pc.ctx) := by
  unfold next at h
  split at h
  · cases h
    exact Or.inr (Or.inr ⟨rfl, rfl, rfl⟩)
  · cases h
  · obtain ⟨t, ht, heq⟩ := Option.map_eq_some_iff.mp h
    obtain ⟨rfl, rfl⟩ := Prod.mk.inj heq
    exact advance_ctx ht

theorem alive_of_setState {m : Machine} {st : State} {c : Ctx}
    (h : Alive (m.setState st).1 c) : Alive m c := by
  unfold setState at h
  dsimp only at h
  split at h
  · by_cases hc : c ∈ m.cancelers
    · simp [Alive, cancelAll, hc] at h
    · simpa [Alive, cancelAll, hc] using h
  · exact h

theorem alive_of_parentDone {m : Machine} {c d : Ctx} {e : CtxErr}
    (h : Alive (m.parentDone d e) c) : Alive m c := by
  by_cases hc : c = d
  · subst hc
    simp [Alive, parentDone] at h
  · simpa [Alive, parentDone, Function.update_of_ne hc] using h

/-! ## Contexts that are held -/

/-- One of the calls holds the context. -/
def Holds (pcs : List Pc) (c : Ctx) : Prop :=
  ∃ (i : Nat) (pc : Pc), pcs[i]? = some pc ∧ pc.ctx = some c

/-- Every context that is alive is held by a call. -/
def Held (s : Calls) : Prop := ∀ c < s.m.nextCtx, Alive s.m c → Holds s.pcs c

/-- The call, if it is about to return, has a context that is not alive any more. -/
def Leaves (m : Machine) : Option Pc → Prop
  | some (.leave c _) => ¬ Alive m c
  | _ => True

instance (m : Machine) : (pc : Option Pc) → Decidable (Leaves m pc)
  | some (.leave _ _) => inferInstanceAs (Decidable (¬ _))
  | none | some .poll | some .derive | some (.issue _) | some (.inFlight _) | some (.compare _ _)
  | some (.recheck _ _) | some (.stopped _) | some .wait | some (.select _) | some (.returned _)
  | some .backoff | some (.finished _) => isTrue trivial

/-- A call that has derived a context returns only when the context is done. -/
def LeavesDone (s : Calls) : Action → Prop
  | .call i _ => Leaves s.m s.pcs[i]?
  | _ => True

instance (s : Calls) : (a : Action) → Decidable (LeavesDone s a)
  | .call _ _ => inferInstanceAs (Decidable (Leaves _ _))
  | .start | .setState _ | .close _ | .setErr _ | .wait _ | .callerDone _ | .propagate _ =>
    isTrue trivial

/-- A step that makes no contexts and moves no call. -/
theorem Held.frame {s t : Calls} (h : Held s) (hn : t.m.nextCtx = s.m.nextCtx)
    (halive : ∀ c, Alive t.m c → Alive s.m c) (hpcs : t.pcs = s.pcs) : Held t := by
  intro c hc ht
  rw [hn] at hc
  rw [hpcs]
  exact h c hc (halive c ht)

theorem Held.call {cfg : Config} {s : Calls} {i : Nat} {pc pc' : Pc} {x : Input} {m : Machine}
    (h : Held s) (hpc : s.pcs[i]? = some pc) (hleave : Leaves s.m (some pc))
    (hnext : next cfg s pc x = some (m, pc')) :
    Held { s with m := m, pcs := s.pcs.set i pc' } := by
  have hlt : i < s.pcs.length := (List.getElem?_eq_some_iff.mp hpc).1
  have hself : (s.pcs.set i pc')[i]? = some pc' := List.getElem?_set_self hlt
  -- the other calls hold what they held
  have hother : ∀ c, pc.ctx ≠ some c → Holds s.pcs c → Holds (s.pcs.set i pc') c := by
    rintro c hne ⟨j, q, hj, hq⟩
    have hij : i ≠ j := by
      rintro rfl
      cases hpc.symm.trans hj
      exact hne hq
    exact ⟨j, q, by rw [List.getElem?_set_ne hij, hj], hq⟩
  intro c hc halive
  obtain ⟨rfl, rfl, rfl⟩ | ⟨d, r, rfl, rfl, rfl⟩ | ⟨hctxs, hn, hsame⟩ := next_ctx hnext
  · rw [context_nextCtx, Nat.lt_succ_iff_lt_or_eq] at hc
    rcases hc with hc | rfl
    · have hold : Alive s.m c := by
        rw [Alive, ← context_ctxs_of_lt s.caller hc]
        exact halive
      exact hother c (by simp [Pc.ctx]) (h c hc hold)
    · exact ⟨i, _, hself, rfl⟩
  · have hne : (Pc.leave d r).ctx ≠ some c := by
      intro heq
      cases heq
      exact hleave halive
    exact hother c hne (h c hc halive)
  · have hold : Alive s.m c := by
      rw [Alive, ← hctxs]
      exact halive
    by_cases hmine : pc.ctx = some c
    · exact ⟨i, pc', hself, hsame.trans hmine⟩
    · exact hother c hmine (h c (hn ▸ hc) hold)

theorem held_step {cfg : Config} {s t : Calls} {a : Action} (h : Held s) (hok : LeavesDone s a)
    (hstep : step cfg s a = some t) : Held t := by
  cases a with
  | start =>
    cases hstep
    intro c hc halive
    obtain ⟨i, pc, hi, hpc⟩ := h c hc halive
    have hlt : i < s.pcs.length := (List.getElem?_eq_some_iff.mp hi).1
    exact ⟨i, pc, by rw [List.getElem?_append_left hlt, hi], hpc⟩
  | call i x =>
    obtain ⟨pc, hpc, hnext⟩ := Option.bind_eq_some_iff.mp hstep
    obtain ⟨⟨m, pc'⟩, hmove, rfl⟩ := Option.map_eq_some_iff.mp hnext
    rw [LeavesDone, hpc] at hok
    exact h.call hpc hok hmove
  | setState st =>
    cases hstep
    exact h.frame (setState_nextCtx s.m st) (fun _ => alive_of_setState) rfl
  | close ch =>
    simp only [step] at hstep
    split at hstep
    · cases hstep
      exact h.frame rfl (fun _ => id) rfl
    · cases hstep
  | wait st =>
    cases hstep
    refine h.frame (wait_nextCtx s.m st) (fun c hc => ?_) rfl
    rw [Alive, ← wait_ctxs s.m st]
    exact hc
  | setErr e | callerDone e =>
    cases hstep
    exact h.frame rfl (fun _ => id) rfl
  | propagate c =>
    simp only [step] at hstep
    split at hstep
    · split at hstep
      · cases hstep
        exact h.frame rfl (fun _ => alive_of_parentDone) rfl
      · cases hstep
    · cases hstep

/-- A call that holds a context is in progress, and it holds one. -/
theorem Held.length_le {s : Calls} (h : Held s) : s.alive.length ≤ s.inProgress := by
  have hsub : s.alive ⊆ s.pcs.filterMap Pc.ctx := by
    intro c hc
    obtain ⟨hlt, halive⟩ := List.mem_filter.mp hc
    obtain ⟨i, pc, hi, hpc⟩ := h c (List.mem_range.mp hlt) (of_decide_eq_true halive)
    exact List.mem_filterMap.mpr ⟨pc, List.mem_of_getElem? hi, hpc⟩
  have hnodup : s.alive.Nodup := List.nodup_range.filter _
  have hprogress : ∀ pc : Pc, pc.ctx.isSome = true → pc.inProgress = true := by
    intro pc hpc
    cases pc <;> first | rfl | cases hpc
  calc s.alive.length
    _ ≤ (s.pcs.filterMap Pc.ctx).length := (hnodup.subperm hsub).length_le
    _ = s.pcs.countP (Pc.ctx · |>.isSome) := List.length_filterMap_eq_countP
    _ ≤ s.inProgress := List.countP_mono_left fun pc _ => hprogress pc

/-- **Contexts and calls.** In every run whose calls return only when their contexts are done, there
are never more contexts alive than calls in progress. -/
theorem alive_le_inProgress (cfg : Config) {tr : List Action} {s : Calls}
    (h : Steps (system cfg) LeavesDone (system cfg).init tr s) : s.alive.length ≤ s.inProgress := by
  have hinit : Held (system cfg).init := by
    intro c hc
    cases hc
  have hheld : Held s := h.invariant (fun _ _ _ hi hok hs => held_step hi hok hs) hinit
  exact hheld.length_le

/-- The machine stops while a call is in flight, and is then running again for a second one. -/
def stopBetween : List Action :=
  [.setState .running, .start, .call 0 .go, .call 0 .go, .call 0 .go, .setState .stopped,
    .call 0 (.rpc (some (.ctx .canceled))), .call 0 .go, .call 0 .go, .call 0 .go, .call 0 .go,
    .setState .running, .start, .call 1 .go, .call 1 .go, .call 1 .go]

theorem alive_le_inProgress_stopBetween :
    ∃ s, Steps (system Loop.ownedConfig) LeavesDone (system Loop.ownedConfig).init stopBetween s ∧
      s.alive = [1] ∧ s.inProgress = 1 ∧ s.alive.length ≤ s.inProgress := by
  obtain ⟨s, hrun, halive, hprogress⟩ := exists_steps (system Loop.ownedConfig) LeavesDone
    (system Loop.ownedConfig).init stopBetween (fun s => s.alive = [1] ∧ s.inProgress = 1)
    (by decide +kernel)
  exact ⟨s, hrun, halive, hprogress, alive_le_inProgress Loop.ownedConfig hrun⟩

/-! ## Contexts that are left behind -/

/-- A call on a running machine, the `i`-th one, whose RPC succeeds. -/
def ordinary (i : Nat) : List Action :=
  [.start, .call i .go, .call i .go, .call i .go, .call i (.rpc none), .call i .go, .call i .go]

/-- One successful call on a running machine leaves its context behind. -/
theorem ordinary_call_leaks :
    ¬ ∀ (cfg : Config) (tr : List Action) (s : Calls),
      Steps (system cfg) Always (system cfg).init tr s → s.alive.length ≤ s.inProgress := by
  intro h
  obtain ⟨s, hrun, -, halive, hprogress⟩ := exists_steps (system Loop.ownedConfig) Always
    (system Loop.ownedConfig).init (.setState .running :: ordinary 0)
    (fun s => s.pcs = [.returned none] ∧ s.alive = [0] ∧ s.inProgress = 0) (by decide +kernel)
  have hle := h _ _ s hrun
  rw [halive, hprogress] at hle
  cases hle

/-- The machine is running, the caller's context is alive, no call is in progress, and there are
`n` contexts, all alive. -/
structure Left (s : Calls) (n : Nat) : Prop where
  running : s.m.state = .running
  caller : s.caller = none
  inProgress : s.inProgress = 0
  nextCtx : s.m.nextCtx = n
  alive : ∀ c < n, Alive s.m c

theorem Left.length_alive {s : Calls} {n : Nat} (h : Left s n) : s.alive.length = n := by
  have hall : s.alive = List.range n := by
    rw [Calls.alive, h.nextCtx, List.filter_eq_self]
    intro c hc
    exact decide_eq_true (h.alive c (List.mem_range.mp hc))
  rw [hall, List.length_range]

/-- A step of the call that was started last. -/
theorem step_last {cfg : Config} {s : Calls} {ps : List Pc} {pc pc' : Pc} {x : Input} {m : Machine}
    (hs : s.pcs = ps ++ [pc]) (hnext : next cfg s pc x = some (m, pc')) :
    (system cfg).step s (.call ps.length x) = some { s with m := m, pcs := ps ++ [pc'] } := by
  simp [system, step, hs, hnext]

theorem Left.ordinary {cfg : Config} {s : Calls} {n : Nat} (h : Left s n) :
    ∃ t, Steps (system cfg) Always s (Calls.ordinary s.pcs.length) t ∧ Left t (n + 1) := by
  obtain ⟨hrunning, hcaller, hprogress, hnext, halive⟩ := h
  have hpoll : next cfg { s with pcs := s.pcs ++ [.poll] } .poll .go = some (s.m, .derive) := by
    simp [next, advance, hrunning]
  have hderive : next cfg { s with pcs := s.pcs ++ [.derive] } .derive .go =
      some ((s.m.context none).1, .issue n) := by
    simp [next, advance, hcaller, hnext]
  refine ⟨_, .cons trivial rfl <| .cons trivial (step_last rfl hpoll) <|
    .cons trivial (step_last rfl hderive) <| .cons trivial (step_last rfl rfl) <|
    .cons trivial (step_last rfl rfl) <| .cons trivial (step_last rfl rfl) <|
    .cons trivial (step_last rfl rfl) (.nil _), ?_⟩
  refine ⟨(context_state s.m none).trans hrunning, hcaller, ?_, ?_, ?_⟩
  · rw [Calls.inProgress, List.countP_append]
    exact hprogress
  · exact (context_nextCtx s.m none).trans (congrArg (· + 1) hnext)
  · -- the release does not touch the contexts
    intro c hc
    change Alive (s.m.context none).1 c
    rcases Nat.lt_succ_iff_lt_or_eq.mp hc with hc | rfl
    · rw [Alive, context_ctxs_of_lt none (hnext ▸ hc)]
      exact halive c hc
    · have hnot : ¬ State.stopped ≤ s.m.state := by
        rw [hrunning]
        decide
      simp [Alive, context, hnot, ← hnext]

/-- Every ordinary call leaves its context behind. -/
theorem calls_accumulate (cfg : Config) (n : Nat) :
    ∃ tr s, Steps (system cfg) Always (system cfg).init tr s ∧ s.inProgress = 0 ∧
      s.alive.length = n := by
  suffices h : ∃ tr s, Steps (system cfg) Always (system cfg).init tr s ∧ Left s n by
    obtain ⟨tr, s, hrun, hs⟩ := h
    exact ⟨tr, s, hrun, hs.inProgress, hs.length_alive⟩
  induction n with
  | zero =>
    refine ⟨[.setState .running], _, .single trivial rfl, rfl, rfl, rfl, rfl, ?_⟩
    intro c hc
    cases hc
  | succ n ih =>
    obtain ⟨tr, s, hrun, hs⟩ := ih
    obtain ⟨t, hcall, ht⟩ := hs.ordinary
    exact ⟨tr ++ _, t, hrun.append hcall, ht⟩

end Calls

end Bigmachine.Machine.Call
