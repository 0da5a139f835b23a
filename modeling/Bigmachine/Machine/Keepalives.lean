import Bigmachine.Fixed.Ring
import Bigmachine.Machine.Lifecycle

/-!
# The latencies of the last keepalives

The loop of an owned machine records how long each of its keepalives took, in an array that it
writes in turn; `KeepaliveReplyTimes` reads the array back. Both happen under `m.mu`.

The states of `Keepalives` are those of the machine's goroutines together with the two fields, and
every label carries the latency that the loop measures if the step is the return of a keepalive.
-/

namespace Bigmachine.Machine

open Fixed Transition
open Loop (World Config)

def numKeepaliveReplyTimes : Nat := 10

instance : NeZero numKeepaliveReplyTimes := ⟨by decide⟩

/-- A `time.Duration`, in nanoseconds. -/
abbrev Duration := Int64

structure Keepalives where
  w : World := {}
  numKeepalive : Nat := 0
  keepaliveReplyTimes : Fin numKeepaliveReplyTimes → Duration := fun _ => 0

namespace Keepalives

/-- The locked section of `loop` after a keepalive that took `d`. -/
def record (s : Keepalives) (d : Duration) : Keepalives :=
  { s with
    keepaliveReplyTimes := Ring.put s.keepaliveReplyTimes s.numKeepalive d
    numKeepalive := s.numKeepalive + 1 }

/-- `KeepaliveReplyTimes`. -/
def replyTimes (s : Keepalives) : Except Ring.Panic (List Duration) :=
  let n := if s.numKeepalive < numKeepaliveReplyTimes then s.numKeepalive
    else numKeepaliveReplyTimes
  (List.range n).mapM fun (i : Nat) => do
    Ring.fetch s.keepaliveReplyTimes (← Ring.rem ((s.numKeepalive : Int) - i - 1) n)

/-- The step is the return of a keepalive without an error. -/
def returns (w : World) : Loop.Action → Bool
  | .loop o => w.loop.pc = .keepalive ∧ (o = .ok ∨ o = .unhealthy)
  | _ => false

/-- A step of the machine's goroutines, and the latency of the keepalive if it ends one. -/
def step (cfg : Config) (s : Keepalives) : Loop.Action × Duration → Option Keepalives
  | (a, d) =>
    (Loop.step cfg s.w a).map fun w =>
      if returns s.w a then { s with w := w }.record d else { s with w := w }

def system (cfg : Config) : System Keepalives (Loop.Action × Duration) := ⟨{}, step cfg⟩

/-- What the loop measures in a step. -/
def measured (s : Keepalives) : Loop.Action × Duration → List Duration
  | (a, d) => if returns s.w a then [d] else []

/-- The latencies of the keepalives of a run, oldest first. -/
def latencies (cfg : Config) (tr : List (Loop.Action × Duration)) : List Duration :=
  (system cfg).history measured (system cfg).init tr

/-! ## What the fields hold -/

/-- The fields after the keepalives with the latencies `ds`. -/
structure Recorded (s : Keepalives) (ds : List Duration) : Prop where
  count : s.numKeepalive = ds.length
  holds : Ring.Holds s.keepaliveReplyTimes ds

theorem Recorded.record {s : Keepalives} {ds : List Duration} (h : Recorded s ds) (d : Duration) :
    Recorded (s.record d) (ds ++ [d]) := by
  refine ⟨?_, ?_⟩
  · rw [Keepalives.record, h.count, List.length_append, List.length_singleton]
  · rw [Keepalives.record, h.count]
    exact h.holds.put d

theorem step_recorded {cfg : Config} {s t : Keepalives} {a : Loop.Action × Duration}
    {ds : List Duration} (h : step cfg s a = some t) (hs : Recorded s ds) :
    Recorded t (ds ++ measured s a) := by
  obtain ⟨a, d⟩ := a
  obtain ⟨w, -, rfl⟩ := Option.map_eq_some_iff.mp h
  have hw : Recorded { s with w := w } ds := ⟨hs.count, hs.holds⟩
  by_cases hr : returns s.w a = true
  · rw [measured, if_pos hr, if_pos hr]
    exact hw.record d
  · rw [measured, if_neg hr, if_neg hr, List.append_nil]
    exact hw

theorem replyTimes_of_recorded {s : Keepalives} {ds : List Duration} (h : Recorded s ds) :
    s.replyTimes = .ok (ds.reverse.take numKeepaliveReplyTimes) := by
  have hn : (if s.numKeepalive < numKeepaliveReplyTimes then s.numKeepalive
      else numKeepaliveReplyTimes) = min numKeepaliveReplyTimes ds.length := by
    rw [h.count]
    split <;> omega
  rw [replyTimes, hn, h.count]
  exact h.holds.recent

/-- **Keepalive latencies.** After every run, `KeepaliveReplyTimes` gives the latencies of the last
keepalives, most recent first, and no index that it computes panics. -/
theorem replyTimes_eq_latencies (cfg : Config) {tr : List (Loop.Action × Duration)}
    {s : Keepalives} (h : Steps (system cfg) Always (system cfg).init tr s) :
    s.replyTimes = .ok ((latencies cfg tr).reverse.take numKeepaliveReplyTimes) := by
  have hinit : Recorded (system cfg).init [] := ⟨rfl, Ring.Holds.nil _⟩
  have hrec : Recorded s ([] ++ latencies cfg tr) :=
    h.history_invariant (I := Recorded) (fun _ _ _ _ hi _ hstep => step_recorded hstep hi) hinit
  exact replyTimes_of_recorded hrec

/-- An owned machine boots and is kept alive twelve times, with ever longer latencies. -/
def aliveRun : List (Loop.Action × Duration) :=
  let ok : Loop.Action := .loop .ok
  (Loop.bootRun ++ [ok]).map (·, 0) ++
    [1, 2, 3, 4, 5, 6, 7, 8, 9, 10, 11, 12].flatMap fun d => [(ok, d), (ok, 0)]

theorem replyTimes_aliveRun :
    ∃ s, Steps (system Loop.ownedConfig) Always (system Loop.ownedConfig).init aliveRun s ∧
      s.numKeepalive = 12 ∧ s.replyTimes = .ok [12, 11, 10, 9, 8, 7, 6, 5, 4, 3] := by
  obtain ⟨s, hs, hnum⟩ := exists_steps (system Loop.ownedConfig) Always
    (system Loop.ownedConfig).init aliveRun (fun s => s.numKeepalive = 12) (by decide +kernel)
  refine ⟨s, hs, hnum, ?_⟩
  rw [replyTimes_eq_latencies Loop.ownedConfig hs]
  have hlast : (latencies Loop.ownedConfig aliveRun).reverse.take numKeepaliveReplyTimes =
      [12, 11, 10, 9, 8, 7, 6, 5, 4, 3] := by decide +kernel
  rw [hlast]

end Keepalives

end Bigmachine.Machine
