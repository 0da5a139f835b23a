import Bigmachine.Rpc.Stats

/-!
# Maxima in the statistics

`rpcstats.max` reads a counter, compares, and writes. Between the read and the write another
call can write a larger value, which is then lost: in `overwriteRun` two calls take 3 ms and
5 ms, and the maximum ends at 3 (`maximum_overwritten`). A run in which every write finds what
its own read has found (`Undisturbed`) ends with the right maxima (`maxima_kept`).
-/

namespace Bigmachine.Rpc.Stats

open Transition Concurrent

/-- A call that writes a maximum finds in it what it has read. -/
def Undisturbed (s : State) : Event → Prop
  | .run i => Concurrent.Undisturbed s.world (.run i)
  | _ => True

instance (s : State) (e : Event) : Decidable (Undisturbed s e) := by
  cases e <;> unfold Undisturbed <;> infer_instance

theorem undisturbed_tree_steps {s s' : State} {tr : List Event}
    (h : Steps system Undisturbed s tr s') :
    ∃ tr', Steps Concurrent.system
      (fun w a => Given layout w a ∧ Concurrent.Undisturbed w a) s.world tr' s'.world := by
  refine h.simulate State.world fun s e t hok hstep => ?_
  obtain ⟨a, hgiven, hw, hrun⟩ := exists_action hstep
  refine ⟨a, ⟨hgiven, ?_⟩, hw⟩
  cases a with
  | spawn | assign => trivial
  | run i =>
    cases hrun i rfl
    exact hok

theorem count_eq_max_recorded {tr : List Event} {s : State}
    (h : Steps system Undisturbed system.init tr s) (hquiet : s.Quiet) (p : List String)
    {k : String} (hk : layout.Maximum k) :
    s.count p k = (recorded (s.calls.flatMap Call.tasks) p k).foldl max 0 := by
  obtain ⟨tr', htree⟩ := undisturbed_tree_steps h
  have hperm := recorded_perm (logged_of_steps h) p k
  exact (count_eq_max htree hquiet p hk).trans (hperm.foldl_eq 0)

/-- The maxima under a method are those of its calls, and the maximum under a machine and a
method is that of their calls. -/
def State.MaximaKept (s : State) : Prop :=
  (∀ method,
    let os := outcomes (ofMethod s.calls method)
    s.count (methodPath method) "maxtime" = (os.map Outcome.elapsed).foldl max 0 ∧
    s.count (methodPath method) "maxrequestbytes" =
      ((os.filter fun o => 0 < o.requestBytes).map Outcome.requestBytes).foldl max 0 ∧
    s.count (methodPath method) "maxreplybytes" =
      ((os.filter fun o => 0 < o.replyBytes).map Outcome.replyBytes).foldl max 0) ∧
  ∀ addr method, addr ≠ "" →
    s.count (machinePath addr method) "maxtime" =
      ((outcomes (ofMachine s.calls addr method)).map Outcome.elapsed).foldl max 0

/-- **Undisturbed maxima are kept.** -/
theorem maxima_kept {tr : List Event} {s : State} (h : Steps system Undisturbed system.init tr s)
    (hquiet : s.Quiet) : s.MaximaKept := by
  have hmax : ∀ p k, layout.Maximum k → _ := fun p k => count_eq_max_recorded h hquiet p
  refine ⟨fun method => ?_, fun addr method haddr => ?_⟩
  · obtain ⟨-, -, -, htime, -, hrequest, -, hreply⟩ := recorded_calls_method s.calls method
    refine ⟨?_, ?_, ?_⟩
    · rw [hmax _ "maxtime" (by simp [maximum_iff]), htime]
    · rw [hmax _ "maxrequestbytes" (by simp [maximum_iff]), hrequest]
    · rw [hmax _ "maxreplybytes" (by simp [maximum_iff]), hreply]
  · obtain ⟨-, -, htime⟩ := recorded_calls_machine s.calls haddr method
    rw [hmax _ "maxtime" (by simp [maximum_iff]), htime]

/-- Two calls of one method, of 3 ms and 5 ms, up to the point where their outcomes are
recorded. -/
def twoCalls : List Event :=
  List.flatten [[Event.start "" "m", Event.start "" "m"], List.replicate 11 (Event.run 0),
    List.replicate 3 (Event.run 1),
    [Event.done 0 ⟨0, 0, none, 3000000⟩, Event.done 1 ⟨0, 0, none, 5000000⟩]]

/-- One call after the other. -/
def turnRun : List Event :=
  List.flatten [twoCalls, List.replicate 11 (Event.run 0), List.replicate 11 (Event.run 1)]

theorem maxima_kept_turnRun :
    ∃ s, Steps system Undisturbed system.init turnRun s ∧ s.Quiet ∧ s.MaximaKept ∧
      s.count (methodPath "m") "maxtime" = 5 := by
  obtain ⟨s, hs, hquiet, hcount⟩ :=
    exists_steps system Undisturbed system.init turnRun
      (fun s => s.Quiet ∧ s.count (methodPath "m") "maxtime" = 5) (by decide +kernel)
  exact ⟨s, hs, hquiet, maxima_kept hs hquiet, hcount⟩

/-- Both calls have read 0 in the maximum; the second writes 5, then the first writes 3. -/
def overwriteRun : List Event :=
  List.flatten [twoCalls, List.replicate 10 (Event.run 0), List.replicate 11 (Event.run 1),
    [Event.run 0]]

theorem maximum_overwritten :
    ¬ ∀ tr s, Steps system Always system.init tr s → s.Quiet → s.MaximaKept := by
  intro hall
  obtain ⟨s, hs, hquiet, hcount, hcalls⟩ :=
    exists_steps system Always system.init overwriteRun
      (fun s => s.Quiet ∧ s.count (methodPath "m") "maxtime" = 3 ∧
        s.calls = [⟨"", "m", some ⟨0, 0, none, 3000000⟩⟩, ⟨"", "m", some ⟨0, 0, none, 5000000⟩⟩])
      (by decide +kernel)
  have hmax := ((hall _ s hs hquiet).1 "m").1
  rw [hcount, hcalls] at hmax
  exact absurd hmax (by decide)

end Bigmachine.Rpc.Stats
