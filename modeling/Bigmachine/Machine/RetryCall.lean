import Bigmachine.Errors.Values

/-!
# Calls that are repeated

`Machine.retryCall` repeats a call until it succeeds, fails with a fatal error, or the time is
up. The loop has no counter: it ends because the waits between attempts are at least a second
and `retry.Wait` refuses to wait beyond the deadline of a context that is used for nothing
else. The attempts themselves run under another context.

Time is counted in nanoseconds from the entry of `retryCall`. What the environment decides
(outcome and duration of each attempt, the waits of the policy, when the parent context is
done) is an `Env`, which carries the bounds that hold of it.
-/

namespace Bigmachine.Machine.RetryCall

open Errors

def second : Nat := 1000000000

/-- The arguments of `retryCall`. -/
structure Call where
  overallTimeout : Nat
  rpcTimeout : Nat
  serviceMethod : String

/-- What an attempt returns, where none is nil, and what the policy says after it. With `tie` the
`select` takes the context when the timer fires at the same time. -/
structure Round where
  outcome : Option Err
  duration : Nat
  wait : Nat
  tie : Bool := false

/-- The environment of a call. Each attempt returns by its context's deadline, and the policy waits
between one and five seconds. `deadline` and `canceled` are those of the parent context, and
`outOfTime` is the error of `retry.Wait` when the time left is too short. -/
structure Env (c : Call) where
  round : Nat → Round
  inTime : ∀ k, (round k).duration ≤ c.rpcTimeout
  backoff : ∀ k, second ≤ (round k).wait ∧ (round k).wait ≤ 5 * second
  deadline : Option Nat := none
  canceled : Option Nat := none
  outOfTime : Err

namespace Env

variable {c : Call} (env : Env c)

/-- The deadline of `retryCtx`. -/
def limit : Nat := min c.overallTimeout (env.deadline.getD c.overallTimeout)

/-- When `retryCtx` is done, and its error then. -/
def done : Nat := min env.limit (env.canceled.getD env.limit)

def doneErr : CtxErr :=
  match env.canceled with
  | some t => if t ≤ env.limit then .canceled else .deadlineExceeded
  | none => .deadlineExceeded

/-- `retry.Wait(retryCtx, retryPolicy, k)` at the time `t`: the time when it returns, and its
error. -/
def wait (k t : Nat) : Nat × Option Err :=
  let w := (env.round k).wait
  if env.limit < t + w then (t, some env.outOfTime)
  else if env.done ≤ t then (t, some (.ctx env.doneErr))
  else if env.done < t + w ∨ env.done = t + w ∧ (env.round k).tie = true then
    (env.done, some (.ctx env.doneErr))
  else (t + w, none)

theorem done_le : env.done ≤ env.limit := Nat.min_le_left _ _

/-- A wait that succeeds ends by the deadline; one that fails ends at once or by then. -/
theorem wait_cases (k t : Nat) :
    (∃ e, (env.wait k t).2 = some e ∧ t ≤ (env.wait k t).1 ∧
      (env.wait k t).1 ≤ max t env.limit) ∨
    (env.wait k t = (t + (env.round k).wait, none) ∧ t + (env.round k).wait ≤ env.limit) := by
  have hdone := env.done_le
  unfold wait
  dsimp only
  split
  · exact Or.inl ⟨_, rfl, le_rfl, le_max_left _ _⟩
  · rename_i hlimit
    split
    · exact Or.inl ⟨_, rfl, le_rfl, le_max_left _ _⟩
    · rename_i hlater
      split
      · exact Or.inl ⟨_, rfl, by dsimp only; omega, le_max_of_le_right hdone⟩
      · exact Or.inr ⟨rfl, not_lt.mp hlimit⟩

end Env

structure Attempt where
  start : Nat
  outcome : Option Err

/-- What a call has done: its attempts, when it returns, and what. -/
structure Report where
  attempts : List Attempt
  finish : Nat
  result : Option Err

/-- The loop of `retryCall`, from the attempt `k` at the time `t` on. -/
def loop (P : Package) (c : Call) (env : Env c) : Nat → Nat → Nat → Option Report
  | 0, _, _ => none
  | fuel + 1, k, t =>
    let a : Attempt := ⟨t, (env.round k).outcome⟩
    let t := t + (env.round k).duration
    match a.outcome with
    | none => some ⟨[a], t, none⟩
    | some err =>
      if P.matchFatal err then
        some ⟨[a], t, some (P.E [.text "fatal error calling", .text c.serviceMethod, .err err])⟩
      else
        match env.wait k t with
        | (t, some e) => some ⟨[a], t, some (P.E [.severity .fatal, .err e])⟩
        | (t, none) =>
          (loop P c env fuel (k + 1) t).map fun r => { r with attempts := a :: r.attempts }

/-- `retryCall`. The fuel is one more than the attempts can be. -/
def retryCall (P : Package) (c : Call) (env : Env c) : Option Report :=
  loop P c env (c.overallTimeout / second + 2) 0 0

/-- What a call that begins at the time `t` has to do. -/
structure Verdict (P : Package) (c : Call) (t : Nat) (r : Report) : Prop where
  made : r.attempts ≠ []
  number : r.attempts.length * second ≤ c.overallTimeout - t + second
  starts : ∀ a ∈ r.attempts, a.start ≤ c.overallTimeout
  goesOn : ∀ a ∈ r.attempts.dropLast, ∃ err, a.outcome = some err ∧
    ¬ (err.IsError ∧ err.severity = .fatal)
  finish : r.finish ≤ c.overallTimeout + c.rpcTimeout
  nil_iff : ∀ a, r.attempts.getLast? = some a → (r.result = none ↔ a.outcome = none)
  fatal : ∀ e, r.result = some e → e.IsError ∧ e.severity = .fatal

section

variable {P : Package} {c : Call} {t : Nat}

/-- A call that returns after its first attempt. -/
theorem Verdict.single {a : Attempt} {finish : Nat} {result : Option Err}
    (hstart : a.start ≤ c.overallTimeout) (hfinish : finish ≤ c.overallTimeout + c.rpcTimeout)
    (hnil : result = none ↔ a.outcome = none)
    (hfatal : ∀ e, result = some e → e.IsError ∧ e.severity = .fatal) :
    Verdict P c t ⟨[a], finish, result⟩ where
  made := by simp
  number := by simp
  starts := by simpa using hstart
  goesOn := by simp
  finish := hfinish
  nil_iff a' ha' := by
    cases ha'
    exact hnil
  fatal := hfatal

/-- A call that goes on after its first attempt. -/
theorem Verdict.cons {a : Attempt} {t' : Nat} {r : Report} (h : Verdict P c t' r)
    (hstart : a.start ≤ c.overallTimeout) (ht : t + second ≤ t') (ht' : t' ≤ c.overallTimeout)
    {err : Err} (herr : a.outcome = some err) (hnot : ¬ (err.IsError ∧ err.severity = .fatal)) :
    Verdict P c t { r with attempts := a :: r.attempts } where
  made := by simp
  number := by
    have hn := h.number
    simp only [List.length_cons, Nat.add_mul, one_mul]
    omega
  starts := by
    intro b hb
    rcases List.mem_cons.mp hb with rfl | hb
    · exact hstart
    · exact h.starts b hb
  goesOn := by
    intro b hb
    rw [List.dropLast_cons_of_ne_nil h.made] at hb
    rcases List.mem_cons.mp hb with rfl | hb
    · exact ⟨err, herr, hnot⟩
    · exact h.goesOn b hb
  finish := h.finish
  nil_iff b hb := by
    refine h.nil_iff b ?_
    rwa [List.getLast?_cons_of_ne_nil h.made] at hb
  fatal := h.fatal

variable (hE : P.ReturnsError) (hS : P.SetsSeverity) (hI : P.InheritsSeverity)
  (hM : P.MatchesFatal)

include hE hS hI hM

end

/-- A machine that refuses the connection; the parent context is canceled after four seconds. -/
def refused : Env ⟨10 * second, 2 * second, "Supervisor.Ping"⟩ where
  round _ := ⟨some (.text "connection refused"), second, 2 * second, false⟩
  inTime _ := by decide
  backoff _ := by decide
  canceled := some (4 * second)
  outOfTime := .leaf (.unnamed 2) .unknown "ran out of time while waiting for retry"

end Bigmachine.Machine.RetryCall
