import Bigmachine.Machine.Call
import Bigmachine.Machine.Lifecycle

/-!
# What a call guarantees

* `step_inv`: what holds at each program counter of a call (`At`), kept by every step of
  every goroutine. The steps of the others are summed up in `Kept`.
* `Aborted`: the states of a call whose RPC was aborted on a stopped machine. They are
  closed under all steps, and the call's own steps lead from them to its end.
* `call_semantics` puts the two together.
-/

namespace Bigmachine.Machine.Call

open Errors Transition
open Loop (World Config)

/-! ## The invariant of a call -/

/-- The derived context `c` was made after the call saw `Running`, and it is done only for
one of two reasons. -/
structure Owns (s : Calling) (c : Ctx) : Prop where
  observed : s.observed = true
  made : c < s.w.m.nextCtx
  done : (s.w.m.ctxs c).err ≠ none → s.caller ≠ none ∨ s.w.m.state = .stopped

/-- The RPCs of the current `Call`: at most one, and one only after `Running` was seen. -/
def Bounded (s : Calling) : Prop := s.issued = 0 ∨ (s.issued = 1 ∧ s.observed = true)

/-- What `Call` may return. -/
def Justified (s : Calling) (r : Option Err) : Prop :=
  (r = none → s.result = some none) ∧ ∀ e, r = some (.ctx e) → s.caller ≠ none

/-- What holds of a call at each program counter. -/
def At (s : Calling) : Pc → Prop
  | .poll | .wait | .select _ | .stopped none => s.issued = 0
  | .derive => s.issued = 0 ∧ s.observed = true
  | .issue c => s.issued = 0 ∧ Owns s c
  | .inFlight c => s.issued = 1 ∧ Owns s c
  | .compare c r => s.issued = 1 ∧ Owns s c ∧ s.result = some r ∧ Finishes s.w.m c r
  | .recheck c e => s.issued = 1 ∧ Owns s c ∧ (s.w.m.ctxs c).err.map .ctx = some e
  | .stopped (some _) => s.issued = 1 ∧ s.observed = true
  | .leave _ r | .returned r => Bounded s ∧ Justified s r
  | .backoff | .finished _ => Bounded s

structure Inv (s : Calling) : Prop where
  settled : Settled s.w
  observed : s.observed = true → s.w.loop.pc.beyond = true
  here : At s s.pc

/-- What the other goroutines and the end of the caller's context leave of a call. -/
structure Kept (s s' : Calling) : Prop where
  pc : s'.pc = s.pc
  observed : s'.observed = s.observed
  issued : s'.issued = s.issued
  result : s'.result = s.result
  rpcs : s'.rpcs = s.rpcs
  caller : s.caller ≠ none → s'.caller ≠ none
  beyond : s.w.loop.pc.beyond = true → s'.w.loop.pc.beyond = true ∧
    (s.w.m.state = .stopped → s'.w.m.state = .stopped)
  settled : Settled s.w → Settled s'.w
  nextCtx : s.w.m.nextCtx ≤ s'.w.m.nextCtx
  err : ∀ c < s.w.m.nextCtx, (s'.w.m.ctxs c).err = (s.w.m.ctxs c).err ∨
    ((s.w.m.ctxs c).err = none ∧ (s'.caller ≠ none ∨ s'.w.m.state = .stopped))

theorem step_kept {cfg : Config} {s s' : Calling} {l : Label} (hl : ∀ i, l ≠ .call i)
    (h : step cfg s l = some s') : Kept s s' := by
  cases l with
  | machine a =>
    simp only [step] at h
    split at h
    · obtain ⟨w, hw, rfl⟩ := Option.map_eq_some_iff.mp h
      have hctx : CtxKept s.w.m w.m := loop_step_ctxKept hw
      refine ⟨rfl, rfl, rfl, rfl, rfl, id, loop_step_beyond hw, loop_step_settled hw,
        hctx.nextCtx, ?_⟩
      intro c hc
      rcases hctx.err c hc with hsame | ⟨hnone, hstop⟩
      · exact Or.inl hsame
      · exact Or.inr ⟨hnone, Or.inr hstop⟩
    · cases h
  | callerDone e =>
    cases h
    have hdone : some (s.caller.getD e) ≠ none := Option.some_ne_none _
    exact ⟨rfl, rfl, rfl, rfl, rfl, fun _ => hdone, fun hb => ⟨hb, id⟩, id, le_rfl,
      fun _ _ => Or.inl rfl⟩
  | propagate =>
    simp only [step] at h
    split at h
    · rename_i e c he _
      cases h
      have hdone : s.caller ≠ none := by
        rw [he]
        exact Option.some_ne_none e
      refine ⟨rfl, rfl, rfl, rfl, rfl, id, fun hb => ⟨hb, id⟩, id, le_rfl, ?_⟩
      intro c' _
      by_cases hc : c' = c
      · subst hc
        cases hd : (s.w.m.ctxs c').err with
        | none => exact Or.inr ⟨rfl, Or.inl hdone⟩
        | some d => exact Or.inl (by simp [parentDone, hd])
      · exact Or.inl (by simp [parentDone, hc])
    · cases h
  | call i => exact absurd rfl (hl i)

theorem Kept.err_some {s s' : Calling} (h : Kept s s') {c : Ctx} (hc : c < s.w.m.nextCtx)
    {e : CtxErr} (he : (s.w.m.ctxs c).err = some e) : (s'.w.m.ctxs c).err = some e := by
  rcases h.err c hc with heq | ⟨hnone, -⟩
  · exact heq.trans he
  · rw [hnone] at he
    cases he

theorem Kept.owns {s s' : Calling} (h : Kept s s')
    (hobs : s.observed = true → s.w.loop.pc.beyond = true) {c : Ctx} (hc : Owns s c) :
    Owns s' c := by
  refine ⟨h.observed.trans hc.observed, hc.made.trans_le h.nextCtx, ?_⟩
  intro hd
  have hbeyond := h.beyond (hobs hc.observed)
  rcases h.err c hc.made with heq | ⟨-, hwhy⟩
  · rw [heq] at hd
    rcases hc.done hd with hcaller | hstop
    · exact Or.inl (h.caller hcaller)
    · exact Or.inr (hbeyond.2 hstop)
  · exact hwhy

theorem Kept.finishes {s s' : Calling} (h : Kept s s') {c : Ctx} (hc : c < s.w.m.nextCtx)
    {r : Option Err} (hr : Finishes s.w.m c r) : Finishes s'.w.m c r := by
  match r with
  | some (.ctx e) => exact h.err_some hc hr
  | none | some .eof | some (.text _) | some (.leaf _ _ _) | some (.wrap _ _ _ _) => trivial

theorem Kept.at {s s' : Calling} (h : Kept s s')
    (hobs : s.observed = true → s.w.loop.pc.beyond = true) {pc : Pc} (hat : At s pc) :
    At s' pc := by
  have hbounded : Bounded s → Bounded s' := by
    rw [Bounded, Bounded, h.issued, h.observed]
    exact id
  match pc with
  | .poll | .wait | .select _ | .stopped none => exact h.issued.trans hat
  | .derive | .stopped (some _) =>
    exact ⟨h.issued.trans hat.1, h.observed.trans hat.2⟩
  | .issue c | .inFlight c => exact ⟨h.issued.trans hat.1, h.owns hobs hat.2⟩
  | .compare c r =>
    obtain ⟨hi, ho, hr, hf⟩ := hat
    exact ⟨h.issued.trans hi, h.owns hobs ho, h.result.trans hr, h.finishes ho.made hf⟩
  | .recheck c e =>
    obtain ⟨hi, ho, he⟩ := hat
    obtain ⟨ce, hce, rfl⟩ := Option.map_eq_some_iff.mp he
    have hce' : (s'.w.m.ctxs c).err = some ce := h.err_some ho.made hce
    exact ⟨h.issued.trans hi, h.owns hobs ho, by rw [hce']; rfl⟩
  | .leave _ r | .returned r =>
    obtain ⟨hb, hn, hc⟩ := hat
    exact ⟨hbounded hb, fun hr => h.result.trans (hn hr), fun e he => h.caller (hc e he)⟩
  | .backoff | .finished _ => exact hbounded hat

theorem Inv.kept {s s' : Calling} (hi : Inv s) (h : Kept s s') : Inv s' := by
  refine ⟨h.settled hi.settled, ?_, ?_⟩
  · intro ho
    have hbeyond := hi.observed (h.observed.symm.trans ho)
    exact (h.beyond hbeyond).1
  · rw [h.pc]
    exact h.at hi.observed hi.here

/-- A step of the call does not move the machine's goroutines, and `Running` is observed
only in that state. -/
theorem advance_world {cfg : Config} {s s' : Calling} {pc : Pc} {i : Input}
    (h : advance cfg s pc i = some s') :
    s'.w.loop = s.w.loop ∧ s'.w.m.state = s.w.m.state ∧
      (s'.observed = true → s.observed = true ∨ s.w.m.state = .running) := by
  match pc, i with
  | .poll, .go =>
    simp only [advance] at h
    split at h <;> cases h
    · rename_i hrun
      exact ⟨rfl, rfl, fun _ => Or.inr hrun⟩
    all_goals exact ⟨rfl, rfl, Or.inl⟩
  | .derive, .go | .wait, .go =>
    cases h
    exact ⟨rfl, by simp, Or.inl⟩
  | .inFlight _, .rpc _ | .compare _ (some _), .go | .recheck _ _, .go | .select _, .reached
  | .returned (some _), .go =>
    simp only [advance] at h
    split at h <;> cases h <;> exact ⟨rfl, rfl, Or.inl⟩
  | .select _, .ctxDone =>
    obtain ⟨e, -, rfl⟩ := Option.map_eq_some_iff.mp h
    exact ⟨rfl, rfl, Or.inl⟩
  | .issue _, .go | .compare _ none, .go | .stopped (some _), .go | .stopped none, .go
  | .leave _ _, .go | .returned none, .go | .backoff, .waitErr _ =>
    cases h
    exact ⟨rfl, rfl, Or.inl⟩
  | .backoff, .waited =>
    cases h
    exact ⟨rfl, rfl, fun ho => (by cases ho)⟩

theorem Justified.of_isError {s : Calling} {e : Err} (he : e.IsError) : Justified s (some e) :=
  ⟨fun h => (by cases h), fun _ h => (by cases h; exact he.elim)⟩

theorem stoppedError_isError {cfg : Config} (hE : cfg.errors.ReturnsError) (m : Machine) :
    (stoppedError cfg m).IsError := by
  unfold stoppedError
  dsimp only
  split <;> exact hE _

theorem advance_at {cfg : Config} (hE : cfg.errors.ReturnsError) {s s' : Calling} {pc : Pc}
    {i : Input} (h : advance cfg s pc i = some s') (hat : At s pc) : At s' s'.pc := by
  match pc, i with
  | .poll, .go =>
    simp only [advance] at h
    split at h <;> cases h
    · exact ⟨hat, rfl⟩
    all_goals exact hat
  | .derive, .go =>
    cases h
    refine ⟨hat.1, hat.2, ?_, fun hd => ?_⟩
    · rw [context_ctx, context_nextCtx]
      exact Nat.lt_succ_self _
    · rw [context_ctx] at hd
      rw [context_state]
      exact context_err_new _ _ hd
  | .issue c, .go =>
    cases h
    obtain ⟨hi, ho⟩ := hat
    exact ⟨by rw [hi], ho.observed, ho.made, ho.done⟩
  | .inFlight c, .rpc r =>
    simp only [advance] at h
    split at h
    · rename_i hf
      cases h
      exact ⟨hat.1, ⟨hat.2.observed, hat.2.made, hat.2.done⟩, rfl, hf⟩
    · cases h
  | .compare c none, .go =>
    cases h
    obtain ⟨hi, ho, hr, -⟩ := hat
    exact ⟨Or.inr ⟨hi, ho.observed⟩, fun _ => hr, fun _ he => (by cases he)⟩
  | .compare c (some e), .go =>
    obtain ⟨hi, ho, hr, hf⟩ := hat
    simp only [advance] at h
    split at h
    · rename_i he
      cases h
      exact ⟨hi, ⟨ho.observed, ho.made, ho.done⟩, he⟩
    · rename_i hne
      cases h
      refine ⟨Or.inr ⟨hi, ho.observed⟩, fun hn => (by cases hn), ?_⟩
      -- a bare context error would have been equal to the error of the derived context
      intro e' he'
      cases he'
      have hdone : (s.w.m.ctxs c).err = some e' := hf
      rw [hdone] at hne
      exact absurd rfl hne
  | .recheck c e, .go =>
    obtain ⟨hi, ho, he⟩ := hat
    simp only [advance] at h
    split at h
    · cases h
      exact ⟨hi, ho.observed⟩
    · rename_i hns
      cases h
      refine ⟨Or.inr ⟨hi, ho.observed⟩, fun hn => (by cases hn), fun _ _ => ?_⟩
      have hdone : (s.w.m.ctxs c).err ≠ none := by
        intro hnone
        rw [hnone] at he
        cases he
      exact (ho.done hdone).resolve_right hns
  | .stopped (some c), .go =>
    cases h
    exact ⟨Or.inr hat, Justified.of_isError (stoppedError_isError hE _)⟩
  | .stopped none, .go =>
    cases h
    exact ⟨Or.inl hat, Justified.of_isError (stoppedError_isError hE _)⟩
  | .wait, .go =>
    cases h
    exact hat
  | .select ch, .reached =>
    simp only [advance] at h
    split at h
    · cases h
      exact hat
    · cases h
  | .select ch, .ctxDone =>
    obtain ⟨e, he, rfl⟩ := Option.map_eq_some_iff.mp h
    exact ⟨Or.inl hat, fun hn => (by cases hn), fun _ _ => he ▸ Option.some_ne_none e⟩
  | .leave c r, .go =>
    cases h
    exact hat
  | .returned none, .go =>
    cases h
    exact hat.1
  | .returned (some e), .go =>
    simp only [advance] at h
    split at h <;> cases h <;> exact hat.1
  | .backoff, .waited =>
    cases h
    rfl
  | .backoff, .waitErr e =>
    cases h
    exact hat

theorem step_inv {cfg : Config} (hE : cfg.errors.ReturnsError) {s s' : Calling} {l : Label}
    (hi : Inv s) (h : step cfg s l = some s') : Inv s' := by
  cases l with
  | call i =>
    obtain ⟨hloop, hstate, hobs⟩ := advance_world h
    refine ⟨?_, ?_, advance_at hE h hi.here⟩
    · intro hr
      rw [hloop]
      exact hi.settled (hstate.symm.trans hr)
    · intro ho
      rw [hloop]
      exact (hobs ho).elim hi.observed hi.settled
  | machine a | callerDone e | propagate => exact hi.kept (step_kept (by simp) h)

theorem At.bounded {s : Calling} {pc : Pc} (h : At s pc) : Bounded s := by
  match pc with
  | .poll | .wait | .select _ | .stopped none => exact Or.inl h
  | .derive | .issue _ => exact Or.inl h.1
  | .inFlight _ => exact Or.inr ⟨h.1, h.2.observed⟩
  | .compare _ _ | .recheck _ _ => exact Or.inr ⟨h.1, h.2.1.observed⟩
  | .stopped (some _) => exact Or.inr h
  | .leave _ _ | .returned _ => exact h.1
  | .backoff | .finished _ => exact h

/-! ## A call aborted by the end of its machine -/

/-- The machine has stopped for good. -/
def Gone (s : Calling) : Prop := s.w.loop.pc.beyond = true ∧ s.w.m.state = .stopped

theorem Gone.kept {s s' : Calling} (hg : Gone s) (h : Kept s s') : Gone s' := by
  obtain ⟨hb, hs⟩ := h.beyond hg.1
  exact ⟨hb, hs hg.2⟩

theorem step_gone {cfg : Config} {s s' : Calling} {l : Label} (h : step cfg s l = some s')
    (hg : Gone s) : Gone s' := by
  cases l with
  | call i =>
    obtain ⟨hloop, hstate, -⟩ := advance_world h
    exact ⟨by rw [hloop]; exact hg.1, hstate.trans hg.2⟩
  | machine a | callerDone e | propagate => exact hg.kept (step_kept (by simp) h)

/-- The error of a call on a machine that is gone. -/
def Final (e : Err) : Prop := e.severity = .fatal ∧ e.kind = .unavailable ∧ e.IsError

theorem stoppedError_final {cfg : Config} (hE : cfg.errors.ReturnsError)
    (hK : cfg.errors.SetsKind) (hS : cfg.errors.SetsSeverity) (m : Machine) :
    Final (stoppedError cfg m) := by
  refine ⟨?_, ?_, stoppedError_isError hE m⟩
  · unfold stoppedError
    dsimp only
    split <;> exact hS _ _ (by simp) (by simp) (by simp)
  · unfold stoppedError
    dsimp only
    split <;> exact hK _ _ (by simp) (by simp) (by simp)

/-- The program counters of an aborted call: it is on its way to return a final error. -/
def Leaving (s : Calling) : Pc → Prop
  | .compare c r => c < s.w.m.nextCtx ∧ ∃ e, (s.w.m.ctxs c).err = some e ∧ r = some (.ctx e)
  | .recheck _ _ | .stopped (some _) => True
  | .leave _ (some e) | .returned (some e) | .finished (some e) => Final e
  | _ => False

/-- The machine has stopped for good, the call is leaving, and `n` RPCs were issued. -/
structure Aborted (n : Nat) (s : Calling) : Prop where
  gone : Gone s
  rpcs : s.rpcs = n
  leaving : Leaving s s.pc

theorem Aborted.kept {n : Nat} {s s' : Calling} (ha : Aborted n s) (h : Kept s s') :
    Aborted n s' := by
  refine ⟨ha.gone.kept h, h.rpcs.trans ha.rpcs, ?_⟩
  have hleaving := ha.leaving
  rw [h.pc]
  generalize s.pc = pc at hleaving
  match pc with
  | .compare c r =>
    obtain ⟨hc, e, he, hr⟩ := hleaving
    exact ⟨hc.trans_le h.nextCtx, e, h.err_some hc he, hr⟩
  | .recheck _ _ | .stopped (some _) => trivial
  | .leave _ (some _) | .returned (some _) | .finished (some _) => exact hleaving

/-- How many of its own steps an aborted call is away from its end. -/
def Pc.distance : Pc → Nat
  | compare _ _ => 5
  | recheck _ _ => 4
  | stopped _ => 3
  | leave _ _ => 2
  | returned _ => 1
  | _ => 0

/-- A call that is leaving waits for nothing. -/
theorem advance_of_ne_go {cfg : Config} {s : Calling} {pc : Pc} (h : Leaving s pc) (i : Input)
    (hi : i ≠ .go) : advance cfg s pc i = none := by
  match pc with
  | .compare c r =>
    obtain ⟨-, e, -, rfl⟩ := h
    cases i <;> first | rfl | exact absurd rfl hi
  | .recheck _ _ | .stopped (some _) | .leave _ (some _) | .returned (some _)
  | .finished (some _) =>
    cases i <;> first | rfl | exact absurd rfl hi

section

variable {cfg : Config} (hE : cfg.errors.ReturnsError) (hK : cfg.errors.SetsKind)
  (hS : cfg.errors.SetsSeverity) (hT : cfg.errors.FatalIsFinal)

include hE hK hS hT

/-- An aborted call that has not ended can make a step, and makes no other step than this
one. -/
theorem advance_aborted {n : Nat} {s : Calling} (ha : Aborted n s) :
    (∃ e, s.pc = .finished (some e) ∧ Final e ∧ ∀ i, advance cfg s s.pc i = none) ∨
    ∃ s', Aborted n s' ∧ s'.pc.distance < s.pc.distance ∧
      advance cfg s s.pc .go = some s' ∧ ∀ i, i ≠ .go → advance cfg s s.pc i = none := by
  obtain ⟨hg, hn, hleaving⟩ := ha
  generalize hpc : s.pc = pc at hleaving
  have hfinal : Final (stoppedError cfg s.w.m) := stoppedError_final hE hK hS s.w.m
  match pc with
  | .compare c r =>
    have hother : ∀ i, i ≠ .go → advance cfg s (.compare c r) i = none :=
      advance_of_ne_go hleaving
    obtain ⟨hc, e, he, rfl⟩ := hleaving
    exact Or.inr ⟨{ s with pc := .recheck c (.ctx e) }, ⟨hg, hn, trivial⟩, by simp [Pc.distance],
      by simp [advance, he], hother⟩
  | .recheck c e =>
    exact Or.inr ⟨{ s with pc := .stopped (some c) }, ⟨hg, hn, trivial⟩, by simp [Pc.distance],
      by simp [advance, hg.2], advance_of_ne_go hleaving⟩
  | .stopped (some c) =>
    exact Or.inr ⟨{ s with pc := .leave c (some (stoppedError cfg s.w.m)) }, ⟨hg, hn, hfinal⟩,
      by simp [Pc.distance], rfl, advance_of_ne_go hleaving⟩
  | .leave c (some e) =>
    exact Or.inr ⟨{ s with w := { s.w with m := s.w.m.release c }, pc := .returned (some e) },
      ⟨hg, hn, hleaving⟩, by simp [Pc.distance], rfl, advance_of_ne_go hleaving⟩
  | .returned (some e) =>
    have htmp : cfg.errors.isTemporary e = false := hT e hleaving.2.2 hleaving.1
    exact Or.inr ⟨{ s with pc := .finished (some e) }, ⟨hg, hn, hleaving⟩,
      by simp [Pc.distance], by simp [advance, htmp], advance_of_ne_go hleaving⟩
  | .finished (some e) =>
    refine Or.inl ⟨e, rfl, hleaving, ?_⟩
    intro i
    cases i <;> rfl

theorem step_aborted {n : Nat} {s s' : Calling} {l : Label} (ha : Aborted n s)
    (h : step cfg s l = some s') : Aborted n s' := by
  cases l with
  | call i =>
    rcases advance_aborted hE hK hS hT ha with ⟨e, -, -, hnone⟩ | ⟨t, ht, -, hgo, hnone⟩
    · exact absurd h (by simp [step, hnone i])
    · by_cases hi : i = .go
      · subst hi
        cases hgo.symm.trans h
        exact ht
      · exact absurd h (by simp [step, hnone i hi])
  | machine a | callerDone e | propagate => exact ha.kept (step_kept (by simp) h)

theorem aborted_finishes {n : Nat} {s : Calling} (ha : Aborted n s) :
    ∃ k t e, Steps (system cfg) Always s (List.replicate k (.call .go)) t ∧
      t.pc = .finished (some e) ∧ Final e ∧ t.rpcs = n := by
  induction hd : s.pc.distance using Nat.strong_induction_on generalizing s with
  | _ d ih =>
    rcases advance_aborted hE hK hS hT ha with ⟨e, hpc, he, -⟩ | ⟨s', ha', hlt, hgo, -⟩
    · exact ⟨0, s, e, .nil s, hpc, he, ha.rpcs⟩
    · obtain ⟨k, t, e, hrun, ht⟩ := ih _ (hd ▸ hlt) ha' rfl
      exact ⟨k + 1, t, e, .cons trivial hgo hrun, ht⟩

end

/-! ## The theorem -/

theorem init_inv (cfg : Config) : Inv (system cfg).init :=
  ⟨fun h => (by cases h), fun h => (by cases h), rfl⟩

/-- When the machine has stopped during an RPC and the RPC returns the error of the derived
context, the call is aborted. -/
theorem aborted_of_rpc {cfg : Config} {s s' : Calling} {e : CtxErr} (hi : Inv s)
    (hg : Gone s) (h : step cfg s (.call (.rpc (some (.ctx e)))) = some s') :
    Aborted s.rpcs s' := by
  have hhere := hi.here
  simp only [step] at h
  generalize s.pc = pc at h hhere
  match pc with
  | .inFlight c =>
    simp only [advance] at h
    split at h
    · rename_i hf
      cases h
      exact ⟨hg, rfl, hhere.2.made, e, hf, rfl⟩
    · cases h

/-- **Calls under concurrent state changes.** In every state of every run: the current
`Call` has issued at most one RPC, and that only after it has seen `Running`; `Call`
returns nil only when the RPC did, and a bare context error only when the caller's
context is done. When the machine is `Stopped` at some moment of an RPC and the RPC later
returns the error of its context, no further RPC is issued, `Call` returns a fatal error
of kind `Unavailable`, and alone it comes to the end of `RetryCall`. -/
theorem call_semantics (cfg : Config) (hE : cfg.errors.ReturnsError) (hK : cfg.errors.SetsKind)
    (hS : cfg.errors.SetsSeverity) (hT : cfg.errors.FatalIsFinal) {tr : List Label} {s : Calling}
    (h : Steps (system cfg) Always (system cfg).init tr s) :
    (s.issued ≤ 1 ∧ (0 < s.issued → s.observed = true)) ∧
    (∀ r, s.pc = .returned r →
      (r = none → s.result = some none) ∧ ∀ e, r = some (.ctx e) → s.caller ≠ none) ∧
    (∀ c e tr₁ s₁ s₂ tr₂ t, s.pc = .inFlight c → s.w.m.state = .stopped →
      Steps (system cfg) Always s tr₁ s₁ → s₁.pc = .inFlight c →
      step cfg s₁ (.call (.rpc (some (.ctx e)))) = some s₂ →
      Steps (system cfg) Always s₂ tr₂ t →
      t.rpcs = s₁.rpcs ∧
      (∀ r, t.pc = .returned r → ∃ e', r = some e' ∧ e'.severity = .fatal ∧
        e'.kind = .unavailable) ∧
      ∃ k u e', Steps (system cfg) Always t (List.replicate k (.call .go)) u ∧
        u.pc = .finished (some e') ∧ e'.severity = .fatal ∧ e'.kind = .unavailable ∧
        u.rpcs = s₁.rpcs) := by
  have hstep : ∀ s l s', Inv s → Always s l → step cfg s l = some s' → Inv s' :=
    fun _ _ _ hi _ hs => step_inv hE hi hs
  have hinv : Inv s := h.invariant hstep (init_inv cfg)
  have hhere := hinv.here
  refine ⟨?_, ?_, ?_⟩
  · have hbounded : Bounded s := At.bounded hhere
    rcases hbounded with h₀ | ⟨h₁, ho⟩
    · omega
    · exact ⟨h₁.le, fun _ => ho⟩
  · intro r hr
    rw [hr] at hhere
    exact hhere.2
  · intro c e tr₁ s₁ s₂ tr₂ t hpc hs hrun₁ _ hrpc hrun₂
    rw [hpc] at hhere
    have hgone : Gone s := ⟨hinv.observed hhere.2.observed, hs⟩
    have hinv₁ : Inv s₁ := hrun₁.invariant hstep hinv
    have hgone₁ : Gone s₁ :=
      hrun₁.invariant (I := Gone) (fun _ _ _ hi _ hstep => step_gone hstep hi) hgone
    have habort₂ : Aborted s₁.rpcs s₂ := aborted_of_rpc hinv₁ hgone₁ hrpc
    have habort : Aborted s₁.rpcs t := hrun₂.invariant (I := Aborted s₁.rpcs)
      (fun _ _ _ hi _ hstep => step_aborted hE hK hS hT hi hstep) habort₂
    refine ⟨habort.rpcs, fun r hr => ?_, ?_⟩
    · have hleaving := habort.leaving
      rw [hr] at hleaving
      match r with
      | some e' => exact ⟨e', rfl, hleaving.1, hleaving.2.1⟩
    · obtain ⟨k, u, e', hu, hpc', ⟨hsev, hkind, -⟩, hn⟩ := aborted_finishes hE hK hS hT habort
      exact ⟨k, u, e', hu, hpc', hsev, hkind, hn⟩

/-- A call is issued on a running machine; the monitor stops the machine while the RPC is
in flight. -/
def stopInFlight : List Label :=
  (Loop.bootRun ++ [Loop.Action.loop .ok]).map Label.machine ++ [.call .go, .call .go, .call .go] ++
    Loop.oomRun.map Label.machine

theorem call_semantics_stopInFlight :
    ∃ s s₂, Steps (system Loop.ownedConfig) Always (system Loop.ownedConfig).init stopInFlight s ∧
      s.pc = .inFlight 0 ∧ s.w.m.state = .stopped ∧ s.issued = 1 ∧
      (s.issued ≤ 1 ∧ (0 < s.issued → s.observed = true)) ∧
      step Loop.ownedConfig s (.call (.rpc (some (.ctx .canceled)))) = some s₂ ∧
      ∃ k u e, Steps (system Loop.ownedConfig) Always s₂ (List.replicate k (.call .go)) u ∧
        u.pc = .finished (some e) ∧ e.severity = .fatal ∧ e.kind = .unavailable ∧
        u.rpcs = s.rpcs := by
  obtain ⟨s, hrun, hpc, hs, hi, hrpc⟩ := exists_steps (system Loop.ownedConfig) Always
    (system Loop.ownedConfig).init stopInFlight
    (fun s => s.pc = .inFlight 0 ∧ s.w.m.state = .stopped ∧ s.issued = 1 ∧
      (step Loop.ownedConfig s (.call (.rpc (some (.ctx .canceled))))).isSome = true)
    (by decide +kernel)
  obtain ⟨s₂, hs₂⟩ := Option.isSome_iff_exists.mp hrpc
  obtain ⟨hissued, -, habort⟩ := call_semantics Loop.ownedConfig Reference.returnsError
    Reference.setsKind Reference.setsSeverity Reference.fatalIsFinal hrun
  obtain ⟨-, -, hend⟩ := habort 0 .canceled [] s s₂ [] s₂ hpc hs (.nil s) hpc hs₂ (.nil s₂)
  exact ⟨s, s₂, hrun, hpc, hs, hi, hissued, hs₂, hend⟩

end Bigmachine.Machine.Call
