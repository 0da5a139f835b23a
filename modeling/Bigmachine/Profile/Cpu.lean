import Bigmachine.Errors.Values
import Bigmachine.Transition.System

/-!
# CPU profiles

`Supervisor.CPUProfile` returns a stream at once; a goroutine then takes the profile. A process has
one CPU profiler, which `pprof.StartCPUProfile` and `pprof.StopCPUProfile` turn on and off for
whoever calls them: the latter does not ask who has started the profile. Calls of `CPUProfile` may
overlap in any way, and other code of the process may use the profiler as well.

Still no call ends the profile of another one: a stream that ends regularly holds one profile, of
the full duration (`cpu_profiles`), and every other stream says why it does not. `StopCPUProfile`
returns when the profile is written, with the lock of the profiler held until then; so a stream that
nobody reads keeps all others from a profile, and if streams are read or closed, no profile is left
running (`profiler_released`).

Other code is taken to stop only profiles that it has started.
-/

namespace Bigmachine.Profile.Cpu

open Errors Transition

/-! ## The profiler -/

/-- Times are in nanoseconds. -/
def second : Int := 1000000000

/-- The state of package pprof. A user is a call of `CPUProfile`, or other code. While a profile is
written out, `StopCPUProfile` keeps the lock. -/
inductive Profiler
  | idle
  | profiling (user : Option Nat) (since : Int)
  | draining (user : Option Nat)
  deriving DecidableEq, Repr

def Profiler.user : Profiler → Option Nat
  | .idle => none
  | .profiling user _ | .draining user => user

/-- A profile that was written to the stream of its user. -/
structure Taken where
  user : Option Nat
  start : Int
  stop : Int
  deriving DecidableEq, Repr

/-! ## Calls -/

/-- Where a call is: `CPUProfile` has refused it with an error, or it has spawned the goroutine
that is in its select (`waiting`), about to stop the profile, in `StopCPUProfile` (`draining`), or
at the end of the stream, which is regular when there is no error. -/
inductive Pc
  | refused (err : Err)
  | spawned
  | waiting (since : Int)
  | stopping (since : Int) (err : Option Err)
  | draining (err : Option Err)
  | closed (err : Option Err)
  deriving DecidableEq, Repr

structure Call where
  dur : Int
  deadline : Option Int
  ctxErr : Option CtxErr := none -- `ctx.Err()`
  pc : Pc
  deriving DecidableEq, Repr

def inUse : Err := .text "cpu profiling already in use"

/-- `isContextAliveFor`. -/
def isContextAliveFor (now : Int) (deadline : Option Int) (dur : Int) : Bool :=
  deadline.all fun d => dur ≤ d - now

/-- `CPUProfile`; `text` is how a duration is printed. -/
def cpuProfile (text : Int → String) (now : Int) (deadline : Option Int) (dur : Int) : Call :=
  let dur := if dur = 0 then 30 * second else dur
  if isContextAliveFor now deadline dur then { dur, deadline, pc := .spawned }
  else
    { dur, deadline
      pc := .refused (.text ("context is too short for duration " ++ text dur)) }

theorem cpuProfile_pc (text : Int → String) (now : Int) (deadline : Option Int) (dur : Int) :
    (cpuProfile text now deadline dur).pc = .spawned ∨
    ∃ err, (cpuProfile text now deadline dur).pc = .refused err := by
  cases halive : isContextAliveFor now deadline (if dur = 0 then 30 * second else dur) with
  | true => exact Or.inl (by simp [cpuProfile, halive])
  | false =>
    refine Or.inr ⟨.text ("context is too short for duration " ++
      text (if dur = 0 then 30 * second else dur)), ?_⟩
    simp only [cpuProfile, halive, Bool.false_eq_true, if_false]

/-! ## Interleavings -/

structure World where
  now : Int := 0
  profiler : Profiler := .idle
  calls : List Call := []
  profiles : List Taken := [] -- in the order in which they were stopped
  deriving DecidableEq

/-- Time passes, contexts end, and the `i`-th goroutine steps: it starts the profile, its select
takes the timer (`fire`) or the context (`done`), and it stops the profile, first up to where
`StopCPUProfile` waits and then, once the reader of the stream has taken the profile or has closed
the stream, to its end (`drained`). The others are steps of other users of the profiler. -/
inductive Action
  | pass (d : Nat)
  | call (deadline : Option Int) (dur : Int)
  | cancel (i : Nat)
  | expire (i : Nat)
  | start (i : Nat)
  | fire (i : Nat)
  | done (i : Nat)
  | stop (i : Nat)
  | drained (i : Nat)
  | otherStart
  | otherStop
  | otherDrained
  deriving DecidableEq, Repr

def World.move (w : World) (i : Nat) (pc : Pc) : World :=
  { w with calls := w.calls.modify i fun c => { c with pc } }

def World.endCtx (w : World) (i : Nat) (e : CtxErr) : World :=
  { w with calls := w.calls.modify i fun c => { c with ctxErr := some e } }

/-- `StartCPUProfile`: the state of the profiler afterwards, or the error. -/
def Profiler.start (p : Profiler) (user : Option Nat) (now : Int) :
    Option (Except Err Profiler) :=
  match p with
  | .idle => some (.ok (.profiling user now))
  | .profiling _ _ => some (.error inUse)
  | .draining _ => none

def step (text : Int → String) (w : World) : Action → Option World
  | .pass d => some { w with now := w.now + d }
  | .call deadline dur =>
    some { w with calls := w.calls ++ [cpuProfile text w.now deadline dur] }
  | .cancel i => do
    let c ← w.calls[i]?
    if c.ctxErr = none then some (w.endCtx i .canceled) else none
  | .expire i => do
    let c ← w.calls[i]?
    if c.ctxErr = none ∧ c.deadline.any (· ≤ w.now) then some (w.endCtx i .deadlineExceeded)
    else none
  | .start i => do
    let c ← w.calls[i]?
    match c.pc, w.profiler.start (some i) w.now with
    | .spawned, some (.ok p) => some { w.move i (.waiting w.now) with profiler := p }
    | .spawned, some (.error err) => some (w.move i (.closed (some err)))
    | _, _ => none
  | .fire i => do
    let c ← w.calls[i]?
    match c.pc with
    | .waiting since =>
      if since + c.dur ≤ w.now then some (w.move i (.stopping since none)) else none
    | _ => none
  | .done i => do
    let c ← w.calls[i]?
    match c.pc, c.ctxErr with
    | .waiting since, some e => some (w.move i (.stopping since (some (.ctx e))))
    | _, _ => none
  | .stop i => do
    let c ← w.calls[i]?
    match c.pc, w.profiler with
    | .stopping _ err, .profiling user since =>
      -- whoever has started it
      some { w.move i (.draining err) with
        profiler := .draining (some i), profiles := w.profiles ++ [⟨user, since, w.now⟩] }
    | .stopping _ err, .idle => some (w.move i (.closed err))
    | _, _ => none
  | .drained i => do
    let c ← w.calls[i]?
    match c.pc with
    | .draining err => some { w.move i (.closed err) with profiler := .idle }
    | _ => none
  | .otherStart =>
    match w.profiler.start none w.now with
    | some (.ok p) => some { w with profiler := p }
    | _ => none
  | .otherStop =>
    match w.profiler with
    | .profiling none since =>
      some { w with profiler := .draining none, profiles := w.profiles ++ [⟨none, since, w.now⟩] }
    | _ => none
  | .otherDrained => if w.profiler = .draining none then some { w with profiler := .idle } else none

def system (text : Int → String) : System World Action := ⟨{}, step text⟩

/-! ## What a call may find -/

/-- The profiles in the stream of a call. -/
def World.profilesOf (w : World) (i : Nat) : List Taken := w.profiles.filter (·.user = some i)

/-- How a stream with a profile ends. -/
def Ended (w : World) (i : Nat) (c : Call) (err : Option Err) : Prop :=
  ∃ p, w.profilesOf i = [p] ∧
    ((err = none ∧ p.start + c.dur ≤ p.stop) ∨ ∃ e, err = some (.ctx e) ∧ c.ctxErr = some e)

/-- Where the profiler is while the call is at its `pc`. -/
def Fits (w : World) (i : Nat) (c : Call) : Prop :=
  match c.pc with
  | .refused _ | .spawned => w.profiler.user ≠ some i ∧ w.profilesOf i = []
  | .waiting since => w.profiler = .profiling (some i) since ∧ w.profilesOf i = []
  | .stopping since err => w.profiler = .profiling (some i) since ∧ w.profilesOf i = [] ∧
      ((err = none ∧ since + c.dur ≤ w.now) ∨ ∃ e, err = some (.ctx e) ∧ c.ctxErr = some e)
  | .draining err => w.profiler = .draining (some i) ∧ Ended w i c err
  | .closed err => w.profiler.user ≠ some i ∧
      (Ended w i c err ∨ (err = some inUse ∧ w.profilesOf i = []))

/-- The call is where it was; its context may have ended. -/
structure Call.Same (c c' : Call) : Prop where
  pc : c'.pc = c.pc
  dur : c'.dur = c.dur
  ctxErr : ∀ e, c.ctxErr = some e → c'.ctxErr = some e

theorem Call.Same.refl (c : Call) : c.Same c := ⟨rfl, rfl, fun _ h => h⟩

theorem Ended.mono {w w' : World} {i : Nat} {c c' : Call} {err : Option Err}
    (h : Ended w i c err) (hof : w'.profilesOf i = w.profilesOf i) (hc : c.Same c') :
    Ended w' i c' err := by
  obtain ⟨p, hp, hend⟩ := h
  refine ⟨p, hof.trans hp, hend.imp (fun he => ?_) ?_⟩
  · rw [hc.dur]
    exact he
  · rintro ⟨e, herr, he⟩
    exact ⟨e, herr, hc.ctxErr e he⟩

/-- What another call, other code, the clock or a context does leaves the profiler of the call where
it was. -/
theorem Fits.frame {w w' : World} {i : Nat} {c c' : Call} (h : Fits w i c)
    (hprof : w'.profiler = w.profiler ∨ w.profiler.user ≠ some i ∧ w'.profiler.user ≠ some i)
    (hnow : w.now ≤ w'.now) (hof : w'.profilesOf i = w.profilesOf i) (hc : c.Same c') :
    Fits w' i c' := by
  have hkeep : w.profiler.user = some i → w'.profiler = w.profiler := fun hu =>
    hprof.resolve_right fun hne => hne.1 hu
  have hother : w.profiler.user ≠ some i → w'.profiler.user ≠ some i := fun hne =>
    hprof.elim (fun heq => heq ▸ hne) And.right
  unfold Fits at *
  rw [hc.pc]
  cases hpc : c.pc with
  | refused err | spawned =>
    rw [hpc] at h
    exact ⟨hother h.1, hof.trans h.2⟩
  | waiting since =>
    rw [hpc] at h
    exact ⟨(hkeep (by rw [h.1]; rfl)).trans h.1, hof.trans h.2⟩
  | stopping since err =>
    rw [hpc] at h
    obtain ⟨hp, hnone, hend⟩ := h
    refine ⟨(hkeep (by rw [hp]; rfl)).trans hp, hof.trans hnone, hend.imp (fun he => ?_) ?_⟩
    · exact ⟨he.1, by rw [hc.dur]; exact he.2.trans hnow⟩
    · rintro ⟨e, herr, he⟩
      exact ⟨e, herr, hc.ctxErr e he⟩
  | draining err =>
    rw [hpc] at h
    exact ⟨(hkeep (by rw [h.1]; rfl)).trans h.1, h.2.mono hof hc⟩
  | closed err =>
    rw [hpc] at h
    exact ⟨hother h.1, h.2.imp (·.mono hof hc) fun he => ⟨he.1, hof.trans he.2⟩⟩

/-! ## The order of the profiles -/

/-- One profile is stopped before the next one is started. -/
structure Ordered (w : World) : Prop where
  pairwise : w.profiles.Pairwise fun p q => p.stop ≤ q.start
  past : ∀ p ∈ w.profiles, p.stop ≤ w.now
  running : ∀ user since, w.profiler = .profiling user since → ∀ p ∈ w.profiles, p.stop ≤ since

theorem Ordered.keep {w w' : World} (h : Ordered w) (hnow : w.now ≤ w'.now)
    (hprofiles : w'.profiles = w.profiles)
    (hprof : w'.profiler = w.profiler ∨ ∀ user since, w'.profiler ≠ .profiling user since) :
    Ordered w' := by
  refine ⟨hprofiles ▸ h.pairwise, fun p hp => (h.past p (hprofiles ▸ hp)).trans hnow, ?_⟩
  intro user since hrun p hp
  rcases hprof with heq | hne
  · exact h.running user since (heq ▸ hrun) p (hprofiles ▸ hp)
  · exact absurd hrun (hne user since)

theorem Ordered.start {w w' : World} (h : Ordered w) (hnow : w'.now = w.now)
    (hprofiles : w'.profiles = w.profiles) {user : Option Nat}
    (hprof : w'.profiler = .profiling user w.now) : Ordered w' := by
  refine ⟨hprofiles ▸ h.pairwise, fun p hp => hnow ▸ h.past p (hprofiles ▸ hp), ?_⟩
  intro user' since hrun p hp
  obtain ⟨-, rfl⟩ := Profiler.profiling.inj (hprof.symm.trans hrun)
  exact h.past p (hprofiles ▸ hp)

theorem Ordered.stop {w w' : World} (h : Ordered w) (hnow : w'.now = w.now) {user : Option Nat}
    {since : Int} (hrun : w.profiler = .profiling user since)
    (hprofiles : w'.profiles = w.profiles ++ [⟨user, since, w.now⟩])
    (hprof : ∀ user since, w'.profiler ≠ .profiling user since) : Ordered w' := by
  refine ⟨?_, ?_, fun user since hrun => absurd hrun (hprof user since)⟩
  · rw [hprofiles, List.pairwise_append]
    refine ⟨h.pairwise, List.pairwise_singleton _ _, fun p hp q hq => ?_⟩
    rw [List.mem_singleton.mp hq]
    exact h.running user since hrun p hp
  · intro p hp
    rw [hprofiles, List.mem_append] at hp
    rw [hnow]
    rcases hp with hp | hp
    · exact h.past p hp
    · rw [List.mem_singleton.mp hp]

/-! ## Reachable worlds -/

structure Inv (w : World) : Prop where
  fits : ∀ (i : Nat) c, w.calls[i]? = some c → Fits w i c
  user : ∀ i, w.profiler.user = some i → i < w.calls.length
  profiles : ∀ p ∈ w.profiles, ∀ i, p.user = some i → i < w.calls.length
  ordered : Ordered w

theorem Inv.profilesOf_new {w : World} (h : Inv w) : w.profilesOf w.calls.length = [] := by
  rw [World.profilesOf, List.filter_eq_nil_iff]
  intro p hp huser
  exact lt_irrefl _ (h.profiles p hp _ (of_decide_eq_true huser))

theorem profilesOf_append_ne {ps : List Taken} {p : Taken} {i : Nat} (h : p.user ≠ some i) :
    (ps ++ [p]).filter (·.user = some i) = ps.filter (·.user = some i) := by
  simp [List.filter_append, h]

theorem profilesOf_append_self {ps : List Taken} {p : Taken} {i : Nat} (h : p.user = some i) :
    (ps ++ [p]).filter (·.user = some i) = ps.filter (·.user = some i) ++ [p] := by
  simp [List.filter_append, h]

theorem of_getElem?_modify {α : Type} {l : List α} {f : α → α} {i j : Nat} {b : α}
    (h : (l.modify i f)[j]? = some b) :
    (i ≠ j ∧ l[j]? = some b) ∨ (i = j ∧ ∃ a, l[j]? = some a ∧ b = f a) := by
  rw [List.getElem?_modify] at h
  by_cases hij : i = j
  · simp only [hij, if_true, Option.map_eq_map, Option.map_eq_some_iff] at h
    obtain ⟨a, ha, rfl⟩ := h
    exact Or.inr ⟨hij, a, ha, rfl⟩
  · simp only [hij, if_false, Option.map_eq_map, Option.map_id'] at h
    exact Or.inl ⟨hij, h⟩

/-- A user of the profiler acts, and the others do not notice. -/
theorem Inv.act {w w' : World} (h : Inv w) {who : Option Nat}
    (hwho : ∀ i, who = some i → i < w.calls.length) (hlen : w'.calls.length = w.calls.length)
    (hcalls : ∀ (j : Nat) d, w'.calls[j]? = some d → who ≠ some j → w.calls[j]? = some d)
    (hself : ∀ (j : Nat) d, w'.calls[j]? = some d → who = some j → Fits w' j d)
    (hnow : w.now ≤ w'.now)
    (hprof : w'.profiler = w.profiler ∨
      (w.profiler.user = who ∨ w.profiler.user = none) ∧
        (w'.profiler.user = who ∨ w'.profiler.user = none))
    (hprofiles : w'.profiles = w.profiles ∨
      ∃ start stop, w'.profiles = w.profiles ++ [⟨who, start, stop⟩])
    (hordered : Ordered w') : Inv w' := by
  refine ⟨fun j d hd => ?_, fun j hj => ?_, fun p hp j hj => ?_, hordered⟩
  · by_cases hj : who = some j
    · exact hself j d hd hj
    · have hne : ∀ o : Option Nat, o = who ∨ o = none → o ≠ some j := by
        rintro o (rfl | rfl)
        · exact hj
        · simp
      refine (h.fits j d (hcalls j d hd hj)).frame ?_ hnow ?_ (Call.Same.refl d)
      · exact hprof.imp_right fun hp => ⟨hne _ hp.1, hne _ hp.2⟩
      · unfold World.profilesOf
        rcases hprofiles with heq | ⟨start, stop, heq⟩
        · rw [heq]
        · rw [heq, profilesOf_append_ne hj]
  · rw [hlen]
    rcases hprof with heq | ⟨-, hnew | hnew⟩
    · exact h.user j (heq ▸ hj)
    · exact hwho j (hnew.symm.trans hj)
    · rw [hnew] at hj
      cases hj
  · rw [hlen]
    rcases hprofiles with heq | ⟨start, stop, heq⟩
    · exact h.profiles p (heq ▸ hp) j hj
    · rw [heq, List.mem_append, List.mem_singleton] at hp
      rcases hp with hp | rfl
      · exact h.profiles p hp j hj
      · exact hwho j hj

theorem Inv.moved {w w' : World} (h : Inv w) {i : Nat} {f : Call → Call} {c : Call}
    (hc : w.calls[i]? = some c) (hcalls : w'.calls = w.calls.modify i f) (hself : Fits w' i (f c))
    (hnow : w'.now = w.now)
    (hprof : w'.profiler = w.profiler ∨
      (w.profiler.user = some i ∨ w.profiler.user = none) ∧
        (w'.profiler.user = some i ∨ w'.profiler.user = none))
    (hprofiles : w'.profiles = w.profiles ∨
      ∃ start stop, w'.profiles = w.profiles ++ [⟨some i, start, stop⟩])
    (hordered : Ordered w') : Inv w' := by
  have hlt : i < w.calls.length := (List.getElem?_eq_some_iff.mp hc).1
  refine h.act (fun j hj => Option.some.inj hj ▸ hlt) (by rw [hcalls, List.length_modify]) ?_ ?_
    hnow.ge hprof hprofiles hordered
  · intro j d hd hne
    rw [hcalls] at hd
    rcases of_getElem?_modify hd with ⟨-, hd⟩ | ⟨rfl, -⟩
    · exact hd
    · exact absurd rfl hne
  · intro j d hd hj
    cases hj
    rw [hcalls] at hd
    rcases of_getElem?_modify hd with ⟨hne, -⟩ | ⟨-, d', hd', rfl⟩
    · exact absurd rfl hne
    · obtain rfl := Option.some.inj (hc.symm.trans hd')
      exact hself

theorem Inv.outside {w w' : World} (h : Inv w) (hcalls : w'.calls = w.calls)
    (hnow : w.now ≤ w'.now)
    (hprof : w'.profiler = w.profiler ∨ w.profiler.user = none ∧ w'.profiler.user = none)
    (hprofiles : w'.profiles = w.profiles ∨
      ∃ start stop, w'.profiles = w.profiles ++ [⟨none, start, stop⟩])
    (hordered : Ordered w') : Inv w' :=
  h.act (fun _ hi => by cases hi) (by rw [hcalls]) (fun _ _ hd _ => hcalls ▸ hd)
    (fun _ _ _ hj => by cases hj) hnow
    (hprof.imp_right fun hp => ⟨Or.inl hp.1, Or.inl hp.2⟩) hprofiles hordered

/-! ### One step -/

theorem Inv.call {w : World} (h : Inv w) (text : Int → String) (deadline : Option Int) (dur : Int) :
    Inv { w with calls := w.calls ++ [cpuProfile text w.now deadline dur] } := by
  have hlen : ∀ i, i < w.calls.length →
      i < (w.calls ++ [cpuProfile text w.now deadline dur]).length := by
    intro i hi
    rw [List.length_append]
    exact Nat.lt_add_right _ hi
  refine ⟨fun i c hc => ?_, fun i hi => hlen i (h.user i hi),
    fun p hp i hi => hlen i (h.profiles p hp i hi),
    h.ordered.keep le_rfl rfl (Or.inl rfl)⟩
  rcases Nat.lt_or_ge i w.calls.length with hlt | hge
  · rw [List.getElem?_append_left hlt] at hc
    exact (h.fits i c hc).frame (Or.inl rfl) le_rfl rfl (Call.Same.refl c)
  · have hnew : i = w.calls.length ∧ c = cpuProfile text w.now deadline dur := by
      rw [List.getElem?_append_right hge, List.getElem?_singleton] at hc
      split at hc
      · exact ⟨by omega, (Option.some.inj hc).symm⟩
      · cases hc
    obtain ⟨rfl, rfl⟩ := hnew
    have huser : w.profiler.user ≠ some w.calls.length := fun hu => lt_irrefl _ (h.user _ hu)
    unfold Fits
    obtain hpc | ⟨err, hpc⟩ := cpuProfile_pc text w.now deadline dur
    · rw [hpc]
      exact ⟨huser, h.profilesOf_new⟩
    · rw [hpc]
      exact ⟨huser, h.profilesOf_new⟩

theorem Inv.endCtx {w : World} (h : Inv w) {i : Nat} {c : Call} (hc : w.calls[i]? = some c)
    (hnone : c.ctxErr = none) (e : CtxErr) : Inv (w.endCtx i e) := by
  refine h.moved hc rfl ?_ rfl (Or.inl rfl) (Or.inl rfl) (h.ordered.keep le_rfl rfl (Or.inl rfl))
  refine (h.fits i c hc).frame (Or.inl rfl) le_rfl rfl ⟨rfl, rfl, fun e' he' => ?_⟩
  rw [hnone] at he'
  cases he'

theorem start_cases {p : Profiler} {user : Option Nat} {now : Int} {r : Except Err Profiler}
    (h : p.start user now = some r) :
    (p = .idle ∧ r = .ok (.profiling user now)) ∨
    (∃ user' since, p = .profiling user' since ∧ r = .error inUse) := by
  cases p with
  | idle => exact Or.inl ⟨rfl, (Option.some.inj h).symm⟩
  | profiling user' since => exact Or.inr ⟨user', since, rfl, (Option.some.inj h).symm⟩
  | draining user' => cases h

theorem inv_step {text : Int → String} {w w' : World} {a : Action} (h : Inv w)
    (hw : step text w a = some w') : Inv w' := by
  cases a with
  | pass d =>
    cases hw
    have hle : w.now ≤ w.now + d := by omega
    exact h.outside rfl hle (Or.inl rfl) (Or.inl rfl) (h.ordered.keep hle rfl (Or.inl rfl))
  | call deadline dur =>
    cases hw
    exact h.call text deadline dur
  | cancel i =>
    simp only [step, Option.bind_eq_bind, Option.bind_eq_some_iff] at hw
    obtain ⟨c, hc, hw⟩ := hw
    split at hw
    · cases hw
      exact h.endCtx hc (by assumption) _
    · cases hw
  | expire i =>
    simp only [step, Option.bind_eq_bind, Option.bind_eq_some_iff] at hw
    obtain ⟨c, hc, hw⟩ := hw
    split at hw
    · rename_i hnone
      cases hw
      exact h.endCtx hc hnone.1 _
    · cases hw
  | start i =>
    simp only [step, Option.bind_eq_bind, Option.bind_eq_some_iff] at hw
    obtain ⟨c, hc, hw⟩ := hw
    have hfits := h.fits i c hc
    split at hw
    · rename_i p hpc hstart
      cases hw
      obtain ⟨hidle, hp⟩ | ⟨_, _, _, hp⟩ := start_cases hstart
      · cases hp
        rw [Fits, hpc] at hfits
        refine h.moved hc rfl ⟨rfl, hfits.2⟩ rfl (Or.inr ⟨Or.inr ?_, Or.inl rfl⟩) (Or.inl rfl)
          (h.ordered.start rfl rfl rfl)
        rw [hidle]
        rfl
      · cases hp
    · rename_i err hpc hstart
      cases hw
      obtain ⟨_, hp⟩ | ⟨_, _, _, hp⟩ := start_cases hstart
      · cases hp
      · cases hp
        rw [Fits, hpc] at hfits
        exact h.moved hc rfl ⟨hfits.1, Or.inr ⟨rfl, hfits.2⟩⟩ rfl (Or.inl rfl) (Or.inl rfl)
          (h.ordered.keep le_rfl rfl (Or.inl rfl))
    · cases hw
  | fire i =>
    simp only [step, Option.bind_eq_bind, Option.bind_eq_some_iff] at hw
    obtain ⟨c, hc, hw⟩ := hw
    have hfits := h.fits i c hc
    split at hw
    · rename_i since hpc
      split at hw
      · rename_i hdue
        cases hw
        rw [Fits, hpc] at hfits
        exact h.moved hc rfl ⟨hfits.1, hfits.2, Or.inl ⟨rfl, hdue⟩⟩ rfl (Or.inl rfl) (Or.inl rfl)
          (h.ordered.keep le_rfl rfl (Or.inl rfl))
      · cases hw
    · cases hw
  | done i =>
    simp only [step, Option.bind_eq_bind, Option.bind_eq_some_iff] at hw
    obtain ⟨c, hc, hw⟩ := hw
    have hfits := h.fits i c hc
    split at hw
    · rename_i since e hpc hctx
      cases hw
      rw [Fits, hpc] at hfits
      exact h.moved hc rfl ⟨hfits.1, hfits.2, Or.inr ⟨e, rfl, hctx⟩⟩ rfl (Or.inl rfl) (Or.inl rfl)
        (h.ordered.keep le_rfl rfl (Or.inl rfl))
    · cases hw
  | stop i =>
    simp only [step, Option.bind_eq_bind, Option.bind_eq_some_iff] at hw
    obtain ⟨c, hc, hw⟩ := hw
    have hfits := h.fits i c hc
    split at hw
    · rename_i since' err user since hpc hrun
      cases hw
      rw [Fits, hpc, hrun] at hfits
      obtain ⟨hprof, hnone, hend⟩ := hfits
      -- the profile is that of the call itself
      obtain ⟨rfl, rfl⟩ := Profiler.profiling.inj hprof
      have hof : (w.profiles ++ [(⟨some i, since, w.now⟩ : Taken)]).filter (·.user = some i) =
          [⟨some i, since, w.now⟩] := by
        rw [profilesOf_append_self rfl]
        exact congrArg (· ++ _) hnone
      refine h.moved hc rfl ⟨rfl, ⟨_, hof, hend⟩⟩ rfl (Or.inr ⟨Or.inl ?_, Or.inl rfl⟩)
        (Or.inr ⟨_, _, rfl⟩) (h.ordered.stop rfl hrun rfl fun _ _ hne => by cases hne)
      rw [hrun]
      rfl
    · rename_i since err hpc hidle
      rw [Fits, hpc, hidle] at hfits
      cases hfits.1
    · cases hw
  | drained i =>
    simp only [step, Option.bind_eq_bind, Option.bind_eq_some_iff] at hw
    obtain ⟨c, hc, hw⟩ := hw
    have hfits := h.fits i c hc
    split at hw
    · rename_i err hpc
      cases hw
      rw [Fits, hpc] at hfits
      refine h.moved hc rfl ⟨(fun hne => by cases hne), Or.inl hfits.2⟩ rfl
        (Or.inr ⟨Or.inl ?_, Or.inr rfl⟩) (Or.inl rfl)
        (h.ordered.keep le_rfl rfl (Or.inr fun _ _ hne => by cases hne))
      rw [hfits.1]
      rfl
    · cases hw
  | otherStart =>
    simp only [step] at hw
    split at hw
    · rename_i p hstart
      cases hw
      obtain ⟨hidle, hp⟩ | ⟨_, _, _, hp⟩ := start_cases hstart
      · cases hp
        refine h.outside rfl le_rfl (Or.inr ⟨?_, rfl⟩) (Or.inl rfl) (h.ordered.start rfl rfl rfl)
        rw [hidle]
        rfl
      · cases hp
    · cases hw
  | otherStop =>
    simp only [step] at hw
    split at hw
    · rename_i since hrun
      cases hw
      refine h.outside rfl le_rfl (Or.inr ⟨?_, rfl⟩) (Or.inr ⟨_, _, rfl⟩)
        (h.ordered.stop rfl hrun rfl fun _ _ hne => by cases hne)
      rw [hrun]
      rfl
    · cases hw
  | otherDrained =>
    simp only [step] at hw
    split at hw
    · rename_i hdrain
      cases hw
      refine h.outside rfl le_rfl (Or.inr ⟨?_, rfl⟩) (Or.inl rfl)
        (h.ordered.keep le_rfl rfl (Or.inr fun _ _ hne => by cases hne))
      rw [hdrain]
      rfl
    · cases hw

theorem inv_init (text : Int → String) : Inv (system text).init := by
  refine ⟨fun i c hc => ?_, fun i hi => ?_, fun p hp => ?_, ⟨List.Pairwise.nil, fun p hp => ?_, ?_⟩⟩
  · simp [system] at hc
  · cases hi
  · cases hp
  · cases hp
  · intro user since hrun
    cases hrun

theorem reachable_inv {text : Int → String} {tr : List Action} {w : World}
    (h : Steps (system text) Always (system text).init tr w) : Inv w :=
  h.invariant (I := Inv) (fun _ _ _ hi _ hstep => inv_step hi hstep) (inv_init text)

/-! ## Streams -/

/-- **Profiles do not cut each other short.** However the calls overlap and other code uses the
profiler: no profile is started before the one before it is stopped. The stream of a call that has
ended holds one profile, of the full duration if the end is regular; or one profile and the error of
the context; or nothing, and it says that the profiler was in use. -/
theorem cpu_profiles (text : Int → String) (tr : List Action) (w : World)
    (h : Steps (system text) Always (system text).init tr w) :
    w.profiles.Pairwise (fun p q => p.stop ≤ q.start) ∧
    ∀ (i : Nat) c err, w.calls[i]? = some c → c.pc = .closed err →
      (∃ p, w.profilesOf i = [p] ∧ err = none ∧ p.start + c.dur ≤ p.stop) ∨
      (∃ p e, w.profilesOf i = [p] ∧ err = some (.ctx e) ∧ c.ctxErr = some e) ∨
      (w.profilesOf i = [] ∧ err = some inUse) := by
  have hinv := reachable_inv h
  refine ⟨hinv.ordered.pairwise, fun i c err hc hpc => ?_⟩
  have hfits := hinv.fits i c hc
  rw [Fits, hpc] at hfits
  obtain ⟨-, ⟨p, hp, hend | ⟨e, herr, he⟩⟩ | ⟨herr, hnone⟩⟩ := hfits
  · exact Or.inl ⟨p, hp, hend⟩
  · exact Or.inr (Or.inl ⟨p, e, hp, herr, he⟩)
  · exact Or.inr (Or.inr ⟨hnone, herr⟩)

/-- The second call comes while the first one takes its profile, the third one after that; the
context of the third is cancelled. -/
theorem cpu_profiles_three_calls :
    ∃ w, Steps (system fun _ => "") Always (system fun _ => "").init
        [.call none 5, .start 0, .pass 1, .call none 0, .start 1, .pass 4, .fire 0, .stop 0,
          .drained 0, .call (some 100) 9, .start 2, .pass 1, .cancel 2, .done 2, .stop 2,
          .drained 2] w ∧
      w.profiles = [⟨some 0, 0, 5⟩, ⟨some 2, 5, 6⟩] ∧
      w.calls.map (·.pc) =
        [.closed none, .closed (some inUse), .closed (some (.ctx .canceled))] ∧
      ∀ (i : Nat) c err, w.calls[i]? = some c → c.pc = .closed err →
        (∃ p, w.profilesOf i = [p] ∧ err = none ∧ p.start + c.dur ≤ p.stop) ∨
        (∃ p e, w.profilesOf i = [p] ∧ err = some (.ctx e) ∧ c.ctxErr = some e) ∨
        (w.profilesOf i = [] ∧ err = some inUse) := by
  obtain ⟨w, hw, hprofiles, hpcs⟩ := exists_steps (system fun _ => "") Always
    (system fun _ => "").init
    [.call none 5, .start 0, .pass 1, .call none 0, .start 1, .pass 4, .fire 0, .stop 0,
      .drained 0, .call (some 100) 9, .start 2, .pass 1, .cancel 2, .done 2, .stop 2, .drained 2]
    (fun w => w.profiles = [⟨some 0, 0, 5⟩, ⟨some 2, 5, 6⟩] ∧
      w.calls.map (·.pc) =
        [.closed none, .closed (some inUse), .closed (some (.ctx .canceled))])
    (by decide +kernel)
  exact ⟨w, hw, hprofiles, hpcs, (cpu_profiles _ _ w hw).2⟩

/-! ## Who has the profiler -/

/-- The steps of the goroutine of a call, of the reader of its stream, and of the clock. -/
def Action.Own (i : Nat) : Action → Prop
  | .pass _ => True
  | .fire j | .stop j | .drained j => j = i
  | _ => False

theorem move_calls {w : World} {i : Nat} {c : Call} (hc : w.calls[i]? = some c) (pc : Pc) :
    (w.move i pc).calls[i]? = some { c with pc := pc } := by
  simp [World.move, hc]

section Released

variable {text : Int → String} {i : Nat} {c : Call}

/-- The goroutine of the call `i` and the reader of its stream turn off the profiler. -/
def Releases (text : Int → String) (i : Nat) (w : World) : Prop :=
  ∃ tr w', (∀ a ∈ tr, a.Own i) ∧ Steps (system text) Always w tr w' ∧ w'.profiler = .idle

theorem Releases.step {w w' : World} {a : Action} (hstep : (system text).step w a = some w')
    (ha : a.Own i) (h : Releases text i w') : Releases text i w := by
  obtain ⟨tr, w'', htr, hsteps, hidle⟩ := h
  refine ⟨a :: tr, w'', ?_, .cons trivial hstep hsteps, hidle⟩
  intro b hb
  rcases List.mem_cons.mp hb with rfl | hb
  · exact ha
  · exact htr b hb

theorem releases_draining {w : World} (hc : w.calls[i]? = some c) {err : Option Err}
    (hpc : c.pc = .draining err) : Releases text i w := by
  have hstep : (system text).step w (.drained i) =
      some { w.move i (.closed err) with profiler := .idle } := by
    simp only [system, Cpu.step, hc, hpc, Option.bind_eq_bind, Option.bind_some]
  exact Releases.step hstep rfl ⟨[], _, by simp, .nil _, rfl⟩

theorem releases_stopping {w : World} (hc : w.calls[i]? = some c) {since : Int}
    {err : Option Err} (hpc : c.pc = .stopping since err) {user : Option Nat} {since' : Int}
    (hrun : w.profiler = .profiling user since') : Releases text i w := by
  have hstep : (system text).step w (.stop i) = some { w.move i (.draining err) with
      profiler := .draining (some i), profiles := w.profiles ++ [⟨user, since', w.now⟩] } := by
    simp only [system, Cpu.step, hc, hpc, hrun, Option.bind_eq_bind, Option.bind_some]
  exact Releases.step hstep rfl (releases_draining (move_calls hc _) rfl)

theorem releases_due {w : World} (hc : w.calls[i]? = some c) {since : Int}
    (hpc : c.pc = .waiting since) (hdue : since + c.dur ≤ w.now) {user : Option Nat}
    {since' : Int} (hrun : w.profiler = .profiling user since') : Releases text i w := by
  have hstep : (system text).step w (.fire i) = some (w.move i (.stopping since none)) := by
    simp only [system, Cpu.step, hc, hpc, Option.bind_eq_bind, Option.bind_some, if_pos hdue]
  exact Releases.step hstep rfl (releases_stopping (move_calls hc _) rfl hrun)

theorem releases_waiting {w : World} (hc : w.calls[i]? = some c) {since : Int}
    (hpc : c.pc = .waiting since) {user : Option Nat} {since' : Int}
    (hrun : w.profiler = .profiling user since') : Releases text i w := by
  -- the clock goes on until the timer fires
  have hstep : (system text).step w (.pass (since + c.dur - w.now).toNat) =
      some { w with now := w.now + (since + c.dur - w.now).toNat } := rfl
  have hdue : since + c.dur ≤ w.now + (since + c.dur - w.now).toNat := by omega
  refine Releases.step hstep trivial ?_
  exact releases_due (w := { w with now := w.now + (since + c.dur - w.now).toNat }) hc hpc hdue hrun

end Released

/-- Only the end of its profile takes the profiler from a call. -/
theorem user_step {text : Int → String} {w w' : World} {a : Action} {i : Nat} (h : Inv w)
    (huser : w.profiler.user = some i) (ha : a ≠ .drained i) (hw : step text w a = some w') :
    w'.profiler.user = some i := by
  cases a with
  | pass d | call deadline dur =>
    cases hw
    exact huser
  | cancel j | expire j | fire j | done j =>
    simp only [step, Option.bind_eq_bind, Option.bind_eq_some_iff] at hw
    obtain ⟨c, -, hw⟩ := hw
    have hkeep : w'.profiler = w.profiler := by
      repeat' split at hw
      all_goals cases hw
      all_goals rfl
    rw [hkeep]
    exact huser
  | start j =>
    simp only [step, Option.bind_eq_bind, Option.bind_eq_some_iff] at hw
    obtain ⟨c, -, hw⟩ := hw
    split at hw
    · rename_i p hpc hstart
      obtain ⟨hidle, -⟩ | ⟨_, _, _, hp⟩ := start_cases hstart
      · rw [hidle] at huser
        cases huser
      · cases hp
    · cases hw
      exact huser
    · cases hw
  | stop j =>
    simp only [step, Option.bind_eq_bind, Option.bind_eq_some_iff] at hw
    obtain ⟨c, hc, hw⟩ := hw
    have hfits := h.fits j c hc
    split at hw
    · rename_i since' err user since hpc hrun
      cases hw
      rw [Fits, hpc] at hfits
      rw [hfits.1] at huser
      exact huser
    · rename_i since err hpc hidle
      rw [hidle] at huser
      cases huser
    · cases hw
  | drained j =>
    simp only [step, Option.bind_eq_bind, Option.bind_eq_some_iff] at hw
    obtain ⟨c, hc, hw⟩ := hw
    have hfits := h.fits j c hc
    split at hw
    · rename_i err hpc
      rw [Fits, hpc] at hfits
      rw [hfits.1] at huser
      cases huser
      exact absurd rfl ha
    · cases hw
  | otherStart =>
    simp only [step] at hw
    split at hw
    · rename_i p hstart
      obtain ⟨hidle, -⟩ | ⟨_, _, _, hp⟩ := start_cases hstart
      · rw [hidle] at huser
        cases huser
      · cases hp
    · cases hw
  | otherStop =>
    simp only [step] at hw
    split at hw
    · rename_i since hrun
      rw [hrun] at huser
      cases huser
    · cases hw
  | otherDrained =>
    simp only [step] at hw
    split at hw
    · rename_i hdrain
      rw [hdrain] at huser
      cases huser
    · cases hw

/-- **Who has the profiler.** A call that has turned the profiler on keeps it until its profile is
written, whatever the others do: a stream that is neither read nor closed keeps all others from a
profile. If it is, the goroutine of the call turns the profiler off by itself, as time passes. -/
theorem profiler_released (text : Int → String) (tr : List Action) (w : World)
    (h : Steps (system text) Always (system text).init tr w) (i : Nat)
    (huser : w.profiler.user = some i) :
    (∀ tr' w', Steps (system text) (fun _ a => a ≠ .drained i) w tr' w' →
      w'.profiler.user = some i) ∧
    Releases text i w := by
  have hinv := reachable_inv h
  constructor
  · intro tr' w' h'
    have hkeeps : ∀ u a v, Inv u ∧ u.profiler.user = some i → a ≠ .drained i →
        (system text).step u a = some v → Inv v ∧ v.profiler.user = some i :=
      fun u a v hu ha hstep => ⟨inv_step hu.1 hstep, user_step hu.1 hu.2 ha hstep⟩
    exact (h'.invariant (I := fun u => Inv u ∧ u.profiler.user = some i) hkeeps ⟨hinv, huser⟩).2
  · obtain ⟨c, hc⟩ : ∃ c, w.calls[i]? = some c :=
      ⟨_, List.getElem?_eq_getElem (hinv.user i huser)⟩
    have hfits := hinv.fits i c hc
    unfold Fits at hfits
    cases hpc : c.pc with
    | refused err | spawned | closed err =>
      rw [hpc] at hfits
      exact absurd huser hfits.1
    | waiting since =>
      rw [hpc] at hfits
      exact releases_waiting hc hpc hfits.1
    | stopping since err =>
      rw [hpc] at hfits
      exact releases_stopping hc hpc hfits.1
    | draining err => exact releases_draining hc hpc

theorem profiler_released_second_call :
    ∃ w, Steps (system fun _ => "") Always (system fun _ => "").init
        [.call none 5, .call none 7, .start 1, .start 0] w ∧
      w.profiler = .profiling (some 1) 0 ∧
      (∀ tr' w', Steps (system fun _ => "") (fun _ a => a ≠ .drained 1) w tr' w' →
        w'.profiler.user = some 1) ∧
      Releases (fun _ => "") 1 w := by
  obtain ⟨w, hw, hprof⟩ := exists_steps (system fun _ => "") Always (system fun _ => "").init
    [.call none 5, .call none 7, .start 1, .start 0]
    (fun w => w.profiler = .profiling (some 1) 0) (by decide +kernel)
  exact ⟨w, hw, hprof, profiler_released _ _ w hw 1 (by rw [hprof]; rfl)⟩

end Bigmachine.Profile.Cpu
