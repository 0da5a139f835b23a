import Bigmachine.Concurrent.Counting
import Bigmachine.Errors.Values

/-!
# Statistics of RPCs

`rpcstats` keeps a tree of expvars. `Start` counts a call under its method, and under its
machine and method when there is an address; the function that it returns records the outcome
of the call in the same places. Any number of calls do this at the same time, each in its own
thread, and all of them share the tree.

The tree and the threads are those of `Concurrent`, at `string` and `int64`: what `Start` and
the returned function do is a list of tasks, each an `Add` or a `max` at the end of a `Path`.
`no_count_lost` carries the two general results over: `Path` returns the same node for the same
names, and when no call is in between, the counters are the sums over the calls.
-/

namespace Bigmachine.Rpc.Stats

open Transition Concurrent Errors

/-! ## The values of expvars -/

instance int64AddCommMonoid : AddCommMonoid Int64 where
  add_assoc := Int64.add_assoc
  add_comm := Int64.add_comm
  zero_add := Int64.zero_add
  add_zero := Int64.add_zero
  nsmul := nsmulRec

instance int64LinearOrder : LinearOrder Int64 where
  le_refl := Int64.le_refl
  le_trans _ _ _ := Int64.le_trans
  le_antisymm _ _ := Int64.le_antisymm
  le_total := Int64.le_total
  lt_iff_le_not_ge a b := by
    rw [Int64.lt_iff_toInt_lt, Int64.le_iff_toInt_le, Int64.le_iff_toInt_le]
    exact lt_iff_le_not_ge
  toDecidableLE := inferInstance

/-! ## What a call does to the tree -/

abbrev Task := Concurrent.Task String Int64

def methodPath (method : String) : List String := ["method", method]

def machinePath (addr method : String) : List String := ["machine", addr, "method", method]

/-- The arguments of the function returned by `Start`, and the time since `Start` in
nanoseconds. -/
structure Outcome where
  requestBytes : Int64
  replyBytes : Int64
  err : Option Err
  since : Int64
  deriving DecidableEq, Repr

/-- Milliseconds. -/
def Outcome.elapsed (o : Outcome) : Int64 := o.since / 1000000

def start (addr method : String) : List Task :=
  [⟨methodPath method, .add "count" 1⟩] ++
    if addr ≠ "" then [⟨machinePath addr method, .add "count" 1⟩] else []

/-- The function returned by `Start`. -/
def done (addr method : String) (o : Outcome) : List Task :=
  [⟨methodPath method, .add "time" o.elapsed⟩] ++
    (if 0 < o.requestBytes then
      [⟨methodPath method, .add "requestbytes" o.requestBytes⟩,
        ⟨methodPath method, .max "maxrequestbytes" o.requestBytes⟩]
    else []) ++
    (if 0 < o.replyBytes then
      [⟨methodPath method, .add "replybytes" o.replyBytes⟩,
        ⟨methodPath method, .max "maxreplybytes" o.replyBytes⟩]
    else []) ++
    (if o.err.isSome then [⟨methodPath method, .add "errors" 1⟩] else []) ++
    [⟨methodPath method, .max "maxtime" o.elapsed⟩] ++
    if addr ≠ "" then
      [⟨machinePath addr method, .add "time" o.elapsed⟩,
        ⟨machinePath addr method, .max "maxtime" o.elapsed⟩]
    else []

/-! ## Any number of calls -/

/-- `outcome` is there once the function returned by `Start` has been called. -/
structure Call where
  addr : String
  method : String
  outcome : Option Outcome := none
  deriving DecidableEq, Repr

def Call.tasks (c : Call) : List Task :=
  start c.addr c.method ++ c.outcome.toList.flatMap (done c.addr c.method)

/-- The `i`-th thread is the `i`-th call. -/
structure State where
  world : World String Int64 := {}
  calls : List Call := []

/-- `Start` is called, or the function that it has returned to the `i`-th call; or that call goes on
by a step. -/
inductive Event
  | start (addr method : String)
  | done (i : Nat) (o : Outcome)
  | run (i : Nat)
  deriving DecidableEq, Repr

def step (s : State) : Event → Option State
  | .start addr method =>
    (Concurrent.step s.world (.spawn (start addr method))).map fun w =>
      { world := w, calls := s.calls ++ [{ addr := addr, method := method }] }
  | .done i o =>
    match s.calls[i]? with
    | some ⟨addr, method, none⟩ =>
      (Concurrent.step s.world (.assign i (done addr method o))).map fun w =>
        { world := w, calls := s.calls.set i ⟨addr, method, some o⟩ }
    | _ => none
  | .run i => (Concurrent.step s.world (.run i)).map fun w => { s with world := w }

def system : System State Event := ⟨{}, step⟩

/-! ## The calls of a run -/

/-- The address and the method of a call that an event starts. -/
def Event.started : Event → Option (String × String)
  | .start addr method => some (addr, method)
  | .done _ _ | .run _ => none

/-- The outcome of the `i`-th call. -/
def State.outcome (s : State) (i : Nat) : Option Outcome := s.calls[i]?.bind Call.outcome

theorem calls_step {s s' : State} {e : Event} (hstep : system.step s e = some s') :
    s'.calls.map (fun c => (c.addr, c.method)) =
      s.calls.map (fun c => (c.addr, c.method)) ++ e.started.toList ∧
    ∀ i o, s'.outcome i = some o ↔ s.outcome i = some o ∨ e = .done i o := by
  cases e with
  | start addr method =>
    cases hstep
    refine ⟨by simp [Event.started], fun i o => ?_⟩
    simp only [State.outcome, List.getElem?_append, reduceCtorEq, or_false]
    split
    · rfl
    · rename_i hle
      rw [List.getElem?_eq_none (Nat.not_lt.mp hle)]
      cases i - s.calls.length <;> simp
  | done j o' =>
    simp only [system, step] at hstep
    split at hstep
    · rename_i addr method hc
      obtain ⟨w, -, rfl⟩ := Option.map_eq_some_iff.mp hstep
      obtain ⟨hlt, hget⟩ := List.getElem?_eq_some_iff.mp hc
      refine ⟨?_, fun i o => ?_⟩
      · have hkey : (s.calls.map fun c => (c.addr, c.method))[j]? = some (addr, method) := by
          rw [List.getElem?_map, hc]
          rfl
        obtain ⟨_, hkey⟩ := List.getElem?_eq_some_iff.mp hkey
        rw [List.map_set, ← hkey, List.set_getElem_self, Event.started, Option.toList_none,
          List.append_nil]
      · simp only [State.outcome, List.getElem?_set]
        by_cases hij : j = i
        · subst hij
          simp [hlt, hget]
        · simp [hij]
    · cases hstep
  | run j =>
    obtain ⟨w, -, rfl⟩ := Option.map_eq_some_iff.mp hstep
    exact ⟨by simp [Event.started], fun i o => by simp [State.outcome]⟩

/-- The calls are those that were started, with the outcomes that were given to the functions which
`Start` has returned. -/
theorem calls_of_steps {s s' : State} {tr : List Event} {ok : State → Event → Prop}
    (h : Steps system ok s tr s') :
    s'.calls.map (fun c => (c.addr, c.method)) =
      s.calls.map (fun c => (c.addr, c.method)) ++ tr.filterMap Event.started ∧
    ∀ i o, s'.outcome i = some o ↔ s.outcome i = some o ∨ .done i o ∈ tr := by
  induction h with
  | nil => simp
  | cons _ hstep _ ih =>
    obtain ⟨hcalls, houtcome⟩ := calls_step hstep
    refine ⟨?_, fun i o => ?_⟩
    · rw [ih.1, hcalls, List.append_assoc, List.filterMap_cons]
      cases Event.started _ <;> rfl
    · rw [ih.2 i o, houtcome i o, or_assoc, List.mem_cons, eq_comm (a := Event.done i o)]

/-! ## The layout of the tree -/

def layout : Layout String where
  Leaf p := (∃ method, p = methodPath method) ∨ ∃ addr method, p = machinePath addr method
  Maximum k := k = "maxtime" ∨ k = "maxrequestbytes" ∨ k = "maxreplybytes"
  prefixFree := by
    rintro p q (⟨m, rfl⟩ | ⟨a, m, rfl⟩) (⟨m', rfl⟩ | ⟨a', m', rfl⟩) h
    all_goals simp_all [methodPath, machinePath]

theorem leaf_methodPath (method : String) : layout.Leaf (methodPath method) :=
  Or.inl ⟨method, rfl⟩

theorem leaf_machinePath (addr method : String) : layout.Leaf (machinePath addr method) :=
  Or.inr ⟨addr, method, rfl⟩

theorem maximum_iff (k : String) :
    layout.Maximum k ↔ k = "maxtime" ∨ k = "maxrequestbytes" ∨ k = "maxreplybytes" := Iff.rfl

theorem start_fits (addr method : String) : ∀ task ∈ start addr method, layout.Fits task := by
  intro task htask
  simp only [start, List.mem_append, List.mem_singleton, List.mem_ite_nil_right] at htask
  rcases htask with rfl | ⟨-, rfl⟩
  all_goals simp [Layout.Fits, leaf_methodPath, leaf_machinePath, maximum_iff]

theorem done_fits (addr method : String) (o : Outcome) :
    ∀ task ∈ done addr method o, layout.Fits task := by
  intro task htask
  simp only [done, List.mem_append, List.mem_cons, List.not_mem_nil, or_false,
    List.mem_ite_nil_right] at htask
  rcases htask with ((((rfl | ⟨-, rfl | rfl⟩) | ⟨-, rfl | rfl⟩) | ⟨-, rfl⟩) | rfl) | ⟨-, rfl | rfl⟩
  all_goals simp [Layout.Fits, leaf_methodPath, leaf_machinePath, maximum_iff]

/-! ## Runs of the statistics are runs of the tree -/

/-- What an event is for the tree. -/
theorem exists_action {s s' : State} {e : Event} (hstep : system.step s e = some s') :
    ∃ a, Given layout s.world a ∧ Concurrent.system.step s.world a = some s'.world ∧
      ∀ i, a = .run i → e = .run i := by
  cases e with
  | start addr method =>
    cases hstep
    exact ⟨.spawn (start addr method), start_fits addr method, rfl, fun i h => nomatch h⟩
  | done i o =>
    simp only [system, step] at hstep
    split at hstep
    · rename_i addr method _
      obtain ⟨w, hw, rfl⟩ := Option.map_eq_some_iff.mp hstep
      exact ⟨.assign i (done addr method o), done_fits addr method o, hw, fun i h => nomatch h⟩
    · cases hstep
  | run i =>
    obtain ⟨w, hw, rfl⟩ := Option.map_eq_some_iff.mp hstep
    refine ⟨.run i, trivial, hw, fun j h => ?_⟩
    cases h
    rfl

theorem tree_steps {s s' : State} {tr : List Event} (h : Steps system Always s tr s') :
    ∃ tr', Steps Concurrent.system (Given layout) s.world tr' s'.world := by
  refine h.simulate State.world fun s e t _ hstep => ?_
  obtain ⟨a, hgiven, hw, -⟩ := exists_action hstep
  exact ⟨a, hgiven, hw⟩

/-- The tasks given to the threads are those of the calls. -/
def Logged (s : State) : Prop := s.world.log.Perm (s.calls.flatMap Call.tasks)

theorem logged_step (s : State) (e : Event) (s' : State) (h : Logged s)
    (hstep : system.step s e = some s') : Logged s' := by
  cases e with
  | start addr method =>
    cases hstep
    simpa [Logged, Call.tasks] using h.append_right (start addr method)
  | done i o =>
    simp only [system, step] at hstep
    split at hstep
    · rename_i addr method hc
      obtain ⟨w, hw, rfl⟩ := Option.map_eq_some_iff.mp hstep
      have hlog : w.log = s.world.log ++ done addr method o := by
        simp only [Concurrent.step] at hw
        split at hw <;> cases hw
        rfl
      have hset := flatMap_set_perm hc ⟨addr, method, some o⟩ Call.tasks
      simp only [Call.tasks, Option.toList_some, Option.toList_none, List.flatMap_nil,
        List.append_nil, List.flatMap_singleton, List.append_assoc] at hset
      have hcalls := (List.perm_append_left_iff _).mp hset
      rw [Logged, hlog]
      exact ((h.append_right _).trans List.perm_append_comm).trans hcalls.symm
    · cases hstep
  | run i =>
    obtain ⟨w, hw, rfl⟩ := Option.map_eq_some_iff.mp hstep
    have hlog : w.log = s.world.log := by
      simp only [Concurrent.step] at hw
      split at hw
      · cases hw
      · obtain ⟨_, -, rfl⟩ := Option.map_eq_some_iff.mp hw
        rfl
    rw [Logged, hlog]
    exact h

theorem logged_of_steps {s : State} {tr : List Event} {ok : State → Event → Prop}
    (h : Steps system ok system.init tr s) : Logged s :=
  h.invariant (I := Logged) (fun s e s' h _ => logged_step s e s' h) .nil

/-! ## The values recorded by calls -/

def ofMethod (calls : List Call) (method : String) : List Call :=
  calls.filter fun c => c.method = method

def ofMachine (calls : List Call) (addr method : String) : List Call :=
  calls.filter fun c => c.addr = addr ∧ c.method = method

def outcomes (calls : List Call) : List Outcome := calls.filterMap Call.outcome

theorem methodPath_inj {m m' : String} : methodPath m = methodPath m' ↔ m = m' := by
  simp [methodPath]

theorem machinePath_inj {a m a' m' : String} :
    machinePath a m = machinePath a' m' ↔ a = a' ∧ m = m' := by
  simp [machinePath]

theorem methodPath_ne_machinePath (m a m' : String) : methodPath m ≠ machinePath a m' := by
  simp [methodPath, machinePath]

/-- What a call records under its method; the machine does not matter. -/
theorem recorded_method (a m : String) (o : Option Outcome) :
    let values := recorded (Call.tasks ⟨a, m, o⟩) (methodPath m)
    values "count" = [1] ∧
    values "errors" = (o.toList.flatMap fun o => if o.err.isSome then [1] else []) ∧
    values "time" = (o.toList.flatMap fun o => if True then [o.elapsed] else []) ∧
    values "maxtime" = (o.toList.flatMap fun o => if True then [o.elapsed] else []) ∧
    values "requestbytes" =
      (o.toList.flatMap fun o => if 0 < o.requestBytes then [o.requestBytes] else []) ∧
    values "maxrequestbytes" =
      (o.toList.flatMap fun o => if 0 < o.requestBytes then [o.requestBytes] else []) ∧
    values "replybytes" =
      (o.toList.flatMap fun o => if 0 < o.replyBytes then [o.replyBytes] else []) ∧
    values "maxreplybytes" =
      (o.toList.flatMap fun o => if 0 < o.replyBytes then [o.replyBytes] else []) := by
  have hne := methodPath_ne_machinePath m a m
  cases o <;> simp [Call.tasks, start, done, Task.value, Op.name, Op.val, hne]

theorem recorded_machine {a : String} (ha : a ≠ "") (m : String) (o : Option Outcome) :
    let values := recorded (Call.tasks ⟨a, m, o⟩) (machinePath a m)
    values "count" = [1] ∧
    values "time" = (o.toList.flatMap fun o => if True then [o.elapsed] else []) ∧
    values "maxtime" = (o.toList.flatMap fun o => if True then [o.elapsed] else []) := by
  have hne := (methodPath_ne_machinePath m a m).symm
  cases o <;> simp [Call.tasks, start, done, Task.value, Op.name, Op.val, hne, ha]

/-- Other calls record nothing under a method. -/
theorem recorded_other_method {c : Call} {m : String} (hm : c.method ≠ m) (k : String) :
    recorded c.tasks (methodPath m) k = [] := by
  have hne := methodPath_ne_machinePath m c.addr c.method
  cases ho : c.outcome <;>
    simp [Call.tasks, start, done, Task.value, ho, hne, methodPath_inj, Ne.symm hm]

theorem recorded_other_machine {c : Call} {a m : String} (hc : ¬ (c.addr = a ∧ c.method = m))
    (k : String) : recorded c.tasks (machinePath a m) k = [] := by
  have hne := (methodPath_ne_machinePath c.method a m).symm
  have hc' : ¬ (a = c.addr ∧ m = c.method) := fun h => hc ⟨h.1.symm, h.2.symm⟩
  cases ho : c.outcome <;>
    simp [Call.tasks, start, done, Task.value, ho, hne, machinePath_inj, hc']

theorem flatMap_outcome (calls : List Call) (p : Outcome → Prop) [DecidablePred p]
    (g : Outcome → Int64) :
    (calls.flatMap fun c => c.outcome.toList.flatMap fun o => if p o then [g o] else []) =
      ((outcomes calls).filter p).map g := by
  induction calls with
  | nil => rfl
  | cons c calls ih =>
    rw [List.flatMap_cons, ih]
    cases ho : c.outcome with
    | none => simp [outcomes, ho]
    | some o => by_cases hp : p o <;> simp [outcomes, ho, hp]

theorem sum_ones {α : Type} (l : List α) :
    (l.map fun _ => (1 : Int64)).sum = Int64.ofNat l.length := by
  induction l with
  | nil => rfl
  | cons a l ih =>
    rw [List.map_cons, List.sum_cons, ih, List.length_cons, Nat.add_comm, Int64.ofNat_add]
    rfl

/-! ## All calls -/

section Calls

variable {k : String} {f : Option Outcome → List Int64}

theorem recorded_ofMethod (calls : List Call) {m : String}
    (hf : ∀ a o, recorded (Call.tasks ⟨a, m, o⟩) (methodPath m) k = f o) :
    recorded (calls.flatMap Call.tasks) (methodPath m) k =
      (ofMethod calls m).flatMap fun c => f c.outcome := by
  induction calls with
  | nil => rfl
  | cons c calls ih =>
    rw [List.flatMap_cons, recorded_append, ih]
    by_cases hm : c.method = m
    · subst hm
      simp [ofMethod, ← hf c.addr c.outcome]
    · simp [ofMethod, hm, recorded_other_method hm]

theorem recorded_ofMachine (calls : List Call) {a m : String}
    (hf : ∀ o, recorded (Call.tasks ⟨a, m, o⟩) (machinePath a m) k = f o) :
    recorded (calls.flatMap Call.tasks) (machinePath a m) k =
      (ofMachine calls a m).flatMap fun c => f c.outcome := by
  induction calls with
  | nil => rfl
  | cons c calls ih =>
    rw [List.flatMap_cons, recorded_append, ih]
    by_cases hc : c.addr = a ∧ c.method = m
    · obtain ⟨rfl, rfl⟩ := hc
      simp [ofMachine, ← hf c.outcome]
    · simp [ofMachine, hc, recorded_other_machine hc]

/-- The values that calls record under a method. -/
theorem recorded_calls_method (calls : List Call) (m : String) :
    let values := recorded (calls.flatMap Call.tasks) (methodPath m)
    let os := outcomes (ofMethod calls m)
    values "count" = (ofMethod calls m).map (fun _ => 1) ∧
    values "errors" = (os.filter fun o => o.err.isSome).map (fun _ => 1) ∧
    values "time" = os.map Outcome.elapsed ∧
    values "maxtime" = os.map Outcome.elapsed ∧
    values "requestbytes" = (os.filter fun o => 0 < o.requestBytes).map Outcome.requestBytes ∧
    values "maxrequestbytes" = (os.filter fun o => 0 < o.requestBytes).map Outcome.requestBytes ∧
    values "replybytes" = (os.filter fun o => 0 < o.replyBytes).map Outcome.replyBytes ∧
    values "maxreplybytes" = (os.filter fun o => 0 < o.replyBytes).map Outcome.replyBytes := by
  have hone := fun a o => recorded_method a m o
  refine ⟨?_, ?_, ?_, ?_, ?_, ?_, ?_, ?_⟩
  · rw [recorded_ofMethod calls fun a o => (hone a o).1, List.map_eq_flatMap]
  · rw [recorded_ofMethod calls fun a o => (hone a o).2.1, flatMap_outcome]
    simp
  · rw [recorded_ofMethod calls fun a o => (hone a o).2.2.1, flatMap_outcome]
    simp
  · rw [recorded_ofMethod calls fun a o => (hone a o).2.2.2.1, flatMap_outcome]
    simp
  · rw [recorded_ofMethod calls fun a o => (hone a o).2.2.2.2.1, flatMap_outcome]
  · rw [recorded_ofMethod calls fun a o => (hone a o).2.2.2.2.2.1, flatMap_outcome]
  · rw [recorded_ofMethod calls fun a o => (hone a o).2.2.2.2.2.2.1, flatMap_outcome]
  · rw [recorded_ofMethod calls fun a o => (hone a o).2.2.2.2.2.2.2, flatMap_outcome]

theorem recorded_calls_machine (calls : List Call) {a : String} (ha : a ≠ "") (m : String) :
    let values := recorded (calls.flatMap Call.tasks) (machinePath a m)
    let os := outcomes (ofMachine calls a m)
    values "count" = (ofMachine calls a m).map (fun _ => 1) ∧
    values "time" = os.map Outcome.elapsed ∧
    values "maxtime" = os.map Outcome.elapsed := by
  have hone := recorded_machine ha m
  refine ⟨?_, ?_, ?_⟩
  · rw [recorded_ofMachine calls fun o => (hone o).1, List.map_eq_flatMap]
  · rw [recorded_ofMachine calls fun o => (hone o).2.1, flatMap_outcome]
    simp
  · rw [recorded_ofMachine calls fun o => (hone o).2.2, flatMap_outcome]
    simp

end Calls

/-- The counter `name` at the end of a path. -/
def State.count (s : State) (p : List String) (name : String) : Int64 :=
  s.world.tree.count p name

/-- No call is inside `Start` or the function returned by it. -/
def State.Quiet (s : State) : Prop := s.world.Quiet

instance (s : State) : Decidable s.Quiet :=
  inferInstanceAs (Decidable (∀ th ∈ s.world.threads, th.left = []))

theorem count_eq_sum_recorded {tr : List Event} {s : State}
    (h : Steps system Always system.init tr s) (hquiet : s.Quiet) (p : List String) {k : String}
    (hk : ¬ layout.Maximum k) :
    s.count p k = (recorded (s.calls.flatMap Call.tasks) p k).sum := by
  obtain ⟨tr', htree⟩ := tree_steps h
  exact (count_eq_sum htree hquiet p hk).trans (recorded_perm (logged_of_steps h) p k).sum_eq

/-- **No call is lost.** The calls are those of the run, with their outcomes. Two walks along the
same names, at any two moments, are at the same node; and whenever no call is in between, the
counters are the sums over the calls. -/
theorem no_count_lost {tr : List Event} {s : State} (h : Steps system Always system.init tr s) :
    (s.calls.map (fun c => (c.addr, c.method)) = tr.filterMap Event.started ∧
      ∀ i o, s.outcome i = some o ↔ .done i o ∈ tr) ∧
    (∀ tr' s' i j names n n', Steps system Always s tr' s' → s.world.Walked i names n →
      s'.world.Walked j names n' → n = n') ∧
    (s.Quiet →
      (∀ method,
        let calls := ofMethod s.calls method
        s.count (methodPath method) "count" = Int64.ofNat calls.length ∧
        s.count (methodPath method) "errors" =
          Int64.ofNat ((outcomes calls).filter fun o => o.err.isSome).length ∧
        s.count (methodPath method) "time" = ((outcomes calls).map Outcome.elapsed).sum ∧
        s.count (methodPath method) "requestbytes" =
          (((outcomes calls).filter fun o => 0 < o.requestBytes).map Outcome.requestBytes).sum ∧
        s.count (methodPath method) "replybytes" =
          (((outcomes calls).filter fun o => 0 < o.replyBytes).map Outcome.replyBytes).sum) ∧
      ∀ addr method, addr ≠ "" →
        let calls := ofMachine s.calls addr method
        s.count (machinePath addr method) "count" = Int64.ofNat calls.length ∧
        s.count (machinePath addr method) "time" =
          ((outcomes calls).map Outcome.elapsed).sum) := by
  refine ⟨?_, ?_, fun hquiet => ?_⟩
  · obtain ⟨hcalls, houtcome⟩ := calls_of_steps h
    exact ⟨hcalls, fun i o => by simpa [system, State.outcome] using houtcome i o⟩
  · intro tr' s' i j names n n' h' hi hj
    obtain ⟨_, hs⟩ := tree_steps h
    obtain ⟨_, hs'⟩ := tree_steps h'
    exact walks_agree hs hs' hi hj
  · have hsum : ∀ p k, ¬ layout.Maximum k → _ := fun p k => count_eq_sum_recorded h hquiet p
    refine ⟨fun method => ?_, fun addr method haddr => ?_⟩
    · obtain ⟨hcount, herrors, htime, -, hrequest, -, hreply, -⟩ :=
        recorded_calls_method s.calls method
      refine ⟨?_, ?_, ?_, ?_, ?_⟩
      · rw [hsum _ "count" (by simp [maximum_iff]), hcount, sum_ones]
      · rw [hsum _ "errors" (by simp [maximum_iff]), herrors, sum_ones]
      · rw [hsum _ "time" (by simp [maximum_iff]), htime]
      · rw [hsum _ "requestbytes" (by simp [maximum_iff]), hrequest]
      · rw [hsum _ "replybytes" (by simp [maximum_iff]), hreply]
    · obtain ⟨hcount, htime, -⟩ := recorded_calls_machine s.calls haddr method
      refine ⟨?_, ?_⟩
      · rw [hsum _ "count" (by simp [maximum_iff]), hcount, sum_ones]
      · rw [hsum _ "time" (by simp [maximum_iff]), htime]

/-- Two calls of one method: both find no node for `method`, and then none for `m`, and each of them
makes one of the two. -/
def raceRun : List Event :=
  [.start "" "m", .start "" "m", .run 0, .run 1,
    .run 0, .run 0, .run 0, .run 0, .run 1, .run 1, .run 1,
    .run 0, .run 1, .run 1, .run 1, .run 1, .run 1, .run 0, .run 0, .run 0]

/-- The first call ends after three milliseconds, with an error. -/
def raceEnd : List Event :=
  [.run 0, .run 1, .done 0 ⟨5, 7, some .eof, 3000000⟩] ++ List.replicate 36 (.run 0)

theorem no_count_lost_raceRun :
    ∃ s s', Steps system Always system.init raceRun s ∧ Steps system Always s raceEnd s' ∧
      (∃ n n', s.world.Walked 0 (methodPath "m") n ∧ s.world.Walked 1 (methodPath "m") n' ∧
        n = n') ∧
      s'.Quiet ∧ s'.outcome 0 = some ⟨5, 7, some .eof, 3000000⟩ ∧
      s'.count (methodPath "m") "count" = 2 ∧ s'.count (methodPath "m") "errors" = 1 ∧
      s'.count (methodPath "m") "time" = 3 ∧ s'.count (methodPath "m") "replybytes" = 7 := by
  let th : Thread String Int64 := ⟨some (.walk (methodPath "m") 2 [] (.add "count" 1)), []⟩
  obtain ⟨s, s', hs, hs', hthreads, hquiet, hcalls⟩ :=
    exists_steps_twice system Always system.init raceRun raceEnd
      (fun s => s.world.threads = [th, th])
      (fun s => s.Quiet ∧
        s.calls = [⟨"", "m", some ⟨5, 7, some .eof, 3000000⟩⟩, ⟨"", "m", none⟩])
      (by decide +kernel)
  have h0 : s.world.Walked 0 (methodPath "m") 2 := ⟨th, [], _, by rw [hthreads]; rfl, rfl⟩
  have h1 : s.world.Walked 1 (methodPath "m") 2 := ⟨th, [], _, by rw [hthreads]; rfl, rfl⟩
  obtain ⟨⟨-, houtcome⟩, -, hcounts⟩ := no_count_lost (hs.append hs')
  obtain ⟨hcount, herrors, htime, -, hreply⟩ := (hcounts hquiet).1 "m"
  rw [hcalls] at hcount herrors htime hreply
  refine ⟨s, s', hs, hs', ⟨2, 2, h0, h1, ?_⟩, hquiet, ?_, hcount, herrors, ?_, ?_⟩
  · exact (no_count_lost hs).2.1 [] s 0 1 _ 2 2 (.nil s) h0 h1
  · exact (houtcome 0 _).mpr (List.mem_append_right _ (by decide))
  · exact htime.trans (by decide)
  · exact hreply.trans (by decide)

end Bigmachine.Rpc.Stats
