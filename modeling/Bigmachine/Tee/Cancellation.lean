import Bigmachine.Tee.History

/-!
# Cancellation is final

The multiplexer together with the calls of its cancel functions. A cancel function is
`once.Do(func() { delete the key; close(done) })`; it is called any number of times, from
anywhere, also by the consumer itself after its writer has failed. `sync.Once` is modelled by
its mutex and its flag: a call runs the function when the flag is not set, and any other
returns when it is.

Inside `once.Do` there is one call at a time and the function runs once (`OnceInv`), so the
done channel is closed at most once, and every step of the whole is a step of the multiplexer
alone or none (`refines`). The bytes that reach a writer are then accounted for: they come
from `Write`s that have taken the target's buffer (`received_le_put`), and no `Write` does
so that began after a call of the cancel function had returned.
-/

namespace Bigmachine.Tee

open Transition

/-! ## The bytes at a target -/

/-- The bytes of the target `t` in its channel. -/
def Mux.queued (s : Mux) (t : Nat) : Multiset UInt8 := ((s.targets t).slot.getD [] : List UInt8)

/-- The bytes of the target `t` in the hands of `Write`s. -/
def Mux.held (s : Mux) (t : Nat) : Multiset UInt8 :=
  ∑ w ∈ Finset.range s.begun, ((((s.writes w).pc.buffer t).getD [] : List UInt8) : Multiset UInt8)

/-- The bytes that the consumer has received. -/
def receivedBytes (evs : List Event) : Multiset UInt8 := ((received evs).flatten : List UInt8)

/-- The bytes of the `Write`s in a history. -/
def putBytes (evs : List Event) : Multiset UInt8 := (((puts evs).map Prod.snd).flatten : List UInt8)

/-- No byte at the target `t` comes from elsewhere than the `Write`s in its history, and none
of theirs is there twice. -/
def Conserved (t : Nat) (s : Mux) (evs : List Event) : Prop :=
  receivedBytes evs + s.queued t + s.held t ≤ putBytes evs

/-- One `Write` moves: what it had of the target's bytes is replaced by what it has now. -/
theorem held_setWrite (s : Mux) (t : Nat) {w : Nat} (hw : w < s.begun) (pc : WritePc) :
    ∃ rest, s.held t = rest + (((s.writes w).pc.buffer t).getD [] : List UInt8) ∧
      (s.setWrite w pc).held t = rest + ((pc.buffer t).getD [] : List UInt8) := by
  have hmem : w ∈ Finset.range s.begun := Finset.mem_range.mpr hw
  refine ⟨_, (Finset.sum_erase_add _ _ hmem).symm, ?_⟩
  have hself : ((s.setWrite w pc).writes w).pc = pc := setWrite_target_self s w pc
  have hbegun : (s.setWrite w pc).begun = s.begun := rfl
  rw [Mux.held, hbegun, ← Finset.sum_erase_add _ _ hmem, hself]
  congr 1
  refine Finset.sum_congr rfl fun w' hw' => ?_
  rw [setWrite_of_ne s pc (Finset.ne_of_mem_erase hw')]

theorem held_setWrite_of_none (s : Mux) (t : Nat) {w : Nat} (hw : w < s.begun) {pc : WritePc}
    (hold : (s.writes w).pc.buffer t = none) (hnew : pc.buffer t = none) :
    (s.setWrite w pc).held t = s.held t := by
  obtain ⟨rest, h, h'⟩ := held_setWrite s t hw pc
  rw [h, h', hold, hnew]

theorem push_le (buf p : List UInt8) :
    ((push buf p : List UInt8) : Multiset UInt8) ≤
      (buf : Multiset UInt8) + (p : Multiset UInt8) := by
  have hdrop : (buf.drop (buf.length + p.length - bufferSize)).Subperm buf :=
    (List.drop_sublist _ buf).subperm
  rw [push, ← Multiset.coe_add]
  exact add_le_add (Multiset.coe_le.mpr hdrop) le_rfl

/-- A `Write` takes the buffer of the target `t`. -/
theorem Conserved.take {t : Nat} {s : Mux} {evs : List Event} (h : Conserved t s evs) {w : Nat}
    {visited : List Nat} (hw : w < s.begun) (hpc : (s.writes w).pc = .range visited)
    {buf p : List UInt8} (hbuf : (buf : Multiset UInt8) ≤ s.queued t + p) :
    Conserved t ((s.setTarget t { s.targets t with slot := none }).setWrite w
      (.send t buf visited)) (evs ++ [.put w p]) := by
  obtain ⟨rest, hold, hnew⟩ :=
    held_setWrite (s.setTarget t { s.targets t with slot := none }) t hw (.send t buf visited)
  have hrest : s.held t = rest := by
    have hnone : (s.writes w).pc.buffer t = none := by
      rw [hpc]
      rfl
    have hold' : s.held t = rest + (((s.writes w).pc.buffer t).getD [] : List UInt8) := hold
    rw [hold', hnone]
    exact add_zero rest
  have hheld : ((s.setTarget t { s.targets t with slot := none }).setWrite w
      (.send t buf visited)).held t = s.held t + buf := by
    rw [hnew, hrest, WritePc.buffer, if_pos rfl, Option.getD_some]
  have hqueued : ((s.setTarget t { s.targets t with slot := none }).setWrite w
      (.send t buf visited)).queued t = 0 := by
    simp [Mux.queued, Mux.setWrite]
  have hput : putBytes (evs ++ [.put w p]) = putBytes evs + p := by
    simp [putBytes]
  have hreceived : receivedBytes (evs ++ [.put w p]) = receivedBytes evs := by
    rw [receivedBytes, received_put, receivedBytes]
  unfold Conserved at h ⊢
  rw [hheld, hqueued, hput, hreceived]
  calc receivedBytes evs + 0 + (s.held t + buf)
      ≤ receivedBytes evs + 0 + (s.held t + (s.queued t + p)) :=
        add_le_add le_rfl (add_le_add le_rfl hbuf)
    _ = receivedBytes evs + s.queued t + s.held t + p := by abel
    _ ≤ putBytes evs + p := add_le_add h le_rfl

/-- A `Write` sends the buffer of the target `t`. -/
theorem Conserved.send {t : Nat} {s : Mux} {evs : List Event} (h : Conserved t s evs) {w : Nat}
    {buf : List UInt8} {visited : List Nat} (hw : w < s.begun)
    (hpc : (s.writes w).pc = .send t buf visited) (hslot : (s.targets t).slot = none) :
    Conserved t ((s.setTarget t { s.targets t with slot := some buf }).setWrite w
      (.range (t :: visited))) evs := by
  obtain ⟨rest, hold, hnew⟩ := held_setWrite
    (s.setTarget t { s.targets t with slot := some buf }) t hw (.range (t :: visited))
  have hheld : s.held t = rest + buf := by
    have hown : (s.writes w).pc.buffer t = some buf := by
      rw [hpc]
      exact if_pos rfl
    have hold' : s.held t = rest + (((s.writes w).pc.buffer t).getD [] : List UInt8) := hold
    rw [hold', hown, Option.getD_some]
  have hheld' : ((s.setTarget t { s.targets t with slot := some buf }).setWrite w
      (.range (t :: visited))).held t = rest := by
    rw [hnew]
    exact add_zero rest
  have hqueued : s.queued t = 0 := by
    rw [Mux.queued, hslot]
    rfl
  have hqueued' : ((s.setTarget t { s.targets t with slot := some buf }).setWrite w
      (.range (t :: visited))).queued t = buf := by
    simp [Mux.queued, Mux.setWrite]
  unfold Conserved at h ⊢
  rw [hheld, hqueued] at h
  rw [hheld', hqueued']
  calc receivedBytes evs + buf + rest
      = receivedBytes evs + 0 + (rest + buf) := by abel
    _ ≤ putBytes evs := h

/-- Nothing changes at the target `t`. -/
theorem Conserved.frame {t : Nat} {s s' : Mux} {evs : List Event} (h : Conserved t s evs)
    (hx : (s'.targets t).slot = (s.targets t).slot) (hw : s'.held t = s.held t) :
    Conserved t s' evs := by
  unfold Conserved Mux.queued at h ⊢
  rw [hx, hw]
  exact h

theorem Conserved.target {t : Nat} {s : Mux} {evs : List Event} (h : Conserved t s evs)
    {b : TargetAction} {x : Target} (hx : (s.targets t).step b = some x) :
    Conserved t (s.setTarget t x) (evs ++ seen t s (.target t b)) := by
  have hsame : x.slot = (s.targets t).slot → Conserved t (s.setTarget t x) evs := by
    intro hslot
    exact h.frame (by rw [setTarget_self, hslot]) rfl
  obtain ⟨o, rfl, -, rfl⟩ | ⟨buf, rfl, -, hslot, rfl⟩ | ⟨rfl, -, -, rfl⟩ | ⟨buf, rfl, -, rfl⟩ |
    ⟨n, buf, rfl, -, rfl⟩ | ⟨rfl, -, -, rfl⟩ := Target.step_cases hx
  case inr.inl =>
    have hseen : seen t s (.target t .receive) = [.received buf] := by simp [seen, hslot]
    have hput : putBytes (evs ++ [.received buf]) = putBytes evs := by
      rw [putBytes, puts_received, putBytes]
    have hreceived : receivedBytes (evs ++ [.received buf]) = receivedBytes evs + buf := by
      simp [receivedBytes]
    have hqueued : s.queued t = buf := by
      rw [Mux.queued, hslot]
      rfl
    have hempty : (s.setTarget t { s.targets t with
        slot := none, consumer := .copying buf }).queued t = 0 := by
      rw [Mux.queued, setTarget_self]
      rfl
    unfold Conserved at h ⊢
    rw [hqueued] at h
    rw [hseen, hput, hreceived, hempty, add_zero]
    exact h
  all_goals
    rw [seen_target _ _ (by simp), List.append_nil]
    exact hsame rfl

theorem step_conserved {t : Nat} {s s' : Mux} {a : Action} {evs : List Event}
    (h : Conserved t s evs) (hr : Ranges s) (hs : step s a = some s') :
    Conserved t s' (evs ++ seen t s a) := by
  obtain ⟨rfl, rfl⟩ | ⟨c, b, x, rfl, -, hx, rfl⟩ | ⟨p, rfl, rfl⟩ |
    ⟨w, c, visited, rfl, hpc, hw, -, rfl⟩ | ⟨w, c, buf, visited, rfl, hpc, hw, hslot, rfl⟩ |
    ⟨w, visited, rfl, hpc, hw, -, rfl⟩ := step_cases hs
  · rw [seen_tee, List.append_nil]
    exact h.frame (congrArg Target.slot (congrFun hr.tee_targets t)) rfl
  · by_cases hct : t = c
    · subst hct
      exact h.target hx
    · rw [seen_target_of_ne s b hct, List.append_nil]
      exact h.frame (congrArg Target.slot (setTarget_of_ne s x hct)) rfl
  · rw [seen_write, List.append_nil]
    refine h.frame rfl ?_
    have hnew : (WritePc.range []).buffer t = none := rfl
    rw [Mux.held, Finset.sum_range_succ]
    simp only [Function.update_self, hnew, Option.getD_none, Multiset.coe_nil, add_zero]
    refine Finset.sum_congr rfl fun w hw => ?_
    rw [Function.update_of_ne (Nat.ne_of_lt (Finset.mem_range.mp hw))]
  · by_cases hct : t = c
    · subst hct
      rw [seen_take]
      exact h.take hw hpc (push_le _ _)
    · rw [seen_take_of_ne s w hct, List.append_nil]
      refine h.frame (congrArg Target.slot (setTarget_of_ne s _ hct))
        (held_setWrite_of_none _ t hw ?_ (if_neg (Ne.symm hct)))
      simp [hpc, WritePc.buffer]
  · rw [seen_send, List.append_nil]
    by_cases hct : t = c
    · subst hct
      exact h.send hw hpc hslot
    · refine h.frame (congrArg Target.slot (setTarget_of_ne s _ hct))
        (held_setWrite_of_none _ t hw ?_ rfl)
      simp [hpc, WritePc.buffer, Ne.symm hct]
  · rw [seen_finish, List.append_nil]
    exact h.frame rfl (held_setWrite_of_none s t hw (by rw [hpc]; rfl) rfl)

/-- The bytes that a consumer receives come from the `Write`s in its history. -/
theorem received_le_put {ok : Mux → Action → Prop} {tr : List Action} {s : Mux}
    (h : Steps system ok system.init tr s) (t : Nat) :
    receivedBytes (eventsAt t tr) ≤ putBytes (eventsAt t tr) := by
  have hboth : Conserved t s ([] ++ system.history (seen t) system.init tr) ∧ Ranges s := by
    refine h.history_invariant (I := fun s evs => Conserved t s evs ∧ Ranges s) ?_
      ⟨(by simp [Conserved, system, receivedBytes, received, Mux.queued, Mux.held]), ranges_init⟩
    intro s a s' evs hi _ hs
    exact ⟨step_conserved hi.1 hi.2 hs, step_ranges hi.2 hs⟩
  calc receivedBytes (eventsAt t tr)
      ≤ receivedBytes (eventsAt t tr) + s.queued t := le_self_add
    _ ≤ receivedBytes (eventsAt t tr) + s.queued t + s.held t := le_self_add
    _ ≤ putBytes (eventsAt t tr) := hboth.1

/-! ## Deleted keys -/

/-- Only a cancel function changes the state of a target's `once`. -/
theorem once_of_step {s s' : Mux} {a : Action} (hr : Ranges s) (hs : step s a = some s')
    (t : Nat) (ha : a ≠ .target t .cancel) : (s'.targets t).once = (s.targets t).once := by
  have hslot : ∀ c slot, ((s.setTarget c { s.targets c with slot := slot }).targets t).once =
      (s.targets t).once := by
    intro c slot
    by_cases hct : t = c
    · subst hct
      rw [setTarget_self]
    · rw [setTarget_of_ne s _ hct]
  obtain ⟨-, rfl⟩ | ⟨c, b, x, rfl, -, hx, rfl⟩ | ⟨p, -, rfl⟩ | ⟨w, c, visited, -, -, -, -, rfl⟩ |
    ⟨w, c, buf, visited, -, -, -, -, rfl⟩ | ⟨w, visited, -, -, -, -, rfl⟩ := step_cases hs
  · simp only [hr.tee_targets]
  · by_cases hct : t = c
    · subst hct
      rw [setTarget_self]
      obtain ⟨o, rfl, -, -⟩ | ⟨buf, -, -, -, rfl⟩ | ⟨-, -, -, rfl⟩ | ⟨buf, -, -, rfl⟩ |
        ⟨n, buf, -, -, rfl⟩ | ⟨-, -, -, rfl⟩ := Target.step_cases hx
      · exact absurd rfl ha
      all_goals rfl
    · rw [setTarget_of_ne s x hct]
  · rfl
  · exact hslot c none
  · exact hslot c (some buf)
  · rfl

theorem teed_le_of_step {s s' : Mux} {a : Action} (hs : step s a = some s') :
    s.teed ≤ s'.teed ∧ s.begun ≤ s'.begun := by
  obtain ⟨-, rfl⟩ | ⟨c, b, x, -, -, -, rfl⟩ | ⟨p, -, rfl⟩ | ⟨w, c, visited, -, -, -, -, rfl⟩ |
    ⟨w, c, buf, visited, -, -, -, -, rfl⟩ | ⟨w, visited, -, -, -, -, rfl⟩ := step_cases hs
  · exact ⟨Nat.le_succ _, le_rfl⟩
  · exact ⟨le_rfl, le_rfl⟩
  · exact ⟨le_rfl, Nat.le_succ _⟩
  all_goals exact ⟨le_rfl, le_rfl⟩

/-- The key of the target `t` is deleted, and none of the `Write`s from the `n`-th on can
visit it. -/
structure Deleted (t n : Nat) (s : Mux) : Prop where
  ranges : Ranges s
  teed : t < s.teed
  registered : (s.targets t).registered = false
  gone : ∀ w, n ≤ w → w < s.begun → t ∈ (s.writes w).gone

theorem step_deleted {t n : Nat} {s s' : Mux} {a : Action} (h : Deleted t n s)
    (hs : step s a = some s') : Deleted t n s' := by
  have hr : Ranges s' := step_ranges h.ranges hs
  have hteed : t < s'.teed := h.teed.trans_le (teed_le_of_step hs).1
  have hslot : ∀ c slot, ((s.setTarget c { s.targets c with slot := slot }).targets t).registered =
      false := by
    intro c slot
    by_contra hreg
    have hback := registered_setSlot s c t slot (by simpa using hreg)
    rw [h.registered] at hback
    cases hback
  obtain ⟨-, rfl⟩ | ⟨c, b, x, rfl, -, hx, rfl⟩ | ⟨p, -, rfl⟩ | ⟨w, c, visited, -, -, -, -, rfl⟩ |
    ⟨w, c, buf, visited, -, -, -, -, rfl⟩ | ⟨w, visited, -, -, -, -, rfl⟩ := step_cases hs
  · refine ⟨hr, hteed, ?_, h.gone⟩
    simp only [h.ranges.tee_targets]
    exact h.registered
  · refine ⟨hr, hteed, ?_, h.gone⟩
    by_cases hct : t = c
    · subst hct
      rw [setTarget_self]
      by_contra hreg
      have hback := Target.step_registered hx (by simpa using hreg)
      rw [h.registered] at hback
      cases hback
    · rw [setTarget_of_ne s x hct]
      exact h.registered
  · refine ⟨hr, hteed, h.registered, ?_⟩
    intro w hn hw
    by_cases hnew : w = s.begun
    · subst hnew
      simp [h.teed, h.registered]
    · simp only [Function.update_of_ne hnew]
      exact h.gone w hn (by dsimp only at hw; omega)
  · refine ⟨hr, hteed, hslot c none, ?_⟩
    intro w' hn hw'
    rw [setWrite_gone]
    exact h.gone w' hn hw'
  · refine ⟨hr, hteed, hslot c (some buf), ?_⟩
    intro w' hn hw'
    rw [setWrite_gone]
    exact h.gone w' hn hw'
  · refine ⟨hr, hteed, h.registered, ?_⟩
    intro w' hn hw'
    rw [setWrite_gone]
    exact h.gone w' hn hw'

/-- A `Write` that begins when the key is deleted does not take the target's buffer. -/
theorem not_putter_of_deleted {t : Nat} {tr₁ tr₂ : List Action} {s₁ s₂ : Mux}
    (h₁ : Steps system Always system.init tr₁ s₁) (h₂ : Steps system Always s₁ tr₂ s₂)
    (ht : t < s₁.teed) (hreg : (s₁.targets t).registered = false) {w : Nat}
    (hw : s₁.begun ≤ w) : w ∉ putters (eventsAt t (tr₁ ++ tr₂)) := by
  have hr : Ranges s₁ := (recorded_of_steps h₁ t).account.ranges
  have hdel : Deleted t s₁.begun s₂ :=
    h₂.invariant (I := Deleted t s₁.begun) (fun _ _ _ hi _ hs => step_deleted hi hs)
      ⟨hr, ht, hreg, fun w hn hlt => absurd hlt (by omega)⟩
  intro hmem
  obtain ⟨⟨w', p⟩, hp, rfl⟩ := List.mem_map.mp hmem
  obtain ⟨hlt, -, hnot⟩ := (recorded_of_steps (h₁.append h₂) t).account.put w' p hp
  exact hnot (hdel.gone w' hw hlt)

/-! ## Calls of cancel functions -/

namespace Cancellation

/-- Where a call of the cancel function is: before `once.Do`, in the function before `Delete`,
before `close(done)`, and at its end. -/
inductive CallPc
  | called
  | running
  | closing
  | closed
  | returned
  deriving DecidableEq, Repr

/-- A call of the cancel function of a target. -/
structure Call where
  target : Nat
  pc : CallPc
  deriving DecidableEq, Repr

/-- `lock` has the call that holds the mutex of a target's `once`, and `done` is its flag. `closed`
counts how often a target's done channel was closed. -/
structure World where
  mux : Mux := {}
  calls : List Call := []
  lock : Nat → Option Nat := fun _ => none
  done : Nat → Bool := fun _ => false
  closed : Nat → Nat := fun _ => 0

/-- `cancel` is a call of the cancel function of the target `t`. The `k`-th call gets the mutex of
`once`, or finds the flag set (`enter`), and after the function sets the flag and releases the
mutex (`finish`). -/
inductive Label
  | mux (a : Action)
  | cancel (t : Nat)
  | enter (k : Nat)
  | delete (k : Nat)
  | close (k : Nat)
  | finish (k : Nat)
  deriving DecidableEq, Repr

/-- The steps of cancel functions are those of their calls, and a consumer whose writer has
failed returns after its own call has. -/
def World.Allows (w : World) : Action → Bool
  | .target _ .cancel => false
  | .target t .leave => w.done t
  | _ => true

/-- The call that a consumer makes when its writer has failed. -/
def spawned : Action → List Call
  | .target t (.copyErr _) => [⟨t, .called⟩]
  | _ => []

def deleteKey : Once → Once
  | .idle => .deleted
  | o => o

def World.setOnce (w : World) (t : Nat) (o : Once) : World :=
  { w with mux := w.mux.setTarget t { w.mux.targets t with once := o } }

def World.setCall (w : World) (k t : Nat) (pc : CallPc) : World :=
  { w with calls := w.calls.set k ⟨t, pc⟩ }

def step (w : World) : Label → Option World
  | .mux a =>
    if w.Allows a then
      (Tee.step w.mux a).map fun m => { w with mux := m, calls := w.calls ++ spawned a }
    else none
  | .cancel t =>
    if t < w.mux.teed then some { w with calls := w.calls ++ [⟨t, .called⟩] } else none
  | .enter k =>
    match w.calls[k]? with
    | some ⟨t, .called⟩ =>
      if w.done t then some (w.setCall k t .returned)
      else if w.lock t = none then
        some { w.setCall k t .running with lock := Function.update w.lock t (some k) }
      else none
    | _ => none
  | .delete k =>
    match w.calls[k]? with
    | some ⟨t, .running⟩ =>
      some ((w.setCall k t .closing).setOnce t (deleteKey (w.mux.targets t).once))
    | _ => none
  | .close k =>
    match w.calls[k]? with
    | some ⟨t, .closing⟩ =>
      some { (w.setCall k t .closed).setOnce t .finished with
        closed := Function.update w.closed t (w.closed t + 1) }
    | _ => none
  | .finish k =>
    match w.calls[k]? with
    | some ⟨t, .closed⟩ =>
      some { w.setCall k t .returned with
        done := Function.update w.done t true
        lock := Function.update w.lock t none }
    | _ => none

def system : System World Label := ⟨{}, step⟩

theorem step_cases {w w' : World} {a : Label} (h : step w a = some w') :
    (∃ b m, a = .mux b ∧ w.Allows b = true ∧ Tee.step w.mux b = some m ∧
      w' = { w with mux := m, calls := w.calls ++ spawned b }) ∨
    (∃ t, a = .cancel t ∧ t < w.mux.teed ∧ w' = { w with calls := w.calls ++ [⟨t, .called⟩] }) ∨
    (∃ k t, a = .enter k ∧ w.calls[k]? = some ⟨t, .called⟩ ∧ w.done t = true ∧
      w' = w.setCall k t .returned) ∨
    (∃ k t, a = .enter k ∧ w.calls[k]? = some ⟨t, .called⟩ ∧ w.done t = false ∧
      w.lock t = none ∧
      w' = { w.setCall k t .running with lock := Function.update w.lock t (some k) }) ∨
    (∃ k t, a = .delete k ∧ w.calls[k]? = some ⟨t, .running⟩ ∧
      w' = (w.setCall k t .closing).setOnce t (deleteKey (w.mux.targets t).once)) ∨
    (∃ k t, a = .close k ∧ w.calls[k]? = some ⟨t, .closing⟩ ∧
      w' = { (w.setCall k t .closed).setOnce t .finished with
        closed := Function.update w.closed t (w.closed t + 1) }) ∨
    (∃ k t, a = .finish k ∧ w.calls[k]? = some ⟨t, .closed⟩ ∧
      w' = { w.setCall k t .returned with
        done := Function.update w.done t true
        lock := Function.update w.lock t none }) := by
  cases a with
  | mux b =>
    simp only [step] at h
    split at h
    · rename_i hb
      obtain ⟨m, hm, rfl⟩ := Option.map_eq_some_iff.mp h
      exact Or.inl ⟨b, m, rfl, hb, hm, rfl⟩
    · cases h
  | cancel t =>
    simp only [step] at h
    split at h
    · rename_i ht
      cases h
      exact Or.inr (Or.inl ⟨t, rfl, ht, rfl⟩)
    · cases h
  | enter k =>
    simp only [step] at h
    split at h
    · rename_i t hcall
      split at h
      · rename_i hdone
        cases h
        exact Or.inr (Or.inr (Or.inl ⟨k, t, rfl, hcall, hdone, rfl⟩))
      · rename_i hdone
        split at h
        · rename_i hlock
          cases h
          have hdone : w.done t = false := by simpa using hdone
          exact Or.inr (Or.inr (Or.inr (Or.inl ⟨k, t, rfl, hcall, hdone, hlock, rfl⟩)))
        · cases h
    · cases h
  | delete k =>
    simp only [step] at h
    split at h
    · rename_i t hcall
      cases h
      exact Or.inr (Or.inr (Or.inr (Or.inr (Or.inl ⟨k, t, rfl, hcall, rfl⟩))))
    · cases h
  | close k =>
    simp only [step] at h
    split at h
    · rename_i t hcall
      cases h
      exact Or.inr (Or.inr (Or.inr (Or.inr (Or.inr (Or.inl ⟨k, t, rfl, hcall, rfl⟩)))))
    · cases h
  | finish k =>
    simp only [step] at h
    split at h
    · rename_i t hcall
      cases h
      exact Or.inr (Or.inr (Or.inr (Or.inr (Or.inr (Or.inr ⟨k, t, rfl, hcall, rfl⟩)))))
    · cases h

/-! ## One call at a time -/

/-- How far the function of `once.Do` has come when a call is in it: the state of the key and
the done channel, and the number of closes. -/
def CallPc.stage : CallPc → Option (Once × Nat)
  | running => some (.idle, 0)
  | closing => some (.deleted, 0)
  | closed => some (.finished, 1)
  | _ => none

def World.stage (w : World) (t : Nat) : Once × Nat := ((w.mux.targets t).once, w.closed t)

structure OnceInv (w : World) (t : Nat) : Prop where
  inside : ∀ (k : Nat) pc st, w.calls[k]? = some ⟨t, pc⟩ → pc.stage = some st →
    w.lock t = some k ∧ w.done t = false ∧ w.stage t = st
  free : w.lock t = none → w.done t = false → w.stage t = (.idle, 0)
  done : w.done t = true → w.lock t = none ∧ w.stage t = (.finished, 1)
  holder : ∀ k : Nat, w.lock t = some k → ∃ pc st, w.calls[k]? = some ⟨t, pc⟩ ∧ pc.stage = some st
  returned : ∀ k : Nat, w.calls[k]? = some ⟨t, .returned⟩ → w.done t = true
  teed : ∀ (k : Nat) pc, w.calls[k]? = some ⟨t, pc⟩ → t < w.mux.teed

theorem onceInv_init (t : Nat) : OnceInv system.init t := by
  refine ⟨?_, fun _ _ => rfl, ?_, ?_, ?_, ?_⟩ <;> simp [system]

/-- The done channel is closed at most once. -/
theorem OnceInv.closed_le {w : World} {t : Nat} (h : OnceInv w t) : w.closed t ≤ 1 := by
  have hstage : ∀ {st}, w.stage t = st → st.2 ≤ 1 → w.closed t ≤ 1 := by
    rintro st rfl hle
    exact hle
  cases hlock : w.lock t with
  | none =>
    cases hdone : w.done t with
    | false => exact hstage (h.free hlock hdone) (Nat.zero_le 1)
    | true => exact hstage (h.done hdone).2 le_rfl
  | some k =>
    obtain ⟨pc, st, hcall, hst⟩ := h.holder k hlock
    refine hstage (h.inside k pc st hcall hst).2.2 ?_
    cases pc <;> cases hst <;> simp

/-- At the target `t` there is at most a new call that has not begun. -/
theorem OnceInv.frame {w w' : World} {t : Nat} (h : OnceInv w t)
    (hold : ∀ (k : Nat) pc, w.calls[k]? = some ⟨t, pc⟩ → w'.calls[k]? = some ⟨t, pc⟩)
    (hnew : ∀ (k : Nat) pc, w'.calls[k]? = some ⟨t, pc⟩ →
      w.calls[k]? = some ⟨t, pc⟩ ∨ pc = .called ∧ t < w'.mux.teed)
    (hlock : w'.lock t = w.lock t) (hdone : w'.done t = w.done t)
    (hstage : w'.stage t = w.stage t) (hteed : w.mux.teed ≤ w'.mux.teed) : OnceInv w' t := by
  refine ⟨?_, ?_, ?_, ?_, ?_, ?_⟩
  · intro k pc st hk hst
    rw [hlock, hdone, hstage]
    rcases hnew k pc hk with hk' | ⟨rfl, -⟩
    · exact h.inside k pc st hk' hst
    · cases hst
  · rw [hlock, hdone, hstage]
    exact h.free
  · rw [hlock, hdone, hstage]
    exact h.done
  · intro k hk
    rw [hlock] at hk
    obtain ⟨pc, st, hcall, hst⟩ := h.holder k hk
    exact ⟨pc, st, hold k pc hcall, hst⟩
  · intro k hk
    rw [hdone]
    rcases hnew k _ hk with hk' | ⟨hpc, -⟩
    · exact h.returned k hk'
    · cases hpc
  · intro k pc hk
    rcases hnew k pc hk with hk' | ⟨-, ht⟩
    · exact (h.teed k pc hk').trans_le hteed
    · exact ht

/-- A call moves at its target; no other call is in the function. -/
theorem OnceInv.move {w w' : World} {t k : Nat} {pc pc' : CallPc} (h : OnceInv w t)
    (hcall : w.calls[k]? = some ⟨t, pc⟩) (hcalls : w'.calls = w.calls.set k ⟨t, pc'⟩)
    (halone : ∀ (k' : Nat) q st, k' ≠ k → w.calls[k']? = some ⟨t, q⟩ → q.stage ≠ some st)
    (hinside : ∀ st, pc'.stage = some st → w'.lock t = some k ∧ w'.done t = false ∧ w'.stage t = st)
    (hfree : w'.lock t = none → w'.done t = false → w'.stage t = (.idle, 0))
    (hdone : w'.done t = true → w'.lock t = none ∧ w'.stage t = (.finished, 1))
    (hholder : ∀ k', w'.lock t = some k' → k' = k ∧ ∃ st, pc'.stage = some st)
    (hkeep : w.done t = true ∨ pc' = .returned → w'.done t = true)
    (hteed : w'.mux.teed = w.mux.teed) : OnceInv w' t := by
  have hlen : k < w.calls.length := (List.getElem?_eq_some_iff.mp hcall).1
  have hself : w'.calls[k]? = some ⟨t, pc'⟩ := by
    rw [hcalls, List.getElem?_set_self hlen]
  have hother : ∀ k' : Nat, k' ≠ k → w'.calls[k']? = w.calls[k']? := by
    intro k' hne
    rw [hcalls, List.getElem?_set_ne (Ne.symm hne)]
  refine ⟨?_, hfree, hdone, ?_, ?_, ?_⟩
  · intro k' q st hk' hst
    by_cases hne : k' = k
    · subst hne
      rw [hself] at hk'
      cases hk'
      exact hinside st hst
    · rw [hother k' hne] at hk'
      exact absurd hst (halone k' q st hne hk')
  · intro k' hk'
    obtain ⟨rfl, st, hst⟩ := hholder k' hk'
    exact ⟨pc', st, hself, hst⟩
  · intro k' hk'
    by_cases hne : k' = k
    · subst hne
      rw [hself] at hk'
      cases hk'
      exact hkeep (Or.inr rfl)
    · rw [hother k' hne] at hk'
      exact hkeep (Or.inl (h.returned k' hk'))
  · intro k' q hk'
    rw [hteed]
    by_cases hne : k' = k
    · exact h.teed k pc hcall
    · rw [hother k' hne] at hk'
      exact h.teed k' q hk'

/-- A call is in the function after its step. -/
theorem OnceInv.move_inside {w w' : World} {t k : Nat} {pc pc' : CallPc} {st : Once × Nat}
    (h : OnceInv w t) (hcall : w.calls[k]? = some ⟨t, pc⟩)
    (hcalls : w'.calls = w.calls.set k ⟨t, pc'⟩)
    (halone : ∀ (k' : Nat) q st, k' ≠ k → w.calls[k']? = some ⟨t, q⟩ → q.stage ≠ some st)
    (hflag : w.done t = false) (hst : pc'.stage = some st) (hlock : w'.lock t = some k)
    (hdone : w'.done t = w.done t) (hstage : w'.stage t = st)
    (hteed : w'.mux.teed = w.mux.teed) : OnceInv w' t := by
  have hflag' : w'.done t = false := hdone.trans hflag
  refine h.move hcall hcalls halone ?_ ?_ ?_ ?_ ?_ hteed
  · intro st' hst'
    rw [hst] at hst'
    exact ⟨hlock, hflag', hstage.trans (Option.some.inj hst')⟩
  · intro hfree
    rw [hlock] at hfree
    cases hfree
  · intro hd
    rw [hflag'] at hd
    cases hd
  · intro k' hk'
    rw [hlock] at hk'
    exact ⟨(Option.some.inj hk').symm, st, hst⟩
  · rintro (hd | rfl)
    · rw [hflag] at hd
      cases hd
    · cases hst

/-- A call returns, and leaves the flag set. -/
theorem OnceInv.move_returned {w w' : World} {t k : Nat} {pc : CallPc} (h : OnceInv w t)
    (hcall : w.calls[k]? = some ⟨t, pc⟩) (hcalls : w'.calls = w.calls.set k ⟨t, .returned⟩)
    (halone : ∀ (k' : Nat) q st, k' ≠ k → w.calls[k']? = some ⟨t, q⟩ → q.stage ≠ some st)
    (hlock : w'.lock t = none) (hdone : w'.done t = true) (hstage : w'.stage t = (.finished, 1))
    (hteed : w'.mux.teed = w.mux.teed) : OnceInv w' t := by
  refine h.move hcall hcalls halone ?_ ?_ (fun _ => ⟨hlock, hstage⟩) ?_ (fun _ => hdone) hteed
  · intro st hst
    cases hst
  · intro _ hd
    rw [hdone] at hd
    cases hd
  · intro k' hk'
    rw [hlock] at hk'
    cases hk'

/-- No call is in the function while the mutex is free. -/
theorem OnceInv.alone_of_free {w : World} {t : Nat} (h : OnceInv w t) (hlock : w.lock t = none)
    {k' : Nat} {q : CallPc} {st : Once × Nat} (hk' : w.calls[k']? = some ⟨t, q⟩) :
    q.stage ≠ some st := by
  intro hst
  have hheld := (h.inside k' q st hk' hst).1
  rw [hlock] at hheld
  cases hheld

/-- No other call is in the function while one is. -/
theorem OnceInv.alone_of_inside {w : World} {t k : Nat} {pc : CallPc} {st : Once × Nat}
    (h : OnceInv w t) (hcall : w.calls[k]? = some ⟨t, pc⟩) (hin : pc.stage = some st) {k' : Nat}
    {q : CallPc} {st' : Once × Nat} (hne : k' ≠ k) (hk' : w.calls[k']? = some ⟨t, q⟩) :
    q.stage ≠ some st' := by
  intro hst
  have hheld := (h.inside k' q st' hk' hst).1
  rw [(h.inside k pc st hcall hin).1] at hheld
  exact hne (Option.some.inj hheld).symm

/-- A call at another target moves. -/
theorem OnceInv.elsewhere {w w' : World} {t t' k : Nat} {pc pc' : CallPc} (h : OnceInv w t)
    (hne : t ≠ t') (hcall : w.calls[k]? = some ⟨t', pc⟩)
    (hcalls : w'.calls = w.calls.set k ⟨t', pc'⟩) (hlock : w'.lock t = w.lock t)
    (hdone : w'.done t = w.done t) (hstage : w'.stage t = w.stage t)
    (hteed : w'.mux.teed = w.mux.teed) : OnceInv w' t := by
  have hlen : k < w.calls.length := (List.getElem?_eq_some_iff.mp hcall).1
  have hiff : ∀ (k' : Nat) q, w'.calls[k']? = some ⟨t, q⟩ ↔ w.calls[k']? = some ⟨t, q⟩ := by
    intro k' q
    by_cases hk : k' = k
    · subst hk
      rw [hcalls, List.getElem?_set_self hlen, hcall]
      simp [Ne.symm hne]
    · rw [hcalls, List.getElem?_set_ne (Ne.symm hk)]
  exact h.frame (fun k' q => (hiff k' q).mpr) (fun k' q hk' => Or.inl ((hiff k' q).mp hk'))
    hlock hdone hstage hteed.ge

structure Inv (w : World) : Prop where
  ranges : Ranges w.mux
  once : ∀ t, OnceInv w t

theorem inv_init : Inv system.init := ⟨ranges_init, onceInv_init⟩

theorem setOnce_stage_of_ne (w : World) {t t' : Nat} (o : Once) (h : t' ≠ t) :
    (w.setOnce t o).stage t' = w.stage t' := by
  simp [World.stage, World.setOnce, setTarget_of_ne _ _ h]

@[simp] theorem setOnce_once (w : World) (t : Nat) (o : Once) :
    ((w.setOnce t o).mux.targets t).once = o := by
  simp [World.setOnce]

theorem ranges_setOnce {w : World} (h : Ranges w.mux) {t : Nat} (ht : t < w.mux.teed) {o : Once}
    (ho : o ≠ .idle) : Ranges (w.setOnce t o).mux :=
  h.setTarget ht fun hreg => absurd (by simpa [Target.registered] using hreg) ho

/-- A new call has not begun. -/
theorem OnceInv.append {w w' : World} {t : Nat} (h : OnceInv w t) {cs : List Call}
    (hcalls : w'.calls = w.calls ++ cs)
    (hcs : ∀ c ∈ cs, c.pc = .called ∧ c.target < w'.mux.teed) (hlock : w'.lock t = w.lock t)
    (hdone : w'.done t = w.done t) (hstage : w'.stage t = w.stage t)
    (hteed : w.mux.teed ≤ w'.mux.teed) : OnceInv w' t := by
  refine h.frame ?_ ?_ hlock hdone hstage hteed
  · intro k pc hk
    rw [hcalls, List.getElem?_append_left (List.getElem?_eq_some_iff.mp hk).1, hk]
  · intro k pc hk
    rw [hcalls] at hk
    by_cases hlt : k < w.calls.length
    · rw [List.getElem?_append_left hlt] at hk
      exact Or.inl hk
    · rw [List.getElem?_append_right (Nat.le_of_not_lt hlt)] at hk
      exact Or.inr (hcs ⟨t, pc⟩ (List.mem_of_getElem? hk))

theorem Inv.mux {w : World} (h : Inv w) {a : Action} {m : Mux} (ha : w.Allows a = true)
    (hs : Tee.step w.mux a = some m) :
    Inv { w with mux := m, calls := w.calls ++ spawned a } := by
  have hteed := (teed_le_of_step hs).1
  have hcs : ∀ c ∈ spawned a, c.pc = .called ∧ c.target < m.teed := by
    intro c hc
    unfold spawned at hc
    split at hc
    · rw [List.mem_singleton.mp hc]
      obtain ⟨heq, -⟩ | ⟨t, b, x, heq, ht, -⟩ | ⟨p, heq, -⟩ | ⟨v, c, visited, heq, -⟩ |
        ⟨v, c, buf, visited, heq, -⟩ | ⟨v, visited, heq, -⟩ := Tee.step_cases hs <;> cases heq
      exact ⟨rfl, ht.trans_le hteed⟩
    · cases hc
  refine ⟨step_ranges h.ranges hs, fun t => (h.once t).append rfl hcs rfl rfl ?_ hteed⟩
  have hne : a ≠ .target t .cancel := by
    rintro rfl
    cases ha
  exact congrArg (·, w.closed t) (once_of_step h.ranges hs t hne)

/-- A call finds the flag set. -/
theorem Inv.skip {w : World} {k t : Nat} (h : Inv w) (hcall : w.calls[k]? = some ⟨t, .called⟩)
    (hdone : w.done t = true) : Inv (w.setCall k t .returned) := by
  have ht := h.once t
  obtain ⟨hlock, hstage⟩ := ht.done hdone
  refine ⟨h.ranges, fun t' => ?_⟩
  by_cases hne : t' = t
  · subst hne
    exact ht.move_returned hcall rfl (fun k' q st _ => ht.alone_of_free hlock) hlock hdone hstage
      rfl
  · exact (h.once t').elsewhere hne hcall rfl rfl rfl rfl rfl

/-- A call gets the mutex. -/
theorem Inv.enter {w : World} {k t : Nat} (h : Inv w) (hcall : w.calls[k]? = some ⟨t, .called⟩)
    (hdone : w.done t = false) (hlock : w.lock t = none) :
    Inv { w.setCall k t .running with lock := Function.update w.lock t (some k) } := by
  have ht := h.once t
  refine ⟨h.ranges, fun t' => ?_⟩
  by_cases hne : t' = t
  · subst hne
    exact ht.move_inside hcall rfl (fun k' q st _ => ht.alone_of_free hlock) hdone rfl
      (Function.update_self _ _ _) rfl (ht.free hlock hdone) rfl
  · exact (h.once t').elsewhere hne hcall rfl (Function.update_of_ne hne _ _) rfl rfl rfl

theorem Inv.delete {w : World} {k t : Nat} (h : Inv w)
    (hcall : w.calls[k]? = some ⟨t, .running⟩) :
    Inv ((w.setCall k t .closing).setOnce t (deleteKey (w.mux.targets t).once)) := by
  have ht := h.once t
  obtain ⟨hlock, hflag, hstage⟩ := ht.inside k _ _ hcall rfl
  obtain ⟨honce, hclosed⟩ := Prod.mk.inj hstage
  rw [honce]
  refine ⟨ranges_setOnce h.ranges (ht.teed k _ hcall) (by simp [deleteKey]), fun t' => ?_⟩
  by_cases hne : t' = t
  · subst hne
    refine ht.move_inside hcall rfl (fun k' q st => ht.alone_of_inside hcall rfl) hflag rfl
      hlock rfl ?_ rfl
    exact Prod.ext (setOnce_once _ _ _) hclosed
  · exact (h.once t').elsewhere hne hcall rfl rfl rfl (setOnce_stage_of_ne _ _ hne) rfl

theorem Inv.close {w : World} {k t : Nat} (h : Inv w)
    (hcall : w.calls[k]? = some ⟨t, .closing⟩) :
    Inv { (w.setCall k t .closed).setOnce t .finished with
      closed := Function.update w.closed t (w.closed t + 1) } := by
  have ht := h.once t
  obtain ⟨hlock, hflag, hstage⟩ := ht.inside k _ _ hcall rfl
  obtain ⟨honce, hclosed⟩ := Prod.mk.inj hstage
  refine ⟨ranges_setOnce h.ranges (ht.teed k _ hcall) (by simp), fun t' => ?_⟩
  by_cases hne : t' = t
  · subst hne
    refine ht.move_inside hcall rfl (fun k' q st => ht.alone_of_inside hcall rfl) hflag rfl
      hlock rfl ?_ rfl
    simp [World.stage, hclosed, World.setOnce]
  · refine (h.once t').elsewhere hne hcall rfl rfl rfl ?_ rfl
    simp [World.stage, World.setOnce, setTarget_of_ne _ _ hne, Function.update_of_ne hne,
      World.setCall]

theorem Inv.finish {w : World} {k t : Nat} (h : Inv w)
    (hcall : w.calls[k]? = some ⟨t, .closed⟩) :
    Inv { w.setCall k t .returned with
      done := Function.update w.done t true
      lock := Function.update w.lock t none } := by
  have ht := h.once t
  obtain ⟨hlock, hflag, hstage⟩ := ht.inside k _ _ hcall rfl
  refine ⟨h.ranges, fun t' => ?_⟩
  by_cases hne : t' = t
  · subst hne
    exact ht.move_returned hcall rfl (fun k' q st => ht.alone_of_inside hcall rfl)
      (Function.update_self _ _ _) (Function.update_self _ _ _) hstage rfl
  · exact (h.once t').elsewhere hne hcall rfl (Function.update_of_ne hne _ _)
      (Function.update_of_ne hne _ _) rfl rfl

theorem step_inv {w w' : World} {a : Label} (h : Inv w) (hs : step w a = some w') : Inv w' := by
  obtain ⟨b, m, -, hb, hm, rfl⟩ | ⟨t, -, ht, rfl⟩ | ⟨k, t, -, hcall, hdone, rfl⟩ |
    ⟨k, t, -, hcall, hdone, hlock, rfl⟩ | ⟨k, t, -, hcall, rfl⟩ | ⟨k, t, -, hcall, rfl⟩ |
    ⟨k, t, -, hcall, rfl⟩ := step_cases hs
  · exact h.mux hb hm
  · have hcs : ∀ c ∈ [(⟨t, .called⟩ : Call)], c.pc = .called ∧ c.target < w.mux.teed := by
      simpa using ht
    exact ⟨h.ranges, fun t' => (h.once t').append rfl hcs rfl rfl rfl le_rfl⟩
  · exact h.skip hcall hdone
  · exact h.enter hcall hdone hlock
  · exact h.delete hcall
  · exact h.close hcall
  · exact h.finish hcall

theorem inv_of_steps {tr : List Label} {w : World} (h : Steps system Always system.init tr w) :
    Inv w :=
  h.invariant (I := Inv) (fun _ _ _ hi _ hs => step_inv hi hs) inv_init

/-! ## Refinement -/

/-- What a step adds to the history of the target `t`. -/
def seenAt (t : Nat) (w : World) : Label → List Event
  | .mux a => seen t w.mux a
  | _ => []

theorem steps_cancel {s : Mux} {t : Nat} {o : Once} (ht : t < s.teed)
    (ho : (s.targets t).once.next = some o) :
    Steps Tee.system Always s [.target t .cancel]
      (s.setTarget t { s.targets t with once := o }) := by
  refine .single trivial ?_
  simp [Tee.system, Tee.step, ht, Target.step, ho]

/-- Every step is a step of the multiplexer alone, or leaves it as it is. -/
theorem step_refines {w w' : World} {a : Label} (h : Inv w) (hs : step w a = some w') (t : Nat) :
    ∃ tr, Steps Tee.system Always w.mux tr w'.mux ∧
      Tee.system.history (seen t) w.mux tr = seenAt t w a := by
  obtain ⟨b, m, rfl, -, hm, rfl⟩ | ⟨c, rfl, -, rfl⟩ | ⟨k, c, rfl, -, -, rfl⟩ |
    ⟨k, c, rfl, -, -, -, rfl⟩ | ⟨k, c, rfl, hcall, rfl⟩ | ⟨k, c, rfl, hcall, rfl⟩ |
    ⟨k, c, rfl, -, rfl⟩ := step_cases hs
  case inl =>
    have hm' : Tee.system.step w.mux b = some m := hm
    refine ⟨[b], .single trivial hm, ?_⟩
    rw [System.history_cons hm']
    exact List.append_nil _
  case inr.inr.inr.inr.inl =>
    have hc := h.once c
    have honce : (w.mux.targets c).once = .idle :=
      (Prod.mk.inj (hc.inside k _ _ hcall rfl).2.2).1
    have hrun := steps_cancel (hc.teed k _ hcall) (by rw [honce]; rfl)
    rw [honce]
    exact ⟨_, hrun, hrun.history_single rfl⟩
  case inr.inr.inr.inr.inr.inl =>
    have hc := h.once c
    have honce : (w.mux.targets c).once = .deleted :=
      (Prod.mk.inj (hc.inside k _ _ hcall rfl).2.2).1
    have hrun := steps_cancel (hc.teed k _ hcall) (by rw [honce]; rfl)
    exact ⟨_, hrun, hrun.history_single rfl⟩
  all_goals exact ⟨[], .nil _, rfl⟩

theorem refines {w w' : World} {tr : List Label} (h : Steps system Always w tr w') (hi : Inv w)
    (t : Nat) :
    ∃ tr', Steps Tee.system Always w.mux tr' w'.mux ∧
      Tee.system.history (seen t) w.mux tr' = system.history (seenAt t) w tr :=
  h.refine (I := Inv) World.mux
    (fun _ _ _ hi _ hs => ⟨step_inv hi hs, step_refines hi hs t⟩) hi

/-- A run in two parts, at the multiplexer alone. -/
theorem refines_append {tr₁ tr₂ : List Label} {w₁ w₂ : World}
    (h₁ : Steps system Always system.init tr₁ w₁) (h₂ : Steps system Always w₁ tr₂ w₂) (t : Nat) :
    ∃ tr₁' tr₂', Steps Tee.system Always Tee.system.init tr₁' w₁.mux ∧
      Steps Tee.system Always w₁.mux tr₂' w₂.mux ∧
      eventsAt t (tr₁' ++ tr₂') = system.history (seenAt t) system.init (tr₁ ++ tr₂) := by
  obtain ⟨tr₁', hrun₁, hobs₁⟩ := refines h₁ inv_init t
  obtain ⟨tr₂', hrun₂, hobs₂⟩ := refines h₂ (inv_of_steps h₁) t
  refine ⟨tr₁', tr₂', hrun₁, hrun₂, ?_⟩
  have hrun₁' : Steps Tee.system Always Tee.system.init tr₁' w₁.mux := hrun₁
  have hobs₁' : Tee.system.history (seen t) Tee.system.init tr₁' =
    system.history (seenAt t) system.init tr₁ := hobs₁
  rw [eventsAt, hrun₁'.history_append, h₁.history_append, hobs₁', hobs₂]

/-! ## Failed writers -/

/-- The consumer has left its loop, or is about to. -/
def Ended (t : Nat) (s : Mux) : Prop :=
  (s.targets t).consumer = .canceling ∨ (s.targets t).consumer = .returned

/-- The steps between which the writer of the target `t` is called: the consumer has received
a buffer, and the writer has returned. -/
def CallsWriter (t : Nat) : Label → Prop
  | .mux (.target c .receive) => c = t
  | .mux (.target c .copied) => c = t
  | .mux (.target c (.copyErr _)) => c = t
  | _ => False

theorem ended_of_consumer {t : Nat} {s s' : Mux} (h : Ended t s)
    (hc : (s'.targets t).consumer = (s.targets t).consumer) : Ended t s' := by
  unfold Ended
  rw [hc]
  exact h

theorem mux_ended {t : Nat} {s s' : Mux} {a : Action} (h : Ended t s) (hr : Ranges s)
    (hs : Tee.step s a = some s') : Ended t s' ∧ ¬ CallsWriter t (.mux a) := by
  have hslot : ∀ c slot, ((s.setTarget c { s.targets c with slot := slot }).targets t).consumer =
      (s.targets t).consumer := by
    intro c slot
    by_cases hct : t = c
    · subst hct
      rw [setTarget_self]
    · rw [setTarget_of_ne s _ hct]
  obtain ⟨rfl, rfl⟩ | ⟨c, b, x, rfl, -, hx, rfl⟩ | ⟨p, rfl, rfl⟩ |
    ⟨w, c, visited, rfl, -, -, -, rfl⟩ | ⟨w, c, buf, visited, rfl, -, -, -, rfl⟩ |
    ⟨w, visited, rfl, -, -, -, rfl⟩ := Tee.step_cases hs
  · refine ⟨ended_of_consumer h ?_, not_false⟩
    simp only [hr.tee_targets]
  · by_cases hct : t = c
    · subst hct
      -- the consumer is neither at its select nor in a copy
      have hsel : (s.targets t).consumer ≠ .select ∧
          ∀ buf, (s.targets t).consumer ≠ .copying buf := by
        rcases h with hc | hc <;> simp [hc]
      obtain ⟨o, rfl, -, rfl⟩ | ⟨buf, -, hc, -⟩ | ⟨-, hc, -⟩ | ⟨buf, -, hc, -⟩ |
        ⟨n, buf, -, hc, -⟩ | ⟨rfl, -, -, rfl⟩ := Target.step_cases hx
      · exact ⟨ended_of_consumer h (by rw [setTarget_self]), not_false⟩
      · exact absurd hc hsel.1
      · exact absurd hc hsel.1
      · exact absurd hc (hsel.2 buf)
      · exact absurd hc (hsel.2 buf)
      · exact ⟨Or.inr (by rw [setTarget_self]), not_false⟩
    · refine ⟨ended_of_consumer h (by rw [setTarget_of_ne s x hct]), ?_⟩
      cases b <;> simp [CallsWriter, Ne.symm hct]
  · exact ⟨h, not_false⟩
  · exact ⟨ended_of_consumer h (hslot c none), not_false⟩
  · exact ⟨ended_of_consumer h (hslot c (some buf)), not_false⟩
  · exact ⟨h, not_false⟩

theorem setOnce_consumer (w : World) (t c : Nat) (o : Once) :
    ((w.setOnce c o).mux.targets t).consumer = (w.mux.targets t).consumer := by
  by_cases hct : t = c
  · subst hct
    simp [World.setOnce]
  · simp [World.setOnce, setTarget_of_ne _ _ hct]

theorem step_ended {t : Nat} {w w' : World} {a : Label} (hi : Inv w) (h : Ended t w.mux)
    (hs : step w a = some w') : Ended t w'.mux ∧ ¬ CallsWriter t a := by
  obtain ⟨b, m, rfl, -, hm, rfl⟩ | ⟨c, rfl, -, rfl⟩ | ⟨k, c, rfl, -, -, rfl⟩ |
    ⟨k, c, rfl, -, -, -, rfl⟩ | ⟨k, c, rfl, -, rfl⟩ | ⟨k, c, rfl, -, rfl⟩ |
    ⟨k, c, rfl, -, rfl⟩ := step_cases hs
  case inl => exact mux_ended h hi.ranges hm
  case inr.inr.inr.inr.inl => exact ⟨ended_of_consumer h (setOnce_consumer _ t c _), not_false⟩
  case inr.inr.inr.inr.inr.inl =>
    exact ⟨ended_of_consumer h (setOnce_consumer _ t c _), not_false⟩
  all_goals exact ⟨h, not_false⟩

theorem ended_of_copyErr {t n : Nat} {w w' : World}
    (hs : step w (.mux (.target t (.copyErr n))) = some w') : Ended t w'.mux := by
  obtain ⟨b, m, heq, -, hm, rfl⟩ | ⟨c, heq, -⟩ | ⟨k, c, heq, -⟩ | ⟨k, c, heq, -⟩ | ⟨k, c, heq, -⟩ |
    ⟨k, c, heq, -⟩ | ⟨k, c, heq, -⟩ := step_cases hs <;> cases heq
  obtain ⟨heq, -⟩ | ⟨c, b, x, heq, -, hx, rfl⟩ | ⟨p, heq, -⟩ | ⟨v, c, visited, heq, -⟩ |
    ⟨v, c, buf, visited, heq, -⟩ | ⟨v, visited, heq, -⟩ := Tee.step_cases hm <;> cases heq
  obtain ⟨o, heq, -⟩ | ⟨buf, heq, -⟩ | ⟨heq, -⟩ | ⟨buf, heq, -⟩ | ⟨n, buf, heq, -, rfl⟩ |
    ⟨heq, -⟩ := Target.step_cases hx <;> cases heq
  exact Or.inl (by rw [setTarget_self])

/-! ## Cancellation is final -/

/-- For every interleaving of `Write`s, calls of `Tee`, steps of consumers and calls of cancel
functions, split in two anywhere, and for every target `t`, with `evs` its history:

* if a call of the cancel function of `t` has returned in the first part, every `Write` in
  `evs` began before that, each is there once, the bytes that the writer has got are a prefix
  of the received ones, and these come from the `Write`s in `evs`, each byte at most once;
* if the writer of `t` has failed in the first part, it is not called in the second;
* the done channel of `t` is closed at most once. -/
theorem cancellation_final {tr₁ tr₂ : List Label} {w₁ w₂ : World}
    (h₁ : Steps system Always system.init tr₁ w₁) (h₂ : Steps system Always w₁ tr₂ w₂) (t : Nat) :
    let evs := system.history (seenAt t) system.init (tr₁ ++ tr₂)
    (∀ k : Nat, w₁.calls[k]? = some ⟨t, .returned⟩ →
      (putters evs).Nodup ∧
      (∀ v p, (v, p) ∈ puts evs → v < w₁.mux.begun ∧ p = (w₂.mux.writes v).p) ∧
      (w₂.mux.targets t).written <+: (received evs).flatten ∧
      receivedBytes evs ≤ putBytes evs) ∧
    (∀ n, .mux (.target t (.copyErr n)) ∈ tr₁ → ∀ a ∈ tr₂, ¬ CallsWriter t a) ∧
    w₂.closed t ≤ 1 := by
  intro evs
  have hi₁ : Inv w₁ := inv_of_steps h₁
  obtain ⟨tr₁', tr₂', hrun₁, hrun₂, hevs⟩ := refines_append h₁ h₂ t
  have hevs : eventsAt t (tr₁' ++ tr₂') = evs := hevs
  have hrun := hrun₁.append hrun₂
  have hrec : Recorded t w₂.mux evs := hevs ▸ recorded_of_steps hrun t
  refine ⟨fun k hk => ⟨hrec.account.nodup, ?_, delivered_prefix_received hrec.delivered, ?_⟩, ?_,
    ((inv_of_steps (h₁.append h₂)).once t).closed_le⟩
  · intro v p hput
    obtain ⟨-, hp, -⟩ := hrec.account.put v p hput
    refine ⟨?_, hp⟩
    have hstage := ((hi₁.once t).done ((hi₁.once t).returned k hk)).2
    have honce : (w₁.mux.targets t).once = .finished := (Prod.mk.inj hstage).1
    have hreg : (w₁.mux.targets t).registered = false := by simp [Target.registered, honce]
    by_contra hge
    refine not_putter_of_deleted hrun₁ hrun₂ ((hi₁.once t).teed k _ hk) hreg
      (Nat.le_of_not_lt hge) ?_
    rw [hevs]
    exact List.mem_map.mpr ⟨(v, p), hput, rfl⟩
  · rw [← hevs]
    exact received_le_put hrun t
  · intro n hmem
    have hended : Ended t w₁.mux :=
      h₁.invariant_of_mem (I := fun w => Ended t w.mux) (J := Inv)
        (fun _ _ _ hi _ hs => step_inv hi hs) (fun _ _ hs => ended_of_copyErr hs)
        (fun _ _ _ hi he hs => (step_ended hi he hs).1) inv_init hmem
    refine h₂.forall_mem (I := fun w => Inv w ∧ Ended t w.mux) ?_ ⟨hi₁, hended⟩
    intro w a w' hi _ hs
    obtain ⟨he, hcall⟩ := step_ended hi.1 hi.2 hs
    exact ⟨⟨step_inv hi.1 hs, he⟩, hcall⟩

/-- The writer fails, its consumer calls the cancel function while somebody else does, and a
`Write` follows. -/
def failingRun : List Label :=
  [.mux .tee, .mux (.write [1, 2]), .mux (.take 0 0), .mux (.send 0), .mux (.finish 0),
    .mux (.target 0 .receive), .cancel 0, .mux (.target 0 (.copyErr 1)), .enter 1, .delete 1,
    .close 1, .finish 1]

def afterFailure : List Label :=
  [.enter 0, .mux (.write [3]), .mux (.finish 1), .mux (.target 0 .leave)]

theorem cancellation_final_failingRun :
    ∃ w₁ w₂, Steps system Always system.init failingRun w₁ ∧
      Steps system Always w₁ afterFailure w₂ ∧
      (∀ v p, (v, p) ∈ puts (system.history (seenAt 0) system.init (failingRun ++ afterFailure)) →
        v < 1) ∧
      (∀ a ∈ afterFailure, ¬ CallsWriter 0 a) ∧ w₂.closed 0 ≤ 1 := by
  obtain ⟨w₁, w₂, hs₁, hs₂, ⟨hcall, hbegun⟩, -⟩ := exists_steps_twice system Always system.init
    failingRun afterFailure
    (fun w => w.calls[1]? = some ⟨0, .returned⟩ ∧ w.mux.begun = 1) (fun _ => True)
    (by decide +kernel)
  obtain ⟨hcancel, hfail, hclosed⟩ := cancellation_final hs₁ hs₂ 0
  refine ⟨w₁, w₂, hs₁, hs₂, fun v p hput => ?_, hfail 1 (by decide), hclosed⟩
  rw [← hbegun]
  exact ((hcancel 1 hcall).2.1 v p hput).1

end Cancellation

end Bigmachine.Tee
