import Bigmachine.Transition.System

/-!
# The write multiplexer

`tee.Writer` as a system of goroutines: any number of calls of `Write`, one consumer for
every call of `Tee`, and calls of the cancel functions. A `Write` goes over the targets; at
each it takes the buffer from the target's channel, or a new one when the channel is empty,
appends its bytes, and sends the buffer to the channel, which has room for one. The
consumer receives buffers from the channel and copies them to its writer.

Receives and sends, the store and delete of the map and the close of the done channel are
atomic steps. `sync.Map.Range` visits a key at most once, every key that is stored from
its start to its end, and of the other keys those that were stored at some moment
meanwhile, or not.
-/

namespace Bigmachine.Tee

open Transition

def bufferSize : Nat := 512 * 1024

/-- The buffer after a `Write` of `p`: bytes beyond the buffer size are discarded, the
oldest first. -/
def push (buf p : List UInt8) : List UInt8 :=
  buf.drop (buf.length + p.length - bufferSize) ++ p

/-! ## Goroutines -/

/-- The progress of the `once.Do` of a cancel function: the key is deleted, then the done
channel is closed. -/
inductive Once
  | idle | deleted | finished
  deriving DecidableEq, Repr

inductive ConsumerPc
  | select
  | copying (buf : List UInt8)
  | canceling -- `cancel()` after the writer has failed
  | returned
  deriving DecidableEq, Repr

/-- What a call of `Tee` makes: the channel, the state of its cancel function, the consumer
and the bytes its writer has taken. -/
structure Target where
  slot : Option (List UInt8) := none
  once : Once := .idle
  consumer : ConsumerPc := .select
  written : List UInt8 := []

/-- The key of the target is in the map. -/
def Target.registered (t : Target) : Bool := t.once = .idle

/-- In `range` the targets `visited` are done, and `send` is `c <- buf` at the target `c`. -/
inductive WritePc
  | range (visited : List Nat)
  | send (c : Nat) (buf : List UInt8) (visited : List Nat)
  | returned
  deriving DecidableEq, Repr

/-- The target whose channel a `Write` is about to send to. -/
def WritePc.target : WritePc → Option Nat
  | send c _ _ => some c
  | _ => none

/-- `start` is the number of targets made before the `Write` began, and `gone` are those of them
deleted by then. -/
structure Write where
  p : List UInt8
  start : Nat
  gone : List Nat
  pc : WritePc := .range []

/-- `teed` and `begun` are the numbers of calls of `Tee` and of `Write`. -/
structure Mux where
  targets : Nat → Target := fun _ => {}
  teed : Nat := 0
  writes : Nat → Write := fun _ => ⟨[], 0, [], .returned⟩
  begun : Nat := 0

/-- The steps of a consumer and of a cancel function: `cancel` is one step of the function, whoever
called it, `exit` takes the case of the done channel, in `copyErr` the writer fails after `n`
bytes, and in `leave` the consumer's own call of cancel returns. -/
inductive TargetAction
  | cancel
  | receive
  | exit
  | copied
  | copyErr (n : Nat)
  | leave
  deriving DecidableEq, Repr

inductive Action
  | tee
  | target (t : Nat) (a : TargetAction)
  | write (p : List UInt8)
  | take (w c : Nat) -- the `Write` goes on to the target `c` and takes its buffer
  | send (w : Nat)
  | finish (w : Nat)
  deriving DecidableEq, Repr

def Mux.setTarget (s : Mux) (t : Nat) (x : Target) : Mux :=
  { s with targets := Function.update s.targets t x }

def Mux.setWrite (s : Mux) (w : Nat) (pc : WritePc) : Mux :=
  { s with writes := Function.update s.writes w { s.writes w with pc := pc } }

@[simp] theorem setTarget_self (s : Mux) (t : Nat) (x : Target) :
    (s.setTarget t x).targets t = x := by
  simp [Mux.setTarget]

theorem setTarget_of_ne (s : Mux) {t t' : Nat} (x : Target) (h : t' ≠ t) :
    (s.setTarget t x).targets t' = s.targets t' :=
  Function.update_of_ne h _ _

@[simp] theorem setWrite_target_self (s : Mux) (w : Nat) (pc : WritePc) :
    ((s.setWrite w pc).writes w).pc = pc := by
  simp [Mux.setWrite]

theorem setWrite_of_ne (s : Mux) {w w' : Nat} (pc : WritePc) (h : w' ≠ w) :
    (s.setWrite w pc).writes w' = s.writes w' :=
  Function.update_of_ne h _ _

/-- A `Write` keeps what it began with. -/
theorem setWrite_same (s : Mux) (w w' : Nat) (pc : WritePc) :
    ((s.setWrite w pc).writes w').p = (s.writes w').p ∧
      ((s.setWrite w pc).writes w').start = (s.writes w').start ∧
      ((s.setWrite w pc).writes w').gone = (s.writes w').gone := by
  by_cases h : w' = w
  · subst h
    simp [Mux.setWrite]
  · rw [setWrite_of_ne s pc h]
    exact ⟨rfl, rfl, rfl⟩

@[simp] theorem setWrite_p (s : Mux) (w w' : Nat) (pc : WritePc) :
    ((s.setWrite w pc).writes w').p = (s.writes w').p :=
  (setWrite_same s w w' pc).1

@[simp] theorem setWrite_start (s : Mux) (w w' : Nat) (pc : WritePc) :
    ((s.setWrite w pc).writes w').start = (s.writes w').start :=
  (setWrite_same s w w' pc).2.1

@[simp] theorem setWrite_gone (s : Mux) (w w' : Nat) (pc : WritePc) :
    ((s.setWrite w pc).writes w').gone = (s.writes w').gone :=
  (setWrite_same s w w' pc).2.2

/-- One step of `cancel`; nothing is left to do once it has finished. -/
def Once.next : Once → Option Once
  | idle => some deleted
  | deleted => some finished
  | finished => none

def Target.step (x : Target) : TargetAction → Option Target
  | .cancel => x.once.next.map fun o => { x with once := o }
  | .receive =>
    match x.consumer, x.slot with
    | .select, some buf => some { x with slot := none, consumer := .copying buf }
    | _, _ => none
  | .exit =>
    if x.consumer = .select ∧ x.once = .finished then some { x with consumer := .returned }
    else none
  | .copied =>
    match x.consumer with
    | .copying buf => some { x with consumer := .select, written := x.written ++ buf }
    | _ => none
  | .copyErr n =>
    match x.consumer with
    | .copying buf => some { x with consumer := .canceling, written := x.written ++ buf.take n }
    | _ => none
  | .leave =>
    if x.consumer = .canceling ∧ x.once = .finished then some { x with consumer := .returned }
    else none

/-- `Range` may end: every key stored from its start on has been visited. -/
def Mux.RangeDone (s : Mux) (w : Nat) (visited : List Nat) : Prop :=
  ∀ c < (s.writes w).start, c ∉ (s.writes w).gone → (s.targets c).registered = true → c ∈ visited

instance (s : Mux) (w : Nat) (visited : List Nat) : Decidable (s.RangeDone w visited) :=
  inferInstanceAs (Decidable (∀ c < _, _ → _ → _))

def step (s : Mux) : Action → Option Mux
  | .tee => some { s.setTarget s.teed {} with teed := s.teed + 1 }
  | .target t a => if t < s.teed then ((s.targets t).step a).map (s.setTarget t) else none
  | .write p =>
    some { s with
      writes := Function.update s.writes s.begun
        ⟨p, s.teed, (List.range s.teed).filter fun c => !(s.targets c).registered, .range []⟩
      begun := s.begun + 1 }
  | .take w c =>
    match (s.writes w).pc with
    | .range visited =>
      if w < s.begun ∧ c < s.teed ∧ c ∉ (s.writes w).gone ∧ c ∉ visited then
        let buf := (s.targets c).slot.getD []
        some ((s.setTarget c { s.targets c with slot := none }).setWrite w
          (.send c (push buf (s.writes w).p) visited))
      else none
    | _ => none
  | .send w =>
    match (s.writes w).pc with
    | .send c buf visited =>
      if w < s.begun ∧ (s.targets c).slot = none then
        some ((s.setTarget c { s.targets c with slot := some buf }).setWrite w
          (.range (c :: visited)))
      else none
    | _ => none
  | .finish w =>
    match (s.writes w).pc with
    | .range visited =>
      if w < s.begun ∧ s.RangeDone w visited then some (s.setWrite w .returned) else none
    | _ => none

def system : System Mux Action := ⟨{}, step⟩

/-! ## What a step can do -/

theorem step_cases {s s' : Mux} {a : Action} (h : step s a = some s') :
    (a = .tee ∧ s' = { s.setTarget s.teed {} with teed := s.teed + 1 }) ∨
    (∃ t b x, a = .target t b ∧ t < s.teed ∧ (s.targets t).step b = some x ∧
      s' = s.setTarget t x) ∨
    (∃ p, a = .write p ∧ s' = { s with
      writes := Function.update s.writes s.begun
        ⟨p, s.teed, (List.range s.teed).filter fun c => !(s.targets c).registered, .range []⟩
      begun := s.begun + 1 }) ∨
    (∃ w c visited, a = .take w c ∧ (s.writes w).pc = .range visited ∧ w < s.begun ∧
      (c < s.teed ∧ c ∉ (s.writes w).gone ∧ c ∉ visited) ∧
      s' = (s.setTarget c { s.targets c with slot := none }).setWrite w
        (.send c (push ((s.targets c).slot.getD []) (s.writes w).p) visited)) ∨
    (∃ w c buf visited, a = .send w ∧ (s.writes w).pc = .send c buf visited ∧ w < s.begun ∧
      (s.targets c).slot = none ∧
      s' = (s.setTarget c { s.targets c with slot := some buf }).setWrite w
        (.range (c :: visited))) ∨
    (∃ w visited, a = .finish w ∧ (s.writes w).pc = .range visited ∧ w < s.begun ∧
      s.RangeDone w visited ∧ s' = s.setWrite w .returned) := by
  cases a with
  | tee => exact Or.inl ⟨rfl, (Option.some.inj h).symm⟩
  | target t b =>
    simp only [step] at h
    split at h
    · rename_i ht
      obtain ⟨x, hx, rfl⟩ := Option.map_eq_some_iff.mp h
      exact Or.inr (Or.inl ⟨t, b, x, rfl, ht, hx, rfl⟩)
    · cases h
  | write p => exact Or.inr (Or.inr (Or.inl ⟨p, rfl, (Option.some.inj h).symm⟩))
  | take w c =>
    simp only [step] at h
    split at h
    · rename_i visited hpc
      split at h
      · rename_i hc
        exact Or.inr (Or.inr (Or.inr (Or.inl
          ⟨w, c, visited, rfl, hpc, hc.1, hc.2, (Option.some.inj h).symm⟩)))
      · cases h
    · cases h
  | send w =>
    simp only [step] at h
    split at h
    · rename_i c buf visited hpc
      split at h
      · rename_i hc
        exact Or.inr (Or.inr (Or.inr (Or.inr (Or.inl
          ⟨w, c, buf, visited, rfl, hpc, hc.1, hc.2, (Option.some.inj h).symm⟩))))
      · cases h
    · cases h
  | finish w =>
    simp only [step] at h
    split at h
    · rename_i visited hpc
      split at h
      · rename_i hc
        exact Or.inr (Or.inr (Or.inr (Or.inr (Or.inr
          ⟨w, visited, rfl, hpc, hc.1, hc.2, (Option.some.inj h).symm⟩))))
      · cases h
    · cases h

theorem Target.step_cases {x x' : Target} {a : TargetAction} (h : x.step a = some x') :
    (∃ o, a = .cancel ∧ x.once.next = some o ∧ x' = { x with once := o }) ∨
    (∃ buf, a = .receive ∧ x.consumer = .select ∧ x.slot = some buf ∧
      x' = { x with slot := none, consumer := .copying buf }) ∨
    (a = .exit ∧ x.consumer = .select ∧ x.once = .finished ∧
      x' = { x with consumer := .returned }) ∨
    (∃ buf, a = .copied ∧ x.consumer = .copying buf ∧
      x' = { x with consumer := .select, written := x.written ++ buf }) ∨
    (∃ n buf, a = .copyErr n ∧ x.consumer = .copying buf ∧
      x' = { x with consumer := .canceling, written := x.written ++ buf.take n }) ∨
    (a = .leave ∧ x.consumer = .canceling ∧ x.once = .finished ∧
      x' = { x with consumer := .returned }) := by
  cases a with
  | cancel =>
    obtain ⟨o, ho, rfl⟩ := Option.map_eq_some_iff.mp h
    exact Or.inl ⟨o, rfl, ho, rfl⟩
  | receive =>
    simp only [Target.step] at h
    split at h
    · rename_i buf hc hs
      exact Or.inr (Or.inl ⟨buf, rfl, hc, hs, (Option.some.inj h).symm⟩)
    · cases h
  | exit =>
    simp only [Target.step] at h
    split at h
    · rename_i hc
      exact Or.inr (Or.inr (Or.inl ⟨rfl, hc.1, hc.2, (Option.some.inj h).symm⟩))
    · cases h
  | copied =>
    simp only [Target.step] at h
    split at h
    · rename_i buf hc
      exact Or.inr (Or.inr (Or.inr (Or.inl ⟨buf, rfl, hc, (Option.some.inj h).symm⟩)))
    · cases h
  | copyErr n =>
    simp only [Target.step] at h
    split at h
    · rename_i buf hc
      exact Or.inr (Or.inr (Or.inr (Or.inr (Or.inl
        ⟨n, buf, rfl, hc, (Option.some.inj h).symm⟩))))
    · cases h
  | leave =>
    simp only [Target.step] at h
    split at h
    · rename_i hc
      exact Or.inr (Or.inr (Or.inr (Or.inr (Or.inr
        ⟨rfl, hc.1, hc.2, (Option.some.inj h).symm⟩))))
    · cases h

theorem Target.step_slot {x x' : Target} {a : TargetAction} (h : x.step a = some x') :
    x'.slot = x.slot ∨ x'.slot = none := by
  obtain ⟨o, -, -, rfl⟩ | ⟨buf, -, -, -, rfl⟩ | ⟨-, -, -, rfl⟩ | ⟨buf, -, -, rfl⟩ |
    ⟨n, buf, -, -, rfl⟩ | ⟨-, -, -, rfl⟩ := Target.step_cases h
  · exact Or.inl rfl
  · exact Or.inr rfl
  · exact Or.inl rfl
  · exact Or.inl rfl
  · exact Or.inl rfl
  · exact Or.inl rfl

theorem Once.next_ne_idle {o o' : Once} (h : o.next = some o') : o' ≠ .idle := by
  cases o <;> cases h <;> simp

/-- A key that was deleted does not come back. -/
theorem Target.step_registered {x x' : Target} {a : TargetAction} (h : x.step a = some x')
    (hx : x'.registered = true) : x.registered = true := by
  obtain ⟨o, -, ho, rfl⟩ | ⟨buf, -, -, -, rfl⟩ | ⟨-, -, -, rfl⟩ | ⟨buf, -, -, rfl⟩ |
    ⟨n, buf, -, -, rfl⟩ | ⟨-, -, -, rfl⟩ := Target.step_cases h
  · have hidle : o = .idle := by simpa [Target.registered] using hx
    exact absurd hidle (Once.next_ne_idle ho)
  · exact hx
  · exact hx
  · exact hx
  · exact hx
  · exact hx

end Bigmachine.Tee
