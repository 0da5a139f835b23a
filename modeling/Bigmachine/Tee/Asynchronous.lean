import Bigmachine.Tee.Writer

/-!
# Writes that do not wait

`Write` is documented as asynchronous. A `Write` waits when the channel it is about to send
to is full. Between its take and its send the channel is empty unless another `Write` has
taken a buffer there too and was faster to send (`second_write_waits`); a consumer that is
slow, or has returned, then keeps the later one waiting. When no `Write` takes from a
channel while another one is between its take and its send there, no `Write` ever waits,
and each can complete by its own steps alone (`writes_do_not_wait`).
-/

namespace Bigmachine.Tee

open Transition

/-- The `Write` is at its send and the channel is full. -/
def Waiting (s : Mux) (w : Nat) : Prop :=
  ∃ c ∈ (s.writes w).pc.target, (s.targets c).slot ≠ none

instance (s : Mux) (w : Nat) : Decidable (Waiting s w) :=
  inferInstanceAs (Decidable (∃ c ∈ (s.writes w).pc.target, (s.targets c).slot ≠ none))

/-- A `Write` takes from a channel only while no other is about to send to it. -/
def Exclusive (s : Mux) : Action → Prop
  | .take w c => ∀ w' < s.begun, w' ≠ w → (s.writes w').pc.target ≠ some c
  | _ => True

instance (s : Mux) : (a : Action) → Decidable (Exclusive s a)
  | .take w c =>
    inferInstanceAs (Decidable (∀ w' < s.begun, w' ≠ w → (s.writes w').pc.target ≠ some c))
  | .tee | .target _ _ | .write _ | .send _ | .finish _ => isTrue trivial

/-! ## Channels that are about to be sent to -/

/-- A channel that a `Write` is about to send to is empty, and no other `Write` is about to
send to it. -/
structure Free (s : Mux) : Prop where
  empty : ∀ w < s.begun, ∀ c, (s.writes w).pc.target = some c → (s.targets c).slot = none
  unique : ∀ w < s.begun, ∀ w' < s.begun, ∀ c, (s.writes w).pc.target = some c →
    (s.writes w').pc.target = some c → w = w'
  start : ∀ w < s.begun, (s.writes w).start ≤ s.teed

theorem Free.setTarget {s : Mux} (h : Free s) {t : Nat} {x : Target}
    (hx : x.slot = (s.targets t).slot ∨ x.slot = none) {n : Nat} (hn : s.teed ≤ n) :
    Free { s.setTarget t x with teed := n } := by
  refine ⟨?_, h.unique, fun w hw => (h.start w hw).trans hn⟩
  intro w hw c hc
  have hempty : (s.targets c).slot = none := h.empty w hw c hc
  by_cases hct : c = t
  · subst hct
    simp only [Mux.setTarget, Function.update_self]
    exact hx.elim (fun heq => heq.trans hempty) id
  · simp only [Mux.setTarget, Function.update_of_ne hct]
    exact hempty

/-- A `Write` that is about to send to no channel moves to `pc`. -/
theorem Free.leave {s : Mux} (h : Free s) {w : Nat} {pc : WritePc} (hpc : pc.target = none) :
    Free (s.setWrite w pc) := by
  have hold : ∀ w' c, ((s.setWrite w pc).writes w').pc.target = some c →
      w' ≠ w ∧ (s.writes w').pc.target = some c := by
    intro w' c hc
    by_cases hw : w' = w
    · subst hw
      rw [setWrite_target_self, hpc] at hc
      cases hc
    · rw [setWrite_of_ne s pc hw] at hc
      exact ⟨hw, hc⟩
  refine ⟨?_, ?_, ?_⟩
  · intro w' hw' c hc
    exact h.empty w' hw' c (hold w' c hc).2
  · intro w' hw' w'' hw'' c hc hc'
    exact h.unique w' hw' w'' hw'' c (hold w' c hc).2 (hold w'' c hc').2
  · intro w' hw'
    rw [setWrite_start]
    exact h.start w' hw'

theorem Free.enter {s : Mux} (h : Free s) {w c : Nat} {pc : WritePc} (hpc : pc.target = some c)
    (hslot : (s.targets c).slot = none)
    (halone : ∀ w' < s.begun, w' ≠ w → (s.writes w').pc.target ≠ some c) :
    Free (s.setWrite w pc) := by
  refine ⟨?_, ?_, ?_⟩
  · intro w' hw' c' hc'
    by_cases hw : w' = w
    · subst hw
      rw [setWrite_target_self, hpc] at hc'
      cases hc'
      exact hslot
    · rw [setWrite_of_ne s pc hw] at hc'
      exact h.empty w' hw' c' hc'
  · intro w' hw' w'' hw'' c' hc' hc''
    by_cases hw : w' = w
    · subst hw
      rw [setWrite_target_self, hpc] at hc'
      cases hc'
      by_contra hne
      have hne' : w'' ≠ w' := Ne.symm hne
      rw [setWrite_of_ne s pc hne'] at hc''
      exact halone w'' hw'' hne' hc''
    · rw [setWrite_of_ne s pc hw] at hc'
      by_cases hw₂ : w'' = w
      · subst hw₂
        rw [setWrite_target_self, hpc] at hc''
        cases hc''
        exact absurd hc' (halone w' hw' hw)
      · rw [setWrite_of_ne s pc hw₂] at hc''
        exact h.unique w' hw' w'' hw'' c' hc' hc''
  · intro w' hw'
    rw [setWrite_start]
    exact h.start w' hw'

theorem Free.fill {s : Mux} (h : Free s) {c : Nat} (x : Target)
    (hnone : ∀ w < s.begun, (s.writes w).pc.target ≠ some c) : Free (s.setTarget c x) := by
  refine ⟨?_, h.unique, h.start⟩
  intro w hw c' hc'
  have hne : c' ≠ c := by
    rintro rfl
    exact hnone w hw hc'
  simp only [Mux.setTarget, Function.update_of_ne hne]
  exact h.empty w hw c' hc'

theorem Free.write {s : Mux} (h : Free s) (p : List UInt8) (gone : List Nat) :
    Free { s with
      writes := Function.update s.writes s.begun ⟨p, s.teed, gone, .range []⟩
      begun := s.begun + 1 } := by
  have hold : ∀ w < s.begun + 1, ∀ c,
      (Function.update s.writes s.begun ⟨p, s.teed, gone, .range []⟩ w).pc.target = some c →
      w < s.begun ∧ (s.writes w).pc.target = some c := by
    intro w hw c hc
    by_cases hnew : w = s.begun
    · subst hnew
      rw [Function.update_self] at hc
      cases hc
    · rw [Function.update_of_ne hnew] at hc
      exact ⟨by omega, hc⟩
  refine ⟨?_, ?_, ?_⟩
  · intro w hw c hc
    obtain ⟨hlt, hc⟩ := hold w hw c hc
    exact h.empty w hlt c hc
  · intro w hw w' hw' c hc hc'
    obtain ⟨hlt, hc⟩ := hold w hw c hc
    obtain ⟨hlt', hc'⟩ := hold w' hw' c hc'
    exact h.unique w hlt w' hlt' c hc hc'
  · intro w hw
    by_cases hnew : w = s.begun
    · subst hnew
      simp
    · simp only [Function.update_of_ne hnew]
      exact h.start w (by dsimp only at hw; omega)

theorem step_free {s s' : Mux} {a : Action} (h : Free s) (hok : Exclusive s a)
    (hstep : step s a = some s') : Free s' := by
  obtain ⟨-, rfl⟩ | ⟨t, b, x, -, -, hx, rfl⟩ | ⟨p, -, rfl⟩ |
    ⟨w, c, visited, rfl, hpc, hw, -, rfl⟩ | ⟨w, c, buf, visited, -, hpc, hw, hslot, rfl⟩ |
    ⟨w, visited, -, -, -, -, rfl⟩ := step_cases hstep
  · exact h.setTarget (Or.inr rfl) (Nat.le_succ _)
  · exact h.setTarget (Target.step_slot hx) le_rfl
  · exact h.write p _
  · have hempty : Free (s.setTarget c { s.targets c with slot := none }) :=
      h.setTarget (Or.inr rfl) le_rfl
    exact hempty.enter rfl (by simp [Mux.setTarget]) hok
  · -- the `Write` leaves the channel first; then nobody is about to send to it
    have hleft : Free (s.setWrite w (.range (c :: visited))) := h.leave rfl
    have hown : (s.writes w).pc.target = some c := by
      rw [hpc]
      rfl
    refine hleft.fill { s.targets c with slot := some buf } ?_
    intro w' hw' hc'
    by_cases hne : w' = w
    · subst hne
      rw [setWrite_target_self] at hc'
      cases hc'
    · rw [setWrite_of_ne s _ hne] at hc'
      exact hne (h.unique w' hw' w hw c hc' hown)
  · exact h.leave rfl

/-! ## Completing alone -/

/-- The action is a step of the `Write` `w`. -/
def Own (w : Nat) : Action → Prop
  | .take w' _ | .send w' | .finish w' => w' = w
  | _ => False

/-- The `Write` can return by its own steps. -/
def CompletesAlone (s : Mux) (w : Nat) : Prop :=
  ∃ tr s', (∀ a ∈ tr, Own w a) ∧ Steps system Always s tr s' ∧ (s'.writes w).pc = .returned

theorem CompletesAlone.step {s s' : Mux} {w : Nat} {a : Action}
    (hs : Tee.step s a = some s') (ha : Own w a) (h : CompletesAlone s' w) :
    CompletesAlone s w := by
  obtain ⟨tr, t, hown, hrun, ht⟩ := h
  refine ⟨a :: tr, t, ?_, .cons trivial hs hrun, ht⟩
  simpa [ha] using hown

/-- The targets that the `Write` has to visit before `Range` can end. -/
def remaining (s : Mux) (w : Nat) (visited : List Nat) : List Nat :=
  (List.range (s.writes w).start).filter fun c =>
    c ∉ (s.writes w).gone ∧ (s.targets c).registered = true ∧ c ∉ visited

theorem remaining_nil_iff {s : Mux} {w : Nat} {visited : List Nat} :
    remaining s w visited = [] ↔ s.RangeDone w visited := by
  simp only [remaining, Mux.RangeDone, List.filter_eq_nil_iff, List.mem_range, decide_eq_true_eq,
    not_and, not_not]

/-- What the steps of a `Write` at its targets leave as it is. -/
structure SameRange (s s' : Mux) (w : Nat) : Prop where
  begun : s'.begun = s.begun
  teed : s'.teed = s.teed
  start : (s'.writes w).start = (s.writes w).start
  gone : (s'.writes w).gone = (s.writes w).gone
  registered : ∀ t, (s'.targets t).registered = (s.targets t).registered

theorem sameRange_move (s : Mux) (w c : Nat) (slot : Option (List UInt8)) (pc : WritePc) :
    SameRange s ((s.setTarget c { s.targets c with slot := slot }).setWrite w pc) w := by
  refine ⟨rfl, rfl, by simp [Mux.setWrite, Mux.setTarget], by simp [Mux.setWrite, Mux.setTarget],
    fun t => ?_⟩
  by_cases ht : t = c
  · subst ht
    simp [Mux.setWrite, Mux.setTarget, Target.registered]
  · simp [Mux.setWrite, Mux.setTarget, ht]

theorem SameRange.trans {s s' s'' : Mux} {w : Nat} (h : SameRange s s' w)
    (h' : SameRange s' s'' w) : SameRange s s'' w :=
  ⟨h'.begun.trans h.begun, h'.teed.trans h.teed, h'.start.trans h.start, h'.gone.trans h.gone,
    fun t => (h'.registered t).trans (h.registered t)⟩

/-- After the visit of `c`, one target less has to be visited. -/
theorem remaining_lt {s s' : Mux} {w c : Nat} {visited : List Nat}
    (hc : c ∈ remaining s w visited) (h : SameRange s s' w) :
    (remaining s' w (c :: visited)).length < (remaining s w visited).length := by
  have hsub : remaining s' w (c :: visited) = (remaining s w visited).filter (· ≠ c) := by
    simp only [remaining, h.start, h.gone, h.registered, List.filter_filter]
    refine List.filter_congr fun t _ => ?_
    by_cases htc : t = c <;> simp [htc]
  rw [hsub]
  exact List.length_filter_lt_length_iff_exists.mpr ⟨c, hc, by simp⟩

theorem exists_send {s : Mux} {w c : Nat} {buf : List UInt8} {visited : List Nat}
    (hw : w < s.begun) (hpc : (s.writes w).pc = .send c buf visited)
    (hslot : (s.targets c).slot = none) :
    ∃ s', step s (.send w) = some s' ∧ (s'.writes w).pc = .range (c :: visited) ∧
      SameRange s s' w :=
  ⟨_, by simp only [step, hpc, hw, hslot, true_and, if_true], setWrite_target_self _ _ _,
    sameRange_move s w c (some buf) _⟩

theorem exists_take {s : Mux} {w c : Nat} {visited : List Nat} (hw : w < s.begun)
    (hc : c < s.teed) (hgone : c ∉ (s.writes w).gone) (hnew : c ∉ visited)
    (hpc : (s.writes w).pc = .range visited) :
    ∃ s' buf, step s (.take w c) = some s' ∧ (s'.writes w).pc = .send c buf visited ∧
      (s'.targets c).slot = none ∧ SameRange s s' w :=
  ⟨_, push ((s.targets c).slot.getD []) (s.writes w).p,
    by simp only [step, hpc, hw, hc, hgone, hnew, not_false_eq_true, and_self, if_true],
    setWrite_target_self _ _ _, by simp [Mux.setWrite, Mux.setTarget],
    sameRange_move s w c none _⟩

theorem completesAlone_of_range {s : Mux} {w : Nat} (hw : w < s.begun)
    (hstart : (s.writes w).start ≤ s.teed) {visited : List Nat}
    (hpc : (s.writes w).pc = .range visited) : CompletesAlone s w := by
  induction hn : (remaining s w visited).length using Nat.strong_induction_on
    generalizing s visited with
  | _ n ih =>
    cases hrem : remaining s w visited with
    | nil =>
      have hdone := remaining_nil_iff.mp hrem
      exact ⟨[.finish w], s.setWrite w .returned, by simp [Own],
        .single trivial (by simp [system, step, hpc, hw, hdone]), setWrite_target_self _ _ _⟩
    | cons c rest =>
      have hc : c ∈ remaining s w visited := by
        rw [hrem]
        exact List.mem_cons_self
      obtain ⟨hlt, hgone, -, hnew⟩ : c < (s.writes w).start ∧ c ∉ (s.writes w).gone ∧
          (s.targets c).registered = true ∧ c ∉ visited := by
        simpa [remaining] using hc
      obtain ⟨s₁, buf, htake, hpc₁, hslot, hsame₁⟩ :=
        exists_take hw (hlt.trans_le hstart) hgone hnew hpc
      obtain ⟨s₂, hsend, hpc₂, hsame₂⟩ := exists_send (hsame₁.begun ▸ hw) hpc₁ hslot
      have hsame : SameRange s s₂ w := hsame₁.trans hsame₂
      have hless : (remaining s₂ w (c :: visited)).length < n := hn ▸ remaining_lt hc hsame
      have hstart₂ : (s₂.writes w).start ≤ s₂.teed := by
        rw [hsame.start, hsame.teed]
        exact hstart
      have hrest : CompletesAlone s₂ w := ih _ hless (hsame.begun ▸ hw) hstart₂ hpc₂ rfl
      exact .step htake rfl (.step hsend rfl hrest)

theorem completesAlone_of_not_waiting {s : Mux} {w : Nat} (hw : w < s.begun)
    (hstart : (s.writes w).start ≤ s.teed) (hwait : ¬ Waiting s w) : CompletesAlone s w := by
  cases hpc : (s.writes w).pc with
  | range visited => exact completesAlone_of_range hw hstart hpc
  | returned => exact ⟨[], s, by simp, .nil s, hpc⟩
  | send c buf visited =>
    have hslot : (s.targets c).slot = none := by
      by_contra hfull
      exact hwait ⟨c, by rw [hpc]; rfl, hfull⟩
    obtain ⟨s', hsend, hpc', hsame⟩ := exists_send hw hpc hslot
    have hstart' : (s'.writes w).start ≤ s'.teed := by
      rw [hsame.start, hsame.teed]
      exact hstart
    have hrest : CompletesAlone s' w :=
      completesAlone_of_range (hsame.begun ▸ hw) hstart' hpc'
    exact .step hsend rfl hrest

/-! ## Asynchronous writes -/

theorem free_init : Free system.init :=
  ⟨fun _ hw => absurd hw (Nat.not_lt_zero _), fun _ hw => absurd hw (Nat.not_lt_zero _),
    fun _ hw => absurd hw (Nat.not_lt_zero _)⟩

/-- A `Write` that sends to empty channels only does not wait. -/
theorem Free.not_waiting {s : Mux} (h : Free s) {w : Nat} (hw : w < s.begun) :
    ¬ Waiting s w ∧ CompletesAlone s w := by
  have hwait : ¬ Waiting s w := by
    rintro ⟨c, hc, hfull⟩
    exact hfull (h.empty w hw c hc)
  exact ⟨hwait, completesAlone_of_not_waiting hw (h.start w hw) hwait⟩

/-- **Writes do not wait.** In every run in which a `Write` takes from a channel only while
no other `Write` is about to send to it, no `Write` waits at its send, and every `Write`
can complete by its own steps alone. -/
theorem writes_do_not_wait {tr : List Action} {s : Mux}
    (h : Steps system Exclusive system.init tr s) :
    ∀ w < s.begun, ¬ Waiting s w ∧ CompletesAlone s w := by
  have hfree : Free s :=
    h.invariant (I := Free) (fun _ _ _ hi hok hs => step_free hi hok hs) free_init
  intro w hw
  exact hfree.not_waiting hw

/-- A `Write` begins while another one has not sent yet, and takes when it has. -/
theorem writes_do_not_wait_inTurn :
    ∃ s, Steps system Exclusive system.init
        [.tee, .write [1], .write [2], .take 0 0, .send 0, .take 1 0] s ∧
      (s.writes 1).pc = .send 0 [1, 2] [] ∧ ¬ Waiting s 1 ∧ CompletesAlone s 1 := by
  obtain ⟨s, hs, hbegun, hpc⟩ := exists_steps system Exclusive system.init
    [.tee, .write [1], .write [2], .take 0 0, .send 0, .take 1 0]
    (fun s => 1 < s.begun ∧ (s.writes 1).pc = .send 0 [1, 2] []) (by decide)
  exact ⟨s, hs, hpc, writes_do_not_wait hs 1 hbegun⟩

/-- Two `Write`s find the channel empty and take new buffers; the second to send waits. -/
theorem second_write_waits :
    ¬ ∀ (tr : List Action) (s : Mux), Steps system Always system.init tr s →
      ∀ w < s.begun, ¬ Waiting s w := by
  intro h
  obtain ⟨s, hs, hbegun, hwait⟩ := exists_steps system Always system.init
    [.tee, .write [1], .write [2], .take 0 0, .take 1 0, .send 0]
    (fun s => 1 < s.begun ∧ Waiting s 1) (by decide)
  exact h _ s hs 1 hbegun hwait

end Bigmachine.Tee
