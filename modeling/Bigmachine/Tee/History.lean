import Bigmachine.Tee.Writer

/-!
# What happens at one target

The history of a target, read off a run: which `Write`s have taken its buffer to add their
bytes, and which buffers its consumer has received, in order. A `Write` counts from the
moment it takes the buffer; from then until its send the buffer is in its hands alone.

Every `Write` is in the history at most once, none that began after the key was deleted is,
and every one that began after the call of `Tee` and has returned is, as long as the key is
in the map (`Account`). What the consumer has received it passes to its writer, in order
(`Target.Delivered`).
-/

namespace Bigmachine.Tee

open Transition

inductive Event
  | put (w : Nat) (p : List UInt8) -- the `Write` `w`, of `p`, has taken the buffer
  | received (buf : List UInt8)
  deriving DecidableEq, Repr

/-- What a step adds to the history of the target `t`. -/
def seen (t : Nat) (s : Mux) : Action → List Event
  | .take w c => if c = t then [.put w (s.writes w).p] else []
  | .target c .receive => if c = t then [.received ((s.targets t).slot.getD [])] else []
  | _ => []

@[simp] theorem seen_tee (t : Nat) (s : Mux) : seen t s .tee = [] := rfl

@[simp] theorem seen_write (t : Nat) (s : Mux) (p : List UInt8) : seen t s (.write p) = [] := rfl

@[simp] theorem seen_send (t : Nat) (s : Mux) (w : Nat) : seen t s (.send w) = [] := rfl

@[simp] theorem seen_finish (t : Nat) (s : Mux) (w : Nat) : seen t s (.finish w) = [] := rfl

theorem seen_take (t : Nat) (s : Mux) (w : Nat) :
    seen t s (.take w t) = [.put w (s.writes w).p] :=
  if_pos rfl

theorem seen_take_of_ne {t c : Nat} (s : Mux) (w : Nat) (h : t ≠ c) : seen t s (.take w c) = [] :=
  if_neg (Ne.symm h)

/-- The history of the target `t` in the run `tr` from the start. -/
def eventsAt (t : Nat) (tr : List Action) : List Event := system.history (seen t) system.init tr

/-- The `Write`s in a history, with their bytes. -/
def puts (evs : List Event) : List (Nat × List UInt8) :=
  evs.filterMap fun
    | .put w p => some (w, p)
    | .received _ => none

def putters (evs : List Event) : List Nat := (puts evs).map Prod.fst

theorem puts_append (evs evs' : List Event) : puts (evs ++ evs') = puts evs ++ puts evs' :=
  List.filterMap_append

@[simp] theorem puts_put (evs : List Event) (w : Nat) (p : List UInt8) :
    puts (evs ++ [.put w p]) = puts evs ++ [(w, p)] :=
  puts_append evs _

@[simp] theorem puts_received (evs : List Event) (buf : List UInt8) :
    puts (evs ++ [.received buf]) = puts evs := by
  rw [puts_append]
  exact List.append_nil _

/-- The buffers that the consumer has received; it passes each of them to its writer. -/
def received (evs : List Event) : List (List UInt8) :=
  evs.filterMap fun
    | .put _ _ => none
    | .received buf => some buf

@[simp] theorem received_put (evs : List Event) (w : Nat) (p : List UInt8) :
    received (evs ++ [.put w p]) = received evs := by
  simp [received]

@[simp] theorem received_received (evs : List Event) (buf : List UInt8) :
    received (evs ++ [.received buf]) = received evs ++ [buf] := by
  simp [received]

theorem seen_target {t : Nat} (s : Mux) (c : Nat) {b : TargetAction} (h : b ≠ .receive) :
    seen t s (.target c b) = [] := by
  cases b with
  | receive => exact absurd rfl h
  | cancel | exit | copied | copyErr n | leave => rfl

theorem seen_target_of_ne {t : Nat} (s : Mux) {c : Nat} (b : TargetAction) (h : t ≠ c) :
    seen t s (.target c b) = [] := by
  cases b <;> simp [seen, Ne.symm h]

/-- Consumers and cancel functions put nothing. -/
theorem puts_target (evs : List Event) (t : Nat) (s : Mux) (c : Nat) (b : TargetAction) :
    puts (evs ++ seen t s (.target c b)) = puts evs := by
  rw [puts_append]
  cases b <;> simp [seen, puts]

/-! ## Keys of the map -/

/-- What holds of the targets as keys of the map. -/
structure Ranges (s : Mux) : Prop where
  fresh : ∀ c, s.teed ≤ c → s.targets c = {}
  start : ∀ w < s.begun, (s.writes w).start ≤ s.teed
  gone : ∀ w < s.begun, ∀ c ∈ (s.writes w).gone,
    c < (s.writes w).start ∧ (s.targets c).registered = false
  target : ∀ w < s.begun, ∀ c, (s.writes w).pc.target = some c → c < s.teed

theorem ranges_init : Ranges system.init :=
  ⟨fun _ _ => rfl, fun _ hw => absurd hw (Nat.not_lt_zero _),
    fun _ hw => absurd hw (Nat.not_lt_zero _), fun _ hw => absurd hw (Nat.not_lt_zero _)⟩

/-- The target `c` changes, and its key, when it is not in the map, stays away. -/
theorem Ranges.setTarget {s : Mux} (h : Ranges s) {c : Nat} {x : Target} (hc : c < s.teed)
    (hx : x.registered = true → (s.targets c).registered = true) : Ranges (s.setTarget c x) := by
  refine ⟨?_, h.start, ?_, h.target⟩
  · intro c' hc'
    have hne : c' ≠ c := by
      have hle : s.teed ≤ c' := hc'
      omega
    rw [setTarget_of_ne s x hne]
    exact h.fresh c' hc'
  · intro w hw c' hc'
    obtain ⟨hlt, hgone⟩ := h.gone w hw c' hc'
    refine ⟨hlt, ?_⟩
    by_cases hne : c' = c
    · subst hne
      rw [setTarget_self]
      by_contra hreg
      have hback := hx (by simpa using hreg)
      rw [hgone] at hback
      cases hback
    · rw [setTarget_of_ne s x hne]
      exact hgone

theorem Ranges.setSlot {s : Mux} (h : Ranges s) {c : Nat} (hc : c < s.teed)
    (slot : Option (List UInt8)) :
    Ranges (s.setTarget c { s.targets c with slot := slot }) :=
  h.setTarget hc fun hreg => hreg

theorem Ranges.setWrite {s : Mux} (h : Ranges s) (w : Nat) {pc : WritePc}
    (hpc : ∀ c, pc.target = some c → c < s.teed) : Ranges (s.setWrite w pc) := by
  refine ⟨h.fresh, ?_, ?_, ?_⟩
  · intro w' hw'
    rw [setWrite_start]
    exact h.start w' hw'
  · intro w' hw' c hc
    rw [setWrite_gone] at hc
    rw [setWrite_start]
    exact h.gone w' hw' c hc
  · intro w' hw' c hc
    by_cases hne : w' = w
    · subst hne
      rw [setWrite_target_self] at hc
      exact hpc c hc
    · rw [setWrite_of_ne s pc hne] at hc
      exact h.target w' hw' c hc

theorem Ranges.tee_targets {s : Mux} (h : Ranges s) :
    (s.setTarget s.teed {}).targets = s.targets := by
  rw [Mux.setTarget, ← h.fresh s.teed le_rfl]
  exact Function.update_eq_self _ _

theorem Ranges.tee {s : Mux} (h : Ranges s) :
    Ranges { s.setTarget s.teed {} with teed := s.teed + 1 } := by
  refine ⟨?_, ?_, ?_, ?_⟩
  · intro c hc
    have hle : s.teed + 1 ≤ c := hc
    simp only [h.tee_targets]
    exact h.fresh c (by omega)
  · intro w hw
    exact (h.start w hw).trans (Nat.le_succ _)
  · intro w hw c hc
    simp only [h.tee_targets]
    exact h.gone w hw c hc
  · intro w hw c hc
    exact (h.target w hw c hc).trans (Nat.lt_succ_self _)

theorem Ranges.write {s : Mux} (h : Ranges s) (p : List UInt8) :
    Ranges { s with
      writes := Function.update s.writes s.begun
        ⟨p, s.teed, (List.range s.teed).filter fun c => !(s.targets c).registered, .range []⟩
      begun := s.begun + 1 } := by
  have hold : ∀ w < s.begun + 1, w ≠ s.begun → w < s.begun := by
    intro w hw hne
    omega
  refine ⟨h.fresh, ?_, ?_, ?_⟩
  · intro w hw
    by_cases hnew : w = s.begun
    · subst hnew
      simp
    · simp only [Function.update_of_ne hnew]
      exact h.start w (hold w hw hnew)
  · intro w hw c hc
    by_cases hnew : w = s.begun
    · subst hnew
      simpa using hc
    · simp only [Function.update_of_ne hnew] at hc ⊢
      exact h.gone w (hold w hw hnew) c hc
  · intro w hw c hc
    by_cases hnew : w = s.begun
    · subst hnew
      simp [WritePc.target] at hc
    · simp only [Function.update_of_ne hnew] at hc
      exact h.target w (hold w hw hnew) c hc

theorem step_ranges {s s' : Mux} {a : Action} (h : Ranges s) (hs : step s a = some s') :
    Ranges s' := by
  obtain ⟨-, rfl⟩ | ⟨t, b, x, -, ht, hx, rfl⟩ | ⟨p, -, rfl⟩ |
    ⟨w, c, visited, -, -, -, hc, rfl⟩ | ⟨w, c, buf, visited, -, hpc, hw, -, rfl⟩ |
    ⟨w, visited, -, -, -, -, rfl⟩ := step_cases hs
  · exact h.tee
  · exact h.setTarget ht (Target.step_registered hx)
  · exact h.write p
  · refine (h.setSlot hc.1 none).setWrite w ?_
    intro c' hc'
    cases hc'
    exact hc.1
  · have hteed : c < s.teed := h.target w hw c (by rw [hpc]; rfl)
    exact (h.setSlot hteed (some buf)).setWrite w (fun _ hc' => by cases hc')
  · exact h.setWrite w (fun _ hc' => by cases hc')

/-! ## The `Write`s in a history -/

/-- The `Write` has taken the buffer of the target `t`, as far as its phase tells. -/
def WritePc.Visits (t : Nat) : WritePc → Prop
  | range visited => t ∈ visited
  | send c _ visited => t = c ∨ t ∈ visited
  | returned => False

/-- The buffer of the target `t`, while the `Write` has it in its hands. -/
def WritePc.buffer (t : Nat) : WritePc → Option (List UInt8)
  | send c buf _ => if c = t then some buf else none
  | _ => none

/-- The `Write`s in the history of the target `t`. -/
structure Account (t : Nat) (s : Mux) (evs : List Event) : Prop where
  ranges : Ranges s
  put : ∀ w p, (w, p) ∈ puts evs → w < s.begun ∧ p = (s.writes w).p ∧ t ∉ (s.writes w).gone
  nodup : (putters evs).Nodup
  visits : ∀ w < s.begun, (s.writes w).pc ≠ .returned →
    (w ∈ putters evs ↔ (s.writes w).pc.Visits t)
  returned : ∀ w < s.begun, (s.writes w).pc = .returned → t < (s.writes w).start →
    (s.targets t).registered = true → w ∈ putters evs

theorem account_init (t : Nat) : Account t system.init [] :=
  ⟨ranges_init, fun _ _ hp => (by simp [puts] at hp), List.nodup_nil,
    fun _ hw => absurd hw (Nat.not_lt_zero _), fun _ hw => absurd hw (Nat.not_lt_zero _)⟩

/-- The step changes no `Write`, and no key comes back. -/
theorem Account.same {t : Nat} {s s' : Mux} {evs evs' : List Event} (h : Account t s evs)
    (hr : Ranges s') (hp : puts evs' = puts evs) (hw : s'.writes = s.writes)
    (hb : s'.begun = s.begun)
    (ht : (s'.targets t).registered = true → (s.targets t).registered = true) :
    Account t s' evs' := by
  have hps : putters evs' = putters evs := by rw [putters, hp, putters]
  refine ⟨hr, ?_, ?_, ?_, ?_⟩
  · rw [hp, hw, hb]
    exact h.put
  · rw [hps]
    exact h.nodup
  · rw [hps, hw, hb]
    exact h.visits
  · rw [hps, hw, hb]
    intro w hlt hpc hstart hreg
    exact h.returned w hlt hpc hstart (ht hreg)

/-- A `Write` goes on, and takes nothing at the target `t`. -/
theorem Account.setWrite {t : Nat} {s : Mux} {evs : List Event} (h : Account t s evs) {w : Nat}
    (hw : w < s.begun) (hpc : (s.writes w).pc ≠ .returned) {pc : WritePc}
    (hr : Ranges (s.setWrite w pc)) (hv : pc ≠ .returned → ((s.writes w).pc.Visits t ↔ pc.Visits t))
    (hret : pc = .returned → t < (s.writes w).start → (s.targets t).registered = true →
      (s.writes w).pc.Visits t) : Account t (s.setWrite w pc) evs := by
  refine ⟨hr, ?_, h.nodup, ?_, ?_⟩
  · intro w' p hp
    rw [setWrite_p, setWrite_gone]
    exact h.put w' p hp
  · intro w' hw' hpc'
    by_cases hne : w' = w
    · subst hne
      rw [setWrite_target_self] at hpc' ⊢
      exact (h.visits w' hw hpc).trans (hv hpc')
    · rw [setWrite_of_ne s pc hne] at hpc' ⊢
      exact h.visits w' hw' hpc'
  · intro w' hw' hpc' hstart hreg
    by_cases hne : w' = w
    · subst hne
      rw [setWrite_target_self] at hpc'
      rw [setWrite_start] at hstart
      exact (h.visits w' hw hpc).mpr (hret hpc' hstart hreg)
    · rw [setWrite_of_ne s pc hne] at hpc' hstart
      exact h.returned w' hw' hpc' hstart hreg

theorem Account.put_lt {t : Nat} {s : Mux} {evs : List Event} (h : Account t s evs) {w : Nat}
    (hw : w ∈ putters evs) : w < s.begun := by
  obtain ⟨⟨w', p⟩, hp, rfl⟩ := List.mem_map.mp hw
  exact (h.put w' p hp).1

theorem Account.write {t : Nat} {s : Mux} {evs : List Event} (h : Account t s evs)
    (p : List UInt8) :
    Account t { s with
      writes := Function.update s.writes s.begun
        ⟨p, s.teed, (List.range s.teed).filter fun c => !(s.targets c).registered, .range []⟩
      begun := s.begun + 1 } evs := by
  have hold : ∀ w < s.begun + 1, w ≠ s.begun → w < s.begun := by
    intro w hw hne
    omega
  refine ⟨h.ranges.write p, ?_, h.nodup, ?_, ?_⟩
  · intro w q hq
    obtain ⟨hw, hp, hgone⟩ := h.put w q hq
    have hne : w ≠ s.begun := Nat.ne_of_lt hw
    simp only [Function.update_of_ne hne]
    exact ⟨hw.trans (Nat.lt_succ_self _), hp, hgone⟩
  · intro w hw hpc
    by_cases hnew : w = s.begun
    · subst hnew
      have hno : s.begun ∉ putters evs := fun hmem => lt_irrefl _ (h.put_lt hmem)
      simp [hno, WritePc.Visits]
    · simp only [Function.update_of_ne hnew] at hpc ⊢
      exact h.visits w (hold w hw hnew) hpc
  · intro w hw hpc hstart hreg
    by_cases hnew : w = s.begun
    · subst hnew
      simp at hpc
    · simp only [Function.update_of_ne hnew] at hpc hstart
      exact h.returned w (hold w hw hnew) hpc hstart hreg

/-- A `Write` takes the buffer of the target `t`. -/
theorem Account.take {t : Nat} {s : Mux} {evs : List Event} (h : Account t s evs) {w : Nat}
    {visited : List Nat} (hw : w < s.begun) (hpc : (s.writes w).pc = .range visited)
    (hgone : t ∉ (s.writes w).gone) (hnew : t ∉ visited) (buf : List UInt8)
    (hr : Ranges (s.setWrite w (.send t buf visited))) :
    Account t (s.setWrite w (.send t buf visited)) (evs ++ [.put w (s.writes w).p]) := by
  have hps : putters (evs ++ [.put w (s.writes w).p]) = putters evs ++ [w] := by
    simp [putters]
  have hnot : w ∉ putters evs := by
    rw [h.visits w hw (by simp [hpc]), hpc]
    exact hnew
  refine ⟨hr, ?_, ?_, ?_, ?_⟩
  · intro w' p hp
    rw [puts_put, List.mem_append, List.mem_singleton] at hp
    rw [setWrite_p, setWrite_gone]
    rcases hp with hp | hp
    · exact h.put w' p hp
    · obtain ⟨rfl, rfl⟩ := Prod.mk.inj hp
      exact ⟨hw, rfl, hgone⟩
  · rw [hps]
    exact List.nodup_append.mpr ⟨h.nodup, List.nodup_singleton w,
      fun a ha b hb => fun hab => hnot (by rwa [hab, List.mem_singleton.mp hb] at ha)⟩
  · intro w' hw' hpc'
    rw [hps, List.mem_append, List.mem_singleton]
    by_cases hne : w' = w
    · subst hne
      simp [WritePc.Visits]
    · rw [setWrite_of_ne s _ hne] at hpc' ⊢
      simp only [hne, or_false]
      exact h.visits w' hw' hpc'
  · intro w' hw' hpc' hstart hreg
    rw [hps]
    by_cases hne : w' = w
    · subst hne
      rw [setWrite_target_self] at hpc'
      cases hpc'
    · rw [setWrite_of_ne s _ hne] at hpc' hstart
      exact List.mem_append_left _ (h.returned w' hw' hpc' hstart hreg)

theorem registered_setSlot (s : Mux) (c t : Nat) (slot : Option (List UInt8)) :
    ((s.setTarget c { s.targets c with slot := slot }).targets t).registered = true →
      (s.targets t).registered = true := by
  by_cases h : t = c
  · subst h
    simp [Target.registered]
  · rw [setTarget_of_ne s _ h]
    exact id

theorem step_account {t : Nat} {s s' : Mux} {a : Action} {evs : List Event}
    (h : Account t s evs) (hs : step s a = some s') : Account t s' (evs ++ seen t s a) := by
  have hr : Ranges s' := step_ranges h.ranges hs
  obtain ⟨rfl, rfl⟩ | ⟨c, b, x, rfl, -, hx, rfl⟩ | ⟨p, rfl, rfl⟩ |
    ⟨w, c, visited, rfl, hpc, hw, hc, rfl⟩ | ⟨w, c, buf, visited, rfl, hpc, hw, -, rfl⟩ |
    ⟨w, visited, rfl, hpc, hw, hdone, rfl⟩ := step_cases hs
  · refine h.same hr (by simp [seen]) rfl rfl ?_
    simp only [h.ranges.tee_targets]
    exact id
  · refine h.same hr (puts_target evs t s c b) rfl rfl ?_
    by_cases hct : t = c
    · subst hct
      rw [setTarget_self]
      exact Target.step_registered hx
    · rw [setTarget_of_ne s x hct]
      exact id
  · rw [seen_write, List.append_nil]
    exact h.write p
  · have hslot : Account t (s.setTarget c { s.targets c with slot := none }) evs :=
      h.same (h.ranges.setSlot hc.1 none) rfl rfl rfl (registered_setSlot s c t none)
    by_cases hct : t = c
    · subst hct
      rw [seen_take]
      exact hslot.take hw hpc hc.2.1 hc.2.2 _ hr
    · rw [seen_take_of_ne s w hct, List.append_nil]
      refine hslot.setWrite hw (by simp [Mux.setTarget, hpc]) hr (fun _ => ?_) (by simp)
      simp [Mux.setTarget, hpc, WritePc.Visits, hct]
  · have hteed : c < s.teed := h.ranges.target w hw c (by rw [hpc]; rfl)
    have hslot : Account t (s.setTarget c { s.targets c with slot := some buf }) evs :=
      h.same (h.ranges.setSlot hteed (some buf)) rfl rfl rfl (registered_setSlot s c t _)
    rw [seen_send, List.append_nil]
    refine hslot.setWrite hw (by simp [Mux.setTarget, hpc]) hr (fun _ => ?_) (by simp)
    simp [Mux.setTarget, hpc, WritePc.Visits]
  · rw [seen_finish, List.append_nil]
    refine h.setWrite hw (by simp [hpc]) hr (fun hne => absurd rfl hne) ?_
    intro _ hstart hreg
    have hgone : t ∉ (s.writes w).gone := by
      intro hmem
      have hfalse := (h.ranges.gone w hw t hmem).2
      rw [hreg] at hfalse
      cases hfalse
    rw [hpc]
    exact hdone t hstart hgone hreg

/-! ## The bytes that the writer gets -/

/-- What the writer has taken of the bytes `r` that the consumer has received. -/
def Target.Delivered (x : Target) (r : List UInt8) : Prop :=
  match x.consumer with
  | .select => x.written = r
  | .copying buf => x.written ++ buf = r
  | .canceling | .returned => x.written <+: r

theorem delivered_prefix_received {x : Target} {r : List UInt8} (h : x.Delivered r) :
    x.written <+: r := by
  cases hc : x.consumer with
  | select =>
    simp only [Target.Delivered, hc] at h
    rw [h]
  | copying buf =>
    simp only [Target.Delivered, hc] at h
    rw [← h]
    exact List.prefix_append _ _
  | canceling | returned =>
    simp only [Target.Delivered, hc] at h
    exact h

theorem delivered_target {t : Nat} {s : Mux} {evs : List Event} {b : TargetAction} {x : Target}
    (h : (s.targets t).Delivered (received evs).flatten) (hx : (s.targets t).step b = some x) :
    x.Delivered (received (evs ++ seen t s (.target t b))).flatten := by
  obtain ⟨o, rfl, -, rfl⟩ | ⟨buf, rfl, hc, hslot, rfl⟩ | ⟨rfl, hc, -, rfl⟩ |
    ⟨buf, rfl, hc, rfl⟩ | ⟨n, buf, rfl, hc, rfl⟩ | ⟨rfl, hc, -, rfl⟩ := Target.step_cases hx
  · rw [seen_target _ _ (by simp), List.append_nil]
    exact h
  · have hseen : seen t s (.target t .receive) = [.received buf] := by simp [seen, hslot]
    simp only [Target.Delivered, hc] at h
    rw [hseen, received_received, List.flatten_append, List.flatten_singleton]
    exact congrArg (· ++ buf) h
  · rw [seen_target _ _ (by simp), List.append_nil]
    simp only [Target.Delivered, hc] at h
    exact h ▸ List.prefix_refl _
  · rw [seen_target _ _ (by simp), List.append_nil]
    simp only [Target.Delivered, hc] at h
    exact h
  · rw [seen_target _ _ (by simp), List.append_nil]
    simp only [Target.Delivered, hc] at h
    rw [← h]
    exact (List.prefix_append_right_inj _).mpr (List.take_prefix n buf)
  · rw [seen_target _ _ (by simp), List.append_nil]
    simp only [Target.Delivered, hc] at h
    exact h

theorem delivered_setSlot (s : Mux) (c t : Nat) (slot : Option (List UInt8)) (r : List UInt8) :
    ((s.setTarget c { s.targets c with slot := slot }).targets t).Delivered r ↔
      (s.targets t).Delivered r := by
  by_cases h : t = c
  · subst h
    rw [setTarget_self]
    rfl
  · rw [setTarget_of_ne s _ h]

theorem step_delivered {t : Nat} {s s' : Mux} {a : Action} {evs : List Event} (hr : Ranges s)
    (h : (s.targets t).Delivered (received evs).flatten) (hs : step s a = some s') :
    (s'.targets t).Delivered (received (evs ++ seen t s a)).flatten := by
  obtain ⟨rfl, rfl⟩ | ⟨c, b, x, rfl, -, hx, rfl⟩ | ⟨p, rfl, rfl⟩ |
    ⟨w, c, visited, rfl, hpc, hw, -, rfl⟩ | ⟨w, c, buf, visited, rfl, hpc, hw, -, rfl⟩ |
    ⟨w, visited, rfl, hpc, hw, -, rfl⟩ := step_cases hs
  · simp only [hr.tee_targets, seen_tee, List.append_nil]
    exact h
  · by_cases hct : t = c
    · subst hct
      rw [setTarget_self]
      exact delivered_target h hx
    · rw [seen_target_of_ne s b hct, List.append_nil, setTarget_of_ne s x hct]
      exact h
  · rw [seen_write, List.append_nil]
    exact h
  · have hsame : received (evs ++ seen t s (.take w c)) = received evs := by
      by_cases hct : t = c
      · subst hct
        rw [seen_take, received_put]
      · rw [seen_take_of_ne s w hct, List.append_nil]
    rw [hsame]
    exact (delivered_setSlot s c t none _).mpr h
  · rw [seen_send, List.append_nil]
    exact (delivered_setSlot s c t (some buf) _).mpr h
  · rw [seen_finish, List.append_nil]
    exact h

/-- What the history of a target tells in every run. -/
structure Recorded (t : Nat) (s : Mux) (evs : List Event) : Prop where
  account : Account t s evs
  delivered : (s.targets t).Delivered (received evs).flatten

theorem recorded_init (t : Nat) : Recorded t system.init [] := ⟨account_init t, rfl⟩

theorem step_recorded {t : Nat} {s s' : Mux} {a : Action} {evs : List Event}
    (h : Recorded t s evs) (hs : step s a = some s') : Recorded t s' (evs ++ seen t s a) :=
  ⟨step_account h.account hs, step_delivered h.account.ranges h.delivered hs⟩

theorem recorded_of_steps {ok : Mux → Action → Prop} {tr : List Action} {s : Mux}
    (h : Steps system ok system.init tr s) (t : Nat) : Recorded t s (eventsAt t tr) :=
  h.history_invariant (I := Recorded t) (fun _ _ _ _ hi _ hs => step_recorded hi hs)
    (recorded_init t)

end Bigmachine.Tee
