import Bigmachine.Tee.Asynchronous
import Bigmachine.Tee.History
import Mathlib.Data.List.DropRight

/-!
# One producer

When all `Write`s come from one goroutine, the buffer in a target's channel is a function of
the target's history: with `B` the buffer size, it holds the last `max B (len p)` bytes of
what was written since the consumer's last receive, where `p` is the latest `Write`
(`pending`). A `Write` of more than `B` bytes leaves more than `B` bytes, which the next
`Write` cuts down again (`push_rtake`).

The consumer therefore gets the bytes in the order in which they were written and none
twice, and between two receives nothing is lost unless more than `B` bytes were written
(`buffering_exact`).
-/

namespace Bigmachine.Tee

open Transition

/-- The `Write`s since the last receive of a history. -/
def since (evs : List Event) : List (List UInt8) :=
  evs.foldl (fun ps e =>
    match e with
    | .put _ p => ps ++ [p]
    | .received _ => []) []

@[simp] theorem since_put (evs : List Event) (w : Nat) (p : List UInt8) :
    since (evs ++ [.put w p]) = since evs ++ [p] := by
  simp [since]

@[simp] theorem since_received (evs : List Event) (buf : List UInt8) :
    since (evs ++ [.received buf]) = [] := by
  simp [since]

/-! ## The buffer as a function of the history -/

/-- The buffer after the `Write`s `ps`, on a channel that was empty before them. -/
def pending (ps : List (List UInt8)) : Option (List UInt8) :=
  ps.getLast?.map fun p => ps.flatten.rtake (max bufferSize p.length)

/-- What a `Write` of `p` leaves of a buffer that holds the last `n` bytes of `c`. -/
theorem push_rtake (c p : List UInt8) {n : Nat} (hn : bufferSize ≤ n) :
    push (c.rtake n) p = (c ++ p).rtake (max bufferSize p.length) := by
  unfold push List.rtake
  generalize bufferSize = b at hn
  have hcut : c.length + p.length - max b p.length ≤ c.length := by omega
  have hdrop : ∀ i j, (i = j ∨ c.length ≤ i ∧ c.length ≤ j) → c.drop i = c.drop j := by
    rintro i j (rfl | ⟨hi, hj⟩)
    · rfl
    · rw [List.drop_eq_nil_of_le hi, List.drop_eq_nil_of_le hj]
  rw [List.length_append, List.drop_append_of_le_length hcut, List.drop_drop, List.length_drop]
  congr 1
  apply hdrop
  omega

theorem pending_push (ps : List (List UInt8)) (p : List UInt8) :
    pending (ps ++ [p]) = some (push ((pending ps).getD []) p) := by
  have hbuf : ∃ n, bufferSize ≤ n ∧ (pending ps).getD [] = ps.flatten.rtake n := by
    cases hlast : ps.getLast? with
    | none =>
      rw [List.getLast?_eq_none_iff] at hlast
      subst hlast
      exact ⟨bufferSize, le_rfl, rfl⟩
    | some q => exact ⟨max bufferSize q.length, le_max_left _ _, by simp [pending, hlast]⟩
  obtain ⟨n, hn, hbuf⟩ := hbuf
  rw [hbuf, push_rtake _ _ hn]
  simp [pending]

/-- Every buffer that was received is the one that was pending. -/
def Exact (evs : List Event) : Prop :=
  ∀ xs buf ys, evs = xs ++ .received buf :: ys → pending (since xs) = some buf

theorem exact_nil : Exact [] := by
  intro xs buf ys h
  simp at h

theorem Exact.snoc {evs : List Event} (h : Exact evs) {e : Event}
    (he : ∀ buf, e = .received buf → pending (since evs) = some buf) : Exact (evs ++ [e]) := by
  intro xs buf ys hsplit
  rcases List.eq_nil_or_concat ys with rfl | ⟨ys, e', rfl⟩
  · obtain ⟨rfl, hlast⟩ := List.append_inj' hsplit rfl
    exact he buf (List.singleton_inj.mp hlast)
  · have hcut : evs ++ [e] = (xs ++ .received buf :: ys) ++ [e'] := by simpa using hsplit
    exact h xs buf ys (List.append_inj' hcut rfl).1

theorem rtake_min (l : List UInt8) (n : Nat) : l.rtake (min l.length n) = l.rtake n := by
  unfold List.rtake
  congr 1
  omega

theorem pending_suffix {ps : List (List UInt8)} {buf : List UInt8} (h : pending ps = some buf) :
    buf <:+ ps.flatten := by
  obtain ⟨p, -, rfl⟩ := Option.map_eq_some_iff.mp h
  exact List.drop_suffix _ _

/-- At most `B` bytes are kept as they are. -/
theorem pending_of_le {ps : List (List UInt8)} {buf : List UInt8} (h : pending ps = some buf)
    (hle : ps.flatten.length ≤ bufferSize) : buf = ps.flatten := by
  obtain ⟨p, -, rfl⟩ := Option.map_eq_some_iff.mp h
  have hzero : ps.flatten.length - max bufferSize p.length = 0 :=
    Nat.sub_eq_zero_of_le (hle.trans (le_max_left _ _))
  rw [List.rtake, hzero, List.drop_zero]

/-- What was received, and what was written since, is a subsequence of what was written. -/
theorem Exact.sublist {evs : List Event} (h : Exact evs) :
    ((Tee.received evs).flatten ++ (since evs).flatten).Sublist
      ((puts evs).map Prod.snd).flatten := by
  induction evs using List.reverseRecOn with
  | nil => exact List.Sublist.refl _
  | append_singleton evs e ih =>
    have hprev : Exact evs := by
      intro xs buf ys hsplit
      exact h xs buf (ys ++ [e]) (by rw [hsplit]; simp)
    cases e with
    | put w p =>
      rw [received_put, since_put, puts_put]
      simpa [← List.append_assoc] using (ih hprev).append (List.Sublist.refl p)
    | received buf =>
      have hbuf : buf <:+ (since evs).flatten := pending_suffix (h evs buf [] rfl)
      rw [received_received, since_received, puts_received]
      simpa using ((List.Sublist.refl _).append hbuf.sublist).trans (ih hprev)

/-! ## Runs with one producer -/

/-- A `Write` begins when the earlier ones have returned. -/
def OneProducer (s : Mux) : Action → Prop
  | .write _ => ∀ w < s.begun, (s.writes w).pc = .returned
  | _ => True

instance (s : Mux) : (a : Action) → Decidable (OneProducer s a)
  | .write _ => inferInstanceAs (Decidable (∀ w < s.begun, (s.writes w).pc = .returned))
  | .tee | .target _ _ | .take _ _ | .send _ | .finish _ => isTrue trivial

/-- Only the last `Write` can be in progress. -/
def Sequential (s : Mux) : Prop :=
  ∀ w < s.begun, (s.writes w).pc ≠ .returned → w + 1 = s.begun

theorem Sequential.setWrite {s : Mux} (h : Sequential s) {w : Nat} (hw : w < s.begun)
    (hpc : (s.writes w).pc ≠ .returned) (pc : WritePc) : Sequential (s.setWrite w pc) := by
  intro w' hw' hpc'
  by_cases hne : w' = w
  · subst hne
    exact h w' hw hpc
  · rw [setWrite_of_ne s pc hne] at hpc'
    exact h w' hw' hpc'

theorem step_sequential {s s' : Mux} {a : Action} (h : Sequential s) (hok : OneProducer s a)
    (hs : step s a = some s') : Sequential s' := by
  obtain ⟨-, rfl⟩ | ⟨c, b, x, -, -, -, rfl⟩ | ⟨p, rfl, rfl⟩ |
    ⟨w, c, visited, -, hpc, hw, -, rfl⟩ | ⟨w, c, buf, visited, -, hpc, hw, -, rfl⟩ |
    ⟨w, visited, -, hpc, hw, -, rfl⟩ := step_cases hs
  · exact h
  · exact h
  · intro w hw hpc
    by_cases hnew : w = s.begun
    · rw [hnew]
    · simp only [Function.update_of_ne hnew] at hpc
      have hlt : w < s.begun := by
        dsimp only at hw
        omega
      exact absurd (hok w hlt) hpc
  · have hmid : Sequential (s.setTarget c { s.targets c with slot := none }) := h
    exact hmid.setWrite hw (by simp [Mux.setTarget, hpc]) _
  · have hmid : Sequential (s.setTarget c { s.targets c with slot := some buf }) := h
    exact hmid.setWrite hw (by simp [Mux.setTarget, hpc]) _
  · exact h.setWrite hw (by simp [hpc]) _

theorem Sequential.exclusive {s s' : Mux} {a : Action} (h : Sequential s)
    (hs : step s a = some s') : Exclusive s a := by
  obtain ⟨rfl, -⟩ | ⟨c, b, x, rfl, -⟩ | ⟨p, rfl, -⟩ | ⟨w, c, visited, rfl, hpc, hw, -, -⟩ |
    ⟨w, c, buf, visited, rfl, -⟩ | ⟨w, visited, rfl, -⟩ := step_cases hs
  case inr.inr.inr.inl =>
    intro w' hw' hne htarget
    have hlast : w + 1 = s.begun := h w hw (by simp [hpc])
    have hlast' : w' + 1 = s.begun := by
      refine h w' hw' ?_
      intro hret
      rw [hret] at htarget
      cases htarget
    omega
  all_goals trivial

/-! ## The invariant -/

/-- The buffer of the target `t` is in the channel, or in the hands of one `Write`. -/
structure Buffered (t : Nat) (s : Mux) (evs : List Event) : Prop where
  slot : (∀ w < s.begun, (s.writes w).pc.buffer t = none) →
    (s.targets t).slot = pending (since evs)
  held : ∀ w < s.begun, ∀ buf, (s.writes w).pc.buffer t = some buf →
    pending (since evs) = some buf
  sorted : (putters evs).Pairwise (· < ·)
  received : Exact evs

theorem buffered_init (t : Nat) : Buffered t system.init [] :=
  ⟨fun _ => rfl, fun _ hw => absurd hw (Nat.not_lt_zero _), List.Pairwise.nil, exact_nil⟩

/-- The step changes nothing at the target `t`. -/
theorem Buffered.frame {t : Nat} {s s' : Mux} {evs : List Event} (h : Buffered t s evs)
    (hx : (s'.targets t).slot = (s.targets t).slot)
    (hw : ∀ w buf, (w < s'.begun ∧ (s'.writes w).pc.buffer t = some buf) ↔
      (w < s.begun ∧ (s.writes w).pc.buffer t = some buf)) : Buffered t s' evs := by
  refine ⟨?_, ?_, h.sorted, h.received⟩
  · intro hfree
    rw [hx]
    refine h.slot fun w hlt => ?_
    cases hbuf : (s.writes w).pc.buffer t with
    | none => rfl
    | some buf =>
      obtain ⟨hlt', hbuf'⟩ := (hw w buf).mpr ⟨hlt, hbuf⟩
      rw [hfree w hlt'] at hbuf'
      cases hbuf'
  · intro w hlt buf hbuf
    obtain ⟨hlt', hbuf'⟩ := (hw w buf).mp ⟨hlt, hbuf⟩
    exact h.held w hlt' buf hbuf'

theorem target_of_buffer {pc : WritePc} {t : Nat} {buf : List UInt8}
    (h : pc.buffer t = some buf) : pc.target = some t := by
  cases pc with
  | send c b visited =>
    simp only [WritePc.buffer, Option.ite_none_right_eq_some] at h
    rw [← h.1]
    rfl
  | range visited => cases h
  | returned => cases h

theorem buffer_of_target_ne {pc : WritePc} {t : Nat} (h : pc.target ≠ some t) :
    pc.buffer t = none := by
  cases hbuf : pc.buffer t with
  | none => rfl
  | some buf => exact absurd (target_of_buffer hbuf) h

theorem Buffered.receive {t : Nat} {s : Mux} {evs : List Event} (h : Buffered t s evs)
    (hfree : Free s) {buf : List UInt8} (hslot : (s.targets t).slot = some buf) :
    Buffered t (s.setTarget t { s.targets t with slot := none, consumer := .copying buf })
      (evs ++ [.received buf]) := by
  have hnone : ∀ w < s.begun, (s.writes w).pc.buffer t = none := by
    intro w hw
    refine buffer_of_target_ne fun htarget => ?_
    rw [hfree.empty w hw t htarget] at hslot
    cases hslot
  have hbuf : pending (since evs) = some buf := (h.slot hnone).symm.trans hslot
  refine ⟨?_, ?_, ?_, ?_⟩
  · intro _
    rw [setTarget_self, since_received]
    rfl
  · intro w hw buf' hbuf'
    have hnot := (hnone w hw).symm.trans hbuf'
    cases hnot
  · rw [putters, puts_received]
    exact h.sorted
  · refine h.received.snoc fun buf' he => ?_
    cases he
    exact hbuf

theorem Buffered.target {t : Nat} {s : Mux} {evs : List Event} (h : Buffered t s evs)
    (hfree : Free s) {b : TargetAction} {x : Target} (hx : (s.targets t).step b = some x) :
    Buffered t (s.setTarget t x) (evs ++ seen t s (.target t b)) := by
  have hsame : x.slot = (s.targets t).slot → Buffered t (s.setTarget t x) evs := by
    intro hslot
    exact h.frame (by rw [setTarget_self, hslot]) fun _ _ => Iff.rfl
  obtain ⟨o, rfl, -, rfl⟩ | ⟨buf, rfl, hc, hslot, rfl⟩ | ⟨rfl, hc, -, rfl⟩ |
    ⟨buf, rfl, hc, rfl⟩ | ⟨n, buf, rfl, hc, rfl⟩ | ⟨rfl, hc, -, rfl⟩ := Target.step_cases hx
  case inr.inl =>
    have hseen : seen t s (.target t .receive) = [.received buf] := by simp [seen, hslot]
    rw [hseen]
    exact h.receive hfree hslot
  all_goals
    rw [seen_target _ _ (by simp), List.append_nil]
    exact hsame rfl

theorem Buffered.take {t : Nat} {s : Mux} {evs : List Event} (h : Buffered t s evs)
    (ha : Account t s evs) (hseq : Sequential s) {w : Nat} {visited : List Nat}
    (hw : w < s.begun) (hpc : (s.writes w).pc = .range visited) (hnew : t ∉ visited) :
    Buffered t ((s.setTarget t { s.targets t with slot := none }).setWrite w
      (.send t (push ((s.targets t).slot.getD []) (s.writes w).p) visited))
      (evs ++ [.put w (s.writes w).p]) := by
  have hlast : w + 1 = s.begun := hseq w hw (by simp [hpc])
  have hnone : ∀ w' < s.begun, (s.writes w').pc.buffer t = none := by
    intro w' hw'
    by_cases hret : (s.writes w').pc = .returned
    · rw [hret]
      rfl
    · obtain rfl : w' = w := by
        have hlast' := hseq w' hw' hret
        omega
      rw [hpc]
      rfl
  have hslot : (s.targets t).slot = pending (since evs) := h.slot hnone
  have hputters : putters (evs ++ [.put w (s.writes w).p]) = putters evs ++ [w] := by
    simp [putters]
  refine ⟨?_, ?_, ?_, ?_⟩
  · intro hfree
    have hown := hfree w hw
    rw [setWrite_target_self, WritePc.buffer, if_pos rfl] at hown
    cases hown
  · intro w' hw' buf hbuf
    by_cases hne : w' = w
    · subst hne
      rw [setWrite_target_self, WritePc.buffer, if_pos rfl] at hbuf
      rw [since_put, pending_push, ← hslot, hbuf]
    · rw [setWrite_of_ne _ _ hne] at hbuf
      have hnot := (hnone w' hw').symm.trans hbuf
      cases hnot
  · rw [hputters, List.pairwise_append]
    refine ⟨h.sorted, List.pairwise_singleton _ w, ?_⟩
    intro w' hw' v hv
    rw [List.mem_singleton.mp hv]
    have hlt : w' < s.begun := ha.put_lt hw'
    have hne : w' ≠ w := by
      rintro rfl
      rw [ha.visits w' hw (by simp [hpc]), hpc] at hw'
      exact hnew hw'
    omega
  · exact h.received.snoc fun _ he => (by cases he)

theorem Buffered.send {t : Nat} {s : Mux} {evs : List Event} (h : Buffered t s evs) {w : Nat}
    {buf : List UInt8} {visited : List Nat} (hw : w < s.begun)
    (hpc : (s.writes w).pc = .send t buf visited) :
    Buffered t ((s.setTarget t { s.targets t with slot := some buf }).setWrite w
      (.range (t :: visited))) evs := by
  have hbuf : (s.writes w).pc.buffer t = some buf := by
    rw [hpc]
    exact if_pos rfl
  refine ⟨?_, ?_, h.sorted, h.received⟩
  · intro _
    have hpending := h.held w hw buf hbuf
    simpa [Mux.setWrite] using hpending.symm
  · intro w' hw' buf' hbuf'
    by_cases hne : w' = w
    · subst hne
      rw [setWrite_target_self] at hbuf'
      cases hbuf'
    · rw [setWrite_of_ne _ _ hne] at hbuf'
      exact h.held w' hw' buf' hbuf'

/-- A `Write` goes on that has not had the buffer of the target `t` and does not take it. -/
theorem Buffered.setWrite {t : Nat} {s : Mux} {evs : List Event} (h : Buffered t s evs) {w : Nat}
    {pc : WritePc} (hold : (s.writes w).pc.buffer t = none) (hnew : pc.buffer t = none) :
    Buffered t (s.setWrite w pc) evs := by
  refine h.frame rfl fun w' buf => and_congr_right fun _ => ?_
  by_cases hne : w' = w
  · subst hne
    rw [setWrite_target_self, hold, hnew]
  · rw [setWrite_of_ne s pc hne]

theorem Buffered.setOther {t c : Nat} {s : Mux} {evs : List Event} (h : Buffered t s evs)
    (hne : t ≠ c) (x : Target) : Buffered t (s.setTarget c x) evs :=
  h.frame (congrArg Target.slot (setTarget_of_ne s x hne)) fun _ _ => Iff.rfl

theorem step_buffered {t : Nat} {s s' : Mux} {a : Action} {evs : List Event}
    (h : Buffered t s evs) (ha : Account t s evs) (hfree : Free s) (hseq : Sequential s)
    (hs : step s a = some s') : Buffered t s' (evs ++ seen t s a) := by
  obtain ⟨rfl, rfl⟩ | ⟨c, b, x, rfl, -, hx, rfl⟩ | ⟨p, rfl, rfl⟩ |
    ⟨w, c, visited, rfl, hpc, hw, hc, rfl⟩ | ⟨w, c, buf, visited, rfl, hpc, hw, -, rfl⟩ |
    ⟨w, visited, rfl, hpc, hw, -, rfl⟩ := step_cases hs
  · rw [seen_tee, List.append_nil]
    exact h.frame (congrArg Target.slot (congrFun ha.ranges.tee_targets t)) fun _ _ => Iff.rfl
  · by_cases hct : t = c
    · subst hct
      exact h.target hfree hx
    · rw [seen_target_of_ne s b hct, List.append_nil]
      exact h.setOther hct x
  · rw [seen_write, List.append_nil]
    refine h.frame rfl fun w buf => ?_
    by_cases hnew : w = s.begun
    · subst hnew
      simp [WritePc.buffer]
    · simp only [Function.update_of_ne hnew]
      exact and_congr_left fun _ => by omega
  · by_cases hct : t = c
    · subst hct
      rw [seen_take]
      exact h.take ha hseq hw hpc hc.2.2
    · rw [seen_take_of_ne s w hct, List.append_nil]
      refine (h.setOther hct _).setWrite ?_ (if_neg (Ne.symm hct))
      simp [Mux.setTarget, hpc, WritePc.buffer]
  · rw [seen_send, List.append_nil]
    by_cases hct : t = c
    · subst hct
      exact h.send hw hpc
    · refine (h.setOther hct _).setWrite ?_ rfl
      simp [Mux.setTarget, hpc, WritePc.buffer, Ne.symm hct]
  · rw [seen_finish, List.append_nil]
    refine h.setWrite ?_ rfl
    rw [hpc]
    rfl

/-- What holds of the target `t` in a run with one producer. -/
structure Produced (t : Nat) (s : Mux) (evs : List Event) : Prop where
  recorded : Recorded t s evs
  free : Free s
  sequential : Sequential s
  buffered : Buffered t s evs

theorem produced_of_steps {tr : List Action} {s : Mux}
    (h : Steps system OneProducer system.init tr s) (t : Nat) :
    Produced t s (eventsAt t tr) := by
  refine h.history_invariant (I := Produced t) ?_
    ⟨recorded_init t, free_init, fun _ hw => absurd hw (Nat.not_lt_zero _), buffered_init t⟩
  intro s a s' evs hi hok hs
  have hs' : step s a = some s' := hs
  exact ⟨step_recorded hi.recorded hs', step_free hi.free (hi.sequential.exclusive hs') hs',
    step_sequential hi.sequential hok hs',
    step_buffered hi.buffered hi.recorded.account hi.free hi.sequential hs'⟩

/-! ## Exact buffering -/

/-- **Buffering is exact for one producer.** In every run in which all `Write`s come from one
goroutine, and for every target `t`, with `evs` the history of the target:

* the `Write`s in `evs` are there in the order in which they were made, with their own
  bytes, and as long as `t` is not canceled none that began after the call of `Tee` and has
  returned is missing;
* when no `Write` has the buffer in its hands, in particular after each `Write`, the channel
  holds the last `min T (max B (len p))` bytes of the `T` bytes written since the last
  receive, where `p` is the latest `Write`; it is empty when nothing was written since;
* the writer has got, in order, a subsequence of the bytes written, and, unless it has
  failed, all that the consumer has received but for the buffer being copied;
* a buffer received after at most `B` bytes were written holds all of them;
* no `Write` waits, and each can complete by its own steps alone. -/
theorem buffering_exact {tr : List Action} {s : Mux}
    (h : Steps system OneProducer system.init tr s) (t : Nat) :
    let evs := eventsAt t tr
    ((putters evs).Pairwise (· < ·) ∧ (∀ w p, (w, p) ∈ puts evs → p = (s.writes w).p) ∧
      ((s.targets t).registered = true → ∀ w < s.begun, t < (s.writes w).start →
        (s.writes w).pc = .returned → w ∈ putters evs)) ∧
    ((∀ w < s.begun, (s.writes w).pc.target ≠ some t) →
      (since evs = [] → (s.targets t).slot = none) ∧
      ∀ ps p, since evs = ps ++ [p] →
        (s.targets t).slot = some ((ps ++ [p]).flatten.rtake
          (min (ps ++ [p]).flatten.length (max bufferSize p.length)))) ∧
    ((s.targets t).written.Sublist ((puts evs).map Prod.snd).flatten ∧
      ((s.targets t).consumer = .select → (s.targets t).written = (received evs).flatten) ∧
      ∀ buf, (s.targets t).consumer = .copying buf →
        (s.targets t).written ++ buf = (received evs).flatten) ∧
    (∀ xs buf ys, evs = xs ++ .received buf :: ys → (since xs).flatten.length ≤ bufferSize →
      buf = (since xs).flatten) ∧
    ∀ w < s.begun, ¬ Waiting s w ∧ CompletesAlone s w := by
  intro evs
  have hp : Produced t s evs := produced_of_steps h t
  have hdel := hp.recorded.delivered
  refine ⟨⟨hp.buffered.sorted, ?_, ?_⟩, ?_, ⟨?_, ?_, ?_⟩, ?_, fun w hw => hp.free.not_waiting hw⟩
  · intro w p hput
    exact (hp.recorded.account.put w p hput).2.1
  · intro hreg w hw hstart hret
    exact hp.recorded.account.returned w hw hret hstart hreg
  · intro hidle
    have hslot := hp.buffered.slot fun w hw => buffer_of_target_ne (hidle w hw)
    refine ⟨fun hnil => ?_, fun ps p hps => ?_⟩
    · rw [hslot, hnil]
      rfl
    · rw [hslot, hps, rtake_min]
      simp [pending]
  · have hall : (received evs).flatten.Sublist ((puts evs).map Prod.snd).flatten :=
      (List.sublist_append_left _ _).trans hp.buffered.received.sublist
    exact (delivered_prefix_received hdel).sublist.trans hall
  · intro hc
    rwa [Target.Delivered, hc] at hdel
  · intro buf hc
    rwa [Target.Delivered, hc] at hdel
  · intro xs buf ys hsplit hle
    exact pending_of_le (hp.buffered.received xs buf ys hsplit) hle

/-- The consumer receives the first of three `Write`s before the others are made. -/
def producerRun : List Action :=
  [.tee, .write [1], .take 0 0, .send 0, .finish 0, .target 0 .receive, .write [2, 3],
    .take 1 0, .send 1, .finish 1, .write [4], .take 2 0, .target 0 .copied, .send 2, .finish 2]

theorem buffering_exact_producerRun :
    ∃ s, Steps system OneProducer system.init producerRun s ∧
      (s.targets 0).slot = some ([2, 3, 4].rtake (min 3 (max bufferSize 1))) ∧
      (s.targets 0).written = [1] ∧ ¬ Waiting s 2 := by
  obtain ⟨s, hs, hbegun, hidle, hc⟩ := exists_steps system OneProducer system.init producerRun
    (fun s => s.begun = 3 ∧ (∀ w < s.begun, (s.writes w).pc.target ≠ some 0) ∧
      (s.targets 0).consumer = .select) (by decide +kernel)
  have hsince : since (eventsAt 0 producerRun) = [[2, 3]] ++ [[4]] := by decide +kernel
  have hreceived : (received (eventsAt 0 producerRun)).flatten = [1] := by decide +kernel
  obtain ⟨-, hslot, ⟨-, hwritten, -⟩, -, hwait⟩ := buffering_exact hs 0
  exact ⟨s, hs, (hslot hidle).2 _ _ hsince, (hwritten hc).trans hreceived,
    (hwait 2 (by omega)).1⟩

end Bigmachine.Tee
