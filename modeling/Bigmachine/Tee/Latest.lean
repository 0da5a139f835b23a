import Bigmachine.Tee.Buffering

/-!
# The latest bytes

A target that does not keep up loses bytes, but only old ones: with one producer, whenever a target
has nothing pending, the last bytes that its writer has got are the last bytes that were written,
as far as the buffer size reaches (`latest_delivered`).
-/

namespace Bigmachine.Tee

open Transition

/-! ## The ends of lists -/

/-- The end of a list after `p` was appended depends on its end before. -/
theorem rtake_append_congr {x y : List UInt8} {n : Nat} (h : x.rtake n = y.rtake n)
    (p : List UInt8) : (x ++ p).rtake n = (y ++ p).rtake n := by
  simp only [List.rtake_eq_reverse_take_reverse, List.reverse_append, List.take_append,
    List.reverse_inj] at h ⊢
  have hcut : ∀ z : List UInt8, z.reverse.take (n - p.reverse.length) =
      (z.reverse.take n).take (n - p.reverse.length) := by
    intro z
    rw [List.take_take, min_eq_left (Nat.sub_le _ _)]
  rw [hcut x, hcut y, h]

/-- Only the end of `y` counts for a shorter end. -/
theorem rtake_append_rtake (x y : List UInt8) {m n : Nat} (h : n ≤ m) :
    (x ++ y.rtake m).rtake n = (x ++ y).rtake n := by
  simp only [List.rtake_eq_reverse_take_reverse, List.reverse_append, List.reverse_reverse,
    List.take_append, List.take_take, min_eq_left h, List.length_take]
  by_cases hle : m ≤ y.reverse.length
  · rw [min_eq_left hle, Nat.sub_eq_zero_of_le h, Nat.sub_eq_zero_of_le (h.trans hle)]
  · rw [min_eq_right (by omega)]

/-! ## What gets through -/

/-- What was received and what was written since end like all that was written. -/
theorem Exact.latest {evs : List Event} (h : Exact evs) :
    ((received evs).flatten ++ (since evs).flatten).rtake bufferSize =
      ((puts evs).map Prod.snd).flatten.rtake bufferSize := by
  induction evs using List.reverseRecOn with
  | nil => rfl
  | append_singleton evs e ih =>
    have hprev : Exact evs := by
      intro xs buf ys hsplit
      exact h xs buf (ys ++ [e]) (by rw [hsplit]; simp)
    cases e with
    | put w p =>
      have hput := rtake_append_congr (ih hprev) p
      rw [received_put, since_put, puts_put]
      simpa using hput
    | received buf =>
      obtain ⟨p, -, hbuf⟩ := Option.map_eq_some_iff.mp (h evs buf [] rfl)
      rw [received_received, since_received, puts_received, ← ih hprev, ← hbuf]
      simpa using rtake_append_rtake (received evs).flatten (since evs).flatten
        (le_max_left bufferSize p.length)

/-- Nothing is on its way to the writer of the target `t`. -/
structure Idle (t : Nat) (s : Mux) : Prop where
  writes : ∀ w < s.begun, (s.writes w).pc.target ≠ some t
  slot : (s.targets t).slot = none
  consumer : (s.targets t).consumer = .select

theorem pending_eq_none {ps : List (List UInt8)} (h : pending ps = none) : ps = [] := by
  rwa [pending, Option.map_eq_none_iff, List.getLast?_eq_none_iff] at h

/-- What the writer has got when nothing is on its way. -/
theorem Produced.written {t : Nat} {s : Mux} {evs : List Event} (h : Produced t s evs)
    (hidle : Idle t s) :
    (s.targets t).written.rtake bufferSize =
      ((puts evs).map Prod.snd).flatten.rtake bufferSize := by
  have hslot := h.buffered.slot fun w hw => buffer_of_target_ne (hidle.writes w hw)
  have hnone : since evs = [] := pending_eq_none (hslot.symm.trans hidle.slot)
  have hdel := h.recorded.delivered
  rw [Target.Delivered, hidle.consumer] at hdel
  have hlatest := h.buffered.received.latest
  rw [hnone, List.flatten_nil, List.append_nil] at hlatest
  rw [hdel, hlatest]

/-- **The latest bytes get through.** In every run with one producer, when nothing is on its way to
the writer of the target `t`, the last bytes that this writer has got are the last that were written
to the target, as many as the buffer holds. -/
theorem latest_delivered {tr : List Action} {s : Mux}
    (h : Steps system OneProducer system.init tr s) (t : Nat) (hidle : Idle t s) :
    (s.targets t).written.rtake bufferSize =
      ((puts (eventsAt t tr)).map Prod.snd).flatten.rtake bufferSize :=
  (produced_of_steps h t).written hidle

/-- Two `Write`s, and the consumer gets both at once. -/
theorem latest_delivered_two_writes :
    ∃ s, Steps system OneProducer system.init
        [.tee, .write [1, 2], .take 0 0, .send 0, .finish 0, .write [3], .take 1 0, .send 1,
          .finish 1, .target 0 .receive, .target 0 .copied] s ∧
      (s.targets 0).written.rtake bufferSize = [1, 2, 3].rtake bufferSize := by
  obtain ⟨s, hs, hbegun, hwrites, hslot, hconsumer⟩ := exists_steps system OneProducer system.init
    [.tee, .write [1, 2], .take 0 0, .send 0, .finish 0, .write [3], .take 1 0, .send 1,
      .finish 1, .target 0 .receive, .target 0 .copied]
    (fun s => s.begun = 2 ∧ (∀ w < s.begun, (s.writes w).pc.target ≠ some 0) ∧
      (s.targets 0).slot = none ∧ (s.targets 0).consumer = .select) (by decide +kernel)
  have hputs : ((puts (eventsAt 0 [.tee, .write [1, 2], .take 0 0, .send 0, .finish 0, .write [3],
      .take 1 0, .send 1, .finish 1, .target 0 .receive, .target 0 .copied])).map
      Prod.snd).flatten = [1, 2, 3] := by decide +kernel
  exact ⟨s, hs, hputs ▸ latest_delivered hs 0 ⟨hwrites, hslot, hconsumer⟩⟩

end Bigmachine.Tee
