import Bigmachine.Machine.Tail
import Bigmachine.Tee.Latest

/-!
# The log of a local machine

The output of a local process goes to a write multiplexer (`Tee`). `Tail` of the local system adds
the writing end of a pipe to it, and hands the other end to the goroutine that relays the log
(`Machine.Tail`). The consumer of the multiplexer copies its buffers to the pipe; a write to the
pipe returns when all of it is read, or when the pipe is closed. When the context is done, `Tail`
cancels the forwarding and closes the pipe.

The multiplexer loses bytes when the relay is slow, and yet the sync marker is not lost: what gets
lost are old bytes, and the marker is the last line that a process prints. Once the process has
printed it, everything that is still under way can be delivered by steps of the consumer and the
relay alone, and then the relay has returned (`marker_relayed`).

The processes of the local system write to the multiplexer from one goroutine for each of standard
output and standard error. The results are for a process that uses one of them.
-/

namespace Bigmachine.Local.Tail

open Errors Io Transition
open Rpc (Bytes)
open Machine.Tail

/-! ## The system -/

/-- `evs` is the history of the target of `Tail`, `taken` is how much the relay has read of the
buffer that is being copied, and `closed` has the error with which the pipe was closed. -/
structure World where
  mux : Tee.Mux := {}
  evs : List Tee.Event := []
  relay : Relay
  taken : Nat := 0
  closed : Option Err := none

/-- `receive` is a read of the relay, `closePipe` is `w.CloseWithError(ctx.Err())`, and in
`readErr` the relay reads that error. -/
inductive Action
  | mux (a : Tee.Action)
  | receive (n : Nat)
  | closePipe (e : Err)
  | readErr
  deriving DecidableEq

/-- The buffer that is being copied to the pipe. -/
def World.buffer (t : Nat) (s : World) : Bytes :=
  match (s.mux.targets t).consumer with
  | .copying buf => buf
  | _ => []

/-- How the copy of a buffer to the pipe ends: without an error when all of it was read, and with an
error when the pipe was closed. -/
def Piped (t : Nat) (s : World) : Tee.Action → Prop
  | .target c .copied => c = t → s.taken = (s.buffer t).length
  | .target c (.copyErr n) => c = t → s.closed.isSome = true ∧ n = s.taken
  | _ => True

instance (t : Nat) (s : World) : (a : Tee.Action) → Decidable (Piped t s a)
  | .target c .copied => inferInstanceAs (Decidable (c = t → s.taken = (s.buffer t).length))
  | .target c (.copyErr n) =>
    inferInstanceAs (Decidable (c = t → s.closed.isSome = true ∧ n = s.taken))
  | .target _ .cancel | .target _ .receive | .target _ .exit | .target _ .leave | .tee | .write _
  | .take _ _ | .send _ | .finish _ => isTrue trivial

/-- The step is the end of a copy to the pipe. -/
def endsCopy (t : Nat) : Tee.Action → Bool
  | .target c .copied | .target c (.copyErr _) => c = t
  | _ => false

def step (t : Nat) (s : World) : Action → Option World
  | .mux a =>
    if Piped t s a then
      (Tee.step s.mux a).map fun mux =>
        { s with
          mux
          evs := s.evs ++ Tee.seen t s.mux a
          taken := if endsCopy t a then 0 else s.taken }
    else none
  | .receive n =>
    if s.relay.ended = none ∧ s.closed = none ∧ 0 < n ∧ s.taken + n ≤ (s.buffer t).length then
      some { s with
        relay := s.relay.read (((s.buffer t).drop s.taken).take n)
        taken := s.taken + n }
    else none
  | .closePipe e =>
    if (s.mux.targets t).once = .finished ∧ s.closed = none then some { s with closed := some e }
    else none
  | .readErr =>
    match s.closed with
    | some e => if s.relay.ended = none then some { s with relay := s.relay.close e } else none
    | none => none

/-- `Tail` is the caller of `Tee` for the target `t`, and `w` is the writer of the relay. -/
def system (t : Nat) (w : Sink UInt8 Err) : System World Action := ⟨{ relay := { w := w } }, step t⟩

/-- All writes to the multiplexer come from one goroutine. -/
def OneProducer (s : World) : Action → Prop
  | .mux a => Tee.OneProducer s.mux a
  | _ => True

instance (s : World) : (a : Action) → Decidable (OneProducer s a)
  | .mux a => inferInstanceAs (Decidable (Tee.OneProducer s.mux a))
  | .receive _ | .closePipe _ | .readErr => isTrue trivial

/-! ## The bytes that the relay has read -/

def World.read (t : Nat) (s : World) : Bytes :=
  (s.mux.targets t).written ++ (s.buffer t).take s.taken

structure Inv (t : Nat) (w : Sink UInt8 Err) (s : World) : Prop where
  produced : Tee.Produced t s.mux s.evs
  taken : s.taken ≤ (s.buffer t).length
  scanned : s.relay.ended = none → After w (s.read t) s.relay

theorem produced_step {t : Nat} {s s' : Tee.Mux} {evs : List Tee.Event} {a : Tee.Action}
    (h : Tee.Produced t s evs) (hok : Tee.OneProducer s a) (hs : Tee.step s a = some s') :
    Tee.Produced t s' (evs ++ Tee.seen t s a) :=
  ⟨Tee.step_recorded h.recorded hs,
    Tee.step_free h.free (h.sequential.exclusive hs) hs,
    Tee.step_sequential h.sequential hok hs,
    Tee.step_buffered h.buffered h.recorded.account h.free h.sequential hs⟩

/-- What a step of the multiplexer does to the bytes at the target `t`. -/
theorem target_step {t : Nat} {s s' : Tee.Mux} {a : Tee.Action} (hr : Tee.Ranges s)
    (hs : Tee.step s a = some s') :
    ((s'.targets t).written = (s.targets t).written ∧
      (s'.targets t).consumer = (s.targets t).consumer ∧ endsCopy t a = false) ∨
    (∃ b x, a = .target t b ∧ (s.targets t).step b = some x ∧ s'.targets t = x) := by
  obtain ⟨rfl, rfl⟩ | ⟨c, b, x, rfl, -, hx, rfl⟩ | ⟨p, rfl, rfl⟩ |
    ⟨w, c, visited, rfl, -, -, -, rfl⟩ | ⟨w, c, buf, visited, rfl, -, -, -, rfl⟩ |
    ⟨w, visited, rfl, -, -, -, rfl⟩ := Tee.step_cases hs
  · refine Or.inl ?_
    simp [hr.tee_targets, endsCopy]
  · by_cases hc : t = c
    · subst hc
      exact Or.inr ⟨b, x, rfl, hx, Tee.setTarget_self ..⟩
    · refine Or.inl ?_
      rw [Tee.setTarget_of_ne s x hc]
      refine ⟨rfl, rfl, ?_⟩
      cases b <;> simp [endsCopy, Ne.symm hc]
  · exact Or.inl ⟨rfl, rfl, rfl⟩
  · refine Or.inl ?_
    by_cases hc : t = c
    · subst hc
      simp [Tee.Mux.setWrite, endsCopy]
    · simp [Tee.Mux.setWrite, Tee.setTarget_of_ne s _ hc, endsCopy]
  · refine Or.inl ?_
    by_cases hc : t = c
    · subst hc
      simp [Tee.Mux.setWrite, endsCopy]
    · simp [Tee.Mux.setWrite, Tee.setTarget_of_ne s _ hc, endsCopy]
  · exact Or.inl ⟨rfl, rfl, rfl⟩

/-- Steps of the multiplexer do not change what the relay has read. -/
theorem read_mux {t : Nat} {s : World} {mux : Tee.Mux} {a : Tee.Action} (hr : Tee.Ranges s.mux)
    (htaken : s.taken ≤ (s.buffer t).length) (hpiped : Piped t s a)
    (hs : Tee.step s.mux a = some mux) :
    let s' : World :=
      { s with
        mux
        evs := s.evs ++ Tee.seen t s.mux a
        taken := if endsCopy t a then 0 else s.taken }
    s'.read t = s.read t ∧ s'.taken ≤ (s'.buffer t).length := by
  intro s'
  rcases target_step (t := t) hr hs with ⟨hwritten, hconsumer, hends⟩ | ⟨b, x, rfl, hx, htarget⟩
  · have hbuffer : s'.buffer t = s.buffer t := by simp [World.buffer, s', hconsumer]
    simp only [World.read, hbuffer]
    simp [s', hwritten, hends, htaken]
  · have hcopy : ∀ buf, (s.mux.targets t).consumer = .copying buf → s.buffer t = buf := by
      intro buf hbuf
      simp [World.buffer, hbuf]
    have hnone : (∀ buf, (s.mux.targets t).consumer ≠ .copying buf) → s.taken = 0 := by
      intro hno
      have hbuffer : s.buffer t = [] := by
        cases hc : (s.mux.targets t).consumer with
        | copying buf => exact absurd hc (hno buf)
        | select | canceling | returned => simp [World.buffer, hc]
      simpa [hbuffer] using htaken
    obtain ⟨o, rfl, -, rfl⟩ | ⟨buf, rfl, hc, -, rfl⟩ | ⟨rfl, hc, -, rfl⟩ | ⟨buf, rfl, hc, rfl⟩ |
      ⟨n, buf, rfl, hc, rfl⟩ | ⟨rfl, hc, -, rfl⟩ := Tee.Target.step_cases hx
    · have hbuffer : s'.buffer t = s.buffer t := by simp [World.buffer, s', htarget]
      simp only [World.read, hbuffer]
      simp [s', htarget, endsCopy, htaken]
    · have hzero := hnone (by simp [hc])
      simp [World.read, s', htarget, endsCopy, hzero]
    · have hzero := hnone (by simp [hc])
      simp [World.read, s', htarget, endsCopy, hzero]
    · have hall := hpiped rfl
      rw [hcopy buf hc] at hall
      simp [World.read, s', htarget, endsCopy, hcopy buf hc, hall]
    · have hall := (hpiped rfl).2
      simp [World.read, s', htarget, endsCopy, hcopy buf hc, hall]
    · have hzero := hnone (by simp [hc])
      simp [World.read, s', htarget, endsCopy, hzero]

theorem inv_step {t : Nat} {w : Sink UInt8 Err} {s s' : World} {a : Action} (hi : Inv t w s)
    (hok : OneProducer s a) (hs : step t s a = some s') : Inv t w s' := by
  obtain ⟨hproduced, htaken, hscanned⟩ := hi
  cases a with
  | mux a =>
    simp only [step] at hs
    split at hs
    · rename_i hpiped
      obtain ⟨mux, hmux, rfl⟩ := Option.map_eq_some_iff.mp hs
      obtain ⟨hread, htaken'⟩ := read_mux hproduced.recorded.account.ranges htaken hpiped hmux
      refine ⟨produced_step hproduced hok hmux, htaken', fun hrun => ?_⟩
      rw [hread]
      exact hscanned hrun
    · cases hs
  | receive n =>
    simp only [step] at hs
    split at hs
    · rename_i hcond
      obtain ⟨hrun, -, -, hle⟩ := hcond
      cases hs
      refine ⟨hproduced, hle, fun _ => ?_⟩
      have hread : s.read t ++ ((s.buffer t).drop s.taken).take n =
          (s.mux.targets t).written ++ (s.buffer t).take (s.taken + n) := by
        rw [World.read, List.append_assoc, List.take_add]
      have hafter := (hscanned hrun).read (((s.buffer t).drop s.taken).take n)
      rw [hread] at hafter
      exact hafter
    · cases hs
  | closePipe e =>
    simp only [step] at hs
    split at hs
    · cases hs
      exact ⟨hproduced, htaken, hscanned⟩
    · cases hs
  | readErr =>
    simp only [step] at hs
    split at hs
    · rename_i e he
      split at hs
      · cases hs
        refine ⟨hproduced, htaken, fun hended => ?_⟩
        have hclosed := s.relay.close_ended e
        rw [hended] at hclosed
        cases hclosed
      · cases hs
    · cases hs

theorem inv_init (t : Nat) (w : Sink UInt8 Err) : Inv t w (system t w).init :=
  ⟨Tee.produced_of_steps (.nil _) t, Nat.zero_le _, fun _ => After.start w⟩

/-! ## The marker -/

/-- What was written to the target of `Tail`. -/
def World.log (s : World) : Bytes := ((Tee.puts s.evs).map Prod.snd).flatten

/-- The line with the marker is the last one that was written. -/
def Marked (s : World) : Prop := logSyncMarker ++ [newline] <:+ s.log

instance (s : World) : Decidable (Marked s) :=
  inferInstanceAs (Decidable (logSyncMarker ++ [newline] <:+ s.log))

theorem suffix_rtake {x l : Bytes} {n : Nat} (h : x <:+ l) (hn : x.length ≤ n) :
    x <:+ l.rtake n := by
  refine List.suffix_of_suffix_length_le h (List.drop_suffix _ _) ?_
  have hle := h.length_le
  rw [List.rtake, List.length_drop]
  omega

/-- A text whose last line is that with the marker ends the scan. -/
theorem verdict_of_marker (w : Sink UInt8 Err) {bs : Bytes}
    (h : logSyncMarker ++ [newline] <:+ bs) : verdict w (cut newline bs) ≠ none := by
  intro hnone
  obtain ⟨hall, -, -⟩ := of_verdict_eq_none hnone
  obtain ⟨before, rfl⟩ := h
  rw [cut_append_line before newline_not_mem_logSyncMarker] at hall
  have hlast := hall ((cut newline before).rest ++ logSyncMarker) (by simp)
  exact not_ordinary_of_marker _ (of_decide_eq_true hlast)

/-- When nothing is under way any more, the relay has seen the marker. -/
theorem Inv.ended {t : Nat} {w : Sink UInt8 Err} {s : World} (h : Inv t w s)
    (hidle : Tee.Idle t s.mux) (hmarked : Marked s) : s.relay.ended.isSome = true := by
  cases hrun : s.relay.ended with
  | some e => rfl
  | none =>
    have hread : s.read t = (s.mux.targets t).written := by
      simp [World.read, World.buffer, hidle.consumer]
    have hafter := h.scanned hrun
    rw [hread] at hafter
    have hlatest : logSyncMarker ++ [newline] <:+ s.log.rtake Tee.bufferSize :=
      suffix_rtake hmarked (by decide)
    rw [World.log, ← h.produced.written hidle] at hlatest
    have hwritten : logSyncMarker ++ [newline] <:+ (s.mux.targets t).written :=
      hlatest.trans (List.drop_suffix _ _)
    exact absurd (hafter.ended.symm.trans hrun) (verdict_of_marker w hwritten)

/-! ## Delivery -/

/-- A step of the consumer or of the relay. -/
def Delivers (t : Nat) (_ : World) : Action → Prop
  | .mux (.target c .receive) | .mux (.target c .copied) => c = t
  | .receive _ => True
  | _ => False

theorem Delivers.oneProducer {t : Nat} {s : World} {a : Action} (h : Delivers t s a) :
    OneProducer s a := by
  cases a with
  | mux a =>
    cases a with
    | target c b => trivial
    | tee | write | take | send | finish => exact h.elim
  | receive | closePipe | readErr => trivial

theorem Inv.delivered {t : Nat} {w : Sink UInt8 Err} {s u : World} {tr : List Action}
    (h : Inv t w s) (hs : Steps (system t w) (Delivers t) s tr u) : Inv t w u :=
  hs.invariant (I := Inv t w) (fun _ _ _ hi hok hstep => inv_step hi hok.oneProducer hstep) h

/-- The end of a copy of which all was read. -/
theorem step_copied {t : Nat} {s : World} (ht : t < s.mux.teed) {buf : Bytes}
    (hc : (s.mux.targets t).consumer = .copying buf) (htaken : s.taken = buf.length) :
    step t s (.mux (.target t .copied)) = some
      { s with
        mux := s.mux.setTarget t { s.mux.targets t with
          consumer := .select, written := (s.mux.targets t).written ++ buf }
        taken := 0 } := by
  have hpiped : Piped t s (.target t .copied) := fun _ => by simp [World.buffer, hc, htaken]
  simp [step, hpiped, Tee.step, ht, Tee.Target.step, hc, Tee.seen, endsCopy]

/-- A copy goes to its end, unless the relay returns. -/
theorem copy_ends {t : Nat} {w : Sink UInt8 Err} {s : World} (hi : Inv t w s)
    (ht : t < s.mux.teed) (hclosed : s.closed = none) {buf : Bytes}
    (hc : (s.mux.targets t).consumer = .copying buf) :
    ∃ tr u, Steps (system t w) (Delivers t) s tr u ∧ (u.relay.ended.isSome = true ∨
      (u.mux = s.mux.setTarget t { s.mux.targets t with
          consumer := .select, written := (s.mux.targets t).written ++ buf } ∧
        u.evs = s.evs ∧ u.closed = none)) := by
  have hbuffer : s.buffer t = buf := by simp [World.buffer, hc]
  cases hrun : s.relay.ended with
  | some e => exact ⟨[], s, .nil s, Or.inl (by rw [hrun]; rfl)⟩
  | none =>
    have hle := hi.taken
    rw [hbuffer] at hle
    rcases Nat.lt_or_eq_of_le hle with hlt | heq
    · -- the relay reads the rest of the buffer
      let v : World := { s with
        relay := s.relay.read ((buf.drop s.taken).take (buf.length - s.taken))
        taken := s.taken + (buf.length - s.taken) }
      have hread : step t s (.receive (buf.length - s.taken)) = some v := by
        simp only [step, hbuffer]
        exact if_pos ⟨hrun, hclosed, by omega, by omega⟩
      cases hrun' : v.relay.ended with
      | some e =>
        exact ⟨_, v, .single (a := Action.receive (buf.length - s.taken)) trivial hread,
          Or.inl (by rw [hrun']; rfl)⟩
      | none =>
        have hcopied := step_copied (s := v) ht hc (by dsimp only [v]; omega)
        exact ⟨_, _, .cons (a := Action.receive (buf.length - s.taken)) trivial hread
          (.single (a := Action.mux (.target t .copied)) rfl hcopied),
          Or.inr ⟨rfl, rfl, hclosed⟩⟩
    · exact ⟨_, _, .single (a := Action.mux (.target t .copied)) rfl (step_copied ht hc heq),
        Or.inr ⟨rfl, rfl, hclosed⟩⟩

/-- No `Write` has the buffer of the target in its hands. -/
def Unheld (t : Nat) (s : World) : Prop :=
  ∀ v < s.mux.begun, (s.mux.writes v).pc.target ≠ some t

instance (t : Nat) (s : World) : Decidable (Unheld t s) :=
  inferInstanceAs (Decidable (∀ v < s.mux.begun, (s.mux.writes v).pc.target ≠ some t))

/-- A buffer in the channel is received and copied. -/
theorem drain_select {t : Nat} {w : Sink UInt8 Err} {s : World} (hi : Inv t w s)
    (hclosed : s.closed = none) (hfree : Unheld t s)
    (hc : (s.mux.targets t).consumer = .select) (hmarked : Marked s) :
    ∃ tr u, Steps (system t w) (Delivers t) s tr u ∧ u.relay.ended.isSome = true := by
  cases hslot : (s.mux.targets t).slot with
  | none => exact ⟨[], s, .nil s, hi.ended ⟨hfree, hslot, hc⟩ hmarked⟩
  | some buf =>
    have ht : t < s.mux.teed := by
      by_contra hge
      rw [hi.produced.recorded.account.ranges.fresh t (not_lt.mp hge)] at hslot
      cases hslot
    let v : World := { s with
      mux := s.mux.setTarget t { s.mux.targets t with slot := none, consumer := .copying buf }
      evs := s.evs ++ [.received buf] }
    have hreceive : step t s (.mux (.target t .receive)) = some v := by
      have hpiped : Piped t s (.target t .receive) := trivial
      simp [step, hpiped, Tee.step, ht, Tee.Target.step, hc, hslot, Tee.seen, endsCopy, v]
    have hfirst : Steps (system t w) (Delivers t) s [.mux (.target t .receive)] v :=
      .single (a := Action.mux (.target t .receive)) rfl hreceive
    obtain ⟨tr, u, hu, hend | ⟨hmux, hevs, -⟩⟩ := copy_ends (hi.delivered hfirst) ht hclosed
      (show (v.mux.targets t).consumer = .copying buf by simp [v])
    · exact ⟨_, u, hfirst.append hu, hend⟩
    · refine ⟨_, u, hfirst.append hu, (hi.delivered (hfirst.append hu)).ended ?_ ?_⟩
      · rw [hmux]
        exact ⟨hfree, by simp [v], by simp⟩
      · rw [Marked, World.log, hevs, Tee.puts_received]
        exact hmarked

/-- **The marker is not lost.** In every run in which the process writes from one goroutine, after
the line with the marker was written last: when nothing is under way, the relay has returned; and as
long as the forwarding goes on, and no `Write` has the buffer in its hands, steps of the consumer
and the relay alone lead to a state in which it has. -/
theorem marker_relayed (t : Nat) (w : Sink UInt8 Err) (tr : List Action) (s : World)
    (h : Steps (system t w) OneProducer (system t w).init tr s) (hmarked : Marked s) :
    (Tee.Idle t s.mux → s.relay.ended.isSome = true) ∧
    (s.closed = none → Unheld t s →
      ((s.mux.targets t).consumer = .select ∨ ∃ buf, (s.mux.targets t).consumer = .copying buf) →
      ∃ tr' u, Steps (system t w) (Delivers t) s tr' u ∧ u.relay.ended.isSome = true) := by
  have hi : Inv t w s := h.invariant (I := Inv t w)
    (fun _ _ _ hi hok hstep => inv_step hi hok hstep) (inv_init t w)
  refine ⟨fun hidle => hi.ended hidle hmarked, fun hclosed hfree hconsumer => ?_⟩
  rcases hconsumer with hc | ⟨buf, hc⟩
  · exact drain_select hi hclosed hfree hc hmarked
  · have ht : t < s.mux.teed := by
      by_contra hge
      rw [hi.produced.recorded.account.ranges.fresh t (not_lt.mp hge)] at hc
      cases hc
    obtain ⟨tr₁, u, hu, hend | ⟨hmux, hevs, hclosed'⟩⟩ := copy_ends hi ht hclosed hc
    · exact ⟨tr₁, u, hu, hend⟩
    · obtain ⟨tr₂, v, hv, hend⟩ := drain_select (hi.delivered hu) hclosed'
        (by rw [Unheld, hmux]; exact hfree) (by rw [hmux]; simp)
        (by rw [Marked, World.log, hevs]; exact hmarked)
      exact ⟨_, v, hu.append hv, hend⟩

/-- The line with the marker comes while the buffer before it is being copied. -/
theorem marker_relayed_slow_relay :
    ∃ s tr u, Steps (system 0 {}) OneProducer (system 0 {}).init
        [.mux .tee, .mux (.write [104, 105, 10]), .mux (.take 0 0), .mux (.send 0),
          .mux (.finish 0), .mux (.target 0 .receive), .receive 1,
          .mux (.write (logSyncMarker ++ [newline])), .mux (.take 1 0), .mux (.send 1),
          .mux (.finish 1)] s ∧
      s.relay.ended = none ∧ Steps (system 0 {}) (Delivers 0) s tr u ∧
      u.relay.ended.isSome = true := by
  obtain ⟨s, hs, hmarked, hclosed, hfree, hconsumer, hrun⟩ := exists_steps (system 0 {}) OneProducer
    (system 0 {}).init
    [.mux .tee, .mux (.write [104, 105, 10]), .mux (.take 0 0), .mux (.send 0), .mux (.finish 0),
      .mux (.target 0 .receive), .receive 1, .mux (.write (logSyncMarker ++ [newline])),
      .mux (.take 1 0), .mux (.send 1), .mux (.finish 1)]
    (fun s => Marked s ∧ s.closed = none ∧ Unheld 0 s ∧
      (s.mux.targets 0).consumer = .copying [104, 105, 10] ∧ s.relay.ended = none)
    (by decide +kernel)
  obtain ⟨tr, u, hu, hend⟩ := (marker_relayed 0 {} _ s hs hmarked).2 hclosed hfree
    (Or.inr ⟨_, hconsumer⟩)
  exact ⟨s, tr, u, hs, hrun, hu, hend⟩

end Bigmachine.Local.Tail
