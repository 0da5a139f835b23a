import Bigmachine.Io.Reader

/-!
# Sinks whose writes can fail

A sink takes everything that a write gives it, or only the first items together with an error. It
counts the items that it has not taken (`lost`). A caller may look at the error of a write or not;
`Offered` says what a sink has got when some items were written in any case: what it took and what
it lost add up to them, and the items are all there exactly when none was lost (`Offered.out_iff`).
Which writes lose items is known beforehand (`Takes`, `put_lost_iff`), and so is the number of
writes that a copy makes (`writes`, `copy_calls`).
-/

namespace Bigmachine.Io

/-- The write number `k` takes everything when `write k = none`. -/
structure Sink (α ε : Type) where
  write : Nat → Option (Nat × ε) := fun _ => none
  calls : Nat := 0
  out : List α := []
  lost : Nat := 0

namespace Sink

variable {α ε : Type}

/-- One write. -/
def put (s : Sink α ε) (xs : List α) : Sink α ε × Option ε :=
  match s.write s.calls with
  | none => ({ s with calls := s.calls + 1, out := s.out ++ xs }, none)
  | some (n, err) =>
    ({ s with
        calls := s.calls + 1
        out := s.out ++ xs.take n
        lost := s.lost + (xs.length - n) }, some err)

/-- One write for each piece that is not empty, up to the first error. -/
def putAll (s : Sink α ε) : List (List α) → Sink α ε × Option ε
  | [] => (s, none)
  | [] :: cs => s.putAll cs
  | c :: cs =>
    match s.put c with
    | (s, none) => s.putAll cs
    | (s, some err) => (s, some err)

/-- The items of a source are written, piece by piece, up to the error of the source or of a
write. -/
def copy [DecidableEq ε] (eof : ε) (s : Sink α ε) (r : Reader α ε) : Sink α ε × Option ε :=
  match s.putAll (r.chunks ++ [r.last]) with
  | (s, some err) => (s, some err)
  | (s, none) => (s, if r.err = eof then none else some r.err)

/-- The write number `k` takes all of `xs`, if it is reached. -/
def Takes (s : Sink α ε) (k : Nat) (xs : List α) : Prop :=
  ∀ n err, s.write k = some (n, err) → xs.length ≤ n

/-- The number of writes for these pieces. -/
def writes (cs : List (List α)) : Nat := cs.countP (!·.isEmpty)

/-! ## What was written -/

/-- Between `s` and `t` the items `xs` were written. -/
structure Offered (s t : Sink α ε) (xs : List α) : Prop where
  lost_le : s.lost ≤ t.lost
  exists_taken : ∃ ys, t.out = s.out ++ ys ∧ ys.length + t.lost = xs.length + s.lost ∧
    (t.lost = s.lost → ys = xs)

namespace Offered

theorem of_eq {s t : Sink α ε} {xs : List α} (hout : t.out = s.out ++ xs)
    (hlost : t.lost = s.lost) : Offered s t xs :=
  ⟨hlost.ge, xs, hout, by rw [hlost], fun _ => rfl⟩

theorem refl (s : Sink α ε) : Offered s s [] := of_eq (by simp) rfl

theorem trans {s t u : Sink α ε} {xs ys : List α} (h : Offered s t xs) (h' : Offered t u ys) :
    Offered s u (xs ++ ys) := by
  obtain ⟨hle, zs, hzs, hlen, hall⟩ := h
  obtain ⟨hle', zs', hzs', hlen', hall'⟩ := h'
  refine ⟨hle.trans hle', zs ++ zs', ?_, ?_, ?_⟩
  · rw [hzs', hzs, List.append_assoc]
  · rw [List.length_append, List.length_append]
    omega
  · intro hlost
    rw [hall (by omega), hall' (by omega)]

theorem put (s : Sink α ε) (xs : List α) : Offered s (s.put xs).1 xs := by
  unfold Sink.put
  split
  · exact of_eq rfl rfl
  · rename_i n err _
    refine ⟨Nat.le_add_right _ _, xs.take n, rfl, ?_, ?_⟩
    · simp only [List.length_take]
      omega
    · intro hlost
      exact List.take_of_length_le (by simp only at hlost; omega)

/-- All items have been taken exactly when none was lost. -/
theorem out_iff {s t : Sink α ε} {xs : List α} (h : Offered s t xs) :
    t.out = s.out ++ xs ↔ t.lost = s.lost := by
  obtain ⟨ys, hys, hlen, hall⟩ := h.exists_taken
  constructor
  · intro hout
    rw [List.append_cancel_left (hys.symm.trans hout)] at hlen
    omega
  · intro hlost
    rw [hys, hall hlost]

end Offered

/-! ## The number of writes -/

theorem put_write (s : Sink α ε) (xs : List α) : (s.put xs).1.write = s.write := by
  unfold put
  split <;> rfl

theorem put_calls (s : Sink α ε) (xs : List α) : (s.put xs).1.calls = s.calls + 1 := by
  unfold put
  split <;> rfl

theorem put_lost_iff (s : Sink α ε) (xs : List α) :
    (s.put xs).1.lost = s.lost ↔ s.Takes s.calls xs := by
  unfold put Takes
  cases h : s.write s.calls with
  | none => simp
  | some p =>
    obtain ⟨n, err⟩ := p
    constructor
    · rintro hlost n' err' ⟨⟩
      simp only at hlost
      omega
    · intro htakes
      have hle := htakes n err rfl
      simp only
      omega

theorem putAll_write (s : Sink α ε) (cs : List (List α)) : (s.putAll cs).1.write = s.write := by
  induction cs generalizing s with
  | nil => rfl
  | cons c cs ih =>
    cases c with
    | nil => exact ih s
    | cons x xs =>
      have hwrite := s.put_write (x :: xs)
      simp only [putAll]
      generalize s.put (x :: xs) = p at hwrite ⊢
      obtain ⟨t, err⟩ := p
      cases err with
      | none => exact (ih t).trans hwrite
      | some err => exact hwrite

theorem putAll_calls {s : Sink α ε} {cs : List (List α)} (h : (s.putAll cs).2 = none) :
    (s.putAll cs).1.calls = s.calls + writes cs := by
  induction cs generalizing s with
  | nil => rfl
  | cons c cs ih =>
    cases c with
    | nil => simpa [putAll, writes] using ih h
    | cons x xs =>
      have hcalls := s.put_calls (x :: xs)
      simp only [putAll] at h ⊢
      generalize s.put (x :: xs) = p at h hcalls ⊢
      obtain ⟨t, err⟩ := p
      cases err with
      | some err => cases h
      | none =>
        have hcount : writes ((x :: xs) :: cs) = writes cs + 1 := by simp [writes]
        have ht : t.calls = s.calls + 1 := hcalls
        rw [ih h, hcount, ht]
        omega

theorem copy_write [DecidableEq ε] (eof : ε) (s : Sink α ε) (r : Reader α ε) :
    (s.copy eof r).1.write = s.write := by
  have hwrite := s.putAll_write (r.chunks ++ [r.last])
  unfold copy
  generalize s.putAll (r.chunks ++ [r.last]) = p at hwrite ⊢
  obtain ⟨t, err⟩ := p
  cases err <;> exact hwrite

theorem copy_calls [DecidableEq ε] {eof : ε} {s : Sink α ε} {r : Reader α ε}
    (h : (s.copy eof r).2 = none) :
    (s.copy eof r).1.calls = s.calls + writes (r.chunks ++ [r.last]) := by
  have hcalls := @putAll_calls _ _ s (r.chunks ++ [r.last])
  unfold copy at h ⊢
  generalize s.putAll (r.chunks ++ [r.last]) = p at h hcalls ⊢
  obtain ⟨t, err⟩ := p
  cases err with
  | some err => cases h
  | none => exact hcalls rfl

/-! ## Writes whose errors are looked at -/

theorem put_ok {s : Sink α ε} {xs : List α} (h : (s.put xs).2 = none) :
    (s.put xs).1.out = s.out ++ xs ∧ (s.put xs).1.lost = s.lost := by
  unfold put at h ⊢
  split at h
  · exact ⟨rfl, rfl⟩
  · cases h

theorem putAll_ok {s : Sink α ε} {cs : List (List α)} (h : (s.putAll cs).2 = none) :
    (s.putAll cs).1.out = s.out ++ cs.flatten ∧ (s.putAll cs).1.lost = s.lost := by
  induction cs generalizing s with
  | nil => simp [putAll]
  | cons c cs ih =>
    cases c with
    | nil => simpa [putAll] using ih h
    | cons x xs =>
      simp only [putAll] at h ⊢
      have hput := @put_ok _ _ s (x :: xs)
      generalize s.put (x :: xs) = p at h hput ⊢
      obtain ⟨t, err⟩ := p
      cases err with
      | some err => cases h
      | none =>
        obtain ⟨hout, hlost⟩ := hput rfl
        obtain ⟨hout', hlost'⟩ := ih h
        refine ⟨?_, hlost'.trans hlost⟩
        rw [hout', hout, List.flatten_cons, List.append_assoc]

/-- After pieces that were written without an error come the next ones. -/
theorem putAll_append_of_ok {s : Sink α ε} {cs : List (List α)} (h : (s.putAll cs).2 = none)
    (ds : List (List α)) : s.putAll (cs ++ ds) = (s.putAll cs).1.putAll ds := by
  induction cs generalizing s with
  | nil => rfl
  | cons c cs ih =>
    cases c with
    | nil => exact ih h
    | cons x xs =>
      simp only [List.cons_append, putAll] at h ⊢
      generalize s.put (x :: xs) = p at h ⊢
      obtain ⟨t, err⟩ := p
      cases err with
      | none => exact ih h
      | some err => cases h

theorem putAll_append_of_error {s : Sink α ε} {cs : List (List α)} {err : ε}
    (h : (s.putAll cs).2 = some err) (ds : List (List α)) :
    s.putAll (cs ++ ds) = s.putAll cs := by
  induction cs generalizing s with
  | nil => cases h
  | cons c cs ih =>
    cases c with
    | nil => exact ih h
    | cons x xs =>
      simp only [List.cons_append, putAll] at h ⊢
      generalize s.put (x :: xs) = p at h ⊢
      obtain ⟨t, err'⟩ := p
      cases err' with
      | none => exact ih h
      | some err' => rfl

/-- A copy without an error has written all items of a source that has ended regularly. -/
theorem copy_ok [DecidableEq ε] {eof : ε} {s : Sink α ε} {r : Reader α ε}
    (h : (s.copy eof r).2 = none) :
    r.err = eof ∧ (s.copy eof r).1.out = s.out ++ r.items ∧ (s.copy eof r).1.lost = s.lost := by
  have hitems : (r.chunks ++ [r.last]).flatten = r.items := by simp [Reader.items]
  have hput := @putAll_ok _ _ s (r.chunks ++ [r.last])
  rw [hitems] at hput
  unfold copy at h ⊢
  generalize s.putAll (r.chunks ++ [r.last]) = p at h hput ⊢
  obtain ⟨t, err⟩ := p
  cases err with
  | some err => cases h
  | none =>
    have heof : r.err = eof := by simpa using h
    exact ⟨heof, hput rfl⟩

end Sink

end Bigmachine.Io
