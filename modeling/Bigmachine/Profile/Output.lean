import Bigmachine.Profile.Marshal

/-!
# What `Marshal` writes

A successful call of `Marshal` has written the concatenation of the collected profiles, or the
merged profile (`Produces`, `aggregate_ok`). Two things go wrong.

The debug loop does not look at the errors of its header and newline writes, so `Marshal` can
succeed with an incomplete output (`marshal_closes_once`, `newline_lost`).

And the debug loop is guarded by a test for the name "profiles" where `ContentType` tests for
"profile", so for these two names and debug output the declared content type is not the one
written (`contentType_matches_iff`, `cpu_concatenated`).
-/

namespace Bigmachine.Profile

open Errors Io Rpc Filebuf

variable {Prof : Type}

/-! ## The debug output -/

/-- What the debug output has for one machine. -/
def part (q : String × FileBuf) : Bytes := header q.1 ++ q.2.contents ++ newline

/-- The parts of the given profiles in increasing order of the addresses. -/
def IsConcatenation (profiles : List (String × FileBuf)) (text : Bytes) : Prop :=
  ∃ order : List (String × FileBuf), order.Perm profiles ∧ order.Pairwise (·.1 < ·.1) ∧
    text = order.flatMap part

/-- The collected profiles in the order in which the debug loop comes to them. -/
def Profiler.ordered (p : Profiler) (env : Env Prof) : List (String × FileBuf) :=
  (env.machines.insertionSort byAddr).filterMap fun m =>
    (p.collect env.errors m).map (m.addr, ·)

/-- The writes of the debug loop whose errors are not looked at, when the next write is number `k`:
their numbers, and what they write. -/
def unchecked (k : Nat) : List (String × FileBuf) → List (Nat × Bytes)
  | [] => []
  | q :: qs =>
    let next := k + 1 + Sink.writes (q.2.file.1.chunks ++ [q.2.file.1.last])
    (k, header q.1) :: (next, newline) :: unchecked (next + 1) qs

/-- Closing a buffer leaves the entries of the others as they are. -/
theorem Aggregation.filterMap_close {α : Type} (s : Aggregation) {addr : String} (key : α → String)
    {xs : List α} (h : ∀ x ∈ xs, key x ≠ addr) :
    (xs.filterMap fun x => ((s.close addr).profiles (key x)).map (key x, ·)) =
      xs.filterMap fun x => (s.profiles (key x)).map (key x, ·) := by
  refine List.filterMap_congr fun x hx => ?_
  rw [s.close_profiles_of_ne (h x hx)]

/-- A round of a successful debug loop, for a machine whose profile was collected. -/
theorem appendAll_cons {P : Package} {m : Target} {ms : List Target} {s : Aggregation}
    {prof : FileBuf} (hprof : s.profiles m.addr = some prof)
    (h : (appendAll P (m :: ms) s).2 = none) :
    ∃ w, (s.w.put (header m.addr)).1.copy .eof prof.file.1 = (w, none) ∧
      appendAll P (m :: ms) s = appendAll P ms { s.close m.addr with w := (w.put newline).1 } := by
  simp only [appendAll, hprof] at h ⊢
  split at h
  · cases h
  · rename_i w heq
    exact ⟨w, heq, rfl⟩

theorem appendAll_offered (P : Package) {ms : List Target} (hms : (ms.map (·.addr)).Nodup)
    {s : Aggregation} (h : (appendAll P ms s).2 = none) :
    s.w.Offered (appendAll P ms s).1.w
      ((ms.filterMap fun m => (s.profiles m.addr).map (m.addr, ·)).flatMap part) := by
  induction ms generalizing s with
  | nil => exact .refl _
  | cons m ms ih =>
    obtain ⟨hm, hms⟩ := List.nodup_cons.mp hms
    cases hprof : s.profiles m.addr with
    | none =>
      rw [List.filterMap_cons_none (by simp [hprof])]
      simp only [appendAll, hprof] at h ⊢
      exact ih hms h
    | some prof =>
      rw [List.filterMap_cons_some (by rw [hprof]; rfl), List.flatMap_cons]
      obtain ⟨w, hcopy, hround⟩ := appendAll_cons hprof h
      have hok := @Sink.copy_ok _ _ _ .eof (s.w.put (header m.addr)).1 prof.file.1
      rw [hcopy] at hok
      obtain ⟨heof, hout, hlost⟩ := hok rfl
      rw [prof.file.2 heof] at hout
      have hpart : s.w.Offered (w.put newline).1 (part (m.addr, prof)) :=
        ((Sink.Offered.put s.w (header m.addr)).trans (.of_eq hout hlost)).trans
          (Sink.Offered.put w newline)
      rw [hround] at h ⊢
      have hrest := ih hms h
      rw [s.filterMap_close (fun x : Target => x.addr) fun x hx => addr_ne hm hx] at hrest
      exact hpart.trans hrest

/-- A successful debug loop has lost nothing exactly when the writes that it does not look at have
taken everything. -/
theorem appendAll_lost_iff (P : Package) {ms : List Target} (hms : (ms.map (·.addr)).Nodup)
    {s : Aggregation} (h : (appendAll P ms s).2 = none) :
    (appendAll P ms s).1.w.lost = s.w.lost ↔
      ∀ c ∈ unchecked s.w.calls (ms.filterMap fun m => (s.profiles m.addr).map (m.addr, ·)),
        s.w.Takes c.1 c.2 := by
  induction ms generalizing s with
  | nil => simp [appendAll, unchecked]
  | cons m ms ih =>
    obtain ⟨hm, hms⟩ := List.nodup_cons.mp hms
    cases hprof : s.profiles m.addr with
    | none =>
      rw [List.filterMap_cons_none (by simp [hprof])]
      simp only [appendAll, hprof] at h ⊢
      exact ih hms h
    | some prof =>
      rw [List.filterMap_cons_some (by rw [hprof]; rfl), unchecked]
      obtain ⟨w, hcopy, hround⟩ := appendAll_cons hprof h
      have hwrite := (s.w.put (header m.addr)).1.copy_write .eof prof.file.1
      have hok := @Sink.copy_ok _ _ _ .eof (s.w.put (header m.addr)).1 prof.file.1
      have hcalls := @Sink.copy_calls _ _ _ .eof (s.w.put (header m.addr)).1 prof.file.1
      rw [hcopy] at hwrite hok hcalls
      rw [hround] at h ⊢
      have hnext := ih hms h
      rw [s.filterMap_close (fun x : Target => x.addr) fun x hx => addr_ne hm hx] at hnext
      -- the three parts of the loss, none of which makes up for another
      have hle := (appendAll_offered P hms h).lost_le
      have hle₁ := (Sink.Offered.put s.w (header m.addr)).lost_le
      have hle₂ := (Sink.Offered.put w newline).lost_le
      have hlost : w.lost = (s.w.put (header m.addr)).1.lost := (hok rfl).2.2
      have hw : w.write = s.w.write := hwrite.trans (s.w.put_write _)
      have hk : w.calls =
          s.w.calls + 1 + Sink.writes (prof.file.1.chunks ++ [prof.file.1.last]) := by
        rw [hcalls rfl, s.w.put_calls]
      have htakes : ∀ k xs, (w.put newline).1.Takes k xs ↔ s.w.Takes k xs := by
        intro k xs
        rw [Sink.Takes, Sink.Takes, w.put_write, hw]
      have hnewline : w.Takes w.calls newline ↔ s.w.Takes w.calls newline := by
        rw [Sink.Takes, Sink.Takes, hw]
      simp only [List.forall_mem_cons, ← hk, ← hnewline, ← Sink.put_lost_iff]
      simp only [htakes, w.put_calls] at hnext
      rw [← hnext]
      dsimp only at hle ⊢
      omega

/-- The machines as the debug loop goes through them, with their profiles. -/
theorem sorted_collected (p : Profiler) (env : Env Prof) :
    ((env.machines.insertionSort byAddr).map (·.addr)).Nodup ∧
      (∀ w, ((env.machines.insertionSort byAddr).filterMap fun m =>
        ((p.start env w).profiles m.addr).map (m.addr, ·)) = p.ordered env) ∧
      (p.ordered env).Perm (p.collected env) ∧ (p.ordered env).Pairwise (·.1 < ·.1) := by
  have hperm : (env.machines.insertionSort byAddr).Perm env.machines :=
    List.perm_insertionSort _ _
  have hnodup : ((env.machines.insertionSort byAddr).map (·.addr)).Nodup :=
    (hperm.map _).nodup_iff.mpr env.nodup
  have horder : ∀ w, ((env.machines.insertionSort byAddr).filterMap fun m =>
      ((p.start env w).profiles m.addr).map (m.addr, ·)) = p.ordered env := by
    intro w
    refine List.filterMap_congr fun m hm => ?_
    have hm : m ∈ env.machines := hperm.mem_iff.mp hm
    have hlookup : (p.start env w).profiles m.addr = p.collect env.errors m :=
      lookup_collected (p.collect env.errors) env.nodup hm
    rw [hlookup]
  have hsorted : (env.machines.insertionSort byAddr).Pairwise fun m m' => m.addr < m'.addr := by
    have hle := List.pairwise_insertionSort byAddr env.machines
    exact (hle.and (List.pairwise_map.mp hnodup)).imp fun h => lt_of_le_of_ne h.1 h.2
  refine ⟨hnodup, horder, hperm.filterMap _, ?_⟩
  refine hsorted.filterMap _ fun m m' hlt q hq q' hq' => ?_
  obtain ⟨b, -, rfl⟩ := Option.map_eq_some_iff.mp hq
  obtain ⟨b', -, rfl⟩ := Option.map_eq_some_iff.mp hq'
  exact hlt

/-! ## The merged output -/

theorem lookup_of_mem {l : List (String × FileBuf)} (hl : (l.map (·.1)).Nodup)
    {q : String × FileBuf} (hq : q ∈ l) : l.lookup q.1 = some q.2 := by
  induction l with
  | nil => cases hq
  | cons x l ih =>
    obtain ⟨hx, hl⟩ := List.nodup_cons.mp hl
    rcases List.mem_cons.mp hq with rfl | hq
    · exact List.lookup_cons_self
    · have hne : q.1 ≠ x.1 := fun h => hx (List.mem_map.mpr ⟨q, hq, h⟩)
      rw [List.lookup_cons, beq_false_of_ne hne]
      exact ih hl hq

/-- The buffers that a loop over `profiles` finds are the collected ones. -/
theorem visited_collected (p : Profiler) (env : Env Prof) (w : Sink UInt8 Err) {order : List String}
    (horder : order.Perm (p.start env w).keys) :
    (order.filterMap fun a => ((p.start env w).profiles a).map (a, ·)).Perm (p.collected env) := by
  have hall : (p.start env w).keys.filterMap
      (fun a => ((p.start env w).profiles a).map (a, ·)) = p.collected env := by
    simp only [Profiler.start, List.filterMap_map]
    rw [List.filterMap_congr (g := some), List.filterMap_some]
    intro q hq
    simp [lookup_of_mem (collected_keys_nodup p env) hq]
  rw [← hall]
  exact horder.filterMap _

/-- What the loop over `profiles` returns when no buffer fails. -/
theorem parseAll_ok {env : Env Prof} {order : List String} (horder : order.Nodup)
    {parsed ps : List Prof} {s t : Aggregation} (h : parseAll env order parsed s = (t, .ok ps)) :
    t.w = s.w ∧ ∃ profs, ps = parsed ++ profs ∧
      List.Forall₂ (fun (q : String × FileBuf) prof => env.parseBuffer q.2 = .ok prof)
        (order.filterMap fun a => (s.profiles a).map (a, ·)) profs := by
  induction order generalizing parsed s with
  | nil =>
    cases h
    exact ⟨rfl, [], (List.append_nil _).symm, .nil⟩
  | cons a order ih =>
    obtain ⟨ha, horder⟩ := List.nodup_cons.mp horder
    unfold parseAll at h
    cases hprof : s.profiles a with
    | none =>
      rw [hprof] at h
      cases h
    | some rc =>
      rw [hprof] at h
      dsimp only at h
      split at h
      · cases h
      · rename_i prof hparse
        obtain ⟨hw, profs, rfl, hprofs⟩ := ih horder h
        have hne : ∀ x ∈ order, x ≠ a := fun x hx h => ha (h ▸ hx)
        rw [s.filterMap_close (fun x => x) hne] at hprofs
        refine ⟨hw, prof :: profs, by simp, ?_⟩
        rw [List.filterMap_cons_some (by rw [hprof]; rfl)]
        exact .cons hparse hprofs

/-! ## What a successful call has written -/

/-- The output from `w` to `w'` in each format. -/
def Produces (env : Env Prof) (profiles : List (String × FileBuf)) (w w' : Sink UInt8 Err) :
    Format Prof → Prop
  | .concatenated => ∃ text, IsConcatenation profiles text ∧ w.Offered w' text
  | .merged prof => ∃ order profs, order.Perm profiles ∧
      List.Forall₂ (fun (q : String × FileBuf) prof => env.parseBuffer q.2 = .ok prof) order profs ∧
      env.merge profs = .ok prof ∧ env.write prof w = (w', none)

/-- A successful call has written the format of its branch. -/
theorem aggregate_ok {p : Profiler} {env : Env Prof} {w : Sink UInt8 Err} {f : Format Prof}
    (h : (p.aggregate env w).2 = .ok f) :
    Produces env (p.collected env) w (p.aggregate env w).1.w f ∧
      (f = .concatenated ↔ p.debug > 0 ∧ p.which ≠ "profiles") := by
  unfold Profiler.aggregate at h ⊢
  dsimp only at h ⊢
  split at h
  · cases h
  · rename_i hkeys
    rw [if_neg hkeys]
    split at h
    · rename_i hdebug
      rw [if_pos hdebug]
      obtain ⟨hnodup, horder, hperm, hsorted⟩ := sorted_collected p env
      have happend := @appendAll_offered env.errors _ hnodup (p.start env w)
      rw [horder w] at happend
      split at h
      · cases h
      · rename_i s heq
        cases h
        rw [heq] at happend
        exact ⟨⟨_, ⟨_, hperm, hsorted, rfl⟩, happend rfl⟩, by simp [hdebug]⟩
    · rename_i hdebug
      rw [if_neg hdebug]
      have hvisit := env.visit_perm (p.start env w).keys
      have hnodup : (env.visit (p.start env w).keys).Nodup :=
        hvisit.nodup_iff.mpr (collected_keys_nodup p env)
      split at h
      · cases h
      · rename_i s parsed heq
        obtain ⟨hw, profs, hprofs, hparsed⟩ := parseAll_ok hnodup heq
        rw [List.nil_append] at hprofs
        subst hprofs
        split at h
        · cases h
        · rename_i prof hmerge
          split at h
          · cases h
          · rename_i w' hwrite
            cases h
            rw [hw] at hwrite
            exact ⟨⟨_, _, visited_collected p env w hvisit, hparsed, hmerge, hwrite⟩,
              by simp [hdebug]⟩

/-- All concatenations have the same length. -/
theorem IsConcatenation.length_eq {profiles : List (String × FileBuf)} {text text' : Bytes}
    (h : IsConcatenation profiles text) (h' : IsConcatenation profiles text') :
    text.length = text'.length := by
  obtain ⟨order, hperm, -, rfl⟩ := h
  obtain ⟨order', hperm', -, rfl⟩ := h'
  exact ((hperm.trans hperm'.symm).flatMap_right part).length_eq

/-- The output of a successful debug call is complete exactly when nothing was lost. -/
theorem concatenated_iff {p : Profiler} {env : Env Prof} {w : Sink UInt8 Err}
    (h : (p.aggregate env w).2 = .ok .concatenated) :
    (∃ text, IsConcatenation (p.collected env) text ∧
      (p.aggregate env w).1.w.out = w.out ++ text) ↔ (p.aggregate env w).1.w.lost = w.lost := by
  obtain ⟨text, htext, hoffered⟩ := (aggregate_ok h).1
  constructor
  · rintro ⟨text', htext', hout⟩
    obtain ⟨ys, hys, hlen, -⟩ := hoffered.exists_taken
    have heq : ys = text' := List.append_cancel_left (hys.symm.trans hout)
    have := htext.length_eq htext'
    rw [heq] at hlen
    omega
  · intro hlost
    exact ⟨text, htext, hoffered.out_iff.mpr hlost⟩

theorem aggregate_lost_iff {p : Profiler} {env : Env Prof} {w : Sink UInt8 Err}
    (h : (p.aggregate env w).2 = .ok .concatenated) :
    (p.aggregate env w).1.w.lost = w.lost ↔
      ∀ c ∈ unchecked w.calls (p.ordered env), w.Takes c.1 c.2 := by
  have hdebug := (aggregate_ok h).2.mp rfl
  obtain ⟨hnodup, horder, -, -⟩ := sorted_collected p env
  have happend := @appendAll_lost_iff env.errors _ hnodup (p.start env w)
  rw [horder w] at happend
  unfold Profiler.aggregate at h ⊢
  dsimp only at h ⊢
  split at h
  · cases h
  · rename_i hkeys
    rw [if_neg hkeys, if_pos hdebug]
    split at h
    · cases h
    · rename_i s heq
      rw [heq] at happend
      exact happend rfl

/-- **Resources and output of `Marshal`.** Whatever fails, every collected buffer has been closed
exactly once; and what was collected is all of what running machines have sent. A successful call
with debug output has written the parts of exactly the collected profiles in increasing order of the
addresses, if and only if the writer takes all of each header and each newline. -/
theorem marshal_closes_once (p : Profiler) (env : Env Prof) (w : Sink UInt8 Err) :
    (∀ addr, (p.marshalAll env w).1.closed.count addr =
      if addr ∈ (p.collected env).map (·.1) then 1 else 0) ∧
    (∀ q ∈ p.collected env, ∃ m ∈ env.machines, m.addr = q.1 ∧ m.state = .running ∧
      ∃ rc, m.call p.getProfile = .ok rc ∧ rc.err = .eof ∧ q.2.contents = rc.items) ∧
    (p.debug > 0 → p.which ≠ "profiles" → (∃ f, (p.marshalAll env w).2 = .ok f) →
      ((∃ text, IsConcatenation (p.collected env) text ∧
          (p.marshalAll env w).1.w.out = w.out ++ text) ↔
        ∀ c ∈ unchecked w.calls (p.ordered env), w.Takes c.1 c.2)) := by
  refine ⟨fun addr => ?_, fun q hq => ?_, ?_⟩
  · exact (Owes.aggregate p env w).sweep (collected_keys_nodup p env) (env.visit_perm _) addr
  · obtain ⟨m, hm, hcollect⟩ := List.mem_filterMap.mp hq
    obtain ⟨b, hb, rfl⟩ := Option.map_eq_some_iff.mp hcollect
    exact ⟨m, hm, rfl, collect_contents hb⟩
  · rintro hdebug hwhich ⟨f, hf⟩
    have hf : (p.aggregate env w).2 = .ok f := hf
    rw [(aggregate_ok hf).2.mpr ⟨hdebug, hwhich⟩] at hf
    exact (concatenated_iff hf).trans (aggregate_lost_iff hf)

namespace Reference

/-- A running machine that sends the given bytes. -/
def machine (addr : String) (contents : Bytes) : Target where
  addr := addr
  state := .running
  call _ := .ok { last := contents, err := .eof }
  buffering := { reads := fun contents => ⟨{ last := contents, err := .eof }, fun _ => rfl⟩ }

/-- Two machines; the profiles are bytes, and merging joins them. -/
def env : Env Bytes where
  errors := Errors.Reference.package
  dial _ := .ok (machine "b" [2])
  machines := [machine "b" [2], machine "a" [1]]
  nodup := by decide
  visit := id
  visit_perm keys := .refl keys
  parse := .ok
  merge profs := .ok profs.flatten
  write prof w := w.put prof

def heap : Profiler := { which := "heap", debug := 1 }

def cpu : Profiler := { which := "profile", debug := 1 }

/-- The sixth write, which is the newline after the second profile, fails. -/
def broken : Sink UInt8 Err where
  write k := if k = 5 then some (0, .text "write: broken pipe") else none

/-- The writes from the seventh on fail. -/
def full : Sink UInt8 Err where
  write k := if k < 6 then none else some (0, .text "no space left on device")

end Reference

/-- The headers and newlines of two machines are the writes 0, 2, 3 and 5. -/
theorem marshal_closes_once_heap :
    (Reference.heap.marshalAll Reference.env Reference.full).1.closed.count "a" = 1 ∧
      ∃ text, IsConcatenation (Reference.heap.collected Reference.env) text ∧
        (Reference.heap.marshalAll Reference.env Reference.full).1.w.out = [] ++ text := by
  obtain ⟨honce, -, hout⟩ := marshal_closes_once Reference.heap Reference.env Reference.full
  refine ⟨(honce "a").trans (by decide +kernel), ?_⟩
  refine (hout (by decide) (by decide) ⟨.concatenated, rfl⟩).mpr ?_
  have hnumbers :
      (unchecked 0 (Reference.heap.ordered Reference.env)).map (·.1) = [0, 2, 3, 5] := by
    decide +kernel
  intro c hc n err hwrite
  have hmem : c.1 ∈ [0, 2, 3, 5] := hnumbers ▸ List.mem_map_of_mem hc
  have hlt : c.1 < 6 := by
    revert hmem
    generalize c.1 = k
    revert k
    decide
  exact absurd hwrite (by simp [Reference.full, hlt])

/-- The last newline is not written, and the call succeeds. -/
theorem newline_lost :
    ¬ ∀ (Prof : Type) (p : Profiler) (env : Env Prof) (w : Sink UInt8 Err), p.debug > 0 →
      p.which ≠ "profiles" → (∃ f, (p.marshalAll env w).2 = .ok f) →
      ∃ text, IsConcatenation (p.collected env) text ∧
        (p.marshalAll env w).1.w.out = w.out ++ text := by
  intro h
  have hok : (Reference.heap.aggregate Reference.env Reference.broken).2 = .ok .concatenated := rfl
  have hout := h Bytes Reference.heap Reference.env Reference.broken (by decide) (by decide)
    ⟨.concatenated, hok⟩
  have hlost := (concatenated_iff hok).mp hout
  revert hlost
  decide +kernel

/-! ## The content type -/

theorem textPlain_ne_octetStream : textPlain ≠ octetStream := by decide

theorem contentType_eq_textPlain (p : Profiler) :
    p.contentType = textPlain ↔ p.debug > 0 ∧ p.which ≠ "profile" := by
  unfold Profiler.contentType
  split
  · rename_i h
    exact iff_of_true rfl h
  · rename_i h
    exact iff_of_false textPlain_ne_octetStream.symm h

theorem contentType_eq_octetStream (p : Profiler) :
    p.contentType = octetStream ↔ ¬ (p.debug > 0 ∧ p.which ≠ "profile") := by
  rw [← contentType_eq_textPlain]
  unfold Profiler.contentType
  split
  · simp [textPlain_ne_octetStream]
  · simp [textPlain_ne_octetStream.symm]

/-- **The declared content type.** A successful call has written the concatenation or the merged
profile. Which one it is agrees with the declared content type unless the debug output of the
profile "profile" or "profiles" was asked for. -/
theorem contentType_matches_iff (p : Profiler) (env : Env Prof) (w : Sink UInt8 Err)
    {f : Format Prof} (h : (p.marshalAll env w).2 = .ok f) :
    Produces env (p.collected env) w (p.marshalAll env w).1.w f ∧
    (((f = .concatenated ↔ p.contentType = textPlain) ∧
        ((∃ prof, f = .merged prof) ↔ p.contentType = octetStream)) ↔
      p.debug ≤ 0 ∨ p.which ≠ "profile" ∧ p.which ≠ "profiles") := by
  obtain ⟨hproduces, hformat⟩ := aggregate_ok h
  refine ⟨hproduces, ?_⟩
  have hmerged : (∃ prof, f = .merged prof) ↔ ¬ f = .concatenated := by
    cases f <;> simp
  rw [hmerged, hformat, contentType_eq_textPlain, contentType_eq_octetStream, not_iff_not,
    and_self_iff]
  by_cases hdebug : p.debug > 0
  · have hle : ¬ p.debug ≤ 0 := not_le.mpr hdebug
    simp only [hdebug, hle, true_and, false_or]
    -- no name is both
    by_cases hp : p.which = "profile"
    · simp [hp]
    · simp [hp]
  · simp [hdebug, not_lt.mp hdebug]

theorem contentType_matches_heap :
    Produces Reference.env (Reference.heap.collected Reference.env) {}
        (Reference.heap.marshalAll Reference.env {}).1.w .concatenated ∧
      Reference.heap.contentType = textPlain := by
  obtain ⟨hproduces, hiff⟩ :=
    contentType_matches_iff Reference.heap Reference.env {} (f := .concatenated) rfl
  refine ⟨hproduces, (hiff.mpr (Or.inr ?_)).1.mp rfl⟩
  decide

/-- The debug output of the CPU profile is concatenated, and declared to be binary. -/
theorem cpu_concatenated :
    ¬ ∀ (Prof : Type) (p : Profiler) (env : Env Prof) (w : Sink UInt8 Err) (f : Format Prof),
      (p.marshalAll env w).2 = .ok f →
      ((f = .concatenated ↔ p.contentType = textPlain) ∧
        ((∃ prof, f = .merged prof) ↔ p.contentType = octetStream)) := by
  intro h
  have htext := (h Bytes Reference.cpu Reference.env {} .concatenated rfl).1.mp rfl
  revert htext
  decide

end Bigmachine.Profile
