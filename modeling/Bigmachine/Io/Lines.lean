import Mathlib.Tactic

/-!
# Texts that arrive item by item, cut into lines

A text is cut at a separator: `Cut.lines` are the lines that have ended, `Cut.rest` is what has
come since. The cut is made item by item (`Cut.feed`), so it does not depend on the pieces in which
the text arrives, and lines that have ended never change (`cut_append_lines`). Two texts can be cut
apart and then joined (`cut_eq_join`): the first line of the second text goes to the rest of the
first.
-/

namespace Bigmachine.Io

structure Cut (α : Type) where
  lines : List (List α) := []
  rest : List α := []

variable {α : Type} [DecidableEq α] (sep : α)

/-- The next item of the text. -/
def Cut.feed (c : Cut α) (x : α) : Cut α :=
  if x = sep then ⟨c.lines ++ [c.rest], []⟩ else ⟨c.lines, c.rest ++ [x]⟩

def cut (xs : List α) : Cut α := xs.foldl (Cut.feed sep) {}

theorem cut_append (xs ys : List α) : cut sep (xs ++ ys) = ys.foldl (Cut.feed sep) (cut sep xs) :=
  List.foldl_append

theorem cut_snoc (xs : List α) (x : α) : cut sep (xs ++ [x]) = (cut sep xs).feed sep x :=
  cut_append sep xs [x]

variable {sep}

theorem Cut.feed_sep (c : Cut α) : c.feed sep sep = ⟨c.lines ++ [c.rest], []⟩ := if_pos rfl

theorem Cut.feed_of_ne (c : Cut α) {x : α} (h : x ≠ sep) :
    c.feed sep x = ⟨c.lines, c.rest ++ [x]⟩ := if_neg h

/-- Items that are no separator all go to the end of the rest. -/
theorem Cut.foldl_feed_of_not_mem (c : Cut α) {xs : List α} (h : sep ∉ xs) :
    xs.foldl (Cut.feed sep) c = ⟨c.lines, c.rest ++ xs⟩ := by
  induction xs generalizing c with
  | nil => simp
  | cons x xs ih =>
    rw [List.mem_cons, not_or] at h
    rw [List.foldl_cons, c.feed_of_ne (Ne.symm h.1), ih _ h.2]
    simp

/-- A line that comes after a text ends the rest of it. -/
theorem cut_append_line (xs : List α) {line : List α} (h : sep ∉ line) :
    cut sep (xs ++ (line ++ [sep])) = ⟨(cut sep xs).lines ++ [(cut sep xs).rest ++ line], []⟩ := by
  rw [cut_append, List.foldl_append, Cut.foldl_feed_of_not_mem _ h, List.foldl_cons, Cut.feed_sep,
    List.foldl_nil]

/-! ## Joining cuts -/

/-- The cut of two texts, one after the other, from their cuts. -/
def Cut.join (c d : Cut α) : Cut α where
  lines := c.lines ++ d.lines.modifyHead (c.rest ++ ·)
  rest := if d.lines = [] then c.rest ++ d.rest else d.rest

omit [DecidableEq α] in
theorem Cut.join_nil_rest (c : Cut α) {d : Cut α} (h : d.lines = []) :
    c.join d = ⟨c.lines, c.rest ++ d.rest⟩ := by
  simp [Cut.join, h]

omit [DecidableEq α] in
theorem Cut.join_cons (c : Cut α) {d : Cut α} {l : List α} {ls : List (List α)}
    (h : d.lines = l :: ls) : c.join d = ⟨c.lines ++ (c.rest ++ l) :: ls, d.rest⟩ := by
  simp [Cut.join, h]

theorem Cut.join_feed (c d : Cut α) (x : α) : (c.join d).feed sep x = c.join (d.feed sep x) := by
  by_cases hx : x = sep
  · subst hx
    simp only [Cut.feed_sep]
    cases hd : d.lines with
    | nil =>
      have hfed : (⟨[] ++ [d.rest], []⟩ : Cut α).lines = [d.rest] := rfl
      rw [c.join_nil_rest hd, c.join_cons hfed]
    | cons l ls =>
      have hfed : (⟨l :: ls ++ [d.rest], []⟩ : Cut α).lines = l :: (ls ++ [d.rest]) := rfl
      rw [c.join_cons hd, c.join_cons hfed]
      simp
  · simp only [Cut.feed_of_ne _ hx]
    cases hd : d.lines with
    | nil =>
      rw [c.join_nil_rest hd, c.join_nil_rest rfl]
      simp
    | cons l ls => rw [c.join_cons hd, c.join_cons rfl]

theorem cut_eq_join (xs ys : List α) : cut sep (xs ++ ys) = (cut sep xs).join (cut sep ys) := by
  induction ys using List.reverseRecOn with
  | nil => simp [cut, Cut.join]
  | append_singleton ys y ih => rw [← List.append_assoc, cut_snoc, cut_snoc, ih, Cut.join_feed]

theorem cut_append_lines (xs ys : List α) : (cut sep xs).lines <+: (cut sep (xs ++ ys)).lines := by
  rw [cut_eq_join]
  exact List.prefix_append _ _

/-- The lines of a part of a text come after those before it, one after the other; the first of them
has the rest of what is before it in front. -/
theorem cut_part (xs ys zs : List α) :
    (cut sep xs).lines ++ (cut sep ys).lines.modifyHead ((cut sep xs).rest ++ ·) <+:
      (cut sep (xs ++ ys ++ zs)).lines := by
  have hprefix := @cut_append_lines _ _ sep (xs ++ ys) zs
  rwa [cut_eq_join xs ys] at hprefix

omit [DecidableEq α] in
theorem exists_suffix_modifyHead {lines : List (List α)} {line : List α} (h : line ∈ lines)
    (glue : List α) : ∃ line' ∈ lines.modifyHead (glue ++ ·), line <:+ line' := by
  cases lines with
  | nil => cases h
  | cons l ls =>
    rcases List.mem_cons.mp h with rfl | h
    · exact ⟨glue ++ line, List.mem_cons_self, List.suffix_append _ _⟩
    · exact ⟨line, List.mem_cons_of_mem _ h, List.suffix_rfl⟩

/-- The lines, each with its separator, and the rest are the text. -/
theorem cut_join (sep : α) (xs : List α) :
    (cut sep xs).lines.flatMap (· ++ [sep]) ++ (cut sep xs).rest = xs := by
  induction xs using List.reverseRecOn with
  | nil => rfl
  | append_singleton xs x ih =>
    rw [cut_snoc]
    by_cases hx : x = sep
    · rw [hx, Cut.feed_sep]
      simpa using congrArg (· ++ [sep]) ih
    · rw [Cut.feed_of_ne _ hx]
      simpa using congrArg (· ++ [x]) ih

end Bigmachine.Io
