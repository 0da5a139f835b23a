import Mathlib.Data.List.DropRight
import Mathlib.Tactic

/-!
# Removing the indentation of a template

`tmpl` first drops the blank lines at both ends of its text and removes as many characters from the
front of every line as the first line that is left has spaces. The texts are ASCII, so positions
count characters.

The slice is taken before the line is looked at: a blank line that is shorter than the indentation
panics, although there is nothing but space to remove (`dedents_iff`). A text that was made by
indenting the lines that are not blank is turned back into its lines only when there are no blank
lines, or no indentation (`dedent_indented_iff`).
-/

namespace Bigmachine.Ec2

abbrev Line := List Char

/-! ## The steps of `tmpl` -/

/-- `unicode.IsSpace`, for ASCII. -/
def isSpace (c : Char) : Bool := c ∈ [' ', '\t', '\n', '\x0b', '\x0c', '\r']

/-- `strings.TrimSpace` leaves nothing. -/
def blank (line : Line) : Bool := line.all isSpace

/-- The lines of the text without the blank lines at both ends. -/
def kept (text : List Char) : List Line :=
  ((text.splitOn '\n').dropWhile blank).rdropWhile blank

/-- The position of the first non-space of the first line, `p` in the source. -/
def indentation : List Line → Nat
  | [] => 0
  | line :: _ => (line.findIdx? fun c => !isSpace c).getD 0

inductive Panic
  | slice (line : Line) -- slice bounds out of range
  | nonspace (line : Line)
  deriving DecidableEq, Repr

def strip (p : Nat) (line : Line) : Except Panic Line :=
  if line.length < p then .error (.slice line)
  else if blank (line.take p) then .ok (line.drop p)
  else .error (.nonspace line)

def stripAll (p : Nat) : List Line → Except Panic (List Line)
  | [] => .ok []
  | line :: lines =>
    match strip p line with
    | .error e => .error e
    | .ok line =>
      match stripAll p lines with
      | .error e => .error e
      | .ok lines => .ok (line :: lines)

def dedent (text : List Char) : Except Panic (List Line) :=
  stripAll (indentation (kept text)) (kept text)

/-! ## When the loop panics -/

/-- The line has a non-space among its first `p` characters. -/
def Protrudes (p : Nat) (line : Line) : Prop := ∃ c ∈ line.take p, isSpace c = false

instance (p : Nat) (line : Line) : Decidable (Protrudes p line) :=
  List.decidableBEx _ (line.take p)

theorem protrudes_iff {p : Nat} {line : Line} : Protrudes p line ↔ blank (line.take p) = false := by
  simp [Protrudes, blank]

theorem strip_ok {p : Nat} {line : Line} (hlen : p ≤ line.length) (h : ¬ Protrudes p line) :
    strip p line = .ok (line.drop p) := by
  rw [protrudes_iff, Bool.not_eq_false] at h
  rw [strip, if_neg (not_lt.mpr hlen), if_pos h]

theorem strip_error {p : Nat} {line : Line} (h : line.length < p ∨ Protrudes p line) :
    ∃ e, strip p line = .error e := by
  unfold strip
  split
  · exact ⟨_, rfl⟩
  · rename_i hlen
    rw [protrudes_iff.mp (h.resolve_left hlen)]
    exact ⟨_, rfl⟩

theorem stripAll_ok {p : Nat} {lines : List Line}
    (h : ∀ line ∈ lines, p ≤ line.length ∧ ¬ Protrudes p line) :
    stripAll p lines = .ok (lines.map (·.drop p)) := by
  induction lines with
  | nil => rfl
  | cons line lines ih =>
    obtain ⟨hlen, hspace⟩ := h line (List.mem_cons_self ..)
    rw [stripAll, strip_ok hlen hspace, ih fun l hl => h l (List.mem_cons_of_mem _ hl)]
    rfl

theorem stripAll_error {p : Nat} {lines : List Line} {line : Line} (hmem : line ∈ lines)
    (h : line.length < p ∨ Protrudes p line) : ∃ e, stripAll p lines = .error e := by
  induction lines with
  | nil => cases hmem
  | cons l lines ih =>
    unfold stripAll
    rcases List.mem_cons.mp hmem with rfl | hmem
    · obtain ⟨e, he⟩ := strip_error h
      exact ⟨e, by rw [he]⟩
    · obtain ⟨e, he⟩ := ih hmem
      cases strip p l with
      | error e' => exact ⟨e', rfl⟩
      | ok l' => exact ⟨e, by rw [he]⟩

/-- The indentation is removed: it is an error exactly when some line has a non-space in it, and
otherwise every line loses it, also a blank line that is shorter. -/
structure Dedents (text : List Char) : Prop where
  error_iff : (∃ e, dedent text = .error e) ↔
    ∃ line ∈ kept text, Protrudes (indentation (kept text)) line
  ok : (¬ ∃ line ∈ kept text, Protrudes (indentation (kept text)) line) →
    dedent text = .ok ((kept text).map (·.drop (indentation (kept text))))

/-- A line that is too short is no problem only if there is an error anyway. -/
theorem dedents_iff (text : List Char) : Dedents text ↔
    (∃ line ∈ kept text, Protrudes (indentation (kept text)) line) ∨
      ∀ line ∈ kept text, indentation (kept text) ≤ line.length := by
  by_cases hbad : ∃ line ∈ kept text, Protrudes (indentation (kept text)) line
  · obtain ⟨line, hmem, hline⟩ := hbad
    have herror : ∃ e, dedent text = .error e := stripAll_error hmem (Or.inr hline)
    have hbad : ∃ line ∈ kept text, Protrudes (indentation (kept text)) line := ⟨line, hmem, hline⟩
    exact iff_of_true ⟨iff_of_true herror hbad, fun h => absurd hbad h⟩ (Or.inl hbad)
  · constructor
    · intro h
      right
      intro line hmem
      by_contra hlen
      obtain ⟨e, he⟩ := stripAll_error hmem (Or.inl (not_le.mp hlen))
      cases he.symm.trans (h.ok hbad)
    · intro h
      have hok : dedent text = .ok ((kept text).map (·.drop (indentation (kept text)))) :=
        stripAll_ok fun line hmem =>
          ⟨h.resolve_left hbad line hmem, fun hline => hbad ⟨line, hmem, hline⟩⟩
      refine ⟨iff_of_false ?_ hbad, fun _ => hok⟩
      rintro ⟨e, he⟩
      cases he.symm.trans hok

/-! ## Indenting and dedenting -/

/-- Lines that are not blank are indented. -/
def indentLine (ws line : Line) : Line := if blank line then line else ws ++ line

def indented (ws : Line) (lines : List Line) : List Char :=
  ['\n'].intercalate (lines.map (indentLine ws))

/-- The lines of a text that was not indented: there are no line breaks in them, the first one
starts with a non-space and the last one is not blank. -/
structure Flush (lines : List Line) : Prop where
  noBreak : ∀ line ∈ lines, '\n' ∉ line
  first : ∃ c line rest, lines = (c :: line) :: rest ∧ isSpace c = false
  last : ∃ init line, lines = init ++ [line] ∧ blank line = false

/-! ### The lines that are kept -/

theorem dropWhile_append_of_neg {α : Type} {q : α → Bool} {xs : List α} (y : α) (ys : List α)
    (hxs : ∀ x ∈ xs, q x = true) (hy : q y = false) : (xs ++ y :: ys).dropWhile q = y :: ys := by
  rw [List.dropWhile_append, List.dropWhile_eq_nil_iff.mpr hxs]
  simp [hy]

/-- Blank lines before and after are dropped. -/
theorem kept_eq {text : List Char} {before mid : List Line} {first last : Line}
    (hsplit : text.splitOn '\n' = before ++ first :: mid ++ [last])
    (hbefore : ∀ line ∈ before, blank line = true) (hfirst : blank first = false)
    (hlast : blank last = false) : kept text = first :: mid ++ [last] := by
  rw [kept, hsplit, List.append_assoc, List.cons_append,
    dropWhile_append_of_neg _ _ hbefore hfirst, ← List.cons_append,
    List.rdropWhile_concat_neg _ _ _ (by simp [hlast])]

theorem kept_eq_single {text : List Char} {before : List Line} {line : Line}
    (hsplit : text.splitOn '\n' = before ++ [line])
    (hbefore : ∀ line ∈ before, blank line = true) (hline : blank line = false) :
    kept text = [line] := by
  rw [kept, hsplit, dropWhile_append_of_neg _ _ hbefore hline]
  exact List.rdropWhile_concat_neg _ [] _ (by simp [hline])

theorem indentation_append {ws : Line} (hws : blank ws = true) {c : Char} (hc : isSpace c = false)
    (line : Line) (rest : List Line) : indentation ((ws ++ c :: line) :: rest) = ws.length := by
  have hnone : ws.findIdx? (fun c => !isSpace c) = none := by
    rw [List.findIdx?_eq_none_iff]
    intro x hx
    simp [List.all_eq_true.mp hws x hx]
  simp [indentation, List.findIdx?_append, hnone, List.findIdx?_cons, hc]

theorem not_protrudes_append {ws : Line} (hws : blank ws = true) (line : Line) :
    ¬ Protrudes ws.length (ws ++ line) := by
  rw [protrudes_iff, List.take_left, hws]
  simp

/-- A result is the lines without the indentation, and no line was too short. -/
theorem stripAll_inv {p : Nat} {lines lines' : List Line} (h : stripAll p lines = .ok lines') :
    lines' = lines.map (·.drop p) ∧ ∀ line ∈ lines, p ≤ line.length := by
  have hgood : ∀ line ∈ lines, p ≤ line.length ∧ ¬ Protrudes p line := by
    intro line hmem
    by_contra hbad
    rw [not_and_or, not_le, not_not] at hbad
    obtain ⟨e, he⟩ := stripAll_error hmem hbad
    cases he.symm.trans h
  exact ⟨Except.ok.inj (h.symm.trans (stripAll_ok hgood)), fun line hmem => (hgood line hmem).1⟩

/-! ### Indentation without a line break -/

theorem stripAll_indented_iff {ws : Line} (hws : blank ws = true) (lines : List Line) :
    stripAll ws.length (lines.map (indentLine ws)) = .ok lines ↔
      ws = [] ∨ ∀ line ∈ lines, blank line = false := by
  constructor
  · intro h
    obtain ⟨hlines, hlen⟩ := stripAll_inv h
    by_contra hbad
    rw [not_or] at hbad
    obtain ⟨hne, hblank⟩ := hbad
    push Not at hblank
    obtain ⟨line, hmem, hline⟩ := hblank
    have hline : indentLine ws line = line := if_pos (by simpa using hline)
    have hle := hlen (indentLine ws line) (List.mem_map_of_mem hmem)
    rw [List.map_map] at hlines
    have hsame : (indentLine ws line).drop ws.length = line :=
      List.map_inj_left.mp (hlines.symm.trans (List.map_id lines).symm) line hmem
    rw [hline] at hle hsame
    have hpos : 0 < ws.length := List.length_pos_iff.mpr hne
    have := congrArg List.length hsame
    rw [List.length_drop] at this
    omega
  · rintro (rfl | hall)
    · have hid : lines.map (indentLine []) = lines := by
        refine (List.map_congr_left fun line _ => ?_).trans (List.map_id lines)
        simp [indentLine]
      rw [hid, List.length_nil, stripAll_ok fun line _ => ⟨Nat.zero_le _, by simp [Protrudes]⟩]
      simp
    · have hid : (lines.map (indentLine ws)).map (·.drop ws.length) = lines := by
        rw [List.map_map]
        refine (List.map_congr_left fun line hmem => ?_).trans (List.map_id lines)
        simp [indentLine, hall line hmem]
      rw [stripAll_ok, hid]
      intro l hl
      obtain ⟨line, hmem, rfl⟩ := List.mem_map.mp hl
      rw [indentLine, hall line hmem, if_neg Bool.false_ne_true]
      exact ⟨by simp, not_protrudes_append hws line⟩

theorem blank_append (a b : Line) : blank (a ++ b) = (blank a && blank b) := List.all_append

theorem blank_of_first {c : Char} (hc : isSpace c = false) (line : Line) :
    blank (c :: line) = false := by
  simp [blank, hc]

theorem indentLine_noBreak {ws line : Line} (hws : '\n' ∉ ws) (hline : '\n' ∉ line) :
    '\n' ∉ indentLine ws line := by
  unfold indentLine
  split
  · exact hline
  · rw [List.mem_append]
    exact not_or.mpr ⟨hws, hline⟩

theorem kept_indented {ws : Line} {lines : List Line} (h : Flush lines) (hbreak : '\n' ∉ ws) :
    kept (indented ws lines) = lines.map (indentLine ws) := by
  obtain ⟨c, line, rest, hfirst, hc⟩ := h.first
  obtain ⟨init, last, hlast, hblank⟩ := h.last
  have hsplit : (indented ws lines).splitOn '\n' = lines.map (indentLine ws) := by
    refine List.splitOn_intercalate '\n' ?_ (by simp [hfirst])
    intro l hl
    obtain ⟨line, hmem, rfl⟩ := List.mem_map.mp hl
    exact indentLine_noBreak hbreak (h.noBreak line hmem)
  have hnot : ∀ l, blank l = false → blank (indentLine ws l) = false := by
    intro l hl
    rw [indentLine, if_neg (by simp [hl]), blank_append, hl, Bool.and_false]
  have hdrop : (lines.map (indentLine ws)).dropWhile blank = lines.map (indentLine ws) := by
    rw [hfirst, List.map_cons, List.dropWhile_cons_of_neg]
    simp [hnot _ (blank_of_first hc line)]
  rw [kept, hsplit, hdrop, hlast, List.map_append, List.map_singleton,
    List.rdropWhile_concat_neg]
  simp [hnot _ hblank]

theorem dedent_indented {ws : Line} (hws : blank ws = true) {lines : List Line} (h : Flush lines)
    (hbreak : '\n' ∉ ws) :
    dedent (indented ws lines) = stripAll ws.length (lines.map (indentLine ws)) := by
  obtain ⟨c, line, rest, hfirst, hc⟩ := h.first
  have hp : indentation (lines.map (indentLine ws)) = ws.length := by
    rw [hfirst, List.map_cons, indentLine, if_neg (by simp [blank_of_first hc]),
      indentation_append hws hc]
  rw [dedent, kept_indented h hbreak, hp]

/-! ### Indentation with a line break -/

theorem splitOn_intercalate_flatMap {lines : List Line} (h : lines ≠ []) :
    (['\n'].intercalate lines).splitOn '\n' = lines.flatMap (·.splitOn '\n') := by
  induction lines with
  | nil => exact absurd rfl h
  | cons line lines ih =>
    cases lines with
    | nil => simp
    | cons line' lines =>
      rw [List.intercalate_cons_cons, List.append_assoc, List.singleton_append,
        List.splitOn_append_cons_self, ih (by simp)]
      rfl

/-- What comes after the last line break. -/
theorem exists_last_break {ws : Line} (h : '\n' ∈ ws) :
    ∃ u v, ws = u ++ '\n' :: v ∧ '\n' ∉ v := by
  obtain ⟨as, bs, heq, hnot⟩ := List.eq_append_cons_of_mem (List.mem_reverse.mpr h)
  refine ⟨bs.reverse, as.reverse, ?_, by simpa using hnot⟩
  have := congrArg List.reverse heq
  simpa using this

theorem splitOn_blank {u : Line} (hu : blank u = true) :
    ∀ line ∈ u.splitOn '\n', blank line = true := by
  induction u with
  | nil =>
    intro line hline
    cases List.mem_singleton.mp hline
    rfl
  | cons c u ih =>
    obtain ⟨hc, hu⟩ := List.forall_mem_cons.mp (List.all_eq_true.mp hu)
    have ih := ih (List.all_eq_true.mpr hu)
    intro line hline
    rw [List.splitOn_cons_eq_if_modifyHead] at hline
    split at hline
    · rcases List.mem_cons.mp hline with rfl | hline
      · rfl
      · exact ih line hline
    · cases hsplit : u.splitOn '\n' with
      | nil => exact absurd hsplit (List.splitOn_ne_nil _ _)
      | cons l ls =>
        rw [hsplit] at hline ih
        rcases List.mem_cons.mp hline with rfl | hline
        · have hl := ih l (List.mem_cons_self ..)
          simpa [blank, hc] using hl
        · exact ih line (List.mem_cons_of_mem _ hline)

theorem length_le_flatMap (lines : List Line) :
    lines.length ≤ (lines.flatMap (·.splitOn '\n')).length := by
  induction lines with
  | nil => exact Nat.le_refl 0
  | cons line lines ih =>
    have hpos : 0 < (line.splitOn '\n').length := List.length_pos_iff.mpr (List.splitOn_ne_nil _ _)
    rw [List.flatMap_cons, List.length_append, List.length_cons]
    omega

section Break

variable {u v : Line} (hu : blank u = true) (hv : blank v = true) (hbreak : '\n' ∉ v)

include hbreak in
theorem splitOn_break {line : Line} (hline : '\n' ∉ line) :
    (u ++ '\n' :: v ++ line).splitOn '\n' = u.splitOn '\n' ++ [v ++ line] := by
  have hlast : (v ++ line).splitOn '\n' = [v ++ line] :=
    List.splitOn_eq_singleton (by simp [hbreak, hline])
  rw [List.append_assoc, List.cons_append, List.splitOn_append_cons_self, hlast]

include hu hv hbreak in
/-- One line comes back: the blank lines before it are dropped. -/
theorem dedent_break_single {c : Char} (hc : isSpace c = false) {line : Line}
    (hline : '\n' ∉ c :: line) :
    dedent (indented (u ++ '\n' :: v) [c :: line]) = .ok [c :: line] := by
  have hblank := blank_of_first hc line
  have htext : indented (u ++ '\n' :: v) [c :: line] = u ++ '\n' :: v ++ (c :: line) := by
    simp [indented, indentLine, hblank]
  have hkept : kept (u ++ '\n' :: v ++ (c :: line)) = [v ++ c :: line] :=
    kept_eq_single (splitOn_break hbreak hline) (splitOn_blank hu)
      (by rw [blank_append, hblank, Bool.and_false])
  rw [htext, dedent, hkept, indentation_append hv hc, stripAll_ok]
  · simp
  · intro l hl
    cases List.mem_singleton.mp hl
    exact ⟨by simp, not_protrudes_append hv _⟩

include hu hbreak in
/-- The break in the indentation of the last line makes one line more. -/
theorem dedent_break_ne {lines : List Line} (h : Flush lines) (hlen : lines.length ≠ 1) :
    dedent (indented (u ++ '\n' :: v) lines) ≠ .ok lines := by
  obtain ⟨c, line, rest, hfirst, hc⟩ := h.first
  obtain ⟨init, last, hlast, hblank⟩ := h.last
  obtain ⟨mid, hlines⟩ : ∃ mid, lines = (c :: line) :: mid ++ [last] := by
    cases init with
    | nil =>
      rw [hlast] at hlen
      exact absurd rfl hlen
    | cons l mid =>
      rw [hfirst, List.cons_append] at hlast
      exact ⟨mid, by rw [hfirst, (List.cons.inj hlast).2]; rfl⟩
  have hblank' := blank_of_first hc line
  have hpiece : ∀ l ∈ lines, blank l = false →
      (indentLine (u ++ '\n' :: v) l).splitOn '\n' = u.splitOn '\n' ++ [v ++ l] := by
    intro l hl hlblank
    rw [indentLine, if_neg (by simp [hlblank]), splitOn_break hbreak (h.noBreak l hl)]
  have hsplit : (indented (u ++ '\n' :: v) lines).splitOn '\n' =
      u.splitOn '\n' ++ (v ++ c :: line) ::
        ((mid.map (indentLine (u ++ '\n' :: v))).flatMap (·.splitOn '\n') ++ u.splitOn '\n') ++
          [v ++ last] := by
    have hone := hpiece (c :: line) (by simp [hlines]) hblank'
    have htwo := hpiece last (by simp [hlines]) hblank
    rw [indented, splitOn_intercalate_flatMap (by simp [hlines]), hlines]
    simp only [List.map_append, List.map_cons, List.map_nil, List.flatMap_append, List.flatMap_cons,
      List.flatMap_nil, hone, htwo, List.append_assoc, List.cons_append, List.append_nil,
      List.nil_append]
  have hkept := kept_eq hsplit (splitOn_blank hu)
    (by rw [blank_append, hblank', Bool.and_false]) (by rw [blank_append, hblank, Bool.and_false])
  intro hok
  have hcount := congrArg List.length (stripAll_inv hok).1
  have hpos : 0 < (u.splitOn '\n').length := List.length_pos_iff.mpr (List.splitOn_ne_nil _ _)
  have hmid := length_le_flatMap (mid.map (indentLine (u ++ '\n' :: v)))
  rw [hkept, hlines] at hcount
  simp only [List.length_map, List.length_append, List.length_cons, List.length_nil] at hcount hmid
  omega

end Break

/-- A text that was made by indenting the lines that are not blank is turned back into the lines,
exactly when nothing was done, or there are no blank lines and the indentation has no line break in
it that comes between two lines. -/
theorem dedent_indented_iff {ws : Line} (hws : blank ws = true) {lines : List Line}
    (h : Flush lines) : dedent (indented ws lines) = .ok lines ↔
      ws = [] ∨ (∀ line ∈ lines, blank line = false) ∧ ('\n' ∉ ws ∨ lines.length = 1) := by
  by_cases hbreak : '\n' ∈ ws
  · obtain ⟨u, v, rfl, hv⟩ := exists_last_break hbreak
    rw [blank_append, Bool.and_eq_true] at hws
    have hvblank : blank v = true := by
      have := hws.2
      rw [blank, List.all_cons, Bool.and_eq_true] at this
      exact this.2
    have hne : ¬ (u ++ '\n' :: v = []) := by simp
    by_cases hlen : lines.length = 1
    · obtain ⟨c, line, rest, hfirst, hc⟩ := h.first
      have hrest : rest = [] := by
        rw [hfirst, List.length_cons] at hlen
        exact List.length_eq_zero_iff.mp (by omega)
      rw [hrest] at hfirst
      subst hfirst
      refine iff_of_true (dedent_break_single hws.1 hvblank hv hc (h.noBreak _ (by simp))) ?_
      exact Or.inr ⟨by simpa using blank_of_first hc line, Or.inr rfl⟩
    · refine iff_of_false (dedent_break_ne hws.1 hv h hlen) ?_
      rintro (h | ⟨-, h | h⟩)
      · exact hne h
      · exact h hbreak
      · exact hlen h
  · rw [dedent_indented hws h hbreak, stripAll_indented_iff hws]
    simp [hbreak]

/-- **Removing the indentation.** For every text, the indentation is removed as it should, exactly
when a line has a non-space in it or no line is shorter; and indented lines are recovered exactly
when none of them is blank, unless nothing was indented. -/
theorem dedent_correct_iff (text : List Char) :
    (Dedents text ↔
      (∃ line ∈ kept text, Protrudes (indentation (kept text)) line) ∨
        ∀ line ∈ kept text, indentation (kept text) ≤ line.length) ∧
    ∀ ws lines, blank ws = true → Flush lines →
      (dedent (indented ws lines) = .ok lines ↔
        ws = [] ∨ (∀ line ∈ lines, blank line = false) ∧ ('\n' ∉ ws ∨ lines.length = 1)) :=
  ⟨dedents_iff text, fun _ _ hws h => dedent_indented_iff hws h⟩

theorem dedent_correct_nested :
    Dedents "\t\ta\n\t\t\tb\n\t".toList ∧
      dedent (indented ['\t', '\t'] [['a'], ['\t', 'b']]) = .ok [['a'], ['\t', 'b']] := by
  obtain ⟨htext, hlines⟩ := dedent_correct_iff "\t\ta\n\t\t\tb\n\t".toList
  have hflush : Flush [['a'], ['\t', 'b']] :=
    ⟨by decide, ⟨'a', [], [['\t', 'b']], rfl, rfl⟩, ⟨[['a']], ['\t', 'b'], rfl, rfl⟩⟩
  exact ⟨htext.mpr (by decide), (hlines _ _ (by decide) hflush).mpr (by decide)⟩

/-- An empty line between two indented lines panics. -/
theorem empty_line_panics :
    (¬ ∀ text, Dedents text) ∧
    ¬ ∀ ws lines, blank ws = true → Flush lines → dedent (indented ws lines) = .ok lines := by
  have hpanic : dedent "\ta\n\n\tb".toList = .error (.slice []) := by decide
  constructor
  · intro h
    have hok := (h "\ta\n\n\tb".toList).ok (by decide)
    cases hpanic.symm.trans hok
  · intro h
    have hflush : Flush [['a'], [], ['b']] :=
      ⟨by decide, ⟨'a', [], [[], ['b']], rfl, rfl⟩, ⟨[['a'], []], ['b'], rfl, rfl⟩⟩
    have hok := h ['\t'] [['a'], [], ['b']] (by decide) hflush
    cases hpanic.symm.trans hok

end Bigmachine.Ec2
