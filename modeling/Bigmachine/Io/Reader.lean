import Mathlib.Tactic

/-!
# Sources that are read to their end

A source is described by the results of the reads that empty it: pieces without an error,
then the read that returns an error, which may come together with some last items. The
error `eof` is the regular end. How the items fall into pieces is up to whoever reads and
whoever delivers, so results are stated for `Reader.items`, and `Reader.Delivers` says
that a reader gives a known sequence in pieces of any kind.
-/

namespace Bigmachine.Io

structure Reader (α ε : Type) where
  chunks : List (List α) := []
  last : List α := []
  err : ε

namespace Reader

variable {α ε : Type} [DecidableEq ε] (eof : ε)

/-- All items read before the error. -/
def items (r : Reader α ε) : List α := r.chunks.flatten ++ r.last

/-- Copying from the source to a sink that takes everything: the items written, piece by
piece, and the error, which is absent at the regular end. -/
def copy (r : Reader α ε) : List α × Option ε :=
  (r.chunks.foldl (· ++ ·) [] ++ r.last, if r.err = eof then none else some r.err)

/-- Change the error that ends the source. -/
def mapErr (f : ε → ε) (r : Reader α ε) : Reader α ε := { r with err := f r.err }

/-- The reader gives the items `xs` and then ends regularly. -/
def Delivers (r : Reader α ε) (xs : List α) : Prop := r.items = xs ∧ r.err = eof

theorem copy_items (r : Reader α ε) : (r.copy eof).1 = r.items := by
  have h : ∀ (acc : List α) (cs : List (List α)), cs.foldl (· ++ ·) acc = acc ++ cs.flatten := by
    intro acc cs
    induction cs generalizing acc with
    | nil => simp
    | cons c cs ih => simp [ih]
  simp [copy, items, h]

theorem copy_err (r : Reader α ε) :
    (r.copy eof).2 = if r.err = eof then none else some r.err := rfl

omit [DecidableEq ε] in
@[simp] theorem mapErr_items (f : ε → ε) (r : Reader α ε) : (r.mapErr f).items = r.items := rfl

omit [DecidableEq ε] in
@[simp] theorem mapErr_err (f : ε → ε) (r : Reader α ε) : (r.mapErr f).err = f r.err := rfl

end Reader

end Bigmachine.Io
