import Bigmachine.Io.Reader

/-!
# Files

A file system is a partial map from names to files. Each operation changes the file it names
and nothing else (`Frame`), so a file that is removed after it was created leaves the file
system as it was (`remove_eq_of_frame`).

`copyTo` copies a source into a file, one write for each piece that is not empty, and any write
can fail after some items. What is in the file then is given by `copyTo_spec`.
-/

namespace Bigmachine.Io

structure File (α : Type) where
  mode : Nat
  contents : List α
  deriving DecidableEq, Repr

abbrev Files (ν α : Type) := ν → Option (File α)

namespace Files

variable {ν α ε : Type} [DecidableEq ν]

def create (fs : Files ν α) (path : ν) (mode : Nat) : Files ν α :=
  Function.update fs path (some ⟨mode, []⟩)

def append (fs : Files ν α) (path : ν) (xs : List α) : Files ν α :=
  Function.update fs path ((fs path).map fun f => { f with contents := f.contents ++ xs })

def chmod (fs : Files ν α) (path : ν) (mode : Nat) : Files ν α :=
  Function.update fs path ((fs path).map fun f => { f with mode })

def remove (fs : Files ν α) (path : ν) : Files ν α := Function.update fs path none

/-- The two file systems have files of the same names. -/
def SameNames (fs fs' : Files ν α) : Prop := ∀ p, (fs' p).isSome = (fs p).isSome

/-! ## Frames -/

/-- The two file systems differ at most in one file. -/
def Frame (path : ν) (fs fs' : Files ν α) : Prop := ∀ p, p ≠ path → fs' p = fs p

omit [DecidableEq ν] in
theorem Frame.trans {path : ν} {fs fs' fs'' : Files ν α} (h : Frame path fs fs')
    (h' : Frame path fs' fs'') : Frame path fs fs'' :=
  fun p hp => (h' p hp).trans (h p hp)

theorem frame_update (fs : Files ν α) (path : ν) (f : Option (File α)) :
    Frame path fs (Function.update fs path f) :=
  fun _ hp => Function.update_of_ne hp _ _

theorem remove_eq_of_frame {path : ν} {fs fs' : Files ν α} (hnew : fs path = none)
    (h : Frame path fs fs') : fs'.remove path = fs := by
  funext p
  by_cases hp : p = path
  · subst hp
    rw [remove, Function.update_self, hnew]
  · rw [remove, Function.update_of_ne hp, h p hp]

@[simp] theorem create_self (fs : Files ν α) (path : ν) (mode : Nat) :
    fs.create path mode path = some ⟨mode, []⟩ := Function.update_self _ _ _

theorem append_self {fs : Files ν α} {path : ν} {f : File α} (h : fs path = some f)
    (xs : List α) : fs.append path xs path = some { f with contents := f.contents ++ xs } := by
  rw [append, Function.update_self, h, Option.map_some]

theorem chmod_self {fs : Files ν α} {path : ν} {f : File α} (h : fs path = some f)
    (mode : Nat) : fs.chmod path mode path = some { f with mode } := by
  rw [chmod, Function.update_self, h, Option.map_some]

/-! ## Copying into a file -/

/-- Write the pieces, of which the first one is the write `k`. The write `k` fails when
`write k` is the number of items it has written and its error. -/
def writeAll (path : ν) (write : Nat → Option (Nat × ε)) :
    Nat → Files ν α → List (List α) → Files ν α × Option ε
  | _, fs, [] => (fs, none)
  | k, fs, [] :: cs => writeAll path write (k + 1) fs cs
  | k, fs, c :: cs =>
    match write k with
    | none => writeAll path write (k + 1) (fs.append path c) cs
    | some (n, err) => (fs.append path (c.take n), some err)

/-- The items of a source are written to a file, piece by piece, up to the error of the source
or of a write. -/
def copyTo [DecidableEq ε] (eof : ε) (fs : Files ν α) (path : ν) (write : Nat → Option (Nat × ε))
    (r : Reader α ε) : Files ν α × Option ε :=
  match writeAll path write 0 fs (r.chunks ++ [r.last]) with
  | (fs, some err) => (fs, some err)
  | (fs, none) => (fs, if r.err = eof then none else some r.err)

/-- No write of the pieces fails. -/
def Writes (write : Nat → Option (Nat × ε)) (k : Nat) (cs : List (List α)) : Prop :=
  ∀ i c, cs[i]? = some c → c ≠ [] → write (k + i) = none

omit [DecidableEq ν] in
theorem writes_cons {write : Nat → Option (Nat × ε)} {k : Nat} {c : List α} {cs : List (List α)} :
    Writes write k (c :: cs) ↔ (c ≠ [] → write k = none) ∧ Writes write (k + 1) cs := by
  constructor
  · intro h
    refine ⟨h 0 c rfl, fun i d hd hne => ?_⟩
    have hi := h (i + 1) d hd hne
    rwa [← Nat.add_assoc, Nat.add_right_comm] at hi
  · rintro ⟨hc, hcs⟩ i d hd hne
    cases i with
    | zero =>
      cases hd
      exact hc hne
    | succ i =>
      have hi := hcs i d hd hne
      rwa [Nat.add_right_comm, Nat.add_assoc] at hi

/-- What writing the pieces `cs` makes of the file `f`. -/
structure Written (write : Nat → Option (Nat × ε)) (k : Nat) (cs : List (List α)) (path : ν)
    (f : File α) (fs : Files ν α) (r : Files ν α × Option ε) : Prop where
  frame : Frame path fs r.1
  exists_file : ∃ f', r.1 path = some f' ∧ f'.mode = f.mode ∧
    (r.2 = none → f'.contents = f.contents ++ cs.flatten)
  err_iff : r.2 = none ↔ Writes write k cs

theorem writeAll_written (path : ν) (write : Nat → Option (Nat × ε)) (k : Nat)
    (cs : List (List α)) {fs : Files ν α} {f : File α} (hf : fs path = some f) :
    Written write k cs path f fs (writeAll path write k fs cs) := by
  induction cs generalizing k fs f with
  | nil =>
    exact ⟨fun _ _ => rfl, ⟨f, hf, rfl, fun _ => by simp⟩, by simp [writeAll, Writes]⟩
  | cons c cs ih =>
    cases c with
    | nil =>
      obtain ⟨hframe, hfile, herr⟩ := ih (k + 1) hf
      exact ⟨hframe, hfile, by rw [writes_cons]; simpa [writeAll] using herr⟩
    | cons x xs =>
      cases hw : write k with
      | none =>
        have hrest := ih (k + 1) (append_self hf (x :: xs))
        have heq : writeAll path write k fs ((x :: xs) :: cs) =
            writeAll path write (k + 1) (fs.append path (x :: xs)) cs := by
          simp [writeAll, hw]
        rw [heq]
        obtain ⟨f', hf', hmode, hcontents⟩ := hrest.exists_file
        refine ⟨(frame_update _ _ _).trans hrest.frame, ⟨f', hf', hmode, fun hn => ?_⟩, ?_⟩
        · rw [hcontents hn, List.flatten_cons, List.append_assoc]
        · rw [hrest.err_iff, writes_cons]
          simp [hw]
      | some p =>
        obtain ⟨n, err⟩ := p
        have heq : writeAll path write k fs ((x :: xs) :: cs) =
            (fs.append path ((x :: xs).take n), some err) := by
          simp [writeAll, hw]
        rw [heq]
        refine ⟨frame_update _ _ _, ⟨_, append_self hf _, rfl, by simp⟩, ?_⟩
        rw [writes_cons]
        simp [hw]

/-- The source ends regularly and no write fails. -/
def Copies (eof : ε) (write : Nat → Option (Nat × ε)) (r : Reader α ε) : Prop :=
  r.err = eof ∧ Writes write 0 (r.chunks ++ [r.last])

/-- Copying changes no other file; it succeeds exactly when nothing fails, and then the file has
got all the items. -/
theorem copyTo_spec [DecidableEq ε] (eof : ε) (write : Nat → Option (Nat × ε)) (r : Reader α ε)
    {fs : Files ν α} {path : ν} {f : File α} (hf : fs path = some f) :
    Frame path fs (copyTo eof fs path write r).1 ∧
      ((copyTo eof fs path write r).2 = none ↔ Copies eof write r) ∧
      ∃ f', (copyTo eof fs path write r).1 path = some f' ∧ f'.mode = f.mode ∧
        ((copyTo eof fs path write r).2 = none → f'.contents = f.contents ++ r.items) := by
  obtain ⟨hframe, ⟨f', hf', hmode, hcontents⟩, herr⟩ :=
    writeAll_written path write 0 (r.chunks ++ [r.last]) hf
  have hitems : (r.chunks ++ [r.last]).flatten = r.items := by simp [Reader.items]
  rw [hitems] at hcontents
  unfold copyTo Copies
  rw [← herr]
  clear herr
  generalize writeAll path write 0 fs (r.chunks ++ [r.last]) = p at hframe hf' hcontents ⊢
  obtain ⟨fs', err⟩ := p
  cases err with
  | some err => exact ⟨hframe, by simp, f', hf', hmode, by simp⟩
  | none => exact ⟨hframe, by simp, f', hf', hmode, fun _ => hcontents rfl⟩

end Files

end Bigmachine.Io
