import Bigmachine.Io.Files
import Bigmachine.Rpc.ErrorFidelity
import Bigmachine.Supervisor.Environment

/-!
# The upload of a binary

`Supervisor.Setbinary` writes the binary that it is sent to a temporary file, makes the file
executable and sets `binaryPath` to its name. Each of the steps can fail. A binary that was set
is the one that was uploaded, to the last byte, and an upload that fails leaves `binaryPath`
alone; but the temporary file is removed only when `Close` or `Chmod` has failed. When the
stream breaks or a write fails, what was written stays on the disk
(`setbinary_leaves_partial`, `setbinary_atomic_iff`).
-/

namespace Bigmachine.Supervisor.Binary

open Errors Io Rpc Environment

abbrev FileSystem := Files String UInt8

/-- What the calls of `Setbinary` return. A temporary file gets a name that is not taken. -/
structure Outcomes (fs : FileSystem) where
  tempFile : Except Err String
  fresh : ∀ path, tempFile = .ok path → path ≠ "" ∧ fs path = none
  write : Nat → Option (Nat × Err) := fun _ => none -- of the bytes only some are written
  close : Option Err := none
  chmod : Option Err := none
  remove : Option Err := none

/-- `os.Remove`. -/
def removeFile (fs : FileSystem) (path : String) : Option Err → FileSystem
  | none => fs.remove path
  | some _ => fs

structure Result where
  files : FileSystem
  process : Process
  err : Option Err

/-- `Supervisor.Setbinary`. -/
def setbinary (fs : FileSystem) (s : Process) (o : Outcomes fs) (binary : Stream) : Result :=
  match o.tempFile with
  | .error err => ⟨fs, s, some err⟩
  | .ok path =>
    match (fs.create path 0o600).copyTo .eof path o.write binary with
    -- the file stays
    | (fs, some err) => ⟨fs, s, some err⟩
    | (fs, none) =>
      match o.close with
      | some err => ⟨removeFile fs path o.remove, s, some err⟩
      | none =>
        match o.chmod with
        | some err => ⟨removeFile fs path o.remove, s, some err⟩
        | none => ⟨fs.chmod path 0o755, s.setbinary path, none⟩

/-! ## The outcomes -/

/-- What is true of every result, of a call that has created the file `path`. -/
inductive Outcome (fs : FileSystem) (s : Process) (o : Outcomes fs) (binary : Stream)
    (path : String) (r : Result) : Prop
  | done (copied : Files.Copies .eof o.write binary) (closed : o.close = none)
      (changed : o.chmod = none) (err : r.err = none) (process : r.process = s.setbinary path)
      (file : r.files path = some ⟨0o755, binary.items⟩) (frame : Files.Frame path fs r.files)
  | removed (copied : Files.Copies .eof o.write binary)
      (failed : o.close ≠ none ∨ o.chmod ≠ none) (hremove : o.remove = none)
      (err : r.err ≠ none) (process : r.process = s) (files : r.files = fs)
  | left (failed : ¬ Files.Copies .eof o.write binary ∨
        (o.close ≠ none ∨ o.chmod ≠ none) ∧ o.remove ≠ none)
      (err : r.err ≠ none) (process : r.process = s) (file : r.files path ≠ none)

theorem setbinary_of_error {fs : FileSystem} (s : Process) {o : Outcomes fs} (binary : Stream)
    {err : Err} (h : o.tempFile = .error err) : setbinary fs s o binary = ⟨fs, s, some err⟩ := by
  rw [setbinary, h]

/-- `os.Remove` after a copy that has succeeded. -/
theorem removed_or_left {fs fs' : FileSystem} {s : Process} {o : Outcomes fs} {binary : Stream}
    {path : String} {err : Err} (hnew : fs path = none) (hframe : Files.Frame path fs fs')
    (hfile : fs' path ≠ none) (hcopied : Files.Copies .eof o.write binary)
    (hfailed : o.close ≠ none ∨ o.chmod ≠ none) :
    Outcome fs s o binary path ⟨removeFile fs' path o.remove, s, some err⟩ := by
  cases hr : o.remove with
  | none => exact .removed hcopied hfailed hr (by simp) rfl (Files.remove_eq_of_frame hnew hframe)
  | some e => exact .left (Or.inr ⟨hfailed, by simp [hr]⟩) (by simp) rfl hfile

theorem setbinary_outcome {fs : FileSystem} (s : Process) {o : Outcomes fs} (binary : Stream)
    {path : String} (h : o.tempFile = .ok path) :
    Outcome fs s o binary path (setbinary fs s o binary) := by
  have hnew : fs path = none := (o.fresh path h).2
  obtain ⟨hcopy, herr, f, hf, -, hcontents⟩ :=
    Files.copyTo_spec Err.eof o.write binary (fs.create_self path 0o600)
  have hframe := (Files.frame_update fs path _).trans hcopy
  simp only [setbinary, h]
  generalize (fs.create path 0o600).copyTo .eof path o.write binary = p at herr hf hcontents hframe
  obtain ⟨fs', err⟩ := p
  dsimp only at herr hf hcontents hframe ⊢
  have hfile : fs' path ≠ none := by simp [hf]
  cases err with
  | some err =>
    have hnot : ¬ Files.Copies .eof o.write binary := fun hc => by cases herr.mpr hc
    exact .left (Or.inl hnot) (by simp) rfl hfile
  | none =>
    have hcopied : Files.Copies .eof o.write binary := herr.mp rfl
    cases hclose : o.close with
    | some err => exact removed_or_left hnew hframe hfile hcopied (Or.inl (by simp [hclose]))
    | none =>
      cases hchmod : o.chmod with
      | some err => exact removed_or_left hnew hframe hfile hcopied (Or.inr (by simp [hchmod]))
      | none =>
        have hset : fs'.chmod path 0o755 path = some ⟨0o755, binary.items⟩ := by
          rw [Files.chmod_self hf, hcontents rfl, List.nil_append]
        exact .done hcopied hclose hchmod rfl rfl hset
          (hframe.trans (Files.frame_update _ _ _))

/-! ## Atomicity -/

/-- All may execute the file. -/
def Executable (f : File UInt8) : Prop := f.mode &&& 0o111 = 0o111

theorem executable_755 (contents : Bytes) : Executable ⟨0o755, contents⟩ := by
  simp [Executable]

/-- Either the upload is the binary from now on, or nothing has changed. -/
structure Atomic (fs : FileSystem) (s : Process) (binary : Stream) (r : Result) : Prop where
  success : r.err = none → binary.err = .eof ∧
    ∃ f, r.files r.process.binaryPath = some f ∧ Executable f ∧ f.contents = binary.items
  failure : r.err ≠ none → r.process.binaryPath = s.binaryPath ∧ fs.SameNames r.files

/-- Once the temporary file is there, it is written completely; and it can be removed when it
must be. -/
def CleansUp {fs : FileSystem} (o : Outcomes fs) (binary : Stream) : Prop :=
  ∀ path, o.tempFile = .ok path → Files.Copies .eof o.write binary ∧
    (o.close ≠ none ∨ o.chmod ≠ none → o.remove = none)

/-- **Atomicity of `Setbinary`**, for every stream and every outcome of its calls: either the
uploaded binary is set, or `binaryPath` and the set of files are as before, exactly when the
copy does not fail, nor a removal of the temporary file. -/
theorem setbinary_atomic_iff (fs : FileSystem) (s : Process) (o : Outcomes fs) (binary : Stream) :
    Atomic fs s binary (setbinary fs s o binary) ↔ CleansUp o binary := by
  cases ht : o.tempFile with
  | error err =>
    rw [setbinary_of_error s binary ht]
    constructor
    · intro _ path hpath
      cases ht.symm.trans hpath
    · exact fun _ => ⟨nofun, fun _ => ⟨rfl, fun _ => rfl⟩⟩
  | ok path =>
    have hnew : fs path = none := (o.fresh path ht).2
    have hclean : CleansUp o binary ↔ Files.Copies .eof o.write binary ∧
        (o.close ≠ none ∨ o.chmod ≠ none → o.remove = none) := by
      simp only [CleansUp, ht, Except.ok.injEq, forall_eq']
    rw [hclean]
    cases setbinary_outcome s binary ht with
    | done copied closed changed err process file frame =>
      refine ⟨fun _ => ⟨copied, fun h => by simp [closed, changed] at h⟩, fun _ => ?_⟩
      refine ⟨fun _ => ⟨copied.1, _, ?_, executable_755 _, rfl⟩, fun h => absurd err h⟩
      rw [process]
      exact file
    | removed copied failed hremove err process files =>
      refine ⟨fun _ => ⟨copied, fun _ => hremove⟩, fun _ => ⟨fun h => absurd h err, fun _ => ?_⟩⟩
      rw [process, files]
      exact ⟨rfl, fun _ => rfl⟩
    | left failed err process file =>
      constructor
      · intro hatomic
        have hsame := (hatomic.failure err).2 path
        rw [hnew] at hsame
        exact absurd (Option.isSome_eq_false_iff.mp hsame) (by simpa using file)
      · rintro ⟨hcopies, hremove⟩
        rcases failed with hnot | ⟨hfailed, hne⟩
        · exact absurd hcopies hnot
        · exact absurd (hremove hfailed) hne

/-- The connection breaks after the first byte of the upload. -/
theorem setbinary_leaves_partial :
    ¬ ∀ (fs : FileSystem) (s : Process) (o : Outcomes fs) (binary : Stream),
      Atomic fs s binary (setbinary fs s o binary) := by
  intro h
  have hatomic := h (fun _ => none) {} ⟨.ok "/tmp/1", by simp, fun _ => none, none, none, none⟩
    { chunks := [[0x7f]], err := .text "unexpected EOF" }
  have hsame := (hatomic.failure (by decide)).2 "/tmp/1"
  revert hsame
  decide

/-! ## The next reader -/

/-- `os.Open`, on a file system that is only read. -/
def openFile (fs : FileSystem) (path : String) : Except Err Stream :=
  match fs path with
  | some f => .ok { last := f.contents, err := .eof }
  | none => .error (.text ("open " ++ path ++ ": no such file or directory"))

/-- After a `Setbinary` that has succeeded `GetBinary` returns the upload. -/
theorem getBinary_setbinary (P : Package) (fs : FileSystem) (s : Process) (o : Outcomes fs)
    (binary : Stream) (h : (setbinary fs s o binary).err = none) :
    ∃ rc, (getBinary P (setbinary fs s o binary).process.binaryPath
        (openFile (setbinary fs s o binary).files)).readcloser = some rc ∧
      rc.Delivers .eof binary.items := by
  cases ht : o.tempFile with
  | error err =>
    rw [setbinary_of_error s binary ht] at h
    cases h
  | ok path =>
    cases setbinary_outcome s binary ht with
    | done copied closed changed err process file frame =>
      have hpath : (s.setbinary path).binaryPath ≠ "" := (o.fresh path ht).1
      have hopen : openFile (setbinary fs s o binary).files (s.setbinary path).binaryPath =
          .ok { last := binary.items, err := .eof } := by
        rw [openFile, show (s.setbinary path).binaryPath = path from rfl, file]
      rw [process, getBinary, if_neg hpath, hopen]
      exact ⟨_, rfl, by simp [Reader.items], rfl⟩
    | removed _ _ _ err => exact absurd h err
    | left _ err => exact absurd h err

end Bigmachine.Supervisor.Binary
