import Bigmachine.Errors.Values
import Mathlib.Tactic

/-!
# The environment of an exec'd image

The entries of all `Environ` parameters are appended to `m.environ`; the driver sends them
with `Supervisor.Setenv`, and `Supervisor.Exec` appends them to the environment of the
bootstrap process. The started program takes the first entry for a key.

Entries that are appended are never first where the key is taken, so the base environment
wins over the parameters and an earlier parameter wins over a later one: the opposite of what
`Setenv` and `Environ` promise (`environ_not_overridden`). What the image sees is the promised
environment exactly when the order does not matter (`environ_override_iff`).
-/

namespace Bigmachine.Supervisor.Environment

open Errors

/-- A slice of strings of the form `key=value`. -/
abbrev Environ := List String

/-! ## The driver -/

/-- `Environ.applyParam`, on the field `environ` of a machine. -/
def applyParam (environ : List String) (e : Environ) : List String := environ ++ e

/-- The loop of `B.Start` over the parameters of a machine. -/
def applyParams (params : List Environ) : List String := params.foldl applyParam []

theorem applyParams_eq (params : List Environ) : applyParams params = params.flatten := by
  suffices h : ∀ acc, params.foldl applyParam acc = acc ++ params.flatten by
    simpa [applyParams] using h []
  induction params with
  | nil => simp
  | cons e params ih =>
    intro acc
    rw [List.foldl_cons, ih, applyParam, List.flatten_cons, List.append_assoc]

/-! ## The bootstrap process -/

/-- The bootstrap process, with the fields of its supervisor that `Exec` reads. -/
structure Process where
  binaryPath : String := ""
  environ : List String := []
  args : List String := [] -- `os.Args` of the process

/-- What `syscall.Exec` is called with. -/
structure Image where
  path : String
  args : List String
  environ : List String
  deriving DecidableEq, Repr

namespace Process

def setenv (s : Process) (env : List String) : Process := { s with environ := env }

def setargs (s : Process) (args : List String) : Process := { s with args := args }

/-- `Setbinary`, given the name of the temporary file it has written. -/
def setbinary (s : Process) (path : String) : Process := { s with binaryPath := path }

/-- `Exec` in a process with the environment `base`. -/
def exec (P : Package) (s : Process) (base : List String) : Except Err Image :=
  let environ := base ++ s.environ
  let path := s.binaryPath
  if path = "" then .error (P.E [.kind .invalid, .text "Supervisor.Exec: no binary set"])
  else .ok ⟨path, s.args, environ⟩

end Process

/-- The calls of `Machine.exec` that reach the supervisor, in their order. -/
def exec (P : Package) (s : Process) (base environ args : List String) (path : String) :
    Except Err Image :=
  (((s.setenv environ).setargs args).setbinary path).exec P base

theorem exec_eq (P : Package) (s : Process) (base environ args : List String) {path : String}
    (h : path ≠ "") : exec P s base environ args path = .ok ⟨path, args, base ++ environ⟩ := by
  simp [exec, Process.exec, Process.setenv, Process.setargs, Process.setbinary, h]

/-! ## What a program sees -/

/-- The value that an entry gives to a key: an entry is cut at its first `=`, one without
defines nothing. -/
def valueFor (key entry : String) : Option String :=
  match entry.toList.dropWhile (· ≠ '=') with
  | [] => none
  | _ :: value =>
    if entry.toList.takeWhile (· ≠ '=') = key.toList then some (String.ofList value) else none

/-- A key has the value of the first entry that defines it. -/
def getenv (environ : List String) (key : String) : Option String :=
  environ.findSome? (valueFor key)

/-- The value of the last entry that defines the key. -/
def lastValue (environ : List String) (key : String) : Option String :=
  environ.reverse.findSome? (valueFor key)

/-- The environment that the parameters promise: later definitions override earlier ones, and
all override the base environment. -/
def overridden (base : List String) (params : List Environ) (key : String) : Option String :=
  (lastValue params.flatten key).or (getenv base key)

theorem getenv_append (base environ : List String) (key : String) :
    getenv (base ++ environ) key = (getenv base key).or (getenv environ key) :=
  List.findSome?_append

/-- A key is defined by a first entry exactly when it is by a last one. -/
theorem getenv_eq_none_iff (environ : List String) (key : String) :
    getenv environ key = none ↔ lastValue environ key = none := by
  simp [getenv, lastValue]

/-- The order of the definitions does not matter: a key that the base environment defines
has there the value of its last definition by a parameter, and for every other key the first
and the last definition by a parameter agree. -/
def OrderIrrelevant (base : List String) (params : List Environ) : Prop :=
  ∀ key value, lastValue params.flatten key = some value →
    (∀ old, getenv base key = some old → old = value) ∧
    (getenv base key = none → getenv params.flatten key = some value)

/-- **Environment override.** The image that `Exec` runs sees the promised environment, for
every key, exactly when the order of the definitions does not matter. -/
theorem environ_override_iff (P : Package) (s : Process) (base args : List String)
    (params : List Environ) (path : String) (hpath : path ≠ "") :
    ∃ image, exec P s base (applyParams params) args path = .ok image ∧
      ((∀ key, getenv image.environ key = overridden base params key) ↔
        OrderIrrelevant base params) := by
  refine ⟨_, exec_eq P s base _ args hpath, ?_⟩
  rw [applyParams_eq]
  constructor
  · intro h key value hlast
    have hkey := h key
    rw [getenv_append, overridden, hlast, Option.some_or] at hkey
    constructor
    · intro old hold
      rw [hold, Option.some_or] at hkey
      exact Option.some.inj hkey
    · intro hnone
      rwa [hnone, Option.none_or] at hkey
  · intro h key
    rw [getenv_append, overridden]
    cases hlast : lastValue params.flatten key with
    | none => rw [(getenv_eq_none_iff _ _).mpr hlast, Option.or_none, Option.none_or]
    | some value =>
      obtain ⟨hold, hnone⟩ := h key value hlast
      cases hbase : getenv base key with
      | none => rw [Option.none_or, Option.some_or, hnone hbase]
      | some old => rw [Option.some_or, Option.some_or, hold old hbase]

/-- An entry gives its value to its own key only. -/
theorem valueFor_entry (key k v : String) (hk : '=' ∉ k.toList) :
    valueFor key (k ++ "=" ++ v) = if k = key then some v else none := by
  have htoList : (k ++ "=" ++ v).toList = k.toList ++ '=' :: v.toList := by simp
  have hall : ∀ c ∈ k.toList, decide (c ≠ '=') = true :=
    fun c hc => decide_eq_true fun heq => hk (heq ▸ hc)
  unfold valueFor
  rw [htoList, List.takeWhile_append_of_pos hall, List.dropWhile_append_of_pos hall]
  simp [String.toList_inj]

/-- Parameters that define a key of the base environment again, and another one twice. -/
theorem orderIrrelevant_again :
    OrderIrrelevant ["HOME=/", "A=1"] [["A=1", "B=2"], ["B=2"]] := by
  intro key value hlast
  have hhome : valueFor key "HOME=/" = if "HOME" = key then some "/" else none :=
    valueFor_entry key "HOME" "/" (by decide)
  have ha : valueFor key "A=1" = if "A" = key then some "1" else none :=
    valueFor_entry key "A" "1" (by decide)
  have hb : valueFor key "B=2" = if "B" = key then some "2" else none :=
    valueFor_entry key "B" "2" (by decide)
  have hflat : [["A=1", "B=2"], ["B=2"]].flatten = ["A=1", "B=2", "B=2"] := rfl
  rw [hflat] at hlast ⊢
  simp only [lastValue, getenv, List.findSome?_cons, List.findSome?_nil, List.reverse_cons,
    List.reverse_nil, List.nil_append, List.cons_append, hhome, ha, hb] at hlast ⊢
  by_cases hkey : "A" = key
  · subst hkey
    simpa using hlast
  · by_cases hkey' : "B" = key
    · subst hkey'
      simpa using hlast
    · simp [hkey, hkey'] at hlast

theorem environ_override_iff_again :
    "/tmp/bin" ≠ "" ∧ ∃ image,
      exec Reference.package {} ["HOME=/", "A=1"] (applyParams [["A=1", "B=2"], ["B=2"]]) []
        "/tmp/bin" = .ok image ∧
      ∀ key, getenv image.environ key =
        overridden ["HOME=/", "A=1"] [["A=1", "B=2"], ["B=2"]] key := by
  have hpath : "/tmp/bin" ≠ "" := by decide
  obtain ⟨image, himage, hiff⟩ := environ_override_iff Reference.package {} ["HOME=/", "A=1"] []
    [["A=1", "B=2"], ["B=2"]] "/tmp/bin" hpath
  exact ⟨hpath, image, himage, hiff.mpr orderIrrelevant_again⟩

/-- A key of the base environment keeps its old value. -/
theorem environ_not_overridden :
    ¬ ∀ (P : Package) (s : Process) (base args : List String) (params : List Environ)
      (path : String) (image : Image), path ≠ "" →
      exec P s base (applyParams params) args path = .ok image →
      ∀ key, getenv image.environ key = overridden base params key := by
  intro h
  have hpath : "/tmp/bin" ≠ "" := by decide
  have hkey := h Reference.package {} ["HOME=/root"] [] [["HOME=/tmp"]] "/tmp/bin" _ hpath
    (exec_eq _ _ _ _ _ hpath) "HOME"
  revert hkey
  decide

/-- A later parameter does not override an earlier one either. -/
example : getenv ([] ++ applyParams [["A=1"], ["A=2"]]) "A" = some "1" ∧
    overridden [] [["A=1"], ["A=2"]] "A" = some "2" := by
  decide

end Bigmachine.Supervisor.Environment
