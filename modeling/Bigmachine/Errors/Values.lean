import Mathlib.Logic.Equiv.List
import Mathlib.Tactic
import Mathlib.Tactic.DeriveEncodable

/-!
# Error values

Go errors as the repository uses them: the two errors of package context, `io.EOF`,
errors made from a text (`errors.New`, `fmt.Errorf`) and the `*errors.Error` of package
`github.com/grailbio/base/errors`, with or without a cause.

The package itself is not part of the repository. `Package` collects the functions the
repository calls, as parameters; what a proof needs of them is a named hypothesis
(`Package.ReturnsError`, `Package.SetsKind` and the others below). `Reference.package` is
one package with the documented behaviour, for which they are proved.
-/

namespace Bigmachine.Errors

/-- The kinds named in the repository; `unnamed` stands for the others. -/
inductive Kind
  | other | canceled | invalid | net | notSupported | oom | precondition | remote | unavailable
  | unnamed (n : Nat)
  deriving DecidableEq, Repr

inductive Severity
  | retriable | temporary | unknown | fatal
  deriving DecidableEq, Repr

/-- The error of a context that is done. -/
inductive CtxErr
  | canceled | deadlineExceeded
  deriving DecidableEq, Repr

/-- `ctx` is one of the errors of package context itself, not wrapped; `leaf` and `wrap`
are an `*errors.Error` without and with a cause. -/
inductive Err
  | ctx (e : CtxErr)
  | eof
  | text (message : String)
  | leaf (kind : Kind) (severity : Severity) (message : String)
  | wrap (kind : Kind) (severity : Severity) (message : String) (cause : Err)
  deriving DecidableEq, Repr

namespace Err

/-- The fields `Kind`, `Severity`, `Message` and `Err` of an `*errors.Error`; other
errors have none of their own. -/
def kind : Err → Kind
  | leaf k _ _ | wrap k _ _ _ => k
  | _ => .other

def severity : Err → Severity
  | leaf _ s _ | wrap _ s _ _ => s
  | _ => .unknown

def message : Err → String
  | leaf _ _ m | wrap _ _ m _ => m
  | _ => ""

def cause : Err → Option Err
  | wrap _ _ _ c => some c
  | _ => none

/-- The first kind other than `Other` from the outside in. -/
def outermostKind : Err → Kind
  | leaf k _ _ => k
  | wrap k _ _ c => if k = .other then c.outermostKind else k
  | _ => .other

theorem outermostKind_eq {e : Err} (h : e.kind ≠ .other) : e.outermostKind = e.kind := by
  cases e with
  | wrap k s m c => exact if_neg h
  | leaf k s m => rfl
  | ctx | eof | text => exact absurd rfl h

/-- The error has `c` among its causes. -/
def Wraps : Err → Err → Prop
  | wrap _ _ _ cause, c => cause = c ∨ cause.Wraps c
  | _, _ => False

/-- The error is an `*errors.Error`. -/
def IsError : Err → Prop
  | leaf _ _ _ | wrap _ _ _ _ => True
  | _ => False

instance (e : Err) : Decidable e.IsError := by
  cases e <;> unfold IsError <;> infer_instance

theorem IsError.ext {e e' : Err} (h : e.IsError) (h' : e'.IsError) (hk : e.kind = e'.kind)
    (hs : e.severity = e'.severity) (hm : e.message = e'.message) (hc : e.cause = e'.cause) :
    e = e' := by
  match e, e' with
  | leaf _ _ _, leaf _ _ _ => cases hk; cases hs; cases hm; rfl
  | wrap _ _ _ _, wrap _ _ _ _ => cases hk; cases hs; cases hm; cases hc; rfl
  | leaf _ _ _, wrap _ _ _ _ | wrap _ _ _ _, leaf _ _ _ => cases hc

end Err

/-- An argument of `errors.E`. -/
inductive Arg
  | kind (k : Kind)
  | severity (s : Severity)
  | text (message : String)
  | err (e : Err)
  deriving DecidableEq, Repr

/-- The functions of the errors package that the repository calls: `recover` is `errors.Recover` on
errors that are not nil, `matchFatal` is `errors.Match(errors.E(errors.Fatal), err)`, and `format`
is the text of an `*errors.Error`, from its fields. -/
structure Package where
  E : List Arg → Err
  recover : Err → Err
  is : Kind → Err → Bool
  matchFatal : Err → Bool
  isTemporary : Err → Bool
  format : Kind → Severity → String → Option Err → String

/-- `err.Error()`. -/
def Package.errorText (P : Package) : Err → String
  | .ctx .canceled => "context canceled"
  | .ctx .deadlineExceeded => "context deadline exceeded"
  | .eof => "EOF"
  | .text m => m
  | .leaf k s m => P.format k s m none
  | .wrap k s m c => P.format k s m (some c)

/-! ## What is assumed of the package -/

/-- `E` returns an `*errors.Error`. -/
def Package.ReturnsError (P : Package) : Prop := ∀ args, (P.E args).IsError

/-- A kind given to `E` is the kind of the result. -/
def Package.SetsKind (P : Package) : Prop :=
  ∀ args k, k ≠ .other → Arg.kind k ∈ args → (∀ k', Arg.kind k' ∈ args → k' = k) →
    (P.E args).kind = k

/-- A severity given to `E` is the severity of the result. -/
def Package.SetsSeverity (P : Package) : Prop :=
  ∀ args s, s ≠ .unknown → Arg.severity s ∈ args → (∀ s', Arg.severity s' ∈ args → s' = s) →
    (P.E args).severity = s

/-- A severity that is not given to `E` is that of the `*errors.Error` given. -/
def Package.InheritsSeverity (P : Package) : Prop :=
  ∀ args e, e.IsError → (∀ s, Arg.severity s ∉ args) → Arg.err e ∈ args →
    (∀ e', Arg.err e' ∈ args → e' = e) → (P.E args).severity = e.severity

/-- A kind that is not given to `E` is that of the `*errors.Error` given, and `Canceled` for
`context.Canceled`. -/
structure Package.InheritsKind (P : Package) : Prop where
  error : ∀ args e, e.IsError → (∀ k, Arg.kind k ∉ args) → Arg.err e ∈ args →
    (∀ e', Arg.err e' ∈ args → e' = e) → (P.E args).kind = e.kind
  canceled : ∀ args, (∀ k, Arg.kind k ∉ args) → Arg.err (.ctx .canceled) ∈ args →
    (∀ e', Arg.err e' ∈ args → e' = .ctx .canceled) → (P.E args).kind = .canceled

/-- `E` does not lose `context.Canceled`. -/
def Package.KeepsCanceled (P : Package) : Prop :=
  ∀ args e, (e = .ctx .canceled ∨ e.Wraps (.ctx .canceled)) → Arg.err e ∈ args →
    (∀ e', Arg.err e' ∈ args → e' = e) → (P.E args).Wraps (.ctx .canceled)

/-- `Is` looks at the outermost kind other than `Other`; an error of package context is not
of kind `Net`. -/
structure Package.IsOutermost (P : Package) : Prop where
  error : ∀ (k : Kind) (e : Err), k ≠ .other → e.IsError → (P.is k e = true ↔ e.outermostKind = k)
  context : ∀ c, P.is .net (.ctx c) = false

/-- `Match(E(Fatal), err)` tells the fatal errors. -/
def Package.MatchesFatal (P : Package) : Prop :=
  ∀ e : Err, P.matchFatal e = true ↔ e.IsError ∧ e.severity = .fatal

/-- A fatal error is not temporary. -/
def Package.FatalIsFinal (P : Package) : Prop :=
  ∀ e : Err, e.IsError → e.severity = .fatal → P.isTemporary e = false

/-- `Recover` returns an `*errors.Error`: its argument when that is one, and otherwise an
error that wraps it. -/
def Package.Recovers (P : Package) : Prop :=
  ∀ e, (P.recover e).IsError ∧ (e.IsError → P.recover e = e) ∧
    (¬ e.IsError → (P.recover e).cause = some e)

/-- The error `r` is of kind `Remote` and wraps the `*errors.Error` `e`: it has the severity
of `e`, and a cause with the kind, the message and the cause of `e`. -/
structure WrapsRemote (e r : Err) : Prop where
  kind : r.kind = .remote
  severity : r.severity = e.severity
  cause : ∃ c, r.cause = some c ∧ c.kind = e.kind ∧ c.message = e.message ∧ c.cause = e.cause

/-- `E(Remote, e)` wraps `e`. -/
def Package.MakesRemote (P : Package) : Prop :=
  ∀ e : Err, e.IsError → WrapsRemote e (P.E [.kind .remote, .err e])

theorem WrapsRemote.unique {e e' r : Err} (h : WrapsRemote e r) (h' : WrapsRemote e' r)
    (he : e.IsError) (he' : e'.IsError) : e = e' := by
  obtain ⟨c, hc, hk, hm, hcc⟩ := h.cause
  obtain ⟨c', hc', hk', hm', hcc'⟩ := h'.cause
  obtain rfl : c = c' := Option.some.inj (hc.symm.trans hc')
  exact he.ext he' (hk.symm.trans hk') (h.severity.symm.trans h'.severity) (hm.symm.trans hm')
    (hcc.symm.trans hcc')

/-! ## A package with the documented behaviour -/

namespace Reference

-- texts and errors are numbered, for encodings of values
instance encodableChar : Encodable Char :=
  Encodable.ofLeftInverse Char.toNat Char.ofNat Char.ofNat_toNat

instance encodableString : Encodable String :=
  Encodable.ofLeftInverse String.toList String.ofList fun _ => String.ofList_toList

deriving instance Encodable for CtxErr, Kind, Severity, Err

/-- The arguments of `E`: the last kind, severity and error given, and the texts joined
by single blanks. -/
structure Fields where
  kind : Kind := .other
  severity : Severity := .unknown
  message : String := ""
  cause : Option Err := none

def collect (c : Fields) : Arg → Fields
  | .kind k => { c with kind := k }
  | .severity s => { c with severity := s }
  | .text m => { c with message := if c.message = "" then m else c.message ++ " " ++ m }
  | .err e => { c with cause := some e }

/-- The kind an error without one takes from its cause. -/
def causeKind : Err → Kind
  | .ctx .canceled => .canceled
  | e => e.kind

def setKind (k : Kind) : Err → Err
  | .leaf _ s m => .leaf k s m
  | .wrap _ s m c => .wrap k s m c
  | e => e

def setSeverity (s : Severity) : Err → Err
  | .leaf k _ m => .leaf k s m
  | .wrap k _ m c => .wrap k s m c
  | e => e

/-- A kind or severity that is not given moves up from the cause. -/
def assemble (c : Fields) : Err :=
  match c.cause with
  | none => .leaf c.kind c.severity c.message
  | some prev =>
    let kind := if c.kind = .other then causeKind prev else c.kind
    let severity := if c.severity = .unknown then prev.severity else c.severity
    let prev := if c.kind = .other then setKind .other prev else prev
    let prev := if c.severity = .unknown then setSeverity .unknown prev else prev
    .wrap kind severity c.message prev

def E (args : List Arg) : Err :=
  match args with
  | [.err (.leaf k s m)] => .leaf k s m
  | [.err (.wrap k s m c)] => .wrap k s m c
  | _ => assemble (args.foldl collect {})

def text : Err → String
  | .ctx .canceled => "context canceled"
  | .ctx .deadlineExceeded => "context deadline exceeded"
  | .eof => "EOF"
  | .text m | .leaf _ _ m => m
  | .wrap _ _ m c => if m = "" then text c else m ++ ": " ++ text c

def recover (e : Err) : Err := if e.IsError then e else E [.err e]

def package : Package where
  E := E
  recover := recover
  is k e := (recover e).outermostKind = k
  matchFatal e := e.severity = .fatal
  isTemporary e := e.severity = .temporary ∨ e.severity = .retriable
  format k s m
    | none => text (.leaf k s m)
    | some c => text (.wrap k s m c)

theorem assemble_isError (c : Fields) : (assemble c).IsError := by
  unfold assemble
  split <;> trivial

theorem assemble_kind {c : Fields} (h : c.kind ≠ .other) : (assemble c).kind = c.kind := by
  unfold assemble
  split
  · rfl
  · simp [Err.kind, h]

theorem assemble_severity {c : Fields} (h : c.severity ≠ .unknown) :
    (assemble c).severity = c.severity := by
  unfold assemble
  split
  · rfl
  · simp [Err.severity, h]

theorem foldl_collect_kind {k : Kind} {args : List Arg}
    (hall : ∀ k', Arg.kind k' ∈ args → k' = k) {c : Fields}
    (hc : c.kind = k ∨ Arg.kind k ∈ args) : (args.foldl collect c).kind = k := by
  induction args generalizing c with
  | nil => simpa using hc
  | cons a args ih =>
    refine ih (fun k' hk' => hall k' (List.mem_cons_of_mem _ hk')) ?_
    cases a with
    | kind k' => exact Or.inl (hall k' List.mem_cons_self)
    | severity _ | text _ | err _ => simpa [collect] using hc

theorem foldl_collect_severity {s : Severity} {args : List Arg}
    (hall : ∀ s', Arg.severity s' ∈ args → s' = s) {c : Fields}
    (hc : c.severity = s ∨ Arg.severity s ∈ args) : (args.foldl collect c).severity = s := by
  induction args generalizing c with
  | nil => simpa using hc
  | cons a args ih =>
    refine ih (fun s' hs' => hall s' (List.mem_cons_of_mem _ hs')) ?_
    cases a with
    | severity s' => exact Or.inl (hall s' List.mem_cons_self)
    | kind _ | text _ | err _ => simpa [collect] using hc

theorem foldl_collect_noSeverity {args : List Arg} (hnone : ∀ s, Arg.severity s ∉ args)
    (c : Fields) : (args.foldl collect c).severity = c.severity := by
  induction args generalizing c with
  | nil => rfl
  | cons a args ih =>
    rw [List.foldl_cons, ih fun s hs => hnone s (List.mem_cons_of_mem _ hs)]
    cases a with
    | severity s => exact absurd List.mem_cons_self (hnone s)
    | kind _ | text _ | err _ => rfl

theorem foldl_collect_cause {e : Err} {args : List Arg} (hall : ∀ e', Arg.err e' ∈ args → e' = e)
    {c : Fields} (hc : c.cause = some e ∨ Arg.err e ∈ args) :
    (args.foldl collect c).cause = some e := by
  induction args generalizing c with
  | nil => simpa using hc
  | cons a args ih =>
    refine ih (fun e' he' => hall e' (List.mem_cons_of_mem _ he')) ?_
    cases a with
    | err e' => exact Or.inl (congrArg some (hall e' List.mem_cons_self))
    | kind _ | severity _ | text _ => simpa [collect] using hc

theorem returnsError : package.ReturnsError := by
  intro args
  change (E args).IsError
  unfold E
  split
  · trivial
  · trivial
  · exact assemble_isError _

theorem setsKind : package.SetsKind := by
  intro args k hk hmem hall
  change (E args).kind = k
  unfold E
  split
  · simp at hmem
  · simp at hmem
  · have hfold : (args.foldl collect {}).kind = k := foldl_collect_kind hall (Or.inr hmem)
    rw [assemble_kind (by rwa [hfold]), hfold]

theorem setsSeverity : package.SetsSeverity := by
  intro args s hs hmem hall
  change (E args).severity = s
  unfold E
  split
  · simp at hmem
  · simp at hmem
  · have hfold : (args.foldl collect {}).severity = s :=
      foldl_collect_severity hall (Or.inr hmem)
    rw [assemble_severity (by rwa [hfold]), hfold]

theorem inheritsSeverity : package.InheritsSeverity := by
  intro args e he hnone hmem hall
  change (E args).severity = e.severity
  unfold E
  split
  · rw [hall _ List.mem_cons_self]
  · rw [hall _ List.mem_cons_self]
  · have hsev := foldl_collect_noSeverity hnone {}
    have hcause := foldl_collect_cause (c := {}) hall (Or.inr hmem)
    simp [assemble, hcause, hsev, Err.severity]

theorem foldl_collect_noKind {args : List Arg} (hnone : ∀ k, Arg.kind k ∉ args)
    (c : Fields) : (args.foldl collect c).kind = c.kind := by
  induction args generalizing c with
  | nil => rfl
  | cons a args ih =>
    rw [List.foldl_cons, ih fun k hk => hnone k (List.mem_cons_of_mem _ hk)]
    cases a with
    | kind k => exact absurd List.mem_cons_self (hnone k)
    | severity _ | text _ | err _ => rfl

theorem assemble_causeKind {args : List Arg} {e : Err} (hnone : ∀ k, Arg.kind k ∉ args)
    (hmem : Arg.err e ∈ args) (hall : ∀ e', Arg.err e' ∈ args → e' = e) :
    (assemble (args.foldl collect {})).kind = causeKind e := by
  have hkind := foldl_collect_noKind hnone {}
  have hcause := foldl_collect_cause (c := {}) hall (Or.inr hmem)
  simp [assemble, hcause, hkind, Err.kind]

theorem inheritsKind : package.InheritsKind where
  error args e he hnone hmem hall := by
    change (E args).kind = e.kind
    unfold E
    split
    · rw [hall _ List.mem_cons_self]
    · rw [hall _ List.mem_cons_self]
    · rw [assemble_causeKind hnone hmem hall]
      cases e with
      | leaf | wrap => rfl
      | ctx | eof | text => exact he.elim
  canceled args hnone hmem hall := by
    change (E args).kind = .canceled
    unfold E
    split
    · cases hall _ List.mem_cons_self
    · cases hall _ List.mem_cons_self
    · exact assemble_causeKind hnone hmem hall

theorem setKind_wraps (k : Kind) (c e : Err) : (setKind k e).Wraps c ↔ e.Wraps c := by
  cases e <;> rfl

theorem setSeverity_wraps (s : Severity) (c e : Err) : (setSeverity s e).Wraps c ↔ e.Wraps c := by
  cases e <;> rfl

theorem keepsCanceled : package.KeepsCanceled := by
  intro args e he hmem hall
  change (E args).Wraps (.ctx .canceled)
  unfold E
  split
  · obtain rfl := hall _ List.mem_cons_self
    rcases he with h | h <;> cases h
  · obtain rfl := hall _ List.mem_cons_self
    rcases he with h | h
    · cases h
    · exact h
  · have hcause := foldl_collect_cause (c := {}) hall (Or.inr hmem)
    simp only [assemble, hcause]
    rcases he with rfl | h
    · left
      split <;> split <;> rfl
    · right
      split <;> split <;> simpa only [setKind_wraps, setSeverity_wraps] using h

theorem isOutermost : package.IsOutermost where
  error k e _ he := by simp [package, recover, he]
  context c := by cases c <;> rfl

theorem matchesFatal : package.MatchesFatal := by
  intro e
  change decide (e.severity = .fatal) = true ↔ _
  rw [decide_eq_true_iff]
  cases e <;> simp [Err.severity, Err.IsError]

theorem recovers : package.Recovers := by
  intro e
  match e with
  | .leaf _ _ _ | .wrap _ _ _ _ => exact ⟨trivial, fun _ => rfl, fun h => absurd trivial h⟩
  | .ctx .canceled | .ctx .deadlineExceeded | .eof | .text _ =>
    exact ⟨trivial, fun h => h.elim, fun _ => rfl⟩

theorem makesRemote : package.MakesRemote := by
  intro e he
  match e with
  | .leaf k s m => exact ⟨rfl, rfl, .leaf k .unknown m, rfl, rfl, rfl, rfl⟩
  | .wrap k s m c => exact ⟨rfl, rfl, .wrap k .unknown m c, rfl, rfl, rfl, rfl⟩

theorem fatalIsFinal : package.FatalIsFinal := by
  intro e _ hs
  simp [package, hs]

end Reference

end Bigmachine.Errors
