import Bigmachine.Errors.Values
import Bigmachine.Transition.System

/-!
# Looking up the image of an AMI

`System.Start` looks its AMI up once for all machines of the process: `describeImages` (a
`once.Map`) runs the lookup at most once for each AMI and keeps its result until `Forget`,
`imageInfo` holds the images found. When a lookup has failed, `Start` forgets the result if
the error is an `*errors.Error` that is not fatal.

The error of `DescribeImages` is kept as it comes. An error of another type is therefore never
forgotten, whatever caused it, and every later `Start` fails with it without asking again
(`failure_is_sticky`). When the errors of `DescribeImages` are all of that type, the next
`Start` after an error that is not fatal asks again (`transient_failure_forgotten`). The image
is stored before the lookup succeeds, so no `Start` panics for want of it.
-/

namespace Bigmachine.Ec2

open Errors Transition

structure Image where
  imageId : Option String
  deriving DecidableEq, Repr

/-- The two maps, by AMI: the result of the lookup that has run, and the image. -/
structure Cache where
  describeImages : String → Option (Option Err) := fun _ => none
  imageInfo : String → Option Image := fun _ => none

/-- The function run by `describeImages.Do`, given the answer of `DescribeImages`. -/
def describe (P : Package) (ami : String) : Except Err (List Image) → Except Err Image
  | .error e => .error e
  | .ok [image] =>
    if image.imageId.getD "" = ami then .ok image
    else .error (P.E [.severity .fatal, .text "image not found"])
  | .ok _ => .error (P.E [.severity .fatal, .text "image not found"])

namespace Cache

/-- `describeImages.Do`; `answer` is what `DescribeImages` returns if it is called. -/
def lookup (P : Package) (c : Cache) (ami : String) (answer : Except Err (List Image)) :
    Cache × Option Err :=
  match c.describeImages ami with
  | some r => (c, r)
  | none =>
    match describe P ami answer with
    | .error e =>
      ({ c with describeImages := Function.update c.describeImages ami (some (some e)) }, some e)
    | .ok image =>
      ({ describeImages := Function.update c.describeImages ami (some none)
         imageInfo := Function.update c.imageInfo ami (some image) }, none)

/-- What `Start` does with the error of a lookup: the conditional `Forget`. -/
def failed (c : Cache) (ami : String) (e : Err) : Cache :=
  if e.IsError ∧ e.severity ≠ .fatal then
    { c with describeImages := Function.update c.describeImages ami none }
  else c

end Cache

/-! ## Any number of calls of `Start` -/

/-- A call of `Start` between `describeImages.Do`, which has returned `result`, and its next step.
-/
structure Pending where
  ami : String
  result : Option Err
  deriving DecidableEq, Repr

/-- `panicked` says that some `Start` has reached `panic(s.AMI)`. `described` is a ghost field: the
AMIs for which `DescribeImages` was called. -/
structure Starts where
  cache : Cache := {}
  pending : List Pending := []
  panicked : Bool := false
  described : List String := []

/-- `lookup` is `Do`, in a new call of `Start`; in `finish` the `i`-th call looks at the result. -/
inductive Action
  | lookup (ami : String) (answer : Except Err (List Image))
  | finish (i : Nat)

def step (P : Package) (s : Starts) : Action → Option Starts
  | .lookup ami answer =>
    let called := (s.cache.describeImages ami).isNone
    let r := s.cache.lookup P ami answer
    some { s with
      cache := r.1
      pending := s.pending ++ [⟨ami, r.2⟩]
      described := if called then s.described ++ [ami] else s.described }
  | .finish i =>
    match s.pending[i]? with
    | none => none
    | some ⟨ami, some e⟩ =>
      some { s with cache := s.cache.failed ami e, pending := s.pending.eraseIdx i }
    | some ⟨ami, none⟩ =>
      some { s with
        panicked := s.panicked || (s.cache.imageInfo ami).isNone
        pending := s.pending.eraseIdx i }

def system (P : Package) : System Starts Action := ⟨{}, step P⟩

/-! ## The image of a successful lookup -/

/-- The image of the AMI has been stored. -/
def Known (c : Cache) (ami : String) : Prop :=
  ∃ image, c.imageInfo ami = some image ∧ image.imageId.getD "" = ami

theorem describe_ok {P : Package} {ami : String} {answer : Except Err (List Image)} {image : Image}
    (h : describe P ami answer = .ok image) : image.imageId.getD "" = ami := by
  unfold describe at h
  split at h
  · cases h
  · split at h
    · rename_i himage
      cases h
      exact himage
    · cases h
  · cases h

/-- Images are stored, not removed. -/
theorem lookup_known {P : Package} {c : Cache} {ami ami' : String}
    {answer : Except Err (List Image)} (h : Known c ami') :
    Known (c.lookup P ami answer).1 ami' := by
  unfold Cache.lookup
  split
  · exact h
  · split
    · exact h
    · rename_i image himage
      by_cases hami : ami' = ami
      · subst hami
        exact ⟨image, Function.update_self .., describe_ok himage⟩
      · obtain ⟨old, hold, hid⟩ := h
        exact ⟨old, (Function.update_of_ne hami _ _).trans hold, hid⟩

theorem failed_known {c : Cache} {ami ami' : String} {e : Err} (h : Known c ami') :
    Known (c.failed ami e) ami' := by
  unfold Cache.failed
  split <;> exact h

/-- The result of `Do` is the one it keeps. -/
theorem lookup_result (P : Package) (c : Cache) (ami : String) (answer : Except Err (List Image)) :
    (c.lookup P ami answer).1.describeImages ami = some (c.lookup P ami answer).2 := by
  unfold Cache.lookup
  split
  · rename_i r hr
    exact hr
  · split <;> exact Function.update_self ..

/-- Results for other AMIs are not touched. -/
theorem lookup_of_ne (P : Package) (c : Cache) {ami ami' : String}
    (answer : Except Err (List Image)) (h : ami' ≠ ami) :
    (c.lookup P ami answer).1.describeImages ami' = c.describeImages ami' := by
  unfold Cache.lookup
  split
  · rfl
  · split <;> exact Function.update_of_ne h _ _

/-- Results are only forgotten. -/
theorem failed_describeImages {c : Cache} {ami ami' : String} {e : Err} {r : Option Err}
    (h : (c.failed ami e).describeImages ami' = some r) : c.describeImages ami' = some r := by
  unfold Cache.failed at h
  split at h
  · by_cases hami : ami' = ami
    · subst hami
      simp at h
    · simpa [Function.update_of_ne hami] using h
  · exact h

structure Inv (s : Starts) : Prop where
  kept : ∀ ami, s.cache.describeImages ami = some none → Known s.cache ami
  pending : ∀ p ∈ s.pending, p.result = none → Known s.cache p.ami
  panicked : s.panicked = false

theorem init_inv (P : Package) : Inv (system P).init := by
  constructor <;> simp [system]

/-- A lookup that succeeds leaves its image behind. -/
theorem lookup_success {P : Package} {c : Cache} {ami : String} {answer : Except Err (List Image)}
    (hc : ∀ ami, c.describeImages ami = some none → Known c ami)
    (h : (c.lookup P ami answer).2 = none) : Known (c.lookup P ami answer).1 ami := by
  unfold Cache.lookup at h ⊢
  split at h
  · rename_i r hr
    have hnone : r = none := h
    exact hc ami (hnone ▸ hr)
  · split at h
    · cases h
    · rename_i image himage
      exact ⟨image, Function.update_self .., describe_ok himage⟩

theorem step_inv {P : Package} {s s' : Starts} {a : Action} (h : step P s a = some s')
    (hs : Inv s) : Inv s' := by
  cases a with
  | lookup ami answer =>
    cases h
    refine ⟨fun ami' hr => ?_, fun p hp hnone => ?_, hs.panicked⟩
    · by_cases hami : ami' = ami
      · subst hami
        dsimp only at hr
        rw [lookup_result] at hr
        exact lookup_success hs.kept (Option.some.inj hr)
      · dsimp only at hr
        rw [lookup_of_ne P _ _ hami] at hr
        exact lookup_known (hs.kept ami' hr)
    · rcases List.mem_append.mp hp with hp | hp
      · exact lookup_known (hs.pending p hp hnone)
      · rw [List.mem_singleton.mp hp] at hnone ⊢
        exact lookup_success hs.kept hnone
  | finish i =>
    simp only [step] at h
    split at h
    · cases h
    · cases h
      exact ⟨fun ami' hr => failed_known (hs.kept ami' (failed_describeImages hr)),
        fun p hp hnone => failed_known (hs.pending p (List.mem_of_mem_eraseIdx hp) hnone),
        hs.panicked⟩
    · rename_i ami hp
      cases h
      obtain ⟨image, himage, -⟩ := hs.pending _ (List.mem_of_getElem? hp) rfl
      refine ⟨hs.kept, fun p hp hnone => hs.pending p (List.mem_of_mem_eraseIdx hp) hnone, ?_⟩
      simp [hs.panicked, himage]

/-! ## Errors of the package's own type -/

/-- An error returned by `DescribeImages` is an `*errors.Error`. -/
def Typed (_ : Starts) : Action → Prop
  | .lookup _ (.error e) => e.IsError
  | _ => True

instance (s : Starts) : (a : Action) → Decidable (Typed s a)
  | .lookup _ (.error e) => inferInstanceAs (Decidable e.IsError)
  | .lookup _ (.ok _) => isTrue trivial
  | .finish _ => isTrue trivial

structure AllTyped (s : Starts) : Prop where
  kept : ∀ ami e, s.cache.describeImages ami = some (some e) → e.IsError
  pending : ∀ p ∈ s.pending, ∀ e, p.result = some e → e.IsError

theorem describe_error {P : Package} (hP : P.ReturnsError) {ami : String}
    {answer : Except Err (List Image)} (ha : ∀ e, answer = .error e → e.IsError) {e : Err}
    (h : describe P ami answer = .error e) : e.IsError := by
  unfold describe at h
  split at h
  · cases h
    exact ha e rfl
  · split at h
    · cases h
    · cases h
      exact hP _
  · cases h
    exact hP _

theorem lookup_error {P : Package} (hP : P.ReturnsError) {c : Cache} {ami : String}
    {answer : Except Err (List Image)} (ha : ∀ e, answer = .error e → e.IsError)
    (hc : ∀ ami e, c.describeImages ami = some (some e) → e.IsError) {e : Err}
    (h : (c.lookup P ami answer).2 = some e) : e.IsError := by
  unfold Cache.lookup at h
  split at h
  · rename_i r hr
    have hsome : r = some e := h
    exact hc ami e (hsome ▸ hr)
  · split at h
    · rename_i e' he
      cases h
      exact describe_error hP ha he
    · cases h

theorem step_allTyped {P : Package} (hP : P.ReturnsError) {s s' : Starts} {a : Action}
    (h : step P s a = some s') (ha : Typed s a) (hs : AllTyped s) : AllTyped s' := by
  cases a with
  | lookup ami answer =>
    have ha' : ∀ e, answer = .error e → e.IsError := by
      rintro e rfl
      exact ha
    cases h
    refine ⟨fun ami' e hr => ?_, fun p hp e he => ?_⟩
    · by_cases hami : ami' = ami
      · subst hami
        dsimp only at hr
        rw [lookup_result] at hr
        exact lookup_error hP ha' hs.kept (Option.some.inj hr)
      · dsimp only at hr
        rw [lookup_of_ne P _ _ hami] at hr
        exact hs.kept ami' e hr
    · rcases List.mem_append.mp hp with hp | hp
      · exact hs.pending p hp e he
      · rw [List.mem_singleton.mp hp] at he
        exact lookup_error hP ha' hs.kept he
  | finish i =>
    simp only [step] at h
    split at h
    · cases h
    · cases h
      exact ⟨fun ami' e hr => hs.kept ami' e (failed_describeImages hr),
        fun p hp e he => hs.pending p (List.mem_of_mem_eraseIdx hp) e he⟩
    · cases h
      exact ⟨hs.kept, fun p hp e he => hs.pending p (List.mem_of_mem_eraseIdx hp) e he⟩

/-! ## The next `Start` -/

/-- The action is the lookup of a `Start` for the AMI. -/
def Action.LooksUp (ami : String) : Action → Prop
  | .lookup ami' _ => ami' = ami
  | .finish _ => False

/-- A forgotten result stays forgotten until the next lookup for the AMI. -/
theorem step_forgotten {P : Package} {s s' : Starts} {a : Action} (h : step P s a = some s')
    {ami : String} (ha : ¬ a.LooksUp ami) (hs : s.cache.describeImages ami = none) :
    s'.cache.describeImages ami = none := by
  cases a with
  | lookup ami' answer =>
    cases h
    exact (lookup_of_ne P _ _ fun heq => ha heq.symm).trans hs
  | finish i =>
    simp only [step] at h
    split at h
    · cases h
    · cases h
      cases hr : (s.cache.failed _ _).describeImages ami with
      | none => rfl
      | some r =>
        have hsome := failed_describeImages hr
        rw [hs] at hsome
        cases hsome
    · cases h
      exact hs

theorem run_forgotten {P : Package} {s s' : Starts} {tr : List Action}
    (h : Steps (system P) Always s tr s') {ami : String} (htr : ∀ a ∈ tr, ¬ a.LooksUp ami)
    (hs : s.cache.describeImages ami = none) : s'.cache.describeImages ami = none := by
  induction h with
  | nil => exact hs
  | cons _ hstep _ ih =>
    rw [List.forall_mem_cons] at htr
    exact ih htr.2 (step_forgotten hstep htr.1 hs)

/-- **A transient failure is not sticky.** In every run in which the errors of
`DescribeImages` are `*errors.Error`s: after a `Start` has failed with an error that is not
fatal, the next lookup for its AMI calls `DescribeImages`. And in every run at all, the image
is there whenever a lookup has succeeded, and no `Start` panics. -/
theorem transient_failure_forgotten (P : Package) (hP : P.ReturnsError) {tr : List Action}
    {s : Starts} (h : Steps (system P) Typed (system P).init tr s) :
    (∀ i ami e s', s.pending[i]? = some ⟨ami, some e⟩ → e.severity ≠ .fatal →
      (system P).step s (.finish i) = some s' →
      ∀ tr' u answer u', Steps (system P) Always s' tr' u → (∀ a ∈ tr', ¬ a.LooksUp ami) →
        (system P).step u (.lookup ami answer) = some u' → u'.described = u.described ++ [ami]) ∧
    ∀ tr' u, Steps (system P) Always (system P).init tr' u →
      (∀ p ∈ u.pending, p.result = none → Known u.cache p.ami) ∧ u.panicked = false := by
  constructor
  · intro i ami e s' hpending hfatal hfinish tr' u answer u' hrun hother hlookup
    have hall : AllTyped s := h.invariant (I := AllTyped)
      (fun _ _ _ hi hok hs => step_allTyped hP hs hok hi) ⟨by simp [system], by simp [system]⟩
    have he : e.IsError := hall.pending _ (List.mem_of_getElem? hpending) e rfl
    have hforgot : s'.cache.describeImages ami = none := by
      simp only [system, step, hpending] at hfinish
      cases hfinish
      simp [Cache.failed, he, hfatal]
    have hnone := run_forgotten hrun hother hforgot
    cases hlookup
    simp [hnone]
  · intro tr' u hrun
    have hinv : Inv u :=
      hrun.invariant (I := Inv) (fun _ _ _ hi _ hs => step_inv hs hi) (init_inv P)
    exact ⟨hinv.pending, hinv.panicked⟩

/-- The lookup of `ami-1` fails with a temporary `*errors.Error`. -/
def typedRun : List Action := [.lookup "ami-1" (.error (.leaf .net .temporary "timeout"))]

theorem transient_failure_forgotten_typedRun :
    ∃ s s', Steps (system Reference.package) Typed (system Reference.package).init typedRun s ∧
      (system Reference.package).step s (.finish 0) = some s' ∧
      ∀ answer u, (system Reference.package).step s' (.lookup "ami-1" answer) = some u →
        u.described = s'.described ++ ["ami-1"] := by
  have hrun : Steps (system Reference.package) Typed (system Reference.package).init typedRun _ :=
    .cons trivial rfl (.nil _)
  obtain ⟨hnext, -⟩ := transient_failure_forgotten Reference.package Reference.returnsError hrun
  refine ⟨_, _, hrun, rfl, fun answer u hu => ?_⟩
  exact hnext 0 "ami-1" (.leaf .net .temporary "timeout") _ rfl (by decide) rfl [] _ answer u
    (.nil _) (by simp) hu

/-- A canceled context makes every later `Start` for the AMI fail. -/
theorem failure_is_sticky :
    ¬ ∀ (P : Package), P.ReturnsError → ∀ tr s, Steps (system P) Always (system P).init tr s →
      ∀ i ami e s', s.pending[i]? = some ⟨ami, some e⟩ → e.severity ≠ .fatal →
        (system P).step s (.finish i) = some s' →
        ∀ answer u, (system P).step s' (.lookup ami answer) = some u →
          u.described = s'.described ++ [ami] := by
  intro h
  have hrun : Steps (system Reference.package) Always (system Reference.package).init
      [.lookup "ami-1" (.error (.ctx .canceled))] _ := .cons trivial rfl (.nil _)
  have hnext := h Reference.package Reference.returnsError _ _ hrun 0 "ami-1" (.ctx .canceled) _
    rfl (by decide) rfl (.ok [⟨some "ami-1"⟩]) _ rfl
  simp [Cache.failed, Err.IsError, lookup_result] at hnext

end Bigmachine.Ec2
