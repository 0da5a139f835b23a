import Bigmachine.Errors.Values
import Bigmachine.Transition.System

/-!
# The certificate authority shared through a file

`authority.New(path)` reads the certificate and key of the authority from the file at `path`;
when there is none it generates them and stores them there. Several processes do so with the
same path. The read, the generation and the write of `cached` are separate steps, and the
call goes on with what it has generated instead of reading it back. So of two calls that both
find no file, the one that writes first keeps an authority that the file no longer holds
(`first_writer_diverges`). When a call writes only while there is still no file, every call
that succeeds holds what the file contains (`holders_agree`).

The packages pem and x509 are parameters (`Codec`); all that is assumed of them is that there
are no blocks in nothing (`Codec.Lawful`).
-/

namespace Bigmachine.Authority

open Errors Transition

abbrev Bytes := List UInt8

/-- A `pem.Block`. -/
structure Block where
  type : String
  bytes : Bytes
  deriving DecidableEq, Repr

/-- What `New` uses of the packages pem and x509, for certificates of type `C` and keys of type
`K`: `blocks` are all the blocks that `pem.Decode` finds, and keys are in the form of PKCS #1. -/
structure Codec (C K : Type) where
  blocks : Bytes → List Block
  encode : Block → Bytes
  parseCertificate : Bytes → Except Err C
  parseKey : Bytes → Except Err K
  marshalKey : K → Bytes

/-- The empty input has no blocks. -/
def Codec.Lawful {C K : Type} (x : Codec C K) : Prop := x.blocks [] = []

/-- An authority, `T` in the source. -/
structure Holder (C K : Type) where
  key : K
  cert : C
  certPEM : Bytes
  keyPEM : Bytes
  deriving DecidableEq, Repr

variable {C K : Type} (x : Codec C K)

/-! ## `New` -/

/-- The last block of a type. -/
def lastBlock (blocks : List Block) (type : String) : Option Bytes :=
  (blocks.findRev? (·.type = type)).map (·.bytes)

/-- What `New` does with the bytes that `cached` returns. -/
def parse (pemBlock : Bytes) : Except Err (Holder C K) :=
  let blocks := x.blocks pemBlock
  match lastBlock blocks "CERTIFICATE", lastBlock blocks "RSA PRIVATE KEY" with
  | some certBlock, some keyBlock =>
    match x.parseCertificate certBlock with
    | .error e => .error e
    | .ok cert =>
      match x.parseKey keyBlock with
      | .error e => .error e
      | .ok key =>
        .ok {
          key := key
          cert := cert
          certPEM := x.encode ⟨"CERTIFICATE", certBlock⟩
          keyPEM := x.encode ⟨"RSA PRIVATE KEY", x.marshalKey key⟩ }
  | _, _ => .error (.text "httpsca: incomplete certificate")

/-- What the generating function of `New` returns, for a new certificate and key. -/
def generated (cert key : Bytes) : Bytes :=
  x.encode ⟨"CERTIFICATE", cert⟩ ++ x.encode ⟨"RSA PRIVATE KEY", key⟩

/-- The error of `New` when `cached` fails. -/
def buildError (P : Package) (e : Err) : Err := .text ("could not build CA: " ++ P.errorText e)

/-! ## Any number of calls with one path -/

/-- Where a call of `New` is: before `ioutil.ReadFile`, in the branch for a file that does not
exist, before `ioutil.WriteFile`, or done. -/
inductive Pc (C K : Type)
  | read
  | generate
  | write (p : Bytes)
  | returned (r : Except Err (Holder C K))

structure Sharing (C K : Type) where
  file : Option Bytes
  calls : List (Pc C K) := []

/-- `new` begins a call. `readFails` is the failure of `ioutil.ReadFile` with an error other than
that the file does not exist. -/
inductive Action
  | new
  | read (i : Nat)
  | readFails (i : Nat)
  | generate (i : Nat) (r : Except Err (Bytes × Bytes))
  | write (i : Nat)
  | writeFails (i : Nat) (e : Err)

namespace Sharing

/-- The `i`-th call goes on to `pc`. -/
def goto (s : Sharing C K) (i : Nat) (pc : Pc C K) : Sharing C K :=
  { s with calls := s.calls.set i pc }

end Sharing

/-- One step of `New(path)` for a path that is not empty. -/
def step (P : Package) (s : Sharing C K) : Action → Option (Sharing C K)
  | .new => some { s with calls := s.calls ++ [.read] }
  | .read i =>
    match s.calls[i]? with
    | some .read =>
      match s.file with
      | some p => some (s.goto i (.returned (parse x p)))
      | none => some (s.goto i .generate)
    | _ => none
  | .readFails i =>
    match s.calls[i]? with
    -- the error is dropped, and there is nothing to parse
    | some .read => some (s.goto i (.returned (parse x [])))
    | _ => none
  | .generate i r =>
    match s.calls[i]? with
    | some .generate =>
      match r with
      | .ok (cert, key) => some (s.goto i (.write (generated x cert key)))
      | .error e => some (s.goto i (.returned (.error (buildError P e))))
    | _ => none
  | .write i =>
    match s.calls[i]? with
    | some (.write p) => some { s.goto i (.returned (parse x p)) with file := some p }
    | _ => none
  | .writeFails i e =>
    match s.calls[i]? with
    | some (.write _) => some (s.goto i (.returned (.error (buildError P e))))
    | _ => none

/-- The calls start with the file as it is. -/
def system (P : Package) (file : Option Bytes) : System (Sharing C K) Action :=
  ⟨{ file := file }, step x P⟩

/-! ## Writing only while there is no file -/

/-- A call writes only while the file still does not exist. -/
def StillMissing (s : Sharing C K) : Action → Prop
  | .write _ => s.file = none
  | _ => True

variable {x}

/-- Every call that has succeeded holds what the file contains. -/
def Agrees (x : Codec C K) (s : Sharing C K) : Prop :=
  ∀ t, .returned (.ok t) ∈ s.calls → ∃ p, s.file = some p ∧ parse x p = .ok t

theorem parse_nil (hx : x.Lawful) :
    parse x [] = .error (.text "httpsca: incomplete certificate") := by
  have hnil : x.blocks [] = [] := hx
  simp [parse, hnil, lastBlock]

/-- A call that goes on without writing keeps the agreement if it does not succeed with
something else than the file. -/
theorem agrees_goto {s : Sharing C K} (hs : Agrees x s) {i : Nat} {pc : Pc C K}
    (hpc : ∀ t, pc = .returned (.ok t) → ∃ p, s.file = some p ∧ parse x p = .ok t) :
    Agrees x (s.goto i pc) := by
  intro t ht
  rcases List.mem_or_eq_of_mem_set ht with ht | ht
  · exact hs t ht
  · exact hpc t ht.symm

theorem step_agrees (hx : x.Lawful) {P : Package} {s s' : Sharing C K} {a : Action}
    (h : step x P s a = some s') (ha : StillMissing s a) (hs : Agrees x s) : Agrees x s' := by
  cases a with
  | new =>
    cases h
    intro t ht
    rcases List.mem_append.mp ht with ht | ht
    · exact hs t ht
    · cases List.mem_singleton.mp ht
  | read i =>
    simp only [step] at h
    split at h
    · split at h
      · rename_i p hp
        cases h
        refine agrees_goto hs fun t ht => ⟨p, hp, ?_⟩
        exact (Pc.returned.inj ht)
      · cases h
        exact agrees_goto hs fun t ht => by cases ht
    · cases h
  | readFails i =>
    simp only [step] at h
    split at h
    · cases h
      refine agrees_goto hs fun t ht => ?_
      rw [parse_nil hx] at ht
      cases ht
    · cases h
  | generate i r =>
    simp only [step] at h
    split at h
    · split at h <;> cases h
      · exact agrees_goto hs fun t ht => by cases ht
      · exact agrees_goto hs fun t ht => by cases ht
    · cases h
  | write i =>
    simp only [step] at h
    split at h
    · rename_i p hp
      cases h
      intro t ht
      -- there was no file, so nobody held anything
      rcases List.mem_or_eq_of_mem_set ht with ht | ht
      · obtain ⟨p', hp', -⟩ := hs t ht
        rw [show s.file = none from ha] at hp'
        cases hp'
      · exact ⟨p, rfl, (Pc.returned.inj ht).symm⟩
    · cases h
  | writeFails i e =>
    simp only [step] at h
    split at h
    · cases h
      exact agrees_goto hs fun t ht => by cases ht
    · cases h

/-- **Authority agreement.** In every run in which a call writes only while there is still no
file, every call that has returned successfully holds the certificate and key that the file
contains, and so all of them hold the same. -/
theorem holders_agree (x : Codec C K) (hx : x.Lawful) (P : Package) (file : Option Bytes)
    {tr : List Action} {s : Sharing C K}
    (h : Steps (system x P file) StillMissing (system x P file).init tr s) :
    (∀ t, .returned (.ok t) ∈ s.calls → ∃ p, s.file = some p ∧ parse x p = .ok t) ∧
    ∀ t t', .returned (.ok t) ∈ s.calls → .returned (.ok t') ∈ s.calls → t = t' := by
  have hagrees : Agrees x s := h.invariant (I := Agrees x)
    (fun _ _ _ hi hok hs => step_agrees hx hs hok hi) (fun t ht => by cases ht)
  refine ⟨hagrees, fun t t' ht ht' => ?_⟩
  obtain ⟨p, hp, hparse⟩ := hagrees t ht
  obtain ⟨p', hp', hparse'⟩ := hagrees t' ht'
  cases hp.symm.trans hp'
  exact Except.ok.inj (hparse.symm.trans hparse')

/-! ## One instance -/

namespace Reference

/-- Every block is two bytes: its type and its contents. -/
def blocks : Bytes → List Block
  | tag :: b :: rest =>
    ⟨if tag = 0 then "CERTIFICATE" else "RSA PRIVATE KEY", [b]⟩ :: blocks rest
  | _ => []

def codec : Codec Bytes Bytes where
  blocks := blocks
  encode b := [if b.type = "CERTIFICATE" then 0 else 1, b.bytes.headD 0]
  parseCertificate b := .ok b
  parseKey b := .ok b
  marshalKey k := k

theorem codec_lawful : codec.Lawful := rfl

def holder (n : UInt8) : Holder Bytes Bytes := ⟨[n], [n], [0, n], [1, n]⟩

end Reference

/-- The first call generates the authority and the second one reads it. -/
def turnRun : List Action :=
  [.new, .read 0, .generate 0 (.ok ([7], [7])), .write 0, .new, .read 1]

theorem holders_agree_turnRun :
    ∃ s, Steps (system Reference.codec Errors.Reference.package none) StillMissing
        (system Reference.codec Errors.Reference.package none).init turnRun s ∧
      s.calls = [.returned (.ok (Reference.holder 7)), .returned (.ok (Reference.holder 7))] ∧
      ∃ p, s.file = some p ∧ parse Reference.codec p = .ok (Reference.holder 7) := by
  have hrun : Steps (system Reference.codec Errors.Reference.package none) StillMissing
      (system Reference.codec Errors.Reference.package none).init turnRun _ :=
    .cons trivial rfl <| .cons trivial rfl <| .cons trivial rfl <| .cons rfl rfl <|
      .cons trivial rfl <| .cons trivial rfl <| .nil _
  refine ⟨_, hrun, rfl, ?_⟩
  exact (holders_agree Reference.codec Reference.codec_lawful _ none hrun).1 _
    (List.mem_cons_self ..)

/-- Two calls find no file. Both generate an authority and store it; the first one goes on
with an authority that the file does not hold. -/
theorem first_writer_diverges :
    ¬ ∀ (C K : Type) (x : Codec C K), x.Lawful → ∀ (P : Package) (file : Option Bytes) tr s,
      Steps (system x P file) Always (system x P file).init tr s →
      (∀ pc ∈ s.calls, ∃ r, pc = .returned r) →
      ∀ t, .returned (.ok t) ∈ s.calls → ∃ p, s.file = some p ∧ parse x p = .ok t := by
  intro h
  have hrun : Steps (system Reference.codec Errors.Reference.package none) Always
      (system Reference.codec Errors.Reference.package none).init
      [.new, .new, .read 0, .read 1, .generate 0 (.ok ([7], [7])), .generate 1 (.ok ([8], [8])),
        .write 0, .write 1] _ :=
    .cons trivial rfl <| .cons trivial rfl <| .cons trivial rfl <| .cons trivial rfl <|
      .cons trivial rfl <| .cons trivial rfl <| .cons trivial rfl <| .cons trivial rfl <| .nil _
  have hcalls : ∀ pc ∈ [Pc.returned (.ok (Reference.holder 7)),
      .returned (.ok (Reference.holder 8))], ∃ r, pc = .returned r := by
    simp
  obtain ⟨p, hp, hparse⟩ := h Bytes Bytes Reference.codec Reference.codec_lawful _ none _ _ hrun
    hcalls (Reference.holder 7) (List.mem_cons_self ..)
  have hfile : p = [0, 8, 1, 8] := (Option.some.inj hp).symm
  rw [hfile] at hparse
  cases hparse

end Bigmachine.Authority
