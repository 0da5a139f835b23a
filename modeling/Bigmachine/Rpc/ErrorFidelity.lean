import Bigmachine.Rpc.Client

/-!
# Errors of methods at the client

Server and client composed over a transport that delivers status, trailer and body
unchanged. When a method ends with an error `e`, `Call` should return an error of kind
`Remote` that wraps `e`.

The server writes status 590 for a method error, but when the method has also assigned its
stream reply the body is the stream and not the encoded error, and the client decodes the
stream as an error. `Supervisor.GetBinary` does that when the binary cannot be opened. And
a panic with the value nil is taken for success. `error_fidelity_iff` says that nothing
else goes wrong.
-/

namespace Bigmachine.Rpc

open Errors Io

variable {T V : Type}

/-- The error a method call ended with; a panic counts as a fatal error with its value. -/
def Outcome.failure (P : Package) : Outcome → Option Err
  | returned err => err
  | panicked value =>
    some (P.E [.severity .fatal, .err (.text ("panic: " ++ value.getD "<nil>"))])

/-- `Call` returns an error of kind `Remote` that wraps `e`. -/
def ReportsError (P : Package) (e : Err) (result : Except Err (Client.Reply V)) : Prop :=
  ∃ r, result = .error r ∧ WrapsRemote (P.recover e) r

theorem decodeError_ok (P : Package) {wire : Wire T V} {body : Bytes} {e : Err}
    (serviceMethod : String) (h : wire.decodeError body = .ok e) :
    Client.decodeError P wire serviceMethod body = P.E [.kind .remote, .err e] := by
  simp [Client.decodeError, h]

/-- A body is reported as the error `e` exactly when it decodes to `e`. -/
theorem decodeError_wraps_iff {P : Package} (hK : P.SetsKind) (hM : P.MakesRemote)
    {wire : Wire T V} (hD : wire.DecodesErrors) (serviceMethod : String) {body : Bytes}
    {e : Err} (he : e.IsError) :
    WrapsRemote e (Client.decodeError P wire serviceMethod body) ↔
      wire.decodeError body = .ok e := by
  constructor
  · intro h
    cases hd : wire.decodeError body with
    | error err =>
      have hkind : (Client.decodeError P wire serviceMethod body).kind = .invalid := by
        simp only [Client.decodeError, hd]
        exact hK _ _ (by simp) (by simp) (by simp)
      have hremote := h.kind
      rw [hkind] at hremote
      cases hremote
    | ok d =>
      have hd' : d.IsError := hD _ _ hd
      rw [decodeError_ok P serviceMethod hd] at h
      have hsame : d = e := (hM d hd').unique h hd' he
      rw [hsame]
  · intro h
    rw [decodeError_ok P serviceMethod h]
    exact hM e he

section

variable {P : Package} (hK : P.SetsKind) (hM : P.MakesRemote) (hRec : P.Recovers)
  {wire : Wire T V} (hD : wire.DecodesErrors) {m : Method T V} {f : Finished V}
  (url serviceMethod : String) (target : Client.ReplyTarget T) (n : Int)

include hK

/-- A method call that the server takes for a success is not reported as an error. -/
theorem not_reports_of_ok {e : Err} (h : f.outcome.error P = none) :
    ¬ ReportsError P e
      (Client.receive P wire url serviceMethod target (reply P wire m n f).response).2 := by
  rintro ⟨r, hr, hw⟩
  have hstatus := reply_status_of_ok P wire m n h
  have hkind : r.kind = .invalid := Client.receive_kind hK hstatus hr
  have hremote : r.kind = .remote := hw.kind
  rw [hkind] at hremote
  cases hremote

include hM hRec hD

/-- The error of a method call is reported unless the method has assigned its stream. -/
theorem reports_iff_of_error {e : Err} (h : f.outcome.error P = some e)
    (hround : wire.RoundTrips (P.recover e)) :
    ReportsError P e
        (Client.receive P wire url serviceMethod target (reply P wire m n f).response).2 ↔
      ∀ rc, f.stream m = some rc → wire.decodeError rc.items = .ok (P.recover e) := by
  have he : (P.recover e).IsError := (hRec e).1
  cases hs : f.stream m with
  | some rc =>
    have hreply := reply_of_stream P wire n hs
    rw [h, Option.isSome_some, if_pos rfl] at hreply
    rw [hreply, Client.receive_methodError P wire url serviceMethod target rfl]
    simp [ReportsError, decodeError_wraps_iff hK hM hD serviceMethod he]
  | none =>
    have henc : wire.encodeError (P.recover e) = ((wire.encodeError (P.recover e)).1, none) := by
      rw [← hround.1]
    rw [reply_of_error P n hs h henc,
      Client.receive_methodError P wire url serviceMethod target rfl]
    simp [ReportsError, decodeError_wraps_iff hK hM hD serviceMethod he, hround.2]

end

/-- **Errors of methods are reported as they are**, unless the method panics with nil, or
has assigned a reader to its stream reply whose bytes do not happen to be the encoded
error. For a panic the reported severity is `Fatal`. -/
theorem error_fidelity_iff {P : Package} (hE : P.ReturnsError) (hK : P.SetsKind)
    (hS : P.SetsSeverity) (hM : P.MakesRemote) (hRec : P.Recovers) {wire : Wire T V}
    (hD : wire.DecodesErrors) (s : Server (Service T V)) (rpcPrefix addr serviceMethod : String)
    (target : Client.ReplyTarget T) (arg : Client.CallArg V) {body : Bytes}
    (harg : arg.Sends wire body) {m : Method T V} {a : Arg V}
    (hm : Reaches wire s ⟨"POST", Client.url rpcPrefix addr serviceMethod, body⟩ m a)
    {e : Err} (he : (m.call a).outcome.failure P = some e)
    (hround : wire.RoundTrips (P.recover e)) :
    (ReportsError P e (callServer P wire s rpcPrefix addr serviceMethod arg target) ↔
      (m.call a).outcome ≠ .panicked none ∧
        ∀ rc, (m.call a).stream m = some rc → wire.decodeError rc.items = .ok (P.recover e)) ∧
    (∀ v, (m.call a).outcome = .panicked v → (P.recover e).severity = .fatal) := by
  constructor
  · rw [callServer_of_reaches P target harg hm]
    by_cases hnil : (m.call a).outcome = .panicked none
    · simp only [hnil, ne_eq, not_true_eq_false, false_and, iff_false]
      exact not_reports_of_ok hK _ _ _ _ (by rw [hnil]; rfl)
    · have herr : (m.call a).outcome.error P = some e := by
        cases ho : (m.call a).outcome with
        | returned err => rw [ho] at he; exact he
        | panicked value =>
          rw [ho] at he hnil
          cases value with
          | none => exact absurd rfl hnil
          | some v => exact he
      rw [reports_iff_of_error hK hM hRec hD _ _ _ _ herr hround]
      simp [hnil]
  · intro v hv
    rw [hv] at he
    obtain rfl := Option.some.inj he
    have hself := (hRec _).2.1 (hE [.severity .fatal, .err (.text ("panic: " ++ v.getD "<nil>"))])
    rw [hself]
    exact hS _ _ (by simp) (by simp) (by simp)

/-! ## The supervisor's `GetBinary` -/

/-- `Supervisor.GetBinary`. When the file cannot be opened the reply is a nil `*os.File`,
which is a reader: reading it fails with `os.ErrInvalid`. -/
def getBinary (P : Package) (binaryPath : String) (openFile : String → Except Err Stream) :
    Finished Bytes :=
  if binaryPath = "" then
    { outcome := .returned
        (some (P.E [.kind .invalid, .text "Supervisor.GetBinary: no binary set"]))
      value := [] }
  else
    match openFile binaryPath with
    | .ok f => { outcome := .returned none, readcloser := some f, value := [] }
    | .error err =>
      { outcome := .returned (some err)
        readcloser := some { err := .text "invalid argument" }
        value := [] }

/-- A supervisor that serves `GetBinary` alone; no file can be opened. -/
def binaryServer (binaryPath : String) : Server (Service Unit Bytes) where
  services name :=
    if name = "Supervisor" then
      some fun method =>
        if method = "GetBinary" then
          some {
            arg := .gob ()
            reply := .stream
            call := fun _ => getBinary Reference.package binaryPath fun path =>
              .error (.text ("open " ++ path ++ ": no such file or directory")) }
        else none
    else none

theorem error_fidelity_iff_binaryServer :
    ReportsError Reference.package
      (.leaf .invalid .unknown "Supervisor.GetBinary: no binary set")
      (callServer Reference.package Reference.wire (binaryServer "") "/bigrpc/"
        "https://localhost:4000/" "Supervisor.GetBinary" (.value []) .stream) :=
  ((error_fidelity_iff Errors.Reference.returnsError Errors.Reference.setsKind
    Errors.Reference.setsSeverity Errors.Reference.makesRemote Errors.Reference.recovers
    Reference.wire_decodesErrors (binaryServer "") "/bigrpc/" "https://localhost:4000/"
    "Supervisor.GetBinary" .stream (.value []) rfl
    ⟨rfl, ⟨"Supervisor", "GetBinary", _, by decide +kernel, rfl, rfl⟩, rfl⟩ rfl
    (Reference.wire_roundTrips trivial)).1).mpr
    ⟨by simp [getBinary], by simp [getBinary, Finished.stream]⟩

/-- A binary was set and cannot be opened: instead of the error of `os.Open` the caller
gets a temporary error of kind `Invalid`. -/
theorem getBinary_error_replaced :
    ¬ ∀ (T V : Type) (P : Package) (wire : Wire T V) (s : Server (Service T V))
      (rpcPrefix addr serviceMethod : String) (target : Client.ReplyTarget T)
      (arg : Client.CallArg V) (body : Bytes) (m : Method T V) (a : Arg V) (e : Err),
      P.ReturnsError → P.SetsKind → P.SetsSeverity → P.MakesRemote → P.Recovers →
      wire.DecodesErrors → (∀ e : Err, e.IsError → wire.RoundTrips e) → arg.Sends wire body →
      Reaches wire s ⟨"POST", Client.url rpcPrefix addr serviceMethod, body⟩ m a →
      (m.call a).outcome.failure P = some e →
      ReportsError P e (callServer P wire s rpcPrefix addr serviceMethod arg target) := by
  intro h
  obtain ⟨r, hr, hw⟩ := h Unit Bytes Reference.package Reference.wire (binaryServer "/tmp/binary")
    "/bigrpc/" "https://localhost:4000/" "Supervisor.GetBinary" .stream (.value []) [] _ (.value [])
    (.text "open /tmp/binary: no such file or directory") Errors.Reference.returnsError
    Errors.Reference.setsKind Errors.Reference.setsSeverity Errors.Reference.makesRemote
    Errors.Reference.recovers Reference.wire_decodesErrors
    (fun _ he => Reference.wire_roundTrips he) rfl
    ⟨rfl, ⟨"Supervisor", "GetBinary", _, by decide +kernel, rfl, rfl⟩, rfl⟩ (by decide)
  have hcall : callServer Reference.package Reference.wire (binaryServer "/tmp/binary") "/bigrpc/"
      "https://localhost:4000/" "Supervisor.GetBinary" (.value []) .stream =
      .error (.wrap .invalid .temporary "error while decoding error for Supervisor.GetBinary"
        .eof) :=
    rfl
  rw [hcall] at hr
  obtain rfl := Except.error.inj hr
  exact absurd hw.kind (by decide)

end Bigmachine.Rpc
