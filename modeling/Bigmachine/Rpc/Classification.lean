import Bigmachine.Rpc.Client

/-!
# What the errors of `Call` tell

Two attributes of an error decide what happens after a call: kind `Net` (the machine has
restarted, or the connection is to be set up again) and severity `Fatal` (there is no use in
trying again). `Call` has several ways to fail, and the attributes must not be mixed up
between them, also not by what a remote application puts into its own error.

The body of a response is read from the connection, and the reading can fail at any point.
`Client.call` takes bodies as they are when it does not; here a body is a `Stream`, and
`call_whole` says that the two agree on bodies that end regularly.
-/

namespace Bigmachine.Rpc.Transport

open Errors Io Client

variable {T V : Type}

/-- A response whose body is still to be read. -/
structure Arrival where
  status : Nat
  contentType : String
  trailer : String
  body : Stream

/-- Package gob on bodies that are still to be read. -/
structure Decoders (T V : Type) extends Wire T V where
  decodeFrom : Option T → Stream → Nat × Except Err V
  decodeErrorFrom : Stream → Except Err Err

/-- What is decoded as an `*errors.Error` is one. -/
def Decoders.DecodesErrors (wire : Decoders T V) : Prop :=
  ∀ body e, wire.decodeErrorFrom body = .ok e → e.IsError

inductive Reply (V : Type)
  | stream (resp : Arrival) -- the response behind a `streamReader`
  | value (v : V)

/-- `decodeError`. -/
def decodeError (P : Package) (wire : Decoders T V) (serviceMethod : String) (body : Stream) :
    Err :=
  match wire.decodeErrorFrom body with
  | .error err =>
    P.E [.kind .invalid, .severity .temporary,
      .text ("error while decoding error for " ++ serviceMethod), .err err]
  | .ok e => P.E [.kind .remote, .err e]

/-- The error for a status that is neither 200 nor 590; it quotes what `ioutil.ReadAll`
returns. -/
def badStatus (P : Package) (wire : Decoders T V) (url : String) (resp : Arrival) : Err :=
  let what := if 400 ≤ resp.status ∧ resp.status < 500 then "client error" else "bad reply status"
  let read := resp.body.copy .eof
  P.E [.severity .fatal, .kind .invalid,
    .text (url ++ ": " ++ what ++ " " ++ wire.statusText resp.status ++ ", " ++
      wire.asText read.1 ++ ", " ++ (read.2.map P.errorText).getD "<nil>")]

/-- What `Call` makes of a response, with the number of reply bytes for its statistics. -/
def receive (P : Package) (wire : Decoders T V) (url serviceMethod : String)
    (target : ReplyTarget T) (resp : Arrival) : Int × Except Err (Reply V) :=
  match target with
  | .stream =>
    if resp.status = 200 then (-1, .ok (.stream resp))
    else if resp.status = 590 then (-1, .error (decodeError P wire serviceMethod resp.body))
    else (-1, .error (badStatus P wire url resp))
  | .gob t =>
    if resp.status = 590 then (-1, .error (decodeError P wire serviceMethod resp.body))
    else if resp.status = 200 then
      let decoded := wire.decodeFrom t resp.body
      match decoded.2 with
      | .ok v => (decoded.1, .ok (.value v))
      | .error err =>
        (decoded.1, .error (P.E [.kind .invalid, .severity .temporary,
          .text ("error while decoding reply for " ++ serviceMethod), .err err]))
    else (-1, .error (badStatus P wire url resp))

structure Called (V : Type) where
  requestBytes : Int := -1
  replyBytes : Int := -1
  result : Except Err (Reply V)

/-- `Call` from the POST on. -/
def send (P : Package) (wire : Decoders T V) (url serviceMethod : String)
    (post : Request → Except Err Arrival) (target : ReplyTarget T) (requestBytes : Int)
    (body : Bytes) : Called V :=
  match post ⟨"POST", url, body⟩ with
  | .error (.ctx e) => { requestBytes, result := .error (.ctx e) }
  | .error err =>
    { requestBytes, result := .error (P.E [.kind .net, .severity .temporary, .err err]) }
  | .ok resp =>
    let received := receive P wire url serviceMethod target resp
    ⟨requestBytes, received.1, received.2⟩

/-- `Call`. -/
def call (P : Package) (wire : Decoders T V) (rpcPrefix : String)
    (post : Request → Except Err Arrival) (addr serviceMethod : String) (arg : CallArg V)
    (target : ReplyTarget T) : Called V :=
  let url := url rpcPrefix addr serviceMethod
  match arg with
  | .reader body => send P wire url serviceMethod post target (-1) body
  | .value v =>
    let encoded := wire.encode v
    match encoded.2 with
    | some err => { result := .error (P.E [.severity .fatal, .kind .invalid, .err err]) }
    | none => send P wire url serviceMethod post target encoded.1.length encoded.1

/-! ## Bodies that end regularly -/

/-- A response with a body that is read without an error. -/
def Arrival.whole (resp : Arrival) : Response :=
  ⟨resp.status, resp.contentType, resp.body.items, resp.trailer⟩

def Reply.whole : Reply V → Client.Reply V
  | stream resp => .stream resp.whole
  | value v => .value v

def Called.whole (c : Called V) : Client.Called V :=
  ⟨c.requestBytes, c.replyBytes, c.result.map Reply.whole⟩

/-- On bodies that end regularly only the bytes matter. -/
structure Decoders.OfBytes (wire : Decoders T V) : Prop where
  decode : ∀ t body, body.err = .eof → wire.decodeFrom t body = wire.decode t body.items
  decodeError : ∀ body, body.err = .eof → wire.decodeErrorFrom body = wire.decodeError body.items

theorem receive_whole (P : Package) {wire : Decoders T V} (hw : wire.OfBytes)
    (url serviceMethod : String) (target : ReplyTarget T) {resp : Arrival}
    (h : resp.body.err = .eof) :
    Client.receive P wire.toWire url serviceMethod target resp.whole =
      ((receive P wire url serviceMethod target resp).1,
        (receive P wire url serviceMethod target resp).2.map Reply.whole) := by
  have herr : Client.decodeError P wire.toWire serviceMethod resp.whole.body =
      decodeError P wire serviceMethod resp.body := by
    rw [Client.decodeError, decodeError, hw.decodeError _ h]
    rfl
  have hbad : Client.badStatus P wire.toWire url resp.whole = badStatus P wire url resp := by
    have hnil : ", " ++ "<nil>" = ", <nil>" := rfl
    simp [Client.badStatus, badStatus, Reader.copy_items, Reader.copy_err, h, Arrival.whole,
      String.append_assoc, hnil]
    rfl
  have hstatus : resp.whole.status = resp.status := rfl
  cases target with
  | stream =>
    simp only [Client.receive, receive, herr, hbad, hstatus]
    split
    · rfl
    · split <;> rfl
  | gob t =>
    have hdec : wire.decode t resp.whole.body = wire.decodeFrom t resp.body :=
      (hw.decode t resp.body h).symm
    simp only [Client.receive, receive, herr, hbad, hstatus, hdec]
    split
    · rfl
    · split
      · cases (wire.decodeFrom t resp.body).2 <;> rfl
      · rfl

/-- `Client.call` is `call` for bodies that end regularly. -/
theorem call_whole (P : Package) {wire : Decoders T V} (hw : wire.OfBytes) (rpcPrefix : String)
    {post : Request → Except Err Arrival}
    (hpost : ∀ r resp, post r = .ok resp → resp.body.err = .eof)
    (addr serviceMethod : String) (arg : CallArg V) (target : ReplyTarget T) :
    Client.call P wire.toWire rpcPrefix (fun r => (post r).map Arrival.whole) addr serviceMethod
        arg target =
      (call P wire rpcPrefix post addr serviceMethod arg target).whole := by
  have hwhole := fun r resp (hp : post r = .ok resp) =>
    receive_whole P hw (url rpcPrefix addr serviceMethod) serviceMethod target (hpost r resp hp)
  cases arg with
  | reader body =>
    cases hp : post ⟨"POST", url rpcPrefix addr serviceMethod, body⟩ with
    | error err => cases err <;> simp [Client.call, call, send, hp, Except.map, Called.whole]
    | ok resp =>
      have hreceive := hwhole _ _ hp
      simp [Client.call, call, send, hp, Except.map, Called.whole, hreceive]
  | value v =>
    cases henc : (wire.encode v).2 with
    | some err => simp [Client.call, call, henc, Called.whole, Except.map]
    | none =>
      cases hp : post ⟨"POST", url rpcPrefix addr serviceMethod, (wire.encode v).1⟩ with
      | error err =>
        cases err <;> simp [Client.call, call, send, henc, hp, Except.map, Called.whole]
      | ok resp =>
        have hreceive := hwhole _ _ hp
        simp [Client.call, call, send, henc, hp, Except.map, Called.whole, hreceive]

/-! ## The ways to fail -/

/-- What is sent of an argument, or the error of encoding it. -/
def requestBody (wire : Wire T V) : CallArg V → Except Err Bytes
  | .reader body => .ok body
  | .value v =>
    match wire.encode v with
    | (body, none) => .ok body
    | (_, some err) => .error err

theorem receive_cases (P : Package) (wire : Decoders T V) (url serviceMethod : String)
    (target : ReplyTarget T) (resp : Arrival) :
    (resp.status = 200 ∧ ((∃ r, (receive P wire url serviceMethod target resp).2 = .ok r) ∨
      ∃ text err, (receive P wire url serviceMethod target resp).2 =
        .error (P.E [.kind .invalid, .severity .temporary, .text text, .err err]))) ∨
    (resp.status = 590 ∧ (receive P wire url serviceMethod target resp).2 =
      .error (decodeError P wire serviceMethod resp.body)) ∨
    (resp.status ≠ 200 ∧ resp.status ≠ 590 ∧
      (receive P wire url serviceMethod target resp).2 = .error (badStatus P wire url resp)) := by
  by_cases h200 : resp.status = 200
  · refine Or.inl ⟨h200, ?_⟩
    cases target with
    | stream => exact Or.inl ⟨.stream resp, by simp [receive, h200]⟩
    | gob t =>
      cases hd : (wire.decodeFrom t resp.body).2 with
      | ok v => exact Or.inl ⟨.value v, by simp [receive, h200, hd]⟩
      | error err => exact Or.inr ⟨"error while decoding reply for " ++ serviceMethod, err,
        by simp [receive, h200, hd]⟩
  · by_cases h590 : resp.status = 590
    · exact Or.inr (Or.inl ⟨h590, by cases target <;> simp [receive, h590]⟩)
    · exact Or.inr (Or.inr ⟨h200, h590, by cases target <;> simp [receive, h200, h590]⟩)

theorem send_cases (P : Package) (wire : Decoders T V) (url serviceMethod : String)
    (post : Request → Except Err Arrival) (target : ReplyTarget T) (n : Int) (body : Bytes) :
    (∃ e, post ⟨"POST", url, body⟩ = .error (.ctx e) ∧
      (send P wire url serviceMethod post target n body).result = .error (.ctx e)) ∨
    (∃ err, post ⟨"POST", url, body⟩ = .error err ∧ (∀ e, err ≠ .ctx e) ∧
      (send P wire url serviceMethod post target n body).result =
        .error (P.E [.kind .net, .severity .temporary, .err err])) ∨
    ∃ resp, post ⟨"POST", url, body⟩ = .ok resp ∧
      (send P wire url serviceMethod post target n body).result =
        (receive P wire url serviceMethod target resp).2 := by
  unfold send
  cases post ⟨"POST", url, body⟩ with
  | ok resp => exact Or.inr (Or.inr ⟨resp, rfl, rfl⟩)
  | error err =>
    cases err with
    | ctx e => exact Or.inl ⟨e, rfl, rfl⟩
    | eof | text _ | leaf _ _ _ | wrap _ _ _ _ => exact Or.inr (Or.inl ⟨_, rfl, nofun, rfl⟩)

theorem call_cases (P : Package) (wire : Decoders T V) (rpcPrefix : String)
    (post : Request → Except Err Arrival) (addr serviceMethod : String) (arg : CallArg V)
    (target : ReplyTarget T) :
    (∃ err, requestBody wire.toWire arg = .error err ∧
      (call P wire rpcPrefix post addr serviceMethod arg target).result =
        .error (P.E [.severity .fatal, .kind .invalid, .err err])) ∨
    ∃ n body, requestBody wire.toWire arg = .ok body ∧
      call P wire rpcPrefix post addr serviceMethod arg target =
        send P wire (url rpcPrefix addr serviceMethod) serviceMethod post target n body := by
  cases arg with
  | reader body => exact Or.inr ⟨-1, body, rfl, rfl⟩
  | value v =>
    simp only [requestBody, call]
    obtain ⟨body, err⟩ := wire.encode v
    cases err with
    | some err => exact Or.inl ⟨err, rfl, rfl⟩
    | none => exact Or.inr ⟨_, body, rfl, rfl⟩

/-! ## Kind `Net` and severity `Fatal` -/

/-- `Call` fails with an error of kind `Net`. -/
def FailsNet (P : Package) (result : Except Err (Reply V)) : Prop :=
  ∃ err, result = .error err ∧ P.is .net err = true

/-- `Call` fails with a fatal error. -/
def FailsFatal (result : Except Err (Reply V)) : Prop :=
  ∃ err, result = .error err ∧ err.severity = .fatal

@[simp] theorem failsNet_error (P : Package) (err : Err) :
    FailsNet P (.error err : Except Err (Reply V)) ↔ P.is .net err = true := by
  simp [FailsNet]

@[simp] theorem failsFatal_error (err : Err) :
    FailsFatal (.error err : Except Err (Reply V)) ↔ err.severity = .fatal := by
  simp [FailsFatal]

/-- The response is a fatal failure: a status that is neither 200 nor 590, or a fatal error of
the method. -/
def Arrival.Fatal (wire : Decoders T V) (resp : Arrival) : Prop :=
  (resp.status ≠ 200 ∧ resp.status ≠ 590) ∨
    resp.status = 590 ∧ ∃ e, wire.decodeErrorFrom resp.body = .ok e ∧ e.severity = .fatal

section

variable {P : Package} (hE : P.ReturnsError) (hK : P.SetsKind) (hS : P.SetsSeverity)
  (hI : P.InheritsSeverity) (hIs : P.IsOutermost)

include hE hK hIs in
/-- An error made with a kind is of that kind and no other. -/
theorem is_E_iff {args : List Errors.Arg} {k k' : Kind} (hk : k ≠ .other) (hk' : k' ≠ .other)
    (hmem : .kind k ∈ args) (hall : ∀ k', .kind k' ∈ args → k' = k) :
    P.is k' (P.E args) = true ↔ k = k' := by
  have hkind : (P.E args).kind = k := hK args k hk hmem hall
  rw [hIs.error k' _ hk' (hE args), Err.outermostKind_eq (by rwa [hkind]), hkind]

include hE hK hIs in
theorem not_net_E {args : List Errors.Arg} {k : Kind} (hk : k ≠ .other ∧ k ≠ .net)
    (hmem : .kind k ∈ args) (hall : ∀ k', .kind k' ∈ args → k' = k) :
    ¬ P.is .net (P.E args) = true := fun hnet =>
  hk.2 ((is_E_iff hE hK hIs hk.1 (by simp) hmem hall).mp hnet)

include hE hK hIs in
theorem decodeError_not_net (wire : Decoders T V) (serviceMethod : String) (body : Stream) :
    ¬ P.is .net (decodeError P wire serviceMethod body) = true := by
  unfold decodeError
  split
  · exact not_net_E (k := .invalid) hE hK hIs (by simp) (by simp) (by simp)
  · exact not_net_E (k := .remote) hE hK hIs (by simp) (by simp) (by simp)

include hS hI in
theorem decodeError_fatal_iff {wire : Decoders T V} (hD : wire.DecodesErrors)
    (serviceMethod : String) (body : Stream) :
    (decodeError P wire serviceMethod body).severity = .fatal ↔
      ∃ e, wire.decodeErrorFrom body = .ok e ∧ e.severity = .fatal := by
  unfold decodeError
  cases hd : wire.decodeErrorFrom body with
  | error err => rw [hS _ .temporary (by simp) (by simp) (by simp)]; simp
  | ok e => rw [hI _ e (hD _ _ hd) (by simp) (by simp) (by simp)]; simp

include hE hK hIs in
/-- A response never makes an error of kind `Net`, whatever the remote error is. -/
theorem receive_not_net (wire : Decoders T V) (url serviceMethod : String)
    (target : ReplyTarget T) (resp : Arrival) :
    ¬ FailsNet P (receive P wire url serviceMethod target resp).2 := by
  obtain ⟨-, ⟨r, hr⟩ | ⟨text, err, hr⟩⟩ | ⟨-, hr⟩ | ⟨-, -, hr⟩ :=
    receive_cases P wire url serviceMethod target resp
  · simp [hr, FailsNet]
  · rw [hr, failsNet_error]
    exact not_net_E (k := .invalid) hE hK hIs (by simp) (by simp) (by simp)
  · rw [hr, failsNet_error]
    exact decodeError_not_net hE hK hIs wire serviceMethod resp.body
  · rw [hr, failsNet_error]
    exact not_net_E (k := .invalid) hE hK hIs (by simp) (by simp) (by simp)

include hS hI in
theorem receive_fatal_iff {wire : Decoders T V} (hD : wire.DecodesErrors)
    (url serviceMethod : String) (target : ReplyTarget T) (resp : Arrival) :
    FailsFatal (receive P wire url serviceMethod target resp).2 ↔ resp.Fatal wire := by
  obtain ⟨h200, ⟨r, hr⟩ | ⟨text, err, hr⟩⟩ | ⟨h590, hr⟩ | ⟨h200, h590, hr⟩ :=
    receive_cases P wire url serviceMethod target resp
  · simp [hr, FailsFatal, Arrival.Fatal, h200]
  · rw [hr, failsFatal_error, hS _ .temporary (by simp) (by simp) (by simp)]
    simp [Arrival.Fatal, h200]
  · rw [hr, failsFatal_error, decodeError_fatal_iff hS hI hD]
    simp [Arrival.Fatal, h590]
  · rw [hr, failsFatal_error, badStatus, hS _ .fatal (by simp) (by simp) (by simp)]
    simp [Arrival.Fatal, h200, h590]

include hE hK hS hI hIs in
theorem send_attributes {wire : Decoders T V} (hD : wire.DecodesErrors)
    (url serviceMethod : String) (post : Request → Except Err Arrival) (target : ReplyTarget T)
    (n : Int) (body : Bytes) :
    (FailsNet P (send P wire url serviceMethod post target n body).result ↔
      ∃ err, post ⟨"POST", url, body⟩ = .error err ∧ ∀ e, err ≠ .ctx e) ∧
    (FailsFatal (send P wire url serviceMethod post target n body).result ↔
      ∃ resp, post ⟨"POST", url, body⟩ = .ok resp ∧ resp.Fatal wire) := by
  obtain ⟨e, hp, hr⟩ | ⟨err, hp, herr, hr⟩ | ⟨resp, hp, hr⟩ :=
    send_cases P wire url serviceMethod post target n body
  · simp [hr, hp, hIs.context e, Err.severity]
  · have hnet : P.is .net (P.E [.kind .net, .severity .temporary, .err err]) = true :=
      (is_E_iff hE hK hIs (by simp) (by simp) (by simp) (by simp)).mpr rfl
    have hsev : (P.E [.kind .net, .severity .temporary, .err err]).severity = .temporary :=
      hS _ _ (by simp) (by simp) (by simp)
    simp [hr, hp, hnet, hsev, herr]
  · have hnet := receive_not_net hE hK hIs wire url serviceMethod target resp
    rw [hr, receive_fatal_iff hS hI hD]
    simp [hp, hnet]

end

/-- **Errors of `Call`**, for every argument, transport, response and body, with the
assumptions on package errors: the error is of kind `Net` exactly when the POST failed with
an error that is not a context's, and it is fatal exactly when the argument failed to encode,
the status was neither 200 nor 590, or it was 590 and the remote error is fatal. -/
theorem call_net_and_fatal_iff {P : Package} (hE : P.ReturnsError) (hK : P.SetsKind)
    (hS : P.SetsSeverity) (hI : P.InheritsSeverity) (hIs : P.IsOutermost) {wire : Decoders T V}
    (hD : wire.DecodesErrors) (rpcPrefix : String) (post : Request → Except Err Arrival)
    (addr serviceMethod : String) (arg : CallArg V) (target : ReplyTarget T) :
    let result := (call P wire rpcPrefix post addr serviceMethod arg target).result
    let url := url rpcPrefix addr serviceMethod
    (FailsNet P result ↔ ∃ body err, requestBody wire.toWire arg = .ok body ∧
      post ⟨"POST", url, body⟩ = .error err ∧ ∀ e, err ≠ .ctx e) ∧
    (FailsFatal result ↔ (∃ err, requestBody wire.toWire arg = .error err) ∨
      ∃ body resp, requestBody wire.toWire arg = .ok body ∧
        post ⟨"POST", url, body⟩ = .ok resp ∧
        ((resp.status ≠ 200 ∧ resp.status ≠ 590) ∨
          resp.status = 590 ∧
            ∃ e, wire.decodeErrorFrom resp.body = .ok e ∧ e.severity = .fatal)) := by
  intro result url
  obtain ⟨err, hbody, hr⟩ | ⟨n, body, hbody, hcall⟩ :=
    call_cases P wire rpcPrefix post addr serviceMethod arg target
  · have hresult : result = .error (P.E [.severity .fatal, .kind .invalid, .err err]) := hr
    have hnet : ¬ P.is .net (P.E [.severity .fatal, .kind .invalid, .err err]) = true :=
      not_net_E (k := .invalid) hE hK hIs (by simp) (by simp) (by simp)
    have hsev : (P.E [.severity .fatal, .kind .invalid, .err err]).severity = .fatal :=
      hS _ _ (by simp) (by simp) (by simp)
    simp [hresult, hbody, hnet, hsev]
  · have hresult : result = (send P wire url serviceMethod post target n body).result :=
      congrArg Called.result hcall
    obtain ⟨hnet, hfatal⟩ := send_attributes hE hK hS hI hIs hD url serviceMethod post target n body
    rw [hresult, hnet, hfatal]
    simp [hbody, Arrival.Fatal]

/-- Bodies are decoded by the bytes that arrive, unless the reading fails. -/
def Reference.decoders : Decoders Unit Bytes where
  toWire := Rpc.Reference.wire
  decodeFrom t body :=
    if body.err = .eof then Rpc.Reference.wire.decode t body.items
    else (body.items.length, .error body.err)
  decodeErrorFrom body :=
    if body.err = .eof then Rpc.Reference.wire.decodeError body.items else .error body.err

theorem Reference.decoders_ofBytes : Reference.decoders.OfBytes :=
  ⟨fun _ _ h => if_pos h, fun _ h => if_pos h⟩

theorem Reference.decoders_decodesErrors : Reference.decoders.DecodesErrors := by
  intro body e h
  simp only [decoders] at h
  split at h
  · exact Rpc.Reference.wire_decodesErrors _ _ h
  · cases h

theorem Reference.decodeErrorFrom_encodeError {e : Err} (he : e.IsError) :
    Reference.decoders.decodeErrorFrom
      { last := (Rpc.Reference.wire.encodeError e).1, err := .eof } = .ok e := by
  rw [Reference.decoders_ofBytes.decodeError _ rfl]
  exact (Rpc.Reference.wire_roundTrips he).2

/-- A method has failed with a fatal error of kind `Net` that wraps another one. -/
def remoteNet : Err := .wrap .net .fatal "" (.leaf .net .temporary "connection lost")

theorem call_net_and_fatal_iff_remoteNet :
    let post : Request → Except Err Arrival := fun _ =>
      .ok ⟨590, "", "", { last := (Rpc.Reference.wire.encodeError remoteNet).1, err := .eof }⟩
    let result := (call Errors.Reference.package Reference.decoders "/bigrpc/" post
      "https://localhost:4000/" "Supervisor.Ping" (.value [1]) (.gob (some ()))).result
    ¬ FailsNet Errors.Reference.package result ∧ FailsFatal result := by
  have hdecode := Reference.decodeErrorFrom_encodeError (e := remoteNet) trivial
  -- the encoding is long; nothing below depends on it
  generalize (Rpc.Reference.wire.encodeError remoteNet).1 = sent at hdecode ⊢
  intro post result
  obtain ⟨hnet, hfatal⟩ := call_net_and_fatal_iff Errors.Reference.returnsError
    Errors.Reference.setsKind Errors.Reference.setsSeverity Errors.Reference.inheritsSeverity
    Errors.Reference.isOutermost Reference.decoders_decodesErrors "/bigrpc/" post
    "https://localhost:4000/" "Supervisor.Ping" (.value [1]) (.gob (some ()))
  constructor
  · rw [hnet]
    rintro ⟨body, err, -, hpost, -⟩
    cases hpost
  · rw [hfatal]
    exact Or.inr ⟨[1], _, rfl, rfl, Or.inr ⟨rfl, remoteNet, hdecode, rfl⟩⟩

end Bigmachine.Rpc.Transport
