import Bigmachine.Rpc.Server

/-!
# The RPC client

`Client.Call` from the encoding of the argument to the classification of the response, and
the reader that it hands back for a stream reply. The POST is a parameter: it returns a
response or an error. `callServer` puts `serveHTTP` in its place.
-/

namespace Bigmachine.Rpc

open Errors Io

namespace Client

variable {T V : Type}

inductive CallArg (V : Type)
  | reader (body : Bytes) -- an `io.Reader`, or a function that returns one
  | value (v : V)

/-- The type of the reply argument: `*io.ReadCloser`, or a pointer to a gob value; nil
discards the reply. -/
inductive ReplyTarget (T : Type)
  | stream
  | gob (t : Option T)

inductive Reply (V : Type)
  | stream (resp : Response) -- the response behind a `streamReader`
  | value (v : V)

/-- `decodeError`. -/
def decodeError (P : Package) (wire : Wire T V) (serviceMethod : String) (body : Bytes) : Err :=
  match wire.decodeError body with
  | .error err =>
    P.E [.kind .invalid, .severity .temporary,
      .text ("error while decoding error for " ++ serviceMethod), .err err]
  | .ok e => P.E [.kind .remote, .err e]

/-- The error for a status that is neither 200 nor 590. -/
def badStatus (P : Package) (wire : Wire T V) (url : String) (resp : Response) : Err :=
  let what := if 400 ≤ resp.status ∧ resp.status < 500 then "client error" else "bad reply status"
  P.E [.severity .fatal, .kind .invalid,
    .text (url ++ ": " ++ what ++ " " ++ wire.statusText resp.status ++ ", " ++
      wire.asText resp.body ++ ", <nil>")]

/-- What `Call` makes of a response, with the number of reply bytes for its statistics. -/
def receive (P : Package) (wire : Wire T V) (url serviceMethod : String)
    (target : ReplyTarget T) (resp : Response) : Int × Except Err (Reply V) :=
  match target with
  | .stream =>
    if resp.status = 200 then (-1, .ok (.stream resp))
    else if resp.status = 590 then (-1, .error (decodeError P wire serviceMethod resp.body))
    else (-1, .error (badStatus P wire url resp))
  | .gob t =>
    if resp.status = 590 then (-1, .error (decodeError P wire serviceMethod resp.body))
    else if resp.status = 200 then
      let decoded := wire.decode t resp.body
      match decoded.2 with
      | .ok v => (decoded.1, .ok (.value v))
      | .error err =>
        (decoded.1, .error (P.E [.kind .invalid, .severity .temporary,
          .text ("error while decoding reply for " ++ serviceMethod), .err err]))
    else (-1, .error (badStatus P wire url resp))

/-- `strings.TrimRight(addr, "/") + c.prefix + serviceMethod`. -/
def url (rpcPrefix addr serviceMethod : String) : String :=
  String.ofList (addr.toList.reverse.dropWhile (· = '/')).reverse ++ rpcPrefix ++ serviceMethod

structure Called (V : Type) where
  requestBytes : Int := -1
  replyBytes : Int := -1
  result : Except Err (Reply V)

/-- `Call`. The server is given the whole URL as its path. -/
def call (P : Package) (wire : Wire T V) (rpcPrefix : String)
    (post : Request → Except Err Response) (addr serviceMethod : String) (arg : CallArg V)
    (target : ReplyTarget T) : Called V :=
  let url := url rpcPrefix addr serviceMethod
  let send (requestBytes : Int) (body : Bytes) : Called V :=
    match post ⟨"POST", url, body⟩ with
    | .error (.ctx e) => { requestBytes, result := .error (.ctx e) }
    | .error err =>
      { requestBytes, result := .error (P.E [.kind .net, .severity .temporary, .err err]) }
    | .ok resp =>
      let received := receive P wire url serviceMethod target resp
      ⟨requestBytes, received.1, received.2⟩
  match arg with
  | .reader body => send (-1) body
  | .value v =>
    let encoded := wire.encode v
    match encoded.2 with
    | some err => { result := .error (P.E [.severity .fatal, .kind .invalid, .err err]) }
    | none => send encoded.1.length encoded.1

/-- The argument is sent as `body`. -/
def CallArg.Sends (wire : Wire T V) (arg : CallArg V) (body : Bytes) : Prop :=
  match arg with
  | .reader b => b = body
  | .value v => wire.encode v = (body, none)

theorem call_of_response (P : Package) {wire : Wire T V} {rpcPrefix : String}
    {post : Request → Except Err Response} {addr serviceMethod : String} {arg : CallArg V}
    {body : Bytes} {resp : Response} (target : ReplyTarget T) (harg : arg.Sends wire body)
    (hpost : post ⟨"POST", url rpcPrefix addr serviceMethod, body⟩ = .ok resp) :
    (call P wire rpcPrefix post addr serviceMethod arg target).result =
      (receive P wire (url rpcPrefix addr serviceMethod) serviceMethod target resp).2 := by
  match arg with
  | .reader b =>
    cases harg
    simp [call, hpost]
  | .value v =>
    have hv : wire.encode v = (body, none) := harg
    simp [call, hv, hpost]

theorem receive_methodError (P : Package) (wire : Wire T V) (url serviceMethod : String)
    (target : ReplyTarget T) {resp : Response} (h : resp.status = 590) :
    (receive P wire url serviceMethod target resp).2 =
      .error (decodeError P wire serviceMethod resp.body) := by
  cases target <;> simp [receive, h]

/-- Every error but that of a method is of kind `Invalid`. -/
theorem receive_kind {P : Package} (hK : P.SetsKind) {wire : Wire T V}
    {url serviceMethod : String} {target : ReplyTarget T} {resp : Response}
    (h : resp.status ≠ 590) {r : Err}
    (hr : (receive P wire url serviceMethod target resp).2 = .error r) : r.kind = .invalid := by
  have hbad : (badStatus P wire url resp).kind = .invalid :=
    hK _ _ (by simp) (by simp) (by simp)
  cases target with
  | stream =>
    simp only [receive, h, if_false] at hr
    split at hr
    · cases hr
    · cases hr
      exact hbad
  | gob t =>
    simp only [receive, h, if_false] at hr
    split at hr
    · split at hr
      · cases hr
      · cases hr
        exact hK _ _ (by simp) (by simp) (by simp)
    · cases hr
      exact hbad

/-- `streamReader.Read`, over all the reads that empty the body of the response. -/
def streamReader (resp : Response) (body : Stream) : Stream :=
  body.mapErr fun err =>
    if err ≠ .eof then err
    else if resp.trailer ≠ "" then .text resp.trailer
    else err

end Client

/-! ## Against a server -/

variable {T V : Type}

/-- `Client.Call` against a server, over a transport that changes nothing. -/
def callServer (P : Package) (wire : Wire T V) (s : Server (Service T V))
    (rpcPrefix addr serviceMethod : String) (arg : Client.CallArg V)
    (target : Client.ReplyTarget T) : Except Err (Client.Reply V) :=
  (Client.call P wire rpcPrefix (fun r => .ok (serveHTTP P wire s r).response) addr
    serviceMethod arg target).result

theorem callServer_of_reaches (P : Package) {wire : Wire T V} {s : Server (Service T V)}
    {rpcPrefix addr serviceMethod : String} {arg : Client.CallArg V} {body : Bytes}
    {m : Method T V} {a : Arg V} (target : Client.ReplyTarget T) (harg : arg.Sends wire body)
    (hm : Reaches wire s ⟨"POST", Client.url rpcPrefix addr serviceMethod, body⟩ m a) :
    callServer P wire s rpcPrefix addr serviceMethod arg target =
      (Client.receive P wire (Client.url rpcPrefix addr serviceMethod) serviceMethod target
        (reply P wire m (readArg wire m.arg body).1 (m.call a)).response).2 := by
  rw [callServer, Client.call_of_response P target harg rfl, serveHTTP_of_reaches P hm]

end Bigmachine.Rpc
