import Bigmachine.Rpc.Wire

/-!
# The RPC server

`Server.register` and `serveHTTP`, with every early return of the source. A method is
given by the types of its argument and reply and by what it does on an argument
(`Finished`): how it ended, the reader it assigned to a stream reply, if any, and the
value its reply holds.

`serveHTTP` returns the response and what it passes to the completion function of its
statistics, when it gets that far.
-/

namespace Bigmachine.Rpc

open Errors Io

variable {α T V : Type}

/-! ## Services -/

structure Server (α : Type) where
  services : String → Option α := fun _ => none

/-- `Register` does nothing when the name is taken. -/
def Server.register (s : Server α) (serviceName : String) (iface : α) : Server α :=
  if (s.services serviceName).isSome then s
  else { s with services := Function.update s.services serviceName (some iface) }

inductive ArgType (T : Type)
  | reader
  | gob (t : T)

inductive ReplyType
  | stream
  | gob
  deriving DecidableEq, Repr

inductive Arg (V : Type)
  | reader (body : Bytes)
  | value (v : V)

/-- How a method ended. A panic carries its value as `%v` prints it; `none` is the value
nil, which `recover` does not tell from no panic. -/
inductive Outcome
  | returned (err : Option Err)
  | panicked (value : Option String)
  deriving DecidableEq, Repr

structure Finished (V : Type) where
  outcome : Outcome
  readcloser : Option Stream := none
  value : V

structure Method (T V : Type) where
  arg : ArgType T
  reply : ReplyType
  call : Arg V → Finished V

abbrev Service (T V : Type) := String → Option (Method T V)

/-! ## The response writer -/

structure ResponseWriter where
  status : Option Nat := none
  contentType : String := ""
  body : Bytes := []
  trailer : String := ""

namespace ResponseWriter

/-- Only the first status counts. -/
def writeHeader (w : ResponseWriter) (code : Nat) : ResponseWriter :=
  { w with status := some (w.status.getD code) }

def write (w : ResponseWriter) (b : Bytes) : ResponseWriter :=
  { w.writeHeader 200 with body := w.body ++ b }

/-- `http.Error`. -/
def error (wire : Wire T V) (w : ResponseWriter) (msg : String) (code : Nat) : ResponseWriter :=
  ({ w with contentType := "text/plain; charset=utf-8" }.writeHeader code).write
    (wire.ofText (msg ++ "\n"))

/-- What the client receives. -/
def response (w : ResponseWriter) : Response :=
  ⟨w.status.getD 200, w.contentType, w.body, w.trailer⟩

end ResponseWriter

/-! ## Serving a request -/

def methodErrorCode : Nat := 590

def gobContentType : String := "application/x-gob"

/-- `path.Base`. -/
def pathBase (path : String) : String :=
  if path = "" then "."
  else
    match (path.toList.reverse.dropWhile (· = '/')).takeWhile (· ≠ '/') with
    | [] => "/"
    | cs => String.ofList cs.reverse

/-- `strings.SplitN(s, ".", 2)`, when it gives two parts. -/
def splitServiceMethod (s : String) : Option (String × String) :=
  match s.toList.dropWhile (· ≠ '.') with
  | [] => none
  | _ :: method => some (String.ofList (s.toList.takeWhile (· ≠ '.')), String.ofList method)

/-- What the completion function of the statistics is called with. -/
structure Done where
  requestBytes : Int := -1
  replyBytes : Int := -1
  err : Option Err := none

structure Served where
  response : Response
  done : Option Done := none

/-- The error of a method call, with the error made from a recovered panic. -/
def Outcome.error (P : Package) : Outcome → Option Err
  | returned err => err
  | panicked (some value) => some (P.E [.severity .fatal, .err (.text ("panic: " ++ value))])
  | panicked none => none

/-- The argument of a method, and the size of the request as the server takes it: before
the decoder reads. -/
def readArg (wire : Wire T V) (arg : ArgType T) (body : Bytes) : Int × Except Err (Arg V) :=
  match arg with
  | .reader => (-1, .ok (.reader body))
  | .gob t => (0, (wire.decode (some t) body).2.map .value)

/-- The reply to a finished method call. -/
def reply (P : Package) (wire : Wire T V) (m : Method T V) (requestBytes : Int)
    (f : Finished V) : Served :=
  let err := f.outcome.error P
  let code := if err.isSome then methodErrorCode else 200
  match m.reply, f.readcloser with
  | .stream, some rc =>
    let w : ResponseWriter := { contentType := "application/octet-stream" }
    let copied := rc.copy .eof
    let w := ((w.writeHeader code).write copied.1)
    let errStr := (copied.2.map P.errorText).getD ""
    ⟨{ w with trailer := errStr }.response, some ⟨requestBytes, -1, copied.2⟩⟩
  | _, _ =>
    let w : ResponseWriter := { contentType := gobContentType }
    -- a successful reply writes its status with its body, after the encoding has succeeded
    let w := if code ≠ 200 then w.writeHeader code else w
    let encoded := match err with
      | some e => wire.encodeError (P.recover e)
      | none => wire.encode f.value
    match encoded.2 with
    | none => ⟨(w.write encoded.1).response, some ⟨requestBytes, encoded.1.length, none⟩⟩
    | some e =>
      ⟨(w.error wire (P.errorText e) 500).response, some ⟨requestBytes, encoded.1.length, some e⟩⟩

def serveHTTP (P : Package) (wire : Wire T V) (s : Server (Service T V)) (r : Request) : Served :=
  let fail (msg : String) (code : Nat) : Response :=
    (({} : ResponseWriter).error wire msg code).response
  if r.method ≠ "POST" then ⟨fail "method not allowed" 405, none⟩
  else
    match splitServiceMethod (pathBase r.path) with
    | none => ⟨fail "bad url" 400, none⟩
    | some (service, method) =>
      match s.services service with
      | none => ⟨fail "no such service" 404, none⟩
      | some svc =>
        match svc method with
        | none => ⟨fail "no such method" 404, none⟩
        | some m =>
          let read := readArg wire m.arg r.body
          match read.2 with
          | .error e =>
            ⟨fail ("error decoding request: " ++ P.errorText e) 400, some ⟨read.1, -1, some e⟩⟩
          | .ok arg => reply P wire m read.1 (m.call arg)

/-- The request is a call of method `m` on the argument `arg`. -/
structure Reaches (wire : Wire T V) (s : Server (Service T V)) (r : Request) (m : Method T V)
    (arg : Arg V) : Prop where
  post : r.method = "POST"
  found : ∃ service method svc, splitServiceMethod (pathBase r.path) = some (service, method) ∧
    s.services service = some svc ∧ svc method = some m
  read : (readArg wire m.arg r.body).2 = .ok arg

theorem serveHTTP_of_reaches (P : Package) {wire : Wire T V} {s : Server (Service T V)}
    {r : Request} {m : Method T V} {arg : Arg V} (h : Reaches wire s r m arg) :
    serveHTTP P wire s r = reply P wire m (readArg wire m.arg r.body).1 (m.call arg) := by
  obtain ⟨service, method, svc, hpath, hservice, hmethod⟩ := h.found
  simp [serveHTTP, h.post, hpath, hservice, hmethod, h.read]

/-- The reader that a method call has assigned to its stream reply. -/
def Finished.stream (m : Method T V) (f : Finished V) : Option Stream :=
  match m.reply with
  | .stream => f.readcloser
  | .gob => none

theorem reply_of_stream (P : Package) (wire : Wire T V) {m : Method T V} (n : Int)
    {f : Finished V} {rc : Stream} (h : f.stream m = some rc) :
    (reply P wire m n f).response =
      ⟨if (f.outcome.error P).isSome then methodErrorCode else 200, "application/octet-stream",
        rc.items, ((rc.copy .eof).2.map P.errorText).getD ""⟩ := by
  unfold Finished.stream at h
  split at h
  · rename_i hm
    simp [reply, hm, h, ResponseWriter.write, ResponseWriter.writeHeader,
      ResponseWriter.response, Reader.copy_items]
  · cases h

theorem reply_of_error (P : Package) {wire : Wire T V} {m : Method T V} (n : Int)
    {f : Finished V} (h : f.stream m = none) {e : Err} (he : f.outcome.error P = some e)
    {b : Bytes} (hb : wire.encodeError (P.recover e) = (b, none)) :
    (reply P wire m n f).response = ⟨methodErrorCode, gobContentType, b, ""⟩ := by
  unfold Finished.stream at h
  unfold reply
  split
  · rename_i rc hm hrc
    rw [hm] at h
    have hnone : f.readcloser = none := h
    rw [hrc] at hnone
    cases hnone
  · simp [he, hb, methodErrorCode, ResponseWriter.write, ResponseWriter.writeHeader,
      ResponseWriter.response]

/-- The status for method errors is kept for them. -/
theorem reply_status_of_ok (P : Package) (wire : Wire T V) (m : Method T V) (n : Int)
    {f : Finished V} (h : f.outcome.error P = none) :
    (reply P wire m n f).response.status ≠ 590 := by
  unfold reply
  simp only [h]
  split
  · simp [ResponseWriter.write, ResponseWriter.writeHeader, ResponseWriter.response]
  · split <;> simp [ResponseWriter.write, ResponseWriter.writeHeader, ResponseWriter.response,
      ResponseWriter.error]

end Bigmachine.Rpc
