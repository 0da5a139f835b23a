import Bigmachine.Rpc.Addressing

/-!
# Services and their methods

`Register` takes any value; `service.Init` looks through the methods of its type for those of the
form `Func(context.Context, argType, *replyType) error`, and silently skips all others. A name that
is taken stays with the value that was registered first.

From there to the client: a call returns a value exactly when the first value that was registered
under the name of the service has a method of that form and name, the argument can be decoded as the
type of its argument, it returns no error, and the value is what the client decodes from what it has
produced. Later registrations change nothing (`call_ok_iff`).
-/

namespace Bigmachine.Rpc

open Errors Io

variable {V : Type}

/-! ## Types and methods -/

/-- The types that `Init` and `ServeHTTP` tell apart. -/
inductive GoType
  | context
  | error
  | reader
  | readCloser
  | ptr (elem : GoType)
  | named (name : String)
  deriving DecidableEq, Repr

namespace GoType

def isPtr : GoType → Bool
  | .ptr _ => true
  | _ => false

/-- `Elem`, of a pointer. -/
def elem : GoType → GoType
  | .ptr t => t
  | t => t

/-- How `ServeHTTP` reads an argument of the type: values and pointers are decoded alike. -/
def argType (t : GoType) : ArgType GoType := if t = .reader then .reader else .gob t.elem

def replyType (t : GoType) : ReplyType := if t.elem = .readCloser then .stream else .gob

end GoType

/-- A `reflect.Method`; `ins` are the types of its parameters, with the receiver. -/
structure GoMethod (V : Type) where
  name : String
  pkgPath : String := ""
  ins : List GoType
  outs : List GoType
  call : Arg V → Finished V

namespace GoMethod

def inType (m : GoMethod V) (i : Nat) : GoType := m.ins.getD i .context

def method (m : GoMethod V) : Method GoType V :=
  ⟨(m.inType 2).argType, (m.inType 3).replyType, m.call⟩

/-- `Func(context.Context, argType, *replyType) error`, exported. -/
def Eligible (m : GoMethod V) : Prop :=
  m.pkgPath = "" ∧ m.ins.length = 4 ∧ m.inType 1 = .context ∧ (m.inType 3).isPtr = true ∧
    m.outs = [.error]

instance (m : GoMethod V) : Decidable m.Eligible :=
  inferInstanceAs (Decidable (_ ∧ _ ∧ _ ∧ _ ∧ _))

end GoMethod

/-- One round of the loop of `Init`. -/
def Service.add (methods : Service GoType V) (m : GoMethod V) : Service GoType V :=
  if m.pkgPath ≠ "" then methods
  else if m.ins.length ≠ 4 then methods
  else if m.inType 1 ≠ .context then methods
  else if (m.inType 3).isPtr ≠ true then methods
  else if m.outs.length ≠ 1 then methods
  else if m.outs.head? ≠ some .error then methods
  else Function.update methods m.name (some m.method)

/-- `service.Init`. -/
def Service.init (typ : List (GoMethod V)) : Service GoType V :=
  typ.foldl Service.add fun _ => none

/-- `Server.Register`, for a value whose type has the methods `typ`. -/
def Server.registerValue (s : Server (Service GoType V)) (serviceName : String)
    (typ : List (GoMethod V)) : Server (Service GoType V) :=
  s.register serviceName (Service.init typ)

/-- The server after some registrations. -/
def serverOf (regs : List (String × List (GoMethod V))) : Server (Service GoType V) :=
  regs.foldl (fun s reg => s.registerValue reg.1 reg.2) {}

/-! ## What is found -/

/-- The method that a call of `S.M` should run. -/
def resolve (regs : List (String × List (GoMethod V))) (S M : String) : Option (GoMethod V) :=
  (regs.find? (·.1 = S)).bind fun reg =>
    reg.2.reverse.find? fun m => m.name = M ∧ m.Eligible

theorem eligible_iff (m : GoMethod V) :
    m.Eligible ↔ m.pkgPath = "" ∧ m.ins.length = 4 ∧ m.inType 1 = .context ∧
      (m.inType 3).isPtr = true ∧ m.outs.length = 1 ∧ m.outs.head? = some .error := by
  have houts : m.outs = [.error] ↔ m.outs.length = 1 ∧ m.outs.head? = some .error := by
    cases m.outs with
    | nil => simp
    | cons t ts => simp [and_comm]
  rw [GoMethod.Eligible, houts]

theorem Service.add_eq (methods : Service GoType V) (m : GoMethod V) :
    Service.add methods m =
      if m.Eligible then Function.update methods m.name (some m.method) else methods := by
  by_cases he : m.Eligible
  · obtain ⟨hpkg, hins, hctx, hptr, hlen, herr⟩ := (eligible_iff m).mp he
    simp [Service.add, he, hpkg, hins, hctx, hptr, hlen, herr]
  · rw [if_neg he]
    rw [eligible_iff] at he
    unfold Service.add
    split_ifs <;> first | rfl | exact absurd (by simp_all) he

theorem Service.init_eq (typ : List (GoMethod V)) (M : String) :
    Service.init typ M =
      (typ.reverse.find? fun m => m.name = M ∧ m.Eligible).map GoMethod.method := by
  unfold Service.init
  induction typ using List.reverseRecOn with
  | nil => rfl
  | append_singleton typ m ih =>
    rw [List.foldl_concat, Service.add_eq, List.reverse_concat, List.find?_cons]
    by_cases hm : m.name = M ∧ m.Eligible
    · rw [if_pos hm.2, ← hm.1]
      simp [hm]
    · rw [decide_eq_false hm]
      by_cases he : m.Eligible
      · have hne : M ≠ m.name := fun h => hm ⟨h.symm, he⟩
        rw [if_pos he, Function.update_of_ne hne]
        exact ih
      · rw [if_neg he]
        exact ih

theorem serverOf_concat (regs : List (String × List (GoMethod V)))
    (reg : String × List (GoMethod V)) :
    serverOf (regs ++ [reg]) = (serverOf regs).registerValue reg.1 reg.2 := by
  rw [serverOf, List.foldl_concat]
  rfl

theorem serverOf_services (regs : List (String × List (GoMethod V))) (S : String) :
    (serverOf regs).services S = (regs.find? (·.1 = S)).map fun reg => Service.init reg.2 := by
  induction regs using List.reverseRecOn with
  | nil => rfl
  | append_singleton regs reg ih =>
    rw [serverOf_concat, Server.registerValue, List.find?_append]
    by_cases hS : S = reg.1
    · subst hS
      cases hfind : regs.find? (·.1 = reg.1) with
      | none =>
        rw [hfind] at ih
        rw [Server.register_services ih]
        simp
      | some first =>
        rw [hfind] at ih
        have htaken : ((serverOf regs).services reg.1).isSome := by
          rw [ih]
          rfl
        rw [Server.register, if_pos htaken, ih]
        rfl
    · rw [Server.register_services_of_ne _ hS, ih]
      simp [Ne.symm hS]

/-- A later registration of a name changes nothing. -/
theorem serverOf_append {regs : List (String × List (GoMethod V))} {S : String}
    (h : S ∈ regs.map (·.1)) (more : List (String × List (GoMethod V))) :
    (serverOf (regs ++ more)).services S = (serverOf regs).services S := by
  obtain ⟨reg, hreg, rfl⟩ := List.mem_map.mp h
  have hsome : (regs.find? (·.1 = reg.1)).isSome := by
    rw [List.find?_isSome]
    exact ⟨reg, hreg, by simp⟩
  rw [serverOf_services, serverOf_services, List.find?_append, Option.or_of_isSome hsome]

theorem services_method (regs : List (String × List (GoMethod V))) (S M : String) :
    ((serverOf regs).services S).bind (· M) = (resolve regs S M).map GoMethod.method := by
  rw [serverOf_services, resolve]
  cases regs.find? (·.1 = S) with
  | none => rfl
  | some reg => exact Service.init_eq reg.2 M

/-! ## Replies -/

/-- The bytes that a finished call of a method sends. -/
def Produces (wire : Wire GoType V) (m : Method GoType V) (f : Finished V) (b : Bytes) : Prop :=
  match f.stream m with
  | some rc => b = rc.items
  | none => wire.encode f.value = (b, none)

theorem reply_ok_iff (P : Package) (wire : Wire GoType V) (m : Method GoType V) (n : Int)
    (f : Finished V) (b : Bytes) :
    (reply P wire m n f).response.status = 200 ∧ (reply P wire m n f).response.body = b ↔
      f.outcome.error P = none ∧ Produces wire m f b := by
  unfold Produces
  cases hstream : f.stream m with
  | some rc =>
    rw [reply_of_stream P wire n hstream]
    cases f.outcome.error P with
    | some e => simp [methodErrorCode]
    | none => simp [eq_comm]
  | none =>
    have hgob : ∀ rc, m.reply = .stream → f.readcloser ≠ some rc := by
      intro rc hm hrc
      rw [Finished.stream, hm] at hstream
      exact Option.some_ne_none rc (hrc.symm.trans hstream)
    unfold reply
    split
    · rename_i rc hm hrc
      exact absurd hrc (hgob rc hm)
    · cases herr : f.outcome.error P with
      | some e =>
        -- the status is that of an error, whether or not the error can be encoded
        cases hv : wire.encodeError (P.recover e) with
        | mk b' err =>
          cases err <;> simp [hv, methodErrorCode, ResponseWriter.write,
            ResponseWriter.writeHeader, ResponseWriter.response, ResponseWriter.error]
      | none =>
        cases hv : wire.encode f.value with
        | mk b' err =>
          cases err <;> simp [ResponseWriter.write, ResponseWriter.writeHeader,
            ResponseWriter.response, ResponseWriter.error]

theorem fail_status {T : Type} (wire : Wire T V) (msg : String) (code : Nat) :
    (({} : ResponseWriter).error wire msg code).response.status = code := by
  simp [ResponseWriter.error, ResponseWriter.write, ResponseWriter.writeHeader,
    ResponseWriter.response]

/-- Only requests that run a method are answered with the status 200. -/
theorem reaches_of_status {T : Type} {P : Package} {wire : Wire T V} {s : Server (Service T V)}
    {r : Request} (h : (serveHTTP P wire s r).response.status = 200) :
    ∃ m a, Reaches wire s r m a := by
  unfold serveHTTP at h
  simp only at h
  split at h
  · simp [fail_status] at h
  · rename_i hpost
    split at h
    · simp [fail_status] at h
    · rename_i service method hpath
      split at h
      · simp [fail_status] at h
      · rename_i svc hsvc
        split at h
        · simp [fail_status] at h
        · rename_i m hm
          split at h
          · simp [fail_status] at h
          · rename_i a ha
            exact ⟨m, a, not_not.mp hpost, ⟨service, method, svc, hpath, hsvc, hm⟩, ha⟩

/-- A value is what the body of a response with the status 200 is decoded to. -/
theorem receive_value_iff {T : Type} (P : Package) (wire : Wire T V) (url serviceMethod : String)
    (t : Option T) (resp : Response) (v : V) :
    (Client.receive P wire url serviceMethod (.gob t) resp).2 = .ok (.value v) ↔
      resp.status = 200 ∧ (wire.decode t resp.body).2 = .ok v := by
  unfold Client.receive
  by_cases herr : resp.status = 590
  · simp [herr]
  · by_cases hok : resp.status = 200
    · cases hd : wire.decode t resp.body with
      | mk n d => cases d <;> simp [hok, hd]
    · simp [herr, hok]

/-! ## Calls -/

section Calls

variable {addr dir S M : String} {regs : List (String × List (GoMethod V))}

theorem splitServiceMethod_call (hslash : '/' ∉ M.toList) (hS : '.' ∉ S.toList ∧ '/' ∉ S.toList) :
    splitServiceMethod (pathBase (Client.url (dir ++ "/") addr (S ++ "." ++ M))) = some (S, M) := by
  obtain ⟨method, hpath, hmethod⟩ := splitServiceMethod_url addr dir S M hslash
  rw [hpath, found_of_not_mem hS.1 hS.2, String.ofList_toList, hmethod hS.1]

/-- What a call of `S.M` reaches. -/
theorem reaches_iff (wire : Wire GoType V) (hslash : '/' ∉ M.toList)
    (hS : '.' ∉ S.toList ∧ '/' ∉ S.toList) (body : Bytes) (m : Method GoType V) (a : Arg V) :
    Reaches wire (serverOf regs) ⟨"POST", Client.url (dir ++ "/") addr (S ++ "." ++ M), body⟩ m a ↔
      (resolve regs S M).map GoMethod.method = some m ∧ (readArg wire m.arg body).2 = .ok a := by
  have hpath : splitServiceMethod (pathBase (Client.url (dir ++ "/") addr (S ++ "." ++ M))) =
      some (S, M) := splitServiceMethod_call hslash hS
  rw [← services_method]
  constructor
  · rintro ⟨-, ⟨service, method, svc, hsplit, hsvc, hm⟩, hread⟩
    obtain ⟨rfl, rfl⟩ := Prod.mk.inj (Option.some.inj (hsplit.symm.trans hpath))
    exact ⟨by rw [hsvc]; exact hm, hread⟩
  · rintro ⟨hfound, hread⟩
    obtain ⟨svc, hsvc, hm⟩ := Option.bind_eq_some_iff.mp hfound
    exact ⟨rfl, ⟨S, M, svc, hpath, hsvc, hm⟩, hread⟩

end Calls

/-- **What a call returns.** A call of `S.M` returns the value `v` exactly when the value that was
registered first as `S` has a method `M` of the right form, it can read the argument, and returns no
error, and `v` is what the client decodes from what the method has produced. No later registration
makes a difference. -/
theorem call_ok_iff (P : Package) (wire : Wire GoType V) (regs : List (String × List (GoMethod V)))
    (addr dir S M : String) (hslash : '/' ∉ M.toList) (hS : '.' ∉ S.toList ∧ '/' ∉ S.toList)
    (arg : Client.CallArg V) (body : Bytes) (harg : arg.Sends wire body) (t : Option GoType)
    (v : V) :
    (callServer P wire (serverOf regs) (dir ++ "/") addr (S ++ "." ++ M) arg (.gob t) =
        .ok (.value v) ↔
      ∃ m a b, resolve regs S M = some m ∧ (readArg wire m.method.arg body).2 = .ok a ∧
        (m.call a).outcome.error P = none ∧ Produces wire m.method (m.call a) b ∧
        (wire.decode t b).2 = .ok v) ∧
    (S ∈ regs.map (·.1) → ∀ more,
      callServer P wire (serverOf (regs ++ more)) (dir ++ "/") addr (S ++ "." ++ M) arg (.gob t) =
        callServer P wire (serverOf regs) (dir ++ "/") addr (S ++ "." ++ M) arg (.gob t)) := by
  have hcall : ∀ s : Server (Service GoType V),
      callServer P wire s (dir ++ "/") addr (S ++ "." ++ M) arg (.gob t) =
        (Client.receive P wire (Client.url (dir ++ "/") addr (S ++ "." ++ M)) (S ++ "." ++ M)
          (.gob t) (serveHTTP P wire s
            ⟨"POST", Client.url (dir ++ "/") addr (S ++ "." ++ M), body⟩).response).2 :=
    fun s => Client.call_of_response P (.gob t) harg rfl
  constructor
  · rw [hcall, receive_value_iff]
    constructor
    · rintro ⟨hstatus, hdecode⟩
      obtain ⟨m, a, hreach⟩ := reaches_of_status hstatus
      rw [serveHTTP_of_reaches P hreach] at hstatus hdecode
      obtain ⟨hfound, hread⟩ := (reaches_iff wire hslash hS body m a).mp hreach
      obtain ⟨gm, hgm, rfl⟩ := Option.map_eq_some_iff.mp hfound
      obtain ⟨herr, hproduces⟩ := (reply_ok_iff P wire _ _ _ _).mp ⟨hstatus, rfl⟩
      exact ⟨gm, a, _, hgm, hread, herr, hproduces, hdecode⟩
    · rintro ⟨m, a, b, hm, hread, herr, hproduces, hdecode⟩
      have hfound : (resolve regs S M).map GoMethod.method = some m.method := by rw [hm]; rfl
      have hreach : Reaches wire (serverOf regs)
          ⟨"POST", Client.url (dir ++ "/") addr (S ++ "." ++ M), body⟩ m.method a :=
        (reaches_iff wire hslash hS body m.method a).mpr ⟨hfound, hread⟩
      rw [serveHTTP_of_reaches P hreach]
      obtain ⟨hstatus, hbody⟩ := (reply_ok_iff P wire m.method
        (readArg wire m.method.arg body).1 (m.call a) b).mpr ⟨herr, hproduces⟩
      exact ⟨hstatus, hbody ▸ hdecode⟩
  · intro hmem more
    rw [hcall, hcall]
    have hpath : splitServiceMethod (pathBase (Client.url (dir ++ "/") addr (S ++ "." ++ M))) =
        some (S, M) := splitServiceMethod_call hslash hS
    simp only [serveHTTP, hpath, serverOf_append hmem]

/-! ## Two registrations -/

/-- `Echo` returns its argument; `Peek` has no reply. The second value's `Echo` returns nothing. -/
def echoRegistrations : List (String × List (GoMethod Bytes)) :=
  let echo : GoMethod Bytes :=
    { name := "Echo"
      ins := [.ptr (.named "svc"), .context, .named "[]byte", .ptr (.named "[]byte")]
      outs := [.error]
      call := fun a => ⟨.returned none, none, match a with | .reader b => b | .value b => b⟩ }
  [("Svc", [echo, { echo with name := "Peek", ins := echo.ins.take 3 }]),
    ("Svc", [{ echo with call := fun _ => ⟨.returned none, none, []⟩ }])]

def goWire : Wire GoType Bytes where
  encode := Reference.wire.encode
  decode _ b := Reference.wire.decode none b
  encodeError := Reference.wire.encodeError
  decodeError := Reference.wire.decodeError
  ofText := Reference.wire.ofText
  asText := Reference.wire.asText
  statusText := Reference.wire.statusText

theorem call_ok_iff_echo :
    (∀ b : Bytes, callServer Errors.Reference.package goWire (serverOf echoRegistrations)
      ("/bigrpc" ++ "/") "https://host/" ("Svc" ++ "." ++ "Echo") (.value b) (.gob none) =
        .ok (.value b)) ∧
    ∀ b v : Bytes, callServer Errors.Reference.package goWire (serverOf echoRegistrations)
      ("/bigrpc" ++ "/") "https://host/" ("Svc" ++ "." ++ "Peek") (.value b) (.gob none) ≠
        .ok (.value v) := by
  have hecho : ∃ m, resolve echoRegistrations "Svc" "Echo" = some m ∧
      m.method.arg = .gob (.named "[]byte") ∧ m.method.reply = .gob ∧
      ∀ b, m.call (.value b) = ⟨.returned none, none, b⟩ := ⟨_, rfl, rfl, rfl, fun _ => rfl⟩
  obtain ⟨m, hm, hargType, hreply, hrun⟩ := hecho
  constructor
  · intro b
    refine (call_ok_iff Errors.Reference.package goWire echoRegistrations "https://host/" "/bigrpc"
      "Svc" "Echo" (by decide) (by decide) (.value b) b rfl none b).1.mpr
      ⟨m, .value b, b, hm, ?_, ?_, ?_, rfl⟩
    · rw [hargType]
      rfl
    · rw [hrun]
      rfl
    · rw [Produces, hrun, Finished.stream, hreply]
      rfl
  · intro b v hv
    obtain ⟨m, -, -, hm, -⟩ := (call_ok_iff Errors.Reference.package goWire echoRegistrations
      "https://host/" "/bigrpc" "Svc" "Peek" (by decide) (by decide) (.value b) b rfl none
      v).1.mp hv
    have hnone : resolve echoRegistrations "Svc" "Peek" = none := rfl
    rw [hnone] at hm
    cases hm

end Bigmachine.Rpc
