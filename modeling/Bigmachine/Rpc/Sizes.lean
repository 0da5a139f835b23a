import Bigmachine.Rpc.Addressing
import Bigmachine.Rpc.Maxima

/-!
# The sizes of requests and replies in the statistics

Client and server both pass the sizes of a call to their statistics. The client takes the
request from the buffer it sends and the reply from a counting reader after the decoder has
read; the server takes the reply from the buffer it sends, and the request from a counting
reader before the decoder has read. So the server's request size is 0, whatever the call
(`served_eq`), and the function of the statistics drops it. The reply sizes are the same on
both sides (`called_replyBytes`).

`sizes_agree_iff` says when both sides agree: when all argument bodies are empty.
-/

namespace Bigmachine.Rpc

open Transition Errors

variable {T V : Type}

/-! ## Counting readers -/

/-- `sizeTrackingReader`, by the number of bytes read through it. -/
structure SizeTrackingReader where
  n : Nat := 0

namespace SizeTrackingReader

def len (r : SizeTrackingReader) : Nat := r.n

/-- A decoder reads from `r`, which reads from a body. -/
def decode (wire : Wire T V) (r : SizeTrackingReader) (t : Option T) (body : Bytes) :
    SizeTrackingReader × Except Err V :=
  let decoded := wire.decode t body
  ({ n := r.n + decoded.1 }, decoded.2)

end SizeTrackingReader

/-- The server asks for the length before it decodes. -/
theorem readArg_gob (wire : Wire T V) (t : T) (body : Bytes) :
    readArg wire (.gob t) body =
      ((({} : SizeTrackingReader).len : Int),
        (SizeTrackingReader.decode wire {} (some t) body).2.map Arg.value) := rfl

/-- The client asks for the length after it has decoded. -/
theorem receive_gob (P : Package) (wire : Wire T V) (url serviceMethod : String) (t : Option T)
    {resp : Response} (h : resp.status = 200) :
    (Client.receive P wire url serviceMethod (.gob t) resp).1 =
      (SizeTrackingReader.decode wire {} t resp.body).1.len := by
  have hne : ¬ (200 = 590) := by decide
  simp only [Client.receive, h, if_neg hne, if_true, SizeTrackingReader.decode,
    SizeTrackingReader.len, Nat.zero_add]
  split <;> rfl

/-- A decoder that has decoded what was encoded has read all of it. -/
def Wire.ReadsWhole (wire : Wire T V) : Prop :=
  ∀ t v n v', (wire.encode v).2 = none → wire.decode t (wire.encode v).1 = (n, .ok v') →
    n = (wire.encode v).1.length

/-- A reply of a gob method with status 200 is the encoded value, and the statistics are given its
length. -/
theorem reply_of_ok (P : Package) (wire : Wire T V) {m : Method T V} (n : Int)
    (f : Finished V) (hm : m.reply = .gob) (h : (reply P wire m n f).response.status = 200) :
    ((wire.encode f.value).2 = none ∧
      (reply P wire m n f).response.body = (wire.encode f.value).1) ∧
    (reply P wire m n f).done =
      some ⟨n, (reply P wire m n f).response.body.length, none⟩ := by
  unfold reply at h ⊢
  simp only [hm] at h ⊢
  cases herr : f.outcome.error P with
  | some e =>
    -- the status is 590 before anything else is written
    exfalso
    simp only [herr] at h
    split at h <;>
      simp [methodErrorCode, ResponseWriter.write, ResponseWriter.writeHeader,
        ResponseWriter.response, ResponseWriter.error] at h
  | none =>
    simp only [herr] at h ⊢
    split at h
    · rename_i hencode
      refine ⟨⟨hencode, ?_⟩, ?_⟩ <;>
        simp [ResponseWriter.write, ResponseWriter.writeHeader, ResponseWriter.response]
    · simp [ResponseWriter.write, ResponseWriter.writeHeader, ResponseWriter.response,
        ResponseWriter.error] at h

/-! ## A call and what both sides record -/

/-- The method under which `serveHTTP` starts its statistics. -/
def statsMethod (path : String) : String :=
  ((splitServiceMethod (pathBase path)).map fun p => p.1 ++ "." ++ p.2).getD ""

/-- A call whose argument and reply are gob values; the times are those that the two sides
measure. -/
structure GobCall (T V : Type) where
  addr : String
  serviceMethod : String
  arg : V
  target : Option T
  clientTime : Int64 := 0
  serverTime : Int64 := 0

namespace GobCall

section Sides

variable (P : Package) (wire : Wire T V) (s : Server (Service T V)) (rpcPrefix : String)
  (c : GobCall T V)

def url : String := Client.url rpcPrefix c.addr c.serviceMethod

def request : Request := ⟨"POST", c.url rpcPrefix, (wire.encode c.arg).1⟩

def served : Served := serveHTTP P wire s (c.request wire rpcPrefix)

def called : Client.Called V :=
  Client.call P wire rpcPrefix (fun r => .ok (serveHTTP P wire s r).response) c.addr
    c.serviceMethod (.value c.arg) (.gob c.target)

/-- The call completes with status 200 and decodes, on both sides. -/
structure Completes : Prop where
  reaches : ∃ m a t, Reaches wire s (c.request wire rpcPrefix) m a ∧ m.arg = .gob t ∧
    m.reply = .gob
  status : (c.served P wire s rpcPrefix).response.status = 200
  decodes : ∃ v, (c.called P wire s rpcPrefix).result = .ok (.value v)

def RequestSizesAgree : Prop :=
  (c.served P wire s rpcPrefix).done.map Done.requestBytes =
      some (c.called P wire s rpcPrefix).requestBytes ∧
    (c.called P wire s rpcPrefix).requestBytes = (wire.encode c.arg).1.length

def ReplySizesAgree : Prop :=
  (c.served P wire s rpcPrefix).done.map Done.replyBytes =
      some (c.called P wire s rpcPrefix).replyBytes ∧
    (c.called P wire s rpcPrefix).replyBytes =
      (c.served P wire s rpcPrefix).response.body.length

/-- What the client's statistics know of the call. -/
def clientStats : Stats.Call :=
  let called := c.called P wire s rpcPrefix
  let err := match called.result with
    | .ok _ => none
    | .error e => some e
  ⟨c.addr, c.serviceMethod,
    some ⟨Int64.ofInt called.requestBytes, Int64.ofInt called.replyBytes, err, c.clientTime⟩⟩

/-- What the server's statistics know of the call; the server gives them no address. -/
def serverStats : Stats.Call :=
  ⟨"", statsMethod (c.url rpcPrefix), (c.served P wire s rpcPrefix).done.map fun d =>
    ⟨Int64.ofInt d.requestBytes, Int64.ofInt d.replyBytes, d.err, c.serverTime⟩⟩

end Sides

/-! ## The sizes of one call -/

section Call

variable {P : Package} {wire : Wire T V} {s : Server (Service T V)} {rpcPrefix : String}
  {c : GobCall T V}

theorem called_eq (hencode : (wire.encode c.arg).2 = none) :
    c.called P wire s rpcPrefix =
      let received := Client.receive P wire (c.url rpcPrefix) c.serviceMethod (.gob c.target)
        (c.served P wire s rpcPrefix).response
      ⟨(wire.encode c.arg).1.length, received.1, received.2⟩ := by
  simp only [called, Client.call, hencode]
  rfl

theorem Completes.encode_eq_none (h : c.Completes P wire s rpcPrefix) :
    (wire.encode c.arg).2 = none := by
  obtain ⟨v, hv⟩ := h.decodes
  cases hencode : (wire.encode c.arg).2 with
  | none => rfl
  | some e =>
    simp only [called, Client.call, hencode] at hv
    cases hv

/-- The server passes 0 for the request, and the body of its reply is an encoded value. -/
theorem Completes.served_eq (h : c.Completes P wire s rpcPrefix) :
    (∃ v, (wire.encode v).2 = none ∧
      (c.served P wire s rpcPrefix).response.body = (wire.encode v).1) ∧
    (c.served P wire s rpcPrefix).done =
      some ⟨0, (c.served P wire s rpcPrefix).response.body.length, none⟩ := by
  obtain ⟨m, a, t, hm, harg, hreply⟩ := h.reaches
  have hstatus := h.status
  rw [served, serveHTTP_of_reaches P hm, harg, readArg_gob] at hstatus ⊢
  obtain ⟨hbody, hdone⟩ := reply_of_ok P wire _ _ hreply hstatus
  exact ⟨⟨_, hbody⟩, hdone⟩

/-- The reply bytes of the client are those of the response. -/
theorem Completes.called_replyBytes (hwhole : wire.ReadsWhole)
    (h : c.Completes P wire s rpcPrefix) : (c.called P wire s rpcPrefix).replyBytes =
      (c.served P wire s rpcPrefix).response.body.length := by
  obtain ⟨v, hv⟩ := h.decodes
  rw [called_eq h.encode_eq_none] at hv ⊢
  have hne : ¬ ((200 : Nat) = 590) := by decide
  simp only [Client.receive, h.status, if_neg hne, if_true] at hv
  split at hv
  · rename_i v' hdecode
    obtain ⟨⟨w, hencode, hbody⟩, -⟩ := h.served_eq
    rw [hbody] at hdecode
    have hn := hwhole c.target w _ v' hencode (Prod.ext rfl hdecode)
    simp only [receive_gob P wire _ _ _ h.status, SizeTrackingReader.decode,
      SizeTrackingReader.len, Nat.zero_add, hbody, ← hn]
  · cases hv

theorem Completes.replySizesAgree (hwhole : wire.ReadsWhole) (h : c.Completes P wire s rpcPrefix) :
    c.ReplySizesAgree P wire s rpcPrefix := by
  have hcalled := h.called_replyBytes hwhole
  refine ⟨?_, hcalled⟩
  rw [h.served_eq.2, hcalled]
  rfl

theorem Completes.requestSizesAgree_iff (h : c.Completes P wire s rpcPrefix) :
    c.RequestSizesAgree P wire s rpcPrefix ↔ (wire.encode c.arg).1 = [] := by
  have hcalled : (c.called P wire s rpcPrefix).requestBytes = (wire.encode c.arg).1.length := by
    rw [called_eq h.encode_eq_none]
  rw [RequestSizesAgree, h.served_eq.2, hcalled, ← List.length_eq_zero_iff]
  refine ⟨fun hsizes => ?_, fun hzero => ⟨?_, rfl⟩⟩
  · exact Int.ofNat.inj (Option.some.inj hsizes.1).symm
  · rw [hzero]
    rfl

theorem Completes.clientStats_eq (hwhole : wire.ReadsWhole) (h : c.Completes P wire s rpcPrefix) :
    c.clientStats P wire s rpcPrefix =
      ⟨c.addr, c.serviceMethod,
        some ⟨Int64.ofInt (wire.encode c.arg).1.length,
          Int64.ofInt (c.served P wire s rpcPrefix).response.body.length, none, c.clientTime⟩⟩ := by
  obtain ⟨v, hv⟩ := h.decodes
  have hreply := h.called_replyBytes hwhole
  simp only [clientStats, hv, hreply]
  rw [called_eq h.encode_eq_none]

theorem Completes.serverStats_eq (h : c.Completes P wire s rpcPrefix) :
    c.serverStats P wire s rpcPrefix =
      ⟨"", statsMethod (c.url rpcPrefix),
        some ⟨Int64.ofInt 0, Int64.ofInt (c.served P wire s rpcPrefix).response.body.length, none,
          c.serverTime⟩⟩ := by
  rw [serverStats, h.served_eq.2, Option.map_some]

/-! ## Names -/

/-- The name of the method is one, and the prefix ends in a slash. -/
structure Named (rpcPrefix : String) (c : GobCall T V) : Prop where
  rpcPrefix : ∃ dir, rpcPrefix = dir ++ "/"
  slash : '/' ∉ c.serviceMethod.toList
  nonempty : c.serviceMethod ≠ ""

theorem joined_of_split {name service method : String}
    (h : splitServiceMethod name = some (service, method)) : service ++ "." ++ method = name := by
  unfold splitServiceMethod at h
  split at h
  · cases h
  · rename_i c d hd
    cases h
    have hsplit : name.toList.takeWhile (· ≠ '.') ++ name.toList.dropWhile (· ≠ '.') =
        name.toList := List.takeWhile_append_dropWhile
    rw [hd, eq_of_dropWhile_ne hd] at hsplit
    apply String.toList_inj.mp
    simpa using hsplit

/-- Both sides record the call under the same method. -/
theorem Named.statsMethod_eq (hnamed : c.Named rpcPrefix) (h : c.Completes P wire s rpcPrefix) :
    statsMethod (c.url rpcPrefix) = c.serviceMethod := by
  obtain ⟨dir, rfl⟩ := hnamed.rpcPrefix
  obtain ⟨m, a, t, hm, -, -⟩ := h.reaches
  obtain ⟨service, method, -, hsplit, -, -⟩ := hm.found
  have hne : c.serviceMethod.toList ≠ [] := by simpa using hnamed.nonempty
  have hbase : pathBase (c.url (dir ++ "/")) = c.serviceMethod := by
    have hpath : (c.url (dir ++ "/")).toList =
        ((c.addr.toList.reverse.dropWhile (· = '/')).reverse ++ dir.toList) ++
          '/' :: c.serviceMethod.toList := by
      simp [url, Client.url]
    rw [pathBase_of_eq hpath hne hnamed.slash, String.ofList_toList]
  have hsplit' : splitServiceMethod (pathBase (c.url (dir ++ "/"))) = some (service, method) :=
    hsplit
  rw [statsMethod, hsplit', ← hbase, ← joined_of_split hsplit']
  rfl

end Call

end GobCall

/-! ## The counters of both sides -/

namespace Stats

open Concurrent

theorem recorded_congr {β : Type} (bs : List β) (f g : β → Call) (p : List String) (k : String)
    (h : ∀ b ∈ bs, recorded (f b).tasks p k = recorded (g b).tasks p k) :
    recorded ((bs.map f).flatMap Call.tasks) p k =
      recorded ((bs.map g).flatMap Call.tasks) p k := by
  simp only [recorded_flatMap, List.flatMap_map]
  exact List.flatMap_congr h

theorem count_congr {tr tr' : List Event} {s s' : State}
    (h : Steps system Undisturbed system.init tr s) (hquiet : s.Quiet)
    (h' : Steps system Undisturbed system.init tr' s') (hquiet' : s'.Quiet) {p : List String}
    {k : String} (hrec : recorded (s.calls.flatMap Call.tasks) p k =
      recorded (s'.calls.flatMap Call.tasks) p k) : s.count p k = s'.count p k := by
  by_cases hk : layout.Maximum k
  · rw [count_eq_max_recorded h hquiet p hk, count_eq_max_recorded h' hquiet' p hk, hrec]
  · have halways := fun (s : State) (e : Event) (_ : Undisturbed s e) => trivial
    rw [count_eq_sum_recorded (h.mono halways) hquiet p hk,
      count_eq_sum_recorded (h'.mono halways) hquiet' p hk, hrec]

/-- What is recorded of a size depends only on the method and the size. -/
theorem recorded_size_congr {c c' : Call} (g : Outcome → Int64) {k : String}
    (hk : ∀ a m o, recorded (Call.tasks ⟨a, m, o⟩) (methodPath m) k =
      o.toList.flatMap fun o => if 0 < g o then [g o] else [])
    (hmethod : c.method = c'.method) (hsize : c.outcome.map g = c'.outcome.map g) (m : String) :
    recorded c.tasks (methodPath m) k = recorded c'.tasks (methodPath m) k := by
  by_cases hm : c.method = m
  · have hflat : ∀ o : Option Outcome, (o.toList.flatMap fun o => if 0 < g o then [g o] else []) =
        (o.map g).toList.flatMap fun x => if 0 < x then [x] else [] := by
      intro o
      cases o <;> rfl
    obtain ⟨a, m₁, o⟩ := c
    obtain ⟨a', m₂, o'⟩ := c'
    cases hm
    cases hmethod
    rw [hk, hk, hflat, hflat, hsize]
  · rw [recorded_other_method hm, recorded_other_method (hmethod ▸ hm)]

end Stats

section Agreement

variable (P : Package) (wire : Wire T V) (s : Server (Service T V)) (rpcPrefix : String)
  (calls : List (GobCall T V))

/-- However the two statistics have recorded the calls, the counters with these names are the
same on both sides, for every method. -/
def CountersAgree (names : List String) : Prop :=
  (∀ c ∈ calls, c.Named rpcPrefix) →
  ∀ tr client tr' server,
    Steps Stats.system Stats.Undisturbed Stats.system.init tr client → client.Quiet →
    client.calls = calls.map (GobCall.clientStats P wire s rpcPrefix) →
    Steps Stats.system Stats.Undisturbed Stats.system.init tr' server → server.Quiet →
    server.calls = calls.map (GobCall.serverStats P wire s rpcPrefix) →
    ∀ method, ∀ name ∈ names,
      client.count (Stats.methodPath method) name = server.count (Stats.methodPath method) name

variable {P wire s rpcPrefix calls}

theorem CountersAgree.append {names names' : List String}
    (h : CountersAgree P wire s rpcPrefix calls names)
    (h' : CountersAgree P wire s rpcPrefix calls names') :
    CountersAgree P wire s rpcPrefix calls (names ++ names') := by
  intro hnamed tr client tr' server hclient hq hr hserver hq' hr' method name hname
  rcases List.mem_append.mp hname with hname | hname
  · exact h hnamed tr client tr' server hclient hq hr hserver hq' hr' method name hname
  · exact h' hnamed tr client tr' server hclient hq hr hserver hq' hr' method name hname

theorem countersAgree_of_size (hcalls : ∀ c ∈ calls, c.Completes P wire s rpcPrefix)
    (g : Stats.Outcome → Int64) {names : List String}
    (hg : ∀ name ∈ names, ∀ a m o, Concurrent.recorded (Stats.Call.tasks ⟨a, m, o⟩)
      (Stats.methodPath m) name = o.toList.flatMap fun o => if 0 < g o then [g o] else [])
    (hsize : ∀ c ∈ calls, (c.clientStats P wire s rpcPrefix).outcome.map g =
      (c.serverStats P wire s rpcPrefix).outcome.map g) :
    CountersAgree P wire s rpcPrefix calls names := by
  intro hnamed tr client tr' server hclient hquiet hrecords hserver hquiet' hrecords' method name
    hname
  refine Stats.count_congr hclient hquiet hserver hquiet' ?_
  rw [hrecords, hrecords']
  refine Stats.recorded_congr calls _ _ _ _ fun c hc => ?_
  have hmethod : (c.clientStats P wire s rpcPrefix).method =
      (c.serverStats P wire s rpcPrefix).method := by
    rw [GobCall.clientStats, GobCall.serverStats, (hnamed c hc).statsMethod_eq (hcalls c hc)]
  exact Stats.recorded_size_congr g (hg name hname) hmethod (hsize c hc) method

/-- The reply counters always agree. -/
theorem replyCountersAgree (hwhole : wire.ReadsWhole)
    (hcalls : ∀ c ∈ calls, c.Completes P wire s rpcPrefix) :
    CountersAgree P wire s rpcPrefix calls ["replybytes", "maxreplybytes"] := by
  refine countersAgree_of_size hcalls Stats.Outcome.replyBytes ?_ fun c hc => ?_
  · intro name hname a m o
    have hrec := Stats.recorded_method a m o
    simp only [List.mem_cons, List.not_mem_nil, or_false] at hname
    rcases hname with rfl | rfl
    · exact hrec.2.2.2.2.2.2.1
    · exact hrec.2.2.2.2.2.2.2
  · rw [(hcalls c hc).clientStats_eq hwhole, (hcalls c hc).serverStats_eq]
    rfl

theorem requestCountersAgree (hwhole : wire.ReadsWhole)
    (hcalls : ∀ c ∈ calls, c.Completes P wire s rpcPrefix)
    (hempty : ∀ c ∈ calls, (wire.encode c.arg).1 = []) :
    CountersAgree P wire s rpcPrefix calls ["requestbytes", "maxrequestbytes"] := by
  refine countersAgree_of_size hcalls Stats.Outcome.requestBytes ?_ fun c hc => ?_
  · intro name hname a m o
    have hrec := Stats.recorded_method a m o
    simp only [List.mem_cons, List.not_mem_nil, or_false] at hname
    rcases hname with rfl | rfl
    · exact hrec.2.2.2.2.1
    · exact hrec.2.2.2.2.2.1
  · rw [(hcalls c hc).clientStats_eq hwhole, (hcalls c hc).serverStats_eq, hempty c hc]
    rfl

/-- **Client and server agree on sizes** exactly when every argument is encoded as the empty
body. On replies they always agree. -/
theorem sizes_agree_iff (hwhole : wire.ReadsWhole)
    (hcalls : ∀ c ∈ calls, c.Completes P wire s rpcPrefix) :
    ((∀ c ∈ calls, c.RequestSizesAgree P wire s rpcPrefix ∧
          c.ReplySizesAgree P wire s rpcPrefix) ∧
        CountersAgree P wire s rpcPrefix calls
          ["requestbytes", "maxrequestbytes", "replybytes", "maxreplybytes"] ↔
      ∀ c ∈ calls, (wire.encode c.arg).1 = []) ∧
    (∀ c ∈ calls, c.ReplySizesAgree P wire s rpcPrefix) ∧
    CountersAgree P wire s rpcPrefix calls ["replybytes", "maxreplybytes"] := by
  have hreply := fun c hc => (hcalls c hc).replySizesAgree hwhole
  have hreplyCounters := replyCountersAgree hwhole hcalls
  refine ⟨⟨fun hagree c hc => ?_, fun hempty => ⟨fun c hc => ⟨?_, hreply c hc⟩, ?_⟩⟩, hreply,
    hreplyCounters⟩
  · exact (hcalls c hc).requestSizesAgree_iff.mp (hagree.1 c hc).1
  · exact (hcalls c hc).requestSizesAgree_iff.mpr (hempty c hc)
  · exact (requestCountersAgree hwhole hcalls hempty).append hreplyCounters

end Agreement

/-! ## An example -/

namespace Reference

/-- A method that returns its argument and two more bytes. -/
def say : Method Unit Bytes where
  arg := .gob ()
  reply := .gob
  call
    | .value v => { outcome := .returned none, value := v ++ [1, 2] }
    | .reader b => { outcome := .returned none, value := b }

def echoServer : Server (Service Unit Bytes) where
  services name :=
    if name = "Echo" then some fun method => if method = "Say" then some say else none else none

def sayCall (arg : Bytes) : GobCall Unit Bytes :=
  { addr := "https://host", serviceMethod := "Echo.Say", arg := arg, target := some () }

theorem wire_readsWhole : wire.ReadsWhole := by
  rintro t v n v' - ⟨⟩
  rfl

theorem sayCall_spec (P : Package) (arg : Bytes) :
    (sayCall arg).Completes P wire echoServer "/bigrpc/" ∧
      ((sayCall arg).served P wire echoServer "/bigrpc/").response.body = arg ++ [1, 2] := by
  have hsplit : splitServiceMethod (pathBase ((sayCall []).url "/bigrpc/")) =
      some ("Echo", "Say") := by decide +kernel
  have hreaches : Reaches wire echoServer ((sayCall arg).request wire "/bigrpc/") say
      (.value arg) := ⟨rfl, ⟨"Echo", "Say", _, hsplit, rfl, rfl⟩, rfl⟩
  have hserved : ((sayCall arg).served P wire echoServer "/bigrpc/").response =
      ⟨200, gobContentType, arg ++ [1, 2], ""⟩ := by
    rw [GobCall.served, serveHTTP_of_reaches P hreaches]
    rfl
  refine ⟨⟨⟨say, .value arg, (), hreaches, rfl, rfl⟩, by rw [hserved], arg ++ [1, 2], ?_⟩,
    by rw [hserved]⟩
  have hencode : (wire.encode (sayCall arg).arg).2 = none := rfl
  rw [GobCall.called_eq hencode, hserved]
  rfl

/-- A call from its start to the end, alone. -/
def lonelyRun (addr method : String) (o : Stats.Outcome) (n m : Nat) : List Stats.Event :=
  List.flatten [[Stats.Event.start addr method], List.replicate n (Stats.Event.run 0),
    [Stats.Event.done 0 o], List.replicate m (Stats.Event.run 0)]

end Reference

section Example

open Reference

theorem sizes_agree_iff_sayCall :
    let P := Errors.Reference.package
    let c := sayCall []
    c.Completes P wire echoServer "/bigrpc/" ∧ c.Named "/bigrpc/" ∧
    c.RequestSizesAgree P wire echoServer "/bigrpc/" ∧
    c.ReplySizesAgree P wire echoServer "/bigrpc/" ∧
    ∃ tr client tr' server,
      Steps Stats.system Stats.Undisturbed Stats.system.init tr client ∧
      Steps Stats.system Stats.Undisturbed Stats.system.init tr' server ∧
      client.count (Stats.methodPath "Echo.Say") "replybytes" = 2 ∧
      client.count (Stats.methodPath "Echo.Say") "replybytes" =
        server.count (Stats.methodPath "Echo.Say") "replybytes" := by
  intro P c
  obtain ⟨hc, hbody⟩ := sayCall_spec P []
  have hcalls : ∀ d ∈ [c], d.Completes P wire echoServer "/bigrpc/" := by
    intro d hd
    rw [List.mem_singleton.mp hd]
    exact hc
  have hnamed : c.Named "/bigrpc/" := ⟨⟨"/bigrpc", rfl⟩, by decide, by decide⟩
  obtain ⟨hsizes, hcounters⟩ :=
    (sizes_agree_iff wire_readsWhole hcalls).1.mpr (by simp [c, sayCall, wire])
  refine ⟨hc, hnamed, (hsizes c (by simp)).1, (hsizes c (by simp)).2, ?_⟩
  obtain ⟨client, hclient, hquiet, hrec, htwo⟩ :=
    exists_steps Stats.system Stats.Undisturbed Stats.system.init
      (lonelyRun "https://host" "Echo.Say" ⟨0, 2, none, 0⟩ 32 37)
      (fun s => s.Quiet ∧ s.calls = [⟨"https://host", "Echo.Say", some ⟨0, 2, none, 0⟩⟩] ∧
        s.count (Stats.methodPath "Echo.Say") "replybytes" = 2) (by decide +kernel)
  obtain ⟨server, hserver, hquiet', hrec'⟩ :=
    exists_steps Stats.system Stats.Undisturbed Stats.system.init
      (lonelyRun "" "Echo.Say" ⟨0, 2, none, 0⟩ 11 21)
      (fun s => s.Quiet ∧ s.calls = [⟨"", "Echo.Say", some ⟨0, 2, none, 0⟩⟩]) (by decide +kernel)
  have hclientStats := hc.clientStats_eq wire_readsWhole
  have hserverStats := hc.serverStats_eq
  rw [hnamed.statsMethod_eq hc] at hserverStats
  rw [hbody] at hclientStats hserverStats
  refine ⟨_, client, _, server, hclient, hserver, htwo, ?_⟩
  refine hcounters (by simpa using hnamed) _ client _ server hclient hquiet ?_ hserver hquiet' ?_
    _ _ (by simp)
  · rw [hrec, List.map_singleton, hclientStats]
    rfl
  · rw [hrec', List.map_singleton, hserverStats]
    rfl

/-- A request of one byte. -/
theorem request_sizes_differ :
    ¬ ∀ calls : List (GobCall Unit Bytes),
      (∀ c ∈ calls, c.Completes Errors.Reference.package wire echoServer "/bigrpc/") →
      (∀ c ∈ calls, c.RequestSizesAgree Errors.Reference.package wire echoServer "/bigrpc/" ∧
        c.ReplySizesAgree Errors.Reference.package wire echoServer "/bigrpc/") ∧
      CountersAgree Errors.Reference.package wire echoServer "/bigrpc/" calls
        ["requestbytes", "maxrequestbytes", "replybytes", "maxreplybytes"] := by
  intro hall
  obtain ⟨hc, -⟩ := sayCall_spec Errors.Reference.package [7]
  have hsizes := (hall [sayCall [7]] (by simpa using hc)).1 (sayCall [7]) (by simp)
  have hempty := hc.requestSizesAgree_iff.mp hsizes.1
  cases hempty

end Example

end Bigmachine.Rpc
