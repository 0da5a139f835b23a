import Bigmachine.Authority.Cached
import Bigmachine.Rpc.ClientCache

/-!
# Certificates and the connections of a driver

An authority issues certificates that are valid for a week. The server of a machine takes
connections only with a certificate of its own authority that is valid by its clock; the clients do
not verify the servers.

The HTTP clients of a driver are made by the function `HTTPClient` of its system, one for each
`clientState` (`Rpc.ClientCache`). The local system issues a certificate for each of them. So when
a certificate has expired and a new connection is refused, the call fails and its `clientState` is
removed, and the next call for the address has a new certificate (`local_reconnects`).

The EC2 system issues one certificate, when `HTTPClient` is called for the first time, and uses it
for all clients. A week later no machine takes a new connection of this driver any more, whatever
is removed (`ec2_refused_after_week`).

A signature is given by the public key of the key that has made it: it is assumed that it verifies
with this public key and with no other. Sessions are not resumed, since no `tls.Config` has a cache
for them.
-/

namespace Bigmachine.Authority.Certificates

open Errors Transition
open Rpc (ClientCache.Calls)

/-! ## Certificates -/

/-- Points of time and durations are in nanoseconds. -/
def second : Int := 1000000000

def driftMargin : Int := 60 * second

def certDuration : Int := 7 * 24 * 3600 * second

/-- The first of January, 2060. -/
def caNotAfter : Int := 2840140800 * second

inductive ExtKeyUsage
  | serverAuth
  | clientAuth
  deriving DecidableEq, Repr

/-- The fields of an `x509.Certificate` that a caller of `CreateCertificate` sets. -/
structure Template where
  subject : String
  notBefore : Int
  notAfter : Int
  extKeyUsage : List ExtKeyUsage
  isCA : Bool := false
  deriving DecidableEq

structure Certificate (P : Type) extends Template where
  issuer : String
  publicKey : P
  signer : P -- the public key of the key that has signed it
  deriving DecidableEq

/-- The times of a certificate are encoded in whole seconds. -/
def wholeSeconds (t : Int) : Int := t / second * second

variable {P : Type}

def createCertificate (template : Template) (issuer : String) (publicKey signer : P) :
    Certificate P :=
  { template with
    notBefore := wholeSeconds template.notBefore
    notAfter := wholeSeconds template.notAfter
    issuer, publicKey, signer }

/-- The certificate that `New` generates at the time `now`. -/
def generate (now : Int) (key : P) : Certificate P :=
  createCertificate
    { subject := "bigmachine"
      notBefore := now - driftMargin
      notAfter := caNotAfter
      extKeyUsage := [.clientAuth, .serverAuth]
      isCA := true }
    "bigmachine" key key

/-- `Issue` at the time `now`, with the new key `key`. No addresses are asked for. -/
def issue (ca : Holder (Certificate P) P) (cn : String) (ttl : Int) (now : Int) (key : P) :
    Certificate P :=
  let now := now - driftMargin
  createCertificate
    { subject := cn
      notBefore := now
      notAfter := now + (driftMargin + ttl)
      extKeyUsage := [.serverAuth, .clientAuth] }
    ca.cert.subject key ca.key

structure ClientConfig (P : Type) where
  rootCAs : Certificate P
  insecureSkipVerify : Bool
  certificate : Certificate P
  deriving DecidableEq

structure ServerConfig (P : Type) where
  clientCAs : Certificate P
  certificate : Certificate P
  deriving DecidableEq

/-- `HTTPSConfig`, when nothing fails. -/
def httpsConfig (ca : Holder (Certificate P) P) (now : Int) (key : P) :
    ClientConfig P × ServerConfig P :=
  let cert := issue ca "bigmachine" certDuration now key
  (⟨ca.cert, true, cert⟩, ⟨ca.cert, cert⟩)

/-! ## Handshakes -/

inductive VerifyErr
  | expired
  | unknownAuthority
  | notAuthorizedToSign
  | incompatibleUsage
  deriving DecidableEq, Repr

def Template.validAt (c : Template) (now : Int) : Bool :=
  decide (c.notBefore ≤ now) && decide (now ≤ c.notAfter)

variable [DecidableEq P]

/-- `Verify` of a certificate, for a pool with one root. -/
def verify (root leaf : Certificate P) (now : Int) (usage : ExtKeyUsage) : Option VerifyErr :=
  if !leaf.validAt now then some .expired
  else if root.subject ≠ leaf.issuer ∨ root.publicKey ≠ leaf.signer then some .unknownAuthority
  else if !root.validAt now then some .expired
  else if !root.isCA then some .notAuthorizedToSign
  else if usage ∉ leaf.extKeyUsage ∨ usage ∉ root.extKeyUsage then some .incompatibleUsage
  else none

/-- A handshake, with the clocks of the two sides. The server requires a certificate of the client
and verifies it. -/
def handshake (client : ClientConfig P) (server : ServerConfig P) (clientNow serverNow : Int) :
    Option VerifyErr :=
  let verified :=
    if client.insecureSkipVerify then none
    else verify client.rootCAs server.certificate clientNow .serverAuth
  verified.or (verify server.clientCAs client.certificate serverNow .clientAuth)

/-! ## The calls of a driver -/

/-- `ca` is the authority of the driver, and `skew` says how far the clock of a machine is ahead.
In the EC2 system all clients have one `tls.Config`: it is `shared`. -/
structure Setup (P : Type) where
  ca : Holder (Certificate P) P
  shared : Bool
  servers : String → ServerConfig P
  skew : String → Int

/-- `clientConfig` is the field of the EC2 system, `configs` has the configuration of the HTTP
client of each `clientState`, and `refused` are the calls for which a connection was refused. -/
structure World (P : Type) where
  now : Int
  rpc : ClientCache.Calls := {}
  clientConfig : Option (ClientConfig P) := none
  configs : Nat → Option (ClientConfig P) := fun _ => none
  refused : List Nat := []
  exited : Bool := false

/-- `client` has the new key, or the error of `HTTPSConfig`. In `connect` the `i`-th call opens a
new connection. -/
inductive Action (P : Type)
  | pass (d : Nat)
  | getClient (addr : String)
  | client (i : Nat) (key : Except Err P)
  | connect (i : Nat)
  | update (i : Nat) (failed : Bool)

/-- `HTTPClient`: the `tls.Config` of the new client. -/
def httpClient (p : Setup P) (s : World P) (key : Except Err P) : Except Err (ClientConfig P) :=
  match p.shared, s.clientConfig with
  | true, some config => .ok config
  | _, _ => key.map fun k => (httpsConfig p.ca s.now k).1

/-- A step of the calls. -/
def World.call (s : World P) (a : Rpc.ClientCache.Action) : Option (World P) :=
  (Rpc.ClientCache.step s.rpc a).map fun rpc => { s with rpc }

/-- The factory has run for `h`. -/
def World.cached (s : World P) (h : Nat) : Bool := s.rpc.c.states[h]?.any (·.cached)

def step (p : Setup P) (s : World P) (a : Action P) : Option (World P) :=
  if s.exited then none
  else
    match a with
    | .pass d => some { s with now := s.now + d }
    | .getClient addr => s.call (.getClient addr)
    | .client i key =>
      match s.rpc.calls[i]? with
      | some (.got h) =>
        if s.cached h then s.call (.client i)
        else
          match httpClient p s key with
          | .error _ => some { s with exited := true } -- `log.Fatalf`
          | .ok config =>
            { s with
              clientConfig := if p.shared then some config else s.clientConfig
              configs := Function.update s.configs h (some config) }.call (.client i)
      | _ => none
    | .connect i =>
      match s.rpc.calls[i]? with
      | some (.posting h) =>
        let addr := s.rpc.c.addr h
        (s.configs h).map fun config =>
          match handshake config (p.servers addr) s.now (s.now + p.skew addr) with
          | none => s
          | some _ => { s with refused := i :: s.refused }
      | _ => none
    | .update i failed =>
      if i ∈ s.refused ∧ failed = false then none else s.call (.update i failed)

def system (p : Setup P) (start : Int) : System (World P) (Action P) :=
  ⟨{ now := start }, step p⟩

/-! ## What a certificate is good for -/

theorem wholeSeconds_le (t : Int) : wholeSeconds t ≤ t := by
  unfold wholeSeconds second
  omega

theorem lt_wholeSeconds_add (t : Int) : t < wholeSeconds t + second := by
  unfold wholeSeconds second
  omega

theorem validAt_iff (c : Template) (now : Int) :
    c.validAt now = true ↔ c.notBefore ≤ now ∧ now ≤ c.notAfter := by
  simp [Template.validAt]

omit [DecidableEq P] in
theorem issue_validAt (ca : Holder (Certificate P) P) (cn : String) (ttl : Int) (t u : Int)
    (key : P) : (issue ca cn ttl t key).validAt u = true ↔
      wholeSeconds (t - driftMargin) ≤ u ∧ u ≤ wholeSeconds (t + ttl) := by
  have hafter : t - driftMargin + (driftMargin + ttl) = t + ttl := by omega
  rw [validAt_iff, issue, createCertificate, hafter]

/-- A server refuses certificates that have expired. -/
theorem handshake_of_late (ca : Holder (Certificate P) P) (server : ServerConfig P) {t u : Int}
    (now : Int) (key : P) (h : t + certDuration < u) :
    handshake (httpsConfig ca t key).1 server now u = some .expired := by
  have hinvalid : (issue ca "bigmachine" certDuration t key).validAt u = false := by
    refine Bool.eq_false_iff.mpr fun hvalid => ?_
    have hle := ((issue_validAt ..).mp hvalid).2
    have hwhole := wholeSeconds_le (t + certDuration)
    omega
  simp [handshake, httpsConfig, verify, hinvalid]

/-- A server with the same authority takes certificates for a week. -/
theorem handshake_of_valid {ca : Holder (Certificate P) P} {server : ServerConfig P}
    {t₀ t u : Int} (now : Int) (key : P) (hca : ca.cert = generate t₀ ca.key)
    (hserver : server.clientCAs = ca.cert) (hstart : t₀ ≤ t) (hearly : t - driftMargin ≤ u)
    (hlate : u + second ≤ t + certDuration) (hend : u ≤ caNotAfter) :
    handshake (httpsConfig ca t key).1 server now u = none := by
  have hleaf : (issue ca "bigmachine" certDuration t key).validAt u = true := by
    have hwhole := wholeSeconds_le (t - driftMargin)
    have hwhole' := lt_wholeSeconds_add (t + certDuration)
    exact (issue_validAt ..).mpr ⟨by omega, by omega⟩
  have hroot : ca.cert.validAt u = true := by
    have hwhole := wholeSeconds_le (t₀ - driftMargin)
    have hend' : wholeSeconds caNotAfter = caNotAfter := by decide
    have hvalid : wholeSeconds (t₀ - driftMargin) ≤ u ∧ u ≤ wholeSeconds caNotAfter :=
      ⟨by omega, by omega⟩
    rw [hca]
    exact (validAt_iff _ u).mpr hvalid
  have hsigned : ca.cert.subject = (issue ca "bigmachine" certDuration t key).issuer ∧
      ca.cert.publicKey = (issue ca "bigmachine" certDuration t key).signer := by
    refine ⟨rfl, ?_⟩
    rw [hca]
    rfl
  have hrest : ca.cert.isCA = true ∧ ExtKeyUsage.clientAuth ∈ ca.cert.extKeyUsage ∧
      ExtKeyUsage.clientAuth ∈ (issue ca "bigmachine" certDuration t key).extKeyUsage := by
    rw [hca]
    exact ⟨rfl, by simp [generate, createCertificate], by simp [issue, createCertificate]⟩
  simp [handshake, httpsConfig, verify, hserver, hleaf, hroot, hsigned.1, hsigned.2, hrest.1,
    hrest.2.1, hrest.2.2]

/-! ## Steps -/

omit [DecidableEq P] in
theorem call_eq {s t : World P} {b : Rpc.ClientCache.Action} (h : s.call b = some t) :
    ∃ rpc, Rpc.ClientCache.step s.rpc b = some rpc ∧ t = { s with rpc } := by
  obtain ⟨rpc, hrpc, rfl⟩ := Option.map_eq_some_iff.mp h
  exact ⟨rpc, hrpc, rfl⟩

omit [DecidableEq P] in
theorem cached_iff (s : World P) (h : Nat) : s.cached h = true ↔ s.rpc.c.HasClient h := by
  simp [World.cached, Rpc.ClientCache.Clients.HasClient, Option.any_eq_true]

/-- What a step does. A `tls.Config` is made only for a `clientState` that has none. -/
theorem step_cases {p : Setup P} {s t : World P} {a : Action P} (h : step p s a = some t) :
    (∃ d : Nat, t = { s with now := s.now + d }) ∨ t = { s with exited := true } ∨
    (∃ refused, t = { s with refused }) ∨
    (∃ b rpc, Rpc.ClientCache.step s.rpc b = some rpc ∧ t = { s with rpc } ∧
      ∀ i h, b = .client i → s.rpc.calls[i]? = some (.got h) → s.rpc.c.HasClient h) ∨
    ∃ i h key config rpc, s.rpc.calls[i]? = some (.got h) ∧ ¬ s.rpc.c.HasClient h ∧
      httpClient p s key = .ok config ∧ Rpc.ClientCache.step s.rpc (.client i) = some rpc ∧
      t = { s with
        rpc
        clientConfig := if p.shared then some config else s.clientConfig
        configs := Function.update s.configs h (some config) } := by
  unfold step at h
  split at h
  · cases h
  · cases a with
    | pass d => exact Or.inl ⟨d, (Option.some.inj h).symm⟩
    | getClient addr =>
      obtain ⟨rpc, hrpc, rfl⟩ := call_eq h
      exact Or.inr (Or.inr (Or.inr (Or.inl ⟨_, rpc, hrpc, rfl, fun i h hb => by cases hb⟩)))
    | client i key =>
      dsimp only at h
      split at h
      · rename_i used hi
        split at h
        · rename_i hcached
          obtain ⟨rpc, hrpc, rfl⟩ := call_eq h
          refine Or.inr (Or.inr (Or.inr (Or.inl ⟨_, rpc, hrpc, rfl, fun j h hb hj => ?_⟩)))
          cases hb
          cases hi.symm.trans hj
          exact (cached_iff s used).mp hcached
        · rename_i hcached
          split at h
          · exact Or.inr (Or.inl (Option.some.inj h).symm)
          · rename_i config hconfig
            obtain ⟨rpc, hrpc, rfl⟩ := call_eq h
            refine Or.inr (Or.inr (Or.inr (Or.inr ⟨i, used, key, config, rpc, hi, ?_, hconfig,
              hrpc, rfl⟩)))
            exact fun hhas => hcached ((cached_iff s used).mpr hhas)
      · cases h
    | connect i =>
      dsimp only at h
      split at h
      · obtain ⟨config, -, heq⟩ := Option.map_eq_some_iff.mp h
        refine Or.inr (Or.inr (Or.inl ?_))
        split at heq
        · exact ⟨s.refused, heq.symm⟩
        · exact ⟨_, heq.symm⟩
      · cases h
    | update i failed =>
      dsimp only at h
      split at h
      · cases h
      · obtain ⟨rpc, hrpc, rfl⟩ := call_eq h
        exact Or.inr (Or.inr (Or.inr (Or.inl ⟨_, rpc, hrpc, rfl, fun i h hb => by cases hb⟩)))

/-! ## The certificates of the clients -/

/-- The `tls.Config` of a client with a certificate issued between the two times. -/
def IssuedIn (p : Setup P) (first last : Int) (config : ClientConfig P) : Prop :=
  ∃ t key, first ≤ t ∧ t ≤ last ∧ config = (httpsConfig p.ca t key).1

omit [DecidableEq P] in
theorem IssuedIn.mono {p : Setup P} {first last last' : Int} {config : ClientConfig P}
    (h : IssuedIn p first last config) (hle : last ≤ last') : IssuedIn p first last' config := by
  obtain ⟨t, key, hfirst, hlast, rfl⟩ := h
  exact ⟨t, key, hfirst, hlast.trans hle, rfl⟩

structure Inv (p : Setup P) (start : Int) (s : World P) : Prop where
  rpc : Rpc.ClientCache.Inv s.rpc
  now : start ≤ s.now
  made : ∀ h, s.rpc.c.HasClient h → (s.configs h).isSome = true
  bound : ∀ h config, s.configs h = some config → h < s.rpc.c.states.length
  shared : ∀ config, s.clientConfig = some config → IssuedIn p start s.now config
  same : p.shared = true → ∀ h config, s.configs h = some config → s.clientConfig = some config

omit [DecidableEq P] in
theorem httpClient_ok {p : Setup P} {s : World P} {key : Except Err P} {config : ClientConfig P}
    (h : httpClient p s key = .ok config) :
    (p.shared = true ∧ s.clientConfig = some config) ∨
      ((p.shared = true → s.clientConfig = none) ∧
        ∃ k, config = (httpsConfig p.ca s.now k).1) := by
  unfold httpClient at h
  split at h
  · rename_i c hshared hc
    cases h
    exact Or.inl ⟨hshared, hc⟩
  · rename_i hnone
    cases key with
    | error e => cases h
    | ok k =>
      cases h
      refine Or.inr ⟨fun hshared => ?_, k, rfl⟩
      cases hc : s.clientConfig with
      | none => rfl
      | some c => exact (hnone c hshared hc).elim

theorem inv_step {p : Setup P} {start : Int} {s t : World P} {a : Action P} (hi : Inv p start s)
    (h : step p s a = some t) : Inv p start t := by
  obtain ⟨hrpc, hnow, hmade, hbound, hshared, hsame⟩ := hi
  rcases step_cases h with ⟨d, rfl⟩ | rfl | ⟨refused, rfl⟩ | ⟨b, rpc, hb, rfl, hcached⟩ |
    ⟨i, used, key, config, rpc, hi, -, hconfig, hb, rfl⟩
  · have hle : s.now ≤ s.now + d := by omega
    exact ⟨hrpc, hnow.trans hle, hmade, hbound, fun c hc => (hshared c hc).mono hle, hsame⟩
  · exact ⟨hrpc, hnow, hmade, hbound, hshared, hsame⟩
  · exact ⟨hrpc, hnow, hmade, hbound, hshared, hsame⟩
  · refine ⟨Rpc.ClientCache.step_inv hb hrpc, hnow, fun h hh => ?_,
      fun h c hc => (hbound h c hc).trans_le (Rpc.ClientCache.length_step hb).1, hshared, hsame⟩
    rcases Rpc.ClientCache.hasClient_step hb hh with hold | ⟨i, rfl, hi⟩
    · exact hmade h hold
    · exact hmade h (hcached i h rfl hi)
  · have hin : IssuedIn p start s.now config := by
      rcases httpClient_ok hconfig with ⟨-, hc⟩ | ⟨-, k, rfl⟩
      · exact hshared config hc
      · exact ⟨s.now, k, hnow, le_rfl, rfl⟩
    refine ⟨Rpc.ClientCache.step_inv hb hrpc, hnow, fun h hh => ?_, fun h c hc => ?_,
      fun c hc => ?_, fun htrue h c hc => ?_⟩
    · by_cases heq : h = used
      · simp [heq]
      · rcases Rpc.ClientCache.hasClient_step hb hh with hold | ⟨j, hj, hgot⟩
        · simpa [Function.update_of_ne heq] using hmade h hold
        · cases hj
          cases hi.symm.trans hgot
          exact absurd rfl heq
    · refine lt_of_lt_of_le ?_ (Rpc.ClientCache.length_step hb).1
      by_cases heq : h = used
      · exact heq ▸ hrpc.calls _ (List.mem_of_getElem? hi)
      · simp only [Function.update_of_ne heq] at hc
        exact hbound h c hc
    · dsimp only at hc
      split at hc
      · cases hc
        exact hin
      · exact hshared c hc
    · dsimp only
      rw [if_pos htrue]
      by_cases heq : h = used
      · simpa [heq] using hc
      · -- the other clients have the `tls.Config` that is there already
        simp only [Function.update_of_ne heq] at hc
        have hthere := hsame htrue h c hc
        rcases httpClient_ok hconfig with ⟨-, hc'⟩ | ⟨hnone, -⟩
        · exact hc'.symm.trans hthere
        · rw [hnone htrue] at hthere
          cases hthere

theorem reachable_inv {p : Setup P} {start : Int} {tr : List (Action P)} {s : World P}
    (h : Steps (system p start) Always (system p start).init tr s) : Inv p start s := by
  refine h.invariant (I := Inv p start) (fun _ _ _ hi _ hstep => inv_step hi hstep) ?_
  refine ⟨Rpc.ClientCache.init_inv, le_rfl, fun h hh => ?_, fun h c hc => ?_, fun c hc => ?_,
    fun _ h c hc => ?_⟩
  · obtain ⟨st, hst, -⟩ := hh
    cases hst
  · cases hc
  · cases hc
  · cases hc

omit [DecidableEq P] in
/-- A call that posts has an HTTP client with a `tls.Config`. -/
theorem Inv.config {p : Setup P} {start : Int} {s : World P} (hi : Inv p start s) {i h : Nat}
    (hcall : s.rpc.calls[i]? = some (.posting h)) : ∃ config, s.configs h = some config :=
  Option.isSome_iff_exists.mp (hi.made h (hi.rpc.calls _ (List.mem_of_getElem? hcall)))

theorem step_connect {p : Setup P} {s : World P} (hexit : s.exited = false) {i h : Nat}
    (hcall : s.rpc.calls[i]? = some (.posting h)) {config : ClientConfig P}
    (hconfig : s.configs h = some config) :
    step p s (.connect i) = some
      (match handshake config (p.servers (s.rpc.c.addr h)) s.now
          (s.now + p.skew (s.rpc.c.addr h)) with
        | none => s
        | some _ => { s with refused := i :: s.refused }) := by
  simp [step, hexit, hcall, hconfig]

/-! ## The EC2 system -/

theorem clientConfig_step {p : Setup P} (hshared : p.shared = true) {s t : World P} {a : Action P}
    {config : ClientConfig P} (hs : s.clientConfig = some config) (h : step p s a = some t) :
    t.clientConfig = some config := by
  rcases step_cases h with ⟨d, rfl⟩ | rfl | ⟨refused, rfl⟩ | ⟨b, rpc, -, rfl, -⟩ |
    ⟨i, used, key, config', rpc, -, -, hconfig, -, rfl⟩
  · exact hs
  · exact hs
  · exact hs
  · exact hs
  · rcases httpClient_ok hconfig with ⟨-, hc⟩ | ⟨hnone, -⟩
    · simpa [hshared] using hc.symm.trans hs
    · rw [hnone hshared] at hs
      cases hs

/-- **The certificate of an EC2 driver lasts for a week.** When the first HTTP client was made, then
more than a week later by the clock of a machine no new connection to this machine is accepted, for
whichever call, and every call that needs one fails. -/
theorem ec2_refused_after_week (p : Setup P) (hshared : p.shared = true) (start : Int)
    (tr tr' : List (Action P)) (s u : World P)
    (h : Steps (system p start) Always (system p start).init tr s) (hmade : s.clientConfig ≠ none)
    (h' : Steps (system p start) Always s tr' u) (hexit : u.exited = false) (i k : Nat)
    (hcall : u.rpc.calls[i]? = some (.posting k))
    (hlate : s.now + certDuration < u.now + p.skew (u.rpc.c.addr k)) :
    ∃ v, step p u (.connect i) = some v ∧ i ∈ v.refused ∧ step p v (.update i false) = none := by
  obtain ⟨config, hconfig⟩ := Option.ne_none_iff_exists'.mp hmade
  have hs := reachable_inv h
  have hu : Inv p start u := h'.invariant (I := Inv p start)
    (fun _ _ _ hi _ hstep => inv_step hi hstep) hs
  have hsame : u.clientConfig = some config :=
    h'.invariant (I := fun v => v.clientConfig = some config)
      (fun _ _ _ hi _ hstep => clientConfig_step hshared hi hstep) hconfig
  obtain ⟨config', hconfig'⟩ := hu.config hcall
  cases (hu.same hshared k config' hconfig').symm.trans hsame
  obtain ⟨t, key, -, ht, rfl⟩ := hs.shared config hconfig
  have hhand := handshake_of_late p.ca (p.servers (u.rpc.c.addr k)) u.now key
    (lt_of_le_of_lt (by omega : t + certDuration ≤ s.now + certDuration) hlate)
  refine ⟨_, step_connect hexit hcall hconfig', ?_⟩
  rw [hhand]
  exact ⟨List.mem_cons_self, by simp [step, hexit]⟩

/-- An authority that was generated at the time 0, and machines that have it. -/
def Reference.setup (shared : Bool) : Setup Nat :=
  let ca : Holder (Certificate Nat) Nat := ⟨1, generate 0 1, [], []⟩
  ⟨ca, shared, fun _ => (httpsConfig ca 0 2).2, fun _ => 0⟩

def eightDays : Nat := 8 * 24 * 3600 * 1000000000

/-- The first call is for one machine, and eight days later there is a call for another one. -/
theorem ec2_refused_after_week_new_machine :
    ∃ s u, Steps (system (Reference.setup true) 0) Always (system (Reference.setup true) 0).init
        [.getClient "a", .client 0 (.ok 3), .update 0 false] s ∧
      Steps (system (Reference.setup true) 0) Always s
        [.pass eightDays, .getClient "b", .client 1 (.ok 4)] u ∧
      ∃ v, step (Reference.setup true) u (.connect 1) = some v ∧ 1 ∈ v.refused ∧
        step (Reference.setup true) v (.update 1 false) = none := by
  obtain ⟨s, hs, hmade, hnow, hleads⟩ := exists_steps (system (Reference.setup true) 0) Always
    (system (Reference.setup true) 0).init [.getClient "a", .client 0 (.ok 3), .update 0 false]
    (fun s => s.clientConfig ≠ none ∧ s.now = 0 ∧
      (system (Reference.setup true) 0).Leads Always s
        [.pass eightDays, .getClient "b", .client 1 (.ok 4)]
        (fun u => u.exited = false ∧ u.rpc.calls[1]? = some (Rpc.ClientCache.Pc.posting 1) ∧
          u.now = eightDays) = true) (by decide +kernel)
  obtain ⟨u, hu, hexit, hcall, hlate⟩ := exists_steps (system (Reference.setup true) 0) Always s
    _ _ hleads
  refine ⟨s, u, hs, hu, ec2_refused_after_week _ rfl 0 _ _ s u hs hmade hu hexit 1 1 hcall ?_⟩
  have hskew : (Reference.setup true).skew (u.rpc.c.addr 1) = 0 := rfl
  rw [hnow, hlate, hskew]
  decide

/-! ## The local system -/

/-- After a time at which there were `calls` calls and `states` `clientState`s, none of them in the
map for the address `a`: later calls for this address use `clientState`s that were made later, with
certificates issued later. -/
structure Renewed (p : Setup P) (a : String) (calls states : Nat) (since : Int) (u : World P) :
    Prop where
  inv : Rpc.ClientCache.Inv u.rpc
  now : since ≤ u.now
  length : states ≤ u.rpc.c.states.length ∧ calls ≤ u.rpc.calls.length
  entry : ∀ h, u.rpc.c.clients a = some h → states ≤ h
  uses : ∀ i h, calls ≤ i → u.rpc.calls[i]?.bind Rpc.ClientCache.uses = some h →
    h < u.rpc.c.states.length ∧ (u.rpc.c.addr h = a → states ≤ h)
  issued : ∀ h config, states ≤ h → u.configs h = some config → IssuedIn p since u.now config

omit [DecidableEq P] in
/-- A step of the calls keeps `Renewed`. -/
theorem Renewed.call {p : Setup P} {a : String} {calls states : Nat} {since : Int} {u : World P}
    (hu : Renewed p a calls states since u) {b : Rpc.ClientCache.Action}
    {rpc : Rpc.ClientCache.Calls} (hb : Rpc.ClientCache.step u.rpc b = some rpc) :
    Renewed p a calls states since { u with rpc } := by
  have hlength := Rpc.ClientCache.length_step hb
  have hinv := Rpc.ClientCache.step_inv hb hu.inv
  have hentry : ∀ h, rpc.c.clients a = some h → states ≤ h := by
    intro h hh
    rcases Rpc.ClientCache.clients_step hu.inv hb hh with hold | rfl
    · exact hu.entry h hold
    · exact hu.length.1
  refine ⟨hinv, hu.now, ⟨hu.length.1.trans hlength.1, hu.length.2.trans hlength.2⟩, hentry, ?_,
    hu.issued⟩
  intro i h hi huses
  rcases Rpc.ClientCache.uses_step hb huses with hold | ⟨addr, -, -, hmap⟩
  · obtain ⟨hlt, haddr⟩ := hu.uses i h hi hold
    refine ⟨hlt.trans_le hlength.1, fun heq => haddr ?_⟩
    rw [← heq]
    exact (Rpc.ClientCache.addr_step hb hlt).symm
  · obtain ⟨hlt, haddr⟩ := hinv.keyed addr h hmap
    refine ⟨hlt, fun heq => hentry h ?_⟩
    rw [← heq, haddr]
    exact hmap

theorem Renewed.step {p : Setup P} (hlocal : p.shared = false) {a : String} {calls states : Nat}
    {since : Int} {u v : World P} {act : Action P} (hu : Renewed p a calls states since u)
    (h : step p u act = some v) : Renewed p a calls states since v := by
  rcases step_cases h with ⟨d, rfl⟩ | rfl | ⟨refused, rfl⟩ | ⟨b, rpc, hb, rfl, -⟩ |
    ⟨i, used, key, config, rpc, -, -, hconfig, hb, rfl⟩
  · have hle : u.now ≤ u.now + d := by omega
    exact ⟨hu.inv, hu.now.trans hle, hu.length, hu.entry, hu.uses,
      fun h c hh hc => (hu.issued h c hh hc).mono hle⟩
  · exact ⟨hu.inv, hu.now, hu.length, hu.entry, hu.uses, hu.issued⟩
  · exact ⟨hu.inv, hu.now, hu.length, hu.entry, hu.uses, hu.issued⟩
  · exact hu.call hb
  · have hnext := hu.call hb
    refine ⟨hnext.inv, hnext.now, hnext.length, hnext.entry, hnext.uses, fun h c hh hc => ?_⟩
    by_cases heq : h = used
    · simp only [heq, Function.update_self, Option.some.injEq] at hc
      rcases httpClient_ok hconfig with ⟨htrue, -⟩ | ⟨-, k, rfl⟩
      · rw [hlocal] at htrue
        cases htrue
      · exact ⟨u.now, k, hu.now, le_rfl, hc.symm⟩
    · simp only [Function.update_of_ne heq] at hc
      exact hu.issued h c hh hc

omit [DecidableEq P] in
/-- When no `clientState` is in the map for the address, all that comes is new. -/
theorem renewed_of_none {p : Setup P} {start : Int} {s : World P} (hs : Inv p start s) {a : String}
    (hnone : s.rpc.c.clients a = none) :
    Renewed p a s.rpc.calls.length s.rpc.c.states.length s.now s := by
  refine ⟨hs.rpc, le_rfl, ⟨le_rfl, le_rfl⟩, fun h hh => ?_, fun i h hi huses => ?_,
    fun h config hh hc => ?_⟩
  · rw [hnone] at hh
    cases hh
  · rw [List.getElem?_eq_none hi] at huses
    cases huses
  · exact absurd (hs.bound h config hc) (not_lt.mpr hh)

/-- **The local system renews its certificates.** A call for which a connection was refused removes
its `clientState` when it ends. And when there is no `clientState` for an address, then all calls
that are made later connect to the machine at this address, when its clock is at most a minute late,
until this clock is a second before a week from now, or the certificate of the authority expires. -/
theorem local_reconnects (p : Setup P) (hlocal : p.shared = false) (t₀ start : Int)
    (hstart : t₀ ≤ start) (hca : p.ca.cert = generate t₀ p.ca.key)
    (hservers : ∀ addr, (p.servers addr).clientCAs = p.ca.cert) (tr : List (Action P))
    (s : World P) (h : Steps (system p start) Always (system p start).init tr s) :
    (∀ i k failed s', s.rpc.calls[i]? = some (.posting k) → i ∈ s.refused →
      s.rpc.c.clients (s.rpc.c.addr k) = some k → step p s (.update i failed) = some s' →
      s'.rpc.c.clients (s.rpc.c.addr k) = none) ∧
    ∀ a, s.rpc.c.clients a = none → -driftMargin ≤ p.skew a →
      ∀ tr' u, Steps (system p start) Always s tr' u → u.exited = false →
      ∀ i k, s.rpc.calls.length ≤ i → u.rpc.calls[i]? = some (.posting k) →
      u.rpc.c.addr k = a → u.now + p.skew a + second ≤ s.now + certDuration →
      u.now + p.skew a ≤ caNotAfter → step p u (.connect i) = some u := by
  have hs := reachable_inv h
  constructor
  · intro i k failed s' hcall hrefused hmap hstep
    have hfailed : failed = true := by
      cases failed with
      | true => rfl
      | false => simp [step, hrefused] at hstep
    simp only [step, hfailed] at hstep
    split at hstep
    · cases hstep
    · obtain ⟨rpc, hrpc, rfl⟩ := call_eq (by simpa using hstep)
      simp only [Rpc.ClientCache.step, hcall, Option.some.injEq] at hrpc
      subst hrpc
      simp [Rpc.ClientCache.Clients.updateClientState, hmap]
  · intro a hnone hskew tr' u h' hexit i k hi hcall haddr hlate hend
    have hu : Inv p start u := h'.invariant (I := Inv p start)
      (fun _ _ _ hi _ hstep => inv_step hi hstep) hs
    have hrenewed : Renewed p a s.rpc.calls.length s.rpc.c.states.length s.now u :=
      h'.invariant (I := Renewed p a s.rpc.calls.length s.rpc.c.states.length s.now)
        (fun _ _ _ hi _ hstep => hi.step hlocal hstep) (renewed_of_none hs hnone)
    obtain ⟨config, hconfig⟩ := hu.config hcall
    have hnew := (hrenewed.uses i k hi (by rw [hcall]; rfl)).2 haddr
    obtain ⟨t, key, hsince, ht, rfl⟩ := hrenewed.issued k config hnew hconfig
    have hnow := hs.now
    have hhand := handshake_of_valid (u := u.now + p.skew a) u.now key hca (hservers a)
      (by omega : t₀ ≤ t) (by omega) (by omega) hend
    rw [step_connect hexit hcall hconfig, haddr, hhand]

/-- A connection is refused after eight days, and the next call has a new certificate. -/
theorem local_reconnects_next_call :
    ∃ s u, Steps (system (Reference.setup false) 0) Always (system (Reference.setup false) 0).init
        [.getClient "a", .client 0 (.ok 3), .pass eightDays, .connect 0, .update 0 true] s ∧
      s.refused = [0] ∧
      Steps (system (Reference.setup false) 0) Always s [.getClient "a", .client 1 (.ok 4)] u ∧
      step (Reference.setup false) u (.connect 1) = some u := by
  obtain ⟨s, hs, hrefused, hnone, hlen, hnow, hleads⟩ := exists_steps
    (system (Reference.setup false) 0) Always (system (Reference.setup false) 0).init
    [.getClient "a", .client 0 (.ok 3), .pass eightDays, .connect 0, .update 0 true]
    (fun s => s.refused = [0] ∧ s.rpc.c.clients "a" = none ∧ s.rpc.calls.length = 1 ∧
      s.now = eightDays ∧
      (system (Reference.setup false) 0).Leads Always s [.getClient "a", .client 1 (.ok 4)]
        (fun u => u.exited = false ∧ u.rpc.calls[1]? = some (Rpc.ClientCache.Pc.posting 1) ∧
          u.rpc.c.addr 1 = "a" ∧ u.now = eightDays) = true) (by decide +kernel)
  obtain ⟨u, hu, hexit, hcall, haddr, hnow'⟩ := exists_steps (system (Reference.setup false) 0)
    Always s _ _ hleads
  refine ⟨s, u, hs, hrefused, hu, (local_reconnects _ rfl 0 0 le_rfl rfl (fun _ => rfl) _ s hs).2
    "a" hnone (by decide) _ u hu hexit 1 1 hlen.le hcall haddr ?_ ?_⟩
  · rw [hnow, hnow']
    decide
  · rw [hnow']
    decide

end Bigmachine.Authority.Certificates
