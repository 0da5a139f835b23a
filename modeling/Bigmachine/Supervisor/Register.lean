import Bigmachine.Rpc.Server
import Bigmachine.Transition.System

/-!
# Installing services on a machine

The driver registers the services of a machine one after the other; each registration is a
`retryCall` of `Supervisor.Register`. Every attempt sends a copy of the service, so the
remote handler works on an instance of its own: it registers the instance with the remote
server and then calls its `Init` method, if it has one. A reply may be lost, and an attempt
may time out while its handler still runs.

`Server.Register` does nothing when the name is taken. So when an attempt has registered
its instance and then failed, the next attempt initializes an instance to which nothing is
dispatched, and the driver goes on with a service whose `Init` failed
(`retry_leaves_uninitialized`). When a taken name is only ever met with an initialized
instance behind it, all services are initialized when the driver goes on
(`services_initialized`).
-/

namespace Bigmachine.Supervisor.Register

open Errors Transition Rpc

/-! ## Driver and handlers -/

/-- A service of the machine: its name, and whether its type has a method `Init`. -/
structure Service where
  name : String
  hasInit : Bool
  deriving DecidableEq, Repr

/-- A value to which the remote server dispatches: its supervisor, which has no `Init`, or
the copy of a service that an attempt has sent. -/
inductive Instance
  | supervisor
  | decoded (attempt : Nat)
  deriving DecidableEq, Repr

/-- A call of `Supervisor.Register` on the remote machine. -/
inductive HandlerPc
  | register
  | init
  | returned (r : Option Err)
  deriving DecidableEq, Repr

structure Handler where
  svc : Service
  pc : HandlerPc
  deriving DecidableEq, Repr

/-- The loop over `m.services`; `svcs` are the services not yet installed, the one being registered
first. `backoff` is `retry.Wait`, `failed` is `m.setError(e)`, and `running` is
`m.setState(Running)`. -/
inductive DriverPc
  | call (svcs : List Service)
  | waiting (svcs : List Service) (attempt : Nat)
  | backoff (svcs : List Service)
  | failed (e : Err)
  | running
  deriving DecidableEq, Repr

/-- `handlers` has those of all attempts, in the order of sending. -/
structure World where
  driver : DriverPc
  server : Server Instance
  handlers : List Handler := []

/-- The driver sends an attempt, or finds that all services are installed (`send`); the reply
arrives, or the attempt fails on the way or times out (`lost`). The handler of an attempt registers
its instance, and then its `maybeInit` returns (`init`). -/
inductive Action
  | send
  | reply
  | lost (e : Err)
  | waited
  | waitErr (e : Err)
  | register (attempt : Nat)
  | init (attempt : Nat) (r : Option Err)
  deriving DecidableEq, Repr

/-- The error of the loop for an error of `retryCall`. -/
def registerError (P : Package) (svcs : List Service) (e : Err) : Err :=
  P.E [.err e, .text ("Supervisor.Register " ++ (svcs.head?.map (·.name)).getD "")]

/-- The driver after an attempt with result `r`. -/
def answered (P : Package) (svcs : List Service) : Option Err → DriverPc
  | none => .call svcs.tail
  | some e =>
    if P.matchFatal e then
      .failed (registerError P svcs
        (P.E [.text "fatal error calling", .text "Supervisor.Register", .err e]))
    else .backoff svcs

def step (P : Package) (w : World) : Action → Option World
  | .send =>
    match w.driver with
    | .call [] => some { w with driver := .running }
    | .call (svc :: svcs) =>
      some { w with
        driver := .waiting (svc :: svcs) w.handlers.length
        handlers := w.handlers ++ [⟨svc, .register⟩] }
    | _ => none
  | .reply =>
    match w.driver with
    | .waiting svcs i =>
      match w.handlers[i]? with
      | some ⟨_, .returned r⟩ =>
        some { w with
          driver := answered P svcs (r.map fun e => P.E [.kind .remote, .err (P.recover e)]) }
      | _ => none
    | _ => none
  | .lost e =>
    match w.driver with
    | .waiting svcs _ => some { w with driver := answered P svcs (some e) }
    | _ => none
  | .waited =>
    match w.driver with
    | .backoff svcs => some { w with driver := .call svcs }
    | _ => none
  | .waitErr e =>
    match w.driver with
    | .backoff svcs =>
      some { w with driver := .failed (registerError P svcs (P.E [.severity .fatal, .err e])) }
    | _ => none
  | .register i =>
    match w.handlers[i]? with
    | some ⟨svc, .register⟩ =>
      some { w with
        server := w.server.register svc.name (.decoded i)
        handlers := w.handlers.set i ⟨svc, .init⟩ }
    | _ => none
  | .init i r =>
    match w.handlers[i]? with
    | some ⟨svc, .init⟩ =>
      -- `maybeInit` returns nil when there is no `Init`
      if svc.hasInit = true ∨ r = none then
        some { w with handlers := w.handlers.set i ⟨svc, .returned r⟩ }
      else none
    | _ => none

/-- The remote server starts with its supervisor registered. -/
def system (P : Package) (services : List Service) : System World Action where
  init :=
    { driver := .call services
      server := ({} : Server Instance).register "Supervisor" .supervisor }
  step := step P

/-! ## Initialized instances -/

/-- The instance has no `Init`, or its `Init` has returned nil. -/
def Initialized (handlers : List Handler) : Instance → Prop
  | .supervisor => True
  | .decoded i => ∃ h ∈ handlers[i]?, h.svc.hasInit = true → h.pc = .returned none

instance (handlers : List Handler) : (inst : Instance) → Decidable (Initialized handlers inst)
  | .supervisor => isTrue trivial
  | .decoded i =>
    inferInstanceAs (Decidable (∃ h ∈ handlers[i]?, h.svc.hasInit = true → h.pc = .returned none))

/-- The name is dispatched to an initialized instance. -/
def Installed (w : World) (name : String) : Prop :=
  ∃ inst ∈ w.server.services name, Initialized w.handlers inst

instance (w : World) (name : String) : Decidable (Installed w name) :=
  inferInstanceAs (Decidable (∃ inst ∈ w.server.services name, Initialized w.handlers inst))

/-- A handler finds its name taken only when the instance behind it is initialized. -/
def TakenByInitialized (w : World) : Action → Prop
  | .register i =>
    ∀ h ∈ w.handlers[i]?, ∀ inst ∈ w.server.services h.svc.name, Initialized w.handlers inst
  | _ => True

instance (w : World) : (a : Action) → Decidable (TakenByInitialized w a)
  | .register i => inferInstanceAs (Decidable (∀ h ∈ w.handlers[i]?,
      ∀ inst ∈ w.server.services h.svc.name, Initialized w.handlers inst))
  | .send | .reply | .lost _ | .waited | .waitErr _ | .init _ _ => isTrue trivial

/-! ## What a step keeps -/

/-- Between the two states, names and initialized instances stay as they are. -/
structure Grows (w w' : World) : Prop where
  services : ∀ name inst, w.server.services name = some inst → w'.server.services name = some inst
  initialized : ∀ inst, Initialized w.handlers inst → Initialized w'.handlers inst

theorem Grows.installed {w w' : World} (h : Grows w w') {name : String}
    (hn : Installed w name) : Installed w' name := by
  obtain ⟨inst, hinst, hi⟩ := hn
  exact ⟨inst, h.services name inst hinst, h.initialized inst hi⟩

theorem register_services {s : Server Instance} {name name' : String} {inst inst' : Instance}
    (h : s.services name' = some inst') : (s.register name inst).services name' = some inst' := by
  unfold Server.register
  split
  · exact h
  · rename_i hnone
    have hne : name' ≠ name := by
      rintro rfl
      simp [h] at hnone
    simpa [Function.update_of_ne hne] using h

theorem register_self (s : Server Instance) (name : String) (inst : Instance) :
    ∃ inst', (s.register name inst).services name = some inst' ∧
      (inst' = inst ∨ s.services name = some inst') := by
  unfold Server.register
  split
  · rename_i hsome
    obtain ⟨inst', hinst'⟩ := Option.isSome_iff_exists.mp hsome
    exact ⟨inst', hinst', Or.inr hinst'⟩
  · exact ⟨inst, by simp, Or.inl rfl⟩

theorem Initialized.append {hs : List Handler} {inst : Instance} (h : Initialized hs inst)
    (new : Handler) : Initialized (hs ++ [new]) inst := by
  cases inst with
  | supervisor => trivial
  | decoded i =>
    obtain ⟨hd, hi, hinit⟩ := h
    refine ⟨hd, ?_, hinit⟩
    obtain ⟨hlt, -⟩ := List.getElem?_eq_some_iff.mp hi
    rw [List.getElem?_append_left hlt]
    exact hi

/-- A handler that has not returned moves on: no instance stops being initialized. -/
theorem Initialized.set {hs : List Handler} {inst : Instance} (h : Initialized hs inst) {i : Nat}
    {hd : Handler} (hi : hs[i]? = some hd) (hpc : ∀ r, hd.pc ≠ .returned r) (pc : HandlerPc) :
    Initialized (hs.set i ⟨hd.svc, pc⟩) inst := by
  cases inst with
  | supervisor => trivial
  | decoded j =>
    obtain ⟨hj, hmem, hinit⟩ := h
    by_cases hij : i = j
    · subst hij
      obtain rfl : hd = hj := Option.some.inj (hi.symm.trans hmem)
      obtain ⟨hlt, -⟩ := List.getElem?_eq_some_iff.mp hi
      refine ⟨⟨hd.svc, pc⟩, by simp [hlt], ?_⟩
      intro hh
      exact absurd (hinit hh) (hpc none)
    · exact ⟨hj, by rwa [List.getElem?_set_ne hij], hinit⟩

/-! ## The invariant -/

/-- The services the driver has still to install, unless it has given up. -/
def DriverPc.pending : DriverPc → Option (List Service)
  | call svcs | waiting svcs _ | backoff svcs => some svcs
  | running => some []
  | failed _ => none

/-- A handler that has registered finds its name taken, by its own instance or by an
initialized one; the driver waits for an attempt of the service at hand; and every service
is still to come or installed. -/
structure Inv (services : List Service) (w : World) : Prop where
  handled : ∀ i h, w.handlers[i]? = some h → h.pc ≠ .register →
    ∃ inst, w.server.services h.svc.name = some inst ∧
      (inst = .decoded i ∨ Initialized w.handlers inst)
  waiting : ∀ svcs i, w.driver = .waiting svcs i →
    ∃ h rest, w.handlers[i]? = some h ∧ svcs = h.svc :: rest
  pending : ∀ svcs, w.driver.pending = some svcs →
    ∀ svc ∈ services, svc ∈ svcs ∨ Installed w svc.name

section

variable {P : Package} {services : List Service} {w : World}

theorem Inv.move (hi : Inv services w) {pc : DriverPc} (hwait : ∀ svcs i, pc ≠ .waiting svcs i)
    (hpending : ∀ svcs, pc.pending = some svcs →
      ∀ svc ∈ services, svc ∈ svcs ∨ Installed w svc.name) :
    Inv services { w with driver := pc } :=
  ⟨hi.handled, fun svcs i h => absurd h (hwait svcs i), hpending⟩

/-- After a failed attempt the driver gives up or tries the same service again. -/
theorem Inv.answered_err (hi : Inv services w) {svcs : List Service}
    (hp : w.driver.pending = some svcs) (e : Err) :
    Inv services { w with driver := answered P svcs (some e) } := by
  refine hi.move ?_ ?_
  · intro svcs' i
    dsimp only [answered]
    split <;> simp
  · intro svcs' h
    dsimp only [answered] at h
    split at h
    · cases h
    · obtain rfl : svcs = svcs' := Option.some.inj h
      exact hi.pending svcs hp

theorem Inv.installed_of_returned (hi : Inv services w) {i : Nat} {h : Handler}
    (hh : w.handlers[i]? = some h) (hpc : h.pc = .returned none) : Installed w h.svc.name := by
  obtain ⟨inst, hinst, rfl | hinit⟩ := hi.handled i h hh (by rw [hpc]; simp)
  · exact ⟨_, hinst, h, hh, fun _ => hpc⟩
  · exact ⟨inst, hinst, hinit⟩

theorem Inv.answered_nil (hi : Inv services w) {i : Nat} {h : Handler} {rest : List Service}
    (hd : w.driver = .waiting (h.svc :: rest) i) (hh : w.handlers[i]? = some h)
    (hpc : h.pc = .returned none) : Inv services { w with driver := .call rest } := by
  have hnew : Installed w h.svc.name := hi.installed_of_returned hh hpc
  refine hi.move (fun _ _ => by simp) ?_
  intro svcs hs svc hsvc
  obtain rfl : rest = svcs := Option.some.inj hs
  rcases hi.pending _ (by rw [hd]; rfl) svc hsvc with hmem | hinst
  · rcases List.mem_cons.mp hmem with rfl | hmem
    · exact Or.inr hnew
    · exact Or.inl hmem
  · exact Or.inr hinst

theorem Inv.send (hi : Inv services w) {svc : Service} {svcs : List Service}
    (hd : w.driver = .call (svc :: svcs)) :
    Inv services { w with
      driver := .waiting (svc :: svcs) w.handlers.length
      handlers := w.handlers ++ [⟨svc, .register⟩] } := by
  have hgrow : Grows w { w with
      driver := .waiting (svc :: svcs) w.handlers.length
      handlers := w.handlers ++ [⟨svc, .register⟩] } :=
    ⟨fun _ _ h => h, fun _ h => h.append _⟩
  refine ⟨?_, ?_, ?_⟩
  · intro i h hh hpc
    rw [List.getElem?_append] at hh
    split at hh
    · obtain ⟨inst, hinst, hwhy⟩ := hi.handled i h hh hpc
      exact ⟨inst, hinst, hwhy.imp_right (hgrow.initialized inst)⟩
    · rw [List.getElem?_singleton] at hh
      split at hh
      · cases hh
        exact absurd rfl hpc
      · cases hh
  · intro svcs' i h
    cases h
    exact ⟨_, svcs, List.getElem?_concat_length, rfl⟩
  · intro svcs' hs svc' hsvc'
    obtain rfl : svc :: svcs = svcs' := Option.some.inj hs
    have hold := hi.pending _ (by rw [hd]; rfl) svc' hsvc'
    exact hold.imp_right hgrow.installed

/-- The handler of attempt `i` moves from `h` to `pc`, and the server may learn names. -/
theorem Inv.handler (hi : Inv services w) {i : Nat} {h : Handler} (hh : w.handlers[i]? = some h)
    (hpc : ∀ r, h.pc ≠ .returned r) (pc : HandlerPc) {server : Server Instance}
    (hserver : ∀ name inst, w.server.services name = some inst →
      server.services name = some inst)
    (hself : ∃ inst, server.services h.svc.name = some inst ∧
      (inst = .decoded i ∨ Initialized w.handlers inst)) :
    Inv services { w with server := server, handlers := w.handlers.set i ⟨h.svc, pc⟩ } := by
  have hgrow : Grows w { w with server := server, handlers := w.handlers.set i ⟨h.svc, pc⟩ } :=
    ⟨hserver, fun _ hinit => hinit.set hh hpc pc⟩
  obtain ⟨hlt, -⟩ := List.getElem?_eq_some_iff.mp hh
  refine ⟨?_, ?_, ?_⟩
  · intro j h' hh' hpc'
    by_cases hij : i = j
    · subst hij
      obtain rfl : (⟨h.svc, pc⟩ : Handler) = h' := by simpa [hlt] using hh'
      obtain ⟨inst, hinst, hwhy⟩ := hself
      exact ⟨inst, hinst, hwhy.imp_right (hgrow.initialized inst)⟩
    · rw [List.getElem?_set_ne hij] at hh'
      obtain ⟨inst, hinst, hwhy⟩ := hi.handled j h' hh' hpc'
      exact ⟨inst, hserver _ _ hinst, hwhy.imp_right (hgrow.initialized inst)⟩
  · intro svcs j hd
    obtain ⟨h', rest, hh', rfl⟩ := hi.waiting svcs j hd
    by_cases hij : i = j
    · subst hij
      obtain rfl : h = h' := Option.some.inj (hh.symm.trans hh')
      exact ⟨⟨h.svc, pc⟩, rest, by simp [hlt], rfl⟩
    · exact ⟨h', rest, by rwa [List.getElem?_set_ne hij], rfl⟩
  · intro svcs hs svc hsvc
    exact (hi.pending svcs hs svc hsvc).imp_right hgrow.installed

theorem step_inv {w' : World} {a : Action} (hi : Inv services w) (hok : TakenByInitialized w a)
    (h : step P w a = some w') : Inv services w' := by
  cases a with
  | send =>
    simp only [step] at h
    split at h
    · rename_i hd
      cases h
      refine hi.move (fun _ _ => by simp) ?_
      intro svcs hs
      cases hs
      exact hi.pending [] (by rw [hd]; rfl)
    · rename_i hd
      cases h
      exact hi.send hd
    · cases h
  | reply =>
    simp only [step] at h
    split at h
    · rename_i svcs i hd
      split at h
      · rename_i svc r hh
        cases h
        obtain ⟨h', rest, hh', rfl⟩ := hi.waiting svcs i hd
        cases hh.symm.trans hh'
        cases r with
        | none => exact hi.answered_nil hd hh rfl
        | some e => exact hi.answered_err (by rw [hd]; rfl) _
      · cases h
    · cases h
  | lost e =>
    simp only [step] at h
    split at h
    · rename_i hd
      cases h
      exact hi.answered_err (by rw [hd]; rfl) e
    · cases h
  | waited =>
    simp only [step] at h
    split at h
    · rename_i svcs hd
      cases h
      refine hi.move (fun _ _ => by simp) ?_
      intro svcs' hs
      exact hi.pending svcs' (by rw [hd]; exact hs)
    · cases h
  | waitErr e =>
    simp only [step] at h
    split at h
    · cases h
      exact hi.move (fun _ _ => by simp) (fun _ hs => by cases hs)
    · cases h
  | register i =>
    simp only [step] at h
    split at h
    · rename_i svc hh
      cases h
      refine hi.handler hh (fun r => by simp) .init (fun _ _ => register_services) ?_
      obtain ⟨inst, hinst, hwhy⟩ := register_self w.server svc.name (.decoded i)
      exact ⟨inst, hinst, hwhy.imp_right fun hold => hok _ hh inst hold⟩
    · cases h
  | init i r =>
    simp only [step] at h
    split at h
    · rename_i svc hh
      split at h
      · cases h
        have hself := hi.handled i _ hh (by simp)
        exact hi.handler hh (fun r => by simp) (.returned r) (fun _ _ hn => hn) hself
      · cases h
    · cases h

end

/-! ## The services of a running machine -/

theorem init_inv (P : Package) (services : List Service) :
    Inv services (system P services).init :=
  ⟨fun i h hh => (by simp [system] at hh), fun _ _ h => (by cases h),
    fun svcs hs svc hsvc => Or.inl (by cases hs; exact hsvc)⟩

/-- **The services of a running machine are initialized.** In every run in which a handler
finds its name taken only by an initialized instance: when the driver goes on to `Running`,
every service name is dispatched to an instance whose `Init`, if it has one, has returned
nil. -/
theorem services_initialized (P : Package) (services : List Service) {tr : List Action}
    {w : World}
    (h : Steps (system P services) TakenByInitialized (system P services).init tr w)
    (hrun : w.driver = .running) : ∀ svc ∈ services, Installed w svc.name := by
  have hinv : Inv services w := h.invariant (I := Inv services)
    (fun _ _ _ hi hok hs => step_inv hi hok hs) (init_inv P services)
  intro svc hsvc
  have hp : svc ∈ [] ∨ Installed w svc.name := hinv.pending [] (by rw [hrun]; rfl) svc hsvc
  exact hp.resolve_left List.not_mem_nil

/-- The reply of an attempt whose `Init` succeeded is lost, and the next one succeeds. -/
def lostReplyRun : List Action :=
  [.send, .register 0, .init 0 none, .lost (.leaf .net .temporary "EOF"), .waited, .send,
    .register 1, .init 1 none, .reply, .send]

theorem services_initialized_lostReplyRun :
    ∃ w, Steps (system Reference.package [⟨"PI", true⟩]) TakenByInitialized
        (system Reference.package [⟨"PI", true⟩]).init lostReplyRun w ∧ w.driver = .running ∧
      Installed w "PI" := by
  obtain ⟨w, hw, hrun⟩ := exists_steps (system Reference.package [⟨"PI", true⟩])
    TakenByInitialized (system Reference.package [⟨"PI", true⟩]).init lostReplyRun
    (fun w => w.driver = .running) (by decide)
  have hinstalled : Installed w "PI" :=
    services_initialized Reference.package _ hw hrun _ (List.mem_singleton_self _)
  exact ⟨w, hw, hrun, hinstalled⟩

/-- `Init` fails on the first attempt, whose instance is registered; the second attempt
initializes another instance and succeeds. -/
theorem retry_leaves_uninitialized :
    ¬ ∀ (P : Package) (services : List Service) (tr : List Action) (w : World),
      Steps (system P services) Always (system P services).init tr w → w.driver = .running →
      ∀ svc ∈ services, Installed w svc.name := by
  intro h
  obtain ⟨w, hw, hrun, hnot⟩ := exists_steps (system Reference.package [⟨"PI", true⟩]) Always
    (system Reference.package [⟨"PI", true⟩]).init
    [.send, .register 0, .init 0 (some (.text "disk not ready")), .reply, .waited, .send,
      .register 1, .init 1 none, .reply, .send]
    (fun w => w.driver = .running ∧ ¬ Installed w "PI") (by decide)
  have hinstalled : Installed w "PI" :=
    h Reference.package _ _ w hw hrun _ (List.mem_singleton_self _)
  exact hnot hinstalled

end Bigmachine.Supervisor.Register
