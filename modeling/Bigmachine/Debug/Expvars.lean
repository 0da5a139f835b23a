import Bigmachine.Debug.Handlers
import Bigmachine.Registry.Machines

/-!
# The variables of the machines

A process publishes the variable `machines`: its text asks the machines of a session for all their
variables, of which `machines` could be one, and so on. Only machines that the session owns are
asked, so that there are no loops.

In fact the collection is flat (`expvars_flat`). `Start` publishes the variable after `run`, which
does not return in the process of a machine, so only drivers have it, and only for the first session
that is not one of the test system; and the machines that such a session owns are processes of their
own. So the variables of machines that were started by machines are never seen.

Addresses: those of the test system begin with `http://`, those of other systems with `https://`.
-/

namespace Bigmachine.Debug.Expvars

open Errors Transition

/-- The variable `BIGMACHINE_MODE`. -/
inductive Mode
  | driver
  | machine
  deriving DecidableEq, Repr

/-- A `B`, and whether its system is the test system. -/
structure Session where
  test : Bool
  b : Registry.B := {}

/-- The machines of the session get an address like this. -/
def Session.addresses (s : Session) (addr : String) : Bool :=
  startsWith addr (if s.test then "http://" else "https://")

structure Process where
  mode : Mode
  sessions : List Session := []
  published : Option Nat := none -- the session of the variable `machines`

/-- `bigmachine.Start`. On a machine, `run` does not return. -/
def Process.startB (p : Process) (test : Bool) : Process :=
  let q := { p with sessions := p.sessions ++ [⟨test, {}⟩] }
  match p.mode with
  | .machine => q
  | .driver =>
    if !test && p.published.isNone then { q with published := some p.sessions.length } else q

/-- `hosts` is the process that answers at an address. -/
structure World where
  processes : List Process
  hosts : AList (fun _ : String => Nat) := ∅

namespace World

/-- A new machine of the session `s` of the process `p`. The machines of the test system are servers
in the process itself, those of other systems are processes. -/
def startOne (w : World) (p : Nat) (s : Session) (addr : String) : World :=
  if s.test then { w with hosts := w.hosts.insert addr p }
  else
    ⟨w.processes ++ [{ mode := .machine, sessions := [⟨false, {}⟩] }],
      w.hosts.insert addr w.processes.length⟩

def startAll (w : World) (p : Nat) (s : Session) : List String → World
  | [] => w
  | addr :: addrs => startAll (w.startOne p s addr) p s addrs

/-- What the system of the session does. -/
def start (w : World) (p : Nat) (s : Session) : Registry.Action → World
  | .start addrs _ => w.startAll p s addrs
  | .dial _ | .stop _ | .cleanup _ _ => w

end World

def Session.allows (s : Session) : Registry.Action → Bool
  | .start addrs _ => addrs.all s.addresses
  | .dial _ | .stop _ | .cleanup _ _ => true

inductive Action
  | startB (p : Nat) (test : Bool)
  | session (p s : Nat) (a : Registry.Action)
  deriving DecidableEq, Repr

def step (P : Package) (w : World) : Action → Option World
  | .startB p test => do
    let proc ← w.processes[p]?
    some { w with processes := w.processes.set p (proc.startB test) }
  | .session p s a => do
    let proc ← w.processes[p]?
    let ses ← proc.sessions[s]?
    let b ← Registry.step P ses.b a
    if ses.allows a then
      let w' := w.start p ses a
      some { w' with
        processes := w'.processes.set p
          { proc with sessions := proc.sessions.set s { ses with b } } }
    else none

/-- One process, which is a driver. -/
def system (P : Package) : System World Action := ⟨⟨[{ mode := .driver }], ∅⟩, step P⟩

/-! ## Collecting -/

/-- The variables of a process: its own, and `machines` if that is published. -/
inductive Vars
  | mk (process : Nat) (machines : Option (List (String × Vars)))

/-- The machines that `machineVars.String` asks. -/
def owned (b : Registry.B) : List String :=
  (b.machines.entries.filter fun e => b.members[e.2]?.any (·.owner)).map (·.1)

/-- `Supervisor.Expvars` in the process `p`, with `machineVars.String`. A machine that does not
answer is left out. Nothing is returned when the processes ask each other to a greater depth than
the first argument. -/
def World.expvars (w : World) (answers : String → Bool) : Nat → Nat → Option Vars
  | 0, _ => none
  | fuel + 1, p => do
    let proc ← w.processes[p]?
    match proc.published.bind (proc.sessions[·]?) with
    | none => some (.mk p none)
    | some ses =>
      let vars ← ((owned ses.b).filter answers).mapM fun addr => do
        let q ← w.hosts.lookup addr
        let v ← w.expvars answers fuel q
        some (addr, v)
      some (.mk p (some vars))

/-! ## The table of a session -/

/-- The machines in the table have been made for their addresses, and those that are owned have an
address with `ok`. -/
def Owns (ok : String → Prop) (b : Registry.B) : Prop :=
  ∀ addr m, b.machines.lookup addr = some m →
    ∃ owner, b.members[m]? = some ⟨addr, owner⟩ ∧ (owner = true → ok addr)

theorem Owns.mono {ok ok' : String → Prop} (h : ∀ addr, ok addr → ok' addr) {b : Registry.B}
    (hb : Owns ok b) : Owns ok' b := by
  intro addr m hm
  obtain ⟨owner, hmem, hok⟩ := hb addr m hm
  exact ⟨owner, hmem, fun ho => h addr (hok ho)⟩

theorem Owns.store {ok : String → Prop} {b : Registry.B} (hb : Owns ok b) {addr : String}
    {owner : Bool} (hok : owner = true → ok addr) : Owns ok (b.store addr owner) := by
  intro addr' m hm
  rw [Registry.store_lookup] at hm
  split at hm
  · rename_i heq
    cases hm
    subst heq
    exact ⟨owner, by simp [Registry.B.store], hok⟩
  · obtain ⟨owner', hmem, hok'⟩ := hb addr' m hm
    have hlt : m < b.members.length := (List.getElem?_eq_some_iff.mp hmem).1
    exact ⟨owner', by rw [Registry.B.store, List.getElem?_append_left hlt, hmem], hok'⟩

theorem Owns.storeAll {ok : String → Prop} {b : Registry.B} (hb : Owns ok b) {addrs : List String}
    (hok : ∀ addr ∈ addrs, ok addr) : Owns ok (b.storeAll addrs) := by
  induction addrs generalizing b with
  | nil => exact hb
  | cons addr addrs ih =>
    exact ih (hb.store fun _ => hok addr List.mem_cons_self)
      fun addr' h => hok addr' (List.mem_cons_of_mem _ h)

theorem Owns.step {ok : String → Prop} {P : Package} {b b' : Registry.B} {a : Registry.Action}
    (hb : Owns ok b) (hok : ∀ addrs services, a = .start addrs services → ∀ addr ∈ addrs, ok addr)
    (h : Registry.step P b a = some b') : Owns ok b' := by
  obtain rfl | ⟨addr, rfl, -, rfl⟩ | ⟨addrs, rfl, rfl⟩ | ⟨m, rfl, rfl⟩ |
    ⟨m, addr, rfl, -, -, rfl⟩ := Registry.step_cases h
  · exact hb
  · exact hb.store (fun h => by cases h)
  · exact hb.storeAll (hok _ _ rfl)
  · exact hb
  · intro addr' m' hm
    by_cases heq : addr' = addr
    · subst heq
      rw [Registry.B.cleanup, AList.lookup_erase] at hm
      cases hm
    · rw [Registry.B.cleanup, AList.lookup_erase_ne heq] at hm
      exact hb addr' m' hm

theorem Owns.of_mem_owned {ok : String → Prop} {b : Registry.B} (hb : Owns ok b) {addr : String}
    (h : addr ∈ owned b) : ok addr := by
  obtain ⟨⟨addr, m⟩, he, rfl⟩ := List.mem_map.mp h
  obtain ⟨hmem, howner⟩ := List.mem_filter.mp he
  obtain ⟨owner, hm, hok⟩ := hb addr m (AList.mem_lookup_iff.mpr hmem)
  rw [hm] at howner
  exact hok howner

/-! ## Addresses -/

theorem not_both {addr : String} (h : startsWith addr "http://" = true)
    (h' : startsWith addr "https://" = true) : False := by
  simp only [startsWith, List.isPrefixOf_iff_prefix] at h h'
  obtain ⟨t, ht⟩ := h
  obtain ⟨t', ht'⟩ := h'
  have := ht.trans ht'.symm
  simp at this

/-! ## Reachable worlds -/

/-- The first session that is not one of the test system, on a driver. -/
def Process.shown (p : Process) : Option Nat :=
  match p.mode with
  | .machine => none
  | .driver => p.sessions.findIdx? (!·.test)

/-- The address is one of the session, and something answers there. -/
def World.Hosted (w : World) (s : Session) (addr : String) : Prop :=
  s.addresses addr = true ∧ (w.hosts.lookup addr).isSome

structure Inv (w : World) : Prop where
  published : ∀ p ∈ w.processes, p.published = p.shown
  hosts : ∀ addr q, w.hosts.lookup addr = some q → startsWith addr "https://" = true →
    ∃ p, w.processes[q]? = some p ∧ p.mode = .machine
  tables : ∀ p ∈ w.processes, ∀ s ∈ p.sessions, Owns (w.Hosted s) s.b

theorem owns_empty (ok : String → Prop) : Owns ok {} := by
  intro addr m hm
  simp at hm

/-! ### The systems -/

/-- Nothing that was there goes away. -/
structure World.Extends (w w' : World) : Prop where
  processes : ∀ (i : Nat) p, w.processes[i]? = some p → w'.processes[i]? = some p
  hosts : ∀ addr, (w.hosts.lookup addr).isSome → (w'.hosts.lookup addr).isSome

theorem World.Extends.trans {w w' w'' : World} (h : w.Extends w') (h' : w'.Extends w'') :
    w.Extends w'' :=
  ⟨fun i p hp => h'.processes i p (h.processes i p hp),
    fun addr ha => h'.hosts addr (h.hosts addr ha)⟩

theorem World.Hosted.mono {w w' : World} (h : w.Extends w') {s : Session} {addr : String}
    (ha : w.Hosted s addr) : w'.Hosted s addr :=
  ⟨ha.1, h.hosts addr ha.2⟩

theorem startOne_lookup (w : World) (p : Nat) (s : Session) (addr addr' : String) :
    (w.startOne p s addr).hosts.lookup addr' =
      if addr' = addr then some (if s.test then p else w.processes.length)
      else w.hosts.lookup addr' := by
  unfold World.startOne
  by_cases heq : addr' = addr
  · subst heq
    cases s.test <;> simp
  · cases s.test <;> simp [heq, AList.lookup_insert_ne heq]

theorem startOne_extends (w : World) (p : Nat) (s : Session) (addr : String) :
    w.Extends (w.startOne p s addr) := by
  refine ⟨fun i q hq => ?_, fun addr' h => ?_⟩
  · unfold World.startOne
    split
    · exact hq
    · exact (List.getElem?_append_left (List.getElem?_eq_some_iff.mp hq).1).trans hq
  · rw [startOne_lookup]
    split
    · rfl
    · exact h

theorem startAll_extends (w : World) (p : Nat) (s : Session) (addrs : List String) :
    w.Extends (w.startAll p s addrs) := by
  induction addrs generalizing w with
  | nil => exact ⟨fun _ _ h => h, fun _ h => h⟩
  | cons addr addrs ih => exact (startOne_extends w p s addr).trans (ih _)

theorem startAll_hosts (w : World) (p : Nat) (s : Session) {addrs : List String} {addr : String}
    (h : addr ∈ addrs) : ((w.startAll p s addrs).hosts.lookup addr).isSome := by
  induction addrs generalizing w with
  | nil => cases h
  | cons a addrs ih =>
    rcases List.mem_cons.mp h with rfl | h
    · refine (startAll_extends _ p s addrs).hosts addr ?_
      rw [startOne_lookup, if_pos rfl]
      rfl
    · exact ih _ h

theorem start_extends (w : World) (p : Nat) (s : Session) (a : Registry.Action) :
    w.Extends (w.start p s a) := by
  cases a with
  | start addrs _ => exact startAll_extends w p s addrs
  | dial _ | stop _ | cleanup _ _ => exact ⟨fun _ _ h => h, fun _ h => h⟩

namespace Inv

theorem startOne {w : World} (h : Inv w) (p : Nat) {s : Session} {addr : String}
    (haddr : s.addresses addr = true) : Inv (w.startOne p s addr) := by
  have hext := startOne_extends w p s addr
  have hnew : ∀ q ∈ (w.startOne p s addr).processes,
      q ∈ w.processes ∨ q = { mode := .machine, sessions := [⟨false, {}⟩] } := by
    unfold World.startOne
    split
    · exact fun q hq => Or.inl hq
    · intro q hq
      simpa using hq
  refine ⟨fun q hq => ?_, fun addr' i hi hs => ?_, fun q hq s' hs' => ?_⟩
  · rcases hnew q hq with hq | rfl
    · exact h.published q hq
    · rfl
  · rw [startOne_lookup] at hi
    split at hi
    · rename_i heq
      subst heq
      cases htest : s.test with
      | true =>
        -- an address of the test system
        rw [Session.addresses, htest] at haddr
        exact (not_both haddr hs).elim
      | false =>
        rw [htest] at hi
        cases hi
        refine ⟨{ mode := .machine, sessions := [⟨false, {}⟩] }, ?_, rfl⟩
        simp only [World.startOne, htest]
        exact List.getElem?_concat_length
    · obtain ⟨q, hq, hmode⟩ := h.hosts addr' i hi hs
      exact ⟨q, hext.processes i q hq, hmode⟩
  · rcases hnew q hq with hq | rfl
    · exact (h.tables q hq s' hs').mono fun _ ha => ha.mono hext
    · rw [List.mem_singleton.mp hs']
      exact owns_empty _

theorem startAll {w : World} (h : Inv w) (p : Nat) {s : Session} {addrs : List String}
    (haddrs : ∀ addr ∈ addrs, s.addresses addr = true) : Inv (w.startAll p s addrs) := by
  induction addrs generalizing w with
  | nil => exact h
  | cons addr addrs ih =>
    exact ih (h.startOne p (haddrs addr List.mem_cons_self))
      fun addr' h' => haddrs addr' (List.mem_cons_of_mem _ h')

theorem start {w : World} (h : Inv w) (p : Nat) {s : Session} {a : Registry.Action}
    (ha : s.allows a = true) : Inv (w.start p s a) := by
  cases a with
  | start addrs _ => exact h.startAll p (List.all_eq_true.mp ha)
  | dial _ | stop _ | cleanup _ _ => exact h

/-- A process changes, but not its mode. -/
theorem set {w : World} (h : Inv w) {i : Nat} {p p' : Process} (hp : w.processes[i]? = some p)
    (hmode : p'.mode = p.mode) (hpub : p'.published = p'.shown)
    (htables : ∀ s ∈ p'.sessions, Owns (w.Hosted s) s.b) :
    Inv { w with processes := w.processes.set i p' } := by
  refine ⟨fun q hq => ?_, fun addr j hj hs => ?_, fun q hq s hs => ?_⟩
  · rcases List.mem_or_eq_of_mem_set hq with hq | rfl
    · exact h.published q hq
    · exact hpub
  · obtain ⟨q, hq, hqmode⟩ := h.hosts addr j hj hs
    by_cases heq : i = j
    · subst heq
      obtain rfl : q = p := Option.some.inj (hq.symm.trans hp)
      have hlt : i < w.processes.length := (List.getElem?_eq_some_iff.mp hp).1
      exact ⟨p', List.getElem?_set_self hlt, hmode.trans hqmode⟩
    · exact ⟨q, (List.getElem?_set_ne heq).trans hq, hqmode⟩
  · rcases List.mem_or_eq_of_mem_set hq with hq | rfl
    · exact h.tables q hq s hs
    · exact htables s hs

end Inv

/-! ### The sessions -/

theorem startB_shown {p : Process} (h : p.published = p.shown) (test : Bool) :
    (p.startB test).published = (p.startB test).shown := by
  obtain ⟨mode, sessions, published⟩ := p
  cases mode with
  | machine => exact h
  | driver =>
    have hpub : published = sessions.findIdx? (!·.test) := h
    have hshown : (sessions ++ [(⟨test, {}⟩ : Session)]).findIdx? (!·.test) =
        published.or (if !test then some sessions.length else none) := by
      rw [List.findIdx?_append, hpub]
      cases test <;> simp [List.findIdx?_cons]
    cases test <;> cases published <;> simp [Process.startB, Process.shown, hshown]

theorem startB_mode (p : Process) (test : Bool) : (p.startB test).mode = p.mode := by
  obtain ⟨_ | _, sessions, _ | i⟩ := p <;> cases test <;> rfl

theorem startB_sessions (p : Process) (test : Bool) :
    (p.startB test).sessions = p.sessions ++ [⟨test, {}⟩] := by
  obtain ⟨_ | _, sessions, _ | i⟩ := p <;> cases test <;> rfl

theorem shown_set {p : Process} {i : Nat} {s : Session} (hs : p.sessions[i]? = some s)
    (b : Registry.B) :
    Process.shown { p with sessions := p.sessions.set i { s with b := b } } = p.shown := by
  have hmap : (p.sessions.set i { s with b := b }).map (·.test) = p.sessions.map (·.test) := by
    obtain ⟨hlt, heq⟩ := List.getElem?_eq_some_iff.mp hs
    have hlt' : i < (p.sessions.map (·.test)).length := by simpa using hlt
    have hself := @List.set_getElem_self _ (p.sessions.map (·.test)) i hlt'
    rw [List.getElem_map, heq] at hself
    rw [List.map_set]
    exact hself
  have hfind : ∀ l : List Session,
      l.findIdx? (!·.test) = (l.map (·.test)).findIdx? (!·) := by
    intro l
    rw [List.findIdx?_map]
    rfl
  obtain ⟨mode, sessions, published⟩ := p
  cases mode with
  | machine => rfl
  | driver =>
    simp only [Process.shown, hfind]
    rw [hmap]

theorem inv_step {P : Package} {w w' : World} {a : Action} (h : Inv w)
    (hw : step P w a = some w') : Inv w' := by
  cases a with
  | startB i test =>
    simp only [step, Option.bind_eq_bind, Option.bind_eq_some_iff] at hw
    obtain ⟨p, hp, hw⟩ := hw
    cases hw
    have hmem : p ∈ w.processes := List.mem_of_getElem? hp
    refine h.set hp (startB_mode p test) (startB_shown (h.published p hmem) test) ?_
    intro s hs
    rw [startB_sessions, List.mem_append, List.mem_singleton] at hs
    rcases hs with hs | rfl
    · exact h.tables p hmem s hs
    · exact owns_empty _
  | session i j a =>
    simp only [step, Option.bind_eq_bind, Option.bind_eq_some_iff] at hw
    obtain ⟨p, hp, s, hs, b, hb, hw⟩ := hw
    split at hw
    · rename_i hallows
      cases hw
      have hext := start_extends w i s a
      have hmem : p ∈ w.processes := List.mem_of_getElem? hp
      refine (h.start i hallows).set (hext.processes i p hp) rfl ?_ ?_
      · exact (h.published p hmem).trans (shown_set hs b).symm
      · intro s' hs'
        rcases List.mem_or_eq_of_mem_set hs' with hs' | rfl
        · exact (h.tables p hmem s' hs').mono fun _ ha => ha.mono hext
        · have howns : Owns ((w.start i s a).Hosted s) s.b :=
            (h.tables p hmem s (List.mem_of_getElem? hs)).mono fun _ ha => ha.mono hext
          refine howns.step ?_ hb
          rintro addrs services rfl addr haddr
          exact ⟨List.all_eq_true.mp hallows addr haddr, startAll_hosts w i s haddr⟩
    · cases hw

theorem inv_init (P : Package) : Inv (system P).init := by
  refine ⟨?_, fun addr q hq => ?_, ?_⟩
  · intro p hp
    rw [List.mem_singleton.mp hp]
    rfl
  · simp [system] at hq
  · intro p hp s hs
    rw [List.mem_singleton.mp hp] at hs
    cases hs

/-! ## The collection -/

/-- The session whose machines are shown. -/
def Process.visible (p : Process) : Option Session :=
  match p.mode with
  | .machine => none
  | .driver => p.sessions.find? (!·.test)

theorem shown_visible (p : Process) : p.shown.bind (p.sessions[·]?) = p.visible := by
  unfold Process.shown Process.visible
  cases p.mode with
  | machine => rfl
  | driver => exact List.find?_eq_bind_findIdx?_getElem?.symm

theorem mem_of_visible {p : Process} {s : Session} (h : p.visible = some s) :
    s ∈ p.sessions ∧ s.test = false := by
  unfold Process.visible at h
  cases hmode : p.mode with
  | machine => simp [hmode] at h
  | driver =>
    rw [hmode] at h
    exact ⟨List.mem_of_find?_eq_some h, by simpa using List.find?_some h⟩

/-- The process that answers at an address. -/
def World.host (w : World) (addr : String) : Nat := (w.hosts.lookup addr).getD 0

theorem expvars_none (w : World) (answers : String → Bool) (n : Nat) {p : Nat} {proc : Process}
    (hp : w.processes[p]? = some proc)
    (hpub : proc.published.bind (proc.sessions[·]?) = none) :
    w.expvars answers (n + 1) p = some (.mk p none) := by
  rw [World.expvars, hp, Option.bind_eq_bind, Option.bind_some, hpub]

theorem expvars_some (w : World) (answers : String → Bool) (n : Nat) {p : Nat} {proc : Process}
    {s : Session} (hp : w.processes[p]? = some proc)
    (hpub : proc.published.bind (proc.sessions[·]?) = some s) :
    w.expvars answers (n + 1) p =
      (((owned s.b).filter answers).mapM fun addr =>
        (w.hosts.lookup addr).bind fun q =>
          (w.expvars answers n q).bind fun v => some (addr, v)).bind
        fun vars => some (.mk p (some vars)) := by
  rw [World.expvars, hp, Option.bind_eq_bind, Option.bind_some, hpub]
  rfl

theorem expvars_machine {w : World} (h : Inv w) (answers : String → Bool) {p : Nat}
    {proc : Process} (hp : w.processes[p]? = some proc) (hmode : proc.mode = .machine) (n : Nat) :
    w.expvars answers (n + 1) p = some (.mk p none) := by
  have hpub : proc.published = none := by
    rw [h.published proc (List.mem_of_getElem? hp), Process.shown, hmode]
  exact expvars_none w answers n hp (by rw [hpub]; rfl)

theorem mapM_some {α β : Type} {f : α → Option β} {g : α → β} {l : List α}
    (h : ∀ a ∈ l, f a = some (g a)) : l.mapM f = some (l.map g) := by
  induction l with
  | nil => rfl
  | cons a l ih =>
    rw [List.mapM_cons, h a List.mem_cons_self,
      ih fun a' ha' => h a' (List.mem_cons_of_mem _ ha')]
    rfl

/-- **The collection is flat.** Whichever process is asked, in whatever world, and whichever
machines answer: the collection ends. A driver has the machines that its first session owns, test
sessions aside, each with its own variables only; a machine has none. What answers for a machine
that a session owns is the process of a machine, test sessions aside. -/
theorem expvars_flat (P : Package) (tr : List Action) (w : World)
    (h : Steps (system P) Always (system P).init tr w) (answers : String → Bool) (p : Nat)
    (proc : Process) (hp : w.processes[p]? = some proc) (n : Nat) :
    w.expvars answers (n + 2) p = some (.mk p (proc.visible.map fun s =>
      ((owned s.b).filter answers).map fun addr => (addr, .mk (w.host addr) none))) ∧
    ∀ s ∈ proc.sessions, s.test = false → ∀ addr ∈ owned s.b,
      ∃ q, w.processes[w.host addr]? = some q ∧ q.mode = .machine := by
  have hinv : Inv w := h.invariant (I := Inv) (fun _ _ _ hi _ hstep => inv_step hi hstep)
    (inv_init P)
  have hmem : proc ∈ w.processes := List.mem_of_getElem? hp
  have howned : ∀ s ∈ proc.sessions, s.test = false → ∀ addr ∈ owned s.b,
      w.hosts.lookup addr = some (w.host addr) ∧
      ∃ q, w.processes[w.host addr]? = some q ∧ q.mode = .machine := by
    intro s hs htest addr haddr
    obtain ⟨haddress, hsome⟩ := (hinv.tables proc hmem s hs).of_mem_owned haddr
    obtain ⟨q, hq⟩ := Option.isSome_iff_exists.mp hsome
    have hhost : w.host addr = q := by simp [World.host, hq]
    rw [Session.addresses, htest] at haddress
    exact ⟨hhost ▸ hq, hhost ▸ hinv.hosts addr q hq haddress⟩
  refine ⟨?_, fun s hs htest addr haddr => (howned s hs htest addr haddr).2⟩
  have hpub : proc.published.bind (proc.sessions[·]?) = proc.visible := by
    rw [hinv.published proc hmem, shown_visible]
  cases hvisible : proc.visible with
  | none => exact expvars_none w answers (n + 1) hp (hpub.trans hvisible)
  | some s =>
    obtain ⟨hs, htest⟩ := mem_of_visible hvisible
    have hcollect : ∀ addr ∈ (owned s.b).filter answers,
        ((w.hosts.lookup addr).bind fun q =>
          (w.expvars answers (n + 1) q).bind fun v => some (addr, v)) =
        some (addr, Vars.mk (w.host addr) none) := by
      intro addr haddr
      obtain ⟨hlook, q, hq, hqmode⟩ := howned s hs htest addr (List.mem_filter.mp haddr).1
      rw [hlook, Option.bind_some, expvars_machine hinv answers hq hqmode n, Option.bind_some]
    rw [expvars_some w answers (n + 1) hp (hpub.trans hvisible), mapM_some hcollect]
    rfl

/-- A test session and another one, which starts two machines and dials one of the test session. The
first machine starts a third. -/
def nested : List Action :=
  [.startB 0 true, .startB 0 false, .session 0 0 (.start ["http://127.0.0.1:1"] true),
    .session 0 1 (.start ["https://a/", "https://b/"] true),
    .session 0 1 (.dial "http://127.0.0.1:1"), .session 1 0 (.start ["https://c/"] true)]

theorem expvars_flat_nested :
    ∃ w proc, Steps (system Reference.package) Always (system Reference.package).init nested w ∧
      w.processes.length = 4 ∧ w.processes[0]? = some proc ∧
      proc.visible.map (owned ·.b) = some ["https://b/", "https://a/"] ∧
      w.expvars (fun _ => true) 2 0 = some (.mk 0 (proc.visible.map fun s =>
        ((owned s.b).filter fun _ => true).map fun addr => (addr, .mk (w.host addr) none))) := by
  obtain ⟨w, hs, hlength, hvisible⟩ := exists_steps (system Reference.package) Always
    (system Reference.package).init nested
    (fun w => w.processes.length = 4 ∧
      (w.processes[0]?.bind Process.visible).map (owned ·.b) = some ["https://b/", "https://a/"])
    (by decide +kernel)
  cases hproc : w.processes[0]? with
  | none => simp [hproc] at hvisible
  | some proc =>
    rw [hproc] at hvisible
    exact ⟨w, proc, hs, hlength, hproc, hvisible,
      (expvars_flat _ nested w hs (fun _ => true) 0 proc hproc 0).1⟩

end Bigmachine.Debug.Expvars
