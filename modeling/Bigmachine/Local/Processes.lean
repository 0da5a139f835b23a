import Bigmachine.Supervisor.Environment
import Bigmachine.Transition.System
import Mathlib.Data.List.TakeWhile

/-!
# The processes of the local system

The local system starts a machine as a process of the same binary, and tells it by four variables
that it is a machine, of which system, at which address it serves, and which authority it uses. The
driver then replaces the binary and the environment of the process by `Supervisor.Exec`. Services
can start machines of their own in the same way.

When a command is started the last entry for a key counts (`dedupEnv`), and when an image is
executed the first one does (`Environment.getenv`). So the entries that `Start` appends win over
those it has inherited, and then win over all `Environ` parameters: whatever the environment of the
driver and the parameters, every process that is started is, before and after `Exec`, a machine of
the local system that serves at the address its starter dials, with the authority of the driver
(`processes_identified`).
-/

namespace Bigmachine.Local

open Errors Transition
open Supervisor.Environment (getenv lastValue valueFor getenv_append)

/-! ## Environments -/

/-- The key that an entry defines. -/
def keyOf (entry : String) : Option (List Char) :=
  if '=' ∈ entry.toList then some (entry.toList.takeWhile (· ≠ '=')) else none

/-- `os.Environ` of a process that was executed with the entries: those for a key that is defined
before are left out. -/
def environ : List String → List String
  | [] => []
  | e :: es => e :: (environ es).filter fun e' => decide (keyOf e' = none ∨ keyOf e' ≠ keyOf e)

/-- The next entry of `dedupEnv`. -/
def put (out : List String) (kv : String) : List String :=
  if keyOf kv ≠ none ∧ ∃ e ∈ out, keyOf e = keyOf kv then
    out.map fun e => if keyOf e = keyOf kv then kv else e
  else out ++ [kv]

/-- What package os/exec makes of the environment of a command: an entry for a key that is defined
before takes the place of the earlier one. -/
def dedupEnv (env : List String) : List String := env.foldl put []

theorem valueFor_eq_none_iff {key entry : String} :
    valueFor key entry = none ↔ keyOf entry ≠ some key.toList := by
  unfold valueFor keyOf
  cases h : entry.toList.dropWhile (· ≠ '=') with
  | nil =>
    have hmem : '=' ∉ entry.toList := fun hmem => by
      simpa using List.dropWhile_eq_nil_iff.mp h '=' hmem
    simp [hmem]
  | cons c cs =>
    have hmem : '=' ∈ entry.toList := by
      by_contra hmem
      have hnil : entry.toList.dropWhile (· ≠ '=') = [] := List.dropWhile_eq_nil_iff.mpr
        fun x hx => decide_eq_true fun heq => hmem (heq ▸ hx)
      rw [h] at hnil
      cases hnil
    simp [hmem]

theorem keyOf_of_valueFor {key entry value : String} (h : valueFor key entry = some value) :
    keyOf entry = some key.toList := by
  by_contra hne
  rw [valueFor_eq_none_iff.mpr hne] at h
  cases h

theorem getenv_cons (e : String) (es : List String) (key : String) :
    getenv (e :: es) key = (valueFor key e).or (getenv es key) := by
  rw [← List.singleton_append, getenv_append]
  cases h : valueFor key e <;> simp [getenv, h]

theorem getenv_filter {keep : String → Bool} {es : List String} {key : String}
    (h : ∀ e, keep e = false → valueFor key e = none) :
    getenv (es.filter keep) key = getenv es key := by
  induction es with
  | nil => rfl
  | cons e es ih =>
    cases hkeep : keep e with
    | true => rw [List.filter_cons_of_pos hkeep, getenv_cons, getenv_cons, ih]
    | false =>
      rw [List.filter_cons_of_neg (by simp [hkeep]), getenv_cons, ih, h e hkeep, Option.none_or]

theorem getenv_environ (envs : List String) (key : String) :
    getenv (environ envs) key = getenv envs key := by
  induction envs with
  | nil => rfl
  | cons e es ih =>
    rw [environ, getenv_cons, getenv_cons, ← ih]
    cases hvalue : valueFor key e with
    | some value => rw [Option.some_or, Option.some_or]
    | none =>
      rw [Option.none_or, Option.none_or]
      refine getenv_filter fun e' hdrop => valueFor_eq_none_iff.mpr fun hkey => ?_
      simp only [hkey, decide_eq_false_iff_not] at hdrop
      exact hdrop (Or.inr fun heq => valueFor_eq_none_iff.mp hvalue heq.symm)

theorem getenv_put (out : List String) (kv key : String) :
    getenv (put out kv) key = (valueFor key kv).or (getenv out key) := by
  unfold put
  split
  · rename_i hdup
    obtain ⟨hkv, e, he, heq⟩ := hdup
    cases hvalue : valueFor key kv with
    | none =>
      -- the entries that are replaced do not define the key either
      rw [Option.none_or, getenv, List.findSome?_map]
      refine congrArg (fun f => out.findSome? f) (funext fun e => ?_)
      by_cases hsame : keyOf e = keyOf kv
      · have hnone : valueFor key e = none := by
          rw [valueFor_eq_none_iff, hsame]
          exact valueFor_eq_none_iff.mp hvalue
        simp [hsame, hvalue, hnone]
      · simp [hsame]
    | some value =>
      have hkey := keyOf_of_valueFor hvalue
      rw [Option.some_or]
      clear hkv
      induction out with
      | nil => cases he
      | cons x xs ih =>
        rw [List.map_cons, getenv_cons]
        by_cases hx : keyOf x = keyOf kv
        · rw [if_pos hx, hvalue, Option.some_or]
        · have hnone : valueFor key x = none := by
            rw [valueFor_eq_none_iff, ← hkey]
            exact hx
          rcases List.mem_cons.mp he with rfl | he
          · exact absurd heq hx
          · rw [if_neg hx, hnone, Option.none_or, ih he]
  · rename_i hnew
    rw [getenv_append, getenv_cons]
    cases hvalue : valueFor key kv with
    | none => simp [getenv]
    | some value =>
      have hkey := keyOf_of_valueFor hvalue
      have hnone : getenv out key = none := by
        rw [getenv, List.findSome?_eq_none_iff]
        intro e he
        rw [valueFor_eq_none_iff, ← hkey]
        exact fun heq => hnew ⟨by simp [hkey], e, he, heq⟩
      rw [hnone, Option.none_or, Option.some_or, Option.some_or]

theorem lastValue_append (env env' : List String) (key : String) :
    lastValue (env ++ env') key = (lastValue env' key).or (lastValue env key) := by
  rw [lastValue, List.reverse_append, List.findSome?_append]
  rfl

/-- A started command sees the last entry for each key. -/
theorem getenv_dedupEnv (env : List String) (key : String) :
    getenv (dedupEnv env) key = lastValue env key := by
  induction env using List.reverseRecOn with
  | nil => rfl
  | append_singleton env kv ih =>
    rw [dedupEnv, List.foldl_concat, getenv_put, lastValue_append]
    rw [dedupEnv] at ih
    rw [ih]
    congr 1
    cases h : valueFor key kv <;> simp [lastValue, h]

/-! ## Starting a process -/

def portAddr (port : Nat) : String := "localhost:" ++ toString port

/-- The address of the `Machine` that `Start` returns. -/
def machineAddr (port : Nat) : String := "https://" ++ portAddr port ++ "/"

def entry (key value : String) : String := key ++ "=" ++ value

/-- The entries that `Start` appends to the environment of its process. -/
def machineEntries (port : Nat) (authorityFilename : String) : List String :=
  [entry "BIGMACHINE_MODE" "machine", entry "BIGMACHINE_SYSTEM" "local",
    entry "BIGMACHINE_ADDR" (portAddr port), entry "BIGMACHINE_AUTHORITY" authorityFilename]

/-- The binary: whether it calls `Init`, the systems that are registered, and the system with which
it calls `Start` itself. -/
structure Program where
  callsInit : Bool
  systems : List String
  main : String

/-- In a driver `run` has returned. A machine is in `run`: before it serves, while it serves, when
it has ended before `ListenAndServe` (`fatal`), and when `ListenAndServe` has returned an error. -/
inductive Status
  | driver
  | machine
  | serving (addr : String)
  | fatal (message : String)
  | ended (err : Err)
  deriving DecidableEq

/-- What the process was executed with and the port that its starter has chosen, then what `run`
has made of it. -/
structure Process where
  envs : List String
  port : Nat
  system : String
  authorityFilename : String
  status : Status
  supervisor : Supervisor.Environment.Process := {}

/-- `os.Getenv`. -/
def lookup (envs : List String) (key : String) : String := (getenv envs key).getD ""

/-- `run`, up to the call of `ListenAndServe`. `Init` of the local system makes a new authority, in
the file `tmp`. -/
def run (envs : List String) (port : Nat) (system tmp : String) : Process :=
  let mode := lookup envs "BIGMACHINE_MODE"
  { envs, port, system
    authorityFilename := tmp
    status :=
      if mode = "" then .driver
      else if mode = "machine" then .machine
      else .fatal ("invalid bigmachine mode " ++ mode) }

/-- The start of a process. When `Init` finds no name it returns, and the program goes on. -/
def Program.launch (prog : Program) (envs : List String) (port : Nat) (tmp : String) : Process :=
  let name := lookup envs "BIGMACHINE_SYSTEM"
  if prog.callsInit = true ∧ name ≠ "" then
    if name ∈ prog.systems then run envs port name tmp
    else
      { envs, port
        system := ""
        authorityFilename := ""
        status := .fatal ("system " ++ name ++ " not found") }
  else run envs port prog.main tmp

/-- `ListenAndServe`, called without an address. -/
def Process.listenAndServe (p : Process) : Process :=
  let addr := lookup p.envs "BIGMACHINE_ADDR"
  let filename := lookup p.envs "BIGMACHINE_AUTHORITY"
  if addr = "" then { p with status := .ended (.text "no address defined") }
  else
    { p with
      authorityFilename := if filename = "" then p.authorityFilename else filename
      status := .serving addr }

/-! ## The system -/

/-- The driver, and then the processes in the order in which they were started. -/
abbrev World := List Process

/-- Each is a step of the process `i`: `start` is `Start`, and in `fail` its `ListenAndServe`
returns an error of its own. -/
inductive Action
  | start (i : Nat) (port : Nat) (tmp : String)
  | listen (i : Nat)
  | fail (i : Nat) (err : Err)
  | setenv (i : Nat) (env : List String)
  | setargs (i : Nat) (args : List String)
  | setbinary (i : Nat) (path : String)
  | exec (i : Nat) (tmp : String)
  deriving DecidableEq

/-- The process may call `Start`: it is the driver, or one of its services does. -/
def Process.starts (p : Process) : Bool :=
  decide (p.system = "local") && match p.status with
    | .driver | .serving _ => true
    | _ => false

def Process.serves (p : Process) : Bool :=
  match p.status with
  | .serving _ => true
  | _ => false

/-- A step of one process. -/
def Process.step (P : Package) (prog : Program) (p : Process) : Action → Option Process
  | .listen _ => if p.status = .machine ∧ p.system = "local" then some p.listenAndServe else none
  | .fail _ err =>
    if p.status = .machine ∨ p.serves = true then some { p with status := .ended err } else none
  | .setenv _ env =>
    if p.serves = true then some { p with supervisor := p.supervisor.setenv env } else none
  | .setargs _ args =>
    if p.serves = true then some { p with supervisor := p.supervisor.setargs args } else none
  | .setbinary _ path =>
    if p.serves = true then some { p with supervisor := p.supervisor.setbinary path } else none
  | .exec _ tmp =>
    if p.serves = true then
      match p.supervisor.exec P (environ p.envs) with
      | .ok image => some (prog.launch image.environ p.port tmp)
      | .error _ => some p
    else none
  | .start _ _ _ => none

def Action.index : Action → Nat
  | .start i _ _ | .listen i | .fail i _ | .setenv i _ | .setargs i _ | .setbinary i _
  | .exec i _ => i

def step (P : Package) (prog : Program) (s : World) (a : Action) : Option World :=
  s[a.index]?.bind fun p =>
    match a with
    | .start _ port tmp =>
      if p.starts = true then
        let env := dedupEnv (environ p.envs ++ machineEntries port p.authorityFilename)
        some (s ++ [prog.launch env port tmp])
      else none
    | a => (p.step P prog a).map fun p => s.set a.index p

/-- The driver is started with the environment `env`, and `Init` makes the authority in the file
`authorityFilename`. -/
def system (P : Package) (prog : Program) (env : List String) (authorityFilename : String) :
    System World Action :=
  ⟨[prog.launch env 0 authorityFilename], step P prog⟩

/-! ## Machines -/

/-- The variables of a machine. -/
structure Marked (envs : List String) (port : Nat) (authorityFilename : String) : Prop where
  mode : getenv envs "BIGMACHINE_MODE" = some "machine"
  system : getenv envs "BIGMACHINE_SYSTEM" = some "local"
  addr : getenv envs "BIGMACHINE_ADDR" = some (portAddr port)
  authority : getenv envs "BIGMACHINE_AUTHORITY" = some authorityFilename

theorem valueFor_entry {key : String} (h : '=' ∉ key.toList) (key' value : String) :
    valueFor key' (entry key value) = if key = key' then some value else none := by
  have hlist : (entry key value).toList = key.toList ++ '=' :: value.toList := by simp [entry]
  have hkeep : ∀ c ∈ key.toList, decide (c ≠ '=') = true := fun c hc =>
    decide_eq_true fun heq => h (heq ▸ hc)
  unfold valueFor
  rw [hlist, List.dropWhile_append_of_pos hkeep, List.takeWhile_append_of_pos hkeep]
  simp [String.toList_inj]

theorem marked_start (env : List String) (port : Nat) (filename : String) :
    Marked (dedupEnv (env ++ machineEntries port filename)) port filename := by
  have hlast : ∀ key value, lastValue (machineEntries port filename) key = some value →
      getenv (dedupEnv (env ++ machineEntries port filename)) key = some value := by
    intro key value h
    rw [getenv_dedupEnv, lastValue_append, h, Option.some_or]
  have hentries : ∀ key, lastValue (machineEntries port filename) key =
      (if "BIGMACHINE_AUTHORITY" = key then some filename else none).or
        ((if "BIGMACHINE_ADDR" = key then some (portAddr port) else none).or
          ((if "BIGMACHINE_SYSTEM" = key then some "local" else none).or
            (if "BIGMACHINE_MODE" = key then some "machine" else none))) := by
    intro key
    have hreverse : lastValue (machineEntries port filename) key =
        getenv (machineEntries port filename).reverse key := rfl
    rw [hreverse]
    simp only [machineEntries, List.reverse_cons, List.reverse_nil, List.nil_append,
      List.cons_append, getenv_cons]
    rw [valueFor_entry (by decide), valueFor_entry (by decide), valueFor_entry (by decide),
      valueFor_entry (by decide)]
    simp [getenv]
  refine ⟨hlast _ _ ?_, hlast _ _ ?_, hlast _ _ ?_, hlast _ _ ?_⟩ <;> rw [hentries] <;> simp

/-- Entries that come after do not change a machine's variables. -/
theorem Marked.append {envs : List String} {port : Nat} {filename : String}
    (h : Marked envs port filename) (environ : List String) :
    Marked (Local.environ envs ++ environ) port filename := by
  have hkeep : ∀ {key value}, getenv envs key = some value →
      getenv (Local.environ envs ++ environ) key = some value := by
    intro key value hkey
    rw [getenv_append, getenv_environ, hkey, Option.some_or]
  exact ⟨hkeep h.mode, hkeep h.system, hkeep h.addr, hkeep h.authority⟩

/-- A machine as its starter expects it. -/
structure Placed (filename : String) (p : Process) : Prop where
  marked : Marked p.envs p.port filename
  system : p.system = "local"
  status : p.status = .machine ∨
    (p.status = .serving (portAddr p.port) ∧ p.authorityFilename = filename) ∨
    ∃ err, p.status = .ended err

/-- A program that can run as a driver of the local system. -/
structure Program.RunsLocal (prog : Program) : Prop where
  main : prog.main = "local"
  registered : "local" ∈ prog.systems

theorem lookup_of_getenv {envs : List String} {key value : String}
    (h : getenv envs key = some value) : lookup envs key = value := by
  rw [lookup, h, Option.getD_some]

theorem launch_of_marked {prog : Program} (hprog : prog.RunsLocal) {envs : List String} {port : Nat}
    {filename : String} (h : Marked envs port filename) (tmp : String) :
    Placed filename (prog.launch envs port tmp) := by
  have hrun : prog.launch envs port tmp = run envs port "local" tmp := by
    simp only [Program.launch, lookup_of_getenv h.system, hprog.main]
    split
    · exact if_pos hprog.registered
    · rfl
  have hmode : (run envs port "local" tmp).status = .machine := by
    simp only [run, lookup_of_getenv h.mode]
    decide
  rw [hrun]
  exact ⟨h, rfl, Or.inl hmode⟩

theorem portAddr_ne_empty (port : Nat) : portAddr port ≠ "" := by
  intro h
  have hlen := congrArg String.length h
  simp [portAddr] at hlen

theorem Placed.listenAndServe {filename : String} (hfile : filename ≠ "") {p : Process}
    (h : Placed filename p) : Placed filename p.listenAndServe := by
  have heq : p.listenAndServe =
      { p with authorityFilename := filename, status := .serving (portAddr p.port) } := by
    simp only [Process.listenAndServe, lookup_of_getenv h.marked.addr,
      lookup_of_getenv h.marked.authority, if_neg hfile, if_neg (portAddr_ne_empty _)]
  rw [heq]
  exact ⟨h.marked, h.system, Or.inr (Or.inl ⟨rfl, rfl⟩)⟩

/-- A step of a machine leaves it where it is. -/
theorem Placed.step {P : Package} {prog : Program} (hprog : prog.RunsLocal) {filename : String}
    (hfile : filename ≠ "") {p q : Process} {a : Action} (h : Placed filename p)
    (hstep : p.step P prog a = some q) : Placed filename q := by
  cases a with
  | start i port tmp => cases hstep
  | listen i =>
    simp only [Process.step] at hstep
    split at hstep
    · cases hstep
      exact h.listenAndServe hfile
    · cases hstep
  | fail i err =>
    simp only [Process.step] at hstep
    split at hstep
    · cases hstep
      exact ⟨h.marked, h.system, Or.inr (Or.inr ⟨err, rfl⟩)⟩
    · cases hstep
  | setenv | setargs | setbinary =>
    simp only [Process.step] at hstep
    split at hstep
    · cases hstep
      exact ⟨h.marked, h.system, h.status⟩
    · cases hstep
  | exec i tmp =>
    simp only [Process.step] at hstep
    split at hstep
    · split at hstep
      · rename_i image himage
        cases hstep
        -- the image has the variables of the process, and whatever the driver has sent
        have henv : image.environ = environ p.envs ++ p.supervisor.environ := by
          simp only [Supervisor.Environment.Process.exec] at himage
          split at himage
          · cases himage
          · cases himage
            rfl
        rw [henv]
        exact launch_of_marked hprog (h.marked.append _) tmp
      · cases hstep
        exact h
    · cases hstep

/-- The driver, and the machines. -/
structure Inv (filename : String) (s : World) : Prop where
  driver : ∃ d, s[0]? = some d ∧ d.status = .driver ∧ d.system = "local" ∧
    d.authorityFilename = filename
  machines : ∀ i p, s[i + 1]? = some p → Placed filename p

/-- Whichever process calls `Start`, its authority is that of the driver. -/
theorem Inv.authority {filename : String} {s : World} (h : Inv filename s) {i : Nat} {p : Process}
    (hp : s[i]? = some p) (hstarts : p.starts = true) : p.authorityFilename = filename := by
  cases i with
  | zero =>
    obtain ⟨d, hd, -, -, hfile⟩ := h.driver
    cases hd.symm.trans hp
    exact hfile
  | succ i =>
    have hplaced := h.machines i p hp
    rcases hplaced.status with hs | hs | ⟨err, hs⟩
    · simp [Process.starts, hs] at hstarts
    · exact hs.2
    · simp [Process.starts, hs] at hstarts

/-- The driver does nothing but start machines. -/
theorem driver_step {P : Package} {prog : Program} {d q : Process} {a : Action}
    (hd : d.status = .driver) : d.step P prog a ≠ some q := by
  cases a <;> simp [Process.step, Process.serves, hd]

theorem Inv.start {prog : Program} (hprog : prog.RunsLocal) {filename : String} {s : World}
    (h : Inv filename s) {i : Nat} {p : Process} (hp : s[i]? = some p) (hstarts : p.starts = true)
    (port : Nat) (tmp : String) :
    Inv filename (s ++ [prog.launch
      (dedupEnv (environ p.envs ++ machineEntries port p.authorityFilename)) port tmp]) := by
  obtain ⟨d, hd, hdriver⟩ := h.driver
  have hpos : 0 < s.length := (List.getElem?_eq_some_iff.mp hd).1
  refine ⟨⟨d, by rw [List.getElem?_append_left hpos, hd], hdriver⟩, fun j q hq => ?_⟩
  by_cases hj : j + 1 < s.length
  · rw [List.getElem?_append_left hj] at hq
    exact h.machines j q hq
  · rw [List.getElem?_append_right (by omega)] at hq
    rw [List.mem_singleton.mp (List.mem_of_getElem? hq), h.authority hp hstarts]
    exact launch_of_marked hprog (marked_start _ _ _) tmp

theorem inv_step {P : Package} {prog : Program} (hprog : prog.RunsLocal) {filename : String}
    (hfile : filename ≠ "") {s t : World} {a : Action} (h : Inv filename s)
    (hstep : step P prog s a = some t) : Inv filename t := by
  obtain ⟨p, hp, hstep⟩ := Option.bind_eq_some_iff.mp hstep
  cases a with
  | start i port tmp =>
    simp only at hstep
    split at hstep
    · rename_i hstarts
      cases hstep
      exact h.start hprog hp hstarts port tmp
    · cases hstep
  | listen | fail | setenv | setargs | setbinary | exec =>
    obtain ⟨q, hq, rfl⟩ := Option.map_eq_some_iff.mp hstep
    obtain ⟨d, hd, hdriver⟩ := h.driver
    generalize Action.index _ = i at hp
    cases i with
    | zero =>
      cases hd.symm.trans hp
      exact absurd hq (driver_step hdriver.1)
    | succ i =>
      have hi : i + 1 < s.length := (List.getElem?_eq_some_iff.mp hp).1
      refine ⟨⟨d, by rw [List.getElem?_set_ne (by omega), hd], hdriver⟩, fun j r hr => ?_⟩
      by_cases hj : j = i
      · subst hj
        rw [List.getElem?_set_self hi] at hr
        cases hr
        exact (h.machines j p hp).step hprog hfile hq
      · rw [List.getElem?_set_ne (by omega)] at hr
        exact h.machines j r hr

theorem inv_init {P : Package} {prog : Program} (hprog : prog.RunsLocal) {env : List String}
    (hmode : lookup env "BIGMACHINE_MODE" = "")
    (hsystem : prog.callsInit = true → lookup env "BIGMACHINE_SYSTEM" = "")
    (filename : String) : Inv filename (system P prog env filename).init := by
  have hlaunch : prog.launch env 0 filename = run env 0 "local" filename := by
    cases hcalls : prog.callsInit with
    | true => simp [Program.launch, hsystem hcalls, hprog.main]
    | false => simp [Program.launch, hcalls, hprog.main]
  refine ⟨⟨_, rfl, ?_⟩, fun i p hp => by simp [system] at hp⟩
  rw [hlaunch]
  exact ⟨by simp [run, hmode], rfl, rfl⟩

/-- **Processes are what their starters expect.** Whatever the environment of the driver, which
says neither that it is a machine nor, if the program calls `Init`, that there is another system,
the ports, and the environments sent to the supervisors: every process that was started is a
machine of the local system, and once it serves, it serves at the address under which its starter
has it, with the authority of the driver. -/
theorem processes_identified (P : Package) (prog : Program) (hprog : prog.RunsLocal)
    (env : List String) (hmode : lookup env "BIGMACHINE_MODE" = "")
    (hsystem : prog.callsInit = true → lookup env "BIGMACHINE_SYSTEM" = "") (filename : String)
    (hfile : filename ≠ "")
    (tr : List Action) (s : World)
    (h : Steps (system P prog env filename) Always (system P prog env filename).init tr s) :
    ∀ i p, s[i + 1]? = some p → p.system = "local" ∧
      (p.status = .machine ∨ (∃ err, p.status = .ended err) ∨
        ∃ addr, p.status = .serving addr ∧ machineAddr p.port = "https://" ++ addr ++ "/" ∧
          p.authorityFilename = filename) := by
  have hinv : Inv filename s := h.invariant (I := Inv filename)
    (fun _ _ _ hi _ hstep => inv_step hprog hfile hi hstep) (inv_init hprog hmode hsystem filename)
  intro i p hp
  have hplaced := hinv.machines i p hp
  refine ⟨hplaced.system, ?_⟩
  rcases hplaced.status with hs | hs | hs
  · exact Or.inl hs
  · exact Or.inr (Or.inr ⟨_, hs.1, rfl, hs.2⟩)
  · exact Or.inr (Or.inl hs)

/-- The driver has an address and an authority in its environment, and sends others with `Setenv`;
the machine starts one more. -/
theorem processes_identified_nested :
    ∃ s, Steps
        (system Reference.package ⟨true, ["local"], "local"⟩
          ["BIGMACHINE_ADDR=:1", "BIGMACHINE_AUTHORITY=/x"] "/tmp/a") Always
        (system Reference.package ⟨true, ["local"], "local"⟩
          ["BIGMACHINE_ADDR=:1", "BIGMACHINE_AUTHORITY=/x"] "/tmp/a").init
        [.start 0 7 "/tmp/b", .listen 1, .setenv 1 ["BIGMACHINE_MODE=x", "BIGMACHINE_ADDR=:2"],
          .setbinary 1 "/tmp/bin", .exec 1 "/tmp/c", .listen 1, .start 1 8 "/tmp/d", .listen 2] s ∧
      s.map (·.status) = [.driver, .serving "localhost:7", .serving "localhost:8"] ∧
      ∀ i p, s[i + 1]? = some p → p.system = "local" ∧
        (p.status = .machine ∨ (∃ err, p.status = .ended err) ∨
          ∃ addr, p.status = .serving addr ∧ machineAddr p.port = "https://" ++ addr ++ "/" ∧
            p.authorityFilename = "/tmp/a") := by
  obtain ⟨s, hs, hstatus⟩ := exists_steps
    (system Reference.package ⟨true, ["local"], "local"⟩
      ["BIGMACHINE_ADDR=:1", "BIGMACHINE_AUTHORITY=/x"] "/tmp/a") Always
    (system Reference.package ⟨true, ["local"], "local"⟩
      ["BIGMACHINE_ADDR=:1", "BIGMACHINE_AUTHORITY=/x"] "/tmp/a").init
    [.start 0 7 "/tmp/b", .listen 1, .setenv 1 ["BIGMACHINE_MODE=x", "BIGMACHINE_ADDR=:2"],
      .setbinary 1 "/tmp/bin", .exec 1 "/tmp/c", .listen 1, .start 1 8 "/tmp/d", .listen 2]
    (fun s => s.map (·.status) = [.driver, .serving "localhost:7", .serving "localhost:8"])
    (by decide +kernel)
  exact ⟨s, hs, hstatus, processes_identified _ _ ⟨rfl, by decide⟩ _ (by decide)
    (fun _ => by decide) _ (by decide) _ s hs⟩

end Bigmachine.Local
