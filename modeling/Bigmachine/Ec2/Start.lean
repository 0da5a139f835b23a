import Bigmachine.Ec2.Images

/-!
# Starting EC2 instances

`System.Start` against an arbitrary EC2 API: every answer of a remote step is a parameter
(`Attempt` for the steps that the retry loop repeats, `Answers` for the others), and the
run-time panics of the source are outcomes of their own (`Fault`).

Two slips show. After `DescribeSpotInstanceRequests` the source compares the number of
requests with itself, and then reads as many entries from the answer. And when
`WaitUntilInstanceRunning` fails, its error is overwritten by that of the `DescribeInstances`
that follows, so `Start` returns neither machines nor an error when that succeeds
(`start_not_correct`). Apart from these, and from a `DescribeInstances` that answers about
other instances than those asked for, `Start` keeps its promise (`start_correct_iff`).
-/

namespace Bigmachine.Ec2

open Errors

structure Instance where
  instanceId : Option String := none
  publicDnsName : Option String := none
  publicIpAddress : Option String := none
  privateIpAddress : Option String := none
  deriving DecidableEq, Repr

/-- What `Start` uses of other packages: package errors, the code of an `awserr.Error`, and
the format `%+v`. -/
structure Sdk where
  errors : Package
  code : Err → Option String
  format : List (List Instance) → String

/-- An `*errors.Error` is not an `awserr.Error`. -/
def Sdk.TellsApart (sdk : Sdk) : Prop := ∀ e : Err, e.IsError → sdk.code e = none

structure Config where
  ami : String
  onDemand : Bool
  vcpu : Nat
  useInstanceIDSuffix : Bool := false

/-- The answers in one round of the retry loop: `limiter` and `retry` are the results of
`limiter.Wait` and `retry.Wait`, `waitUntilFulfilled` that of
`WaitUntilSpotInstanceRequestFulfilled`. Entries of instances and of spot requests are given by the
ids that `Start` reads from them. -/
structure Attempt where
  limiter : Option Err := none
  runInstances : Except Err (List (Option String)) := .ok []
  requestSpotInstances : Except Err (List (Option String)) := .ok []
  waitUntilFulfilled : Option Err := none
  describeSpotInstanceRequests : Except Err (List (Option String)) := .ok []
  retry : Option Err := none

/-- `userData` is the result of `s.cloudConfig().Marshal()`, and `waitUntilRunning` that of
`WaitUntilInstanceRunning`. `DescribeInstances` is called once, whatever the wait said. -/
structure Answers where
  userData : Option Err := none
  describeImages : Except Err (List Image)
  waitUntilRunning : Option Err := none
  describeInstances : Except Err (List (List Instance))

structure Machine where
  addr : String
  maxprocs : Nat
  deriving DecidableEq, Repr

inductive Fault
  | indexOutOfRange
  | nilPointer
  | noImage (ami : String) -- `panic(s.AMI)`
  deriving DecidableEq, Repr

/-! ## Launching -/

/-- `*p`. -/
def deref : Option String → Except Fault String
  | some id => .ok id
  | none => .error .nilPointer

/-- `run` for instances on demand. -/
def runOnDemand (sdk : Sdk) (a : Attempt) : Except Fault (Except Err (List String)) :=
  match a.runInstances with
  | .error e => .ok (.error (sdk.errors.E [.text "run-instances", .err e]))
  | .ok instances =>
    if instances.length = 0 then
      .ok (.error (sdk.errors.E [.kind .invalid, .text "expected at least 1 instance"]))
    else (instances.mapM deref).map .ok

/-- The instance id of the `i`-th entry of a description. -/
def entry (entries : List (Option String)) (i : Nat) : Except Fault String :=
  match entries[i]? with
  | some id => .ok (id.getD "")
  | none => .error .indexOutOfRange

/-- `run` for spot instances. -/
def runSpot (sdk : Sdk) (a : Attempt) : Except Fault (Except Err (List String)) :=
  match a.requestSpotInstances with
  | .error e => .ok (.error (sdk.errors.E [.text "request-spot-instances", .err e]))
  | .ok requests =>
    if requests.length = 0 then
      .ok (.error (sdk.errors.E [.kind .invalid,
        .text "ec2.RequestSpotInstances: got 0 entries"]))
    else
      let n := requests.length
      let ids := requests -- `describeInput.SpotInstanceRequestIds`
      match a.waitUntilFulfilled with
      | some e =>
        .ok (.error (sdk.errors.E [.text "wait-until-spot-instance-request-fulfilled", .err e]))
      | none =>
        match a.describeSpotInstanceRequests with
        | .error e =>
          .ok (.error (sdk.errors.E [.text "describe-spot-instance-requests", .err e]))
        | .ok entries =>
          if n ≠ ids.length then
            .ok (.error (.text ("ec2.DescribeSpotInstanceRequests: got " ++ toString n ++
              " entries, want " ++ toString ids.length)))
          else ((List.range n).mapM (entry entries)).map .ok

def run (sdk : Sdk) (cfg : Config) (a : Attempt) : Except Fault (Except Err (List String)) :=
  if cfg.onDemand then runOnDemand sdk a else runSpot sdk a

/-- What the retry loop has done: the attempts whose request it has issued, and its outcome,
`none` when the answers have run out. -/
structure LaunchLoop where
  issued : List Attempt
  outcome : Option (Except Fault (Except Err (List String)))

/-- The retry loop. -/
def launchLoop (sdk : Sdk) (cfg : Config) : List Attempt → LaunchLoop
  | [] => ⟨[], none⟩
  | a :: attempts =>
    match a.limiter with
    | some e => ⟨[], some (.ok (.error e))⟩
    | none =>
      match run sdk cfg a with
      | .error f => ⟨[a], some (.error f)⟩
      | .ok (.ok ids) => ⟨[a], some (.ok (.ok ids))⟩
      | .ok (.error e) =>
        if sdk.code e = some "RequestLimitExceeded" then
          match a.retry with
          | some e' => ⟨[a], some (.ok (.error e'))⟩
          | none =>
            let rest := launchLoop sdk cfg attempts
            ⟨a :: rest.issued, rest.outcome⟩
        else ⟨[a], some (.ok (.error e))⟩

def launch (sdk : Sdk) (cfg : Config) (attempts : List Attempt) :
    Option (Except Fault (Except Err (List String))) :=
  (launchLoop sdk cfg attempts).outcome

/-! ## From instances to machines -/

def getAddress (i : Instance) : String :=
  (([i.publicDnsName, i.publicIpAddress, i.privateIpAddress].map (·.getD "")).find?
    (· ≠ "")).getD ""

def machine (cfg : Config) (i : Instance) : Machine where
  addr := "https://" ++ getAddress i ++ "/" ++
    (if cfg.useInstanceIDSuffix then i.instanceId.getD "" ++ "/" else "")
  maxprocs := cfg.vcpu

/-- The loop over the described instances, from the `k`-th on. -/
def machines (cfg : Config) (k : Nat) : List Instance → Except Err (List Machine)
  | [] => .ok []
  | i :: rest =>
    if getAddress i = "" then
      .error (.text ("ec2.DescribeInstances " ++ i.instanceId.getD "" ++ "[" ++ toString k ++
        "]: no dns name or ip addresss available"))
    else (machines cfg (k + 1) rest).map (machine cfg i :: ·)

/-- The part of `Start` after the launch: the machines and the error that it returns. -/
def await (sdk : Sdk) (cfg : Config) (ans : Answers) (instanceIds : List String) :
    List Machine × Option Err :=
  match ans.waitUntilRunning with
  | some _ =>
    -- `err` is assigned again before it is returned
    match ans.describeInstances with
    | .error e => ([], some e)
    | .ok _ => ([], none)
  | none =>
    match ans.describeInstances with
    | .error e => ([], some e)
    | .ok reservations =>
      let invalid := sdk.errors.E [.kind .invalid,
        .text ("ec2.DescribeInstances: invalid output: " ++ sdk.format reservations)]
      match reservations with
      | [instances] =>
        if instances.length ≠ instanceIds.length then ([], some invalid)
        else
          match machines cfg 0 instances with
          | .error e => ([], some e)
          | .ok ms => (ms, none)
      | _ => ([], some invalid)

/-- `Start`, with the caches it leaves. -/
def start (sdk : Sdk) (cfg : Config) (c : Cache) (ans : Answers) (attempts : List Attempt) :
    Cache × Option (Except Fault (List Machine × Option Err)) :=
  match ans.userData with
  | some e =>
    (c, some (.ok ([], some (.text ("failed to marshal cloud-config: " ++
      sdk.errors.errorText e)))))
  | none =>
    let r := c.lookup sdk.errors cfg.ami ans.describeImages
    match r.2 with
    | some e =>
      (r.1.failed cfg.ami e,
        some (.ok ([], some (sdk.errors.E [.text "describe-images", .text cfg.ami, .err e]))))
    | none =>
      match r.1.imageInfo cfg.ami with
      | none => (r.1, some (.error (.noImage cfg.ami)))
      | some _ =>
        (r.1, (launch sdk cfg attempts).map fun l => l.map fun
          | .error e => ([], some e)
          | .ok instanceIds => await sdk cfg ans instanceIds)

/-! ## What the API has done -/

/-- The API has launched instances; `entries` are their ids as `run` finds them. -/
def Launched (cfg : Config) (a : Attempt) (entries : List (Option String)) : Prop :=
  if cfg.onDemand then
    a.runInstances = .ok entries ∧ entries ≠ [] ∧ none ∉ entries
  else
    ∃ requests described, a.requestSpotInstances = .ok requests ∧ requests ≠ [] ∧
      a.waitUntilFulfilled = none ∧ a.describeSpotInstanceRequests = .ok described ∧
      requests.length ≤ described.length ∧ entries = described.take requests.length

/-- The description of the spot requests has fewer entries than there are requests. -/
def Short (cfg : Config) (a : Attempt) : Prop :=
  cfg.onDemand = false ∧ ∃ requests described, a.requestSpotInstances = .ok requests ∧
    a.waitUntilFulfilled = none ∧ a.describeSpotInstanceRequests = .ok described ∧
    described.length < requests.length

/-- `RunInstances` returns an instance without an id. -/
def MissingId (cfg : Config) (a : Attempt) : Prop :=
  cfg.onDemand = true ∧ ∃ entries, a.runInstances = .ok entries ∧ none ∈ entries

/-- A remote step of `run` has failed. -/
def RunFailed (cfg : Config) (a : Attempt) : Prop :=
  if cfg.onDemand then ∃ e, a.runInstances = .error e
  else
    (∃ e, a.requestSpotInstances = .error e) ∨
    ∃ requests, a.requestSpotInstances = .ok requests ∧ requests ≠ [] ∧
      (a.waitUntilFulfilled ≠ none ∨ ∃ e, a.describeSpotInstanceRequests = .error e)

theorem mapM_entry (entries : List (Option String)) (n : Nat) :
    (List.range n).mapM (entry entries) =
      if n ≤ entries.length then .ok ((entries.take n).map (·.getD ""))
      else .error .indexOutOfRange := by
  induction n with
  | zero => rfl
  | succ n ih =>
    rw [List.range_succ, List.mapM_append, ih]
    by_cases hn : n + 1 ≤ entries.length
    · have hget : entries[n]? = some entries[n] := List.getElem?_eq_getElem hn
      have hlast : [n].mapM (entry entries) = .ok [entries[n].getD ""] := by
        simp [entry, hget]
      rw [if_pos (by omega), if_pos hn, hlast, List.take_add_one, hget, List.map_append]
      rfl
    · rw [if_neg hn]
      split
      · have hget : entries[n]? = none := List.getElem?_eq_none (by omega)
        simp [entry, hget]
        rfl
      · rfl

theorem mapM_deref (entries : List (Option String)) :
    entries.mapM deref =
      if none ∈ entries then .error .nilPointer else .ok (entries.map (·.getD "")) := by
  induction entries with
  | nil => rfl
  | cons e entries ih =>
    rw [List.mapM_cons, ih]
    cases e with
    | none => simp [deref]; rfl
    | some id =>
      by_cases h : none ∈ entries
      · simp [deref, h]; rfl
      · simp [deref, h]; rfl

theorem run_of_launched (sdk : Sdk) {cfg : Config} {a : Attempt} {entries : List (Option String)}
    (h : Launched cfg a entries) : run sdk cfg a = .ok (.ok (entries.map (·.getD ""))) := by
  unfold Launched at h
  unfold run
  split at h
  · rename_i hd
    obtain ⟨hrun, hne, hids⟩ := h
    rw [if_pos hd, runOnDemand, hrun]
    simp [hne, mapM_deref, hids, Except.map]
  · rename_i hd
    obtain ⟨requests, described, hreq, hne, hwait, hdesc, hlen, rfl⟩ := h
    rw [if_neg hd, runSpot, hreq, hwait, hdesc]
    simp [hne, mapM_entry, hlen, Except.map]

theorem run_of_short (sdk : Sdk) {cfg : Config} {a : Attempt} (h : Short cfg a) :
    run sdk cfg a = .error .indexOutOfRange := by
  obtain ⟨hd, requests, described, hreq, hwait, hdesc, hlen⟩ := h
  have hne : requests ≠ [] := by
    rintro rfl
    simp at hlen
  rw [run, hd, runSpot, hreq, hwait, hdesc]
  simp [hne, mapM_entry, not_le.mpr hlen, Except.map]

theorem run_of_missingId (sdk : Sdk) {cfg : Config} {a : Attempt} (h : MissingId cfg a) :
    run sdk cfg a = .error .nilPointer := by
  obtain ⟨hd, entries, hrun, hnone⟩ := h
  have hne : entries ≠ [] := List.ne_nil_of_mem hnone
  rw [run, if_pos hd, runOnDemand, hrun]
  simp [hne, hnone, mapM_deref, Except.map]

theorem run_of_failed (sdk : Sdk) {cfg : Config} {a : Attempt} (h : RunFailed cfg a) :
    ∃ e, run sdk cfg a = .ok (.error e) := by
  unfold RunFailed at h
  unfold run
  split at h
  · rename_i hd
    obtain ⟨e, he⟩ := h
    rw [if_pos hd, runOnDemand, he]
    exact ⟨_, rfl⟩
  · rename_i hd
    rw [if_neg hd, runSpot]
    rcases h with ⟨e, he⟩ | ⟨requests, hreq, hne, hfail⟩
    · rw [he]
      exact ⟨_, rfl⟩
    · rw [hreq]
      simp only [List.length_eq_zero_iff, hne, if_false]
      cases hwait : a.waitUntilFulfilled with
      | some e => exact ⟨_, rfl⟩
      | none =>
        obtain ⟨e, he⟩ := hfail.resolve_left (by simp [hwait])
        rw [he]
        exact ⟨_, rfl⟩

/-- `run` has no other outcomes: it returns the ids of launched instances, it returns an
`*errors.Error`, or it panics for one of two reasons. -/
theorem run_cases (sdk : Sdk) (hE : sdk.errors.ReturnsError) (cfg : Config) (a : Attempt) :
    (∃ entries, Launched cfg a entries) ∨
    (∃ e, e.IsError ∧ run sdk cfg a = .ok (.error e)) ∨ Short cfg a ∨ MissingId cfg a := by
  unfold run Launched
  cases hd : cfg.onDemand with
  | true =>
    simp only [if_true, runOnDemand]
    cases hrun : a.runInstances with
    | error e => exact Or.inr (Or.inl ⟨_, hE _, rfl⟩)
    | ok entries =>
      by_cases hne : entries = []
      · right; left
        simp only [hne, List.length_nil, if_true]
        exact ⟨_, hE _, rfl⟩
      · by_cases hids : none ∈ entries
        · exact Or.inr (Or.inr (Or.inr ⟨hd, entries, hrun, hids⟩))
        · exact Or.inl ⟨entries, rfl, hne, hids⟩
  | false =>
    simp only [Bool.false_eq_true, if_false, runSpot]
    cases hreq : a.requestSpotInstances with
    | error e => exact Or.inr (Or.inl ⟨_, hE _, rfl⟩)
    | ok requests =>
      by_cases hne : requests = []
      · right; left
        simp only [hne, List.length_nil, if_true]
        exact ⟨_, hE _, rfl⟩
      · simp only [List.length_eq_zero_iff, hne, if_false]
        cases hwait : a.waitUntilFulfilled with
        | some e => exact Or.inr (Or.inl ⟨_, hE _, rfl⟩)
        | none =>
          cases hdesc : a.describeSpotInstanceRequests with
          | error e => exact Or.inr (Or.inl ⟨_, hE _, rfl⟩)
          | ok described =>
            by_cases hlen : requests.length ≤ described.length
            · exact Or.inl ⟨_, requests, described, rfl, hne, rfl, rfl, hlen, rfl⟩
            · exact Or.inr (Or.inr (Or.inl
                ⟨hd, requests, described, hreq, hwait, hdesc, not_le.mp hlen⟩))

theorem Launched.unique {cfg : Config} {a : Attempt} {entries entries' : List (Option String)}
    (h : Launched cfg a entries) (h' : Launched cfg a entries') : entries = entries' := by
  unfold Launched at h h'
  split at h
  · rename_i hd
    rw [if_pos hd] at h'
    exact Except.ok.inj (h.1.symm.trans h'.1)
  · rename_i hd
    rw [if_neg hd] at h'
    obtain ⟨requests, described, hreq, -, -, hdesc, -, rfl⟩ := h
    obtain ⟨requests', described', hreq', -, -, hdesc', -, rfl⟩ := h'
    rw [Except.ok.inj (hreq.symm.trans hreq'), Except.ok.inj (hdesc.symm.trans hdesc')]

theorem Launched.ne_nil {cfg : Config} {a : Attempt} {entries : List (Option String)}
    (h : Launched cfg a entries) : entries ≠ [] := by
  unfold Launched at h
  split at h
  · exact h.2.1
  · obtain ⟨requests, described, -, hne, -, -, hlen, rfl⟩ := h
    intro hnil
    have hlen0 : (described.take requests.length).length = 0 := by rw [hnil]; rfl
    rw [List.length_take, Nat.min_eq_left hlen] at hlen0
    exact hne (List.length_eq_zero_iff.mp hlen0)

/-- The errors of `run` are no `awserr.Error`s, so the loop ends with its first request. -/
theorem launchLoop_cons {sdk : Sdk} (hE : sdk.errors.ReturnsError) (hsdk : sdk.TellsApart)
    (cfg : Config) {a : Attempt} (attempts : List Attempt) (ha : a.limiter = none) :
    launchLoop sdk cfg (a :: attempts) = ⟨[a], some (run sdk cfg a)⟩ := by
  simp only [launchLoop, ha]
  rcases run_cases sdk hE cfg a with ⟨entries, hl⟩ | ⟨e, he, hrun⟩ | hshort | hmiss
  · rw [run_of_launched sdk hl]
  · rw [hrun]
    simp [hsdk e he]
  · rw [run_of_short sdk hshort]
  · rw [run_of_missingId sdk hmiss]

/-! ## Machines for instances -/

theorem machines_eq {cfg : Config} {instances : List Instance} (k : Nat)
    (h : ∀ i ∈ instances, getAddress i ≠ "") :
    machines cfg k instances = .ok (instances.map (machine cfg)) := by
  induction instances generalizing k with
  | nil => rfl
  | cons i rest ih =>
    rw [List.forall_mem_cons] at h
    rw [machines, if_neg h.1, ih (k + 1) h.2]
    rfl

theorem machines_error {cfg : Config} {instances : List Instance} (k : Nat)
    (h : ¬ ∀ i ∈ instances, getAddress i ≠ "") : ∃ e, machines cfg k instances = .error e := by
  induction instances generalizing k with
  | nil => exact absurd (by simp) h
  | cons i rest ih =>
    rw [machines]
    split
    · exact ⟨_, rfl⟩
    · rename_i haddr
      obtain ⟨e, he⟩ := ih (k + 1) fun hrest => h (List.forall_mem_cons.mpr ⟨haddr, hrest⟩)
      rw [he]
      exact ⟨e, rfl⟩

/-- The description that `await` accepts: one reservation, as many instances as ids, each
with an address. -/
def Accepted (ans : Answers) (n : Nat) (instances : List Instance) : Prop :=
  ans.waitUntilRunning = none ∧ ans.describeInstances = .ok [instances] ∧
    instances.length = n ∧ ∀ i ∈ instances, getAddress i ≠ ""

theorem await_of_accepted (sdk : Sdk) {cfg : Config} {ans : Answers} {ids : List String}
    {instances : List Instance} (h : Accepted ans ids.length instances) :
    await sdk cfg ans ids = (instances.map (machine cfg), none) := by
  obtain ⟨hwait, hdesc, hlen, haddr⟩ := h
  simp [await, hwait, hdesc, hlen, machines_eq 0 haddr]

/-- Without an accepted description `await` fails, unless the wait has failed and the
description after it has not. -/
theorem await_of_not_accepted (sdk : Sdk) (cfg : Config) {ans : Answers} {ids : List String}
    (h : ∀ instances, ¬ Accepted ans ids.length instances)
    (hwait : ans.waitUntilRunning ≠ none → ∃ e, ans.describeInstances = .error e) :
    ∃ e, await sdk cfg ans ids = ([], some e) := by
  unfold await
  cases hrun : ans.waitUntilRunning with
  | some e =>
    obtain ⟨e', he⟩ := hwait (by simp [hrun])
    rw [he]
    exact ⟨e', rfl⟩
  | none =>
    cases hdesc : ans.describeInstances with
    | error e => exact ⟨e, rfl⟩
    | ok reservations =>
      match reservations with
      | [] => exact ⟨_, rfl⟩
      | _ :: _ :: _ => exact ⟨_, rfl⟩
      | [instances] =>
        dsimp only
        split
        · exact ⟨_, rfl⟩
        · rename_i hlen
          obtain ⟨e, he⟩ := machines_error 0 fun haddr =>
            h instances ⟨hrun, hdesc, not_not.mp hlen, haddr⟩
          rw [he]
          exact ⟨e, rfl⟩

/-! ## The promise of `Start` -/

/-- `Start` gets to its first launch. -/
structure Reached (sdk : Sdk) (cfg : Config) (c : Cache) (ans : Answers) (a : Attempt) : Prop where
  userData : ans.userData = none
  lookup : (c.lookup sdk.errors cfg.ami ans.describeImages).2 = none
  image : (c.lookup sdk.errors cfg.ami ans.describeImages).1.imageInfo cfg.ami ≠ none
  limiter : a.limiter = none

/-- A remote step that `Start` has called and needs has failed. -/
def StepFailed (sdk : Sdk) (cfg : Config) (c : Cache) (ans : Answers) (a : Attempt) : Prop :=
  (ans.userData = none ∧ (c.lookup sdk.errors cfg.ami ans.describeImages).2 ≠ none) ∨
  (Reached sdk cfg c ans a ∧ (RunFailed cfg a ∨
    ∃ entries, Launched cfg a entries ∧
      (ans.waitUntilRunning ≠ none ∨ ∃ e, ans.describeInstances = .error e)))

/-- There is one machine for each launched instance: the machines are those of the described
instances, which all have an address and are the launched ones. -/
def OnePerInstance (cfg : Config) (ans : Answers) (a : Attempt) (ms : List Machine) : Prop :=
  ∃ entries instances, Launched cfg a entries ∧ ans.describeInstances = .ok [instances] ∧
    ms = instances.map (machine cfg) ∧ (∀ i ∈ instances, getAddress i ≠ "") ∧
    (instances.map (·.instanceId)).Perm ((entries.filterMap id).map some)

structure Correct (sdk : Sdk) (cfg : Config) (c : Cache) (ans : Answers) (a : Attempt)
    (outcome : Except Fault (List Machine × Option Err)) : Prop where
  inRange : outcome ≠ .error .indexOutOfRange
  started : ∀ ms, outcome = .ok (ms, none) → ms ≠ [] ∧ OnePerInstance cfg ans a ms
  failed : StepFailed sdk cfg c ans a → ∃ ms e, outcome = .ok (ms, some e)

/-- The description of the spot requests is complete, a failed `WaitUntilInstanceRunning` is
followed by a failed `DescribeInstances`, and a description that `Start` accepts is about the
launched instances. -/
structure Cooperates (cfg : Config) (ans : Answers) (a : Attempt) : Prop where
  complete : ¬ Short cfg a
  consistent : ∀ entries, Launched cfg a entries → ans.waitUntilRunning ≠ none →
    ∃ e, ans.describeInstances = .error e
  honest : ∀ entries instances, Launched cfg a entries →
    Accepted ans entries.length instances →
    (instances.map (·.instanceId)).Perm ((entries.filterMap id).map some)

/-- The outcome of `Start` once it has reached its first launch. -/
theorem start_of_reached {sdk : Sdk} (hE : sdk.errors.ReturnsError) (hsdk : sdk.TellsApart)
    {cfg : Config} {c : Cache} {ans : Answers} {a : Attempt} (attempts : List Attempt)
    (h : Reached sdk cfg c ans a) :
    (start sdk cfg c ans (a :: attempts)).2 = some ((run sdk cfg a).map fun
      | .error e => ([], some e)
      | .ok instanceIds => await sdk cfg ans instanceIds) := by
  obtain ⟨image, himage⟩ := Option.ne_none_iff_exists'.mp h.image
  simp only [start, h.userData, h.lookup, himage, launch,
    launchLoop_cons hE hsdk cfg attempts h.limiter]
  rfl

/-- Before that, `Start` fails or panics for want of an image. -/
theorem start_of_not_reached {sdk : Sdk} {cfg : Config} {c : Cache} {ans : Answers} {a : Attempt}
    (attempts : List Attempt) (h : ¬ Reached sdk cfg c ans a) :
    (∃ e, (start sdk cfg c ans (a :: attempts)).2 = some (.ok ([], some e))) ∨
    ((c.lookup sdk.errors cfg.ami ans.describeImages).2 = none ∧
      (start sdk cfg c ans (a :: attempts)).2 = some (.error (.noImage cfg.ami))) := by
  cases hdata : ans.userData with
  | some e =>
    simp only [start, hdata]
    exact Or.inl ⟨_, rfl⟩
  | none =>
    cases hlookup : (c.lookup sdk.errors cfg.ami ans.describeImages).2 with
    | some e =>
      simp only [start, hdata, hlookup]
      exact Or.inl ⟨_, rfl⟩
    | none =>
      cases himage : (c.lookup sdk.errors cfg.ami ans.describeImages).1.imageInfo cfg.ami with
      | none =>
        simp only [start, hdata, hlookup, himage]
        exact Or.inr ⟨trivial, trivial⟩
      | some image =>
        cases hlimiter : a.limiter with
        | some e =>
          simp only [start, hdata, hlookup, himage, launch, launchLoop, hlimiter]
          exact Or.inl ⟨e, rfl⟩
        | none => exact absurd ⟨hdata, hlookup, by simp [himage], hlimiter⟩ h

/-- An error returned is always correct. -/
theorem correct_of_error (sdk : Sdk) (cfg : Config) (c : Cache) (ans : Answers) (a : Attempt)
    (ms : List Machine) (e : Err) : Correct sdk cfg c ans a (.ok (ms, some e)) := by
  refine ⟨by simp, fun ms' h => ?_, fun _ => ⟨ms, e, rfl⟩⟩
  cases h

/-- When nothing is launched and no description is short, the API cooperates. -/
theorem cooperates_of_run (sdk : Sdk) {cfg : Config} (ans : Answers) {a : Attempt}
    (hshort : run sdk cfg a ≠ .error .indexOutOfRange)
    (hids : ∀ ids, run sdk cfg a ≠ .ok (.ok ids)) : Cooperates cfg ans a where
  complete h := hshort (run_of_short sdk h)
  consistent _ hl := absurd (run_of_launched sdk hl) (hids _)
  honest _ _ hl := absurd (run_of_launched sdk hl) (hids _)

theorem cooperates_of_correct {sdk : Sdk} {cfg : Config} {c : Cache} {ans : Answers} {a : Attempt}
    {entries : List (Option String)} (hr : Reached sdk cfg c ans a) (hl : Launched cfg a entries)
    (h : Correct sdk cfg c ans a (.ok (await sdk cfg ans (entries.map (·.getD ""))))) :
    Cooperates cfg ans a := by
  refine ⟨fun hshort => ?_, ?_, ?_⟩
  · have hrun := run_of_short sdk hshort
    rw [run_of_launched sdk hl] at hrun
    cases hrun
  · intro entries' _ hwait
    obtain ⟨ms, e, houtcome⟩ := h.failed (Or.inr ⟨hr, Or.inr ⟨entries, hl, Or.inl hwait⟩⟩)
    obtain ⟨e', he'⟩ := Option.ne_none_iff_exists'.mp hwait
    cases hdesc : ans.describeInstances with
    | error e => exact ⟨e, rfl⟩
    | ok reservations => simp [await, he', hdesc] at houtcome
  · intro entries' instances hl' hacc
    cases hl.unique hl'
    have hacc' : Accepted ans (entries.map (·.getD "")).length instances := by simpa using hacc
    rw [await_of_accepted sdk hacc'] at h
    obtain ⟨-, entries', instances', hl', hdesc', -, -, hperm⟩ := h.started _ rfl
    cases hl.unique hl'
    have hinst : instances' = instances := by
      rw [hacc.2.1] at hdesc'
      simpa using hdesc'.symm
    exact hinst ▸ hperm

theorem correct_of_cooperates {sdk : Sdk} {cfg : Config} {c : Cache} {ans : Answers} {a : Attempt}
    {entries : List (Option String)} (hr : Reached sdk cfg c ans a) (hl : Launched cfg a entries)
    (h : Cooperates cfg ans a) :
    Correct sdk cfg c ans a (.ok (await sdk cfg ans (entries.map (·.getD "")))) := by
  by_cases hacc : ∃ instances, Accepted ans entries.length instances
  · obtain ⟨instances, hacc⟩ := hacc
    have hacc' : Accepted ans (entries.map (·.getD "")).length instances := by simpa using hacc
    rw [await_of_accepted sdk hacc']
    refine ⟨by simp, fun ms hms => ?_, fun hfailed => ?_⟩
    · cases hms
      refine ⟨?_, entries, instances, hl, hacc.2.1, rfl, hacc.2.2.2,
        h.honest entries instances hl hacc⟩
      intro hnil
      have hlen : entries.length = 0 := by
        rw [← hacc.2.2.1, List.map_eq_nil_iff.mp hnil, List.length_nil]
      exact hl.ne_nil (List.length_eq_zero_iff.mp hlen)
    · -- nothing has failed when a description is accepted
      exfalso
      rcases hfailed with ⟨-, hlookup⟩ | ⟨-, hrun | ⟨-, -, hwait | ⟨e, he⟩⟩⟩
      · exact hlookup hr.lookup
      · obtain ⟨e, he⟩ := run_of_failed sdk hrun
        rw [run_of_launched sdk hl] at he
        cases he
      · exact hwait hacc.1
      · rw [hacc.2.1] at he
        cases he
  · have hnot : ∀ instances, ¬ Accepted ans (entries.map (·.getD "")).length instances :=
      fun instances hi => hacc ⟨instances, by simpa using hi⟩
    obtain ⟨e, he⟩ := await_of_not_accepted sdk cfg hnot (h.consistent entries hl)
    rw [he]
    exact correct_of_error sdk cfg c ans a [] e

/-- The equivalence once `Start` has reached its first launch. -/
theorem correct_iff_of_reached {sdk : Sdk} (hE : sdk.errors.ReturnsError) {cfg : Config}
    {c : Cache} {ans : Answers} {a : Attempt} (hr : Reached sdk cfg c ans a) :
    Correct sdk cfg c ans a ((run sdk cfg a).map fun
      | .error e => ([], some e)
      | .ok instanceIds => await sdk cfg ans instanceIds) ↔ Cooperates cfg ans a := by
  rcases run_cases sdk hE cfg a with ⟨entries, hl⟩ | ⟨e, -, hrun⟩ | hshort | hmiss
  · rw [run_of_launched sdk hl]
    exact ⟨cooperates_of_correct hr hl, correct_of_cooperates hr hl⟩
  · have hcoop : Cooperates cfg ans a :=
      cooperates_of_run sdk ans (by simp [hrun]) (by simp [hrun])
    rw [hrun]
    exact ⟨fun _ => hcoop, fun _ => correct_of_error sdk cfg c ans a [] e⟩
  · rw [run_of_short sdk hshort]
    exact ⟨fun h => absurd rfl h.inRange, fun h => absurd hshort h.complete⟩
  · have hrun := run_of_missingId sdk hmiss
    have hcoop : Cooperates cfg ans a :=
      cooperates_of_run sdk ans (by simp [hrun]) (by simp [hrun])
    refine ⟨fun _ => hcoop, fun _ => ?_⟩
    rw [hrun]
    refine ⟨by simp [Except.map], fun ms hms => ?_, ?_⟩
    · cases hms
    · rintro (⟨-, hlookup⟩ | ⟨-, hfailed | ⟨entries, hl, -⟩⟩)
      · exact absurd hr.lookup hlookup
      · obtain ⟨e, he⟩ := run_of_failed sdk hfailed
        rw [hrun] at he
        cases he
      · rw [run_of_launched sdk hl] at hrun
        cases hrun

theorem run_nilPointer_iff {sdk : Sdk} (hE : sdk.errors.ReturnsError) {cfg : Config}
    {a : Attempt} : run sdk cfg a = .error .nilPointer ↔ MissingId cfg a := by
  refine ⟨fun hrun => ?_, run_of_missingId sdk⟩
  rcases run_cases sdk hE cfg a with ⟨entries, hl⟩ | ⟨e, -, hrun'⟩ | hshort | hmiss
  · rw [run_of_launched sdk hl] at hrun
    cases hrun
  · rw [hrun'] at hrun
    cases hrun
  · rw [run_of_short sdk hshort] at hrun
    cases hrun
  · exact hmiss

/-- **Starting EC2 instances.** Against any API, `Start` comes to an outcome. It stays in
range, returns without error only with one machine for each launched instance, and returns an
error whenever a remote step has failed, exactly when the API cooperates once `Start` gets to
its first launch. It dereferences a nil pointer exactly when `RunInstances` returns an instance
without an id. -/
theorem start_correct_iff (sdk : Sdk) (hE : sdk.errors.ReturnsError) (hsdk : sdk.TellsApart)
    (cfg : Config) (c : Cache) (ans : Answers) (a : Attempt) (attempts : List Attempt) :
    ∃ outcome, (start sdk cfg c ans (a :: attempts)).2 = some outcome ∧
      (Correct sdk cfg c ans a outcome ↔ (Reached sdk cfg c ans a → Cooperates cfg ans a)) ∧
      (outcome = .error .nilPointer ↔ Reached sdk cfg c ans a ∧ MissingId cfg a) := by
  by_cases hr : Reached sdk cfg c ans a
  · refine ⟨_, start_of_reached hE hsdk attempts hr, ?_⟩
    constructor
    · rw [forall_prop_of_true hr]
      exact correct_iff_of_reached hE hr
    · rw [and_iff_right hr, ← run_nilPointer_iff hE]
      cases run sdk cfg a <;> simp [Except.map]
  · rcases start_of_not_reached attempts hr with ⟨e, he⟩ | ⟨hlookup, himage⟩
    · refine ⟨_, he, ⟨fun _ hr' => absurd hr' hr, fun _ => correct_of_error sdk cfg c ans a [] e⟩,
        ?_⟩
      simp [hr]
    · refine ⟨_, himage, ⟨fun _ hr' => absurd hr' hr, fun _ => ⟨by simp, ?_, ?_⟩⟩, by simp [hr]⟩
      · intro ms hms
        cases hms
      · rintro (⟨-, hlookup'⟩ | ⟨hr', -⟩)
        · exact absurd hlookup hlookup'
        · exact absurd hr' hr

/-! ## Concrete answers -/

namespace Reference

def sdk : Sdk where
  errors := Errors.Reference.package
  code _ := none
  format _ := ""

theorem sdk_tellsApart : sdk.TellsApart := fun _ _ => rfl

def image : Except Err (List Image) := .ok [⟨some "ami-1"⟩]

def host : Instance := { instanceId := some "i-1", publicDnsName := some "host-1" }

end Reference

/-- One instance on demand, running and described. -/
theorem start_correct_iff_on_demand :
    ∃ outcome, (start Reference.sdk ⟨"ami-1", true, 4, false⟩ {}
        ⟨none, Reference.image, none, .ok [[Reference.host]]⟩
        [{ runInstances := .ok [some "i-1"] }]).2 = some outcome ∧
      Correct Reference.sdk ⟨"ami-1", true, 4, false⟩ {}
        ⟨none, Reference.image, none, .ok [[Reference.host]]⟩
        { runInstances := .ok [some "i-1"] } outcome := by
  obtain ⟨outcome, hstart, hiff, -⟩ := start_correct_iff Reference.sdk
    Errors.Reference.returnsError Reference.sdk_tellsApart ⟨"ami-1", true, 4, false⟩ {}
    ⟨none, Reference.image, none, .ok [[Reference.host]]⟩ { runInstances := .ok [some "i-1"] } []
  refine ⟨outcome, hstart, hiff.mpr fun _ => ⟨?_, ?_, ?_⟩⟩
  · rintro ⟨hd, -⟩
    cases hd
  · intro _ _ hwait
    exact absurd rfl hwait
  · rintro entries instances hl ⟨-, hdesc, -, -⟩
    cases hl.1
    cases hdesc
    exact List.Perm.refl _

/-- Two spot requests of which one is described; and an instance that does not come up in
time. -/
theorem start_not_correct :
    (∃ outcome, (start Reference.sdk ⟨"ami-1", false, 4, false⟩ {}
        ⟨none, Reference.image, none, .ok [[Reference.host]]⟩
        [{ requestSpotInstances := .ok [some "r-1", some "r-2"],
           describeSpotInstanceRequests := .ok [some "i-1"] }]).2 = some outcome ∧
      ¬ Correct Reference.sdk ⟨"ami-1", false, 4, false⟩ {}
        ⟨none, Reference.image, none, .ok [[Reference.host]]⟩
        { requestSpotInstances := .ok [some "r-1", some "r-2"],
          describeSpotInstanceRequests := .ok [some "i-1"] } outcome) ∧
    ∃ outcome, (start Reference.sdk ⟨"ami-1", true, 4, false⟩ {}
        ⟨none, Reference.image, some (.ctx .deadlineExceeded), .ok [[Reference.host]]⟩
        [{ runInstances := .ok [some "i-1"] }]).2 = some outcome ∧
      ¬ Correct Reference.sdk ⟨"ami-1", true, 4, false⟩ {}
        ⟨none, Reference.image, some (.ctx .deadlineExceeded), .ok [[Reference.host]]⟩
        { runInstances := .ok [some "i-1"] } outcome := by
  constructor
  · refine ⟨.error .indexOutOfRange, rfl, fun h => ?_⟩
    exact h.inRange rfl
  · refine ⟨.ok ([], none), rfl, fun h => ?_⟩
    exact (h.started [] rfl).1 rfl

end Bigmachine.Ec2
