import Bigmachine.Transition.System

/-!
# The cache of HTTP clients

`rpc.Client` keeps one `clientState` for each address. A call takes the one for its address,
making it when there is none, and uses its HTTP client; when the call ends, `updateClientState`
removes the `clientState` from the map if the call has failed and it is still there, and closes
the idle connections of every `clientState` that is not there. The `clientState`s are numbered
in the order in which they are made, so a number that has left the map does not come back.

`ended` and `closed` record, for each `clientState`, the last time a call using it has ended
and the last time its idle connections were closed. Once it has left the map these are the
same time (`Inv.defunct`): the call that removes it closes its connections, and so does every
call that ends later. `client_cache` puts this together.
-/

namespace Bigmachine.Rpc.ClientCache

open Transition

structure ClientState where
  addr : String
  cached : Bool := false -- `cached` is not nil
  deriving DecidableEq, Repr

/-- The field `clients` of a client, and all the `clientState`s made so far. -/
structure Clients where
  clients : String → Option Nat := fun _ => none
  states : List ClientState := []

namespace Clients

def getClient (c : Clients) (addr : String) : Clients × Nat :=
  match c.clients addr with
  | some h => (c, h)
  | none =>
    ({ clients := Function.update c.clients addr (some c.states.length)
       states := c.states ++ [{ addr := addr }] }, c.states.length)

/-- `h.Client()`: the factory has run when it returns. -/
def client (c : Clients) (h : Nat) : Clients :=
  { c with states := c.states.modify h fun st => { st with cached := true } }

/-- The address of `h`. -/
def addr (c : Clients) (h : Nat) : String := (c.states[h]?.map (·.addr)).getD ""

/-- `updateClientState`, for a call that has failed or not; the second component says whether
it calls `h.cached.CloseIdleConnections()`. -/
def updateClientState (c : Clients) (h : Nat) (failed : Bool) : Clients × Bool :=
  let c' : Clients :=
    if failed ∧ c.clients (c.addr h) = some h then
      { c with clients := Function.update c.clients (c.addr h) none }
    else c
  (c', c'.clients (c.addr h) ≠ some h)

end Clients

/-! ## Any number of calls -/

/-- Where a call is, with the `clientState` it uses: before `h.Client()`, or before the deferred
`updateClientState`. -/
inductive Pc
  | got (h : Nat)
  | posting (h : Nat)
  | returned
  deriving DecidableEq, Repr

/-- `now`, `ended` and `closed` are ghost fields: the number of steps taken, and for each
`clientState` when a call that used it has ended and when its idle connections were closed. -/
structure Calls where
  c : Clients := {}
  calls : List Pc := []
  now : Nat := 0
  ended : Nat → Option Nat := fun _ => none
  closed : Nat → Option Nat := fun _ => none

/-- `getClient` is in a new call. In `client` the `i`-th call takes its HTTP client and posts, and
in `update` it ends. -/
inductive Action
  | getClient (addr : String)
  | client (i : Nat)
  | update (i : Nat) (failed : Bool)
  deriving DecidableEq, Repr

def step (s : Calls) : Action → Option Calls
  | .getClient addr =>
    let r := s.c.getClient addr
    some { s with c := r.1, calls := s.calls ++ [.got r.2], now := s.now + 1 }
  | .client i =>
    match s.calls[i]? with
    | some (.got h) =>
      some { s with c := s.c.client h, calls := s.calls.set i (.posting h), now := s.now + 1 }
    | _ => none
  | .update i failed =>
    match s.calls[i]? with
    | some (.posting h) =>
      let r := s.c.updateClientState h failed
      some {
        c := r.1
        calls := s.calls.set i .returned
        now := s.now + 1
        ended := Function.update s.ended h (some s.now)
        closed := if r.2 then Function.update s.closed h (some s.now) else s.closed }
    | _ => none

def system : System Calls Action := ⟨{}, step⟩

/-! ## The three operations -/

namespace Clients

/-- What the map holds has been made, for that address. -/
def Keyed (c : Clients) : Prop :=
  ∀ a h, c.clients a = some h → h < c.states.length ∧ c.addr h = a

/-- `h` has been made and has left the map. -/
def Removed (c : Clients) (h : Nat) : Prop := h < c.states.length ∧ ∀ a, c.clients a ≠ some h

/-- The HTTP client of `h` is not nil. -/
def HasClient (c : Clients) (h : Nat) : Prop := ∃ st, c.states[h]? = some st ∧ st.cached = true

theorem HasClient.lt {c : Clients} {h : Nat} (hc : c.HasClient h) : h < c.states.length := by
  obtain ⟨st, hst, -⟩ := hc
  exact (List.getElem?_eq_some_iff.mp hst).1

/-- `getClient` adds at most the `clientState` that it makes. -/
theorem getClient_clients_iff (c : Clients) (addr a : String) (h : Nat) :
    (c.getClient addr).1.clients a = some h ↔
      c.clients a = some h ∨ (a = addr ∧ c.clients addr = none ∧ h = c.states.length) := by
  unfold getClient
  cases hnone : c.clients addr with
  | some h' => simp
  | none =>
    by_cases ha : a = addr
    · subst ha
      simp [hnone, eq_comm]
    · simp [ha]

/-- What `getClient` returns is in the map. -/
theorem getClient_mem (c : Clients) (addr : String) :
    (c.getClient addr).1.clients addr = some (c.getClient addr).2 := by
  unfold getClient
  split
  · rename_i h hh
    exact hh
  · exact Function.update_self ..

theorem getClient_states (c : Clients) (addr : String) :
    (c.getClient addr).1.states = c.states ∨
      (c.clients addr = none ∧ (c.getClient addr).1.states = c.states ++ [{ addr := addr }]) := by
  unfold getClient
  split
  · exact Or.inl rfl
  · rename_i hnone
    exact Or.inr ⟨hnone, rfl⟩

theorem getClient_state {c : Clients} {h : Nat} (hh : h < c.states.length) (addr : String) :
    (c.getClient addr).1.states[h]? = c.states[h]? := by
  rcases getClient_states c addr with hst | ⟨-, hst⟩
  · rw [hst]
  · rw [hst, List.getElem?_append_left hh]

theorem getClient_length_le (c : Clients) (addr : String) :
    c.states.length ≤ (c.getClient addr).1.states.length := by
  rcases getClient_states c addr with hst | ⟨-, hst⟩ <;> simp [hst]

theorem client_addr (c : Clients) (h h' : Nat) : (c.client h).addr h' = c.addr h' := by
  unfold addr client
  rw [List.getElem?_modify]
  cases c.states[h']? with
  | none => rfl
  | some st => by_cases hh : h = h' <;> simp [hh]

theorem client_length (c : Clients) (h : Nat) :
    (c.client h).states.length = c.states.length := List.length_modify ..

theorem client_hasClient {c : Clients} {h : Nat} (hh : h < c.states.length) :
    (c.client h).HasClient h := by
  refine ⟨{ c.states[h] with cached := true }, ?_, rfl⟩
  simp [client, List.getElem?_eq_getElem hh]

theorem HasClient.client {c : Clients} {h : Nat} (hc : c.HasClient h) (h' : Nat) :
    (c.client h').HasClient h := by
  obtain ⟨st, hst, hcached⟩ := hc
  by_cases hh : h' = h
  · exact ⟨{ st with cached := true }, by simp [Clients.client, hh, hst], rfl⟩
  · exact ⟨st, by simp [Clients.client, hh, hst], hcached⟩

theorem updateClientState_states (c : Clients) (h : Nat) (failed : Bool) :
    (c.updateClientState h failed).1.states = c.states := by
  unfold updateClientState
  dsimp only
  split <;> rfl

/-- `updateClientState` removes at most the `clientState` of the call, when it has failed. -/
theorem updateClientState_clients_iff {c : Clients} (hk : c.Keyed) (h : Nat) (failed : Bool)
    (a : String) (h' : Nat) :
    (c.updateClientState h failed).1.clients a = some h' ↔
      c.clients a = some h' ∧ ¬ (failed = true ∧ h' = h) := by
  unfold updateClientState
  dsimp only
  split
  · rename_i hdel
    by_cases ha : a = c.addr h
    · subst ha
      have hlost : ¬ (c.clients (c.addr h) = some h' ∧ ¬ (failed = true ∧ h' = h)) := by
        rintro ⟨hh', hne⟩
        cases hdel.2.symm.trans hh'
        exact hne ⟨hdel.1, rfl⟩
      simpa using hlost
    · have hne : c.clients a = some h' → h' ≠ h := by
        rintro hh' rfl
        exact ha (hk a h' hh').2.symm
      simpa [Function.update_of_ne ha] using fun hh' _ => hne hh'
  · rename_i hdel
    refine ⟨fun hh' => ⟨hh', ?_⟩, And.left⟩
    rintro ⟨hfailed, rfl⟩
    exact hdel ⟨hfailed, (hk a h' hh').2 ▸ hh'⟩

theorem updateClientState_keyed {c : Clients} (hk : c.Keyed) (h : Nat) (failed : Bool) :
    (c.updateClientState h failed).1.Keyed := by
  intro a h' hh'
  obtain ⟨hold, -⟩ := (updateClientState_clients_iff hk h failed a h').mp hh'
  rw [addr, updateClientState_states]
  exact hk a h' hold

/-- The connections are closed exactly when the `clientState` is not in the map. -/
theorem updateClientState_closes_iff {c : Clients} (hk : c.Keyed) (h : Nat) (failed : Bool) :
    (c.updateClientState h failed).2 = true ↔
      ∀ a, (c.updateClientState h failed).1.clients a ≠ some h := by
  have hdef : (c.updateClientState h failed).2 = true ↔
      (c.updateClientState h failed).1.clients (c.addr h) ≠ some h := by
    simp [updateClientState]
  rw [hdef]
  refine ⟨fun hne a ha => hne ?_, fun hall => hall _⟩
  have haddr := (hk a h ((updateClientState_clients_iff hk h failed a h).mp ha).1).2
  exact haddr ▸ ha

end Clients

/-! ## The invariant -/

open Clients

/-- What holds of a call by where it is. -/
def Underway (c : Clients) : Pc → Prop
  | .got h => h < c.states.length
  | .posting h => c.HasClient h
  | .returned => True

structure Inv (s : Calls) : Prop where
  keyed : s.c.Keyed
  calls : ∀ p ∈ s.calls, Underway s.c p
  defunct : ∀ h, s.c.Removed h → ∃ t, s.closed h = some t ∧ s.ended h = some t

theorem init_inv : Inv system.init := by
  refine ⟨fun a h hh => ?_, fun p hp => ?_, fun h hr => ?_⟩
  · cases hh
  · cases hp
  · exact absurd hr.1 (Nat.not_lt_zero h)

theorem inv_getClient {s : Calls} (hs : Inv s) (addr : String) :
    Inv { s with
      c := (s.c.getClient addr).1
      calls := s.calls ++ [.got (s.c.getClient addr).2]
      now := s.now + 1 } := by
  have hkeyed : (s.c.getClient addr).1.Keyed := by
    intro a h hh
    rcases (getClient_clients_iff s.c addr a h).mp hh with hold | ⟨rfl, hnone, rfl⟩
    · obtain ⟨hlt, haddr⟩ := hs.keyed a h hold
      exact ⟨hlt.trans_le (getClient_length_le ..),
        by rw [Clients.addr, getClient_state hlt]; exact haddr⟩
    · simp [getClient, hnone, Clients.addr]
  refine ⟨hkeyed, fun p hp => ?_, fun h hr => hs.defunct h ?_⟩
  · rcases List.mem_append.mp hp with hp | hp
    · have hold := hs.calls p hp
      cases p with
      | got h => exact lt_of_lt_of_le hold (getClient_length_le ..)
      | posting h =>
        obtain ⟨st, hst, hcached⟩ := hold
        exact ⟨st, (getClient_state (HasClient.lt ⟨st, hst, hcached⟩) addr).trans hst, hcached⟩
      | returned => trivial
    · rw [List.mem_singleton.mp hp]
      exact (hkeyed addr _ (getClient_mem s.c addr)).1
  · -- the `clientState` just made is in the map
    obtain ⟨hlt, hout⟩ := hr
    refine ⟨?_, fun a ha => hout a ((getClient_clients_iff ..).mpr (Or.inl ha))⟩
    rcases getClient_states s.c addr with hst | ⟨hnone, hst⟩
    · exact hst ▸ hlt
    · have hne : h ≠ s.c.states.length := by
        rintro rfl
        exact hout addr ((getClient_clients_iff ..).mpr (Or.inr ⟨rfl, hnone, rfl⟩))
      dsimp only at hlt
      rw [hst, List.length_append, List.length_singleton] at hlt
      omega

theorem inv_client {s : Calls} (hs : Inv s) {i h : Nat} (hi : s.calls[i]? = some (.got h)) :
    Inv { s with c := s.c.client h, calls := s.calls.set i (.posting h), now := s.now + 1 } := by
  have hlt : h < s.c.states.length := hs.calls _ (List.mem_of_getElem? hi)
  refine ⟨fun a h' hh' => ?_, fun p hp => ?_, fun h' hr => hs.defunct h' ?_⟩
  · rw [client_addr, client_length]
    exact hs.keyed a h' hh'
  · rcases List.mem_or_eq_of_mem_set hp with hp | rfl
    · have hold := hs.calls p hp
      cases p with
      | got h' => exact lt_of_lt_of_eq hold (client_length ..).symm
      | posting h' => exact hold.client h
      | returned => trivial
    · exact client_hasClient hlt
  · exact ⟨lt_of_lt_of_eq hr.1 (client_length ..), hr.2⟩

theorem inv_update {s s' : Calls} (hs : Inv s) {i : Nat} {failed : Bool}
    (h : step s (.update i failed) = some s') : Inv s' := by
  simp only [step] at h
  split at h <;> cases h
  rename_i h hi
  have hstates := updateClientState_states s.c h failed
  refine ⟨updateClientState_keyed hs.keyed h failed, fun p hp => ?_, fun h' hr => ?_⟩
  · rcases List.mem_or_eq_of_mem_set hp with hp | rfl
    · have hold := hs.calls p hp
      cases p with
      | got h' => simpa [Underway, hstates] using hold
      | posting h' => simpa [Underway, HasClient, hstates] using hold
      | returned => trivial
    · trivial
  · by_cases hh : h' = h
    · subst hh
      have hclosed := (updateClientState_closes_iff hs.keyed h' failed).mpr hr.2
      exact ⟨s.now, by simp [hclosed], by simp⟩
    · -- another `clientState` is neither removed nor closed here
      have hold : s.c.Removed h' := by
        refine ⟨hstates ▸ hr.1, fun a ha => hr.2 a ?_⟩
        exact (updateClientState_clients_iff hs.keyed h failed a h').mpr ⟨ha, fun hc => hh hc.2⟩
      obtain ⟨t, hclosed, hended⟩ := hs.defunct h' hold
      refine ⟨t, ?_, by simpa [Function.update_of_ne hh] using hended⟩
      dsimp only
      split
      · simpa [Function.update_of_ne hh] using hclosed
      · exact hclosed

theorem step_inv {s s' : Calls} {a : Action} (h : step s a = some s') (hs : Inv s) : Inv s' := by
  cases a with
  | getClient addr =>
    cases h
    exact inv_getClient hs addr
  | client i =>
    simp only [step] at h
    split at h <;> cases h
    rename_i h hi
    exact inv_client hs hi
  | update i failed => exact inv_update hs h

theorem reachable_inv {tr : List Action} {s : Calls}
    (h : Steps system Always system.init tr s) : Inv s :=
  h.invariant (I := Inv) (fun _ _ _ hi _ hs => step_inv hs hi) init_inv

/-! ## What leaves the map -/

/-- An entry is removed only by the failure of a call that uses it. -/
theorem step_removes {s s' : Calls} {act : Action} (h : step s act = some s') (hs : Inv s)
    {a : String} {k : Nat} (hk : s.c.clients a = some k) (hk' : s'.c.clients a ≠ some k) :
    ∃ i, act = .update i true ∧ s.calls[i]? = some (.posting k) := by
  cases act with
  | getClient addr =>
    cases h
    exact absurd ((getClient_clients_iff ..).mpr (Or.inl hk)) hk'
  | client i =>
    simp only [step] at h
    split at h <;> cases h
    exact absurd hk hk'
  | update i failed =>
    simp only [step] at h
    split at h <;> cases h
    rename_i used hi
    have hlost : failed = true ∧ k = used := by
      by_contra hkeep
      exact hk' ((updateClientState_clients_iff hs.keyed used failed a k).mpr ⟨hk, hkeep⟩)
    obtain ⟨rfl, rfl⟩ := hlost
    exact ⟨i, rfl, hi⟩

theorem getClient_ne {c : Clients} {k : Nat} (hr : c.Removed k) (addr : String) :
    (c.getClient addr).2 ≠ k := by
  rintro rfl
  rcases (getClient_clients_iff c addr addr _).mp (getClient_mem c addr) with hold | ⟨-, -, heq⟩
  · exact hr.2 addr hold
  · exact hr.1.ne heq

/-- What has left the map does not come back. -/
theorem step_removed {s s' : Calls} {act : Action} (h : step s act = some s') (hs : Inv s)
    {k : Nat} (hr : s.c.Removed k) : s'.c.Removed k := by
  cases act with
  | getClient addr =>
    cases h
    refine ⟨hr.1.trans_le (getClient_length_le ..), fun a ha => ?_⟩
    rcases (getClient_clients_iff ..).mp ha with hold | ⟨-, -, heq⟩
    · exact hr.2 a hold
    · exact hr.1.ne heq
  | client i =>
    simp only [step] at h
    split at h <;> cases h
    exact ⟨lt_of_lt_of_eq hr.1 (client_length ..).symm, hr.2⟩
  | update i failed =>
    simp only [step] at h
    split at h <;> cases h
    refine ⟨(updateClientState_states ..).symm ▸ hr.1, fun a ha => ?_⟩
    exact hr.2 a ((updateClientState_clients_iff hs.keyed _ failed a k).mp ha).1

theorem run_removed {s t : Calls} {tr : List Action} (h : Steps system Always s tr t) (hs : Inv s)
    {k : Nat} (hr : s.c.Removed k) : t.c.Removed k := by
  induction h with
  | nil => exact hr
  | cons _ hstep _ ih => exact ih (step_inv hstep hs) (step_removed hstep hs hr)

/-- **The client cache.** In every run: the map holds for an address only what was made for it;
an entry is removed only by the failure of a call that uses it, and what has left the map stays
out and is not handed out again; idle connections are closed only of a `clientState` that is
not in the map, through an HTTP client that is not nil; and when no call uses a `clientState`
that has left the map, its idle connections have been closed at or after the end of the last
call that used it. -/
theorem client_cache {tr : List Action} {s : Calls} (h : Steps system Always system.init tr s) :
    (∀ a k, s.c.clients a = some k → s.c.addr k = a) ∧
    (∀ act s' a k, system.step s act = some s' → s.c.clients a = some k →
      s'.c.clients a ≠ some k → ∃ i, act = .update i true ∧ s.calls[i]? = some (.posting k)) ∧
    (∀ k, s.c.Removed k → ∀ tr' t, Steps system Always s tr' t →
      t.c.Removed k ∧ ∀ addr, (t.c.getClient addr).2 ≠ k) ∧
    (∀ (i : Nat) failed k, s.calls[i]? = some (.posting k) →
      (s.c.updateClientState k failed).2 = true →
      (∀ a, (s.c.updateClientState k failed).1.clients a ≠ some k) ∧ s.c.HasClient k) ∧
    ∀ k, s.c.Removed k → (∀ p ∈ s.calls, p ≠ .got k ∧ p ≠ .posting k) →
      ∃ tc, s.closed k = some tc ∧ ∀ te, s.ended k = some te → te ≤ tc := by
  have hs := reachable_inv h
  refine ⟨fun a k hk => (hs.keyed a k hk).2, ?_, ?_, ?_, ?_⟩
  · intro act s' a k hstep hk hk'
    exact step_removes hstep hs hk hk'
  · intro k hr tr' t hrun
    have hr' := run_removed hrun hs hr
    exact ⟨hr', getClient_ne hr'⟩
  · intro i failed k hi hclose
    exact ⟨(updateClientState_closes_iff hs.keyed k failed).mp hclose,
      hs.calls _ (List.mem_of_getElem? hi)⟩
  · intro k hr _
    obtain ⟨tc, hclosed, hended⟩ := hs.defunct k hr
    refine ⟨tc, hclosed, fun te hte => ?_⟩
    cases hended.symm.trans hte
    exact le_rfl

/-- Two calls share a `clientState`; the first one fails, a third call makes a new one, and
the second call ends last. -/
def sharedRun : List Action :=
  [.getClient "a", .client 0, .getClient "a", .client 1, .update 0 true, .getClient "a",
    .client 2, .update 1 false]

theorem client_cache_sharedRun :
    ∃ s, Steps system Always system.init sharedRun s ∧ s.c.clients "a" = some 1 ∧
      s.c.addr 1 = "a" ∧ s.closed 0 = some 7 := by
  obtain ⟨s, hrun, h1, h0, hended⟩ := exists_steps system Always system.init sharedRun
    (fun s => s.c.clients "a" = some 1 ∧ s.closed 0 = some 7 ∧ s.ended 0 = some 7) (by decide)
  exact ⟨s, hrun, h1, (client_cache hrun).1 "a" 1 h1, h0⟩

/-! ## The `clientState`s of the calls -/

/-- The `clientState` that a call uses. -/
def uses : Pc → Option Nat
  | .got h | .posting h => some h
  | .returned => none

/-- What a step of the calls does to those that are there: a call goes on with its `clientState`,
and a new one gets what is in the map. -/
theorem uses_step {r r' : Calls} {b : Action} (hstep : step r b = some r') {i h : Nat}
    (hi : r'.calls[i]?.bind uses = some h) :
    r.calls[i]?.bind uses = some h ∨
      ∃ addr, b = .getClient addr ∧ i = r.calls.length ∧ r'.c.clients addr = some h := by
  cases b with
  | getClient addr =>
    cases hstep
    by_cases hlt : i < r.calls.length
    · rw [List.getElem?_append_left hlt] at hi
      exact Or.inl hi
    · obtain ⟨pc, hpc, huses⟩ := Option.bind_eq_some_iff.mp hi
      have hlen := (List.getElem?_eq_some_iff.mp hpc).1
      rw [List.length_append, List.length_singleton] at hlen
      have heq : i = r.calls.length := by omega
      subst heq
      rw [List.getElem?_concat_length] at hpc
      cases hpc
      cases huses
      exact Or.inr ⟨addr, rfl, rfl, getClient_mem r.c addr⟩
  | client j =>
    simp only [step] at hstep
    split at hstep
    · rename_i used hj
      cases hstep
      refine Or.inl ?_
      by_cases heq : j = i
      · subst heq
        rw [List.getElem?_set_self (List.getElem?_eq_some_iff.mp hj).1] at hi
        rw [hj]
        exact hi
      · rwa [List.getElem?_set_ne heq] at hi
    · cases hstep
  | update j failed =>
    simp only [step] at hstep
    split at hstep
    · rename_i used hj
      cases hstep
      refine Or.inl ?_
      by_cases heq : j = i
      · subst heq
        rw [List.getElem?_set_self (List.getElem?_eq_some_iff.mp hj).1] at hi
        cases hi
      · rwa [List.getElem?_set_ne heq] at hi
    · cases hstep

/-- What is in the map after a step was there before, or is made by the step. -/
theorem clients_step {r r' : Calls} {b : Action} (hr : Inv r)
    (hstep : step r b = some r') {a : String} {h : Nat} (hh : r'.c.clients a = some h) :
    r.c.clients a = some h ∨ r.c.states.length = h := by
  cases b with
  | getClient addr =>
    cases hstep
    rcases (getClient_clients_iff r.c addr a h).mp hh with hold | ⟨-, -, rfl⟩
    · exact Or.inl hold
    · exact Or.inr rfl
  | client j =>
    simp only [step] at hstep
    split at hstep <;> cases hstep
    exact Or.inl hh
  | update j failed =>
    simp only [step] at hstep
    split at hstep <;> cases hstep
    exact Or.inl ((updateClientState_clients_iff hr.keyed _ failed a h).mp hh).1

theorem length_step {r r' : Calls} {b : Action} (hstep : step r b = some r') :
    r.c.states.length ≤ r'.c.states.length ∧ r.calls.length ≤ r'.calls.length := by
  cases b with
  | getClient addr =>
    cases hstep
    exact ⟨getClient_length_le r.c addr, by simp⟩
  | client j =>
    simp only [step] at hstep
    split at hstep <;> cases hstep
    exact ⟨(client_length ..).ge, by simp⟩
  | update j failed =>
    simp only [step] at hstep
    split at hstep <;> cases hstep
    exact ⟨by rw [updateClientState_states], by simp⟩

theorem addr_step {r r' : Calls} {b : Action} (hstep : step r b = some r') {h : Nat}
    (hh : h < r.c.states.length) : r'.c.addr h = r.c.addr h := by
  cases b with
  | getClient addr =>
    cases hstep
    rw [Clients.addr, getClient_state hh]
    rfl
  | client j =>
    simp only [step] at hstep
    split at hstep <;> cases hstep
    exact client_addr ..
  | update j failed =>
    simp only [step] at hstep
    split at hstep <;> cases hstep
    rw [Clients.addr, updateClientState_states]
    rfl

/-- A `clientState` has an HTTP client only after a call has taken it. -/
theorem hasClient_step {r r' : Calls} {b : Action} (hstep : step r b = some r')
    {h : Nat} (hh : r'.c.HasClient h) :
    r.c.HasClient h ∨ ∃ i, b = .client i ∧ r.calls[i]? = some (.got h) := by
  cases b with
  | getClient addr =>
    cases hstep
    obtain ⟨st, hst, hcached⟩ := hh
    rcases getClient_states r.c addr with heq | ⟨-, heq⟩
    · exact Or.inl ⟨st, heq ▸ hst, hcached⟩
    · dsimp only at hst
      rw [heq] at hst
      by_cases hlt : h < r.c.states.length
      · rw [List.getElem?_append_left hlt] at hst
        exact Or.inl ⟨st, hst, hcached⟩
      · -- the `clientState` just made has no HTTP client
        rw [List.getElem?_append_right (by omega)] at hst
        rw [List.mem_singleton.mp (List.mem_of_getElem? hst)] at hcached
        cases hcached
  | client j =>
    simp only [step] at hstep
    split at hstep
    · rename_i used hj
      cases hstep
      by_cases heq : used = h
      · subst heq
        exact Or.inr ⟨j, rfl, hj⟩
      · obtain ⟨st, hst, hcached⟩ := hh
        refine Or.inl ⟨st, ?_, hcached⟩
        simpa [Clients.client, heq] using hst
    · cases hstep
  | update j failed =>
    simp only [step] at hstep
    split at hstep <;> cases hstep
    exact Or.inl (by simpa [Clients.HasClient, updateClientState_states] using hh)

end Bigmachine.Rpc.ClientCache
