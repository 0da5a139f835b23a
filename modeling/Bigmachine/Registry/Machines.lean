import Bigmachine.Errors.Values
import Bigmachine.Transition.System
import Mathlib.Data.List.AList

/-!
# The machines known to a B

`B.Start` and `B.Dial` store machines by address; a machine made by `Dial` is removed by a
goroutine that waits until the machine is `Stopped` and then deletes the entry at the
address, whatever it is by then. `Start` stores its machines without looking.

So after a `Start` at the address of an earlier dialed machine, the cleanup of the dialed
machine removes the started one (`cleanup_removes_started_machine`). When `Start` stores
no machine at the address of a pending cleanup, every cleanup removes the entry it was
made for; when `Start` also replaces no machine that has not stopped, a machine leaves the
table only after it has stopped (`entries_kept_until_stopped`).
-/

namespace Bigmachine.Registry

open Errors Transition

/-- Machines are numbered in the order in which they are made. -/
abbrev MachineId := Nat

structure Member where
  addr : String
  owner : Bool
  deriving DecidableEq, Repr

/-- `machines` is `b.machines`. `members` are all machines made so far, `stopped` those that have
become `Stopped`, and `cleanups` the goroutines of `Dial` still to finish. -/
structure B where
  machines : AList (fun _ : String => MachineId) := ∅
  members : List Member := []
  stopped : Finset MachineId := ∅
  cleanups : Finset (MachineId × String) := ∅

namespace B

/-- `b.Machines()`, in some order. -/
def snapshot (b : B) : List MachineId := b.machines.entries.map (·.2)

/-- Make a machine and store it. -/
def store (b : B) (addr : String) (owner : Bool) : B :=
  { b with
    machines := b.machines.insert addr b.members.length
    members := b.members ++ [⟨addr, owner⟩] }

def dial (b : B) (addr : String) : B × MachineId :=
  match b.machines.lookup addr with
  | some m => (b, m)
  | none =>
    ({ b.store addr false with cleanups := insert (b.members.length, addr) b.cleanups },
      b.members.length)

/-- The end of a goroutine of `Dial`. -/
def cleanup (b : B) (m : MachineId) (addr : String) : B :=
  { b with machines := b.machines.erase addr, cleanups := b.cleanups.erase (m, addr) }

/-- The loop of `Start`. -/
def storeAll (b : B) : List String → B
  | [] => b
  | addr :: addrs => (b.store addr true).storeAll addrs

/-- `Start`, given the addresses of the machines that the system has started and whether
the parameters name any service. -/
def start (P : Package) (b : B) (addrs : List String) (services : Bool) :
    B × Except Err (List MachineId) :=
  if addrs = [] then (b, .error (P.E [.kind .unavailable, .text "no machines started"]))
  else if !services then (b, .error (P.E [.kind .invalid, .text "no services provided"]))
  else (b.storeAll addrs,
    .ok ((List.range addrs.length).map (b.members.length + ·)))

end B

inductive Action
  | dial (addr : String)
  | start (addrs : List String) (services : Bool)
  | stop (m : MachineId) -- a machine becomes `Stopped`
  | cleanup (m : MachineId) (addr : String)
  deriving DecidableEq, Repr

def step (P : Package) (b : B) : Action → Option B
  | .dial addr => some (b.dial addr).1
  | .start addrs services => some (b.start P addrs services).1
  | .stop m => if m < b.members.length then some { b with stopped := insert m b.stopped } else none
  | .cleanup m addr =>
    if (m, addr) ∈ b.cleanups ∧ m ∈ b.stopped then some (b.cleanup m addr) else none

def system (P : Package) : System B Action := ⟨{}, step P⟩

/-! ## Conditions on the addresses -/

/-- `Start` stores no machine at the address of a pending cleanup. Without services it stores none.
-/
def NoPendingCleanup (b : B) : Action → Prop
  | .start addrs services => services = true → ∀ c ∈ b.cleanups, c.2 ∉ addrs
  | _ => True

instance (b : B) : (a : Action) → Decidable (NoPendingCleanup b a)
  | .start addrs services =>
    inferInstanceAs (Decidable (services = true → ∀ c ∈ b.cleanups, c.2 ∉ addrs))
  | .dial _ | .stop _ | .cleanup _ _ => isTrue trivial

/-- Besides, the machines of one `Start` have different addresses, and no machine is
replaced that has not stopped. -/
def FreshAddresses (b : B) : Action → Prop
  | .start addrs services => NoPendingCleanup b (.start addrs services) ∧ (services = true →
      addrs.Nodup ∧ ∀ addr ∈ addrs, ∀ m ∈ b.machines.lookup addr, m ∈ b.stopped)
  | _ => True

instance (b : B) : (a : Action) → Decidable (FreshAddresses b a)
  | .start addrs services =>
    inferInstanceAs (Decidable (NoPendingCleanup b (.start addrs services) ∧ (services = true →
      addrs.Nodup ∧ ∀ addr ∈ addrs, ∀ m ∈ b.machines.lookup addr, m ∈ b.stopped)))
  | .dial _ | .stop _ | .cleanup _ _ => isTrue trivial

theorem FreshAddresses.noPendingCleanup {b : B} {a : Action} (h : FreshAddresses b a) :
    NoPendingCleanup b a := by
  cases a with
  | start addrs services => exact h.1
  | dial _ | stop _ | cleanup _ _ => trivial

/-! ## What the operations do to the table -/

theorem store_lookup (b : B) (addr addr' : String) (owner : Bool) :
    (b.store addr owner).machines.lookup addr' =
      if addr' = addr then some b.members.length else b.machines.lookup addr' := by
  by_cases h : addr' = addr
  · subst h
    simp [B.store]
  · simp [B.store, h, AList.lookup_insert_ne h]

theorem start_eq (P : Package) (b : B) (addrs : List String) (services : Bool) :
    (b.start P addrs services).1 = b ∨
      (services = true ∧ (b.start P addrs services).1 = b.storeAll addrs) := by
  unfold B.start
  split
  · exact Or.inl rfl
  · split
    · exact Or.inl rfl
    · rename_i hservices
      exact Or.inr ⟨by simpa using hservices, rfl⟩

@[simp] theorem storeAll_stopped (b : B) (addrs : List String) :
    (b.storeAll addrs).stopped = b.stopped := by
  induction addrs generalizing b with
  | nil => rfl
  | cons addr addrs ih => exact ih _

@[simp] theorem storeAll_cleanups (b : B) (addrs : List String) :
    (b.storeAll addrs).cleanups = b.cleanups := by
  induction addrs generalizing b with
  | nil => rfl
  | cons addr addrs ih => exact ih _

theorem storeAll_lookup {b : B} {addrs : List String} {addr : String} (h : addr ∉ addrs) :
    (b.storeAll addrs).machines.lookup addr = b.machines.lookup addr := by
  induction addrs generalizing b with
  | nil => rfl
  | cons a addrs ih =>
    rw [List.mem_cons, not_or] at h
    rw [B.storeAll, ih h.2, store_lookup, if_neg h.1]

/-- `Dial` returns the machine in the table, or makes one at an address without an entry. -/
theorem dial_cases (b : B) (addr : String) :
    (b.dial addr).1 = b ∨ (b.machines.lookup addr = none ∧ (b.dial addr).1 =
      { b.store addr false with cleanups := insert (b.members.length, addr) b.cleanups }) := by
  unfold B.dial
  split
  · exact Or.inl rfl
  · rename_i h
    exact Or.inr ⟨h, rfl⟩

theorem step_cases {P : Package} {b b' : B} {a : Action} (h : step P b a = some b') :
    b' = b ∨
    (∃ addr, a = .dial addr ∧ b.machines.lookup addr = none ∧
      b' = { b.store addr false with cleanups := insert (b.members.length, addr) b.cleanups }) ∨
    (∃ addrs, a = .start addrs true ∧ b' = b.storeAll addrs) ∨
    (∃ m, a = .stop m ∧ b' = { b with stopped := insert m b.stopped }) ∨
    (∃ m addr, a = .cleanup m addr ∧ (m, addr) ∈ b.cleanups ∧ m ∈ b.stopped ∧
      b' = b.cleanup m addr) := by
  cases a with
  | dial addr =>
    cases h
    rcases dial_cases b addr with heq | ⟨hnone, heq⟩
    · exact Or.inl heq
    · exact Or.inr (Or.inl ⟨addr, rfl, hnone, heq⟩)
  | start addrs services =>
    cases h
    rcases start_eq P b addrs services with heq | ⟨rfl, heq⟩
    · exact Or.inl heq
    · exact Or.inr (Or.inr (Or.inl ⟨addrs, rfl, heq⟩))
  | stop m =>
    simp only [step] at h
    split at h
    · exact Or.inr (Or.inr (Or.inr (Or.inl ⟨m, rfl, (Option.some.inj h).symm⟩)))
    · cases h
  | cleanup m addr =>
    simp only [step] at h
    split at h
    · rename_i hc
      exact Or.inr (Or.inr (Or.inr (Or.inr ⟨m, addr, rfl, hc.1, hc.2, (Option.some.inj h).symm⟩)))
    · cases h

/-! ## Cleanups delete what they were made for -/

/-- The entry at the address of a pending cleanup is the machine of the cleanup. -/
def Matched (b : B) : Prop := ∀ c ∈ b.cleanups, b.machines.lookup c.2 = some c.1

theorem step_matched {P : Package} {b b' : B} {a : Action} (hb : Matched b)
    (hok : NoPendingCleanup b a) (h : step P b a = some b') : Matched b' := by
  obtain rfl | ⟨addr, rfl, hnone, rfl⟩ | ⟨addrs, rfl, rfl⟩ | ⟨m, rfl, rfl⟩ |
    ⟨m, addr, rfl, hmem, -, rfl⟩ := step_cases h
  · exact hb
  · intro c hc
    rw [store_lookup]
    rcases Finset.mem_insert.mp hc with rfl | hc
    · exact if_pos rfl
    · have hne : c.2 ≠ addr := by
        intro heq
        have hsome := hb c hc
        rw [heq, hnone] at hsome
        cases hsome
      rw [if_neg hne]
      exact hb c hc
  · intro c hc
    rw [storeAll_cleanups] at hc
    rw [storeAll_lookup (hok rfl c hc)]
    exact hb c hc
  · exact hb
  · intro c hc
    obtain ⟨hne, hc⟩ := Finset.mem_erase.mp hc
    have haddr : c.2 ≠ addr := by
      intro heq
      have hentry : b.machines.lookup addr = some c.1 := heq ▸ hb c hc
      have hown : b.machines.lookup addr = some m := hb _ hmem
      have hsame : c.1 = m := Option.some.inj (hentry.symm.trans hown)
      exact hne (Prod.ext hsame heq)
    rw [B.cleanup, AList.lookup_erase_ne haddr]
    exact hb c hc

/-! ## Machines stay until they have stopped -/

/-- Every owned machine that has not stopped is in the table. -/
def Listed (b : B) : Prop :=
  ∀ m addr, b.members[m]? = some ⟨addr, true⟩ → m ∉ b.stopped → b.machines.lookup addr = some m

theorem Listed.store {b : B} (hb : Listed b) {addr : String} (owner : Bool)
    (hfree : ∀ m ∈ b.machines.lookup addr, m ∈ b.stopped) : Listed (b.store addr owner) := by
  intro m addr' hm hs
  rw [store_lookup]
  simp only [B.store] at hm hs
  rw [List.getElem?_append] at hm
  split at hm
  · have hlook : b.machines.lookup addr' = some m := hb m addr' hm hs
    have hne : addr' ≠ addr := by
      rintro rfl
      exact hs (hfree m hlook)
    rw [if_neg hne]
    exact hlook
  · rename_i hlt
    rw [List.getElem?_singleton] at hm
    split at hm
    · cases hm
      rw [if_pos rfl]
      congr 1
      omega
    · cases hm

theorem Listed.storeAll {b : B} {addrs : List String} (hb : Listed b) (hnodup : addrs.Nodup)
    (hfree : ∀ addr ∈ addrs, ∀ m ∈ b.machines.lookup addr, m ∈ b.stopped) :
    Listed (b.storeAll addrs) := by
  induction addrs generalizing b with
  | nil => exact hb
  | cons addr addrs ih =>
    obtain ⟨hnot, hnodup⟩ := List.nodup_cons.mp hnodup
    have hfirst : Listed (b.store addr true) := hb.store true (hfree addr List.mem_cons_self)
    refine ih hfirst hnodup ?_
    intro addr' hmem m hm
    have hne : addr' ≠ addr := by
      rintro rfl
      exact hnot hmem
    rw [store_lookup, if_neg hne] at hm
    exact hfree addr' (List.mem_cons_of_mem _ hmem) m hm

theorem step_listed {P : Package} {b b' : B} {a : Action} (hb : Matched b ∧ Listed b)
    (hok : FreshAddresses b a) (h : step P b a = some b') : Matched b' ∧ Listed b' := by
  refine ⟨step_matched hb.1 hok.noPendingCleanup h, ?_⟩
  obtain rfl | ⟨addr, rfl, hnone, rfl⟩ | ⟨addrs, rfl, rfl⟩ | ⟨m, rfl, rfl⟩ |
    ⟨m, addr, rfl, hmem, hstop, rfl⟩ := step_cases h
  · exact hb.2
  · exact hb.2.store false (by simp [hnone])
  · exact hb.2.storeAll (hok.2 rfl).1 (hok.2 rfl).2
  · intro m' addr hm hs
    exact hb.2 m' addr hm fun hs' => hs (Finset.mem_insert_of_mem hs')
  · intro m' addr' hm hs
    have hlook : b.machines.lookup addr' = some m' := hb.2 m' addr' hm hs
    have hne : addr' ≠ addr := by
      rintro rfl
      obtain rfl : m' = m := Option.some.inj (hlook.symm.trans (hb.1 _ hmem))
      exact hs hstop
    rw [B.cleanup, AList.lookup_erase_ne hne]
    exact hlook

/-- Between the two states, an entry stays unless its machine has stopped. -/
structure Keeps (b b' : B) : Prop where
  stopped : b.stopped ⊆ b'.stopped
  entry : ∀ addr m, b.machines.lookup addr = some m →
    b'.machines.lookup addr = some m ∨ m ∈ b'.stopped

theorem Keeps.refl (b : B) : Keeps b b := ⟨subset_rfl, fun _ _ h => Or.inl h⟩

theorem Keeps.trans {b b' b'' : B} (h : Keeps b b') (h' : Keeps b' b'') : Keeps b b'' := by
  refine ⟨h.stopped.trans h'.stopped, ?_⟩
  intro addr m hm
  rcases h.entry addr m hm with hm | hs
  · exact h'.entry addr m hm
  · exact Or.inr (h'.stopped hs)

theorem step_keeps {P : Package} {b b' : B} {a : Action} (hb : Matched b)
    (hok : FreshAddresses b a) (h : step P b a = some b') : Keeps b b' := by
  obtain rfl | ⟨addr, rfl, hnone, rfl⟩ | ⟨addrs, rfl, rfl⟩ | ⟨m, rfl, rfl⟩ |
    ⟨m, addr, rfl, hmem, hstop, rfl⟩ := step_cases h
  · exact Keeps.refl _
  · refine ⟨subset_rfl, ?_⟩
    intro addr' m hm
    have hne : addr' ≠ addr := by
      rintro rfl
      rw [hnone] at hm
      cases hm
    left
    rw [store_lookup, if_neg hne]
    exact hm
  · refine ⟨(storeAll_stopped b addrs).symm.subset, ?_⟩
    intro addr m hm
    by_cases hmem : addr ∈ addrs
    · have hstop : m ∈ b.stopped := (hok.2 rfl).2 addr hmem m hm
      exact Or.inr (by simpa using hstop)
    · exact Or.inl ((storeAll_lookup hmem).trans hm)
  · exact ⟨Finset.subset_insert m b.stopped, fun _ _ h => Or.inl h⟩
  · refine ⟨subset_rfl, ?_⟩
    intro addr' m' hm
    by_cases heq : addr' = addr
    · subst heq
      obtain rfl : m' = m := Option.some.inj (hm.symm.trans (hb _ hmem))
      exact Or.inr hstop
    · left
      rw [B.cleanup, AList.lookup_erase_ne heq]
      exact hm

theorem mem_snapshot_of_lookup {b : B} {addr : String} {m : MachineId}
    (h : b.machines.lookup addr = some m) : m ∈ b.snapshot :=
  List.mem_map.mpr ⟨⟨addr, m⟩, AList.mem_lookup_iff.mp h, rfl⟩

theorem init_matched_listed (P : Package) :
    Matched (system P).init ∧ Listed (system P).init :=
  ⟨fun c hc => (by simp [system] at hc), fun m addr hm => (by simp [system] at hm)⟩

/-- **Machines stay registered until they have stopped.** In every run in which `Start`
stores no machine at the address of a pending cleanup, a cleanup deletes the entry of its
own machine, which has stopped. In every run in which, besides, the machines of a `Start`
have different addresses and replace no machine that has not stopped, an entry leaves the
table only after its machine has stopped, and every owned machine that has not stopped is
in `Machines()`. -/
theorem entries_kept_until_stopped (P : Package) :
    (∀ tr b m addr b', Steps (system P) NoPendingCleanup (system P).init tr b →
      step P b (.cleanup m addr) = some b' →
      b.machines.lookup addr = some m ∧ m ∈ b.stopped) ∧
    (∀ tr₁ b₁ tr₂ b₂, Steps (system P) FreshAddresses (system P).init tr₁ b₁ →
      Steps (system P) FreshAddresses b₁ tr₂ b₂ →
      (∀ addr m, b₁.machines.lookup addr = some m →
        b₂.machines.lookup addr = some m ∨ m ∈ b₂.stopped) ∧
      ∀ m addr, b₂.members[m]? = some ⟨addr, true⟩ → m ∉ b₂.stopped → m ∈ b₂.snapshot) := by
  constructor
  · intro tr b m addr b' h hstep
    have hmatched : Matched b := h.invariant (I := Matched)
      (fun _ _ _ hi hok hs => step_matched hi hok hs) (init_matched_listed P).1
    simp only [step] at hstep
    split at hstep
    · rename_i hc
      exact ⟨hmatched _ hc.1, hc.2⟩
    · cases hstep
  · intro tr₁ b₁ tr₂ b₂ h₁ h₂
    have hkeep : ∀ b a b', Matched b ∧ Listed b → FreshAddresses b a → step P b a = some b' →
        Matched b' ∧ Listed b' := fun _ _ _ hi hok hs => step_listed hi hok hs
    have hb₁ : Matched b₁ ∧ Listed b₁ := h₁.invariant hkeep (init_matched_listed P)
    have hb₂ : Matched b₂ ∧ Listed b₂ := h₂.invariant hkeep hb₁
    have hrel : Keeps b₁ b₂ := h₂.relation (R := Keeps) hkeep Keeps.refl
      (fun _ _ _ => Keeps.trans) (fun _ _ _ hi hok hs => step_keeps hi.1 hok hs) hb₁
    refine ⟨hrel.entry, ?_⟩
    intro m addr hm hs
    have hlook : b₂.machines.lookup addr = some m := hb₂.2 m addr hm hs
    exact mem_snapshot_of_lookup hlook

/-- A machine is dialed, and a `Start` at its address fails because there are no services. The
machine stops, its cleanup runs, and a machine is started at its address. -/
theorem entries_kept_until_stopped_restart :
    ∃ b₁ b₂, Steps (system Reference.package) FreshAddresses (system Reference.package).init
        [.dial "a", .start ["a"] false, .stop 0, .cleanup 0 "a", .start ["a"] true] b₁ ∧
      Steps (system Reference.package) FreshAddresses b₁ [.dial "a", .dial "b"] b₂ ∧
      b₁.machines.lookup "a" = some 1 ∧ 1 ∉ b₂.stopped ∧
      b₂.machines.lookup "a" = some 1 := by
  obtain ⟨b₁, b₂, h₁, h₂, hlook, hs⟩ := exists_steps_twice (system Reference.package)
    FreshAddresses (system Reference.package).init
    [.dial "a", .start ["a"] false, .stop 0, .cleanup 0 "a", .start ["a"] true]
    [.dial "a", .dial "b"]
    (fun b => b.machines.lookup "a" = some 1) (fun b => 1 ∉ b.stopped) (by decide)
  obtain ⟨hkeep, -⟩ := (entries_kept_until_stopped Reference.package).2 _ _ _ _ h₁ h₂
  exact ⟨b₁, b₂, h₁, h₂, hlook, hs, (hkeep "a" 1 hlook).resolve_right hs⟩

/-- A machine is dialed, one is started at its address, and the dialed machine stops: its
cleanup removes the started machine, which has not stopped. -/
theorem cleanup_removes_started_machine :
    ¬ ∀ (P : Package) (tr₁ tr₂ : List Action) (b₁ b₂ : B) (addr : String) (m : MachineId),
      Steps (system P) Always (system P).init tr₁ b₁ → Steps (system P) Always b₁ tr₂ b₂ →
      b₁.machines.lookup addr = some m →
      b₂.machines.lookup addr = some m ∨ m ∈ b₂.stopped := by
  intro h
  obtain ⟨b₁, b₂, h₁, h₂, hlook, hgone⟩ := exists_steps_twice (system Reference.package) Always
    (system Reference.package).init [.dial "a", .start ["a"] true] [.stop 0, .cleanup 0 "a"]
    (fun b => b.machines.lookup "a" = some 1)
    (fun b => ¬ (b.machines.lookup "a" = some 1 ∨ 1 ∈ b.stopped)) (by decide)
  exact hgone (h Reference.package _ _ b₁ b₂ "a" 1 h₁ h₂ hlook)

end Bigmachine.Registry
