import Bigmachine.Concurrent.Group
import Bigmachine.Debug.Index
import Bigmachine.Machine.State

/-!
# The status page

`writeStatus` lists the machines in the order of their addresses. Machines that are not running are
listed with their state. The others are asked for their memory, disk and load at the same time, in a
group; when one of the calls fails, the others are cancelled, and the machine is listed with the
error of the group.

So every machine is listed once, and a machine with an error is listed with the error that one of
the calls has had, and not with that of a call that was cancelled on account of another one
(`status_page`).
-/

namespace Bigmachine.Debug.Status

open Errors Transition Concurrent

variable {M D L : Type}

/-- A machine, with what the three calls return when they are not cancelled. -/
structure Target (M D L : Type) where
  addr : String
  state : State
  mem : Except Err M
  disk : Except Err D
  load : Except Err L
  keepaliveReplyTimes : List Int
  nextKeepalive : Int

/-- `State.String`. -/
def stateText : State → String
  | .unstarted => "UNSTARTED"
  | .starting => "STARTING"
  | .running => "RUNNING"
  | .stopped => "STOPPED"

/-- What is printed for a machine. -/
inductive Entry (M D L : Type)
  | error (e : Err)
  | info (mem : M) (disk : D) (load : L) (keepaliveReplyTimes : List Int) (nextKeepalive : Int)

def errorOf {α : Type} : Except Err α → Option Err
  | .ok _ => none
  | .error e => some e

/-- The errors of the three tasks of `allInfo`. -/
def Target.own (t : Target M D L) : List (Option Err) :=
  [errorOf t.mem, errorOf t.disk, errorOf t.load]

/-- `g.Wait` in `allInfo` may return `err`. -/
def Target.Waits (t : Target M D L) (canceled : Err) (err : Option Err) : Prop :=
  ∃ tr w, Steps (Group.system t.own canceled) Always (Group.system t.own canceled).init tr w ∧
    w.Finished ∧ w.err = err

variable [Inhabited M] [Inhabited D] [Inhabited L]

/-- `allInfo`, when `g.Wait` returns `err`. A call that fails leaves the zero value. -/
def Target.allInfo (t : Target M D L) : Option Err → Entry M D L
  | some e => .error e
  | none => .info (t.mem.toOption.getD default) (t.disk.toOption.getD default)
      (t.load.toOption.getD default) t.keepaliveReplyTimes t.nextKeepalive

def Target.entry (t : Target M D L) (err : Option Err) : Entry M D L :=
  if t.state ≠ .running then .error (.text ("machine state " ++ stateText t.state))
  else t.allInfo err

omit [Inhabited M] [Inhabited D] [Inhabited L] in
def byAddr (t t' : Target M D L) : Prop := t.addr ≤ t'.addr

instance : DecidableRel (byAddr (M := M) (D := D) (L := L)) :=
  fun t t' => inferInstanceAs (Decidable (t.addr ≤ t'.addr))

instance : Std.Total (byAddr (M := M) (D := D) (L := L)) := ⟨fun t t' => le_total t.addr t'.addr⟩

instance : IsTrans (Target M D L) byAddr :=
  ⟨fun t t' t'' (h : t.addr ≤ t'.addr) (h' : t'.addr ≤ t''.addr) => le_trans h h'⟩

/-- `writeStatus`; `err` is what `g.Wait` returns for each of the machines that are asked. -/
def writeStatus (machines : List (Target M D L)) (err : Target M D L → Option Err) :
    List (String × Entry M D L) :=
  (machines.insertionSort byAddr).map fun t => (t.addr, t.entry (err t))

theorem writeStatus_increasing {machines : List (Target M D L)}
    (h : (machines.map (·.addr)).Nodup) (err : Target M D L → Option Err) :
    (writeStatus machines err).Pairwise fun e e' => e.1 < e'.1 := by
  rw [writeStatus, List.pairwise_map]
  exact increasing_insertionSort (fun _ _ ht => ht) h

theorem errorOf_eq_none {α : Type} {r : Except Err α} (h : errorOf r = none) : ∃ a, r = .ok a := by
  cases r with
  | ok a => exact ⟨a, rfl⟩
  | error e => cases h

theorem errorOf_eq_some {α : Type} {r : Except Err α} {e : Err} (h : some e = errorOf r) :
    r = .error e := by
  cases r with
  | ok a => cases h
  | error e' => rw [Option.some.inj h]

omit [Inhabited M] [Inhabited D] [Inhabited L] in
/-- The error of the group is one of a call. -/
theorem Target.Waits.genuine {t : Target M D L} {canceled : Err} {err : Option Err}
    (h : t.Waits canceled err) :
    (err = none ∧ ∃ m d l, t.mem = .ok m ∧ t.disk = .ok d ∧ t.load = .ok l) ∨
    ∃ e, err = some e ∧ (t.mem = .error e ∨ t.disk = .error e ∨ t.load = .error e) := by
  obtain ⟨tr, w, hsteps, hfin, rfl⟩ := h
  obtain ⟨hnone, hsome⟩ := Group.finished_err hsteps hfin
  cases herr : w.err with
  | none =>
    have hall := hnone.mp herr
    obtain ⟨m, hm⟩ := errorOf_eq_none (hall (errorOf t.mem) (by simp [Target.own]))
    obtain ⟨d, hd⟩ := errorOf_eq_none (hall (errorOf t.disk) (by simp [Target.own]))
    obtain ⟨l, hl⟩ := errorOf_eq_none (hall (errorOf t.load) (by simp [Target.own]))
    exact Or.inl ⟨rfl, m, d, l, hm, hd, hl⟩
  | some e =>
    have hmem := hsome e herr
    simp only [Target.own, List.mem_cons, List.not_mem_nil, or_false] at hmem
    exact Or.inr ⟨e, rfl, hmem.imp errorOf_eq_some (Or.imp errorOf_eq_some errorOf_eq_some)⟩

/-- The page lists `entry` for the machine. -/
def Lists (page : List (String × Entry M D L)) (t : Target M D L) (entry : Entry M D L) : Prop :=
  (t.addr, entry) ∈ page

/-- **The status page.** However the calls are interleaved and cancelled: the machines are listed in
increasing order of their addresses, each once. A machine that is not running is listed with its
state; a running one with what the three calls have returned if they have all succeeded, and
otherwise with an error that one of them has had by itself. -/
theorem status_page (canceled : Err) (machines : List (Target M D L))
    (hnodup : (machines.map (·.addr)).Nodup) (err : Target M D L → Option Err)
    (herr : ∀ t ∈ machines, t.state = .running → t.Waits canceled (err t)) :
    (writeStatus machines err).Pairwise (fun e e' => e.1 < e'.1) ∧
    ((writeStatus machines err).map (·.1)).Perm (machines.map (·.addr)) ∧
    ∀ t ∈ machines,
      (t.state ≠ .running ∧ Lists (writeStatus machines err) t
        (.error (.text ("machine state " ++ stateText t.state)))) ∨
      (t.state = .running ∧ ∃ m d l, t.mem = .ok m ∧ t.disk = .ok d ∧ t.load = .ok l ∧
        Lists (writeStatus machines err) t
          (.info m d l t.keepaliveReplyTimes t.nextKeepalive)) ∨
      (t.state = .running ∧ ∃ e, (t.mem = .error e ∨ t.disk = .error e ∨ t.load = .error e) ∧
        Lists (writeStatus machines err) t (.error e)) := by
  have hperm := List.perm_insertionSort byAddr machines
  refine ⟨writeStatus_increasing hnodup err, ?_, fun t ht => ?_⟩
  · rw [writeStatus, List.map_map]
    exact hperm.map _
  · have hlists : Lists (writeStatus machines err) t (t.entry (err t)) :=
      List.mem_map.mpr ⟨t, hperm.mem_iff.mpr ht, rfl⟩
    by_cases hstate : t.state = .running
    · refine Or.inr ?_
      have hentry : t.entry (err t) = t.allInfo (err t) := if_neg (not_not.mpr hstate)
      rw [hentry] at hlists
      rcases (herr t ht hstate).genuine with ⟨hnone, m, d, l, hm, hd, hl⟩ | ⟨e, hsome, he⟩
      · refine Or.inl ⟨hstate, m, d, l, hm, hd, hl, ?_⟩
        simpa [hnone, Target.allInfo, hm, hd, hl, Except.toOption] using hlists
      · refine Or.inr ⟨hstate, e, he, ?_⟩
        simpa [hsome, Target.allInfo] using hlists
    · refine Or.inl ⟨hstate, ?_⟩
      have hentry : t.entry (err t) = .error (.text ("machine state " ++ stateText t.state)) :=
        if_pos hstate
      rwa [hentry] at hlists

/-- One machine has no disk information, and its other calls are cancelled; another has stopped. -/
def twoTargets : List (Target Nat Nat Nat) :=
  [⟨"https://b/", .running, .ok 1, .error (.text "no such device"), .ok 3, [7], 60⟩,
    ⟨"https://a/", .stopped, .ok 1, .ok 2, .ok 3, [], 0⟩]

theorem status_page_two_targets :
    ∃ err : Target Nat Nat Nat → Option Err,
      (writeStatus twoTargets err).map (·.1) = ["https://a/", "https://b/"] ∧
      ∀ t ∈ twoTargets,
        (t.state ≠ .running ∧ Lists (writeStatus twoTargets err) t
          (.error (.text ("machine state " ++ stateText t.state)))) ∨
        (t.state = .running ∧ ∃ m d l, t.mem = .ok m ∧ t.disk = .ok d ∧ t.load = .ok l ∧
          Lists (writeStatus twoTargets err) t
            (.info m d l t.keepaliveReplyTimes t.nextKeepalive)) ∨
        (t.state = .running ∧ ∃ e, (t.mem = .error e ∨ t.disk = .error e ∨ t.load = .error e) ∧
          Lists (writeStatus twoTargets err) t (.error e)) := by
  refine ⟨fun _ => some (.text "no such device"), by decide +kernel, ?_⟩
  refine (status_page (.ctx .canceled) twoTargets (by decide) _ fun t ht hrun => ?_).2.2
  have hb : t =
      ⟨"https://b/", .running, .ok 1, .error (.text "no such device"), .ok 3, [7], 60⟩ := by
    rcases List.mem_cons.mp ht with rfl | ht
    · rfl
    · rw [List.mem_singleton.mp ht] at hrun
      cases hrun
  subst hb
  obtain ⟨w, hw, hfin, herr⟩ := exists_steps
    (Group.system [none, some (Err.text "no such device"), none] (.ctx .canceled)) Always
    (Group.system [none, some (Err.text "no such device"), none] (.ctx .canceled)).init
    [.finish 0, .finish 1, .abort 2]
    (fun w => (w.returned.all (·.isSome)) = true ∧ w.err = some (.text "no such device"))
    (by decide +kernel)
  exact ⟨_, w, hw, fun r hr => List.all_eq_true.mp hfin r hr, herr⟩

end Bigmachine.Debug.Status
