import Bigmachine.Errors.Values
import Mathlib.Data.List.AList
import Mathlib.Data.List.Sort
import Mathlib.Data.String.Basic

/-!
# The index of the profiles

The index page of the profiles asks all machines for their profiles and counts, adds the counts of
profiles with the same name, and lists the names in order. The machines answer in any order or not
at all, and the loops go over maps, so in any order as well. The list depends on none of this
(`index_all`): it has the names that some machine has reported, each once and in increasing order,
with the sum of the counts.
-/

namespace Bigmachine.Debug

open Errors

/-- A count is a Go `int`; the sums of counts are taken to fit into one. -/
structure ProfileStat where
  name : String
  count : Int
  deriving DecidableEq, Repr

/-! ## Collecting -/

/-- The machines by their addresses, with what the call of `Supervisor.Profiles` returns, in the
order in which the goroutines take the lock. -/
abbrev Calls := AList fun _ : String => Except Err (List ProfileStat)

/-- The map `stats`, by the addresses of the machines. -/
abbrev Stats := AList fun _ : String => List ProfileStat

/-- The goroutine of a machine. Errors are only logged. -/
def Stats.collect (stats : Stats) (c : Sigma fun _ : String => Except Err (List ProfileStat)) :
    Stats :=
  match c.2 with
  | .error _ => stats
  | .ok mstats => stats.insert c.1 mstats

def Calls.stats (calls : Calls) : Stats := calls.entries.foldl Stats.collect ∅

/-! ## Adding -/

/-- The map `aggregate`: the counts by name. -/
abbrev Aggregate := AList fun _ : String => Int

def Aggregate.add (aggregate : Aggregate) (p : ProfileStat) : Aggregate :=
  aggregate.insert p.name ((aggregate.lookup p.name).getD 0 + p.count)

/-- The two loops, over the entries of `stats` in the order `order`. -/
def aggregateAll (order : List (List ProfileStat)) : Aggregate :=
  order.foldl (fun aggregate mstats => mstats.foldl Aggregate.add aggregate) ∅

/-- `all[i].Name < all[j].Name`, or the names are the same. -/
def byName (p p' : ProfileStat) : Prop := p.name ≤ p'.name

instance : DecidableRel byName := fun p p' => inferInstanceAs (Decidable (p.name ≤ p'.name))

instance : Std.Total byName := ⟨fun p p' => le_total p.name p'.name⟩

instance : IsTrans ProfileStat byName :=
  ⟨fun p p' p'' (h : p.name ≤ p'.name) (h' : p'.name ≤ p''.name) => le_trans h h'⟩

def ofEntry (e : Sigma fun _ : String => Int) : ProfileStat := ⟨e.1, e.2⟩

/-- The list `all`, when the loop over `aggregate` goes through `entries`. -/
def all (entries : List (Sigma fun _ : String => Int)) : List ProfileStat :=
  (entries.map ofEntry).insertionSort byName

/-! ## Sums -/

/-- The sum of the counts of a name. -/
def total (l : List ProfileStat) (name : String) : Int :=
  ((l.filter fun p => p.name = name).map (·.count)).sum

theorem total_concat (l : List ProfileStat) (p : ProfileStat) (name : String) :
    total (l ++ [p]) name = total l name + if p.name = name then p.count else 0 := by
  by_cases h : p.name = name <;> simp [total, h]

theorem foldl_add (l : List ProfileStat) (name : String) :
    (l.foldl Aggregate.add ∅).lookup name =
      if name ∈ l.map (·.name) then some (total l name) else none := by
  induction l using List.reverseRecOn with
  | nil => simp
  | append_singleton l p ih =>
    rw [List.foldl_concat, Aggregate.add]
    by_cases h : name = p.name
    · subst h
      rw [AList.lookup_insert, ih, total_concat]
      by_cases hmem : p.name ∈ l.map (·.name)
      · simp [hmem]
      · have hzero : total l p.name = 0 := by
          have hnone : (l.filter fun q => q.name = p.name) = [] := by
            rw [List.filter_eq_nil_iff]
            intro q hq heq
            exact hmem (List.mem_map.mpr ⟨q, hq, of_decide_eq_true heq⟩)
          rw [total, hnone]
          rfl
        simp [hmem, hzero]
    · rw [AList.lookup_insert_ne h, ih, total_concat]
      simp [h, Ne.symm h]

theorem aggregateAll_eq (order : List (List ProfileStat)) :
    aggregateAll order = order.flatten.foldl Aggregate.add ∅ := by
  rw [aggregateAll, List.foldl_flatten]

theorem total_perm {l l' : List ProfileStat} (h : l.Perm l') (name : String) :
    total l name = total l' name :=
  ((h.filter _).map _).sum_eq

/-! ## The answers -/

def answer (c : Sigma fun _ : String => Except Err (List ProfileStat)) :
    Option (List ProfileStat) :=
  c.2.toOption

/-- What the machines have answered. -/
def Calls.answers (calls : Calls) : List (List ProfileStat) := calls.entries.filterMap answer

theorem collect_keys {stats : Stats} {c : Sigma fun _ : String => Except Err (List ProfileStat)}
    {addr : String} (h : addr ∈ stats.collect c) : addr ∈ stats ∨ addr = c.1 := by
  obtain ⟨a, r⟩ := c
  cases r with
  | error _ => exact Or.inl h
  | ok mstats => exact (AList.mem_insert stats).mp h |>.symm

theorem foldl_collect (cs : List (Sigma fun _ : String => Except Err (List ProfileStat)))
    (stats : Stats) (hnodup : cs.NodupKeys) (hnew : ∀ c ∈ cs, c.1 ∉ stats) :
    ((cs.foldl Stats.collect stats).entries.map (·.2)).Perm
      (stats.entries.map (·.2) ++ cs.filterMap answer) := by
  induction cs generalizing stats with
  | nil => simp
  | cons c cs ih =>
    obtain ⟨hc, hcs⟩ := List.nodupKeys_cons.mp hnodup
    have hrest : ∀ c' ∈ cs, c'.1 ∉ stats.collect c := by
      intro c' hc' hmem
      rcases collect_keys hmem with h | h
      · exact hnew c' (List.mem_cons_of_mem _ hc') h
      · exact hc (h ▸ List.mem_keys_of_mem hc')
    refine (ih _ hcs hrest).trans ?_
    obtain ⟨addr, r⟩ := c
    cases r with
    | error e => exact List.Perm.refl _
    | ok mstats =>
      have hentries :
          (stats.collect ⟨addr, .ok mstats⟩).entries = ⟨addr, mstats⟩ :: stats.entries :=
        AList.entries_insert_of_notMem (hnew ⟨addr, .ok mstats⟩ List.mem_cons_self)
      rw [hentries]
      exact List.perm_middle.symm

theorem stats_answers (calls : Calls) :
    (calls.stats.entries.map (·.2)).Perm calls.answers :=
  foldl_collect calls.entries ∅ calls.nodupKeys fun _ _ => AList.notMem_empty _

/-! ## The list -/

theorem mem_all {entries : List (Sigma fun _ : String => Int)} {aggregate : Aggregate}
    (h : entries.Perm aggregate.entries) (p : ProfileStat) :
    p ∈ all entries ↔ aggregate.lookup p.name = some p.count := by
  have hmem : p ∈ all entries ↔ (⟨p.name, p.count⟩ : Sigma fun _ : String => Int) ∈ entries := by
    rw [all, List.mem_insertionSort, List.mem_map]
    constructor
    · rintro ⟨e, he, rfl⟩
      exact he
    · intro he
      exact ⟨_, he, rfl⟩
  rw [hmem, h.mem_iff]
  exact AList.mem_lookup_iff.symm

/-- A list sorted by keys that are all different. -/
theorem increasing_insertionSort {α : Type} {key : α → String} {r : α → α → Prop} [DecidableRel r]
    [Std.Total r] [IsTrans α r] (hr : ∀ a b, r a b → key a ≤ key b) {l : List α}
    (h : (l.map key).Nodup) : (l.insertionSort r).Pairwise fun a b => key a < key b := by
  have hsorted : (l.insertionSort r).Pairwise r := List.pairwise_insertionSort r l
  have hdistinct : (l.insertionSort r).Pairwise fun a b => key a ≠ key b := by
    have hperm := List.perm_insertionSort r l
    refine (hperm.pairwise_iff fun {a b} (hne : key a ≠ key b) => hne.symm).mpr ?_
    exact List.pairwise_map.mp h
  exact (hsorted.and hdistinct).imp fun hab => lt_of_le_of_ne (hr _ _ hab.1) hab.2

theorem all_increasing {entries : List (Sigma fun _ : String => Int)} (h : entries.NodupKeys) :
    (all entries).Pairwise fun p p' => p.name < p'.name := by
  refine increasing_insertionSort (fun _ _ hp => hp) ?_
  rw [List.map_map]
  exact h

theorem aggregate_lookup (calls : Calls) {order : List (Sigma fun _ : String => List ProfileStat)}
    (horder : order.Perm calls.stats.entries) (name : String) :
    (aggregateAll (order.map (·.2))).lookup name =
      if name ∈ calls.answers.flatten.map (·.name) then some (total calls.answers.flatten name)
      else none := by
  have hperm : (order.map (·.2)).flatten.Perm calls.answers.flatten :=
    ((horder.map _).trans (stats_answers calls)).flatten
  rw [aggregateAll_eq, foldl_add, total_perm hperm]
  simp only [(hperm.map _).mem_iff]

/-- Whatever the order of the answers, of the visits of `stats` and of the visits of `aggregate`:
the index lists the names in increasing order, these are the names that some machine has answered
with, and the count is the sum over all answers. -/
theorem index_all (calls : Calls) (order : List (Sigma fun _ : String => List ProfileStat))
    (entries : List (Sigma fun _ : String => Int)) (horder : order.Perm calls.stats.entries)
    (hentries : entries.Perm (aggregateAll (order.map (·.2))).entries) :
    (all entries).Pairwise (fun p p' => p.name < p'.name) ∧
    ∀ p, p ∈ all entries ↔
      (∃ mstats ∈ calls.answers, p.name ∈ mstats.map (·.name)) ∧
        p.count = total calls.answers.flatten p.name := by
  constructor
  · exact all_increasing ((List.perm_nodupKeys hentries).mpr (AList.nodupKeys _))
  · intro p
    rw [mem_all hentries, aggregate_lookup calls horder]
    have hname : p.name ∈ calls.answers.flatten.map (·.name) ↔
        ∃ mstats ∈ calls.answers, p.name ∈ mstats.map (·.name) := by
      simp only [List.mem_map, List.mem_flatten]
      grind
    rw [← hname]
    grind

/-- Two machines that answer and one that does not. -/
def threeCalls : Calls where
  entries := [⟨"b", .ok [⟨"heap", 3⟩, ⟨"block", 0⟩]⟩, ⟨"c", .error (.ctx .canceled)⟩,
    ⟨"a", .ok [⟨"heap", 4⟩]⟩]
  nodupKeys := by
    unfold List.NodupKeys
    decide

theorem index_all_three_calls :
    all [⟨"heap", 7⟩, ⟨"block", 0⟩] = [⟨"block", 0⟩, ⟨"heap", 7⟩] ∧
    ∀ p, p ∈ all [⟨"heap", 7⟩, ⟨"block", 0⟩] ↔
      (∃ mstats ∈ threeCalls.answers, p.name ∈ mstats.map (·.name)) ∧
        p.count = total threeCalls.answers.flatten p.name := by
  refine ⟨by decide +kernel, ?_⟩
  exact (index_all threeCalls
    [⟨"b", [⟨"heap", 3⟩, ⟨"block", 0⟩]⟩, ⟨"a", [⟨"heap", 4⟩]⟩]
    [⟨"heap", 7⟩, ⟨"block", 0⟩] (by decide +kernel) (by decide +kernel)).2

end Bigmachine.Debug
