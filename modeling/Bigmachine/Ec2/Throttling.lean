import Bigmachine.Ec2.Start

/-!
# Throttled launches

EC2 answers requests that come too fast with an error of code `RequestLimitExceeded`, and the
launch loop of `System.Start` is written to repeat the request after a wait. The loop tests
the error that `run` returns. `run` has wrapped the answer's error with `errors.E` by then,
and an `*errors.Error` has no AWS code, so the test never succeeds and a throttled launch is
reported as a failure.
-/

namespace Bigmachine.Ec2

open Errors

variable (sdk : Sdk) (cfg : Config)

/-- The answer to the launch request itself. -/
def Attempt.request (a : Attempt) : Except Err (List (Option String)) :=
  if cfg.onDemand then a.runInstances else a.requestSpotInstances

/-- The request is answered by an AWS error with the code `RequestLimitExceeded`. -/
def Attempt.Throttled (a : Attempt) : Prop :=
  ∃ e, a.request cfg = .error e ∧ sdk.code e = some "RequestLimitExceeded"

/-- The request is throttled, and the waits before it and after it succeed. -/
structure Attempt.Repeatable (a : Attempt) : Prop where
  limiter : a.limiter = none
  throttled : a.Throttled sdk cfg
  retry : a.retry = none

/-- After throttled attempts the request is issued again, and the outcome is that of the first
attempt that is not throttled. While all of them are throttled, there is no outcome: the loop goes
on. -/
structure RetriesThrottled (attempts : List Attempt) : Prop where
  issued : ∀ xs a ys, attempts = xs ++ a :: ys → (∀ x ∈ xs, x.Repeatable sdk cfg) →
    a.limiter = none → (xs ++ [a]) <+: (launchLoop sdk cfg attempts).issued
  outcome : ∀ xs a ys, attempts = xs ++ a :: ys → (∀ x ∈ xs, x.Repeatable sdk cfg) →
    a.limiter = none → ¬ a.Throttled sdk cfg →
    (launchLoop sdk cfg attempts).issued = xs ++ [a] ∧
      launch sdk cfg attempts = some (run sdk cfg a)
  goesOn : (∀ x ∈ attempts, x.Repeatable sdk cfg) → launch sdk cfg attempts = none

variable {sdk}

/-- A first request that is throttled is not repeated: neither is a second one issued, nor does the
loop wait for the answer to one. -/
theorem not_retriesThrottled (hE : sdk.errors.ReturnsError) (hsdk : sdk.TellsApart)
    {a : Attempt} {rest : List Attempt} (ha : a.Repeatable sdk cfg)
    (hrest : ∀ b ∈ rest.head?, b.limiter = none) : ¬ RetriesThrottled sdk cfg (a :: rest) := by
  intro h
  have hloop := launchLoop_cons hE hsdk cfg rest ha.limiter
  match rest with
  | [] =>
    have hnone := h.goesOn (by simpa using ha)
    rw [launch, hloop] at hnone
    cases hnone
  | b :: rest =>
    have hissued := h.issued [a] b rest rfl (by simpa using ha) (hrest b rfl)
    rw [hloop] at hissued
    have hlen := hissued.length_le
    simp at hlen

/-- **Throttled launches are never repeated.** The loop does what it is written for exactly when
there is nothing to repeat: when the first request is throttled and the wait after it succeeds, the
wait before the second one has to fail. -/
theorem retriesThrottled_iff (hE : sdk.errors.ReturnsError) (hsdk : sdk.TellsApart)
    (attempts : List Attempt) :
    RetriesThrottled sdk cfg attempts ↔
      ∀ a rest, attempts = a :: rest → a.Repeatable sdk cfg →
        ∃ b ∈ rest.head?, b.limiter ≠ none := by
  constructor
  · rintro h a rest rfl ha
    by_contra hnone
    refine not_retriesThrottled cfg hE hsdk ha (fun b hb => ?_) h
    by_contra hlimiter
    exact hnone ⟨b, hb, hlimiter⟩
  · intro h
    -- a second attempt whose limiter succeeds comes after one that is not repeatable
    have hfirst : ∀ xs a ys, attempts = xs ++ a :: ys → (∀ x ∈ xs, x.Repeatable sdk cfg) →
        a.limiter = none → xs = [] := by
      intro xs a ys hsplit hxs ha
      match xs with
      | [] => rfl
      | [x] =>
        obtain ⟨b, hb, hlimiter⟩ := h x (a :: ys) hsplit (hxs x (by simp))
        cases hb
        exact absurd ha hlimiter
      | x :: x' :: xs' =>
        obtain ⟨b, hb, hlimiter⟩ := h x _ hsplit (hxs x (by simp))
        cases hb
        exact absurd (hxs x' (by simp)).limiter hlimiter
    refine ⟨fun xs a ys hsplit hxs ha => ?_, fun xs a ys hsplit hxs ha hnot => ?_, fun hall => ?_⟩
    · cases hfirst xs a ys hsplit hxs ha
      rw [List.nil_append] at hsplit
      rw [hsplit, launchLoop_cons hE hsdk cfg ys ha, List.nil_append]
    · cases hfirst xs a ys hsplit hxs ha
      rw [List.nil_append] at hsplit
      rw [hsplit, launch, launchLoop_cons hE hsdk cfg ys ha]
      exact ⟨rfl, rfl⟩
    · cases attempts with
      | nil => rfl
      | cons a rest =>
        obtain ⟨b, hb, hlimiter⟩ := h a rest rfl (hall a List.mem_cons_self)
        have hmem : b ∈ a :: rest := List.mem_cons_of_mem a (List.mem_of_mem_head? hb)
        exact absurd (hall b hmem).limiter hlimiter

namespace Reference

/-- AWS errors are those with the text of a throttled request. -/
def awsSdk : Sdk where
  errors := Errors.Reference.package
  code e := if e = .text "RequestLimitExceeded" then some "RequestLimitExceeded" else none
  format _ := ""

theorem awsSdk_tellsApart : awsSdk.TellsApart := by
  intro e he
  refine if_neg ?_
  rintro rfl
  exact he

def throttled : Attempt :=
  { runInstances := .error (.text "RequestLimitExceeded")
    requestSpotInstances := .error (.text "RequestLimitExceeded") }

def launched : Attempt :=
  { runInstances := .ok [some "i-1"], requestSpotInstances := .ok [some "r-1"]
    describeSpotInstanceRequests := .ok [some "i-1"] }

end Reference

theorem Reference.throttled_repeatable (onDemand : Bool) :
    Reference.throttled.Repeatable Reference.awsSdk ⟨"ami-1", onDemand, 4, false⟩ := by
  refine ⟨rfl, ⟨.text "RequestLimitExceeded", ?_, rfl⟩, rfl⟩
  cases onDemand <;> rfl

/-- A throttled request with no wait for another one, and one that is answered: the loop is right.
A throttled request alone: it is not, since it ends. -/
theorem retriesThrottled_iff_launched :
    RetriesThrottled Reference.awsSdk ⟨"ami-1", true, 4, false⟩
      [Reference.launched, Reference.throttled] ∧
    RetriesThrottled Reference.awsSdk ⟨"ami-1", true, 4, false⟩
      [Reference.throttled, { Reference.launched with limiter := some (.ctx .canceled) }] ∧
    ¬ RetriesThrottled Reference.awsSdk ⟨"ami-1", true, 4, false⟩ [Reference.throttled] := by
  have hiff := retriesThrottled_iff ⟨"ami-1", true, 4, false⟩ Errors.Reference.returnsError
    Reference.awsSdk_tellsApart
  refine ⟨(hiff _).mpr ?_, (hiff _).mpr ?_, fun h => ?_⟩
  · rintro a rest ⟨⟩ ⟨-, ⟨e, he, -⟩, -⟩
    cases he
  · rintro a rest ⟨⟩ -
    exact ⟨_, rfl, by simp⟩
  · obtain ⟨b, hb, -⟩ := (hiff _).mp h _ _ rfl (Reference.throttled_repeatable true)
    cases hb

/-- The first request is throttled, the second would have been answered: it is not issued, on
demand or not, and `Start` returns the error of the first. -/
theorem throttled_not_retried :
    ¬ RetriesThrottled Reference.awsSdk ⟨"ami-1", true, 4, false⟩
      [Reference.throttled, Reference.launched] ∧
    ¬ RetriesThrottled Reference.awsSdk ⟨"ami-1", false, 4, false⟩
      [Reference.throttled, Reference.launched] ∧
    ∃ e, (start Reference.awsSdk ⟨"ami-1", true, 4, false⟩ {}
      ⟨none, Reference.image, none, .ok [[Reference.host]]⟩
      [Reference.throttled, Reference.launched]).2 = some (.ok ([], some e)) := by
  have hnot : ∀ onDemand, ¬ RetriesThrottled Reference.awsSdk ⟨"ami-1", onDemand, 4, false⟩
      [Reference.throttled, Reference.launched] := by
    intro onDemand
    refine not_retriesThrottled _ Errors.Reference.returnsError Reference.awsSdk_tellsApart
      (Reference.throttled_repeatable onDemand) ?_
    rintro b ⟨⟩
    rfl
  exact ⟨hnot true, hnot false, _, rfl⟩

end Bigmachine.Ec2
