import Volley.Metrics
import Volley.Proofs.Keyed
import Volley.Proofs.Tally

/-! Metrics count by the text of a label, tallies by the status or the kind itself. -/

namespace Volley

namespace Counters

def ofLabels (labels : List String) : Counters := labels.foldl (fun c label => c.bump label) []

theorem ofLabels_concat (labels : List String) (label : String) :
    ofLabels (labels ++ [label]) = (ofLabels labels).bump label :=
  List.foldl_append

theorem bump_eq_insert {c : Counters} (sorted : Keyed.Sorted c) (label : String) :
    c.bump label = Keyed.insert label (c.get label + 1) c := by
  induction c with
  | nil => rfl
  | cons entry rest ih =>
      obtain ⟨other, n⟩ := entry
      obtain ⟨below, sorted⟩ := Keyed.sorted_cons.1 sorted
      by_cases same : label = other
      · simp [bump, Keyed.insert, get, same]
      · have found : List.lookup label ((other, n) :: rest) = List.lookup label rest := by
          rw [List.lookup_cons, beq_eq_false_iff_ne.2 same]
        by_cases before : label < other
        · have absent : List.lookup label rest = none :=
            Keyed.lookup_eq_none_of_lt fun e member => String.lt_trans before (below e member)
          simp [bump, Keyed.insert, get, same, Ne.symm same, before, found, absent]
        · have rest := ih sorted
          simp only [get] at rest
          simp [bump, Keyed.insert, get, same, Ne.symm same, before, found, rest]

theorem sorted_bump {c : Counters} (sorted : Keyed.Sorted c) (label : String) :
    Keyed.Sorted (c.bump label) := by
  rw [bump_eq_insert sorted]
  exact sorted.insert label _

theorem get_bump {c : Counters} (sorted : Keyed.Sorted c) (label other : String) :
    (c.bump label).get other = c.get other + if other = label then 1 else 0 := by
  rw [bump_eq_insert sorted, get, Keyed.lookup_insert]
  split
  · rename_i same
    rw [same, Option.getD_some]
  · rfl

theorem sorted_ofLabels (labels : List String) : Keyed.Sorted (ofLabels labels) := by
  induction labels using List.reverseRecOn with
  | nil => exact Keyed.sorted_nil
  | append_singleton labels label ih =>
      rw [ofLabels_concat]
      exact sorted_bump ih label

theorem get_ofLabels (labels : List String) (label : String) :
    (ofLabels labels).get label = labels.count label := by
  induction labels using List.reverseRecOn with
  | nil => rfl
  | append_singleton labels last ih =>
      rw [ofLabels_concat, get_bump (sorted_ofLabels labels), ih, List.count_append,
        List.count_singleton]
      simp only [beq_iff_eq, @eq_comm _ label last]

theorem sum_bump (c : Counters) (label : String) :
    ((c.bump label).map (·.2)).sum = (c.map (·.2)).sum + 1 := by
  induction c with
  | nil => rfl
  | cons entry rest ih =>
      obtain ⟨other, n⟩ := entry
      by_cases same : other = label
      · simp [bump, same]
        omega
      · by_cases before : label < other
        · simp [bump, same, before]
          omega
        · simp [bump, same, before, ih]
          omega

theorem sum_ofLabels (labels : List String) :
    ((ofLabels labels).map (·.2)).sum = labels.length := by
  induction labels using List.reverseRecOn with
  | nil => rfl
  | append_singleton labels label ih => rw [ofLabels_concat, sum_bump, ih, List.length_append]; rfl

end Counters

namespace Metrics

def ofList (outcomes : List Outcome) : Metrics := outcomes.foldl recordOutcome .empty

theorem ofList_concat (outcomes : List Outcome) (o : Outcome) :
    ofList (outcomes ++ [o]) = (ofList outcomes).recordOutcome o :=
  List.foldl_append

theorem requests_ofList (outcomes : List Outcome) :
    (ofList outcomes).requests = .ofLabels (outcomes.map (resultLabel ·.passed)) := by
  induction outcomes using List.reverseRecOn with
  | nil => rfl
  | append_singleton outcomes o ih =>
      rw [ofList_concat, List.map_append, List.map_singleton, Counters.ofLabels_concat, ← ih]
      rfl

theorem statuses_ofList (outcomes : List Outcome) :
    (ofList outcomes).statuses =
      .ofLabels (outcomes.filterMap fun o => o.status?.map (toString ·.toNat)) := by
  induction outcomes using List.reverseRecOn with
  | nil => rfl
  | append_singleton outcomes o ih =>
      rw [ofList_concat, List.filterMap_append]
      cases status : o.status? with
      | none => simp [recordOutcome, record, status, ih]
      | some s => simp [recordOutcome, record, status, ih, Counters.ofLabels_concat]

theorem failures_ofList (outcomes : List Outcome) :
    (ofList outcomes).failures =
      .ofLabels (outcomes.filterMap fun o => o.failure?.map (·.name)) := by
  induction outcomes using List.reverseRecOn with
  | nil => rfl
  | append_singleton outcomes o ih =>
      rw [ofList_concat, List.filterMap_append]
      cases failure : o.failure? with
      | none => simp [recordOutcome, record, failure, ih]
      | some kind => simp [recordOutcome, record, failure, ih, Counters.ofLabels_concat]

def samples (durations : List (String × Histogram)) : Counters :=
  durations.map fun (label, h) => (label, h.count)

theorem samples_observe (label : String) (seconds : Float) (durations : List (String × Histogram)) :
    samples (observe label seconds durations) = (samples durations).bump label := by
  induction durations with
  | nil => rfl
  | cons entry rest ih =>
      obtain ⟨other, h⟩ := entry
      simp only [samples] at ih
      by_cases same : other = label
      · simp [samples, observe, Counters.bump, Histogram.observe, same]
      · by_cases before : label < other
        · simp [samples, observe, Counters.bump, Histogram.observe, Histogram.empty, same, before]
        · simp [samples, observe, Counters.bump, same, before, ih]

theorem get_samples (m : Metrics) (label : String) :
    (samples m.durations).get label = (m.duration label).count := by
  rw [samples, duration, Counters.get]
  induction m.durations with
  | nil => rfl
  | cons entry rest ih =>
      obtain ⟨other, h⟩ := entry
      by_cases same : label = other
      · simp [same]
      · simpa [List.lookup_cons, beq_eq_false_iff_ne.2 same] using ih

theorem samples_ofList (outcomes : List Outcome) :
    samples (ofList outcomes).durations = (ofList outcomes).requests := by
  induction outcomes using List.reverseRecOn with
  | nil => rfl
  | append_singleton outcomes o ih =>
      rw [ofList_concat]
      simp only [recordOutcome, record, samples_observe, ih]

theorem resultLabel_injective : Function.Injective resultLabel := by
  intro a b same
  cases a <;> cases b <;> simp_all [resultLabel]

theorem get_requests (outcomes : List Outcome) (passed : Bool) :
    (ofList outcomes).requests.get (resultLabel passed) =
      outcomes.countP (·.passed = passed) := by
  rw [requests_ofList, Counters.get_ofLabels, List.count_eq_countP, List.countP_map]
  refine List.countP_congr fun o _ => ?_
  simp [resultLabel_injective.eq_iff]

theorem repr_injective : Function.Injective Nat.repr := by
  intro a b same
  rw [Nat.repr_eq_ofList_toDigits, Nat.repr_eq_ofList_toDigits, String.ofList_inj] at same
  have read := congrArg (Nat.ofDigitChars 10 · 0) same
  simpa only [Nat.ofDigitChars_toDigits (by decide : 1 < 10) (by decide)] using read

theorem get_statuses (outcomes : List Outcome) (status : UInt16) :
    (ofList outcomes).statuses.get (toString status.toNat) =
      outcomes.countP (·.status? = some status) := by
  rw [statuses_ofList, Counters.get_ofLabels, List.count_filterMap]
  refine List.countP_congr fun o _ => ?_
  cases o.status? with
  | none => simp
  | some s => simp [repr_injective.eq_iff, UInt16.toNat_inj]

theorem name_injective : Function.Injective FailureKind.name := by
  intro a b same
  cases a <;> cases b <;> simp_all [FailureKind.name]

theorem get_failures (outcomes : List Outcome) (kind : FailureKind) :
    (ofList outcomes).failures.get kind.name = outcomes.countP (·.failure? = some kind) := by
  rw [failures_ofList, Counters.get_ofLabels, List.count_filterMap]
  refine List.countP_congr fun o _ => ?_
  cases o.failure? with
  | none => simp
  | some k => simp [name_injective.eq_iff]

theorem status_or_failure (o : Outcome) : o.status?.isSome = !o.failure?.isSome := by
  cases verdict : o.verdict <;> simp [Outcome.status?, Outcome.failure?, verdict]

theorem statuses_add_failures (outcomes : List Outcome) :
    ((ofList outcomes).statuses.map (·.2)).sum + ((ofList outcomes).failures.map (·.2)).sum =
      outcomes.length := by
  rw [statuses_ofList, failures_ofList, Counters.sum_ofLabels, Counters.sum_ofLabels]
  induction outcomes with
  | nil => rfl
  | cons o rest ih =>
      have either := status_or_failure o
      cases status : o.status? with
      | none =>
          cases failure : o.failure? with
          | none => simp [status, failure] at either
          | some kind =>
              simp [status, failure] at ih ⊢
              omega
      | some s =>
          cases failure : o.failure? with
          | none =>
              simp [status, failure] at ih ⊢
              omega
          | some kind => simp [status, failure] at either

/-- Metrics that count what two tallies count together: one that is kept and one that is lost. -/
structure Accounts (m : Metrics) (kept lost : Tally) : Prop where
  passed : m.requests.get "passed" = kept.passed + lost.passed
  failed : m.requests.get "failed" = kept.failed + lost.failed
  statuses : ∀ status : UInt16, m.statuses.get (toString status.toNat) =
    kept.statuses.get status + lost.statuses.get status
  failures : ∀ kind : FailureKind, m.failures.get kind.name =
    kept.failures.get kind + lost.failures.get kind
  samples : ∀ label, (m.duration label).count = m.requests.get label
  kinds : (m.statuses.map (·.2)).sum + (m.failures.map (·.2)).sum =
    m.requests.get "passed" + m.requests.get "failed"

theorem accounts_ofList {outcomes kept lost : List Outcome} (split : outcomes.Perm (kept ++ lost)) :
    (ofList outcomes).Accounts (.ofList kept) (.ofList lost) := by
  have count (test : Outcome → Bool) :
      outcomes.countP test = kept.countP test + lost.countP test := by
    rw [split.countP_eq, List.countP_append]
  have passed : (ofList outcomes).requests.get "passed" = outcomes.countP (·.passed) := by
    simpa [resultLabel] using get_requests outcomes true
  have failed : (ofList outcomes).requests.get "failed" = outcomes.countP (!·.passed) := by
    simpa [resultLabel] using get_requests outcomes false
  constructor
  case passed => rw [passed, count, Tally.passed_ofList, Tally.passed_ofList]
  case failed => rw [failed, count, Tally.failed_ofList, Tally.failed_ofList]
  case statuses =>
    intro status
    rw [get_statuses, count, Tally.get_statuses, Tally.get_statuses]
  case failures =>
    intro kind
    rw [get_failures, count, Tally.get_failures, Tally.get_failures]
  case samples =>
    intro label
    rw [← get_samples, samples_ofList]
  case kinds =>
    rw [passed, failed, statuses_add_failures, List.length_eq_countP_add_countP (·.passed)]
    simp

structure Ordered (m : Metrics) : Prop where
  requests : Keyed.Sorted m.requests
  statuses : Keyed.Sorted m.statuses
  failures : Keyed.Sorted m.failures
  samples : Keyed.Sorted (samples m.durations)

theorem ordered_empty : empty.Ordered :=
  ⟨Keyed.sorted_nil, Keyed.sorted_nil, Keyed.sorted_nil, Keyed.sorted_nil⟩

theorem Ordered.recordOutcome {m : Metrics} (ordered : m.Ordered) (o : Outcome) :
    (m.recordOutcome o).Ordered where
  requests := Counters.sorted_bump ordered.requests _
  statuses := by
    unfold Metrics.recordOutcome record
    cases o.status? with
    | none => exact ordered.statuses
    | some status => exact Counters.sorted_bump ordered.statuses _
  failures := by
    unfold Metrics.recordOutcome record
    cases o.failure? with
    | none => exact ordered.failures
    | some kind => exact Counters.sorted_bump ordered.failures _
  samples := by
    unfold Metrics.recordOutcome record
    rw [samples_observe]
    exact Counters.sorted_bump ordered.samples _

structure Raised (m : Metrics) (o : Outcome) (after : Metrics) : Prop where
  requests : ∀ label, after.requests.get label =
    m.requests.get label + if label = resultLabel o.passed then 1 else 0
  samples : ∀ label, (after.duration label).count =
    (m.duration label).count + if label = resultLabel o.passed then 1 else 0
  statuses : ∀ label, after.statuses.get label =
    m.statuses.get label + if o.status?.map (toString ·.toNat) = some label then 1 else 0
  failures : ∀ label, after.failures.get label =
    m.failures.get label + if o.failure?.map (·.name) = some label then 1 else 0
  active : after.active = m.active

theorem Ordered.raised {m : Metrics} (ordered : m.Ordered) (o : Outcome) :
    m.Raised o (m.recordOutcome o) where
  requests := Counters.get_bump ordered.requests _
  samples := by
    intro label
    rw [← get_samples, ← get_samples, ← Counters.get_bump ordered.samples, ← samples_observe]
    rfl
  statuses := by
    intro label
    unfold Metrics.recordOutcome record
    cases o.status? with
    | none => simp
    | some status =>
        simp only [Option.map_some, Option.some.injEq, @eq_comm _ _ label]
        exact Counters.get_bump ordered.statuses _ label
  failures := by
    intro label
    unfold Metrics.recordOutcome record
    cases o.failure? with
    | none => simp
    | some kind =>
        simp only [Option.map_some, Option.some.injEq, @eq_comm _ _ label]
        exact Counters.get_bump ordered.failures _ label
  active := rfl

end Metrics

end Volley
