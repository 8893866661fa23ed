import Mathlib.Data.Multiset.Count
import Mathlib.Data.Multiset.MapFold
import Mathlib.Data.Multiset.Sort
import Mathlib.Logic.Function.Basic
import Volley.Proofs.Tally
import Volley.Run.Report

/-! After every program each register is the tally of the multiset that it has accumulated. -/

namespace Volley

namespace LatencySummary

theorem ofSamples_perm {samples others : List Nat} (perm : samples.Perm others) :
    ofSamples samples = ofSamples others := by
  have same : samples.mergeSort = others.mergeSort :=
    congrArg (Multiset.sort · (· ≤ ·)) (Multiset.coe_eq_coe.2 perm)
  rw [ofSamples, ofSamples, same]

end LatencySummary

namespace Tally

structure Figures where
  total : Nat
  passed : Nat
  failed : Nat
  statuses : Counts UInt16
  failures : Counts FailureKind
  passRate : Float
  latency : Option LatencySummary

def figures (t : Tally) : Figures where
  total := t.total
  passed := t.passed
  failed := t.failed
  statuses := t.statuses
  failures := t.failures
  passRate := t.passRate
  latency := t.latencySummary

structure IsTallyOf (outcomes : Multiset Outcome) (t : Tally) : Prop where
  total : t.total = outcomes.card
  passed : t.passed = outcomes.countP (·.passed = true)
  failed : t.failed = outcomes.countP (·.passed = false)
  split : t.passed + t.failed = t.total
  statuses : t.statuses.Exact UInt16.toNat fun status =>
    outcomes.countP (·.status? = some status)
  failures : t.failures.Exact FailureKind.rank fun kind =>
    outcomes.countP (·.failure? = some kind)
  passRate : t.passRate = if outcomes.card = 0 then 0.0 else
    (outcomes.countP (·.passed = true)).toUInt64.toFloat / outcomes.card.toUInt64.toFloat
  latencies : (t.latencies : Multiset Nat) =
    outcomes.map fun o => min o.latency.micros (2 ^ 64 - 1)
  latencySummary : ∀ samples : List Nat,
    (samples : Multiset Nat) = outcomes.map (fun o => min o.latency.micros (2 ^ 64 - 1)) →
      t.latencySummary = LatencySummary.ofSamples samples

theorem isTallyOf_ofList (outcomes : List Outcome) :
    IsTallyOf outcomes (ofList outcomes) := by
  have latencies : ((ofList outcomes).latencies : Multiset Nat) =
      (outcomes : Multiset Outcome).map latencyOf := by
    rw [latencies_ofList, Multiset.map_coe, Multiset.coe_eq_coe]
    exact (List.reverse_perm outcomes).map latencyOf
  have passed :
      (ofList outcomes).passed = (outcomes : Multiset Outcome).countP (·.passed = true) := by
    simpa using passed_ofList outcomes
  refine ⟨total_ofList outcomes, passed, ?_, ?_, ?_, ?_, ?_, latencies, ?_⟩
  · simpa using failed_ofList outcomes
  · rw [passed_add_failed, total_ofList]
  · simpa using statuses_exact outcomes
  · simpa using failures_exact outcomes
  · rw [passRate, passed, total_ofList, Multiset.coe_card]
  · intro samples enumerated
    exact LatencySummary.ofSamples_perm (Multiset.coe_eq_coe.1 (latencies.trans enumerated.symm))

theorem IsTallyOf.figures_eq {outcomes : Multiset Outcome} {t other : Tally}
    (first : IsTallyOf outcomes t) (second : IsTallyOf outcomes other) :
    t.figures = other.figures := by
  have latency : t.latencySummary = other.latencySummary :=
    first.latencySummary other.latencies second.latencies
  simp only [figures, Figures.mk.injEq]
  refine ⟨?_, ?_, ?_, first.statuses.unique second.statuses,
    first.failures.unique second.failures, ?_, latency⟩
  · rw [first.total, second.total]
  · rw [first.passed, second.passed]
  · rw [first.failed, second.failed]
  · rw [first.passRate, second.passRate]

theorem figures_ofList_perm {outcomes others : List Outcome} (perm : outcomes.Perm others) :
    (ofList outcomes).figures = (ofList others).figures :=
  (isTallyOf_ofList outcomes).figures_eq
    (Multiset.coe_eq_coe.2 perm ▸ isTallyOf_ofList others)

def ofShares (shares : List (List Outcome)) : Tally := (shares.map ofList).foldl merge empty

theorem ofShares_eq (shares : List (List Outcome)) : ofShares shares = ofList shares.flatten := by
  simpa [ofShares, ofList, List.foldl_map] using foldl_merge_ofList shares id []

inductive Op (ι : Type)
  | record (into : ι) (o : Outcome)
  | merge (into source : ι)

variable {ι : Type} [DecidableEq ι]

def Op.apply (registers : ι → Tally) : Op ι → ι → Tally
  | .record into o => Function.update registers into ((registers into).record o)
  | .merge into source =>
    Function.update registers into ((registers into).merge (registers source))

def Op.gather (contents : ι → Multiset Outcome) : Op ι → ι → Multiset Outcome
  | .record into o => Function.update contents into (o ::ₘ contents into)
  | .merge into source => Function.update contents into (contents into + contents source)

def run (program : List (Op ι)) : ι → Tally := program.foldl Op.apply fun _ => empty

def gathered (program : List (Op ι)) : ι → Multiset Outcome := program.foldl Op.gather fun _ => 0

/-- Each register is the tally of its outcomes, recorded one by one in some order. -/
def Keeps (registers : ι → Tally) (contents : ι → Multiset Outcome) : Prop :=
  ∀ i, ∃ outcomes : List Outcome, registers i = ofList outcomes ∧ outcomes = contents i

omit [DecidableEq ι] in
theorem Keeps.empty : Keeps (fun _ : ι => Tally.empty) fun _ => 0 :=
  fun _ => ⟨[], rfl, rfl⟩

theorem Keeps.update {registers : ι → Tally} {contents : ι → Multiset Outcome}
    (keeps : Keeps registers contents) (into : ι) {outcomes : List Outcome}
    {bag : Multiset Outcome} (stands : outcomes = bag) :
    Keeps (Function.update registers into (ofList outcomes))
      (Function.update contents into bag) := by
  intro i
  by_cases touched : i = into
  · subst touched
    exact ⟨outcomes, by simp, by simpa using stands⟩
  · simpa [touched] using keeps i

theorem Keeps.apply {registers : ι → Tally} {contents : ι → Multiset Outcome}
    (keeps : Keeps registers contents) (op : Op ι) :
    Keeps (op.apply registers) (op.gather contents) := by
  cases op with
  | record into o =>
      obtain ⟨outcomes, holds, stands⟩ := keeps into
      have recorded : (registers into).record o = ofList (outcomes ++ [o]) := by
        rw [ofList_concat, holds]
      rw [Op.apply, Op.gather, recorded]
      refine keeps.update into ?_
      rw [← stands, ← Multiset.coe_add, Multiset.coe_singleton, Multiset.add_comm,
        Multiset.singleton_add]
  | merge into source =>
      obtain ⟨outcomes, holds, stands⟩ := keeps into
      obtain ⟨more, holdsMore, standsMore⟩ := keeps source
      -- A copy of the register itself is no special case: its list then comes twice.
      have merged : (registers into).merge (registers source) = ofList (outcomes ++ more) := by
        rw [holds, holdsMore, merge_ofList]
      rw [Op.apply, Op.gather, merged]
      refine keeps.update into ?_
      rw [← stands, ← standsMore, Multiset.coe_add]

theorem Keeps.foldl {registers : ι → Tally} {contents : ι → Multiset Outcome}
    (keeps : Keeps registers contents) (program : List (Op ι)) :
    Keeps (program.foldl Op.apply registers) (program.foldl Op.gather contents) := by
  induction program generalizing registers contents with
  | nil => exact keeps
  | cons op rest ih => exact ih (keeps.apply op)

theorem keeps_run (program : List (Op ι)) : Keeps (run program) (gathered program) :=
  Keeps.empty.foldl program

theorem run_isTallyOf (program : List (Op ι)) (i : ι) :
    IsTallyOf (gathered program i) (run program i) := by
  obtain ⟨outcomes, holds, stands⟩ := keeps_run program i
  rw [holds, ← stands]
  exact isTallyOf_ofList outcomes

end Tally

theorem Report.notes_congr (r : Report) (users : Nat) {t other : Tally}
    (same : t.figures = other.figures) :
    { r with tally := t }.endNote users = { r with tally := other }.endNote users ∧
      { r with tally := t }.notes = { r with tally := other }.notes := by
  simp only [Tally.figures, Tally.Figures.mk.injEq] at same
  obtain ⟨total, passed, failed, statuses, failures, passRate, latency⟩ := same
  constructor
  · simp only [endNote, total, passed, failed]
  · simp only [notes, passShare, rate, Tally.rate, total, passed, failed, statuses, failures,
      passRate, latency]

namespace Tally

/-- Each register is the tally of what it has accumulated, and registers with the same outcomes show
the same, in whatever order and shares these were recorded. -/
theorem registers_tally_multisets {ι : Type} [DecidableEq ι] :
    (∀ (program : List (Op ι)) (i : ι), IsTallyOf (gathered program i) (run program i)) ∧
    (∀ (program other : List (Op ι)) (i j : ι), gathered program i = gathered other j →
      (run program i).figures = (run other j).figures) ∧
    (∀ (program : List (Op ι)) (i j k : ι),
      ((run program i).merge (run program j)).figures =
        ((run program j).merge (run program i)).figures ∧
      ((run program i).merge (run program j)).merge (run program k) =
        (run program i).merge ((run program j).merge (run program k)) ∧
      (run program i).merge empty = run program i ∧
      empty.merge (run program i) = run program i) ∧
    (∀ (shares : List (List Outcome)) (outcomes : List Outcome), shares.flatten.Perm outcomes →
      (ofShares shares).figures = (ofList outcomes).figures ∧
      ∀ (r : Report) (users : Nat),
        { r with tally := ofShares shares }.endNote users =
          { r with tally := ofList outcomes }.endNote users ∧
        { r with tally := ofShares shares }.notes = { r with tally := ofList outcomes }.notes) := by
  refine ⟨run_isTallyOf, ?_, ?_, ?_⟩
  · intro program other i j same
    exact (run_isTallyOf program i).figures_eq (same ▸ run_isTallyOf other j)
  · intro program i j k
    obtain ⟨first, holdsFirst, -⟩ := keeps_run program i
    obtain ⟨second, holdsSecond, -⟩ := keeps_run program j
    obtain ⟨third, holdsThird, -⟩ := keeps_run program k
    rw [holdsFirst, holdsSecond, holdsThird]
    refine ⟨?_, ?_, ?_, ?_⟩
    · rw [merge_ofList, merge_ofList]
      exact figures_ofList_perm List.perm_append_comm
    · simp only [merge_ofList, List.append_assoc]
    · simpa [ofList] using merge_ofList first []
    · simpa [ofList] using merge_ofList [] first
  · intro shares outcomes split
    rw [ofShares_eq]
    have same := figures_ofList_perm split
    exact ⟨same, fun r users => r.notes_congr users same⟩

def answered : Outcome := .ofStatus "status is 200" 200 200 (.ofMillis 10) "content000" "uid0"

def unanswered : Outcome :=
  .ofFailure "status is 200" .timeout "timeout" (.ofMillis 5000) "content000" "uid0"

theorem registers_tally_multisets_copied :
    (run [.record false answered, .merge false false] false).figures =
      (run [.record true answered, .record true answered] true).figures ∧
    (ofShares [[unanswered], [answered]]).figures = (ofList [answered, unanswered]).figures :=
  ⟨registers_tally_multisets.2.1 _ _ _ _ rfl,
    (registers_tally_multisets (ι := Bool).2.2.2 [[unanswered], [answered]] _ (.swap ..)).1⟩

end Tally

end Volley
