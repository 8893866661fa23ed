import Mathlib.Algebra.Order.BigOperators.Group.Multiset
import Mathlib.Algebra.Order.Floor.Div
import Mathlib.Data.Multiset.Sort
import Mathlib.Order.Bounds.Basic
import Volley.Proofs.Decimal.Binary64
import Volley.Proofs.Registers

/-!
With fewer than `2 ^ 32` samples neither the distance of a share from its percentage nor the
rounding of the product moves its ceiling (`rank_eq`).
-/

namespace Volley.LatencySummary

/-- The share, over `2 ^ 53`, is nearest to `percent` hundredths and not above them. -/
structure IsShare (percent share : Nat) : Prop where
  percent_pos : 0 < percent
  percent_le : percent ≤ 100
  lt_one : share < 2 ^ 53
  le : 100 * share ≤ percent * 2 ^ 53
  near : percent * 2 ^ 53 ≤ 100 * share + 50

theorem isShare_half : IsShare 50 half := by constructor <;> decide

theorem isShare_ninetyFive : IsShare 95 ninetyFive := by constructor <;> decide

theorem isShare_ninetyNine : IsShare 99 ninetyNine := by constructor <;> decide

variable {percent share count : Nat}

theorem rank_eq (shares : IsShare percent share) (few : count < 2 ^ 32) :
    rank share count = (percent * count) ⌈/⌉ 100 := by
  obtain ⟨-, -, ltOne, le, near⟩ := shares
  have wide : share * count < 2 ^ 85 := by
    rw [Nat.pow_add 2 53 32]
    exact Nat.mul_lt_mul'' ltOne few
  have steps : Binary64.unit (share * count) ∣ 2 ^ 32 := Binary64.unit_dvd wide (by decide)
  have step := Nat.le_of_dvd (by decide) steps
  obtain ⟨rounded, -⟩ := Binary64.roundSignificant_near (share * count)
  have atMost : 100 * (share * count) ≤ percent * count * 2 ^ 53 := by
    rw [← Nat.mul_assoc, Nat.mul_right_comm percent]
    exact Nat.mul_le_mul_right count le
  have atLeast : percent * count * 2 ^ 53 ≤ 100 * (share * count) + 50 * count := by
    rw [← Nat.mul_assoc, Nat.mul_right_comm percent, ← Nat.add_mul]
    exact Nat.mul_le_mul_right count near
  rw [rank, Binary64.roundSignificant_of_lt (Nat.lt_trans few (by decide)),
    Nat.ceilDiv_eq_add_pred_div]
  generalize ranked : (percent * count + 100 - 1) / 100 = k
  -- A whole rank is itself a double, so rounding does not pass it.
  have notAbove : Binary64.roundSignificant (share * count) ≤ 2 ^ 32 * (2 ^ 21 * k) :=
    Binary64.roundSignificant_le (Nat.dvd_mul_right_of_dvd steps _) (by omega)
  -- The product lies above the rank before by more than both errors together.
  have above : k * 2 ^ 53 < Binary64.roundSignificant (share * count) + 2 ^ 53 := by omega
  omega

example : rank ninetyFive 100 = 95 ∧ rank ninetyFive 101 = 96 := by decide +kernel

theorem place_eq (shares : IsShare percent share) (few : count < 2 ^ 32) :
    place share count = (percent * count) ⌈/⌉ 100 - 1 := by
  have within : (percent * count) ⌈/⌉ 100 ≤ count := by
    rw [ceilDiv_le_iff_le_mul (by decide)]
    exact Nat.mul_le_mul_right count shares.percent_le
  have capped : Nat.min ((percent * count) ⌈/⌉ 100) count = (percent * count) ⌈/⌉ 100 :=
    Nat.min_eq_left within
  simp only [place, rank_eq shares few, capped, Nat.max_def]
  split <;> omega

variable {sorted : List Nat} {j : Nat}

theorem countP_lt_getElem (ordered : sorted.SortedLE) (inside : j < sorted.length) :
    sorted.countP (· < sorted[j]) ≤ j := by
  have none : (sorted.drop j).countP (· < sorted[j]) = 0 := by
    rw [List.countP_eq_zero]
    intro v member
    obtain ⟨i, within, rfl⟩ := List.mem_drop_iff_getElem.1 member
    simpa using ordered.getElem_le_getElem_of_le (Nat.le_add_right j i)
  calc sorted.countP (· < sorted[j])
      = (sorted.take j).countP (· < sorted[j]) + (sorted.drop j).countP (· < sorted[j]) := by
        rw [← List.countP_append, List.take_append_drop]
    _ ≤ (sorted.take j).length + 0 := Nat.add_le_add List.countP_le_length none.le
    _ ≤ j := by simp

theorem lt_countP_le_getElem (ordered : sorted.SortedLE) (inside : j < sorted.length) :
    j < sorted.countP (· ≤ sorted[j]) := by
  have all : (sorted.take (j + 1)).countP (· ≤ sorted[j]) = (sorted.take (j + 1)).length := by
    rw [List.countP_eq_length]
    intro v member
    obtain ⟨i, within, rfl⟩ := List.mem_take_iff_getElem.1 member
    simpa using ordered.getElem_le_getElem_of_le (by omega)
  calc j < (sorted.take (j + 1)).length := by rw [List.length_take]; omega
    _ = (sorted.take (j + 1)).countP (· ≤ sorted[j]) := all.symm
    _ ≤ sorted.countP (· ≤ sorted[j]) := (List.take_sublist _ _).countP_le

/-- The percentile by nearest rank: the sample that stands at the rank, and so the least one that
enough of the samples do not exceed. -/
structure IsPercentile (percent : Nat) (samples : Multiset Nat) (v : Nat) : Prop where
  rank_pos : 0 < (percent * samples.card) ⌈/⌉ 100
  stands : (samples.sort (· ≤ ·))[(percent * samples.card) ⌈/⌉ 100 - 1]? = some v
  least : IsLeast {w | w ∈ samples ∧ percent * samples.card ≤ 100 * samples.countP (· ≤ w)} v

theorem isPercentile_percentile (shares : IsShare percent share) (ordered : sorted.SortedLE)
    (filled : 0 < sorted.length) (few : sorted.length < 2 ^ 32) :
    IsPercentile percent sorted (percentile share sorted) := by
  have inside := place_lt share filled
  have placed := place_eq shares few
  have positive : 0 < (percent * sorted.length) ⌈/⌉ 100 := by
    have := Nat.mul_pos shares.percent_pos filled
    rw [Nat.ceilDiv_eq_add_pred_div]
    omega
  have stands : percentile share sorted = sorted[place share sorted.length] := by
    rw [percentile, List.getD_eq_getElem?_getD, List.getElem?_eq_getElem inside, Option.getD_some]
  have enough : (percent * sorted.length) ⌈/⌉ 100 = place share sorted.length + 1 := by omega
  rw [stands]
  refine ⟨positive, ?_, ⟨?_, ?_⟩, ?_⟩
  · rw [Multiset.coe_sort, Multiset.coe_card, ← placed, List.mergeSort_eq_self _ ordered.pairwise,
      List.getElem?_eq_getElem inside]
  · exact List.getElem_mem inside
  · have counted := lt_countP_le_getElem ordered inside
    rw [Multiset.coe_card, Multiset.coe_countP, ← ceilDiv_le_iff_le_mul (by decide)]
    omega
  · rintro w ⟨-, reached⟩
    rw [Multiset.coe_card, Multiset.coe_countP, ← ceilDiv_le_iff_le_mul (by decide)] at reached
    by_contra below
    have fewer : sorted.countP (· ≤ w) ≤ sorted.countP (· < sorted[place share sorted.length]) :=
      List.countP_mono_left fun v _ le => by simp at le ⊢; omega
    have counted := countP_lt_getElem ordered inside
    omega

theorem IsPercentile.mono {samples : Multiset Nat} {percent more v w : Nat}
    (lower : IsPercentile percent samples v) (upper : IsPercentile more samples w)
    (le : percent ≤ more) : v ≤ w := by
  obtain ⟨member, reached⟩ := upper.least.1
  exact lower.least.2 ⟨member, (Nat.mul_le_mul_right _ le).trans reached⟩

theorem foldl_words (samples : List Nat) {sum : Nat} (word : sum < 2 ^ 128) :
    samples.foldl (fun sum sample => (sum + sample) % 2 ^ 128) sum =
      (sum + samples.sum) % 2 ^ 128 := by
  induction samples generalizing sum with
  | nil => simp [Nat.mod_eq_of_lt word]
  | cons sample rest ih =>
      rw [List.foldl_cons, ih (Nat.mod_lt _ (by decide)), List.sum_cons, Nat.mod_add_mod,
        Nat.add_assoc]

theorem sum_lt_words {samples : List Nat} (words : ∀ v ∈ samples, v < 2 ^ 64)
    (filled : 0 < samples.length) : samples.sum < samples.length * 2 ^ 64 := by
  have most : samples.sum ≤ samples.length • (2 ^ 64 - 1) :=
    List.sum_le_card_nsmul _ _ fun v member => Nat.le_sub_one_of_lt (words v member)
  rw [smul_eq_mul] at most
  omega

theorem meanOf_eq {samples : List Nat} (words : ∀ v ∈ samples, v < 2 ^ 64)
    (filled : 0 < samples.length) (few : samples.length < 2 ^ 32) :
    meanOf samples = samples.sum / samples.length := by
  have sum := sum_lt_words words filled
  have mean : samples.sum / samples.length < 2 ^ 64 := Nat.div_lt_of_lt_mul sum
  have fits : samples.sum < 2 ^ 128 := by omega
  rw [meanOf, foldl_words samples (by decide), Nat.zero_add, Nat.mod_eq_of_lt fits,
    Nat.mod_eq_of_lt mean]

structure IsSummaryOf (samples : Multiset Nat) (s : LatencySummary) : Prop where
  min : IsLeast {v | v ∈ samples} s.min
  max : IsGreatest {v | v ∈ samples} s.max
  mean : s.mean = samples.sum / samples.card
  p50 : IsPercentile 50 samples s.p50
  p95 : IsPercentile 95 samples s.p95
  p99 : IsPercentile 99 samples s.p99

namespace IsSummaryOf

variable {samples : Multiset Nat} {s : LatencySummary}

theorem ordered (summary : IsSummaryOf samples s) :
    s.min ≤ s.p50 ∧ s.p50 ≤ s.p95 ∧ s.p95 ≤ s.p99 ∧ s.p99 ≤ s.max :=
  ⟨summary.min.2 summary.p50.least.1.1, summary.p50.mono summary.p95 (by decide),
    summary.p95.mono summary.p99 (by decide), summary.max.2 summary.p99.least.1.1⟩

theorem mean_between (summary : IsSummaryOf samples s) : s.min ≤ s.mean ∧ s.mean ≤ s.max := by
  have positive : 0 < samples.card := Multiset.card_pos_iff_exists_mem.2 ⟨_, summary.min.1⟩
  have least : samples.card • s.min ≤ samples.sum :=
    Multiset.card_nsmul_le_sum fun v member => summary.min.2 member
  have most : samples.sum ≤ samples.card • s.max :=
    Multiset.sum_le_card_nsmul _ _ fun v member => summary.max.2 member
  rw [smul_eq_mul] at least most
  rw [summary.mean]
  refine ⟨?_, Nat.div_le_of_le_mul most⟩
  rw [Nat.le_div_iff_mul_le positive, Nat.mul_comm]
  exact least

end IsSummaryOf

theorem le_getLast {sorted : List Nat} (ordered : sorted.SortedLE) (filled : sorted ≠ []) :
    ∀ v ∈ sorted, v ≤ sorted.getLast filled := by
  intro v member
  obtain ⟨j, inside, rfl⟩ := List.getElem_of_mem member
  rw [List.getLast_eq_getElem]
  exact ordered.getElem_le_getElem_of_le (by omega)

theorem ofSamples_exact {samples : List Nat} (words : ∀ v ∈ samples, v < 2 ^ 64)
    (filled : 0 < samples.length) (few : samples.length < 2 ^ 32) :
    ∃ s, ofSamples samples = some s ∧ s.IsSummaryOf samples := by
  have perm := List.mergeSort_perm samples (· ≤ ·)
  have ordered : (samples.mergeSort (· ≤ ·)).SortedLE := List.sortedLE_mergeSort
  unfold ofSamples
  cases sorted : samples.mergeSort with
  | nil =>
      rw [sorted] at perm
      rw [← perm.length_eq] at filled
      exact absurd filled (Nat.lt_irrefl 0)
  | cons least rest =>
      rw [sorted] at perm ordered
      rw [← perm.length_eq] at filled few
      have wordsSorted : ∀ v ∈ least :: rest, v < 2 ^ 64 := fun v member =>
        words v (perm.subset member)
      refine ⟨_, rfl, ?_⟩
      rw [← Multiset.coe_eq_coe.2 perm]
      constructor
      case min =>
        refine ⟨List.mem_cons_self, fun v member => ?_⟩
        rcases List.mem_cons.1 member with rfl | later
        · exact Nat.le_refl _
        · exact (List.pairwise_cons.1 ordered.pairwise).1 v later
      case max =>
        rw [← List.getLast_eq_getLastD (List.cons_ne_nil least rest)]
        exact ⟨List.getLast_mem _, le_getLast ordered _⟩
      case mean => simpa using meanOf_eq wordsSorted filled few
      case p50 => exact isPercentile_percentile isShare_half ordered filled few
      case p95 => exact isPercentile_percentile isShare_ninetyFive ordered filled few
      case p99 => exact isPercentile_percentile isShare_ninetyNine ordered filled few

end Volley.LatencySummary

namespace Volley.Tally

variable {ι : Type} [DecidableEq ι]

/-- The latencies of a register are summarised exactly, however they came into it. -/
theorem latencySummary_exact (program : List (Op ι)) (i : ι)
    (filled : 1 ≤ (gathered program i).card) (few : (gathered program i).card < 2 ^ 32) :
    let latencies := (gathered program i).map fun o => min o.latency.micros (2 ^ 64 - 1)
    ∃ s, (run program i).latencySummary = some s ∧ s.IsSummaryOf latencies ∧
      latencies.sum < 2 ^ 128 ∧ s.mean < 2 ^ 64 ∧
      (s.min ≤ s.p50 ∧ s.p50 ≤ s.p95 ∧ s.p95 ≤ s.p99 ∧ s.p99 ≤ s.max) ∧
      s.min ≤ s.mean ∧ s.mean ≤ s.max := by
  intro latencies
  have held : ((run program i).latencies : Multiset Nat) = latencies :=
    (run_isTallyOf program i).latencies
  have count : (run program i).latencies.length = (gathered program i).card := by
    rw [← Multiset.coe_card, held, Multiset.card_map]
  have words : ∀ v ∈ (run program i).latencies, v < 2 ^ 64 := by
    intro v member
    rw [← Multiset.mem_coe, held, Multiset.mem_map] at member
    obtain ⟨o, -, rfl⟩ := member
    omega
  rw [← count] at filled few
  obtain ⟨s, summed, summary⟩ := LatencySummary.ofSamples_exact words filled few
  have sum := LatencySummary.sum_lt_words words filled
  rw [← Multiset.sum_coe] at sum
  rw [held] at summary sum
  have greatest : s.max < 2 ^ 64 := by
    have member : s.max ∈ latencies := summary.max.1
    rw [← held] at member
    exact words _ member
  have between := summary.mean_between
  exact ⟨s, summed, summary, by omega, Nat.lt_of_le_of_lt between.2 greatest, summary.ordered,
    between⟩

def copiedProgram : List (Op Unit) := [.record () answered, .merge () (), .record () unanswered]

theorem latencySummary_exact_copied :
    ∃ s, (run copiedProgram ()).latencySummary = some s ∧
      s.IsSummaryOf {5000000, 10000, 10000} ∧ s.mean = 1673333 ∧ s.p50 ≤ s.p95 := by
  obtain ⟨s, summed, summary, -, -, ⟨-, ordered, -⟩, -⟩ :=
    latencySummary_exact copiedProgram () (by decide) (by decide)
  exact ⟨s, summed, summary, summary.mean, ordered⟩

end Volley.Tally
