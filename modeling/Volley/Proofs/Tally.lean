import Mathlib.Algebra.GroupWithZero.Nat
import Mathlib.Data.List.Induction
import Volley.Tally

namespace Volley

namespace Counts

variable {κ : Type} [DecidableEq κ] {rank : κ → Nat}

theorem add_add_self (counts : Counts κ) (k : κ) (m n : Nat) :
    (counts.add rank k m).add rank k n = counts.add rank k (m + n) := by
  induction counts with
  | nil => simp [add]
  | cons entry rest ih =>
      obtain ⟨key, count⟩ := entry
      by_cases same : key = k
      · simp [add, same, Nat.add_assoc]
      · by_cases before : rank k < rank key
        · simp [add, same, before]
        · simp [add, same, before, ih]

theorem add_add_of_lt (counts : Counts κ) {k l : κ} (below : rank k < rank l) (m n : Nat) :
    (counts.add rank k m).add rank l n = (counts.add rank l n).add rank k m := by
  have different : k ≠ l := fun same => by simp [same] at below
  have notBelow : ¬ rank l < rank k := by omega
  induction counts with
  | nil => simp [add, different, different.symm, below, notBelow]
  | cons entry rest ih =>
      obtain ⟨key, count⟩ := entry
      by_cases first : key = k
      · subst first
        simp [add, different, notBelow]
      · by_cases second : key = l
        · subst second
          simp [add, first, different, below, notBelow]
        · by_cases beforeFirst : rank k < rank key
          · by_cases beforeSecond : rank l < rank key
            · simp [add, first, second, different, different.symm, below, notBelow, beforeFirst,
                beforeSecond]
            · simp [add, first, second, different, notBelow, beforeFirst, beforeSecond]
          · have notBefore : ¬ rank l < rank key := by omega
            simp [add, first, second, beforeFirst, notBefore, ih]

theorem add_add_comm (counts : Counts κ) (distinct : Function.Injective rank) (k l : κ)
    (m n : Nat) :
    (counts.add rank k m).add rank l n = (counts.add rank l n).add rank k m := by
  rcases Nat.lt_trichotomy (rank k) (rank l) with below | same | above
  · exact add_add_of_lt counts below m n
  · cases distinct same
    rw [add_add_self, add_add_self, Nat.add_comm]
  · exact (add_add_of_lt counts above n m).symm

theorem add_merge (counts other : Counts κ) (distinct : Function.Injective rank) (k : κ) (n : Nat) :
    (counts.add rank k n).merge rank other = (counts.merge rank other).add rank k n := by
  induction other generalizing counts with
  | nil => rfl
  | cons entry rest ih =>
      obtain ⟨key, count⟩ := entry
      simp only [merge, List.foldl_cons] at ih ⊢
      rw [add_add_comm counts distinct, ih]

theorem merge_add (counts other : Counts κ) (distinct : Function.Injective rank) (k : κ) (n : Nat) :
    counts.merge rank (other.add rank k n) = (counts.merge rank other).add rank k n := by
  induction other generalizing counts with
  | nil => rfl
  | cons entry rest ih =>
      obtain ⟨key, count⟩ := entry
      have pull := add_merge (counts.add rank key count) rest distinct k n
      simp only [merge, List.foldl_cons] at pull ih ⊢
      by_cases same : key = k
      · subst same
        simp [add, ← pull, add_add_self]
      · by_cases before : rank k < rank key
        · simp [add, same, before, ← pull, add_add_comm counts distinct k key]
        · simp [add, same, before, ih]

theorem sum_add (counts : Counts κ) (k : κ) (n : Nat) :
    ((counts.add rank k n).map (·.2)).sum = (counts.map (·.2)).sum + n := by
  induction counts with
  | nil => simp [add]
  | cons entry rest ih =>
      obtain ⟨key, count⟩ := entry
      by_cases same : key = k
      · simp [add, same]
        omega
      · by_cases before : rank k < rank key
        · simp [add, same, before]
          omega
        · simp [add, same, before, ih]
          omega

def get (counts : Counts κ) (k : κ) : Nat := (counts.lookup k).getD 0

def Sorted (rank : κ → Nat) (counts : Counts κ) : Prop :=
  counts.Pairwise fun a b => rank a.1 < rank b.1

theorem get_cons (key other : κ) (count : Nat) (rest : Counts κ) :
    get ((key, count) :: rest) other = if other = key then count else rest.get other := by
  by_cases same : other = key
  · simp [get, same]
  · simp [get, same, List.lookup_cons, beq_eq_false_iff_ne.2 same]

omit [DecidableEq κ] in
theorem sorted_cons {entry : κ × Nat} {rest : Counts κ} :
    Sorted rank (entry :: rest) ↔ (∀ e ∈ rest, rank entry.1 < rank e.1) ∧ Sorted rank rest :=
  List.pairwise_cons

theorem mem_add {counts : Counts κ} {k : κ} {n : Nat} {entry : κ × Nat}
    (member : entry ∈ counts.add rank k n) : (entry.1 = k ∧ n ≤ entry.2) ∨ entry ∈ counts := by
  induction counts with
  | nil =>
      simp only [add, List.mem_singleton] at member
      exact .inl (by simp [member])
  | cons first rest ih =>
      obtain ⟨key, count⟩ := first
      by_cases same : key = k
      · simp only [add, same, if_true, List.mem_cons] at member
        rcases member with rfl | later
        · exact .inl ⟨rfl, Nat.le_add_left n count⟩
        · exact .inr (List.mem_cons_of_mem _ later)
      · by_cases before : rank k < rank key
        · simp only [add, same, before, if_true, if_false, List.mem_cons] at member
          rcases member with rfl | later
          · exact .inl ⟨rfl, Nat.le_refl n⟩
          · exact .inr (List.mem_cons.2 later)
        · simp only [add, same, before, if_false, List.mem_cons] at member
          rcases member with rfl | later
          · exact .inr List.mem_cons_self
          · exact (ih later).imp_right (List.mem_cons_of_mem _)

theorem Sorted.add {counts : Counts κ} (sorted : Sorted rank counts)
    (distinct : Function.Injective rank) (k : κ) (n : Nat) : Sorted rank (counts.add rank k n) := by
  induction counts with
  | nil => simp [Counts.add, Sorted]
  | cons first rest ih =>
      obtain ⟨key, count⟩ := first
      obtain ⟨below, later⟩ := sorted_cons.1 sorted
      by_cases same : key = k
      · simpa [Counts.add, same, Sorted] using sorted
      · by_cases before : rank k < rank key
        · have first : ∀ e ∈ (key, count) :: rest, rank k < rank e.1 := by
            intro entry member
            rcases List.mem_cons.1 member with rfl | member
            · exact before
            · exact Nat.lt_trans before (below entry member)
          simpa [Counts.add, same, before] using sorted_cons.2 ⟨first, sorted⟩
        · have after : rank key < rank k := by
            have different : rank key ≠ rank k := fun equal => same (distinct equal)
            omega
          have first : ∀ e ∈ Counts.add rank k n rest, rank key < rank e.1 := by
            intro entry member
            rcases mem_add member with ⟨added, -⟩ | old
            · rw [added]
              exact after
            · exact below entry old
          simpa [Counts.add, same, before] using sorted_cons.2 ⟨first, ih later⟩

theorem get_eq_zero {counts : Counts κ} {k : κ} (below : ∀ e ∈ counts, rank k < rank e.1) :
    counts.get k = 0 := by
  have absent : counts.lookup k = none := by
    rw [List.lookup_eq_none_iff]
    intro entry member
    have less := below entry member
    have different : k ≠ entry.1 := fun equal => by simp [equal] at less
    simpa using different
  simp [get, absent]

theorem get_add {counts : Counts κ} (sorted : Sorted rank counts) (k other : κ) (n : Nat) :
    (counts.add rank k n).get other = counts.get other + if other = k then n else 0 := by
  induction counts with
  | nil =>
      rw [add, get_cons]
      exact (Nat.zero_add _).symm
  | cons first rest ih =>
      obtain ⟨key, count⟩ := first
      obtain ⟨below, later⟩ := sorted_cons.1 sorted
      by_cases same : key = k
      · subst same
        by_cases asked : other = key <;> simp [add, get_cons, asked]
      · by_cases before : rank k < rank key
        · by_cases asked : other = k
          · subst asked
            -- All keys that follow are greater.
            have absent : get rest other = 0 :=
              get_eq_zero fun e member => Nat.lt_trans before (below e member)
            simp [add, get_cons, same, Ne.symm same, before, absent]
          · simp [add, get_cons, same, before, asked]
        · by_cases asked : other = key
          · subst asked
            simp [add, get_cons, same, before]
          · simp [add, get_cons, same, before, asked, ih later]

omit [DecidableEq κ] in
theorem Sorted.nodup {counts : Counts κ} (sorted : Sorted rank counts) : counts.Nodup := by
  refine sorted.imp fun less same => ?_
  rw [same] at less
  exact Nat.lt_irrefl _ less

theorem Sorted.get_of_mem {counts : Counts κ} (sorted : Sorted rank counts) {k : κ} {n : Nat}
    (member : (k, n) ∈ counts) : counts.get k = n := by
  induction counts with
  | nil => cases member
  | cons first rest ih =>
      obtain ⟨below, later⟩ := sorted_cons.1 sorted
      rcases List.mem_cons.1 member with rfl | member
      · simp [get_cons]
      · have different : k ≠ first.1 := fun same => by
          have less := below _ member
          simp [same] at less
        rw [get_cons, if_neg different]
        exact ih later member

theorem mem_of_get_pos {counts : Counts κ} {k : κ} (positive : 0 < counts.get k) :
    (k, counts.get k) ∈ counts := by
  induction counts with
  | nil => cases positive
  | cons first rest ih =>
      rw [get_cons] at positive ⊢
      by_cases asked : k = first.1
      · subst asked
        simp
      · rw [if_neg asked] at positive ⊢
        exact List.mem_cons_of_mem _ (ih positive)

/-- The counts hold each key that occurs with the number of its occurrences, in the order of the
keys, and no other key. -/
structure Exact (rank : κ → Nat) (occurrences : κ → Nat) (counts : Counts κ) : Prop where
  sorted : Sorted rank counts
  mem_iff : ∀ k n, (k, n) ∈ counts ↔ 0 < n ∧ n = occurrences k

theorem Sorted.exact {counts : Counts κ} (sorted : Sorted rank counts)
    (positive : ∀ e ∈ counts, 0 < e.2) : Exact rank counts.get counts := by
  refine ⟨sorted, fun k n => ⟨fun member => ?_, ?_⟩⟩
  · exact ⟨positive _ member, (sorted.get_of_mem member).symm⟩
  · rintro ⟨positive, rfl⟩
    exact mem_of_get_pos positive

omit [DecidableEq κ] in
theorem Exact.unique {counts others : Counts κ} {occurrences : κ → Nat}
    (first : Exact rank occurrences counts) (second : Exact rank occurrences others) :
    counts = others := by
  have members : ∀ e, e ∈ counts ↔ e ∈ others := fun e => by rw [first.mem_iff, second.mem_iff]
  have perm := (List.perm_ext_iff_of_nodup first.sorted.nodup second.sorted.nodup).2 members
  refine perm.eq_of_pairwise (fun a b _ _ less more => ?_) first.sorted second.sorted
  exact absurd (Nat.lt_trans less more) (Nat.lt_irrefl _)

theorem Exact.get {counts : Counts κ} {occurrences : κ → Nat}
    (exact : Exact rank occurrences counts) (k : κ) : counts.get k = occurrences k := by
  by_cases positive : 0 < counts.get k
  · exact ((exact.mem_iff k _).1 (mem_of_get_pos positive)).2
  -- A key without an entry does not occur, or its number would be an entry.
  · by_contra different
    have member := (exact.mem_iff k (occurrences k)).2 ⟨by omega, rfl⟩
    exact different (exact.sorted.get_of_mem member)

theorem Exact.add {counts : Counts κ} {occurrences : κ → Nat}
    (exact : Exact rank occurrences counts) (distinct : Function.Injective rank) (k : κ) {n : Nat}
    (positive : 0 < n) :
    Exact rank (fun other => occurrences other + if other = k then n else 0)
      (counts.add rank k n) := by
  have entries : ∀ e ∈ counts.add rank k n, 0 < e.2 := by
    intro entry member
    rcases mem_add member with ⟨-, counted⟩ | old
    · exact Nat.lt_of_lt_of_le positive counted
    · exact ((exact.mem_iff _ _).1 old).1
  have counted := (exact.sorted.add distinct k n).exact entries
  simpa only [funext (get_add exact.sorted k · n), exact.get] using counted

def ofKeys (rank : κ → Nat) (keys : List κ) : Counts κ :=
  keys.foldl (fun counts k => counts.add rank k 1) []

theorem ofKeys_concat (keys : List κ) (k : κ) :
    ofKeys rank (keys ++ [k]) = (ofKeys rank keys).add rank k 1 := by
  simp [ofKeys]

theorem ofKeys_exact (distinct : Function.Injective rank) (keys : List κ) :
    Exact rank (fun k => keys.count k) (ofKeys rank keys) := by
  -- The counts grow with the last key.
  induction keys using List.reverseRecOn with
  | nil => exact ⟨List.Pairwise.nil, fun k n => by simp [ofKeys]; omega⟩
  | append_singleton keys k ih =>
      have occurrences : ∀ other, (keys ++ [k]).count other =
          keys.count other + if other = k then 1 else 0 := by
        intro other
        by_cases same : other = k
        · simp [same]
        · simp [same, Ne.symm same]
      rw [ofKeys_concat, funext occurrences]
      exact ih.add distinct k Nat.one_pos

end Counts

theorem FailureKind.rank_injective : Function.Injective FailureKind.rank := by
  intro a b same
  cases a <;> cases b <;> simp_all [FailureKind.rank]

theorem status_rank_injective : Function.Injective UInt16.toNat := fun _ _ => UInt16.toNat_inj.1

namespace Tally

theorem merge_record (t other : Tally) (o : Outcome) :
    t.merge (other.record o) = (t.merge other).record o := by
  unfold merge record
  congr 1
  · cases o.passed <;> rfl
  · cases o.passed <;> rfl
  · cases o.status? with
    | none => rfl
    | some status => exact Counts.merge_add _ _ status_rank_injective status 1
  · cases o.failure? with
    | none => rfl
    | some kind => exact Counts.merge_add _ _ FailureKind.rank_injective kind 1

theorem ofList_append (outcomes more : List Outcome) :
    ofList (outcomes ++ more) = more.foldl record (ofList outcomes) :=
  List.foldl_append

theorem ofList_concat (outcomes : List Outcome) (o : Outcome) :
    ofList (outcomes ++ [o]) = (ofList outcomes).record o :=
  ofList_append outcomes [o]

theorem foldl_record_eq_merge (t : Tally) (outcomes : List Outcome) :
    outcomes.foldl record t = t.merge (ofList outcomes) := by
  induction outcomes using List.reverseRecOn with
  | nil => rfl
  | append_singleton outcomes o ih =>
      rw [List.foldl_append, ih, ofList_concat, merge_record]
      rfl

theorem merge_ofList (outcomes more : List Outcome) :
    (ofList outcomes).merge (ofList more) = ofList (outcomes ++ more) := by
  rw [ofList_append, foldl_record_eq_merge]

theorem foldl_merge_ofList {α : Type} (items : List α) (outcomes : α → List Outcome)
    (before : List Outcome) :
    items.foldl (fun sum item => sum.merge (ofList (outcomes item))) (ofList before) =
      ofList (before ++ items.flatMap outcomes) := by
  induction items generalizing before with
  | nil => simp
  | cons item rest ih =>
      rw [List.foldl_cons, merge_ofList, ih, List.flatMap_cons, List.append_assoc]

theorem total_ofList (outcomes : List Outcome) : (ofList outcomes).total = outcomes.length := by
  induction outcomes using List.reverseRecOn with
  | nil => rfl
  | append_singleton outcomes o ih => simp [ofList_concat, record, ih]

theorem passed_add_failed (outcomes : List Outcome) :
    (ofList outcomes).passed + (ofList outcomes).failed = outcomes.length := by
  induction outcomes using List.reverseRecOn with
  | nil => rfl
  | append_singleton outcomes o ih =>
      rw [ofList_concat, List.length_append, ← ih]
      cases passed : o.passed <;> simp [record, passed] <;> omega

theorem statuses_add_failures (outcomes : List Outcome) :
    ((ofList outcomes).statuses.map (·.2)).sum + ((ofList outcomes).failures.map (·.2)).sum =
      outcomes.length := by
  induction outcomes using List.reverseRecOn with
  | nil => rfl
  | append_singleton outcomes o ih =>
      rw [ofList_concat, List.length_append, ← ih]
      cases verdict : o.verdict with
      | answered status passed =>
          simp [record, Outcome.status?, Outcome.failure?, verdict, Counts.sum_add]
          omega
      | failed kind message =>
          simp [record, Outcome.status?, Outcome.failure?, verdict, Counts.sum_add]
          omega

theorem passed_ofList (outcomes : List Outcome) :
    (ofList outcomes).passed = outcomes.countP (·.passed) := by
  induction outcomes using List.reverseRecOn with
  | nil => rfl
  | append_singleton outcomes o ih =>
      rw [ofList_concat, List.countP_append, ← ih]
      cases passed : o.passed <;> simp [record, passed]

theorem failed_ofList (outcomes : List Outcome) :
    (ofList outcomes).failed = outcomes.countP (!·.passed) := by
  induction outcomes using List.reverseRecOn with
  | nil => rfl
  | append_singleton outcomes o ih =>
      rw [ofList_concat, List.countP_append, ← ih]
      cases passed : o.passed <;> simp [record, passed]

theorem statuses_ofList (outcomes : List Outcome) :
    (ofList outcomes).statuses = .ofKeys UInt16.toNat (outcomes.filterMap (·.status?)) := by
  induction outcomes using List.reverseRecOn with
  | nil => rfl
  | append_singleton outcomes o ih =>
      rw [ofList_concat]
      cases status : o.status? with
      | none => simp [record, status, ih]
      | some s => simp [record, status, ih, Counts.ofKeys_concat]

theorem failures_ofList (outcomes : List Outcome) :
    (ofList outcomes).failures = .ofKeys FailureKind.rank (outcomes.filterMap (·.failure?)) := by
  induction outcomes using List.reverseRecOn with
  | nil => rfl
  | append_singleton outcomes o ih =>
      rw [ofList_concat]
      cases failure : o.failure? with
      | none => simp [record, failure, ih]
      | some kind => simp [record, failure, ih, Counts.ofKeys_concat]

theorem statuses_exact (outcomes : List Outcome) :
    Counts.Exact UInt16.toNat (fun status => outcomes.countP (·.status? = some status))
      (ofList outcomes).statuses := by
  have exact := Counts.ofKeys_exact status_rank_injective (outcomes.filterMap (·.status?))
  simpa [statuses_ofList, List.count_filterMap, beq_eq_decide] using exact

theorem failures_exact (outcomes : List Outcome) :
    Counts.Exact FailureKind.rank (fun kind => outcomes.countP (·.failure? = some kind))
      (ofList outcomes).failures := by
  have exact := Counts.ofKeys_exact FailureKind.rank_injective (outcomes.filterMap (·.failure?))
  simpa [failures_ofList, List.count_filterMap, beq_eq_decide] using exact

theorem get_statuses (outcomes : List Outcome) (status : UInt16) :
    (ofList outcomes).statuses.get status = outcomes.countP (·.status? = some status) :=
  (statuses_exact outcomes).get status

theorem get_failures (outcomes : List Outcome) (kind : FailureKind) :
    (ofList outcomes).failures.get kind = outcomes.countP (·.failure? = some kind) :=
  (failures_exact outcomes).get kind

theorem latencies_ofList (outcomes : List Outcome) :
    (ofList outcomes).latencies = outcomes.reverse.map latencyOf := by
  induction outcomes using List.reverseRecOn with
  | nil => rfl
  | append_singleton outcomes o ih => simp [ofList_concat, record, ih]

end Tally

namespace LatencySummary

theorem place_lt (share : Nat) {count : Nat} (positive : 0 < count) :
    place share count < count := by
  have below : Nat.min (rank share count) count ≤ count := Nat.min_le_right _ _
  simp only [place, Nat.max_def]
  split <;> omega

end LatencySummary

end Volley
