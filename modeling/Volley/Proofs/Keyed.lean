import Volley.Keyed

namespace Volley.Keyed

variable {α : Type} {entries : List (String × α)} {key other : String} {value : α}

def Sorted (entries : List (String × α)) : Prop := entries.Pairwise fun a b => a.1 < b.1

theorem sorted_nil : Sorted ([] : List (String × α)) := List.Pairwise.nil

theorem sorted_cons {entry : String × α} {rest : List (String × α)} :
    Sorted (entry :: rest) ↔ (∀ e ∈ rest, entry.1 < e.1) ∧ Sorted rest :=
  List.pairwise_cons

theorem mem_insert {entry : String × α} (member : entry ∈ insert key value entries) :
    entry = (key, value) ∨ entry ∈ entries := by
  induction entries with
  | nil => simpa [insert] using member
  | cons first rest ih =>
      obtain ⟨k, v⟩ := first
      simp only [insert] at member
      split at member
      · rcases List.mem_cons.1 member with rfl | later
        · exact .inl rfl
        · exact .inr (List.mem_cons_of_mem _ later)
      · split at member
        · simpa using member
        · rcases List.mem_cons.1 member with rfl | later
          · exact .inr List.mem_cons_self
          · exact (ih later).imp_right (List.mem_cons_of_mem _)

theorem Sorted.insert (sorted : Sorted entries) (key : String) (value : α) :
    Sorted (insert key value entries) := by
  induction entries with
  | nil => simp [Keyed.insert, Sorted]
  | cons first rest ih =>
      obtain ⟨k, v⟩ := first
      have below := (sorted_cons.1 sorted).1
      by_cases same : key = k
      · subst same
        have replaced : Sorted ((key, value) :: rest) :=
          sorted_cons.2 ⟨below, (sorted_cons.1 sorted).2⟩
        simpa [Keyed.insert] using replaced
      · by_cases before : key < k
        · have first : ∀ e ∈ (k, v) :: rest, key < e.1 := by
            intro entry member
            rcases List.mem_cons.1 member with rfl | later
            · exact before
            · exact String.lt_trans before (below entry later)
          simpa [Keyed.insert, same, before] using sorted_cons.2 ⟨first, sorted⟩
        · have after : k < key := Std.lt_of_le_of_ne (String.not_lt.1 before) (Ne.symm same)
          have first : ∀ e ∈ Keyed.insert key value rest, k < e.1 := by
            intro entry member
            rcases mem_insert member with rfl | later
            · exact after
            · exact below entry later
          simpa [Keyed.insert, same, before] using
            sorted_cons.2 ⟨first, ih (sorted_cons.1 sorted).2⟩

theorem lookup_eq_none_of_lt (below : ∀ e ∈ entries, key < e.1) : entries.lookup key = none := by
  rw [List.lookup_eq_none_iff]
  intro entry member
  have different : key ≠ entry.1 := by
    intro same
    have less := below entry member
    rw [same] at less
    exact String.lt_irrefl _ less
  simpa using different

theorem mem_of_lookup (found : entries.lookup key = some value) : (key, value) ∈ entries := by
  obtain ⟨before, after, rfl, -⟩ := List.lookup_eq_some_iff.1 found
  simp

theorem Sorted.lookup_eq_some_iff (sorted : Sorted entries) :
    entries.lookup key = some value ↔ (key, value) ∈ entries := by
  refine ⟨mem_of_lookup, fun member => ?_⟩
  induction entries with
  | nil => cases member
  | cons first rest ih =>
      obtain ⟨below, sorted⟩ := sorted_cons.1 sorted
      rcases List.mem_cons.1 member with rfl | later
      · simp
      · have different : key ≠ first.1 := by
          intro same
          have less := below (key, value) later
          rw [← same] at less
          exact String.lt_irrefl _ less
        rw [List.lookup_cons, beq_eq_false_iff_ne.2 different]
        exact ih sorted later

theorem lookup_foldl_insert {new : List (String × α)} (sorted : Sorted new)
    (old : List (String × α)) (key : String) :
    (new.foldl (fun entries (k, v) => insert k v entries) old).lookup key =
      (new.lookup key <|> old.lookup key) := by
  induction new generalizing old with
  | nil => rfl
  | cons entry rest ih =>
      obtain ⟨k, v⟩ := entry
      obtain ⟨below, sorted⟩ := sorted_cons.1 sorted
      rw [List.foldl_cons, ih sorted, lookup_insert]
      by_cases same : key = k
      · subst same
        rw [lookup_eq_none_of_lt below, if_pos rfl, List.lookup_cons_self]
        rfl
      · rw [if_neg same, List.lookup_cons, beq_eq_false_iff_ne.2 same]

theorem mem_keys_iff : key ∈ entries.map Prod.fst ↔ (entries.lookup key).isSome = true := by
  rw [List.lookup_isSome_iff, List.mem_map]
  simp only [beq_iff_eq, @eq_comm _ key]

theorem Sorted.nodup (sorted : Sorted entries) : entries.Nodup := by
  refine List.Pairwise.imp (fun {a b} less same => ?_) sorted
  rw [same] at less
  exact String.lt_irrefl _ less

theorem Sorted.ext {others : List (String × α)} (first : Sorted entries) (second : Sorted others)
    (same : ∀ key, entries.lookup key = others.lookup key) : entries = others := by
  have members : ∀ e, e ∈ entries ↔ e ∈ others := by
    intro e
    rw [← first.lookup_eq_some_iff, ← second.lookup_eq_some_iff, same]
  have perm := (List.perm_ext_iff_of_nodup first.nodup second.nodup).2 members
  refine perm.eq_of_pairwise (fun a b _ _ less more => ?_) first second
  exact absurd (String.lt_trans less more) (String.lt_irrefl _)

end Volley.Keyed
