/-! Lists of entries in the order of their keys, one entry a key. -/

namespace Volley.Keyed

variable {α : Type}

/-- Puts a value under a key: in place of the value there, or where the key belongs. -/
def insert (key : String) (value : α) : List (String × α) → List (String × α)
  | [] => [(key, value)]
  | (k, v) :: rest =>
    if key = k then (key, value) :: rest
    else if key < k then (key, value) :: (k, v) :: rest
    else (k, v) :: insert key value rest

theorem lookup_insert (key other : String) (value : α) (entries : List (String × α)) :
    (insert key value entries).lookup other =
      if other = key then some value else entries.lookup other := by
  induction entries with
  | nil =>
    by_cases h : other = key
    · simp [insert, h]
    · simp [insert, h]
  | cons entry rest ih =>
    obtain ⟨k, v⟩ := entry
    by_cases hk : key = k
    · by_cases h : other = k
      · simp [insert, hk, h]
      · simp [insert, hk, h, List.lookup_cons, beq_eq_false_iff_ne.2 h]
    · by_cases hl : key < k
      · by_cases h : other = key
        · simp [insert, hk, hl, h]
        · simp [insert, hk, hl, h, List.lookup_cons, beq_eq_false_iff_ne.2 h]
      · by_cases h : other = k
        · subst h
          simp [insert, hk, hl, Ne.symm hk]
        · simp [insert, hk, hl, List.lookup_cons, beq_eq_false_iff_ne.2 h, ih]

end Volley.Keyed
