import Mathlib.Data.List.Induction
import Volley.Proofs.Toml.Ordered

namespace Volley.Toml

variable {base overlay value : Toml} {old entries : List (String × Toml)} {key : String}
  {path : List String} {layers : List Toml}

def at? : List String → Toml → Option Toml
  | [], value => some value
  | key :: path, .table entries => (entries.lookup key).bind (at? path)
  | _ :: _, _ => none

def Open : List String → Toml → Prop
  | [], _ => True
  | key :: path, .table entries => ∀ value, entries.lookup key = some value → Open path value
  | _ :: _, _ => False

def isTable : Toml → Bool
  | .table _ => true
  | _ => false

theorem Open.exists_table (opens : value.Open (key :: path)) :
    ∃ entries, value = .table entries := by
  cases value with
  | table entries => exact ⟨entries, rfl⟩
  | _ => cases opens

theorem merge_of_isTable_eq_false (flat : overlay.isTable = false) :
    base.merge overlay = overlay := by
  cases overlay with
  | table entries => cases flat
  | _ => rw [merge]; simp

theorem lookup_mergeEntries (sorted : Keyed.Sorted entries) (key : String) :
    (mergeEntries old entries).lookup key = match entries.lookup key with
      | none => old.lookup key
      | some value => some (match old.lookup key with
        | some under => under.merge value
        | none => value) := by
  induction entries generalizing old with
  | nil => rfl
  | cons entry rest ih =>
      obtain ⟨k, value⟩ := entry
      obtain ⟨below, sorted⟩ := Keyed.sorted_cons.1 sorted
      rw [mergeEntries, ih sorted, Keyed.lookup_insert, List.lookup_cons]
      by_cases same : key = k
      · subst same
        have absent : rest.lookup key = none := Keyed.lookup_eq_none_of_lt below
        cases under : old.lookup key <;> simp [absent]
      · simp [same, beq_eq_false_iff_ne.2 same]

theorem Ordered.merge (ordered : overlay.Ordered) (before : base.Ordered) :
    (base.merge overlay).Ordered := by
  induction ordered generalizing base with
  | @table entries sorted each ih =>
      have onto : ∀ {old : List (String × Toml)}, Keyed.Sorted old →
          (∀ e ∈ old, e.2.Ordered) → Ordered (.table (mergeEntries old entries)) := by
        clear sorted
        induction entries with
        | nil => exact fun sorted each => .table sorted each
        | cons entry rest later =>
            obtain ⟨k, value⟩ := entry
            intro old sorted known
            have value : ∀ {under : Toml}, under.Ordered → (under.merge value).Ordered :=
              fun under => ih (k, value) List.mem_cons_self under
            rw [mergeEntries]
            apply later (fun e member => each e (List.mem_cons_of_mem _ member))
              (fun e member => ih e (List.mem_cons_of_mem _ member)) (sorted.insert k _)
            intro e member
            rcases Keyed.mem_insert member with rfl | member
            · dsimp only
              split
              · rename_i found
                exact value (known _ (Keyed.mem_of_lookup found))
              · exact each (k, _) List.mem_cons_self
            · exact known e member
      cases before with
      | table sorted each => simpa [Toml.merge] using onto sorted each
      | _ => simpa [Toml.merge] using Ordered.table sorted each
  | text => simpa [Toml.merge] using Ordered.text _
  | integer => simpa [Toml.merge] using Ordered.integer _
  | fraction => simpa [Toml.merge] using Ordered.fraction _
  | boolean => simpa [Toml.merge] using Ordered.boolean _
  | moment => simpa [Toml.merge] using Ordered.moment _
  | array each => simpa [Toml.merge] using Ordered.array each

/-- What a merged value has at the end of a path, given what the base and the overlay have. -/
def overlaid (under above : Option Toml) : Option Toml :=
  match above with
  | none => under
  | some value => some (match under with
    | some under => under.merge value
    | none => value)

end Volley.Toml
