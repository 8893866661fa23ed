import Volley.Proofs.Toml.Merge

/-! Two merges are the same as soon as they give the same under every key. -/

namespace Volley.Toml

variable {base middle overlay top value : Toml} {old entries : List (String × Toml)} {key : String}
  {front path : List String}

theorem at?_append (front path : List String) (value : Toml) :
    value.at? (front ++ path) = (value.at? front).bind (at? path) := by
  induction front generalizing value with
  | nil => rfl
  | cons key front ih =>
      cases value with
      | table entries =>
          rw [List.cons_append, at?, at?, Option.bind_assoc]
          exact congrArg _ (funext ih)
      | _ => rfl

theorem Ordered.at? (ordered : overlay.Ordered) (found : overlay.at? path = some value) :
    value.Ordered := by
  induction path generalizing overlay with
  | nil =>
      cases found
      exact ordered
  | cons key path ih =>
      cases ordered with
      | table sorted each =>
          obtain ⟨inner, under, found⟩ := Option.bind_eq_some_iff.1 found
          exact ih (each _ (Keyed.mem_of_lookup under)) found
      | _ => cases found

theorem at?_merge_of_set (ordered : overlay.Ordered) (set : overlay.at? path = some value) :
    (base.merge overlay).at? path = overlaid (base.at? path) (some value) := by
  induction path generalizing base overlay with
  | nil =>
      cases set
      rfl
  | cons key path ih =>
      cases ordered with
      | table sorted each =>
          obtain ⟨above, own, set⟩ := Option.bind_eq_some_iff.1 set
          cases base with
          | table old =>
              rw [merge, at?, at?, lookup_mergeEntries sorted, own]
              cases under : old.lookup key with
              | none => exact set
              | some below => exact ih (each _ (Keyed.mem_of_lookup own)) set
          | _ =>
              rw [merge, at?, own]
              · exact set
              · rintro _ ⟨⟩
      | _ => cases set

theorem at?_merge_of_lacking (ordered : overlay.Ordered)
    (under : base.at? front = some (.table old)) (above : overlay.at? front = some (.table entries))
    (lacking : entries.lookup key = none) (path : List String) :
    (base.merge overlay).at? (front ++ key :: path) = base.at? (front ++ key :: path) := by
  cases ordered.at? above with
  | table sorted each =>
      rw [at?_append, at?_append, at?_merge_of_set ordered above, under]
      simp only [overlaid, merge, Option.bind_some, at?, lookup_mergeEntries sorted, lacking]

theorem at?_merge_of_isTable_eq_false (ordered : overlay.Ordered)
    (above : overlay.at? path = some value) (flat : value.isTable = false) :
    (base.merge overlay).at? path = some value := by
  rw [at?_merge_of_set ordered above]
  cases base.at? path with
  | none => rfl
  | some under => exact congrArg some (merge_of_isTable_eq_false flat)

def entriesOf : Toml → List (String × Toml)
  | .table entries => entries
  | _ => []

@[simp] theorem entriesOf_table (entries : List (String × Toml)) :
    (table entries).entriesOf = entries := rfl

theorem merge_of_flat_base (flat : base.isTable = false) : base.merge overlay = overlay := by
  cases overlay with
  | table entries =>
      cases base with
      | table old => cases flat
      | _ => simp [merge]
  | _ => exact merge_of_isTable_eq_false rfl

theorem sorted_mergeEntries (sorted : Keyed.Sorted old) :
    Keyed.Sorted (mergeEntries old entries) := by
  induction entries generalizing old with
  | nil => exact sorted
  | cons entry rest ih => exact ih (sorted.insert entry.1 _)

theorem merge_table (sorted : Keyed.Sorted entries) :
    base.merge (.table entries) = .table (mergeEntries base.entriesOf entries) := by
  have onNothing : mergeEntries [] entries = entries := by
    refine (sorted_mergeEntries Keyed.sorted_nil).ext sorted fun key => ?_
    rw [lookup_mergeEntries sorted]
    cases entries.lookup key <;> rfl
  cases base with
  | table old => rw [merge, entriesOf_table]
  | _ => exact (merge_of_flat_base rfl).trans (congrArg Toml.table onNothing.symm)

theorem lookup_mergeEntries_eq (sorted : Keyed.Sorted entries) (key : String) :
    (mergeEntries old entries).lookup key = overlaid (old.lookup key) (entries.lookup key) :=
  lookup_mergeEntries sorted key

theorem mem_keys_mergeEntries (sorted : Keyed.Sorted entries) :
    key ∈ (mergeEntries old entries).map Prod.fst ↔
      key ∈ old.map Prod.fst ∨ key ∈ entries.map Prod.fst := by
  rw [Keyed.mem_keys_iff, Keyed.mem_keys_iff, Keyed.mem_keys_iff, lookup_mergeEntries sorted]
  cases entries.lookup key <;> simp

theorem Ordered.sorted_entriesOf (ordered : base.Ordered) : Keyed.Sorted base.entriesOf := by
  cases ordered with
  | table sorted each => exact sorted
  | _ => exact Keyed.sorted_nil

theorem Ordered.of_lookup (ordered : base.Ordered)
    (found : base.entriesOf.lookup key = some value) : value.Ordered := by
  cases ordered with
  | table sorted each => exact each _ (Keyed.mem_of_lookup found)
  | _ => cases found

theorem merge_merge_self (ordered : overlay.Ordered) (before : base.Ordered) :
    (base.merge overlay).merge overlay = base.merge overlay := by
  induction ordered generalizing base with
  | @table entries sorted each ih =>
      have kept : Keyed.Sorted (mergeEntries base.entriesOf entries) :=
        sorted_mergeEntries before.sorted_entriesOf
      rw [merge_table sorted, merge_table sorted]
      refine congrArg Toml.table ((sorted_mergeEntries kept).ext kept fun key => ?_)
      simp only [lookup_mergeEntries_eq sorted]
      cases own : entries.lookup key with
      | none => rfl
      | some value =>
          have again : ∀ {below : Toml}, below.Ordered →
              (below.merge value).merge value = below.merge value :=
            ih (key, value) (Keyed.mem_of_lookup own)
          cases under : base.entriesOf.lookup key with
          | none =>
              -- What is laid over nothing is as if it were laid over a value that is no table.
              have overFlat : (boolean false).merge value = value := merge_of_flat_base rfl
              have once := again (.boolean false)
              rw [overFlat] at once
              exact congrArg some once
          | some below => exact congrArg some (again (before.of_lookup under))
  | text | integer | fraction | boolean | moment | array =>
      exact merge_of_isTable_eq_false rfl

/-- No path leads to a table in one value and to something else in the other. -/
def Alike (a b : Toml) : Prop :=
  ∀ path x y, a.at? path = some x → b.at? path = some y → x.isTable = y.isTable

theorem Alike.of_lookup {x y : Toml} (alike : (table old).Alike (table entries))
    (first : old.lookup key = some x) (second : entries.lookup key = some y) : x.Alike y := by
  intro path u v under above
  exact alike (key :: path) u v (by simpa [at?, first] using under)
    (by simpa [at?, second] using above)

theorem alike_table (each : ∀ key x y, old.lookup key = some x → entries.lookup key = some y →
    x.Alike y) : (table old).Alike (table entries) := by
  intro path u v under above
  cases path with
  | nil =>
      cases under
      cases above
      rfl
  | cons key path =>
      obtain ⟨x, first, under⟩ := Option.bind_eq_some_iff.1 under
      obtain ⟨y, second, above⟩ := Option.bind_eq_some_iff.1 above
      exact each key x y first second path u v under above

theorem alike_single {y : Toml} (each : ∀ x, old.lookup key = some x → x.Alike y) :
    (table old).Alike (table [(key, y)]) := by
  refine alike_table fun other x z first second => ?_
  obtain ⟨same, rfl⟩ : other = key ∧ y = z := by
    by_cases same : other = key
    · simpa [same] using second
    · simp [List.lookup_cons, beq_eq_false_iff_ne.2 same] at second
  exact each x (same ▸ first)

theorem at?_of_flat (flat : value.isTable = false) : value.at? (key :: path) = none := by
  cases value with
  | table entries => cases flat
  | _ => rfl

theorem alike_of_flat {x y : Toml} (first : x.isTable = false) (second : y.isTable = false) :
    x.Alike y := by
  intro path u v under above
  cases path with
  | nil =>
      cases under
      cases above
      rw [first, second]
  | cons key path => simp [at?_of_flat first] at under

theorem exists_table (tabular : value.isTable = true) : ∃ entries, value = .table entries := by
  cases value with
  | table entries => exact ⟨entries, rfl⟩
  | _ => cases tabular

theorem overlaid_assoc {x y z : Option Toml} (each : ∀ a b c, x = some a → y = some b → z = some c →
    (a.merge b).merge c = a.merge (b.merge c)) :
    overlaid (overlaid x y) z = overlaid x (overlaid y z) := by
  cases z with
  | none => rfl
  | some c =>
      cases y with
      | none => rfl
      | some b =>
          cases x with
          | none => rfl
          | some a => exact congrArg some (each a b c rfl rfl rfl)

theorem merge_assoc_of_flat (flat : top.isTable = false) :
    (base.merge middle).merge top = base.merge (middle.merge top) := by
  simp only [merge_of_isTable_eq_false flat]

theorem merge_assoc (lower : base.Ordered) (ordered : middle.Ordered) (upper : top.Ordered)
    (first : base.Alike middle) (second : middle.Alike top) (third : base.Alike top) :
    (base.merge middle).merge top = base.merge (middle.merge top) := by
  -- Only tables on top have parts that are merged.
  induction upper generalizing base middle with
  | @table entries sorted each ih =>
      obtain ⟨under, rfl⟩ := exists_table (third [] _ _ rfl rfl)
      obtain ⟨between, rfl⟩ := exists_table (second [] _ _ rfl rfl)
      cases ordered with
      | table sortedBetween eachBetween =>
          have kept : Keyed.Sorted under := lower.sorted_entriesOf
          have above : Keyed.Sorted (mergeEntries _ entries) := sorted_mergeEntries sortedBetween
          simp only [merge_table sorted, merge_table sortedBetween, merge_table above,
            entriesOf_table]
          refine congrArg Toml.table
            ((sorted_mergeEntries (sorted_mergeEntries kept)).ext (sorted_mergeEntries kept)
              fun key => ?_)
          simp only [lookup_mergeEntries_eq sorted, lookup_mergeEntries_eq sortedBetween,
            lookup_mergeEntries_eq above]
          refine overlaid_assoc fun x y z lowest higher highest => ?_
          exact ih (key, z) (Keyed.mem_of_lookup highest) (lower.of_lookup lowest)
            (eachBetween _ (Keyed.mem_of_lookup higher)) (first.of_lookup lowest higher)
            (second.of_lookup higher highest) (third.of_lookup lowest highest)
  | text | integer | fraction | boolean | moment | array =>
      exact merge_assoc_of_flat rfl

/-- What the merge of two values has at each path. To merge the same overlay again changes nothing,
and three values that agree on where their tables are can be merged from either end. -/
theorem merge_pathwise (before : base.Ordered) (ordered : overlay.Ordered) :
    (base.merge overlay).Ordered ∧
    (∀ path,
      (∀ value, overlay.at? path = some value → value.isTable = false →
        (base.merge overlay).at? path = some value) ∧
      (∀ old entries, base.at? path = some (.table old) →
        overlay.at? path = some (.table entries) →
        ∃ merged, (base.merge overlay).at? path = some (.table merged) ∧
          ∀ key, key ∈ merged.map Prod.fst ↔
            key ∈ old.map Prod.fst ∨ key ∈ entries.map Prod.fst) ∧
      (∀ entries, overlay.at? path = some (.table entries) →
        (∀ old, base.at? path ≠ some (.table old)) →
        (base.merge overlay).at? path = overlay.at? path) ∧
      (∀ front key rest old entries, path = front ++ key :: rest →
        overlay.at? front = some (.table entries) → entries.lookup key = none →
        base.at? front = some (.table old) →
        (base.merge overlay).at? path = base.at? path)) ∧
    (base.merge overlay).merge overlay = base.merge overlay ∧
    ∀ top : Toml, top.Ordered → base.Alike overlay → overlay.Alike top → base.Alike top →
      (base.merge overlay).merge top = base.merge (overlay.merge top) := by
  refine ⟨ordered.merge before, fun path => ⟨?_, ?_, ?_, ?_⟩, merge_merge_self ordered before,
    fun top upper => merge_assoc before ordered upper⟩
  · exact fun value => at?_merge_of_isTable_eq_false ordered
  · intro old entries under above
    cases ordered.at? above with
    | table sorted each =>
        refine ⟨mergeEntries old entries, ?_, fun key => mem_keys_mergeEntries sorted⟩
        rw [at?_merge_of_set ordered above, under]
        exact congrArg some (merge_table sorted)
  · intro entries above absent
    rw [at?_merge_of_set ordered above, above]
    cases under : base.at? path with
    | none => rfl
    | some below =>
        have flat : below.isTable = false := by
          cases below with
          | table old => exact absurd under (absent old)
          | _ => rfl
        exact congrArg some (merge_of_flat_base flat)
  · rintro front key rest old entries rfl above lacking under
    exact at?_merge_of_lacking ordered under above lacking rest

def plainLayer : Toml :=
  .table [("load", .table [("rate", .integer 1), ("users", .integer 2)]), ("log", .text "info")]

def upperLayer : Toml := .table [("load", .table [("rate", .array [.integer 3])])]

def thirdLayer : Toml := .table [("load", .table [("seed", .integer 7)])]

theorem merge_pathwise_layers :
    (plainLayer.merge upperLayer).at? ["load", "rate"] = some (.array [.integer 3]) ∧
    (plainLayer.merge upperLayer).at? ["load", "users"] = some (.integer 2) ∧
    (plainLayer.merge upperLayer).merge upperLayer = plainLayer.merge upperLayer ∧
    (plainLayer.merge upperLayer).merge thirdLayer =
      plainLayer.merge (upperLayer.merge thirdLayer) := by
  have sorted : ∀ {a b : String} {x y : Toml}, a < b → Keyed.Sorted [(a, x), (b, y)] := by
    simp [Keyed.Sorted]
  have plainLoad : (table [("rate", .integer 1), ("users", .integer 2)]).Ordered :=
    .table (sorted (by decide)) (by simpa using ⟨.integer 1, .integer 2⟩)
  have plain : plainLayer.Ordered :=
    .table (sorted (by decide)) (by simpa using ⟨plainLoad, .text "info"⟩)
  have single : ∀ {a : String} {x : Toml}, x.Ordered → (table [(a, x)]).Ordered :=
    fun ordered => .table (List.pairwise_singleton _ _) (by simpa using ordered)
  have upper : upperLayer.Ordered := single (single (.array (by simpa using .integer 3)))
  have third : thirdLayer.Ordered := single (single (.integer 7))
  obtain ⟨-, paths, again, assoc⟩ := merge_pathwise plain upper
  refine ⟨(paths _).1 _ rfl rfl, ?_, again, assoc thirdLayer third ?_ ?_ ?_⟩
  · exact (paths _).2.2.2 ["load"] "users" [] _ _ rfl rfl rfl rfl
  · refine alike_single ?_
    rintro _ ⟨⟩
    refine alike_single ?_
    rintro _ ⟨⟩
    exact alike_of_flat rfl rfl
  · refine alike_single ?_
    rintro _ ⟨⟩
    refine alike_single ?_
    rintro _ ⟨⟩
  · refine alike_single ?_
    rintro _ ⟨⟩
    refine alike_single ?_
    rintro _ ⟨⟩

end Volley.Toml
