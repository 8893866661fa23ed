import Volley.Proofs.Keyed
import Volley.Toml.Reader

namespace Volley.Toml

inductive Ordered : Toml → Prop
  | text (value : String) : Ordered (.text value)
  | integer (value : Int) : Ordered (.integer value)
  | fraction (value : Option Binary64) : Ordered (.fraction value)
  | boolean (value : Bool) : Ordered (.boolean value)
  | moment (text : String) : Ordered (.moment text)
  | array {items : List Toml} (each : ∀ item ∈ items, Ordered item) : Ordered (.array items)
  | table {entries : List (String × Toml)} (sorted : Keyed.Sorted entries)
      (each : ∀ e ∈ entries, Ordered e.2) : Ordered (.table entries)

/-! ## Drafts -/

namespace Draft

variable {entries changed : Entries} {draft : Draft} {key : String} {value : Toml}
  {change : Entries → Option Entries}

inductive Ordered : Draft → Prop
  | value {value : Toml} (ordered : value.Ordered) : Ordered (.value value)
  | table {growth : Growth} {entries : Entries} (sorted : Keyed.Sorted entries)
      (each : ∀ e ∈ entries, Ordered e.2) : Ordered (.table growth entries)
  | tables {earlier : List Toml} {last : Entries} (items : ∀ item ∈ earlier, item.Ordered)
      (sorted : Keyed.Sorted last) (each : ∀ e ∈ last, Ordered e.2) :
      Ordered (.tables earlier last)

structure OrderedEntries (entries : Entries) : Prop where
  sorted : Keyed.Sorted entries
  each : ∀ e ∈ entries, Ordered e.2

theorem ordered_nil : OrderedEntries [] :=
  ⟨Keyed.sorted_nil, by simp⟩

theorem OrderedEntries.insert (ordered : OrderedEntries entries) (key : String)
    (new : Ordered draft) : OrderedEntries (Keyed.insert key draft entries) := by
  refine ⟨ordered.sorted.insert key draft, ?_⟩
  intro e member
  rcases Keyed.mem_insert member with rfl | old
  · exact new
  · exact ordered.each e old

theorem OrderedEntries.insert_of_bind {α : Type} {part : Option α} {wrap : α → Draft}
    (before : OrderedEntries entries) (ordered : ∀ a, part = some a → Ordered (wrap a))
    (made : (part >>= fun a => some (Keyed.insert key (wrap a) entries)) = some changed) :
    OrderedEntries changed := by
  obtain ⟨a, given, made⟩ := Option.bind_eq_some_iff.1 made
  cases made
  exact before.insert key (ordered a given)

theorem OrderedEntries.lookup (ordered : OrderedEntries entries)
    (found : entries.lookup key = some draft) : Ordered draft :=
  ordered.each _ (Keyed.mem_of_lookup found)

theorem finishEntries_eq_map (entries : Entries) :
    finishEntries entries = entries.map fun e => (e.1, finish e.2) := by
  induction entries with
  | nil => rfl
  | cons e rest ih => rw [finishEntries, ih, List.map_cons]

theorem ordered_finishEntries (sorted : Keyed.Sorted entries)
    (each : ∀ e ∈ entries, (finish e.2).Ordered) :
    Toml.Ordered (.table (finishEntries entries)) := by
  rw [finishEntries_eq_map]
  apply Toml.Ordered.table
  · exact List.pairwise_map.2 sorted
  · intro e member
    obtain ⟨old, known, rfl⟩ := List.mem_map.1 member
    exact each old known

theorem Ordered.finish (ordered : Ordered draft) : (finish draft).Ordered := by
  induction ordered with
  | value ordered => exact ordered
  | table sorted _ each => exact ordered_finishEntries sorted each
  | tables items sorted _ each =>
      apply Toml.Ordered.array
      intro item member
      rcases List.mem_append.1 member with earlier | last
      · exact items item earlier
      · cases List.mem_singleton.1 last
        exact ordered_finishEntries sorted each

theorem OrderedEntries.finish (ordered : OrderedEntries entries) :
    Toml.Ordered (.table (finishEntries entries)) :=
  ordered_finishEntries ordered.sorted fun e member => (ordered.each e member).finish

def Keeps (change : Entries → Option Entries) : Prop :=
  ∀ entries changed, OrderedEntries entries → change entries = some changed →
    OrderedEntries changed

theorem keeps_assign (ordered : value.Ordered) (key : String) (path : List String) :
    Keeps fun entries => assign value entries key path := by
  induction path generalizing key with
  | nil =>
      intro entries changed before made
      simp only [assign] at made
      split at made
      · cases made
      · cases made
        exact before.insert key (.value ordered)
  | cons next path ih =>
      intro entries changed before made
      simp only [assign] at made
      split at made
      · refine before.insert_of_bind (fun inner added => ?_) made
        have inner := ih next _ _ ordered_nil added
        exact .table inner.sorted inner.each
      · rename_i found
        cases before.lookup found with
        | table sorted each =>
            split at made
            · cases made
            · refine before.insert_of_bind (fun inner added => ?_) made
              have inner := ih next _ _ ⟨sorted, each⟩ added
              exact .table inner.sorted inner.each
      · rename_i found
        cases before.lookup found with
        | tables items sorted each =>
            split at made
            · cases made
            · refine before.insert_of_bind (fun last added => ?_) made
              have last := ih next _ _ ⟨sorted, each⟩ added
              exact .tables items last.sorted last.each
      · cases made

theorem keeps_enter (kept : Keeps change) (key : String) : Keeps (enter change key) := by
  intro entries changed before made
  unfold enter at made
  dsimp only at made
  split at made
  · refine before.insert_of_bind (fun draft entered => ?_) made
    obtain ⟨inner, added, rfl⟩ := Option.map_eq_some_iff.1 entered
    have inner := kept _ _ ordered_nil added
    exact .table inner.sorted inner.each
  · rename_i found
    refine before.insert_of_bind (fun draft entered => ?_) made
    obtain ⟨inner, added, rfl⟩ := Option.map_eq_some_iff.1 entered
    cases before.lookup found with
    | table sorted each =>
        have inner := kept _ _ ⟨sorted, each⟩ added
        exact .table inner.sorted inner.each
  · rename_i found
    refine before.insert_of_bind (fun draft entered => ?_) made
    obtain ⟨last, added, rfl⟩ := Option.map_eq_some_iff.1 entered
    cases before.lookup found with
    | tables items sorted each =>
        have last := kept _ _ ⟨sorted, each⟩ added
        exact .tables items last.sorted last.each
  · cases made

theorem keeps_within (kept : Keeps change) (path : List String) : Keeps (within change path) := by
  induction path with
  | nil => exact kept
  | cons key path ih => exact keeps_enter ih key

theorem keeps_openTable (key : String) : Keeps (openTable key) := by
  intro entries changed before made
  unfold openTable at made
  split at made
  · cases made
    exact before.insert key (.table Keyed.sorted_nil (by simp))
  · rename_i found
    cases made
    cases before.lookup found with
    | table sorted each => exact before.insert key (.table sorted each)
  · cases made

theorem keeps_openItem (key : String) : Keeps (openItem key) := by
  intro entries changed before made
  unfold openItem at made
  split at made
  · cases made
    exact before.insert key (.tables (by simp) Keyed.sorted_nil (by simp))
  · rename_i found
    cases made
    cases before.lookup found with
    | tables items sorted each =>
        refine before.insert key (.tables ?_ Keyed.sorted_nil (by simp))
        intro item member
        rcases List.mem_append.1 member with earlier | last
        · exact items item earlier
        · cases List.mem_singleton.1 last
          exact OrderedEntries.finish ⟨sorted, each⟩
  · cases made

end Draft

/-! ## Scanners -/

namespace Scan

variable {α β : Type} {scan : Scan α} {next : α → Scan β} {property : α → Prop}
  {result : β → Prop}

def Yields (scan : Scan α) (property : α → Prop) : Prop :=
  ∀ cs a rest, scan cs = some (a, rest) → property a

theorem yields_true (scan : Scan α) : Yields scan fun _ => True :=
  fun _ _ _ _ => trivial

theorem yields_pure {a : α} (holds : property a) : Yields (pure a) property := by
  intro cs b rest read
  cases read
  exact holds

theorem yields_failure : Yields (failure : Scan α) property := by
  intro cs a rest read
  cases read

theorem Yields.bind (first : Yields scan property)
    (later : ∀ a, property a → Yields (next a) result) : Yields (scan >>= next) result := by
  intro cs b rest read
  obtain ⟨⟨a, left⟩, got, read⟩ := Option.bind_eq_some_iff.1 read
  exact later a (first _ _ _ got) _ _ _ read

theorem yields_after (later : ∀ a, Yields (next a) result) : Yields (scan >>= next) result :=
  Yields.bind (yields_true scan) fun a _ => later a

theorem yields_lift {value : Option α} (holds : ∀ a, value = some a → property a) :
    Yields (value : Scan α) property := by
  intro cs a rest read
  cases value with
  | none => cases read
  | some b =>
      cases read
      exact holds a rfl

end Scan

/-! ## Values without quotes -/

namespace Numeral

theorem ordered_of_exponent {negative : Bool} {whole places cs : List Char} {value : Toml}
    (read : (exponent? cs >>= fun e => some (fraction negative whole places e)) = some value) :
    value.Ordered := by
  obtain ⟨exponent, -, read⟩ := Option.bind_eq_some_iff.1 read
  cases read
  exact .fraction _

theorem ordered_decimal {negative : Bool} {cs : List Char} {value : Toml}
    (read : decimal negative cs = some value) : value.Ordered := by
  obtain ⟨whole, -, read⟩ := Option.bind_eq_some_iff.1 read
  split at read
  · cases read
    exact .integer _
  · obtain ⟨places, -, read⟩ := Option.bind_eq_some_iff.1 read
    split at read
    · cases read
      exact .fraction _
    · exact ordered_of_exponent read
    · exact ordered_of_exponent read
    · cases read
  · exact ordered_of_exponent read
  · exact ordered_of_exponent read
  · cases read

theorem ordered_read {cs : List Char} {value : Toml} (got : read cs = some value) :
    value.Ordered := by
  unfold read at got
  split at got
  · obtain ⟨ds, -, rfl⟩ := Option.map_eq_some_iff.1 got
    exact .integer _
  · obtain ⟨ds, -, rfl⟩ := Option.map_eq_some_iff.1 got
    exact .integer _
  · obtain ⟨ds, -, rfl⟩ := Option.map_eq_some_iff.1 got
    exact .integer _
  · dsimp only at got
    split at got
    · cases got
      exact .fraction _
    · split at got
      · cases got
        exact .fraction _
      · exact ordered_decimal got

end Numeral

theorem Moment.ordered_read {cs : List Char} {value : Toml} (got : read cs = some value) :
    value.Ordered := by
  unfold read at got
  split at got
  · cases got
    exact .moment _
  · cases got

namespace Scan

theorem yields_scalar : Yields scalar Ordered := by
  intro cs value rest read
  simp only [scalar, Option.map_eq_some_iff] at read
  obtain ⟨_, got, same⟩ := read
  cases same
  split at got
  · cases got
    exact .boolean true
  · split at got
    · cases got
      exact .boolean false
    · rcases Option.or_eq_some_iff.1 got with moment | ⟨-, number⟩
      · exact Moment.ordered_read moment
      · exact Numeral.ordered_read number

/-! ## Values -/

variable {item : Scan Toml}

theorem yields_items (each : Yields item Ordered) (rounds : Nat) :
    Yields (items item rounds) fun read => ∀ value ∈ read, value.Ordered := by
  induction rounds with
  | zero => exact yields_failure
  | succ rounds ih =>
      unfold items
      refine yields_after fun _ => yields_after fun front => ?_
      split
      · exact yields_after fun _ => yields_pure (by simp)
      · refine each.bind fun first ordered => yields_after fun _ => yields_after fun next => ?_
        split
        · exact yields_after fun _ => yields_pure (by simpa using ordered)
        · refine yields_after fun _ => ih.bind fun rest others => yields_pure ?_
          intro value member
          rcases List.mem_cons.1 member with rfl | later
          · exact ordered
          · exact others value later
        · exact yields_failure

theorem yields_assignment (each : Yields item Ordered) :
    Yields (assignment item) Draft.Keeps := by
  unfold assignment
  refine yields_after fun path => yields_after fun _ => yields_after fun _ => ?_
  exact each.bind fun value ordered => yields_pure (Draft.keeps_assign ordered path.1 path.2)

theorem yields_fields (each : Yields item Ordered) (rounds : Nat) {entries : Draft.Entries}
    (before : Draft.OrderedEntries entries) :
    Yields (fields item rounds entries) Draft.OrderedEntries := by
  induction rounds generalizing entries with
  | zero => exact yields_failure
  | succ rounds ih =>
      unfold fields
      refine yields_after fun _ => yields_after fun front => ?_
      split
      · exact yields_after fun _ => yields_pure before
      · refine (yields_assignment each).bind fun change kept => ?_
        refine Yields.bind (yields_lift fun changed made => kept _ _ before made) ?_
        intro changed ordered
        refine yields_after fun _ => yields_after fun next => ?_
        split
        · exact yields_after fun _ => yields_pure ordered
        · exact yields_after fun _ => ih ordered
        · exact yields_failure

theorem yields_value (depth : Nat) : Yields (value depth) Ordered := by
  induction depth with
  | zero =>
      unfold value
      refine yields_after fun cs => ?_
      split
      · exact yields_failure
      · exact yields_failure
      · exact yields_after fun _ => yields_pure (.text _)
      · exact yields_after fun _ => yields_pure (.text _)
      · exact yields_scalar
  | succ depth ih =>
      unfold value
      refine yields_after fun cs => ?_
      split
      · exact yields_after fun _ => (yields_items ih _).bind fun items each =>
          yields_pure (.array each)
      · exact yields_after fun _ => (yields_fields ih _ Draft.ordered_nil).bind
          fun entries ordered => yields_pure ordered.finish
      · exact yields_after fun _ => yields_pure (.text _)
      · exact yields_after fun _ => yields_pure (.text _)
      · exact yields_scalar

/-! ## Documents -/

theorem yields_header : Yields header fun read => Draft.Keeps read.2.2 := by
  unfold header
  refine yields_after fun double => yields_after fun _ => yields_after fun path => ?_
  refine yields_after fun _ => ?_
  split
  · exact yields_after fun _ => yields_pure (Draft.keeps_openItem _)
  · exact yields_pure (Draft.keeps_openTable _)

theorem yields_line {p : Progress} (before : Draft.OrderedEntries p.entries) :
    Yields (line p) fun after => Draft.OrderedEntries after.entries := by
  unfold line
  refine yields_after fun front => ?_
  split
  · refine yields_after fun _ => yields_header.bind fun read kept => ?_
    refine Yields.bind (yields_lift fun changed made =>
      Draft.keeps_within kept read.1 _ _ before made) ?_
    exact fun changed ordered => yields_after fun _ => yields_pure ordered
  · refine (yields_assignment (yields_value depthLimit)).bind fun change kept => ?_
    refine Yields.bind (yields_lift fun changed made =>
      Draft.keeps_within kept p.table _ _ before made) ?_
    exact fun changed ordered => yields_after fun _ => yields_pure ordered

theorem yields_document (rounds : Nat) {p : Progress} (before : Draft.OrderedEntries p.entries) :
    Yields (document rounds p) Draft.OrderedEntries := by
  induction rounds generalizing p with
  | zero => exact yields_failure
  | succ rounds ih =>
      unfold document
      refine yields_after fun _ => yields_after fun front => ?_
      split
      · exact yields_pure before
      · exact (yields_line before).bind fun after ordered => ih ordered

end Scan

theorem ordered_of_parse {text : String} {value : Toml} (parsed : parse text = .ok value) :
    value.Ordered ∧ ∃ entries, value = .table entries := by
  unfold parse at parsed
  dsimp only at parsed
  split at parsed
  · rename_i entries rest read
    cases parsed
    exact ⟨(Scan.yields_document _ Draft.ordered_nil _ _ _ read).finish, _, rfl⟩
  · cases parsed

end Volley.Toml
