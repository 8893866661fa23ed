import Volley.Proofs.Json.Skip
import Volley.Push.Reader

/-!
Where a value is read at all, reading ends where passing over the value ends (`Push.Scan.Extent`).
-/

namespace Volley.Push

open Json (Ends Enclosed IsBlank IsValue Items Lead QuotedText)

namespace Scan

open Json.Scan

variable {α β : Type} {scan : Json.Scan α} {next : α → Json.Scan β} {b cs rest after : List Char}
  {c : Char} {fuel : Nat}

theorem text_quoted {t : String} (quoted : QuotedText cs t) (rest : List Char) :
    text (cs ++ rest) = .ok (t, rest) := by
  obtain ⟨body, spelled, rfl⟩ := quoted
  rw [List.cons_append, List.append_assoc, text, bind_of_ok (peek_cons (by decide))]
  exact (bind_of_ok (skip_cons _ _)).trans (stringRest_of_spells spelled rest)

theorem timestamp_toString (n : Int64) (ends : Ends rest) :
    timestamp ((toString n.toInt).toList ++ rest) = .ok (n, rest) := by
  have read := number_toString n.le_toInt n.toInt_lt ends
  obtain ⟨c, ds, front, number⟩ := Integer.exists_toString_eq_cons n.toInt
  rw [front, List.cons_append] at read ⊢
  rw [timestamp, bind_of_ok (peek_cons (isSpace_of_isNumberFront number))]
  dsimp only
  rw [if_pos number, bind_of_ok read, timestampOf, if_pos n.toInt_lt, Int64.ofInt_toInt]
  rfl

theorem kind_quoted {k : PushKind} (quoted : QuotedText cs k.text) (rest : List Char) :
    kind (cs ++ rest) = .ok (k, rest) := by
  have known : kindOf k.text = .ok k := by cases k <;> rfl
  obtain ⟨body, spelled, rfl⟩ := quoted
  rw [List.cons_append, List.append_assoc, kind, bind_of_ok (peek_cons (by decide))]
  refine (bind_of_ok (skip_cons _ _)).trans ?_
  refine (bind_of_ok (stringRest_of_spells spelled rest)).trans ?_
  rw [known]
  rfl

theorem front_of_quoted {t : String} (quoted : QuotedText cs t) : ∃ tail, cs = '"' :: tail := by
  obtain ⟨body, _, rfl⟩ := quoted
  exact ⟨_, rfl⟩

theorem texts_of_items {first : Bool} {ts : List String} (items : Items ']' QuotedText first cs ts)
    (enough : cs.length ≤ fuel + 1) (rest : List Char) :
    texts first (fuel + 1) (cs ++ rest) = .ok (ts, rest) := by
  induction items generalizing fuel with
  | done blank =>
      rw [List.append_assoc, texts]
      exact bind_of_ok (moreItems_done blank rest)
  | @next first lead item cs t ts before quoted items ih =>
      obtain ⟨tail, rfl⟩ := front_of_quoted quoted
      simp only [List.length_append, List.length_cons] at enough
      obtain ⟨fuel, rfl⟩ := exists_fuel items (by omega : cs.length ≤ fuel)
      have more := moreItems_lead before (c := '"') rfl (by decide) (tail ++ (cs ++ rest))
      simp only [List.append_assoc, List.cons_append]
      rw [texts, bind_of_ok more, if_pos rfl, ← List.cons_append, bind_of_ok (text_quoted quoted _),
        bind_of_ok (ih (by omega))]
      rfl

theorem recipients_enclosed {ts : List String} (enclosed : Enclosed '[' ']' QuotedText cs ts)
    (enough : cs.length ≤ fuel + 1) (rest : List Char) :
    recipients (fuel + 1) (cs ++ rest) = .ok (ts, rest) := by
  obtain ⟨inner, items, rfl⟩ := enclosed
  rw [List.cons_append, recipients, bind_of_ok (peek_cons (by decide))]
  refine (bind_of_ok (skip_cons _ _)).trans (texts_of_items items ?_ rest)
  simp only [List.length_cons] at enough
  omega

theorem bind_eq_ok {made : β} (read : (scan >>= next) cs = .ok (made, rest)) :
    ∃ a mid, scan cs = .ok (a, mid) ∧ next a mid = .ok (made, rest) := by
  obtain ⟨⟨a, mid⟩, first, second⟩ := Except.bind_eq_ok.1 read
  exact ⟨a, mid, first, second⟩

theorem exists_of_peek {next : Option Char → Json.Scan β} {made : β}
    (read : (peek >>= next) cs = .ok (made, rest)) :
    ∃ b visible chosen, IsBlank b ∧ cs = b ++ visible ∧ next visible.head? = chosen ∧
      chosen visible = .ok (made, rest) := by
  refine ⟨cs.takeWhile isSpace, cs.dropWhile isSpace, _, fun c member => ?_,
    List.takeWhile_append_dropWhile.symm, rfl, read⟩
  have space := List.all_eq_true.1 List.all_takeWhile c member
  simpa [isSpace, or_assoc] using space

/-- With enough fuel, a value is passed over from the one text to the other. -/
def Extent (cs rest : List Char) : Prop :=
  ∃ enough, ∀ fuel, enough ≤ fuel → skipValue (fuel + 1) cs = .ok ((), rest)

theorem Extent.unique (extent : Extent cs rest) (other : Extent cs after) : rest = after := by
  obtain ⟨enough, skipped⟩ := extent
  obtain ⟨enough', skipped'⟩ := other
  have same := (skipped (max enough enough') (Nat.le_max_left _ _)).symm.trans
    (skipped' _ (Nat.le_max_right _ _))
  cases same
  rfl

theorem extent_of_isValue {v : List Char} (value : IsValue v) (ends : Ends rest) :
    Extent (v ++ rest) rest :=
  ⟨v.length, fun _ enough => value.passed.skipValue_eq (Nat.le_succ_of_le enough) ends⟩

theorem Extent.blank (blank : IsBlank b) (extent : Extent cs rest) : Extent (b ++ cs) rest := by
  obtain ⟨enough, skipped⟩ := extent
  exact ⟨enough, fun fuel more => (skipValue_blank blank fuel cs).trans (skipped fuel more)⟩

theorem skipString_of_stringRest {t : String} (read : stringRest cs = .ok (t, rest)) :
    skipString cs = .ok ((), rest) := by
  rw [stringRest] at read
  split at read
  · cases read
  · rename_i body
    cases read
    exact skipString_of_stringBody body

def Never (scan : Json.Scan α) : Prop := ∀ cs a rest, scan cs ≠ .ok (a, rest)

theorem never_fail (e : Json.Error) : Never (Json.Scan.fail (α := α) e) := nofun

theorem Never.bind (never : ∀ a, Never (next a)) : Never (scan >>= next) := by
  intro cs made rest read
  obtain ⟨a, mid, _, read⟩ := bind_eq_ok read
  exact never a mid made rest read

theorem Never.bind_left (never : Never scan) : Never (scan >>= next) := by
  intro cs made rest read
  obtain ⟨a, mid, first, _⟩ := bind_eq_ok read
  exact never cs a mid first

theorem never_mismatch (expected : String) : Never (mismatch (α := α) expected) := by
  intro cs a rest read
  obtain ⟨b, visible, chosen, _, _, same, read⟩ := exists_of_peek read
  refine (?_ : Never chosen) _ _ _ read
  -- A name or a text before the failure, or none.
  split at same <;> subst same
  next => exact never_fail _
  iterate 4 next => exact .bind fun _ => .bind fun _ => never_fail _
  iterate 2 next => exact never_fail _
  split
  · exact .bind fun _ => never_fail _
  · exact never_fail _

theorem extent_of_text {t : String} (read : text cs = .ok (t, rest)) : Extent cs rest := by
  obtain ⟨b, visible, chosen, blank, rfl, same, read⟩ := exists_of_peek read
  refine Extent.blank blank ?_
  split at same
  · rename_i front
    obtain ⟨tail, rfl⟩ := List.head?_eq_some_iff.1 front
    subst same
    obtain ⟨_, _, skipped, read⟩ := bind_eq_ok read
    cases skipped
    exact ⟨0, fun fuel _ => skipString_of_stringRest read⟩
  · exact absurd read (same ▸ never_mismatch _ _ _ _)

theorem lift_eq_ok {result : Except Json.Error α} {a : α} (read : lift result cs = .ok (a, rest)) :
    result = .ok a ∧ rest = cs := by
  obtain ⟨_, same, made⟩ := Except.map_eq_ok.1 read
  cases made
  exact ⟨same, rfl⟩

theorem extent_of_timestamp {n : Int64} (read : timestamp cs = .ok (n, rest)) :
    Extent cs rest := by
  obtain ⟨b, visible, chosen, blank, rfl, same, read⟩ := exists_of_peek read
  refine Extent.blank blank ?_
  split at same <;> subst same
  · rename_i c front
    obtain ⟨tail, rfl⟩ := List.head?_eq_some_iff.1 front
    split at read
    · rename_i digit
      obtain ⟨number, mid, counted, read⟩ := bind_eq_ok read
      obtain ⟨known, rfl⟩ := lift_eq_ok read
      cases number with
      | whole value =>
          exact ⟨0, fun fuel _ => (skipValue_number digit fuel tail).trans
            (skipNumber_of_number counted)⟩
      | fraction => cases known
    · exact absurd read (never_mismatch _ _ _ _)
  · cases read

theorem punctuation_eq_ok (read : punctuation c cs = .ok ((), rest)) :
    ∃ b, IsBlank b ∧ cs = b ++ c :: rest := by
  obtain ⟨b, visible, chosen, blank, rfl, same, read⟩ := exists_of_peek read
  split at same <;> subst same
  · rename_i front
    obtain ⟨tail, rfl⟩ := List.head?_eq_some_iff.1 front
    cases read
    exact ⟨b, blank, rfl⟩
  · cases read

theorem extent_of_unit {b b' name' more null : List Char} {t : String} (blank : IsBlank b)
    (named : stringRest name' = .ok (t, more))
    (colon : punctuation ':' more = .ok ((), b' ++ 'n' :: null)) (blank' : IsBlank b')
    (unit : Json.Scan.name ['u', 'l', 'l'] null = .ok ((), after))
    (brace : punctuation '\x7d' after = .ok ((), rest)) :
    Extent ('\x7b' :: (b ++ '"' :: name')) rest := by
  refine ⟨2, fun fuel enough => ?_⟩
  obtain ⟨fuel, rfl⟩ : ∃ n, fuel = n + 2 := ⟨fuel - 2, by omega⟩
  obtain ⟨b'', blank'', rfl⟩ := punctuation_eq_ok brace
  have value : skipValue (fuel + 1) (b' ++ 'n' :: null) =
      .ok ((), b'' ++ '\x7d' :: rest) := (skipValue_blank blank' _ _).trans unit
  rw [skipValue_object, skipMembers,
    bind_of_ok (moreMembers_lead (.first blank) _), if_pos rfl]
  refine (bind_of_ok (skip_cons _ _)).trans ?_
  rw [bind_of_ok (skipString_of_stringRest named), bind_of_ok colon,
    bind_of_ok value, skipMembers,
    bind_of_ok (moreMembers_done blank'' rest)]
  rfl

theorem extent_of_kind {k : PushKind} (read : kind cs = .ok (k, rest)) : Extent cs rest := by
  obtain ⟨b, visible, chosen, blank, rfl, same, read⟩ := exists_of_peek read
  refine Extent.blank blank ?_
  split at same
  · rename_i front
    obtain ⟨tail, rfl⟩ := List.head?_eq_some_iff.1 front
    subst same
    obtain ⟨_, _, skipped, read⟩ := bind_eq_ok read
    cases skipped
    obtain ⟨t, mid, body, read⟩ := bind_eq_ok read
    obtain ⟨_, rfl⟩ := lift_eq_ok read
    exact ⟨0, fun fuel _ => skipString_of_stringRest body⟩
  · rename_i front
    obtain ⟨tail, rfl⟩ := List.head?_eq_some_iff.1 front
    subst same
    obtain ⟨_, _, skipped, read⟩ := bind_eq_ok read
    cases skipped
    obtain ⟨b, name, chosen, blank, rfl, same, read⟩ := exists_of_peek read
    split at same <;> subst same
    · rename_i front
      obtain ⟨name, rfl⟩ := List.head?_eq_some_iff.1 front
      obtain ⟨_, _, skipped, read⟩ := bind_eq_ok read
      cases skipped
      obtain ⟨t, mid, named, read⟩ := bind_eq_ok read
      obtain ⟨k, _, known, behindName⟩ := bind_eq_ok read
      obtain ⟨_, rfl⟩ := lift_eq_ok known
      obtain ⟨_, mid, colon, read⟩ := bind_eq_ok behindName
      obtain ⟨b', null, chosen, blank', rfl, same, read⟩ := exists_of_peek read
      split at same <;> subst same
      · rename_i front
        obtain ⟨null, rfl⟩ := List.head?_eq_some_iff.1 front
        obtain ⟨_, _, skipped, read⟩ := bind_eq_ok read
        cases skipped
        obtain ⟨_, after, unit, read⟩ := bind_eq_ok read
        obtain ⟨_, _, brace, made⟩ := bind_eq_ok read
        cases made
        exact extent_of_unit blank named colon blank' unit brace
      · exact absurd read (Never.bind_left (never_mismatch _) _ _ _)
    · exact absurd read (Never.bind_left (never_mismatch _) _ _ _)
  · subst same
    cases read

theorem exists_skipItems_of_texts {first : Bool} {ts : List String}
    (read : texts first fuel cs = .ok (ts, rest)) :
    ∃ enough, ∀ fuel, enough ≤ fuel → skipItems first (fuel + 1) cs = .ok ((), rest) := by
  induction fuel generalizing first cs ts with
  | zero => cases read
  | succ fuel ih =>
      obtain ⟨more, mid, looked, behind⟩ := bind_eq_ok read
      cases more with
      | false =>
          obtain ⟨_, _, skipped, made⟩ := bind_eq_ok behind
          cases skipped
          cases made
          refine ⟨0, fun fuel _ => ?_⟩
          rw [skipItems, bind_of_ok looked]
          rfl
      | true =>
          obtain ⟨t, left, item, others⟩ := bind_eq_ok behind
          obtain ⟨_, _, others, made⟩ := bind_eq_ok others
          cases made
          obtain ⟨enough, passed⟩ := extent_of_text item
          obtain ⟨enough', passed'⟩ := ih others
          refine ⟨max enough enough' + 1, fun fuel more => ?_⟩
          obtain ⟨fuel, rfl⟩ : ∃ n, fuel = n + 1 := ⟨fuel - 1, by omega⟩
          rw [skipItems, bind_of_ok looked, if_pos rfl, bind_of_ok (passed fuel (by omega))]
          exact passed' fuel (by omega)

theorem extent_of_recipients {ts : List String} (read : recipients fuel cs = .ok (ts, rest)) :
    Extent cs rest := by
  obtain ⟨b, visible, chosen, blank, rfl, same, behind⟩ := exists_of_peek read
  refine Extent.blank blank ?_
  split at same <;> subst same
  · rename_i front
    obtain ⟨tail, rfl⟩ := List.head?_eq_some_iff.1 front
    obtain ⟨_, _, skipped, items⟩ := bind_eq_ok behind
    cases skipped
    obtain ⟨enough, passed⟩ := exists_skipItems_of_texts items
    refine ⟨enough + 1, fun fuel more => ?_⟩
    obtain ⟨fuel, rfl⟩ : ∃ n, fuel = n + 1 := ⟨fuel - 1, by omega⟩
    exact passed fuel (by omega)
  · exact absurd behind (never_mismatch _ _ _ _)

end Scan

end Volley.Push
