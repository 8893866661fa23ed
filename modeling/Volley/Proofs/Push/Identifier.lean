import Volley.Proofs.Random.Uniform
import Volley.Push.Identifier

namespace Volley.IdFormat

variable {source rest : WordSource} {alphabet : List Char} {f : IdFormat}

theorem afterLead_eq_some_iff {lead cs rest : List Char} :
    afterLead lead cs = some rest ↔ cs = lead ++ rest := by
  induction lead generalizing cs with
  | nil => simp [afterLead]
  | cons l lead ih =>
      cases cs with
      | nil => simp [afterLead]
      | cons c cs =>
          rw [afterLead, List.cons_append, List.cons.injEq, eq_comm (a := c)]
          split
          · rename_i same
            rw [ih, and_iff_right same]
          · rename_i different
            simp [different]

def Forms (f : IdFormat) (id : String) : Prop :=
  ∃ cs, id = f.lead ++ String.ofList cs ∧ cs.length = f.length ∧ ∀ c ∈ cs, c ∈ f.alphabet

theorem accepts_iff {id : String} : f.accepts id = true ↔ f.Forms id := by
  have parts : ∀ cs, id = f.lead ++ String.ofList cs ↔ id.toList = f.lead.toList ++ cs := by
    intro cs
    rw [← String.toList_inj, String.toList_append, String.toList_ofList]
  rw [accepts, Forms]
  simp only [parts, ← afterLead_eq_some_iff]
  cases afterLead f.lead.toList id.toList with
  | none => simp
  | some rest => simp

theorem drawChars_of_belowAll {count : Nat} {is : List Nat} (nonempty : alphabet ≠ [])
    (drawn : Draw.belowAll (List.replicate count (.ofCount alphabet.length, alphabet.length))
      source = some (is, rest)) :
    ∃ cs, drawChars alphabet count source = some (cs, rest) ∧ cs.length = count ∧
      ∀ c ∈ cs, c ∈ alphabet := by
  induction count generalizing source is with
  | zero =>
      cases drawn
      exact ⟨[], rfl, rfl, by simp⟩
  | succ count ih =>
      obtain ⟨i, left, js, first, later, rfl⟩ := Draw.belowAll_cons.1 drawn
      obtain ⟨c, member, chosen⟩ := Draw.choose_of_below nonempty first
      obtain ⟨cs, drawn, length, members⟩ := ih later
      refine ⟨c :: cs, ?_, by rw [List.length_cons, length], ?_⟩
      · exact Draw.bind_eq_some.2 ⟨c, left, chosen, Draw.bind_eq_some.2 ⟨cs, rest, drawn, rfl⟩⟩
      · intro d within
        rcases List.mem_cons.1 within with rfl | within
        · exact member
        · exact members d within

/-- An identifier has room, whatever its characters are. -/
def Fits (f : IdFormat) : Prop := f.lead.utf8ByteSize + 4 * f.length < 2 ^ 63

instance (f : IdFormat) : Decidable f.Fits := inferInstanceAs (Decidable (_ < _))

theorem reserve_of_fits (fits : f.Fits) : f.reserve = .ok () := by
  unfold Fits at fits
  unfold reserve
  rw [if_neg (by omega), if_neg (by omega), if_neg (by omega)]

theorem reserve_of_not_fits (overlong : ¬ f.Fits) : ∃ message, f.reserve = .error message := by
  unfold Fits at overlong
  unfold reserve
  split
  · exact ⟨_, rfl⟩
  · split
    · exact ⟨_, rfl⟩
    · rw [if_pos (by omega)]
      exact ⟨_, rfl⟩

theorem generate_of_error {message : String} (refused : f.reserve = .error message)
    (source : WordSource) : f.generate source = some (.error message, source) := by
  rw [generate, Making.bind_apply, refused]
  rfl

theorem generate_eq_ok {id : String} : f.generate source = some (.ok id, rest) ↔
    f.Fits ∧ ∃ cs, drawChars f.alphabet f.length source = some (cs, rest) ∧
      id = f.lead ++ String.ofList cs := by
  by_cases fits : f.Fits
  · have reserved : (liftM f.reserve : Making Unit) source = some (.ok (), source) := by
      rw [reserve_of_fits fits]
      rfl
    simp only [generate, Making.bind_eq_ok, Making.lift_eq_ok, reserved, fits, true_and]
    constructor
    · rintro ⟨_, _, ⟨⟩, cs, _, drawn, ⟨⟩⟩
      exact ⟨cs, drawn, rfl⟩
    · rintro ⟨cs, drawn, rfl⟩
      exact ⟨_, _, rfl, cs, rest, drawn, rfl⟩
  · obtain ⟨message, refused⟩ := reserve_of_not_fits fits
    simp [generate_of_error refused, fits]

theorem Fits.generate_ne_error {message : String} (fits : f.Fits) :
    f.generate source ≠ some (.error message, rest) := by
  rw [generate, reserve_of_fits fits]
  intro failed
  rcases Making.bind_eq_error.1 failed with failed | ⟨_, _, -, failed⟩
  · cases failed
  · rcases Making.bind_eq_error.1 failed with failed | ⟨_, _, -, failed⟩
    · exact Making.lift_ne_error failed
    · cases failed

def draws (f : IdFormat) : List (WordWidth × Nat) :=
  List.replicate f.length (.ofCount f.alphabet.length, f.alphabet.length)

theorem generate_of_belowAll {is : List Nat} (fits : f.Fits)
    (drawn : Draw.belowAll f.draws source = some (is, rest)) :
    ∃ id, f.generate source = some (.ok id, rest) ∧ f.accepts id = true := by
  obtain ⟨cs, drawn, length, members⟩ := drawChars_of_belowAll f.alphabet_nonempty drawn
  exact ⟨_, generate_eq_ok.2 ⟨fits, cs, drawn, rfl⟩, accepts_iff.2 ⟨cs, rfl, length, members⟩⟩

open Draw (Takes TakesAll words tuples)

theorem drawChar_eq (few : alphabet.length < 2 ^ 32) :
    drawChar alphabet = Draw.choose .half alphabet := by
  rw [drawChar, WordWidth.ofCount, if_pos few]

theorem drawChars_succ {count : Nat} {cs : List Char} (few : alphabet.length < 2 ^ 32) :
    drawChars alphabet (count + 1) source = some (cs, rest) ↔ ∃ c left more,
      Draw.choose .half alphabet source = some (c, left) ∧
        drawChars alphabet count left = some (more, rest) ∧ cs = c :: more := by
  simp only [drawChars, drawChar_eq few, Draw.bind_eq_some]
  constructor
  · rintro ⟨c, left, first, more, last, others, ⟨⟩⟩
    exact ⟨c, left, more, first, others, rfl⟩
  · rintro ⟨c, left, more, first, others, rfl⟩
    exact ⟨c, left, first, more, rest, others, rfl⟩

theorem drawChars_eq_some_iff {count : Nat} {cs : List Char} (few : alphabet.length < 2 ^ 32) :
    drawChars alphabet count source = some (cs, rest) ↔
      ∃ (tuple places : Fin count → Nat) (chars : Fin count → Char),
        TakesAll .half alphabet.length source (List.ofFn tuple) rest ∧
          tuple ∈ tuples 32 alphabet.length places ∧
            (∀ k, alphabet[places k]? = some (chars k)) ∧ cs = List.ofFn chars := by
  simp only [tuples, Fintype.mem_piFinset]
  -- A tuple splits into its first place and the others as the draws do.
  induction count generalizing source cs with
  | zero =>
      constructor
      · rintro ⟨⟩
        exact ⟨Fin.elim0, Fin.elim0, Fin.elim0, .nil, fun k => k.elim0, fun k => k.elim0, rfl⟩
      · rintro ⟨tuple, places, chars, ⟨⟩, -, -, rfl⟩
        rfl
  | succ count ih =>
      simp only [drawChars_succ few, Draw.choose_eq_some_iff, ih]
      constructor
      · rintro ⟨c, left, _, ⟨word, place, takes, given, found⟩,
          ⟨tuple, places, chars, others, givenToo, foundToo, rfl⟩, rfl⟩
        refine ⟨Fin.cons word tuple, Fin.cons place places, Fin.cons c chars, ?_, ?_, ?_, ?_⟩
        · simpa [List.ofFn_succ] using TakesAll.cons takes others
        · exact Fin.forall_fin_succ.2 ⟨given, givenToo⟩
        · exact Fin.forall_fin_succ.2 ⟨found, foundToo⟩
        · simp [List.ofFn_succ]
      · rintro ⟨tuple, places, chars, taken, given, found, rfl⟩
        rw [List.ofFn_succ] at taken
        cases taken with
        | cons first others =>
            exact ⟨chars 0, _, _, ⟨tuple 0, places 0, first, given 0, found 0⟩, ⟨_, _, _, others,
              fun k => given k.succ, fun k => found k.succ, rfl⟩, List.ofFn_succ⟩

theorem exists_drawChars {taken : List Nat} (nonempty : alphabet ≠ [])
    (few : alphabet.length < 2 ^ 32) (ends : TakesAll .half alphabet.length source taken rest) :
    ∃ cs, drawChars alphabet taken.length source = some (cs, rest) := by
  induction ends with
  | nil => exact ⟨[], rfl⟩
  | cons first others ih =>
      obtain ⟨place, given⟩ := first.exists_given
      obtain ⟨bound, accepted⟩ := Draw.mem_words.1 given
      have inside := Draw.accept?_lt bound (List.length_pos_iff.2 nonempty) accepted
      obtain ⟨cs, drawn⟩ := ih
      refine ⟨alphabet[place] :: cs, (drawChars_succ few).2 ⟨_, _, cs, ?_, drawn, rfl⟩⟩
      exact Draw.choose_eq_some_iff.2 ⟨_, place, first, given, List.getElem?_eq_getElem inside⟩

theorem mem_of_drawChars {count : Nat} {cs : List Char} (few : alphabet.length < 2 ^ 32)
    (drawn : drawChars alphabet count source = some (cs, rest)) :
    cs.length = count ∧ ∀ c ∈ cs, c ∈ alphabet := by
  obtain ⟨_, places, chars, -, -, found, rfl⟩ := (drawChars_eq_some_iff few).1 drawn
  refine ⟨List.length_ofFn, fun c member => ?_⟩
  obtain ⟨k, rfl⟩ := List.mem_ofFn.1 member
  exact List.mem_of_getElem? (found k)

theorem exists_words {cs : List Char} (few : alphabet.length < 2 ^ 32)
    (members : ∀ c ∈ cs, c ∈ alphabet) : ∃ given : List UInt64, ∀ all more,
      drawChars alphabet cs.length (.cycle all (given ++ more)) = some (cs, .cycle all more) := by
  induction cs with
  | nil => exact ⟨[], fun all more => rfl⟩
  | cons c cs ih =>
      obtain ⟨place, found⟩ := List.mem_iff_getElem?.1 (members c List.mem_cons_self)
      obtain ⟨inside, -⟩ := List.getElem?_eq_some_iff.1 found
      obtain ⟨word, gives⟩ := Draw.exists_word (Nat.zero_lt_of_lt inside) few inside
      obtain ⟨given, drawn⟩ := ih fun d member => members d (List.mem_cons_of_mem c member)
      refine ⟨UInt64.ofNat word :: given, fun all more => (drawChars_succ few).2 ⟨c, _, cs, ?_,
        drawn all more, rfl⟩⟩
      exact Draw.choose_eq_some_iff.2 ⟨word, place, Takes.of_given gives, gives, found⟩

theorem make_eq_ok {lead alphabet : String} {length : Nat}
    (made : make lead alphabet length = .ok f) :
    f.lead = lead ∧ f.alphabet = alphabet.toList ∧ f.length = length := by
  unfold make at made
  split at made
  · cases made
    exact ⟨rfl, rfl, rfl⟩
  · cases made

/-- A form draws the identifiers that it accepts and no others. Without room for them it breaks down
before its first draw. -/
theorem generates_exactly {lead alphabet : String} {length : Nat}
    (made : make lead alphabet length = .ok f) (few : alphabet.length < 2 ^ 32) :
    (∀ id, f.accepts id = true ↔ ∃ cs, id = lead ++ String.ofList cs ∧ cs.length = length ∧
      ∀ c ∈ cs, c ∈ alphabet.toList) ∧
    (∀ source id rest, f.generate source = some (.ok id, rest) →
      f.accepts id = true ∧ id.length = lead.length + length) ∧
    (lead.utf8ByteSize + 4 * length < 2 ^ 63 →
      (∀ source taken rest, TakesAll .half alphabet.length source taken rest →
        taken.length = length → ∃ id, f.generate source = some (.ok id, rest)) ∧
      (∀ source rest message, f.generate source ≠ some (.error message, rest)) ∧
      ∀ id, f.accepts id = true → ∃ given : List UInt64, ∀ all more,
        f.generate (.cycle all (given ++ more)) = some (.ok id, .cycle all more)) ∧
    (2 ^ 63 ≤ lead.utf8ByteSize + 4 * length →
      ∃ message, ∀ source, f.generate source = some (.error message, source)) := by
  obtain ⟨rfl, symbols, rfl⟩ := make_eq_ok made
  rw [← alphabet.length_toList, ← symbols] at few ⊢
  refine ⟨fun id => accepts_iff, ?_, fun fits => ⟨?_, fun source rest message =>
    Fits.generate_ne_error fits, ?_⟩, fun overlong => ?_⟩
  · intro source id rest generated
    obtain ⟨-, cs, drawn, rfl⟩ := generate_eq_ok.1 generated
    obtain ⟨length, members⟩ := mem_of_drawChars few drawn
    refine ⟨accepts_iff.2 ⟨cs, rfl, length, members⟩, ?_⟩
    rw [String.length_append, String.length_ofList, length]
  · intro source taken rest ends same
    obtain ⟨cs, drawn⟩ := exists_drawChars f.alphabet_nonempty few ends
    exact ⟨_, generate_eq_ok.2 ⟨fits, cs, same ▸ drawn, rfl⟩⟩
  · intro id accepted
    obtain ⟨cs, rfl, length, members⟩ := accepts_iff.1 accepted
    obtain ⟨given, drawn⟩ := exists_words few members
    exact ⟨given, fun all more => generate_eq_ok.2 ⟨fits, cs, length ▸ drawn all more, rfl⟩⟩
  · obtain ⟨message, refused⟩ := reserve_of_not_fits (Nat.not_lt.2 overlong)
    exact ⟨message, generate_of_error refused⟩

theorem generates_exactly_han :
    ∃ f, make "é漢" "漢éé" 2 = .ok f ∧ "漢éé".length < 2 ^ 32 ∧ f.accepts "é漢漢é" = true ∧
      f.accepts "é漢é" = false ∧
      ∃ given : List UInt64,
        f.generate (.ofWords given) = some (.ok "é漢漢é", .cycle given []) := by
  have made : make "é漢" "漢éé" 2 = .ok ⟨"é漢", ['漢', 'é', 'é'], 2, by decide⟩ := rfl
  have few : "漢éé".length < 2 ^ 32 := by decide
  obtain ⟨accepted, -, given, -⟩ := generates_exactly made few
  obtain ⟨-, -, given⟩ := given (by decide)
  have accepts := (accepted "é漢漢é").2 ⟨['漢', 'é'], by decide, by decide, by simp⟩
  obtain ⟨words, generated⟩ := given _ accepts
  refine ⟨_, made, few, accepts, by decide, words, ?_⟩
  simpa [WordSource.ofWords] using generated words []

def monotonous (length : Nat) : IdFormat := ⟨"", ['a'], length, by decide⟩

theorem make_monotonous (length : Nat) : make "" "a" length = .ok (monotonous length) := rfl

theorem reserve_monotonous : (monotonous (2 ^ 61)).reserve = .error "capacity overflow" := by
  decide +kernel

/-- A form that accepts identifiers and never draws one, from whatever words. -/
theorem longest_form_generates_nothing :
    ∃ f id, make "" "a" (2 ^ 61) = .ok f ∧ "a".length < 2 ^ 32 ∧ f.accepts id = true ∧
      ∀ source, f.generate source = some (.error "capacity overflow", source) := by
  -- For any length, so that no text of this length is ever computed.
  have accepted : ∀ length,
      (monotonous length).accepts (String.ofList (List.replicate length 'a')) = true := by
    intro length
    refine accepts_iff.2 ⟨List.replicate length 'a', by simp [monotonous], by simp [monotonous], ?_⟩
    intro c member
    simp [monotonous, List.eq_of_mem_replicate member]
  exact ⟨_, _, make_monotonous _, by decide, accepted _, generate_of_error reserve_monotonous⟩

end Volley.IdFormat
