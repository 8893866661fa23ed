import Volley.Text.Integer

namespace Volley.Integer

variable {cs : List Char} {value n bound : Nat}

theorem digitsFrom_eq (value : Nat) (cs : List Char) : digitsFrom value cs =
    if cs.all Char.isDigit then some (Nat.ofDigitChars 10 cs value) else none := by
  induction cs generalizing value with
  | nil => simp [digitsFrom]
  | cons c rest ih =>
      rw [digitsFrom, List.all_cons, Nat.ofDigitChars_cons]
      cases digit : c.isDigit with
      | false => simp
      | true =>
          rw [if_pos rfl, ih, Nat.mul_comm]
          rfl

def IsDigits (ds : List Char) (n : Nat) : Prop :=
  ds ≠ [] ∧ ds.all Char.isDigit = true ∧ Nat.ofDigitChars 10 ds 0 = n

theorem digits?_eq_some_iff : digits? cs = some n ↔ IsDigits cs n := by
  cases cs with
  | nil => simp [digits?, IsDigits]
  | cons c rest =>
      change digitsFrom 0 (c :: rest) = some n ↔ _
      rw [digitsFrom_eq]
      cases digits : (c :: rest).all Char.isDigit <;> simp [IsDigits, digits]

theorem digits?_toDigits (n : Nat) : digits? (Nat.toDigits 10 n) = some n := by
  refine digits?_eq_some_iff.2 ⟨Nat.toDigits_ne_nil, ?_, Nat.ofDigitChars_ten_toDigits⟩
  exact List.all_eq_true.2 fun c member =>
    Nat.isDigit_of_mem_toDigits (by decide) (by decide) member

theorem IsDigits.not_sign {c : Char} (digits : IsDigits (c :: cs) n) : c ≠ '+' ∧ c ≠ '-' := by
  have first : c.isDigit = true := List.all_eq_true.1 digits.2.1 c List.mem_cons_self
  constructor <;> rintro rfl <;> exact absurd first (by decide)

theorem optionalPlus_eq_some_iff :
    (match cs with
      | '+' :: rest => digits? rest
      | cs => digits? cs) = some n ↔ ∃ ds, (cs = ds ∨ cs = '+' :: ds) ∧ IsDigits ds n := by
  split
  · rename_i rest
    rw [digits?_eq_some_iff]
    constructor
    · exact fun spelled => ⟨rest, .inr rfl, spelled⟩
    · rintro ⟨ds, same | same, spelled⟩
      · exact absurd rfl (same ▸ spelled).not_sign.1
      · cases same
        exact spelled
  · rename_i noPlus
    rw [digits?_eq_some_iff]
    constructor
    · exact fun spelled => ⟨_, .inl rfl, spelled⟩
    · rintro ⟨ds, rfl | same, spelled⟩
      · exact spelled
      · exact absurd same (noPlus ds)

theorem unsigned?_eq_some_iff {text : String} : unsigned? bound text = some n ↔ n < bound ∧
    ∃ ds, (text.toList = ds ∨ text.toList = '+' :: ds) ∧ ds ≠ [] ∧ ds.all Char.isDigit = true ∧
      Nat.ofDigitChars 10 ds 0 = n := by
  unfold unsigned?
  dsimp only
  rw [Option.filter_eq_some_iff, and_comm, decide_eq_true_eq]
  exact and_congr_right fun _ => optionalPlus_eq_some_iff

inductive Spells : List Char → Int → Prop
  | plain {ds : List Char} {n : Nat} : IsDigits ds n → Spells ds n
  | plus {ds : List Char} {n : Nat} : IsDigits ds n → Spells ('+' :: ds) n
  | minus {ds : List Char} {n : Nat} : IsDigits ds n → Spells ('-' :: ds) (-n)

theorem spells_minus_iff {i : Int} :
    Spells ('-' :: cs) i ↔ ∃ n : Nat, IsDigits cs n ∧ i = -n := by
  constructor
  · intro spelled
    cases spelled with
    | plain digits => exact absurd rfl digits.not_sign.2
    | minus digits => exact ⟨_, digits, rfl⟩
  · rintro ⟨n, digits, rfl⟩
    exact .minus digits

theorem spells_iff_of_not_minus {i : Int} (noMinus : ∀ rest, cs ≠ '-' :: rest) :
    Spells cs i ↔ ∃ n : Nat, (∃ ds, (cs = ds ∨ cs = '+' :: ds) ∧ IsDigits ds n) ∧ i = n := by
  constructor
  · intro spelled
    cases spelled with
    | plain digits => exact ⟨_, ⟨_, .inl rfl, digits⟩, rfl⟩
    | plus digits => exact ⟨_, ⟨_, .inr rfl, digits⟩, rfl⟩
    | minus digits => exact absurd rfl (noMinus _)
  · rintro ⟨n, ⟨ds, rfl | rfl, digits⟩, rfl⟩
    · exact .plain digits
    · exact .plus digits

theorem signed64?_eq_some_iff {text : String} {i : Int64} :
    signed64? text = some i ↔ Spells text.toList i.toInt := by
  have low := i.le_toInt
  have high := i.toInt_lt
  unfold signed64?
  split
  · rename_i rest minus
    rw [minus, spells_minus_iff]
    constructor
    · intro read
      split at read
      · rename_i n digits
        split at read
        · cases read
          refine ⟨n, digits?_eq_some_iff.1 digits, ?_⟩
          exact Int64.toInt_ofInt_of_le (by omega) (by omega)
        · cases read
      · cases read
    · rintro ⟨n, digits, whole⟩
      rw [digits?_eq_some_iff.2 digits]
      dsimp only
      rw [if_pos (by omega), ← whole, Int64.ofInt_toInt]
  · rename_i noMinus
    rw [spells_iff_of_not_minus noMinus]
    constructor
    · intro read
      dsimp only at read
      split at read
      · rename_i n digits
        split at read
        · cases read
          refine ⟨n, optionalPlus_eq_some_iff.1 digits, ?_⟩
          exact Int64.toInt_ofInt_of_le (by omega) (by omega)
        · cases read
      · cases read
    · rintro ⟨n, digits, whole⟩
      have read := optionalPlus_eq_some_iff.2 digits
      dsimp only
      split
      · rename_i found
        cases found.symm.trans read
        rw [if_pos (by omega), ← whole, Int64.ofInt_toInt]
      · rename_i none
        cases none.symm.trans read

theorem exists_toDigits_eq_cons (n : Nat) :
    ∃ c rest, Nat.toDigits 10 n = c :: rest ∧ c.isDigit = true := by
  cases digits : Nat.toDigits 10 n with
  | nil => exact absurd digits Nat.toDigits_ne_nil
  | cons c rest =>
      exact ⟨c, rest, rfl, Nat.isDigit_of_mem_toDigits (by decide) (by decide)
        (digits ▸ List.mem_cons_self)⟩

theorem toList_toString (n : Int) : (toString n).toList =
    if 0 ≤ n then Nat.toDigits 10 n.toNat else '-' :: Nat.toDigits 10 (-n).toNat := by
  rw [Int.toString_eq_repr, Int.repr_eq_if]
  split <;> simp [Nat.toList_repr]

theorem exists_toString_eq_cons (n : Int) :
    ∃ c rest, (toString n).toList = c :: rest ∧ (c = '-' ∨ c.isDigit = true) := by
  rw [toList_toString]
  split
  · obtain ⟨c, rest, front, digit⟩ := exists_toDigits_eq_cons n.toNat
    exact ⟨c, rest, front, .inr digit⟩
  · exact ⟨'-', _, rfl, .inl rfl⟩

theorem isDigits_toDigits (n : Nat) : IsDigits (Nat.toDigits 10 n) n :=
  digits?_eq_some_iff.1 (digits?_toDigits n)

theorem signed64?_toString (n : Int64) : signed64? (toString n.toInt) = some n := by
  rw [signed64?_eq_some_iff, toList_toString]
  split
  · rename_i nonnegative
    have spelled := Spells.plain (isDigits_toDigits n.toInt.toNat)
    rwa [Int.toNat_of_nonneg nonnegative] at spelled
  · have spelled := Spells.minus (isDigits_toDigits (-n.toInt).toNat)
    rwa [Int.toNat_of_nonneg (by omega), Int.neg_neg] at spelled

end Volley.Integer
