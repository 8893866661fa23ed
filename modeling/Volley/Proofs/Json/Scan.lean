import Volley.Json.Reader
import Volley.Proofs.Json.Grammar
import Volley.Proofs.Text.Integer

namespace Volley.Json

theorem spellsChar_escape (c : Char) : SpellsChar (escape c) c := by
  unfold escape
  -- The seven characters with an escape of two characters.
  iterate 7
    split
    next => subst c; exact .short (by decide)
  split
  · rename_i control
    have zero : IsHexDigit '0' 0 := ⟨by decide, .inl rfl⟩
    have digits := SpellsUnit.digits zero zero
      (⟨by omega, .inl rfl⟩ : IsHexDigit (hexDigit (c.toNat / 16)) (c.toNat / 16))
      (⟨by omega, .inl rfl⟩ : IsHexDigit (hexDigit (c.toNat % 16)) (c.toNat % 16))
    have value : ((0 * 16 + 0) * 16 + c.toNat / 16) * 16 + c.toNat % 16 = c.toNat := by omega
    rw [value] at digits
    exact .unit digits
  · rename_i notQuote notBackslash _ _ _ _ _ notControl
    exact .plain ⟨notQuote, notBackslash, Nat.not_lt.1 notControl⟩

theorem spellsText_escape (text : List Char) : SpellsText (text.flatMap escape) text := by
  induction text with
  | nil => exact .nil
  | cons c text ih => exact .cons (spellsChar_escape c) ih

theorem quotedText_quoteChars (text : String) : QuotedText (quoteChars text) text :=
  ⟨_, spellsText_escape text.toList, by simp [quoteChars]⟩

namespace Scan

variable {α β : Type} {scan : Scan α} {next : α → Scan β} {a : α} {b b' cs ds rest : List Char}
  {c : Char} {n : Nat}

theorem bind_of_ok (read : scan cs = .ok (a, rest)) : (scan >>= next) cs = next a rest := by
  change (scan cs >>= fun p => next p.1 p.2) = _
  rw [read]
  rfl

theorem peek_cons (visible : isSpace c = false) : peek (c :: cs) = .ok (some c, c :: cs) := by
  simp [peek, visible]

theorem skip_cons (c : Char) (cs : List Char) : skip (c :: cs) = .ok ((), cs) := rfl

theorem dropWhile_blank (blank : IsBlank b) (cs : List Char) :
    (b ++ cs).dropWhile isSpace = cs.dropWhile isSpace :=
  List.dropWhile_append_of_pos fun c member => by
    rcases blank c member with rfl | rfl | rfl | rfl <;> rfl

theorem peek_bind_blank {next : Option Char → Scan β} (blank : IsBlank b) (cs : List Char) :
    (peek >>= next) (b ++ cs) = (peek >>= next) cs := by
  have same : peek (b ++ cs) = peek cs := by rw [peek, dropWhile_blank blank, peek]
  change (peek (b ++ cs) >>= fun p => next p.1 p.2) = (peek cs >>= fun p => next p.1 p.2)
  rw [same]

theorem punctuation_blank (blank : IsBlank b) (visible : isSpace c = false) (rest : List Char) :
    punctuation c (b ++ c :: rest) = .ok ((), rest) := by
  rw [punctuation, peek_bind_blank blank, bind_of_ok (peek_cons visible), if_pos rfl]
  rfl

theorem moreItems_done {first : Bool} (blank : IsBlank b) (rest : List Char) :
    moreItems first (b ++ ']' :: rest) = .ok (false, ']' :: rest) := by
  rw [moreItems, peek_bind_blank blank]
  rfl

theorem moreItems_lead {first : Bool} (lead : Lead first b) (visible : isSpace c = false)
    (notEnd : c ≠ ']') (rest : List Char) :
    moreItems first (b ++ c :: rest) = .ok (true, c :: rest) := by
  rw [moreItems]
  cases lead with
  | first blank =>
      rw [peek_bind_blank blank, bind_of_ok (peek_cons visible)]
      by_cases comma : c = ','
      · subst comma
        rfl
      · simp only
        rfl
  | comma blank blank' =>
      rw [List.append_assoc, peek_bind_blank blank]
      refine (bind_of_ok (peek_cons (by decide))).trans ((bind_of_ok (skip_cons _ _)).trans ?_)
      refine (peek_bind_blank blank' _).trans ((bind_of_ok (peek_cons visible)).trans ?_)
      simp only
      rfl

theorem moreMembers_done {first : Bool} (blank : IsBlank b) (rest : List Char) :
    moreMembers first (b ++ '\x7d' :: rest) = .ok (false, '\x7d' :: rest) := by
  rw [moreMembers, peek_bind_blank blank]
  rfl

theorem moreMembers_lead {first : Bool} (lead : Lead first b) (rest : List Char) :
    moreMembers first (b ++ '"' :: rest) = .ok (true, '"' :: rest) := by
  rw [moreMembers]
  cases lead with
  | first blank =>
      rw [peek_bind_blank blank]
      rfl
  | comma blank blank' =>
      rw [List.append_assoc, peek_bind_blank blank]
      refine (bind_of_ok (peek_cons (by decide))).trans ((bind_of_ok (skip_cons _ _)).trans ?_)
      exact peek_bind_blank blank' _

theorem hexValue?_of_isHexDigit (digit : IsHexDigit c n) : hexValue? c = some n := by
  obtain ⟨small, rfl | rfl⟩ := digit
  · exact (by decide : ∀ n < 16, hexValue? n.digitChar = some n) n small
  · exact (by decide : ∀ n < 16, hexValue? n.digitChar.toUpper = some n) n small

theorem hexFour_of_spells (spelled : SpellsUnit ds n) (rest : List Char) :
    hexFour (ds ++ rest) = .ok (n, rest) := by
  cases spelled with
  | digits a b c d =>
      simp [hexFour, hexValue?_of_isHexDigit a, hexValue?_of_isHexDigit b,
        hexValue?_of_isHexDigit c, hexValue?_of_isHexDigit d]

theorem simpleEscape?_of_mem {x : Char} (listed : (x, c) ∈ shortEscapes) :
    simpleEscape? x = some c :=
  (by decide : ∀ p ∈ shortEscapes, simpleEscape? p.1 = some p.2) _ listed

theorem toNat_not_surrogate (c : Char) : c.toNat < 0xD800 ∨ 0xDFFF < c.toNat := by
  have := c.valid
  rw [UInt32.isValidChar, Nat.isValidChar] at this
  change c.toNat < _ ∨ _ < c.toNat ∧ _ at this
  omega

theorem unicodeEscape_unit (spelled : SpellsUnit ds c.toNat) (rest : List Char) :
    unicodeEscape (ds ++ rest) = .ok (c, rest) := by
  have scalar := toNat_not_surrogate c
  simp only [unicodeEscape, hexFour_of_spells spelled]
  rw [if_neg (by omega), if_pos (by omega), Char.ofNat_toNat]

theorem unicodeEscape_pair {es : List Char} {high low : Nat} (first : SpellsUnit ds high)
    (second : SpellsUnit es low) (highFrom : 0xD800 ≤ high) (highTo : high ≤ 0xDBFF)
    (lowFrom : 0xDC00 ≤ low) (lowTo : low ≤ 0xDFFF)
    (value : c.toNat = 0x10000 + (high - 0xD800) * 1024 + (low - 0xDC00)) (rest : List Char) :
    unicodeEscape (ds ++ '\\' :: 'u' :: (es ++ rest)) = .ok (c, rest) := by
  have between : name ['\\', 'u'] ('\\' :: 'u' :: (es ++ rest)) = .ok ((), es ++ rest) := rfl
  simp only [unicodeEscape, hexFour_of_spells first]
  rw [if_neg (by omega), if_neg (by omega), between]
  dsimp only
  rw [hexFour_of_spells second]
  dsimp only
  rw [if_pos ⟨lowFrom, lowTo⟩, ← value, Char.ofNat_toNat]

theorem stringBody_backslash (read : escaped cs = .ok (c, rest)) :
    stringBody ('\\' :: cs) = (stringBody rest).map fun p => (c :: p.1, p.2) := by
  rw [stringBody, if_neg (by decide), if_pos rfl]
  split
  · rename_i failed
    cases read.symm.trans failed
  · rename_i found
    cases read.symm.trans found
    cases stringBody rest <;> rfl

theorem stringBody_plain (plain : IsPlain c) (rest : List Char) :
    stringBody (c :: rest) = (stringBody rest).map fun p => (c :: p.1, p.2) := by
  obtain ⟨notQuote, notBackslash, notControl⟩ := plain
  rw [stringBody, if_neg notQuote, if_neg notBackslash, if_neg (Nat.not_lt.2 notControl)]
  cases stringBody rest <;> rfl

theorem stringBody_of_spellsChar (spelled : SpellsChar cs c) (rest : List Char) :
    stringBody (cs ++ rest) = (stringBody rest).map fun p => (c :: p.1, p.2) := by
  cases spelled with
  | plain plain => exact stringBody_plain plain rest
  | @short x c listed =>
      have read : escaped (x :: rest) = .ok (c, rest) := by
        simp only [escaped, simpleEscape?_of_mem listed]
      exact stringBody_backslash read
  | unit digits => exact stringBody_backslash (unicodeEscape_unit digits rest)
  | pair first second highFrom highTo lowFrom lowTo value =>
      rw [List.cons_append, List.cons_append, List.append_assoc]
      exact stringBody_backslash
        (unicodeEscape_pair first second highFrom highTo lowFrom lowTo value rest)

theorem stringRest_of_spells {text : String} (spelled : SpellsText cs text.toList)
    (rest : List Char) : stringRest (cs ++ '"' :: rest) = .ok (text, rest) := by
  have body : ∀ {cs chars}, SpellsText cs chars → stringBody (cs ++ '"' :: rest) =
      .ok (chars, rest) := by
    intro cs chars spelled
    induction spelled with
    | nil => simp [stringBody]
    | cons spelled _ ih =>
        rw [List.append_assoc, stringBody_of_spellsChar spelled, ih]
        rfl
  rw [stringRest, body spelled]
  simp

def IsNumberFront (c : Char) : Prop := c = '-' ∨ c.isDigit = true

theorem ne_of_isNumberFront {b : Char} (front : IsNumberFront c)
    (other : b ≠ '-' ∧ b.isDigit = false) : c ≠ b := by
  rintro rfl
  rcases front with minus | digit
  · exact other.1 minus
  · exact absurd digit (Bool.eq_false_iff.1 other.2)

theorem isSpace_of_isNumberFront (front : IsNumberFront c) : isSpace c = false := by
  simp [isSpace, ne_of_isNumberFront front (b := ' ') (by decide),
    ne_of_isNumberFront front (b := '\n') (by decide),
    ne_of_isNumberFront front (b := '\t') (by decide),
    ne_of_isNumberFront front (b := '\r') (by decide)]

theorem dropWhile_digits (digits : ds.all Char.isDigit = true)
    (ends : ∀ c ∈ rest.head?, c.isDigit = false) :
    (ds ++ rest).dropWhile Char.isDigit = rest := by
  rw [List.dropWhile_append_of_pos (List.all_eq_true.1 digits)]
  cases rest with
  | nil => rfl
  | cons c rest => simp [ends c rfl]

theorem le_ofDigitChars (value : Nat) (ds : List Char) :
    value ≤ Nat.ofDigitChars 10 ds value := by
  induction ds generalizing value with
  | nil => simp
  | cons d ds ih =>
      rw [Nat.ofDigitChars_cons]
      have := ih (10 * value + (d.toNat - '0'.toNat))
      omega

theorem fill_digits {value : Nat} (digits : ds.all Char.isDigit = true)
    (fits : Nat.ofDigitChars 10 ds value < wholeLimit)
    (ends : ∀ c ∈ rest.head?, c.isDigit = false) :
    fill value (ds ++ rest) = (Nat.ofDigitChars 10 ds value, rest) := by
  induction ds generalizing value with
  | nil =>
      cases rest with
      | nil => rfl
      | cons c rest => simp [fill, ends c rfl]
  | cons d ds ih =>
      obtain ⟨digit, digits⟩ := Bool.and_eq_true_iff.1 (List.all_cons ▸ digits)
      rw [Nat.ofDigitChars_cons, Nat.mul_comm] at fits ⊢
      have small := Nat.lt_of_le_of_lt (le_ofDigitChars _ ds) fits
      rw [List.cons_append, fill, if_pos ⟨digit, small⟩]
      exact ih digits fits

theorem exists_toDigits_eq_cons_ne_zero (positive : 0 < n) :
    ∃ c rest, Nat.toDigits 10 n = c :: rest ∧ c ≠ '0' := by
  induction n using Nat.strongRecOn with
  | ind n ih =>
      rcases Nat.lt_or_ge n 10 with small | large
      · refine ⟨_, [], Nat.toDigits_of_lt_base small, ?_⟩
        have : ∀ n < 10, 0 < n → n.digitChar ≠ '0' := by decide
        exact this n small positive
      · obtain ⟨c, rest, front, nonzero⟩ := ih (n / 10) (by omega) (by omega)
        rw [Nat.toDigits_of_base_le (by decide) large, front]
        exact ⟨c, _, rfl, nonzero⟩

theorem all_isDigit_toDigits (n : Nat) : (Nat.toDigits 10 n).all Char.isDigit = true :=
  List.all_eq_true.2 fun _ member => Nat.isDigit_of_mem_toDigits (by decide) (by decide) member

theorem isWhole_toDigits (n : Nat) : IsWhole (Nat.toDigits 10 n) := by
  rcases Nat.eq_zero_or_pos n with rfl | positive
  · exact .inl rfl
  · refine .inr ⟨⟨Nat.toDigits_ne_nil, all_isDigit_toDigits n⟩, ?_⟩
    obtain ⟨c, ds, front, nonzero⟩ := exists_toDigits_eq_cons_ne_zero positive
    simpa [front] using nonzero

theorem isNumber_toString (n : Int) : IsNumber (toString n).toList := by
  rw [Integer.toList_toString]
  split
  · exact ⟨[], Nat.toDigits 10 n.toNat, [], [], .inl rfl, isWhole_toDigits _, .inl rfl, .inl rfl,
      by simp⟩
  · exact ⟨['-'], Nat.toDigits 10 (-n).toNat, [], [], .inr rfl, isWhole_toDigits _, .inl rfl,
      .inl rfl, by simp⟩

theorem afterWhole_of_ends (ends : Ends rest) (negative : Bool) :
    afterWhole negative n rest = afterWhole.plain negative n rest := by
  cases rest with
  | nil => rfl
  | cons c rest =>
      obtain ⟨-, noPoint, noExponent⟩ := ends c rfl
      unfold afterWhole
      split
      · rename_i same
        cases same
        exact absurd rfl noPoint
      · rename_i same
        cases same
        rw [if_neg (not_or.2 noExponent)]
      · rfl

theorem numberRest_toDigits (negative : Bool) (fits : n < wholeLimit) (ends : Ends rest) :
    numberRest negative (Nat.toDigits 10 n ++ rest) = afterWhole.plain negative n rest := by
  have notDigit : ∀ c ∈ rest.head?, c.isDigit = false := fun c first => (ends c first).1
  rw [← afterWhole_of_ends ends]
  rcases Nat.eq_zero_or_pos n with rfl | positive
  · cases rest with
    | nil => rfl
    | cons d rest =>
        change (if d.isDigit then _ else afterWhole negative 0 (d :: rest)) = _
        rw [notDigit d rfl, if_neg Bool.false_ne_true]
  · obtain ⟨c, ds, front, nonzero⟩ := exists_toDigits_eq_cons_ne_zero positive
    obtain ⟨digit, digits⟩ := Bool.and_eq_true_iff.1
      (List.all_cons ▸ front ▸ all_isDigit_toDigits n)
    have value : Nat.ofDigitChars 10 ds (c.toNat - 48) = n := by
      have whole := Nat.ofDigitChars_ten_toDigits (n := n)
      rwa [front, Nat.ofDigitChars_cons, Nat.mul_zero, Nat.zero_add] at whole
    have filled := fill_digits digits (value.symm ▸ fits) notDigit
    simp only [front, List.cons_append, numberRest, if_neg nonzero, if_pos digit, filled, value]
    cases rest with
    | nil => rfl
    | cons d rest =>
        dsimp only
        rw [notDigit d rfl, if_neg Bool.false_ne_true]

theorem number_toString {n : Int} (low : -2 ^ 63 ≤ n) (high : n < 2 ^ 63) (ends : Ends rest) :
    number ((toString n).toList ++ rest) = .ok (.whole n, rest) := by
  rw [Integer.toList_toString]
  split
  · rename_i nonnegative
    have unsigned : number (Nat.toDigits 10 n.toNat ++ rest) =
        numberRest false (Nat.toDigits 10 n.toNat ++ rest) := by
      obtain ⟨c, ds, front, digit⟩ := Integer.exists_toDigits_eq_cons n.toNat
      rw [front, List.cons_append, number]
      intro more minus
      cases minus
      exact absurd digit (by decide)
    rw [unsigned, numberRest_toDigits false (by unfold wholeLimit; omega) ends, afterWhole.plain,
      if_pos (by rfl), Int.toNat_of_nonneg nonnegative]
  · rename_i negative
    change numberRest true (Nat.toDigits 10 (-n).toNat ++ rest) = _
    rw [numberRest_toDigits true (by unfold wholeLimit; omega) ends, afterWhole.plain,
      if_neg (by decide), if_neg (by omega), Int.toNat_of_nonneg (by omega), Int.neg_neg]

end Scan

end Volley.Json
