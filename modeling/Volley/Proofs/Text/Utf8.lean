import Mathlib.Data.List.Basic
import Volley.Numeral
import Volley.Text.Utf8

namespace Volley.Utf8

variable {lead b c d : UInt8} {rest following after bytes : List UInt8} {char : Char}

/-! ## Bytes as numbers -/

theorem ofNat_eq {n : Nat} (same : n = b.toNat) : UInt8.ofNat n = b := by
  rw [same, UInt8.ofNat_toNat]

theorem isContinuation_iff : isContinuation b = true ↔ 0x80 ≤ b.toNat ∧ b.toNat ≤ 0xBF := by
  simp [isContinuation, UInt8.le_iff_toNat_le]

theorem isSecondOfThree_iff : isSecondOfThree lead b = true ↔ isContinuation b = true ∧
    (lead.toNat = 0xE0 → 0xA0 ≤ b.toNat) ∧ (lead.toNat = 0xED → b.toNat ≤ 0x9F) := by
  simp only [isSecondOfThree, isContinuation_iff, ← UInt8.toNat_inj, UInt8.toNat_ofNat]
  split
  · simp only [Bool.and_eq_true, decide_eq_true_eq, UInt8.le_iff_toNat_le, UInt8.toNat_ofNat]
    omega
  · split
    · simp only [Bool.and_eq_true, decide_eq_true_eq, UInt8.le_iff_toNat_le, UInt8.toNat_ofNat]
      omega
    · rw [isContinuation_iff]
      omega

theorem isSecondOfFour_iff : isSecondOfFour lead b = true ↔ isContinuation b = true ∧
    (lead.toNat = 0xF0 → 0x90 ≤ b.toNat) ∧ (lead.toNat = 0xF4 → b.toNat ≤ 0x8F) := by
  simp only [isSecondOfFour, isContinuation_iff, ← UInt8.toNat_inj, UInt8.toNat_ofNat]
  split
  · simp only [Bool.and_eq_true, decide_eq_true_eq, UInt8.le_iff_toNat_le, UInt8.toNat_ofNat]
    omega
  · split
    · simp only [Bool.and_eq_true, decide_eq_true_eq, UInt8.le_iff_toNat_le, UInt8.toNat_ofNat]
      omega
    · rw [isContinuation_iff]
      omega

/-! ## Characters of one to four bytes -/

theorem read_one (ascii : lead.toNat < 0x80) :
    read lead rest = .char (Char.ofNat lead.toNat) rest := by
  simp [read, UInt8.lt_iff_toNat_lt, ascii]

theorem read_two (low : 0xC2 ≤ lead.toNat) (high : lead.toNat < 0xE0)
    (second : isContinuation b = true) :
    read lead (b :: rest) = .char (Char.ofNat (lead.toNat % 32 * 64 + payload b)) rest := by
  have notAscii : ¬ lead.toNat < 0x80 := by omega
  simp [read, UInt8.lt_iff_toNat_lt, notAscii, Nat.not_lt.2 low, high, second]

theorem read_three (low : 0xE0 ≤ lead.toNat) (high : lead.toNat < 0xF0)
    (second : isSecondOfThree lead b = true) (third : isContinuation c = true) :
    read lead (b :: c :: rest) =
      .char (Char.ofNat ((lead.toNat % 16 * 64 + payload b) * 64 + payload c)) rest := by
  have notAscii : ¬ lead.toNat < 0x80 := by omega
  have notOverlong : ¬ lead.toNat < 0xC2 := by omega
  simp [read, UInt8.lt_iff_toNat_lt, notAscii, notOverlong, Nat.not_lt.2 low, high, second, third]

theorem read_four (low : 0xF0 ≤ lead.toNat) (high : lead.toNat < 0xF5)
    (second : isSecondOfFour lead b = true) (third : isContinuation c = true)
    (fourth : isContinuation d = true) :
    read lead (b :: c :: d :: rest) =
      .char (Char.ofNat (((lead.toNat % 8 * 64 + payload b) * 64 + payload c) * 64 + payload d))
        rest := by
  have notAscii : ¬ lead.toNat < 0x80 := by omega
  have notOverlong : ¬ lead.toNat < 0xC2 := by omega
  have notTwo : ¬ lead.toNat < 0xE0 := by omega
  simp [read, UInt8.lt_iff_toNat_lt, notAscii, notOverlong, notTwo, Nat.not_lt.2 low, high, second,
    third, fourth]

theorem read_encodeChar (char : Char) (rest : List UInt8) :
    ∃ lead tail, String.utf8EncodeChar char = lead :: tail ∧
      read lead (tail ++ rest) = .char char rest := by
  have valid : char.toNat < 0xD800 ∨ 0xE000 ≤ char.toNat ∧ char.toNat < 0x110000 := by
    rcases char.valid with low | ⟨above, below⟩
    · exact .inl low
    · exact .inr ⟨Nat.lt_of_succ_le above, below⟩
  have same : ∀ {n : Nat}, n = char.toNat → Char.ofNat n = char := by
    rintro n rfl
    exact Char.ofNat_toNat char
  unfold String.utf8EncodeChar
  dsimp only
  change ∃ lead tail, (if char.toNat ≤ 0x7f then _ else if char.toNat ≤ 0x7ff then _ else
    if char.toNat ≤ 0xffff then _ else _) = lead :: tail ∧ _
  split
  · refine ⟨_, _, rfl, ?_⟩
    rw [List.nil_append, read_one (by simp; omega), same (by simp; omega)]
  · split
    · refine ⟨_, _, rfl, ?_⟩
      rw [List.singleton_append, read_two (by simp; omega) (by simp; omega)
        (by rw [isContinuation_iff]; simp; omega), same (by simp [payload]; omega)]
    · split
      · refine ⟨_, _, rfl, ?_⟩
        rw [List.cons_append, List.singleton_append, read_three (by simp; omega) (by simp; omega)
          (by rw [isSecondOfThree_iff, isContinuation_iff]; simp; omega)
          (by rw [isContinuation_iff]; simp; omega), same (by simp [payload]; omega)]
      · refine ⟨_, _, rfl, ?_⟩
        rw [List.cons_append, List.cons_append, List.singleton_append, read_four (by simp; omega)
          (by simp; omega) (by rw [isSecondOfFour_iff, isContinuation_iff]; simp; omega)
          (by rw [isContinuation_iff]; simp; omega) (by rw [isContinuation_iff]; simp; omega),
          same (by simp [payload]; omega)]

/-! ## Texts -/

theorem encode_eq (text : String) : encode text = text.toList.flatMap String.utf8EncodeChar := by
  have bytes : (String.ofList text.toList).toByteArray = text.toList.utf8Encode :=
    String.toByteArray_ofList
  rw [String.ofList_toList] at bytes
  rw [encode, String.toUTF8_eq_toByteArray, bytes, List.utf8Encode, List.toList_data_toByteArray]

theorem decodeAt_append (index : Nat) (cs : List Char) (rest : List UInt8) :
    ∃ place, decodeAt index (cs.flatMap String.utf8EncodeChar ++ rest) =
      (decodeAt place rest).map (cs ++ ·) := by
  induction cs generalizing index with
  | nil =>
      refine ⟨index, ?_⟩
      cases decoded : decodeAt index rest <;> simp [decoded, Except.map]
  | cons c cs ih =>
      obtain ⟨lead, tail, bytes, front⟩ :=
        read_encodeChar c (cs.flatMap String.utf8EncodeChar ++ rest)
      obtain ⟨place, later⟩ := ih (index + c.utf8Size)
      refine ⟨place, ?_⟩
      rw [List.flatMap_cons, bytes, List.append_assoc, List.cons_append, decodeAt]
      split
      · rename_i c' after found
        cases front.symm.trans found
        rw [later]
        cases decodeAt place rest <;> rfl
      · rename_i found
        cases front.symm.trans found
      · rename_i found
        cases front.symm.trans found

theorem decode_encode (text : String) : decode (encode text) = .ok text := by
  obtain ⟨place, decoded⟩ := decodeAt_append 0 text.toList []
  rw [List.append_nil] at decoded
  rw [decode, encode_eq, decoded, decodeAt]
  simp [Except.map]

/-! ## What is read as a character -/

def announced? (lead : UInt8) : Option Nat :=
  if lead < 0x80 then some 0
  else if lead < 0xC0 then none
  else if lead < 0xE0 then some 1
  else if lead < 0xF0 then some 2
  else if lead < 0xF8 then some 3
  else none

def leadBits (count : Nat) : Nat := if count = 0 then 7 else 6 - count

def spelled (lead : UInt8) (following : List UInt8) : Nat :=
  following.foldl (fun n b => n * 64 + payload b) (lead.toNat % 2 ^ leadBits following.length)

def least : Nat → Nat
  | 0 => 0
  | 1 => 0x80
  | 2 => 0x800
  | _ => 0x10000

/-- The continuation bytes that a first byte announces stand at the front of what follows it. -/
structure Announces (lead : UInt8) (following rest : List UInt8) : Prop where
  length : announced? lead = some following.length
  continuation : ∀ b ∈ following, isContinuation b = true
  front : following <+: rest

structure Spells (lead : UInt8) (following : List UInt8) (char : Char) : Prop where
  announces : Announces lead following following
  value : spelled lead following = char.toNat
  shortest : least following.length ≤ char.toNat

theorem announced?_eq_some_iff {count : Nat} : announced? lead = some count ↔
    (lead.toNat < 0x80 ∧ count = 0) ∨ (0xC0 ≤ lead.toNat ∧ lead.toNat < 0xE0 ∧ count = 1) ∨
      (0xE0 ≤ lead.toNat ∧ lead.toNat < 0xF0 ∧ count = 2) ∨
      (0xF0 ≤ lead.toNat ∧ lead.toNat < 0xF8 ∧ count = 3) := by
  simp only [announced?, UInt8.lt_iff_toNat_lt, UInt8.toNat_ofNat]
  repeat' split
  all_goals simp only [Option.some.injEq, reduceCtorEq, false_iff]; omega

theorem isValidChar_iff {n : Nat} : n.isValidChar ↔ n < 0xD800 ∨ 0xE000 ≤ n ∧ n < 0x110000 := by
  unfold Nat.isValidChar
  omega

theorem toNat_ofNat {n : Nat} (valid : n.isValidChar) : (Char.ofNat n).toNat = n := by
  rw [Char.ofNat, dif_pos valid]
  rfl

theorem spells_one (ascii : lead.toNat < 0x80) :
    Spells lead [] (Char.ofNat lead.toNat) := by
  have value : (Char.ofNat lead.toNat).toNat = lead.toNat :=
    toNat_ofNat (isValidChar_iff.2 (by omega))
  refine ⟨⟨announced?_eq_some_iff.2 (.inl ⟨ascii, rfl⟩), nofun, List.prefix_rfl⟩, ?_, ?_⟩
  · rw [value]
    exact Nat.mod_eq_of_lt ascii
  · exact Nat.zero_le _

theorem spells_two (low : 0xC2 ≤ lead.toNat) (high : lead.toNat < 0xE0)
    (second : isContinuation b = true) :
    Spells lead [b] (Char.ofNat (lead.toNat % 32 * 64 + payload b)) := by
  obtain ⟨low', high'⟩ := isContinuation_iff.1 second
  have value : (Char.ofNat (lead.toNat % 32 * 64 + payload b)).toNat =
      lead.toNat % 32 * 64 + payload b :=
    toNat_ofNat (isValidChar_iff.2 (by simp only [payload]; omega))
  refine ⟨⟨announced?_eq_some_iff.2 (by simp; omega), by simpa using second, List.prefix_rfl⟩,
    value.symm, ?_⟩
  rw [value]
  simp only [least, List.length_singleton, payload]
  omega

theorem spells_three (low : 0xE0 ≤ lead.toNat) (high : lead.toNat < 0xF0)
    (second : isSecondOfThree lead b = true) (third : isContinuation c = true) :
    Spells lead [b, c] (Char.ofNat ((lead.toNat % 16 * 64 + payload b) * 64 + payload c)) := by
  obtain ⟨continues, notOverlong, notSurrogate⟩ := isSecondOfThree_iff.1 second
  have secondRange := isContinuation_iff.1 continues
  have thirdRange := isContinuation_iff.1 third
  have value : (Char.ofNat ((lead.toNat % 16 * 64 + payload b) * 64 + payload c)).toNat =
      (lead.toNat % 16 * 64 + payload b) * 64 + payload c :=
    toNat_ofNat (isValidChar_iff.2 (by simp only [payload]; omega))
  refine ⟨⟨announced?_eq_some_iff.2 (by simp; omega), by simpa using ⟨continues, third⟩,
    List.prefix_rfl⟩, value.symm, ?_⟩
  rw [value]
  simp only [least, List.length_cons, List.length_nil, payload]
  omega

theorem spells_four (low : 0xF0 ≤ lead.toNat) (high : lead.toNat < 0xF5)
    (second : isSecondOfFour lead b = true) (third : isContinuation c = true)
    (fourth : isContinuation d = true) :
    Spells lead [b, c, d]
      (Char.ofNat (((lead.toNat % 8 * 64 + payload b) * 64 + payload c) * 64 + payload d)) := by
  obtain ⟨continues, notOverlong, notBeyond⟩ := isSecondOfFour_iff.1 second
  have secondRange := isContinuation_iff.1 continues
  have thirdRange := isContinuation_iff.1 third
  have fourthRange := isContinuation_iff.1 fourth
  have value :
      (Char.ofNat (((lead.toNat % 8 * 64 + payload b) * 64 + payload c) * 64 + payload d)).toNat =
        ((lead.toNat % 8 * 64 + payload b) * 64 + payload c) * 64 + payload d :=
    toNat_ofNat (isValidChar_iff.2 (by simp only [payload]; omega))
  refine ⟨⟨announced?_eq_some_iff.2 (by simp; omega), by simpa using ⟨continues, third, fourth⟩,
    List.prefix_rfl⟩, value.symm, ?_⟩
  rw [value]
  simp only [least, List.length_cons, List.length_nil, payload]
  omega

theorem spells_of_read (found : read lead rest = .char char after) :
    ∃ following, rest = following ++ after ∧ Spells lead following char := by
  unfold read at found
  simp only [UInt8.lt_iff_toNat_lt, UInt8.toNat_ofNat] at found
  repeat' split at found
  all_goals cases found
  · rename_i ascii
    exact ⟨[], rfl, spells_one ascii⟩
  · rename_i second
    exact ⟨[_], rfl, spells_two (by omega) (by omega) second⟩
  · rename_i second _ _ third
    exact ⟨[_, _], rfl, spells_three (by omega) (by omega) (by simpa using second) third⟩
  · rename_i second _ _ third _ _ fourth
    exact ⟨[_, _, _], rfl, spells_four (by omega) (by omega) (by simpa using second)
      (by simpa using third) fourth⟩

theorem encodeChar_of_spells (spells : Spells lead following char) :
    String.utf8EncodeChar char = lead :: following := by
  have value : char.val.toNat = spelled lead following := spells.value.symm
  have shortest : least following.length ≤ char.val.toNat := spells.shortest
  unfold String.utf8EncodeChar
  dsimp only
  rcases announced?_eq_some_iff.1 spells.announces.length with
    ⟨ascii, count⟩ | ⟨low, high, count⟩ | ⟨low, high, count⟩ | ⟨low, high, count⟩
  · obtain rfl := List.length_eq_zero_iff.1 count
    have value : char.val.toNat = lead.toNat := value.trans (Nat.mod_eq_of_lt ascii)
    rw [if_pos (by omega), ofNat_eq value]
  · obtain ⟨b, rfl⟩ := List.length_eq_one_iff.1 count
    have second := isContinuation_iff.1 (spells.announces.continuation b (by simp))
    have value : char.val.toNat = lead.toNat % 32 * 64 + payload b := value
    have shortest : 0x80 ≤ char.val.toNat := shortest
    simp only [payload] at value
    rw [if_neg (by omega), if_pos (by omega), ofNat_eq (b := lead) (by omega),
      ofNat_eq (b := b) (by omega)]
  · obtain ⟨b, c, rfl⟩ := List.length_eq_two.1 count
    have second := isContinuation_iff.1 (spells.announces.continuation b (by simp))
    have third := isContinuation_iff.1 (spells.announces.continuation c (by simp))
    have value : char.val.toNat = (lead.toNat % 16 * 64 + payload b) * 64 + payload c := value
    have shortest : 0x800 ≤ char.val.toNat := shortest
    simp only [payload] at value
    rw [if_neg (by omega), if_neg (by omega), if_pos (by omega), ofNat_eq (b := lead) (by omega),
      ofNat_eq (b := b) (by omega), ofNat_eq (b := c) (by omega)]
  · obtain ⟨b, c, d, rfl⟩ := List.length_eq_three.1 count
    have second := isContinuation_iff.1 (spells.announces.continuation b (by simp))
    have third := isContinuation_iff.1 (spells.announces.continuation c (by simp))
    have fourth := isContinuation_iff.1 (spells.announces.continuation d (by simp))
    have value : char.val.toNat =
        ((lead.toNat % 8 * 64 + payload b) * 64 + payload c) * 64 + payload d := value
    have shortest : 0x10000 ≤ char.val.toNat := shortest
    simp only [payload] at value
    rw [if_neg (by omega), if_neg (by omega), if_neg (by omega), ofNat_eq (b := lead) (by omega),
      ofNat_eq (b := b) (by omega), ofNat_eq (b := c) (by omega), ofNat_eq (b := d) (by omega)]

theorem read_of_spells (spells : Spells lead following char) (after : List UInt8) :
    read lead (following ++ after) = .char char after := by
  obtain ⟨_, _, bytes, front⟩ := read_encodeChar char after
  cases (encodeChar_of_spells spells).symm.trans bytes
  exact front

theorem encodeChar_of_read (found : read lead rest = .char char after) :
    lead :: rest = String.utf8EncodeChar char ++ after := by
  obtain ⟨following, rfl, spells⟩ := spells_of_read found
  rw [encodeChar_of_spells spells, List.cons_append]

/-! ## What is refused -/

theorem Announces.unique {other : List UInt8} (one : Announces lead following rest)
    (another : Announces lead other rest) : following = other := by
  have length := Option.some.inj (one.length.symm.trans another.length)
  exact List.IsPrefix.eq_of_length (List.prefix_of_prefix_length_le one.front another.front
    (Nat.le_of_eq length)) length

theorem announces_take {count : Nat} (announced : announced? lead = some count)
    (enough : count ≤ (rest.takeWhile isContinuation).length) :
    Announces lead ((rest.takeWhile isContinuation).take count) rest := by
  refine ⟨?_, fun b member => ?_, ?_⟩
  · rw [announced, List.length_take, Nat.min_eq_left enough]
  · exact List.all_eq_true.1 List.all_takeWhile b (List.mem_of_mem_take member)
  · exact (List.take_prefix _ _).trans (List.takeWhile_prefix _)

inductive Flaw (lead : UInt8) (rest : List UInt8) : Prop
  | lead : announced? lead = none → Flaw lead rest
  | truncated {count : Nat} : announced? lead = some count →
      (rest.takeWhile isContinuation).length < count → Flaw lead rest
  | overlong {following : List UInt8} : Announces lead following rest →
      spelled lead following < least following.length → Flaw lead rest
  | surrogate {following : List UInt8} : Announces lead following rest →
      0xD800 ≤ spelled lead following → spelled lead following < 0xE000 → Flaw lead rest
  | beyond {following : List UInt8} : Announces lead following rest →
      0x110000 ≤ spelled lead following → Flaw lead rest

theorem Flaw.read_ne (flaw : Flaw lead rest) : read lead rest ≠ .char char after := by
  intro found
  obtain ⟨following, rfl, spells⟩ := spells_of_read found
  have valid : char.toNat.isValidChar := char.valid
  have range := isValidChar_iff.1 valid
  have value := spells.value
  have announces : Announces lead following (following ++ after) :=
    { spells.announces with front := List.prefix_append _ _ }
  cases flaw with
  | lead none => cases none.symm.trans announces.length
  | truncated announced few =>
      cases announced.symm.trans announces.length
      rw [List.takeWhile_append_of_pos announces.continuation, List.length_append] at few
      omega
  | overlong announces' low =>
      have shortest := spells.shortest
      rw [announces'.unique announces] at low
      omega
  | surrogate announces' low high =>
      rw [announces'.unique announces] at low high
      omega
  | beyond announces' high =>
      rw [announces'.unique announces] at high
      omega

theorem flaw_of_read_ne (unread : ∀ char after, read lead rest ≠ .char char after) :
    Flaw lead rest := by
  cases announced : announced? lead with
  | none => exact .lead announced
  | some count =>
      rcases Nat.lt_or_ge (rest.takeWhile isContinuation).length count with few | enough
      · exact .truncated announced few
      · have announces := announces_take announced enough
        obtain ⟨after, split⟩ := announces.front
        generalize (rest.takeWhile isContinuation).take count = following at announces split
        by_cases short : spelled lead following < least following.length
        · exact .overlong announces short
        · by_cases valid : (spelled lead following).isValidChar
          · have value := toNat_ofNat valid
            have spells : Spells lead following (Char.ofNat (spelled lead following)) :=
              ⟨{ announces with front := List.prefix_rfl }, value.symm, by omega⟩
            exact absurd (read_of_spells spells after) (split ▸ unread _ _)
          · rw [isValidChar_iff] at valid
            by_cases low : spelled lead following < 0xE000
            · exact .surrogate announces (by omega) low
            · exact .beyond announces (by omega)

def Malformed (bytes : List UInt8) : Prop :=
  ∃ text lead rest, bytes = encode text ++ lead :: rest ∧ Flaw lead rest

theorem decodeAt_cases (index : Nat) (bytes : List UInt8) :
    (∃ cs : List Char, decodeAt index bytes = .ok cs ∧ bytes = cs.flatMap String.utf8EncodeChar) ∨
      ∃ (cause : Error) (cs : List Char) (lead : UInt8) (rest : List UInt8),
        decodeAt index bytes = .error cause ∧
        bytes = cs.flatMap String.utf8EncodeChar ++ lead :: rest ∧ Flaw lead rest := by
  fun_induction decodeAt index bytes with
  | case1 index => exact .inl ⟨[], rfl, rfl⟩
  | case2 index lead rest c after front ih =>
      have split := encodeChar_of_read front
      rcases ih with ⟨cs, decoded, rfl⟩ | ⟨cause, cs, lead', rest', failed, rfl, flaw⟩
      · refine .inl ⟨c :: cs, ?_, ?_⟩
        · rw [decoded]
          rfl
        · rw [split, List.flatMap_cons]
      · refine .inr ⟨cause, c :: cs, lead', rest', ?_, ?_, flaw⟩
        · rw [failed]
          rfl
        · rw [split, List.flatMap_cons, List.append_assoc]
  | case3 index lead rest length after front =>
      exact .inr ⟨_, [], lead, rest, rfl, rfl, flaw_of_read_ne (by simp [front])⟩
  | case4 index lead rest front =>
      exact .inr ⟨_, [], lead, rest, rfl, rfl, flaw_of_read_ne (by simp [front])⟩

theorem encode_ofList (cs : List Char) :
    encode (String.ofList cs) = cs.flatMap String.utf8EncodeChar := by
  rw [encode_eq, String.toList_ofList]

theorem decode_cases (bytes : List UInt8) :
    (∃ text, decode bytes = .ok text ∧ bytes = encode text) ∨
      ∃ cause, decode bytes = .error cause ∧ Malformed bytes := by
  rcases decodeAt_cases 0 bytes with
    ⟨cs, decoded, split⟩ | ⟨cause, cs, lead, rest, failed, split, flaw⟩
  · refine .inl ⟨String.ofList cs, ?_, split.trans (encode_ofList cs).symm⟩
    rw [decode, decoded]
    rfl
  · refine .inr ⟨cause, ?_, String.ofList cs, lead, rest, ?_, flaw⟩
    · rw [decode, failed]
      rfl
    · rw [split, encode_ofList]

theorem decode_eq_ok_iff {text : String} : decode bytes = .ok text ↔ bytes = encode text := by
  constructor
  · intro decoded
    rcases decode_cases bytes with ⟨other, decoded', split⟩ | ⟨cause, failed, -⟩
    · cases decoded.symm.trans decoded'
      exact split
    · cases decoded.symm.trans failed
  · rintro rfl
    exact decode_encode text

theorem encode_injective : Function.Injective encode := by
  intro text other same
  have decoded := decode_eq_ok_iff.2 same
  rw [decode_encode] at decoded
  exact Except.ok.inj decoded

theorem decode_eq_error_iff : (∃ cause, decode bytes = .error cause) ↔ Malformed bytes := by
  constructor
  · rintro ⟨cause, failed⟩
    rcases decode_cases bytes with ⟨text, decoded, -⟩ | ⟨_, -, malformed⟩
    · cases failed.symm.trans decoded
    · exact malformed
  · rintro ⟨text, lead, rest, rfl, flaw⟩
    obtain ⟨place, decoded⟩ := decodeAt_append 0 text.toList (lead :: rest)
    rw [decode, encode_eq, decoded, decodeAt]
    split
    · rename_i found
      exact absurd found flaw.read_ne
    · exact ⟨_, rfl⟩
    · exact ⟨_, rfl⟩

end Volley.Utf8
