import Mathlib.Algebra.BigOperators.Option
import Mathlib.Algebra.Order.Floor.Div
import Mathlib.Data.Fintype.BigOperators
import Mathlib.Order.Interval.Finset.Nat
import Volley.Proofs.Random.Draw

/-!
The words that give `i` are those whose products with `n` lie in one window as long as the zone,
whose length is `n` times a power of two.
-/

namespace Volley.Draw

variable {bits n i word : Nat}

def leadingZeros (bits n : Nat) : Nat := (BitVec.ofNat bits n).clz.toNat

theorem leadingZeros_bounds (positive : 0 < n) (fits : n < 2 ^ bits) :
    leadingZeros bits n < bits ∧ 2 ^ (bits - 1 - leadingZeros bits n) ≤ n ∧
      n < 2 ^ (bits - leadingZeros bits n) := by
  have value : (BitVec.ofNat bits n).toNat = n := by
    rw [BitVec.toNat_ofNat, Nat.mod_eq_of_lt fits]
  have nonzero : BitVec.ofNat bits n ≠ 0 := by
    intro zero
    rw [zero] at value
    exact Nat.ne_of_lt positive value
  have wide : 0 < bits := by
    rcases Nat.eq_zero_or_pos bits with rfl | wide
    · omega
    · exact wide
  have low := BitVec.two_pow_sub_clz_le_toNat_of_ne_zero wide nonzero
  have high := BitVec.toNat_lt_two_pow_sub_clz (x := BitVec.ofNat bits n)
  rw [value] at low high
  refine ⟨?_, low, high⟩
  by_contra all
  rw [leadingZeros, Nat.not_lt] at all
  rw [Nat.sub_eq_zero_of_le all, Nat.pow_zero] at high
  omega

theorem log2_eq (positive : 0 < n) (fits : n < 2 ^ bits) :
    n.log2 = bits - 1 - leadingZeros bits n := by
  obtain ⟨some, low, high⟩ := leadingZeros_bounds positive fits
  rw [Nat.log2_eq_iff (Nat.ne_of_gt positive)]
  have next : bits - 1 - leadingZeros bits n + 1 = bits - leadingZeros bits n := by omega
  exact ⟨low, next ▸ high⟩

theorem zone_eq (positive : 0 < n) (fits : n < 2 ^ bits) :
    zone bits n = n * 2 ^ leadingZeros bits n - 1 := by
  obtain ⟨some, -, -⟩ := leadingZeros_bounds positive fits
  have zeros : bits - 1 - n.log2 = leadingZeros bits n := by
    rw [log2_eq positive fits]
    omega
  rw [zone, zeros]

theorem shifted_le (positive : 0 < n) (fits : n < 2 ^ bits) :
    n * 2 ^ leadingZeros bits n ≤ 2 ^ bits := by
  obtain ⟨some, -, high⟩ := leadingZeros_bounds positive fits
  calc n * 2 ^ leadingZeros bits n
      ≤ 2 ^ (bits - leadingZeros bits n) * 2 ^ leadingZeros bits n :=
        Nat.mul_le_mul_right _ (Nat.le_of_lt high)
    _ = 2 ^ bits := by rw [← Nat.pow_add, Nat.sub_add_cancel (Nat.le_of_lt some)]

/-- A word gives `i` exactly if its product with `n` lies in the window of `i`. -/
theorem accept?_eq_some_iff (positive : 0 < n) (fits : n < 2 ^ bits) :
    accept? bits n word = some i ↔ i * 2 ^ bits ≤ word * n ∧
      word * n < i * 2 ^ bits + n * 2 ^ leadingZeros bits n := by
  have window := shifted_le positive fits
  have nonempty : 0 < n * 2 ^ leadingZeros bits n := Nat.mul_pos positive (Nat.two_pow_pos _)
  have split := Nat.div_add_mod' (word * n) (2 ^ bits)
  rw [accept?, zone_eq positive fits]
  constructor
  · intro accepted
    split at accepted
    · cases accepted
      omega
    · cases accepted
  · rintro ⟨low, high⟩
    have quotient : word * n / 2 ^ bits = i :=
      Nat.div_eq_of_lt_le low (by rw [Nat.add_mul, Nat.one_mul]; omega)
    rw [quotient] at split ⊢
    rw [if_pos (by omega)]

def words (bits n : Nat) (decision : Option Nat) : Finset Nat :=
  (Finset.range (2 ^ bits)).filter fun word => accept? bits n word = decision

theorem mem_words {decision : Option Nat} :
    word ∈ words bits n decision ↔ word < 2 ^ bits ∧ accept? bits n word = decision := by
  rw [words, Finset.mem_filter, Finset.mem_range]

theorem words_some (positive : 0 < n) (fits : n < 2 ^ bits) (inside : i < n) :
    words bits n (some i) = Finset.Ico ((i * 2 ^ bits) ⌈/⌉ n)
      ((i * 2 ^ bits) ⌈/⌉ n + 2 ^ leadingZeros bits n) := by
  have window := shifted_le positive fits
  have last : i * 2 ^ bits + 2 ^ bits ≤ n * 2 ^ bits := by
    rw [← Nat.succ_mul]
    exact Nat.mul_le_mul_right _ inside
  ext word
  have start : (i * 2 ^ bits) ⌈/⌉ n ≤ word ↔ i * 2 ^ bits ≤ word * n := by
    rw [ceilDiv_le_iff_le_mul positive, Nat.mul_comm n]
  have stop : (i * 2 ^ bits) ⌈/⌉ n + 2 ^ leadingZeros bits n ≤ word ↔
      i * 2 ^ bits + n * 2 ^ leadingZeros bits n ≤ word * n := by
    rcases Nat.lt_or_ge word (2 ^ leadingZeros bits n) with early | late
    · have short : word * n < n * 2 ^ leadingZeros bits n := by
        rw [Nat.mul_comm]
        exact Nat.mul_lt_mul_of_pos_left early positive
      omega
    · obtain ⟨more, rfl⟩ := Nat.exists_eq_add_of_le' late
      rw [Nat.add_le_add_iff_right, ceilDiv_le_iff_le_mul positive, Nat.add_mul, Nat.mul_comm n,
        Nat.mul_comm n, Nat.add_le_add_iff_right]
  have small : word * n < n * 2 ^ bits → word < 2 ^ bits := by
    rw [Nat.mul_comm n]
    exact Nat.lt_of_mul_lt_mul_right
  rw [mem_words, accept?_eq_some_iff positive fits, Finset.mem_Ico, start,
    lt_iff_lt_of_le_iff_le stop]
  exact ⟨And.right, fun within => ⟨small (by omega), within⟩⟩

theorem card_words_some (positive : 0 < n) (fits : n < 2 ^ bits) (inside : i < n) :
    (words bits n (some i)).card = 2 ^ leadingZeros bits n := by
  rw [words_some positive fits inside, Nat.card_Ico, Nat.add_sub_cancel_left]

theorem card_words_none (positive : 0 < n) (fits : n < 2 ^ bits) :
    (words bits n none).card = 2 ^ bits - n * 2 ^ leadingZeros bits n := by
  have decisions : ∀ word ∈ Finset.range (2 ^ bits),
      accept? bits n word ∈ Finset.insertNone (Finset.range n) := by
    intro word bound
    rw [Finset.mem_insertNone]
    intro i accepted
    exact Finset.mem_range.2 (accept?_lt (Finset.mem_range.1 bound) positive accepted)
  have parts : (Finset.range (2 ^ bits)).card =
      ∑ decision ∈ Finset.insertNone (Finset.range n), (words bits n decision).card :=
    Finset.card_eq_sum_card_fiberwise decisions
  rw [Finset.card_range, Finset.sum_insertNone,
    Finset.sum_congr rfl fun i inside => card_words_some positive fits (Finset.mem_range.1 inside),
    Finset.sum_const, Finset.card_range, nsmul_eq_mul, Nat.cast_id] at parts
  exact Nat.eq_sub_of_add_eq parts.symm

/-- What is drawn with words of so many bits is below `n`; each such number is given by as many
words as every other, and all remaining words are rejected. -/
structure Even (bits n : Nat) : Prop where
  zone_eq : zone bits n = n * 2 ^ leadingZeros bits n - 1
  lt : ∀ {word i : Nat}, word ∈ words bits n (some i) → i < n
  card_words : ∀ {i : Nat}, i < n → (words bits n (some i)).card = 2 ^ leadingZeros bits n
  card_rejected : (words bits n none).card = 2 ^ bits - n * 2 ^ leadingZeros bits n

theorem even (positive : 0 < n) (fits : n < 2 ^ bits) : Even bits n where
  zone_eq := Draw.zone_eq positive fits
  lt given := accept?_lt (mem_words.1 given).1 positive (mem_words.1 given).2
  card_words := card_words_some positive fits
  card_rejected := card_words_none positive fits

theorem exists_word (positive : 0 < n) (fits : n < 2 ^ bits) (inside : i < n) :
    ∃ word, word ∈ words bits n (some i) := by
  refine Finset.card_pos.1 ?_
  rw [card_words_some positive fits inside]
  exact Nat.two_pow_pos _

def tuples (bits n : Nat) {count : Nat} (places : Fin count → Nat) : Finset (Fin count → Nat) :=
  Fintype.piFinset fun k => words bits n (some (places k))

theorem card_tuples {count : Nat} {places : Fin count → Nat} (positive : 0 < n)
    (fits : n < 2 ^ bits) (inside : ∀ k, places k < n) :
    (tuples bits n places).card = (2 ^ leadingZeros bits n) ^ count := by
  rw [tuples, Fintype.card_piFinset,
    Finset.prod_congr rfl fun k _ => card_words_some positive fits (inside k), Finset.prod_const,
    Finset.card_univ, Fintype.card_fin]

/-- A draw passes over words that are rejected, takes the first that is not, and leaves `rest`. -/
inductive Takes (width : WordWidth) (n : Nat) : WordSource → Nat → WordSource → Prop
  | now {source : WordSource} {i : Nat}
      (accepted : accept? width.bits n (source.next width).1 = some i) :
      Takes width n source (source.next width).1 (source.next width).2
  | later {source rest : WordSource} {word : Nat}
      (rejected : accept? width.bits n (source.next width).1 = none)
      (takes : Takes width n (source.next width).2 word rest) : Takes width n source word rest

variable {α : Type} {width : WordWidth} {source rest left : WordSource} {other : Nat}

namespace Takes

theorem exists_given (takes : Takes width n source word rest) :
    ∃ i, word ∈ words width.bits n (some i) := by
  induction takes with
  | now accepted => exact ⟨_, mem_words.2 ⟨WordSource.next_lt _ width, accepted⟩⟩
  | later rejected takes ih => exact ih

theorem unique (takes : Takes width n source word rest) (again : Takes width n source other left) :
    word = other ∧ rest = left := by
  induction takes with
  | now accepted =>
      cases again with
      | now accepted => exact ⟨rfl, rfl⟩
      | later rejected again => cases accepted.symm.trans rejected
  | later rejected takes ih =>
      cases again with
      | now accepted => cases accepted.symm.trans rejected
      | later rejected again => exact ih again

theorem exists_accepted (takes : Takes width n source word rest) :
    ∃ index i, accept? width.bits n (Draw.word width index source) = some i := by
  induction takes with
  | now accepted => exact ⟨0, _, accepted⟩
  | later rejected takes ih =>
      obtain ⟨index, i, accepted⟩ := ih
      exact ⟨index + 1, i, accepted⟩

theorem of_belowWithin {attempts : Nat}
    (drawn : belowWithin width n attempts source = some (i, rest)) :
    ∃ word, Takes width n source word rest ∧ word ∈ words width.bits n (some i) := by
  induction attempts generalizing source with
  | zero => cases drawn
  | succ attempts ih =>
      simp only [belowWithin] at drawn
      split at drawn
      · rename_i accepted
        cases drawn
        exact ⟨_, .now accepted, mem_words.2 ⟨source.next_lt width, accepted⟩⟩
      · rename_i rejected
        obtain ⟨word, takes, given⟩ := ih drawn
        exact ⟨word, .later rejected takes, given⟩

theorem of_given {all more : List UInt64} (given : word ∈ words 32 n (some i)) :
    Takes .half n (.cycle all (UInt64.ofNat word :: more)) word (.cycle all more) := by
  obtain ⟨bound, accepted⟩ := mem_words.1 given
  have same : ((WordSource.cycle all (UInt64.ofNat word :: more)).next .half).1 = word := by
    change (UInt64.ofNat word).toUInt32.toNat = word
    rw [UInt64.toNat_toUInt32, UInt64.toNat_ofNat_of_lt' (Nat.lt_trans bound (by decide)),
      Nat.mod_eq_of_lt bound]
  have takes : Takes .half n (.cycle all (UInt64.ofNat word :: more)) _ (.cycle all more) :=
    .now (same.symm ▸ accepted)
  rwa [same] at takes

end Takes

theorem below_eq_some_iff : below width n source = some (i, rest) ↔
    ∃ word, Takes width n source word rest ∧ word ∈ words width.bits n (some i) := by
  constructor
  · exact Takes.of_belowWithin
  · rintro ⟨word, takes, given⟩
    cases drawn : below width n source with
    | none =>
        obtain ⟨index, j, accepted⟩ := takes.exists_accepted
        cases (below_eq_none_iff.1 drawn index).symm.trans accepted
    | some draw =>
        obtain ⟨other, again, givenToo⟩ := Takes.of_belowWithin drawn
        obtain ⟨rfl, same⟩ := again.unique takes
        have number := (mem_words.1 givenToo).2.symm.trans (mem_words.1 given).2
        rw [← same, ← Option.some.inj number]

theorem choose_eq_some_iff {items : List α} {item : α} :
    choose width items source = some (item, rest) ↔ ∃ word place,
      Takes width items.length source word rest ∧
        word ∈ words width.bits items.length (some place) ∧ items[place]? = some item := by
  simp only [choose, bind_eq_some, below_eq_some_iff]
  constructor
  · rintro ⟨place, left, ⟨word, takes, given⟩, chosen⟩
    cases found : items[place]? with
    | none =>
        rw [found] at chosen
        cases chosen
    | some taken =>
        rw [found] at chosen
        cases chosen
        exact ⟨word, place, takes, given, found⟩
  · rintro ⟨word, place, takes, given, found⟩
    refine ⟨place, rest, ⟨word, takes, given⟩, ?_⟩
    rw [found]
    rfl

/-- A computation that takes one of the given items: it passes over rejected words up to the first
that is not, and that word gives the place of the item. No place is favoured. -/
structure DrawsEvenly (width : WordWidth) (items : List α) (draw : Draw α) : Prop where
  even : Even width.bits items.length
  eq_some_iff : ∀ {source rest : WordSource} {item : α},
    draw source = some (item, rest) ↔ ∃ word place, Takes width items.length source word rest ∧
      word ∈ words width.bits items.length (some place) ∧ items[place]? = some item

theorem choose_drawsEvenly {items : List α} (nonempty : items ≠ [])
    (fits : items.length < 2 ^ width.bits) : DrawsEvenly width items (choose width items) where
  even := Draw.even (List.length_pos_iff.2 nonempty) fits
  eq_some_iff := choose_eq_some_iff

inductive TakesAll (width : WordWidth) (n : Nat) : WordSource → List Nat → WordSource → Prop
  | nil {source : WordSource} : TakesAll width n source [] source
  | cons {source left rest : WordSource} {word : Nat} {more : List Nat}
      (first : Takes width n source word left) (others : TakesAll width n left more rest) :
      TakesAll width n source (word :: more) rest

end Volley.Draw
