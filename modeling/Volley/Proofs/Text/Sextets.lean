import Volley.Numeral
import Volley.Proofs.Text.Base64

/-! The values of the symbols have the bits of the bytes, six at a time, and zeros for the pads. -/

namespace Volley.Base64

variable {pads : Nat} {values : List Nat} {symbols bytes : List UInt8}

def bits : Nat → Nat → List Bool
  | 0, _ => []
  | width + 1, n => bits width (n / 2) ++ [decide (n % 2 = 1)]

theorem length_bits (width n : Nat) : (bits width n).length = width := by
  induction width generalizing n with
  | zero => rfl
  | succ width ih => rw [bits, List.length_append, ih, List.length_singleton]

theorem bits_append (high : Nat) {low : Nat} (m : Nat) {n : Nat} (small : n < 2 ^ low) :
    bits high m ++ bits low n = bits (high + low) (m * 2 ^ low + n) := by
  induction low generalizing n with
  | zero =>
      obtain rfl : n = 0 := by omega
      simp [bits]
  | succ low ih =>
      have half : (m * 2 ^ (low + 1) + n) / 2 = m * 2 ^ low + n / 2 := by
        rw [Nat.pow_succ, ← Nat.mul_assoc]
        omega
      have odd : (m * 2 ^ (low + 1) + n) % 2 = n % 2 := by
        rw [Nat.pow_succ, ← Nat.mul_assoc]
        omega
      rw [← Nat.add_assoc, bits, bits, half, odd, ← List.append_assoc, ih (by omega)]

theorem bits_zero (width : Nat) : bits width 0 = List.replicate width false := by
  induction width with
  | zero => rfl
  | succ width ih =>
      rw [bits, Nat.zero_div, ih, List.replicate_succ']
      rfl

theorem eq_of_bits_eq {width m n : Nat} (small : m < 2 ^ width) (small' : n < 2 ^ width)
    (same : bits width m = bits width n) : m = n := by
  induction width generalizing m n with
  | zero => omega
  | succ width ih =>
      rw [bits, bits] at same
      obtain ⟨halves, last⟩ := List.append_inj same (by rw [length_bits, length_bits])
      have half : m / 2 = n / 2 := ih (by omega) (by omega) halves
      have parity : m % 2 = 1 ↔ n % 2 = 1 := by simpa using last
      omega

def written (values : List Nat) (pads : Nat) : List UInt8 :=
  values.map symbol ++ List.replicate pads pad

/-- The values have the bits of the bytes, six at a time. The pads fill up the last group of four,
and two zeros stand for each of them. -/
structure Regroups (values : List Nat) (pads : Nat) (bytes : List UInt8) : Prop where
  fits : ∀ v ∈ values, v < 64
  whole : (values.length + pads) % 4 = 0
  few : pads ≤ 2
  bits : values.flatMap (bits 6) =
    (bytes.map UInt8.toNat).flatMap (bits 8) ++ List.replicate (2 * pads) false

def Spells (symbols bytes : List UInt8) : Prop :=
  ∃ values pads, symbols = written values pads ∧ Regroups values pads bytes

theorem spells_encode (bytes : List UInt8) : Spells (encode bytes) bytes := by
  induction bytes using encode.induct with
  | case1 => exact ⟨[], 0, rfl, ⟨List.forall_mem_nil _, rfl, Nat.zero_le _, rfl⟩⟩
  | case2 a =>
      have := a.toNat_lt
      refine ⟨[_, _], 2, rfl, ⟨?_, by simp, Nat.le_refl _, ?_⟩⟩
      · simp only [List.forall_mem_cons, List.not_mem_nil, false_implies, implies_true, and_true]
        omega
      · simp only [List.map_cons, List.map_nil, List.flatMap_cons, List.flatMap_nil,
          List.append_nil]
        rw [bits_append 6 _ (by omega), ← bits_zero, bits_append 8 _ (by decide)]
        congr 1
        omega
  | case3 a b =>
      have := a.toNat_lt
      have := b.toNat_lt
      refine ⟨[_, _, _], 1, rfl, ⟨?_, by simp, by decide, ?_⟩⟩
      · simp only [List.forall_mem_cons, List.not_mem_nil, false_implies, implies_true, and_true]
        omega
      · simp only [List.map_cons, List.map_nil, List.flatMap_cons, List.flatMap_nil,
          List.append_nil]
        rw [bits_append 6 _ (by omega), bits_append 6 _ (by omega), ← bits_zero,
          bits_append 8 _ (by omega), bits_append (8 + 8) _ (by decide)]
        congr 1
        omega
  | case4 a b c rest ih =>
      have := a.toNat_lt
      have := b.toNat_lt
      have := c.toNat_lt
      obtain ⟨values, pads, split, fits, whole, few, regrouped⟩ := ih
      let n := (a.toNat * 256 + b.toNat) * 256 + c.toNat
      refine ⟨n / 262144 :: n / 4096 % 64 :: n / 64 % 64 :: n % 64 :: values, pads, ?_,
        ⟨?_, ?_, few, ?_⟩⟩
      · rw [encode, split]
        rfl
      · simp only [List.forall_mem_cons]
        refine ⟨by omega, by omega, by omega, by omega, fits⟩
      · simp only [List.length_cons]
        omega
      · simp only [List.map_cons, List.flatMap_cons, regrouped, ← List.append_assoc]
        congr 2
        rw [bits_append 6 _ (by omega), bits_append (6 + 6) _ (by omega),
          bits_append (6 + 6 + 6) _ (by omega), bits_append 8 _ (by omega),
          bits_append (8 + 8) _ (by omega)]
        congr 1
        omega

theorem length_flatMap_bits (width : Nat) (numbers : List Nat) :
    (numbers.flatMap (bits width)).length = width * numbers.length := by
  induction numbers with
  | nil => rfl
  | cons n numbers ih =>
      rw [List.flatMap_cons, List.length_append, length_bits, ih, List.length_cons, Nat.mul_succ,
        Nat.add_comm]

theorem eq_of_flatMap_bits_eq {width : Nat} {numbers others : List Nat}
    (fits : ∀ n ∈ numbers, n < 2 ^ width) (fits' : ∀ n ∈ others, n < 2 ^ width)
    (length : numbers.length = others.length)
    (same : numbers.flatMap (bits width) = others.flatMap (bits width)) : numbers = others := by
  induction numbers generalizing others with
  | nil => exact (List.length_eq_zero_iff.1 length.symm).symm
  | cons n numbers ih =>
      cases others with
      | nil => cases length
      | cons m others =>
          rw [List.flatMap_cons, List.flatMap_cons] at same
          obtain ⟨first, later⟩ := List.append_inj same (by rw [length_bits, length_bits])
          rw [List.forall_mem_cons] at fits fits'
          rw [eq_of_bits_eq fits.1 fits'.1 first, ih fits.2 fits'.2 (Nat.succ.inj length) later]

theorem Regroups.unique {others : List Nat} {pads' : Nat} (one : Regroups values pads bytes)
    (another : Regroups others pads' bytes) : values = others ∧ pads = pads' := by
  have lengths := congrArg List.length one.bits
  have lengths' := congrArg List.length another.bits
  rw [List.length_append, List.length_replicate, length_flatMap_bits, length_flatMap_bits,
    List.length_map] at lengths lengths'
  have := one.whole
  have := one.few
  have := another.whole
  have := another.few
  obtain rfl : pads = pads' := by omega
  refine ⟨?_, rfl⟩
  exact eq_of_flatMap_bits_eq one.fits another.fits (by omega) (one.bits.trans another.bits.symm)

theorem spells_iff : Spells symbols bytes ↔ symbols = encode bytes := by
  constructor
  · rintro ⟨values, pads, rfl, regroups⟩
    obtain ⟨others, pads', split, regroups'⟩ := spells_encode bytes
    obtain ⟨rfl, rfl⟩ := regroups.unique regroups'
    exact split.symm
  · rintro rfl
    exact spells_encode bytes

inductive Fault (symbols : List UInt8) : Prop
  | foreign {b : UInt8} : b ∈ symbols → b ≠ pad → (∀ value < 64, symbol value ≠ b) → Fault symbols
  | length : symbols.length % 4 ≠ 0 → Fault symbols
  | surplus : 2 < symbols.count pad → Fault symbols
  | misplaced {before after : List UInt8} {b : UInt8} : symbols = before ++ pad :: after →
      b ∈ after → b ≠ pad → Fault symbols
  | remainder {values : List Nat} {value pads : Nat} : symbols = written (values ++ [value]) pads →
      (∀ v ∈ values ++ [value], v < 64) → value % 4 ^ pads ≠ 0 → Fault symbols

theorem ne_pad_of_mem_map (fits : ∀ v ∈ values, v < 64) : ∀ b ∈ values.map symbol, b ≠ pad := by
  intro b member
  obtain ⟨v, known, rfl⟩ := List.mem_map.1 member
  exact symbol_ne_pad v (fits v known)

theorem count_pad_written (fits : ∀ v ∈ values, v < 64) (pads : Nat) :
    (written values pads).count pad = pads := by
  have none : (values.map symbol).count pad = 0 :=
    List.count_eq_zero.2 fun member => ne_pad_of_mem_map fits pad member rfl
  rw [written, List.count_append, none, List.count_replicate_self, Nat.zero_add]

theorem pads_last (fits : ∀ v ∈ values, v < 64) (pads : Nat) :
    (written values pads).Pairwise fun a b => a = pad → b = pad := by
  refine List.pairwise_append.2 ⟨?_, ?_, fun a front b _ isPad => ?_⟩
  · refine List.pairwise_of_forall_mem_list fun a member b _ isPad => ?_
    exact absurd isPad (ne_pad_of_mem_map fits a member)
  · exact List.pairwise_replicate.2 (.inr id)
  · exact absurd isPad (ne_pad_of_mem_map fits a front)

theorem written_injective {others : List Nat} {pads' : Nat} (fits : ∀ v ∈ values, v < 64)
    (fits' : ∀ v ∈ others, v < 64) (same : written values pads = written others pads') :
    values = others ∧ pads = pads' := by
  have counts := count_pad_written fits pads
  rw [same, count_pad_written fits' pads'] at counts
  subst counts
  have read := congrArg (List.map value?) (List.append_cancel_right same)
  have back : ∀ values : List Nat, (∀ v ∈ values, v < 64) →
      (values.map symbol).map value? = values.map some := fun values fits => by
    rw [List.map_map]
    exact List.map_congr_left fun v member => value?_symbol v (fits v member)
  rw [back values fits, back others fits'] at read
  exact ⟨List.map_injective_iff.2 (fun _ _ => Option.some.inj) read, rfl⟩

theorem Regroups.remainder {value : Nat} (regroups : Regroups (values ++ [value]) pads bytes) :
    value % 4 ^ pads = 0 := by
  have few := regroups.few
  have power : 2 ^ (2 * pads) = 4 ^ pads := Nat.pow_mul 2 2 pads
  have positive : 0 < 4 ^ pads := Nat.pow_pos (by decide)
  have low : value % 4 ^ pads < 2 ^ (2 * pads) := by
    rw [power]
    exact Nat.mod_lt value positive
  have apart := bits_append (6 - 2 * pads) (value / 4 ^ pads) low
  rw [power, Nat.div_add_mod', Nat.sub_add_cancel (by omega)] at apart
  have regrouped := regroups.bits
  rw [List.flatMap_append, List.flatMap_singleton, ← apart, ← List.append_assoc, ← bits_zero]
    at regrouped
  have last := (List.append_inj' regrouped (by rw [length_bits, length_bits])).2
  exact eq_of_bits_eq low (Nat.pow_pos (by decide)) last

theorem Fault.not_spells (fault : Fault symbols) : ¬ Spells symbols bytes := by
  rintro ⟨values, pads, rfl, regroups⟩
  have fits := regroups.fits
  cases fault with
  | foreign member notPad unknown =>
      rcases List.mem_append.1 member with member | member
      · obtain ⟨v, known, rfl⟩ := List.mem_map.1 member
        exact unknown v (fits v known) rfl
      · exact notPad (List.eq_of_mem_replicate member)
  | length odd =>
      have whole := regroups.whole
      simp only [written, List.length_append, List.length_map, List.length_replicate] at odd
      omega
  | surplus many =>
      have few := regroups.few
      rw [count_pad_written fits] at many
      omega
  | misplaced split member notPad =>
      have last := pads_last fits pads
      rw [split] at last
      obtain ⟨-, last, -⟩ := List.pairwise_append.1 last
      exact notPad ((List.pairwise_cons.1 last).1 _ member rfl)
  | remainder split fits' odd =>
      obtain ⟨rfl, rfl⟩ := written_injective fits fits' split
      exact odd regroups.remainder

theorem exists_encode_eq : ∀ (values : List Nat) (pads : Nat), (∀ v ∈ values, v < 64) →
    (values.length + pads) % 4 = 0 → pads ≤ 2 → (∀ v ∈ values.getLast?, v % 4 ^ pads = 0) →
    ∃ bytes, written values pads = encode bytes
  | [], pads, _, whole, few, _ => by
      obtain rfl : pads = 0 := by
        simp at whole
        omega
      exact ⟨[], rfl⟩
  | [u], pads, _, whole, few, _ => by
      simp at whole
      omega
  | [u, v], pads, fits, whole, few, zeros => by
      obtain rfl : pads = 2 := by
        simp at whole
        omega
      have zero : v % 16 = 0 := zeros v rfl
      obtain ⟨bytes, closed⟩ : ∃ bytes, closeGroup 0 0 2 [u, v] = .ok bytes := by
        rw [closeGroup, if_neg (not_not_intro rfl), if_neg (not_not_intro zero)]
        exact ⟨_, rfl⟩
      exact ⟨bytes, encode_of_closeGroup closed fits (Nat.le_refl _)⟩
  | [u, v, w], pads, fits, whole, few, zeros => by
      obtain rfl : pads = 1 := by
        simp at whole
        omega
      have zero : w % 4 = 0 := zeros w rfl
      obtain ⟨bytes, closed⟩ : ∃ bytes, closeGroup 0 0 1 [u, v, w] = .ok bytes := by
        rw [closeGroup, if_neg (not_not_intro rfl), if_neg (not_not_intro zero)]
        exact ⟨_, rfl⟩
      exact ⟨bytes, encode_of_closeGroup closed fits (Nat.le_refl _)⟩
  | u :: v :: w :: x :: values, pads, fits, whole, few, zeros => by
      have whole' : (values.length + pads) % 4 = 0 := by
        simp at whole
        omega
      have zeros' : ∀ y ∈ values.getLast?, y % 4 ^ pads = 0 := by
        intro y last
        have some : values ≠ [] := fun none => by simp [none] at last
        refine zeros y ?_
        have same : (u :: v :: w :: x :: values).getLast? = values.getLast? :=
          List.getLast?_append_of_ne_nil [u, v, w, x] some
        rwa [same]
      simp only [List.forall_mem_cons] at fits
      obtain ⟨u_lt, v_lt, w_lt, x_lt, fits⟩ := fits
      obtain ⟨bytes, split⟩ := exists_encode_eq values pads fits whole' few zeros'
      refine ⟨_, .trans ?_ (encode_regrouped u_lt v_lt w_lt x_lt bytes).symm⟩
      rw [← split]
      rfl

theorem exists_map_symbol_eq {data : List UInt8} (known : ∀ b ∈ data, ∃ v < 64, symbol v = b) :
    ∃ values : List Nat, data = values.map symbol ∧ ∀ v ∈ values, v < 64 := by
  induction data with
  | nil => exact ⟨[], rfl, nofun⟩
  | cons b data ih =>
      rw [List.forall_mem_cons] at known
      obtain ⟨⟨v, fits, rfl⟩, known⟩ := known
      obtain ⟨values, rfl, small⟩ := ih known
      exact ⟨v :: values, rfl, List.forall_mem_cons.2 ⟨fits, small⟩⟩

theorem exists_written_eq (clean : ¬ Fault symbols) :
    ∃ values pads, symbols = written values pads ∧ ∀ v ∈ values, v < 64 := by
  have split := List.takeWhile_append_dropWhile (p := (· != pad)) (l := symbols)
  have known : ∀ b ∈ symbols.takeWhile (· != pad), ∃ v < 64, symbol v = b := by
    intro b member
    have notPad : (b != pad) = true := List.all_eq_true.1 List.all_takeWhile b member
    by_contra unknown
    simp only [not_exists, not_and] at unknown
    exact clean (.foreign ((List.takeWhile_prefix _).subset member) (bne_iff_ne.1 notPad) unknown)
  obtain ⟨values, data, fits⟩ := exists_map_symbol_eq known
  refine ⟨values, (symbols.dropWhile (· != pad)).length, ?_, fits⟩
  rw [written, ← data]
  refine split.symm.trans (congrArg _ (List.eq_replicate_iff.2 ⟨rfl, fun b member => ?_⟩))
  cases ends : symbols.dropWhile (· != pad) with
  | nil =>
      rw [ends] at member
      cases member
  | cons first after =>
      have isPad : first = pad := by
        have := List.head?_dropWhile_not (· != pad) symbols
        simpa [ends] using this
      rw [ends] at member split
      rw [isPad] at member split
      rcases List.mem_cons.1 member with same | later
      · exact same
      · by_contra notPad
        exact clean (.misplaced split.symm later notPad)

theorem exists_encode_of_not_fault (clean : ¬ Fault symbols) : ∃ bytes, symbols = encode bytes := by
  obtain ⟨values, pads, split, fits⟩ := exists_written_eq clean
  have whole : (values.length + pads) % 4 = 0 := by
    by_contra odd
    refine clean (.length ?_)
    rwa [split, written, List.length_append, List.length_map, List.length_replicate]
  have few : pads ≤ 2 := by
    by_contra many
    refine clean (.surplus ?_)
    rw [split, count_pad_written fits]
    omega
  have zeros : ∀ v ∈ values.getLast?, v % 4 ^ pads = 0 := by
    intro v last
    obtain ⟨front, rfl⟩ := List.getLast?_eq_some_iff.1 last
    by_contra odd
    exact clean (.remainder split fits odd)
  obtain ⟨bytes, encoded⟩ := exists_encode_eq values pads fits whole few zeros
  exact ⟨bytes, split.trans encoded⟩

theorem decode_eq_error_iff : (∃ cause, decode symbols = .error cause) ↔ Fault symbols := by
  constructor
  · rintro ⟨cause, failed⟩
    by_contra clean
    obtain ⟨bytes, encoded⟩ := exists_encode_of_not_fault clean
    cases failed.symm.trans (decode_eq_ok_iff.2 encoded)
  · intro fault
    cases decoded : decode symbols with
    | error cause => exact ⟨cause, rfl⟩
    | ok bytes => exact absurd (spells_iff.2 (decode_eq_ok_iff.1 decoded)) fault.not_spells

end Volley.Base64
