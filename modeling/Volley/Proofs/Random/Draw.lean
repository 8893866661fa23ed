import Mathlib.Logic.Function.Iterate
import Volley.Random.Draw

/-!
A draw fails only where it rejects all words at hand, and the words of every source come round.
-/

namespace Volley

theorem WordSource.next_lt (source : WordSource) (width : WordWidth) :
    (source.next width).1 < 2 ^ width.bits := by
  cases width with
  | half => exact UInt32.toNat_lt _
  | full => exact UInt64.toNat_lt _

namespace Draw

variable {α β : Type}

theorem bind_eq_some {d : Draw α} {f : α → Draw β} {source rest : WordSource} {b : β} :
    (d >>= f) source = some (b, rest) ↔
      ∃ a left, d source = some (a, left) ∧ f a left = some (b, rest) := by
  change (d source).bind (fun drawn => f drawn.1 drawn.2) = some (b, rest) ↔ _
  simp [Option.bind_eq_some_iff]

theorem bind_eq_none {d : Draw α} {f : α → Draw β} {source : WordSource} :
    (d >>= f) source = none ↔
      d source = none ∨ ∃ a left, d source = some (a, left) ∧ f a left = none := by
  change (d source).bind (fun drawn => f drawn.1 drawn.2) = none ↔ _
  cases d source with
  | none => simp
  | some drawn =>
      obtain ⟨a, left⟩ := drawn
      constructor
      · exact fun nothing => .inr ⟨a, left, rfl, nothing⟩
      · rintro (never | ⟨_, _, ⟨⟩, nothing⟩)
        · cases never
        · exact nothing

theorem accept?_lt {bits n word i : Nat} (bound : word < 2 ^ bits) (positive : 0 < n)
    (accepted : accept? bits n word = some i) : i < n := by
  unfold accept? at accepted
  split at accepted
  · cases accepted
    rw [Nat.div_lt_iff_lt_mul (Nat.two_pow_pos bits), Nat.mul_comm n]
    exact Nat.mul_lt_mul_of_pos_right bound positive
  · cases accepted

theorem belowWithin_lt {width : WordWidth} {n i attempts : Nat} {source rest : WordSource}
    (positive : 0 < n) (drawn : belowWithin width n attempts source = some (i, rest)) : i < n := by
  induction attempts generalizing source with
  | zero => cases drawn
  | succ attempts ih =>
      simp only [belowWithin] at drawn
      split at drawn
      · rename_i accepted
        cases drawn
        exact accept?_lt (source.next_lt width) positive accepted
      · exact ih drawn

theorem below_lt {width : WordWidth} {n i : Nat} {source rest : WordSource} (positive : 0 < n)
    (drawn : below width n source = some (i, rest)) : i < n :=
  belowWithin_lt positive drawn

/-- A computation that draws from ranges with a member only: it comes to nothing only when a draw
from such a range rejects all words at hand. -/
def InRange (d : Draw α) : Prop :=
  ∀ source, d source = none → ∃ width n left, 0 < n ∧ below width n left = none

namespace InRange

theorem pure (a : α) : InRange (Pure.pure a : Draw α) := by
  intro source nothing
  cases nothing

theorem bind {d : Draw α} {f : α → Draw β} (first : InRange d) (later : ∀ a, InRange (f a)) :
    InRange (d >>= f) := by
  intro source nothing
  rcases bind_eq_none.1 nothing with nothing | ⟨a, left, -, nothing⟩
  · exact first source nothing
  · exact later a left nothing

theorem choose (width : WordWidth) {items : List α} (nonempty : items ≠ []) :
    InRange (choose width items) := by
  have positive := List.length_pos_iff.2 nonempty
  intro source nothing
  rcases bind_eq_none.1 nothing with nothing | ⟨i, left, drawn, nothing⟩
  · exact ⟨width, items.length, source, positive, nothing⟩
  · rw [List.getElem?_eq_getElem (below_lt positive drawn)] at nothing
    cases nothing

end InRange

variable {items : List α} {width : WordWidth} {source rest : WordSource}
  {draws more : List (WordWidth × Nat)} {is : List Nat}

theorem choose_of_below {i : Nat} (nonempty : items ≠ [])
    (drawn : below width items.length source = some (i, rest)) :
    ∃ item ∈ items, choose width items source = some (item, rest) := by
  have inside := below_lt (List.length_pos_iff.2 nonempty) drawn
  refine ⟨items[i], List.getElem_mem inside, bind_eq_some.2 ⟨i, rest, drawn, ?_⟩⟩
  rw [List.getElem?_eq_getElem inside]
  rfl

def belowAll : List (WordWidth × Nat) → Draw (List Nat)
  | [] => return []
  | (width, n) :: draws => do
    let i ← below width n
    return i :: (← belowAll draws)

theorem belowAll_cons {n : Nat} :
    belowAll ((width, n) :: draws) source = some (is, rest) ↔ ∃ i left js,
      below width n source = some (i, left) ∧ belowAll draws left = some (js, rest) ∧
        is = i :: js := by
  simp only [belowAll, bind_eq_some]
  constructor
  · rintro ⟨i, left, first, js, last, later, ⟨⟩⟩
    exact ⟨i, left, js, first, later, rfl⟩
  · rintro ⟨i, left, js, first, later, rfl⟩
    exact ⟨i, left, first, js, rest, later, rfl⟩

theorem belowAll_append : belowAll (draws ++ more) source = some (is, rest) ↔ ∃ js left ks,
    belowAll draws source = some (js, left) ∧ belowAll more left = some (ks, rest) ∧
      is = js ++ ks := by
  induction draws generalizing source is with
  | nil =>
      constructor
      · exact fun drawn => ⟨[], source, is, rfl, drawn, rfl⟩
      · rintro ⟨js, left, ks, ⟨⟩, drawn, rfl⟩
        exact drawn
  | cons draw draws ih =>
      obtain ⟨width, n⟩ := draw
      simp only [List.cons_append, belowAll_cons, ih]
      constructor
      · rintro ⟨i, left, _, first, ⟨js, middle, ks, drawn, later, rfl⟩, rfl⟩
        exact ⟨i :: js, middle, ks, ⟨i, left, js, first, drawn, rfl⟩, later, rfl⟩
      · rintro ⟨_, middle, ks, ⟨i, left, js, first, drawn, rfl⟩, later, rfl⟩
        exact ⟨i, left, js ++ ks, first, ⟨js, middle, ks, drawn, later, rfl⟩, rfl⟩

end Draw

namespace Making

variable {α β : Type} {d : Making α} {f : α → Making β} {source rest : WordSource}
  {message : String}

theorem bind_apply : (d >>= f) source = (d source).bind fun drawn =>
    match drawn with
    | (.ok a, left) => f a left
    | (.error message, left) => some (.error message, left) := by
  change (d source).bind (fun drawn => ExceptT.bindCont f drawn.1 drawn.2) = _
  congr
  funext ⟨made, left⟩
  cases made <;> rfl

theorem bind_eq_ok {b : β} : (d >>= f) source = some (.ok b, rest) ↔
    ∃ a left, d source = some (.ok a, left) ∧ f a left = some (.ok b, rest) := by
  rw [bind_apply]
  rcases d source with _ | ⟨_ | a, left⟩ <;> simp [and_assoc]

theorem bind_eq_error : (d >>= f) source = some (.error message, rest) ↔
    d source = some (.error message, rest) ∨
      ∃ a left, d source = some (.ok a, left) ∧ f a left = some (.error message, rest) := by
  rw [bind_apply]
  rcases d source with _ | ⟨_ | a, left⟩ <;> simp [and_assoc]

theorem lift_apply (d : Draw α) (source : WordSource) :
    (liftM d : Making α) source = (d source).map fun drawn => (.ok drawn.1, drawn.2) := by
  change (d source).bind (fun drawn => some (Except.ok drawn.1, drawn.2)) = _
  cases d source <;> rfl

theorem lift_eq_ok {d : Draw α} {a : α} :
    (liftM d : Making α) source = some (.ok a, rest) ↔ d source = some (a, rest) := by
  rw [lift_apply]
  rcases d source with _ | ⟨b, left⟩ <;> simp

theorem lift_ne_error {d : Draw α} :
    (liftM d : Making α) source ≠ some (.error message, rest) := by
  rw [lift_apply]
  rcases d source with _ | ⟨b, left⟩ <;> simp

end Making

namespace WordSource

def skip (width : WordWidth) (source : WordSource) : WordSource := (source.next width).2

theorem skip_left (width : WordWidth) (words left : List UInt64) :
    (skip width)^[left.length] (.cycle words left) = .cycle words [] := by
  induction left with
  | nil => rfl
  | cons w left ih =>
      rw [List.length_cons, Function.iterate_succ_apply, ← ih]
      cases width <;> rfl

theorem skip_given (width : WordWidth) (w : UInt64) (words : List UInt64) :
    (skip width)^[words.length + 1] (.cycle (w :: words) []) = .cycle (w :: words) [] := by
  rw [Function.iterate_succ_apply]
  refine Eq.trans ?_ (skip_left width (w :: words) words)
  cases width <;> rfl

theorem skip_nothing (width : WordWidth) : skip width (.cycle [] []) = .cycle [] [] := by
  cases width <;> rfl

end WordSource

namespace Keystream

open WordSource (skip)

theorem length_block (key : Key) (number : UInt64) : (block key number).length = 16 := by
  simp [block, Square.toList, Row.toList]

theorem skip_pending (key : Key) (number : UInt64) (pending : List UInt32) :
    (skip .half)^[pending.length] (.keystream ⟨key, number, pending⟩) =
      .keystream ⟨key, number, []⟩ := by
  induction pending with
  | nil => rfl
  | cons w pending ih =>
      rw [List.length_cons, Function.iterate_succ_apply, ← ih]
      rfl

theorem skip_block (key : Key) (number : UInt64) :
    (skip .half)^[16] (.keystream ⟨key, number, []⟩) = .keystream ⟨key, number + 1, []⟩ := by
  have length := length_block key number
  cases words : block key number with
  | nil => simp [words] at length
  | cons w rest =>
      rw [words, List.length_cons] at length
      have first : skip .half (.keystream ⟨key, number, []⟩) =
          .keystream ⟨key, number + 1, rest⟩ := by
        simp [skip, WordSource.next, WordSource.next32, Keystream.next, words]
      rw [← length, Function.iterate_succ_apply, first, skip_pending]

theorem skip_blocks (key : Key) (number : UInt64) (count : Nat) :
    (skip .half)^[16 * count] (.keystream ⟨key, number, []⟩) =
      .keystream ⟨key, number + UInt64.ofNat count, []⟩ := by
  induction count with
  | zero => simp
  | succ count ih =>
      rw [Nat.mul_succ, Nat.add_comm, Function.iterate_add_apply, ih, skip_block,
        UInt64.ofNat_add, UInt64.add_assoc]
      rfl

theorem skip_round (s : Keystream) : (skip .half)^[s.pending.length + 2 ^ 68] (.keystream s) =
    (skip .half)^[s.pending.length] (.keystream s) := by
  obtain ⟨key, number, pending⟩ := s
  have blocks : 2 ^ 68 = 16 * 2 ^ 64 := rfl
  have whole : UInt64.ofNat (2 ^ 64) = 0 := rfl
  rw [Nat.add_comm, Function.iterate_add_apply, skip_pending, blocks, skip_blocks, whole,
    UInt64.add_zero]

theorem skip_full (s : Keystream) (count : Nat) :
    (skip .full)^[count] (.keystream s) = (skip .half)^[2 * count] (.keystream s) := by
  induction count generalizing s with
  | zero => rfl
  | succ count ih =>
      rw [Nat.mul_succ, Function.iterate_succ_apply, Function.iterate_add_apply]
      exact ih s.next.2.next.2

end Keystream

theorem WordSource.comes_round (width : WordWidth) (source : WordSource) :
    ∃ early period, 0 < period ∧ early + period ≤ Draw.attemptLimit source ∧
      (skip width)^[early + period] source = (skip width)^[early] source := by
  cases source with
  | cycle words left =>
      rw [Draw.attemptLimit]
      cases words with
      | nil =>
          refine ⟨left.length, 1, Nat.one_pos, by simp, ?_⟩
          rw [Nat.add_comm, Function.iterate_add_apply, skip_left]
          exact skip_nothing width
      | cons w words =>
          refine ⟨left.length, words.length + 1, Nat.succ_pos _, by simp, ?_⟩
          rw [Nat.add_comm, Function.iterate_add_apply, skip_left, skip_given]
  | keystream s =>
      refine ⟨s.pending.length, 2 ^ 68, Nat.two_pow_pos 68, Nat.le_refl _, ?_⟩
      have round := s.skip_round
      cases width with
      | half => exact round
      | full =>
          rw [Keystream.skip_full, Keystream.skip_full, Nat.two_mul, Function.iterate_add_apply,
            round, ← Function.iterate_add_apply, Nat.add_comm, Function.iterate_add_apply, round,
            ← Function.iterate_add_apply, ← Nat.two_mul]

namespace Draw

variable {width : WordWidth} {source : WordSource} {n : Nat}

def word (width : WordWidth) (index : Nat) (source : WordSource) : Nat :=
  (((WordSource.skip width)^[index] source).next width).1

theorem belowWithin_eq_none_iff {attempts : Nat} :
    belowWithin width n attempts source = none ↔
      ∀ index < attempts, accept? width.bits n (word width index source) = none := by
  induction attempts generalizing source with
  | zero => simp [belowWithin]
  | succ attempts ih =>
      simp only [belowWithin]
      constructor
      · intro never index early
        split at never
        · cases never
        · rename_i rejected
          cases index with
          | zero => exact rejected
          | succ index => exact ih.1 never index (Nat.lt_of_succ_lt_succ early)
      · intro rejected
        have first : accept? width.bits n (source.next width).1 = none :=
          rejected 0 (Nat.succ_pos attempts)
        rw [first]
        exact ih.2 fun index early => rejected (index + 1) (Nat.succ_lt_succ early)

theorem exists_word_eq (width : WordWidth) (source : WordSource) (index : Nat) :
    ∃ early < attemptLimit source, word width early source = word width index source := by
  obtain ⟨early, period, positive, within, round⟩ := source.comes_round width
  -- A word beyond the first round is the one a period before it.
  induction index using Nat.strongRecOn with
  | ind index ih =>
      rcases Nat.lt_or_ge index (early + period) with inside | beyond
      · exact ⟨index, Nat.lt_of_lt_of_le inside within, rfl⟩
      · obtain ⟨ahead, rfl⟩ := Nat.exists_eq_add_of_le' beyond
        obtain ⟨first, bound, same⟩ := ih (ahead + early) (by omega)
        refine ⟨first, bound, same.trans ?_⟩
        rw [word, word, Function.iterate_add_apply, Function.iterate_add_apply, round]

/-- A draw fails exactly if it would reject words for ever. -/
theorem below_eq_none_iff :
    below width n source = none ↔
      ∀ index, accept? width.bits n (word width index source) = none := by
  refine belowWithin_eq_none_iff.trans ⟨fun rejected index => ?_, fun rejected index _ =>
    rejected index⟩
  obtain ⟨early, bound, same⟩ := exists_word_eq width source index
  rw [← same]
  exact rejected early bound

theorem below_zeros (width : WordWidth) (n : Nat) :
    below width n (.ofWords []) = some (0, .ofWords []) := by
  cases width <;> simp [below, attemptLimit, belowWithin, WordSource.ofWords, WordSource.next,
    WordSource.next32, WordSource.next64, accept?]

theorem belowAll_zeros (draws : List (WordWidth × Nat)) :
    ∃ is, belowAll draws (.ofWords []) = some (is, .ofWords []) := by
  induction draws with
  | nil => exact ⟨[], rfl⟩
  | cons draw draws ih =>
      obtain ⟨is, others⟩ := ih
      exact ⟨0 :: is, belowAll_cons.2 ⟨0, _, is, below_zeros draw.1 draw.2, others, rfl⟩⟩

end Draw

end Volley
