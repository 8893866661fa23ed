import Mathlib.Data.List.Induction
import Mathlib.Order.Bounds.Basic
import Volley.Proofs.Push.Series
import Volley.Run.Inquiries

/-! The time of an inquiry is certain as soon as the clock has taken its reading in. -/

namespace Volley

/-! ## The greater of two times -/

theorem isGreatest_max (a b : Int64) : IsGreatest {a, b} (max a b) := by
  change IsGreatest {a, b} (if a ≤ b then b else a)
  split
  · rename_i le
    refine ⟨.inr rfl, ?_⟩
    rintro _ (rfl | rfl)
    · exact le
    · exact Int64.le_refl _
  · rename_i notLe
    refine ⟨.inl rfl, ?_⟩
    rintro _ (rfl | rfl)
    · exact Int64.le_refl _
    · exact (Int64.le_total _ _).resolve_left notLe

theorem isGreatest_insert_max {readings : Set Int64} {latest : Int64}
    (greatest : IsGreatest readings latest) (reading : Int64) :
    IsGreatest (insert reading readings) (max latest reading) := by
  obtain ⟨one, above⟩ := isGreatest_max latest reading
  constructor
  · rcases one with same | same
    · rw [same]
      exact .inr greatest.1
    · exact .inl same
  · rintro other (rfl | member)
    · exact above (.inr rfl)
    · exact Int64.le_trans (greatest.2 member) (above (.inl rfl))

/-! ## One inquiry -/

namespace Inquiry

/-- The time that an inquiry gets, as soon as it is certain. -/
def certain? (q : Inquiry) : Option Int64 :=
  match q.stage with
  | .asked => none
  | .taken held => some (held.read q.reading).1
  | .answered time => some time
  | .composed time _ => some time

theorem certain_of_answer {q : Inquiry} {time : Int64} (answer : q.answer? = some time) :
    q.certain? = some time := by
  unfold answer? at answer
  unfold certain?
  cases stage : q.stage <;> simp_all

structure Later (p q : Inquiry) : Prop where
  user : q.user = p.user
  reading : q.reading = p.reading
  certain : ∀ {time}, p.certain? = some time → q.certain? = some time

theorem Later.refl (q : Inquiry) : Later q q := ⟨rfl, rfl, id⟩

theorem Later.trans {p q r : Inquiry} (first : Later p q) (second : Later q r) : Later p r :=
  ⟨second.user.trans first.user, second.reading.trans first.reading,
    fun certain => second.certain (first.certain certain)⟩

end Inquiry

namespace Inquiries

variable {recipe : Recipe} {words : Nat → WordSource} {s t first last : Inquiries} {move : Move}
  {moves earlier rest : List Move} {i j : Nat} {p q : Inquiry} {latest time : Int64}

/-! ## Moves -/

inductive Step (s : Inquiries) : Move → Inquiries → Prop
  | ask {user : Nat} {reading : Int64} {t : Inquiries}
      (free : ∀ q ∈ s.made, q.user = user → q.answer?.isSome = true) (clock : t.clock = s.clock)
      (made : t.made = s.made ++ [⟨user, reading, .asked⟩]) : Step s (.ask user reading) t
  | take {i : Nat} {q : Inquiry} {t : Inquiries} (inquiry : s.made[i]? = some q)
      (asked : q.stage = .asked) (clock : t.clock = (s.clock.read q.reading).2)
      (made : t.made = s.made.set i { q with stage := .taken s.clock }) : Step s (.take i) t
  | tell {move : Move} {i : Nat} {q : Inquiry} {time : Int64} {stage : Inquiry.Stage}
      {t : Inquiries} (other : ∀ j, move ≠ .take j) (inquiry : s.made[i]? = some q)
      (certain : q.certain? = some time) (same : { q with stage }.certain? = some time)
      (stamped : ∀ push, { q with stage }.push? = some push → push.timestamp = time)
      (clock : t.clock = s.clock) (made : t.made = s.made.set i { q with stage }) : Step s move t

theorem step_of_move? (made : s.move? recipe move = some t) : Step s move t := by
  cases move with
  | ask user reading =>
      simp only [move?, ask] at made
      split at made
      · rename_i free
        cases made
        exact .ask (by simpa [imp_iff_not_or] using free) rfl rfl
      · cases made
  | take i =>
      simp only [move?, take, Option.bind_eq_bind, Option.bind_eq_some_iff] at made
      obtain ⟨q, inquiry, made⟩ := made
      split at made
      · rename_i asked
        cases made
        exact .take inquiry asked rfl rfl
      · cases made
  | answer i =>
      simp only [move?, answer, Option.bind_eq_bind, Option.bind_eq_some_iff] at made
      obtain ⟨q, inquiry, made⟩ := made
      split at made
      · rename_i held taken
        cases made
        exact .tell (by simp) inquiry (by rw [Inquiry.certain?, taken]) rfl
          (by simp [Inquiry.push?]) rfl rfl
      · cases made
  | compose i =>
      simp only [move?, compose, Option.bind_eq_bind, Option.bind_eq_some_iff] at made
      obtain ⟨q, inquiry, made⟩ := made
      split at made
      · rename_i time answered
        simp only [Option.bind_eq_some_iff, Prod.exists] at made
        obtain ⟨_ | push, rest, composed, made⟩ := made
        · cases made
        cases made
        refine .tell (by simp) inquiry (by rw [Inquiry.certain?, answered]) rfl ?_ rfl rfl
        rintro _ ⟨⟩
        exact Recipe.timestamp_of_compose composed
      · cases made

theorem getElem?_made (inquiry : s.made[i]? = some q) (made : t.made = s.made.set i p) (j : Nat) :
    t.made[j]? = if j = i then some p else s.made[j]? := by
  obtain ⟨bound, -⟩ := List.getElem?_eq_some_iff.1 inquiry
  rw [made, List.getElem?_set]
  by_cases own : i = j
  · simp [own, own ▸ bound]
  · simp [own, Ne.symm own]

theorem Step.later (step : Step s move t) (inquiry : s.made[j]? = some p) :
    ∃ q, t.made[j]? = some q ∧ p.Later q := by
  cases step with
  | ask free clock made =>
      obtain ⟨bound, -⟩ := List.getElem?_eq_some_iff.1 inquiry
      rw [made]
      exact ⟨p, (List.getElem?_append_left bound).trans inquiry, .refl p⟩
  | take own asked clock made =>
      rw [getElem?_made own made]
      split
      · rename_i equal
        cases (equal ▸ inquiry).symm.trans own
        exact ⟨_, rfl, rfl, rfl, by simp [Inquiry.certain?, asked]⟩
      · exact ⟨p, inquiry, .refl p⟩
  | tell other own certain same stamped clock made =>
      rw [getElem?_made own made]
      split
      · rename_i equal
        cases (equal ▸ inquiry).symm.trans own
        exact ⟨_, rfl, rfl, rfl, fun before => by rw [same, ← before, certain]⟩
      · exact ⟨p, inquiry, .refl p⟩

theorem Step.made_cases (step : Step s move t) (inquiry : t.made[j]? = some q) :
    (∃ p, s.made[j]? = some p ∧ p.Later q) ∨
    (j = s.made.length ∧ q.stage = .asked ∧
      ∀ p ∈ s.made, p.user = q.user → p.answer?.isSome = true) := by
  cases before : s.made[j]? with
  | some p =>
      obtain ⟨_, found, later⟩ := step.later before
      cases found.symm.trans inquiry
      exact .inl ⟨p, rfl, later⟩
  | none =>
      have beyond := List.getElem?_eq_none_iff.1 before
      cases step with
      | ask free clock made =>
          rw [made, List.getElem?_append_right beyond, List.getElem?_singleton] at inquiry
          split at inquiry <;> cases inquiry
          exact .inr ⟨by omega, rfl, free⟩
      | _ =>
          rename_i made
          rw [made, List.getElem?_eq_none (by simpa using beyond)] at inquiry
          cases inquiry

theorem Step.taken (step : Step s move t) (inquiry : t.made[j]? = some q)
    (certain : q.certain? = some time) :
    (∃ p, s.made[j]? = some p ∧ p.certain? = some time) ∨ move = .take j := by
  rcases step.made_cases inquiry with ⟨p, before, later⟩ | ⟨-, asked, -⟩
  · cases step with
    | ask free clock made =>
        obtain ⟨bound, -⟩ := List.getElem?_eq_some_iff.1 before
        rw [made, List.getElem?_append_left bound] at inquiry
        exact .inl ⟨q, inquiry, certain⟩
    | take own asked clock made =>
        rw [getElem?_made own made] at inquiry
        split at inquiry
        · rename_i same
          exact .inr (by rw [same])
        · exact .inl ⟨q, inquiry, certain⟩
    | tell other own sure same stamped clock made =>
        rw [getElem?_made own made] at inquiry
        split at inquiry
        · rename_i equal
          cases inquiry
          cases same.symm.trans certain
          exact .inl ⟨_, equal ▸ own, sure⟩
        · exact .inl ⟨q, inquiry, certain⟩
  · rw [Inquiry.certain?, asked] at certain
    cases certain

/-! ## Runs -/

theorem after?_append : s.after? recipe (earlier ++ rest) = some last ↔
    ∃ t, s.after? recipe earlier = some t ∧ t.after? recipe rest = some last := by
  simp [after?, Option.bind_eq_some_iff]

theorem after?_cons : s.after? recipe (move :: rest) = some last ↔
    ∃ t, s.move? recipe move = some t ∧ t.after? recipe rest = some last := by
  simp [after?, Option.bind_eq_some_iff]

theorem run_induction (property : List Move → Inquiries → Prop) (initially : property [] first)
    (kept : ∀ {moves : List Move} {s : Inquiries} {move : Move} {t : Inquiries},
      first.after? recipe moves = some s → property moves s → Step s move t →
        property (moves ++ [move]) t)
    (run : first.after? recipe moves = some last) : property moves last := by
  induction moves using List.reverseRecOn generalizing last with
  | nil =>
      cases run
      exact initially
  | append_singleton moves move ih =>
      obtain ⟨s, before, made⟩ := after?_append.1 run
      obtain ⟨t, made, ended⟩ := after?_cons.1 made
      cases ended
      exact kept before (ih before) (step_of_move? made)

theorem later_of_run (run : s.after? recipe moves = some last) (inquiry : s.made[j]? = some p) :
    ∃ q, last.made[j]? = some q ∧ p.Later q := by
  refine run_induction (fun _ t => ∃ q, t.made[j]? = some q ∧ p.Later q) ⟨p, inquiry, .refl p⟩ ?_
    run
  rintro moves s move t - ⟨q, inquiry, before⟩ step
  obtain ⟨r, inquiry, after⟩ := step.later inquiry
  exact ⟨r, inquiry, before.trans after⟩

/-! ## The readings that the clock has taken in -/

def readings (s : Inquiries) (moves : List Move) : Set Int64 :=
  {reading | ∃ i q, .take i ∈ moves ∧ s.made[i]? = some q ∧ q.reading = reading}

theorem readings_eq (present : ∀ {i}, .take i ∈ moves → i < s.made.length)
    (later : ∀ {i : Nat} {p : Inquiry}, s.made[i]? = some p →
      ∃ q, t.made[i]? = some q ∧ p.Later q) :
    t.readings moves = s.readings moves := by
  ext reading
  constructor
  · rintro ⟨i, q, taken, inquiry, rfl⟩
    have before := List.getElem?_eq_getElem (present taken)
    obtain ⟨_, same, after⟩ := later before
    cases same.symm.trans inquiry
    exact ⟨i, _, taken, before, after.reading.symm⟩
  · rintro ⟨i, p, taken, inquiry, rfl⟩
    obtain ⟨q, same, after⟩ := later inquiry
    exact ⟨i, q, taken, same, after.reading⟩

theorem readings_concat (other : ∀ j, move ≠ .take j) :
    s.readings (moves ++ [move]) = s.readings moves := by
  ext reading
  simp [readings, (other _).symm]

theorem readings_take (inquiry : s.made[i]? = some q) :
    s.readings (moves ++ [.take i]) = insert q.reading (s.readings moves) := by
  ext reading
  constructor
  · rintro ⟨j, p, taken, found, rfl⟩
    rcases List.mem_append.1 taken with before | now
    · exact .inr ⟨j, p, before, found, rfl⟩
    · cases List.mem_singleton.1 now
      cases found.symm.trans inquiry
      exact .inl rfl
  · rintro (rfl | ⟨j, p, before, found, rfl⟩)
    · exact ⟨i, q, by simp, inquiry, rfl⟩
    · exact ⟨j, p, List.mem_append_left _ before, found, rfl⟩

structure Kept (moves : List Move) (s : Inquiries) (latest : Int64) : Prop where
  clock : s.clock = .monotone latest
  greatest : IsGreatest (insert 0 (s.readings moves)) latest
  present : ∀ {i}, .take i ∈ moves → i < s.made.length
  taken : ∀ {i q time}, s.made[i]? = some q → q.certain? = some time → .take i ∈ moves

theorem Kept.step (kept : Kept moves s latest) (step : Step s move t) :
    ∃ newest, Kept (moves ++ [move]) t newest := by
  have same := readings_eq kept.present step.later
  have present : ∀ {i}, .take i ∈ moves → i < t.made.length := fun before => by
    obtain ⟨_, found, -⟩ := step.later (List.getElem?_eq_getElem (kept.present before))
    exact (List.getElem?_eq_some_iff.1 found).1
  have taken : ∀ {i q time}, t.made[i]? = some q → q.certain? = some time →
      .take i ∈ moves ++ [move] := fun inquiry certain => by
    rcases step.taken inquiry certain with ⟨p, before, certain⟩ | now
    · exact List.mem_append_left _ (kept.taken before certain)
    · simp [now]
  cases step with
  | ask free clock made =>
      refine ⟨latest, clock.trans kept.clock, ?_, fun {i} member => ?_, taken⟩
      · rw [readings_concat (by simp), same]
        exact kept.greatest
      · exact present (by simpa using member)
  | @take i q _ inquiry asked clock made =>
      have found := getElem?_made inquiry made i
      rw [if_pos rfl] at found
      refine ⟨max latest q.reading, ?_, ?_, fun {j} member => ?_, taken⟩
      · rw [clock, kept.clock, Clock.read_monotone]
      · rw [readings_take found, same, Set.insert_comm]
        exact isGreatest_insert_max kept.greatest q.reading
      · rcases List.mem_append.1 member with before | now
        · exact present before
        · cases List.mem_singleton.1 now
          exact (List.getElem?_eq_some_iff.1 found).1
  | tell other own certain sure stamped clock made =>
      refine ⟨latest, clock.trans kept.clock, ?_, fun {j} member => ?_, taken⟩
      · rw [readings_concat other, same]
        exact kept.greatest
      · rcases List.mem_append.1 member with before | now
        · exact present before
        · exact absurd (List.mem_singleton.1 now).symm (other j)

theorem kept_of_run (run : (start words).after? recipe moves = some last) :
    ∃ latest, Kept moves last latest := by
  refine run_induction (fun moves s => ∃ latest, Kept moves s latest) ?_ ?_ run
  · refine ⟨0, rfl, ?_, nofun, nofun⟩
    have none : (start words).readings [] = ∅ := by simp [readings]
    rw [none, insert_empty_eq]
    refine ⟨rfl, ?_⟩
    rintro _ ⟨⟩
    exact Int64.le_refl _
  · rintro moves s move t - ⟨latest, kept⟩ step
    exact kept.step step

/-! ## The time of an inquiry -/

theorem certain_of_run (run : (start words).after? recipe moves = some last)
    (inquiry : last.made[i]? = some q) (split : moves = earlier ++ .take i :: rest) :
    ∃ time, q.certain? = some time ∧
      IsGreatest (insert 0 (insert q.reading (last.readings earlier))) time := by
  rw [split, after?_append] at run
  obtain ⟨s, before, run⟩ := run
  obtain ⟨t, made, after⟩ := after?_cons.1 run
  obtain ⟨latest, kept⟩ := kept_of_run before
  cases step_of_move? made with
  | tell other => exact absurd rfl (other i)
  | @take _ p _ found asked clock made =>
      have taken := getElem?_made found made i
      rw [if_pos rfl] at taken
      -- No later move has an effect on what is certain now.
      obtain ⟨_, same, later⟩ := later_of_run after taken
      cases same.symm.trans inquiry
      refine ⟨max latest q.reading, later.certain ?_, ?_⟩
      · change some (s.clock.read p.reading).1 = _
        rw [kept.clock, Clock.read_monotone, later.reading]
      · rw [readings_eq kept.present (later_of_run run), Set.insert_comm]
        exact isGreatest_insert_max kept.greatest q.reading

theorem stamped_of_run (run : (start words).after? recipe moves = some last)
    (inquiry : last.made[i]? = some q) {push : Push} (composed : q.push? = some push) :
    q.certain? = some push.timestamp := by
  refine run_induction (fun _ s => ∀ {i : Nat} {q : Inquiry} {push : Push}, s.made[i]? = some q →
    q.push? = some push → q.certain? = some push.timestamp) (by simp [start]) ?_ run inquiry
    composed
  rintro moves s move t - before step i q push inquiry composed
  cases step with
  | ask free clock made =>
      rw [made, List.getElem?_append] at inquiry
      split at inquiry
      · exact before inquiry composed
      · rw [List.getElem?_singleton] at inquiry
        split at inquiry <;> cases inquiry
        cases composed
  | take own asked clock made =>
      rw [getElem?_made own made] at inquiry
      split at inquiry
      · cases inquiry
        cases composed
      · exact before inquiry composed
  | tell other own certain same stamped clock made =>
      rw [getElem?_made own made] at inquiry
      split at inquiry
      · cases inquiry
        rw [same, stamped push composed]
      · exact before inquiry composed

end Inquiries

end Volley
